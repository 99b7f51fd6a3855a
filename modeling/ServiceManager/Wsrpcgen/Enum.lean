import Mathlib.Data.List.Nodup
import ServiceManager.Wsrpcgen.Codec
import ServiceManager.Wsrpcgen.Idl

namespace ServiceManager.Wsrpcgen.Idl

structure Enumeration where
  name : String
  entries : List Entry

/-- The string for an entry, its identifier where none is given. -/
def Entry.text (entry : Entry) : String :=
  cStr (entry.str.getD entry.id)

/-- The enumerators with their values: one that has none of its own comes after the one
before it. -/
def number (next : Int) : List Entry → List (Entry × Int)
  | [] => []
  | entry :: rest => (entry, entry.iVal.getD next) :: number (entry.iVal.getD next + 1) rest

/-- The value of an enumerator after these. -/
def numberAfter (next : Int) : List Entry → Int
  | [] => next
  | entry :: rest => numberAfter (entry.iVal.getD next + 1) rest

namespace Enumeration

variable (e : Enumeration)

def numbered : List (Entry × Int) :=
  number 0 e.entries

/-- The enumerator that is appended to the entries. -/
def kMax : Int :=
  numberAfter 0 e.entries

/-- The chain of comparisons; NULL if none holds. -/
def toPSz (value : Int) : Option String :=
  (e.numbered.find? fun m => m.2 = value).map fun m => m.1.text

def fromPSz (pSz : String) : Int :=
  ((e.numbered.find? fun m => m.1.text = pSz).map Prod.snd).getD e.kMax

def serialise (fromString : String → String) (value : Int) : Option Ucl :=
  (e.toPSz value).map fun text => .string (fromString text)

/-- The value that is left in `out`, if the function returns true. -/
def deserialise (obj : Ucl) : Option Int :=
  match obj.toString? with
  | none => none
  | some txt => if e.fromPSz (cStr txt) = e.kMax then none else some (e.fromPSz (cStr txt))

/-- The string is what the library makes of that of an entry: of the first one that has the number
of the entry with the string. -/
def Keeps (fromString : String → String) (s : String) : Prop :=
  ∃ m, (e.numbered.find? fun m => m.1.text = cStr s) = some m ∧
    ∃ first, (e.numbered.find? fun m' => m'.2 = m.2) = some first ∧ fromString first.1.text = s

/-- The names in the class that is generated, its own included. -/
def declaredNames : List String :=
  [e.name, "_E" ++ e.name] ++ (e.entries.map Entry.id ++ ["kMax"] ++ e.entries.map (fun entry => entry.id ++ "PSz") ++
    ["value", "toPSz", "serialise", "fromPSz", "deserialise"])

/-- A compiler takes the generated class: it declares each name once, and an integer type
holds the enumerators. `isIdentifier` says which names are neither keywords nor macros. The
parameter `pSz` of `fromPSz` would hide an entry. -/
structure WellFormed (isIdentifier : String → Bool) : Prop where
  identifiers : ∀ name ∈ e.declaredNames, isIdentifier name = true
  nodup : e.declaredNames.Nodup
  shown : "pSz" ∉ e.entries.map Entry.id
  literals : ∀ entry ∈ e.entries, ∀ v, entry.iVal = some v → -2 ^ 63 < v ∧ v < 2 ^ 63
  fits : (∀ v ∈ e.kMax :: e.numbered.map Prod.snd, -2 ^ 63 ≤ v ∧ v < 2 ^ 63) ∨
    ∀ v ∈ e.kMax :: e.numbered.map Prod.snd, 0 ≤ v ∧ v < 2 ^ 64

/-- The functions of the class are there, and inverse; and `deserialise` takes no other
string. -/
structure RoundTrips (isIdentifier : String → Bool) (fromString : String → String) : Prop where
  wellFormed : e.WellFormed isIdentifier
  inverse : ∀ m ∈ e.numbered, ∃ obj, e.serialise fromString m.2 = some obj ∧ e.deserialise obj = some m.2
  rejects : ∀ s, '\x00' ∉ s.toList → (∀ entry ∈ e.entries, s ≠ entry.text) → e.deserialise (.string s) = none

section RoundTrips

variable {e} {isIdentifier : String → Bool} {fromString : String → String}

theorem number_fst (next : Int) (entries : List Entry) : (number next entries).map Prod.fst = entries := by
  induction entries generalizing next with
  | nil => rfl
  | cons entry rest ih => rw [number, List.map_cons, ih]

theorem numbered_fst : e.numbered.map Prod.fst = e.entries :=
  number_fst 0 e.entries

theorem mem_entries_of_numbered {m : Entry × Int} (h : m ∈ e.numbered) : m.1 ∈ e.entries := by
  rw [← numbered_fst]
  exact List.mem_map_of_mem h

theorem serialise_entry (hvalues : (e.numbered.map Prod.snd).Nodup) {m : Entry × Int} (hm : m ∈ e.numbered) :
    e.serialise fromString m.2 = some (.string (fromString m.1.text)) := by
  have hfind : (e.numbered.find? fun m' => m'.2 = m.2) = some m := find?_of_nodup hvalues hm
  rw [serialise, toPSz, hfind]
  rfl

theorem fromPSz_entry (htexts : (e.entries.map Entry.text).Nodup) {m : Entry × Int} (hm : m ∈ e.numbered) :
    e.fromPSz m.1.text = m.2 := by
  have hnodup : (e.numbered.map fun m => m.1.text).Nodup := by
    rw [← numbered_fst, List.map_map] at htexts
    exact htexts
  have hfind : (e.numbered.find? fun m' => m'.1.text = m.1.text) = some m := find?_of_nodup hnodup hm
  rw [fromPSz, hfind]
  rfl

theorem fromPSz_other {s : String} (h : ∀ entry ∈ e.entries, s ≠ entry.text) : e.fromPSz s = e.kMax := by
  have hnone : (e.numbered.find? fun m => m.1.text = s) = none := by
    rw [List.find?_eq_none]
    intro m hm heq
    exact h m.1 (mem_entries_of_numbered hm) (of_decide_eq_true heq).symm
  rw [fromPSz, hnone]
  rfl

/-- A string that yields the value of an entry is that of the entry. -/
theorem text_of_fromPSz (hvalues : (e.numbered.map Prod.snd).Nodup) {s : String} {m : Entry × Int} (hm : m ∈ e.numbered)
    (hne : m.2 ≠ e.kMax) (h : e.fromPSz s = m.2) : s = m.1.text := by
  rw [fromPSz] at h
  cases hfind : e.numbered.find? fun m => m.1.text = s with
  | none =>
    rw [hfind] at h
    exact absurd h.symm hne
  | some m' =>
    rw [hfind] at h
    have htext : m'.1.text = s := by simpa using List.find?_some hfind
    have hsame : m' = m := List.inj_on_of_nodup_map hvalues (List.mem_of_find?_eq_some hfind) hm h
    rw [← htext, hsame]

/-- A string whose number is not `kMax` is that of an entry. -/
theorem find?_of_fromPSz {s : String} (h : e.fromPSz s ≠ e.kMax) :
    ∃ m, (e.numbered.find? fun m => m.1.text = s) = some m ∧ e.fromPSz s = m.2 := by
  unfold fromPSz at h ⊢
  cases hfind : e.numbered.find? fun m => m.1.text = s with
  | none =>
    rw [hfind] at h
    exact absurd rfl h
  | some m => exact ⟨m, rfl, rfl⟩

theorem deserialise_string {s : String} {value : Int} :
    e.deserialise (.string s) = some value ↔ e.fromPSz (cStr s) = value ∧ value ≠ e.kMax := by
  have heq : e.deserialise (.string s) = if e.fromPSz (cStr s) = e.kMax then none else some (e.fromPSz (cStr s)) := rfl
  rw [heq]
  split
  next h =>
    rw [h]
    constructor
    · intro hvalue
      cases hvalue
    · intro ⟨hvalue, hne⟩
      exact absurd hvalue.symm hne
  next h =>
    constructor
    · intro hvalue
      obtain rfl := Option.some_inj.mp hvalue
      exact ⟨rfl, h⟩
    · intro ⟨hvalue, _⟩
      rw [hvalue]

theorem rejects_other {s : String} (hnul : '\x00' ∉ s.toList) (h : ∀ entry ∈ e.entries, s ≠ entry.text) :
    e.deserialise (.string s) = none := by
  rw [Option.eq_none_iff_forall_ne_some]
  intro value hvalue
  obtain ⟨hfrom, hne⟩ := deserialise_string.mp hvalue
  rw [cStr_eq_self hnul, fromPSz_other h] at hfrom
  exact hne hfrom.symm

/-- An entry comes back exactly if it is not numbered as `kMax` is, and the library keeps
its string. -/
theorem entry_comes_iff (hvalues : (e.numbered.map Prod.snd).Nodup) (htexts : (e.entries.map Entry.text).Nodup)
    {m : Entry × Int} (hm : m ∈ e.numbered) :
    (∃ obj, e.serialise fromString m.2 = some obj ∧ e.deserialise obj = some m.2) ↔
      m.2 ≠ e.kMax ∧ cStr (fromString m.1.text) = m.1.text := by
  rw [serialise_entry hvalues hm]
  constructor
  · intro ⟨obj, hobj, hvalue⟩
    obtain rfl := Option.some_inj.mp hobj
    obtain ⟨hfrom, hne⟩ := deserialise_string.mp hvalue
    exact ⟨hne, text_of_fromPSz hvalues hm hne hfrom⟩
  · intro ⟨hne, hkept⟩
    refine ⟨_, rfl, deserialise_string.mpr ⟨?_, hne⟩⟩
    rw [hkept, fromPSz_entry htexts hm]

end RoundTrips

/-- The functions of an enumeration are inverse exactly if a compiler takes them, no entry
is numbered as the `kMax` after them, and the library keeps their strings. -/
theorem roundTrips_iff (e : Enumeration) (isIdentifier : String → Bool) (fromString : String → String)
    (hvalues : (e.numbered.map Prod.snd).Nodup) (htexts : (e.entries.map Entry.text).Nodup) :
    e.RoundTrips isIdentifier fromString ↔
      e.WellFormed isIdentifier ∧ (∀ m ∈ e.numbered, m.2 ≠ e.kMax) ∧
        ∀ entry ∈ e.entries, cStr (fromString entry.text) = entry.text := by
  constructor
  · intro ⟨hformed, hinverse, _⟩
    have hcomes : ∀ m ∈ e.numbered, m.2 ≠ e.kMax ∧ cStr (fromString m.1.text) = m.1.text :=
      fun m hm => (entry_comes_iff hvalues htexts hm).mp (hinverse m hm)
    refine ⟨hformed, fun m hm => (hcomes m hm).1, fun entry hentry => ?_⟩
    rw [← numbered_fst] at hentry
    obtain ⟨m, hm, rfl⟩ := List.mem_map.mp hentry
    exact (hcomes m hm).2
  · intro ⟨hformed, hnumbers, hkept⟩
    refine ⟨hformed, fun m hm => ?_, fun s hnul hother => rejects_other hnul hother⟩
    exact (entry_comes_iff hvalues htexts hm).mpr ⟨hnumbers m hm, hkept m.1 (mem_entries_of_numbered hm)⟩

/-- Letters, digits and underscores. -/
def isWord (s : String) : Bool :=
  s.toList.all fun c => c.isAlphanum || c = '_'

def stateEnum : Enumeration where
  name := "State"
  entries := [{ id := "kOffline", str := some "offline" }, { id := "kOnline", iVal := some 4 }, { id := "kFailed" }]

theorem roundTrips_state : stateEnum.RoundTrips isWord jsonEscape := by
  refine (roundTrips_iff stateEnum isWord jsonEscape (by decide) (by decide)).mpr ⟨?_, by decide, by decide⟩
  exact ⟨by decide, by decide, by decide, by decide, by decide⟩

/-- The explicit values go down: `kMax` is numbered as the first entry. -/
def downEnum : Enumeration where
  name := "Level"
  entries := [{ id := "kHigh", iVal := some 5 }, { id := "kLow", iVal := some 4 }]

theorem not_roundTrips_down : downEnum.WellFormed isWord ∧ (downEnum.entries.map Entry.id).Nodup ∧
    (downEnum.numbered.map Prod.snd).Nodup ∧ (downEnum.entries.map Entry.text).Nodup ∧
    downEnum.serialise jsonEscape 5 = some (.string "kHigh") ∧ downEnum.deserialise (.string "kHigh") = none := by
  refine ⟨⟨by decide, by decide, by decide, by decide, by decide⟩, by decide, by decide, by decide, ?_, ?_⟩
  · have htext : downEnum.toPSz 5 = some "kHigh" := by decide
    have hkept : jsonEscape "kHigh" = "kHigh" := by decide
    rw [serialise, htext, Option.map_some, hkept]
  · decide

end Enumeration

end ServiceManager.Wsrpcgen.Idl
