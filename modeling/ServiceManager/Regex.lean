import Mathlib.Computability.Language

namespace ServiceManager

open Computability

/-- Regular expressions over classes of symbols. -/
inductive Regex (α : Type) where
  | fail
  | empty
  | symbol (p : α → Bool)
  | alt (r r' : Regex α)
  | seq (r r' : Regex α)
  | star (r : Regex α)

namespace Regex

variable {α : Type}

def language : Regex α → Language α
  | fail => 0
  | empty => 1
  | symbol p => {x | ∃ a, p a = true ∧ x = [a]}
  | alt r r' => r.language + r'.language
  | seq r r' => r.language * r'.language
  | star r => r.language∗

def nullable : Regex α → Bool
  | fail => false
  | empty => true
  | symbol _ => false
  | alt r r' => r.nullable || r'.nullable
  | seq r r' => r.nullable && r'.nullable
  | star _ => true

/-- What may follow a symbol. -/
def deriv (a : α) : Regex α → Regex α
  | fail => fail
  | empty => fail
  | symbol p => if p a then empty else fail
  | alt r r' => alt (r.deriv a) (r'.deriv a)
  | seq r r' => if r.nullable then alt (seq (r.deriv a) r') (r'.deriv a) else seq (r.deriv a) r'
  | star r => seq (r.deriv a) (star r)

/-- The length of the longest beginning that matches. -/
def longest : Regex α → List α → Option Nat
  | r, [] => if r.nullable then some 0 else none
  | r, a :: s =>
    match longest (r.deriv a) s with
    | some n => some (n + 1)
    | none => if r.nullable then some 0 else none

/-- A match may begin with the symbol. -/
def first : Regex α → α → Bool
  | fail, _ => false
  | empty, _ => false
  | symbol p, a => p a
  | alt r r', a => r.first a || r'.first a
  | seq r r', a => r.first a || (r.nullable && r'.first a)
  | star r, a => r.first a

/-- The symbol may be in a match. -/
def uses : Regex α → α → Bool
  | fail, _ => false
  | empty, _ => false
  | symbol p, a => p a
  | alt r r', a => r.uses a || r'.uses a
  | seq r r', a => r.uses a || r'.uses a
  | star r, a => r.uses a

theorem nullable_iff (r : Regex α) : r.nullable = true ↔ [] ∈ r.language := by
  induction r with
  | fail => simp [nullable, language]
  | empty => simp [nullable, language]
  | symbol p =>
    refine iff_of_false Bool.false_ne_true ?_
    rintro ⟨a, _, heq⟩
    cases heq
  | alt r r' ih ih' => rw [nullable, Bool.or_eq_true, ih, ih', language, Language.mem_add]
  | seq r r' ih ih' =>
    rw [nullable, Bool.and_eq_true, ih, ih', language, Language.mem_mul]
    constructor
    · exact fun ⟨h, h'⟩ => ⟨[], h, [], h', rfl⟩
    · rintro ⟨x, hx, y, hy, hxy⟩
      obtain ⟨rfl, rfl⟩ := List.append_eq_nil_iff.mp hxy
      exact ⟨hx, hy⟩
  | star r _ => exact iff_of_true rfl (Language.nil_mem_kstar _)

/-- A word of a concatenation that begins with a symbol. -/
theorem cons_mem_mul_iff {l m : Language α} {a : α} {s : List α} :
    a :: s ∈ l * m ↔ (∃ x y, a :: x ∈ l ∧ y ∈ m ∧ x ++ y = s) ∨ ([] ∈ l ∧ a :: s ∈ m) := by
  rw [Language.mem_mul]
  constructor
  · rintro ⟨x, hx, y, hy, hxy⟩
    cases x with
    | nil =>
      rw [List.nil_append] at hxy
      exact Or.inr ⟨hx, hxy ▸ hy⟩
    | cons b x =>
      obtain ⟨rfl, rfl⟩ := List.cons.inj hxy
      exact Or.inl ⟨x, y, hx, hy, rfl⟩
  · rintro (⟨x, y, hx, hy, rfl⟩ | ⟨hnil, hs⟩)
    · exact ⟨a :: x, hx, y, hy, rfl⟩
    · exact ⟨[], hnil, a :: s, hs, rfl⟩

theorem cons_mem_kstar_iff {l : Language α} {a : α} {s : List α} :
    a :: s ∈ l∗ ↔ ∃ x y, a :: x ∈ l ∧ y ∈ l∗ ∧ x ++ y = s := by
  constructor
  · intro h
    rw [Language.kstar_def_nonempty] at h
    obtain ⟨words, hwords, hmem⟩ := h
    cases words with
    | nil => cases hwords
    | cons x words =>
      obtain ⟨⟨hx, hne⟩, hrest⟩ := List.forall_mem_cons.mp hmem
      obtain ⟨b, x, rfl⟩ := List.exists_cons_of_ne_nil hne
      obtain ⟨rfl, rfl⟩ := List.cons.inj hwords
      exact ⟨x, words.flatten, hx, Language.mem_kstar.mpr ⟨words, rfl, fun y hy => (hrest y hy).1⟩, rfl⟩
  · rintro ⟨x, y, hx, hy, rfl⟩
    obtain ⟨words, rfl, hmem⟩ := Language.mem_kstar.mp hy
    exact Language.mem_kstar.mpr ⟨(a :: x) :: words, rfl, List.forall_mem_cons.mpr ⟨hx, hmem⟩⟩

/-- The derivative of a pattern matches what comes after the symbol, by induction on the pattern. -/
theorem mem_deriv (r : Regex α) {a : α} {s : List α} : s ∈ (r.deriv a).language ↔ a :: s ∈ r.language := by
  induction r generalizing s with
  | fail => exact iff_of_false (Language.notMem_zero _) (Language.notMem_zero _)
  | empty => exact iff_of_false (Language.notMem_zero _) (by simp [language])
  | symbol p =>
    rw [deriv]
    split
    · rename_i hp
      have hself : s = [] ↔ ∃ b, p b = true ∧ a :: s = [b] := by
        constructor
        · rintro rfl
          exact ⟨a, hp, rfl⟩
        · rintro ⟨b, _, heq⟩
          exact (List.cons.inj heq).2
      exact hself
    · rename_i hp
      refine iff_of_false (Language.notMem_zero _) ?_
      rintro ⟨b, hb, heq⟩
      obtain ⟨rfl, _⟩ := List.cons.inj heq
      exact hp hb
  | alt r r' ih ih' => rw [deriv, language, Language.mem_add, ih, ih', language, Language.mem_add]
  | seq r r' ih ih' =>
    have hseq : s ∈ (seq (r.deriv a) r').language ↔ ∃ x y, a :: x ∈ r.language ∧ y ∈ r'.language ∧ x ++ y = s := by
      rw [language, Language.mem_mul]
      constructor
      · rintro ⟨x, hx, y, hy, hxy⟩
        exact ⟨x, y, ih.mp hx, hy, hxy⟩
      · rintro ⟨x, y, hx, hy, hxy⟩
        exact ⟨x, ih.mpr hx, y, hy, hxy⟩
    rw [deriv, language, cons_mem_mul_iff, ← nullable_iff]
    split
    · rename_i hnull
      rw [language, Language.mem_add, hseq, ih', and_iff_right hnull]
    · rename_i hnull
      rw [hseq, or_iff_left fun h => hnull h.1]
  | star r ih =>
    rw [deriv, language, Language.mem_mul, language, cons_mem_kstar_iff]
    constructor
    · rintro ⟨x, hx, y, hy, hxy⟩
      exact ⟨x, y, ih.mp hx, hy, hxy⟩
    · rintro ⟨x, y, hx, hy, hxy⟩
      exact ⟨x, ih.mpr hx, y, hy, hxy⟩

/-- What is found matches. -/
theorem longest_mem {r : Regex α} {s : List α} {n : Nat} (h : r.longest s = some n) :
    n ≤ s.length ∧ s.take n ∈ r.language := by
  induction s generalizing r n with
  | nil =>
    rw [longest] at h
    split at h
    · rename_i hnull
      obtain rfl := Option.some.inj h
      exact ⟨Nat.le_refl 0, (nullable_iff r).mp hnull⟩
    · cases h
  | cons a s ih =>
    rw [longest] at h
    split at h
    · rename_i m hm
      obtain rfl := Option.some.inj h
      obtain ⟨hle, hmem⟩ := ih hm
      exact ⟨Nat.succ_le_succ hle, (mem_deriv r).mp hmem⟩
    · split at h
      · rename_i hnull
        obtain rfl := Option.some.inj h
        exact ⟨Nat.zero_le _, (nullable_iff r).mp hnull⟩
      · cases h

/-- Nothing longer matches. -/
theorem longest_le {r : Regex α} {s u : List α} (hu : u ∈ r.language) (hbegins : u <+: s) :
    ∃ n, r.longest s = some n ∧ u.length ≤ n := by
  induction s generalizing r u with
  | nil =>
    obtain rfl := List.prefix_nil.mp hbegins
    exact ⟨0, by rw [longest, if_pos ((nullable_iff r).mpr hu)], Nat.le_refl 0⟩
  | cons a s ih =>
    rw [longest]
    cases u with
    | nil =>
      rw [if_pos ((nullable_iff r).mpr hu)]
      split
      · exact ⟨_, rfl, Nat.zero_le _⟩
      · exact ⟨0, rfl, Nat.le_refl 0⟩
    | cons b u =>
      obtain ⟨rfl, htail⟩ := List.cons_prefix_cons.mp hbegins
      obtain ⟨n, hn, hle⟩ := ih ((mem_deriv r).mpr hu) htail
      exact ⟨n + 1, by rw [hn], Nat.succ_le_succ hle⟩

/-- A beginning is the longest that matches if every other that does is no longer. -/
theorem longest_eq {r : Regex α} {s u : List α} (hu : u ∈ r.language) (hbegins : u <+: s)
    (hmax : ∀ u' ∈ r.language, u' <+: s → u'.length ≤ u.length) : r.longest s = some u.length := by
  obtain ⟨n, hn, hle⟩ := longest_le hu hbegins
  obtain ⟨hlen, hmem⟩ := longest_mem hn
  have hge := hmax _ hmem (List.take_prefix n s)
  rw [List.length_take, Nat.min_eq_left hlen] at hge
  rw [hn, Nat.le_antisymm hge hle]

theorem first_of_mem {r : Regex α} {a : α} {s : List α} (h : a :: s ∈ r.language) : r.first a = true := by
  induction r generalizing s with
  | fail => exact absurd h (Language.notMem_zero _)
  | empty => cases h
  | symbol p =>
    obtain ⟨b, hb, heq⟩ := h
    obtain ⟨rfl, _⟩ := List.cons.inj heq
    exact hb
  | alt r r' ih ih' =>
    rw [first, Bool.or_eq_true]
    exact ((Language.mem_add _ _ _).mp h).imp ih ih'
  | seq r r' ih ih' =>
    rw [first, Bool.or_eq_true, Bool.and_eq_true, nullable_iff]
    rcases cons_mem_mul_iff.mp h with ⟨x, y, hx, _, _⟩ | ⟨hnil, hs⟩
    · exact Or.inl (ih hx)
    · exact Or.inr ⟨hnil, ih' hs⟩
  | star r ih =>
    obtain ⟨x, y, hx, _, _⟩ := cons_mem_kstar_iff.mp h
    exact ih hx

theorem exists_cons_of_mem {r : Regex α} {s : List α} (hnull : r.nullable = false) (h : s ∈ r.language) :
    ∃ a u, s = a :: u ∧ r.first a = true := by
  cases s with
  | nil =>
    rw [← nullable_iff, hnull] at h
    cases h
  | cons a u => exact ⟨a, u, rfl, first_of_mem h⟩

/-- A symbol of a match is one that the pattern uses. -/
theorem uses_of_mem {r : Regex α} {a : α} {s : List α} (h : s ∈ r.language) (ha : a ∈ s) : r.uses a = true := by
  induction r generalizing s with
  | fail => exact absurd h (Language.notMem_zero _)
  | empty =>
    obtain rfl : s = [] := h
    cases ha
  | symbol p =>
    obtain ⟨b, hb, rfl⟩ := h
    rw [List.mem_singleton.mp ha]
    exact hb
  | alt r r' ih ih' =>
    rw [uses, Bool.or_eq_true]
    exact ((Language.mem_add _ _ _).mp h).imp (fun h => ih h ha) fun h => ih' h ha
  | seq r r' ih ih' =>
    rw [uses, Bool.or_eq_true]
    obtain ⟨x, hx, y, hy, rfl⟩ := Language.mem_mul.mp h
    exact (List.mem_append.mp ha).imp (ih hx) (ih' hy)
  | star r ih =>
    obtain ⟨words, rfl, hwords⟩ := Language.mem_kstar.mp h
    obtain ⟨x, hx, ha⟩ := List.mem_flatten.mp ha
    exact ih (hwords x hx) ha

/-- A match ends before a symbol that is in none. -/
theorem prefix_of_not_uses {r : Regex α} {u s t : List α} {a : α} (hu : u ∈ r.language) (hbegins : u <+: s ++ a :: t)
    (ha : r.uses a = false) : u <+: s := by
  rcases List.prefix_or_prefix_of_prefix hbegins (List.prefix_append s (a :: t)) with hshort | ⟨x, rfl⟩
  · exact hshort
  · have hx : x <+: a :: t := (List.prefix_append_right_inj s).mp hbegins
    cases x with
    | nil =>
      rw [List.append_nil]
    | cons b x =>
      obtain ⟨rfl, _⟩ := List.cons_prefix_cons.mp hx
      have huses := uses_of_mem hu (List.mem_append_right s List.mem_cons_self)
      rw [ha] at huses
      cases huses

/-- What comes from such a symbol on makes no difference. -/
theorem longest_append_cons {r : Regex α} {a : α} (ha : r.uses a = false) (s t : List α) :
    r.longest (s ++ a :: t) = r.longest s := by
  have hmatch : ∀ u ∈ r.language, u <+: s ++ a :: t ↔ u <+: s := fun u hu =>
    ⟨fun hbegins => prefix_of_not_uses hu hbegins ha, fun hbegins => hbegins.trans (List.prefix_append _ _)⟩
  cases hn : r.longest s with
  | some n =>
    obtain ⟨hle, hmem⟩ := longest_mem hn
    have hlength : (s.take n).length = n := by rw [List.length_take, Nat.min_eq_left hle]
    rw [← hlength]
    refine longest_eq hmem ((hmatch _ hmem).mpr (List.take_prefix n s)) fun u hu hbegins => ?_
    obtain ⟨m, hm, hum⟩ := longest_le hu ((hmatch u hu).mp hbegins)
    rw [hn] at hm
    rwa [hlength, Option.some.inj hm]
  | none =>
    rw [Option.eq_none_iff_forall_ne_some]
    intro m hm
    obtain ⟨_, hmem⟩ := longest_mem hm
    obtain ⟨n, hsome, _⟩ := longest_le hmem ((hmatch _ hmem).mp (List.take_prefix m _))
    rw [hn] at hsome
    cases hsome

/-- Nothing matches that begins with another symbol. -/
theorem longest_eq_none {r : Regex α} {a : α} {s : List α} (hnull : r.nullable = false) (hfirst : r.first a = false) :
    r.longest (a :: s) = none := by
  rw [Option.eq_none_iff_forall_ne_some]
  intro n hn
  obtain ⟨b, u, heq, hb⟩ := exists_cons_of_mem hnull (longest_mem hn).2
  cases n with
  | zero => cases heq
  | succ n =>
    obtain ⟨rfl, _⟩ := List.cons.inj heq
    rw [hfirst] at hb
    cases hb

/-- Words of a prefix code, up to a symbol that begins none of them, are told from what comes after. -/
theorem star_before_unique {r : Regex α} {q : α} (hnull : r.nullable = false) (hq : r.first q = false)
    (hcode : ∀ u ∈ r.language, ∀ v ∈ r.language, ∀ s t, u ++ s = v ++ t → u = v) {x y s t : List α}
    (hx : x ∈ (star r).language) (hy : y ∈ (star r).language) (h : x ++ q :: s = y ++ q :: t) : x = y := by
  have hbegins : ∀ u ∈ r.language, ∀ s' t', u ++ s' ≠ q :: t' := by
    intro u hu s' t' heq
    obtain ⟨b, u, rfl, hb⟩ := exists_cons_of_mem hnull hu
    obtain ⟨rfl, _⟩ := List.cons.inj heq
    rw [hq] at hb
    cases hb
  obtain ⟨words, rfl, hwords⟩ := Language.mem_kstar.mp hx
  obtain ⟨words', rfl, hwords'⟩ := Language.mem_kstar.mp hy
  clear hx hy
  induction words generalizing words' with
  | nil =>
    cases words' with
    | nil => rfl
    | cons v words' =>
      rw [List.flatten_cons, List.append_assoc] at h
      exact absurd h.symm (hbegins v (hwords' v List.mem_cons_self) _ _)
  | cons u words ih =>
    have hu := hwords u List.mem_cons_self
    cases words' with
    | nil =>
      rw [List.flatten_cons, List.append_assoc] at h
      exact absurd h (hbegins u hu _ _)
    | cons v words' =>
      rw [List.flatten_cons, List.flatten_cons, List.append_assoc, List.append_assoc] at h
      obtain rfl := hcode u hu v (hwords' v List.mem_cons_self) _ _ h
      have htail := ih (fun w hw => hwords w (List.mem_cons_of_mem _ hw)) words'
        (fun w hw => hwords' w (List.mem_cons_of_mem _ hw)) (List.append_cancel_left h)
      rw [List.flatten_cons, List.flatten_cons, htail]

end Regex

end ServiceManager
