import Mathlib.Algebra.Group.Nat.Defs
import ServiceManager.Strtok

namespace ServiceManager.Core

open Strtok

/-- A command line, as the characters of a string before the one that ends it. -/
structure Command where
  chars : List UInt8
  nul_free : 0 ∉ chars

def isSpace (c : UInt8) : Bool :=
  c = 0x20

/-- The number after one in an `int`, which has none where it overflows. -/
def increment (n : Nat) : Option Nat :=
  if n + 1 < 2 ^ 31 then some (n + 1) else none

/-- Each turn keeps the word that is there before the next one is cut. -/
def splitCommand (mem : List UInt8) (cmd : Option Nat) (saveptr n_spaces : Nat) (argv : List Nat) :
    Option (List UInt8 × Nat × List Nat) :=
  match cmd with
  | none => some (mem, n_spaces, argv)
  | some p =>
    match _hcall : strtok_r 0 isSpace mem none saveptr with
    | (next, mem', saveptr') => do
      let n_spaces ← increment n_spaces
      splitCommand mem' next saveptr' n_spaces (argv ++ [p])
termination_by mem.length - saveptr + cmd.toList.length
decreasing_by
  have hprogress := strtok_r_progress _hcall
  simp only [Option.toList_some, List.length_singleton]
  omega

/-- The arguments that `execvp` gets. The first call of `strtok_r` only ends the first word:
the loop begins with `cmd` itself, not with what that call returned. -/
def eciProcessForkAndWait (cmd_ : Command) : Option (List (Option (List UInt8))) := do
  let (_, mem, saveptr) := strtok_r 0 isSpace (cmd_.chars ++ [0]) (some 0) 0
  let (mem, n_spaces, argv) ← splitCommand mem (some 0) saveptr 0 []
  let _ ← increment n_spaces
  return argv.map (fun p => some (string 0 mem p)) ++ [none]

theorem increment_eq_none {n : Nat} (h : 2 ^ 31 ≤ n + 1) : increment n = none :=
  if_neg (Nat.not_lt.mpr h)

theorem increment_eq_some {n : Nat} (h : n + 1 < 2 ^ 31) : increment n = some (n + 1) :=
  if_pos h

theorem splitCommand_some {mem mem' : List UInt8} {saveptr saveptr' : Nat} {next : Option Nat}
    (hcall : strtok_r 0 isSpace mem none saveptr = (next, mem', saveptr')) (p n_spaces : Nat) (argv : List Nat) :
    splitCommand mem (some p) saveptr n_spaces argv =
      (increment n_spaces).bind fun n_spaces => splitCommand mem' next saveptr' n_spaces (argv ++ [p]) := by
  rw [splitCommand, hcall]
  rfl

/-- The loop keeps the word it begins with and those that the calls find, as many as an `int` counts. -/
theorem splitCommand_eq (mem : List UInt8) (p saveptr n_spaces : Nat) (argv : List Nat) :
    splitCommand mem (some p) saveptr n_spaces argv =
      if n_spaces + 1 + (tokens 0 isSpace mem saveptr).1.length < 2 ^ 31 then
        some ((tokens 0 isSpace mem saveptr).2, n_spaces + 1 + (tokens 0 isSpace mem saveptr).1.length,
          argv ++ p :: (tokens 0 isSpace mem saveptr).1)
      else none := by
  induction mem, saveptr using tokens.induct 0 isSpace generalizing p n_spaces argv with
  | case1 mem saveptr mem' saveptr' hcall =>
    rw [splitCommand_some hcall, tokens_none hcall]
    by_cases hfits : n_spaces + 1 < 2 ^ 31
    · rw [increment_eq_some hfits, Option.bind_some, splitCommand]
      exact (if_pos hfits).symm
    · rw [increment_eq_none (by omega)]
      exact (if_neg hfits).symm
  | case2 mem saveptr q mem' saveptr' hcall ps final heq ih =>
    rw [splitCommand_some hcall, tokens_some hcall]
    by_cases hfits : n_spaces + 1 < 2 ^ 31
    · rw [increment_eq_some hfits, Option.bind_some, ih]
      simp only [List.length_cons, List.append_assoc, List.singleton_append, Nat.add_assoc, Nat.add_comm 1]
    · rw [increment_eq_none (by omega), if_neg (by simp only [List.length_cons]; omega)]
      rfl

/-- The first argument reaches from the beginning of the command to the end of its first word. -/
theorem eciProcessForkAndWait_eq (cmd : Command) (sp w rest : List UInt8) (hchars : cmd.chars = sp ++ (w ++ rest))
    (hsp : ∀ c ∈ sp, isSpace c = true) (hw : ∀ c ∈ w, isSpace c = false) (hempty : w = [] → rest = [])
    (hrest : ∀ d ∈ rest.head?, isSpace d = true) :
    eciProcessForkAndWait cmd =
      if (words isSpace rest).length + 2 < 2 ^ 31 then some (some (sp ++ w) :: (words isSpace rest).map some ++ [none])
      else none := by
  have hnul := cmd.nul_free
  rw [hchars] at hnul
  obtain ⟨first, mem, saveptr, hcall, hfirst, hwords⟩ := tokens_first hsp hw hempty hrest hnul 0
  have hlength := congrArg List.length hwords
  rw [List.length_map] at hlength
  rw [eciProcessForkAndWait, hchars, hcall]
  change (splitCommand mem (some 0) saveptr 0 []).bind _ = _
  rw [splitCommand_eq, hlength]
  by_cases hfits : (words isSpace rest).length + 2 < 2 ^ 31
  · rw [if_pos hfits, if_pos (by omega), Option.bind_some]
    change (increment _).bind _ = _
    rw [increment_eq_some (by omega), ← hwords]
    simp [hfirst]
  · rw [if_neg hfits]
    split
    · change (increment _).bind _ = _
      rw [increment_eq_none (by omega)]
      rfl
    · rfl

/-- The arguments are the words of the command exactly if it begins with one, and an `int` counts them
and the null pointer after them. -/
theorem eciProcessForkAndWait_words_iff (cmd : Command) :
    eciProcessForkAndWait cmd = some ((words isSpace cmd.chars).map some ++ [none]) ↔
      (∃ c ∈ cmd.chars.head?, isSpace c = false) ∧ (words isSpace cmd.chars).length + 1 < 2 ^ 31 := by
  obtain ⟨sp, w, rest, hchars, hsp, hw, hempty, hrest⟩ := cut_word isSpace cmd.chars
  rw [eciProcessForkAndWait_eq cmd sp w rest hchars hsp hw hempty hrest, hchars, words_append_of_blank hsp]
  by_cases hne : w = []
  · obtain rfl := hempty hne
    subst hne
    have hnone : words isSpace ([] ++ []) = [] := rfl
    rw [hnone]
    constructor
    · intro h
      split at h
      · have hlength := congrArg List.length (Option.some.inj h)
        simp at hlength
      · cases h
    · rintro ⟨⟨c, hc, hspace⟩, _⟩
      have hblank := hsp c (List.mem_of_head? (by simpa using hc))
      simp [hblank] at hspace
  · rw [words_append_of_solid hw hne hrest]
    obtain ⟨c, t, rfl⟩ := List.exists_cons_of_ne_nil hne
    constructor
    · intro h
      split at h
      · rename_i hfits
        have hfirst : sp ++ c :: t = c :: t := by simpa using Option.some.inj h
        obtain rfl := List.append_left_eq_self.mp hfirst
        exact ⟨⟨c, rfl, hw c List.mem_cons_self⟩, hfits⟩
      · cases h
    · rintro ⟨⟨d, hd, hspace⟩, hfits⟩
      cases sp with
      | nil => exact if_pos hfits
      | cons e sp =>
        have hblank := hsp d (by simp_all)
        simp [hblank] at hspace

/-- A space before the first word becomes part of it. -/
theorem eciProcessForkAndWait_space :
    eciProcessForkAndWait ⟨[0x20, 0x72], by decide⟩ = some [some [0x20, 0x72], none] ∧
      eciProcessForkAndWait ⟨[0x20, 0x72], by decide⟩ ≠ some ((words isSpace [0x20, 0x72]).map some ++ [none]) := by
  have hwords : words isSpace [0x20, 0x72] = [[0x72]] := by decide
  have hargv : eciProcessForkAndWait ⟨[0x20, 0x72], by decide⟩ = some [some [0x20, 0x72], none] := by
    apply eciProcessForkAndWait_eq _ [0x20] [0x72] [] rfl
    · exact List.forall_mem_singleton.mpr (by decide)
    · exact List.forall_mem_singleton.mpr (by decide)
    · exact fun _ => rfl
    · exact fun _ hd => nomatch hd
  refine ⟨hargv, ?_⟩
  rw [hargv, hwords]
  decide

end ServiceManager.Core
