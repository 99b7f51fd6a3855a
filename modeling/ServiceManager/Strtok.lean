import Mathlib.Data.List.Basic
import Mathlib.Tactic.Common

namespace ServiceManager.Strtok

section Memory

variable {α : Type} [DecidableEq α] (nul : α) (delim : α → Bool)

/-- The string from an offset in memory up to the next `nul`. -/
def string (mem : List α) (p : Nat) : List α :=
  (mem.drop p).takeWhile (· ≠ nul)

def strspn (mem : List α) (p : Nat) : Nat :=
  ((string nul mem p).takeWhile delim).length

def strcspn (mem : List α) (p : Nat) : Nat :=
  ((string nul mem p).takeWhile fun c => !delim c).length

/-- The next word, the memory with a `nul` after it, and where to go on. A null pointer
for `s` goes on from `saveptr`. -/
def strtok_r (mem : List α) (s : Option Nat) (saveptr : Nat) : Option Nat × List α × Nat :=
  let start := s.getD saveptr
  let first := start + strspn nul delim mem start
  if string nul mem first = [] then (none, mem, first)
  else
    let last := first + strcspn nul delim mem first
    if string nul mem last = [] then (some first, mem, last)
    else (some first, mem.set last nul, last + 1)

end Memory

/-- The longest parts without a delimiter. -/
def words {α : Type} (delim : α → Bool) (s : List α) : List (List α) :=
  (s.splitOnP delim).filter (!·.isEmpty)

section Words

variable {α : Type} {delim : α → Bool} {s sp w rest : List α} {d : α}

theorem words_cons_delim (hd : delim d = true) (s : List α) : words delim (d :: s) = words delim s := by
  unfold words
  rw [List.splitOnP_cons_eq_if_modifyHead, if_pos hd]
  rfl

theorem words_append_of_blank (hsp : ∀ c ∈ sp, delim c = true) (s : List α) :
    words delim (sp ++ s) = words delim s := by
  induction sp with
  | nil => rfl
  | cons d sp ih =>
    have hd := hsp d List.mem_cons_self
    rw [List.cons_append, words_cons_delim hd, ih fun c hc => hsp c (List.mem_cons_of_mem d hc)]

theorem words_append_of_solid (hw : ∀ c ∈ w, delim c = false) (hne : w ≠ [])
    (hrest : ∀ d ∈ rest.head?, delim d = true) : words delim (w ++ rest) = w :: words delim rest := by
  cases rest with
  | nil =>
    rw [List.append_nil, words, List.splitOnP_eq_singleton hw]
    simp [words, hne]
  | cons d rest =>
    have hd : delim d = true := hrest d rfl
    rw [words_cons_delim hd, words, List.splitOnP_append_cons_of_forall_mem hw d hd]
    simp [words, hne]

variable (delim) in
/-- How a text is made of its words. -/
inductive Split : List α → List (List α) → Prop
  | blank {sp : List α} (hsp : ∀ c ∈ sp, delim c = true) : Split sp []
  | last {sp w : List α} (hsp : ∀ c ∈ sp, delim c = true) (hw : ∀ c ∈ w, delim c = false) (hne : w ≠ []) :
      Split (sp ++ w) [w]
  | word {sp w rest : List α} {d : α} {ws : List (List α)} (hsp : ∀ c ∈ sp, delim c = true)
      (hw : ∀ c ∈ w, delim c = false) (hne : w ≠ []) (hd : delim d = true) (h : Split rest ws) :
      Split (sp ++ w ++ d :: rest) (w :: ws)

/-- A text is cut where a property ends. -/
theorem cut (p : α → Bool) (s : List α) :
    ∃ t u, s = t ++ u ∧ (∀ c ∈ t, p c = true) ∧ ∀ d ∈ u.head?, p d = false := by
  induction s with
  | nil => exact ⟨[], [], rfl, by simp, by simp⟩
  | cons c s ih =>
    by_cases hc : p c = true
    · obtain ⟨t, u, rfl, ht, hu⟩ := ih
      refine ⟨c :: t, u, rfl, ?_, hu⟩
      exact List.forall_mem_cons.mpr ⟨hc, ht⟩
    · exact ⟨[], c :: s, rfl, by simp, by simpa using hc⟩

/-- A part with a property ends where the property does. -/
theorem takeWhile_append_of_head {p : α → Bool} {t u : List α} (ht : ∀ c ∈ t, p c = true)
    (hu : ∀ d ∈ u.head?, p d = false) : (t ++ u).takeWhile p = t := by
  rw [List.takeWhile_append_of_pos ht]
  cases u with
  | nil => simp
  | cons d u => simp [hu d rfl]

/-- A text begins with delimiters, and with a word after them unless it ends there. -/
theorem cut_word (delim : α → Bool) (s : List α) :
    ∃ sp w rest, s = sp ++ (w ++ rest) ∧ (∀ c ∈ sp, delim c = true) ∧ (∀ c ∈ w, delim c = false) ∧
      (w = [] → rest = []) ∧ ∀ d ∈ rest.head?, delim d = true := by
  obtain ⟨sp, t, rfl, hsp, ht⟩ := cut delim s
  obtain ⟨w, rest, rfl, hw, hrest⟩ := cut (!delim ·) t
  refine ⟨sp, w, rest, rfl, hsp, by simpa using hw, fun hempty => ?_, by simpa using hrest⟩
  subst hempty
  cases rest with
  | nil => rfl
  | cons d rest =>
    have hword := ht d rfl
    have hdelim := hrest d rfl
    simp [hword] at hdelim

/-- The words of a text are those that it is split into. -/
theorem split_words (delim : α → Bool) (s : List α) : Split delim s (words delim s) := by
  obtain ⟨sp, w, rest, rfl, hsp, hw, hempty, hrest⟩ := cut_word delim s
  rw [words_append_of_blank hsp]
  by_cases hne : w = []
  · obtain rfl := hempty hne
    subst hne
    simpa [words] using Split.blank hsp
  cases rest with
  | nil =>
    rw [words_append_of_solid hw hne hrest, List.append_nil]
    exact .last hsp hw hne
  | cons d rest =>
    have hd : delim d = true := hrest d rfl
    rw [words_append_of_solid hw hne hrest, words_cons_delim hd, ← List.append_assoc]
    exact .word hsp hw hne hd (split_words delim rest)
termination_by s.length
decreasing_by
  subst_vars
  simp only [List.length_append, List.length_cons]
  omega

end Words

section Calls

variable {α : Type} [DecidableEq α] {nul : α} {delim : α → Bool} {pre s sp w rest post : List α} {d : α}

theorem string_eq (hnul : nul ∉ s) (pre post : List α) : string nul (pre ++ (s ++ nul :: post)) pre.length = s := by
  rw [string, List.drop_left]
  apply takeWhile_append_of_head
  · exact fun c hc => decide_eq_true (ne_of_mem_of_not_mem hc hnul)
  · simp

/-- A string further on. -/
theorem string_append_eq (hnul : nul ∉ s) (pre t post : List α) :
    string nul (pre ++ (t ++ (s ++ nul :: post))) (pre.length + t.length) = s := by
  rw [← List.append_assoc, ← List.length_append]
  exact string_eq hnul (pre ++ t) post

theorem strspn_eq (hsp : ∀ c ∈ sp, delim c = true) (hw : ∀ d ∈ w.head?, delim d = false) (hnul : nul ∉ sp ++ w)
    (pre post : List α) : strspn nul delim (pre ++ (sp ++ (w ++ nul :: post))) pre.length = sp.length := by
  have hstring := string_eq hnul pre post
  rw [List.append_assoc] at hstring
  rw [strspn, hstring, takeWhile_append_of_head hsp hw]

theorem strcspn_eq (rest : List α) (hw : ∀ c ∈ w, delim c = false) (hrest : ∀ d ∈ rest.head?, delim d = true)
    (hnul : nul ∉ w ++ rest) (pre sp post : List α) :
    strcspn nul delim (pre ++ (sp ++ (w ++ (rest ++ nul :: post)))) (pre.length + sp.length) = w.length := by
  have hstring := string_append_eq hnul pre sp post
  rw [List.append_assoc] at hstring
  rw [strcspn, hstring, takeWhile_append_of_head]
  · simpa using hw
  · simpa using hrest

/-- Only delimiters are left. -/
theorem strtok_r_blank (hsp : ∀ c ∈ sp, delim c = true) (hnul : nul ∉ sp) (pre post : List α) :
    strtok_r nul delim (pre ++ (sp ++ nul :: post)) none pre.length =
      (none, pre ++ (sp ++ nul :: post), pre.length + sp.length) := by
  have hspn := strspn_eq (w := []) hsp (by simp) (by simpa using hnul) pre post
  have hend := string_append_eq (List.not_mem_nil (a := nul)) pre sp post
  rw [List.nil_append] at hspn hend
  simp only [strtok_r, Option.getD_none, hspn, hend, if_true]

/-- Nothing is left. -/
theorem strtok_r_end (nul : α) (delim : α → Bool) (pre post : List α) :
    strtok_r nul delim (pre ++ nul :: post) none pre.length = (none, pre ++ nul :: post, pre.length) := by
  have hblank : ∀ c ∈ ([] : List α), delim c = true := fun _ hc => nomatch hc
  exact strtok_r_blank hblank List.not_mem_nil pre post

/-- The last word is not followed by a delimiter. -/
theorem strtok_r_last (hsp : ∀ c ∈ sp, delim c = true) (hw : ∀ c ∈ w, delim c = false) (hne : w ≠ [])
    (hnul : nul ∉ sp ++ w) (pre post : List α) :
    strtok_r nul delim (pre ++ (sp ++ (w ++ nul :: post))) none pre.length =
      (some (pre.length + sp.length), pre ++ (sp ++ (w ++ nul :: post)), pre.length + sp.length + w.length) := by
  have hnulw : nul ∉ w := fun hmem => hnul (List.mem_append_right sp hmem)
  have hspn := strspn_eq hsp (fun d hd => hw d (List.mem_of_head? hd)) hnul pre post
  have hfirst := string_append_eq hnulw pre sp post
  have hcspn := strcspn_eq [] hw (by simp) (by simpa using hnulw) pre sp post
  have hlast := string_append_eq (List.not_mem_nil (a := nul)) (pre ++ sp) w post
  rw [List.nil_append] at hcspn hlast
  rw [List.append_assoc, List.length_append] at hlast
  simp only [strtok_r, Option.getD_none, hspn, hfirst, hne, hcspn, hlast, if_true, if_false]

/-- Another word is cut at the delimiter after it. -/
theorem strtok_r_word (hsp : ∀ c ∈ sp, delim c = true) (hw : ∀ c ∈ w, delim c = false) (hne : w ≠ [])
    (hd : delim d = true) (hnul : nul ∉ sp ++ (w ++ d :: rest)) (pre post : List α) :
    strtok_r nul delim (pre ++ (sp ++ (w ++ (d :: rest ++ nul :: post)))) none pre.length =
      (some (pre.length + sp.length), pre ++ (sp ++ (w ++ (nul :: rest ++ nul :: post))),
        pre.length + sp.length + w.length + 1) := by
  have hnulw : nul ∉ w ++ d :: rest := fun hmem => hnul (List.mem_append_right sp hmem)
  have hnulrest : nul ∉ d :: rest := fun hmem => hnulw (List.mem_append_right w hmem)
  have hspn := strspn_eq (w := w ++ d :: rest) hsp (by cases w <;> simp_all) hnul pre post
  have hfirst := string_append_eq hnulw pre sp post
  have hcspn := strcspn_eq (d :: rest) hw (by simpa using hd) hnulw pre sp post
  have hlast := string_append_eq hnulrest (pre ++ sp) w post
  have hset : (pre ++ (sp ++ (w ++ (d :: rest ++ nul :: post)))).set (pre.length + sp.length + w.length) nul =
      pre ++ (sp ++ (w ++ (nul :: rest ++ nul :: post))) := by
    simp [Nat.add_assoc]
  rw [List.append_assoc] at hspn hfirst
  rw [List.append_assoc, List.length_append] at hlast
  have hword : w ++ d :: rest ≠ [] := by simp
  simp only [strtok_r, Option.getD_none, hspn, hfirst, hword, hcspn, hlast, List.cons_ne_nil, if_false, hset]

end Calls

section Loop

variable {α : Type} [DecidableEq α] {nul : α} {delim : α → Bool} {mem mem' : List α} {p saveptr saveptr' : Nat}
  {next : Option Nat}

theorem lt_length_of_string_ne_nil (h : string nul mem p ≠ []) : p < mem.length := by
  by_contra hle
  apply h
  rw [string, List.drop_eq_nil_of_le (by omega)]
  rfl

/-- Each call goes on in the memory, past a word if there is one. -/
theorem strtok_r_progress (h : strtok_r nul delim mem none saveptr = (next, mem', saveptr')) :
    mem'.length - saveptr' + next.toList.length ≤ mem.length - saveptr := by
  simp only [strtok_r, Option.getD_none] at h
  split at h
  · cases h
    simp only [Option.toList_none, List.length_nil]
    omega
  · rename_i hfirst
    have hlt := lt_length_of_string_ne_nil hfirst
    split at h
    · rename_i hlast
      have hne : strcspn nul delim mem (saveptr + strspn nul delim mem saveptr) ≠ 0 := by
        intro hzero
        rw [hzero] at hlast
        exact hfirst hlast
      cases h
      simp only [Option.toList_some, List.length_singleton]
      omega
    · cases h
      simp only [Option.toList_some, List.length_singleton, List.length_set]
      omega

end Loop

section Tokens

variable {α : Type} [DecidableEq α] (nul : α) (delim : α → Bool)

/-- The words that calls with a null pointer find until there are none, and the memory then. -/
def tokens (mem : List α) (saveptr : Nat) : List Nat × List α :=
  match _hcall : strtok_r nul delim mem none saveptr with
  | (none, mem', _) => ([], mem')
  | (some p, mem', saveptr') =>
    let (ps, final) := tokens mem' saveptr'
    (p :: ps, final)
termination_by mem.length - saveptr
decreasing_by
  have hprogress := strtok_r_progress _hcall
  simp only [Option.toList_some, List.length_singleton] at hprogress
  omega

variable {nul delim} {mem mem' : List α} {p saveptr saveptr' : Nat}

theorem tokens_none (h : strtok_r nul delim mem none saveptr = (none, mem', saveptr')) :
    tokens nul delim mem saveptr = ([], mem') := by
  unfold tokens
  split
  · rename_i hcall
    rw [h] at hcall
    cases hcall
    rfl
  · rename_i hcall
    rw [h] at hcall
    cases hcall

theorem tokens_some (h : strtok_r nul delim mem none saveptr = (some p, mem', saveptr')) :
    tokens nul delim mem saveptr = (p :: (tokens nul delim mem' saveptr').1, (tokens nul delim mem' saveptr').2) := by
  rw [tokens]
  split
  · rename_i hcall
    rw [h] at hcall
    cases hcall
  · rename_i hcall
    rw [h] at hcall
    cases hcall
    rfl

/-- The calls find the words of a string, and leave what is before it in memory. -/
theorem tokens_split {s : List α} {ws : List (List α)} (h : Split delim s ws) (hnul : nul ∉ s) (pre post : List α) :
    ∃ t, (tokens nul delim (pre ++ (s ++ nul :: post)) pre.length).2 = pre ++ t ∧
      (tokens nul delim (pre ++ (s ++ nul :: post)) pre.length).1.map (string nul (pre ++ t)) = ws := by
  induction h generalizing pre with
  | blank hsp =>
    rw [tokens_none (strtok_r_blank hsp hnul pre post)]
    exact ⟨_, rfl, rfl⟩
  | @last sp w hsp hw hne =>
    have hlast := strtok_r_last hsp hw hne hnul pre post
    have hnone := strtok_r_end nul delim (pre ++ (sp ++ w)) post
    simp only [List.append_assoc, List.length_append] at hnone
    rw [List.append_assoc, tokens_some hlast, Nat.add_assoc, tokens_none hnone]
    refine ⟨_, rfl, ?_⟩
    rw [List.map_singleton, string_append_eq fun hmem => hnul (List.mem_append_right sp hmem)]
  | @word sp w rest d ws hsp hw hne hd h ih =>
    rw [List.append_assoc] at hnul
    have hnulw : nul ∉ w ++ d :: rest := fun hmem => hnul (List.mem_append_right sp hmem)
    have hnulrest : nul ∉ d :: rest := fun hmem => hnulw (List.mem_append_right w hmem)
    have hword := strtok_r_word hsp hw hne hd hnul pre post
    -- the calls go on behind the word and the `nul` after it
    obtain ⟨t, hfinal, hwords⟩ := ih (fun hmem => hnulrest (List.mem_cons_of_mem d hmem)) (pre ++ (sp ++ (w ++ [nul])))
    have hpre (t : List α) : pre ++ (sp ++ (w ++ [nul])) ++ t = pre ++ (sp ++ (w ++ (nul :: t))) := by simp
    have hlength : (pre ++ (sp ++ (w ++ [nul]))).length = pre.length + sp.length + w.length + 1 := by
      simp only [List.length_append, List.length_singleton, Nat.add_assoc]
    simp only [hlength, hpre] at hfinal hwords
    have hassoc : sp ++ w ++ d :: rest ++ nul :: post = sp ++ (w ++ (d :: rest ++ nul :: post)) := by simp
    rw [hassoc, tokens_some hword, List.cons_append]
    refine ⟨sp ++ (w ++ (nul :: t)), hfinal, ?_⟩
    rw [List.map_cons, hwords, string_append_eq fun hmem => hnulw (List.mem_append_left _ hmem)]

/-- The first call is given the string, and ends its first word. -/
theorem tokens_first {sp w rest : List α} (hsp : ∀ c ∈ sp, delim c = true) (hw : ∀ c ∈ w, delim c = false)
    (hempty : w = [] → rest = []) (hrest : ∀ d ∈ rest.head?, delim d = true) (hnul : nul ∉ sp ++ (w ++ rest))
    (q : Nat) :
    ∃ first mem saveptr, strtok_r nul delim (sp ++ (w ++ rest) ++ [nul]) (some 0) q = (first, mem, saveptr) ∧
      string nul (tokens nul delim mem saveptr).2 0 = sp ++ w ∧
      (tokens nul delim mem saveptr).1.map (string nul (tokens nul delim mem saveptr).2) = words delim rest := by
  change ∃ first mem saveptr, strtok_r nul delim (sp ++ (w ++ rest) ++ [nul]) none 0 = _ ∧ _
  cases rest with
  | nil =>
    rw [List.append_nil] at hnul
    have hnone := strtok_r_end nul delim (sp ++ w) []
    have hstring := string_eq hnul [] []
    refine ⟨if w = [] then none else some sp.length, sp ++ w ++ [nul], (sp ++ w).length, ?_, ?_, ?_⟩
    · split
      · rename_i hnil
        subst hnil
        simpa using strtok_r_blank hsp (by simpa using hnul) [] []
      · rename_i hne
        simpa using strtok_r_last hsp hw hne hnul [] []
    · rw [tokens_none hnone]
      exact hstring
    · rw [tokens_none hnone]
      rfl
  | cons d rest =>
    have hne : w ≠ [] := fun hnil => List.cons_ne_nil d rest (hempty hnil)
    have hnulrest : nul ∉ d :: rest := fun hmem => hnul (List.mem_append_right sp (List.mem_append_right w hmem))
    have hnulw : nul ∉ sp ++ w := fun hmem => hnul (by rw [← List.append_assoc]; exact List.mem_append_left _ hmem)
    obtain ⟨t, hfinal, hwords⟩ := tokens_split (split_words delim rest)
      (fun hmem => hnulrest (List.mem_cons_of_mem d hmem)) (sp ++ (w ++ [nul])) []
    have hlength : (sp ++ (w ++ [nul])).length = sp.length + w.length + 1 := by
      simp only [List.length_append, List.length_singleton, Nat.add_assoc]
    have hpre (t : List α) : sp ++ (w ++ [nul]) ++ t = sp ++ (w ++ nul :: t) := by simp
    simp only [hlength, hpre] at hfinal hwords
    refine ⟨some sp.length, sp ++ (w ++ nul :: (rest ++ [nul])), sp.length + w.length + 1, ?_, ?_, ?_⟩
    · simpa using strtok_r_word hsp hw hne (hrest d rfl) hnul [] []
    · have hstring := string_eq hnulw [] t
      rw [hfinal]
      simpa using hstring
    · rw [hfinal]
      exact hwords.trans (words_cons_delim (hrest d rfl) rest).symm

end Tokens

end ServiceManager.Strtok
