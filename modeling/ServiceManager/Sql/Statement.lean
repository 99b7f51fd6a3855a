import Mathlib.Algebra.GroupWithZero.Nat
import Mathlib.Algebra.Order.BigOperators.Group.List
import Mathlib.Algebra.Order.Group.Nat
import ServiceManager.Sql.Token

namespace ServiceManager.Sql

open Token

/-- A statement as it is meant: how it starts, then texts to be put in quotes, each with
what follows it. -/
structure Statement where
  start : List Char
  rest : List (List Char × List Char)

namespace Statement

def ofStrings (start : String) (rest : List (String × String)) : Statement :=
  ⟨start.toList, rest.map fun p => (p.1.toList, p.2.toList)⟩

@[simp]
theorem start_ofStrings (start : String) (rest : List (String × String)) :
    (ofStrings start rest).start = start.toList := rfl

@[simp]
theorem rest_ofStrings (start : String) (rest : List (String × String)) :
    (ofStrings start rest).rest = rest.map fun p => (p.1.toList, p.2.toList) := rfl

variable (s : Statement)

/-- The characters, with each text put in quotes as it is. -/
def quoted : List Char :=
  s.start ++ s.rest.flatMap fun p => '\'' :: (p.1 ++ '\'' :: p.2)

/-- The tokens that are meant, each text denoting itself. -/
def meant : List Token :=
  tokenize .nothing s.start ++ s.rest.flatMap fun p => .text p.1 :: tokenize .nothing p.2

/-- There are no quotes but those around the texts, and something stands between these. -/
structure Plain : Prop where
  start : '\'' ∉ s.start
  rest : ∀ p ∈ s.rest, '\'' ∉ p.2 ∧ p.2 ≠ []

end Statement

/-- No text is being read. -/
def Reading.Outside : Reading → Prop
  | .text _ => False
  | .quote _ => False
  | _ => True

theorem outside_nothing : Reading.nothing.Outside :=
  trivial

section Outside

variable {reading : Reading} {c : Char} {cs tail : List Char}

theorem tokenize_cons (reading : Reading) (c : Char) (cs : List Char) :
    tokenize reading (c :: cs) = (next reading c).1 ++ tokenize (next reading c).2 cs := by
  cases reading <;> rfl

theorem start_outside (hc : c ≠ '\'') : (start c).2.Outside := by
  unfold start
  split_ifs <;> trivial

theorem next_outside (h : reading.Outside) (hc : c ≠ '\'') : (next reading c).2.Outside := by
  cases reading with
  | nothing => exact start_outside hc
  | word cs =>
    rw [next]
    split
    · trivial
    · exact start_outside hc
  | number cs =>
    rw [next]
    split
    · trivial
    · exact start_outside hc
  | text cs => exact h.elim
  | quote cs => exact h.elim

theorem next_quote : next .nothing '\'' = ([], .text []) := rfl

/-- What is read before a quote ends there. -/
theorem tokenize_before_quote (h : reading.Outside) (hcs : '\'' ∉ cs) :
    tokenize reading (cs ++ '\'' :: tail) = tokenize reading cs ++ tokenize .nothing ('\'' :: tail) := by
  induction cs generalizing reading with
  | nil =>
    cases reading with
    | nothing => rfl
    | word => rfl
    | number => rfl
    | text => exact h.elim
    | quote => exact h.elim
  | cons c cs ih =>
    obtain ⟨hc, hcs⟩ := not_or.mp (mt List.mem_cons.mpr hcs)
    have hrest := ih (next_outside h (Ne.symm hc)) hcs
    cases reading with
    | text => exact h.elim
    | quote => exact h.elim
    | _ => rw [List.cons_append, tokenize, tokenize, hrest, List.append_assoc]

/-- A text without quotes is read up to the quote that ends it. -/
theorem tokenize_text (hcs : '\'' ∉ cs) (hc : c ≠ '\'') (read : List Char) :
    tokenize (.text read) (cs ++ '\'' :: c :: tail) = .text (read ++ cs) :: tokenize .nothing (c :: tail) := by
  induction cs generalizing read with
  | nil =>
    rw [List.nil_append, List.append_nil, tokenize, next, if_pos rfl, tokenize, next, if_neg hc, finish, tokenize]
    rfl
  | cons c' cs ih =>
    obtain ⟨hc', hcs⟩ := not_or.mp (mt List.mem_cons.mpr hcs)
    rw [List.cons_append, tokenize, next, if_neg (Ne.symm hc'), ih hcs]
    simp

end Outside

/-- The quotes that a token stands for: two around a text, and two for each in it. -/
def Token.quotes : Token → Nat
  | .text cs => 2 + 2 * cs.count '\''
  | _ => 0

/-- The quotes that have been read of a token. -/
def Reading.quotes : Reading → Nat
  | .text cs => 1 + 2 * cs.count '\''
  | .quote cs => 2 + 2 * cs.count '\''
  | _ => 0

section Quotes

variable {reading : Reading} {c : Char} {cs : List Char}

theorem start_quotes (hc : c ≠ '\'') :
    (∀ t ∈ (start c).1, t.quotes = 0 ∧ t ≠ .punct '\'') ∧ (start c).2.quotes = 0 := by
  unfold start
  split_ifs
  · simp [Reading.quotes]
  · simp [Reading.quotes]
  · simp [Reading.quotes]
  · simp [Reading.quotes, Token.quotes, hc]

theorem start_quotes_sum (c : Char) :
    ((start c).1.map Token.quotes).sum + (start c).2.quotes = if c = '\'' then 1 else 0 := by
  split
  · rename_i hc
    rw [hc]
    rfl
  · rename_i hc
    obtain ⟨htokens, hreading⟩ := start_quotes hc
    have hzero : (start c).1.map Token.quotes = (start c).1.map fun _ => 0 :=
      List.map_congr_left fun t ht => (htokens t ht).1
    rw [hzero, hreading]
    simp

/-- No quote is lost by a step. -/
theorem next_quotes (reading : Reading) (c : Char) :
    ((next reading c).1.map Token.quotes).sum + (next reading c).2.quotes =
      reading.quotes + if c = '\'' then 1 else 0 := by
  have hstart := start_quotes_sum c
  cases reading with
  | nothing => simpa [next, Reading.quotes] using hstart
  | word cs =>
    rw [next]
    split
    · rename_i hword
      have hc : c ≠ '\'' := by
        rintro rfl
        cases hword
      simp [Reading.quotes, hc]
    · simpa [finish, Token.quotes, Reading.quotes] using hstart
  | number cs =>
    rw [next]
    split
    · rename_i hdigit
      have hc : c ≠ '\'' := by
        rintro rfl
        cases hdigit
      simp [Reading.quotes, hc]
    · simpa [finish, Token.quotes, Reading.quotes] using hstart
  | text cs =>
    rw [next]
    by_cases hc : c = '\''
    · simp [hc, Reading.quotes]
      omega
    · simp [hc, Reading.quotes, List.count_append]
  | quote cs =>
    rw [next]
    by_cases hc : c = '\''
    · simp [hc, Reading.quotes, List.count_append]
      omega
    · simp only [hc, if_false, finish, List.map_cons, List.sum_cons, Token.quotes, Reading.quotes] at hstart ⊢
      omega

/-- Texts that end account for all quotes. -/
theorem tokenize_quotes (h : .punct '\'' ∉ tokenize reading cs) :
    ((tokenize reading cs).map Token.quotes).sum = reading.quotes + cs.count '\'' := by
  induction cs generalizing reading with
  | nil =>
    cases reading with
    | text cs => simp [tokenize] at h
    | _ => simp [tokenize, Token.quotes, Reading.quotes]
  | cons c cs ih =>
    have hstep := next_quotes reading c
    rw [tokenize_cons, List.mem_append, not_or] at h
    rw [tokenize_cons, List.map_append, List.sum_append, ih h.2, List.count_cons]
    simp only [beq_iff_eq]
    omega

/-- There are no texts where there are no quotes. -/
theorem tokenize_of_not_mem (h : reading.Outside) (hcs : '\'' ∉ cs) :
    ∀ t ∈ tokenize reading cs, t.quotes = 0 ∧ t ≠ .punct '\'' := by
  induction cs generalizing reading with
  | nil =>
    cases reading with
    | text => exact h.elim
    | quote => exact h.elim
    | _ => simp [tokenize, Token.quotes]
  | cons c cs ih =>
    obtain ⟨hc, hcs⟩ := not_or.mp (mt List.mem_cons.mpr hcs)
    obtain ⟨htokens, _⟩ := start_quotes (Ne.symm hc)
    intro t ht
    rw [tokenize_cons, List.mem_append] at ht
    rcases ht with ht | ht
    · cases reading with
      | nothing => exact htokens t ht
      | word cs =>
        rw [next] at ht
        split at ht
        · cases ht
        · obtain rfl | ht := List.mem_cons.mp ht
          · simp [Token.quotes]
          · exact htokens t ht
      | number cs =>
        rw [next] at ht
        split at ht
        · cases ht
        · obtain rfl | ht := List.mem_cons.mp ht
          · simp [Token.quotes]
          · exact htokens t ht
      | text => exact h.elim
      | quote => exact h.elim
    · exact ih (next_outside h (Ne.symm hc)) hcs t ht

end Quotes

namespace Statement

/-- Twice as many are as many only if there are none. -/
theorem count_eq_zero_of_sum {rest : List (List Char × List Char)}
    (h : (rest.map fun p => 2 + 2 * p.1.count '\'').sum = (rest.map fun p => 2 + p.1.count '\'').sum) :
    ∀ p ∈ rest, p.1.count '\'' = 0 := by
  have hle : ∀ rest : List (List Char × List Char),
      (rest.map fun p => 2 + p.1.count '\'').sum ≤ (rest.map fun p => 2 + 2 * p.1.count '\'').sum :=
    fun rest => List.sum_le_sum fun p _ => by omega
  induction rest with
  | nil => simp
  | cons p rest ih =>
    have hrest := hle rest
    rw [List.map_cons, List.sum_cons, List.map_cons, List.sum_cons] at h
    exact List.forall_mem_cons.mpr ⟨by omega, ih (by omega)⟩

section Plain

variable {s : Statement} (h : s.Plain)

include h

theorem not_mem_meant : .punct '\'' ∉ s.meant := by
  intro hmem
  rcases List.mem_append.mp hmem with hmem | hmem
  · exact (tokenize_of_not_mem outside_nothing h.start _ hmem).2 rfl
  · obtain ⟨p, hp, hmem⟩ := List.mem_flatMap.mp hmem
    obtain heq | hmem := List.mem_cons.mp hmem
    · cases heq
    · exact (tokenize_of_not_mem outside_nothing (h.rest p hp).1 _ hmem).2 rfl

theorem meant_quotes : (s.meant.map Token.quotes).sum = (s.rest.map fun p => 2 + 2 * p.1.count '\'').sum := by
  have hcode : ∀ cs : List Char, '\'' ∉ cs → ((tokenize .nothing cs).map Token.quotes).sum = 0 := by
    intro cs hcs
    rw [tokenize_quotes fun hmem => (tokenize_of_not_mem outside_nothing hcs _ hmem).2 rfl, List.count_eq_zero.mpr hcs]
    rfl
  rw [meant, List.map_append, List.sum_append, hcode _ h.start, Nat.zero_add, List.map_flatMap, List.flatMap_def,
    List.sum_flatten, List.map_map]
  refine congrArg List.sum (List.map_congr_left fun p hp => ?_)
  rw [Function.comp_apply, List.map_cons, List.sum_cons, hcode _ (h.rest p hp).1]
  rfl

theorem quoted_count : s.quoted.count '\'' = (s.rest.map fun p => 2 + p.1.count '\'').sum := by
  rw [quoted, List.count_append, List.count_eq_zero.mpr h.start, Nat.zero_add, List.count_flatMap]
  refine congrArg List.sum (List.map_congr_left fun p hp => ?_)
  simp only [Function.comp_apply, List.count_cons_self, List.count_append, List.count_eq_zero.mpr (h.rest p hp).1]
  omega

theorem tokenize_quoted (htexts : ∀ p ∈ s.rest, '\'' ∉ p.1) : tokenize .nothing s.quoted = s.meant := by
  obtain ⟨first, rest⟩ := s
  obtain ⟨hstart, hrest⟩ := h
  rw [quoted, meant]
  induction rest generalizing first with
  | nil => simp
  | cons p rest ih =>
    obtain ⟨cs, code⟩ := p
    obtain ⟨⟨hcode, hne⟩, hcodes⟩ := List.forall_mem_cons.mp hrest
    obtain ⟨hcs, hothers⟩ := List.forall_mem_cons.mp htexts
    obtain ⟨c, code, rfl⟩ := List.exists_cons_of_ne_nil hne
    have hc : c ≠ '\'' := fun heq => hcode (heq ▸ List.mem_cons_self)
    have hread : tokenize (.text []) (cs ++ '\'' :: c :: (code ++ rest.flatMap fun p => '\'' :: (p.1 ++ '\'' :: p.2))) =
        .text ([] ++ cs) :: _ := tokenize_text hcs hc []
    rw [List.nil_append, ← List.cons_append, ih (c :: code) hothers hcode hcodes] at hread
    rw [List.flatMap_cons, List.flatMap_cons, List.cons_append, tokenize_before_quote outside_nothing hstart,
      tokenize_cons, next_quote, List.nil_append, List.append_assoc, List.cons_append, hread, List.cons_append]

/-- A statement is read as it is meant exactly if no text has a quote in it. -/
theorem tokenize_quoted_iff : tokenize .nothing s.quoted = s.meant ↔ ∀ p ∈ s.rest, '\'' ∉ p.1 := by
  constructor
  · intro hmeant
    have hquotes := tokenize_quotes (hmeant ▸ not_mem_meant h)
    rw [hmeant, meant_quotes h, quoted_count h] at hquotes
    intro p hp
    rw [← List.count_eq_zero]
    exact count_eq_zero_of_sum (by simpa [Reading.quotes] using hquotes) p hp
  · exact tokenize_quoted h

end Plain

end Statement

end ServiceManager.Sql
