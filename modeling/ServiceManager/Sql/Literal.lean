import ServiceManager.Sql.Statement

namespace ServiceManager.Sql

open Token

namespace Token

/-- The tokens of characters that others follow, and the token that is then being read. -/
def feed : Reading → List Char → List Token × Reading
  | reading, [] => ([], reading)
  | reading, c :: cs => ((next reading c).1 ++ (feed (next reading c).2 cs).1, (feed (next reading c).2 cs).2)

/-- A token without its literal. -/
def shape : Token → Token
  | .number _ => .number []
  | .text _ => .text []
  | t => t

def number? : Token → Option Nat
  | .number cs => some (Nat.ofDigitChars 10 cs 0)
  | _ => none

def text? : Token → Option (List Char)
  | .text cs => some cs
  | _ => none

/-- The numbers of a statement, in order. -/
def numbers (ts : List Token) : List Nat :=
  ts.filterMap number?

/-- The texts of a statement, in order. -/
def texts (ts : List Token) : List (List Char) :=
  ts.filterMap text?

/-- The statements of a script, each with the semicolon that ends it. The last one may have none. -/
def statements : List Token → List Token → List (List Token)
  | [], [] => []
  | acc, [] => [acc]
  | acc, t :: ts => if t = .punct ';' then (acc ++ [t]) :: statements [] ts else statements (acc ++ [t]) ts

/-- The tokens have one semicolon, at their end. -/
def endsOnce : List Token → Bool
  | [] => false
  | t :: ts => if t = .punct ';' then ts.isEmpty else endsOnce ts

end Token

theorem tokenize_append (reading : Reading) (cs tail : List Char) :
    tokenize reading (cs ++ tail) = (feed reading cs).1 ++ tokenize (feed reading cs).2 tail := by
  induction cs generalizing reading with
  | nil => rfl
  | cons c cs ih => rw [List.cons_append, tokenize_cons, ih, feed, List.append_assoc]

theorem tokenize_digits {cs tail : List Char} (hcs : ∀ c ∈ cs, c.isDigit)
    (htail : ∀ c, tail.head? = some c → c.isDigit = false)
    (read : List Char) : tokenize (.number read) (cs ++ tail) = .number (read ++ cs) :: tokenize .nothing tail := by
  induction cs generalizing read with
  | nil =>
    cases tail with
    | nil => simp [tokenize]
    | cons c tail =>
      have hc : c.isDigit = false := htail c rfl
      simp [tokenize, next, hc, finish]
  | cons c cs ih =>
    obtain ⟨hc, hcs⟩ := List.forall_mem_cons.mp hcs
    rw [List.cons_append, tokenize, next, if_pos hc, ih hcs]
    simp

theorem isDigit_of_mem_repr {n : Nat} {c : Char} (hc : c ∈ n.repr.toList) : c.isDigit := by
  have hmem : c ∈ Nat.toDigits 10 n := by simpa [Nat.repr] using hc
  exact Nat.isDigit_of_mem_toDigits (by decide) (by decide) hmem

theorem start_digit {c : Char} (hc : c.isDigit) : start c = ([], .number [c]) := by
  have hspace : isSpace c = false := by
    rw [Bool.eq_false_iff]
    intro hspace
    simp only [isSpace, Bool.or_eq_true, decide_eq_true_eq] at hspace
    rcases hspace with (((rfl | rfl) | rfl) | rfl) | rfl <;> cases hc
  have hquote : c ≠ '\'' := by
    rintro rfl
    cases hc
  simp [start, hspace, hquote, hc]

/-- A number is a token by itself where no digit follows it. -/
theorem tokenize_repr (n : Nat) {tail : List Char} (htail : ∀ c, tail.head? = some c → c.isDigit = false) :
    tokenize .nothing (n.repr.toList ++ tail) = .number n.repr.toList :: tokenize .nothing tail := by
  cases hcs : n.repr.toList with
  | nil => simp [Nat.repr, Nat.toDigits_ne_nil] at hcs
  | cons c cs =>
    have hdigits : ∀ d ∈ c :: cs, d.isDigit := fun d hd => isDigit_of_mem_repr (hcs ▸ hd)
    obtain ⟨hc, hdigits⟩ := List.forall_mem_cons.mp hdigits
    rw [List.cons_append, tokenize_cons, next, start_digit hc]
    exact tokenize_digits hdigits htail [c]

theorem numbers_number (ts us : List Token) (n : Nat) :
    numbers (ts ++ .number n.repr.toList :: us) = numbers ts ++ n :: numbers us := by
  simp [numbers, number?]

theorem shape_number {ts ts' us us' : List Token} {cs cs' : List Char} (hts : ts.map shape = ts'.map shape)
    (hus : us.map shape = us'.map shape) : (ts ++ .number cs :: us).map shape =
      (ts' ++ .number cs' :: us').map shape := by
  simp only [List.map_append, List.map_cons, shape, hts, hus]

theorem shape_text {ts us us' : List Token} {cs cs' : List Char} (hus : us.map shape = us'.map shape) :
    (ts ++ .text cs :: us).map shape = (ts ++ .text cs' :: us').map shape := by
  simp only [List.map_append, List.map_cons, shape, hus]

/-- A statement of a script ends where its semicolon is. -/
theorem statements_append {ts : List Token} (h : endsOnce ts = true) (acc us : List Token) :
    statements acc (ts ++ us) = (acc ++ ts) :: statements [] us := by
  induction ts generalizing acc with
  | nil => cases h
  | cons t ts ih =>
    rw [endsOnce] at h
    rw [List.cons_append, statements]
    by_cases ht : t = .punct ';'
    · rw [if_pos ht, List.isEmpty_iff] at h
      rw [if_pos ht, h]
      rfl
    · rw [if_neg ht] at h
      rw [if_neg ht, ih h, List.append_assoc]
      rfl

/-- After code that has been read to its end, anything may follow. -/
theorem tokenize_append_of_nothing {cs : List Char} (hcs : (feed .nothing cs).2 = .nothing) (tail : List Char) :
    tokenize .nothing (cs ++ tail) = tokenize .nothing cs ++ tokenize .nothing tail := by
  have hown := tokenize_append .nothing cs []
  rw [hcs, List.append_nil, tokenize, List.append_nil] at hown
  rw [tokenize_append, hcs, hown]

namespace Statement

variable {start : String} {before code : List Char} {rest : List (String × String)}

/-- A statement that goes on with a number after some code. -/
theorem meant_number {after : String} (n : Nat) (hstart : start = .ofList before ++ n.repr ++ after)
    (hbefore : (feed .nothing before).2 = .nothing) (hafter : ∀ c, after.toList.head? = some c → c.isDigit = false) :
    (ofStrings start rest).meant = (feed .nothing before).1 ++ .number n.repr.toList ::
      (ofStrings after rest).meant := by
  rw [meant, meant, hstart, start_ofStrings, String.toList_append, String.toList_append, List.append_assoc,
    String.toList_ofList, tokenize_append, hbefore, tokenize_repr n hafter, start_ofStrings]
  simp

/-- A statement that goes on with a text after some code. -/
theorem meant_text (hstart : start = .ofList code) (s t : String) (rest : List (String × String)) :
    (ofStrings start ((s, t) :: rest)).meant = tokenize .nothing code ++ .text s.toList ::
      (ofStrings t rest).meant := by
  rw [meant, hstart, start_ofStrings, String.toList_ofList]
  rfl

/-- The code at the end of a statement. -/
def lastCode : List Char → List (List Char × List Char) → List Char
  | start, [] => start
  | _, (_, code) :: rest => lastCode code rest

/-- What follows a statement is read as if it stood alone. -/
theorem tokenize_quoted_append {s : Statement} (h : s.Plain) (htexts : ∀ p ∈ s.rest, '\'' ∉ p.1)
    (hlast : (feed .nothing (lastCode s.start s.rest)).2 = .nothing) (tail : List Char) :
    tokenize .nothing (s.quoted ++ tail) = s.meant ++ tokenize .nothing tail := by
  obtain ⟨first, rest⟩ := s
  obtain ⟨hstart, hrest⟩ := h
  simp only at hstart hrest htexts hlast
  rw [quoted, meant, List.append_assoc, List.append_assoc]
  induction rest generalizing first with
  | nil => exact tokenize_append_of_nothing hlast tail
  | cons p rest ih =>
    obtain ⟨cs, code⟩ := p
    obtain ⟨⟨hcode, hne⟩, hcodes⟩ := List.forall_mem_cons.mp hrest
    obtain ⟨hcs, hothers⟩ := List.forall_mem_cons.mp htexts
    obtain ⟨c, code, rfl⟩ := List.exists_cons_of_ne_nil hne
    have hc : c ≠ '\'' := fun heq => hcode (heq ▸ List.mem_cons_self)
    have hread : tokenize (.text []) (cs ++ '\'' :: c ::
        (code ++ ((rest.flatMap fun p => '\'' :: (p.1 ++ '\'' :: p.2)) ++ tail))) = .text ([] ++ cs) :: _ :=
      tokenize_text hcs hc []
    rw [List.nil_append, ← List.cons_append, ih (c :: code) hothers hlast hcode hcodes] at hread
    rw [List.flatMap_cons, List.flatMap_cons, List.cons_append, List.cons_append, List.append_assoc, List.cons_append,
      List.append_assoc, tokenize_before_quote outside_nothing hstart, tokenize_cons, next_quote, List.nil_append]
    refine (congrArg (tokenize .nothing first ++ ·) hread).trans ?_
    simp only [List.cons_append, List.append_assoc]

theorem meant_code (hstart : start = .ofList code) : (ofStrings start []).meant = tokenize .nothing code := by
  simp [meant, hstart]

end Statement

end ServiceManager.Sql
