import ServiceManager.Wsrpcgen.Lexer

namespace ServiceManager.Wsrpcgen

/-- The counters of the parser. None of them exceeds the length of the text, which the scanner has as an `int` too. -/
structure MVST_Parser where
  m_line : Nat := 0
  m_col : Nat := 0
  m_pos : Nat := 0
  m_oldLine : Nat := 0
  m_oldCol : Nat := 0
  m_oldPos : Nat := 0
deriving DecidableEq

namespace MVST_Parser

def recOldPos (parser : MVST_Parser) : MVST_Parser :=
  { parser with m_oldPos := parser.m_pos, m_oldLine := parser.m_line, m_oldCol := parser.m_col }

def cr (parser : MVST_Parser) : MVST_Parser :=
  { parser with m_pos := parser.m_pos + (parser.m_col + 1), m_line := parser.m_line + 1, m_col := 0 }

def incCol (parser : MVST_Parser) : MVST_Parser :=
  { parser with m_col := parser.m_col + 1 }

/-- The characters of a match, to its end or the first NUL. -/
def track (parser : MVST_Parser) : List Byte → MVST_Parser
  | [] => parser
  | c :: yytext =>
    if c = nul then parser
    else if c = byte '\n' then parser.cr.track yytext
    else parser.incCol.track yytext

/-- `YY_USER_ACTION` -/
def userAction (parser : MVST_Parser) (yytext : List Byte) : MVST_Parser :=
  parser.recOldPos.track yytext

end MVST_Parser

def find (s : List Byte) (c : Byte) (pos : Nat) : Option Nat :=
  ((s.drop pos).findIdx? (· = c)).map (pos + ·)

/-- It throws if it is to begin after the end of the text. -/
def substr (s : List Byte) (pos : Nat) (count : Option Nat) : Option (List Byte) :=
  if pos ≤ s.length then some (count.elim (s.drop pos) (s.drop pos).take) else none

/-- What is printed of a place where the text has an error: the line and column, the text of
the line, and the marks below it. -/
structure SyntaxError where
  line : Nat
  col : Nat
  eLine : List Byte
  marks : List Byte
deriving DecidableEq

def syntax_error (fText : List Byte) (parser : MVST_Parser) : Option SyntaxError := do
  let eolPos := find fText (byte '\n') parser.m_pos
  let eLine ← substr fText parser.m_pos (eolPos.map (· - parser.m_pos))
  return {
    line := parser.m_line
    col := parser.m_col
    eLine
    marks := List.replicate parser.m_oldCol (byte ' ') ++ List.replicate (parser.m_col - parser.m_oldCol) (byte '^') }

/-- A position is where a text ends: behind so many lines, and in the last one that begins at `pos`. -/
structure EndsAt (text : List Byte) (line col pos : Nat) : Prop where
  line_eq : line = text.count (byte '\n')
  length_eq : pos + col = text.length
  begins : pos = 0 ∨ text[pos - 1]? = some (byte '\n')
  unbroken : byte '\n' ∉ text.drop pos

section Track

variable {text : List Byte} {line col pos : Nat} {c : Byte}

theorem EndsAt.nil : EndsAt [] 0 0 0 :=
  ⟨rfl, rfl, .inl rfl, List.not_mem_nil⟩

theorem EndsAt.newline (h : EndsAt text line col pos) :
    EndsAt (text ++ [byte '\n']) (line + 1) 0 (pos + (col + 1)) := by
  have hlength := h.length_eq
  have hpos : pos + (col + 1) = text.length + 1 := by omega
  rw [hpos]
  refine ⟨?_, ?_, .inr ?_, ?_⟩
  · rw [h.line_eq, List.count_append, List.count_singleton_self]
  · simp
  · simp
  · simp

theorem EndsAt.character (h : EndsAt text line col pos) (hc : c ≠ byte '\n') :
    EndsAt (text ++ [c]) line (col + 1) pos := by
  have hlength := h.length_eq
  refine ⟨?_, ?_, h.begins.imp_right fun hbefore => ?_, ?_⟩
  · rw [h.line_eq, List.count_append, List.count_singleton, if_neg (by simpa using hc), Nat.add_zero]
  · simp only [List.length_append, List.length_singleton]
    omega
  · have hlt : pos - 1 < text.length := (List.getElem?_eq_some_iff.mp hbefore).1
    rw [List.getElem?_append_left hlt, hbefore]
  · rw [List.drop_append_of_le_length (by omega), List.mem_append, List.mem_singleton]
    rintro (hmem | rfl)
    · exact h.unbroken hmem
    · exact hc rfl

end Track

namespace MVST_Parser

variable {parser : MVST_Parser} {text yytext : List Byte}

/-- Where the text read so far ends. -/
def At (parser : MVST_Parser) (text : List Byte) : Prop :=
  EndsAt text parser.m_line parser.m_col parser.m_pos

theorem At.track (h : parser.At text) (hnul : nul ∉ yytext) : (parser.track yytext).At (text ++ yytext) := by
  induction yytext generalizing parser text with
  | nil => simpa [MVST_Parser.track] using h
  | cons c yytext ih =>
    have hc : c ≠ nul := fun hzero => hnul (hzero ▸ List.mem_cons_self)
    have hrest : nul ∉ yytext := fun hmem => hnul (List.mem_cons_of_mem c hmem)
    rw [MVST_Parser.track, if_neg hc, List.append_cons]
    split
    · rename_i hline
      subst hline
      have hcr : parser.cr.At (text ++ [byte '\n']) := EndsAt.newline h
      exact ih hcr hrest
    · rename_i hline
      have hcol : parser.incCol.At (text ++ [c]) := EndsAt.character h hline
      exact ih hcol hrest

theorem track_unbroken (hline : byte '\n' ∉ yytext) (hnul : nul ∉ yytext) :
    parser.track yytext = { parser with m_col := parser.m_col + yytext.length } := by
  induction yytext generalizing parser with
  | nil => rfl
  | cons c yytext ih =>
    have hc : c ≠ nul := fun hzero => hnul (hzero ▸ List.mem_cons_self)
    have hnewline : c ≠ byte '\n' := fun heq => hline (heq ▸ List.mem_cons_self)
    rw [MVST_Parser.track, if_neg hc, if_neg hnewline, ih (fun hmem => hline (List.mem_cons_of_mem c hmem))
      fun hmem => hnul (List.mem_cons_of_mem c hmem)]
    simp only [incCol, List.length_cons, Nat.add_assoc, Nat.add_comm 1]

/-- The matches of the scanner, one after another. -/
def read (parser : MVST_Parser) (yytexts : List (List Byte)) : MVST_Parser :=
  yytexts.foldl userAction parser

theorem At.userAction (h : parser.At text) (hnul : nul ∉ yytext) : (parser.userAction yytext).At (text ++ yytext) := by
  have hold : parser.recOldPos.At text := h
  exact hold.track hnul

theorem At.read {yytexts : List (List Byte)} (h : parser.At text) (hnul : ∀ yytext ∈ yytexts, nul ∉ yytext) :
    (parser.read yytexts).At (text ++ yytexts.flatten) := by
  induction yytexts generalizing parser text with
  | nil => simpa [MVST_Parser.read] using h
  | cons yytext yytexts ih =>
    have hfirst := h.userAction (hnul yytext List.mem_cons_self)
    have hrest := ih hfirst fun yytext' hmem => hnul yytext' (List.mem_cons_of_mem yytext hmem)
    rwa [List.append_assoc] at hrest

end MVST_Parser

section Lines

variable {c : Byte} {text tail : List Byte} {line col pos : Nat}

theorem length_splitOn (c : Byte) (text : List Byte) : (text.splitOn c).length = text.count c + 1 := by
  induction text with
  | nil => rfl
  | cons d text ih =>
    rw [List.splitOn_cons_eq_if_modifyHead, List.count_cons]
    split
    · rw [List.length_cons, ih]
    · rw [List.length_modifyHead, ih]

theorem splitOn_zero (c : Byte) (text : List Byte) : (text.splitOn c)[0]? = some (text.takeWhile (· ≠ c)) := by
  induction text with
  | nil => rfl
  | cons d text ih =>
    rw [List.splitOn_cons_eq_if_modifyHead]
    split
    · rename_i heq
      simp [beq_iff_eq.mp heq]
    · rename_i hne
      have hd : d ≠ c := fun heq => hne (beq_iff_eq.mpr heq)
      rw [List.getElem?_modifyHead]
      simp [ih, hd]

/-- The text goes on in the line that it is in. -/
theorem EndsAt.line_text (h : EndsAt text line col pos) (tail : List Byte) :
    ((text ++ tail).splitOn (byte '\n'))[line]? = some (((text ++ tail).drop pos).takeWhile (· ≠ byte '\n')) := by
  have hlength := h.length_eq
  have hcount : line = (text.take pos).count (byte '\n') := by
    have hrest := List.count_eq_zero.mpr h.unbroken
    have hsplit := congrArg (List.count (byte '\n')) (List.take_append_drop pos text)
    rw [List.count_append, hrest, Nat.add_zero] at hsplit
    rw [h.line_eq, hsplit]
  obtain hzero | hbegins := h.begins
  · subst hzero
    rw [hcount]
    exact splitOn_zero _ _
  cases pos with
  | zero =>
    rw [hcount]
    exact splitOn_zero _ _
  | succ pos =>
    rw [Nat.add_sub_cancel] at hbegins
    obtain ⟨hlt, hnewline⟩ := List.getElem?_eq_some_iff.mp hbegins
    -- the newline before the line is the last one of the text
    have htake : text.take (pos + 1) = text.take pos ++ [byte '\n'] := by
      rw [List.take_succ_eq_append_getElem hlt, hnewline]
    have htext : text ++ tail = text.take pos ++ byte '\n' :: (text.drop (pos + 1) ++ tail) := by
      rw [← List.cons_append, ← hnewline, ← List.drop_eq_getElem_cons hlt, ← List.append_assoc, List.take_append_drop]
    have hdrop : (text ++ tail).drop (pos + 1) = text.drop (pos + 1) ++ tail :=
      List.drop_append_of_le_length (by omega)
    rw [hdrop, hcount, htake, htext, List.splitOn_append_cons_self, List.count_append, List.count_singleton_self,
      ← length_splitOn, List.getElem?_append_right (Nat.le_refl _), Nat.sub_self]
    exact splitOn_zero _ _

/-- Up to the next newline, or to the end. -/
theorem substr_find (hle : pos ≤ text.length) (c : Byte) :
    substr text pos ((find text c pos).map (· - pos)) = some ((text.drop pos).takeWhile (· ≠ c)) := by
  have htake : (text.drop pos).takeWhile (· ≠ c) = (text.drop pos).take ((text.drop pos).findIdx (· = c)) := by
    rw [List.takeWhile_eq_take_findIdx_not]
    simp
  rw [substr, if_pos hle, htake, find]
  cases hfind : (text.drop pos).findIdx? (· = c) with
  | none =>
    have hindex := List.findIdx_eq_length.mpr (List.findIdx?_eq_none_iff.mp hfind)
    simp [hindex]
  | some n =>
    have hindex := (List.findIdx?_eq_some_iff_findIdx_eq.mp hfind).2
    simp [hindex]

end Lines

theorem c_str_begins (s : List Byte) : c_str s <+: s :=
  List.takeWhile_prefix _

/-- The line that the counters are in is printed. -/
theorem EndsAt.syntax_error {fText consumed : List Byte} {parser : MVST_Parser} (h : parser.At consumed)
    (hpart : consumed <+: fText) :
    ∃ e, syntax_error fText parser = some e ∧ (fText.splitOn (byte '\n'))[parser.m_line]? = some e.eLine := by
  obtain ⟨tail, rfl⟩ := hpart
  have hlength := h.length_eq
  have hle : parser.m_pos ≤ (consumed ++ tail).length := by
    rw [List.length_append]
    omega
  rw [Wsrpcgen.syntax_error, substr_find hle, h.line_text tail]
  exact ⟨_, rfl, rfl⟩

/-- The marks are below the last match, if it is within a line. -/
theorem syntax_error_marks {fText yytext : List Byte} {parser : MVST_Parser} {e : SyntaxError}
    (hline : byte '\n' ∉ yytext) (hnul : nul ∉ yytext) (h : syntax_error fText (parser.userAction yytext) = some e) :
    e.marks = List.replicate parser.m_col (byte ' ') ++ List.replicate yytext.length (byte '^') := by
  rw [MVST_Parser.userAction, MVST_Parser.track_unbroken hline hnul] at h
  obtain ⟨eLine, _, heq⟩ := Option.bind_eq_some_iff.mp h
  obtain rfl := Option.some.inj heq
  simp only [MVST_Parser.recOldPos, Nat.add_sub_cancel_left]

theorem read_at {fText : List Byte} {yytexts : List (List Byte)} (h : yytexts.flatten <+: c_str fText) :
    (MVST_Parser.read {} yytexts).At yytexts.flatten := by
  have hstart : ({} : MVST_Parser).At [] := EndsAt.nil
  apply hstart.read
  intro yytext hmem hzero
  have hread : nul ∈ yytexts.flatten := List.mem_flatten.mpr ⟨yytext, hmem, hzero⟩
  exact nul_not_mem_c_str fText (h.subset hread)

/-- The scanner's own matches, as many as it has found, are such a part. -/
theorem lexemes_flatten_take (identifier : Regex Byte) (fText : List Byte) (n : Nat) :
    (((lexemes identifier (c_str fText)).map Scanner.Lexeme.text).take n).flatten <+: c_str fText := by
  have hall := (scanner identifier).scan_flatten .INITIAL true (c_str fText)
  rw [← List.take_append_drop n (List.map _ _), List.flatten_append] at hall
  exact ⟨_, hall⟩

/-- A syntax error at any of the scanner's matches has a line to show. -/
theorem lexemes_syntax_error (identifier : Regex Byte) (fText : List Byte) (n : Nat) :
    (syntax_error fText (MVST_Parser.read {}
      (((lexemes identifier (c_str fText)).map Scanner.Lexeme.text).take n))).isSome := by
  have hread := lexemes_flatten_take identifier fText n
  obtain ⟨e, he, _⟩ := EndsAt.syntax_error (read_at hread) (hread.trans (c_str_begins fText))
  rw [he]
  rfl

/-- Where the scanner has read a part of a text, in any matches, the counters are those of its end, and the line
of a syntax error is the line of the text that it is in. -/
theorem positions_exact (fText : List Byte) (yytexts : List (List Byte)) (rest : List Byte)
    (h : yytexts.flatten ++ rest = c_str fText) :
    let parser := MVST_Parser.read {} yytexts
    EndsAt yytexts.flatten parser.m_line parser.m_col parser.m_pos ∧ parser.m_pos ≤ fText.length ∧
      ∃ e, syntax_error fText parser = some e ∧ (fText.splitOn (byte '\n'))[parser.m_line]? = some e.eLine := by
  intro parser
  have hread : yytexts.flatten <+: c_str fText := ⟨rest, h⟩
  have hpart := hread.trans (c_str_begins fText)
  have hat : parser.At yytexts.flatten := read_at hread
  have hlength := hat.length_eq
  have hle := hpart.length_le
  exact ⟨hat, by omega, EndsAt.syntax_error hat hpart⟩

/-- A string of two lines, and a word after it. -/
theorem positions_exact_string :
    let parser := MVST_Parser.read {} [bytes "\"a\nb\"", bytes " "]
    EndsAt (bytes "\"a\nb\" ") parser.m_line parser.m_col parser.m_pos ∧ parser.m_pos ≤ (bytes "\"a\nb\" c").length ∧
      ∃ e, syntax_error (bytes "\"a\nb\" c") parser = some e ∧
        ((bytes "\"a\nb\" c").splitOn (byte '\n'))[parser.m_line]? = some e.eLine :=
  positions_exact (bytes "\"a\nb\" c") [bytes "\"a\nb\"", bytes " "] (bytes "c") (by decide)

end ServiceManager.Wsrpcgen
