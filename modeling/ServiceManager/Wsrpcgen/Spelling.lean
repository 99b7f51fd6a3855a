import ServiceManager.Wsrpcgen.Colons

namespace ServiceManager.Wsrpcgen

open Regex Scanner

/-- What is scanned as an identifier: it is no keyword. -/
def IsName (w : List Byte) : Prop :=
  w ∈ IDENT.language ∧ ∀ k ∈ keywords, w ∉ (text k.1).language

namespace Token

/-- The token is one that can be scanned and sent. -/
def Lexical : Token → Prop
  | IMPORT w => w ∈ (seq (text "#import ") (star dot)).language ∧ 10 ≤ w.length ∧ nul ∉ w
  | INTEGER w => ∃ r ∈ numbers, w ∈ r.pattern.language
  | IDENT w => IsName w
  | STRLIT w => w ∈ Wsrpcgen.STRLIT.language ∧ nul ∉ w
  | _ => True

/-- The token as it can be written. -/
def spelling : Token → List Byte
  | IMPORT w | INTEGER w | IDENT w | STRLIT w => w
  | PROGRAM => bytes "program"
  | VERSION => bytes "version"
  | BYREF => bytes "byref"
  | SVC_BYRREF => bytes "svc_byrref"
  | STRUCT => bytes "struct"
  | ENUM => bytes "enum"
  | UNION => bytes "union"
  | CASE => bytes "case"
  | TYPE => bytes "type"
  | COLON => bytes ":"
  | SEMI => bytes ";"
  | LBRACE => bytes "\x7b"
  | RBRACE => bytes "\x7d"
  | LBRACKET => bytes "("
  | RBRACKET => bytes ")"
  | COMMA => bytes ","
  | EQUALS => bytes "="
  | LCARET => bytes "<"
  | RCARET => bytes ">"

end Token

/-- Each token on a line of its own. -/
def written (ts : List Token) : List Byte :=
  ts.flatMap fun t => t.spelling ++ [byte '\n']

section Scanned

theorem rules_split (identifier : Regex Byte) :
    rules identifier = (rulesBefore ++ keywords.map keyword ++ numbers) ++
      rule identifier .ident :: ([rule STRLIT .strlit] ++ punctuation) := by
  simp [rules]

variable {r : Rule Byte Start Action} {pre post : List (Rule Byte Start Action)} {w : List Byte} {t : Token}

theorem mem_numbers_action : ∀ r ∈ numbers, r.action = .integer := by
  decide

/-- What the rules other than the one of identifiers send. -/
theorem tokens_lexical_of_rule
    (hr : r ∈ rulesBefore ++ keywords.map keyword ++ numbers ++ [rule STRLIT .strlit] ++ punctuation)
    (hw : w ∈ r.pattern.language) (hnul : nul ∉ w) (ht : t ∈ r.action.tokens w) (hcomplete : t.complete = true) :
    t.Lexical := by
  simp only [List.mem_append] at hr
  rcases hr with (((hr | hr) | hr) | hr) | hr
  · simp only [rulesBefore, List.mem_cons, List.not_mem_nil, or_false] at hr
    obtain rfl | rfl | rfl := hr
    · cases ht
    · cases ht
    · obtain rfl := List.mem_singleton.mp ht
      exact ⟨hw, of_decide_eq_true hcomplete, hnul⟩
  · obtain ⟨k, hk, rfl⟩ := List.mem_map.mp hr
    obtain rfl := List.mem_singleton.mp ht
    revert k
    simp [keywords, Token.Lexical]
  · rw [mem_numbers_action r hr] at ht
    obtain rfl := List.mem_singleton.mp ht
    exact ⟨r, hr, hw⟩
  · obtain rfl := List.mem_singleton.mp hr
    obtain rfl := List.mem_singleton.mp ht
    exact ⟨hw, hnul⟩
  · have hsend : ∀ r ∈ punctuation, ∀ u, r.action.tokens u ⊆ r.action.tokens [] := by
      simp [punctuation, rule, Action.tokens]
    have hfixed : ∀ r ∈ punctuation, ∀ t ∈ r.action.tokens [], t.Lexical := by
      simp [punctuation, rule, Action.tokens, Token.Lexical]
    exact hfixed r hr t (hsend r hr w ht)

/-- The keywords come before the rule of identifiers. -/
theorem ident_rule_before (hrules : rules IDENT = pre ++ r :: post) (haction : r.action = .ident) :
    r = rule IDENT .ident ∧ ∀ k ∈ keywords, keyword k ∈ pre := by
  have hr : r = rule IDENT .ident := by
    refine (mem_rules (hrules ▸ List.mem_append_right pre List.mem_cons_self)).resolve_right fun hr => ?_
    exact ident_rules r hr haction
  subst hr
  rw [rules_split] at hrules
  have hother : ∀ l ⊆ rulesBefore ++ keywords.map keyword ++ numbers ++ [rule STRLIT .strlit] ++ punctuation,
      rule IDENT .ident ∉ l := fun l hl hmem => ident_rules (rule IDENT .ident) (hl hmem) rfl
  have hbefore := hother (rulesBefore ++ keywords.map keyword ++ numbers)
    (List.Subset.trans (List.subset_append_left _ _) (List.subset_append_left _ _))
  have hafter := hother ([rule STRLIT .strlit] ++ punctuation)
    (by rw [List.append_assoc _ [rule STRLIT .strlit]]; exact List.subset_append_right _ _)
  obtain ⟨rfl, _, _⟩ := (List.append_cons_inj_of_notMem hbefore hafter).mp hrules
  exact ⟨rfl, fun k hk => List.mem_append_left _ (List.mem_append_right _ (List.mem_map_of_mem hk))⟩

/-- The token of a lexeme can be scanned. -/
theorem lexeme_lexical {start : Start} {bol : Bool} {a : Byte} {s : List Byte} {action : Action}
    (h : ((scanner IDENT).lexeme start bol a s).action = some action)
    (hnul : nul ∉ ((scanner IDENT).lexeme start bol a s).text)
    (ht : t ∈ action.tokens ((scanner IDENT).lexeme start bol a s).text) (hcomplete : t.complete = true) :
    t.Lexical := by
  obtain ⟨pre, r, post, n, hrules, hn, rfl, htext, hpre⟩ := lexeme_split h
  obtain ⟨rfl, hpos, hlongest⟩ := Rule.longest_eq_some hn
  have hw := (longest_mem hlongest).2
  rw [htext] at ht hnul
  have hmem : r ∈ (scanner IDENT).rules := hrules ▸ List.mem_append_right pre List.mem_cons_self
  rcases mem_rules hmem with rfl | hr
  · obtain ⟨_, hkeywords⟩ := ident_rule_before hrules rfl
    obtain rfl := List.mem_singleton.mp ht
    refine ⟨hw, fun k hk hkeyword => ?_⟩
    -- the keyword would have been taken before the identifier
    obtain ⟨m, hm, hle⟩ := longest_le hkeyword (List.take_prefix n (a :: s))
    rw [List.length_take, Nat.min_eq_left (longest_mem hlongest).1] at hle
    have hlt := hpre (keyword k) (hkeywords k hk) m (Rule.longest_eq rfl rfl hm (by omega))
    omega
  · exact tokens_lexical_of_rule hr hw hnul ht hcomplete

/-- A byte of a lexeme is one of the text. -/
theorem lexeme_subset {source : List Byte} {l : Scanner.Lexeme Byte Action} (hl : l ∈ lexemes IDENT source) :
    l.text ⊆ source := by
  intro b hb
  have hflatten : ((lexemes IDENT source).map Lexeme.text).flatten = source := scan_flatten _ _ _ _
  rw [← hflatten]
  exact List.mem_flatten_of_mem (List.mem_map_of_mem hl) hb

theorem tokens_lexical {source : List Byte} (hnul : nul ∉ source) (ht : t ∈ tokens source)
    (hcomplete : t.complete = true) :
    t.Lexical := by
  obtain ⟨l, hl, ht⟩ := List.mem_flatMap.mp ht
  have htext : nul ∉ l.text := fun h => hnul (lexeme_subset hl h)
  obtain ⟨start, bol, a, s, rfl⟩ := mem_scan hl
  cases haction : ((scanner IDENT).lexeme start bol a s).action with
  | none =>
    rw [haction] at ht
    cases ht
  | some action =>
    rw [haction] at ht
    exact lexeme_lexical haction htext ht hcomplete

theorem sent_lexical {source : List Byte} {ts : List Token} (h : sent source = some ts) : ∀ t ∈ ts, t.Lexical := by
  intro t ht
  obtain ⟨htokens, hall⟩ := Option.filter_eq_some_iff.mp h
  obtain rfl := Option.some.inj htokens
  exact tokens_lexical (nul_not_mem_c_str source) ht (List.all_eq_true.mp hall t ht)

end Scanned

section Strings

/-- What stands between the quotes of a string. -/
def strChar : Regex Byte :=
  alt (seq (one '\\') dot) (symbol fun b => b ≠ byte '\\' && b ≠ byte '"')

variable {u w s : List Byte}

theorem lower_backslash {b : Byte} : lower b = lower (byte '\\') → b = byte '\\' :=
  eq_of_lower (by decide)

theorem mem_strChar (hu : u ∈ strChar.language) :
    (∃ b, u = [byte '\\', b]) ∨ ∃ b, b ≠ byte '\\' ∧ b ≠ byte '"' ∧ u = [b] := by
  rcases hu with hu | ⟨b, hb, rfl⟩
  · obtain ⟨_, ⟨b, hb, rfl⟩, _, ⟨b', _, rfl⟩, rfl⟩ := Language.mem_mul.mp hu
    obtain rfl := lower_backslash (of_decide_eq_true hb)
    exact Or.inl ⟨b', rfl⟩
  · obtain ⟨hslash, hquote⟩ := Bool.and_eq_true_iff.mp hb
    exact Or.inr ⟨b, of_decide_eq_true hslash, of_decide_eq_true hquote, rfl⟩

theorem strChar_code (hu : u ∈ strChar.language) (hw : w ∈ strChar.language) {s t : List Byte} (h : u ++ s = w ++ t) :
    u = w := by
  obtain ⟨b, rfl⟩ | ⟨b, hb, _, rfl⟩ := mem_strChar hu
  · obtain ⟨c, rfl⟩ | ⟨c, hc, _, rfl⟩ := mem_strChar hw
    · obtain ⟨_, htail⟩ := List.cons.inj h
      rw [(List.cons.inj htail).1]
    · exact absurd (List.cons.inj h).1.symm hc
  · obtain ⟨c, rfl⟩ | ⟨c, _, _, rfl⟩ := mem_strChar hw
    · exact absurd (List.cons.inj h).1 hb
    · rw [(List.cons.inj h).1]

theorem mem_STRLIT (hu : u ∈ STRLIT.language) :
    ∃ c x, (c = [] ∨ ∃ b, lower b = lower (byte 'L') ∧ c = [b]) ∧ x ∈ (star strChar).language ∧
      u = c ++ byte '"' :: (x ++ [byte '"']) := by
  obtain ⟨c, hc, _, hrest, rfl⟩ := Language.mem_mul.mp hu
  obtain ⟨_, ⟨q, hq, rfl⟩, _, hbody, rfl⟩ := Language.mem_mul.mp hrest
  obtain ⟨x, hx, _, ⟨q', hq', rfl⟩, rfl⟩ := Language.mem_mul.mp hbody
  obtain rfl := lower_quote (of_decide_eq_true hq)
  obtain rfl := lower_quote (of_decide_eq_true hq')
  refine ⟨c, x, ?_, hx, rfl⟩
  rcases hc with ⟨b, hb, rfl⟩ | hc
  · exact Or.inr ⟨b, of_decide_eq_true hb, rfl⟩
  · exact Or.inl hc

/-- A string is told from what comes after it. -/
theorem STRLIT_longest_append (hw : w ∈ STRLIT.language) (s : List Byte) : STRLIT.longest (w ++ s) = some w.length := by
  refine longest_eq hw (List.prefix_append w s) fun u hu ⟨t, ht⟩ => ?_
  obtain ⟨c, x, hc, hx, rfl⟩ := mem_STRLIT hw
  obtain ⟨c', x', hc', hx', rfl⟩ := mem_STRLIT hu
  have hquote : ∀ b : Byte, lower b = lower (byte 'L') → b ≠ byte '"' := by
    rintro b hb rfl
    exact absurd hb (by decide)
  have hbody : ∀ {t t' : List Byte}, x' ++ byte '"' :: t = x ++ byte '"' :: t' → x' = x :=
    star_before_unique rfl (by decide) (fun _ hu _ hv _ _ => strChar_code hu hv) hx' hx
  rcases hc with rfl | ⟨b, hb, rfl⟩
  · rcases hc' with rfl | ⟨b', hb', rfl⟩
    · have htail : x' ++ [byte '"'] ++ t = x ++ [byte '"'] ++ s := (List.cons.inj ht).2
      rw [List.append_assoc, List.append_assoc] at htail
      rw [hbody htail]
    · exact absurd (List.cons.inj ht).1 (hquote b' hb')
  · rcases hc' with rfl | ⟨b', _, rfl⟩
    · exact absurd (List.cons.inj ht).1.symm (hquote b hb)
    · have htail : x' ++ [byte '"'] ++ t = x ++ [byte '"'] ++ s := (List.cons.inj (List.cons.inj ht).2).2
      rw [List.append_assoc, List.append_assoc] at htail
      rw [hbody htail]
      rfl

/-- A string has a quote among its first two symbols. -/
theorem quote_mem_take (hu : u ∈ STRLIT.language) : byte '"' ∈ u.take 2 := by
  obtain ⟨c, x, hc, _, rfl⟩ := mem_STRLIT hu
  rcases hc with rfl | ⟨b, _, rfl⟩
  · exact List.mem_cons_self
  · exact List.mem_cons_of_mem _ List.mem_cons_self

end Strings

section Written

variable {r : Rule Byte Start Action} {a : Byte} {u w s : List Byte} {bol : Bool} {m n : Nat}

theorem newline_uses : ∀ r ∈ rulesBefore ++ keywords.map keyword ++ numbers ++ punctuation.dropLast,
    r.start = .INITIAL →
    r.pattern.uses (byte '\n') = false := by
  decide

theorem take_line (a : Byte) (w s : List Byte) :
    (a :: (w ++ byte '\n' :: s)).take 2 ⊆ (a :: w).take 2 ++ [byte '\n'] := by
  cases w <;> simp

/-- Before the end of a line there is no string, if there is no quote where one begins. -/
theorem STRLIT_none (hquote : byte '"' ∉ (a :: w).take 2) (hs : s <+: a :: (w ++ byte '\n' :: u)) :
    STRLIT.longest s = none := by
  rw [Option.eq_none_iff_forall_ne_some]
  intro n hn
  have hbegins := (List.take_prefix n s).trans hs
  have hmem := take_line a w u ((hbegins.take 2).subset (quote_mem_take (longest_mem hn).2))
  rcases List.mem_append.mp hmem with hmem | hmem
  · exact hquote hmem
  · exact absurd (List.mem_singleton.mp hmem) (by decide)

/-- No rule sees past the end of a line, where neither a string nor white space begins. -/
theorem longest_line (hquote : byte '"' ∉ (a :: w).take 2) (hblank : blank.first a = false) :
    ∀ r ∈ rules IDENT, r.longest .INITIAL bol (a :: (w ++ byte '\n' :: s)) = r.longest .INITIAL bol (a :: w) := by
  intro r hr
  by_cases hstart : r.start = .INITIAL
  · suffices hpattern : r.pattern.longest (a :: (w ++ byte '\n' :: s)) = r.pattern.longest (a :: w) by
      rw [Rule.longest, Rule.longest, hpattern]
    have hline : r.pattern.uses (byte '\n') = false →
        r.pattern.longest (a :: (w ++ byte '\n' :: s)) = r.pattern.longest (a :: w) := fun huses =>
      longest_append_cons huses (a :: w) s
    rcases mem_rules hr with rfl | hr
    · exact hline (by decide)
    · rw [show punctuation = punctuation.dropLast ++ [rule blank .skip] from rfl] at hr
      simp only [List.mem_append, List.mem_singleton, or_assoc] at hr
      have hother := fun h => hline (newline_uses r h hstart)
      simp only [List.mem_append, or_imp] at hother
      rcases hr with hr | hr | hr | rfl | hr | rfl
      · exact hother.1.1.1 hr
      · exact hother.1.1.2 hr
      · exact hother.1.2 hr
      · have hnone : STRLIT.longest (a :: (w ++ byte '\n' :: s)) = none := STRLIT_none hquote List.prefix_rfl
        have hword : STRLIT.longest (a :: w) = none := STRLIT_none (u := s) hquote (List.prefix_append (a :: w) _)
        exact hnone.trans hword.symm
      · exact hother.2 hr
      · exact (longest_eq_none rfl hblank).trans (longest_eq_none rfl hblank).symm
  · rw [Rule.longest, Rule.longest, if_neg fun h => hstart h.1, if_neg fun h => hstart h.1]

/-- A lexeme that is its whole text is one at the end of a line too. -/
theorem lexeme_line {action : Action} (hquote : byte '"' ∉ (a :: w).take 2) (hblank : blank.first a = false)
    (h : (scanner IDENT).lexeme .INITIAL true a w = { action := some action, text := a :: w, rest := [] })
    (s : List Byte) :
    (scanner IDENT).lexeme .INITIAL true a (w ++ byte '\n' :: s) =
      { action := some action, text := a :: w, rest := byte '\n' :: s } := by
  rw [lexeme_append (longest_line hquote hblank), h]
  rfl

theorem IDENT_first (h : IDENT.first a = true) : a = byte ':' ∨ LTR.first a = true := by
  simp only [IDENT, ident, opt, one, first, nullable, Bool.or_eq_true, Bool.and_eq_true] at h
  rcases h with ((h | h) | h) | h
  · exact Or.inl (lower_colon (of_decide_eq_true h))
  · cases h
  · exact Or.inr h.2
  · exact absurd h.1.2 Bool.false_ne_true

theorem IDENT_rules (h : IDENT.first a = true) (hr : r ∈ rulesBefore ++ numbers) (hstart : r.start = .INITIAL) :
    r.pattern.first a = false := by
  rcases IDENT_first h with rfl | hletter
  · refine colon_rules r ?_ hstart
    simp only [List.mem_append] at hr ⊢
    tauto
  · exact letter_rules hletter r (List.mem_append_left _ hr) hstart

theorem IDENT_not_blank (h : IDENT.first a = true) : blank.first a = false := by
  rcases IDENT_first h with rfl | hletter
  · decide
  · exact letter_not_blank hletter

theorem longest_whole {p : Regex Byte} (hp : u ∈ p.language) : p.longest u = some u.length :=
  longest_eq hp List.prefix_rfl fun _ _ hbegins => hbegins.length_le

theorem mem_of_longest_whole (h : r.longest .INITIAL bol u = some u.length) : u ∈ r.pattern.language := by
  have hmem := (longest_mem (Rule.longest_eq_some h).2.2).2
  rwa [List.take_length] at hmem

theorem lexeme_name (hw : IsName (a :: w)) :
    (scanner IDENT).lexeme .INITIAL true a w = { action := some .ident, text := a :: w, rest := [] } := by
  have hfirst := first_of_mem hw.1
  have hident := ident_longest (longest_whole hw.1) (Nat.succ_pos _) true
  refine lexeme_whole (rules_split IDENT) hident fun r hr hn => ?_
  have hstart := (Rule.longest_eq_some hn).1
  have hother : r ∉ rulesBefore ++ numbers := fun hother => by
    have hsymbol := Rule.first_of_longest hn
    rw [IDENT_rules hfirst hother hstart] at hsymbol
    cases hsymbol
  simp only [List.mem_append, not_or] at hr hother
  obtain ⟨k, hk, rfl⟩ := List.mem_map.mp ((hr.resolve_right hother.2).resolve_left hother.1)
  exact hw.2 k hk (mem_of_longest_whole hn)

theorem number_rules : ∀ a : Byte, (∃ r ∈ numbers, r.pattern.first a = true) →
    ∀ r ∈ rulesBefore ++ keywords.map keyword ++ [rule IDENT .ident] ++ [rule STRLIT .strlit] ++ punctuation,
      r.start = .INITIAL → r.pattern.first a = false := by
  decide +kernel

theorem number_uses : ∀ r ∈ numbers, r.pattern.uses (byte '"') = false := by
  decide

theorem number_not_nullable : ∀ r ∈ numbers, r.pattern.nullable = false := by
  decide

theorem numbers_initial : ∀ r ∈ numbers, r.start = .INITIAL ∧ r.bol = false := by
  decide

theorem lexeme_number (hr : r ∈ numbers) (hw : a :: w ∈ r.pattern.language) :
    (scanner IDENT).lexeme .INITIAL true a w = { action := some .integer, text := a :: w, rest := [] } := by
  have hrules := number_rules a ⟨r, hr, first_of_mem hw⟩
  have hmem : ∀ r ∈ numbers, r ∈ rules IDENT := fun r hr => by simp [rules, hr]
  have hlongest : r.longest .INITIAL true (a :: w) = some (a :: w).length :=
    Rule.longest_eq (numbers_initial r hr).1 (numbers_initial r hr).2 (longest_whole hw) (Nat.succ_pos _)
  have hrule : r ∈ (scanner IDENT).rules := hmem r hr
  have hlexeme := lexeme_eq hrule hlongest fun r' hr' m hm => by
    refine ⟨(longest_mem (Rule.longest_eq_some hm).2.2).1, fun _ => ?_⟩
    by_cases hnumber : r' ∈ numbers
    · rw [mem_numbers_action r' hnumber, mem_numbers_action r hr]
    · have hsymbol := Rule.first_of_longest hm
      rw [hrules r' ?_ (Rule.longest_eq_some hm).1] at hsymbol
      · cases hsymbol
      · have hr' : r' ∈ rules IDENT := hr'
        simp only [rules, List.mem_append] at hr' ⊢
        tauto
  rw [hlexeme, mem_numbers_action r hr, List.take_length, List.drop_length]

theorem import_rules : ∀ r ∈ rulesBefore.take 2, r.pattern.first (byte '#') = false := by
  decide

theorem lower_hash {b : Byte} : lower b = lower (byte '#') → b = byte '#' :=
  eq_of_lower (by decide)

/-- A line that begins with an import is scanned as a whole. -/
theorem lexeme_import (hw : w ∈ (seq (text "#import ") (star dot)).language) :
    ∃ w', w = byte '#' :: w' ∧ byte '"' ∉ w.take 2 ∧
      (scanner IDENT).lexeme .INITIAL true (byte '#') w' = { action := some .import, text := w, rest := [] } := by
  obtain ⟨x, hx, y, hy, rfl⟩ := Language.mem_mul.mp hw
  obtain ⟨a, x, rfl, ha, hmap⟩ := List.map_eq_cons_iff.mp (mem_text.mp hx)
  obtain ⟨b, x, rfl, hb, _⟩ := List.map_eq_cons_iff.mp hmap
  obtain rfl := lower_hash ha
  refine ⟨b :: x ++ y, rfl, ?_, ?_⟩
  · intro hquote
    rcases List.mem_cons.mp hquote with heq | hquote
    · exact absurd heq (by decide)
    · obtain rfl := List.mem_singleton.mp hquote
      exact absurd hb (by decide)
  · have hrule : ({ rule (seq (text "#import ") (star dot)) .import with bol := true } :
        Rule Byte Start Action).longest .INITIAL true (byte '#' :: (b :: x ++ y)) =
          some (byte '#' :: (b :: x ++ y)).length := by
      have hwhole : (seq (text "#import ") (star dot)).longest (byte '#' :: (b :: x ++ y)) = _ := longest_whole hw
      rw [Rule.longest, if_pos ⟨rfl, fun _ => rfl⟩]
      change Option.filter _ ((seq (text "#import ") (star dot)).longest _) = _
      rw [hwhole]
      rfl
    refine lexeme_whole (show _ = rulesBefore.take 2 ++ _ :: _ from rfl) hrule fun r hr hn => ?_
    have hsymbol := Rule.first_of_longest hn
    rw [import_rules r hr] at hsymbol
    cases hsymbol

theorem STRLIT_mem_rules : rule STRLIT .strlit ∈ rules IDENT := by
  simp [rules]

theorem quote_rules : ∀ r ∈ rulesBefore ++ keywords.map keyword ++ numbers ++ [rule IDENT .ident] ++ punctuation,
    r.start = .INITIAL → r.pattern.first (byte '"') = false := by
  decide

theorem word_quote_uses : ∀ r ∈ keywords.map keyword ++ [rule IDENT .ident], r.pattern.uses (byte '"') = false := by
  decide

theorem L_letter {b : Byte} (h : lower b = lower (byte 'L')) : LTR.first b = true := by
  have hrange : (decide (byte 'a' ≤ lower (byte 'L')) && decide (lower (byte 'L') ≤ byte 'z')) = true := by decide
  simp only [LTR, first, h, hrange, Bool.true_or]

/-- At a string nothing else matches more than the letter before it. -/
theorem string_rule (hw : u ∈ STRLIT.language) (hu : u <+: s) (hr : r ∈ rules IDENT)
    (hn : r.longest .INITIAL bol s = some n) : r = rule STRLIT .strlit ∨ n ≤ 1 := by
  obtain ⟨hstart, _, hlongest⟩ := Rule.longest_eq_some hn
  obtain ⟨hle, hmem⟩ := longest_mem hlongest
  obtain ⟨c, x, hc, _, rfl⟩ := mem_STRLIT hw
  obtain ⟨t, rfl⟩ := hu
  simp only [rules, List.mem_append, List.mem_singleton] at hr
  by_cases hstring : r = rule STRLIT .strlit
  · exact Or.inl hstring
  have hother : r ∈ rulesBefore ++ keywords.map keyword ++ numbers ++ [rule IDENT .ident] ++ punctuation := by
    simp only [List.mem_append, List.mem_singleton]
    tauto
  right
  rcases hc with rfl | ⟨b, hb, rfl⟩
  · have hsymbol := Rule.first_of_longest hn
    rw [quote_rules r hother hstart] at hsymbol
    cases hsymbol
  · by_cases hword : r ∈ keywords.map keyword ++ [rule IDENT .ident]
    · have hshort := prefix_of_not_uses (s := [b]) (t := x ++ [byte '"'] ++ t) hmem
        (by rw [List.append_assoc]; exact List.take_prefix _ _) (word_quote_uses r hword)
      have hlength := hshort.length_le
      rwa [List.length_take, Nat.min_eq_left hle] at hlength
    · have hsymbol := Rule.first_of_longest hn
      have hnumber : r ∈ rulesBefore ++ numbers ++ punctuation := by
        simp only [List.mem_append, List.mem_singleton] at hother hword ⊢
        tauto
      rw [letter_rules (L_letter hb) r hnumber hstart] at hsymbol
      cases hsymbol

theorem two_le_STRLIT (hw : w ∈ STRLIT.language) : 2 ≤ w.length := by
  obtain ⟨c, x, _, _, rfl⟩ := mem_STRLIT hw
  simp only [List.length_append, List.length_cons]
  omega

theorem lexeme_string (hw : a :: w ∈ STRLIT.language) (s : List Byte) :
    (scanner IDENT).lexeme .INITIAL true a (w ++ s) = { action := some .strlit, text := a :: w, rest := s } := by
  have hlongest : (rule STRLIT .strlit).longest .INITIAL true (a :: (w ++ s)) = some (a :: w).length :=
    Rule.longest_eq rfl rfl (STRLIT_longest_append hw s) (Nat.succ_pos _)
  have hrule : rule STRLIT .strlit ∈ (scanner IDENT).rules := STRLIT_mem_rules
  have hlexeme := lexeme_eq hrule hlongest fun r hr m hm => by
    rcases string_rule hw (List.prefix_append (a :: w) s) hr hm with rfl | hle
    · rw [hlongest] at hm
      exact ⟨Nat.le_of_eq (Option.some.inj hm).symm, fun _ => rfl⟩
    · have htwo := two_le_STRLIT hw
      exact ⟨by omega, fun heq => by omega⟩
  rw [hlexeme, ← List.cons_append, List.take_left, List.drop_left]
  rfl

/-- A token that can be scanned is scanned from a line of its own. -/
theorem lexeme_spelling (t : Token) (ht : t.Lexical) (s : List Byte) :
    ∃ a w action, t.spelling = a :: w ∧ (scanner IDENT).lexeme .INITIAL true a (w ++ byte '\n' :: s) =
        { action := some action, text := a :: w, rest := byte '\n' :: s } ∧
      action.tokens (a :: w) = [t] ∧ action.next .INITIAL = .INITIAL := by
  cases t with
  | IMPORT w =>
    obtain ⟨w', rfl, hquote, hlexeme⟩ := lexeme_import ht.1
    exact ⟨_, _, _, rfl, lexeme_line hquote (by decide) hlexeme s, rfl, rfl⟩
  | INTEGER w =>
    obtain ⟨r, hr, hw⟩ := ht
    obtain ⟨a, w, rfl, hfirst⟩ := exists_cons_of_mem (number_not_nullable r hr) hw
    have hquote : byte '"' ∉ (a :: w).take 2 := fun hmem => by
      have huses := uses_of_mem hw (List.take_subset _ _ hmem)
      rw [number_uses r hr] at huses
      cases huses
    have hblank : blank.first a = false :=
      number_rules a ⟨r, hr, hfirst⟩ (rule blank .skip)
        (List.mem_append_right _ (List.getLast_mem (List.cons_ne_nil _ _))) rfl
    exact ⟨_, _, _, rfl, lexeme_line hquote hblank (lexeme_number hr hw) s, rfl, rfl⟩
  | IDENT w =>
    obtain ⟨a, w, rfl, hfirst⟩ := exists_cons_of_mem rfl ht.1
    have hquote : byte '"' ∉ (a :: w).take 2 := fun hmem =>
      absurd (uses_of_mem ht.1 (List.take_subset _ _ hmem)) (by decide)
    exact ⟨_, _, _, rfl, lexeme_line hquote (IDENT_not_blank hfirst) (lexeme_name ht) s, rfl, rfl⟩
  | STRLIT w =>
    obtain ⟨a, w, rfl, _⟩ := exists_cons_of_mem rfl ht.1
    exact ⟨_, _, _, rfl, lexeme_string ht.1 _, rfl, rfl⟩
  | _ => exact ⟨_, _, .send [_], rfl, lexeme_line (by decide) (by decide) rfl s, rfl, rfl⟩

theorem newline_rules : ∀ r ∈ rulesBefore ++ keywords.map keyword ++ numbers ++ [rule IDENT .ident] ++
    [rule STRLIT .strlit] ++
    punctuation.dropLast, r.start = .INITIAL → r.pattern.first (byte '\n') = false := by
  decide

/-- The end of a line is skipped. -/
theorem lexeme_newline (bol : Bool) (s : List Byte) :
    (scanner IDENT).lexeme .INITIAL bol (byte '\n') s = { action := some .skip, text := [byte '\n'], rest := s } := by
  have hself : (rule blank .skip).longest .INITIAL bol (byte '\n' :: s) = some 1 := by
    have hblank : [byte '\n'] ∈ blank.language := ⟨byte '\n', by decide, rfl⟩
    refine longest_one ?_ hblank _ bol s
    rintro _ ⟨b, _, rfl⟩
    rfl
  have hmem : rule blank .skip ∈ punctuation := List.getLast_mem (l := punctuation) (List.cons_ne_nil _ _)
  refine lexeme_eq (punctuation_mem_rules hmem) hself fun r hr m hm => ?_
  by_cases hblank : r = rule blank .skip
  · subst hblank
    rw [hself] at hm
    exact ⟨Nat.le_of_eq (Option.some.inj hm).symm, fun _ => rfl⟩
  · have hsymbol := Rule.first_of_longest hm
    rw [newline_rules r ?_ (Rule.longest_eq_some hm).1] at hsymbol
    · cases hsymbol
    · have hr : r ∈ rules IDENT := hr
      rw [rules, show punctuation = punctuation.dropLast ++ [rule blank .skip] from rfl] at hr
      simp only [List.mem_append, List.mem_singleton] at hr ⊢
      tauto

theorem scan_newline (bol : Bool) (s : List Byte) :
    (scanner IDENT).scan .INITIAL bol (byte '\n' :: s) =
      { action := some .skip, text := [byte '\n'], rest := s } :: (scanner IDENT).scan .INITIAL true s := by
  rw [scan_cons, lexeme_newline]
  rfl

theorem tokens_written (ts : List Token) (hts : ∀ t ∈ ts, t.Lexical) : tokens (written ts) = ts := by
  unfold tokens lexemes
  induction ts with
  | nil =>
    rw [written, List.flatMap_nil, scan]
    rfl
  | cons t ts ih =>
    obtain ⟨ht, hts⟩ := List.forall_mem_cons.mp hts
    obtain ⟨a, w, action, hspelling, hlexeme, htokens, hnext⟩ := lexeme_spelling t ht (written ts)
    have hwritten : written (t :: ts) = a :: (w ++ byte '\n' :: written ts) := by
      rw [written, List.flatMap_cons, hspelling, List.append_assoc]
      rfl
    obtain ⟨bol, hscan⟩ := scan_of_lexeme hlexeme hnext
    rw [hwritten, hscan, scan_newline]
    change action.tokens (a :: w) ++ ([] ++ emitted _) = _
    rw [htokens, ih hts]
    rfl

theorem number_uses_nul : ∀ r ∈ numbers, r.pattern.uses nul = false := by
  decide

theorem nul_not_mem_spelling {t : Token} (ht : t.Lexical) : nul ∉ t.spelling := by
  intro h
  cases t with
  | IMPORT w => exact ht.2.2 h
  | INTEGER w =>
    obtain ⟨r, hr, hw⟩ := ht
    have huses := uses_of_mem hw h
    rw [number_uses_nul r hr] at huses
    cases huses
  | IDENT w => exact absurd (uses_of_mem ht.1 h) (by decide)
  | STRLIT w => exact ht.2 h
  | _ => revert h; decide

theorem Token.Lexical.complete {t : Token} (ht : t.Lexical) : t.complete = true := by
  cases t with
  | IMPORT w => exact decide_eq_true ht.2.1
  | _ => rfl

theorem c_str_written {ts : List Token} (hts : ∀ t ∈ ts, t.Lexical) : c_str (written ts) = written ts := by
  refine List.takeWhile_eq_self_iff.mpr fun b hb => decide_eq_true ?_
  rintro rfl
  obtain ⟨t, ht, hline⟩ := List.mem_flatMap.mp hb
  rcases List.mem_append.mp hline with hspelling | hnewline
  · exact nul_not_mem_spelling (hts t ht) hspelling
  · exact absurd (List.mem_singleton.mp hnewline) (by decide)

/-- A file of tokens that can be sent is scanned to its end, and they are sent. -/
theorem sent_written {ts : List Token} (hts : ∀ t ∈ ts, t.Lexical) : sent (written ts) = some ts := by
  have hall : ts.all Token.complete = true := List.all_eq_true.mpr fun t ht => (hts t ht).complete
  rw [sent, c_str_written hts, tokens_written ts hts]
  exact Option.filter_eq_some_iff.mpr ⟨rfl, hall⟩

end Written

/-- The scanner sends the parser the tokens that can be written, and any of them. -/
theorem exists_sent_iff (ts : List Token) : (∃ source, sent source = some ts) ↔ ∀ t ∈ ts, t.Lexical := by
  constructor
  · rintro ⟨source, h⟩
    exact sent_lexical h
  · exact fun hts => ⟨written ts, sent_written hts⟩

end ServiceManager.Wsrpcgen
