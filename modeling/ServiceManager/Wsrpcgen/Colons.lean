import ServiceManager.Wsrpcgen.Identifiers

namespace ServiceManager.Wsrpcgen

open Regex Scanner

/-- A case of a union, up to the end of what it declares. -/
def caseText (id space decl : List Byte) : List Byte :=
  bytes "case " ++ id ++ byte ':' :: (space ++ decl)

section Rules

variable {identifier : Regex Byte} {r : Rule Byte Start Action} {v l w u s : List Byte} {b c : Byte}
    {bol : Bool} {n : Nat}

theorem mem_rules (hr : r ∈ rules identifier) :
    r = rule identifier .ident ∨ r ∈ rulesBefore ++ keywords.map keyword ++ numbers ++ [rule STRLIT .strlit] ++
      punctuation := by
  simp only [rules, List.mem_append, List.mem_singleton] at hr ⊢
  tauto

theorem ident_mem_rules (identifier : Regex Byte) : rule identifier .ident ∈ (scanner identifier).rules := by
  simp [scanner, rules]

theorem punctuation_mem_rules (hr : r ∈ punctuation) : r ∈ rules identifier :=
  List.mem_append_right _ hr

theorem forall_blank {P : Byte → Prop} (hspace : P (byte ' ')) (htab : P (byte '\t')) (hline : P (byte '\n')) :
    ∀ b ∈ bytes " \t\n", P b := by
  change ∀ b ∈ [byte ' ', byte '\t', byte '\n'], P b
  rw [List.forall_mem_cons, List.forall_mem_cons, List.forall_mem_singleton]
  exact ⟨hspace, htab, hline⟩

/-- Only letters match a letter in either case. -/
theorem letter_lower (hb : LTR.first b = true) (hc : LTR.first c = false) : lower b ≠ lower c := by
  intro heq
  by_cases hletter : 97 ≤ (lower c).val ∧ (lower c).val ≤ 122
  · have hrange : (decide (byte 'a' ≤ lower c) && decide (lower c ≤ byte 'z')) = true := by
      rw [Bool.and_eq_true, decide_eq_true_eq, decide_eq_true_eq]
      exact hletter
    simp [LTR, first, hrange] at hc
  · rw [eq_of_lower hletter heq, hc] at hb
    cases hb

theorem letter_not_digit (hb : LTR.first b = true) : DIGIT.first b = false := by
  have hdigits : ∀ k : Fin 10, LTR.first (Fin.ofNat 256 (48 + k.val)) = false := by decide
  rw [Bool.eq_false_iff]
  intro hdigit
  obtain ⟨hge, hle⟩ := Bool.and_eq_true_iff.mp hdigit
  have hge : 48 ≤ b.val := of_decide_eq_true hge
  have hle : b.val ≤ 57 := of_decide_eq_true hle
  have heq : Fin.ofNat 256 (48 + (b.val - 48)) = b := by
    apply Fin.ext
    rw [Fin.val_ofNat]
    omega
  have hnot := hdigits ⟨b.val - 48, by omega⟩
  rw [heq, hb] at hnot
  cases hnot

theorem letter_not_blank (hb : LTR.first b = true) : blank.first b = false := by
  have hblanks : ∀ c ∈ bytes " \t\n", LTR.first c = false :=
    forall_blank (by decide) (by decide) (by decide)
  rw [Bool.eq_false_iff]
  intro hblank
  rw [hblanks b (of_decide_eq_true hblank)] at hb
  cases hb

theorem letter_rules (hb : LTR.first b = true) : ∀ r ∈ rulesBefore ++ numbers ++ punctuation, r.start = .INITIAL →
    r.pattern.first b = false := by
  have hne : ∀ c, LTR.first c = false → lower b ≠ lower c := fun c => letter_lower hb
  have hdigit := letter_not_digit hb
  have hblank := letter_not_blank hb
  simp (disch := decide) [rulesBefore, numbers, punctuation, rule, text, first, nullable, one, plus, opt, hne,
    hdigit, hblank]

theorem keyword_uses : ∀ k ∈ keywords, (text k.1).uses (byte ':') = false ∧ (text k.1).uses (byte ' ') = false := by
  decide

theorem lower_quote {b : Byte} : lower b = lower (byte '"') → b = byte '"' :=
  eq_of_lower (by decide)

/-- A string begins with a quote, or has one after one symbol. -/
theorem STRLIT_quote (hu : u ∈ STRLIT.language) (hbegins : u <+: s) (hw : w <+: s) (hquote : byte '"' ∉ w) :
    w.length ≤ 1 := by
  obtain ⟨c, hc, x, hx, rfl⟩ := Language.mem_mul.mp hu
  obtain ⟨_, ⟨q, hq, rfl⟩, y, _, rfl⟩ := Language.mem_mul.mp hx
  obtain rfl := lower_quote (of_decide_eq_true hq)
  have hlength : c.length ≤ 1 := by
    rcases hc with ⟨b, _, rfl⟩ | hc
    · exact Nat.le_refl 1
    · obtain rfl : c = [] := hc
      exact Nat.zero_le 1
  by_contra hlong
  have hprefix : c ++ [byte '"'] <+: s :=
    (List.prefix_append (c ++ [byte '"']) y).trans (by rwa [List.append_assoc])
  have hmem := (List.prefix_of_prefix_length_le hprefix hw
      (by rw [List.length_append, List.length_singleton]; omega)).subset
    (List.mem_append_right c (List.mem_singleton_self _))
  exact hquote hmem

theorem plain_cons (hv : v ∈ plain.language) : ∃ a t, v = a :: t ∧ LTR.first a = true := by
  obtain ⟨a, t, hcons, ha⟩ := exists_cons_of_mem rfl hv
  rw [plain, ident, first, Bool.or_eq_true, Bool.and_eq_true] at ha
  exact ⟨a, t, hcons, ha.resolve_right fun h => Bool.false_ne_true h.1⟩

theorem keyword_longest {k : String × Token} (hk : k ∈ keywords) (hb : b = byte ':' ∨ b = byte ' ')
    (hs : v ++ [b] <+: s)
    (hn : (keyword k).longest .INITIAL bol s = some n) : n ≤ v.length := by
  obtain ⟨t, rfl⟩ := hs
  obtain ⟨hle, hmem⟩ := longest_mem (Rule.longest_eq_some hn).2.2
  have huses : (text k.1).uses b = false := by
    rcases hb with rfl | rfl
    · exact (keyword_uses k hk).1
    · exact (keyword_uses k hk).2
  have hshort : (v ++ [b] ++ t).take n <+: v := by
    apply prefix_of_not_uses (t := t) hmem _ huses
    rw [List.append_assoc]
    exact List.take_prefix _ _
  have hlength := hshort.length_le
  rwa [List.length_take, Nat.min_eq_left hle] at hlength

/-- There is no string at a plain identifier. -/
theorem STRLIT_longest (hv : v ∈ plain.language) (hb : b = byte ':' ∨ b = byte ' ') (hs : v ++ [b] <+: s) :
    (rule STRLIT .strlit).longest .INITIAL bol s ≠ some n := by
  intro hn
  have hquote : byte '"' ∉ v ++ [b] := by
    intro hmem
    rcases List.mem_append.mp hmem with hmem | hmem
    · exact absurd (uses_of_mem hv hmem) (by decide)
    · rw [List.mem_singleton] at hmem
      rcases hb with rfl | rfl <;> exact absurd hmem (by decide)
  have hlength := STRLIT_quote (longest_mem (Rule.longest_eq_some hn).2.2).2 (List.take_prefix n s) hs hquote
  obtain ⟨_, _, rfl, _⟩ := plain_cons hv
  rw [List.length_append, List.length_cons, List.length_singleton] at hlength
  omega

/-- What may match at a plain identifier that a colon or a blank ends. -/
theorem word_rule (hv : v ∈ plain.language) (hb : b = byte ':' ∨ b = byte ' ') (hs : v ++ [b] <+: s)
    (hr : r ∈ rules identifier) (hn : r.longest .INITIAL bol s = some n) :
    r = rule identifier .ident ∨ (∃ k ∈ keywords, r = keyword k) ∧ n ≤ v.length := by
  obtain ⟨a, v', hcons, hletter⟩ := plain_cons hv
  have hother : r ∉ rulesBefore ++ numbers ++ punctuation := by
    intro hother
    obtain ⟨t, rfl⟩ := hs
    rw [hcons] at hn
    have hfirst := Rule.first_of_longest hn
    rw [letter_rules hletter r hother (Rule.longest_eq_some hn).1] at hfirst
    cases hfirst
  refine (mem_rules hr).imp_right fun hr => ?_
  simp only [List.mem_append, not_or] at hr hother
  rcases hr with (((hr | hr) | hr) | hr) | hr
  · exact absurd hr hother.1.1
  · obtain ⟨k, hk, rfl⟩ := List.mem_map.mp hr
    exact ⟨⟨k, hk, rfl⟩, keyword_longest hk hb hs hn⟩
  · exact absurd hr hother.1.2
  · obtain rfl := List.mem_singleton.mp hr
    exact absurd hn (STRLIT_longest hv hb hs)
  · exact absurd hr hother.2

theorem colon_rules : ∀ r ∈ rulesBefore ++ keywords.map keyword ++ numbers ++ [rule STRLIT .strlit] ++ punctuation.tail,
    r.start = .INITIAL → r.pattern.first (byte ':') = false := by
  decide

/-- A rule for one symbol. -/
theorem longest_one {p : Regex Byte} (hone : ∀ u ∈ p.language, u.length = 1) (hb : [b] ∈ p.language) (action : Action)
    (bol : Bool) (s : List Byte) : (rule p action).longest .INITIAL bol (b :: s) = some 1 :=
  Rule.longest_eq rfl rfl (Regex.longest_eq hb (List.prefix_append [b] s) fun u hu _ => Nat.le_of_eq (hone u hu))
    Nat.zero_lt_one

theorem colon_longest (bol : Bool) (s : List Byte) :
    (rule (text ":") (.send [.COLON])).longest .INITIAL bol (byte ':' :: s) = some 1 := by
  refine longest_one (fun u hu => ?_) (mem_text.mpr rfl) _ bol s
  have hlength := congrArg List.length (mem_text.mp hu)
  rwa [List.length_map] at hlength

theorem mem_rules_colon (hr : r ∈ rules identifier) :
    r = rule identifier .ident ∨ r = rule (text ":") (.send [.COLON]) ∨
      r ∈ rulesBefore ++ keywords.map keyword ++ numbers ++ [rule STRLIT .strlit] ++ punctuation.tail := by
  refine (mem_rules hr).imp_right fun hr => ?_
  rw [show punctuation = [rule (text ":") (.send [.COLON])] ++ punctuation.tail from rfl] at hr
  simp only [List.mem_append, List.mem_singleton] at hr ⊢
  tauto

theorem colon_rule (hr : r ∈ rules identifier) (hn : r.longest .INITIAL bol (byte ':' :: s) = some n) :
    r = rule identifier .ident ∨ r = rule (text ":") (.send [.COLON]) ∧ n = 1 := by
  refine (mem_rules_colon hr).imp_right fun hr => ?_
  rcases hr with rfl | hr
  · rw [colon_longest] at hn
    exact ⟨rfl, (Option.some.inj hn).symm⟩
  · have hfirst := Rule.first_of_longest hn
    rw [colon_rules r hr (Rule.longest_eq_some hn).1] at hfirst
    cases hfirst

theorem blank_rules : ∀ r ∈ rulesBefore ++ keywords.map keyword ++ numbers ++ [rule STRLIT .strlit] ++
    punctuation.dropLast,
    r.start = .INITIAL → r.pattern.first (byte ' ') = false := by
  decide

end Rules

section Scan

variable {identifier : Regex Byte} {v l s t : List Byte} {b : Byte} {n : Nat}

theorem ident_longest (hn : identifier.longest s = some n) (hpos : 0 < n) (bol : Bool) :
    (rule identifier .ident).longest .INITIAL bol s = some n :=
  Rule.longest_eq rfl rfl hn hpos

/-- The scanner takes a plain identifier that a colon or a blank ends. -/
theorem scan_word (hv : v ∈ plain.language) (hb : b = byte ':' ∨ b = byte ' ')
    (hn : identifier.longest (v ++ b :: t) = some v.length) (bol : Bool) :
    ∃ action bol', (action = .ident ∨ ∃ k ∈ keywords, action = .send [k.2]) ∧
      (scanner identifier).scan .INITIAL bol (v ++ b :: t) =
        { action := some action, text := v, rest := b :: t } :: (scanner identifier).scan .INITIAL bol' (b :: t) := by
  obtain ⟨a, v', hcons, _⟩ := exists_cons_of_mem rfl hv
  have hpos : 0 < v.length := by rw [hcons]; exact Nat.succ_pos _
  have hident := ident_longest hn hpos bol
  have hs : v ++ [b] <+: v ++ b :: t := ⟨t, by rw [List.append_assoc, List.singleton_append]⟩
  rw [show v ++ b :: t = a :: (v' ++ b :: t) by rw [hcons, List.cons_append]] at hident hs ⊢
  obtain ⟨action, haction⟩ := lexeme_action (ident_mem_rules identifier) hident
  obtain ⟨r, hr, m, hm, hr', hlexeme, hmax⟩ := lexeme_spec haction
  have hge := hmax _ (ident_mem_rules identifier) _ hident
  have hword : m = v.length ∧ (action = .ident ∨ ∃ k ∈ keywords, action = .send [k.2]) := by
    rcases word_rule hv hb hs hr hm with rfl | ⟨⟨k, hk, rfl⟩, hle⟩
    · rw [hident] at hm
      exact ⟨(Option.some.inj hm).symm, Or.inl hr'.symm⟩
    · exact ⟨Nat.le_antisymm hle hge, Or.inr ⟨k, hk, hr'.symm⟩⟩
  obtain ⟨rfl, hword⟩ := hword
  have hnext : Action.next action .INITIAL = .INITIAL := by
    rcases hword with rfl | ⟨k, _, rfl⟩ <;> rfl
  have htake : (a :: (v' ++ b :: t)).take v.length = v := by
    rw [← List.cons_append, ← hcons, List.take_left]
  have hdrop : (a :: (v' ++ b :: t)).drop v.length = b :: t := by
    rw [← List.cons_append, ← hcons, List.drop_left]
  rw [htake, hdrop] at hlexeme
  obtain ⟨bol', hscan⟩ := scan_of_lexeme hlexeme hnext
  exact ⟨action, bol', hword, hscan⟩

theorem scan_colon (s : List Byte) (bol : Bool) :
    ∃ bol', (scanner plain).scan .INITIAL bol (byte ':' :: s) =
      { action := some (.send [.COLON]), text := [byte ':'], rest := s } :: (scanner plain).scan .INITIAL bol' s := by
  refine scan_of_lexeme (lexeme_eq (punctuation_mem_rules List.mem_cons_self) (colon_longest bol s)
    fun r hr m hm => ?_) rfl
  rcases colon_rule hr hm with rfl | ⟨rfl, rfl⟩
  · have hnone : plain.longest (byte ':' :: s) = none := longest_eq_none rfl (by decide)
    have hsome : plain.longest (byte ':' :: s) = some m := (Rule.longest_eq_some hm).2.2
    rw [hnone] at hsome
    cases hsome
  · exact ⟨Nat.le_refl 1, fun _ => rfl⟩

/-- A blank is skipped, and what comes after it is scanned. -/
theorem scan_blank (hfirst : identifier.first (byte ' ') = false) (s : List Byte) (bol : Bool) :
    ∃ bol', (scanner identifier).scan .INITIAL bol (byte ' ' :: s) =
      { action := some .skip, text := [byte ' '], rest := s } :: (scanner identifier).scan .INITIAL bol' s := by
  have hself : (rule blank .skip).longest .INITIAL bol (byte ' ' :: s) = some 1 := by
    have hblank : [byte ' '] ∈ blank.language := ⟨byte ' ', by decide, rfl⟩
    refine longest_one ?_ hblank _ bol s
    rintro _ ⟨b, _, rfl⟩
    rfl
  have hmem : rule blank .skip ∈ punctuation :=
    List.getLast_mem (l := punctuation) (List.cons_ne_nil _ _)
  refine scan_of_lexeme (lexeme_eq (punctuation_mem_rules hmem) hself fun r hr m hm => ?_) rfl
  have hstart := (Rule.longest_eq_some hm).1
  have hsymbol := Rule.first_of_longest hm
  rcases mem_rules hr with rfl | hr
  · rw [show (rule identifier .ident).pattern = identifier from rfl, hfirst] at hsymbol
    cases hsymbol
  · rw [show punctuation = punctuation.dropLast ++ [rule blank .skip] from rfl,
      ← List.append_assoc, List.mem_append] at hr
    rcases hr with hr | hr
    · rw [blank_rules r hr hstart] at hsymbol
      cases hsymbol
    · obtain rfl := List.mem_singleton.mp hr
      rw [hself] at hm
      exact ⟨Nat.le_of_eq (Option.some.inj hm).symm, fun _ => rfl⟩

/-- The scanner takes the colon that a letter follows into the identifier. -/
theorem scan_swallowed (h : Swallows v l s) (bol : Bool) :
    ∃ n bol', Swallows v l (s.take n) ∧ (scanner IDENT).scan .INITIAL bol s =
      { action := some .ident, text := s.take n, rest := s.drop n } ::
        (scanner IDENT).scan .INITIAL bol' (s.drop n) := by
  obtain ⟨n, hn, htake⟩ := h.longest_IDENT
  have hlength : v.length + 2 ≤ n := by
    have hlength := htake.2.2.length_le
    obtain ⟨_, _, rfl, _⟩ := LTR_cons h.2.1
    rw [List.length_append, List.length_cons, List.length_cons, List.length_take] at hlength
    omega
  have hs : v ++ [byte ':'] <+: s := by
    refine List.IsPrefix.trans ?_ h.2.2
    exact (List.prefix_append_right_inj v).mpr (List.prefix_append [byte ':'] l)
  have hident := ident_longest hn (by omega) bol
  have hother : ∀ r ∈ rules IDENT, ∀ m, r.longest .INITIAL bol s = some m →
      m ≤ n ∧ (m = n → r.action = Action.ident) := by
    intro r hr m hm
    have hcases : r = rule IDENT .ident ∨ m < n := by
      rcases h.1 with rfl | hv
      · obtain ⟨t, rfl⟩ := hs
        exact (colon_rule hr hm).imp_right fun h => by omega
      · exact (word_rule hv (Or.inl rfl) hs hr hm).imp_right fun h => by omega
    rcases hcases with rfl | hlt
    · rw [hident] at hm
      exact ⟨Nat.le_of_eq (Option.some.inj hm).symm, fun _ => rfl⟩
    · exact ⟨Nat.le_of_lt hlt, fun heq => absurd heq (Nat.ne_of_lt hlt)⟩
  cases s with
  | nil =>
    have hlong := hs.length_le
    rw [List.length_append] at hlong
    cases hlong
  | cons a s =>
    obtain ⟨bol', hscan⟩ := scan_of_lexeme (lexeme_eq (ident_mem_rules IDENT) hident hother) rfl
    exact ⟨n, bol', htake, hscan⟩

/-- The rule of identifiers goes further than it is meant to only where it swallows a colon. -/
theorem longest_IDENT_eq_or_swallows (s : List Byte) :
    IDENT.longest s = plain.longest s ∨ ∃ v l, Swallows v l s := by
  cases hn : IDENT.longest s with
  | none =>
    left
    cases hm : plain.longest s with
    | none => rfl
    | some m =>
      obtain ⟨n, hsome, _⟩ := longest_le (IDENT_of_plain (longest_mem hm).2) (List.take_prefix m s)
      rw [hn] at hsome
      cases hsome
  | some n =>
    obtain ⟨hle, hmem⟩ := longest_mem hn
    have hlength : (s.take n).length = n := by rw [List.length_take, Nat.min_eq_left hle]
    refine (mem_IDENT hmem).imp (fun hplain => ?_) fun ⟨v, l, hv, hl, hbegins⟩ =>
      ⟨v, l, hv, hl, hbegins.trans (List.take_prefix n s)⟩
    have hlongest := longest_eq hplain (List.take_prefix n s) fun u hu hbegins => by
      obtain ⟨m, hm, hum⟩ := longest_le (IDENT_of_plain hu) hbegins
      rw [hn] at hm
      rwa [hlength, Option.some.inj hm]
    rw [hlongest, hlength]

end Scan

section Lexemes

variable {start : Start} {bol : Bool} {a : Byte} {v l s : List Byte}

theorem ident_rules : ∀ r ∈ rulesBefore ++ keywords.map keyword ++ numbers ++ [rule STRLIT .strlit] ++ punctuation,
    r.action ≠ .ident := by
  decide

theorem COLON_rules : ∀ r ∈ rulesBefore ++ keywords.map keyword ++ numbers ++ [rule STRLIT .strlit] ++ punctuation.tail,
    r.action ≠ .send [.COLON] := by
  decide

theorem eq_colon_of_first {b : Byte} (h : (text ":").first b = true) : b = byte ':' := by
  rcases Bool.or_eq_true_iff.mp h with h | h
  · exact lower_colon (of_decide_eq_true h)
  · cases h

/-- Where the patterns match the same, the scanners do. -/
theorem lexeme_plain (heq : start = .INITIAL → IDENT.longest (a :: s) = plain.longest (a :: s)) :
    (scanner IDENT).lexeme start bol a s = (scanner plain).lexeme start bol a s := by
  have hident : (rule IDENT .ident).longest start bol (a :: s) = (rule plain .ident).longest start bol (a :: s) := by
    cases start with
    | INITIAL =>
      change ite _ ((IDENT.longest (a :: s)).filter _) none = ite _ ((plain.longest (a :: s)).filter _) none
      rw [heq rfl]
      rfl
    | C_COMMENT => rfl
  have hentries : (scanner IDENT).entries start bol (a :: s) = (scanner plain).entries start bol (a :: s) := by
    simp only [entries, scanner, rules, List.map_append, List.map_cons, List.map_nil, hident]
    rfl
  rw [lexeme, lexeme, hentries]

theorem lexeme_paired (h : ((scanner plain).lexeme start bol a s).action = some .ident) :
    paired ((scanner plain).lexeme start bol a s).text = true := by
  obtain ⟨r, hr, n, hn, haction, hlexeme, _⟩ := lexeme_spec h
  rcases mem_rules hr with rfl | hr
  · rw [hlexeme]
    exact paired_of_plain (longest_mem (Rule.longest_eq_some hn).2.2).2
  · exact absurd haction (ident_rules r hr)

/-- A letter after a colon would be matched by the one pattern only. -/
theorem lexeme_colon (heq : start = .INITIAL → IDENT.longest (a :: s) = plain.longest (a :: s))
    (h : ((scanner plain).lexeme start bol a s).action = some (.send [.COLON])) :
    ¬BeginsLetter ((scanner plain).lexeme start bol a s).rest := by
  obtain ⟨r, hr, n, hn, haction, hlexeme, _⟩ := lexeme_spec h
  rcases mem_rules_colon hr with rfl | rfl | hr
  · cases haction
  · obtain rfl : Start.INITIAL = start := (Rule.longest_eq_some hn).1
    obtain rfl := eq_colon_of_first (Rule.first_of_longest hn)
    rw [colon_longest] at hn
    obtain rfl := Option.some.inj hn
    rw [hlexeme]
    rintro ⟨l, hl, hbegins⟩
    have hswallows : Swallows [] l (byte ':' :: s) := ⟨Or.inl rfl, hl, List.cons_prefix_cons.mpr ⟨rfl, hbegins⟩⟩
    obtain ⟨n, hlongest, _⟩ := hswallows.longest_IDENT
    rw [heq rfl, longest_eq_none rfl (by decide)] at hlongest
    cases hlongest
  · exact absurd haction (COLON_rules r hr)

theorem Swallows.exists_colon (h : Swallows v l s) (bol : Bool) :
    ∃ x ∈ (scanner plain).scan .INITIAL bol s, x.action = some (.send [.COLON]) ∧ BeginsLetter x.rest := by
  have hlongest := h.longest_plain
  obtain ⟨hv, hl, t, rfl⟩ := h
  rw [List.append_assoc, List.cons_append] at hlongest ⊢
  have hletter : BeginsLetter (l ++ t) := ⟨l, hl, List.prefix_append l t⟩
  rcases hv with rfl | hv
  · obtain ⟨_, hscan⟩ := scan_colon (l ++ t) bol
    rw [List.nil_append, hscan]
    exact ⟨_, List.mem_cons_self, rfl, hletter⟩
  · obtain ⟨_, bol', _, hword⟩ := scan_word hv (Or.inl rfl) (hlongest hv) bol
    obtain ⟨_, hscan⟩ := scan_colon (l ++ t) bol'
    rw [hword, hscan]
    exact ⟨_, List.mem_cons_of_mem _ List.mem_cons_self, rfl, hletter⟩

/-- By induction on what is scanned: the two scanners agree until one swallows a colon. -/
theorem scan_paired_iff (start : Start) (bol : Bool) (s : List Byte) :
    (∀ x ∈ (scanner IDENT).scan start bol s, x.action = some .ident → paired x.text = true) ↔
      ∀ x ∈ (scanner plain).scan start bol s, x.action = some (.send [.COLON]) → ¬BeginsLetter x.rest := by
  induction hlength : s.length using Nat.strong_induction_on generalizing s start bol with
  | h k ih =>
    cases s with
    | nil =>
      rw [scan, scan]
      exact iff_of_true (List.forall_mem_nil _) (List.forall_mem_nil _)
    | cons a s =>
      by_cases heq : start = .INITIAL → IDENT.longest (a :: s) = plain.longest (a :: s)
      · rw [scan_cons, scan_cons, lexeme_plain heq, List.forall_mem_cons, List.forall_mem_cons]
        apply and_congr (iff_of_true lexeme_paired (lexeme_colon heq))
        have hrest := length_rest_le (scanner plain) start bol a s
        rw [List.length_cons] at hlength
        exact ih _ (by omega) _ _ _ rfl
      · obtain ⟨rfl, hne⟩ := Classical.not_imp.mp heq
        obtain ⟨v, l, hswallows⟩ := (longest_IDENT_eq_or_swallows (a :: s)).resolve_left hne
        refine iff_of_false (fun hall => ?_) fun hall => ?_
        · obtain ⟨n, bol', htake, hscan⟩ := scan_swallowed hswallows bol
          rw [hscan] at hall
          have hpaired := hall _ List.mem_cons_self rfl
          rw [htake.not_paired] at hpaired
          cases hpaired
        · obtain ⟨x, hx, haction, hletter⟩ := hswallows.exists_colon bol
          exact hall x hx haction hletter

end Lexemes

section Cases

variable {id space decl : List Byte}

theorem word_token {action : Action} (h : action = .ident ∨ ∃ k ∈ keywords, action = .send [k.2]) (yytext : List Byte) :
    ∃ t, action.tokens yytext = [t] := by
  rcases h with rfl | ⟨k, _, rfl⟩
  · exact ⟨_, rfl⟩
  · exact ⟨_, rfl⟩

theorem keyword_ne_IDENT : ∀ k ∈ keywords, ∀ yytext, k.2 ≠ .IDENT yytext := by
  simp [keywords]

theorem IDENT_blank : IDENT.first (byte ' ') = false := by
  decide

theorem lexemes_case (id rest : List Byte) :
    ∃ action bol, (action = .ident ∨ ∃ k ∈ keywords, action = .send [k.2]) ∧
      lexemes IDENT (bytes "case " ++ (id ++ rest)) =
        { action := some action, text := bytes "case", rest := byte ' ' :: (id ++ rest) } ::
          { action := some .skip, text := [byte ' '], rest := id ++ rest } ::
            (scanner IDENT).scan .INITIAL bol (id ++ rest) := by
  have hcase : bytes "case" ∈ plain.language := by
    have hlongest : plain.longest (bytes "case") = some 4 := by decide
    exact (longest_mem hlongest).2
  have hlongest : IDENT.longest (bytes "case" ++ byte ' ' :: (id ++ rest)) = some (bytes "case").length :=
    longest_eq (IDENT_of_plain hcase) (List.prefix_append _ _) fun u hu hbegins =>
      (prefix_of_not_uses hu hbegins (by decide)).length_le
  obtain ⟨action, bol, hword, hscan⟩ := scan_word hcase (Or.inr rfl) hlongest true
  obtain ⟨bol', hblank⟩ := scan_blank IDENT_blank (id ++ rest) bol
  refine ⟨action, bol', hword, ?_⟩
  rw [← hblank, ← hscan]
  rfl

/-- The tokens of a case, from its identifier on. -/
theorem tokens_case (id rest : List Byte) :
    ∃ t bol, tokens (bytes "case " ++ (id ++ rest)) = t ::
      emitted ((scanner IDENT).scan .INITIAL bol (id ++ rest)) := by
  obtain ⟨action, bol, hword, hlexemes⟩ := lexemes_case id rest
  obtain ⟨t, ht⟩ := word_token hword (bytes "case")
  refine ⟨t, bol, ?_⟩
  rw [tokens, hlexemes]
  change action.tokens (bytes "case") ++ ([] ++ emitted _) = _
  rw [ht]
  rfl

/-- With white space after the colon the identifier of a case is another token. -/
theorem tokens_case_ne (hid : id ∈ plain.language) (hspace : space ≠ []) (hblank : ∀ b ∈ space, b ∈ bytes " \t\n")
    (hdecl : BeginsLetter decl) : tokens (caseText id [] decl) ≠ tokens (caseText id space decl) := by
  intro heq
  obtain ⟨b, space, rfl⟩ := List.exists_cons_of_ne_nil hspace
  have hblanks : ∀ b ∈ bytes " \t\n", IDENT.uses b = false := forall_blank (by decide) (by decide) (by decide)
  have huses := hblanks b (hblank b List.mem_cons_self)
  obtain ⟨l, hl, hbegins⟩ := hdecl
  have hswallows : Swallows id l (id ++ byte ':' :: decl) := by
    refine ⟨Or.inr hid, hl, (List.prefix_append_right_inj id).mpr ?_⟩
    exact List.cons_prefix_cons.mpr ⟨rfl, hbegins⟩
  rw [caseText, caseText, List.append_assoc, List.append_assoc, List.nil_append] at heq
  obtain ⟨_, bol, htokens⟩ := tokens_case id (byte ':' :: decl)
  obtain ⟨_, bol', htokens'⟩ := tokens_case id (byte ':' :: (b :: space ++ decl))
  obtain ⟨n, _, htake, hscan⟩ := scan_swallowed hswallows bol
  obtain ⟨action, _, hword, hscan'⟩ :=
    scan_word (t := b :: space ++ decl) hid (Or.inl rfl) (longest_IDENT_of_blank hid huses) bol'
  rw [htokens, htokens', hscan, hscan'] at heq
  obtain ⟨t, ht⟩ := word_token hword id
  have hhead : Token.IDENT ((id ++ byte ':' :: decl).take n) = t := by
    change _ :: (.IDENT _ :: emitted _) = _ :: (action.tokens id ++ emitted _) at heq
    rw [ht] at heq
    exact (List.cons.inj (List.cons.inj heq).2).1
  rcases hword with rfl | ⟨k, hk, rfl⟩
  · obtain rfl : Token.IDENT id = t := (List.cons.inj ht).1
    have hpaired := htake.not_paired
    rw [Token.IDENT.inj hhead, paired_of_plain hid] at hpaired
    cases hpaired
  · obtain rfl : k.2 = t := (List.cons.inj ht).1
    exact keyword_ne_IDENT k hk _ hhead.symm

end Cases

/-- The identifiers that are scanned have their colons in pairs just when no letter follows a colon
of the file, where `(:?` is a group. In a case there is always one. -/
theorem identifier_colons_paired_iff (source : List Byte) :
    ((∀ x ∈ lexemes IDENT source, x.action = some .ident → paired x.text = true) ↔
      ∀ x ∈ lexemes plain source, x.action = some (.send [.COLON]) → ¬BeginsLetter x.rest) ∧
    ∀ id ∈ plain.language, ∀ space decl, space ≠ [] → (∀ b ∈ space, b ∈ bytes " \t\n") → BeginsLetter decl →
      tokens (caseText id [] decl) ≠ tokens (caseText id space decl) :=
  ⟨scan_paired_iff .INITIAL true source, fun _ hid _ _ => tokens_case_ne hid⟩

theorem a_plain : bytes "a" ∈ plain.language := by
  have hlongest : plain.longest (bytes "a") = some 1 := by decide
  exact (longest_mem hlongest).2

theorem string_beginsLetter (s : List Byte) : BeginsLetter (byte 's' :: s) :=
  ⟨[byte 's'], Or.inl ⟨byte 's', by decide, rfl⟩, List.prefix_append _ s⟩

theorem identifier_colons_paired_iff_string :
    tokens (caseText (bytes "a") [] (bytes "string name;")) ≠
      tokens (caseText (bytes "a") (bytes "\n") (bytes "string name;")) :=
  (identifier_colons_paired_iff []).2 (bytes "a") a_plain (bytes "\n") (bytes "string name;") (by decide)
    (List.forall_mem_singleton.mpr (by decide)) (string_beginsLetter _)

theorem identifier_swallows_colon :
    (∃ x ∈ lexemes IDENT (bytes "case a:string name;"), x.action = some .ident ∧ paired x.text = false) ∧
      tokens (bytes "case a:string name;") ≠ tokens (bytes "case a: string name;") := by
  have hswallows : Swallows (bytes "a") [byte 's'] (bytes "a" ++ byte ':' :: bytes "string name;") :=
    ⟨Or.inr a_plain, Or.inl ⟨byte 's', by decide, rfl⟩, by decide⟩
  have htext : bytes "case a:string name;" = bytes "case " ++
      (bytes "a" ++ byte ':' :: bytes "string name;") := by decide
  have hspace : bytes "case a: string name;" = caseText (bytes "a") (bytes " ") (bytes "string name;") := by decide
  constructor
  · obtain ⟨_, bol, _, hlexemes⟩ := lexemes_case (bytes "a") (byte ':' :: bytes "string name;")
    obtain ⟨n, _, htake, hscan⟩ := scan_swallowed hswallows bol
    rw [htext, hlexemes, hscan]
    exact ⟨_, List.mem_cons_of_mem _ (List.mem_cons_of_mem _ List.mem_cons_self), rfl, htake.not_paired⟩
  · rw [htext, hspace]
    exact tokens_case_ne a_plain (by decide) (List.forall_mem_singleton.mpr (by decide)) (string_beginsLetter _)

end ServiceManager.Wsrpcgen
