import ServiceManager.Wsrpcgen.Parse
import ServiceManager.Wsrpcgen.Spelling

namespace ServiceManager.Wsrpcgen.Syntax

open Grammar

section Numbers

variable {c : Char} {cs : List Char} {w : List Byte} {i : Int} {n : Nat}

/-- A number in decimal, with its sign. -/
def numeral (i : Int) : List Byte :=
  if i < 0 then byte '-' :: (Nat.toDigits 10 i.natAbs).map byte else (Nat.toDigits 10 i.natAbs).map byte

theorem isDigit_toNat (hc : c.isDigit = true) : 48 ≤ c.toNat ∧ c.toNat ≤ 57 := by
  obtain ⟨hge, hle⟩ := Bool.and_eq_true_iff.mp hc
  exact ⟨of_decide_eq_true hge, of_decide_eq_true hle⟩

theorem byte_digit_val (hc : c.isDigit = true) : (byte c).val = c.toNat := by
  have hrange := isDigit_toNat hc
  exact Nat.mod_eq_of_lt (by omega)

theorem DIGIT_byte (hc : c.isDigit = true) : DIGIT.first (byte c) = true := by
  have hval := byte_digit_val hc
  have hrange := isDigit_toNat hc
  have hge : byte '0' ≤ byte c := Fin.le_def.mpr (by rw [hval]; exact hrange.1)
  have hle : byte c ≤ byte '9' := Fin.le_def.mpr (by rw [hval]; exact hrange.2)
  exact Bool.and_eq_true_iff.mpr ⟨decide_eq_true hge, decide_eq_true hle⟩

theorem digitValue_byte (hc : c.isDigit = true) : digitValue (byte c) = c.toNat - '0'.toNat := by
  obtain ⟨hge, hle⟩ := Bool.and_eq_true_iff.mp (DIGIT_byte hc)
  rw [digitValue, if_pos ⟨of_decide_eq_true hge, of_decide_eq_true hle⟩, byte_digit_val hc]
  rfl

theorem digitsValue_map (hcs : ∀ c ∈ cs, c.isDigit = true) :
    digitsValue 10 (cs.map byte) = Nat.ofDigitChars 10 cs 0 := by
  rw [digitsValue, Nat.ofDigitChars_eq_foldl, List.foldl_map]
  apply List.foldl_ext
  intro n c hc
  rw [digitValue_byte (hcs c hc), Nat.mul_comm]

theorem isDigit_toDigits (n : Nat) : ∀ c ∈ Nat.toDigits 10 n, c.isDigit = true := fun _ hc =>
  Nat.isDigit_of_mem_toDigits (by decide) (by decide) hc

/-- The texts of digits are in decimal. -/
theorem magnitude_digits (hcs : ∀ c ∈ cs, c.isDigit = true) :
    magnitude (cs.map byte) = digitsValue 10 (cs.map byte) := by
  have hx : ∀ c : Char, c.isDigit = true → lower (byte c) ≠ byte 'x' := by
    intro c hc heq
    have hval := lower_val (byte c)
    have hrange := isDigit_toNat hc
    rw [heq, byte_digit_val hc, if_neg (by omega)] at hval
    have hxval : (byte 'x').val = 120 := rfl
    omega
  match cs, hcs with
  | [], _ => rfl
  | [_], _ => rfl
  | c :: d :: cs, hcs =>
    rw [List.map_cons, List.map_cons, magnitude]
    exact if_neg (hx d (hcs d (List.mem_cons_of_mem _ List.mem_cons_self)))

theorem magnitude_toDigits (n : Nat) : magnitude ((Nat.toDigits 10 n).map byte) = n := by
  rw [magnitude_digits (isDigit_toDigits n), digitsValue_map (isDigit_toDigits n), Nat.ofDigitChars_toDigits (by decide)
    (by decide)]

theorem intValue_numeral (hlow : -9223372036854775808 ≤ i) (hhigh : i ≤ 9223372036854775807) :
    intValue (numeral i) = i := by
  unfold intValue numeral
  by_cases hneg : i < 0
  · rw [if_pos hneg]
    simp only [List.head?_cons, if_true, List.tail_cons, magnitude_toDigits]
    omega
  · have hhead : ((Nat.toDigits 10 i.natAbs).map byte).head? ≠ some (byte '-') := by
      intro hhead
      obtain ⟨c, hc, heq⟩ := List.mem_map.mp (List.mem_of_head? hhead)
      have hdigit := DIGIT_byte (isDigit_toDigits _ c hc)
      rw [heq] at hdigit
      exact absurd hdigit (by decide)
    rw [if_neg hneg]
    simp only [if_neg hhead, magnitude_toDigits]
    omega

theorem digits_mem (hcs : ∀ c ∈ cs, c.isDigit = true) (hne : cs ≠ []) : cs.map byte ∈ (plus DIGIT).language := by
  obtain ⟨c, cs, rfl⟩ := List.exists_cons_of_ne_nil hne
  obtain ⟨hc, hcs⟩ := List.forall_mem_cons.mp hcs
  have hdigit : ∀ c : Char, c.isDigit = true → [byte c] ∈ DIGIT.language := fun c hc => ⟨byte c, DIGIT_byte hc, rfl⟩
  refine Language.mem_mul.mpr ⟨[byte c], hdigit c hc, cs.map byte, ?_, rfl⟩
  refine Language.mem_kstar.mpr ⟨cs.map fun c => [byte c], ?_, List.forall_mem_map.mpr fun c h => hdigit c (hcs c h)⟩
  induction cs with
  | nil => rfl
  | cons d cs ih => simp_all

theorem numeral_lexical (i : Int) : (Token.INTEGER (numeral i)).Lexical := by
  have hdigits := digits_mem (isDigit_toDigits i.natAbs) Nat.toDigits_ne_nil
  unfold numeral
  split
  · refine ⟨rule (.seq (one '-') (plus DIGIT)) .integer, by simp [numbers], ?_⟩
    exact Language.mem_mul.mpr ⟨[byte '-'], ⟨byte '-', by decide, rfl⟩, _, hdigits, rfl⟩
  · exact ⟨rule (plus DIGIT) .integer, by simp [numbers], hdigits⟩

end Numbers

section WellFormed

/- What the grammar can make of the tokens that can be scanned. -/

def TypeRef.WellFormed (t : TypeRef) : Prop :=
  IsName t.type

structure Decl.WellFormed (d : Decl) : Prop where
  type : d.type.WellFormed
  id : IsName d.id

structure Method.WellFormed (m : Method) : Prop where
  retType : m.retType.WellFormed
  name : IsName m.name
  args : ∀ d ∈ m.args, d.WellFormed

structure Version.WellFormed (v : Version) : Prop where
  num : v.num < 18446744073709551616
  name : IsName v.name
  methods : Items Method.WellFormed v.methods

structure Entry.WellFormed (e : Entry) : Prop where
  id : IsName e.id
  str : ∀ s ∈ e.str, (Token.STRLIT s).Lexical
  iVal : ∀ i ∈ e.iVal, -9223372036854775808 ≤ i ∧ i ≤ 9223372036854775807

def CasWellFormed (cas : List Byte × List Decl) : Prop :=
  IsName cas.1 ∧ Items Decl.WellFormed cas.2

/-- Only a struct has types of its own, but for the enumeration of a union that names none. -/
inductive TypeDef.WellFormed : TypeDef → Prop
  | struct {name types decls} : IsName name → (∀ d ∈ types, d.WellFormed) → Items Decl.WellFormed decls →
      TypeDef.WellFormed (.mk name types (.struct decls))
  | unionOf {name tID cases} : IsName name → IsName tID → Items CasWellFormed cases →
      TypeDef.WellFormed (.mk name [] (.union { type := tID } cases))
  | union {name cases} : IsName name → Items CasWellFormed cases →
      TypeDef.WellFormed (.mk name [typeEnum cases] (.union { type := bytes "Type" } cases))
  | enum {name entries} : IsName name → Items Entry.WellFormed entries →
      TypeDef.WellFormed (.mk name [] (.enum entries))

structure Program.WellFormed (p : Program) : Prop where
  num : p.num = 0
  name : IsName p.name
  types : ∀ d ∈ p.types, d.WellFormed
  versions : Items Version.WellFormed p.versions

structure TrlUnit.WellFormed (u : TrlUnit) : Prop where
  imports : ∀ s ∈ u.imports, (Token.IMPORT s).Lexical
  types : ∀ d ∈ u.types, d.WellFormed
  programs : ∀ p ∈ u.programs, p.WellFormed

end WellFormed

section Keeps

variable {n : Nat} {ts rest : List Token}

theorem lexical_head {t : Token} (h : ∀ t' ∈ t :: ts, t'.Lexical) : t.Lexical ∧ ∀ t' ∈ ts, t'.Lexical :=
  List.forall_mem_cons.mp h

theorem forall_mem_some {α : Type} {p : α → Prop} {a : α} (h : p a) : ∀ b ∈ some a, p b := by
  simpa using h

theorem intValue_range (w : List Byte) : -9223372036854775808 ≤ intValue w ∧ intValue w ≤ 9223372036854775807 := by
  unfold intValue
  simp only
  omega

theorem keeps_type (n : Nat) : Keeps n Token.Lexical DerivesType TypeRef.WellFormed := by
  intro ts t rest hn hts h
  induction h with
  | byref _ ih | svcByrref _ ih =>
    rw [List.length_cons] at hn
    obtain ⟨ht, hrest⟩ := ih (by omega) (lexical_head hts).2
    exact ⟨ht, hrest.trans (List.suffix_cons _ _)⟩
  | basic h =>
    cases h with
    | mk hlist =>
      refine ⟨(lexical_head hts).1, ?_⟩
      cases hlist with
      | none => exact List.suffix_cons _ _
      | list => exact ⟨[_, _, _], rfl⟩

theorem keeps_decl (n : Nat) : Keeps n Token.Lexical DerivesDecl Decl.WellFormed := by
  intro ts d rest hn hts h
  cases h with
  | mk htype =>
    obtain ⟨ht, _, hmid, hrest⟩ := (keeps_type n).rest hn hts htype
    exact ⟨⟨ht, (lexical_head hmid).1⟩, (List.suffix_cons _ _).trans hrest⟩

theorem keeps_declsSemis (n : Nat) : Keeps n Token.Lexical DerivesDeclsSemis (Items Decl.WellFormed) :=
  ((keeps_decl n).before .SEMI).list1

theorem keeps_cases (n : Nat) : Keeps n Token.Lexical DerivesCases (Items CasWellFormed) := by
  apply Keeps.list1
  intro ts cas rest hn hts h
  cases h with
  | mk hdecls =>
    simp only [List.length_cons] at hn
    simp only [List.forall_mem_cons] at hts
    obtain ⟨_, hid, _, hts⟩ := hts
    obtain ⟨hdecls, hrest⟩ := keeps_declsSemis n _ _ _ (by omega) hts hdecls
    exact ⟨⟨hid, hdecls⟩, hrest.trans ⟨[_, _, _], rfl⟩⟩

theorem keeps_enumEntries (n : Nat) : Keeps n Token.Lexical DerivesEnumEntries (Items Entry.WellFormed) := by
  apply Keeps.list1
  intro ts entry rest _ hts h
  cases h with
  | id =>
    exact ⟨⟨(lexical_head hts).1, by simp, by simp⟩, List.suffix_cons _ _⟩
  | str =>
    simp only [List.forall_mem_cons] at hts
    exact ⟨⟨hts.1, forall_mem_some hts.2.2.1, by simp⟩, ⟨[_, _, _, _], rfl⟩⟩
  | iVal =>
    exact ⟨⟨(lexical_head hts).1, by simp, forall_mem_some (intValue_range _)⟩, ⟨[_, _, _], rfl⟩⟩
  | strIVal =>
    simp only [List.forall_mem_cons] at hts
    exact ⟨⟨hts.1, forall_mem_some hts.2.2.1, forall_mem_some (intValue_range _)⟩, ⟨[_, _, _, _, _, _], rfl⟩⟩

/-- By the length of the text, as a definition has others in it. -/
theorem keeps_def (n : Nat) : Keeps n Token.Lexical DerivesDef TypeDef.WellFormed := by
  induction n with
  | zero =>
    intro ts d rest hn _ h
    obtain rfl := List.length_eq_zero_iff.mp (Nat.le_zero.mp hn)
    cases h
  | succ n ih =>
    intro ts d rest hn hts h
    cases h with
    | struct htypes hdecls =>
      simp only [List.length_cons] at hn
      simp only [List.forall_mem_cons] at hts
      obtain ⟨_, hid, _, hts⟩ := hts
      obtain ⟨htypes, hmid, hmem, hsuffix⟩ := ((ih.before .SEMI).list1.opt).rest (by omega) hts htypes
      obtain ⟨hdecls, hrest⟩ := keeps_declsSemis n _ _ _ hmid hmem hdecls
      exact ⟨.struct hid htypes hdecls, ((List.suffix_cons _ _).trans (hrest.trans hsuffix)).trans ⟨[_, _, _], rfl⟩⟩
    | unionOf hcases =>
      simp only [List.length_cons] at hn
      simp only [List.forall_mem_cons] at hts
      obtain ⟨_, hid, _, _, htID, _, hts⟩ := hts
      obtain ⟨hcases, hrest⟩ := keeps_cases n _ _ _ (by omega) hts hcases
      exact ⟨.unionOf hid htID hcases, ((List.suffix_cons _ _).trans hrest).trans ⟨[_, _, _, _, _, _], rfl⟩⟩
    | union hcases =>
      simp only [List.length_cons] at hn
      simp only [List.forall_mem_cons] at hts
      obtain ⟨_, hid, _, hts⟩ := hts
      obtain ⟨hcases, hrest⟩ := keeps_cases n _ _ _ (by omega) hts hcases
      exact ⟨.union hid hcases, ((List.suffix_cons _ _).trans hrest).trans ⟨[_, _, _], rfl⟩⟩
    | enum hentries hcomma =>
      simp only [List.length_cons] at hn
      simp only [List.forall_mem_cons] at hts
      obtain ⟨_, hid, _, hts⟩ := hts
      obtain ⟨hentries, hrest⟩ := keeps_enumEntries n _ _ _ (by omega) hts hentries
      refine ⟨.enum hid hentries, List.IsSuffix.trans ?_ (hrest.trans ⟨[_, _, _], rfl⟩)⟩
      cases hcomma with
      | comma => exact ⟨[_, _], rfl⟩
      | none => exact ⟨[_], rfl⟩

theorem keeps_optdefs (n : Nat) : Keeps n Token.Lexical DerivesOptdefs fun types => ∀ d ∈ types, d.WellFormed :=
  ((keeps_def n).before .SEMI).list1.opt

theorem keeps_methods (n : Nat) : Keeps n Token.Lexical DerivesMethods (Items Method.WellFormed) := by
  apply Keeps.list1
  apply Keeps.before
  intro ts m rest hn hts h
  cases h with
  | mk hret hargs hnum =>
    obtain ⟨hret, hn, hts, hsuffix⟩ := (keeps_type n).rest hn hts hret
    simp only [List.length_cons] at hn
    simp only [List.forall_mem_cons] at hts
    obtain ⟨hname, _, hts⟩ := hts
    obtain ⟨hargs, hrest⟩ := (keeps_decl n).list1.opt _ _ _ (by omega) hts hargs
    refine ⟨⟨hret, hname, hargs⟩, List.IsSuffix.trans ?_ ((hrest.trans ⟨[_, _], rfl⟩).trans hsuffix)⟩
    cases hnum with
    | none => exact ⟨[_], rfl⟩
    | num => exact ⟨[_, _, _], rfl⟩

theorem keeps_versions (n : Nat) : Keeps n Token.Lexical DerivesVersions (Items Version.WellFormed) := by
  apply Keeps.list1
  apply Keeps.before
  intro ts v rest hn hts h
  cases h with
  | @mk name ts methods num rest hmethods =>
    simp only [List.length_cons] at hn
    simp only [List.forall_mem_cons] at hts
    obtain ⟨_, hname, _, hts⟩ := hts
    obtain ⟨hmethods, hrest⟩ := keeps_methods n _ _ _ (by omega) hts hmethods
    have hnum : toUnsigned (intValue num) < 18446744073709551616 := by
      unfold toUnsigned
      omega
    exact ⟨⟨hnum, hname, hmethods⟩, List.IsSuffix.trans ⟨[_, _, _], rfl⟩ (hrest.trans ⟨[_, _, _], rfl⟩)⟩

theorem keeps_programs (n : Nat) : Keeps n Token.Lexical DerivesPrograms (Items Program.WellFormed) := by
  apply Keeps.list1
  apply Keeps.before
  intro ts p rest hn hts h
  cases h with
  | mk htypes hversions =>
    simp only [List.length_cons] at hn
    simp only [List.forall_mem_cons] at hts
    obtain ⟨_, hname, _, hts⟩ := hts
    obtain ⟨htypes, hmid, hmem, hsuffix⟩ := (keeps_optdefs n).rest (by omega) hts htypes
    obtain ⟨hversions, hrest⟩ := keeps_versions n _ _ _ hmid hmem hversions
    have hsuffix := hrest.trans hsuffix
    exact ⟨⟨rfl, hname, htypes, hversions⟩, List.IsSuffix.trans ⟨[_, _, _], rfl⟩ (hsuffix.trans ⟨[_, _, _], rfl⟩)⟩

theorem keeps_imports (n : Nat) : Keeps n Token.Lexical DerivesImports (Items fun s => (Token.IMPORT s).Lexical) := by
  apply Keeps.list1
  intro ts s rest _ hts h
  cases h
  exact ⟨(lexical_head hts).1, List.suffix_cons _ _⟩

/-- What is read from tokens that can be scanned is well-formed. -/
theorem wellFormed_of_derives {u : TrlUnit} (hts : ∀ t ∈ ts, t.Lexical) (h : Derives ts u) : u.WellFormed := by
  cases h with
  | mk himports htypes hprograms =>
    obtain ⟨himports, hmid, hmem, _⟩ := (keeps_imports _).opt.rest (Nat.le_refl _) hts himports
    obtain ⟨htypes, hmid', hmem', _⟩ := (keeps_optdefs _).rest hmid hmem htypes
    obtain ⟨hprograms, _⟩ := (keeps_programs _).opt _ _ _ hmid' hmem' hprograms
    exact ⟨himports, htypes, hprograms⟩

end Keeps

section Print

/- A unit as tokens that it is read from. -/

def TypeRef.print (t : TypeRef) : List Token :=
  (if t.byRef then [.BYREF] else []) ++ ((if t.svcByRRef then [.SVC_BYRREF] else []) ++
    .IDENT t.type :: if t.list then [.LCARET, .RCARET] else [])

def Decl.print (d : Decl) : List Token :=
  d.type.print ++ [.IDENT d.id]

def printDecls (decls : List Decl) : List Token :=
  decls.flatMap fun d => d.print ++ [.SEMI]

def Method.print (m : Method) : List Token :=
  m.retType.print ++ .IDENT m.name :: .LBRACKET :: ([Token.COMMA].intercalate (m.args.map Decl.print) ++ [.RBRACKET])

/-- The number as a `long`. -/
def Version.print (v : Version) : List Token :=
  .VERSION :: .IDENT v.name :: .LBRACE :: ((v.methods.flatMap fun m => m.print ++ [.SEMI]) ++
    [.RBRACE, .EQUALS, .INTEGER
      (numeral (if v.num < 9223372036854775808 then v.num else v.num - 18446744073709551616))])

def Entry.print (e : Entry) : List Token :=
  .IDENT e.id :: ((e.str.elim [] fun s => [.LBRACKET, .STRLIT s, .RBRACKET]) ++
    e.iVal.elim [] fun i => [.EQUALS, .INTEGER (numeral i)])

def printCas (cas : List Byte × List Decl) : List Token :=
  .CASE :: .IDENT cas.1 :: .COLON :: printDecls cas.2

mutual

def TypeDef.print : TypeDef → List Token
  | .mk name types (.struct decls) =>
    .STRUCT :: .IDENT name :: .LBRACE :: (printDefs types ++ (printDecls decls ++ [.RBRACE]))
  | .mk name [] (.union enumType cases) =>
    .UNION :: .IDENT name :: .LBRACE :: .TYPE :: .IDENT enumType.type :: .SEMI :: (cases.flatMap printCas ++ [.RBRACE])
  | .mk name (_ :: _) (.union _ cases) => .UNION :: .IDENT name :: .LBRACE :: (cases.flatMap printCas ++ [.RBRACE])
  | .mk name _ (.enum entries) =>
    .ENUM :: .IDENT name :: .LBRACE :: ([Token.COMMA].intercalate (entries.map Entry.print) ++ [.RBRACE])

def printDefs : List TypeDef → List Token
  | [] => []
  | d :: types => d.print ++ .SEMI :: printDefs types

end

/-- The number of a program is not read, and may be any. -/
def Program.print (p : Program) : List Token :=
  .PROGRAM :: .IDENT p.name :: .LBRACE :: (printDefs p.types ++ ((p.versions.flatMap fun v => v.print ++ [.SEMI]) ++
    [.RBRACE, .EQUALS, .INTEGER (numeral p.num)]))

def TrlUnit.print (u : TrlUnit) : List Token :=
  u.imports.map Token.IMPORT ++ (printDefs u.types ++ u.programs.flatMap fun p => p.print ++ [.SEMI])

end Print

section Prints

/-- A type with its modifiers in one order; the grammar takes both. -/
theorem prints_type : Prints Token.Lexical DerivesType TypeRef.WellFormed TypeRef.print where
  derives t ht rest := by
    obtain ⟨type, list, byRef, svcByRRef⟩ := t
    have hbasic : DerivesType (.IDENT type :: ((if list then [.LCARET, .RCARET] else []) ++ rest))
        { type, list } rest := by
      refine .basic (.mk ?_)
      cases list
      · exact .none
      · exact .list
    have hsvc : DerivesType ((if svcByRRef then [.SVC_BYRREF] else []) ++
        .IDENT type :: ((if list then [.LCARET, .RCARET] else []) ++ rest)) { type, list, svcByRRef } rest := by
      cases svcByRRef
      · exact hbasic
      · exact .svcByrref hbasic
    rw [TypeRef.print, List.append_assoc, List.append_assoc, List.cons_append]
    cases byRef
    · exact hsvc
    · exact .byref hsvc
  tokens t ht := by
    obtain ⟨type, list, byRef, svcByRRef⟩ := t
    have hname : IsName type := ht
    cases list <;> cases byRef <;> cases svcByRRef <;> simp [TypeRef.print, Token.Lexical, hname]

theorem prints_decl : Prints Token.Lexical DerivesDecl Decl.WellFormed Decl.print where
  derives d hd rest := by
    rw [Decl.print, List.append_assoc]
    exact .mk (prints_type.derives _ hd.type _)
  tokens d hd := List.forall_mem_append.mpr ⟨prints_type.tokens _ hd.type, List.forall_mem_singleton.mpr hd.id⟩

theorem prints_decls : Prints Token.Lexical DerivesDeclsSemis (Items Decl.WellFormed) printDecls :=
  (prints_decl.before (t := .SEMI) trivial).many

theorem prints_cases : Prints Token.Lexical DerivesCases (Items CasWellFormed) (List.flatMap printCas) := by
  refine Prints.many ⟨fun cas hcas rest => ?_, fun cas hcas => ?_⟩
  · exact .mk (prints_decls.derives _ hcas.2 rest)
  · simp only [printCas, List.forall_mem_cons]
    exact ⟨trivial, hcas.1, trivial, prints_decls.tokens _ hcas.2⟩

/-- An entry with a string, a number, both or neither. -/
theorem prints_enumEntries :
    Prints Token.Lexical DerivesEnumEntries (Items Entry.WellFormed) fun entries =>
      [Token.COMMA].intercalate (entries.map Entry.print) := by
  refine Prints.list1 ⟨fun entry hentry rest => ?_, fun entry hentry => ?_⟩ (List.forall_mem_singleton.mpr trivial)
  · obtain ⟨id, str, iVal⟩ := entry
    have hvalue : ∀ i, iVal = some i → intValue (numeral i) = i := fun i hi =>
      intValue_numeral (hentry.iVal i hi).1 (hentry.iVal i hi).2
    cases str with
    | none =>
      cases iVal with
      | none => exact .id
      | some i =>
        have hentry := @DerivesEnumEntry.iVal id (numeral i) rest
        rwa [hvalue i rfl] at hentry
    | some s =>
      cases iVal with
      | none => exact .str
      | some i =>
        have hentry := @DerivesEnumEntry.strIVal id s (numeral i) rest
        rwa [hvalue i rfl] at hentry
  · obtain ⟨id, str, iVal⟩ := entry
    have hid : IsName id := hentry.id
    have hstr : ∀ s, str = some s → s ∈ STRLIT.language ∧ nul ∉ s := hentry.str
    have hiVal : ∀ i, ∃ r ∈ numbers, numeral i ∈ r.pattern.language := numeral_lexical
    cases str <;> cases iVal <;> simp_all [Entry.print, Token.Lexical]

theorem printDefs_eq (types : List TypeDef) : printDefs types = types.flatMap fun d => d.print ++ [.SEMI] := by
  induction types with
  | nil => rfl
  | cons d types ih =>
    rw [printDefs, ih, List.flatMap_cons, List.append_assoc]
    rfl

theorem prints_optdefs {Q : TypeDef → Prop} (h : Prints Token.Lexical DerivesDef Q TypeDef.print) :
    Prints Token.Lexical DerivesOptdefs (fun types => ∀ d ∈ types, Q d) printDefs := by
  rw [show printDefs = _ from funext printDefs_eq]
  exact (h.before (t := .SEMI) trivial).many.opt rfl

/-- By induction on what makes a definition well-formed; those inside a struct come first. -/
theorem prints_def : Prints Token.Lexical DerivesDef TypeDef.WellFormed TypeDef.print := by
  suffices h : ∀ d : TypeDef, d.WellFormed → (∀ rest, DerivesDef (d.print ++ rest) d rest) ∧
    ∀ t ∈ d.print, t.Lexical from
    ⟨fun d hd => (h d hd).1, fun d hd => (h d hd).2⟩
  intro d hd
  induction hd with
  | @struct name types decls hname _ hdecls ih =>
    have hinner : Prints Token.Lexical DerivesDef (· ∈ types) TypeDef.print :=
      ⟨fun d hd => (ih d hd).1, fun d hd => (ih d hd).2⟩
    have htypes := prints_optdefs hinner
    rw [TypeDef.print]
    constructor
    · intro rest
      simp only [List.cons_append, List.append_assoc]
      exact .struct (htypes.derives _ (fun _ h => h) _) (prints_decls.derives _ hdecls _)
    · simp only [List.forall_mem_cons, List.forall_mem_append]
      exact ⟨trivial, hname, trivial, htypes.tokens _ (fun _ h => h),
        prints_decls.tokens _ hdecls, by simp [Token.Lexical]⟩
  | @unionOf name tID cases hname htID hcases =>
    rw [TypeDef.print]
    constructor
    · intro rest
      simp only [List.cons_append, List.append_assoc]
      exact .unionOf (prints_cases.derives _ hcases _)
    · simp only [List.forall_mem_cons, List.forall_mem_append]
      exact ⟨trivial, hname, trivial, trivial, htID, trivial, prints_cases.tokens _ hcases, by simp [Token.Lexical]⟩
  | @union name cases hname hcases =>
    rw [TypeDef.print]
    constructor
    · intro rest
      simp only [List.cons_append, List.append_assoc]
      exact .union (prints_cases.derives _ hcases _)
    · simp only [List.forall_mem_cons, List.forall_mem_append]
      exact ⟨trivial, hname, trivial, prints_cases.tokens _ hcases, by simp [Token.Lexical]⟩
  | @enum name entries hname hentries =>
    rw [TypeDef.print]
    constructor
    · intro rest
      simp only [List.cons_append, List.append_assoc]
      exact .enum (prints_enumEntries.derives _ hentries _) .none
    · simp only [List.forall_mem_cons, List.forall_mem_append]
      exact ⟨trivial, hname, trivial, prints_enumEntries.tokens _ hentries, by simp [Token.Lexical]⟩

theorem prints_args : Prints Token.Lexical DerivesOptArgs (fun args => ∀ d ∈ args, d.WellFormed) fun args =>
    [Token.COMMA].intercalate (args.map Decl.print) := by
  have hcomma : ∀ t ∈ [Token.COMMA], t.Lexical := List.forall_mem_singleton.mpr trivial
  exact (prints_decl.list1 hcomma).opt rfl

theorem prints_methods : Prints Token.Lexical DerivesMethods (Items Method.WellFormed)
    (List.flatMap fun m => m.print ++ [.SEMI]) := by
  refine Prints.many (Prints.before (t := Token.SEMI) ⟨fun m hm rest => ?_, fun m hm => ?_⟩ trivial)
  · simp only [Method.print, List.cons_append, List.append_assoc]
    exact .mk (prints_type.derives _ hm.retType _) (prints_args.derives _ hm.args _) .none
  · simp only [Method.print, List.forall_mem_cons, List.forall_mem_append]
    exact ⟨prints_type.tokens _ hm.retType, hm.name, trivial, prints_args.tokens _ hm.args, by simp [Token.Lexical]⟩

/-- From 2^63 on a number is written as the `long` that it comes from. -/
theorem toUnsigned_numeral {n : Nat} (hn : n < 18446744073709551616) :
    toUnsigned (intValue (numeral (if n < 9223372036854775808 then n else n - 18446744073709551616))) = n := by
  unfold toUnsigned
  split
  · rw [intValue_numeral (by omega) (by omega)]
    omega
  · rw [intValue_numeral (by omega) (by omega)]
    omega

theorem prints_versions :
    Prints Token.Lexical DerivesVersions (Items Version.WellFormed) (List.flatMap fun v => v.print ++ [.SEMI]) := by
  refine Prints.many (Prints.before (t := Token.SEMI) ⟨fun v hv rest => ?_, fun v hv => ?_⟩ trivial)
  · obtain ⟨num, name, methods⟩ := v
    have hnum := toUnsigned_numeral hv.num
    simp only [Version.print, List.cons_append, List.append_assoc]
    generalize numeral (if num < 9223372036854775808 then num else num - 18446744073709551616) = w at hnum ⊢
    subst hnum
    exact .mk (prints_methods.derives _ hv.methods _)
  · simp only [Version.print, List.forall_mem_cons, List.forall_mem_append]
    refine ⟨trivial, hv.name, trivial, prints_methods.tokens _ hv.methods, trivial, trivial, numeral_lexical _, ?_⟩
    exact List.forall_mem_nil _

theorem prints_programs :
    Prints Token.Lexical DerivesPrograms (Items Program.WellFormed) (List.flatMap fun p => p.print ++ [.SEMI]) := by
  refine Prints.many (Prints.before (t := Token.SEMI) ⟨fun p hp rest => ?_, fun p hp => ?_⟩ trivial)
  · obtain ⟨name, types, versions, num⟩ := p
    obtain rfl : num = 0 := hp.num
    simp only [Program.print, List.cons_append, List.append_assoc]
    exact .mk ((prints_optdefs prints_def).derives _ hp.types _) (prints_versions.derives _ hp.versions _)
  · simp only [Program.print, List.forall_mem_cons, List.forall_mem_append]
    refine ⟨trivial, hp.name, trivial, (prints_optdefs prints_def).tokens _ hp.types,
      prints_versions.tokens _ hp.versions,
      trivial, trivial, numeral_lexical _, ?_⟩
    exact List.forall_mem_nil _

theorem prints_imports :
    Prints Token.Lexical (Opt DerivesImports) (fun imports => ∀ s ∈ imports, (Token.IMPORT s).Lexical)
      (List.map Token.IMPORT) := by
  rw [show List.map Token.IMPORT = List.flatMap fun s => [Token.IMPORT s] from funext fun _ => List.map_eq_flatMap]
  refine Prints.opt (Prints.many ⟨fun s _ rest => .mk, fun s hs => ?_⟩) rfl
  exact List.forall_mem_singleton.mpr hs

theorem TrlUnit.derives_print {u : TrlUnit} (hu : u.WellFormed) : Derives u.print u := by
  have hprograms := (prints_programs.opt rfl).derives _ hu.programs []
  rw [List.append_nil] at hprograms
  exact .mk (prints_imports.derives _ hu.imports _) ((prints_optdefs prints_def).derives _ hu.types _) hprograms

theorem TrlUnit.print_lexical {u : TrlUnit} (hu : u.WellFormed) : ∀ t ∈ u.print, t.Lexical := by
  refine List.forall_mem_append.mpr ⟨prints_imports.tokens _ hu.imports, List.forall_mem_append.mpr ⟨?_, ?_⟩⟩
  · exact (prints_optdefs prints_def).tokens _ hu.types
  · exact (prints_programs.opt rfl).tokens _ hu.programs

end Prints

/-- The units that the grammar derives from what is sent of some file are the well-formed ones. Of
its tokens on a line each, a well-formed unit is derived, and no other. -/
theorem exists_source_iff (u : TrlUnit) :
    ((∃ source ts, sent source = some ts ∧ Derives ts u) ↔ u.WellFormed) ∧
      (u.WellFormed →
        sent (written u.print) = some u.print ∧ Derives u.print u ∧ ∀ u', Derives u.print u' → u' = u) := by
  have hprint : u.WellFormed → sent (written u.print) = some u.print :=
    fun hu => sent_written (TrlUnit.print_lexical hu)
  refine ⟨⟨?_, fun hu => ⟨_, _, hprint hu, TrlUnit.derives_print hu⟩⟩,
    fun hu => ⟨hprint hu, TrlUnit.derives_print hu, ?_⟩⟩
  · rintro ⟨source, ts, hsent, hderives⟩
    exact wellFormed_of_derives (sent_lexical hsent) hderives
  · exact fun u' hu' => derives_unique hu' (TrlUnit.derives_print hu)

end ServiceManager.Wsrpcgen.Syntax
