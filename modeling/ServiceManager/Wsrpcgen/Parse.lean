import ServiceManager.Wsrpcgen.Syntax

namespace ServiceManager.Wsrpcgen.Syntax

open Grammar

section Parsers

def typeFirst : Token → Bool
  | .BYREF | .SVC_BYRREF | .IDENT _ => true
  | _ => false

def casFirst : Token → Bool
  | .CASE => true
  | _ => false

def entryFirst : Token → Bool
  | .IDENT _ => true
  | _ => false

def defFirst : Token → Bool
  | .STRUCT | .UNION | .ENUM => true
  | _ => false

def versionFirst : Token → Bool
  | .VERSION => true
  | _ => false

def programFirst : Token → Bool
  | .PROGRAM => true
  | _ => false

def importFirst : Token → Bool
  | .IMPORT _ => true
  | _ => false

theorem cas_disjoint (t : Token) (h : casFirst t = true) : typeFirst t = false := by
  cases t <;> first | rfl | cases h

theorem type_disjoint (t : Token) (h : typeFirst t = true) : defFirst t = false := by
  cases t <;> first | rfl | cases h

theorem version_disjoint (t : Token) (h : versionFirst t = true) : defFirst t = false := by
  cases t <;> first | rfl | cases h

theorem program_disjoint (t : Token) (h : programFirst t = true) : defFirst t = false ∧ importFirst t = false := by
  cases t <;> first | exact ⟨rfl, rfl⟩ | cases h

theorem def_disjoint (t : Token) (h : defFirst t = true) : importFirst t = false := by
  cases t <;> first | rfl | cases h

def parseOptList : List Token → Bool × List Token
  | .LCARET :: .RCARET :: ts => (true, ts)
  | ts => (false, ts)

def parseType : Parser Token TypeRef
  | .BYREF :: ts => (parseType ts).map fun (t, rest) => ({ t with byRef := true }, rest)
  | .SVC_BYRREF :: ts => (parseType ts).map fun (t, rest) => ({ t with svcByRRef := true }, rest)
  | .IDENT id :: ts => some ({ type := id, list := (parseOptList ts).1 }, (parseOptList ts).2)
  | _ => none

def parseDecl : Parser Token Decl := fun ts =>
  (parseType ts).bind fun (type, rest) =>
    match rest with
    | .IDENT id :: rest => some ({ type, id }, rest)
    | _ => none

/- Lists have fuel for as many items as there are tokens. -/

def parseArgs (n : Nat) : Parser Token (List Decl) :=
  list1 [.COMMA] typeFirst parseDecl n

def parseDeclsSemis (n : Nat) : Parser Token (List Decl) :=
  list1 [] typeFirst (before .SEMI parseDecl) n

def parseCas (n : Nat) : Parser Token (List Byte × List Decl)
  | .CASE :: .IDENT id :: .COLON :: ts => (parseDeclsSemis n ts).map fun (decls, rest) => ((id, decls), rest)
  | _ => none

def parseCases (n : Nat) : Parser Token (List (List Byte × List Decl)) :=
  list1 [] casFirst (parseCas n) n

def parseEntryStr : List Token → Option (List Byte) × List Token
  | .LBRACKET :: .STRLIT s :: .RBRACKET :: rest => (some s, rest)
  | ts => (none, ts)

def parseEntryVal : List Token → Option Int × List Token
  | .EQUALS :: .INTEGER i :: rest => (some (intValue i), rest)
  | ts => (none, ts)

def parseEnumEntry : Parser Token Entry
  | .IDENT id :: ts =>
    let (str, ts) := parseEntryStr ts
    let (iVal, rest) := parseEntryVal ts
    some ({ id, str, iVal }, rest)
  | _ => none

def parseEnumEntries (n : Nat) : Parser Token (List Entry) :=
  list1 [.COMMA] entryFirst parseEnumEntry n

def parseOptcomma : List Token → List Token
  | .COMMA :: ts => ts
  | ts => ts

/-- A definition, with a parser for those inside it. -/
def parseDefOf (inner : Parser Token TypeDef) (n : Nat) : Parser Token TypeDef
  | .STRUCT :: .IDENT id :: .LBRACE :: ts =>
    (optionally defFirst (list1 [] defFirst (before .SEMI inner) n) ts).bind fun (types, mid) =>
      (before .RBRACE (parseDeclsSemis n) mid).map fun (decls, rest) => (.mk id types (.struct decls), rest)
  | .UNION :: .IDENT id :: .LBRACE :: .TYPE :: .IDENT tID :: .SEMI :: ts =>
    (before .RBRACE (parseCases n) ts).map fun (cases, rest) => (.mk id [] (.union { type := tID } cases), rest)
  | .UNION :: .IDENT id :: .LBRACE :: ts =>
    (before .RBRACE (parseCases n) ts).map fun (cases, rest) =>
      (.mk id [typeEnum cases] (.union { type := bytes "Type" } cases), rest)
  | .ENUM :: .IDENT id :: .LBRACE :: ts =>
    (parseEnumEntries n ts).bind fun (entries, mid) =>
      match parseOptcomma mid with
      | .RBRACE :: rest => some (.mk id [] (.enum entries), rest)
      | _ => none
  | _ => none

def parseDef : Nat → Parser Token TypeDef
  | 0 => fun _ => none
  | n + 1 => parseDefOf (parseDef n) n

def parseOptdefs (n : Nat) : Parser Token (List TypeDef) :=
  optionally defFirst (list1 [] defFirst (before .SEMI (parseDef n)) n)

def parseOptmethnum : List Token → List Token
  | .EQUALS :: .INTEGER _ :: ts => ts
  | ts => ts

def parseMethod (n : Nat) : Parser Token Method := fun ts =>
  (parseType ts).bind fun (retType, mid) =>
    match mid with
    | .IDENT name :: .LBRACKET :: mid =>
      (before .RBRACKET (optionally typeFirst (parseArgs n)) mid).map fun (args, rest) =>
        ({ retType, name, args }, parseOptmethnum rest)
    | _ => none

def parseVersion (n : Nat) : Parser Token Version
  | .VERSION :: .IDENT name :: .LBRACE :: ts =>
    (list1 [] typeFirst (before .SEMI (parseMethod n)) n ts).bind fun (methods, rest) =>
      match rest with
      | .RBRACE :: .EQUALS :: .INTEGER num :: rest => some ({ num := toUnsigned (intValue num), name, methods }, rest)
      | _ => none
  | _ => none

def parseProgram (n : Nat) : Parser Token Program
  | .PROGRAM :: .IDENT name :: .LBRACE :: ts =>
    (parseOptdefs n ts).bind fun (types, mid) =>
      (list1 [] versionFirst (before .SEMI (parseVersion n)) n mid).bind fun (versions, rest) =>
        match rest with
        | .RBRACE :: .EQUALS :: .INTEGER _ :: rest => some ({ name, types, versions, num := 0 }, rest)
        | _ => none
  | _ => none

def parseImport : Parser Token (List Byte)
  | .IMPORT s :: rest => some (s, rest)
  | _ => none

def parseTrlunit (n : Nat) : Parser Token TrlUnit := fun ts =>
  (optionally importFirst (list1 [] importFirst parseImport n) ts).bind fun (imports, mid) =>
    (parseOptdefs n mid).bind fun (types, mid') =>
      (optionally programFirst (list1 [] programFirst (before .SEMI (parseProgram n)) n) mid').map
        fun (programs, rest) =>
        ({ imports, types, programs }, rest)

/-- A unit that the grammar derives from all of the tokens, found by looking one token ahead. It
decides the grammar; the generated parser has limits of its own. -/
def parse (ts : List Token) : Option TrlUnit :=
  match parseTrlunit ts.length ts with
  | some (u, []) => some u
  | _ => none

end Parsers

section Types

variable {n : Nat} {ts rest : List Token} {l : Bool} {t : TypeRef}

theorem parseOptList_sound (ts : List Token) : DerivesOptList ts (parseOptList ts).1 (parseOptList ts).2 := by
  unfold parseOptList
  split
  · exact .list
  · exact .none

theorem parseOptList_complete (hrest : rest.head? ≠ some .LCARET) (h : DerivesOptList ts l rest) :
    parseOptList ts = (l, rest) := by
  cases h with
  | list => rfl
  | none =>
    unfold parseOptList
    split
    · exact absurd rfl hrest
    · rfl

theorem parseType_sound (h : parseType ts = some (t, rest)) : DerivesType ts t rest := by
  induction ts using parseType.induct generalizing t with
  | case1 ts ih =>
    obtain ⟨⟨t', rest'⟩, hread, hpair⟩ := Option.map_eq_some_iff.mp h
    obtain ⟨rfl, rfl⟩ := Prod.mk.inj hpair
    exact .byref (ih hread)
  | case2 ts ih =>
    obtain ⟨⟨t', rest'⟩, hread, hpair⟩ := Option.map_eq_some_iff.mp h
    obtain ⟨rfl, rfl⟩ := Prod.mk.inj hpair
    exact .svcByrref (ih hread)
  | case3 id ts =>
    obtain ⟨rfl, rfl⟩ := Prod.mk.inj (Option.some.inj h)
    exact .basic (.mk (parseOptList_sound ts))
  | case4 ts hbyref hsvc hident =>
    rw [parseType] at h <;> simp_all

theorem parseType_complete (hrest : rest.head? ≠ some .LCARET) (h : DerivesType ts t rest) :
    parseType ts = some (t, rest) := by
  induction h with
  | byref _ ih => rw [parseType, ih hrest, Option.map_some]
  | svcByrref _ ih => rw [parseType, ih hrest, Option.map_some]
  | basic hbasic =>
    cases hbasic with
    | mk hopt => rw [parseType, parseOptList_complete hrest hopt]

theorem type_starts (h : DerivesType ts t rest) : ts.head?.any typeFirst = true ∧ rest.length < ts.length := by
  induction h with
  | byref _ ih | svcByrref _ ih => exact ⟨rfl, by rw [List.length_cons]; omega⟩
  | basic hbasic =>
    cases hbasic with
    | mk hopt =>
      refine ⟨rfl, ?_⟩
      cases hopt with
      | none => exact Nat.lt_succ_self _
      | list =>
        simp only [List.length_cons]
        omega

/-- A declaration: its type, then its name. -/
theorem reads_decl (n : Nat) : Reads n typeFirst (fun _ => True) DerivesDecl parseDecl where
  sound ts decl rest hn h := by
    obtain ⟨⟨type, mid⟩, htype, hrest⟩ := Option.bind_eq_some_iff.mp h
    simp only at hrest
    split at hrest
    · obtain ⟨rfl, rfl⟩ := Prod.mk.inj (Option.some.inj hrest)
      exact .mk (parseType_sound htype)
    · cases hrest
  complete ts decl rest hn _ h := by
    cases h with
    | mk htype => simp [parseDecl, parseType_complete (by simp) htype]
  starts ts decl rest hn h := by
    cases h with
    | mk htype => exact (type_starts htype).1
  shorter ts decl rest hn h := by
    cases h with
    | mk htype =>
      have hlt := (type_starts htype).2
      rw [List.length_cons] at hlt
      omega

theorem reads_args (n : Nat) : Reads n typeFirst (fun rest => rest.head? ≠ some .COMMA) DerivesArgs (parseArgs n) :=
  ((reads_decl n).list1 fun _ _ => trivial).ends_mono fun _ hrest => ⟨trivial, Reads.next_of_head hrest⟩

theorem reads_declsSemis (n : Nat) :
    Reads n typeFirst (fun rest => rest.head?.any typeFirst = false) DerivesDeclsSemis (parseDeclsSemis n) :=
  (reads_decl n).terminated fun _ => trivial

end Types

section Definitions

variable {n : Nat} {ts rest : List Token}

/-- A case ends where no declaration begins. -/
theorem reads_cas (n : Nat) :
    Reads n casFirst (fun rest => rest.head?.any typeFirst = false) DerivesCas (parseCas n) where
  sound ts cas rest hn h := by
    unfold parseCas at h
    split at h
    · obtain ⟨⟨decls, rest'⟩, hdecls, hpair⟩ := Option.map_eq_some_iff.mp h
      obtain ⟨rfl, rfl⟩ := Prod.mk.inj hpair
      simp only [List.length_cons] at hn
      exact .mk ((reads_declsSemis n).sound _ _ _ (by omega) hdecls)
    · cases h
  complete ts cas rest hn hrest h := by
    cases h with
    | mk hdecls =>
      simp only [List.length_cons] at hn
      simp [parseCas, (reads_declsSemis n).complete _ _ _ (by omega) hrest hdecls]
  starts ts cas rest hn h := by
    cases h
    rfl
  shorter ts cas rest hn h := by
    cases h with
    | mk hdecls =>
      simp only [List.length_cons] at hn ⊢
      have hlt := (reads_declsSemis n).shorter _ _ _ (by omega) hdecls
      omega

theorem reads_cases (n : Nat) :
    Reads n casFirst (fun rest => rest.head?.any typeFirst = false ∧
      rest.head?.any casFirst = false) DerivesCases (parseCases n) := by
  refine ((reads_cas n).list1 fun mid hmid => ?_).ends_mono fun rest hrest => ⟨hrest.1, Reads.next_nil.mpr hrest.2⟩
  exact head_disjoint hmid cas_disjoint

theorem parseEntryStr_cases (ts : List Token) :
    parseEntryStr ts = (none, ts) ∨
      ∃ s rest, ts = .LBRACKET :: .STRLIT s :: .RBRACKET :: rest ∧ parseEntryStr ts = (some s, rest) := by
  unfold parseEntryStr
  split
  · exact Or.inr ⟨_, _, rfl, rfl⟩
  · exact Or.inl rfl

theorem parseEntryVal_cases (ts : List Token) :
    parseEntryVal ts = (none, ts) ∨
      ∃ i rest, ts = .EQUALS :: .INTEGER i :: rest ∧ parseEntryVal ts = (some (intValue i), rest) := by
  unfold parseEntryVal
  split
  · exact Or.inr ⟨_, _, rfl, rfl⟩
  · exact Or.inl rfl

theorem parseEntry_sound (id : List Byte) (ts : List Token) :
    DerivesEnumEntry (.IDENT id :: ts)
      { id, str := (parseEntryStr ts).1, iVal := (parseEntryVal (parseEntryStr ts).2).1 }
      (parseEntryVal (parseEntryStr ts).2).2 := by
  obtain hstr | ⟨s, rest, rfl, hstr⟩ := parseEntryStr_cases ts
  · rw [hstr]
    obtain hval | ⟨i, rest, rfl, hval⟩ := parseEntryVal_cases ts
    · rw [hval]
      exact .id
    · rw [hval]
      exact .iVal
  · rw [hstr]
    obtain hval | ⟨i, rest, rfl, hval⟩ := parseEntryVal_cases rest
    · rw [hval]
      exact .str
    · rw [hval]
      exact .strIVal

theorem parseEntryStr_none (hstr : ts.head? ≠ some .LBRACKET) : parseEntryStr ts = (none, ts) := by
  unfold parseEntryStr
  split
  · exact absurd rfl hstr
  · rfl

theorem parseEntryVal_none (hval : ts.head? ≠ some .EQUALS) : parseEntryVal ts = (none, ts) := by
  unfold parseEntryVal
  split
  · exact absurd rfl hval
  · rfl

theorem reads_enumEntry (n : Nat) :
    Reads n entryFirst (fun rest => rest.head? ≠ some .LBRACKET ∧
      rest.head? ≠ some .EQUALS) DerivesEnumEntry parseEnumEntry where
  sound ts entry rest hn h := by
    unfold parseEnumEntry at h
    split at h
    · obtain ⟨rfl, rfl⟩ := Prod.mk.inj (Option.some.inj h)
      exact parseEntry_sound _ _
    · cases h
  complete ts entry rest hn hrest h := by
    cases h with
    | id => simp [parseEnumEntry, parseEntryStr_none hrest.1, parseEntryVal_none hrest.2]
    | str => simp [parseEnumEntry, parseEntryStr, parseEntryVal_none hrest.2]
    | iVal => simp [parseEnumEntry, parseEntryStr, parseEntryVal]
    | strIVal => simp [parseEnumEntry, parseEntryStr, parseEntryVal]
  starts ts entry rest hn h := by
    cases h <;> rfl
  shorter ts entry rest hn h := by
    cases h <;> simp only [List.length_cons] <;> omega

/-- A comma that no entry follows is not read. -/
theorem reads_enumEntries (n : Nat) :
    Reads n entryFirst (fun rest => (rest.head? ≠ some .LBRACKET ∧ rest.head? ≠ some .EQUALS) ∧
      next [.COMMA] entryFirst rest = none)
      DerivesEnumEntries (parseEnumEntries n) :=
  (reads_enumEntry n).list1 fun _ _ => ⟨by simp, by simp⟩

theorem parseOptcomma_sound (ts : List Token) : DerivesOptcomma ts (parseOptcomma ts) := by
  unfold parseOptcomma
  split
  · exact .comma
  · exact .none

/-- What ends an enumeration is told from another entry, with a comma or without. -/
theorem optcomma_ends {mid : List Token} (h : DerivesOptcomma mid (.RBRACE :: rest)) :
    parseOptcomma mid = .RBRACE :: rest ∧
      (mid.head? ≠ some .LBRACKET ∧ mid.head? ≠ some .EQUALS) ∧ next [.COMMA] entryFirst mid = none := by
  cases h with
  | comma => exact ⟨rfl, ⟨by simp, by simp⟩, by simp [next, entryFirst]⟩
  | none => exact ⟨rfl, ⟨by simp, by simp⟩, by simp [next]⟩

theorem optcomma_shorter {mid : List Token} (h : DerivesOptcomma mid rest) : rest.length ≤ mid.length := by
  cases h with
  | comma => exact Nat.le_succ _
  | none => exact Nat.le_refl _

/-- A definition begins and ends with tokens of its own. -/
theorem reads_def (n : Nat) : Reads n defFirst (fun _ => True) DerivesDef (parseDef n) := by
  induction n with
  | zero =>
    refine ⟨fun ts d rest hn h => ?_, fun ts d rest hn _ h => ?_, fun ts d rest hn h => ?_, fun ts d rest hn h => ?_⟩
    · cases h
    all_goals
      obtain rfl := List.length_eq_zero_iff.mp (Nat.le_zero.mp hn)
      cases h
  | succ n ih =>
    have hdefs := ih.terminated (t := .SEMI) fun _ => trivial
    constructor
    case sound =>
      intro ts d rest hn h
      unfold parseDef parseDefOf at h
      split at h
      · obtain ⟨⟨types, mid⟩, htypes, h⟩ := Option.bind_eq_some_iff.mp h
        obtain ⟨⟨decls, rest'⟩, hdecls, hpair⟩ := Option.map_eq_some_iff.mp h
        obtain ⟨rfl, rfl⟩ := Prod.mk.inj hpair
        simp only [List.length_cons] at hn
        have hopt := hdefs.optionally_sound (by omega) htypes
        have hmid := hdefs.optionally_shorter (by omega) hopt
        exact .struct hopt ((reads_declsSemis _).sound _ _ _ (by omega) (before_eq_some.mp hdecls))
      · obtain ⟨⟨cases, rest'⟩, hcases, hpair⟩ := Option.map_eq_some_iff.mp h
        obtain ⟨rfl, rfl⟩ := Prod.mk.inj hpair
        simp only [List.length_cons] at hn
        exact .unionOf ((reads_cases _).sound _ _ _ (by omega) (before_eq_some.mp hcases))
      · obtain ⟨⟨cases, rest'⟩, hcases, hpair⟩ := Option.map_eq_some_iff.mp h
        obtain ⟨rfl, rfl⟩ := Prod.mk.inj hpair
        simp only [List.length_cons] at hn
        exact .union ((reads_cases _).sound _ _ _ (by omega) (before_eq_some.mp hcases))
      · obtain ⟨⟨entries, mid⟩, hentries, h⟩ := Option.bind_eq_some_iff.mp h
        simp only [List.length_cons] at hn
        have hread := (reads_enumEntries _).sound _ _ _ (by omega) hentries
        have hcomma := parseOptcomma_sound mid
        simp only at h
        split at h
        · rename_i hmid
          obtain ⟨rfl, rfl⟩ := Prod.mk.inj (Option.some.inj h)
          rw [hmid] at hcomma
          exact .enum hread hcomma
        · cases h
      · cases h
    case complete =>
      intro ts d rest hn _ h
      cases h with
      | struct htypes hdecls =>
        simp only [List.length_cons] at hn
        have hmid := hdefs.optionally_shorter (by omega) htypes
        have hread := (reads_declsSemis n).complete _ _ _ (by omega) rfl hdecls
        have hlast := head_disjoint ((reads_declsSemis n).starts _ _ _ (by omega) hdecls) type_disjoint
        have hopt := hdefs.optionally_complete (by omega) hlast hlast htypes
        simp only [parseDef, parseDefOf]
        rw [hopt, Option.bind_some, before_eq_some.mpr hread, Option.map_some]
      | unionOf hcases =>
        simp only [List.length_cons] at hn
        have hread := (reads_cases n).complete _ _ _ (by omega) ⟨rfl, rfl⟩ hcases
        simp only [parseDef, parseDefOf]
        rw [before_eq_some.mpr hread, Option.map_some]
      | @union id ts cases rest hcases =>
        simp only [List.length_cons] at hn
        have hread := (reads_cases n).complete _ _ _ (by omega) ⟨rfl, rfl⟩ hcases
        have hstarts := (reads_cases n).starts _ _ _ (by omega) hcases
        -- a case begins here, so no type is named
        have hunion : parseDefOf (parseDef n) n (.UNION :: .IDENT id :: .LBRACE :: ts) =
            (before .RBRACE (parseCases n) ts).map fun (cases, rest) =>
              (.mk id [typeEnum cases] (.union { type := bytes "Type" } cases), rest) := by
          unfold parseDefOf
          split
          all_goals simp_all [casFirst]
        rw [parseDef, hunion, before_eq_some.mpr hread, Option.map_some]
      | enum hentries hcomma =>
        simp only [List.length_cons] at hn
        obtain ⟨hrest, hends⟩ := optcomma_ends hcomma
        have hread := (reads_enumEntries n).complete _ _ _ (by omega) hends hentries
        simp only [parseDef, parseDefOf]
        rw [hread, Option.bind_some]
        simp only [hrest]
    case starts =>
      intro ts d rest hn h
      cases h <;> rfl
    case shorter =>
      intro ts d rest hn h
      cases h with
      | struct htypes hdecls =>
        simp only [List.length_cons] at hn ⊢
        have hmid := hdefs.optionally_shorter (by omega) htypes
        have hlt := (reads_declsSemis n).shorter _ _ _ (by omega) hdecls
        rw [List.length_cons] at hlt
        omega
      | unionOf hcases | union hcases =>
        simp only [List.length_cons] at hn ⊢
        have hlt := (reads_cases n).shorter _ _ _ (by omega) hcases
        rw [List.length_cons] at hlt
        omega
      | enum hentries hcomma =>
        simp only [List.length_cons] at hn ⊢
        have hlt := (reads_enumEntries n).shorter _ _ _ (by omega) hentries
        have hmid := optcomma_shorter hcomma
        rw [List.length_cons] at hmid
        omega

end Definitions

section Units

variable {n : Nat} {ts rest : List Token}

theorem reads_defs (n : Nat) :
    Reads n defFirst (fun rest => rest.head?.any defFirst = false) DerivesDefs
      (list1 [] defFirst (before .SEMI (parseDef n)) n) :=
  (reads_def n).terminated fun _ => trivial

theorem parseOptmethnum_sound (ts : List Token) : DerivesOptmethnum ts (parseOptmethnum ts) := by
  unfold parseOptmethnum
  split
  · exact .num
  · exact .none

theorem parseOptmethnum_complete (hrest : rest.head? ≠ some .EQUALS) (h : DerivesOptmethnum ts rest) :
    parseOptmethnum ts = rest := by
  cases h with
  | num => rfl
  | none =>
    unfold parseOptmethnum
    split
    · exact absurd rfl hrest
    · rfl

theorem optmethnum_shorter (h : DerivesOptmethnum ts rest) : rest.length ≤ ts.length := by
  cases h with
  | none => exact Nat.le_refl _
  | num =>
    simp only [List.length_cons]
    omega

/-- A method, whose number may be left out. -/
theorem reads_method (n : Nat) :
    Reads n typeFirst (fun rest => rest.head? ≠ some .EQUALS) DerivesMethod (parseMethod n) where
  sound ts m rest hn h := by
    obtain ⟨⟨retType, mid⟩, htype, h⟩ := Option.bind_eq_some_iff.mp h
    have hret := parseType_sound htype
    have hmid := (type_starts hret).2
    simp only at h
    split at h
    · obtain ⟨⟨args, mid'⟩, hargs, hpair⟩ := Option.map_eq_some_iff.mp h
      obtain ⟨rfl, rfl⟩ := Prod.mk.inj hpair
      simp only [List.length_cons] at hmid
      have hopt := (reads_args n).optionally_sound (by omega) (before_eq_some.mp hargs)
      exact .mk hret hopt (parseOptmethnum_sound mid')
    · cases h
  complete ts m rest hn hrest h := by
    cases h with
    | mk hret hargs hnum =>
      have hmid := (type_starts hret).2
      simp only [List.length_cons] at hmid
      have hopt := (reads_args n).optionally_complete (by omega) (by simp) rfl hargs
      unfold parseMethod
      rw [parseType_complete (by simp) hret, Option.bind_some]
      simp only
      rw [before_eq_some.mpr hopt, Option.map_some, parseOptmethnum_complete hrest hnum]
  starts ts m rest hn h := by
    cases h with
    | mk hret _ _ => exact (type_starts hret).1
  shorter ts m rest hn h := by
    cases h with
    | mk hret hargs hnum =>
      have hmid := (type_starts hret).2
      simp only [List.length_cons] at hmid
      have hrest := (reads_args n).optionally_shorter (by omega) hargs
      have hlast := optmethnum_shorter hnum
      rw [List.length_cons] at hrest
      omega

theorem reads_methods (n : Nat) : Reads n typeFirst (fun rest => rest.head?.any typeFirst = false) DerivesMethods
    (list1 [] typeFirst (before .SEMI (parseMethod n)) n) :=
  (reads_method n).terminated fun _ => by simp

/-- A version: its name, its methods and its number. -/
theorem reads_version (n : Nat) : Reads n versionFirst (fun _ => True) DerivesVersion (parseVersion n) where
  sound ts v rest hn h := by
    unfold parseVersion at h
    split at h
    · obtain ⟨⟨methods, mid⟩, hmethods, h⟩ := Option.bind_eq_some_iff.mp h
      simp only [List.length_cons] at hn
      have hread := (reads_methods n).sound _ _ _ (by omega) hmethods
      simp only at h
      split at h
      · obtain ⟨rfl, rfl⟩ := Prod.mk.inj (Option.some.inj h)
        exact .mk hread
      · cases h
    · cases h
  complete ts v rest hn _ h := by
    cases h with
    | mk hmethods =>
      simp only [List.length_cons] at hn
      unfold parseVersion
      simp only
      rw [(reads_methods n).complete _ _ _ (by omega) rfl hmethods, Option.bind_some]
  starts ts v rest hn h := by
    cases h
    rfl
  shorter ts v rest hn h := by
    cases h with
    | mk hmethods =>
      simp only [List.length_cons] at hn ⊢
      have hlt := (reads_methods n).shorter _ _ _ (by omega) hmethods
      simp only [List.length_cons] at hlt
      omega

theorem reads_versions (n : Nat) :
    Reads n versionFirst (fun rest => rest.head?.any versionFirst = false) DerivesVersions
    (list1 [] versionFirst (before .SEMI (parseVersion n)) n) :=
  (reads_version n).terminated fun _ => trivial

/-- A program, with types before its versions or without. -/
theorem reads_program (n : Nat) : Reads n programFirst (fun _ => True) DerivesProgram (parseProgram n) where
  sound ts p rest hn h := by
    unfold parseProgram at h
    split at h
    · obtain ⟨⟨types, mid⟩, htypes, h⟩ := Option.bind_eq_some_iff.mp h
      obtain ⟨⟨versions, mid'⟩, hversions, h⟩ := Option.bind_eq_some_iff.mp h
      simp only [List.length_cons] at hn
      have hopt := (reads_defs n).optionally_sound (by omega) htypes
      have hmid := (reads_defs n).optionally_shorter (by omega) hopt
      have hread := (reads_versions n).sound _ _ _ (by omega) hversions
      simp only at h
      split at h
      · obtain ⟨rfl, rfl⟩ := Prod.mk.inj (Option.some.inj h)
        exact .mk hopt hread
      · cases h
    · cases h
  complete ts p rest hn _ h := by
    cases h with
    | mk htypes hversions =>
      simp only [List.length_cons] at hn
      have hmid := (reads_defs n).optionally_shorter (by omega) htypes
      have hlast := head_disjoint ((reads_versions n).starts _ _ _ (by omega) hversions) version_disjoint
      have hopt := (reads_defs n).optionally_complete (by omega) hlast hlast htypes
      unfold parseProgram parseOptdefs
      simp only
      rw [hopt, Option.bind_some]
      simp only
      rw [(reads_versions n).complete _ _ _ (by omega) rfl hversions, Option.bind_some]
  starts ts p rest hn h := by
    cases h
    rfl
  shorter ts p rest hn h := by
    cases h with
    | mk htypes hversions =>
      simp only [List.length_cons] at hn ⊢
      have hmid := (reads_defs n).optionally_shorter (by omega) htypes
      have hlt := (reads_versions n).shorter _ _ _ (by omega) hversions
      simp only [List.length_cons] at hlt
      omega

theorem reads_programs (n : Nat) :
    Reads n programFirst (fun rest => rest.head?.any programFirst = false) DerivesPrograms
    (list1 [] programFirst (before .SEMI (parseProgram n)) n) :=
  (reads_program n).terminated fun _ => trivial

theorem reads_import (n : Nat) : Reads n importFirst (fun _ => True) DerivesImport parseImport where
  sound ts s rest hn h := by
    unfold parseImport at h
    split at h
    · obtain ⟨rfl, rfl⟩ := Prod.mk.inj (Option.some.inj h)
      exact .mk
    · cases h
  complete ts s rest hn _ h := by
    cases h
    rfl
  starts ts s rest hn h := by
    cases h
    rfl
  shorter ts s rest hn h := by
    cases h
    exact Nat.lt_succ_self _

theorem reads_imports (n : Nat) : Reads n importFirst (fun rest => rest.head?.any importFirst = false) DerivesImports
    (list1 [] importFirst parseImport n) :=
  ((reads_import n).list1 fun _ _ => trivial).ends_mono fun _ hrest => ⟨trivial, Reads.next_nil.mpr hrest⟩

/-- After the types there is a program, or nothing; neither begins a type. -/
theorem programs_ends {programs : List Program} (hn : ts.length ≤ n) (h : Opt DerivesPrograms ts programs []) :
    ts.head?.any defFirst = false ∧ ts.head?.any importFirst = false := by
  cases h with
  | none => exact ⟨rfl, rfl⟩
  | some hprograms =>
    have hstarts := (reads_programs n).starts _ _ _ hn hprograms
    exact ⟨head_disjoint hstarts fun t ht => (program_disjoint t ht).1,
      head_disjoint hstarts fun t ht => (program_disjoint t ht).2⟩

theorem defs_ends {types : List TypeDef} (hn : ts.length ≤ n) (hrest : rest.head?.any importFirst = false)
    (h : DerivesOptdefs ts types rest) : ts.head?.any importFirst = false := by
  cases h with
  | none => exact hrest
  | some hdefs => exact head_disjoint ((reads_defs n).starts _ _ _ hn hdefs) def_disjoint

theorem parse_sound {u : TrlUnit} (h : parse ts = some u) : Derives ts u := by
  unfold parse at h
  split at h
  · rename_i u' hread
    obtain rfl := Option.some.inj h
    obtain ⟨⟨imports, mid⟩, himports, hread⟩ := Option.bind_eq_some_iff.mp hread
    obtain ⟨⟨types, mid'⟩, htypes, hread⟩ := Option.bind_eq_some_iff.mp hread
    obtain ⟨⟨programs, rest⟩, hprograms, hpair⟩ := Option.map_eq_some_iff.mp hread
    obtain ⟨rfl, rfl⟩ := Prod.mk.inj hpair
    have hopt := (reads_imports _).optionally_sound (Nat.le_refl _) himports
    have hmid := (reads_imports _).optionally_shorter (Nat.le_refl _) hopt
    have hopt' := (reads_defs _).optionally_sound hmid htypes
    have hmid' := (reads_defs _).optionally_shorter hmid hopt'
    exact .mk hopt hopt' ((reads_programs _).optionally_sound (Nat.le_trans hmid' hmid) hprograms)
  · cases h

theorem parse_complete {u : TrlUnit} (h : Derives ts u) : parse ts = some u := by
  cases h with
  | @mk _ imports mid types mid' programs _ himports htypes hprograms =>
    have hmid := (reads_imports _).optionally_shorter (Nat.le_refl _) himports
    have hmid' := Nat.le_trans ((reads_defs _).optionally_shorter hmid htypes) hmid
    obtain ⟨hdefs, hends⟩ := programs_ends hmid' hprograms
    have hends' := defs_ends hmid hends htypes
    have hread := (reads_imports _).optionally_complete (Nat.le_refl _) hends' hends' himports
    have hread' := (reads_defs _).optionally_complete hmid hdefs hdefs htypes
    have hread'' := (reads_programs _).optionally_complete hmid' rfl rfl hprograms
    have hall : parseTrlunit ts.length ts = some ({ imports, types, programs }, []) := by
      unfold parseTrlunit parseOptdefs
      rw [hread, Option.bind_some]
      simp only
      rw [hread', Option.bind_some]
      simp only
      rw [hread'', Option.map_some]
    simp only [parse, hall]

theorem parse_eq_some_iff {u : TrlUnit} : parse ts = some u ↔ Derives ts u :=
  ⟨parse_sound, parse_complete⟩

theorem derives_unique {u u' : TrlUnit} (h : Derives ts u) (h' : Derives ts u') : u = u' := by
  have heq := (parse_eq_some_iff.mpr h).symm.trans (parse_eq_some_iff.mpr h')
  exact Option.some.inj heq

/-- The grammar is unambiguous: from no sequence of tokens are two units derived. -/
theorem derives_subsingleton (ts : List Token) : {u | Derives ts u}.Subsingleton :=
  fun _ hu _ hu' => derives_unique hu hu'

end Units

end ServiceManager.Wsrpcgen.Syntax
