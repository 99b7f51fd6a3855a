import ServiceManager.Grammar
import ServiceManager.Wsrpcgen.Lexer

namespace ServiceManager.Wsrpcgen.Syntax

/- What the actions of the grammar make. Names are the texts of their tokens. -/

structure TypeRef where
  type : List Byte
  list : Bool := false
  byRef : Bool := false
  svcByRRef : Bool := false
deriving DecidableEq

structure Decl where
  type : TypeRef
  id : List Byte
deriving DecidableEq

structure Method where
  retType : TypeRef
  name : List Byte
  args : List Decl
deriving DecidableEq

/-- `num` is an `unsigned long`. -/
structure Version where
  num : Nat
  name : List Byte
  methods : List Method
deriving DecidableEq

/-- An entry of an enumeration, with its string literal as it is written. -/
structure Entry where
  id : List Byte
  str : Option (List Byte) := none
  iVal : Option Int := none
deriving DecidableEq

inductive TypeBody where
  | struct (decls : List Decl)
  | union (enumType : TypeRef) (cases : List (List Byte × List Decl))
  | enum (entries : List Entry)

inductive TypeDef where
  | mk (name : List Byte) (types : List TypeDef) (body : TypeBody)

structure Program where
  name : List Byte
  types : List TypeDef
  versions : List Version
  num : Nat

/-- A unit with the lines of its imports. -/
structure TrlUnit where
  imports : List (List Byte)
  types : List TypeDef
  programs : List Program

def digitValue (b : Byte) : Nat :=
  if byte '0' ≤ b ∧ b ≤ byte '9' then b.val - (byte '0').val else (lower b).val - (byte 'a').val + 10

def digitsValue (base : Nat) (digits : List Byte) : Nat :=
  digits.foldl (fun n b => n * base + digitValue b) 0

/-- The number that a text stands for before its sign: `strtol` for the texts of the first
rule, `atol` for the others. -/
def magnitude : List Byte → Nat
  | zero :: x :: hex => if lower x = byte 'x' then digitsValue 16 hex else digitsValue 10 (zero :: x :: hex)
  | digits => digitsValue 10 digits

/-- As a `long`, which takes the end of its range for a number that is out of it. -/
def intValue (yytext : List Byte) : Int :=
  let value : Int := if yytext.head? = some (byte '-') then -magnitude yytext.tail else magnitude yytext
  max (-9223372036854775808) (min 9223372036854775807 value)

/-- A `long` as an `unsigned long`. -/
def toUnsigned (i : Int) : Nat :=
  (i % 18446744073709551616).toNat

/-- The type of the cases of a union that names none. -/
def typeEnum (cases : List (List Byte × List Decl)) : TypeDef :=
  .mk (bytes "Type") [] (.enum (cases.map fun cas => { id := cas.1 }))

section Productions

open Grammar

inductive DerivesOptList : Phrase Token Bool
  | none {ts} : DerivesOptList ts false ts
  | list {ts} : DerivesOptList (.LCARET :: .RCARET :: ts) true ts

inductive DerivesBasicType : Phrase Token TypeRef
  | mk {id ts l rest} : DerivesOptList ts l rest → DerivesBasicType (.IDENT id :: ts) { type := id, list := l } rest

inductive DerivesType : Phrase Token TypeRef
  | byref {ts t rest} : DerivesType ts t rest → DerivesType (.BYREF :: ts) { t with byRef := true } rest
  | svcByrref {ts t rest} : DerivesType ts t rest → DerivesType (.SVC_BYRREF :: ts) { t with svcByRRef := true } rest
  | basic {ts t rest} : DerivesBasicType ts t rest → DerivesType ts t rest

inductive DerivesDecl : Phrase Token Decl
  | mk {ts type id rest} : DerivesType ts type (.IDENT id :: rest) → DerivesDecl ts { type, id } rest

def DerivesArgs : Phrase Token (List Decl) :=
  List1 [.COMMA] DerivesDecl

def DerivesOptArgs : Phrase Token (List Decl) :=
  Opt DerivesArgs

def DerivesDeclsSemis : Phrase Token (List Decl) :=
  List1 [] (Before .SEMI DerivesDecl)

inductive DerivesCas : Phrase Token (List Byte × List Decl)
  | mk {id ts decls rest} : DerivesDeclsSemis ts decls rest →
      DerivesCas (.CASE :: .IDENT id :: .COLON :: ts) (id, decls) rest

def DerivesCases : Phrase Token (List (List Byte × List Decl)) :=
  List1 [] DerivesCas

inductive DerivesEnumEntry : Phrase Token Entry
  | id {id rest} : DerivesEnumEntry (.IDENT id :: rest) { id } rest
  | str {id s rest} :
      DerivesEnumEntry (.IDENT id :: .LBRACKET :: .STRLIT s :: .RBRACKET :: rest) { id, str := some s } rest
  | iVal {id i rest} :
      DerivesEnumEntry (.IDENT id :: .EQUALS :: .INTEGER i :: rest) { id, iVal := some (intValue i) } rest
  | strIVal {id s i rest} :
      DerivesEnumEntry (.IDENT id :: .LBRACKET :: .STRLIT s :: .RBRACKET :: .EQUALS :: .INTEGER i :: rest)
        { id, str := some s, iVal := some (intValue i) } rest

def DerivesEnumEntries : Phrase Token (List Entry) :=
  List1 [.COMMA] DerivesEnumEntry

inductive DerivesOptcomma : List Token → List Token → Prop
  | comma {ts} : DerivesOptcomma (.COMMA :: ts) ts
  | none {ts} : DerivesOptcomma ts ts

inductive DerivesDef : Phrase Token TypeDef
  | struct {id ts types mid decls rest} : Opt (List1 [] (Before .SEMI DerivesDef)) ts types mid →
      DerivesDeclsSemis mid decls (.RBRACE :: rest) →
        DerivesDef (.STRUCT :: .IDENT id :: .LBRACE :: ts) (.mk id types (.struct decls)) rest
  | unionOf {id tID ts cases rest} : DerivesCases ts cases (.RBRACE :: rest) →
      DerivesDef (.UNION :: .IDENT id :: .LBRACE :: .TYPE :: .IDENT tID :: .SEMI :: ts)
        (.mk id [] (.union { type := tID } cases)) rest
  | union {id ts cases rest} : DerivesCases ts cases (.RBRACE :: rest) →
      DerivesDef (.UNION :: .IDENT id :: .LBRACE :: ts)
        (.mk id [typeEnum cases] (.union { type := bytes "Type" } cases)) rest
  | enum {id ts entries mid rest} : DerivesEnumEntries ts entries mid → DerivesOptcomma mid (.RBRACE :: rest) →
      DerivesDef (.ENUM :: .IDENT id :: .LBRACE :: ts) (.mk id [] (.enum entries)) rest

def DerivesDefs : Phrase Token (List TypeDef) :=
  List1 [] (Before .SEMI DerivesDef)

def DerivesOptdefs : Phrase Token (List TypeDef) :=
  Opt DerivesDefs

/-- The number of a method is not kept. -/
inductive DerivesOptmethnum : List Token → List Token → Prop
  | none {ts} : DerivesOptmethnum ts ts
  | num {i ts} : DerivesOptmethnum (.EQUALS :: .INTEGER i :: ts) ts

inductive DerivesMethod : Phrase Token Method
  | mk {ts retType name mid args mid' rest} : DerivesType ts retType (.IDENT name :: .LBRACKET :: mid) →
      DerivesOptArgs mid args (.RBRACKET :: mid') → DerivesOptmethnum mid' rest →
      DerivesMethod ts { retType, name, args } rest

def DerivesMethods : Phrase Token (List Method) :=
  List1 [] (Before .SEMI DerivesMethod)

inductive DerivesVersion : Phrase Token Version
  | mk {name ts methods num rest} : DerivesMethods ts methods (.RBRACE :: .EQUALS :: .INTEGER num :: rest) →
      DerivesVersion (.VERSION :: .IDENT name :: .LBRACE :: ts) { num := toUnsigned (intValue num), name, methods } rest

def DerivesVersions : Phrase Token (List Version) :=
  List1 [] (Before .SEMI DerivesVersion)

/-- The token of the number is converted by way of its `double`, which is 0. -/
inductive DerivesProgram : Phrase Token Program
  | mk {name ts types mid versions num rest} : DerivesOptdefs ts types mid →
      DerivesVersions mid versions (.RBRACE :: .EQUALS :: .INTEGER num :: rest) →
        DerivesProgram (.PROGRAM :: .IDENT name :: .LBRACE :: ts) { name, types, versions, num := 0 } rest

def DerivesPrograms : Phrase Token (List Program) :=
  List1 [] (Before .SEMI DerivesProgram)

inductive DerivesImport : Phrase Token (List Byte)
  | mk {s rest} : DerivesImport (.IMPORT s :: rest) s rest

def DerivesImports : Phrase Token (List (List Byte)) :=
  List1 [] DerivesImport

inductive DerivesTrlunit : Phrase Token TrlUnit
  | mk {ts imports mid types mid' programs rest} : Opt DerivesImports ts imports mid → DerivesOptdefs mid types mid' →
      Opt DerivesPrograms mid' programs rest → DerivesTrlunit ts { imports, types, programs } rest

/-- The file is derived as a whole. -/
def Derives (ts : List Token) (u : TrlUnit) : Prop :=
  DerivesTrlunit ts u []

end Productions

end ServiceManager.Wsrpcgen.Syntax
