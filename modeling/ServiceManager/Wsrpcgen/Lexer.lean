import Mathlib.Data.List.FinRange
import Mathlib.Data.List.TakeWhile
import ServiceManager.Scanner

namespace ServiceManager.Wsrpcgen

/-- A byte of a file. -/
abbrev Byte := Fin 256

def byte (c : Char) : Byte :=
  Fin.ofNat 256 c.toNat

def bytes (s : String) : List Byte :=
  s.toList.map byte

/-- Letters are matched in either case. -/
def lower (b : Byte) : Byte :=
  if byte 'A' ≤ b ∧ b ≤ byte 'Z' then b + 32 else b

section Patterns

open Regex

def one (c : Char) : Regex Byte :=
  symbol fun b => lower b = lower (byte c)

def range (lo hi : Byte) : Regex Byte :=
  symbol fun b => lo ≤ b && b ≤ hi

/-- The text between double quotes. -/
def text (s : String) : Regex Byte :=
  (s.toList.map one).foldr seq empty

def plus (r : Regex Byte) : Regex Byte :=
  seq r (star r)

def opt (r : Regex Byte) : Regex Byte :=
  alt r empty

/-- All but the end of a line. -/
def dot : Regex Byte :=
  symbol fun b => b ≠ byte '\n'

def blank : Regex Byte :=
  symbol fun b => b ∈ bytes " \t\n"

def DIGIT : Regex Byte :=
  range (byte '0') (byte '9')

def hexDigit : Regex Byte :=
  alt DIGIT (symbol fun b => byte 'a' ≤ lower b && lower b ≤ byte 'f')

/-- Of the bytes from `\xC0` on, each may begin a character of several bytes. -/
def LTR : Regex Byte :=
  alt (symbol fun b => (byte 'a' ≤ lower b && lower b ≤ byte 'z') || b = byte '_' ||
      b ∈ [0xA8, 0xAA, 0xAD, 0xAF, 0xB2, 0xB5, 0xB7, 0xB8, 0xB9, 0xBA, 0xBC, 0xBD, 0xBE])
    (alt (seq (range 0xC0 0xFF) (star (range 0x80 0xBF)))
      (seq (one '\\') (seq (one 'u') (seq hexDigit (seq hexDigit (seq hexDigit hexDigit))))))

/-- What comes after the first letter of an identifier. -/
def part (letter : Regex Byte) : Regex Byte :=
  alt letter (alt DIGIT (alt (one '.') (text "::")))

def ident (letter : Regex Byte) : Regex Byte :=
  seq letter (star (part letter))

/-- A letter of an identifier may have a colon before it. -/
def IDENT : Regex Byte :=
  ident (seq (opt (one ':')) LTR)

end Patterns

/-- What the parser is sent. A number stands for itself by its text, and so does the line of
an import. -/
inductive Token where
  | IMPORT (yytext : List Byte)
  | PROGRAM | VERSION | BYREF | SVC_BYRREF | STRUCT | ENUM | UNION | CASE | TYPE
  | INTEGER (yytext : List Byte)
  | IDENT (yytext : List Byte)
  | STRLIT (yytext : List Byte)
  | COLON | SEMI | LBRACE | RBRACE | LBRACKET | RBRACKET | COMMA | EQUALS | LCARET | RCARET
deriving DecidableEq

inductive Start where
  | INITIAL
  | C_COMMENT
deriving DecidableEq

inductive Action where
  /-- The parser is sent nothing. A line of code is kept for the output. -/
  | skip
  | begin (start : Start)
  /-- `p` -/
  | send (ts : List Token)
  /-- `ps`, `pi` and `ph`, with the text -/
  | import
  | integer
  | ident
  | strlit
deriving DecidableEq

def Action.tokens (yytext : List Byte) : Action → List Token
  | skip => []
  | begin _ => []
  | send ts => ts
  | Action.import => [.IMPORT yytext]
  | integer => [.INTEGER yytext]
  | ident => [.IDENT yytext]
  | strlit => [.STRLIT yytext]

def Action.next : Action → Start → Start
  | begin start, _ => start
  | _, start => start

section Rules

open Regex

def rule (pattern : Regex Byte) (action : Action) : Scanner.Rule Byte Start Action :=
  { start := .INITIAL, bol := false, pattern, action }

def keywords : List (String × Token) :=
  [("program", .PROGRAM), ("version", .VERSION), ("byref", .BYREF), ("svc_byrref", .SVC_BYRREF), ("struct", .STRUCT),
    ("enum", .ENUM), ("union", .UNION), ("case", .CASE), ("type", .TYPE)]

def keyword (k : String × Token) : Scanner.Rule Byte Start Action :=
  rule (text k.1) (.send [k.2])

def rulesBefore : List (Scanner.Rule Byte Start Action) :=
  [{ rule (seq (text "%") (star dot)) .skip with bol := true },
    rule (seq (text "//") (star dot)) .skip,
    { rule (seq (text "#import ") (star dot)) .import with bol := true }]

def numbers : List (Scanner.Rule Byte Start Action) :=
  [rule (seq (opt (one '-')) (seq (one '0') (seq (one 'x') (plus hexDigit)))) .integer,
    rule (seq (one '-') (plus DIGIT)) .integer,
    rule (plus DIGIT) .integer]

/-- A string, with `L` before it or without. -/
def STRLIT : Regex Byte :=
  seq (opt (one 'L')) (seq (one '"')
    (seq (star (alt (seq (one '\\') dot) (symbol fun b => b ≠ byte '\\' && b ≠ byte '"')))
    (one '"')))

def punctuation : List (Scanner.Rule Byte Start Action) :=
  [rule (text ":") (.send [.COLON]),
    rule (text ";") (.send [.SEMI]),
    rule (text "\x7b") (.send [.LBRACE]),
    rule (text "\x7d") (.send [.RBRACE]),
    rule (text "\x7d;") (.send [.RBRACE, .SEMI]),
    rule (text "(") (.send [.LBRACKET]),
    rule (text ")") (.send [.RBRACKET]),
    rule (text ",") (.send [.COMMA]),
    rule (text "=") (.send [.EQUALS]),
    rule (text "<") (.send [.LCARET]),
    rule (text ">") (.send [.RCARET]),
    rule (text "/*") (.begin .C_COMMENT),
    { rule (text "*/") (.begin .INITIAL) with start := .C_COMMENT },
    { rule (text "\n") .skip with start := .C_COMMENT },
    { rule dot .skip with start := .C_COMMENT },
    rule blank .skip]

/-- The rules in their order, with the pattern of identifiers. -/
def rules (identifier : Regex Byte) : List (Scanner.Rule Byte Start Action) :=
  rulesBefore ++ keywords.map keyword ++ numbers ++ [rule identifier .ident] ++ [rule STRLIT .strlit] ++ punctuation

end Rules

def scanner (identifier : Regex Byte) : Scanner Byte Start Action :=
  { rules := rules identifier, begin := Action.next, newline := byte '\n' }

/-- The lexemes of a file. -/
def lexemes (identifier : Regex Byte) (source : List Byte) : List (Scanner.Lexeme Byte Action) :=
  (scanner identifier).scan .INITIAL true source

/-- What is not matched by any rule is printed. -/
def emitted (ls : List (Scanner.Lexeme Byte Action)) : List Token :=
  ls.flatMap fun l => l.action.elim [] fun action => action.tokens l.text

def tokens (source : List Byte) : List Token :=
  emitted (lexemes IDENT source)

/-- The character that ends a string. -/
def nul : Byte :=
  byte '\x00'

/-- The text as a string that ends at the first NUL, which is what the scanner gets. -/
def c_str (s : List Byte) : List Byte :=
  s.takeWhile (· ≠ nul)

theorem nul_not_mem_c_str (s : List Byte) : nul ∉ c_str s := by
  intro hmem
  have hne := List.mem_takeWhile_imp hmem
  simp at hne

/-- The action of an import drops nine bytes of its line and then the last one, and does not return
where there are none. -/
def Token.complete : Token → Bool
  | IMPORT yytext => 10 ≤ yytext.length
  | _ => true

/-- What the parser is sent of a file, where all actions of the scanner return. -/
def sent (source : List Byte) : Option (List Token) :=
  (some (tokens (c_str source))).filter fun ts => ts.all Token.complete

end ServiceManager.Wsrpcgen
