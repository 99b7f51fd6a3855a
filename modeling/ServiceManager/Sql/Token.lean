import Mathlib.Tactic.Common

namespace ServiceManager.Sql

/-- The tokens of a statement. -/
inductive Token where
  /-- A keyword or an identifier. -/
  | word (cs : List Char)
  | number (cs : List Char)
  /-- A text in quotes. -/
  | text (cs : List Char)
  | punct (c : Char)
deriving DecidableEq

/-- The token that is being read. -/
inductive Reading where
  | nothing
  | word (cs : List Char)
  | number (cs : List Char)
  | text (cs : List Char)
  /-- A quote was read in a text. It ends the text, unless another follows. -/
  | quote (cs : List Char)

namespace Token

def isSpace (c : Char) : Bool :=
  c = ' ' || c = '\t' || c = '\n' || c = '\r' || c = '\x0c'

def isWord (c : Char) : Bool :=
  c.isAlphanum || c = '_' || c = '$' || decide (128 ≤ c.toNat)

/-- A character between tokens, with the token it is by itself. -/
def start (c : Char) : List Token × Reading :=
  if isSpace c then ([], .nothing)
  else if c = '\'' then ([], .text [])
  else if c.isDigit then ([], .number [c])
  else if isWord c then ([], .word [c])
  else ([.punct c], .nothing)

/-- A character after which the token before it ends. -/
def finish (t : Token) (c : Char) : List Token × Reading :=
  (t :: (start c).1, (start c).2)

def next : Reading → Char → List Token × Reading
  | .nothing, c => start c
  | .word cs, c => if isWord c then ([], .word (cs ++ [c])) else finish (.word cs) c
  | .number cs, c => if c.isDigit then ([], .number (cs ++ [c])) else finish (.number cs) c
  | .text cs, c => if c = '\'' then ([], .quote cs) else ([], .text (cs ++ [c]))
  | .quote cs, c => if c = '\'' then ([], .text (cs ++ [c])) else finish (.text cs) c

/-- The tokens of a statement, from a token that is being read. A text without an end is
taken as the quote that begins it. -/
def tokenize : Reading → List Char → List Token
  | .nothing, [] => []
  | .word cs, [] => [.word cs]
  | .number cs, [] => [.number cs]
  | .text cs, [] => [.punct '\'', .text cs]
  | .quote cs, [] => [.text cs]
  | reading, c :: cs => (next reading c).1 ++ tokenize (next reading c).2 cs

end Token

def tokens (statement : String) : List Token :=
  Token.tokenize .nothing statement.toList

end ServiceManager.Sql
