import Mathlib.Algebra.Group.Nat.Defs
import Mathlib.Algebra.Ring.Int.Defs

namespace ServiceManager

/-- A libucl object. The keys of an object are distinct; its members stand in the
order in which they are iterated. -/
inductive Ucl where
  | null
  | boolean (b : Bool)
  | int (n : Int)
  | float (bits : BitVec 64)
  | string (s : String)
  | array (items : List Ucl)
  | object (members : List (String × Ucl))

namespace Ucl

/-- `ucl_object_tostring`, NULL unless the object is a string. -/
def toString? : Ucl → Option String
  | .string s => some s
  | _ => none

/-- The integer part of a double. Beyond 64 bits it is what the hardware yields. -/
def truncate (bits : BitVec 64) : Int :=
  let exponent := (bits.toNat / 2 ^ 52) % 2 ^ 11
  let mantissa := 2 ^ 52 + bits.toNat % 2 ^ 52
  let magnitude : Nat := if exponent < 1075 then mantissa / 2 ^ (1075 - exponent) else mantissa * 2 ^ (exponent - 1075)
  if 2 ^ 63 ≤ magnitude then -2 ^ 63
  else if bits.msb then -magnitude
  else magnitude

/-- `ucl_object_toint`, 0 unless the object is a number. -/
def toInt : Ucl → Int
  | .int n => n
  | .float bits => truncate bits
  | _ => 0

/-- `ucl_iterate_object` with expansion: the elements with their keys, NULL for
those of an array. What is neither object nor array is its own only element. -/
def iterate (key : Option String) : Ucl → List (Option String × Ucl)
  | .object members => members.map fun m => (some m.1, m.2)
  | .array items => items.map fun item => (none, item)
  | v => [(key, v)]

/-- `ucl_object_lookup`, NULL unless the object is a dictionary with the key. -/
def lookup (key : String) : Ucl → Option Ucl
  | .object members => (members.find? fun m => m.1 = key).map Prod.snd
  | _ => none

end Ucl

/-- What `ucl_object_fromstring` is documented to do with a string. -/
def jsonEscape (s : String) : String :=
  String.ofList (s.toList.flatMap fun c =>
    if c = '\x22' then ['\\', c]
    else if c = '\\' then ['\\', c]
    else if c = '\n' then ['\\', 'n']
    else if c = '\r' then ['\\', 'r']
    else if c = '\t' then ['\\', 't']
    else if c = '\x08' then ['\\', 'b']
    else if c = '\x0c' then ['\\', 'f']
    else [c])

end ServiceManager
