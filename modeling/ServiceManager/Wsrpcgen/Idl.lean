import Mathlib.Data.List.Basic
import ServiceManager.Wsrpcgen.Dispatch

namespace ServiceManager.Wsrpcgen.Idl

/-- An entry of an enumeration. `str` is what its string literal stands for, where there is
one. -/
structure Entry where
  id : String
  str : Option String := none
  iVal : Option Int := none
deriving DecidableEq

/-- What the kinds of type definition have of their own. -/
inductive TypeBody where
  | struct (decls : List Decl)
  | union (enumType : TypeRef) (cases : List (String × List Decl))
  | enum (entries : List Entry)

/-- A type definition with the types that it declares inside itself. -/
inductive TypeDef where
  | mk (name : String) (types : List TypeDef) (body : TypeBody)

namespace TypeDef

def name : TypeDef → String
  | .mk name _ _ => name

def types : TypeDef → List TypeDef
  | .mk _ types _ => types

def body : TypeDef → TypeBody
  | .mk _ _ body => body

/-- Induction over the types inside a type. -/
@[elab_as_elim]
theorem nested_induction {motive : TypeDef → Prop}
    (mk : ∀ name types body, (∀ d ∈ types, motive d) → motive (.mk name types body)) (d : TypeDef) : motive d :=
  @TypeDef.rec motive (fun types => ∀ d ∈ types, motive d) mk (by simp)
    (fun _ _ hd htypes => List.forall_mem_cons.mpr ⟨hd, htypes⟩) d

end TypeDef

structure Program extends Wsrpcgen.Program where
  name : String
  types : List TypeDef

/-- The name of the program with its dots replaced, as part of the names of classes. -/
def Program.className (p : Program) : String :=
  p.name.map fun c => if c = '.' then '_' else c

/-- A file. The units that it imports are read in for it alone. -/
inductive TrlUnit where
  | mk (imports : List TrlUnit) (types : List TypeDef) (programs : List Program)

namespace TrlUnit

def imports : TrlUnit → List TrlUnit
  | .mk imports _ _ => imports

def types : TrlUnit → List TypeDef
  | .mk _ types _ => types

def programs : TrlUnit → List Program
  | .mk _ _ programs => programs

/-- Induction over the units that a unit imports. -/
@[elab_as_elim]
theorem nested_induction {motive : TrlUnit → Prop}
    (mk : ∀ imports types programs, (∀ u ∈ imports, motive u) → motive (.mk imports types programs)) (u : TrlUnit) :
    motive u :=
  @TrlUnit.rec motive (fun imports => ∀ u ∈ imports, motive u) mk (by simp)
    (fun _ _ hu himports => List.forall_mem_cons.mpr ⟨hu, himports⟩) u

end TrlUnit

/-- The way from a scope to one right inside it. -/
inductive Step where
  | imported (i : Nat)
  | program (k : Nat)
  | type (name : String)
deriving DecidableEq

/-- A scope of a unit, by the way that leads to it, the last step first. -/
abbrev Place := List Step

end ServiceManager.Wsrpcgen.Idl
