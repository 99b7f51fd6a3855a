import Mathlib.Data.List.Forall2
import Mathlib.Data.List.TakeWhile
import ServiceManager.Wsrpcgen.Client

namespace ServiceManager.Wsrpcgen

open Wsrpc

/-- A value of a type that a struct can have as a member. -/
inductive Value where
  | bool (b : Bool)
  | int (n : Int32)
  | string (s : String)
  | enum (entry : Nat)
  | struct (members : List (String × Cell Value))

/-- An enumeration, whose functions are taken to be inverse. -/
structure EnumDef where
  entries : Nat
  serialise : Nat → Ucl
  deserialise : Ucl → Option Nat
  inverse : ∀ entry < entries, deserialise (serialise entry) = some entry

inductive TypeBody where
  | enum (e : EnumDef)
  | struct (decls : List Decl)

/-- A definition, with the prefixes of the scopes that it stands in, from the inside out. -/
structure TypeDef where
  parents : List String
  name : String
  body : TypeBody

namespace TypeDef

variable (d : TypeDef)

def fullyQualifiedPrefix : String :=
  d.parents.headD "" ++ d.name ++ "::"

/-- The scopes in which the definition's functions look for a name. -/
def scopes : List String :=
  d.fullyQualifiedPrefix :: d.parents

end TypeDef

/-- The definitions of an IDL file, the nested ones included. -/
structure TrlUnit where
  types : List TypeDef

namespace TrlUnit

variable (u : TrlUnit)

def find (scope : String) : Option TypeDef :=
  u.types.find? fun d => d.fullyQualifiedPrefix = scope

/-- The definition whose function the name `fn` means inside the given scopes. -/
def resolve (scopes : List String) (suffix fn : String) : Option TypeDef :=
  scopes.findSome? fun scope => u.types.find? fun d => d.fullyQualifiedPrefix ++ suffix = scope ++ fn

end TrlUnit

/-- `std::string::c_str`, as it is read up to its first NUL. -/
def cStr (s : String) : String :=
  String.ofList (s.toList.takeWhile (· ≠ '\x00'))

section Builtin

-- The text that `ucl_object_fromstring` makes of a C string.
variable (fromString : String → String)

def wsRPCSerialisebool (b : Bool) : Ucl :=
  .boolean b

def wsRPCSerialiseint (n : Int32) : Ucl :=
  .int n.toInt

def wsRPCSerialisestring (s : String) : Ucl :=
  .string (fromString (cStr s))

def wsRPCDeserialisebool : Ucl → Option Bool
  | .boolean b => some b
  | _ => none

def wsRPCDeserialiseint : Ucl → Option Int32
  | .int n => some (Int32.ofInt n)
  | _ => none

def wsRPCDeserialisestring : Ucl → Option String
  | .string s => some s
  | _ => none

def serialiseBuiltin (fn : String) (v : Value) : Option Ucl :=
  match fn, v with
  | "wsRPCSerialisebool", .bool b => some (wsRPCSerialisebool b)
  | "wsRPCSerialiseint", .int n => some (wsRPCSerialiseint n)
  | "wsRPCSerialisestring", .string s => some (wsRPCSerialisestring fromString s)
  | _, _ => none

def deserialiseBuiltin (fn : String) (obj : Ucl) : Option Value :=
  match fn with
  | "wsRPCDeserialisebool" => (wsRPCDeserialisebool obj).map .bool
  | "wsRPCDeserialiseint" => (wsRPCDeserialiseint obj).map .int
  | "wsRPCDeserialisestring" => (wsRPCDeserialisestring obj).map .string
  | _ => none

end Builtin

section Struct

variable (link : Linked Value)

/-- The members of a struct are variables of its functions. -/
def serialiseStruct (decls : List Decl) (members : List (String × Cell Value)) : Ucl :=
  .object ((genSerialiseDecls decls).foldl (CallStmt.exec link)
    { vars := fun name => (members.find? fun m => m.1 = name).map Prod.snd }).params

/-- The members are deserialised in turn, and the flag is tested after each. -/
def deserialiseMembers (obj : Ucl) : Bool → List Decl → Option (List (String × Cell Value))
  | _, [] => some []
  | suc, decl :: decls =>
    let (suc, member) := decl.type.deserialiseInto link suc decl.type.fresh ((obj.lookup decl.id).getD .null)
    if suc then (deserialiseMembers obj suc decls).map ((decl.id, member) :: ·) else none

/-- All members are looked up before any is deserialised. -/
def deserialiseStruct (decls : List Decl) (obj : Ucl) : Option (List (String × Cell Value)) :=
  match obj with
  | .object _ =>
    if decls.all fun decl => (obj.lookup decl.id).isSome then deserialiseMembers link obj true decls else none
  | _ => none

/-- The generated `serialise` of a definition. -/
def TypeDef.serialise (d : TypeDef) (v : Value) : Ucl :=
  match d.body, v with
  | .enum e, .enum entry => e.serialise entry
  | .struct decls, .struct members => serialiseStruct link decls members
  | _, _ => .null

/-- The generated `deserialise` of a definition, into a target that was just made. -/
def TypeDef.deserialise (d : TypeDef) (obj : Ucl) : Option Value :=
  match d.body with
  | .enum e => (e.deserialise obj).map .enum
  | .struct decls => (deserialiseStruct link decls obj).map .struct

end Struct

/-- The functions that code inside the given scopes can call, which themselves call
others to the given depth. -/
def TrlUnit.linked (u : TrlUnit) (fromString : String → String) : Nat → List String → Linked Value
  | 0, _ =>
    { deserialise := fun _ _ => none
      serialise := fun _ _ => .null
      impl := fun _ req => { succeeded := false, rval := .unset, req } }
  | depth + 1, scopes =>
    { deserialise := fun fn obj =>
        match u.resolve scopes "deserialise" fn with
        | some d => d.deserialise (u.linked fromString depth d.scopes) obj
        | none => deserialiseBuiltin fn obj
      serialise := fun fn v =>
        match u.resolve scopes "serialise" fn with
        | some d => d.serialise (u.linked fromString depth d.scopes) v
        | none => (serialiseBuiltin fromString fn v).getD .null
      impl := fun _ req => { succeeded := false, rval := .unset, req } }

/-- Each name is declared once in the bodies of the struct's functions, and none of
`serialise` hides a member. -/
structure StructScoped (decls : List Decl) : Prop where
  serialise : ("out" :: (decls.map Decl.id ++ decls.map fun decl => "u" ++ decl.id)).Nodup
  deserialise : (["obj", "out", "suc"] ++ (decls.map (fun decl => "u" ++ decl.id) ++
    decls.flatMap fun decl => if decl.type.list then ["it", "uEl"] else [])).Nodup

/-- The names of a type's functions mean those of its definition. -/
structure Resolves (u : TrlUnit) (scopes : List String) (t : TypeRef) : Prop where
  serialiser : ∀ scope, t.scope = some scope → u.resolve scopes "serialise" t.serialiser = u.find scope
  deserialiser : ∀ scope, t.scope = some scope → u.resolve scopes "deserialise" t.deserialiser = u.find scope
  each : ∀ scope, t.scope = some scope → t.list = true →
    u.resolve scopes "deserialise" t.eachDeserialiser = u.find scope

/-- The generated code is well-scoped: the names in it are declared once, and those of
functions mean what the generator took them for. -/
structure TrlUnit.WellScoped (u : TrlUnit) : Prop where
  structs : ∀ d ∈ u.types, ∀ decls, d.body = .struct decls → StructScoped decls
  resolves : ∀ d ∈ u.types, ∀ decls, d.body = .struct decls → ∀ decl ∈ decls, Resolves u d.scopes decl.type

section Typing

variable (u : TrlUnit)

/-- The value is one of the type, an element if that is the type of a list. -/
def TypeRef.Has (has : TypeDef → Value → Prop) (t : TypeRef) (v : Value) : Prop :=
  match t.scope with
  | some scope => ∃ d, u.find scope = some d ∧ has d v
  | none =>
    match v with
    | .bool _ => t.type = "bool"
    | .int _ => t.type = "int"
    | .string s => t.type = "string" ∧ '\x00' ∉ s.toList
    | _ => False

/-- The cell holds a value of the type. -/
def TypeRef.Holds (has : TypeDef → Value → Prop) (t : TypeRef) : Cell Value → Prop
  | .value v => t.list = false ∧ t.Has u has v
  | .values vs => t.list = true ∧ ∀ v ∈ vs, t.Has u has v
  | _ => False

/-- The value is one of the definition, and its structs are nested at most to the given
depth. -/
def TypeDef.Has : Nat → TypeDef → Value → Prop
  | 0, _, _ => False
  | depth + 1, d, v =>
    match d.body, v with
    | .enum e, .enum entry => entry < e.entries
    | .struct decls, .struct members =>
      List.Forall₂ (fun decl m => m.1 = decl.id ∧ decl.type.Holds u (TypeDef.Has depth) m.2) decls members
    | _, _ => False

end Typing

/-- A string that the value holds, at any depth. -/
inductive Value.Contains (s : String) : Value → Prop
  | string : Contains s (.string s)
  | member {members id v} : (id, .value v) ∈ members → Contains s v → Contains s (.struct members)
  | element {members id vs v} : (id, .values vs) ∈ members → v ∈ vs → Contains s v → Contains s (.struct members)

/-- The value comes back from its encoder through its decoder, once these may call each
other deep enough. -/
def RoundTrips (u : TrlUnit) (fromString : String → String) (d : TypeDef) (v : Value) : Prop :=
  ∃ depth, ∀ k ≥ depth, d.deserialise (u.linked fromString k d.scopes)
    (d.serialise (u.linked fromString k d.scopes) v) =
    some v

section Comes

variable {α β : Type} {R : α → β → Prop}

theorem exists_pairs {xs : List α} (h : ∀ x ∈ xs, ∃ y, R x y) :
    ∃ ps : List (α × β), ps.map Prod.fst = xs ∧ ∀ p ∈ ps, R p.1 p.2 := by
  induction xs with
  | nil => exact ⟨[], rfl, by simp⟩
  | cons x xs ih =>
    obtain ⟨⟨y, hy⟩, hxs⟩ := List.forall_mem_cons.mp h
    obtain ⟨ps, rfl, hps⟩ := ih hxs
    exact ⟨(x, y) :: ps, rfl, List.forall_mem_cons.mpr ⟨hy, hps⟩⟩

end Comes

section Cells

variable {link : Linked Value} {t : TypeRef}

/-- What a cell comes back as from its encoder through its decoder. -/
def TypeRef.Comes (link : Linked Value) (t : TypeRef) : Cell Value → Cell Value → Prop
  | .value v, .value v' => t.list = false ∧ link.deserialise t.deserialiser (link.serialise t.serialiser v) = some v'
  | .values vs, .values vs' => t.list = true ∧ ∃ ps : List (Value × Value), ps.map Prod.fst = vs ∧
      ps.map Prod.snd = vs' ∧
      ∀ p ∈ ps, link.deserialise t.eachDeserialiser (link.serialise t.serialiser p.1) = some p.2
  | _, _ => False

theorem deserialiseAll_comes {ps : List (Value × Value)}
    (h : ∀ p ∈ ps, link.deserialise t.eachDeserialiser (link.serialise t.serialiser p.1) = some p.2) :
    deserialiseAll link t.eachDeserialiser (ps.map fun p => link.serialise t.serialiser p.1) =
      (ps.map Prod.snd, true) := by
  induction ps with
  | nil => rfl
  | cons p ps ih =>
    obtain ⟨hp, hps⟩ := List.forall_mem_cons.mp h
    simp [deserialiseAll, hp, ih hps]

theorem TypeRef.Comes.filled {x x' : Cell Value} (h : t.Comes link x x') : x.Filled := by
  cases x with
  | value v => trivial
  | values vs => trivial
  | unset | obj | flag => exact h.elim

/-- The code for a member, with the flag up and a target that was just made. -/
theorem deserialiseInto_comes {decl : Decl} {x x' : Cell Value} (h : decl.type.Comes link x x') :
    decl.type.deserialiseInto link true decl.type.fresh (encoded link (decl, x)) = (true, x') := by
  cases x with
  | value v =>
    cases x' with
    | value v' => simp [TypeRef.deserialiseInto, h.1, encoded, serialiseCell, h.2]
    | values | unset | obj | flag => exact h.elim
  | values vs =>
    cases x' with
    | values vs' =>
      obtain ⟨hlist, ps, rfl, rfl, hps⟩ := h
      have hitems : ((encoded link (decl, .values (ps.map Prod.fst))).iterate none).map Prod.snd =
          ps.map fun p => link.serialise decl.type.serialiser p.1 := by
        simp [encoded, serialiseCell, Ucl.iterate]
      simp [TypeRef.deserialiseInto, TypeRef.fresh, hlist, hitems, deserialiseAll_comes hps]
    | value | unset | obj | flag => exact h.elim
  | unset | obj | flag => exact h.elim

end Cells

/-- A member with what it comes back as. -/
structure Passage where
  decl : Decl
  before : Cell Value
  after : Cell Value

section Members

variable {link : Linked Value} {cs : List Passage}

theorem deserialiseMembers_comes {obj : Ucl} {cs : List Passage}
    (hlookup : ∀ c ∈ cs, obj.lookup c.decl.id = some (encoded link (c.decl, c.before)))
    (h : ∀ c ∈ cs, c.decl.type.Comes link c.before c.after) :
    deserialiseMembers link obj true (cs.map Passage.decl) = some (cs.map fun c => (c.decl.id, c.after)) := by
  induction cs with
  | nil => rfl
  | cons c cs ih =>
    obtain ⟨hlookup₁, hlookup⟩ := List.forall_mem_cons.mp hlookup
    obtain ⟨h₁, h⟩ := List.forall_mem_cons.mp h
    simp [deserialiseMembers, hlookup₁, deserialiseInto_comes h₁, ih hlookup h]

/-- The object that is made of a struct has a member for each of its own. -/
theorem serialiseStruct_eq {avs : List (Decl × Cell Value)} (hscoped : StructScoped (avs.map Prod.fst))
    (hfilled : ∀ av ∈ avs, av.2.Filled) :
    serialiseStruct link (avs.map Prod.fst) (avs.map fun av => (av.1.id, av.2)) =
      .object (avs.map fun av => (av.1.id, encoded link av)) := by
  obtain ⟨_, hnames⟩ := List.nodup_cons.mp hscoped.serialise
  obtain ⟨hids, huids, hapart⟩ := List.nodup_append.mp hnames
  rw [List.map_map] at hids huids
  have hvars : ∀ av ∈ avs, ((avs.map fun av => (av.1.id, av.2)).find? fun m => m.1 = av.1.id).map Prod.snd =
      some av.2 :=
    fun av hav => find?_map_of_nodup Prod.snd hids hav
  have hapart' : ∀ av ∈ avs, ∀ av' ∈ avs, av.1.id ≠ "u" ++ av'.1.id := by
    intro av hav av' hav'
    exact hapart _ (List.mem_map.mpr ⟨av.1, List.mem_map_of_mem hav, rfl⟩) _
      (List.mem_map.mpr ⟨av'.1, List.mem_map_of_mem hav', rfl⟩)
  rw [serialiseStruct, exec_genSerialiseDecls link rfl hvars hfilled huids hapart']

/-- A struct comes back with each of its members as that comes back. -/
theorem deserialiseStruct_serialiseStruct (hscoped : StructScoped (cs.map Passage.decl))
    (h : ∀ c ∈ cs, c.decl.type.Comes link c.before c.after) :
    deserialiseStruct link (cs.map Passage.decl)
        (serialiseStruct link (cs.map Passage.decl) (cs.map fun c => (c.decl.id, c.before))) =
      some (cs.map fun c => (c.decl.id, c.after)) := by
  let avs := cs.map fun c => (c.decl, c.before)
  have hdecls : cs.map Passage.decl = avs.map Prod.fst := by simp [avs]
  have hmembers : (cs.map fun c => (c.decl.id, c.before)) = avs.map fun av => (av.1.id, av.2) := by simp [avs]
  have hids : (avs.map fun av => av.1.id).Nodup := by
    have hnodup := (List.nodup_append.mp (List.nodup_cons.mp hscoped.serialise).2).1
    rw [hdecls, List.map_map] at hnodup
    exact hnodup
  have hfilled : ∀ av ∈ avs, av.2.Filled := by
    intro av hav
    obtain ⟨c, hc, rfl⟩ := List.mem_map.mp hav
    exact (h c hc).filled
  have hobject : serialiseStruct link (cs.map Passage.decl) (cs.map fun c => (c.decl.id, c.before)) =
      .object (avs.map fun av => (av.1.id, encoded link av)) := by
    rw [hdecls] at hscoped ⊢
    rw [hmembers, serialiseStruct_eq hscoped hfilled]
  have hlookup : ∀ c ∈ cs, (Ucl.object (avs.map fun av => (av.1.id, encoded link av))).lookup c.decl.id =
      some (encoded link (c.decl, c.before)) :=
    fun c hc => find?_map_of_nodup (encoded link) hids (List.mem_map.mpr ⟨c, hc, rfl⟩)
  have hall : (cs.map Passage.decl).all (fun decl =>
      ((Ucl.object (avs.map fun av => (av.1.id, encoded link av))).lookup decl.id).isSome) = true := by
    rw [List.all_map, List.all_eq_true]
    intro c hc
    simp [hlookup c hc]
  rw [hobject, deserialiseStruct, if_pos hall, deserialiseMembers_comes hlookup h]

end Members

section Kept

variable (fromString : String → String)

/-- The library keeps each string of the value as it is. -/
def Value.Kept (v : Value) : Prop :=
  ∀ s, v.Contains s → fromString s = s

def Cell.Kept : Cell Value → Prop
  | .value v => v.Kept fromString
  | .values vs => ∀ v ∈ vs, v.Kept fromString
  | _ => True

variable {fromString}

theorem kept_string {s : String} : (Value.string s).Kept fromString ↔ fromString s = s := by
  constructor
  · intro h
    exact h s .string
  · intro h s' hs'
    cases hs'
    exact h

theorem kept_struct {members : List (String × Cell Value)} :
    (Value.struct members).Kept fromString ↔ ∀ m ∈ members, m.2.Kept fromString := by
  constructor
  · rintro h ⟨id, x⟩ hm
    cases x with
    | value v => exact fun s hs => h s (.member hm hs)
    | values vs => exact fun v hv s hs => h s (.element hm hv hs)
    | unset | obj | flag => trivial
  · intro h s hs
    cases hs with
    | member hm hs => exact h _ hm s hs
    | element hm hv hs => exact h _ hm _ hv s hs

theorem kept_of_atom {v : Value} (hstring : ∀ s, v ≠ .string s) (hstruct : ∀ members, v ≠ .struct members) :
    v.Kept fromString := by
  intro s hs
  cases hs with
  | string => exact absurd rfl (hstring s)
  | member => exact absurd rfl (hstruct _)
  | element => exact absurd rfl (hstruct _)

end Kept

section Builtin

variable {u : TrlUnit} {fromString : String → String}

/-- The names of generated functions end in `e`, those of builtin ones do not. -/
theorem resolve_builtin (scopes : List String) (suffix : String) {fn : String} {c c' : Char}
    (hsuffix : suffix.toList.getLast? = some c) (hfn : fn.toList.getLast? = some c') (hne : c ≠ c') :
    u.resolve scopes suffix fn = none := by
  rw [TrlUnit.resolve, List.findSome?_eq_none_iff]
  intro scope _
  rw [List.find?_eq_none]
  intro d _ heq
  have hlast := congrArg (fun s => s.toList.getLast?) (of_decide_eq_true heq)
  simp only [String.toList_append, List.getLast?_append, hsuffix, hfn] at hlast
  exact hne (by simpa using hlast)

theorem cStr_eq_self {s : String} (h : '\x00' ∉ s.toList) : cStr s = s := by
  have htake : s.toList.takeWhile (· ≠ '\x00') = s.toList := by
    rw [List.takeWhile_eq_self_iff]
    intro c hc
    simpa using fun heq : c = '\x00' => h (heq ▸ hc)
  rw [cStr, htake, String.ofList_toList]

section Names

variable {fn : String} {c : Char} (hfn : fn.toList.getLast? = some c) (hne : 'e' ≠ c) (k : Nat) (scopes : List String)

include hfn hne

theorem linked_deserialise_builtin (obj : Ucl) :
    (u.linked fromString (k + 1) scopes).deserialise fn obj = deserialiseBuiltin fn obj := by
  simp only [TrlUnit.linked, resolve_builtin scopes "deserialise" (by decide) hfn hne]

theorem linked_serialise_builtin (v : Value) :
    (u.linked fromString (k + 1) scopes).serialise fn v = (serialiseBuiltin fromString fn v).getD .null := by
  simp only [TrlUnit.linked, resolve_builtin scopes "serialise" (by decide) hfn hne]

end Names

theorem canonicalName_eq_self {t : TypeRef} (h : ':' ∉ t.type.toList) : t.canonicalName = t.type := by
  have hmap : t.type.toList.map (fun c => if c = ':' then '_' else c) = t.type.toList.map id :=
    List.map_congr_left fun c hc => if_neg fun heq : c = ':' => h (heq ▸ hc)
  rw [← String.toList_inj, TypeRef.canonicalName, String.toList_map, hmap, List.map_id]

theorem builtin_names (type : String) (list : Bool) (h : ':' ∉ type.toList) :
    (TypeRef.mk type list none).serialiser = "wsRPCSerialise" ++ type ∧
      (TypeRef.mk type list none).deserialiser = "wsRPCDeserialise" ++ type := by
  have hname : (TypeRef.mk type list none).canonicalName = type := canonicalName_eq_self h
  exact ⟨congrArg ("wsRPCSerialise" ++ ·) hname, congrArg ("wsRPCDeserialise" ++ ·) hname⟩

/-- A value of a builtin type comes back as it is, but for what the library makes of a
string. -/
theorem builtin_comes (fromString : String → String) {t : TypeRef} {v : Value} {has : TypeDef → Value → Prop}
    (hscope : t.scope = none)
    (hv : t.Has u has v) (scopes : List String) :
    ∃ v', (v' = v ↔ v.Kept fromString) ∧ ∀ k, (u.linked fromString (k + 1) scopes).deserialise t.deserialiser
      ((u.linked fromString (k + 1) scopes).serialise t.serialiser v) = some v' := by
  obtain ⟨type, list, scope⟩ := t
  obtain rfl : scope = none := hscope
  cases v with
  | bool b =>
    obtain rfl : type = "bool" := hv
    obtain ⟨hser, hdeser⟩ := builtin_names "bool" list (by decide)
    refine ⟨.bool b, iff_of_true rfl (kept_of_atom (by simp) (by simp)), fun k => ?_⟩
    rw [hser, hdeser, linked_serialise_builtin (c := 'l') (by decide) (by decide),
      linked_deserialise_builtin (c := 'l') (by decide) (by decide)]
    rfl
  | int n =>
    obtain rfl : type = "int" := hv
    obtain ⟨hser, hdeser⟩ := builtin_names "int" list (by decide)
    refine ⟨.int n, iff_of_true rfl (kept_of_atom (by simp) (by simp)), fun k => ?_⟩
    rw [hser, hdeser, linked_serialise_builtin (c := 't') (by decide) (by decide),
      linked_deserialise_builtin (c := 't') (by decide) (by decide)]
    change some (Value.int (Int32.ofInt n.toInt)) = some (.int n)
    rw [Int32.ofInt_toInt]
  | string s =>
    obtain ⟨rfl, hnul⟩ : type = "string" ∧ '\x00' ∉ s.toList := hv
    obtain ⟨hser, hdeser⟩ := builtin_names "string" list (by decide)
    refine ⟨.string (fromString s), by simp [kept_string], fun k => ?_⟩
    rw [hser, hdeser, linked_serialise_builtin (c := 'g') (by decide) (by decide),
      linked_deserialise_builtin (c := 'g') (by decide) (by decide)]
    change some (Value.string (fromString (cStr s))) = some (.string (fromString s))
    rw [cStr_eq_self hnul]
  | enum | struct => exact hv.elim

end Builtin

section Definitions

variable {u : TrlUnit} {fromString : String → String}

/-- What a value of a definition comes back as, however deep its functions may call each
other beyond the given depth. -/
def ComesAt (u : TrlUnit) (fromString : String → String) (depth : Nat) (d : TypeDef) (v v' : Value) : Prop :=
  (v' = v ↔ v.Kept fromString) ∧ ∀ k ≥ depth,
    d.deserialise (u.linked fromString k d.scopes) (d.serialise (u.linked fromString k d.scopes) v) = some v'

variable {depth : Nat} {scopes : List String} {t : TypeRef}

theorem find_mem {scope : String} {d : TypeDef} (h : u.find scope = some d) : d ∈ u.types :=
  List.mem_of_find?_eq_some h

section Value

variable (hresolves : Resolves u scopes t)
  (ih : ∀ d ∈ u.types, ∀ v, d.Has u depth v → ∃ v', ComesAt u fromString depth d v v')

include hresolves ih

/-- A value comes back, as it was if the library keeps its strings. -/
theorem value_comes {v : Value} (hv : t.Has u (TypeDef.Has u depth) v) :
    ∃ v', (v' = v ↔ v.Kept fromString) ∧ ∀ k ≥ depth,
      (u.linked fromString (k + 1) scopes).deserialise t.deserialiser
          ((u.linked fromString (k + 1) scopes).serialise t.serialiser v) = some v' ∧
        (t.list = true → (u.linked fromString (k + 1) scopes).deserialise t.eachDeserialiser
          ((u.linked fromString (k + 1) scopes).serialise t.serialiser v) = some v') := by
  cases hscope : t.scope with
  | none =>
    obtain ⟨v', hkept, hcomes⟩ := builtin_comes fromString hscope hv scopes
    have heach : t.eachDeserialiser = t.deserialiser := by simp [TypeRef.eachDeserialiser, hscope]
    exact ⟨v', hkept, fun k _ => ⟨hcomes k, fun _ => by rw [heach]; exact hcomes k⟩⟩
  | some scope =>
    have hfound : ∃ d, u.find scope = some d ∧ d.Has u depth v := by simpa only [TypeRef.Has, hscope] using hv
    obtain ⟨d, hfind, hd⟩ := hfound
    obtain ⟨v', hkept, hcomes⟩ := ih d (find_mem hfind) v hd
    have hser := (hresolves.serialiser scope hscope).trans hfind
    have hdeser := (hresolves.deserialiser scope hscope).trans hfind
    refine ⟨v', hkept, fun k hk => ⟨?_, fun hlist => ?_⟩⟩
    · simp only [TrlUnit.linked, hser, hdeser]
      exact hcomes k hk
    · have heach := (hresolves.each scope hscope hlist).trans hfind
      simp only [TrlUnit.linked, hser, heach]
      exact hcomes k hk

theorem cell_comes {x : Cell Value} (hx : t.Holds u (TypeDef.Has u depth) x) :
    ∃ x', (x' = x ↔ x.Kept fromString) ∧ ∀ k ≥ depth, t.Comes (u.linked fromString (k + 1) scopes) x x' := by
  cases x with
  | value v =>
    obtain ⟨hlist, hv⟩ := hx
    obtain ⟨v', hkept, hcomes⟩ := value_comes hresolves ih hv
    exact ⟨.value v', by simpa [Cell.Kept] using hkept, fun k hk => ⟨hlist, (hcomes k hk).1⟩⟩
  | values vs =>
    obtain ⟨hlist, hvs⟩ := hx
    obtain ⟨ps, rfl, hps⟩ := exists_pairs fun v hv => value_comes hresolves ih (hvs v hv)
    refine ⟨.values (ps.map Prod.snd), ?_, fun k hk => ⟨hlist, ps, rfl, rfl, fun p hp => ((hps p hp).2 k hk).2 hlist⟩⟩
    rw [Cell.values.injEq, List.map_inj_left]
    simp only [Cell.Kept, List.forall_mem_map]
    exact forall₂_congr fun p hp => (hps p hp).1
  | unset | obj | flag => exact hx.elim

end Value

theorem members_comes {decls : List Decl} {members : List (String × Cell Value)}
    (hresolves : ∀ decl ∈ decls, Resolves u scopes decl.type)
    (ih : ∀ d ∈ u.types, ∀ v, d.Has u depth v → ∃ v', ComesAt u fromString depth d v v')
    (hmembers : List.Forall₂ (fun decl m => m.1 = decl.id ∧ decl.type.Holds u (TypeDef.Has u depth) m.2) decls
      members) :
    ∃ cs : List Passage, cs.map Passage.decl = decls ∧ (cs.map fun c => (c.decl.id, c.before)) = members ∧
      ∀ c ∈ cs, (c.after = c.before ↔ c.before.Kept fromString) ∧
        ∀ k ≥ depth, c.decl.type.Comes (u.linked fromString (k + 1) scopes) c.before c.after := by
  induction hmembers with
  | nil => exact ⟨[], rfl, rfl, by simp⟩
  | @cons decl m decls members hm _ ihmembers =>
    obtain ⟨hresolves₁, hresolves⟩ := List.forall_mem_cons.mp hresolves
    obtain ⟨id, x⟩ := m
    obtain ⟨rfl, hx⟩ := hm
    obtain ⟨x', hcomes⟩ := cell_comes hresolves₁ ih hx
    obtain ⟨cs, rfl, rfl, hcs⟩ := ihmembers hresolves
    exact ⟨⟨decl, x, x'⟩ :: cs, rfl, rfl, List.forall_mem_cons.mpr ⟨hcomes, hcs⟩⟩

/-- The induction is on the depth to which structs are nested. -/
theorem definition_comes (fromString : String → String) (hscoped : u.WellScoped) (depth : Nat) :
    ∀ d ∈ u.types, ∀ v, d.Has u depth v → ∃ v', ComesAt u fromString depth d v v' := by
  induction depth with
  | zero => exact fun d _ v hv => hv.elim
  | succ depth ih =>
    intro d hd v hv
    unfold TypeDef.Has at hv
    split at hv
    · rename_i e entry hbody
      refine ⟨.enum entry, iff_of_true rfl (kept_of_atom (by simp) (by simp)), fun k _ => ?_⟩
      simp only [TypeDef.serialise, TypeDef.deserialise, hbody, e.inverse entry hv, Option.map_some]
    · rename_i decls members hbody
      obtain ⟨cs, rfl, rfl, hcs⟩ := members_comes (hscoped.resolves d hd decls hbody) ih hv
      refine ⟨.struct (cs.map fun c => (c.decl.id, c.after)), ?_, fun k hk => ?_⟩
      · rw [Value.struct.injEq, List.map_inj_left, kept_struct, List.forall_mem_map]
        refine forall₂_congr fun c hc => ?_
        rw [Prod.mk.injEq, and_iff_right rfl]
        exact (hcs c hc).1
      · obtain ⟨k, rfl⟩ : ∃ k', k = k' + 1 := ⟨k - 1, by omega⟩
        have hstruct := deserialiseStruct_serialiseStruct (hscoped.structs d hd _ hbody)
          fun c hc => (hcs c hc).2 k (by omega)
        simp only [TypeDef.serialise, TypeDef.deserialise, hbody, hstruct, Option.map_some]
    · exact hv.elim

end Definitions

section RoundTrips

variable {u : TrlUnit} {fromString : String → String} {d : TypeDef} {v : Value} {depth : Nat}

theorem RoundTrips.kept (h : RoundTrips u fromString d v) (hscoped : u.WellScoped) (hd : d ∈ u.types)
    (hv : d.Has u depth v) : v.Kept fromString := by
  obtain ⟨v', hkept, hcomes⟩ := definition_comes fromString hscoped depth d hd v hv
  obtain ⟨depth', h⟩ := h
  have hsame := (hcomes (max depth depth') (Nat.le_max_left _ _)).symm.trans (h _ (Nat.le_max_right _ _))
  exact hkept.mp (Option.some_inj.mp hsame)

theorem roundTrips_of_kept (h : v.Kept fromString) (hscoped : u.WellScoped) (hd : d ∈ u.types) (hv : d.Has u depth v) :
    RoundTrips u fromString d v := by
  obtain ⟨v', hkept, hcomes⟩ := definition_comes fromString hscoped depth d hd v hv
  obtain rfl := hkept.mpr h
  exact ⟨depth, hcomes⟩

end RoundTrips

/-- A value of a definition comes back as it is exactly if the library keeps its strings
as they are. -/
theorem deserialise_serialise_iff (u : TrlUnit) (fromString : String → String) (d : TypeDef) (v : Value)
    (hscoped : u.WellScoped) (hd : d ∈ u.types) (hv : ∃ depth, d.Has u depth v) :
    RoundTrips u fromString d v ↔ ∀ s, v.Contains s → fromString s = s := by
  obtain ⟨depth, hv⟩ := hv
  constructor
  · intro h
    exact h.kept hscoped hd hv
  · intro h
    exact roundTrips_of_kept h hscoped hd hv

/-- A struct with a list of its own kind. -/
def nodeDef : TypeDef where
  parents := [""]
  name := "Node"
  body := .struct
    [{ type := { type := "string" }, id := "name" },
     { type := { type := "Node", list := true, scope := some "Node::" }, id := "children" }]

def nodeUnit : TrlUnit where
  types := [nodeDef]

def node (name : String) (children : List Value) : Value :=
  .struct [("name", .value (.string name)), ("children", .values children)]

theorem nodeUnit_wellScoped : nodeUnit.WellScoped where
  structs := by
    intro d hd decls hbody
    obtain rfl := List.mem_singleton.mp hd
    cases hbody
    exact ⟨by decide, by decide⟩
  resolves := by
    intro d hd decls hbody decl hdecl
    obtain rfl := List.mem_singleton.mp hd
    cases hbody
    rcases List.mem_pair.mp hdecl with rfl | rfl
    · constructor <;> intro scope hscope <;> cases hscope
    · constructor <;> intro scope hscope <;> cases hscope
      · rfl
      · rfl
      · exact fun _ => rfl

theorem node_has {name : String} {children : List Value} {depth : Nat} (hname : '\x00' ∉ name.toList)
    (hchildren : ∀ v ∈ children, nodeDef.Has nodeUnit depth v) :
    nodeDef.Has nodeUnit (depth + 1) (node name children) :=
  .cons ⟨rfl, rfl, rfl, hname⟩ (.cons ⟨rfl, rfl, fun v hv => ⟨nodeDef, rfl, hchildren v hv⟩⟩ .nil)

theorem node_kept {fromString : String → String} {name : String} {children : List Value} :
    (node name children).Kept fromString ↔ fromString name = name ∧ ∀ v ∈ children, v.Kept fromString := by
  simp [node, kept_struct, Cell.Kept, kept_string]

theorem deserialise_serialise_tree :
    RoundTrips nodeUnit jsonEscape nodeDef (node "root" [node "left" [], node "right" []]) := by
  have hleaf : ∀ v ∈ [node "left" [], node "right" []], nodeDef.Has nodeUnit 1 v := by
    intro v hv
    rcases List.mem_pair.mp hv with rfl | rfl <;> exact node_has (by decide) (by simp)
  have hkept : (node "root" [node "left" [], node "right" []]).Kept jsonEscape := by
    refine node_kept.mpr ⟨by decide, fun v hv => ?_⟩
    rcases List.mem_pair.mp hv with rfl | rfl <;> exact node_kept.mpr ⟨by decide, by simp⟩
  exact (deserialise_serialise_iff nodeUnit jsonEscape nodeDef _ nodeUnit_wellScoped (List.mem_singleton_self _)
    ⟨2, node_has (by decide) hleaf⟩).mpr hkept

theorem deserialise_serialise_quote :
    nodeUnit.WellScoped ∧ nodeDef.Has nodeUnit 1 (node "a\"b" []) ∧
      ¬RoundTrips nodeUnit jsonEscape nodeDef (node "a\"b" []) := by
  have hhas : nodeDef.Has nodeUnit 1 (node "a\"b" []) := node_has (by decide) (by simp)
  refine ⟨nodeUnit_wellScoped, hhas, fun h => ?_⟩
  have hkept := node_kept.mp (h.kept nodeUnit_wellScoped (List.mem_singleton_self _) hhas)
  exact absurd hkept.1 (by decide)

end ServiceManager.Wsrpcgen
