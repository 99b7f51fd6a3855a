import Mathlib.Data.List.Infix
import Mathlib.Data.List.Nodup
import ServiceManager.Wsrpcgen.Idl

namespace ServiceManager.Wsrpcgen.Idl

/-- The parts of a name between `::`. `part` is what has been read of the next one, last
character first; colons before a part are passed over. -/
def splitName (part : List Char) : List Char → List String
  | [] => if part.isEmpty then [] else [String.ofList part.reverse]
  | ':' :: ':' :: rest =>
    if part.isEmpty then splitName [] (':' :: rest) else String.ofList part.reverse :: splitName [] rest
  | c :: rest => if part.isEmpty && c = ':' then splitName [] rest else splitName (c :: part) rest

def parts (type : String) : List String :=
  splitName [] type.toList

inductive Scope where
  | unit (u : TrlUnit)
  | program (p : Program)
  | type (d : TypeDef)

namespace Scope

def types : Scope → List TypeDef
  | .unit u => u.types
  | .program p => p.types
  | .type d => d.types

/-- Sibling types have distinct names, so that the name is enough to tell one. -/
def child (s : Scope) : Step → Option Scope
  | .type name => (s.types.find? fun d => d.name = name).map .type
  | .program k =>
    match s with
    | .unit u => u.programs[k]?.map .program
    | _ => none
  | .imported i =>
    match s with
    | .unit u => u.imports[i]?.map .unit
    | _ => none

end Scope

namespace TrlUnit

mutual

/-- The types of the unit come first, and then those of its imports. -/
def lookupIdentifier (id : String) (place : Place) : TrlUnit → Option Place
  | .mk imports types _ =>
    if types.any fun d => d.name = id then some (.type id :: place) else lookupImports id place 0 imports

def lookupImports (id : String) (place : Place) (i : Nat) : List TrlUnit → Option Place
  | [] => none
  | u :: imports => (lookupIdentifier id (.imported i :: place) u).or (lookupImports id place (i + 1) imports)

end

variable (u : TrlUnit)

def scopeAt : Place → Option Scope
  | [] => some (.unit u)
  | step :: outer => (scopeAt outer).bind fun s => s.child step

def typesAt (place : Place) : List TypeDef :=
  ((u.scopeAt place).map Scope.types).getD []

def unitAt (place : Place) : Option TrlUnit :=
  match u.scopeAt place with
  | some (.unit v) => some v
  | _ => none

/-- A type of this name stands right inside the scope. -/
def declares (place : Place) (id : String) : Bool :=
  (u.typesAt place).any fun d => d.name = id

section Lookup

-- The scopes whose `parentScope` has been set.
variable (visited : Place → Bool)

/-- `lookupIdentifier` of the scope at a place: NULL or the place of a type, unless a
`parentScope` is read that has not been set. Units do not read theirs. -/
def lookup (id : String) : Place → Option (Option Place)
  | [] => some (u.lookupIdentifier id [])
  | step :: outer =>
    match u.unitAt (step :: outer) with
    | some v => some (v.lookupIdentifier id (step :: outer))
    | none =>
      if u.declares (step :: outer) id then some (some (.type id :: step :: outer))
      else if visited (step :: outer) then lookup id outer
      else none

/-- The loop over the parts of a name, each looked up in what the one before it was found
to be. -/
def follow : Place → List String → Option (Option Place)
  | scope, [] => some (some scope)
  | scope, part :: rest =>
    match u.lookup visited part scope with
    | none => none
    | some none => some none
    | some (some d) => follow d rest

/-- What `TypeRef::synthInScope` sets `def` to. -/
def resolve (scope : Place) (type : String) : Option (Option Place) :=
  match parts type with
  | [] => some none
  | part :: rest => u.follow visited scope (part :: rest)

end Lookup

end TrlUnit

/-- What `synthInScope` does: the parent of a scope is set, or the name of a type that is
used in it is looked up. -/
inductive Event where
  | visit (place : Place)
  | use (place : Place) (type : String)
deriving DecidableEq

/-- The names of types in a definition, in the order in which they are looked up. -/
def TypeBody.uses : TypeBody → List String
  | .struct decls => decls.map fun decl => decl.type.type
  | .union enumType cases => enumType.type :: cases.flatMap fun cas => cas.2.map fun decl => decl.type.type
  | .enum _ => []

namespace TypeDef

mutual

def synthInScope (outer : Place) : TypeDef → List Event
  | .mk name types body =>
    .visit (.type name :: outer) ::
      (synthTypes (.type name :: outer) types ++ body.uses.map (.use (.type name :: outer)))

def synthTypes (place : Place) : List TypeDef → List Event
  | [] => []
  | d :: types => synthInScope place d ++ synthTypes place types

end

end TypeDef

namespace Program

variable (p : Program)

def uses : List String :=
  p.versions.flatMap fun v => v.methods.flatMap fun m => m.retType.type :: m.args.map fun arg => arg.type.type

def synthInScope (place : Place) : List Event :=
  .visit place :: (TypeDef.synthTypes place p.types ++ p.uses.map (.use place))

end Program

namespace TrlUnit

mutual

def synthInScope (place : Place) : TrlUnit → List Event
  | .mk imports types programs =>
    .visit place :: (synthImports place 0 imports ++ (TypeDef.synthTypes place types ++
      programs.zipIdx.flatMap fun p => p.1.synthInScope (.program p.2 :: place)))

def synthImports (place : Place) (i : Nat) : List TrlUnit → List Event
  | [] => []
  | u :: imports => synthInScope (.imported i :: place) u ++ synthImports place (i + 1) imports

end

end TrlUnit

def visitedIn (before : List Event) (place : Place) : Bool :=
  before.contains (.visit place)

namespace TrlUnit

section Meaning

variable (u : TrlUnit)

/-- The first type of this name in the scope or one around it, and at last in a unit or
what that imports. -/
def outward (id : String) : Place → Option Place
  | [] => u.lookupIdentifier id []
  | step :: outer =>
    match u.unitAt (step :: outer) with
    | some v => v.lookupIdentifier id (step :: outer)
    | none => if u.declares (step :: outer) id then some (.type id :: step :: outer) else outward id outer

/-- The type that is reached from another through types that are each right inside the one
before. -/
def members : Place → List String → Option Place
  | d, [] => some d
  | d, part :: rest => if u.declares d part then members (.type part :: d) rest else none

/-- What a name means in a scope. -/
def meant (scope : Place) (type : String) : Option Place :=
  match parts type with
  | [] => none
  | part :: rest => (u.outward part scope).bind fun d => u.members d rest

variable (visited : Place → Bool)

/-- Where a part is not found right inside the type before it, the parent of that type has
been set; and one such part is found nowhere around. -/
def LeadsNowhere : Place → List String → Prop
  | _, [] => False
  | d, part :: rest =>
    if u.declares d part then LeadsNowhere (.type part :: d) rest
    else visited d = true ∧ ∀ d', u.outward part d = some d' → LeadsNowhere d' rest

/-- If the first part is found, each further one is right inside the type before it, or
the lookups lead nowhere. -/
def Settles (scope : Place) (type : String) : Prop :=
  ∀ part rest, parts type = part :: rest → ∀ d, u.outward part scope = some d →
    (u.members d rest).isSome = true ∨ u.LeadsNowhere visited d rest

/-- No two types right inside one scope have the same name. -/
def DistinctSiblings : Prop :=
  ∀ place s, u.scopeAt place = some s → (s.types.map TypeDef.name).Nodup

end Meaning

section Lookup

variable {u : TrlUnit} {visited : Place → Bool} {id : String} {place : Place}

theorem unitAt_type (name : String) (outer : Place) : u.unitAt (.type name :: outer) = none := by
  rw [unitAt, scopeAt]
  cases u.scopeAt outer with
  | none => rfl
  | some s =>
    rw [Option.bind_some, Scope.child]
    cases s.types.find? fun d => d.name = name with
    | none => rfl
    | some d => rfl

/-- A scope of which the parent has been set, and so on outwards, can be looked up in. -/
theorem lookup_eq_outward (hclosed : ∀ step outer, visited (step :: outer) = true → visited outer = true)
    (hvisited : visited place = true) : u.lookup visited id place = some (u.outward id place) := by
  induction place with
  | nil => rfl
  | cons step outer ih =>
    rw [lookup, outward, ih (hclosed step outer hvisited), if_pos hvisited]
    cases u.unitAt (step :: outer) with
    | some v => rfl
    | none => exact (apply_ite some _ _ _).symm

theorem unitAt_eq_some {v : TrlUnit} : u.unitAt place = some v ↔ u.scopeAt place = some (.unit v) := by
  rw [unitAt]
  split <;> simp_all

/-- The imports of a unit are the units right inside it. -/
theorem unitAt_imported {v : TrlUnit} (h : u.unitAt place = some v) (i : Nat) :
    u.unitAt (.imported i :: place) = v.imports[i]? := by
  rw [unitAt, scopeAt, unitAt_eq_some.mp h, Option.bind_some, Scope.child]
  cases v.imports[i]? with
  | none => rfl
  | some w => rfl

theorem typesAt_of_unitAt {v : TrlUnit} (h : u.unitAt place = some v) : u.typesAt place = v.types := by
  rw [typesAt, unitAt_eq_some.mp h]
  rfl

/-- A lookup finds what is declared in some scope around. -/
theorem lookupIdentifier_declares {v : TrlUnit} {d : Place} (hunit : u.unitAt place = some v)
    (h : v.lookupIdentifier id place = some d) : ∃ outer, d = .type id :: outer ∧ u.declares outer id = true := by
  induction v using TrlUnit.nested_induction generalizing place with
  | mk imports types programs ih =>
    rw [lookupIdentifier] at h
    split at h
    next hany =>
      refine ⟨place, (Option.some_inj.mp h).symm, ?_⟩
      rw [declares, typesAt_of_unitAt hunit]
      exact hany
    next =>
      have himports : ∀ rest i, (∀ j, u.unitAt (.imported (i + j) :: place) = rest[j]?) → (∀ v ∈ rest, v ∈ imports) →
          lookupImports id place i rest = some d → ∃ outer, d = .type id :: outer ∧ u.declares outer id = true := by
        intro rest
        induction rest with
        | nil => exact fun _ _ _ hi => by cases hi
        | cons v rest ihs =>
          intro i hunits hsub hi
          obtain ⟨hv, hsub⟩ := List.forall_mem_cons.mp hsub
          rw [lookupImports] at hi
          rcases Option.or_eq_some_iff.mp hi with hi | ⟨-, hi⟩
          · exact ih v hv (hunits 0) hi
          · refine ihs (i + 1) (fun j => ?_) hsub hi
            rw [Nat.add_assoc, Nat.add_comm 1]
            exact hunits (j + 1)
      refine himports imports 0 (fun j => ?_) (fun _ hv => hv) h
      rw [Nat.zero_add]
      exact unitAt_imported hunit j

/-- Only types are found, and these are there. -/
theorem outward_declares {d : Place} (h : u.outward id place = some d) :
    ∃ outer, d = .type id :: outer ∧ u.declares outer id = true := by
  induction place with
  | nil => exact lookupIdentifier_declares rfl h
  | cons step outer ih =>
    rw [outward] at h
    cases hunit : u.unitAt (step :: outer) with
    | some v =>
      rw [hunit] at h
      exact lookupIdentifier_declares hunit h
    | none =>
      simp only [hunit] at h
      split at h
      next hdeclares => exact ⟨step :: outer, (Option.some_inj.mp h).symm, hdeclares⟩
      next => exact ih h

section Follow

variable (hclosed : ∀ step outer, visited (step :: outer) = true → visited outer = true)

/-- A part that is right inside the type before it is found there. -/
theorem lookup_of_declares {name : String} (h : u.declares (.type name :: place) id = true) :
    u.lookup visited id (.type name :: place) = some (some (.type id :: .type name :: place)) := by
  rw [lookup, unitAt_type]
  exact if_pos h

theorem follow_of_members {name : String} {rest : List String} {d : Place}
    (h : u.members (.type name :: place) rest = some d) :
    u.follow visited (.type name :: place) rest = some (some d) := by
  induction rest generalizing name place with
  | nil => exact congrArg some h
  | cons part rest ih =>
    rw [members] at h
    split at h
    next hdeclares =>
      rw [follow, lookup_of_declares hdeclares]
      exact ih h
    next => cases h

include hclosed

/-- Following a name comes to NULL exactly where its lookups lead nowhere. -/
theorem follow_eq_null_iff {name : String} {rest : List String} :
    u.follow visited (.type name :: place) rest = some none ↔ u.LeadsNowhere visited (.type name :: place) rest := by
  induction rest generalizing name place with
  | nil => simp [follow, LeadsNowhere]
  | cons part rest ih =>
    rw [follow, LeadsNowhere]
    cases hdeclares : u.declares (.type name :: place) part with
    | true =>
      rw [lookup_of_declares hdeclares, if_pos rfl]
      exact ih
    | false =>
      rw [if_neg Bool.false_ne_true]
      cases hvisited : visited (.type name :: place) with
      | false =>
        have hnone : u.lookup visited part (.type name :: place) = none := by
          simp [lookup, unitAt_type, hdeclares, hvisited]
        simp [hnone]
      | true =>
        rw [lookup_eq_outward hclosed hvisited]
        cases houtward : u.outward part (.type name :: place) with
        | none => simp
        | some d =>
          obtain ⟨outer, rfl, -⟩ := outward_declares houtward
          simpa using ih

/-- The parts after the first are followed as they are meant exactly if each is right
inside the type before it, or the lookups lead nowhere. -/
theorem follow_eq_members_iff {name : String} {rest : List String} :
    u.follow visited (.type name :: place) rest = some (u.members (.type name :: place) rest) ↔
      (u.members (.type name :: place) rest).isSome = true ∨ u.LeadsNowhere visited (.type name :: place) rest := by
  cases hmembers : u.members (.type name :: place) rest with
  | some d => simp [follow_of_members hmembers]
  | none => simp [follow_eq_null_iff hclosed]

theorem resolve_eq_meant_iff {type part : String} {rest : List String} (hparts : parts type = part :: rest)
    (hvisited : visited place = true) :
    u.resolve visited place type = some (u.meant place type) ↔ u.Settles visited place type := by
  have hsettles : u.Settles visited place type ↔ ∀ d, u.outward part place = some d →
      (u.members d rest).isSome = true ∨ u.LeadsNowhere visited d rest := by
    simp [Settles, hparts]
  rw [hsettles, resolve, meant, hparts]
  simp only [follow, lookup_eq_outward hclosed hvisited]
  cases houtward : u.outward part place with
  | none => simp
  | some d =>
    obtain ⟨outer, rfl, -⟩ := outward_declares houtward
    simpa using follow_eq_members_iff hclosed

end Follow

/-- What a name means is a type that is declared, and only one such is. -/
theorem meant_unique (hdistinct : u.DistinctSiblings) {type : String} {d : Place} (h : u.meant place type = some d) :
    ∃ name outer, d = .type name :: outer ∧ ∃! t, t ∈ u.typesAt outer ∧ t.name = name := by
  have hdeclared : ∀ rest name outer, u.declares outer name = true → u.members (.type name :: outer) rest = some d →
      ∃ name outer, d = .type name :: outer ∧ u.declares outer name = true := by
    intro rest
    induction rest with
    | nil => exact fun name outer hdeclares hd => ⟨name, outer, (Option.some_inj.mp hd).symm, hdeclares⟩
    | cons part rest ih =>
      intro name outer hdeclares hd
      rw [members] at hd
      split at hd
      next hpart => exact ih part (.type name :: outer) hpart hd
      next => cases hd
  rw [meant] at h
  split at h
  next => cases h
  next part rest hparts =>
    obtain ⟨d₁, houtward, hmembers⟩ := Option.bind_eq_some_iff.mp h
    obtain ⟨outer₁, rfl, hdeclares₁⟩ := outward_declares houtward
    obtain ⟨name, outer, rfl, hdeclares⟩ := hdeclared rest part outer₁ hdeclares₁ hmembers
    obtain ⟨t, ht, hname⟩ := List.any_eq_true.mp hdeclares
    refine ⟨name, outer, rfl, t, ⟨ht, of_decide_eq_true hname⟩, fun t' ht' => ?_⟩
    have hnodup : ((u.typesAt outer).map TypeDef.name).Nodup := by
      rw [typesAt]
      cases hscope : u.scopeAt outer with
      | none => simp
      | some s => exact hdistinct outer s hscope
    exact List.inj_on_of_nodup_map hnodup ht'.1 ht (ht'.2.trans (of_decide_eq_true hname).symm)

end Lookup

section Reorder

/-- The same units are at the same places, and the types right inside any place have the
same names, in any order. -/
structure SameButOrder (u u' : TrlUnit) : Prop where
  units : ∀ place, (u.unitAt place).isSome = (u'.unitAt place).isSome
  types : ∀ place, ((u.typesAt place).map TypeDef.name).Perm ((u'.typesAt place).map TypeDef.name)

variable {u u' : TrlUnit} {id : String} {place : Place}

theorem declares_iff_mem : u.declares place id = true ↔ id ∈ (u.typesAt place).map TypeDef.name := by
  simp [declares, List.any_eq_true, List.mem_map]

theorem SameButOrder.declares (h : SameButOrder u u') : u.declares place id = u'.declares place id := by
  rw [Bool.eq_iff_iff, declares_iff_mem, declares_iff_mem]
  exact (h.types place).mem_iff

/-- A lookup does not depend on the order of definitions. -/
theorem SameButOrder.lookupIdentifier (h : SameButOrder u u') {v v' : TrlUnit} (hv : u.unitAt place = some v)
    (hv' : u'.unitAt place = some v') : v.lookupIdentifier id place = v'.lookupIdentifier id place := by
  induction v using TrlUnit.nested_induction generalizing place v' with
  | mk imports types programs ih =>
    obtain ⟨imports', types', programs'⟩ := v'
    have hdeclares : u.declares place id = u'.declares place id := h.declares
    have himports : ∀ rest rest' i, (∀ j, u.unitAt (.imported (i + j) :: place) = rest[j]?) →
        (∀ j, u'.unitAt (.imported (i + j) :: place) = rest'[j]?) → (∀ w ∈ rest, w ∈ imports) →
        lookupImports id place i rest = lookupImports id place i rest' := by
      intro rest
      induction rest with
      | nil =>
        intro rest' i hunits hunits' _
        have hnone := h.units (.imported (i + 0) :: place)
        rw [hunits 0, hunits' 0] at hnone
        cases rest' with
        | nil => rfl
        | cons w' rest' => simp at hnone
      | cons w rest ihs =>
        intro rest' i hunits hunits' hsub
        obtain ⟨hw, hsub⟩ := List.forall_mem_cons.mp hsub
        have hsome := h.units (.imported (i + 0) :: place)
        rw [hunits 0, hunits' 0] at hsome
        cases rest' with
        | nil => simp at hsome
        | cons w' rest' =>
          have hrest := ihs rest' (i + 1)
            (fun j => by rw [Nat.add_assoc, Nat.add_comm 1]; exact hunits (j + 1))
            (fun j => by rw [Nat.add_assoc, Nat.add_comm 1]; exact hunits' (j + 1)) hsub
          have hfirst : w.lookupIdentifier id (.imported i :: place) = w'.lookupIdentifier id (.imported i :: place) :=
            ih w hw (hunits 0) (hunits' 0)
          rw [lookupImports, lookupImports, hfirst, hrest]
    rw [TrlUnit.declares, TrlUnit.declares, typesAt_of_unitAt hv, typesAt_of_unitAt hv'] at hdeclares
    have hrest := himports imports imports' 0 (fun j => by rw [Nat.zero_add]; exact unitAt_imported hv j)
      (fun j => by rw [Nat.zero_add]; exact unitAt_imported hv' j) (fun _ hw => hw)
    rw [TrlUnit.lookupIdentifier, TrlUnit.lookupIdentifier, hrest]
    simp only [TrlUnit.types] at hdeclares
    rw [hdeclares]

theorem SameButOrder.outward (h : SameButOrder u u') : u.outward id place = u'.outward id place := by
  induction place with
  | nil => exact h.lookupIdentifier rfl rfl
  | cons step outer ih =>
    have hunits := h.units (step :: outer)
    rw [TrlUnit.outward, TrlUnit.outward, h.declares, ih]
    cases hv : u.unitAt (step :: outer) with
    | none =>
      rw [hv] at hunits
      rw [Option.isSome_eq_false_iff.mp hunits.symm |> Option.isNone_iff_eq_none.mp]
    | some v =>
      rw [hv] at hunits
      obtain ⟨v', hv'⟩ := Option.isSome_iff_exists.mp hunits.symm
      rw [hv']
      exact h.lookupIdentifier hv hv'

theorem SameButOrder.members (h : SameButOrder u u') (rest : List String) :
    u.members place rest = u'.members place rest := by
  induction rest generalizing place with
  | nil => rfl
  | cons part rest ih => rw [TrlUnit.members, TrlUnit.members, h.declares, ih]

/-- What a name means does not depend on the order of siblings. -/
theorem SameButOrder.meant (h : SameButOrder u u') (type : String) : u.meant place type = u'.meant place type := by
  rw [TrlUnit.meant, TrlUnit.meant]
  split
  · rfl
  · rw [h.outward]
    exact Option.bind_congr fun d _ => h.members _

end Reorder

end TrlUnit

section Order

/-- The scopes whose parents are set before the event. -/
def Event.Needs : Event → Place → Prop
  | .visit place, q => q <:+ place ∧ q ≠ place
  | .use place _, q => q <:+ place

/-- The events inside a scope come in an order in which those of them that need another
come after it. -/
def Ordered (base : Place) (events : List Event) : Prop :=
  ∀ before e after, events = before ++ e :: after → ∀ q, e.Needs q → ¬q <:+ base → .visit q ∈ before

variable {base outer : Place} {step : Step} {events events' : List Event}

theorem Ordered.nil : Ordered base [] := by
  intro before e after h
  simp at h

theorem Ordered.append (h : Ordered base events) (h' : Ordered base events') : Ordered base (events ++ events') := by
  intro before e after heq q hneeds hq
  rcases List.append_eq_append_iff.mp heq with ⟨rest, rfl, hrest⟩ | ⟨rest, hevents, hrest⟩
  · exact List.mem_append_right _ (h' rest e after hrest q hneeds hq)
  · cases rest with
    | nil => exact absurd (h' [] e after hrest.symm q hneeds hq) List.not_mem_nil
    | cons e' rest =>
      obtain ⟨rfl, -⟩ := List.cons.inj hrest
      exact h before e rest hevents q hneeds hq

/-- A scope is visited before what is inside it. -/
theorem Ordered.visit (h : Ordered (step :: outer) events) : Ordered outer (.visit (step :: outer) :: events) := by
  intro before e after heq q hneeds hq
  cases before with
  | nil =>
    obtain ⟨rfl, -⟩ := List.cons.inj heq
    obtain ⟨hsuffix, hne⟩ := hneeds
    exact absurd ((List.suffix_cons_iff.mp hsuffix).resolve_left hne) hq
  | cons e' before =>
    obtain ⟨rfl, hrest⟩ := List.cons.inj heq
    by_cases hself : q <:+ step :: outer
    · rw [(List.suffix_cons_iff.mp hself).resolve_right hq]
      exact List.mem_cons_self
    · exact List.mem_cons_of_mem _ (h before e after hrest q hneeds hself)

theorem Ordered.uses (types : List String) : Ordered base (types.map (.use base)) := by
  intro before e after heq q hneeds hq
  have hmem : e ∈ types.map (.use base) := by simp [heq]
  obtain ⟨type, -, rfl⟩ := List.mem_map.mp hmem
  exact absurd hneeds hq

theorem Ordered.flatMap {α : Type} {as : List α} {f : α → List Event} (h : ∀ a ∈ as, Ordered base (f a)) :
    Ordered base (as.flatMap f) := by
  induction as with
  | nil => exact .nil
  | cons a as ih =>
    obtain ⟨ha, has⟩ := List.forall_mem_cons.mp h
    exact ha.append (ih has)

theorem synthTypes_ordered {types : List TypeDef} (h : ∀ d ∈ types, Ordered base (d.synthInScope base)) :
    Ordered base (TypeDef.synthTypes base types) := by
  induction types with
  | nil => exact .nil
  | cons d types ih =>
    obtain ⟨hd, htypes⟩ := List.forall_mem_cons.mp h
    exact hd.append (ih htypes)

theorem synthInScope_type_ordered (d : TypeDef) : Ordered outer (d.synthInScope outer) := by
  induction d using TypeDef.nested_induction generalizing outer with
  | mk name types body ih =>
    rw [TypeDef.synthInScope]
    exact ((synthTypes_ordered fun d hd => ih d hd).append (.uses body.uses)).visit

theorem synthInScope_program_ordered (p : Program) (k : Nat) : Ordered outer (p.synthInScope (.program k :: outer)) :=
  ((synthTypes_ordered fun d _ => synthInScope_type_ordered d).append (.uses p.uses)).visit

/-- What `synthInScope` does inside a unit. -/
theorem synthInScope_unit_ordered (u : TrlUnit) (place : Place) :
    ∃ events, u.synthInScope place = .visit place :: events ∧ Ordered place events := by
  induction u using TrlUnit.nested_induction generalizing place with
  | mk imports types programs ih =>
    have himports : ∀ i, Ordered place (TrlUnit.synthImports place i imports) := by
      induction imports with
      | nil => exact fun _ => .nil
      | cons u imports ihs =>
        obtain ⟨hu, himports⟩ := List.forall_mem_cons.mp ih
        intro i
        obtain ⟨events, heq, hordered⟩ := hu (.imported i :: place)
        rw [TrlUnit.synthImports, heq]
        exact hordered.visit.append (ihs himports (i + 1))
    refine ⟨_, rfl, (himports 0).append ((synthTypes_ordered fun d _ => synthInScope_type_ordered d).append ?_)⟩
    exact .flatMap fun p _ => synthInScope_program_ordered p.1 p.2

variable {u : TrlUnit} {before after : List Event} {s : Place} {type : String}

/-- Whatever needs a scope comes after the visit to it, in the whole run. -/
theorem needs_visited {e : Event} (h : u.synthInScope [] = before ++ e :: after) {q : Place} (hneeds : e.Needs q) :
    .visit q ∈ before := by
  obtain ⟨events, heq, hordered⟩ := synthInScope_unit_ordered u []
  rw [heq] at h
  cases before with
  | nil =>
    obtain ⟨rfl, -⟩ := List.cons.inj h
    exact absurd (List.suffix_nil.mp hneeds.1) hneeds.2
  | cons e' before =>
    obtain ⟨rfl, hrest⟩ := List.cons.inj h
    by_cases hroot : q <:+ []
    · rw [List.suffix_nil.mp hroot]
      exact List.mem_cons_self
    · exact List.mem_cons_of_mem _ (hordered before e after hrest q hneeds hroot)

theorem visitedIn_closed (h : u.synthInScope [] = before ++ .use s type :: after) (step : Step) (outer : Place)
    (hvisited : visitedIn before (step :: outer) = true) : visitedIn before outer = true := by
  obtain ⟨first, rest, hbefore⟩ := List.append_of_mem (List.contains_iff_mem.mp hvisited)
  have hrun : u.synthInScope [] = first ++ .visit (step :: outer) :: (rest ++ .use s type :: after) := by
    rw [h, hbefore, List.append_assoc, List.cons_append]
  have hneeds : Event.Needs (.visit (step :: outer)) outer := ⟨List.suffix_cons step outer, by simp⟩
  refine List.contains_iff_mem.mpr ?_
  rw [hbefore]
  exact List.mem_append_left _ (needs_visited hrun hneeds)

end Order

/-- In any run, `def` is set as the name means exactly if the name settles: its later parts
are each right inside the type before, or lead nowhere. The order of siblings makes no
difference among runs in which it settles. -/
theorem resolve_run_iff {u : TrlUnit} (hdistinct : u.DistinctSiblings) {before after : List Event} {s : Place}
    {type p q : String} {ps : List String} (hrun : u.synthInScope [] = before ++ .use s type :: after)
    (hparts : parts type = p :: q :: ps) :
    (u.resolve (visitedIn before) s type = some (u.meant s type) ↔ u.Settles (visitedIn before) s type) ∧
    (∀ d, u.meant s type = some d → ∃ name outer, d = .type name :: outer ∧
      ∃! t, t ∈ u.typesAt outer ∧ t.name = name) ∧
    ∀ u' before' after', u.SameButOrder u' → u'.synthInScope [] = before' ++ .use s type :: after' →
      u.Settles (visitedIn before) s type → u'.Settles (visitedIn before') s type →
      u'.resolve (visitedIn before') s type = u.resolve (visitedIn before) s type := by
  have hresolve : ∀ {v : TrlUnit} {before after : List Event}, v.synthInScope [] = before ++ .use s type :: after →
      (v.resolve (visitedIn before) s type = some (v.meant s type) ↔ v.Settles (visitedIn before) s type) := by
    intro v before after hrun
    have hvisited : visitedIn before s = true :=
      List.contains_iff_mem.mpr (needs_visited hrun (List.suffix_refl s))
    exact TrlUnit.resolve_eq_meant_iff (visitedIn_closed hrun) hparts hvisited
  refine ⟨hresolve hrun, fun d hd => TrlUnit.meant_unique hdistinct hd,
    fun u' before' after' hsame hrun' hsettles hsettles' => ?_⟩
  rw [(hresolve hrun).mpr hsettles, (hresolve hrun').mpr hsettles', hsame.meant]

/-- Siblings are distinct if they are in a set of scopes that has what is inside each. -/
theorem distinctSiblings_of_closed {u : TrlUnit} (scopes : List Scope) (hroot : .unit u ∈ scopes)
    (hchild : ∀ s ∈ scopes, ∀ step t, s.child step = some t → t ∈ scopes)
    (hnodup : ∀ s ∈ scopes, (s.types.map TypeDef.name).Nodup) : u.DistinctSiblings := by
  intro place s hs
  refine hnodup s ?_
  induction place generalizing s with
  | nil => exact Option.some_inj.mp hs ▸ hroot
  | cons step outer ih =>
    obtain ⟨t, ht, hs⟩ := Option.bind_eq_some_iff.mp hs
    exact hchild t (ih t ht) step s hs

/-- The types right inside a scope are found among these. -/
theorem child_mem {s t : Scope} {step : Step} (hunit : ∀ u, s = .unit u → u.imports = [] ∧ u.programs = [])
    (h : s.child step = some t) : ∃ d ∈ s.types, t = .type d := by
  cases step with
  | type name =>
    obtain ⟨d, hd, rfl⟩ := Option.map_eq_some_iff.mp h
    exact ⟨d, List.mem_of_find?_eq_some hd, rfl⟩
  | program k =>
    cases s with
    | unit u => simp [Scope.child, (hunit u rfl).2] at h
    | program | type => cases h
  | imported i =>
    cases s with
    | unit u => simp [Scope.child, (hunit u rfl).1] at h
    | program | type => cases h

/-- An enumeration, which may be inside a struct. -/
def kindDef : TypeDef :=
  .mk "Kind" [] (.enum [{ id := "kDone" }])

/-- A struct that uses it by its qualified name. -/
def replyDef (types : List TypeDef) : TypeDef :=
  .mk "Reply" types (.struct [{ type := { type := "Reply::Kind" }, id := "kind" }])

def nestedUnit : TrlUnit :=
  .mk [] [replyDef [kindDef]] []

theorem nestedUnit_distinct : nestedUnit.DistinctSiblings := by
  refine distinctSiblings_of_closed [.unit nestedUnit, .type (replyDef [kindDef]), .type kindDef]
    (by simp) ?_ (by decide)
  intro s hs step t ht
  obtain rfl | rfl | rfl := List.mem_cons.mp hs |>.imp_right List.mem_pair.mp <;>
    obtain ⟨d, hd, rfl⟩ := child_mem (by simp [nestedUnit, TrlUnit.imports, TrlUnit.programs]) ht
  · simp [List.mem_singleton.mp hd]
  · simp [List.mem_singleton.mp hd]
  · cases hd

theorem resolve_run_nested :
    nestedUnit.resolve (visitedIn [.visit [], .visit [.type "Reply"], .visit [.type "Kind", .type "Reply"]])
      [.type "Reply"] "Reply::Kind" = some (some [.type "Kind", .type "Reply"]) := by
  have hparts : parts "Reply::Kind" = ["Reply", "Kind"] := by decide
  have hrun : nestedUnit.synthInScope [] =
      [.visit [], .visit [.type "Reply"], .visit [.type "Kind", .type "Reply"]] ++
        .use [.type "Reply"] "Reply::Kind" :: [] := rfl
  have hsettles : nestedUnit.Settles (visitedIn [.visit [], .visit [.type "Reply"],
      .visit [.type "Kind", .type "Reply"]])
      [.type "Reply"] "Reply::Kind" := by
    intro part rest hpart d hd
    rw [hparts] at hpart
    obtain ⟨rfl, rfl⟩ := List.cons.inj hpart
    have houtward : nestedUnit.outward "Reply" [.type "Reply"] = some [.type "Reply"] := by decide
    rw [houtward] at hd
    obtain rfl := Option.some_inj.mp hd
    have hmembers : (nestedUnit.members [.type "Reply"] ["Kind"]).isSome = true := by decide
    exact Or.inl hmembers
  have hmeant : nestedUnit.meant [.type "Reply"] "Reply::Kind" = some [.type "Kind", .type "Reply"] := by decide
  rw [← hmeant]
  exact (resolve_run_iff nestedUnit_distinct hrun hparts).1.mpr hsettles

/-- The enumeration is beside the struct, and not inside it. -/
def strayUnit : TrlUnit :=
  .mk [] [kindDef, replyDef []] []

theorem strayUnit_distinct : strayUnit.DistinctSiblings := by
  refine distinctSiblings_of_closed [.unit strayUnit, .type kindDef, .type (replyDef [])] (by simp) ?_ (by decide)
  intro s hs step t ht
  obtain rfl | rfl | rfl := List.mem_cons.mp hs |>.imp_right List.mem_pair.mp <;>
    obtain ⟨d, hd, rfl⟩ := child_mem (by simp [strayUnit, TrlUnit.imports, TrlUnit.programs]) ht
  · obtain rfl | rfl := List.mem_pair.mp hd <;> simp
  · cases hd
  · cases hd

/-- `Reply::Kind` is taken for the enumeration all the same. -/
theorem resolve_stray : strayUnit.DistinctSiblings ∧
    strayUnit.synthInScope [] = [.visit [], .visit [.type "Kind"], .visit [.type "Reply"]] ++
      .use [.type "Reply"] "Reply::Kind" :: [] ∧
    parts "Reply::Kind" = ["Reply", "Kind"] ∧
    strayUnit.resolve (visitedIn [.visit [], .visit [.type "Kind"], .visit [.type "Reply"]])
      [.type "Reply"] "Reply::Kind" =
      some (some [.type "Kind"]) ∧
    strayUnit.meant [.type "Reply"] "Reply::Kind" = none := by
  have hparts : parts "Reply::Kind" = ["Reply", "Kind"] := by decide
  have hrun : strayUnit.synthInScope [] = [.visit [], .visit [.type "Kind"], .visit [.type "Reply"]] ++
      .use [.type "Reply"] "Reply::Kind" :: [] := rfl
  refine ⟨strayUnit_distinct, hrun, hparts, ?_, by decide⟩
  have hlookup : ∀ id, strayUnit.lookup (visitedIn [.visit [], .visit [.type "Kind"], .visit [.type "Reply"]]) id
      [.type "Reply"] = some (strayUnit.outward id [.type "Reply"]) :=
    fun id => TrlUnit.lookup_eq_outward (visitedIn_closed hrun) (by simp [visitedIn])
  have hreply : strayUnit.outward "Reply" [.type "Reply"] = some [.type "Reply"] := by decide
  have hkind : strayUnit.outward "Kind" [.type "Reply"] = some [.type "Kind"] := by decide
  simp [TrlUnit.resolve, hparts, TrlUnit.follow, hlookup, hreply, hkind]

end ServiceManager.Wsrpcgen.Idl
