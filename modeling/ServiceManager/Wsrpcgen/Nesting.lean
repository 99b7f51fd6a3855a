import ServiceManager.Wsrpcgen.Idl

namespace ServiceManager.Wsrpcgen.Idl

/-- A member of a class for a type, as the header declares it: in the class at the end of
`path`. -/
structure Declaration where
  place : Place
  path : List String
  member : String

/-- A member that is defined outside its class. `returns` is its return type where that is
the class itself. -/
structure Definition where
  place : Place
  qualifier : String
  member : String
  returns : Option String := none

/-- A scope that `parentScope` leads to. -/
inductive Parent where
  | unit
  | named (name : String)

def Parent.fullyQualifiedPrefix : List Parent → String
  | [] => ""
  | .unit :: _ => ""
  | .named name :: parents => fullyQualifiedPrefix parents ++ name ++ "::"

/-- A path of classes as a qualifier. -/
def qualifierOf (path : List String) : String :=
  String.join (path.map (· ++ "::"))

namespace TypeBody

/-- The code for the types inside comes with that for the type; an enumeration has none. -/
def nests : TypeBody → Bool
  | .enum _ => false
  | _ => true

/-- The members that the class for a type declares. -/
def memberNames : TypeBody → List String
  | .enum entries => entries.map (fun entry => entry.id ++ "PSz") ++ ["toPSz", "serialise", "fromPSz", "deserialise"]
  | _ => ["serialise", "deserialise"]

/-- Those of them that `genSerImpl` defines. -/
def serNames : TypeBody → List String
  | .enum entries => entries.map (fun entry => entry.id ++ "PSz") ++ ["toPSz", "serialise"]
  | _ => ["serialise"]

/-- Those that `genDeserImpl` defines, and whether they return the type. -/
def deserNames : TypeBody → List (String × Bool)
  | .enum _ => [("fromPSz", true), ("deserialise", false)]
  | _ => [("deserialise", false)]

end TypeBody

namespace TypeDef

mutual

def genDef (path : List String) (place : Place) : TypeDef → List Declaration
  | .mk name types body =>
    (if body.nests then genDefs (path ++ [name]) (.type name :: place) types else []) ++
      body.memberNames.map fun member => { place := .type name :: place, path := path ++ [name], member }

def genDefs (path : List String) (place : Place) : List TypeDef → List Declaration
  | [] => []
  | d :: types => genDef path place d ++ genDefs path place types

end

mutual

def genSerImpl (parents : List Parent) (place : Place) : TypeDef → List Definition
  | .mk name types body =>
    let qualifier := Parent.fullyQualifiedPrefix (.named name :: parents)
    (if body.nests then genSerImpls (.named name :: parents) (.type name :: place) types else []) ++
      body.serNames.map fun member => { place := .type name :: place, qualifier, member }

def genSerImpls (parents : List Parent) (place : Place) : List TypeDef → List Definition
  | [] => []
  | d :: types => genSerImpl parents place d ++ genSerImpls parents place types

end

mutual

/-- `fullyQualifiedName` is the prefix of the scope around a type, with its name. -/
def genDeserImpl (parents : List Parent) (place : Place) : TypeDef → List Definition
  | .mk name types body =>
    let qualifier := Parent.fullyQualifiedPrefix (.named name :: parents)
    let fullyQualifiedName := Parent.fullyQualifiedPrefix parents ++ name
    (if body.nests then genDeserImpls (.named name :: parents) (.type name :: place) types else []) ++
      body.deserNames.map fun m =>
        { place := .type name :: place
          qualifier
          member := m.1
          returns := if m.2 then some fullyQualifiedName else none }

def genDeserImpls (parents : List Parent) (place : Place) : List TypeDef → List Definition
  | [] => []
  | d :: types => genDeserImpl parents place d ++ genDeserImpls parents place types

end

def genSerialise (parents : List Parent) (place : Place) (d : TypeDef) : List Definition :=
  d.genSerImpl parents place ++ d.genDeserImpl parents place

end TypeDef

namespace Program

variable (k : Nat) (p : Program)

def vtableName : String :=
  p.className ++ "VTable"

/-- The types of a program stand in the class for its implementation, which declares a
`deserialise` for each once more. -/
def genDef : List Declaration :=
  TypeDef.genDefs [p.vtableName] [.program k] p.types ++
    p.types.map fun _ => { place := [.program k], path := [p.vtableName], member := "deserialise" }

def genSerialise : List Definition :=
  p.types.flatMap (TypeDef.genSerialise [.named p.name, .unit] [.program k])

end Program

namespace TrlUnit

variable (u : TrlUnit)

/-- The declarations for types. The header of an import is included, not repeated. -/
def genHeader : List Declaration :=
  TypeDef.genDefs [] [] u.types ++ u.programs.zipIdx.flatMap fun p => p.1.genDef p.2

def genSerialise : List Definition :=
  u.types.flatMap (TypeDef.genSerialise [.unit] []) ++ u.programs.zipIdx.flatMap fun p => p.1.genSerialise p.2

end TrlUnit

/-- The definition is of the declared member, and names the classes around it. -/
structure Definition.Of (d : Definition) (c : Declaration) : Prop where
  place_eq : d.place = c.place
  member_eq : d.member = c.member
  qualifier_eq : d.qualifier = qualifierOf c.path
  returns_eq : ∀ r, d.returns = some r → r ++ "::" = qualifierOf c.path

/-- Each definition has its declaration. -/
def TrlUnit.Matches (u : TrlUnit) : Prop :=
  ∀ d ∈ u.genSerialise, ∃ c ∈ u.genHeader, d.Of c

section Flat

variable (parents : List Parent) (path : List String) (place : Place) (types : List TypeDef)

theorem genDefs_eq : TypeDef.genDefs path place types = types.flatMap (TypeDef.genDef path place) := by
  induction types with
  | nil => rfl
  | cons d types ih => rw [TypeDef.genDefs, ih, List.flatMap_cons]

theorem genSerImpls_eq : TypeDef.genSerImpls parents place types =
    types.flatMap (TypeDef.genSerImpl parents place) := by
  induction types with
  | nil => rfl
  | cons d types ih => rw [TypeDef.genSerImpls, ih, List.flatMap_cons]

theorem genDeserImpls_eq :
    TypeDef.genDeserImpls parents place types = types.flatMap (TypeDef.genDeserImpl parents place) := by
  induction types with
  | nil => rfl
  | cons d types ih => rw [TypeDef.genDeserImpls, ih, List.flatMap_cons]

end Flat

section Types

theorem qualifierOf_append (path : List String) (name : String) :
    qualifierOf (path ++ [name]) = qualifierOf path ++ name ++ "::" := by
  simp [qualifierOf, String.join_append, String.append_assoc]

variable {parents : List Parent} {path : List String} {place : Place} {name member : String}

/-- The scopes around a type are the classes around it. -/
theorem prefix_eq_qualifierOf (h : Parent.fullyQualifiedPrefix parents = qualifierOf path) (name : String) :
    Parent.fullyQualifiedPrefix (.named name :: parents) = qualifierOf (path ++ [name]) := by
  rw [Parent.fullyQualifiedPrefix, h, qualifierOf_append]

/-- A definition for the type itself. -/
theorem exists_of_self (h : Parent.fullyQualifiedPrefix parents = qualifierOf path) {types : List TypeDef}
    {body : TypeBody} (hmember : member ∈ body.memberNames) {returns : Option String}
    (hreturns : ∀ r, returns = some r → r = Parent.fullyQualifiedPrefix parents ++ name) :
    ∃ c ∈ (TypeDef.mk name types body).genDef path place,
      Definition.Of ⟨.type name :: place, Parent.fullyQualifiedPrefix (.named name :: parents), member, returns⟩ c := by
  refine ⟨⟨.type name :: place, path ++ [name], member⟩, ?_, rfl, rfl, prefix_eq_qualifierOf h name, fun r hr => ?_⟩
  · rw [TypeDef.genDef]
    exact List.mem_append_right _ (List.mem_map_of_mem hmember)
  · rw [hreturns r hr, h, qualifierOf_append]

/-- One for a type inside it. -/
theorem exists_of_nested {d : Definition} {t : TypeDef} {types : List TypeDef} {body : TypeBody}
    (hnests : body.nests = true) (ht : t ∈ types)
    (h : ∃ c ∈ t.genDef (path ++ [name]) (.type name :: place), d.Of c) :
    ∃ c ∈ (TypeDef.mk name types body).genDef path place, d.Of c := by
  obtain ⟨c, hc, hof⟩ := h
  refine ⟨c, ?_, hof⟩
  rw [TypeDef.genDef, if_pos hnests, genDefs_eq]
  exact List.mem_append_left _ (List.mem_flatMap.mpr ⟨t, ht, hc⟩)

theorem serNames_subset {body : TypeBody} (h : member ∈ body.serNames) : member ∈ body.memberNames := by
  cases body with
  | enum entries =>
    simp only [TypeBody.serNames, TypeBody.memberNames, List.mem_append, List.mem_cons, List.not_mem_nil,
      or_false] at h ⊢
    exact h.imp_right fun h => h.imp_right Or.inl
  | struct | union => exact List.mem_cons.mpr (Or.inl (List.mem_singleton.mp h))

theorem deserNames_subset {body : TypeBody} {returns : Bool} (h : (member, returns) ∈ body.deserNames) :
    member ∈ body.memberNames := by
  cases body with
  | enum entries =>
    simp only [TypeBody.deserNames, List.mem_cons, Prod.mk.injEq, List.not_mem_nil, or_false] at h
    obtain ⟨rfl, -⟩ | ⟨rfl, -⟩ := h <;> simp [TypeBody.memberNames]
  | struct | union =>
    have heq := List.mem_singleton.mp h
    simp [TypeBody.memberNames, (Prod.mk.inj heq).1]

theorem genSerImpl_of (t : TypeDef) (h : Parent.fullyQualifiedPrefix parents = qualifierOf path) :
    ∀ d ∈ t.genSerImpl parents place, ∃ c ∈ t.genDef path place, d.Of c := by
  induction t using TypeDef.nested_induction generalizing parents path place with
  | mk name types body ih =>
    intro d hd
    rw [TypeDef.genSerImpl] at hd
    rcases List.mem_append.mp hd with hd | hd
    · split at hd
      next hnests =>
        rw [genSerImpls_eq] at hd
        obtain ⟨t, ht, hd⟩ := List.mem_flatMap.mp hd
        exact exists_of_nested hnests ht (ih t ht (prefix_eq_qualifierOf h name) d hd)
      next => cases hd
    · obtain ⟨member, hmember, rfl⟩ := List.mem_map.mp hd
      exact exists_of_self h (serNames_subset hmember) (by simp)

theorem genDeserImpl_of (t : TypeDef) (h : Parent.fullyQualifiedPrefix parents = qualifierOf path) :
    ∀ d ∈ t.genDeserImpl parents place, ∃ c ∈ t.genDef path place, d.Of c := by
  induction t using TypeDef.nested_induction generalizing parents path place with
  | mk name types body ih =>
    intro d hd
    rw [TypeDef.genDeserImpl] at hd
    rcases List.mem_append.mp hd with hd | hd
    · split at hd
      next hnests =>
        rw [genDeserImpls_eq] at hd
        obtain ⟨t, ht, hd⟩ := List.mem_flatMap.mp hd
        exact exists_of_nested hnests ht (ih t ht (prefix_eq_qualifierOf h name) d hd)
      next => cases hd
    · obtain ⟨⟨member, returns⟩, hmember, rfl⟩ := List.mem_map.mp hd
      refine exists_of_self h (deserNames_subset hmember) fun r hr => ?_
      cases returns with
      | true => exact (Option.some_inj.mp hr).symm
      | false => cases hr

theorem genSerialise_of (t : TypeDef) (h : Parent.fullyQualifiedPrefix parents = qualifierOf path) :
    ∀ d ∈ t.genSerialise parents place, ∃ c ∈ t.genDef path place, d.Of c := by
  intro d hd
  rcases List.mem_append.mp hd with hd | hd
  · exact genSerImpl_of t h d hd
  · exact genDeserImpl_of t h d hd

end Types

section Header

variable {path : List String} {place : Place} {c : Declaration}

/-- Where the header has a type: the names on the way to it are those of the classes. -/
theorem genDef_place {t : TypeDef} (h : c ∈ t.genDef path place) :
    ∃ names, c.place = (names.map Step.type).reverse ++ place ∧ c.path = path ++ names := by
  induction t using TypeDef.nested_induction generalizing path place with
  | mk name types body ih =>
    rw [TypeDef.genDef] at h
    rcases List.mem_append.mp h with h | h
    · split at h
      next =>
        rw [genDefs_eq] at h
        obtain ⟨t, ht, hc⟩ := List.mem_flatMap.mp h
        obtain ⟨names, hplace, hpath⟩ := ih t ht hc
        exact ⟨name :: names, by simp [hplace], by simp [hpath]⟩
      next => cases h
    · obtain ⟨member, -, rfl⟩ := List.mem_map.mp h
      exact ⟨[name], rfl, rfl⟩

variable {u : TrlUnit}

theorem mem_programs_of_zipIdx {p : Program × Nat} (h : p ∈ u.programs.zipIdx) : u.programs[p.2]? = some p.1 :=
  List.mem_zipIdx_iff_getElem?.mp h

/-- The class for a type that a program declares is inside that for the program. -/
theorem genHeader_program {name : String} {k : Nat} {p : Program} (hp : u.programs[k]? = some p) (hc : c ∈ u.genHeader)
    (hplace : c.place = [.type name, .program k]) : c.path = [p.vtableName, name] := by
  rcases List.mem_append.mp hc with hc | hc
  · rw [genDefs_eq] at hc
    obtain ⟨t, -, hc⟩ := List.mem_flatMap.mp hc
    obtain ⟨names, hplace', -⟩ := genDef_place hc
    rw [hplace, List.append_nil] at hplace'
    have hmem : Step.program k ∈ (names.map Step.type).reverse := by rw [← hplace']; simp
    simp at hmem
  · obtain ⟨⟨q, j⟩, hq, hc⟩ := List.mem_flatMap.mp hc
    rcases List.mem_append.mp hc with hc | hc
    · rw [genDefs_eq] at hc
      obtain ⟨t, -, hc⟩ := List.mem_flatMap.mp hc
      obtain ⟨names, hplace', hpath⟩ := genDef_place hc
      have hsteps : [Step.program k, .type name] = Step.program j :: names.map Step.type := by
        have hreverse := congrArg List.reverse (hplace.symm.trans hplace')
        simpa using hreverse
      obtain ⟨rfl, hnames⟩ : k = j ∧ names = [name] := by
        refine ⟨by simpa using (List.cons.inj hsteps).1, ?_⟩
        obtain ⟨n, rfl⟩ : ∃ n, names = [n] := by
          have hlength := congrArg List.length (List.cons.inj hsteps).2
          exact List.length_eq_one_iff.mp (by simpa using hlength.symm)
        have htail := (List.cons.inj hsteps).2
        simpa using htail.symm
      have hqp : q = p := by
        have hget := (mem_programs_of_zipIdx hq).symm.trans hp
        exact Option.some_inj.mp hget
      rw [hpath, hnames, hqp]
      rfl
    · obtain ⟨t, -, rfl⟩ := List.mem_map.mp hc
      cases hplace

/-- `VTable` is no part of what a program's types are qualified with. -/
theorem qualifier_program_ne (p : Program) (name : String) :
    Parent.fullyQualifiedPrefix [.named name, .named p.name, .unit] ≠ qualifierOf [p.vtableName, name] := by
  intro heq
  have hlength := congrArg String.length heq
  have hvtable : "VTable".length = 6 := by decide
  simp [Parent.fullyQualifiedPrefix, qualifierOf, Program.vtableName, Program.className] at hlength
  omega

end Header

/-- What is declared and what is defined match only where no program has types of its own. -/
theorem TrlUnit.Matches.types_eq_nil {u : TrlUnit} (h : u.Matches) : ∀ p ∈ u.programs, p.types = [] := by
  intro p hp
  by_contra hne
  obtain ⟨t, types, htypes⟩ := List.exists_cons_of_ne_nil hne
  obtain ⟨k, hk⟩ := List.mem_iff_getElem?.mp hp
  obtain ⟨name, nested, body⟩ := t
  let d : Definition :=
    { place := [.type name, .program k]
      qualifier := Parent.fullyQualifiedPrefix [.named name, .named p.name, .unit]
      member := "serialise" }
  have hdefined : d ∈ (TypeDef.mk name nested body).genSerialise [.named p.name, .unit] [.program k] := by
    refine List.mem_append_left _ ?_
    rw [TypeDef.genSerImpl]
    refine List.mem_append_right _ (List.mem_map.mpr ⟨"serialise", ?_, rfl⟩)
    cases body <;> simp [TypeBody.serNames]
  have hd : d ∈ u.genSerialise := by
    refine List.mem_append_right _ (List.mem_flatMap.mpr ⟨(p, k), List.mem_zipIdx_iff_getElem?.mpr hk, ?_⟩)
    exact List.mem_flatMap.mpr ⟨_, by rw [htypes]; exact List.mem_cons_self, hdefined⟩
  obtain ⟨c, hc, hof⟩ := h d hd
  have hpath := genHeader_program hk hc hof.place_eq.symm
  have hqualifier := hof.qualifier_eq
  rw [hpath] at hqualifier
  exact qualifier_program_ne p name hqualifier

/-- The definitions have their declarations exactly if no program declares types. -/
theorem genSerialise_matches_iff (u : TrlUnit) : u.Matches ↔ ∀ p ∈ u.programs, p.types = [] := by
  constructor
  · intro h
    exact h.types_eq_nil
  · intro h d hd
    rcases List.mem_append.mp hd with hd | hd
    · obtain ⟨t, ht, hd⟩ := List.mem_flatMap.mp hd
      have hunit : Parent.fullyQualifiedPrefix [.unit] = qualifierOf [] := rfl
      obtain ⟨c, hc, hof⟩ := genSerialise_of t hunit d hd
      refine ⟨c, List.mem_append_left _ ?_, hof⟩
      rw [genDefs_eq]
      exact List.mem_flatMap.mpr ⟨t, ht, hc⟩
    · obtain ⟨p, hp, hd⟩ := List.mem_flatMap.mp hd
      have hnone := h p.1 (List.mem_of_getElem? (mem_programs_of_zipIdx hp))
      rw [Program.genSerialise, hnone] at hd
      cases hd

/-- A program with a type of its own. -/
def statusUnit : TrlUnit :=
  .mk [] []
    [{ name := "Manager"
       types := [.mk "Status" [] (.enum [{ id := "kUp" }, { id := "kDown" }])]
       versions := [{ num := 1, methods := [{ retType := { type := "Status" }, name := "status", args := [] }]
                      methods_ne_nil := by simp }]
       versions_ne_nil := by simp }]

/-- `Manager::Status::serialise` is defined, and `ManagerVTable::Status::serialise` declared. -/
theorem genSerialise_not_matches : ¬statusUnit.Matches := by
  intro h
  have hnone := h.types_eq_nil _ List.mem_cons_self
  cases hnone

end ServiceManager.Wsrpcgen.Idl
