import Mathlib.Algebra.BigOperators.Group.List.Basic
import Mathlib.Algebra.GroupWithZero.Nat
import Mathlib.Data.List.Perm.Basic
import ServiceManager.AddSys.Dependencies

namespace ServiceManager

/-- The members of a dictionary. -/
def Ucl.members : Ucl → List (String × Ucl)
  | .object members => members
  | _ => []

namespace AddSys

/-- The value of a property: a string, or a page with properties of its own. -/
inductive IsProperty : Ucl → Prop
  | string (s : String) : IsProperty (.string s)
  | page {members : List (String × Ucl)} : (∀ m ∈ members, IsProperty m.2) → IsProperty (.object members)

def IsDependencies (v : Ucl) : Prop :=
  ∃ deps : Dependencies, v = deps.ucl

/-- A dictionary of pages, one for each method. -/
def IsMethods (v : Ucl) : Prop :=
  ∃ pages, v = .object pages ∧ ∀ m ∈ pages, ∃ members, m.2 = .object members ∧ IsProperty m.2

/-- The keys of an instance that do not name properties. -/
def instanceReserved : List String :=
  ["name", "depends", "dependents", "methods"]

def classReserved : List String :=
  instanceReserved ++ ["instances"]

/-- What the manual allows under a key of an instance. -/
def InstanceElement (m : String × Ucl) : Prop :=
  match m.1 with
  | "depends" => IsDependencies m.2
  | "dependents" => IsDependencies m.2
  | "methods" => IsMethods m.2
  | _ => IsProperty m.2

/-- What the manual allows under a key of a class. -/
def ClassElement (m : String × Ucl) : Prop :=
  match m.1 with
  | "name" => ∃ s, m.2 = .string s
  | "depends" => IsDependencies m.2
  | "dependents" => IsDependencies m.2
  | "instances" => ∃ insts, m.2 = .object insts ∧ ∀ inst ∈ insts, ∃ members, inst.2 = .object members ∧
      ∀ m ∈ members, InstanceElement m
  | "methods" => IsMethods m.2
  | _ => IsProperty m.2

/-- A bundle as the manual has it. -/
structure WellFormed (bundle : List (String × Ucl)) : Prop where
  elements : ∀ m ∈ bundle, ClassElement m
  name : ∃ m ∈ bundle, m.1 = "name"

/-- A property has the key, the value and the nesting of a member. A page may have a `type`
besides. -/
inductive Renders : String × Ucl → Property → Prop
  | string (key s : String) : Renders (key, .string s) (.string key s)
  | page {key : String} {members : List (String × Ucl)} {rendered props : List Property} (kind : Option String) :
      List.Forall₂ Renders members rendered →
      props.Perm (kind.toList.map (Property.string "type") ++ rendered) →
      Renders (key, .object members) (.page key props)

/-- The members that have a property each: what a key that is not reserved names, and the
methods. -/
def required (reserved : List String) (m : String × Ucl) : List (String × Ucl) :=
  if m.1 = "methods" then m.2.members else if m.1 ∈ reserved then [] else [m]

/-- The pages for the dependencies. -/
def dependencyPages (m : String × Ucl) : List Property :=
  if m.1 = "depends" then (processDeps (some m.1) m.2 false).getD []
  else if m.1 = "dependents" then (processDeps (some m.1) m.2 true).getD []
  else []

/-- Each property is there once. The rest are the pages for dependencies. -/
def Keeps (reserved : List String) (members : List (String × Ucl)) (props : List Property) : Prop :=
  ∃ kept, List.Forall₂ Renders (members.flatMap (required reserved)) kept ∧
    props.Perm (kept ++ members.flatMap dependencyPages)

def instancesOf (bundle : List (String × Ucl)) : List (String × Ucl) :=
  bundle.flatMap fun m => if m.1 = "instances" then m.2.members else []

/-- No property of the bundle is dropped. -/
structure KeepsAll (bundle : List (String × Ucl)) (cls : Class) : Prop where
  properties : Keeps classReserved bundle cls.properties
  instances : List.Forall₂ (fun inst nst => nst.name = inst.1 ∧ Keeps instanceReserved inst.2.members nst.properties)
    (instancesOf bundle) cls.instances

/-- The pages of methods have no pages in them. -/
def FlatMethods (m : String × Ucl) : Prop :=
  m.1 = "methods" → ∀ page ∈ m.2.members, ∀ p ∈ page.2.members, ∃ s, p.2 = .string s

/-- A bundle without pages but those of methods, and without properties of instances. -/
structure Flat (bundle : List (String × Ucl)) : Prop where
  properties : ∀ m ∈ bundle, m.1 ∉ classReserved → ∃ s, m.2 = .string s
  methods : ∀ m ∈ bundle, FlatMethods m
  instanceProperties : ∀ inst ∈ instancesOf bundle, ∀ m ∈ inst.2.members, m.1 ∈ instanceReserved
  instanceMethods : ∀ inst ∈ instancesOf bundle, ∀ m ∈ inst.2.members, FlatMethods m

section Methods

variable {key : String} {v : Ucl} {props : List Property}

theorem processEach_singleton {α β : Type} {f : α → Option β} {l : List α} {ys : List β} :
    processEach (fun x => (f x).map fun y => [y]) l = some ys ↔ List.Forall₂ (fun x y => f x = some y) l ys := by
  induction l generalizing ys with
  | nil => simp [processEach, eq_comm]
  | cons x rest ih =>
    simp only [processEach, Option.bind_eq_some_iff, Option.map_eq_some_iff, ih]
    constructor
    · rintro ⟨_, ⟨y, hx, rfl⟩, ys, hrest, rfl⟩
      exact .cons hx hrest
    · intro hall
      cases hall with
      | cons hx hrest => exact ⟨_, ⟨_, hx, rfl⟩, _, hrest, rfl⟩

/-- The page of a method that has been processed. -/
theorem renders_of_processPage {m : String × Ucl} {page : Property}
    (h : processPage (some m.1) (some "method") m.2 = some page) :
    Renders m page ∧ ∀ p ∈ m.2.members, ∃ s, p.2 = .string s := by
  obtain ⟨key, v⟩ := m
  obtain ⟨members, props, rfl, hprops, rfl⟩ := processPage_method_eq_some_iff.mp h
  have hall := processMembers_eq_some_iff.mp hprops
  refine ⟨.page none (hall.imp fun m prop hm => ?_) (List.Perm.refl _), ?_⟩
  · obtain ⟨key, v⟩ := m
    obtain ⟨s, rfl, rfl⟩ := hm
    exact .string key s
  · exact isSome_processMembers.mp (Option.isSome_iff_exists.mpr ⟨props, hprops⟩)

theorem renders_of_processMethods (hv : IsMethods v) (h : processMethods (some key) v = some props) :
    List.Forall₂ Renders v.members props ∧ ∀ page ∈ v.members, ∀ p ∈ page.2.members, ∃ s, p.2 = .string s := by
  obtain ⟨pages, rfl, _⟩ := hv
  rw [processMethods, Ucl.iterate, processEach_map, processEach_singleton] at h
  refine ⟨h.imp fun m page hm => (renders_of_processPage hm).1, fun page hpage => ?_⟩
  obtain ⟨prop, _, hprop⟩ := exists_right_of_forall₂ h hpage
  exact (renders_of_processPage hprop).2

theorem isSome_processMethods (hv : IsMethods v)
    (hflat : ∀ page ∈ v.members, ∀ p ∈ page.2.members, ∃ s, p.2 = .string s) :
    (processMethods (some key) v).isSome := by
  obtain ⟨pages, rfl, hpages⟩ := hv
  rw [processMethods, Ucl.iterate, processEach_map, isSome_processEach]
  intro m hm
  obtain ⟨members, hmembers, _⟩ := hpages m hm
  have hsome : (processMembers members).isSome := by
    rw [isSome_processMembers]
    have hpage := hflat m hm
    rwa [hmembers] at hpage
  rw [hmembers, processPage]
  simpa using hsome

end Methods

/-- What one member adds: its properties, and the pages for dependencies. -/
def Adds (reserved : List String) (m : String × Ucl) (props : List Property) : Prop :=
  ∃ kept, List.Forall₂ Renders (required reserved m) kept ∧ props.Perm (kept ++ dependencyPages m)

section Elements

variable {m : String × Ucl} {members : List (String × Ucl)} {reserved : List String} {props : List Property}
  {propss : List (List Property)}

theorem keeps_flatten (h : List.Forall₂ (Adds reserved) members propss) : Keeps reserved members propss.flatten := by
  induction h with
  | nil => exact ⟨[], .nil, .refl _⟩
  | @cons m props members propss hhead _ ih =>
    obtain ⟨kept, hkept, hperm⟩ := hhead
    obtain ⟨kepts, hkepts, hperms⟩ := ih
    refine ⟨kept ++ kepts, List.rel_append hkept hkepts, ?_⟩
    rw [List.flatten_cons, List.flatMap_cons]
    refine (hperm.append hperms).trans ?_
    -- the pages of the first member are moved behind the properties of the others
    rw [List.append_assoc, List.append_assoc, ← List.append_assoc _ kepts, ← List.append_assoc kepts]
    exact (List.perm_append_comm.append_right _).append_left _

theorem Keeps.length_eq (h : Keeps reserved members props) :
    props.length = (members.flatMap (required reserved)).length + (members.flatMap dependencyPages).length := by
  obtain ⟨kept, hkept, hperm⟩ := h
  rw [hperm.length_eq, List.length_append, hkept.length_eq]

/-- What an element of an instance adds to it. -/
def instanceElement (m : String × Ucl) : Option (List Property) :=
  match m.1 with
  | "depends" => processDeps (some m.1) m.2 false
  | "dependents" => processDeps (some m.1) m.2 true
  | "methods" => processMethods (some m.1) m.2
  | _ => some []

theorem processInst_eq_some_iff {name : String} {nst : Instance} :
    processInst (some name) (.object members) = some nst ↔
      ∃ propss, List.Forall₂ (fun m props => instanceElement m = some props) members propss ∧
        nst = ⟨name, propss.flatten⟩ := by
  rw [processInst, Option.bind_some, Ucl.iterate, processEach_map, Option.map_eq_some_iff]
  simp only [Option.bind_some, processEach_eq_some_iff]
  constructor
  · rintro ⟨_, ⟨propss, hall, rfl⟩, rfl⟩
    exact ⟨propss, hall, rfl⟩
  · rintro ⟨propss, hall, rfl⟩
    exact ⟨_, ⟨propss, hall, rfl⟩, rfl⟩

theorem adds_dependencies {v : Ucl} {key : String} (hkey : key ∈ ["depends", "dependents"]) (hreserved : key ∈ reserved)
    (h : processDeps (some key) v (key = "dependents") = some props) : Adds reserved (key, v) props := by
  have hpages : dependencyPages (key, v) = props ∧ key ≠ "methods" := by
    simp only [List.mem_cons, List.not_mem_nil, or_false] at hkey
    obtain rfl | rfl := hkey <;> simp_all [dependencyPages]
  refine ⟨[], ?_, ?_⟩
  · rw [required, if_neg hpages.2, if_pos hreserved]
    exact .nil
  · rw [hpages.1, List.nil_append]

theorem adds_methods {v : Ucl} (hv : IsMethods v) (h : processMethods (some "methods") v = some props) :
    FlatMethods ("methods", v) ∧ Adds reserved ("methods", v) props := by
  obtain ⟨hrenders, hflat⟩ := renders_of_processMethods hv h
  refine ⟨fun _ => hflat, props, hrenders, ?_⟩
  simp [dependencyPages]

/-- What is neither a property nor a method nor a dependency adds nothing. -/
theorem adds_nil {v : Ucl} {key : String} (hreserved : key ∈ reserved)
    (hkey : key ∉ ["depends", "dependents", "methods"]) :
    Adds reserved (key, v) [] := by
  simp only [List.mem_cons, List.not_mem_nil, or_false, not_or] at hkey
  obtain ⟨hdepends, hdependents, hmethods⟩ := hkey
  refine ⟨[], ?_, ?_⟩
  · rw [required, if_neg hmethods, if_pos hreserved]
    exact .nil
  · simp [dependencyPages, hdepends, hdependents]

theorem isSome_processInst {name : String} :
    (processInst (some name) (.object members)).isSome ↔ ∀ m ∈ members, (instanceElement m).isSome := by
  rw [processInst, Option.bind_some, Ucl.iterate, processEach_map, Option.isSome_map, isSome_processEach]
  rfl

/-- An element of an instance is added, unless it is a property. -/
theorem instanceElement_spec (hm : InstanceElement m) (h : instanceElement m = some props) :
    FlatMethods m ∧ (m.1 ∈ instanceReserved → Adds instanceReserved m props) ∧
    (m.1 ∉ instanceReserved → props = []) := by
  obtain ⟨key, v⟩ := m
  simp only [instanceElement] at h
  split at h
  · exact ⟨by simp [FlatMethods], fun hreserved => adds_dependencies (by simp) hreserved h, by simp [instanceReserved]⟩
  · exact ⟨by simp [FlatMethods], fun hreserved => adds_dependencies (by simp) hreserved h, by simp [instanceReserved]⟩
  · obtain ⟨hflat, hadds⟩ := adds_methods hm h
    exact ⟨hflat, fun _ => hadds, by simp [instanceReserved]⟩
  · obtain rfl := Option.some_inj.mp h
    refine ⟨by simp_all [FlatMethods], fun hreserved => adds_nil hreserved (by simp_all), fun _ => rfl⟩

section Lengths

variable {n : String × Ucl → Nat} {R : String × Ucl → List Property → Prop}
    (hle : ∀ m props, R m props → props.length ≤ n m)

include hle

theorem length_flatten_le (h : List.Forall₂ R members propss) : propss.flatten.length ≤ (members.map n).sum := by
  induction h with
  | nil => simp
  | cons hhead _ ih =>
    have hfirst := hle _ _ hhead
    rw [List.flatten_cons, List.length_append, List.map_cons, List.sum_cons]
    omega

/-- Lists that are as long together as they can be are as long one by one. -/
theorem length_eq_of_flatten (h : List.Forall₂ R members propss)
    (htotal : propss.flatten.length = (members.map n).sum) :
    List.Forall₂ (fun m props => R m props ∧ props.length = n m) members propss := by
  induction h with
  | nil => exact .nil
  | cons hhead hrest ih =>
    have hfirst := hle _ _ hhead
    have hothers := length_flatten_le hle hrest
    rw [List.flatten_cons, List.length_append, List.map_cons, List.sum_cons] at htotal
    exact .cons ⟨hhead, by omega⟩ (ih (by omega))

end Lengths

theorem Adds.length_eq (h : Adds reserved m props) :
    props.length = (required reserved m).length + (dependencyPages m).length := by
  obtain ⟨kept, hkept, hperm⟩ := h
  rw [hperm.length_eq, List.length_append, hkept.length_eq]

/-- How much of a member there is to keep. -/
def load (m : String × Ucl) : Nat :=
  (required instanceReserved m).length + (dependencyPages m).length

/-- A property of an instance is to be kept, and is not. -/
theorem load_pos (h : m.1 ∉ instanceReserved) : 0 < load m := by
  have hmethods : m.1 ≠ "methods" := fun heq => h (by simp [heq, instanceReserved])
  rw [load, required, if_neg hmethods, if_neg h, List.length_singleton]
  omega

theorem instanceElement_length_le (hm : InstanceElement m) (h : instanceElement m = some props) :
    props.length ≤ load m := by
  obtain ⟨_, hadds, hnone⟩ := instanceElement_spec hm h
  by_cases hreserved : m.1 ∈ instanceReserved
  · exact le_of_eq (hadds hreserved).length_eq
  · simp [hnone hreserved]

/-- An instance keeps its properties exactly if it has none. -/
theorem keeps_instance_iff (hm : ∀ m ∈ members, InstanceElement m)
    (h : List.Forall₂ (fun m props => instanceElement m = some props) members propss) :
    Keeps instanceReserved members propss.flatten ↔ ∀ m ∈ members, m.1 ∈ instanceReserved := by
  have hall : List.Forall₂ (fun m props => InstanceElement m ∧ instanceElement m = some props) members propss :=
    forall₂_of_mem h fun m hmem _ hprops => ⟨hm m hmem, hprops⟩
  constructor
  · intro hkeeps m hmem
    have htotal : propss.flatten.length = (members.map load).sum := by
      rw [hkeeps.length_eq, List.length_flatMap, List.length_flatMap]
      exact List.sum_map_add.symm
    obtain ⟨props, _, ⟨helement, hprops⟩, hlength⟩ :=
      exists_right_of_forall₂ (length_eq_of_flatten (fun _ _ h => instanceElement_length_le h.1 h.2) hall htotal) hmem
    by_contra hnot
    have hpos := load_pos hnot
    rw [(instanceElement_spec helement hprops).2.2 hnot, List.length_nil] at hlength
    omega
  · intro hreserved
    refine keeps_flatten (forall₂_of_mem h fun m hmem props hprops => ?_)
    exact (instanceElement_spec (hm m hmem) hprops).2.1 (hreserved m hmem)

theorem isSome_processDeps {key : Option String} {v : Ucl} (isDependents : Bool) (hv : IsDependencies v) :
    (processDeps key v isDependents).isSome := by
  obtain ⟨deps, rfl⟩ := hv
  rw [processDeps_ucl]
  rfl

theorem isSome_instanceElement (hm : InstanceElement m) (hflat : FlatMethods m) : (instanceElement m).isSome := by
  obtain ⟨key, v⟩ := m
  simp only [instanceElement]
  split
  · exact isSome_processDeps false hm
  · exact isSome_processDeps true hm
  · exact isSome_processMethods hm (hflat rfl)
  · rfl

/-- An element of a class is added, with nothing lost. -/
theorem classElement_spec {part : Class} (hm : ClassElement m)
    (h : processElement ⟨"", [], []⟩ (some m.1, m.2) = some part) :
    FlatMethods m ∧ (m.1 ∉ classReserved → ∃ s, m.2 = .string s) ∧ Adds classReserved m part.properties ∧
      List.Forall₂ (fun inst nst => processInst (some inst.1) inst.2 = some nst) (instancesOf [m]) part.instances := by
  obtain ⟨key, v⟩ := m
  simp only [processElement, Option.bind_some] at h
  split at h
  · obtain ⟨name, _, rfl⟩ := Option.map_eq_some_iff.mp h
    exact ⟨by simp [FlatMethods], by simp [classReserved, instanceReserved],
      adds_nil (by simp [classReserved, instanceReserved]) (by simp), .nil⟩
  · obtain ⟨props, hprops, rfl⟩ := Option.map_eq_some_iff.mp h
    exact ⟨by simp [FlatMethods], by simp [classReserved, instanceReserved],
      adds_dependencies (by simp) (by simp [classReserved, instanceReserved]) hprops, .nil⟩
  · obtain ⟨props, hprops, rfl⟩ := Option.map_eq_some_iff.mp h
    exact ⟨by simp [FlatMethods], by simp [classReserved, instanceReserved],
      adds_dependencies (by simp) (by simp [classReserved, instanceReserved]) hprops, .nil⟩
  · obtain ⟨insts, hinsts, rfl⟩ := Option.map_eq_some_iff.mp h
    obtain ⟨members, rfl, _⟩ := hm
    rw [Ucl.iterate, processEach_map, processEach_singleton] at hinsts
    refine ⟨by simp [FlatMethods], by simp [classReserved, instanceReserved],
      adds_nil (by simp [classReserved, instanceReserved]) (by simp), ?_⟩
    simpa [instancesOf, Ucl.members] using hinsts
  · obtain ⟨props, hprops, rfl⟩ := Option.map_eq_some_iff.mp h
    obtain ⟨hflat, hadds⟩ := adds_methods hm hprops
    exact ⟨hflat, by simp [classReserved, instanceReserved], hadds, .nil⟩
  · rename_i hname hdepends hdependents hinstances hmethods
    change key ≠ _ at hdepends hdependents hinstances hmethods
    obtain ⟨props, hprops, rfl⟩ := Option.map_eq_some_iff.mp h
    obtain ⟨s, rfl, rfl⟩ := processProp_eq_some_iff.mp hprops
    refine ⟨by simp [FlatMethods, hmethods], fun _ => ⟨s, rfl⟩, ⟨[.string key s], ?_, ?_⟩, ?_⟩
    · have hreserved : key ∉ classReserved := by simp_all [classReserved, instanceReserved]
      rw [required, if_neg hmethods, if_neg hreserved]
      exact .cons (.string key s) .nil
    · simp [dependencyPages, hdepends, hdependents]
    · simp [instancesOf, hinstances]

/-- No member of a bundle that the manual allows makes `processElement` fail. -/
theorem isSome_classElement (hm : ClassElement m) (hflat : FlatMethods m)
    (hstring : m.1 ∉ classReserved → ∃ s, m.2 = .string s)
    (hinstances : ∀ inst ∈ instancesOf [m], ∀ m ∈ inst.2.members, FlatMethods m) :
    (processElement ⟨"", [], []⟩ (some m.1, m.2)).isSome := by
  obtain ⟨key, v⟩ := m
  simp only [processElement, Option.bind_some]
  split
  · obtain ⟨name, rfl⟩ := hm
    rfl
  · simpa using isSome_processDeps false hm
  · simpa using isSome_processDeps true hm
  · obtain ⟨insts, rfl, hinsts⟩ := hm
    rw [Option.isSome_map, Ucl.iterate, processEach_map, isSome_processEach]
    intro inst hinst
    obtain ⟨members, hmembers, helements⟩ := hinsts inst hinst
    have hflat' : ∀ m ∈ inst.2.members, FlatMethods m :=
      hinstances inst (by simpa [instancesOf, Ucl.members] using hinst)
    rw [hmembers] at hflat' ⊢
    rw [Option.isSome_map, isSome_processInst]
    exact fun m hm => isSome_instanceElement (helements m hm) (hflat' m hm)
  · simpa using isSome_processMethods hm (hflat rfl)
  · rename_i hname hdepends hdependents hinstances' hmethods
    have hreserved : key ∉ classReserved := by simp_all [classReserved, instanceReserved]
    obtain ⟨s, rfl⟩ := hstring hreserved
    rfl

end Elements

section Process

variable {bundle : List (String × Ucl)} {cls : Class} (h : WellFormed bundle)

theorem instancesOf_eq_flatMap (bundle : List (String × Ucl)) :
    instancesOf bundle = bundle.flatMap fun m => instancesOf [m] := by
  simp [instancesOf]

include h

/-- What has been processed: the class keeps its properties, and the instances have been
processed. -/
theorem process_spec (hprocess : process (.object bundle) = some cls) :
    (∀ m ∈ bundle, FlatMethods m) ∧ (∀ m ∈ bundle, m.1 ∉ classReserved → ∃ s, m.2 = .string s) ∧
      Keeps classReserved bundle cls.properties ∧
      List.Forall₂ (fun inst nst => processInst (some inst.1) inst.2 = some nst)
        (instancesOf bundle) cls.instances := by
  rw [process, Ucl.iterate] at hprocess
  obtain ⟨parts, hparts, hinstances, hproperties⟩ := foldlM_processElement_eq_some hprocess
  rw [List.forall₂_map_left_iff] at hparts
  have hspec := forall₂_of_mem hparts fun m hm part hpart => classElement_spec (h.elements m hm) hpart
  refine ⟨fun m hm => ?_, fun m hm => ?_, ?_, ?_⟩
  · obtain ⟨part, _, hflat, _⟩ := exists_right_of_forall₂ hspec hm
    exact hflat
  · obtain ⟨part, _, _, hstring, _⟩ := exists_right_of_forall₂ hspec hm
    exact hstring
  · have hadds : List.Forall₂ (Adds classReserved) bundle (parts.map Class.properties) := by
      rw [List.forall₂_map_right_iff]
      exact hspec.imp fun _ _ hm => hm.2.2.1
    rw [hproperties, List.nil_append, List.flatMap_def]
    exact keeps_flatten hadds
  · rw [hinstances, List.nil_append, instancesOf_eq_flatMap]
    exact List.rel_flatMap hspec fun _ _ hm => hm.2.2.2

/-- An instance is a dictionary of the elements that the manual allows. -/
theorem instance_elements {inst : String × Ucl} (hinst : inst ∈ instancesOf bundle) :
    ∃ members, inst.2 = .object members ∧ ∀ m ∈ members, InstanceElement m := by
  obtain ⟨m, hm, hmem⟩ := List.mem_flatMap.mp hinst
  split at hmem
  · rename_i hkey
    have helement := h.elements m hm
    simp only [ClassElement, hkey] at helement
    obtain ⟨insts, hinsts, hall⟩ := helement
    rw [hinsts] at hmem
    exact hall inst hmem
  · cases hmem

theorem isSome_process_of_flat (hflat : Flat bundle) : (process (.object bundle)).isSome := by
  rw [isSome_process]
  intro m hm
  refine isSome_classElement (h.elements m hm) (hflat.methods m hm) (hflat.properties m hm) fun inst hinst => ?_
  refine hflat.instanceMethods inst ?_
  rw [instancesOf_eq_flatMap]
  exact List.mem_flatMap.mpr ⟨m, hm, hinst⟩

end Process

/-- The class keeps every property of a well-formed bundle exactly if the bundle is flat. -/
theorem process_keepsAll_iff (bundle : List (String × Ucl)) (h : WellFormed bundle) :
    (∃ cls, process (.object bundle) = some cls ∧ KeepsAll bundle cls) ↔ Flat bundle := by
  -- each instance keeps what it has exactly if it has no properties
  have hinst : ∀ inst ∈ instancesOf bundle, ∀ nst, processInst (some inst.1) inst.2 = some nst →
      (∀ m ∈ inst.2.members, FlatMethods m) ∧ nst.name = inst.1 ∧
        (Keeps instanceReserved inst.2.members nst.properties ↔ ∀ m ∈ inst.2.members, m.1 ∈ instanceReserved) := by
    intro inst hinst nst hnst
    obtain ⟨members, hmembers, helements⟩ := instance_elements h hinst
    rw [hmembers] at hnst ⊢
    obtain ⟨propss, hall, rfl⟩ := processInst_eq_some_iff.mp hnst
    refine ⟨fun m hm => ?_, rfl, keeps_instance_iff helements hall⟩
    obtain ⟨props, _, hprops⟩ := exists_right_of_forall₂ hall hm
    exact (instanceElement_spec (helements m hm) hprops).1
  constructor
  · intro ⟨cls, hprocess, hkeeps⟩
    obtain ⟨hmethods, hproperties, _, hinstances⟩ := process_spec h hprocess
    have hboth := forall₂_and hinstances hkeeps.instances
    refine ⟨hproperties, hmethods, fun inst hmem => ?_, fun inst hmem => ?_⟩
    · obtain ⟨nst, _, hnst, _, hkept⟩ := exists_right_of_forall₂ hboth hmem
      exact (hinst inst hmem nst hnst).2.2.mp hkept
    · obtain ⟨nst, _, hnst, _⟩ := exists_right_of_forall₂ hboth hmem
      exact (hinst inst hmem nst hnst).1
  · intro hflat
    obtain ⟨cls, hprocess⟩ := Option.isSome_iff_exists.mp (isSome_process_of_flat h hflat)
    obtain ⟨_, _, hproperties, hinstances⟩ := process_spec h hprocess
    refine ⟨cls, hprocess, hproperties, forall₂_of_mem hinstances fun inst hmem nst hnst => ?_⟩
    obtain ⟨_, hname, hkeeps⟩ := hinst inst hmem nst hnst
    exact ⟨hname, hkeeps.mpr (hflat.instanceProperties inst hmem)⟩

/-- A class with a property, dependencies, a method and an instance. -/
def bundleB : List (String × Ucl) :=
  [("name", .string "B"), ("testProp", .string "hello"),
    ("depends", .object [("after", .array [.string "a"]), ("requires", .array [.string "a", .string "nonexistent"])]),
    ("methods", .object [("execStart", .object [("command", .string "a b c")])]),
    ("instances", .object [("a", .object [])])]

theorem bundleB_wellFormed : WellFormed bundleB where
  elements := by
    simp only [bundleB, List.forall_mem_cons]
    refine ⟨⟨_, rfl⟩, .string _, ⟨[("after", ["a"]), ("requires", ["a", "nonexistent"])], rfl⟩, ?_, ?_, by simp⟩
    · refine ⟨_, rfl, List.forall_mem_singleton.mpr ⟨_, rfl, .page (List.forall_mem_singleton.mpr (.string _))⟩⟩
    · exact ⟨_, rfl, List.forall_mem_singleton.mpr ⟨[], rfl, by simp⟩⟩
  name := ⟨_, List.mem_cons_self, rfl⟩

theorem bundleB_flat : Flat bundleB where
  properties := by simp [bundleB, classReserved, instanceReserved]
  methods := by simp [bundleB, FlatMethods, Ucl.members]
  instanceProperties := by simp [bundleB, instancesOf, Ucl.members]
  instanceMethods := by simp [bundleB, instancesOf, Ucl.members]

theorem process_keepsAll_bundleB : ∃ cls, process (.object bundleB) = some cls ∧ KeepsAll bundleB cls :=
  (process_keepsAll_iff bundleB bundleB_wellFormed).mpr bundleB_flat

/-- A page with a string in it. -/
theorem process_page :
    let bundle := [("name", .string "A"), ("page", .object [("aStringProp", .string "someThing")])]
    WellFormed bundle ∧ process (.object bundle) = none ∧ ¬∃ cls, process (.object bundle) = some cls ∧
    KeepsAll bundle cls := by
  have hnone : process (.object [("name", .string "A"), ("page", .object [("aStringProp", .string "someThing")])]) =
      none := rfl
  refine ⟨⟨?_, ⟨_, List.mem_cons_self, rfl⟩⟩, hnone, fun ⟨cls, hprocess, _⟩ => ?_⟩
  · simp only [List.forall_mem_cons]
    exact ⟨⟨_, rfl⟩, .page (List.forall_mem_singleton.mpr (.string _)), by simp⟩
  · rw [hnone] at hprocess
    cases hprocess

end AddSys

end ServiceManager
