import ServiceManager.AddSys.BundleSchema
import ServiceManager.AddSys.View

namespace ServiceManager

open Sql

namespace AddSys

/-- What a run of the program is given: the arguments of `-l`, the full path of the bundle,
and what libucl reads from it, if it does. -/
structure Invocation where
  layers : List String
  path : String
  file : Option Ucl

/-- The layer that the arguments of `-l` leave. One that is not a layer ends the program, as
does none at all. -/
def Invocation.layer (inv : Invocation) : Option Int :=
  let chosen : Option Int := inv.layers.foldlM (fun _ arg =>
    if arg = "1" then some 1 else if arg = "2" then some 2 else if arg = "3" then some 3 else if arg = "4" then
      some 4 else none) 0
  chosen.bind fun layer => if layer = 0 then none else some layer

section Program

/- `validate` is what libucl says of an object and the schema of bundles. -/
variable (affinity : String → SqlValue) (validate : Ucl → Bool)

/-- The classes that there are to import, unless the program ends before. -/
def Invocation.parse (inv : Invocation) : Option (List Class) :=
  match inv.file with
  | none => some []
  | some obj => if validate obj then (process obj).map fun cls => [cls] else some []

/-- One run of the program. -/
def main (r : Repository) (inv : Invocation) : Repository :=
  match inv.layer with
  | none => r
  | some layer =>
    match inv.parse validate with
    | none => r
    | some classes => classes.foldl (fun r klass => runJob affinity r ⟨layer, inv.path, klass⟩) r

/-- The program run once for each invocation. -/
def mains (invs : List Invocation) (r : Repository) : Repository :=
  invs.foldl (main affinity validate) r

end Program

/-- The elements with keys that libucl iterates over. -/
def elements (m : String × Ucl) : List (String × Ucl) :=
  (m.2.iterate (some m.1)).filterMap fun elt => elt.1.map fun key => (key, elt.2)

/-- The keys of the pages for methods and dependencies. -/
def pageKeys (m : String × Ucl) : List String :=
  if m.1 = "methods" then (elements m).map Prod.fst else (dependencyPages m).map Property.key

/-- What a bundle calls its service. -/
def serviceName (bundle : Ucl) : String :=
  (bundle.iterate none).foldl (fun name elt => if elt.1 = some "name" then elt.2.toString?.getD name else name) ""

/-- The bundle has something of the key for the instance: at level 0 for all instances of its
service, at level 1 below the name of the instance. What an instance is given is pages for
methods and dependencies. -/
def Names (bundle : Ucl) (nst : String) (level : Nat) (key : String) : Prop :=
  level = 0 ∧ (∃ m ∈ bundle.members, if m.1 ∈ classReserved then key ∈ pageKeys m else key = m.1) ∨
    level = 1 ∧ ∃ m ∈ bundle.members, m.1 = "instances" ∧ ∃ inst ∈ elements m, inst.1 = nst ∧
      ∃ elt ∈ elements inst, key ∈ pageKeys elt

/-- The bundles of the files that were imported, with their layers. -/
abbrev Documents : Type := SqlValue → Option (Layer × Ucl)

/-- A run puts the bundle in place of what the file had, provided it passes. -/
def Documents.add (affinity : String → SqlValue) (validate : Ucl → Bool) (r : Repository) (docs : Documents)
    (inv : Invocation) : Documents :=
  match inv.layer, inv.file with
  | some layer, some bundle =>
    if h : layer = 1 ∨ layer = 2 ∨ layer = 3 ∨ layer = 4 then
      if validate bundle ∧ (process bundle).isSome ∧ (r.selectService (serviceName bundle)).isSome then
        Function.update docs (affinity inv.path) (some (⟨layer, h⟩, bundle))
      else docs
    else docs
  | _, _ => docs

/-- A bundle of the service has the key with the value, and no bundle of the service has
something else of the key for the instance itself or, as near, in a higher layer. -/
def Documents.Shows (docs : Documents) (service nst key value : String) : Prop :=
  ∃ filename layer bundle, docs filename = some (layer, bundle) ∧ serviceName bundle = service ∧
    (key, .string value) ∈ bundle.members ∧ key ∉ classReserved ∧
    ∀ filename' layer' bundle' level, docs filename' = some (layer', bundle') → serviceName bundle' = service →
      Names bundle' nst level key → level = 0 ∧ layer'.1 ≤ layer.1

section Elements

variable {m : String × Ucl} {props : List Property} {key : String}

/-- A loop over elements with keys, which ends the program at one without. -/
theorem processEach_elements {β : Type} {f : Option String × Ucl → Option (List β)} {ys : List β}
    (hnone : ∀ v, f (none, v) = none) (h : processEach f (m.2.iterate (some m.1)) = some ys) :
    ∃ yss, List.Forall₂ (fun elt ys => f (some elt.1, elt.2) = some ys) (elements m) yss ∧ ys = yss.flatten := by
  obtain ⟨yss, hall, rfl⟩ := processEach_eq_some_iff.mp h
  refine ⟨yss, ?_, rfl⟩
  unfold elements
  clear h
  generalize m.2.iterate (some m.1) = elts at hall
  induction hall with
  | nil => exact .nil
  | @cons elt ys elts yss hhead _ ih =>
    obtain ⟨_ | key, v⟩ := elt
    · rw [hnone] at hhead
      cases hhead
    · exact .cons hhead ih

theorem mem_processEach {α β : Type} {f : α → Option (List β)} {l : List α} {ys : List β}
    (h : processEach f l = some ys)
    {y : β} (hy : y ∈ ys) : ∃ x ∈ l, ∃ zs, f x = some zs ∧ y ∈ zs := by
  obtain ⟨yss, hall, rfl⟩ := processEach_eq_some_iff.mp h
  obtain ⟨zs, hzs, hy⟩ := List.mem_flatten.mp hy
  obtain ⟨x, hx, hfx⟩ := exists_right_of_forall₂ hall.flip hzs
  exact ⟨x, hx, zs, hfx, hy⟩

/-- Pages of the given keys. -/
def Pages (props : List Property) (keys : List String) : Prop :=
  props.map Property.key = keys ∧ ∀ prop ∈ props, ∃ key members, prop = .page key members

theorem Pages.nil : Pages [] [] := ⟨rfl, by simp⟩

theorem Pages.flatten {f : String × Ucl → List String} {elts : List (String × Ucl)} {propss : List (List Property)}
    (h : List.Forall₂ (fun elt props => Pages props (f elt)) elts propss) : Pages propss.flatten (elts.flatMap f) := by
  induction h with
  | nil => exact .nil
  | cons hhead _ ih =>
    rw [List.flatten_cons, List.flatMap_cons]
    exact ⟨by rw [List.map_append, hhead.1, ih.1], List.forall_mem_append.mpr ⟨hhead.2, ih.2⟩⟩

theorem pages_of_processMethods (h : processMethods (some m.1) m.2 = some props) :
    Pages props ((elements m).map Prod.fst) := by
  obtain ⟨propss, hall, rfl⟩ := processEach_elements (fun v => by cases v <;> simp [processPage]) h
  rw [List.map_eq_flatMap]
  refine Pages.flatten (hall.imp fun elt props hprops => ?_)
  obtain ⟨page, hpage, rfl⟩ := Option.map_eq_some_iff.mp hprops
  obtain ⟨members, rendered, _, _, rfl⟩ := processPage_method_eq_some_iff.mp hpage
  exact ⟨rfl, List.forall_mem_singleton.mpr ⟨_, _, rfl⟩⟩

theorem pages_of_processDeps {v : Ucl} {isDependents : Bool} (h : processDeps (some key) v isDependents = some props) :
    Pages props (props.map Property.key) := by
  refine ⟨rfl, fun prop hprop => ?_⟩
  obtain ⟨arr, _, inner, hinner, hmem⟩ := mem_processEach h hprop
  obtain ⟨dep, _, pages, hpages, hpage⟩ := mem_processEach hinner hmem
  obtain ⟨nstName, _, hpages⟩ := Option.bind_eq_some_iff.mp hpages
  obtain ⟨depType, _, rfl⟩ := Option.map_eq_some_iff.mp hpages
  exact ⟨_, _, List.mem_singleton.mp hpage⟩

/-- An element of an instance adds pages, under their keys. -/
theorem pages_of_instanceElement (h : instanceElement m = some props) : Pages props (pageKeys m) := by
  obtain ⟨key, v⟩ := m
  simp only [instanceElement] at h
  split at h
  · have hpages : dependencyPages ("depends", v) = props := by simp [dependencyPages, h]
    rw [pageKeys, if_neg (by simp), hpages]
    exact pages_of_processDeps h
  · have hpages : dependencyPages ("dependents", v) = props := by simp [dependencyPages, h]
    rw [pageKeys, if_neg (by simp), hpages]
    exact pages_of_processDeps h
  · rw [pageKeys, if_pos rfl]
    exact pages_of_processMethods h
  · rename_i hdepends hdependents hmethods
    change key ≠ _ at hdepends hdependents hmethods
    obtain rfl := Option.some.inj h
    rw [pageKeys, if_neg hmethods]
    simp only [dependencyPages, if_neg hdepends, if_neg hdependents]
    exact .nil

theorem pages_of_processInst {nst : Instance} (h : processInst (some m.1) m.2 = some nst) :
    nst.name = m.1 ∧ Pages nst.properties ((elements m).flatMap pageKeys) := by
  obtain ⟨props, hprops, rfl⟩ := Option.map_eq_some_iff.mp h
  obtain ⟨propss, hall, rfl⟩ := processEach_elements (fun _ => rfl) hprops
  exact ⟨rfl, Pages.flatten (hall.imp fun elt props hprops => pages_of_instanceElement hprops)⟩

/-- What an element of a class adds: pages, a string or instances. -/
structure AddsElement (m : String × Ucl) (part : Class) : Prop where
  pages : m.1 ∈ classReserved → Pages part.properties (pageKeys m)
  string : m.1 ∉ classReserved → ∃ s, m.2 = .string s ∧ part.properties = [.string m.1 s]
  instances : List.Forall₂ (fun inst nst => processInst (some inst.1) inst.2 = some nst)
    (if m.1 = "instances" then elements m else []) part.instances

theorem pageKeys_eq_nil (hkey : m.1 ∉ ["depends", "dependents", "methods"]) : pageKeys m = [] := by
  simp only [List.mem_cons, List.not_mem_nil, or_false, not_or] at hkey
  obtain ⟨hdepends, hdependents, hmethods⟩ := hkey
  simp [pageKeys, dependencyPages, hdepends, hdependents, hmethods]

/-- What a member adds to a class, by its key. -/
theorem addsElement {part : Class} (h : processElement ⟨"", [], []⟩ (some m.1, m.2) = some part) :
    AddsElement m part := by
  obtain ⟨key, v⟩ := m
  simp only [processElement, Option.bind_some] at h
  split at h
  · obtain ⟨name, _, rfl⟩ := Option.map_eq_some_iff.mp h
    refine ⟨fun _ => ?_, fun hnot => absurd (by simp [classReserved, instanceReserved]) hnot, .nil⟩
    rw [pageKeys_eq_nil (by simp)]
    exact .nil
  · obtain ⟨props, hprops, rfl⟩ := Option.map_eq_some_iff.mp h
    exact ⟨fun _ => pages_of_instanceElement hprops,
      fun hnot => absurd (by simp [classReserved, instanceReserved]) hnot, .nil⟩
  · obtain ⟨props, hprops, rfl⟩ := Option.map_eq_some_iff.mp h
    exact ⟨fun _ => pages_of_instanceElement hprops,
      fun hnot => absurd (by simp [classReserved, instanceReserved]) hnot, .nil⟩
  · obtain ⟨insts, hinsts, rfl⟩ := Option.map_eq_some_iff.mp h
    refine ⟨fun _ => ?_, fun hnot => absurd (by simp [classReserved, instanceReserved]) hnot, ?_⟩
    · rw [pageKeys_eq_nil (by simp)]
      exact .nil
    · obtain ⟨instss, hall, rfl⟩ := processEach_elements (m := ("instances", v)) (fun _ => rfl) hinsts
      exact processEach_singleton.mp (processEach_eq_some_iff.mpr ⟨instss, hall, rfl⟩)
  · obtain ⟨props, hprops, rfl⟩ := Option.map_eq_some_iff.mp h
    exact ⟨fun _ => pages_of_instanceElement hprops,
      fun hnot => absurd (by simp [classReserved, instanceReserved]) hnot, .nil⟩
  · rename_i hname hdepends hdependents hinstances hmethods
    change key ≠ _ at hname hdepends hdependents hinstances hmethods
    obtain ⟨props, hprops, rfl⟩ := Option.map_eq_some_iff.mp h
    obtain ⟨s, rfl, rfl⟩ := processProp_eq_some_iff.mp hprops
    refine ⟨fun hreserved => ?_, fun _ => ⟨s, rfl, rfl⟩, ?_⟩
    · simp [classReserved, instanceReserved, hname, hdepends, hdependents, hinstances, hmethods] at hreserved
    · rw [if_neg hinstances]
      exact .nil

end Elements

section Process

variable {bundle : Ucl} {cls : Class}

/-- The last name counts. -/
theorem name_of_foldlM {cls : Class} {elts : List (Option String × Ucl)} {cls' : Class}
    (h : elts.foldlM processElement cls = some cls') :
    cls'.name = elts.foldl (fun name elt => if elt.1 = some "name" then elt.2.toString?.getD name else name)
      cls.name := by
  induction elts generalizing cls with
  | nil =>
    obtain rfl := Option.some_inj.mp h
    rfl
  | cons elt rest ih =>
    rw [List.foldlM_cons, Option.bind_eq_bind, Option.bind_eq_some_iff] at h
    obtain ⟨cls₁, hstep, hrest⟩ := h
    have hname : cls₁.name = if elt.1 = some "name" then elt.2.toString?.getD cls.name else cls.name := by
      obtain ⟨_ | key, v⟩ := elt
      · cases hstep
      · simp only [processElement, Option.bind_some] at hstep
        split at hstep
        · obtain ⟨name, hname, rfl⟩ := Option.map_eq_some_iff.mp hstep
          simp [hname]
        all_goals
          obtain ⟨_, _, rfl⟩ := Option.map_eq_some_iff.mp hstep
          simp_all
    rw [List.foldl_cons, ← hname]
    exact ih hrest

/-- The class has what its bundle has. -/
structure Denotes (bundle : Ucl) (cls : Class) : Prop where
  name : cls.name = serviceName bundle
  string : ∀ key s, .string key s ∈ cls.properties ↔ (key, .string s) ∈ bundle.members ∧ key ∉ classReserved
  own : ∀ nst key, (∃ prop ∈ cls.properties, prop.key = key) ↔ Names bundle nst 0 key
  instances : ∀ nst key, (∃ inst ∈ cls.instances, inst.name = nst ∧ ∃ prop ∈ inst.properties, prop.key = key) ↔
    Names bundle nst 1 key
  instance_pages : ∀ inst ∈ cls.instances, ∀ prop ∈ inst.properties, ∃ key members, prop = .page key members

theorem names_zero_iff {nst key : String} : Names bundle nst 0 key ↔
    ∃ m ∈ bundle.members, if m.1 ∈ classReserved then key ∈ pageKeys m else key = m.1 := by
  simp [Names]

theorem names_one_iff {nst key : String} : Names bundle nst 1 key ↔
    ∃ m ∈ bundle.members, m.1 = "instances" ∧ ∃ inst ∈ elements m, inst.1 = nst ∧
      ∃ elt ∈ elements inst, key ∈ pageKeys elt := by
  simp [Names]

theorem Pages.mem_key {props : List Property} {keys : List String} (h : Pages props keys) {key : String} :
    (∃ prop ∈ props, prop.key = key) ↔ key ∈ keys := by
  rw [← h.1, List.mem_map]

theorem Pages.string_not_mem {props : List Property} {keys : List String} (h : Pages props keys) {key s : String} :
    .string key s ∉ props := by
  intro hmem
  obtain ⟨_, _, hpage⟩ := h.2 _ hmem
  cases hpage

/-- Where fellows have something at the same time, the lists do. -/
theorem exists_mem_iff_of_forall₂ {α β : Type} {R : α → β → Prop} {P : α → Prop} {Q : β → Prop} {l : List α}
    {l' : List β}
    (h : List.Forall₂ R l l') (hiff : ∀ x y, R x y → (Q y ↔ P x)) : (∃ y ∈ l', Q y) ↔ ∃ x ∈ l, P x := by
  induction h with
  | nil => simp
  | cons hhead _ ih => rw [List.exists_mem_cons_iff, List.exists_mem_cons_iff, hiff _ _ hhead, ih]

theorem exists_mem_flatMap_iff {α β : Type} {f : α → List β} {Q : β → Prop} {l : List α} :
    (∃ y ∈ l.flatMap f, Q y) ↔ ∃ x ∈ l, ∃ y ∈ f x, Q y := by
  simp only [List.mem_flatMap]
  constructor
  · rintro ⟨y, ⟨x, hx, hy⟩, hQ⟩
    exact ⟨x, hx, y, hy, hQ⟩
  · rintro ⟨x, hx, y, hy, hQ⟩
    exact ⟨y, ⟨x, hx, hy⟩, hQ⟩

theorem AddsElement.string_mem_iff {m : String × Ucl} {part : Class} (h : AddsElement m part) {key s : String} :
    .string key s ∈ part.properties ↔ m = (key, .string s) ∧ key ∉ classReserved := by
  obtain ⟨k, v⟩ := m
  by_cases hreserved : k ∈ classReserved
  · refine iff_of_false (h.pages hreserved).string_not_mem ?_
    rintro ⟨heq, hnot⟩
    cases heq
    exact hnot hreserved
  · obtain ⟨s', rfl, hproperties⟩ := h.string hreserved
    rw [hproperties, List.mem_singleton]
    constructor
    · intro heq
      cases heq
      exact ⟨rfl, hreserved⟩
    · rintro ⟨heq, _⟩
      cases heq
      rfl

theorem AddsElement.mem_key_iff {m : String × Ucl} {part : Class} (h : AddsElement m part) {key : String} :
    (∃ prop ∈ part.properties, prop.key = key) ↔ if m.1 ∈ classReserved then key ∈ pageKeys m else key = m.1 := by
  split
  · rename_i hreserved
    exact (h.pages hreserved).mem_key
  · rename_i hreserved
    obtain ⟨s, _, hproperties⟩ := h.string hreserved
    rw [hproperties]
    simp [Property.key, eq_comm]

theorem AddsElement.mem_instance_iff {m : String × Ucl} {part : Class} (h : AddsElement m part) {nst key : String} :
    (∃ inst ∈ part.instances, inst.name = nst ∧ ∃ prop ∈ inst.properties, prop.key = key) ↔
      m.1 = "instances" ∧ ∃ inst ∈ elements m, inst.1 = nst ∧ ∃ elt ∈ elements inst, key ∈ pageKeys elt := by
  have hfellows := exists_mem_iff_of_forall₂ (P := fun inst => inst.1 = nst ∧ ∃ elt ∈ elements inst, key ∈ pageKeys elt)
    (Q := fun inst => inst.name = nst ∧ ∃ prop ∈ inst.properties, prop.key = key) h.instances fun inst nst hnst => by
      obtain ⟨hname, hpages⟩ := pages_of_processInst hnst
      rw [hname, hpages.mem_key, List.mem_flatMap]
  rw [hfellows]
  split
  · rename_i hkey
    exact ⟨fun hinst => ⟨hkey, hinst⟩, fun hinst => hinst.2⟩
  · rename_i hkey
    simp [hkey]

/-- A class that is made of a document says what the document does. -/
theorem denotes_of_object {members : List (String × Ucl)} (h : process (.object members) = some cls) :
    Denotes (.object members) cls := by
  have hname := name_of_foldlM h
  rw [process, Ucl.iterate] at h
  obtain ⟨parts, hparts, hinstances, hproperties⟩ := foldlM_processElement_eq_some h
  rw [List.forall₂_map_left_iff] at hparts
  have hadds : List.Forall₂ AddsElement members parts := hparts.imp fun _ _ hpart => addsElement hpart
  rw [List.nil_append] at hinstances hproperties
  refine ⟨hname, fun key s => ?_, fun nst key => ?_, fun nst key => ?_, fun inst hinst prop hprop => ?_⟩
  · rw [hproperties, List.mem_flatMap, exists_mem_iff_of_forall₂ hadds fun m part hm => hm.string_mem_iff]
    simp [Ucl.members]
  · rw [names_zero_iff, hproperties, exists_mem_flatMap_iff]
    exact exists_mem_iff_of_forall₂ hadds fun m part hm => hm.mem_key_iff
  · rw [names_one_iff, hinstances, exists_mem_flatMap_iff]
    exact exists_mem_iff_of_forall₂ hadds fun m part hm => hm.mem_instance_iff
  · rw [hinstances] at hinst
    obtain ⟨part, hpart, hinst⟩ := List.mem_flatMap.mp hinst
    obtain ⟨m, _, hm⟩ := exists_right_of_forall₂ hadds.flip hpart
    obtain ⟨elt, _, helt⟩ := exists_right_of_forall₂ hm.instances.flip hinst
    exact (pages_of_processInst helt).2.2 prop hprop

/-- What has been processed says what its bundle says. -/
theorem denotes_of_process (h : process bundle = some cls) : Denotes bundle cls := by
  cases bundle with
  | object members => exact denotes_of_object h
  | array items =>
    cases items with
    | nil =>
      obtain rfl := Option.some.inj h
      constructor <;> simp [serviceName, Ucl.iterate, Ucl.members, Names]
    | cons item rest => cases h
  | _ => cases h

end Process

/-- The import that an invocation comes to. -/
def Invocation.job (validate : Ucl → Bool) (inv : Invocation) : Option Job :=
  inv.layer.bind fun layer => inv.file.bind fun bundle =>
    if validate bundle then (process bundle).map fun klass => ⟨layer, inv.path, klass⟩ else none

/-- The contents are what the bundles denote. -/
def Documents.Describes (docs : Documents) (m : Contents) : Prop :=
  ∀ filename, Option.Rel (fun doc content => doc.1 = content.1 ∧ Denotes doc.2 content.2) (docs filename) (m filename)

section Runs

variable {affinity : String → SqlValue} {validate : Ucl → Bool} {r : Repository} {docs : Documents} {m : Contents}
  {service nst key value : String} {svcId instanceID : Nat}

theorem main_eq_runJobs (r : Repository) (inv : Invocation) :
    main affinity validate r inv = runJobs affinity (inv.job validate).toList r := by
  unfold main Invocation.job Invocation.parse
  cases inv.layer with
  | none => rfl
  | some layer =>
    cases inv.file with
    | none => rfl
    | some bundle =>
      by_cases hvalid : validate bundle
      · simp only [Option.bind_some, if_pos hvalid]
        cases process bundle <;> rfl
      · simp only [Option.bind_some, if_neg hvalid]
        rfl

theorem mains_eq_runJobs (invs : List Invocation) (r : Repository) :
    mains affinity validate invs r = runJobs affinity (invs.flatMap fun inv => (inv.job validate).toList) r := by
  induction invs generalizing r with
  | nil => rfl
  | cons inv rest ih =>
    have hmains : mains affinity validate (inv :: rest) r =
        mains affinity validate rest (main affinity validate r inv) := rfl
    rw [hmains, ih, main_eq_runJobs, List.flatMap_cons, runJobs, runJobs, runJobs, List.foldl_append]

theorem Documents.Describes.update (h : docs.Describes m) {filename : SqlValue} {layer : Layer} {bundle : Ucl}
    {klass : Class}
    (hdenotes : Denotes bundle klass) :
    Documents.Describes (Function.update docs filename (some (layer, bundle)))
      (Function.update m filename (some (layer, klass))) := by
  intro name
  by_cases hname : name = filename
  · subst hname
    rw [Function.update_self, Function.update_self]
    exact .some ⟨rfl, hdenotes⟩
  · rw [Function.update_of_ne hname, Function.update_of_ne hname]
    exact h name

/-- A run acts on the bundles as its import acts on the contents. -/
theorem Documents.Describes.add (h : docs.Describes m) (inv : Invocation) :
    (docs.add affinity validate r inv).Describes ((inv.job validate).toList.foldl (Contents.add affinity r) m) := by
  unfold Documents.add Invocation.job
  cases inv.layer with
  | none => exact h
  | some layer =>
    cases inv.file with
    | none => exact h
    | some bundle =>
      simp only [Option.bind_some]
      by_cases hvalid : validate bundle
      · rw [if_pos hvalid]
        cases hprocess : process bundle with
        | none => simpa [hprocess] using h
        | some klass =>
          have hdenotes := denotes_of_process hprocess
          simp only [Option.map_some, Option.toList_some, List.foldl_cons, List.foldl_nil, Contents.add]
          split
          · rename_i hlayer
            rw [hdenotes.name]
            split
            · rename_i hpasses
              rw [if_pos hpasses.2.2]
              exact h.update hdenotes
            · rename_i hfails
              rw [if_neg fun hservice => hfails ⟨hvalid, by simp, hservice⟩]
              exact h
          · exact h
      · rw [if_neg hvalid]
        simpa [hvalid] using h

theorem Documents.Describes.add_all (h : docs.Describes m) (invs : List Invocation) :
    (invs.foldl (Documents.add affinity validate r) docs).Describes
      ((invs.flatMap fun inv => (inv.job validate).toList).foldl (Contents.add affinity r) m) := by
  induction invs generalizing docs m with
  | nil => exact h
  | cons inv rest ih =>
    rw [List.foldl_cons, List.flatMap_cons, List.foldl_append]
    exact ih (h.add inv)

theorem Documents.Describes.content (h : docs.Describes m) {filename : SqlValue} {layer : Layer} {bundle : Ucl}
    (hdoc : docs filename = some (layer, bundle)) :
    ∃ klass, m filename = some (layer, klass) ∧ Denotes bundle klass := by
  have hrel := h filename
  rw [hdoc] at hrel
  generalize hcontent : m filename = content at hrel
  cases hrel with
  | @some _ content hfellows =>
    obtain ⟨layer', klass⟩ := content
    obtain ⟨rfl, hdenotes⟩ := hfellows
    exact ⟨klass, rfl, hdenotes⟩

theorem Documents.Describes.doc (h : docs.Describes m) {filename : SqlValue} {layer : Layer} {klass : Class}
    (hcontent : m filename = some (layer, klass)) :
    ∃ bundle, docs filename = some (layer, bundle) ∧ Denotes bundle klass := by
  have hrel := h filename
  rw [hcontent] at hrel
  generalize hdoc : docs filename = doc at hrel
  cases hrel with
  | @some doc _ hfellows =>
    obtain ⟨layer', bundle⟩ := doc
    obtain ⟨rfl, hdenotes⟩ := hfellows
    exact ⟨bundle, rfl, hdenotes⟩

/-- Strings are offered by bundles that have them. -/
theorem Documents.Describes.offers_string_iff (h : docs.Describes m) {level : Nat} {layer : Int} :
    m.Offers service nst level layer (.string key value) ↔
      level = 0 ∧ ∃ filename l bundle, docs filename = some (l, bundle) ∧ serviceName bundle = service ∧ layer = l.1 ∧
        (key, .string value) ∈ bundle.members ∧ key ∉ classReserved := by
  constructor
  · rintro ⟨filename, l, klass, hcontent, hname, hlayer, ⟨-, inst, hinst, -, hprop⟩ | ⟨hlevel, hprop⟩⟩
    · obtain ⟨bundle, _, hdenotes⟩ := h.doc hcontent
      obtain ⟨_, _, hpage⟩ := hdenotes.instance_pages inst hinst _ hprop
      cases hpage
    · obtain ⟨bundle, hdoc, hdenotes⟩ := h.doc hcontent
      exact ⟨hlevel, filename, l, bundle, hdoc, hdenotes.name ▸ hname, hlayer, (hdenotes.string key value).mp hprop⟩
  · rintro ⟨hlevel, filename, l, bundle, hdoc, hname, hlayer, hmem⟩
    obtain ⟨klass, hcontent, hdenotes⟩ := h.content hdoc
    exact ⟨filename, l, klass, hcontent, hdenotes.name ▸ hname, hlayer,
      Or.inr ⟨hlevel, (hdenotes.string key value).mpr hmem⟩⟩

/-- Something of a key is offered by the bundles that name it. -/
theorem Documents.Describes.offers_key_iff (h : docs.Describes m) {level : Nat} {layer : Int} :
    (∃ prop, m.Offers service nst level layer prop ∧ prop.key = key) ↔
      ∃ filename l bundle, docs filename = some (l, bundle) ∧ serviceName bundle = service ∧ layer = l.1 ∧
        Names bundle nst level key := by
  constructor
  · rintro ⟨prop, ⟨filename, l, klass, hcontent, hname, hlayer, ⟨rfl, inst, hinst, hnst, hprop⟩ | ⟨rfl, hprop⟩⟩, hkey⟩
    · obtain ⟨bundle, hdoc, hdenotes⟩ := h.doc hcontent
      exact ⟨filename, l, bundle, hdoc, hdenotes.name ▸ hname, hlayer,
        (hdenotes.instances nst key).mp ⟨inst, hinst, hnst, prop, hprop, hkey⟩⟩
    · obtain ⟨bundle, hdoc, hdenotes⟩ := h.doc hcontent
      exact ⟨filename, l, bundle, hdoc, hdenotes.name ▸ hname, hlayer, (hdenotes.own nst key).mp ⟨prop, hprop, hkey⟩⟩
  · rintro ⟨filename, l, bundle, hdoc, hname, hlayer, hnames⟩
    obtain ⟨klass, hcontent, hdenotes⟩ := h.content hdoc
    have hlevel : level = 0 ∨ level = 1 := hnames.imp And.left And.left
    obtain rfl | rfl := hlevel
    · obtain ⟨prop, hprop, hkey⟩ := (hdenotes.own nst key).mpr hnames
      exact ⟨prop, ⟨filename, l, klass, hcontent, hdenotes.name ▸ hname, hlayer, Or.inr ⟨rfl, hprop⟩⟩, hkey⟩
    · obtain ⟨inst, hinst, hnst, prop, hprop, hkey⟩ := (hdenotes.instances nst key).mpr hnames
      exact ⟨prop, ⟨filename, l, klass, hcontent, hdenotes.name ▸ hname, hlayer,
        Or.inl ⟨rfl, inst, hinst, hnst, hprop⟩⟩, hkey⟩

/-- What the classes show is what the documents do. -/
theorem Documents.Describes.shows_iff (h : docs.Describes m) :
    m.Shows service nst (.string key value) ↔ docs.Shows service nst key value := by
  constructor
  · rintro ⟨level, layer, hoffer, hmax⟩
    obtain ⟨rfl, filename, l, bundle, hdoc, hname, rfl, hmem, hreserved⟩ := h.offers_string_iff.mp hoffer
    refine ⟨filename, l, bundle, hdoc, hname, hmem, hreserved, ?_⟩
    intro filename' l' bundle' level' hdoc' hname' hnames
    obtain ⟨prop, hoffer', hkey⟩ := h.offers_key_iff.mpr ⟨filename', l', bundle', hdoc', hname', rfl, hnames⟩
    have hnot := hmax level' l'.1 prop hoffer' hkey
    rw [Prod.Lex.toLex_lt_toLex] at hnot
    simp only [not_or, not_and, not_lt] at hnot
    have hzero : level' = 0 := Nat.le_zero.mp hnot.1
    exact ⟨hzero, hnot.2 hzero.symm⟩
  · rintro ⟨filename, l, bundle, hdoc, hname, hmem, hreserved, hmax⟩
    refine ⟨0, l.1, h.offers_string_iff.mpr ⟨rfl, filename, l, bundle, hdoc, hname, rfl, hmem, hreserved⟩, ?_⟩
    intro level' layer' prop' hoffer' hkey
    obtain ⟨filename', l', bundle', hdoc', hname', rfl, hnames⟩ := h.offers_key_iff.mp ⟨prop', hoffer', hkey⟩
    obtain ⟨rfl, hle⟩ := hmax filename' l' bundle' level' hdoc' hname' hnames
    rw [Prod.Lex.toLex_lt_toLex]
    simpa using hle

/-- A row that is read as a string is not read as anything else. -/
theorem Reads.eq_string {pid : Nat} {prop : Property} (h : Reads affinity r svcId pid (.string key value))
    (h' : Reads affinity r svcId pid prop) : prop = .string key value := by
  obtain ⟨row, val, hrow, hval, hkey, htype, hvalue⟩ := h
  obtain ⟨row', val', hrow', hval', hof⟩ := h'
  have hsame := Table.row_unique hrow hrow'
  subst hsame
  have hsame := Table.row_unique hval hval'
  subst hsame
  cases prop with
  | string key' value' =>
    obtain ⟨hkey', -, hvalue'⟩ := hof
    rw [← hkey, hkey', Option.some.inj (hvalue.symm.trans hvalue')]
  | page key' members =>
    obtain ⟨-, htype', -⟩ := hof
    rw [htype] at htype'
    cases htype'

/-- From the text of bundles to what an instance is shown: after whatever runs of the program,
the composed view of the instance has the value for the key exactly if the bundles that were
imported last say so. -/
theorem mains_composed (hstart : NoBundles r) (invs : List Invocation) (hservice : r.selectService service = some svcId)
    (hinstance : (mains affinity validate invs r).instances.lookup InstanceKey.hit ⟨svcId, nst⟩ = some instanceID)
    (key value : String) :
    (∃ pid ∈ (mains affinity validate invs r).queryGetInstancePropertiesComposed instanceID,
        Reads affinity (mains affinity validate invs r) svcId pid (.string key value)) ↔
      (invs.foldl (Documents.add affinity validate r) fun _ => none).Shows service nst key value := by
  have hempty : Documents.Describes (fun _ => none) (fun _ => none) := fun _ => .none
  rw [← (hempty.add_all invs).shows_iff]
  rw [mains_eq_runJobs] at hinstance ⊢
  have hrep : Represents affinity _ (runJobs affinity (invs.flatMap fun inv => (inv.job validate).toList) r) :=
    (hstart.represents.runJobs_services _).1
  obtain ⟨hshown, hall⟩ := hrep.composed (by rwa [runJobs_selectService]) hinstance
  constructor
  · rintro ⟨pid, hpid, hreads⟩
    obtain ⟨prop, hshows, hreads'⟩ := hshown pid hpid
    rwa [hreads.eq_string hreads'] at hshows
  · exact hall _

end Runs

/-- A bundle of the service with a port. -/
def sshdBundle (port : String) : Ucl :=
  .object [("name", .string "sshd"), ("port", .string port)]

/-- What is set on top of what comes with the system. -/
def sshdInvocations : List Invocation :=
  [⟨["3"], "/etc/sshd.ucl", some (sshdBundle "2222")⟩, ⟨["1"], "/lib/sshd.ucl", some (sshdBundle "22")⟩]

def sshdDocuments : Documents :=
  Function.update (Function.update (fun _ => none) (.text "/etc/sshd.ucl") (some (⟨3, by decide⟩, sshdBundle "2222")))
    (.text "/lib/sshd.ucl") (some (⟨1, by decide⟩, sshdBundle "22"))

theorem names_sshdBundle {port nst key : String} {level : Nat} (h : Names (sshdBundle port) nst level key) :
    level = 0 := by
  rcases h with ⟨hlevel, -⟩ | ⟨-, m, hm, hinstances, -⟩
  · exact hlevel
  · simp only [sshdBundle, Ucl.members, List.mem_cons, List.not_mem_nil, or_false] at hm
    obtain rfl | rfl := hm <;> simp at hinstances

theorem sshdDocuments_shows : sshdDocuments.Shows "sshd" "default" "port" "2222" := by
  unfold sshdDocuments
  refine ⟨.text "/etc/sshd.ucl", ⟨3, by decide⟩, sshdBundle "2222", by simp, rfl, by simp [sshdBundle, Ucl.members],
    by simp [classReserved, instanceReserved], ?_⟩
  intro filename layer bundle level hdoc hname hnames
  by_cases hlib : filename = .text "/lib/sshd.ucl"
  · subst hlib
    simp only [Function.update_self, Option.some.injEq] at hdoc
    obtain ⟨rfl, rfl⟩ := hdoc
    exact ⟨names_sshdBundle hnames, by decide⟩
  · by_cases hetc : filename = .text "/etc/sshd.ucl"
    · subst hetc
      simp only [Function.update_of_ne hlib, Function.update_self, Option.some.injEq] at hdoc
      obtain ⟨rfl, rfl⟩ := hdoc
      exact ⟨names_sshdBundle hnames, by decide⟩
    · simp [Function.update_of_ne hlib, Function.update_of_ne hetc] at hdoc

namespace Conn

end Conn

end AddSys

end ServiceManager
