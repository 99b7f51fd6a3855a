import Mathlib.Data.Set.List
import ServiceManager.AddSys.Bundle
import ServiceManager.Ucl.Schema

namespace ServiceManager.AddSys

open Ucl

/-- An array of instance names. -/
def instanceNames : Schema :=
  .node [.type .array, .items (.ref "InstanceName")]

/-- The definitions of the schema of bundles. -/
def definitions : String → Option Schema
  | "Class" => some (.node
      [.type .object,
        .members
          [("name", .node [.type .string]), ("depends", .ref "Dependencies"),
            ("instance", .node [.type .object, .members [] (.ref "Instance")])]
          (.ref "Property"),
        .required ["name"]])
  | "Instance" => some (.node [.type .object, .members [("name", .node [.type .string])] .never])
  | "Dependencies" => some (.node
      [.type .object,
        .members
          [("requires", instanceNames), ("checks", instanceNames), ("conflicts", instanceNames),
            ("after", instanceNames),
            ("before", instanceNames)]
          .never])
  | "Property" => some (.node [.anyOf [.node [.type .string], .ref "Page"]])
  | "InstanceName" => some (.node [.type .string])
  | "Page" => some (.node [.type .object, .additionalItems (.ref "Property")])
  | _ => none

def serviceBundleSchema : Schema :=
  .ref "Class"

/-- Each element that is iterated over has a key, and is one of those described. -/
def Keyed (p : String × Ucl → Prop) (m : String × Ucl) : Prop :=
  ∀ elt ∈ m.2.iterate (some m.1), ∃ key, elt.1 = some key ∧ p (key, elt.2)

/-- Dependencies: strings, below a dependency type. -/
def Dependent (m : String × Ucl) : Prop :=
  ∀ dep ∈ m.2.iterate (some m.1), ∀ nst ∈ dep.2.iterate dep.1, dep.1 ≠ none ∧ ∃ s, nst.2 = .string s

/-- A page that holds strings only. -/
def FlatPage (m : String × Ucl) : Prop :=
  ∃ members, m.2 = .object members ∧ ∀ p ∈ members, ∃ s, p.2 = .string s

/-- An element of an instance; one with any other key is not looked into. -/
def Plain (m : String × Ucl) : Prop :=
  match m.1 with
  | "depends" => Dependent m
  | "dependents" => Dependent m
  | "methods" => Keyed FlatPage m
  | _ => True

/-- A bundle that is processed to the end. -/
structure Processable (bundle : List (String × Ucl)) : Prop where
  properties : ∀ m ∈ bundle, m.1 ∉ classReserved → ∃ s, m.2 = .string s
  dependents : ∀ m ∈ bundle, m.1 = "dependents" → Dependent m
  methods : ∀ m ∈ bundle, m.1 = "methods" → Keyed FlatPage m
  instances : ∀ m ∈ bundle, m.1 = "instances" → Keyed (Keyed Plain) m

section Valid

variable {v : Ucl} {members : List (String × Ucl)}

theorem valid_instanceNames (h : Schema.Valid definitions instanceNames v) :
    ∃ nstNames : List String, v = .array (nstNames.map .string) := by
  rw [instanceNames, valid_node_iff] at h
  simp only [List.forall_mem_cons, holds_type_iff, Kind.of_array_iff] at h
  obtain ⟨⟨xs, rfl⟩, hitems, _⟩ := h
  have hstrings : xs ∈ Set.range (List.map Ucl.string) := by
    rw [Set.range_list_map]
    intro x hx
    have hname := holds_items_iff.mp hitems x hx
    rw [valid_ref_iff rfl, valid_node_iff, List.forall_mem_singleton, holds_type_iff, Kind.of_string_iff] at hname
    obtain ⟨s, rfl⟩ := hname
    exact ⟨s, rfl⟩
  obtain ⟨nstNames, rfl⟩ := hstrings
  exact ⟨nstNames, rfl⟩

/-- What the schema takes for dependencies, `processDeps` reads. -/
theorem valid_dependencies (h : Schema.Valid definitions (.ref "Dependencies") v) : IsDependencies v := by
  rw [valid_ref_iff rfl, valid_node_iff] at h
  simp only [List.forall_mem_cons, holds_type_iff, Kind.of_object_iff] at h
  obtain ⟨⟨members, rfl⟩, hmembers, _⟩ := h
  rw [holds_members_iff] at hmembers
  have hdeps : members ∈ Set.range (List.map fun dep : String × List String =>
      (dep.1, Ucl.array (dep.2.map .string))) := by
    rw [Set.range_list_map]
    intro m hm
    obtain ⟨hnamed, hothers⟩ := hmembers m hm
    have hnames : Schema.Valid definitions instanceNames m.2 := by
      by_contra hnot
      refine not_valid_never (hothers fun hmem => hnot ?_)
      obtain ⟨⟨name, schema⟩, hproperty, hname⟩ := List.mem_map.mp hmem
      have hvalid := hnamed schema (hname ▸ hproperty)
      simp only [List.mem_cons, Prod.mk.injEq, List.not_mem_nil, or_false] at hproperty
      obtain ⟨_, rfl⟩ | ⟨_, rfl⟩ | ⟨_, rfl⟩ | ⟨_, rfl⟩ | ⟨_, rfl⟩ := hproperty <;> exact hvalid
    obtain ⟨nstNames, hnstNames⟩ := valid_instanceNames hnames
    exact ⟨(m.1, nstNames), Prod.ext rfl hnstNames.symm⟩
  obtain ⟨deps, rfl⟩ := hdeps
  exact ⟨deps, rfl⟩

/-- What the schema says of the elements that the conditions below leave open. -/
theorem valid_elements (h : Schema.Valid definitions serviceBundleSchema v) :
    ∃ members, v = .object members ∧
      ∀ m ∈ members, (m.1 = "name" → ∃ s, m.2 = .string s) ∧ (m.1 = "depends" → IsDependencies m.2) := by
  rw [serviceBundleSchema, valid_ref_iff rfl, valid_node_iff] at h
  simp only [List.forall_mem_cons, holds_type_iff, Kind.of_object_iff] at h
  obtain ⟨⟨members, rfl⟩, hmembers, _⟩ := h
  rw [holds_members_iff] at hmembers
  refine ⟨members, rfl, fun m hm => ?_⟩
  obtain ⟨hnamed, _⟩ := hmembers m hm
  refine ⟨fun hname => ?_, fun hdepends => ?_⟩
  · have hvalid := hnamed (.node [.type .string]) (by simp [hname])
    rwa [valid_node_iff, List.forall_mem_singleton, holds_type_iff, Kind.of_string_iff] at hvalid
  · exact valid_dependencies (hnamed (.ref "Dependencies") (by simp [hdepends]))

end Valid

section Process

variable {m : String × Ucl}

theorem isSome_processDeps_iff (isDependents : Bool) : (processDeps (some m.1) m.2 isDependents).isSome ↔
    Dependent m := by
  rw [processDeps, isSome_processEach]
  refine forall₂_congr fun dep _ => ?_
  rw [isSome_processEach]
  refine forall₂_congr fun nst _ => ?_
  cases hkey : dep.1 <;> cases hnst : nst.2 <;> simp [processDep, Ucl.toString?]

/-- A loop over keyed elements runs to its end. -/
theorem isSome_processEach_keyed {β : Type} {f : Option String × Ucl → Option (List β)} {p : String × Ucl → Prop}
    (hnone : ∀ v, f (none, v) = none) (hsome : ∀ m : String × Ucl, (f (some m.1, m.2)).isSome ↔ p m) :
    (processEach f (m.2.iterate (some m.1))).isSome ↔ Keyed p m := by
  rw [isSome_processEach]
  refine forall₂_congr fun elt _ => ?_
  obtain ⟨_ | key, v⟩ := elt
  · simp [hnone]
  · simp [hsome (key, v)]

theorem isSome_processPage : (processPage (some m.1) (some "method") m.2).isSome ↔ FlatPage m := by
  obtain ⟨key, v⟩ := m
  cases v with
  | object members =>
    rw [processPage, if_neg (by simp), Option.bind_some, Option.isSome_map, isSome_processMembers]
    simp [FlatPage]
  | _ => simp [processPage, FlatPage]

theorem isSome_processMethods_iff : (processMethods (some m.1) m.2).isSome ↔ Keyed FlatPage m := by
  refine isSome_processEach_keyed (fun v => ?_) fun m => ?_
  · cases v <;> simp [processPage]
  · rw [Option.isSome_map, isSome_processPage]

theorem isSome_instanceElement_iff : (instanceElement m).isSome ↔ Plain m := by
  obtain ⟨key, v⟩ := m
  simp only [instanceElement, Plain]
  split
  · exact isSome_processDeps_iff (m := ("depends", v)) false
  · exact isSome_processDeps_iff (m := ("dependents", v)) true
  · exact isSome_processMethods_iff (m := ("methods", v))
  · simp

theorem isSome_processInst_iff : (processInst (some m.1) m.2).isSome ↔ Keyed Plain m := by
  rw [processInst, Option.bind_some, Option.isSome_map]
  exact isSome_processEach_keyed (fun _ => rfl) fun m => isSome_instanceElement_iff

/-- What `processElement` asks of a member, beyond what the schema says of it. -/
theorem isSome_processElement_iff (hname : m.1 = "name" → ∃ s, m.2 = .string s)
    (hdepends : m.1 = "depends" → IsDependencies m.2) :
    (processElement ⟨"", [], []⟩ (some m.1, m.2)).isSome ↔
      (m.1 ∉ classReserved → ∃ s, m.2 = .string s) ∧ (m.1 = "dependents" → Dependent m) ∧
        (m.1 = "methods" → Keyed FlatPage m) ∧ (m.1 = "instances" → Keyed (Keyed Plain) m) := by
  obtain ⟨key, v⟩ := m
  simp only [processElement, Option.bind_some]
  split
  · obtain ⟨s, rfl⟩ := hname rfl
    simp [Ucl.toString?, classReserved, instanceReserved]
  · have hsome : (processDeps (some "depends") v false).isSome := isSome_processDeps false (hdepends rfl)
    simpa [classReserved, instanceReserved] using hsome
  · have hiff := isSome_processDeps_iff (m := ("dependents", v)) true
    simpa [classReserved, instanceReserved] using hiff
  · have hiff := isSome_processEach_keyed (m := ("instances", v)) (p := Keyed Plain)
      (f := fun inst => (processInst inst.1 inst.2).map fun inst => [inst]) (fun _ => rfl) fun m => by
        rw [Option.isSome_map, isSome_processInst_iff]
    simpa [classReserved, instanceReserved] using hiff
  · have hiff := isSome_processMethods_iff (m := ("methods", v))
    simpa [classReserved, instanceReserved] using hiff
  · rename_i hname' hdepends' hdependents hinstances hmethods
    change key ≠ _ at hname' hdepends' hdependents hinstances hmethods
    have hreserved : key ∉ classReserved := by simp_all [classReserved, instanceReserved]
    rw [Option.isSome_map, Option.isSome_iff_exists]
    simp [processProp_eq_some_iff, hreserved, hdependents, hinstances, hmethods]

end Process

/-- A bundle that the schema accepts is processed to its end exactly if what the schema
leaves open is right. -/
theorem process_isSome_iff (v : Ucl) (h : Schema.Valid definitions serviceBundleSchema v) :
    (process v).isSome ↔ Processable v.members := by
  obtain ⟨members, rfl, helements⟩ := valid_elements h
  have hiff : ∀ m ∈ members, _ := fun m hm => isSome_processElement_iff (helements m hm).1 (helements m hm).2
  rw [isSome_process]
  constructor
  · intro hall
    refine ⟨fun m hm => ?_, fun m hm => ?_, fun m hm => ?_, fun m hm => ?_⟩
    · exact ((hiff m hm).mp (hall m hm)).1
    · exact ((hiff m hm).mp (hall m hm)).2.1
    · exact ((hiff m hm).mp (hall m hm)).2.2.1
    · exact ((hiff m hm).mp (hall m hm)).2.2.2
  · intro hok m hm
    exact (hiff m hm).mpr ⟨hok.properties m hm, hok.dependents m hm, hok.methods m hm, hok.instances m hm⟩

section Bundles

theorem valid_property {v : Ucl} (h : (∃ s, v = .string s) ∨ ∃ members, v = .object members) :
    Schema.Valid definitions (.ref "Property") v := by
  rw [valid_ref_iff rfl, valid_node_iff, List.forall_mem_singleton, holds_anyOf_iff]
  rcases h with ⟨s, rfl⟩ | ⟨members, rfl⟩
  · exact ⟨.node [.type .string], by simp, by simp [Kind.Of]⟩
  · refine ⟨.ref "Page", by simp, ?_⟩
    rw [valid_ref_iff rfl]
    simp [Kind.Of, Keyword.Holds.additionalItems]

/-- Strings and pages, with a name. -/
theorem valid_bundle {members : List (String × Ucl)} (hname : ∃ s, ("name", .string s) ∈ members)
    (h : ∀ m ∈ members, (m.1 = "name" → ∃ s, m.2 = .string s) ∧ m.1 ≠ "depends" ∧ m.1 ≠ "instance" ∧
      ((∃ s, m.2 = .string s) ∨ ∃ members, m.2 = .object members)) :
    Schema.Valid definitions serviceBundleSchema (.object members) := by
  rw [serviceBundleSchema, valid_ref_iff rfl, valid_node_iff]
  simp only [List.forall_mem_cons, holds_type_iff, holds_members_iff, holds_required_iff]
  refine ⟨trivial, fun m hm => ⟨fun schema hschema => ?_, fun _ => ?_⟩, ?_, by simp⟩
  · obtain ⟨hstring, hdepends, hinstance, _⟩ := h m hm
    simp only [List.mem_cons, Prod.mk.injEq, hdepends, hinstance, false_and, or_false, List.not_mem_nil] at hschema
    obtain ⟨hkey, rfl⟩ := hschema
    rw [valid_node_iff, List.forall_mem_singleton, holds_type_iff, Kind.of_string_iff]
    exact hstring hkey
  · exact valid_property (h m hm).2.2.2
  · obtain ⟨s, hs⟩ := hname
    exact ⟨⟨_, hs, rfl⟩, by simp⟩

/-- A class with a method, which the schema takes for a page. -/
theorem process_isSome_method :
    (process (.object [("name", .string "B"),
      ("methods", .object [("execStart", .object [("command", .string "a b c")])])])).isSome := by
  refine (process_isSome_iff _ (valid_bundle ⟨"B", by simp⟩ (by simp))).mpr ⟨?_, ?_, ?_, ?_⟩
  · simp [Ucl.members, classReserved, instanceReserved]
  · simp [Ucl.members]
  · simp [Ucl.members, Keyed, Ucl.iterate, FlatPage]
  · simp [Ucl.members]

/-- A page with a string in it. -/
theorem process_valid_page :
    let v : Ucl := .object [("name", .string "A"), ("page", .object [("aStringProp", .string "someThing")])]
    Schema.Valid definitions serviceBundleSchema v ∧ process v = none :=
  ⟨valid_bundle ⟨"A", by simp⟩ (by simp), rfl⟩

end Bundles

end ServiceManager.AddSys
