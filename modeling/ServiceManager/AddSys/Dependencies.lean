import ServiceManager.AddSys.Elements

namespace ServiceManager.AddSys

/-- Dependency types with the names of instances. -/
abbrev Dependencies := List (String × List String)

/-- The dictionary as it stands in a bundle. -/
def Dependencies.ucl (deps : Dependencies) : Ucl :=
  .object (deps.map fun dep => (dep.1, .array (dep.2.map .string)))

/-- One dependency of a class or an instance. -/
structure Dependency where
  isDependents : Bool
  depType : String
  nstName : String
deriving DecidableEq

namespace Dependency

variable (d : Dependency)

def key : String :=
  "dependency_" ++ d.depType ++ d.nstName

/-- The kind that the source means to give the page. -/
def type : String :=
  if d.isDependents then "dependent" else "dependency"

end Dependency

/-- The dependencies of a dictionary, in order. -/
def Dependencies.entries (isDependents : Bool) (deps : Dependencies) : List Dependency :=
  deps.flatMap fun dep => dep.2.map fun nstName => ⟨isDependents, dep.1, nstName⟩

/-- Pages that tell the dependencies they were made for. -/
structure Lossless (entries : List Dependency) (pages : List Property) : Prop where
  length_eq : pages.length = entries.length
  /-- Dependencies that differ have pages with different keys. -/
  keys : ∀ e ∈ entries.zip pages, ∀ e' ∈ entries.zip pages, e.1 ≠ e'.1 → e.2.key ≠ e'.2.key
  /-- Each page holds the instance name and the direction. -/
  holds : ∀ e ∈ entries.zip pages, ∃ properties, e.2 = .page e.2.key properties ∧
    .string "instance" e.1.nstName ∈ properties ∧ .string "type" e.1.type ∈ properties

theorem processEach_processDep (isDependents : Bool) (depType : String) (nstNames : List String) :
    processEach (fun elt => processDep (some depType) elt.2)
      ((Ucl.array (nstNames.map .string)).iterate (some depType)) =
      some (nstNames.map fun nstName => .page (Dependency.key ⟨isDependents, depType, nstName⟩) []) := by
  rw [Ucl.iterate, List.map_map, processEach_map, List.map_eq_flatMap]
  exact processEach_of_forall fun nstName _ => rfl

/-- What `processDeps` adds for a dictionary: a page for each dependency, with nothing in
it. -/
theorem processDeps_ucl (key : Option String) (isDependents : Bool) (deps : Dependencies) :
    processDeps key deps.ucl isDependents = some ((deps.entries isDependents).map fun d => .page d.key []) := by
  rw [processDeps, Dependencies.ucl, Ucl.iterate, List.map_map, processEach_map, Dependencies.entries, List.map_flatMap]
  simp only [List.map_map]
  exact processEach_of_forall fun dep _ => processEach_processDep isDependents dep.1 dep.2

/-- The direction does not matter to the key, nor where the type ends and the name begins. -/
theorem Dependency.key_eq_iff (d d' : Dependency) : d.key = d'.key ↔
    d.depType ++ d.nstName = d'.depType ++ d'.nstName := by
  rw [Dependency.key, Dependency.key, String.append_assoc, String.append_assoc, String.append_right_inj]

theorem lossless_map_iff (entries : List Dependency) :
    Lossless entries (entries.map fun d => .page d.key []) ↔ entries = [] := by
  constructor
  · intro h
    cases entries with
    | nil => rfl
    | cons d rest =>
      obtain ⟨properties, hpage, hinstance, _⟩ := h.holds (d, .page d.key []) (by simp)
      obtain ⟨_, rfl⟩ := Property.page.inj hpage
      cases hinstance
  · rintro rfl
    exact ⟨rfl, by simp, by simp⟩

/-- The pages for both directions tell the dependencies exactly if there are none. -/
theorem processDeps_lossless_iff (depends dependents : Dependencies) :
    (∃ pages pages', processDeps (some "depends") depends.ucl false = some pages ∧
      processDeps (some "dependents") dependents.ucl true = some pages' ∧
      Lossless (depends.entries false ++ dependents.entries true) (pages ++ pages')) ↔
    (∀ dep ∈ depends, dep.2 = []) ∧ ∀ dep ∈ dependents, dep.2 = [] := by
  have hempty : ∀ (isDependents : Bool) (deps : Dependencies),
      deps.entries isDependents = [] ↔ ∀ dep ∈ deps, dep.2 = [] := by
    intro isDependents deps
    simp [Dependencies.entries]
  rw [← hempty false, ← hempty true, ← List.append_eq_nil_iff, ← lossless_map_iff, List.map_append]
  simp only [processDeps_ucl, Option.some_inj]
  constructor
  · rintro ⟨_, _, rfl, rfl, h⟩
    exact h
  · intro h
    exact ⟨_, _, rfl, rfl, h⟩

/-- The same instance in both directions: the two pages are the same, and hold nothing. -/
theorem processDeps_both_directions :
    let depends : Dependencies := [("requires", ["a"])]
    processDeps (some "depends") depends.ucl false = some [.page "dependency_requiresa" []] ∧
      processDeps (some "dependents") depends.ucl true = some [.page "dependency_requiresa" []] ∧
      ¬Lossless (depends.entries false ++ depends.entries true)
        ([.page "dependency_requiresa" []] ++ [.page "dependency_requiresa" []]) := by
  refine ⟨processDeps_ucl _ _ _, processDeps_ucl _ _ _, fun h => ?_⟩
  exact h.keys (⟨false, "requires", "a"⟩, .page "dependency_requiresa" []) (by simp [Dependencies.entries])
    (⟨true, "requires", "a"⟩, .page "dependency_requiresa" []) (by simp [Dependencies.entries]) (by simp) rfl

end ServiceManager.AddSys
