import Mathlib.Data.List.Forall2
import ServiceManager.AddSys.Process

namespace ServiceManager.AddSys

section Pairs

variable {α β : Type} {R S : α → β → Prop} {l : List α} {l' : List β}

/-- Each element on the left has its fellow on the right. -/
theorem exists_right_of_forall₂ (h : List.Forall₂ R l l') {x : α} (hx : x ∈ l) : ∃ y ∈ l', R x y := by
  induction h with
  | nil => cases hx
  | cons hhead _ ih =>
    obtain rfl | hx := List.mem_cons.mp hx
    · exact ⟨_, List.mem_cons_self, hhead⟩
    · obtain ⟨y, hy, hxy⟩ := ih hx
      exact ⟨y, List.mem_cons_of_mem _ hy, hxy⟩

theorem forall₂_of_mem (h : List.Forall₂ R l l') (himp : ∀ x ∈ l, ∀ y, R x y → S x y) : List.Forall₂ S l l' := by
  induction h with
  | nil => exact .nil
  | cons hhead _ ih =>
    obtain ⟨hfirst, hrest⟩ := List.forall_mem_cons.mp himp
    exact .cons (hfirst _ hhead) (ih hrest)

theorem forall₂_and (h : List.Forall₂ R l l') (h' : List.Forall₂ S l l') :
    List.Forall₂ (fun x y => R x y ∧ S x y) l l' := by
  induction h with
  | nil => exact .nil
  | cons hhead _ ih =>
    cases h' with
    | cons hhead' hrest' => exact .cons ⟨hhead, hhead'⟩ (ih hrest')

end Pairs

section Each

variable {α β : Type} {f : α → Option (List β)} {l : List α}

theorem processEach_eq_some_iff {zs : List β} :
    processEach f l = some zs ↔ ∃ yss, List.Forall₂ (fun x ys => f x = some ys) l yss ∧ zs = yss.flatten := by
  induction l generalizing zs with
  | nil => simp [processEach, eq_comm]
  | cons x rest ih =>
    simp only [processEach, Option.bind_eq_some_iff, Option.map_eq_some_iff, ih]
    constructor
    · rintro ⟨ys, hx, _, ⟨yss, hrest, rfl⟩, rfl⟩
      exact ⟨ys :: yss, .cons hx hrest, rfl⟩
    · rintro ⟨_, hall, rfl⟩
      cases hall with
      | cons hx hrest => exact ⟨_, hx, _, ⟨_, hrest, rfl⟩, rfl⟩

theorem processEach_of_forall {g : α → List β} (h : ∀ x ∈ l, f x = some (g x)) :
    processEach f l = some (l.flatMap g) := by
  induction l with
  | nil => rfl
  | cons x rest ih =>
    obtain ⟨hx, hrest⟩ := List.forall_mem_cons.mp h
    rw [processEach, hx, ih hrest]
    rfl

theorem processEach_map {γ : Type} (h : γ → α) (l : List γ) :
    processEach f (l.map h) = processEach (fun x => f (h x)) l := by
  induction l with
  | nil => rfl
  | cons x rest ih => rw [List.map_cons, processEach, processEach, ih]

theorem isSome_processEach : (processEach f l).isSome ↔ ∀ x ∈ l, (f x).isSome := by
  induction l with
  | nil => simp [processEach]
  | cons x rest ih =>
    rw [List.forall_mem_cons, ← ih, processEach]
    cases f x <;> simp

end Each

/-- A page that is not a method's makes a string from NULL. -/
theorem processPage_none (key : Option String) (obj : Ucl) : processPage key none obj = none := by
  cases obj <;> simp [processPage]

/-- A property that is not a string ends the run. -/
theorem processProp_eq_some_iff {key : String} {obj : Ucl} {props : List Property} :
    processProp (some key) obj = some props ↔ ∃ s, obj = .string s ∧ props = [.string key s] := by
  cases obj <;> simp [processProp, processPage_none, eq_comm]

/-- The members of a page are strings, or the run ends. -/
theorem processMembers_eq_some_iff {members : List (String × Ucl)} {props : List Property} :
    processMembers members = some props ↔
      List.Forall₂ (fun m prop => ∃ s, m.2 = .string s ∧ prop = .string m.1 s) members props := by
  induction members generalizing props with
  | nil => simp [processMembers, eq_comm]
  | cons m rest ih =>
    obtain ⟨key, v⟩ := m
    cases v with
    | string s =>
      simp only [processMembers, Option.map_eq_some_iff, ih]
      constructor
      · rintro ⟨tail, hrest, rfl⟩
        exact .cons ⟨s, rfl, rfl⟩ hrest
      · intro hall
        cases hall with
        | cons hhead hrest =>
          obtain ⟨_, hs, rfl⟩ := hhead
          cases hs
          exact ⟨_, hrest, rfl⟩
    | _ => simp [processMembers, processPage_none, List.forall₂_cons_left_iff]

theorem isSome_processMembers {members : List (String × Ucl)} :
    (processMembers members).isSome ↔ ∀ m ∈ members, ∃ s, m.2 = .string s := by
  rw [Option.isSome_iff_exists]
  simp only [processMembers_eq_some_iff]
  constructor
  · intro ⟨props, hall⟩
    induction hall with
    | nil => simp
    | cons hhead _ ih =>
      obtain ⟨s, hs, _⟩ := hhead
      exact List.forall_mem_cons.mpr ⟨⟨s, hs⟩, ih⟩
  · intro h
    induction members with
    | nil => exact ⟨[], .nil⟩
    | cons m rest ih =>
      obtain ⟨⟨s, hs⟩, hrest⟩ := List.forall_mem_cons.mp h
      obtain ⟨props, hprops⟩ := ih hrest
      exact ⟨_ :: props, .cons ⟨s, hs, rfl⟩ hprops⟩

/-- A page of a method, with its key. -/
theorem processPage_method_eq_some_iff {key : String} {obj : Ucl} {page : Property} :
    processPage (some key) (some "method") obj = some page ↔
      ∃ members props, obj = .object members ∧ processMembers members = some props ∧ page = .page key props := by
  cases obj with
  | object members =>
    simp only [processPage, Option.isNone_some, Bool.false_eq_true, if_false, Option.bind_some, Option.map_eq_some_iff,
      Ucl.object.injEq]
    constructor
    · rintro ⟨props, hprops, hpage⟩
      exact ⟨members, props, rfl, hprops, hpage.symm⟩
    · rintro ⟨_, props, rfl, hprops, rfl⟩
      exact ⟨props, hprops, rfl⟩
  | _ => simp [processPage]

/-- What one element of a bundle adds to the class. -/
theorem processElement_eq (cls : Class) (elt : Option String × Ucl) :
    processElement cls elt =
      (processElement ⟨"", [], []⟩ elt).map fun c =>
        ⟨if elt.1 = some "name" then c.name else cls.name, cls.instances ++ c.instances,
          cls.properties ++ c.properties⟩ := by
  obtain ⟨_ | key, v⟩ := elt
  · rfl
  · simp only [processElement, Option.bind_some]
    split
    · simp [Function.comp_def]
    all_goals simp_all [Function.comp_def]

theorem foldlM_processElement_eq_some {cls cls' : Class} {elts : List (Option String × Ucl)}
    (h : elts.foldlM processElement cls = some cls') :
    ∃ parts, List.Forall₂ (fun elt part => processElement ⟨"", [], []⟩ elt = some part) elts parts ∧
      cls'.instances = cls.instances ++ parts.flatMap Class.instances ∧
      cls'.properties = cls.properties ++ parts.flatMap Class.properties := by
  induction elts generalizing cls with
  | nil =>
    obtain rfl := Option.some_inj.mp h
    exact ⟨[], .nil, by simp, by simp⟩
  | cons elt rest ih =>
    rw [List.foldlM_cons, Option.bind_eq_bind, Option.bind_eq_some_iff] at h
    obtain ⟨cls₁, hstep, hrest⟩ := h
    rw [processElement_eq, Option.map_eq_some_iff] at hstep
    obtain ⟨part, hpart, rfl⟩ := hstep
    obtain ⟨parts, hparts, hinstances, hproperties⟩ := ih hrest
    exact ⟨part :: parts, .cons hpart hparts, by simp [hinstances], by simp [hproperties]⟩

theorem isSome_foldlM_processElement {cls : Class} {elts : List (Option String × Ucl)} :
    (elts.foldlM processElement cls).isSome ↔ ∀ elt ∈ elts, (processElement ⟨"", [], []⟩ elt).isSome := by
  induction elts generalizing cls with
  | nil => simp
  | cons elt rest ih =>
    rw [List.foldlM_cons, List.forall_mem_cons, processElement_eq cls elt]
    cases processElement ⟨"", [], []⟩ elt with
    | none => simp
    | some part => simpa using ih

/-- A bundle is processed to its end if each of its elements is. -/
theorem isSome_process {members : List (String × Ucl)} :
    (process (.object members)).isSome ↔ ∀ m ∈ members, (processElement ⟨"", [], []⟩ (some m.1, m.2)).isSome := by
  rw [process, isSome_foldlM_processElement, Ucl.iterate]
  simp only [List.forall_mem_map]

end ServiceManager.AddSys
