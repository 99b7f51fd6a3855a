import Mathlib.Logic.Function.Basic
import Mathlib.Data.List.Nodup

namespace ServiceManager.Scoping

/-- What the text of a function does with names. A use says what is meant by it. -/
inductive Item (N E : Type) where
  | declare (name : N) (entity : E)
  | use (name : N) (entity : E)
  | enter
  | leave

/-- What a block has declared so far. -/
abbrev Block (N E : Type) := N → Option E

variable {N E : Type}

def Block.empty : Block N E :=
  fun _ => none

/-- What a name stands for inside some blocks, the innermost first. -/
def lookup (name : N) (blocks : List (Block N E)) : Option E :=
  blocks.findSome? fun block => block name

/-- The name stands for what is meant by it. -/
abbrev Seen (blocks : List (Block N E)) (m : N × E) : Prop :=
  lookup m.1 blocks = some m.2

/-- A name is not declared twice in a block, and is seen where it is used. -/
def Allowed (blocks : List (Block N E)) : Item N E → Prop
  | .declare name _ => (blocks.head?.bind fun block => block name) = none
  | .use name entity => Seen blocks (name, entity)
  | _ => True

/-- Names that are used one after the other. -/
def uses (names : List (N × E)) : List (Item N E) :=
  names.map fun m => .use m.1 m.2

def declares (names : List (N × E)) : List (Item N E) :=
  names.map fun m => .declare m.1 m.2

section Lookup

variable {outer : List (Block N E)} {block : Block N E} {name : N} {entity : E}

theorem lookup_cons_some (h : block name = some entity) : lookup name (block :: outer) = some entity := by
  simp [lookup, h]

theorem lookup_cons_none (h : block name = none) : lookup name (block :: outer) = lookup name outer := by
  simp [lookup, h]

theorem lookup_append {inner : List (Block N E)} :
    lookup name (inner ++ outer) = (lookup name inner).or (lookup name outer) :=
  List.findSome?_append

@[simp] theorem seen_empty {m : N × E} : Seen (.empty :: outer) m ↔ Seen outer m := by
  rw [Seen, lookup_cons_none rfl]

end Lookup

variable [DecidableEq N]

/-- The blocks after an item. -/
def after (blocks : List (Block N E)) : Item N E → List (Block N E)
  | .declare name entity =>
    match blocks with
    | [] => []
    | block :: outer => Function.update block name (some entity) :: outer
  | .use _ _ => blocks
  | .enter => .empty :: blocks
  | .leave => blocks.tail

def Scoped : List (Block N E) → List (Item N E) → Prop
  | _, [] => True
  | blocks, item :: items => Allowed blocks item ∧ Scoped (after blocks item) items

/-- A block with further declarations. -/
def extend (block : Block N E) (names : List (N × E)) : Block N E :=
  names.foldl (fun block m => Function.update block m.1 (some m.2)) block

/-- A function of a class, from its parameters on. `outer` is what there is around the
class's members, from the inside out. -/
structure Body (N E : Type) where
  members : List (N × E)
  items : List (Item N E)
  outer : List (Block N E) := []

/-- The class declares each of its members once, and the function has its names in scope. -/
structure Body.WellScoped (b : Body N E) : Prop where
  nodup : (b.members.map Prod.fst).Nodup
  names : Scoped (.empty :: extend .empty b.members :: b.outer) b.items

section Decidable

variable [DecidableEq E]

instance (blocks : List (Block N E)) (item : Item N E) : Decidable (Allowed blocks item) :=
  match item with
  | .declare _ _ => inferInstanceAs (Decidable (_ = none))
  | .use _ _ => inferInstanceAs (Decidable (_ = some _))
  | .enter => inferInstanceAs (Decidable True)
  | .leave => inferInstanceAs (Decidable True)

instance decidableScoped : (blocks : List (Block N E)) → (items : List (Item N E)) → Decidable (Scoped blocks items)
  | _, [] => inferInstanceAs (Decidable True)
  | blocks, item :: items =>
    have := decidableScoped (after blocks item) items
    inferInstanceAs (Decidable (_ ∧ _))

instance (b : Body N E) : Decidable b.WellScoped :=
  decidable_of_iff ((b.members.map Prod.fst).Nodup ∧ Scoped (.empty :: extend .empty b.members :: b.outer) b.items)
    ⟨fun h => ⟨h.1, h.2⟩, fun h => ⟨h.nodup, h.names⟩⟩

end Decidable

variable {blocks outer : List (Block N E)} {block : Block N E} {items items' : List (Item N E)} {name : N}
  {entity : E} {names used : List (N × E)}

section Items

@[simp] theorem scoped_nil : Scoped blocks [] :=
  trivial

theorem scoped_append :
    Scoped blocks (items ++ items') ↔ Scoped blocks items ∧ Scoped (items.foldl after blocks) items' := by
  induction items generalizing blocks with
  | nil => simp
  | cons item items ih => simp only [List.cons_append, Scoped, List.foldl_cons, ih, and_assoc]

theorem scoped_declare : Scoped (block :: outer) (.declare name entity :: items) ↔
    block name = none ∧ Scoped (Function.update block name (some entity) :: outer) items :=
  Iff.rfl

theorem scoped_enter : Scoped blocks (.enter :: items) ↔ Scoped (.empty :: blocks) items :=
  and_iff_right trivial

theorem scoped_leave : Scoped (block :: outer) (.leave :: items) ↔ Scoped outer items :=
  and_iff_right trivial

theorem foldl_after_uses : (uses names).foldl after blocks = blocks := by
  induction names with
  | nil => rfl
  | cons m names ih => exact ih

theorem scoped_uses : Scoped blocks (uses names) ↔ ∀ m ∈ names, Seen blocks m := by
  induction names with
  | nil => simp [uses]
  | cons m names ih =>
    rw [List.forall_mem_cons, ← ih]
    exact Iff.rfl

theorem scoped_uses_append :
    Scoped blocks (uses names ++ items) ↔ (∀ m ∈ names, Seen blocks m) ∧ Scoped blocks items := by
  rw [scoped_append, scoped_uses, foldl_after_uses]

theorem foldl_after_declares : (declares names).foldl after (block :: outer) = extend block names :: outer := by
  induction names generalizing block with
  | nil => rfl
  | cons m names ih => exact ih

/-- Names may be declared once each, and not where the block has them. -/
theorem scoped_declares : Scoped (block :: outer) (declares names) ↔
    (names.map Prod.fst).Nodup ∧ ∀ m ∈ names, block m.1 = none := by
  induction names generalizing block with
  | nil => simp [declares]
  | cons m names ih =>
    have hrest : Scoped (block :: outer) (declares (m :: names)) ↔
        block m.1 = none ∧ Scoped (Function.update block m.1 (some m.2) :: outer) (declares names) := scoped_declare
    rw [hrest, ih, List.map_cons, List.nodup_cons, List.forall_mem_cons]
    constructor
    · intro ⟨hnone, hnodup, hfresh⟩
      have hne : ∀ m' ∈ names, m'.1 ≠ m.1 := by
        intro m' hm' heq
        have hset := hfresh m' hm'
        rw [heq, Function.update_self] at hset
        cases hset
      refine ⟨⟨fun hmem => ?_, hnodup⟩, hnone, fun m' hm' => ?_⟩
      · obtain ⟨m', hm', heq⟩ := List.mem_map.mp hmem
        exact hne m' hm' heq
      · have hset := hfresh m' hm'
        rwa [Function.update_of_ne (hne m' hm')] at hset
    · intro ⟨⟨hnew, hnodup⟩, hnone, hfresh⟩
      refine ⟨hnone, hnodup, fun m' hm' => ?_⟩
      have hne : m'.1 ≠ m.1 := fun heq => hnew (List.mem_map.mpr ⟨m', hm', heq⟩)
      rw [Function.update_of_ne hne]
      exact hfresh m' hm'

theorem scoped_declares_append : Scoped (block :: outer) (declares names ++ items) ↔
    (names.map Prod.fst).Nodup ∧ (∀ m ∈ names, block m.1 = none) ∧ Scoped (extend block names :: outer) items := by
  rw [scoped_append, scoped_declares, foldl_after_declares, and_assoc]

/-- A block that is entered and left again. -/
theorem scoped_block : Scoped blocks (.enter :: (declares names ++ (uses used ++ .leave :: items))) ↔
    (names.map Prod.fst).Nodup ∧ (∀ m ∈ used, Seen (extend .empty names :: blocks) m) ∧
      Scoped blocks items := by
  have hempty : ∀ m ∈ names, (Block.empty : Block N E) m.1 = none := fun _ _ => rfl
  rw [scoped_enter, scoped_declares_append, scoped_uses_append, scoped_leave]
  exact and_congr_right fun _ => and_iff_right hempty

theorem scoped_flatMap_append {α : Type} {f : α → List (Item N E)} {P : α → Prop}
    (h : ∀ a items, Scoped blocks (f a ++ items) ↔ P a ∧ Scoped blocks items) (as : List α) :
    Scoped blocks (as.flatMap f ++ items) ↔ (∀ a ∈ as, P a) ∧ Scoped blocks items := by
  induction as with
  | nil => simp
  | cons a as ih => rw [List.flatMap_cons, List.append_assoc, h, ih, List.forall_mem_cons, and_assoc]

end Items

section Extend

theorem extend_of_not_mem (h : name ∉ names.map Prod.fst) : extend block names name = block name := by
  induction names generalizing block with
  | nil => rfl
  | cons m names ih =>
    rw [List.map_cons, List.mem_cons, not_or] at h
    exact (ih h.2).trans (Function.update_of_ne h.1 _ _)

theorem extend_of_mem (hnodup : (names.map Prod.fst).Nodup) (h : (name, entity) ∈ names) :
    extend block names name = some entity := by
  induction names generalizing block with
  | nil => cases h
  | cons m names ih =>
    obtain ⟨hnew, hnodup⟩ := List.nodup_cons.mp hnodup
    rcases List.mem_cons.mp h with rfl | h
    · exact (extend_of_not_mem hnew).trans (Function.update_self _ _ _)
    · exact ih hnodup h

/-- Other names than those that are declared are seen as before. -/
theorem seen_extend_of_not_mem {m : N × E} (hm : m.1 ∉ names.map Prod.fst) :
    Seen (extend block names :: outer) m ↔ Seen (block :: outer) m := by
  simp only [Seen, lookup, List.findSome?_cons, extend_of_not_mem hm]

/-- A name stands for what the block declares by it, or for what it stands for without
that. -/
theorem seen_extend_iff {m : N × E} (hnodup : (names.map Prod.fst).Nodup) :
    Seen (extend block names :: outer) m ↔ m ∈ names ∨ m.1 ∉ names.map Prod.fst ∧ Seen (block :: outer) m := by
  by_cases hmem : m.1 ∈ names.map Prod.fst
  · obtain ⟨m', hm', heq⟩ := List.mem_map.mp hmem
    have hself : lookup m.1 (extend block names :: outer) = some m'.2 :=
      lookup_cons_some (extend_of_mem hnodup (heq ▸ hm'))
    constructor
    · intro h
      have hsame : m' = m := Prod.ext heq (Option.some_inj.mp (hself.symm.trans h))
      exact Or.inl (hsame ▸ hm')
    · rintro (hm | ⟨hnot, -⟩)
      · exact lookup_cons_some (extend_of_mem hnodup hm)
      · exact absurd hmem hnot
  · rw [seen_extend_of_not_mem hmem]
    constructor
    · intro h
      exact Or.inr ⟨hmem, h⟩
    · rintro (hm | ⟨-, h⟩)
      · exact absurd (List.mem_map_of_mem hm) hmem
      · exact h

theorem extend_empty_eq_none_iff (hnodup : (names.map Prod.fst).Nodup) :
    extend Block.empty names name = none ↔ name ∉ names.map Prod.fst := by
  constructor
  · intro hnone hmem
    obtain ⟨m, hm, rfl⟩ := List.mem_map.mp hmem
    exact nomatch (extend_of_mem hnodup hm).symm.trans hnone
  · intro hnot
    exact extend_of_not_mem hnot

theorem seen_class_iff {m : N × E} (hnodup : (names.map Prod.fst).Nodup) :
    Seen [extend .empty names] m ↔ m ∈ names := by
  rw [seen_extend_iff hnodup, seen_empty]
  simp [Seen, lookup]

/-- What is seen in the outermost block of a function. -/
theorem seen_function_iff {members : List (N × E)} {m : N × E} (hnames : (names.map Prod.fst).Nodup)
    (hmembers : (members.map Prod.fst).Nodup) :
    Seen [extend .empty names, extend .empty members] m ↔ m ∈ names ∨ m.1 ∉ names.map Prod.fst ∧ m ∈ members := by
  rw [seen_extend_iff hnames, seen_empty, seen_class_iff hmembers]

/-- A function of one block. -/
theorem wellScoped_flat_iff {members : List (N × E)} :
    (Body.mk members (declares names ++ uses used) []).WellScoped ↔
      (members.map Prod.fst).Nodup ∧ (names.map Prod.fst).Nodup ∧
        ∀ m ∈ used, m ∈ names ∨ m.1 ∉ names.map Prod.fst ∧ m ∈ members := by
  have hscoped (hmembers : (members.map Prod.fst).Nodup) :
      Scoped [.empty, extend .empty members] (declares names ++ uses used) ↔ (names.map Prod.fst).Nodup ∧
        ∀ m ∈ used, m ∈ names ∨ m.1 ∉ names.map Prod.fst ∧ m ∈ members := by
    rw [scoped_declares_append, scoped_uses]
    refine and_congr_right fun hnames => ?_
    refine (and_iff_right fun _ _ => rfl).trans ?_
    exact forall₂_congr fun m _ => seen_function_iff hnames hmembers
  constructor
  · intro ⟨hmembers, h⟩
    exact ⟨hmembers, (hscoped hmembers).mp h⟩
  · intro ⟨hmembers, h⟩
    exact ⟨hmembers, (hscoped hmembers).mpr h⟩

/-- A function that declares nothing. -/
theorem wellScoped_uses_iff {members : List (N × E)} :
    (Body.mk members (uses used) []).WellScoped ↔ (members.map Prod.fst).Nodup ∧ ∀ m ∈ used, m ∈ members := by
  have hflat : (Body.mk members (declares [] ++ uses used) []).WellScoped ↔ _ := wellScoped_flat_iff
  simpa [declares] using hflat

section Single

variable {a m : N × E}

theorem seen_single_self : Seen (extend .empty [a] :: blocks) a :=
  (seen_extend_iff (by simp)).mpr (Or.inl List.mem_cons_self)

/-- In a block with one name, the others are seen as around it. -/
theorem seen_single_of_ne (hne : m ≠ a) : Seen (extend .empty [a] :: blocks) m ↔ m.1 ≠ a.1 ∧ Seen blocks m := by
  rw [seen_extend_iff (by simp), seen_empty, List.map_singleton, List.mem_singleton, List.mem_singleton]
  exact or_iff_right hne

end Single

end Extend

end ServiceManager.Scoping
