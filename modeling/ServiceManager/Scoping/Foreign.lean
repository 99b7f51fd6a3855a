import ServiceManager.Scoping

namespace ServiceManager.Scoping

variable {N E : Type}

section Definitions

-- The entities that come from around a class. No function declares one.
variable (foreign : E → Bool)

/-- The item is about the function and its class alone. -/
def Item.own : Item N E → Bool
  | .use _ entity => !foreign entity
  | _ => true

/-- The names that the open blocks have declared, the last one first, after an item. -/
def declared (names : List (List N)) : Item N E → List (List N)
  | .declare name _ =>
    match names with
    | [] => []
    | block :: outer => (name :: block) :: outer
  | .use _ _ => names
  | .enter => [] :: names
  | .leave => names.tail

/-- The uses of what comes from around the class, each with the names declared before it. -/
def taken (names : List (List N)) : List (Item N E) → List ((N × E) × List N)
  | [] => []
  | .use name entity :: items =>
    if foreign entity then ((name, entity), names.flatten) :: taken names items else taken names items
  | item :: items => taken (declared names item) items

/-- The items leave no block that they have not entered, but for so many, and declare only in
blocks of their own, and nothing that comes from around the class. -/
def Inside (depth : Nat) : List (Item N E) → Prop
  | [] => True
  | .declare _ entity :: items => (0 < depth ∧ foreign entity = false) ∧ Inside depth items
  | .use _ _ :: items => Inside depth items
  | .enter :: items => Inside (depth + 1) items
  | .leave :: items => 0 < depth ∧ Inside (depth - 1) items

/-- What the function has of a body, without what comes from around its class. -/
def Body.own (b : Body N E) : Body N E where
  members := b.members
  items := b.items.filter (Item.own foreign)

/-- What is declared around a class comes from there. -/
def Around (outer : List (Block N E)) : Prop :=
  ∀ block ∈ outer, ∀ name entity, block name = some entity → foreign entity = true

end Definitions

variable {foreign : E → Bool} {items : List (Item N E)} {outer : List (Block N E)} {depth : Nat}

section Parts

variable {first : List N}

@[simp] theorem filter_own_uses (used : List (N × E)) :
    (uses used).filter (Item.own foreign) = uses (used.filter fun m => !foreign m.2) :=
  List.filter_map

@[simp] theorem filter_own_declares (names : List (N × E)) :
    (declares names).filter (Item.own foreign) = declares names := by
  rw [List.filter_eq_self]
  intro item hitem
  obtain ⟨m, _, rfl⟩ := List.mem_map.mp hitem
  rfl

@[simp] theorem filter_own_enter (items : List (Item N E)) :
    (Item.enter :: items).filter (Item.own foreign) = .enter :: items.filter (Item.own foreign) :=
  rfl

@[simp] theorem inside_uses_append (used : List (N × E)) :
    Inside foreign depth (uses used ++ items) ↔ Inside foreign depth items := by
  induction used with
  | nil => exact Iff.rfl
  | cons m used ih => exact ih

@[simp] theorem inside_uses (used : List (N × E)) : Inside foreign depth (uses used) := by
  have happend : Inside foreign depth (uses used ++ []) := (inside_uses_append used).mpr trivial
  rwa [List.append_nil] at happend

@[simp] theorem inside_declares_append (names : List (N × E)) :
    Inside foreign (depth + 1) (declares names ++ items) ↔
      (∀ m ∈ names, foreign m.2 = false) ∧ Inside foreign (depth + 1) items := by
  induction names with
  | nil => simp [declares]
  | cons m names ih =>
    rw [List.forall_mem_cons, and_assoc, ← ih]
    exact and_congr_left fun _ => and_iff_right (Nat.succ_pos depth)

@[simp] theorem inside_enter : Inside foreign depth (.enter :: items) ↔ Inside foreign (depth + 1) items :=
  Iff.rfl

@[simp] theorem inside_leave : Inside foreign (depth + 1) (.leave :: items) ↔ Inside foreign depth items :=
  and_iff_right (Nat.succ_pos depth)

theorem inside_flatMap_append {α : Type} {f : α → List (Item N E)}
    (h : ∀ a items, Inside foreign depth (f a ++ items) ↔ Inside foreign depth items) (as : List α) :
    Inside foreign depth (as.flatMap f ++ items) ↔ Inside foreign depth items := by
  induction as with
  | nil => exact Iff.rfl
  | cons a as ih => rw [List.flatMap_cons, List.append_assoc, h, ih]

@[simp] theorem taken_uses_append (used : List (N × E)) (declared : List (List N)) :
    taken foreign declared (uses used ++ items) =
      (used.filter fun m => foreign m.2).map (fun m => (m, declared.flatten)) ++ taken foreign declared items := by
  induction used with
  | nil => rfl
  | cons m used ih =>
    have hcons : taken foreign declared (uses (m :: used) ++ items) =
        if foreign m.2 then (m, declared.flatten) :: taken foreign declared (uses used ++ items)
        else taken foreign declared (uses used ++ items) := rfl
    rw [hcons, ih, List.filter_cons]
    cases foreign m.2 <;> rfl

/-- Where a function uses what is its own or the class's, it takes nothing. -/
theorem taken_own_uses_append {used : List (N × E)} (hown : ∀ m ∈ used, foreign m.2 = false)
    (declared : List (List N)) :
    taken foreign declared (uses used ++ items) = taken foreign declared items := by
  have hnone : used.filter (fun m => foreign m.2) = [] := by
    rw [List.filter_eq_nil_iff]
    intro m hm
    simp [hown m hm]
  rw [taken_uses_append, hnone]
  rfl

theorem taken_own_uses {used : List (N × E)} (hown : ∀ m ∈ used, foreign m.2 = false) (declared : List (List N)) :
    taken foreign declared (uses used) = [] := by
  have happend : taken foreign declared (uses used ++ []) = [] := taken_own_uses_append hown declared
  rwa [List.append_nil] at happend

theorem filter_own_uses_own {used : List (N × E)} (hown : ∀ m ∈ used, foreign m.2 = false) :
    (uses used).filter (Item.own foreign) = uses used := by
  have hall : used.filter (fun m => !foreign m.2) = used := by
    rw [List.filter_eq_self]
    intro m hm
    simp [hown m hm]
  rw [filter_own_uses, hall]

@[simp] theorem taken_declares_append (names : List (N × E)) (outer : List (List N)) :
    taken foreign (first :: outer) (declares names ++ items) =
      taken foreign (((names.map Prod.fst).reverse ++ first) :: outer) items := by
  induction names generalizing first with
  | nil => rfl
  | cons m names ih =>
    have hcons : taken foreign (first :: outer) (declares (m :: names) ++ items) =
        taken foreign ((m.1 :: first) :: outer) (declares names ++ items) := rfl
    rw [hcons, ih, List.map_cons, List.reverse_cons, List.append_assoc]
    rfl

@[simp] theorem taken_enter (declared : List (List N)) :
    taken foreign declared (.enter :: items) = taken foreign ([] :: declared) items :=
  rfl

@[simp] theorem taken_leave (outer : List (List N)) :
    taken foreign (first :: outer) (.leave :: items) = taken foreign outer items :=
  rfl

theorem taken_flatMap_append {α : Type} {f : α → List (Item N E)} {g : α → List ((N × E) × List N)}
    {declared : List (List N)}
    (h : ∀ a items, taken foreign declared (f a ++ items) = g a ++ taken foreign declared items) (as : List α) :
    taken foreign declared (as.flatMap f ++ items) = as.flatMap g ++ taken foreign declared items := by
  induction as with
  | nil => rfl
  | cons a as ih => rw [List.flatMap_cons, List.append_assoc, h, ih, List.flatMap_cons, List.append_assoc]

end Parts

section Seen

variable {inner : List (Block N E)} {m : N × E}

/-- What is the function's or the class's own is seen inside. -/
theorem seen_own_iff (houter : Around foreign outer) (hown : foreign m.2 = false) :
    Seen (inner ++ outer) m ↔ Seen inner m := by
  rw [Seen, Seen, lookup_append]
  cases hinner : lookup m.1 inner with
  | some entity => rw [Option.some_or]
  | none =>
    rw [Option.none_or]
    refine iff_of_false (fun hseen => ?_) (Option.some_ne_none _ ∘ Eq.symm)
    obtain ⟨block, hblock, hsome⟩ := List.exists_of_findSome?_eq_some hseen
    rw [houter block hblock _ _ hsome] at hown
    cases hown

end Seen

section Tracks

variable [DecidableEq N]

/-- The blocks have declared these names, each for something of their own. -/
def Tracks (foreign : E → Bool) (inner : List (Block N E)) (names : List (List N)) : Prop :=
  List.Forall₂ (fun block declared => ∀ name,
    if name ∈ declared then ∃ entity, block name = some entity ∧ foreign entity = false else block name = none)
    inner names

variable {inner : List (Block N E)} {block : Block N E} {names : List (List N)} {name : N} {entity : E} {m : N × E}

theorem Tracks.lookup_of_mem (h : Tracks foreign inner names) (hname : name ∈ names.flatten) :
    ∃ entity, lookup name inner = some entity ∧ foreign entity = false := by
  induction h with
  | nil => cases hname
  | @cons block declared inner names hblock _ ih =>
    have hblock := hblock name
    by_cases hmem : name ∈ declared
    · rw [if_pos hmem] at hblock
      obtain ⟨entity, hsome, hown⟩ := hblock
      exact ⟨entity, lookup_cons_some hsome, hown⟩
    · rw [if_neg hmem] at hblock
      rw [lookup_cons_none hblock]
      exact ih ((List.mem_append.mp hname).resolve_left hmem)

theorem Tracks.lookup_of_not_mem (h : Tracks foreign inner names) (hname : name ∉ names.flatten) :
    lookup name inner = none := by
  induction h with
  | nil => rfl
  | @cons block declared inner names hblock _ ih =>
    rw [List.flatten_cons, List.mem_append, not_or] at hname
    have hblock := hblock name
    rw [if_neg hname.1] at hblock
    rw [lookup_cons_none hblock]
    exact ih hname.2

/-- What comes from around the class is seen there, unless the name has been declared inside. -/
theorem seen_foreign_iff (htracks : Tracks foreign inner names) (hforeign : foreign m.2 = true) :
    Seen (inner ++ outer) m ↔ m.1 ∉ names.flatten ∧ Seen outer m := by
  rw [Seen, lookup_append]
  by_cases hmem : m.1 ∈ names.flatten
  · obtain ⟨entity, hsome, hown⟩ := htracks.lookup_of_mem hmem
    rw [hsome, Option.some_or]
    constructor
    · intro heq
      rw [← Option.some_inj.mp heq, hown] at hforeign
      cases hforeign
    · intro h
      exact absurd hmem h.1
  · rw [htracks.lookup_of_not_mem hmem, Option.none_or]
    exact (and_iff_right hmem).symm

theorem Tracks.declare {first : List N} (h : Tracks foreign (block :: inner) (first :: names))
    (hown : foreign entity = false) (name : N) :
    Tracks foreign (Function.update block name (some entity) :: inner) ((name :: first) :: names) := by
  obtain ⟨hblock, hinner⟩ := List.forall₂_cons.mp h
  refine .cons (fun name' => ?_) hinner
  by_cases heq : name' = name
  · subst heq
    rw [if_pos List.mem_cons_self]
    exact ⟨entity, Function.update_self _ _ _, hown⟩
  · have hblock := hblock name'
    rw [Function.update_of_ne heq]
    simpa only [List.mem_cons, heq, false_or] using hblock

theorem Tracks.enter (h : Tracks foreign inner names) : Tracks foreign (.empty :: inner) ([] :: names) :=
  .cons (fun name => by rw [if_neg (List.not_mem_nil (a := name))]; rfl) h

/-- The names of a function can be told apart from those that come from around its class. -/
theorem scoped_iff_own (hinside : Inside foreign depth items) (htracks : Tracks foreign inner names)
    (hdepth : depth ≤ names.length) (houter : Around foreign outer) :
    Scoped (inner ++ outer) items ↔ Scoped inner (items.filter (Item.own foreign)) ∧
      ∀ x ∈ taken foreign names items, x.1.1 ∉ x.2 ∧ Seen outer x.1 := by
  induction items generalizing inner names depth with
  | nil => simp [taken]
  | cons item items ih =>
    cases item with
    | declare name entity =>
      obtain ⟨⟨hpos, hown⟩, hinside⟩ := hinside
      cases htracks with
      | nil => exact absurd (Nat.lt_of_lt_of_le hpos hdepth) (Nat.lt_irrefl 0)
      | @cons block declared inner names hblock hinner =>
        have htracks : Tracks foreign (block :: inner) (declared :: names) := .cons hblock hinner
        have hrest := ih hinside (htracks.declare hown name) hdepth
        rw [List.filter_cons_of_pos rfl, scoped_declare, and_assoc]
        exact and_congr_right fun _ => hrest
    | use name entity =>
      have hrest := ih hinside htracks hdepth
      cases hforeign : foreign entity with
      | true =>
        have hseen : Seen (inner ++ outer) (name, entity) ↔ name ∉ names.flatten ∧ Seen outer (name, entity) :=
          seen_foreign_iff htracks hforeign
        rw [List.filter_cons_of_neg (by simp [Item.own, hforeign]), taken, if_pos hforeign, List.forall_mem_cons]
        exact (and_congr hseen hrest).trans and_left_comm
      | false =>
        have hseen : Seen (inner ++ outer) (name, entity) ↔ Seen inner (name, entity) := seen_own_iff houter hforeign
        rw [List.filter_cons_of_pos (by simp [Item.own, hforeign]), taken, if_neg (by simp [hforeign])]
        exact (and_congr hseen hrest).trans and_assoc.symm
    | enter =>
      have hrest := ih hinside htracks.enter (Nat.succ_le_succ hdepth)
      rw [List.filter_cons_of_pos rfl, scoped_enter, scoped_enter]
      exact hrest
    | leave =>
      obtain ⟨hpos, hinside⟩ := hinside
      cases htracks with
      | nil => exact absurd (Nat.lt_of_lt_of_le hpos hdepth) (Nat.lt_irrefl 0)
      | @cons block declared inner names hblock hinner =>
        have hrest := ih hinside hinner (Nat.sub_le_of_le_add hdepth)
        rw [List.filter_cons_of_pos rfl, List.cons_append, scoped_leave, scoped_leave]
        exact hrest

theorem tracks_class {members : List (N × E)} (hnodup : (members.map Prod.fst).Nodup)
    (hown : ∀ m ∈ members, foreign m.2 = false) :
    Tracks foreign [.empty, extend .empty members] [[], members.map Prod.fst] := by
  refine Tracks.enter (.cons (fun name => ?_) .nil)
  by_cases hmem : name ∈ members.map Prod.fst
  · rw [if_pos hmem]
    obtain ⟨m, hm, rfl⟩ := List.mem_map.mp hmem
    exact ⟨m.2, extend_of_mem hnodup hm, hown m hm⟩
  · rw [if_neg hmem]
    exact extend_of_not_mem hmem

/-- A function has its names in scope if it has its own, and sees around its class the others
that it uses. -/
theorem Body.wellScoped_iff_own {b : Body N E} (hmembers : ∀ m ∈ b.members, foreign m.2 = false)
    (hinside : Inside foreign 1 b.items) (houter : Around foreign b.outer) :
    b.WellScoped ↔ (b.own foreign).WellScoped ∧
      ∀ x ∈ taken foreign [[], b.members.map Prod.fst] b.items, x.1.1 ∉ x.2 ∧ Seen b.outer x.1 := by
  have hnames (hnodup : (b.members.map Prod.fst).Nodup) := scoped_iff_own hinside (tracks_class hnodup hmembers)
    (Nat.le_succ 1) houter
  constructor
  · intro ⟨hnodup, hscoped⟩
    obtain ⟨hown, htaken⟩ := (hnames hnodup).mp hscoped
    exact ⟨⟨hnodup, hown⟩, htaken⟩
  · intro ⟨⟨hnodup, hown⟩, htaken⟩
    exact ⟨hnodup, (hnames hnodup).mpr ⟨hown, htaken⟩⟩

end Tracks

end ServiceManager.Scoping
