import ServiceManager.Wsrpcgen.Emit

namespace ServiceManager.Wsrpcgen.Idl

open Scoping

variable {items : List (Item String Entity)} {needed : List Needed} {ds : List (List Needed × Meant)} {t : TypeRef}
  {suc uIn out : Meant} {depth : Nat} {declared outer : List (List String)} {first : List String}

/-- A use of what comes from around the class, with the names declared before it. -/
def use (x : Borrow) : Meant × List String :=
  (ofNeeded (x.name, x.scope), x.before)

/-- The names of declarations, without what is meant by them. -/
def namesOf (ds : List (List Needed × Meant)) : List (List Needed × String) :=
  ds.map fun d => (d.1, d.2.1)

@[simp] theorem ofNeeded_foreign (n : Needed) : (ofNeeded n).2.foreign = true := by
  obtain ⟨name, scope⟩ := n
  cases scope <;> rfl

@[simp] theorem ofVariable_own (name : String) : (ofVariable name).2.foreign = false :=
  rfl

@[simp] theorem ofVariable_fst (name : String) : (ofVariable name).1 = name :=
  rfl

@[simp] theorem ofMember_own (name : String) : (ofMember name).2.foreign = false :=
  rfl

@[simp] theorem ofNamed_own (id : String) : (ofNamed id).2.foreign = false :=
  rfl

@[simp] theorem ofObject_own (id : String) : (ofObject id).2.foreign = false :=
  rfl

@[simp] theorem ofObj_own (id : String) : (ofObj id).2.foreign = false :=
  rfl

@[simp] theorem ofText_own (id : String) : (ofText id).2.foreign = false :=
  rfl

@[simp] theorem element_own (id : String) : (Entity.element id).foreign = false :=
  rfl

@[simp] theorem loopFlag_own (t : TypeRef) (suc : Meant) : (loopFlag t suc).2.foreign = suc.2.foreign := by
  unfold loopFlag
  split <;> rfl

section Needs

@[simp] theorem own_needs (needed : List Needed) : (needs needed).filter (Item.own Entity.foreign) = [] := by
  have hnone : (needed.map ofNeeded).filter (fun m => !m.2.foreign) = [] := by
    rw [List.filter_eq_nil_iff]
    intro m hm
    obtain ⟨n, _, rfl⟩ := List.mem_map.mp hm
    simp
  rw [needs, filter_own_uses, hnone]
  rfl

@[simp] theorem inside_needs_append :
    Inside Entity.foreign depth (needs needed ++ items) ↔ Inside Entity.foreign depth items :=
  inside_uses_append _

theorem borrow_use (before : List String) (needed : List Needed) :
    (borrow before needed).map use = (needed.map ofNeeded).map fun m => (m, before) := by
  simp [borrow, use, Function.comp_def]

@[simp] theorem taken_needs_append : taken Entity.foreign declared (needs needed ++ items) =
    (borrow declared.flatten needed).map use ++ taken Entity.foreign declared items := by
  have hall : (needed.map ofNeeded).filter (fun m => m.2.foreign) = needed.map ofNeeded := by
    rw [List.filter_eq_self]
    intro m hm
    obtain ⟨n, _, rfl⟩ := List.mem_map.mp hm
    exact ofNeeded_foreign n
  rw [needs, taken_uses_append, hall, borrow_use]

end Needs

section Declarations

@[simp] theorem own_declarations (ds : List (List Needed × Meant)) :
    (declarations ds).filter (Item.own Entity.foreign) = declares (ds.map Prod.snd) := by
  induction ds with
  | nil => rfl
  | cons d ds ih =>
    rw [declarations, List.flatMap_cons, List.filter_append, List.filter_append, own_needs, filter_own_declares,
      List.nil_append]
    exact congrArg (Item.declare d.2.1 d.2.2 :: ·) ih

@[simp] theorem inside_declarations_append :
    Inside Entity.foreign (depth + 1) (declarations ds ++ items) ↔
      (∀ d ∈ ds, d.2.2.foreign = false) ∧ Inside Entity.foreign (depth + 1) items := by
  induction ds with
  | nil => simp [declarations]
  | cons d ds ih =>
    rw [declarations, List.flatMap_cons, List.append_assoc, List.append_assoc, inside_needs_append,
      inside_declares_append, List.forall_mem_singleton, List.forall_mem_cons, and_assoc, ← ih]
    rfl

theorem taken_declarations_append : taken Entity.foreign (first :: outer) (declarations ds ++ items) =
    (declarationBorrows (first ++ outer.flatten) (namesOf ds)).map use ++
      taken Entity.foreign (declaredAfter first (namesOf ds) :: outer) items := by
  induction ds generalizing first with
  | nil => rfl
  | cons d ds ih =>
    have hcons : declarations (d :: ds) = needs d.1 ++ (declares [d.2] ++ declarations ds) := by
      rw [declarations, List.flatMap_cons, List.append_assoc]
      rfl
    have hafter : declaredAfter first (namesOf (d :: ds)) = declaredAfter (d.2.1 :: first) (namesOf ds) := by
      simp [declaredAfter, namesOf]
    rw [hcons, List.append_assoc, List.append_assoc, taken_needs_append, taken_declares_append, hafter]
    simp only [List.map_cons, List.map_nil, List.reverse_singleton, List.singleton_append]
    have hborrows : declarationBorrows (first ++ outer.flatten) (namesOf (d :: ds)) =
        borrow (first ++ outer.flatten) d.1 ++ declarationBorrows (d.2.1 :: first ++ outer.flatten) (namesOf ds) := rfl
    rw [ih, hborrows, List.map_append, List.append_assoc]
    rfl

end Declarations

section Templates

/-- `genSerialiseInto` without what it takes from the header. -/
def ownSerialiseInto (t : TypeRef) (uIn out : Meant) : List (Item String Entity) :=
  uses [out, uIn] ++
    if t.list then
      .enter :: (declares [(uIn.1, .element uIn.1)] ++ (uses [out, (uIn.1, .element uIn.1)] ++ [.leave]))
    else []

/-- `genDeserialiseInto` without what it takes from the header. -/
def ownDeserialiseInto (t : TypeRef) (suc uIn out : Meant) : List (Item String Entity) :=
  if t.list then
    declares loopNames ++ (uses [ofVariable "uEl", uIn, ofVariable "it"] ++
      .enter :: (declares [ofVariable "outEl"] ++
        (uses [ofVariable "uEl", ofVariable "outEl", loopFlag t suc, out, ofVariable "outEl"] ++ [.leave])))
  else uses [suc, uIn, out]

theorem own_genSerialiseInto (huIn : uIn.2.foreign = false) (hout : out.2.foreign = false) :
    (genSerialiseInto t uIn out).filter (Item.own Entity.foreign) = ownSerialiseInto t uIn out := by
  unfold genSerialiseInto ownSerialiseInto
  cases t.list with
  | false =>
    simp [huIn, hout]
    rfl
  | true =>
    simp [huIn, hout]
    rfl

theorem own_genDeserialiseInto (hsuc : suc.2.foreign = false) (huIn : uIn.2.foreign = false)
    (hout : out.2.foreign = false) :
    (genDeserialiseInto t suc uIn out).filter (Item.own Entity.foreign) = ownDeserialiseInto t suc uIn out := by
  have hflag : (loopFlag t suc).2.foreign = false := (loopFlag_own t suc).trans hsuc
  unfold genDeserialiseInto ownDeserialiseInto
  cases t.list with
  | false =>
    simp [hsuc, huIn, hout]
    rfl
  | true =>
    simp [huIn, hout, hflag]
    rfl

@[simp] theorem inside_genSerialiseInto_append :
    Inside Entity.foreign depth (genSerialiseInto t uIn out ++ items) ↔ Inside Entity.foreign depth items := by
  unfold genSerialiseInto
  cases t.list with
  | false => simp
  | true => simp

@[simp] theorem inside_genDeserialiseInto_append :
    Inside Entity.foreign (depth + 1) (genDeserialiseInto t suc uIn out ++ items) ↔
      Inside Entity.foreign (depth + 1) items := by
  unfold genDeserialiseInto
  cases t.list with
  | false => simp
  | true => simp

theorem taken_genSerialiseInto_append (huIn : uIn.2.foreign = false) (hout : out.2.foreign = false) :
    taken Entity.foreign declared (genSerialiseInto t uIn out ++ items) =
      (t.serialiseBorrows declared.flatten uIn.1).map use ++ taken Entity.foreign declared items := by
  unfold genSerialiseInto TypeRef.serialiseBorrows
  cases t.list with
  | false => simp [huIn, hout]
  | true => simp [huIn, hout]

theorem taken_genDeserialiseInto_append (hsuc : suc.2.foreign = false) (huIn : uIn.2.foreign = false)
    (hout : out.2.foreign = false) :
    taken Entity.foreign (first :: outer) (genDeserialiseInto t suc uIn out ++ items) =
      (t.deserialiseBorrows (first ++ outer.flatten)).map use ++
        taken Entity.foreign ((t.loopNames ++ first) :: outer) items := by
  unfold genDeserialiseInto TypeRef.deserialiseBorrows TypeRef.loopNames
  cases t.list with
  | false => simp [hsuc, huIn, hout]
  | true =>
    simp [hsuc, huIn, hout, taken_declarations_append, namesOf, declarationBorrows, declaredAfter, borrow]

end Templates

section Encode

variable {decls : List Decl}

theorem declaredAfter_append (before rest : List String) (ds : List (List Needed × String)) :
    declaredAfter before ds ++ rest = declaredAfter (before ++ rest) ds :=
  List.append_assoc _ _ _

theorem uses_flatMap {α : Type} (as : List α) (f : α → List Meant) :
    (as.flatMap fun a => uses (f a)) = uses (as.flatMap f) :=
  (List.map_flatMap).symm

theorem own_encode (hout : out.2.foreign = false) : (encode out decls).filter (Item.own Entity.foreign) =
    declares (out :: decls.map fun decl => ofObject decl.id) ++
      ((decls.flatMap fun decl => ownSerialiseInto decl.type (ofNamed decl.id) (ofObject decl.id)) ++
        uses (decls.flatMap fun decl => [out, ofObject decl.id])) := by
  have hinto : ∀ decl : Decl, (genSerialiseInto decl.type (ofNamed decl.id) (ofObject decl.id)).filter
      (Item.own Entity.foreign) = ownSerialiseInto decl.type (ofNamed decl.id) (ofObject decl.id) :=
    fun decl => own_genSerialiseInto (ofNamed_own decl.id) (ofObject_own decl.id)
  have hinsert : ∀ decl : Decl, [out, ofObject decl.id].filter (fun m => !m.2.foreign) = [out, ofObject decl.id] := by
    simp [hout]
  rw [← uses_flatMap]
  simp only [encode, List.filter_append, own_declarations, own_needs, List.nil_append, List.filter_flatMap,
    filter_own_uses, hinto, hinsert, List.map_cons, List.map_nil, List.map_map, Function.comp_def]
  rfl

@[simp] theorem inside_encode_append (hout : out.2.foreign = false) :
    Inside Entity.foreign (depth + 1) (encode out decls ++ items) ↔ Inside Entity.foreign (depth + 1) items := by
  have hinto : ∀ items, Inside Entity.foreign (depth + 1)
      ((decls.flatMap fun decl => genSerialiseInto decl.type (ofNamed decl.id) (ofObject decl.id)) ++ items) ↔
        Inside Entity.foreign (depth + 1) items :=
    fun items => inside_flatMap_append (fun _ _ => inside_genSerialiseInto_append) decls
  have hinsert : ∀ items, Inside Entity.foreign (depth + 1)
      ((decls.flatMap fun decl => needs [ofHeader "ucl_object_insert_key"] ++ uses [out, ofObject decl.id]) ++ items) ↔
        Inside Entity.foreign (depth + 1) items :=
    fun items => inside_flatMap_append (fun _ _ => by simp) decls
  simp [encode, hinto, hinsert, hout]

/-- What the code that encodes a list of declarations takes, by induction on the list. -/
theorem taken_encode_append (hout : out.2.foreign = false) :
    taken Entity.foreign (first :: outer) (encode out decls ++ items) =
      (encodeBorrows out.1 (first ++ outer.flatten) decls).map use ++
        taken Entity.foreign (declaredAfter (out.1 :: first) (objectDeclarations decls) :: outer) items := by
  have hobjects : namesOf (decls.map fun decl => ([ofHeader "ucl_object_t"], ofObject decl.id)) =
      objectDeclarations decls := by
    simp [namesOf, objectDeclarations, ofObject]
  have hinto (after : List (List String)) (items : List (Item String Entity)) : taken Entity.foreign after
      ((decls.flatMap fun decl => genSerialiseInto decl.type (ofNamed decl.id) (ofObject decl.id)) ++ items) =
        (decls.flatMap fun decl => decl.type.serialiseBorrows after.flatten decl.id).map use ++
          taken Entity.foreign after items := by
    rw [List.map_flatMap]
    exact taken_flatMap_append (fun decl _ => taken_genSerialiseInto_append (ofNamed_own decl.id)
      (ofObject_own decl.id)) decls
  have hinsert (after : List (List String)) (items : List (Item String Entity)) : taken Entity.foreign after
      ((decls.flatMap fun decl => needs [ofHeader "ucl_object_insert_key"] ++ uses [out, ofObject decl.id]) ++ items) =
        (decls.flatMap fun _ => borrow after.flatten [ofHeader "ucl_object_insert_key"]).map use ++
          taken Entity.foreign after items := by
    rw [List.map_flatMap]
    exact taken_flatMap_append (fun _ _ => by simp [hout]) decls
  have hfirst : declaredAfter first (namesOf [([ofHeader "ucl_object_t"], out)]) = out.1 :: first := rfl
  simp only [encode, List.append_assoc, taken_declarations_append, taken_needs_append, hinto, hinsert, hobjects, hfirst,
    List.flatten_cons, declaredAfter_append, encodeBorrows, List.map_append]
  rfl

end Encode

section Reads

variable {front behind : List Needed} {pre post : Decl → List (Item String Entity)} {suc uIn out : Decl → Meant}

/-- Declarations that are read one after the other. Each takes the same names around the code
of `genDeserialiseInto`. -/
theorem taken_reads_append (hsuc : ∀ decl, (suc decl).2.foreign = false) (huIn : ∀ decl, (uIn decl).2.foreign = false)
    (hout : ∀ decl, (out decl).2.foreign = false)
    (hpre : ∀ decl declared items, taken Entity.foreign declared (pre decl ++ items) =
      (borrow declared.flatten front).map use ++ taken Entity.foreign declared items)
    (hpost : ∀ decl declared items, taken Entity.foreign declared (post decl ++ items) =
      (borrow declared.flatten behind).map use ++ taken Entity.foreign declared items) (decls : List Decl) :
    taken Entity.foreign (first :: outer) ((decls.flatMap fun decl =>
        pre decl ++ (genDeserialiseInto decl.type (suc decl) (uIn decl) (out decl) ++ post decl)) ++ items) =
      (readBorrows front behind (first ++ outer.flatten) (decls.map Decl.type)).map use ++
        taken Entity.foreign (declaredAfterReads first (decls.map Decl.type) :: outer) items := by
  induction decls generalizing first with
  | nil => rfl
  | cons decl decls ih =>
    have hread (rest : List (Item String Entity)) : taken Entity.foreign (first :: outer)
        (genDeserialiseInto decl.type (suc decl) (uIn decl) (out decl) ++ rest) =
          (decl.type.deserialiseBorrows (first ++ outer.flatten)).map use ++
            taken Entity.foreign ((decl.type.loopNames ++ first) :: outer) rest :=
      taken_genDeserialiseInto_append (hsuc decl) (huIn decl) (hout decl)
    rw [List.flatMap_cons, List.append_assoc, List.append_assoc, List.append_assoc, hpre, hread, hpost, ih]
    simp only [List.map_cons, readBorrows, List.map_append, List.append_assoc, List.flatten_cons]
    rfl

end Reads

section Supplied

/-- What is declared around a class. -/
def knownIn (blocks : List (Block String Entity)) (n : Needed) : Bool :=
  decide (Seen blocks (ofNeeded n))

/-- A function has its names in scope if it has its own, and finds around its class what it
takes from there. -/
theorem wellScoped_iff_supplied {b : Body String Entity} {borrows : List Borrow}
    (hmembers : ∀ m ∈ b.members, m.2.foreign = false) (hinside : Inside Entity.foreign 1 b.items)
    (houter : Around Entity.foreign b.outer)
    (htaken : taken Entity.foreign [[], b.members.map Prod.fst] b.items = borrows.map use) :
    b.WellScoped ↔ (b.own Entity.foreign).WellScoped ∧ ∀ x ∈ borrows, x.Met (knownIn b.outer) := by
  rw [Body.wellScoped_iff_own hmembers hinside houter, htaken, List.forall_mem_map]
  refine and_congr_right fun _ => forall₂_congr fun x _ => ?_
  rw [Borrow.Met, knownIn, decide_eq_true_eq]
  rfl

theorem around_cons {block : Block String Entity} {blocks : List (Block String Entity)}
    (h : ∀ name entity, block name = some entity → entity.foreign = true) (hblocks : Around Entity.foreign blocks) :
    Around Entity.foreign (block :: blocks) :=
  List.forall_mem_cons.mpr ⟨h, hblocks⟩

theorem namesBlock_foreign (names : List String) (name : String) (entity : Entity)
    (h : namesBlock names name = some entity) : entity.foreign = true := by
  unfold namesBlock at h
  split at h
  · rw [← Option.some_inj.mp h]
    rfl
  · cases h

theorem typesBlock_foreign (qualifier : String) (types : List TypeDef) (name : String) (entity : Entity)
    (h : typesBlock qualifier types name = some entity) : entity.foreign = true := by
  unfold typesBlock at h
  split at h
  · cases h
  · obtain ⟨d, _, rfl⟩ := Option.map_eq_some_iff.mp h
    cases d.follow qualifier _ <;> rfl

theorem headerBlock_foreign (outside : String → Bool) (name : String) (entity : Entity)
    (h : headerBlock outside name = some entity) : entity.foreign = true := by
  unfold headerBlock at h
  split at h
  · rw [← Option.some_inj.mp h]
    rfl
  · cases h

variable {s : Site}

theorem Site.around_foreign (h : Around Entity.foreign s.outer) (d : TypeDef) : Around Entity.foreign (s.around d) :=
  around_cons (typesBlock_foreign _ _) (around_cons (typesBlock_foreign _ _) h)

theorem Site.inside_foreign (h : Around Entity.foreign s.outer) (d : TypeDef) :
    Around Entity.foreign (s.inside d).outer :=
  around_cons (namesBlock_foreign _) (s.around_foreign h d)

theorem TypeDef.mem_placed_iff {d : TypeDef} {x : Site × TypeDef} :
    x ∈ d.placed s ↔ x ∈ allPlaced (s.inside d) d.inner ∨ x = (s, d) := by
  obtain ⟨name, types, body⟩ := d
  cases body <;> simp [placed, inner, allPlaced]

theorem TypeDef.inner_subset (d : TypeDef) : d.inner ⊆ d.types := by
  obtain ⟨name, types, body⟩ := d
  cases body with
  | enum => exact List.nil_subset types
  | struct | union => exact List.Subset.refl types

mutual

theorem TypeDef.placed_snd : (d : TypeDef) → (s : Site) → (d.placed s).map Prod.snd = d.withNested
  | .mk name types body, s => by
    have hall := TypeDef.allPlaced_snd types (s.inside (.mk name types body))
    cases body <;> simp [TypeDef.placed, TypeDef.withNested, hall]

theorem TypeDef.allPlaced_snd : (types : List TypeDef) → (s : Site) →
    (TypeDef.allPlaced s types).map Prod.snd = TypeDef.allNested types
  | [], _ => rfl
  | d :: types, s => by
    rw [TypeDef.allPlaced, List.map_append, d.placed_snd s, TypeDef.allPlaced_snd types s, TypeDef.allNested]

end

/-- Every class of a type stands where only such things are declared around it. -/
theorem TypeDef.placed_foreign (d : TypeDef) (h : Around Entity.foreign s.outer) :
    ∀ x ∈ d.placed s, Around Entity.foreign x.1.outer := by
  induction d using TypeDef.nested_induction generalizing s with
  | mk name types body ih =>
    have hall : ∀ types' ⊆ types, ∀ x ∈ allPlaced (s.inside (.mk name types body)) types',
        Around Entity.foreign x.1.outer := by
      intro types'
      induction types' with
      | nil => simp [allPlaced]
      | cons d types' ihs =>
        intro hsub x hx
        rw [allPlaced, List.mem_append] at hx
        rcases hx with hx | hx
        · exact ih d (hsub List.mem_cons_self) (s.inside_foreign h _) x hx
        · exact ihs (fun d hd => hsub (List.mem_cons_of_mem _ hd)) x hx
    intro x hx
    rcases mem_placed_iff.mp hx with hx | rfl
    · exact hall _ (inner_subset _) x hx
    · exact h

end Supplied

end ServiceManager.Wsrpcgen.Idl
