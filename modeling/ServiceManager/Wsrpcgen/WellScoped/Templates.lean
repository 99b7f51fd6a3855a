import ServiceManager.Wsrpcgen.WellScoped.Borrowed

namespace ServiceManager.Wsrpcgen.Idl

open Scoping

variable {blocks outer : List (Block String Entity)} {block : Block String Entity} {rest : List (Item String Entity)}
  {t : TypeRef} {suc uIn out m : Meant}

theorem u_append_ne (id : String) : "u" ++ id ≠ id := by
  intro heq
  have hlength := congrArg String.length heq
  rw [String.length_append] at hlength
  simp at hlength

theorem objects_fst (decls : List Decl) :
    (decls.map fun decl => ofObject decl.id).map Prod.fst = decls.map fun decl => "u" ++ decl.id := by
  rw [List.map_map]
  rfl

section Templates

/-- A value is encoded from one name into another, both of which are seen. -/
theorem scoped_ownSerialiseInto (hne : out.1 ≠ uIn.1) :
    Scoped blocks (ownSerialiseInto t uIn out ++ rest) ↔ (Seen blocks out ∧ Seen blocks uIn) ∧ Scoped blocks rest := by
  have hpair : (∀ m ∈ [out, uIn], Seen blocks m) ↔ Seen blocks out ∧ Seen blocks uIn := by simp
  rw [ownSerialiseInto, List.append_assoc, scoped_uses_append, hpair]
  cases t.list with
  | false => simp
  | true =>
    have hinner : ∀ m ∈ [out, (uIn.1, Entity.element uIn.1)],
        Seen blocks out → Seen (extend .empty [(uIn.1, Entity.element uIn.1)] :: blocks) m := by
      intro m hm hout
      rcases List.mem_pair.mp hm with rfl | rfl
      · have hother : m ≠ (uIn.1, Entity.element uIn.1) := fun heq => hne (by rw [heq])
        exact (seen_single_of_ne hother).mpr ⟨hne, hout⟩
      · exact seen_single_self
    simp only [if_true, List.cons_append, List.append_assoc, List.nil_append]
    rw [scoped_block]
    constructor
    · rintro ⟨hseen, _, _, hrest⟩
      exact ⟨hseen, hrest⟩
    · rintro ⟨hseen, hrest⟩
      exact ⟨hseen, by simp, fun m hm => hinner m hm hseen.1, hrest⟩

/-- The name does not mean a variable of a loop, and none hides what it means outside the
block. -/
structure Apart (outer : List (Block String Entity)) (m : Meant) : Prop where
  entity : ∀ name ∈ ["it", "uEl", "outEl"], m.2 ≠ .variable name
  shown : m.1 ∈ ["it", "uEl"] → ¬Seen outer m

theorem apart_ofVariable {name : String} (h : name ∉ ["it", "uEl", "outEl"]) : Apart outer (ofVariable name) where
  entity := by
    intro name' hname' heq
    exact h (Entity.variable.inj heq ▸ hname')
  shown := by
    intro hname
    exact absurd (List.mem_of_mem_take hname (i := 2) (l := ["it", "uEl", "outEl"])) h

/-- Where the flag is called `suc` anyway, the loop means the right one. -/
theorem loopFlag_suc (t : TypeRef) : loopFlag t (ofVariable "suc") = ofVariable "suc" := by
  unfold loopFlag
  split <;> rfl

/-- A call of `ownDeserialiseInto` with the names that are used before and after it. -/
structure Reading where
  before : List Meant
  type : TypeRef
  suc : Meant
  uIn : Meant
  out : Meant
  behind : List Meant

namespace Reading

def items (r : Reading) : List (Item String Entity) :=
  uses r.before ++ (ownDeserialiseInto r.type r.suc r.uIn r.out ++ uses r.behind)

/-- The names that are used of the blocks around it. -/
def names (r : Reading) : List Meant :=
  r.before ++ ((if r.type.list then loopFlag r.type r.suc else r.suc) :: r.uIn :: r.out :: r.behind)

/-- What the loop uses of the blocks around it is not hidden in it. -/
def Shown (r : Reading) : Prop :=
  (loopFlag r.type r.suc).1 ≠ "outEl" ∧ r.out.1 ≠ "outEl"

end Reading

/-- A block as a loop leaves it, where there was one. -/
def loopBlock (block : Block String Entity) (looped : Bool) : Block String Entity :=
  if looped then extend block loopNames else block

/-- There is room for a loop in a block. -/
def Room (block : Block String Entity) : Prop :=
  block "it" = none ∧ block "uEl" = none

theorem scoped_value {r : Reading} (hlist : r.type.list = false) :
    Scoped blocks (r.items ++ rest) ↔ (∀ m ∈ r.names, Seen blocks m) ∧ Scoped blocks rest := by
  have hitems : r.items = uses r.names := by
    simp [Reading.items, Reading.names, ownDeserialiseInto, hlist, uses]
  rw [hitems, scoped_uses_append]

/-- The variables of a loop are declared in the block around it, and hide nothing there. -/
theorem seen_loopBlock {looped : Bool} (hroom : looped = true → Room block) (hm : Apart outer m) :
    Seen (loopBlock block looped :: outer) m ↔ Seen (block :: outer) m := by
  cases looped with
  | false => exact Iff.rfl
  | true =>
    obtain ⟨hit, huEl⟩ := hroom rfl
    by_cases hname : m.1 ∈ loopNames.map Prod.fst
    · have hblock : block m.1 = none := by
        rcases List.mem_pair.mp hname with heq | heq
        · exact heq ▸ hit
        · exact heq ▸ huEl
      have hnot : m ∉ loopNames := by
        intro hmem
        rcases List.mem_pair.mp hmem with rfl | rfl
        · exact hm.entity "it" (by simp) rfl
        · exact hm.entity "uEl" (by simp) rfl
      rw [loopBlock, if_pos rfl, seen_extend_iff (by decide)]
      constructor
      · rintro (hmem | ⟨hnotName, _⟩)
        · exact absurd hmem hnot
        · exact absurd hname hnotName
      · intro hseen
        rw [Seen, lookup_cons_none hblock] at hseen
        exact absurd hseen (hm.shown hname)
    · exact seen_extend_of_not_mem hname

/-- A list is read in a loop, whose names must be free and hide none that it uses. -/
theorem scoped_list {r : Reading} (hapart : ∀ m ∈ r.names, Apart outer m) (hlist : r.type.list = true) :
    Scoped (block :: outer) (r.items ++ rest) ↔
      (∀ m ∈ r.names, Seen (block :: outer) m) ∧ (Room block ∧ r.Shown) ∧
        Scoped (loopBlock block true :: outer) rest := by
  have hsame : Room block → ∀ m ∈ r.names, (Seen (loopBlock block true :: outer) m ↔ Seen (block :: outer) m) :=
    fun hroom m hm => seen_loopBlock (fun _ => hroom) (hapart m hm)
  have hnames : r.names = r.before ++ (loopFlag r.type r.suc :: r.uIn :: r.out :: r.behind) := by
    rw [Reading.names, if_pos hlist]
  have hloop : ∀ name ∈ ["it", "uEl"], Seen (loopBlock block true :: outer) (ofVariable name) := by
    intro name hname
    refine (seen_extend_iff (by decide)).mpr (Or.inl ?_)
    rcases List.mem_pair.mp hname with rfl | rfl <;> decide
  have hinside : ∀ m ∈ r.names, Seen (extend .empty [ofVariable "outEl"] :: loopBlock block true :: outer) m ↔
      m.1 ≠ "outEl" ∧ Seen (loopBlock block true :: outer) m :=
    fun m hm => seen_single_of_ne fun heq => (hapart m hm).entity "outEl" (by simp) (congrArg Prod.snd heq)
  have hitems : r.items ++ rest = uses r.before ++ (declares loopNames ++
      (uses [ofVariable "uEl", r.uIn, ofVariable "it"] ++ .enter :: (declares [ofVariable "outEl"] ++
        (uses [ofVariable "uEl", ofVariable "outEl", loopFlag r.type r.suc, r.out, ofVariable "outEl"] ++
          .leave :: (uses r.behind ++ rest))))) := by
    simp [Reading.items, ownDeserialiseInto, hlist]
  rw [hitems, scoped_uses_append, scoped_declares_append, scoped_uses_append, scoped_block, scoped_uses_append]
  constructor
  · intro ⟨hbefore, _, hfree, hread, _, hinner, hbehind, hrest⟩
    have hroom : Room block := ⟨hfree (ofVariable "it") (by decide), hfree (ofVariable "uEl") (by decide)⟩
    have hflag := (hinside _ (by simp [hnames])).mp (hinner (loopFlag r.type r.suc) (by simp))
    have hout := (hinside _ (by simp [hnames])).mp (hinner r.out (by simp))
    have hseen : ∀ m ∈ loopFlag r.type r.suc :: r.uIn :: r.out :: r.behind, Seen (loopBlock block true :: outer) m := by
      simp only [List.forall_mem_cons]
      exact ⟨hflag.2, hread r.uIn (by simp), hout.2, hbehind⟩
    refine ⟨?_, ⟨hroom, hflag.1, hout.1⟩, hrest⟩
    rw [hnames, List.forall_mem_append]
    exact ⟨hbefore, fun m hm => (hsame hroom m (by simp [hnames, hm])).mp (hseen m hm)⟩
  · intro ⟨hseen, ⟨hroom, hflag, hout⟩, hrest⟩
    have hloopSeen : ∀ m ∈ r.names, Seen (loopBlock block true :: outer) m :=
      fun m hm => (hsame hroom m hm).mpr (hseen m hm)
    have hit := hloop "it" (by decide)
    have huEl := hloop "uEl" (by decide)
    have huElInside := (seen_single_of_ne (a := ofVariable "outEl") (by decide)).mpr ⟨by decide, huEl⟩
    have hflagInside := (hinside (loopFlag r.type r.suc) (by simp [hnames])).mpr ⟨hflag, hloopSeen _ (by simp [hnames])⟩
    have houtInside := (hinside r.out (by simp [hnames])).mpr ⟨hout, hloopSeen _ (by simp [hnames])⟩
    rw [hnames, List.forall_mem_append] at hseen
    refine ⟨hseen.1, by decide, ?_, ?_, by decide, ?_, fun m hm => hloopSeen m (by simp [hnames, hm]), hrest⟩
    · simpa [loopNames, ofVariable, Room] using hroom
    · simp only [List.forall_mem_cons]
      exact ⟨huEl, hloopSeen r.uIn (by simp [hnames]), hit, by simp⟩
    · simp only [List.forall_mem_cons]
      exact ⟨huElInside, seen_single_self, hflagInside, houtInside, seen_single_self, by simp⟩

/-- There can be one loop in a block. -/
theorem scoped_readings (rs : List Reading) (looped : Bool) (hapart : ∀ r ∈ rs, ∀ m ∈ r.names, Apart outer m)
    (hroom : looped = true → Room block) :
    Scoped (loopBlock block looped :: outer) (rs.flatMap Reading.items ++ rest) ↔
      (∀ r ∈ rs, ∀ m ∈ r.names, Seen (block :: outer) m) ∧ (∀ r ∈ rs, r.type.list = true → Room block ∧ r.Shown) ∧
        (rs.filter fun r => r.type.list).length + looped.toNat ≤ 1 ∧
          Scoped (loopBlock block (looped || rs.any fun r => r.type.list) :: outer) rest := by
  induction rs generalizing looped with
  | nil => cases looped <;> simp
  | cons r rs ih =>
    obtain ⟨hapart₁, hapart⟩ := List.forall_mem_cons.mp hapart
    rw [List.flatMap_cons, List.append_assoc]
    cases hlist : r.type.list with
    | false =>
      have hsame : (∀ m ∈ r.names, Seen (loopBlock block looped :: outer) m) ↔ ∀ m ∈ r.names, Seen (block :: outer) m :=
        forall₂_congr fun m hm => seen_loopBlock hroom (hapart₁ m hm)
      rw [scoped_value hlist, hsame, ih looped hapart hroom]
      simp only [List.forall_mem_cons, List.filter_cons, List.any_cons, hlist, Bool.false_or,
        Bool.false_eq_true, if_false,
        false_implies, true_and, and_assoc]
    | true =>
      cases looped with
      | true =>
        -- a second loop declares its variables once more
        have hdeclared : loopBlock block true "it" = some (.variable "it") := by
          simp [loopBlock, extend, loopNames, ofVariable]
        have hnot : ¬Room (loopBlock block true) := fun h => Option.some_ne_none _ (hdeclared.symm.trans h.1)
        rw [scoped_list hapart₁ hlist]
        constructor
        · rintro ⟨_, ⟨hroom, _⟩, _⟩
          exact absurd hroom hnot
        · rintro ⟨_, _, hlength, _⟩
          simp [hlist] at hlength
      | false =>
        change Scoped (block :: outer) _ ↔ _
        rw [scoped_list hapart₁ hlist]
        constructor
        · rintro ⟨hseen, hfits, hrest⟩
          obtain ⟨hseens, hfitss, hlength, hrest⟩ := (ih true hapart fun _ => hfits.1).mp hrest
          refine ⟨List.forall_mem_cons.mpr ⟨hseen, hseens⟩, List.forall_mem_cons.mpr ⟨fun _ => hfits, hfitss⟩, ?_, ?_⟩
          · simpa [List.filter_cons, hlist] using hlength
          · simpa [hlist] using hrest
        · rintro ⟨hseen, hfits, hlength, hrest⟩
          obtain ⟨hseen, hseens⟩ := List.forall_mem_cons.mp hseen
          obtain ⟨hfits, hfitss⟩ := List.forall_mem_cons.mp hfits
          refine ⟨hseen, hfits hlist, (ih true hapart fun _ => (hfits hlist).1).mpr ⟨hseens, hfitss, ?_, ?_⟩⟩
          · simpa [List.filter_cons, hlist] using hlength
          · simpa [hlist] using hrest

/-- The readings of declarations, one after the other. -/
theorem scoped_declReadings {f : Decl → Reading} (htype : ∀ decl, (f decl).type = decl.type) (decls : List Decl)
    (hapart : ∀ decl ∈ decls, ∀ m ∈ (f decl).names, Apart outer m) :
    Scoped (block :: outer) (decls.flatMap (fun decl => (f decl).items) ++ rest) ↔
      (∀ decl ∈ decls, ∀ m ∈ (f decl).names, Seen (block :: outer) m) ∧
        (∀ decl ∈ decls, decl.type.list = true → Room block ∧ (f decl).Shown) ∧
          (decls.filter fun decl => decl.type.list).length ≤ 1 ∧
            Scoped (loopBlock block (decls.any fun decl => decl.type.list) :: outer) rest := by
  have hreadings : Scoped (loopBlock block false :: outer) ((decls.map f).flatMap Reading.items ++ rest) ↔ _ :=
    scoped_readings (decls.map f) false (by simpa using hapart) (by simp)
  simpa [List.flatMap_map, List.filter_map, Function.comp_def, htype, loopBlock] using hreadings

/-- A reading where there is room for a loop. -/
theorem scoped_reading {r : Reading} (hapart : ∀ m ∈ r.names, Apart outer m) (hroom : Room block) (hshown : r.Shown)
    (hseen : ∀ m ∈ r.names, Seen (block :: outer) m) :
    Scoped (block :: outer) (r.items ++ rest) ↔ Scoped (loopBlock block r.type.list :: outer) rest := by
  cases hlist : r.type.list with
  | false =>
    rw [scoped_value hlist]
    exact and_iff_right hseen
  | true =>
    rw [scoped_list hapart hlist]
    exact (and_iff_right hseen).trans (and_iff_right ⟨hroom, hshown⟩)

/-- A reading between names that the generator has made up itself. -/
theorem mem_names_of_suc {before behind : List Meant}
    (hm : m ∈ (Reading.mk before t (ofVariable "suc") uIn out behind).names) :
    m ∈ before ++ (ofVariable "suc" :: uIn :: out :: behind) := by
  simpa only [Reading.names, loopFlag_suc, ite_self] using hm

end Templates

end ServiceManager.Wsrpcgen.Idl
