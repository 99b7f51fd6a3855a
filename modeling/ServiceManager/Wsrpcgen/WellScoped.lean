import ServiceManager.Wsrpcgen.WellScoped.Types
import ServiceManager.Wsrpcgen.WellScoped.Cases

namespace ServiceManager.Wsrpcgen.Idl

open Scoping

/-- The names in a type are distinct. -/
def TypeBody.Distinct : TypeBody → Prop
  | .struct decls => (decls.map Decl.id).Nodup
  | .union _ _ => True
  | .enum entries => (entries.map Entry.id).Nodup

namespace TrlUnit

/-- The names that the IDL gives are distinct wherever they stand together. -/
structure DistinctNames (u : TrlUnit) : Prop where
  types : ∀ d ∈ u.allTypes, d.body.Distinct
  arguments : ∀ p ∈ u.programs, ∀ m ∈ p.methods, (m.args.map Decl.id).Nodup

variable (outside : String → Bool)

/-- Every function that is made for the file has its names in scope, where the libraries and
the `%` lines declare the names of `outside`. -/
def WellScoped (u : TrlUnit) : Prop :=
  ∀ b ∈ u.bodies outside, b.WellScoped

variable {outside}

theorem site_foreign (u : TrlUnit) : Around Entity.foreign (u.site outside).outer :=
  around_cons (typesBlock_foreign _ _) (around_cons (headerBlock_foreign _) (List.forall_mem_nil _))

theorem serverSite_foreign (u : TrlUnit) (p : Program) :
    Around Entity.foreign (p.serverSite (u.site outside)).outer :=
  around_cons (namesBlock_foreign _) (around_cons (typesBlock_foreign _ _)
    (around_cons (namesBlock_foreign _) u.site_foreign))

theorem placedTypes_foreign (u : TrlUnit) : ∀ x ∈ u.placedTypes outside, Around Entity.foreign x.1.outer := by
  intro x hx
  rw [placedTypes, List.mem_append] at hx
  simp only [List.mem_flatMap] at hx
  rcases hx with ⟨d, _, hx⟩ | ⟨p, _, d, _, hx⟩
  · exact d.placed_foreign u.site_foreign x hx
  · exact d.placed_foreign (u.serverSite_foreign p) x hx

theorem placedTypes_snd (outside : String → Bool) (u : TrlUnit) :
    (u.placedTypes outside).map Prod.snd = u.allTypes := by
  simp [placedTypes, allTypes, List.map_flatMap, TypeDef.placed_snd, List.flatMap_assoc]

/-- What `genSerialise` makes for the types. -/
def typeBodies (outside : String → Bool) (u : TrlUnit) : List (Body String Entity) :=
  u.types.flatMap (TypeDef.bodies (u.site outside)) ++
    u.programs.flatMap fun p => p.types.flatMap (TypeDef.bodies (p.serverSite (u.site outside)))

theorem mem_typeBodies_iff {u : TrlUnit} {b : Body String Entity} :
    b ∈ u.typeBodies outside ↔ ∃ x ∈ u.placedTypes outside, b ∈ x.2.serBodies x.1 ++ x.2.deserBodies x.1 := by
  rw [typeBodies, List.mem_append]
  simp only [List.mem_flatMap, TypeDef.mem_bodies_iff]
  constructor
  · rintro (⟨d, hd, x, hx, hb⟩ | ⟨p, hp, d, hd, x, hx, hb⟩)
    · exact ⟨x, List.mem_append_left _ (List.mem_flatMap.mpr ⟨d, hd, hx⟩), hb⟩
    · exact ⟨x, List.mem_append_right _ (List.mem_flatMap.mpr ⟨p, hp, List.mem_flatMap.mpr ⟨d, hd, hx⟩⟩), hb⟩
  · rintro ⟨x, hx, hb⟩
    rw [placedTypes, List.mem_append] at hx
    simp only [List.mem_flatMap] at hx
    rcases hx with ⟨d, hd, hx⟩ | ⟨p, hp, d, hd, hx⟩
    · exact Or.inl ⟨d, hd, x, hx, hb⟩
    · exact Or.inr ⟨p, hp, d, hd, x, hx, hb⟩

theorem typeBodies_wellScoped_iff (u : TrlUnit) : (∀ b ∈ u.typeBodies outside, b.WellScoped) ↔
    (∀ d ∈ u.allTypes, d.body.Clear d.name) ∧ ∀ x ∈ u.placedTypes outside, x.2.Supplied x.1 := by
  have hown : ∀ x ∈ u.placedTypes outside, (∀ b ∈ x.2.serBodies x.1 ++ x.2.deserBodies x.1, b.WellScoped) ↔
      x.2.body.Clear x.2.name ∧ x.2.Supplied x.1 :=
    fun x hx => TypeDef.own_wellScoped_iff (u.placedTypes_foreign x hx) x.2
  rw [← u.placedTypes_snd outside, List.forall_mem_map]
  constructor
  · intro h
    have hx (x : Site × TypeDef) (hx : x ∈ u.placedTypes outside) := (hown x hx).mp fun b hb =>
      h b (mem_typeBodies_iff.mpr ⟨x, hx, hb⟩)
    exact ⟨fun x hmem => (hx x hmem).1, fun x hmem => (hx x hmem).2⟩
  · rintro ⟨hclear, hsupplied⟩ b hb
    obtain ⟨x, hx, hb⟩ := mem_typeBodies_iff.mp hb
    exact (hown x hx).mpr ⟨hclear x hx, hsupplied x hx⟩ b hb

/-- What is declared around the functions that are made for a program. -/
def header (outside : String → Bool) (u : TrlUnit) (p : Program) : Header where
  client := knownIn (p.clientOuter (u.site outside))
  delegate := knownIn (p.delegateOuter (u.site outside))
  server := knownIn (p.serverSite (u.site outside)).outer

/-- The stubs of a program, one method after the other. -/
theorem clientBodies_wellScoped_iff (u : TrlUnit) (p : Program) :
    (∀ b ∈ p.clientBodies (u.site outside), b.WellScoped) ↔
      ∀ m ∈ p.methods, m.ClientScoped ∧
        (∀ x ∈ m.callBorrows ++ m.asynchBorrows, x.Met (u.header outside p).client) ∧
          ∀ x ∈ m.delegateBorrows ++ m.dispatcherBorrows, x.Met (u.header outside p).delegate := by
  have hclient : Around Entity.foreign (p.clientOuter (u.site outside)) :=
    around_cons (namesBlock_foreign _) u.site_foreign
  have hdelegate : Around Entity.foreign (p.delegateOuter (u.site outside)) :=
    around_cons (namesBlock_foreign _) u.site_foreign
  simp only [Program.clientBodies, List.forall_mem_append, List.mem_flatMap]
  constructor
  · rintro ⟨hcalls, hdelegates⟩ m hm
    obtain ⟨hclear, hsupplied⟩ := (clientCalls_wellScoped_iff hclient).mp
      ⟨hcalls _ ⟨m, hm, List.mem_cons_self⟩, hcalls _ ⟨m, hm, List.mem_cons_of_mem _ List.mem_cons_self⟩⟩
    have hreplies := (clientDelegates_wellScoped_iff hdelegate).mp
      ⟨hdelegates _ ⟨m, hm, List.mem_cons_self⟩, hdelegates _ ⟨m, hm, List.mem_cons_of_mem _ List.mem_cons_self⟩⟩
    exact ⟨hclear, List.forall_mem_append.mp hsupplied, List.forall_mem_append.mp hreplies⟩
  · intro h
    constructor
    · rintro b ⟨m, hm, hb⟩
      obtain ⟨hclear, hsupplied, _⟩ := h m hm
      have hcalls := (clientCalls_wellScoped_iff hclient).mpr ⟨hclear, List.forall_mem_append.mpr hsupplied⟩
      rcases List.mem_pair.mp hb with rfl | rfl
      · exact hcalls.1
      · exact hcalls.2
    · rintro b ⟨m, hm, hb⟩
      have hdelegates := (clientDelegates_wellScoped_iff hdelegate).mpr (List.forall_mem_append.mpr (h m hm).2.2)
      rcases List.mem_pair.mp hb with rfl | rfl
      · exact hdelegates.1
      · exact hdelegates.2

/-- The generated code is well-scoped exactly if the names of each type, and those of the
arguments of each method, go together with those that the generator adds, no list of a
method has elements of a builtin type, and none of these names hides a type, or a name of
the libraries, that the code takes from around it. -/
theorem wellScoped_iff (outside : String → Bool) (u : TrlUnit) :
    u.WellScoped outside ↔
      (∀ d ∈ u.allTypes, d.body.Clear d.name) ∧ (∀ x ∈ u.placedTypes outside, x.2.Supplied x.1) ∧
        ∀ p ∈ u.programs, (∀ x ∈ declarationBorrows [] Method.handleReqDeclarations,
          x.Met (u.header outside p).server) ∧
          ∀ m ∈ p.methods, m.ClientScoped ∧ m.ServerScoped ∧ ListsDefined m ∧ m.Supplied (u.header outside p) := by
  have hbodies : u.bodies outside = u.typeBodies outside ++
      (u.programs.map (Program.handleReqBody · (u.site outside)) ++
      u.programs.flatMap (Program.clientBodies · (u.site outside))) := by
    simp only [bodies, typeBodies, List.append_assoc]
  have hforeign (p : Program) : Around Entity.foreign (p.serverSite (u.site outside)).outer := u.serverSite_foreign p
  have hserver (p : Program) := handleReqBody_wellScoped_iff (hforeign p)
  rw [WellScoped, hbodies, List.forall_mem_append, List.forall_mem_append, typeBodies_wellScoped_iff, and_assoc,
    List.forall_mem_map]
  refine and_congr_right fun _ => and_congr_right fun _ => ?_
  constructor
  · rintro ⟨hservers, hclients⟩ p hp
    obtain ⟨hscoped, hsupplied⟩ := (hserver p).mp (hservers p hp)
    rw [List.forall_mem_append] at hsupplied
    refine ⟨hsupplied.1, fun m hm => ?_⟩
    obtain ⟨hclient, hcalls, hreplies⟩ := (u.clientBodies_wellScoped_iff p).mp
      (fun b hb => hclients b (List.mem_flatMap.mpr ⟨p, hp, hb⟩)) m hm
    have hcase : ∀ x ∈ m.caseBorrows, x.Met (u.header outside p).server :=
      fun x hx => hsupplied.2 x (List.mem_flatMap.mpr ⟨m, hm, hx⟩)
    exact ⟨hclient, (hscoped m hm).1, (hscoped m hm).2, hcalls, hreplies,
      List.forall_mem_append.mpr ⟨hsupplied.1, hcase⟩⟩
  · intro h
    constructor
    · intro p hp
      refine (hserver p).mpr ⟨fun m hm => ⟨((h p hp).2 m hm).2.1, ((h p hp).2 m hm).2.2.1⟩, ?_⟩
      refine List.forall_mem_append.mpr ⟨(h p hp).1, fun x hx => ?_⟩
      obtain ⟨m, hm, hx⟩ := List.mem_flatMap.mp hx
      exact ((h p hp).2 m hm).2.2.2.server x (List.mem_append_right _ hx)
    · intro b hb
      obtain ⟨p, hp, hb⟩ := List.mem_flatMap.mp hb
      refine (u.clientBodies_wellScoped_iff p).mpr (fun m hm => ?_) b hb
      obtain ⟨hclient, _, _, hsupplied⟩ := (h p hp).2 m hm
      exact ⟨hclient, hsupplied.client, hsupplied.delegate⟩

/-- A struct with two lists. -/
def twoListsDecls : List Decl :=
  [{ type := { type := "string", list := true }, id := "services" },
   { type := { type := "string", list := true }, id := "instances" }]

def twoListsUnit : TrlUnit :=
  .mk [] [.mk "Snapshot" [] (.struct twoListsDecls)] []

theorem not_wellScoped_twoLists :
    twoListsUnit.DistinctNames ∧ (∀ d ∈ twoListsUnit.allTypes, ∀ t cases, d.body ≠ .union t cases) ∧
      ¬twoListsUnit.WellScoped fun _ => true := by
  have htypes : twoListsUnit.allTypes = [.mk "Snapshot" [] (.struct twoListsDecls)] := by
    simp [allTypes, twoListsUnit, types, programs, TypeDef.withNested, TypeDef.allNested]
  refine ⟨⟨?_, ?_⟩, ?_, fun h => ?_⟩
  · rw [htypes]
    simp [TypeDef.body, TypeBody.Distinct, twoListsDecls]
  · simp [twoListsUnit, programs]
  · rw [htypes]
    simp [TypeDef.body]
  · let snapshot : TypeDef := .mk "Snapshot" [] (.struct twoListsDecls)
    have hbody : structDeserialise (twoListsUnit.site fun _ => true) snapshot twoListsDecls ∈
        twoListsUnit.bodies fun _ => true := by
      simp [bodies, twoListsUnit, types, programs, TypeDef.bodies, TypeDef.placed, TypeDef.allPlaced,
        TypeDef.serBodies, TypeDef.deserBodies, snapshot]
    have hmembers : ((structMembers twoListsDecls).map Prod.fst).Nodup := by decide
    have hnodup := ((structDeserialise_wellScoped_iff (site_foreign _) hmembers).mp (h _ hbody)).1
    exact absurd hnodup (by decide)

end TrlUnit

end ServiceManager.Wsrpcgen.Idl
