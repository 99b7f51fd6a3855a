import ServiceManager.Wsrpcgen.Deliver
import ServiceManager.Wsrpcgen.WellScoped.Templates

namespace ServiceManager.Wsrpcgen.Idl

open Scoping

variable {m : Meant} {s : Site} {d : TypeDef}

section Structs

variable {decls : List Decl}

theorem structMembers_fst : (structMembers decls).map Prod.fst = decls.map Decl.id ++ ["serialise", "deserialise"] := by
  simp [structMembers, ofNamed, ofMember]

theorem structMembers_nodup_iff : ((structMembers decls).map Prod.fst).Nodup ↔
    (decls.map Decl.id).Nodup ∧ ∀ name ∈ ["serialise", "deserialise"], name ∉ decls.map Decl.id := by
  rw [structMembers_fst, List.nodup_append']
  constructor
  · intro ⟨hids, _, hdisjoint⟩
    exact ⟨hids, fun name hname hmem => hdisjoint hmem hname⟩
  · intro ⟨hids, hapart⟩
    exact ⟨hids, by decide, fun name hmem hname => hapart name hname hmem⟩

theorem structMembers_own : ∀ m ∈ structMembers decls, m.2.foreign = false := by
  intro m hm
  simp only [structMembers, List.mem_append, List.mem_map, List.mem_pair] at hm
  rcases hm with ⟨decl, _, rfl⟩ | rfl | rfl <;> rfl

theorem own_structSerialise : ((structSerialise s d decls).own Entity.foreign).items =
    declares (ofVariable "out" :: decls.map fun decl => ofObject decl.id) ++
      ((decls.flatMap fun decl => ownSerialiseInto decl.type (ofNamed decl.id) (ofObject decl.id)) ++
        uses ((decls.flatMap fun decl => [ofVariable "out", ofObject decl.id]) ++ [ofVariable "out"])) := by
  simp only [Body.own, structSerialise, List.filter_append, own_encode (ofVariable_own "out"), filter_own_uses,
    List.append_assoc]
  simp [uses]

/-- The variables of `serialise` hide no member. -/
theorem scoped_structSerialise (hmembers : ((structMembers decls).map Prod.fst).Nodup) :
    Scoped [.empty, extend .empty (structMembers decls)] ((structSerialise s d decls).own Entity.foreign).items ↔
      ("out" :: decls.map fun decl => "u" ++ decl.id).Nodup ∧
        ∀ id ∈ decls.map Decl.id, id ∉ "out" :: decls.map fun decl => "u" ++ decl.id := by
  let names := ofVariable "out" :: decls.map fun decl => ofObject decl.id
  have hfst : names.map Prod.fst = "out" :: decls.map fun decl => "u" ++ decl.id := by
    rw [List.map_cons, objects_fst]
    rfl
  rw [own_structSerialise, scoped_declares_append, hfst]
  refine and_congr_right fun hnodup => ?_
  have hseen (m : Meant) := seen_function_iff (m := m) (hfst ▸ hnodup) hmembers
  have hout : Seen [extend .empty names, extend .empty (structMembers decls)] (ofVariable "out") :=
    (hseen _).mpr (Or.inl List.mem_cons_self)
  have hobject : ∀ decl ∈ decls, Seen [extend .empty names, extend .empty (structMembers decls)] (ofObject decl.id) :=
    fun decl hdecl => (hseen _).mpr (Or.inl (List.mem_cons_of_mem _ (List.mem_map_of_mem hdecl)))
  have hnamed : ∀ decl ∈ decls, Seen [extend .empty names, extend .empty (structMembers decls)] (ofNamed decl.id) ↔
      decl.id ∉ "out" :: decls.map fun decl => "u" ++ decl.id := by
    intro decl hdecl
    have hnot : ofNamed decl.id ∉ names := by simp [names, ofNamed, ofVariable, ofObject]
    have hmem : ofNamed decl.id ∈ structMembers decls := List.mem_append_left _ (List.mem_map_of_mem hdecl)
    rw [hseen, or_iff_right hnot, and_iff_left hmem, hfst]
    rfl
  rw [scoped_flatMap_append fun decl rest => scoped_ownSerialiseInto (u_append_ne decl.id), scoped_uses]
  constructor
  · rintro ⟨_, hinto, _⟩ id hid
    obtain ⟨decl, hdecl, rfl⟩ := List.mem_map.mp hid
    exact (hnamed decl hdecl).mp (hinto decl hdecl).2
  · intro hapart
    refine ⟨fun _ _ => rfl, fun decl hdecl => ⟨hobject decl hdecl, ?_⟩, ?_⟩
    · exact (hnamed decl hdecl).mpr (hapart decl.id (List.mem_map_of_mem hdecl))
    · intro m hm
      rw [List.mem_append, List.mem_flatMap, List.mem_singleton] at hm
      rcases hm with ⟨decl, hdecl, hm⟩ | rfl
      · rcases List.mem_pair.mp hm with rfl | rfl
        · exact hout
        · exact hobject decl hdecl
      · exact hout

/-- The names of the members, of their objects and of the class are all different. -/
theorem own_structSerialise_iff : ((structSerialise s d decls).own Entity.foreign).WellScoped ↔
    ("out" :: (decls.map Decl.id ++ decls.map fun decl => "u" ++ decl.id)).Nodup ∧
      ∀ name ∈ ["serialise", "deserialise"], name ∉ decls.map Decl.id := by
  constructor
  · intro ⟨hmembers, hscoped⟩
    obtain ⟨hids, hfunctions⟩ := structMembers_nodup_iff.mp hmembers
    obtain ⟨hnodup, hapart⟩ := (scoped_structSerialise hmembers).mp hscoped
    obtain ⟨hout, huids⟩ := List.nodup_cons.mp hnodup
    refine ⟨List.nodup_cons.mpr ⟨?_, List.nodup_append'.mpr ⟨hids, huids, ?_⟩⟩, hfunctions⟩
    · rw [List.mem_append, not_or]
      exact ⟨fun hmem => hapart "out" hmem List.mem_cons_self, hout⟩
    · intro id hid huid
      exact hapart id hid (List.mem_cons_of_mem _ huid)
  · intro ⟨hnodup, hfunctions⟩
    obtain ⟨hout, hnames⟩ := List.nodup_cons.mp hnodup
    obtain ⟨hids, huids, hdisjoint⟩ := List.nodup_append'.mp hnames
    rw [List.mem_append, not_or] at hout
    have hmembers := structMembers_nodup_iff.mpr ⟨hids, hfunctions⟩
    refine ⟨hmembers, (scoped_structSerialise hmembers).mpr ⟨List.nodup_cons.mpr ⟨hout.2, huids⟩, ?_⟩⟩
    intro id hid hmem
    rcases List.mem_cons.mp hmem with rfl | huid
    · exact hout.1 hid
    · exact hdisjoint hid huid

theorem taken_structSerialise : taken Entity.foreign [[], (structMembers decls).map Prod.fst]
    (structSerialise s d decls).items =
      (encodeBorrows "out" ((structMembers decls).map Prod.fst) decls).map use := by
  have htaken : taken Entity.foreign [[], (structMembers decls).map Prod.fst]
      (encode (ofVariable "out") decls ++ uses [ofVariable "out"]) =
        (encodeBorrows "out" ([] ++ [(structMembers decls).map Prod.fst].flatten) decls).map use ++
          taken Entity.foreign (declaredAfter ["out"]
            (objectDeclarations decls) :: [(structMembers decls).map Prod.fst])
            (uses [ofVariable "out"]) := taken_encode_append (ofVariable_own "out")
  have hend : ∀ declared, taken Entity.foreign declared (uses [ofVariable "out"]) = [] := fun _ => rfl
  rw [hend, List.append_nil] at htaken
  simpa [structSerialise] using htaken

theorem structSerialise_wellScoped_iff (hs : Around Entity.foreign s.outer) : (structSerialise s d decls).WellScoped ↔
    (("out" :: (decls.map Decl.id ++ decls.map fun decl => "u" ++ decl.id)).Nodup ∧
      ∀ name ∈ ["serialise", "deserialise"], name ∉ decls.map Decl.id) ∧
      ∀ x ∈ encodeBorrows "out" ((structMembers decls).map Prod.fst) decls, x.Met (knownIn (s.around d)) := by
  have hinside : Inside Entity.foreign 1 (structSerialise s d decls).items :=
    (inside_encode_append (ofVariable_own "out")).mpr trivial
  rw [wellScoped_iff_supplied structMembers_own hinside (s.around_foreign hs d) taken_structSerialise,
    own_structSerialise_iff]
  rfl

/-- How a member is read. -/
def memberReading (decl : Decl) : Reading where
  before := []
  type := decl.type
  suc := ofVariable "suc"
  uIn := ofObject decl.id
  out := ofVariable "out"
  behind := [ofVariable "suc"]

theorem mem_memberReading_names {decl : Decl} (hm : m ∈ (memberReading decl).names) :
    m ∈ [ofVariable "suc", ofObject decl.id, ofVariable "out"] := by
  have hm := mem_names_of_suc hm
  simp only [List.nil_append, List.mem_cons, List.not_mem_nil, or_false] at hm ⊢
  tauto

theorem memberReading_shown (decl : Decl) : (memberReading decl).Shown := by
  rw [Reading.Shown, memberReading, loopFlag_suc]
  simp [ofVariable]

/-- None of the names is one of the class. -/
theorem memberReading_apart (hmembers : ((structMembers decls).map Prod.fst).Nodup) {decl : Decl} :
    ∀ m ∈ (memberReading decl).names, Apart [extend .empty (structMembers decls)] m := by
  intro m hm
  have hm := mem_memberReading_names hm
  simp only [List.mem_cons, List.not_mem_nil, or_false] at hm
  have hnot : m ∉ structMembers decls := by
    rcases hm with rfl | rfl | rfl <;> simp [structMembers, ofNamed, ofMember, ofObject, ofVariable]
  refine ⟨?_, fun _ hseen => hnot ((seen_class_iff hmembers).mp hseen)⟩
  rcases hm with rfl | rfl | rfl <;> simp [ofVariable, ofObject]

/-- A list with no name twice stays so with the variables of at most one loop, if it has
not got them. -/
theorem nodup_append_loops_iff {names : List String} {args : List Decl} :
    (names ++ args.flatMap fun arg => if arg.type.list then ["it", "uEl"] else []).Nodup ↔
      names.Nodup ∧ (args.filter fun arg => arg.type.list).length ≤ 1 ∧
        ∀ arg ∈ args, arg.type.list = true → "it" ∉ names ∧ "uEl" ∉ names := by
  rw [List.nodup_append', nodup_loops]
  refine and_congr_right fun _ => and_congr_right fun _ => ?_
  constructor
  · intro hdisjoint arg harg hlist
    exact ⟨fun hmem => hdisjoint hmem (mem_loops.mpr ⟨⟨arg, harg, hlist⟩, Or.inl rfl⟩),
      fun hmem => hdisjoint hmem (mem_loops.mpr ⟨⟨arg, harg, hlist⟩, Or.inr rfl⟩)⟩
  · intro hapart name hname hloop
    obtain ⟨⟨arg, harg, hlist⟩, rfl | rfl⟩ := mem_loops.mp hloop
    · exact (hapart arg harg hlist).1 hname
    · exact (hapart arg harg hlist).2 hname

theorem own_structDeserialise : ((structDeserialise s d decls).own Entity.foreign).items =
    declares ([ofVariable "obj", ofVariable "out", ofVariable "suc"] ++ decls.map fun decl => ofObject decl.id) ++
      (uses (ofVariable "obj" :: decls.flatMap fun decl => [ofObject decl.id, ofVariable "obj"]) ++
        decls.flatMap fun decl =>
          ownDeserialiseInto decl.type (ofVariable "suc") (ofObject decl.id) (ofVariable "out") ++
            uses [ofVariable "suc"]) := by
  have hread : ∀ decl : Decl, (genDeserialiseInto decl.type (ofVariable "suc") (ofObject decl.id)
      (ofVariable "out")).filter
      (Item.own Entity.foreign) = ownDeserialiseInto decl.type (ofVariable "suc") (ofObject decl.id)
        (ofVariable "out") :=
    fun decl => own_genDeserialiseInto (ofVariable_own "suc") (ofObject_own decl.id) (ofVariable_own "out")
  have hlookup : ∀ decl : Decl, [ofObject decl.id].filter (fun m => !m.2.foreign) = [ofObject decl.id] := fun _ => rfl
  have hobj : [ofVariable "obj"].filter (fun m => !m.2.foreign) = [ofVariable "obj"] := rfl
  have hsuc : [ofVariable "suc"].filter (fun m => !m.2.foreign) = [ofVariable "suc"] := rfl
  simp only [Body.own, structDeserialise, List.filter_append, own_declarations, own_needs, filter_own_uses, hobj, hsuc,
    List.filter_flatMap, hread, hlookup, List.nil_append, deserialiseParameters]
  simp [uses, Function.comp_def, List.map_flatMap]

/-- By the declarations first, then the members one after the other. -/
theorem scoped_structDeserialise (hmembers : ((structMembers decls).map Prod.fst).Nodup) :
    Scoped [.empty, extend .empty (structMembers decls)] ((structDeserialise s d decls).own Entity.foreign).items ↔
      (["obj", "out", "suc"] ++ (decls.map (fun decl => "u" ++ decl.id) ++
        decls.flatMap fun decl => if decl.type.list then ["it", "uEl"] else [])).Nodup := by
  let names := [ofVariable "obj", ofVariable "out", ofVariable "suc"] ++ decls.map fun decl => ofObject decl.id
  have hfst : names.map Prod.fst = ["obj", "out", "suc"] ++ decls.map fun decl => "u" ++ decl.id := by
    rw [List.map_append, objects_fst]
    rfl
  have hreadings : (decls.flatMap fun decl =>
      ownDeserialiseInto decl.type (ofVariable "suc") (ofObject decl.id)
        (ofVariable "out") ++ uses [ofVariable "suc"]) =
        decls.flatMap (fun decl => (memberReading decl).items) ++ [] :=
    (List.append_nil _).symm
  rw [← List.append_assoc, nodup_append_loops_iff, own_structDeserialise, scoped_declares_append, hfst, hreadings]
  refine and_congr_right fun hnodup => ?_
  have hseen : ∀ m ∈ names, Seen [extend .empty names, extend .empty (structMembers decls)] m :=
    fun m hm => (seen_function_iff (hfst ▸ hnodup) hmembers).mpr (Or.inl hm)
  have hobject : ∀ decl ∈ decls, ofObject decl.id ∈ names :=
    fun decl hdecl => List.mem_append_right _ (List.mem_map_of_mem hdecl)
  have hobjects : ∀ m ∈ ofVariable "obj" :: decls.flatMap fun decl =>
      [ofObject decl.id, ofVariable "obj"], m ∈ names := by
    intro m hm
    rw [List.mem_cons, List.mem_flatMap] at hm
    rcases hm with rfl | ⟨decl, hdecl, hm⟩
    · simp [names]
    · rcases List.mem_pair.mp hm with rfl | rfl
      · exact hobject decl hdecl
      · simp [names]
  have hnames : ∀ decl ∈ decls, ∀ m ∈ (memberReading decl).names, m ∈ names := by
    intro decl hdecl m hm
    have hm := mem_memberReading_names hm
    simp only [List.mem_cons, List.not_mem_nil, or_false] at hm
    rcases hm with rfl | rfl | rfl
    · simp [names]
    · exact hobject decl hdecl
    · simp [names]
  have hroom : Room (extend .empty names) ↔ "it" ∉ names.map Prod.fst ∧ "uEl" ∉ names.map Prod.fst :=
    and_congr (extend_empty_eq_none_iff (hfst ▸ hnodup)) (extend_empty_eq_none_iff (hfst ▸ hnodup))
  rw [scoped_uses_append, scoped_declReadings (fun _ => rfl) decls fun decl _ => memberReading_apart hmembers]
  rw [hfst] at hroom
  constructor
  · intro ⟨_, _, _, hloop, hlists, _⟩
    exact ⟨hlists, fun decl hdecl hlist => hroom.mp (hloop decl hdecl hlist).1⟩
  · intro ⟨hlists, hloop⟩
    exact ⟨fun _ _ => rfl, fun m hm => hseen m (hobjects m hm), fun decl hdecl m hm => hseen m (hnames decl hdecl m hm),
      fun decl hdecl hlist => ⟨hroom.mpr (hloop decl hdecl hlist), memberReading_shown decl⟩, hlists, scoped_nil⟩

/-- The parameters of `deserialise`, and its first variable. -/
def deserialiseDeclarations (s : Site) (d : TypeDef) : List (List Needed × String) :=
  [([ofHeader "ucl_object_t"], "obj"), ([(d.name, some (s.prefixOf d))], "out"), ([], "suc")]

/-- What the code of `StructDef::genDeserImpl` takes. -/
def structDeserialiseBorrows (s : Site) (d : TypeDef) (decls : List Decl) : List Borrow :=
  let declarations := deserialiseDeclarations s d ++ objectDeclarations decls
  let members := (structMembers decls).map Prod.fst
  let after := declaredAfter members declarations
  declarationBorrows members declarations ++ (borrow after [ofHeader "ucl_object_type", ofHeader "UCL_OBJECT"] ++
    ((decls.flatMap fun _ => borrow after [ofHeader "ucl_object_lookup"]) ++
      readBorrows [] [] after (decls.map Decl.type)))

theorem inside_structDeserialise : Inside Entity.foreign 1 (structDeserialise s d decls).items := by
  have hlookup : ∀ items, Inside Entity.foreign 1 ((decls.flatMap fun decl => uses [ofObject decl.id] ++
      (needs [ofHeader "ucl_object_lookup"] ++ uses [ofVariable "obj"])) ++ items) ↔ Inside Entity.foreign 1 items :=
    fun items => inside_flatMap_append (fun decl items => by simp) decls
  have hreads : Inside Entity.foreign 1 ((decls.flatMap fun decl =>
      genDeserialiseInto decl.type (ofVariable "suc") (ofObject decl.id)
        (ofVariable "out") ++ uses [ofVariable "suc"]) ++
        []) :=
    (inside_flatMap_append (fun decl items => by simp) decls).mpr trivial
  rw [List.append_nil] at hreads
  simp [structDeserialise, deserialiseParameters, hlookup, hreads]

/-- What the code that reads a struct takes from around it. -/
theorem taken_structDeserialise : taken Entity.foreign [[], (structMembers decls).map Prod.fst]
    (structDeserialise s d decls).items = (structDeserialiseBorrows s d decls).map use := by
  have hobj : ∀ declared items, taken Entity.foreign declared (uses [ofVariable "obj"] ++ items) =
      taken Entity.foreign declared items := fun _ _ => rfl
  have hlookup (declared : List (List String)) (items : List (Item String Entity)) : taken Entity.foreign declared
      ((decls.flatMap fun decl => uses [ofObject decl.id] ++ (needs [ofHeader "ucl_object_lookup"] ++
        uses [ofVariable "obj"])) ++ items) =
          (decls.flatMap fun _ => borrow declared.flatten [ofHeader "ucl_object_lookup"]).map use ++
            taken Entity.foreign declared items := by
    rw [List.map_flatMap]
    exact taken_flatMap_append (fun _ _ => by simp) decls
  have hreads (first : List String) (outer : List (List String)) : taken Entity.foreign (first :: outer)
      ((decls.flatMap fun decl => [] ++ (genDeserialiseInto decl.type (ofVariable "suc") (ofObject decl.id)
        (ofVariable "out") ++ uses [ofVariable "suc"])) ++ []) =
          (readBorrows [] [] (first ++ outer.flatten) (decls.map Decl.type)).map use ++
            taken Entity.foreign (declaredAfterReads first (decls.map Decl.type) :: outer) [] :=
    taken_reads_append (fun _ => ofVariable_own "suc") (fun decl => ofObject_own decl.id)
      (fun _ => ofVariable_own "out")
      (fun _ _ _ => rfl) (fun _ _ _ => rfl) decls
  have hnames : namesOf (deserialiseParameters s d ++ ([], ofVariable "suc") ::
      decls.map fun decl => ([ofHeader "ucl_object_t"], ofObject decl.id)) =
        deserialiseDeclarations s d ++ objectDeclarations decls := by
    simp [namesOf, deserialiseParameters, deserialiseDeclarations, objectDeclarations, ofVariable, ofObject]
  simp only [List.append_nil, List.nil_append, taken] at hreads
  simp only [structDeserialise, taken_declarations_append, taken_needs_append, hobj, hlookup, hreads, hnames,
    List.flatten_cons, declaredAfter_append, structDeserialiseBorrows, List.map_append]
  simp

theorem own_structDeserialise_iff (hmembers : ((structMembers decls).map Prod.fst).Nodup) :
    ((structDeserialise s d decls).own Entity.foreign).WellScoped ↔
      (["obj", "out", "suc"] ++ (decls.map (fun decl => "u" ++ decl.id) ++
        decls.flatMap fun decl => if decl.type.list then ["it", "uEl"] else [])).Nodup := by
  rw [← scoped_structDeserialise hmembers]
  exact ⟨fun h => h.names, fun h => ⟨hmembers, h⟩⟩

theorem structDeserialise_wellScoped_iff (hs : Around Entity.foreign s.outer)
    (hmembers : ((structMembers decls).map Prod.fst).Nodup) : (structDeserialise s d decls).WellScoped ↔
      (["obj", "out", "suc"] ++ (decls.map (fun decl => "u" ++ decl.id) ++
        decls.flatMap fun decl => if decl.type.list then ["it", "uEl"] else [])).Nodup ∧
          ∀ x ∈ structDeserialiseBorrows s d decls, x.Met (knownIn (s.around d)) := by
  rw [wellScoped_iff_supplied structMembers_own inside_structDeserialise (s.around_foreign hs d)
    taken_structDeserialise,
    own_structDeserialise_iff hmembers]
  rfl

end Structs

section Unions

variable {enumType : TypeRef} {cases : List (String × List Decl)}

theorem unionMembers_nodup : (unionMembers.map Prod.fst).Nodup := by
  decide

theorem unionSerialise_wellScoped : (unionSerialise s d).WellScoped :=
  ⟨unionMembers_nodup, scoped_nil⟩

theorem own_unionDeserialise : ((unionDeserialise s d enumType cases).own Entity.foreign).items =
    declares [ofVariable "obj", ofVariable "out", ofVariable "suc", ofVariable "uclType", ofVariable "type"] ++
      (uses [ofVariable "uclType", ofVariable "obj"] ++
        (ownDeserialiseInto enumType (ofVariable "suc") (ofVariable "uclType") (ofVariable "type") ++
          uses (ofVariable "suc" :: cases.map fun _ => ofVariable "type"))) := by
  have hread := own_genDeserialiseInto (t := enumType) (ofVariable_own "suc") (ofVariable_own "uclType")
    (ofVariable_own "type")
  have hvariable : ∀ name, [ofVariable name].filter (fun m => !m.2.foreign) = [ofVariable name] := fun _ => rfl
  have hcases : (cases.flatMap fun _ => uses [ofVariable "type"]) = uses (cases.map fun _ => ofVariable "type") := by
    rw [uses_flatMap, List.map_eq_flatMap]
  simp only [Body.own, unionDeserialise, List.filter_append, own_declarations, own_needs, filter_own_uses, hvariable,
    hread, List.filter_flatMap, List.nil_append, List.append_nil, hcases, deserialiseParameters]
  simp [uses]

/-- The code of a union has fixed names only. -/
theorem own_unionDeserialise_wellScoped :
    ((unionDeserialise s d enumType cases).own Entity.foreign).WellScoped := by
  let r : Reading :=
    { before := [ofVariable "uclType", ofVariable "obj"]
      type := enumType
      suc := ofVariable "suc"
      uIn := ofVariable "uclType"
      out := ofVariable "type"
      behind := ofVariable "suc" :: cases.map fun _ => ofVariable "type" }
  let names := ["obj", "out", "suc", "uclType", "type"]
  have hnames : ∀ m ∈ r.names, ∃ name ∈ names, ofVariable name = m := by
    intro m hm
    have hm := mem_names_of_suc hm
    simp only [List.mem_append, List.mem_cons, List.mem_map, List.not_mem_nil, or_false] at hm
    rcases hm with (rfl | rfl) | rfl | rfl | rfl | rfl | ⟨_, _, rfl⟩ <;> exact ⟨_, by decide, rfl⟩
  have hseen : ∀ m ∈ r.names, Seen [extend .empty (names.map ofVariable), extend .empty unionMembers] m := by
    intro m hm
    exact (seen_function_iff (by decide) (by decide)).mpr (Or.inl (List.mem_map.mpr (hnames m hm)))
  have hapart : ∀ m ∈ r.names, Apart [extend .empty unionMembers] m := by
    intro m hm
    have hfixed : ∀ name ∈ names, name ∉ ["it", "uEl", "outEl"] := by decide
    obtain ⟨name, hname, rfl⟩ := hnames m hm
    exact apart_ofVariable (hfixed name hname)
  have hshown : r.Shown := by
    rw [Reading.Shown, loopFlag_suc]
    simp [ofVariable, r]
  have hitems : ((unionDeserialise s d enumType cases).own Entity.foreign).items =
      declares (names.map ofVariable) ++ (r.items ++ []) := by
    rw [List.append_nil, own_unionDeserialise]
    rfl
  have hmembers : (unionMembers.map Prod.fst).Nodup := by decide
  refine ⟨hmembers, ?_⟩
  rw [hitems, scoped_declares_append]
  exact ⟨by decide, fun _ _ => rfl, (scoped_reading hapart ⟨rfl, rfl⟩ hshown hseen).mpr scoped_nil⟩

/-- What the code of `UnionDef::genDeserImpl` takes. -/
def unionDeserialiseBorrows (s : Site) (d : TypeDef) (enumType : TypeRef) (cases : List (String × List Decl)) :
    List Borrow :=
  let declarations := deserialiseDeclarations s d ++
    [([ofHeader "ucl_object_t"], "uclType"), (enumType.declNeeds, "type")]
  let members := unionMembers.map Prod.fst
  let after := declaredAfter members declarations
  declarationBorrows members declarations ++ (borrow after [ofHeader "ucl_object_lookup"] ++
    (enumType.deserialiseBorrows after ++
      cases.flatMap fun _ => borrow (enumType.loopNames ++ after) [(enumType.canonicalName ++ "::", enumType.scope)]))

theorem unionMembers_own : ∀ m ∈ unionMembers, m.2.foreign = false := by
  decide

theorem inside_unionDeserialise : Inside Entity.foreign 1 (unionDeserialise s d enumType cases).items := by
  have hcases : Inside Entity.foreign 1 ((cases.flatMap fun _ => uses [ofVariable "type"] ++
      needs [(enumType.canonicalName ++ "::", enumType.scope)]) ++ []) :=
    (inside_flatMap_append (fun _ items => by simp) cases).mpr trivial
  rw [List.append_nil] at hcases
  simp [unionDeserialise, deserialiseParameters, hcases]

/-- What the code that reads a union takes from around it. -/
theorem taken_unionDeserialise : taken Entity.foreign [[], unionMembers.map Prod.fst]
    (unionDeserialise s d enumType cases).items = (unionDeserialiseBorrows s d enumType cases).map use := by
  have hvariable : ∀ name declared items, taken Entity.foreign declared (uses [ofVariable name] ++ items) =
      taken Entity.foreign declared items := fun _ _ _ => rfl
  have hread (first : List String) (outer : List (List String)) (items : List (Item String Entity)) :
      taken Entity.foreign (first :: outer) (genDeserialiseInto enumType (ofVariable "suc") (ofVariable "uclType")
        (ofVariable "type") ++ items) = (enumType.deserialiseBorrows (first ++ outer.flatten)).map use ++
          taken Entity.foreign ((enumType.loopNames ++ first) :: outer) items :=
    taken_genDeserialiseInto_append (ofVariable_own "suc") (ofVariable_own "uclType") (ofVariable_own "type")
  have hcases (declared : List (List String)) : taken Entity.foreign declared
      ((cases.flatMap fun _ => uses [ofVariable "type"] ++ needs [(enumType.canonicalName ++ "::", enumType.scope)]) ++
        []) =
          (cases.flatMap fun _ => borrow declared.flatten [(enumType.canonicalName ++ "::", enumType.scope)]).map use ++
            taken Entity.foreign declared [] := by
    rw [List.map_flatMap]
    exact taken_flatMap_append (fun _ _ => by simp) cases
  have hnames : namesOf (deserialiseParameters s d ++ [([], ofVariable "suc"),
      ([ofHeader "ucl_object_t"], ofVariable "uclType"), (enumType.declNeeds, ofVariable "type")]) =
        deserialiseDeclarations s d ++ [([ofHeader "ucl_object_t"], "uclType"), (enumType.declNeeds, "type")] := rfl
  simp only [List.append_nil, taken] at hcases
  simp only [unionDeserialise, taken_declarations_append, taken_needs_append, hvariable, hread, hcases, hnames,
    List.flatten_cons, declaredAfter_append, List.append_assoc, unionDeserialiseBorrows, List.map_append]
  simp

theorem unionDeserialise_wellScoped_iff (hs : Around Entity.foreign s.outer) :
    (unionDeserialise s d enumType cases).WellScoped ↔
      ∀ x ∈ unionDeserialiseBorrows s d enumType cases, x.Met (knownIn (s.around d)) := by
  rw [wellScoped_iff_supplied unionMembers_own inside_unionDeserialise (s.around_foreign hs d) taken_unionDeserialise]
  exact and_iff_right own_unionDeserialise_wellScoped

end Unions

namespace Enumeration

variable {e : Enumeration} {outer : List (Block String Entity)}

theorem members_fst : e.members.map Prod.fst = e.declaredNames := by
  simp [members, declaredNames, ofMember, ofNamed, ofText, Function.comp_def]

theorem mem_members_named {entry : Entry} (h : entry ∈ e.entries) :
    ofNamed entry.id ∈ e.members ∧ ofText entry.id ∈ e.members := by
  have hnamed : ofNamed entry.id ∈ e.entries.map fun entry => ofNamed entry.id := List.mem_map_of_mem h
  have htext : ofText entry.id ∈ e.entries.map fun entry => ofText entry.id := List.mem_map_of_mem h
  simp only [members, List.mem_append]
  tauto

theorem mem_members_fixed {name : String} (h : name ∈ ["kMax", "value", "toPSz", "fromPSz"]) :
    ofMember name ∈ e.members := by
  simp only [List.mem_cons, List.not_mem_nil, or_false] at h
  rcases h with rfl | rfl | rfl | rfl <;> simp [members]

theorem members_own : ∀ m ∈ e.members, m.2.foreign = false := by
  intro m hm
  simp only [members, List.mem_append, List.mem_cons, List.mem_map, List.not_mem_nil, or_false] at hm
  rcases hm with (rfl | rfl) | (((⟨entry, _, rfl⟩ | rfl) | ⟨entry, _, rfl⟩) | rfl | rfl | rfl | rfl | rfl) <;> rfl

/-- What a function does for an entry is about the class. -/
theorem entries_own {f : Entry → List Meant} (h : ∀ entry, ∀ m ∈ f entry, m.2.foreign = false) :
    ∀ m ∈ e.entries.flatMap f, m.2.foreign = false := by
  intro m hm
  obtain ⟨entry, _, hm⟩ := List.mem_flatMap.mp hm
  exact h entry m hm

theorem toPSzBody_wellScoped_iff (houter : Around Entity.foreign outer) :
    (e.toPSzBody outer).WellScoped ↔ e.declaredNames.Nodup := by
  have hown : ∀ m ∈ e.entries.flatMap fun entry => [ofMember "value", ofNamed entry.id, ofText entry.id],
      m.2.foreign = false := entries_own (by simp)
  have htaken : taken Entity.foreign [[], e.members.map Prod.fst] (e.toPSzBody outer).items = [].map use :=
    taken_own_uses hown _
  have hitems : (e.toPSzBody outer).own Entity.foreign = { e.toPSzBody outer with outer := [] } :=
    congrArg (Body.mk e.members · []) (filter_own_uses_own hown)
  rw [wellScoped_iff_supplied members_own (inside_uses _) houter htaken, hitems, ← members_fst]
  refine (and_iff_left (by simp)).trans (wellScoped_uses_iff.trans ⟨And.left, fun hnodup => ⟨hnodup, fun m hm => ?_⟩⟩)
  obtain ⟨entry, hentry, hm⟩ := List.mem_flatMap.mp hm
  simp only [List.mem_cons, List.not_mem_nil, or_false] at hm
  rcases hm with rfl | rfl | rfl
  · exact mem_members_fixed (by simp)
  · exact (mem_members_named hentry).1
  · exact (mem_members_named hentry).2

theorem serialiseBody_wellScoped_iff (houter : Around Entity.foreign outer) : (e.serialiseBody outer).WellScoped ↔
    e.declaredNames.Nodup ∧ ∀ x ∈ borrow e.declaredNames [ofHeader "ucl_object_fromstring"], x.Met (knownIn outer) := by
  have htaken : taken Entity.foreign [[], e.members.map Prod.fst] (e.serialiseBody outer).items =
      (borrow e.declaredNames [ofHeader "ucl_object_fromstring"]).map use := by
    have hmember : taken Entity.foreign [[], e.members.map Prod.fst] (uses [ofMember "toPSz"]) = [] := rfl
    rw [serialiseBody, taken_needs_append, hmember, members_fst]
    simp
  have hinside : Inside Entity.foreign 1 (e.serialiseBody outer).items := inside_needs_append.mpr (inside_uses _)
  have hitems : (e.serialiseBody outer).own Entity.foreign = ⟨e.members, uses [ofMember "toPSz"], []⟩ := rfl
  have hmember : ofMember "toPSz" ∈ e.members := mem_members_fixed (by simp)
  rw [wellScoped_iff_supplied members_own hinside houter htaken, hitems, wellScoped_uses_iff, members_fst]
  refine and_congr_left fun _ => and_iff_left fun m hm => ?_
  rwa [List.mem_singleton.mp hm]

theorem text_ne_pSz (id : String) : id ++ "PSz" ≠ "pSz" := by
  intro heq
  have hlist := congrArg (fun s => s.toList.reverse) heq
  simp at hlist

/-- What the comparison with one entry uses besides `strcmp`. -/
theorem compared_own (entry : Entry) :
    ∀ m ∈ [ofVariable "pSz", ofText entry.id, ofNamed entry.id], m.2.foreign = false := by
  simp

/-- Each comparison takes `strcmp`, whatever is declared around it. -/
theorem taken_fromPSzBody : taken Entity.foreign [[], e.members.map Prod.fst] (e.fromPSzBody outer).items =
    (e.entries.flatMap fun _ => borrow ("pSz" :: e.declaredNames) [ofHeader "strcmp"]).map use := by
  have hcompare (declared : List (List String)) (items : List (Item String Entity)) : taken Entity.foreign declared
      ((e.entries.flatMap fun entry => needs [ofHeader "strcmp"] ++
        uses [ofVariable "pSz", ofText entry.id, ofNamed entry.id]) ++ items) =
          (e.entries.flatMap fun _ => borrow declared.flatten [ofHeader "strcmp"]).map use ++
            taken Entity.foreign declared items := by
    rw [List.map_flatMap]
    refine taken_flatMap_append (fun entry items => ?_) e.entries
    rw [List.append_assoc, taken_needs_append, taken_own_uses_append (compared_own entry)]
  have hend : ∀ declared, taken Entity.foreign declared (uses [ofMember "kMax"]) = [] := fun _ => rfl
  rw [fromPSzBody, taken_declares_append, hcompare, hend, members_fst]
  simp

theorem inside_fromPSzBody : Inside Entity.foreign 1 (e.fromPSzBody outer).items := by
  refine (inside_declares_append _).mpr ⟨by simp, ?_⟩
  exact (inside_flatMap_append (fun _ _ => by simp) e.entries).mpr (inside_uses _)

theorem own_fromPSzBody : (e.fromPSzBody outer).own Entity.foreign = ⟨e.members, declares [ofVariable "pSz"] ++
    uses ((e.entries.flatMap fun entry => [ofVariable "pSz", ofText entry.id, ofNamed entry.id]) ++ [ofMember "kMax"]),
    []⟩ := by
  have hentries : ((e.entries.flatMap fun entry => needs [ofHeader "strcmp"] ++
      uses [ofVariable "pSz", ofText entry.id, ofNamed entry.id]).filter (Item.own Entity.foreign)) =
        uses (e.entries.flatMap fun entry => [ofVariable "pSz", ofText entry.id, ofNamed entry.id]) := by
    rw [List.filter_flatMap, ← uses_flatMap]
    refine List.flatMap_congr fun entry _ => ?_
    rw [List.filter_append, own_needs, filter_own_uses_own (compared_own entry), List.nil_append]
  rw [Body.own, fromPSzBody, List.filter_append, List.filter_append, hentries, filter_own_declares]
  simp [uses, Item.own]

/-- The chain of comparisons sees the entries unless its parameter hides one. -/
theorem own_fromPSzBody_iff : ((e.fromPSzBody outer).own Entity.foreign).WellScoped ↔
    e.declaredNames.Nodup ∧ "pSz" ∉ e.entries.map Entry.id := by
  rw [own_fromPSzBody, wellScoped_flat_iff, ← members_fst]
  refine and_congr_right fun _ => ?_
  constructor
  · rintro ⟨_, hseen⟩ hmem
    obtain ⟨entry, hentry, hid⟩ := List.mem_map.mp hmem
    have hused := hseen (ofNamed entry.id)
      (List.mem_append_left _ (List.mem_flatMap.mpr ⟨entry, hentry, by simp⟩))
    simp [ofNamed, ofVariable, hid] at hused
  · intro hshown
    refine ⟨by simp, fun m hm => ?_⟩
    rw [List.mem_append, List.mem_flatMap, List.mem_singleton] at hm
    rcases hm with ⟨entry, hentry, hm⟩ | rfl
    · simp only [List.mem_cons, List.not_mem_nil, or_false] at hm
      rcases hm with rfl | rfl | rfl
      · exact Or.inl List.mem_cons_self
      · exact Or.inr ⟨by simpa [ofText, ofVariable] using text_ne_pSz entry.id, (mem_members_named hentry).2⟩
      · have hne : entry.id ≠ "pSz" := fun hid => hshown (hid ▸ List.mem_map_of_mem hentry)
        exact Or.inr ⟨by simpa [ofNamed, ofVariable] using hne, (mem_members_named hentry).1⟩
    · exact Or.inr ⟨by decide, mem_members_fixed (by simp)⟩

theorem fromPSzBody_wellScoped_iff (houter : Around Entity.foreign outer) : (e.fromPSzBody outer).WellScoped ↔
    (e.declaredNames.Nodup ∧ "pSz" ∉ e.entries.map Entry.id) ∧
      ∀ x ∈ e.entries.flatMap fun _ => borrow ("pSz" :: e.declaredNames) [ofHeader "strcmp"],
        x.Met (knownIn outer) := by
  rw [wellScoped_iff_supplied members_own inside_fromPSzBody houter taken_fromPSzBody, own_fromPSzBody_iff]
  rfl

/-- What the code of `EnumDef::genDeserImpl` takes for `deserialise`. -/
def deserialiseBorrows (e : Enumeration) : List Borrow :=
  borrow e.declaredNames [ofHeader "ucl_object_t"] ++
    borrow ("value" :: "txt" :: "out" :: "obj" :: e.declaredNames) [ofHeader "ucl_object_tostring_safe"]

theorem own_deserialiseBody : ((e.deserialiseBody outer).own Entity.foreign).items =
    declares [ofVariable "obj"] ++ (uses [ofMember e.name] ++ (declares [ofVariable "out", ofVariable "txt"] ++
      (uses [ofMember ("_E" ++ e.name)] ++ (declares [ofVariable "value"] ++ uses [ofVariable "obj", ofVariable "txt",
        ofVariable "out", ofMember "fromPSz", ofVariable "txt", ofMember "kMax"])))) := by
  simp [Body.own, deserialiseBody, uses, Item.own]

/-- The class's own name is looked up where the parameter `obj` is declared already. -/
theorem own_deserialiseBody_iff : ((e.deserialiseBody outer).own Entity.foreign).WellScoped ↔
    e.declaredNames.Nodup ∧ e.name ≠ "obj" := by
  have hname : ofMember e.name ∈ e.members := by simp [members]
  have hconstant : ofMember ("_E" ++ e.name) ∈ e.members := by simp [members]
  have hapart : ∀ name ∈ ["obj", "out", "txt"], "_E" ++ e.name ≠ name := by
    intro name hmem heq
    simp only [List.mem_cons, List.not_mem_nil, or_false] at hmem
    rcases hmem with rfl | rfl | rfl <;> simpa using congrArg String.toList heq
  have hscoped (hmembers : (e.members.map Prod.fst).Nodup) :
      Scoped [.empty, extend .empty e.members] ((e.deserialiseBody outer).own Entity.foreign).items ↔
        e.name ≠ "obj" := by
    have hself : Seen [extend .empty [ofVariable "obj"], extend .empty e.members] (ofMember e.name) ↔
        e.name ≠ "obj" := by
      rw [seen_function_iff (by decide) hmembers]
      simp [ofVariable, ofMember, show (e.name, Entity.member e.name) ∈ e.members from hname]
    have hother : Seen [extend .empty [ofVariable "obj", ofVariable "out", ofVariable "txt"], extend .empty e.members]
        (ofMember ("_E" ++ e.name)) :=
      (seen_function_iff (by decide) hmembers).mpr (Or.inr ⟨fun hmem => hapart _ hmem rfl, hconstant⟩)
    have hend : ∀ m ∈ [ofVariable "obj", ofVariable "txt", ofVariable "out", ofMember "fromPSz", ofVariable "txt",
        ofMember "kMax"], Seen [extend .empty [ofVariable "obj", ofVariable "out", ofVariable "txt",
          ofVariable "value"],
          extend .empty e.members] m := by
      intro m hm
      rw [seen_function_iff (by decide) hmembers]
      simp only [List.mem_cons, List.not_mem_nil, or_false] at hm
      rcases hm with rfl | rfl | rfl | rfl | rfl | rfl
      · exact Or.inl (by decide)
      · exact Or.inl (by decide)
      · exact Or.inl (by decide)
      · exact Or.inr ⟨by decide, mem_members_fixed (by simp)⟩
      · exact Or.inl (by decide)
      · exact Or.inr ⟨by decide, mem_members_fixed (by simp)⟩
    rw [own_deserialiseBody, scoped_declares_append, List.forall_mem_singleton, scoped_uses_append,
      List.forall_mem_singleton, hself]
    refine (and_iff_right (by decide)).trans ((and_iff_right rfl).trans (and_iff_left ?_))
    rw [scoped_declares_append, scoped_uses_append, List.forall_mem_singleton, scoped_declares_append, scoped_uses]
    exact ⟨by decide, by decide, hother, by decide, by decide, hend⟩
  rw [← members_fst]
  constructor
  · rintro ⟨hmembers, hnames⟩
    exact ⟨hmembers, (hscoped hmembers).mp hnames⟩
  · rintro ⟨hmembers, hne⟩
    exact ⟨hmembers, (hscoped hmembers).mpr hne⟩

theorem deserialiseBody_wellScoped_iff (houter : Around Entity.foreign outer) : (e.deserialiseBody outer).WellScoped ↔
    (e.declaredNames.Nodup ∧ e.name ≠ "obj") ∧ ∀ x ∈ e.deserialiseBorrows, x.Met (knownIn outer) := by
  have hmember : ∀ name declared items, taken Entity.foreign declared (uses [ofMember name] ++ items) =
      taken Entity.foreign declared items := fun _ _ _ => rfl
  have hend : ∀ declared, taken Entity.foreign declared (uses [ofVariable "obj", ofVariable "txt", ofVariable "out",
      ofMember "fromPSz", ofVariable "txt", ofMember "kMax"]) = [] := fun _ => rfl
  have htaken : taken Entity.foreign [[], e.members.map Prod.fst] (e.deserialiseBody outer).items =
      e.deserialiseBorrows.map use := by
    simp only [deserialiseBody, taken_declarations_append, taken_declares_append, taken_needs_append, hmember, hend,
      members_fst, deserialiseBorrows, List.map_append]
    simp [namesOf, declarationBorrows, declaredAfter, borrow]
  have hinside : Inside Entity.foreign 1 (e.deserialiseBody outer).items := by
    simp [deserialiseBody]
  rw [wellScoped_iff_supplied members_own hinside houter htaken, own_deserialiseBody_iff]
  rfl

end Enumeration

/-- The names in a type go together with those that are made of them and those that the
generator adds. -/
def TypeBody.Clear (name : String) : TypeBody → Prop
  | .struct decls => StructScoped decls ∧ ∀ name ∈ ["serialise", "deserialise"], name ∉ decls.map Decl.id
  | .union _ _ => True
  | .enum entries =>
    ((Enumeration.mk name entries).declaredNames.Nodup ∧ "pSz" ∉ entries.map Entry.id) ∧ name ≠ "obj"

/-- What the functions of an enumeration's class take from around it. -/
def Enumeration.borrows (e : Enumeration) : List Borrow :=
  borrow e.declaredNames [ofHeader "ucl_object_fromstring"] ++
    ((e.entries.flatMap fun _ => borrow ("pSz" :: e.declaredNames) [ofHeader "strcmp"]) ++ e.deserialiseBorrows)

namespace TypeDef

/-- What the functions of a type's class take from around it. -/
def borrows (s : Site) : TypeDef → List Borrow
  | .mk name types (.struct decls) =>
    encodeBorrows "out" ((structMembers decls).map Prod.fst) decls ++
      structDeserialiseBorrows s (.mk name types (.struct decls)) decls
  | .mk name types (.union enumType cases) =>
    unionDeserialiseBorrows s (.mk name types (.union enumType cases)) enumType cases
  | .mk name _ (.enum entries) => Enumeration.borrows ⟨name, entries⟩

/-- All that the functions of a type's class take from around it is there. -/
def Supplied (s : Site) (d : TypeDef) : Prop :=
  ∀ x ∈ d.borrows s, x.Met (knownIn (s.around d))

/-- The functions of a type, by what kind it is. -/
theorem own_wellScoped_iff (hs : Around Entity.foreign s.outer) (d : TypeDef) :
    (∀ b ∈ d.serBodies s ++ d.deserBodies s, b.WellScoped) ↔ d.body.Clear d.name ∧ d.Supplied s := by
  obtain ⟨name, types, body⟩ := d
  have hforeign := s.around_foreign hs (.mk name types body)
  cases body with
  | struct decls =>
    have hpair : (∀ b ∈ [structSerialise s (.mk name types (.struct decls)) decls,
        structDeserialise s (.mk name types (.struct decls)) decls], b.WellScoped) ↔
          (structSerialise s (.mk name types (.struct decls)) decls).WellScoped ∧
            (structDeserialise s (.mk name types (.struct decls)) decls).WellScoped := by simp
    refine hpair.trans ?_
    rw [structSerialise_wellScoped_iff hs, Supplied, borrows, List.forall_mem_append]
    constructor
    · rintro ⟨⟨⟨hserialise, hfunctions⟩, hencode⟩, hdeserialise⟩
      have hids := (List.nodup_append'.mp (List.nodup_cons.mp hserialise).2).1
      have hmembers := structMembers_nodup_iff.mpr ⟨hids, hfunctions⟩
      obtain ⟨hscoped, hdecode⟩ := (structDeserialise_wellScoped_iff hs hmembers).mp hdeserialise
      exact ⟨⟨⟨hserialise, hscoped⟩, hfunctions⟩, hencode, hdecode⟩
    · rintro ⟨⟨⟨hserialise, hscoped⟩, hfunctions⟩, hencode, hdecode⟩
      have hids := (List.nodup_append'.mp (List.nodup_cons.mp hserialise).2).1
      have hmembers := structMembers_nodup_iff.mpr ⟨hids, hfunctions⟩
      exact ⟨⟨⟨hserialise, hfunctions⟩, hencode⟩,
        (structDeserialise_wellScoped_iff hs hmembers).mpr ⟨hscoped, hdecode⟩⟩
  | union enumType cases =>
    simp only [serBodies, deserBodies, List.cons_append, List.nil_append, List.forall_mem_cons]
    constructor
    · rintro ⟨_, hdeserialise, -⟩
      exact ⟨trivial, (unionDeserialise_wellScoped_iff hs).mp hdeserialise⟩
    · rintro ⟨_, hdecode⟩
      exact ⟨unionSerialise_wellScoped, (unionDeserialise_wellScoped_iff hs).mpr hdecode, by simp⟩
  | enum entries =>
    simp only [serBodies, deserBodies, List.cons_append, List.nil_append, List.forall_mem_cons, List.not_mem_nil,
      false_implies, implies_true, and_true, Enumeration.toPSzBody_wellScoped_iff hforeign,
      Enumeration.serialiseBody_wellScoped_iff hforeign, Enumeration.fromPSzBody_wellScoped_iff hforeign,
      Enumeration.deserialiseBody_wellScoped_iff hforeign, Supplied, borrows, Enumeration.borrows,
        List.forall_mem_append]
    constructor
    · rintro ⟨_, ⟨_, hstring⟩, ⟨hclear, hcompare⟩, ⟨_, hname⟩, htext⟩
      exact ⟨⟨hclear, hname⟩, hstring, hcompare, htext⟩
    · rintro ⟨⟨hclear, hname⟩, hstring, hcompare, htext⟩
      exact ⟨hclear.1, ⟨hclear.1, hstring⟩, ⟨hclear, hcompare⟩, ⟨hclear.1, hname⟩, htext⟩

theorem mem_bodies_iff {d : TypeDef} {b : Body String Entity} :
    b ∈ d.bodies s ↔ ∃ x ∈ d.placed s, b ∈ x.2.serBodies x.1 ++ x.2.deserBodies x.1 := by
  simp only [bodies, List.mem_append, List.mem_flatMap]
  constructor
  · rintro (⟨x, hx, hb⟩ | ⟨x, hx, hb⟩)
    · exact ⟨x, hx, Or.inl hb⟩
    · exact ⟨x, hx, Or.inr hb⟩
  · rintro ⟨x, hx, hb | hb⟩
    · exact Or.inl ⟨x, hx, hb⟩
    · exact Or.inr ⟨x, hx, hb⟩

end TypeDef

end ServiceManager.Wsrpcgen.Idl
