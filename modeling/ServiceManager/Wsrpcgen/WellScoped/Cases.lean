import ServiceManager.Wsrpcgen.WellScoped.Calls

namespace ServiceManager.Wsrpcgen.Idl

open Scoping

variable {outer : List (Block String Entity)} {block : Block String Entity} {rest : List (Item String Entity)}
  {m : Meant} {method : Method} {p : Program}

/-- What the cases see of the function around them. -/
def handleReqNames : List Meant :=
  [ofVariable "req", ofVariable "baseVt", ofVariable "succeeded", ofVariable "vt"]

/-- How an argument is read. -/
def argumentReading (arg : Decl) : Reading where
  before := [ofObj arg.id, ofVariable "req", ofVariable "req"]
  type := arg.type
  suc := ofVariable "succeeded"
  uIn := ofObj arg.id
  out := ofNamed arg.id
  behind := [ofVariable "succeeded", ofVariable "req"]

/-- What a case declares. -/
def caseMeant (method : Method) : List Meant :=
  (caseDeclared method).map Prod.snd

theorem caseMeant_eq : caseMeant method =
    (method.args.flatMap fun arg => [ofObj arg.id, ofNamed arg.id]) ++ returnedMeant method "rval" := by
  rw [caseMeant, caseDeclared, List.map_append, List.map_flatMap]
  rfl

theorem caseMeant_fst (method : Method) : (caseMeant method).map Prod.fst = method.caseNames := by
  rw [caseMeant_eq, List.map_append, List.map_flatMap, returnedMeant_fst]
  rfl

/-- What a case sees: its own variables, and those of the function that they do not hide. -/
theorem seen_case_iff (hnodup : method.caseNames.Nodup) :
    Seen [extend .empty (caseMeant method), extend .empty handleReqNames, extend .empty []] m ↔
      m ∈ caseMeant method ∨ m.1 ∉ method.caseNames ∧ m ∈ handleReqNames := by
  have houter : Seen [extend .empty handleReqNames, extend .empty []] m ↔ m ∈ handleReqNames := by
    rw [seen_function_iff (by decide) (by simp)]
    simp
  rw [seen_extend_iff (caseMeant_fst method ▸ hnodup), seen_empty, houter, caseMeant_fst]

/-- The one variable of a case that the generator has named itself is `rval`. -/
theorem not_mem_caseMeant {name : String} (hm : m.2 = .variable name) (hne : name ≠ "rval") : m ∉ caseMeant method := by
  obtain ⟨id, _⟩ := m
  obtain rfl := hm
  rw [caseMeant_eq]
  unfold returnedMeant returned
  split <;> simp [ofObj, ofNamed, ofVariable, hne]

theorem mem_argumentReading_names {arg : Decl} : m ∈ (argumentReading arg).names ↔
    m ∈ [ofObj arg.id, ofNamed arg.id, ofVariable "req", ofVariable "succeeded"] ∨
      arg.type.list = true ∧ m = loopFlag arg.type (ofVariable "succeeded") := by
  cases hlist : arg.type.list with
  | false =>
    simp [Reading.names, argumentReading, hlist]
    tauto
  | true =>
    simp [Reading.names, argumentReading, hlist]
    tauto

section Case

variable (hnodup : method.caseNames.Nodup)

include hnodup

theorem seen_case_ofVariable_iff (name : String) (hname : ofVariable name ∈ handleReqNames) :
    Seen [extend .empty (caseMeant method), extend .empty handleReqNames, extend .empty []] (ofVariable name) ↔
      name ∉ method.caseNames := by
  have hne : name ≠ "rval" := by
    rintro rfl
    exact absurd hname (by decide)
  have hnot : ofVariable name ∉ caseMeant method := not_mem_caseMeant rfl hne
  rw [seen_case_iff hnodup, or_iff_right hnot]
  exact and_iff_left hname

/-- The flag of a loop over elements of a builtin type is one that there is not. -/
theorem seen_case_loopFlag_iff {t : TypeRef} :
    Seen [extend .empty (caseMeant method), extend .empty handleReqNames, extend .empty []]
      (loopFlag t (ofVariable "succeeded")) ↔ t.scope ≠ none ∧ "succeeded" ∉ method.caseNames := by
  unfold loopFlag
  cases t.scope with
  | none =>
    have hnot : ("suc", (ofVariable "succeeded").2) ∉ caseMeant method := not_mem_caseMeant rfl (by decide)
    change Seen _ ("suc", (ofVariable "succeeded").2) ↔ _
    rw [seen_case_iff hnodup, or_iff_right hnot]
    simp [handleReqNames, ofVariable]
  | some scope =>
    rw [seen_case_ofVariable_iff hnodup "succeeded" (by decide)]
    simp

/-- The code that reads an argument sees its names where none is hidden and no loop needs a flag. -/
theorem seen_argument_iff {arg : Decl} (harg : arg ∈ method.args) :
    (∀ m ∈ (argumentReading arg).names,
        Seen [extend .empty (caseMeant method), extend .empty handleReqNames, extend .empty []] m) ↔
      ("req" ∉ method.caseNames ∧ "succeeded" ∉ method.caseNames) ∧ (arg.type.list = true → arg.type.scope ≠ none) := by
  have hown : ∀ m ∈ [ofObj arg.id, ofNamed arg.id], m ∈ caseMeant method := by
    intro m hm
    rw [caseMeant_eq]
    exact List.mem_append_left _ (List.mem_flatMap.mpr ⟨arg, harg, hm⟩)
  have hobj := (seen_case_iff hnodup).mpr (Or.inl (hown (ofObj arg.id) (by simp)))
  have hnamed := (seen_case_iff hnodup).mpr (Or.inl (hown (ofNamed arg.id) (by simp)))
  have hreq := seen_case_ofVariable_iff hnodup "req" (by decide)
  have hsucceeded := seen_case_ofVariable_iff hnodup "succeeded" (by decide)
  have hflag := seen_case_loopFlag_iff hnodup (t := arg.type)
  simp only [mem_argumentReading_names]
  constructor
  · intro h
    have hshown := hsucceeded.mp (h _ (Or.inl (by simp)))
    exact ⟨⟨hreq.mp (h _ (Or.inl (by simp))), hshown⟩, fun hlist => (hflag.mp (h _ (Or.inr ⟨hlist, rfl⟩))).1⟩
  · rintro ⟨⟨hreq', hshown⟩, hscope⟩ m (hm | ⟨hlist, rfl⟩)
    · simp only [List.mem_cons, List.not_mem_nil, or_false] at hm
      rcases hm with rfl | rfl | rfl | rfl
      · exact hobj
      · exact hnamed
      · exact hreq.mpr hreq'
      · exact hsucceeded.mpr hshown
    · exact hflag.mpr ⟨hscope hlist, hshown⟩

theorem room_case_iff : Room (extend .empty (caseMeant method)) ↔
    "it" ∉ method.caseNames ∧ "uEl" ∉ method.caseNames := by
  have hfst : ((caseMeant method).map Prod.fst).Nodup := caseMeant_fst method ▸ hnodup
  rw [Room, extend_empty_eq_none_iff hfst, extend_empty_eq_none_iff hfst, caseMeant_fst]

end Case

/-- Outside a case, nothing has the name of a variable of its loops. -/
theorem case_apart (hm : ∀ name ∈ ["it", "uEl", "outEl"], m.2 ≠ .variable name) :
    Apart [extend .empty handleReqNames, extend .empty []] m where
  entity := hm
  shown := by
    intro hname hseen
    rw [seen_function_iff (by decide) (by simp)] at hseen
    simp only [handleReqNames, ofVariable, List.mem_cons, List.not_mem_nil, or_false, and_false] at hname hseen
    rcases hseen with rfl | rfl | rfl | rfl <;> simp at hname

theorem argumentReading_shown_iff {arg : Decl} : (argumentReading arg).Shown ↔ arg.id ≠ "outEl" := by
  have hflag : (loopFlag arg.type (ofVariable "succeeded")).1 ≠ "outEl" := by
    unfold loopFlag
    split <;> simp [ofVariable]
  exact and_iff_right hflag

/-- What a case does once it has read its arguments, but for what it takes from the header. -/
def ownCaseCall (method : Method) : List (Item String Entity) :=
  uses ([ofVariable "succeeded", ofVariable "vt", ofVariable "req"] ++ returnedMeant method "rval" ++
      method.args.map fun arg => ofNamed arg.id) ++
    if method.retType.isVoid then []
    else
      uses [ofVariable "succeeded", ofVariable "req"] ++
        ownSerialiseInto method.retType (ofVariable "rval") (ofVariable "req")

theorem scoped_ownCaseCall {block : Block String Entity} :
    Scoped (block :: outer) (ownCaseCall method ++ .leave :: rest) ↔
      (∀ m ∈ [ofVariable "succeeded", ofVariable "vt", ofVariable "req"] ++ returnedMeant method "rval" ++
        method.args.map fun arg => ofNamed arg.id, Seen (block :: outer) m) ∧ Scoped outer rest := by
  unfold ownCaseCall
  rw [List.append_assoc, scoped_uses_append]
  refine and_congr_right fun hseen => ?_
  cases hvoid : method.retType.isVoid with
  | true => simp [scoped_leave]
  | false =>
    have hreq := hseen (ofVariable "req") (by simp)
    have hsucceeded := hseen (ofVariable "succeeded") (by simp)
    have hrval := hseen (ofVariable "rval") (by simp [returnedMeant, returned, hvoid])
    have hinto : (ofVariable "req").1 ≠ (ofVariable "rval").1 := by decide
    have hpair : ∀ m ∈ [ofVariable "succeeded", ofVariable "req"], Seen (block :: outer) m := by
      simpa using And.intro hsucceeded hreq
    rw [if_neg (by simp), List.append_assoc, scoped_uses_append, scoped_ownSerialiseInto hinto, scoped_leave]
    rw [and_iff_right hpair, and_iff_right ⟨hreq, hrval⟩]

/-- The elements of the method's lists are of types that the IDL defines. -/
def ListsDefined (method : Method) : Prop :=
  ∀ arg ∈ method.args, arg.type.list = true → arg.type.scope ≠ none

theorem argumentReading_apart {arg : Decl} :
    ∀ m ∈ (argumentReading arg).names, Apart [extend .empty handleReqNames, extend .empty []] m := by
  intro m hm
  have hflag : (loopFlag arg.type (ofVariable "succeeded")).2 = .variable "succeeded" := by
    unfold loopFlag
    split <;> rfl
  refine case_apart ?_
  rcases mem_argumentReading_names.mp hm with hm | ⟨_, rfl⟩
  · simp only [List.mem_cons, List.not_mem_nil, or_false] at hm
    rcases hm with rfl | rfl | rfl | rfl <;> simp [ofObj, ofNamed, ofVariable]
  · rw [hflag]
    simp

/-- The call sees its names if none of them is hidden in the case. -/
theorem seen_call_iff {looped : Bool} (hnodup : method.caseNames.Nodup)
    (hroom : looped = true → Room (extend .empty (caseMeant method))) :
    (∀ m ∈ [ofVariable "succeeded", ofVariable "vt", ofVariable "req"] ++ returnedMeant method "rval" ++
        method.args.map fun arg => ofNamed arg.id,
      Seen [loopBlock (extend .empty (caseMeant method)) looped, extend .empty handleReqNames, extend .empty []] m) ↔
      ∀ name ∈ ["req", "vt", "succeeded"], name ∉ method.caseNames := by
  have hown : ∀ m ∈ returnedMeant method "rval" ++ method.args.map (fun arg => ofNamed arg.id),
      m ∈ caseMeant method := by
    intro m hm
    rw [caseMeant_eq]
    rcases List.mem_append.mp hm with hm | hm
    · exact List.mem_append_right _ hm
    · obtain ⟨arg, harg, rfl⟩ := List.mem_map.mp hm
      exact List.mem_append_left _ (List.mem_flatMap.mpr ⟨arg, harg, by simp⟩)
  have hentity : ∀ m ∈ returnedMeant method "rval" ++ method.args.map (fun arg => ofNamed arg.id),
      ∀ name ∈ ["it", "uEl", "outEl"], m.2 ≠ .variable name := by
    intro m hm
    unfold returnedMeant returned at hm
    split at hm <;> simp only [List.map_nil, List.map_cons, List.mem_append, List.mem_map, List.not_mem_nil, false_or,
      List.mem_singleton] at hm
    · obtain ⟨arg, _, rfl⟩ := hm
      simp [ofNamed]
    · rcases hm with rfl | ⟨arg, _, rfl⟩
      · simp [ofVariable]
      · simp [ofNamed]
  have hvariable : ∀ name, ofVariable name ∈ handleReqNames →
      (Seen [loopBlock (extend .empty (caseMeant method)) looped, extend .empty handleReqNames, extend .empty []]
        (ofVariable name) ↔ name ∉ method.caseNames) := by
    intro name hname
    have hapart : Apart [extend .empty handleReqNames, extend .empty []] (ofVariable name) := by
      refine case_apart ?_
      simp only [handleReqNames, ofVariable, List.mem_cons, List.not_mem_nil, or_false, Prod.mk.injEq] at hname
      rcases hname with ⟨rfl, _⟩ | ⟨rfl, _⟩ | ⟨rfl, _⟩ | ⟨rfl, _⟩ <;> simp [ofVariable]
    rw [seen_loopBlock hroom hapart, seen_case_ofVariable_iff hnodup name hname]
  rw [List.append_assoc, List.forall_mem_append]
  have hrest : ∀ m ∈ returnedMeant method "rval" ++ method.args.map (fun arg => ofNamed arg.id),
      Seen [loopBlock (extend .empty (caseMeant method)) looped, extend .empty handleReqNames, extend .empty []] m := by
    intro m hm
    rw [seen_loopBlock hroom (case_apart (hentity m hm)), seen_case_iff hnodup]
    exact Or.inl (hown m hm)
  rw [and_iff_left hrest]
  simp only [List.forall_mem_cons, List.not_mem_nil, false_implies, implies_true, and_true,
    hvariable "succeeded" (by decide), hvariable "vt" (by decide), hvariable "req" (by decide)]
  tauto

/-- What `genServerImplCase` makes of a method, but for what it takes from the header. -/
def ownServerCase (method : Method) : List (Item String Entity) :=
  uses [ofVariable "req"] ++
    .enter :: (declares (caseMeant method) ++ (method.args.flatMap (fun arg => (argumentReading arg).items) ++
      (ownCaseCall method ++ [.leave])))

theorem own_caseArgument (arg : Decl) :
    (caseArgument arg).filter (Item.own Entity.foreign) = (argumentReading arg).items := by
  have hread := own_genDeserialiseInto (t := arg.type) (ofVariable_own "succeeded") (ofObj_own arg.id)
      (ofNamed_own arg.id)
  simp only [caseArgument, List.filter_append, own_needs, hread, filter_own_uses, List.nil_append]
  rfl

/-- The call of a case without what it takes from around it. -/
theorem own_caseCall : (caseCall method).filter (Item.own Entity.foreign) = ownCaseCall method := by
  have hinto := own_genSerialiseInto (t := method.retType) (ofVariable_own "rval") (ofVariable_own "req")
  have hreturned : ∀ m ∈ [ofVariable "succeeded", ofVariable "vt", ofVariable "req"] ++ returnedMeant method "rval",
      m.2.foreign = false := by
    unfold returnedMeant returned
    split <;> simp
  have hargs : (method.args.flatMap fun arg => needs [ofHeader "std::"] ++ uses [ofNamed arg.id]).filter
      (Item.own Entity.foreign) = uses (method.args.map fun arg => ofNamed arg.id) := by
    rw [List.filter_flatMap, List.map_eq_flatMap, ← uses_flatMap]
    refine List.flatMap_congr fun arg _ => ?_
    rw [List.filter_append, own_needs, filter_own_uses_own (by simp), List.nil_append]
  have hresult : (if method.retType.isVoid then [] else uses [ofVariable "succeeded", ofVariable "req"] ++
      genSerialiseInto method.retType (ofVariable "rval") (ofVariable "req")).filter (Item.own Entity.foreign) =
        if method.retType.isVoid then [] else uses [ofVariable "succeeded", ofVariable "req"] ++
          ownSerialiseInto method.retType (ofVariable "rval") (ofVariable "req") := by
    split
    · rfl
    · rw [List.filter_append, hinto]
      rfl
  rw [caseCall, List.filter_append, List.filter_append, hargs, hresult, ← returnedMeant, filter_own_uses_own hreturned,
    ← List.append_assoc]
  simp [ownCaseCall, uses]

theorem own_serverCase : (serverCase method).filter (Item.own Entity.foreign) = ownServerCase method := by
  have hreq : (uses [ofVariable "req"]).filter (Item.own Entity.foreign) = uses [ofVariable "req"] := rfl
  simp only [serverCase, List.filter_append, filter_own_enter, own_declarations, List.filter_flatMap, own_caseArgument,
    own_caseCall, hreq]
  rfl

/-- A case is well-scoped exactly if its names go together and no list has builtin elements. -/
theorem scoped_ownServerCase : Scoped [extend .empty handleReqNames, extend .empty []] (ownServerCase method ++ rest) ↔
    (method.ServerScoped ∧ ListsDefined method) ∧ Scoped [extend .empty handleReqNames, extend .empty []] rest := by
  have hreq : ∀ m ∈ [ofVariable "req"], Seen [extend .empty handleReqNames, extend .empty []] m := by
    intro m hm
    obtain rfl := List.mem_singleton.mp hm
    rfl
  have hitems : ownServerCase method ++ rest = uses [ofVariable "req"] ++ .enter :: (declares (caseMeant method) ++
      (method.args.flatMap (fun arg => (argumentReading arg).items) ++ (ownCaseCall method ++ .leave :: rest))) := by
    simp only [ownServerCase, List.append_assoc, List.cons_append, List.nil_append]
  rw [hitems, scoped_uses_append, scoped_enter, scoped_declares_append, caseMeant_fst,
    scoped_declReadings (fun _ => rfl) method.args (fun arg _ => argumentReading_apart), scoped_ownCaseCall]
  constructor
  · intro ⟨_, hnodup, _, hseen, hloop, hlists, hcall, hrest⟩
    have hroom : (method.args.any fun arg => arg.type.list) = true → Room (extend .empty (caseMeant method)) := by
      intro hany
      obtain ⟨arg, harg, hlist⟩ := List.any_eq_true.mp hany
      exact (hloop arg harg hlist).1
    have hdefined : ListsDefined method := fun arg harg => ((seen_argument_iff hnodup harg).mp (hseen arg harg)).2
    refine ⟨⟨⟨hnodup, (seen_call_iff hnodup hroom).mp hcall, hlists, ?_, ?_, ?_⟩, hdefined⟩, hrest⟩
    · intro ⟨arg, harg, hlist⟩
      exact (room_case_iff hnodup).mp (hloop arg harg hlist).1
    · intro arg harg hlist hscope
      exact absurd hscope (hdefined arg harg hlist)
    · intro arg harg hlist
      exact argumentReading_shown_iff.mp (hloop arg harg hlist).2
  · intro ⟨⟨hscoped, hdefined⟩, hrest⟩
    have hapart := hscoped.apart
    have hroom : ∀ arg ∈ method.args, arg.type.list = true → Room (extend .empty (caseMeant method)) :=
      fun arg harg hlist => (room_case_iff hscoped.nodup).mpr (hscoped.loop ⟨arg, harg, hlist⟩)
    refine ⟨hreq, hscoped.nodup, fun _ _ => rfl, ?_, ?_, hscoped.lists, ?_, hrest⟩
    · intro arg harg
      rw [seen_argument_iff hscoped.nodup harg]
      exact ⟨⟨hapart "req" (by simp), hapart "succeeded" (by simp)⟩, hdefined arg harg⟩
    · intro arg harg hlist
      exact ⟨hroom arg harg hlist, argumentReading_shown_iff.mpr (hscoped.element arg harg hlist)⟩
    · refine (seen_call_iff hscoped.nodup fun hany => ?_).mpr hapart
      obtain ⟨arg, harg, hlist⟩ := List.any_eq_true.mp hany
      exact hroom arg harg hlist

theorem own_handleReqBody (unit : Site) : ((p.handleReqBody unit).own Entity.foreign).items =
    declares handleReqNames ++ (uses [ofVariable "baseVt"] ++
      (p.methods.flatMap ownServerCase ++ uses [ofVariable "succeeded"])) := by
  have hbase : (uses [ofVariable "baseVt"]).filter (Item.own Entity.foreign) = uses [ofVariable "baseVt"] := rfl
  have hend : (uses [ofVariable "succeeded"]).filter (Item.own Entity.foreign) = uses [ofVariable "succeeded"] := rfl
  simp only [Body.own, Program.handleReqBody, List.filter_append, own_declarations, List.filter_flatMap, own_serverCase,
    hbase, hend]
  rfl

/-- The cases stand in blocks of their own, one after the other. -/
theorem own_handleReqBody_iff (unit : Site) : ((p.handleReqBody unit).own Entity.foreign).WellScoped ↔
    ∀ m ∈ p.methods, m.ServerScoped ∧ ListsDefined m := by
  have hbase : ∀ m ∈ [ofVariable "baseVt"], Seen [extend .empty handleReqNames, extend .empty []] m := by
    intro m hm
    obtain rfl := List.mem_singleton.mp hm
    rfl
  have hend : ∀ m ∈ [ofVariable "succeeded"], Seen [extend .empty handleReqNames, extend .empty []] m := by
    intro m hm
    obtain rfl := List.mem_singleton.mp hm
    rfl
  have hscoped : Scoped [.empty, extend .empty []] ((p.handleReqBody unit).own Entity.foreign).items ↔
      ∀ m ∈ p.methods, m.ServerScoped ∧ ListsDefined m := by
    rw [own_handleReqBody, scoped_declares_append, scoped_uses_append,
      scoped_flatMap_append fun m rest => scoped_ownServerCase, scoped_uses]
    constructor
    · intro ⟨_, _, _, hcases, _⟩
      exact hcases
    · intro hcases
      exact ⟨by decide, fun _ _ => rfl, hbase, hcases, hend⟩
  constructor
  · intro h
    exact hscoped.mp h.names
  · intro h
    exact ⟨List.nodup_nil, hscoped.mpr h⟩

theorem declaredAfterReads_append (before outer : List String) (types : List TypeRef) :
    declaredAfterReads before types ++ outer = declaredAfterReads (before ++ outer) types := by
  induction types generalizing before with
  | nil => rfl
  | cons t types ih =>
    have hcons : ∀ before, declaredAfterReads before (t :: types) = declaredAfterReads (t.loopNames ++ before) types :=
      fun _ => rfl
    rw [hcons, hcons, ih, List.append_assoc]

theorem namesOf_caseDeclared : namesOf (caseDeclared method) = method.caseDeclarations := by
  rw [caseDeclared, namesOf_append, namesOf_returned]
  simp [namesOf, Method.caseDeclarations, ofObj, ofNamed, List.map_flatMap]

theorem namesOf_handleReqDeclared : namesOf handleReqDeclared = Method.handleReqDeclarations :=
  rfl

theorem caseDeclared_own : ∀ d ∈ caseDeclared method, d.2.2.foreign = false := by
  intro d hd
  rw [caseDeclared, List.mem_append, List.mem_flatMap] at hd
  rcases hd with ⟨arg, _, hd⟩ | hd
  · rcases List.mem_pair.mp hd with rfl | rfl <;> rfl
  · exact returned_own "rval" d hd

theorem inside_caseCall_append {depth : Nat} :
    Inside Entity.foreign depth (caseCall method ++ rest) ↔ Inside Entity.foreign depth rest := by
  have hargs (items : List (Item String Entity)) : Inside Entity.foreign depth
      ((method.args.flatMap fun arg => needs [ofHeader "std::"] ++ uses [ofNamed arg.id]) ++ items) ↔
        Inside Entity.foreign depth items := inside_flatMap_append (fun arg items => by simp) method.args
  unfold caseCall
  cases method.retType.isVoid with
  | true => simp [hargs]
  | false => simp [hargs]

theorem inside_serverCase_append {depth : Nat} :
    Inside Entity.foreign depth (serverCase method ++ rest) ↔ Inside Entity.foreign depth rest := by
  have hargs (items : List (Item String Entity)) : Inside Entity.foreign (depth + 1)
      (method.args.flatMap caseArgument ++ items) ↔ Inside Entity.foreign (depth + 1) items :=
    inside_flatMap_append (fun arg items => by simp [caseArgument]) method.args
  have hitems : serverCase method ++ rest = uses [ofVariable "req"] ++ .enter :: (declarations (caseDeclared method) ++
      (method.args.flatMap caseArgument ++ (caseCall method ++ .leave :: rest))) := by
    simp only [serverCase, List.append_assoc, List.cons_append, List.nil_append]
  rw [hitems, inside_uses_append, inside_enter, inside_declarations_append, and_iff_right caseDeclared_own, hargs,
    inside_caseCall_append, inside_leave]

theorem taken_caseArguments_append (first : List String) (outer : List (List String)) :
    taken Entity.foreign (first :: outer) (method.args.flatMap caseArgument ++ rest) =
      (readBorrows [ofHeader "ucl_object_lookup", ofHeader "WSRPCError::"] [ofHeader "WSRPCError::"]
        (first ++ outer.flatten) (method.args.map Decl.type)).map use ++
          taken Entity.foreign (declaredAfterReads first (method.args.map Decl.type) :: outer) rest := by
  have hargument : caseArgument = fun arg => (uses [ofObj arg.id] ++
      (needs [ofHeader "ucl_object_lookup", ofHeader "WSRPCError::"] ++ uses [ofVariable "req", ofVariable "req"])) ++
        (genDeserialiseInto arg.type (ofVariable "succeeded") (ofObj arg.id) (ofNamed arg.id) ++
          (needs [ofHeader "WSRPCError::"] ++ uses [ofVariable "succeeded", ofVariable "req"])) := by
    funext arg
    simp only [caseArgument, List.append_assoc]
  rw [hargument]
  refine taken_reads_append (fun _ => ofVariable_own "succeeded") (fun arg => ofObj_own arg.id)
    (fun arg => ofNamed_own arg.id) ?_ ?_ method.args
  · intro arg declared items
    simp
  · intro arg declared items
    simp

/-- What the call of a case takes from around it. -/
theorem taken_caseCall_append (declared : List (List String)) :
    taken Entity.foreign declared (caseCall method ++ rest) =
    ((method.args.flatMap fun _ => borrow declared.flatten [ofHeader "std::"]) ++
      if method.retType.isVoid then [] else method.retType.serialiseBorrows declared.flatten "rval").map use ++
        taken Entity.foreign declared rest := by
  have hcall (items : List (Item String Entity)) : taken Entity.foreign declared
      (uses ([ofVariable "succeeded", ofVariable "vt", ofVariable "req"] ++ (returned method "rval").map Prod.snd) ++
        items) = taken Entity.foreign declared items := by
    refine taken_own_uses_append (fun m hm => ?_) declared
    rw [List.mem_append, List.mem_map] at hm
    rcases hm with hm | ⟨d, hd, rfl⟩
    · simp only [List.mem_cons, List.not_mem_nil, or_false] at hm
      rcases hm with rfl | rfl | rfl <;> rfl
    · exact returned_own "rval" d hd
  have hargs (items : List (Item String Entity)) : taken Entity.foreign declared
      ((method.args.flatMap fun arg => needs [ofHeader "std::"] ++ uses [ofNamed arg.id]) ++ items) =
        (method.args.flatMap fun _ => borrow declared.flatten [ofHeader "std::"]).map use ++
          taken Entity.foreign declared items := by
    rw [List.map_flatMap]
    exact taken_flatMap_append (fun arg items => by simp) method.args
  rw [caseCall, List.append_assoc, hcall, List.append_assoc, hargs, List.map_append, List.append_assoc]
  refine congrArg _ ?_
  cases method.retType.isVoid with
  | true => rfl
  | false =>
    have hresult (items : List (Item String Entity)) : taken Entity.foreign declared
        (uses [ofVariable "succeeded", ofVariable "req"] ++ items) = taken Entity.foreign declared items := rfl
    rw [if_neg (by simp), if_neg (by simp), List.append_assoc, hresult]
    exact taken_genSerialiseInto_append (ofVariable_own "rval") (ofVariable_own "req")

theorem taken_serverCase_append : taken Entity.foreign [declaredAfter [] Method.handleReqDeclarations, []]
    (serverCase method ++ rest) =
      method.caseBorrows.map use ++ taken Entity.foreign [declaredAfter [] Method.handleReqDeclarations, []] rest := by
  have hreq (declared : List (List String)) (items : List (Item String Entity)) : taken Entity.foreign declared
      (uses [ofVariable "req"] ++ items) = taken Entity.foreign declared items := rfl
  simp only [serverCase, List.append_assoc, List.cons_append, List.nil_append, hreq, taken_enter,
    taken_declarations_append, namesOf_caseDeclared, taken_caseArguments_append, taken_caseCall_append, taken_leave,
    List.flatten_cons, List.flatten_nil, List.append_nil, declaredAfter_append, declaredAfterReads_append,
    Method.caseBorrows, List.map_append]

/-- The dispatcher of a program: its own names, and those that it takes. -/
theorem handleReqBody_wellScoped_iff {unit : Site} (houter : Around Entity.foreign (p.serverSite unit).outer) :
    (p.handleReqBody unit).WellScoped ↔ (∀ m ∈ p.methods, m.ServerScoped ∧ ListsDefined m) ∧
      ∀ x ∈ declarationBorrows [] Method.handleReqDeclarations ++ p.methods.flatMap Method.caseBorrows,
        x.Met (knownIn (p.serverSite unit).outer) := by
  have hcases (depth : Nat) (items : List (Item String Entity)) : Inside Entity.foreign depth
      (p.methods.flatMap serverCase ++ items) ↔ Inside Entity.foreign depth items :=
    inside_flatMap_append (fun _ _ => inside_serverCase_append) p.methods
  have hinside : Inside Entity.foreign 1 (p.handleReqBody unit).items := by
    refine inside_declarations_append.mpr ⟨by simp [handleReqDeclared], (inside_uses_append _).mpr ?_⟩
    exact (hcases 1 _).mpr (inside_uses _)
  have hbase (declared : List (List String)) (items : List (Item String Entity)) : taken Entity.foreign declared
      (uses [ofVariable "baseVt"] ++ items) = taken Entity.foreign declared items := rfl
  have hend (declared : List (List String)) : taken Entity.foreign declared (uses [ofVariable "succeeded"]) = [] := rfl
  have htakenCases (items : List (Item String Entity)) : taken Entity.foreign
      [declaredAfter [] Method.handleReqDeclarations, []] (p.methods.flatMap serverCase ++ items) =
        (p.methods.flatMap Method.caseBorrows).map use ++
          taken Entity.foreign [declaredAfter [] Method.handleReqDeclarations, []] items := by
    rw [List.map_flatMap]
    exact taken_flatMap_append (fun _ _ => taken_serverCase_append) p.methods
  have htaken : taken Entity.foreign [[], []] (p.handleReqBody unit).items =
      (declarationBorrows [] Method.handleReqDeclarations ++ p.methods.flatMap Method.caseBorrows).map use := by
    simp only [Program.handleReqBody, taken_declarations_append, namesOf_handleReqDeclared, hbase, htakenCases, hend,
      List.flatten_cons, List.flatten_nil, List.append_nil, List.map_append]
  rw [wellScoped_iff_supplied (by simp [Program.handleReqBody]) hinside houter htaken, own_handleReqBody_iff]
  rfl

end ServiceManager.Wsrpcgen.Idl
