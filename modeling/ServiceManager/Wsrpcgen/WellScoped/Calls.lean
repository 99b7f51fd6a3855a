import ServiceManager.Wsrpcgen.Deliver
import ServiceManager.Wsrpcgen.WellScoped.Templates

namespace ServiceManager.Wsrpcgen.Idl

open Scoping

variable {blocks outer : List (Block String Entity)} {rest : List (Item String Entity)} {m : Meant} {method : Method}

/-- The variable for what a method returns. -/
def returnedMeant (method : Method) (rval : String) : List Meant :=
  (returned method rval).map Prod.snd

theorem returnedMeant_fst (rval : String) :
    (returnedMeant method rval).map Prod.fst = if method.retType.isVoid then [] else [rval] := by
  unfold returnedMeant returned
  split <;> rfl

theorem namesOf_append (ds ds' : List (List Needed × Meant)) : namesOf (ds ++ ds') = namesOf ds ++ namesOf ds' :=
  List.map_append

theorem namesOf_returned (rval : String) : namesOf (returned method rval) = method.returnedDeclaration rval := by
  unfold returned Method.returnedDeclaration
  split <;> rfl

theorem namesOf_arguments : namesOf (arguments method) = method.argumentDeclarations := by
  simp [namesOf, arguments, Method.argumentDeclarations, ofNamed]

section Own

/-- What becomes of a result, but for what it takes from the header. -/
def ownClientResult (method : Method) (err : String) : List (Item String Entity) :=
  .enter :: (declares [ofVariable "suc"] ++
    (ownDeserialiseInto method.retType (ofVariable "suc") (ofVariable "comp") (ofVariable "rval") ++
      (uses [ofVariable "suc", ofVariable err, ofVariable err] ++ [.leave])))

/-- The block for a result has names of its own only. -/
theorem scoped_ownClientResult {err : String} (herr : err ∈ ["werr", "comp"])
    (hseen : ∀ name ∈ ["comp", "rval", err], Seen blocks (ofVariable name)) :
    Scoped blocks (ownClientResult method err ++ rest) ↔ Scoped blocks rest := by
  have hfixed : ∀ name ∈ ["comp", "rval", err], name ≠ "suc" ∧ name ∉ ["it", "uEl", "outEl"] := by
    rcases List.mem_pair.mp herr with rfl | rfl
    · decide
    · decide
  let r : Reading :=
    { before := []
      type := method.retType
      suc := ofVariable "suc"
      uIn := ofVariable "comp"
      out := ofVariable "rval"
      behind := [ofVariable "suc", ofVariable err, ofVariable err] }
  have hnames : ∀ m ∈ r.names, m = ofVariable "suc" ∨ ∃ name ∈ ["comp", "rval", err], ofVariable name = m := by
    intro m hm
    have hm := mem_names_of_suc hm
    simp only [List.nil_append, List.mem_cons, List.not_mem_nil, or_false] at hm
    rcases hm with rfl | rfl | rfl | rfl | rfl | rfl
    all_goals simp
  have hseenIn : ∀ m ∈ r.names, Seen (extend .empty [ofVariable "suc"] :: blocks) m := by
    intro m hm
    rcases hnames m hm with rfl | ⟨name, hname, rfl⟩
    · exact seen_single_self
    · have hne : ofVariable name ≠ ofVariable "suc" := fun heq => (hfixed name hname).1 (congrArg Prod.fst heq)
      exact (seen_single_of_ne hne).mpr ⟨(hfixed name hname).1, hseen name hname⟩
  have hapart : ∀ m ∈ r.names, Apart blocks m := by
    intro m hm
    rcases hnames m hm with rfl | ⟨name, hname, rfl⟩
    · exact apart_ofVariable (by decide)
    · exact apart_ofVariable (hfixed name hname).2
  have hshown : r.Shown := by
    rw [Reading.Shown, loopFlag_suc]
    simp [ofVariable, r]
  have hitems : ownClientResult method err ++ rest =
      .enter :: (declares [ofVariable "suc"] ++ (r.items ++ .leave :: rest)) := by
    simp [ownClientResult, Reading.items, r, uses]
  rw [hitems, scoped_enter, scoped_declares_append, scoped_reading hapart ⟨rfl, rfl⟩ hshown hseenIn, scoped_leave]
  simp [Block.empty]

theorem arguments_fst (args : List Decl) : (args.map fun arg => ofNamed arg.id).map Prod.fst = args.map Decl.id := by
  rw [List.map_map]
  rfl

theorem mem_arguments {arg : Decl} (harg : arg ∈ method.args) :
    ofNamed arg.id ∈ method.args.map (fun arg => ofNamed arg.id) ∧ ofObject arg.id ∈ method.args.map fun arg =>
      ofObject arg.id :=
  ⟨List.mem_map_of_mem harg, List.mem_map_of_mem harg⟩

/-- A function outside any class sees what it declares. -/
theorem seen_of_mem {names : List Meant} (hnodup : (names.map Prod.fst).Nodup) (hm : m ∈ names) :
    Seen [extend .empty names, extend .empty []] m := by
  refine (seen_function_iff hnodup ?_).mpr (Or.inl hm)
  simp

theorem seen_variables {names : List Meant} (hnodup : (names.map Prod.fst).Nodup) (used : List String)
    (hused : ∀ name ∈ used, ofVariable name ∈ names) :
    ∀ m ∈ used.map ofVariable, Seen [extend .empty names, extend .empty []] m := by
  intro m hm
  obtain ⟨name, hname, rfl⟩ := List.mem_map.mp hm
  exact seen_of_mem hnodup (hused name hname)

/-- What `genClientCallCommon` does with the arguments, but for what it takes from the header
and what it declares. -/
def ownClientCommon (method : Method) : List (Item String Entity) :=
  (method.args.flatMap fun arg => ownSerialiseInto arg.type (ofNamed arg.id) (ofObject arg.id)) ++
    uses (method.args.flatMap fun arg => [ofVariable "params", ofObject arg.id])

theorem scoped_ownClientCommon {names : List Meant} (hnodup : (names.map Prod.fst).Nodup)
    (harguments : ∀ arg ∈ method.args, ofNamed arg.id ∈ names ∧ ofObject arg.id ∈ names)
    (hparams : ofVariable "params" ∈ names) :
    Scoped [extend .empty names, extend .empty []] (ownClientCommon method ++ rest) ↔
      Scoped [extend .empty names, extend .empty []] rest := by
  have hinto : ∀ arg ∈ method.args, Seen [extend .empty names, extend .empty []] (ofObject arg.id) ∧
      Seen [extend .empty names, extend .empty []] (ofNamed arg.id) :=
    fun arg harg => ⟨seen_of_mem hnodup (harguments arg harg).2, seen_of_mem hnodup (harguments arg harg).1⟩
  have hinsert : ∀ m ∈ method.args.flatMap fun arg => [ofVariable "params", ofObject arg.id],
      Seen [extend .empty names, extend .empty []] m := by
    intro m hm
    obtain ⟨arg, harg, hm⟩ := List.mem_flatMap.mp hm
    rcases List.mem_pair.mp hm with rfl | rfl
    · exact seen_of_mem hnodup hparams
    · exact (hinto arg harg).1
  rw [ownClientCommon, List.append_assoc,
    scoped_flatMap_append fun arg rest => scoped_ownSerialiseInto (u_append_ne arg.id), scoped_uses_append]
  exact (and_iff_right hinto).trans (and_iff_right hinsert)

/-- A function outside any class that sees its names wherever it declares each of them
once. -/
theorem wellScoped_iff_nodup {names : List Meant}
    (h : (names.map Prod.fst).Nodup → Scoped [extend .empty names, extend .empty []] rest) :
    (Body.mk [] (declares names ++ rest) []).WellScoped ↔ (names.map Prod.fst).Nodup := by
  constructor
  · intro hscoped
    exact (scoped_declares_append.mp hscoped.names).1
  · intro hnodup
    exact ⟨List.nodup_nil, scoped_declares_append.mpr ⟨hnodup, fun _ _ => rfl, h hnodup⟩⟩

theorem declares_append_append (names names' : List Meant) (rest : List (Item String Entity)) :
    declares names ++ (declares names' ++ rest) = declares (names ++ names') ++ rest := by
  simp [declares]

theorem own_ofVariables (names : List String) :
    (uses (names.map ofVariable)).filter (Item.own Entity.foreign) = uses (names.map ofVariable) := by
  refine filter_own_uses_own fun m hm => ?_
  obtain ⟨name, _, rfl⟩ := List.mem_map.mp hm
  rfl

theorem own_clientResult (err : String) :
    (clientResult method err).filter (Item.own Entity.foreign) = ownClientResult method err := by
  have hread := own_genDeserialiseInto (t := method.retType) (ofVariable_own "suc") (ofVariable_own "comp")
    (ofVariable_own "rval")
  have hend : (uses [ofVariable "suc", ofVariable err, ofVariable err]).filter (Item.own Entity.foreign) =
      uses [ofVariable "suc", ofVariable err, ofVariable err] := rfl
  simp only [clientResult, filter_own_enter, List.filter_append, filter_own_declares, hread, own_needs, hend,
    List.nil_append]
  rfl

/-- What the synchronous call declares. -/
def callMeant (method : Method) : List Meant :=
  ofVariable "xprt" :: (returnedMeant method "rval" ++ (method.args.map (fun arg => ofNamed arg.id) ++
    (ofVariable "werr" :: ofVariable "comp" :: ofVariable "params" :: method.args.map fun arg => ofObject arg.id)))

/-- Without what it takes from around it, a stub is its declarations and their uses. -/
theorem own_clientCallBody : ((clientCallBody method outer).own Entity.foreign).items =
    declares (callMeant method) ++ (ownClientCommon method ++
      (uses (["comp", "xprt", "params", "comp"].map ofVariable) ++
        ((if method.retType.isVoid then []
          else uses (["comp", "rval"].map ofVariable) ++ ownClientResult method "werr") ++
            uses (["werr", "comp", "comp", "werr"].map ofVariable)))) := by
  have hresult : (if method.retType.isVoid then [] else uses [ofVariable "comp", ofVariable "rval"] ++
      clientResult method "werr").filter (Item.own Entity.foreign) =
        if method.retType.isVoid then []
        else uses (["comp", "rval"].map ofVariable) ++ ownClientResult method "werr" := by
    split
    · rfl
    · rw [List.filter_append, own_clientResult]
      rfl
  have hnames : (callDeclared method).map Prod.snd ++
      (ofVariable "params" :: method.args.map fun arg => ofObject arg.id) =
      callMeant method := by
    simp [callDeclared, callMeant, returnedMeant, arguments, Function.comp_def]
  have hcall := own_ofVariables ["comp", "xprt", "params", "comp"]
  have hend := own_ofVariables ["werr", "comp", "comp", "werr"]
  simp only [List.map_cons, List.map_nil] at hcall hend
  simp only [Body.own, clientCallBody, List.filter_append, own_declarations,
    own_encode (ofVariable_own "params"), hresult,
    hcall, hend, List.append_assoc, declares_append_append, hnames]
  simp [ownClientCommon]

/-- The names of a stub's arguments and of its variables are all different. -/
theorem own_clientCallBody_iff : ((clientCallBody method outer).own Entity.foreign).WellScoped ↔
    (["xprt", "werr", "comp", "params"] ++ (if method.retType.isVoid then [] else ["rval"]) ++
      (method.args.map Decl.id ++ method.args.map fun arg => "u" ++ arg.id)).Nodup := by
  have hperm : ((callMeant method).map Prod.fst).Perm (["xprt", "werr", "comp", "params"] ++
      (if method.retType.isVoid then [] else ["rval"]) ++
        (method.args.map Decl.id ++ method.args.map fun arg => "u" ++ arg.id)) := by
    simp only [callMeant, List.map_cons, List.map_append, returnedMeant_fst, arguments_fst, objects_fst,
      List.perm_iff_count]
    intro name
    simp only [List.count_append, List.count_cons, List.count_nil, ofVariable]
    omega
  have hown : (clientCallBody method outer).own Entity.foreign =
      Body.mk [] ((clientCallBody method outer).own Entity.foreign).items [] := rfl
  rw [← hperm.nodup_iff, hown, own_clientCallBody]
  refine wellScoped_iff_nodup fun hnodup => ?_
  have harguments : ∀ arg ∈ method.args, ofNamed arg.id ∈ callMeant method ∧ ofObject arg.id ∈ callMeant method := by
    intro arg harg
    have hmem := mem_arguments harg
    simp only [callMeant, List.mem_cons, List.mem_append]
    tauto
  rw [scoped_ownClientCommon hnodup harguments (by simp [callMeant]), scoped_uses_append]
  refine ⟨seen_variables hnodup ["comp", "xprt", "params", "comp"] (by simp [callMeant]), ?_⟩
  have hend := seen_variables hnodup ["werr", "comp", "comp", "werr"] (by simp [callMeant])
  cases hvoid : method.retType.isVoid with
  | true =>
    rw [if_pos rfl, List.nil_append, scoped_uses]
    exact hend
  | false =>
    have hrval : ofVariable "rval" ∈ callMeant method := by simp [callMeant, returnedMeant, returned, hvoid]
    have hresult : ∀ name ∈ ["comp", "rval", "werr"],
        Seen [extend .empty (callMeant method), extend .empty []] (ofVariable name) := by
      simp only [List.forall_mem_cons]
      exact ⟨seen_of_mem hnodup (by simp [callMeant]), seen_of_mem hnodup hrval,
        seen_of_mem hnodup (by simp [callMeant]), by simp⟩
    rw [if_neg (by simp), List.append_assoc, scoped_uses_append, scoped_ownClientResult (by simp) hresult, scoped_uses]
    refine ⟨?_, hend⟩
    simpa using And.intro (hresult "comp" (by simp)) (hresult "rval" (by simp))

/-- What the asynchronous call declares. -/
def asynchMeant (method : Method) : List Meant :=
  ofVariable "xprt" :: ofVariable "delegate" :: (method.args.map (fun arg => ofNamed arg.id) ++
    (ofVariable "comp" :: ofVariable "params" :: method.args.map fun arg => ofObject arg.id))

theorem own_clientCallAsynchBody : ((clientCallAsynchBody method outer).own Entity.foreign).items =
    declares (asynchMeant method) ++ (ownClientCommon method ++
      uses (["comp", "xprt", "params", "delegate", "comp"].map ofVariable)) := by
  have hnames : (asynchDeclared method).map Prod.snd ++
      (ofVariable "params" :: method.args.map fun arg => ofObject arg.id) = asynchMeant method := by
    simp [asynchDeclared, asynchMeant, arguments, Function.comp_def]
  have hend := own_ofVariables ["comp", "xprt", "params", "delegate", "comp"]
  simp only [List.map_cons, List.map_nil] at hend
  simp only [Body.own, clientCallAsynchBody, List.filter_append, own_declarations,
    own_encode (ofVariable_own "params"), hend, List.append_assoc, declares_append_append, hnames]
  simp [ownClientCommon]

/-- The same for an asynchronous stub. -/
theorem own_clientCallAsynchBody_iff : ((clientCallAsynchBody method outer).own Entity.foreign).WellScoped ↔
    (["xprt", "delegate", "comp", "params"] ++
      (method.args.map Decl.id ++ method.args.map fun arg => "u" ++ arg.id)).Nodup := by
  have hperm : ((asynchMeant method).map Prod.fst).Perm (["xprt", "delegate", "comp", "params"] ++
      (method.args.map Decl.id ++ method.args.map fun arg => "u" ++ arg.id)) := by
    simp only [asynchMeant, List.map_cons, List.map_append, arguments_fst, objects_fst, List.perm_iff_count]
    intro name
    simp only [List.count_append, List.count_cons, List.count_nil, ofVariable]
    omega
  have hown : (clientCallAsynchBody method outer).own Entity.foreign =
      Body.mk [] ((clientCallAsynchBody method outer).own Entity.foreign).items [] := rfl
  rw [← hperm.nodup_iff, hown, own_clientCallAsynchBody]
  refine wellScoped_iff_nodup fun hnodup => ?_
  have harguments : ∀ arg ∈ method.args,
      ofNamed arg.id ∈ asynchMeant method ∧ ofObject arg.id ∈ asynchMeant method := by
    intro arg harg
    have hmem := mem_arguments harg
    simp only [asynchMeant, List.mem_cons, List.mem_append]
    tauto
  rw [scoped_ownClientCommon hnodup harguments (by simp [asynchMeant]), scoped_uses]
  exact seen_variables hnodup ["comp", "xprt", "params", "delegate", "comp"] (by simp [asynchMeant])

theorem own_clientDelegateBody_wellScoped : ((clientDelegateBody method outer).own Entity.foreign).WellScoped := by
  have hown : (clientDelegateBody method outer).own Entity.foreign =
      Body.mk [] (declares (ofVariable "err" :: returnedMeant method "retVal")) [] := by
    simp only [Body.own, clientDelegateBody, List.filter_append, own_declarations, own_needs, List.append_nil]
    rfl
  rw [hown, returnedMeant, returned]
  cases method.retType.isVoid with
  | true => exact ⟨List.nodup_nil, scoped_declares.mpr ⟨by simp, fun _ _ => rfl⟩⟩
  | false => exact ⟨List.nodup_nil, scoped_declares.mpr ⟨by simp, fun _ _ => rfl⟩⟩

/-- The same for the dispatcher of a delegate. -/
theorem own_clientDelegateDispatcherBody : ((clientDelegateDispatcherBody method outer).own Entity.foreign).items =
    declares [ofVariable "_delegate", ofVariable "comp", ofVariable "delegate"] ++
      (uses (["_delegate"].map ofVariable) ++ (declares (returnedMeant method "rval") ++
        ((if method.retType.isVoid then [] else uses (["comp"].map ofVariable) ++ ownClientResult method "comp") ++
          uses (["delegate", "comp"].map ofVariable ++ returnedMeant method "rval")))) := by
  have hresult : (if method.retType.isVoid then [] else uses [ofVariable "comp"] ++
      clientResult method "comp").filter (Item.own Entity.foreign) =
        if method.retType.isVoid then [] else uses (["comp"].map ofVariable) ++ ownClientResult method "comp" := by
    split
    · rfl
    · rw [List.filter_append, own_clientResult]
      rfl
  have hend : (uses ([ofVariable "delegate", ofVariable "comp"] ++ (returned method "rval").map Prod.snd)).filter
      (Item.own Entity.foreign) = uses (["delegate", "comp"].map ofVariable ++ returnedMeant method "rval") := by
    refine filter_own_uses_own ?_
    unfold returned
    split <;> simp
  have hdelegate : (uses [ofVariable "_delegate"]).filter (Item.own Entity.foreign) =
      uses [ofVariable "_delegate"] := rfl
  simp only [Body.own, clientDelegateDispatcherBody, List.filter_append, own_declarations, hresult, hdelegate,
    hend]
  rfl

/-- The dispatcher of a delegate has fixed names only. -/
theorem own_clientDelegateDispatcherBody_wellScoped :
    ((clientDelegateDispatcherBody method outer).own Entity.foreign).WellScoped := by
  refine ⟨List.nodup_nil, ?_⟩
  rw [own_clientDelegateDispatcherBody]
  refine scoped_declares_append.mpr ⟨by decide, fun _ _ => rfl, scoped_uses_append.mpr ⟨?_, ?_⟩⟩
  · exact seen_variables (by decide) ["_delegate"] (by decide)
  · cases hvoid : method.retType.isVoid with
    | true =>
      rw [if_pos rfl, List.nil_append, returnedMeant, returned, hvoid, if_pos rfl, List.map_nil, List.append_nil]
      exact scoped_uses.mpr (seen_variables (by decide) ["delegate", "comp"] (by decide))
    | false =>
      let names := [ofVariable "_delegate", ofVariable "comp", ofVariable "delegate", ofVariable "rval"]
      have hnodup : (names.map Prod.fst).Nodup := by decide
      have hresult : ∀ name ∈ ["comp", "rval", "comp"], Seen [extend .empty names, extend .empty []]
          (ofVariable name) := by
        intro name hname
        exact seen_variables hnodup ["comp", "rval", "comp"] (by decide) _ (List.mem_map_of_mem hname)
      have hreturned : returnedMeant method "rval" = [ofVariable "rval"] := by simp [returnedMeant, returned, hvoid]
      rw [if_neg (by simp), hreturned, scoped_declares_append, List.append_assoc, scoped_uses_append]
      refine ⟨by decide, by decide, seen_variables hnodup ["comp"] (by decide), ?_⟩
      refine (scoped_ownClientResult (by simp) hresult).mpr (scoped_uses.mpr ?_)
      exact seen_variables hnodup ["delegate", "comp", "rval"] (by decide)

end Own

section Taken

variable {declared : List (List String)} {depth : Nat}

theorem taken_ofVariables_append (names : List String) :
    taken Entity.foreign declared (uses (names.map ofVariable) ++ rest) = taken Entity.foreign declared rest := by
  refine taken_own_uses_append (fun m hm => ?_) declared
  obtain ⟨name, _, rfl⟩ := List.mem_map.mp hm
  rfl

theorem returned_own (rval : String) : ∀ d ∈ returned method rval, d.2.2.foreign = false := by
  unfold returned
  split <;> simp

/-- What becomes of a result takes what there is to take for one. -/
theorem taken_result_append (err : String) (names : List String) : taken Entity.foreign declared
    ((if method.retType.isVoid then [] else uses (names.map ofVariable) ++ clientResult method err) ++ rest) =
      (method.resultBorrows declared.flatten).map use ++ taken Entity.foreign declared rest := by
  unfold Method.resultBorrows
  cases method.retType.isVoid with
  | true => rfl
  | false =>
    have hread (items : List (Item String Entity)) : taken Entity.foreign (["suc"] :: declared)
        (genDeserialiseInto method.retType (ofVariable "suc") (ofVariable "comp") (ofVariable "rval") ++ items) =
          (method.retType.deserialiseBorrows (["suc"] ++ declared.flatten)).map use ++
            taken Entity.foreign ((method.retType.loopNames ++ ["suc"]) :: declared) items :=
      taken_genDeserialiseInto_append (ofVariable_own "suc") (ofVariable_own "comp") (ofVariable_own "rval")
    have hend (declared : List (List String)) (items : List (Item String Entity)) : taken Entity.foreign declared
        (uses [ofVariable "suc", ofVariable err, ofVariable err] ++ items) = taken Entity.foreign declared items := rfl
    simp only [Bool.false_eq_true, if_false, clientResult, List.append_assoc, taken_ofVariables_append,
      List.cons_append,
      taken_enter, taken_declares_append, List.map_cons, List.map_nil, List.reverse_singleton, List.append_nil,
      ofVariable_fst, hread, taken_needs_append, hend, List.nil_append, taken_leave, List.flatten_cons, List.map_append]

theorem inside_result_append (err : String) (names : List String) : Inside Entity.foreign depth
    ((if method.retType.isVoid then [] else uses (names.map ofVariable) ++ clientResult method err) ++ rest) ↔
      Inside Entity.foreign depth rest := by
  cases method.retType.isVoid with
  | true => rfl
  | false => simp [clientResult]

theorem namesOf_callDeclared : namesOf (callDeclared method) = method.callDeclarations := by
  have hcons : namesOf (callDeclared method) = ([ofHeader "WSRPCTransport"], "xprt") ::
      (namesOf (returned method "rval") ++
      (namesOf (arguments method) ++ [([ofHeader "WSRPCError"], "werr"), ([ofHeader "WSRPCCompletion"], "comp")])) := by
    simp [namesOf, callDeclared, ofVariable]
  rw [hcons, namesOf_returned, namesOf_arguments]
  rfl

theorem namesOf_asynchDeclared : namesOf (asynchDeclared method) = method.asynchDeclarations := by
  have hcons : namesOf (asynchDeclared method) = ([ofHeader "WSRPCTransport"], "xprt") :: ([], "delegate") ::
      (namesOf (arguments method) ++ [([ofHeader "WSRPCCompletion"], "comp")]) := by
    simp [namesOf, asynchDeclared, ofVariable]
  rw [hcons, namesOf_arguments]
  rfl

theorem taken_clientCallBody :
    taken Entity.foreign [[], []] (clientCallBody method outer).items = method.callBorrows.map use := by
  have hcall (declared : List (List String)) (items : List (Item String Entity)) : taken Entity.foreign declared
      (uses [ofVariable "comp", ofVariable "xprt", ofVariable "params", ofVariable "comp"] ++ items) =
        taken Entity.foreign declared items := rfl
  have hend (declared : List (List String)) : taken Entity.foreign declared
      (uses [ofVariable "werr", ofVariable "comp", ofVariable "comp", ofVariable "werr"]) = [] := rfl
  have hresult (declared : List (List String)) (items : List (Item String Entity)) : taken Entity.foreign declared
      ((if method.retType.isVoid then [] else uses [ofVariable "comp",
        ofVariable "rval"] ++ clientResult method "werr") ++
        items) = (method.resultBorrows declared.flatten).map use ++ taken Entity.foreign declared items :=
    taken_result_append "werr" ["comp", "rval"]
  have hencode (first : List String) (items : List (Item String Entity)) : taken Entity.foreign [first, []]
      (encode (ofVariable "params") method.args ++ items) =
        (encodeBorrows "params" (first ++ []) method.args).map use ++
        taken Entity.foreign [declaredAfter ("params" :: first) (objectDeclarations method.args), []] items :=
    taken_encode_append (ofVariable_own "params")
  simp only [clientCallBody, taken_declarations_append, namesOf_callDeclared, hencode, hcall, hresult, hend,
    List.flatten_cons, List.flatten_nil, List.append_nil, Method.callBorrows, List.map_append]

theorem taken_clientCallAsynchBody :
    taken Entity.foreign [[], []] (clientCallAsynchBody method outer).items = method.asynchBorrows.map use := by
  have hend (declared : List (List String)) : taken Entity.foreign declared (uses [ofVariable "comp", ofVariable "xprt",
      ofVariable "params", ofVariable "delegate", ofVariable "comp"]) = [] := rfl
  have hencode (first : List String) (items : List (Item String Entity)) : taken Entity.foreign [first, []]
      (encode (ofVariable "params") method.args ++ items) =
        (encodeBorrows "params" (first ++ []) method.args).map use ++
        taken Entity.foreign [declaredAfter ("params" :: first) (objectDeclarations method.args), []] items :=
    taken_encode_append (ofVariable_own "params")
  simp only [clientCallAsynchBody, taken_declarations_append, namesOf_asynchDeclared, hencode, hend,
    List.flatten_cons, List.flatten_nil, List.append_nil, Method.asynchBorrows, List.map_append]

theorem taken_clientDelegateBody :
    taken Entity.foreign [[], []] (clientDelegateBody method outer).items = method.delegateBorrows.map use := by
  have hnames : namesOf (([ofHeader "WSRPCError"], ofVariable "err") :: returned method "retVal") =
      ([ofHeader "WSRPCError"], "err") :: method.returnedDeclaration "retVal" :=
    congrArg (([ofHeader "WSRPCError"], "err") :: ·) (namesOf_returned "retVal")
  have hend (declared : List (List String)) : taken Entity.foreign declared (needs [ofHeader "fprintf"]) =
      (borrow declared.flatten [ofHeader "fprintf"]).map use := rfl
  simp only [clientDelegateBody, taken_declarations_append, hnames, hend, List.flatten_cons, List.flatten_nil,
    List.append_nil, Method.delegateBorrows, List.map_append]

/-- What the dispatcher of a delegate takes from around it. -/
theorem taken_clientDelegateDispatcherBody : taken Entity.foreign [[], []]
    (clientDelegateDispatcherBody method outer).items = method.dispatcherBorrows.map use := by
  have hbefore (declared : List (List String)) (items : List (Item String Entity)) : taken Entity.foreign declared
      (uses [ofVariable "_delegate"] ++ items) = taken Entity.foreign declared items := rfl
  have hresult (declared : List (List String)) (items : List (Item String Entity)) : taken Entity.foreign declared
      ((if method.retType.isVoid then [] else uses [ofVariable "comp"] ++ clientResult method "comp") ++ items) =
        (method.resultBorrows declared.flatten).map use ++ taken Entity.foreign declared items :=
    taken_result_append "comp" ["comp"]
  have hend (declared : List (List String)) : taken Entity.foreign declared
      (uses ([ofVariable "delegate", ofVariable "comp"] ++ (returned method "rval").map Prod.snd)) = [] := by
    refine taken_own_uses (fun m hm => ?_) declared
    rw [List.mem_append, List.mem_map] at hm
    rcases hm with hm | ⟨d, hd, rfl⟩
    · rcases List.mem_pair.mp hm with rfl | rfl <;> rfl
    · exact returned_own "rval" d hd
  have hnames : namesOf [([], ofVariable "_delegate"), ([ofHeader "WSRPCCompletion"], ofVariable "comp"),
      ([], ofVariable "delegate")] = [([], "_delegate"), ([ofHeader "WSRPCCompletion"], "comp"),
        ([], "delegate")] := rfl
  have hdispatcher : method.dispatcherBorrows =
      declarationBorrows [] ([([], "_delegate"), ([ofHeader "WSRPCCompletion"], "comp"), ([], "delegate")] ++
        method.returnedDeclaration "rval") ++ method.resultBorrows (declaredAfter []
          ([([], "_delegate"), ([ofHeader "WSRPCCompletion"], "comp"), ([], "delegate")] ++
            method.returnedDeclaration "rval")) := rfl
  rw [hdispatcher, declarationBorrows_append, ← declaredAfter_declaredAfter]
  simp only [clientDelegateDispatcherBody, taken_declarations_append, hbefore, hnames, namesOf_returned, hresult, hend,
    List.flatten_cons, List.flatten_nil, List.append_nil, List.map_append, List.append_assoc]

theorem arguments_own : ∀ d ∈ arguments method, d.2.2.foreign = false := by
  simp [arguments]

theorem callDeclared_own : ∀ d ∈ callDeclared method, d.2.2.foreign = false := by
  intro d hd
  simp only [callDeclared, List.mem_cons, List.mem_append, List.not_mem_nil, or_false] at hd
  rcases hd with rfl | hd | hd | rfl | rfl
  · rfl
  · exact returned_own "rval" d hd
  · exact arguments_own d hd
  · rfl
  · rfl

theorem asynchDeclared_own : ∀ d ∈ asynchDeclared method, d.2.2.foreign = false := by
  intro d hd
  simp only [asynchDeclared, List.mem_cons, List.mem_append, List.not_mem_nil, or_false] at hd
  rcases hd with rfl | rfl | hd | rfl
  · rfl
  · rfl
  · exact arguments_own d hd
  · rfl

theorem inside_clientCallBody : Inside Entity.foreign 1 (clientCallBody method outer).items := by
  have hresult (items : List (Item String Entity)) : Inside Entity.foreign 1 ((if method.retType.isVoid then []
      else uses [ofVariable "comp", ofVariable "rval"] ++ clientResult method "werr") ++ items) ↔
        Inside Entity.foreign 1 items := inside_result_append "werr" ["comp", "rval"]
  refine inside_declarations_append.mpr ⟨callDeclared_own, (inside_encode_append (ofVariable_own "params")).mpr ?_⟩
  exact (inside_uses_append _).mpr ((hresult _).mpr (inside_uses _))

theorem inside_clientCallAsynchBody : Inside Entity.foreign 1 (clientCallAsynchBody method outer).items :=
  inside_declarations_append.mpr ⟨asynchDeclared_own,
    (inside_encode_append (ofVariable_own "params")).mpr (inside_uses _)⟩

theorem inside_clientDelegateBody : Inside Entity.foreign 1 (clientDelegateBody method outer).items :=
  inside_declarations_append.mpr ⟨List.forall_mem_cons.mpr ⟨rfl, returned_own "retVal"⟩, inside_uses _⟩

theorem inside_clientDelegateDispatcherBody :
    Inside Entity.foreign 1 (clientDelegateDispatcherBody method outer).items := by
  have hresult (items : List (Item String Entity)) : Inside Entity.foreign 1 ((if method.retType.isVoid then []
      else uses [ofVariable "comp"] ++ clientResult method "comp") ++ items) ↔ Inside Entity.foreign 1 items :=
    inside_result_append "comp" ["comp"]
  refine inside_declarations_append.mpr ⟨by simp, (inside_uses_append _).mpr ?_⟩
  exact inside_declarations_append.mpr ⟨returned_own "rval", (hresult _).mpr (inside_uses _)⟩

end Taken

section WellScoped

variable (houter : Around Entity.foreign outer)

include houter

theorem clientCalls_wellScoped_iff :
    (clientCallBody method outer).WellScoped ∧ (clientCallAsynchBody method outer).WellScoped ↔
      method.ClientScoped ∧ ∀ x ∈ method.callBorrows ++ method.asynchBorrows, x.Met (knownIn outer) := by
  rw [wellScoped_iff_supplied (by simp [clientCallBody]) inside_clientCallBody houter taken_clientCallBody,
    wellScoped_iff_supplied (by simp [clientCallAsynchBody]) inside_clientCallAsynchBody houter
      taken_clientCallAsynchBody,
    own_clientCallBody_iff, own_clientCallAsynchBody_iff, List.forall_mem_append]
  exact and_and_and_comm

theorem clientDelegates_wellScoped_iff :
    (clientDelegateBody method outer).WellScoped ∧ (clientDelegateDispatcherBody method outer).WellScoped ↔
      ∀ x ∈ method.delegateBorrows ++ method.dispatcherBorrows, x.Met (knownIn outer) := by
  rw [wellScoped_iff_supplied (by simp [clientDelegateBody]) inside_clientDelegateBody houter taken_clientDelegateBody,
    wellScoped_iff_supplied (by simp [clientDelegateDispatcherBody]) inside_clientDelegateDispatcherBody houter
      taken_clientDelegateDispatcherBody, List.forall_mem_append]
  exact and_congr (and_iff_right own_clientDelegateBody_wellScoped)
    (and_iff_right own_clientDelegateDispatcherBody_wellScoped)

end WellScoped

end ServiceManager.Wsrpcgen.Idl
