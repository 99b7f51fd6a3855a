import ServiceManager.Wsrpc.Meanwhile
import ServiceManager.Wsrpcgen.Deliver
import ServiceManager.Wsrpcgen.Stubs

namespace ServiceManager.Wsrpcgen

open Wsrpc

variable {V : Type}

/-- The generated server of a program, as a provider that a listener asks. -/
def Program.provider (link : Linked V) (p : Program) : Provider := fun _ req =>
  let handled := handleReq link p req
  .answer { code := handled.code, result := handled.req.result, err := handled.req.err }

namespace Method

variable (link : Linked V) (m : Method)

/-- The result that a case leaves in the request, after its implementation. -/
def resultOf (returned : Returned V) : Option Ucl :=
  if m.retType.isVoid then returned.req.result
  else if returned.succeeded && returned.req.result.isNone then serialiseCell link m.retType returned.rval
  else returned.req.result

/-- The reply that is due for what the implementation leaves. -/
def replyOf (returned : Returned V) : Reply :=
  if returned.succeeded then .result ((m.resultOf link returned).getD .null) else .error returned.req.err

/-- What the caller is to get for it, in his error and in his variable. An error has the
message that libucl makes of what the implementation left. -/
def outcome (lib : Libucl) (rval : Cell V) (returned : Returned V) : Error × Cell V :=
  if returned.succeeded then ({}, if m.retType.isVoid then rval else returned.rval)
  else ({ returned.req.err with errmsg := lib.fromString returned.req.err.errmsg }, rval)

/-- The generated call of a method that waits for its reply. `suc` is what was in the
memory of the flag. -/
def clientCallSync (lib : Libucl) (svcs : List Provider) (ver : Nat) (values : List (Cell V)) (suc : Bool)
    (rval : Cell V)
    (t : Transport) : Except Stuck ((Error × Cell V) × Transport) :=
  let params := (m.clientRequest link ver 0 values).params
  let (comp, t) := t.sendMessage lib (m.implFunName ver) params false
  awaitReply lib svcs (t.events.length + 1) comp t >>= fun (ret, t) =>
    .ok (if ret then clientCall link m.retType suc rval (t.heap comp) else ((t.heap comp).err, rval), t)

theorem clientCallSync_eq (lib : Libucl) (svcs : List Provider) (ver : Nat) (values : List (Cell V)) (suc : Bool)
    (rval : Cell V)
    (t : Transport) :
    m.clientCallSync link lib svcs ver values suc rval t =
      (awaitReply lib svcs (t.events.length + 1) t.next
          (t.sendMessage lib (m.implFunName ver) (m.clientRequest link ver 0 values).params false).2 >>= fun r =>
        .ok (if r.1 then clientCall link m.retType suc rval (r.2.heap t.next) else ((r.2.heap t.next).err,
          rval), r.2)) :=
  rfl

end Method

section Server

variable {link : Linked V} {m : Method} {req : Req} {avs : List (Decl × Cell V)} {f : Frame V} {b : Bool}

/-- The value is encoded if the implementation succeeded and made no result itself. -/
theorem run_serialise (link : Linked V) (t : TypeRef) {x : Cell V} (hshown : f.vars "succeeded" = none)
    (hrval : f.vars "rval" = some x) :
    run link [.serialise "succeeded" t "rval", .gotoEnd] f =
      .goto { f with req := { f.req with
        result := if f.succeeded && f.req.result.isNone then serialiseCell link t x else f.req.result } } := by
  simp only [run, Stmt.exec, Frame.flag, hshown, hrval, Option.getD_some]
  cases f.succeeded && f.req.result.isNone <;> rfl

/-- After the call the flag and the request are the implementation's, but for the result
that the case makes of its value. -/
theorem Holding.run_call_left (ver : Nat) (h : Holding req b avs f) (hargs : m.args = avs.map Prod.fst)
    {returned : Returned V}
    (hreturned : link.impl ⟨m.implFunName ver, m.args, avs.map Prod.snd⟩ req = returned) :
    ∃ f', run link (m.genCall ver ++ [.gotoEnd]) f = .goto f' ∧ f'.succeeded = returned.succeeded ∧
      f'.req = { returned.req with result := m.resultOf link returned } := by
  have hcall : link.impl ⟨m.implFunName ver, m.args, m.args.map fun arg => (f.vars arg.id).getD .unset⟩ f.req =
      returned := by
    rw [h.arguments_eq hargs, h.req_eq, hreturned]
  unfold Method.genCall Method.resultOf
  by_cases hvoid : m.retType.isVoid
  · simp only [if_pos hvoid]
    refine ⟨_, rfl, ?_, ?_⟩
    · simp [Frame.setFlag, h.shown, hcall]
    · simp [Frame.setFlag, h.shown, hcall]
  · let calls := f.calls ++ [⟨m.implFunName ver, m.args, m.args.map fun arg => (f.vars arg.id).getD .unset⟩]
    let called : Frame V :=
      { f.set "rval" returned.rval with req := returned.req, succeeded := returned.succeeded, calls }
    have hshown : called.vars "succeeded" = none := by simp [called, Frame.set, h.shown]
    have hexec : Stmt.exec link f (.callImpl "succeeded" (m.implFunName ver) (some "rval") m.args) = .next called := by
      simp [Stmt.exec, hcall, Frame.setFlag, Frame.set, h.shown, called, calls]
    have hrval : called.vars "rval" = some returned.rval := by simp [called, Frame.set]
    have hserialise := run_serialise link m.retType hshown hrval
    rw [if_neg hvoid, List.cons_append, run, hexec]
    exact ⟨_, hserialise, rfl, by simp [called, hvoid]⟩

/-- The reply to a request that holds the encoded arguments is the one that is due. -/
theorem handleReq_left {p : Program} {v : Version} (hdispatched : p.dispatched req.methodName = some (v, m))
    (hscoped : m.ServerScoped) (hfirst : ∀ arg, m.args.head? = some arg → arg.type.list = false)
    (hargs : m.args = avs.map Prod.fst) (hlookup : ∀ av ∈ avs,
      req.params.bind (·.lookup av.1.id) = some (encoded link av))
    (hinverse : ∀ av ∈ avs, av.1.type.Inverse link av.2) {returned : Returned V}
    (hreturned : link.impl ⟨m.implFunName v.num, m.args, avs.map Prod.snd⟩ req = returned) :
    (handleReq link p req).code = (if returned.succeeded then 0 else 1) ∧
      (handleReq link p req).req = { returned.req with result := m.resultOf link returned } := by
  obtain ⟨b, f, hholding, hrun⟩ := run_arguments_held v.num hscoped hargs hlookup hinverse hfirst
  obtain ⟨f', hcall, hsucceeded, hreq⟩ := hholding.run_call_left v.num hargs hreturned
  rw [handleReq_eq, hdispatched]
  refine ⟨?_, ?_⟩
  · simp only [hrun, hcall, Step.frame, hsucceeded]
  · simp only [hrun, hcall, Step.frame, hreq]

variable {lib : Libucl} {await : Nat → Transport → Except Stuck (Bool × Transport)} {p : Program}

theorem handleReq_code (link : Linked V) (p : Program) (req : Req) :
    (handleReq link p req).code = 0 ∨ (handleReq link p req).code = 1 ∨ (handleReq link p req).code = -1 := by
  rw [handleReq_eq]
  cases p.dispatched req.methodName with
  | none => exact Or.inr (Or.inr rfl)
  | some found =>
    obtain ⟨v, m⟩ := found
    simp only
    split
    · exact Or.inl rfl
    · exact Or.inr (Or.inl rfl)

/-- Generated servers never call the peer themselves, so whatever is proved of sessions
between such providers holds of them. -/
theorem prompt_provider (link : Linked V) (ps : List Program) : Prompt (ps.map (Program.provider link)) := by
  intro svc hsvc t req
  obtain ⟨p, _, rfl⟩ := List.mem_map.mp hsvc
  exact ⟨_, rfl, handleReq_code link p req⟩

/-- The programs are asked in turn until one has the method. -/
theorem answers_provider (lib : Libucl) (await : Nat → Transport → Except Stuck (Bool × Transport)) {pre : List Program}
    (post : List Program) {returned : Returned V} (hpre : ∀ q ∈ pre, q.dispatched req.methodName = none)
    (hcode : (handleReq link p req).code = (if returned.succeeded then 0 else 1))
    (hreq : (handleReq link p req).req = { returned.req with result := m.resultOf link returned }) (t : Transport) :
    Answers lib await ((pre ++ p :: post).map (Program.provider link)) req t (m.replyOf link returned) t := by
  induction pre with
  | nil =>
    unfold Method.replyOf
    cases hsucceeded : returned.succeeded with
    | true =>
      have hanswer : (Program.provider link p t req).run lib await t =
          .ok (⟨0, m.resultOf link returned, returned.req.err⟩, t) := by
        simp [Program.provider, Handler.run, hcode, hreq, hsucceeded]
      exact .result hanswer rfl
    | false =>
      have hanswer : (Program.provider link p t req).run lib await t =
          .ok (⟨1, m.resultOf link returned, returned.req.err⟩, t) := by
        simp [Program.provider, Handler.run, hcode, hreq, hsucceeded]
      exact .error hanswer rfl
  | cons q pre ih =>
    obtain ⟨hq, hpre⟩ := List.forall_mem_cons.mp hpre
    have hanswer : (Program.provider link q t req).run lib await t = .ok (⟨-1, req.result, req.err⟩, t) := by
      simp [Program.provider, Handler.run, handleReq_eq, hq]
    exact .declines hanswer rfl (ih hpre)

end Server

section Client

theorem Cell.Filled.serialised {x : Cell V} (h : x.Filled) (link : Linked V) (t : TypeRef) :
    ∃ obj, serialiseCell link t x = some obj := by
  cases x with
  | value v => exact ⟨_, rfl⟩
  | values vs => exact ⟨_, rfl⟩
  | unset | obj | flag => exact h.elim

variable {link : Linked V} {m : Method} {returned : Returned V} {rval : Cell V}

/-- The variable gets back what was encoded. -/
theorem TypeRef.Inverse.deserialiseInto {t : TypeRef} {x : Cell V} {obj : Ucl} (h : t.Inverse link x)
    (hencoded : serialiseCell link t x = some obj) (hfresh : t.list = true → rval = .values []) (suc : Bool) :
    (t.deserialiseInto link suc rval obj).2 = x := by
  cases x with
  | value v =>
    obtain ⟨hlist, hinverse⟩ := h
    obtain rfl := Option.some_inj.mp hencoded
    simp [TypeRef.deserialiseInto, hlist, hinverse]
  | values vs =>
    obtain ⟨hlist, hinverse⟩ := h
    obtain rfl := Option.some_inj.mp hencoded
    have hall := deserialiseAll_serialised hinverse
    have hitems : ((Ucl.array (vs.map (link.serialise t.serialiser))).iterate none).map Prod.snd =
        vs.map (link.serialise t.serialiser) := by
      simp [Ucl.iterate]
    simp [TypeRef.deserialiseInto, hlist, hfresh hlist, hitems, hall]
  | unset | obj | flag => exact h.elim

/-- The stub makes of the reply what the implementation left. -/
theorem clientCall_replyOf (lib : Libucl) (hresult : returned.req.result = none)
    (hvalue : m.retType.isVoid = false → returned.succeeded = true → m.retType.Inverse link returned.rval)
    (hfresh : m.retType.list = true → rval = .values []) (suc : Bool) (c : Completion) :
    clientCall link m.retType suc rval (((m.replyOf link returned).arrived lib).complete c) =
      m.outcome lib rval returned := by
  unfold Method.replyOf Method.outcome
  cases hsucceeded : returned.succeeded with
  | false => rfl
  | true =>
    simp only [if_true]
    cases hvoid : m.retType.isVoid with
    | true => simp [clientCall, Reply.arrived, Reply.complete, hvoid]
    | false =>
      have hinverse := hvalue hvoid hsucceeded
      obtain ⟨obj, hencoded⟩ := hinverse.filled.serialised link m.retType
      have hresultOf : m.resultOf link returned = some obj := by
        simpa [Method.resultOf, hvoid, hsucceeded, hresult] using hencoded
      rw [hresultOf]
      have hinto := hinverse.deserialiseInto hencoded hfresh suc
      simpa [clientCall, Reply.arrived, Reply.complete, hvoid] using hinto

/-- What a call asks its server is the request of the stub. -/
theorem requestOf_clientRequest {lib : Libucl} (link : Linked V) (m : Method) (ver : Nat) (id : Int32)
    (values : List (Cell V)) (hname : lib.fromString (m.implFunName ver) = m.implFunName ver) :
    requestOf (callObject lib (m.implFunName ver) (m.clientRequest link ver id values).params id) =
      m.clientRequest link ver id values := by
  simp [requestOf, callObject, Method.clientRequest, Ucl.lookup, Ucl.toInt, Ucl.toString?, hname]

end Client

section EndToEnd

variable {lib : Libucl} {link : Linked V} {p : Program} {pre post : List Program} {v : Version} {m : Method}
  {values : List (Cell V)} {id : Int32} {returned : Returned V}
  (hclient : m.ClientScoped) (hserver : m.ServerScoped)
  (hinverse : List.Forall₂ (fun arg x => arg.type.Inverse link x) m.args values)
  (hreturned : link.impl ⟨m.implFunName v.num, m.args, values⟩ (m.clientRequest link v.num id values) = returned)

section Server

variable (hdispatched : p.dispatched (m.implFunName v.num) = some (v, m))
  (hpre : ∀ q ∈ pre, q.dispatched (m.implFunName v.num) = none)
  (hfirst : ∀ arg, m.args.head? = some arg → arg.type.list = false)

include hclient hserver hinverse hreturned hdispatched hpre hfirst

/-- The server that has the method replies to the call as its implementation says. -/
theorem readyForRead_provider (hname : lib.fromString (m.implFunName v.num) = m.implFunName v.num) (hid : id ≠ 0)
    (hcall : Intact lib (callObject lib (m.implFunName v.num) (m.clientRequest link v.num id values).params id))
    (server : Transport) :
    readyForRead lib ((pre ++ p :: post).map (Program.provider link)) server
        (lib.emit (callObject lib (m.implFunName v.num) (m.clientRequest link v.num id values).params id)) =
      .ok (server.writeObj lib ((m.replyOf link returned).response lib id.toInt)) := by
  let avs := m.args.zip values
  have hlength : m.args.length = values.length := hinverse.length_eq
  have hargs : m.args = avs.map Prod.fst := (List.map_fst_zip (Nat.le_of_eq hlength)).symm
  have hvalues : avs.map Prod.snd = values := List.map_snd_zip (Nat.le_of_eq hlength.symm)
  have hinverse' : ∀ av ∈ avs, av.1.type.Inverse link av.2 := fun _ hav => (List.forall₂_iff_zip.mp hinverse).2 hav
  have hlookup := clientRequest_lookup v.num id hclient hargs hinverse'
  rw [hvalues] at hlookup
  have hreturned' : link.impl ⟨m.implFunName v.num, m.args, avs.map Prod.snd⟩ (m.clientRequest link v.num id values) =
      returned := by
    rw [hvalues, hreturned]
  obtain ⟨hcode, hreq⟩ := handleReq_left hdispatched hserver hfirst hargs hlookup hinverse' hreturned'
  have hanswers := answers_provider lib
    (awaitReply lib ((pre ++ p :: post).map (Program.provider link))
      (server.events.length + 1)) post hpre hcode hreq server
  have hasked := requestOf_clientRequest link m v.num id values hname
  obtain ⟨members, hmembers⟩ : ∃ members, (m.clientRequest link v.num id values).params =
    (some members).map Ucl.object :=
    ⟨_, rfl⟩
  rw [hmembers] at hasked hcall ⊢
  rw [← hasked] at hanswers
  exact readyForRead_call (prompt_provider link _) hid hcall hanswers

end Server

section Caller

variable {svcs : List Provider} {client : Transport} {before after : List Event} {rval : Cell V}

/-- The stub returns with what the reply stands for, whatever comes in before it. -/
theorem clientCallSync_reply (hresult : returned.req.result = none)
    (hvalue : m.retType.isVoid = false → returned.succeeded = true → m.retType.Inverse link returned.rval)
    (hreply : Intact lib ((m.replyOf link returned).response lib id.toInt)) (hprompt : Prompt svcs)
    (hcan : CanCall client id)
    (hbefore : ∀ e ∈ before, Meanwhile lib id e)
    (hevents : client.events = before ++ .text (lib.emit ((m.replyOf link returned).response lib id.toInt)) :: after)
    (hfresh : m.retType.list = true → rval = .values []) (suc : Bool) :
    ∃ client', m.clientCallSync link lib svcs v.num values suc rval client =
      .ok (m.outcome lib rval returned, client') ∧
      client'.events = after ∧
      client.written ++ [lib.emit (callObject lib (m.implFunName v.num)
        (m.clientRequest link v.num id values).params id)] <+:
        client'.written := by
  have hwaiting := hcan.waiting lib (m.implFunName v.num) (m.clientRequest link v.num 0 values).params
  have hlength : before.length < client.events.length + 1 := by
    rw [hevents, List.length_append]
    omega
  obtain ⟨client', c, hawait, hheap, hafter, hwritten⟩ :=
    awaitReply_returns hprompt hreply hbefore hwaiting hevents hlength
  rw [written_sendMessage, hcan.rand_eq] at hwritten
  refine ⟨client', ?_, hafter, hwritten⟩
  have hstub := clientCall_replyOf lib hresult hvalue hfresh suc c
  rw [Method.clientCallSync_eq, hawait, ← hstub, ← hheap]
  rfl

end Caller

end EndToEnd

/-- A call between generated code at both ends. The server that has the method calls its
implementation and writes one response; and the caller, whatever else comes in before that,
gets the error and the value that the implementation left. -/
theorem clientCallSync_endToEnd (lib : Libucl) (link : Linked V) (pre post : List Program) (p : Program) (v : Version)
    (m : Method) (values : List (Cell V)) (id : Int32) (returned : Returned V)
    (hclient : m.ClientScoped) (hserver : m.ServerScoped)
    (hdispatched : p.dispatched (m.implFunName v.num) = some (v, m))
    (hpre : ∀ q ∈ pre, q.dispatched (m.implFunName v.num) = none)
    (hfirst : ∀ arg, m.args.head? = some arg → arg.type.list = false)
    (hinverse : List.Forall₂ (fun arg x => arg.type.Inverse link x) m.args values)
    (hreturned : link.impl ⟨m.implFunName v.num, m.args, values⟩ (m.clientRequest link v.num id values) = returned)
    (hresult : returned.req.result = none)
    (hvalue : m.retType.isVoid = false → returned.succeeded = true → m.retType.Inverse link returned.rval)
    (hname : lib.fromString (m.implFunName v.num) = m.implFunName v.num) (hid : id ≠ 0)
    (hcall : Intact lib (callObject lib (m.implFunName v.num) (m.clientRequest link v.num id values).params id))
    (hreply : Intact lib ((m.replyOf link returned).response lib id.toInt)) :
    let request := lib.emit (callObject lib (m.implFunName v.num) (m.clientRequest link v.num id values).params id)
    let response := lib.emit ((m.replyOf link returned).response lib id.toInt)
    (∀ server, readyForRead lib ((pre ++ p :: post).map (Program.provider link)) server request =
        .ok { server with written := server.written ++ [response] }) ∧
      ∀ svcs client before after suc rval, Prompt svcs → CanCall client id → (∀ e ∈ before, Meanwhile lib id e) →
        client.events = before ++ .text response :: after → (m.retType.list = true → rval = .values []) →
        ∃ client', m.clientCallSync link lib svcs v.num values suc rval client =
          .ok (m.outcome lib rval returned, client') ∧
          client'.events = after ∧ client.written ++ [request] <+: client'.written := by
  intro request response
  refine ⟨readyForRead_provider hclient hserver hinverse hreturned hdispatched hpre hfirst hname hid hcall, ?_⟩
  intro svcs client before after suc rval hprompt hcan hbefore hevents hfresh
  exact clientCallSync_reply hresult hvalue hreply hprompt hcan hbefore hevents hfresh suc

/-- A method that returns the value of a property. -/
def getProperty : Method where
  retType := { type := "string" }
  name := "getProperty"
  args := [{ type := { type := "string" }, id := "key" }]

def getterVersion : Version where
  num := 1
  methods := [getProperty]
  methods_ne_nil := by decide

def getterProgram : Program where
  versions := [getterVersion]
  versions_ne_nil := by simp

/-- An implementation that has the value 22 for all keys. -/
def stored : Linked Ucl :=
  { builtin with impl := fun _ req => { succeeded := true, rval := .value (.string "22"), req } }

def askText : Message where
  text := ("\x7b\"jsonrpc\":\"2.0\",\"method\":\"getProperty_v1\"," ++
    "\"params\":\x7b\"key\":\"port\"\x7d,\"id\":7\x7d").toUTF8.toList
  nul_free := by decide +kernel

def answerText : Message where
  text := "\x7b\"jsonrpc\":\"2.0\",\"result\":\"22\",\"id\":7\x7d".toUTF8.toList
  nul_free := by decide +kernel

/-- All that is emitted and parsed in a call of it. -/
def getterLib : Libucl where
  emit obj := if uclObjIsRequest obj then askText else answerText
  parse m := some (if m.text = askText.text then
      .object [("jsonrpc", .string "2.0"), ("method", .string "getProperty_v1"),
        ("params", .object [("key", .string "port")]),
        ("id", .int 7)]
    else .object [("jsonrpc", .string "2.0"), ("result", .string "22"), ("id", .int 7)])
  fromString s := s

theorem clientCallSync_endToEnd_getProperty :
    let client : Transport := { caller (fun _ => 7) with events := [.part, .text answerText] }
    (∀ server, readyForRead getterLib ([oneVersion, getterProgram].map (Program.provider stored)) server askText =
        .ok { server with written := server.written ++ [answerText] }) ∧
      ∃ client', getProperty.clientCallSync stored getterLib [] 1 [.value (.string "port")] false .unset client =
          .ok (({}, .value (.string "22")), client') ∧ client'.events = [] ∧ [askText] <+: client'.written := by
  intro client
  have hne : answerText.text ≠ askText.text := by decide +kernel
  have hstring : ∀ s, stored.deserialise ({ type := "string" } : TypeRef).deserialiser (.string s) =
      some (.string s) := by
    intro s
    with_unfolding_all rfl
  have hscoped : getProperty.ServerScoped := ⟨by decide, by decide, by decide, by decide, by decide, by decide⟩
  obtain ⟨hserver, hclient⟩ := clientCallSync_endToEnd getterLib stored [oneVersion] [] getterProgram getterVersion
    getProperty [.value (.string "port")] 7 { succeeded := true, rval := .value (.string "22"), req := _ }
      (by decide) hscoped rfl
    (by decide) (by decide) (.cons ⟨rfl, hstring "port"⟩ .nil) rfl rfl (fun _ _ => ⟨rfl, hstring "22"⟩) rfl
    (by decide) (congrArg some (if_pos rfl)) (congrArg some (if_neg hne))
  refine ⟨hserver, ?_⟩
  have hcan : CanCall client 7 := ⟨rfl, by simp [client, caller], by simp [client, caller]⟩
  exact hclient [] client [.part] [] false .unset (fun svc hsvc => absurd hsvc (by simp)) hcan
    (by simp [Meanwhile]) rfl (fun hlist => absurd hlist (by decide))

end ServiceManager.Wsrpcgen
