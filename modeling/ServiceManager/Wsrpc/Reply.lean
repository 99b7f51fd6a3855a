import ServiceManager.Wsrpc.Transport

namespace ServiceManager.Wsrpc

/-- What a call comes to: a result, or an error. -/
inductive Reply where
  | result (obj : Ucl)
  | error (err : Error)

namespace Reply

/-- The object that carries a reply to the caller. -/
def response (lib : Libucl) (id : Int) : Reply → Ucl
  | .result obj => .object [("jsonrpc", .string (lib.fromString "2.0")), ("result", obj), ("id", .int id)]
  | .error err => .object [("jsonrpc", .string (lib.fromString "2.0")), ("error", makeError lib err), ("id", .int id)]

/-- What there is of a reply in its response: the message of an error went through
`ucl_object_fromstring`. -/
def arrived (lib : Libucl) : Reply → Reply
  | .result obj => .result obj
  | .error err => .error { err with errmsg := lib.fromString err.errmsg }

/-- If the reply is an error, libucl leaves its message as it is. -/
def Kept (lib : Libucl) : Reply → Prop
  | .result _ => True
  | .error err => lib.fromString err.errmsg = err.errmsg

/-- A completion that holds a reply; its delegate, if it has one, was told so. -/
def complete (comp : Completion) : Reply → Completion
  | .result obj => { comp with err := {}, result := some obj, notified := comp.notified + comp.delegated.toNat }
  | .error err => { comp with err, result := none, notified := comp.notified + comp.delegated.toNat }

end Reply

section Providers

variable (lib : Libucl) (await : Nat → Transport → Except Stuck (Bool × Transport))

/-- Each provider that is asked returns -1, 0 or 1, and the next is asked after -1. -/
def Returns : List Provider → Req → Transport → Prop
  | [], _, _ => True
  | svc :: svcs, req, t => ∃ a t', (svc t req).run lib await t = .ok (a, t') ∧
      (a.code = 0 ∨ a.code = 1 ∨ a.code = -1 ∧ Returns svcs { req with result := a.result, err := a.err } t')

/-- The reply that is due, from the first provider that does not return -1, and the
transport as the handlers leave it. -/
inductive Answers : List Provider → Req → Transport → Reply → Transport → Prop where
  | notFound {req t} : Answers [] req t (.error Error.methodNotFound) t
  | result {svc svcs req t a t'} : (svc t req).run lib await t = .ok (a, t') → a.code = 0 →
      Answers (svc :: svcs) req t (.result (a.result.getD .null)) t'
  | error {svc svcs req t a t'} : (svc t req).run lib await t = .ok (a, t') → a.code = 1 →
      Answers (svc :: svcs) req t (.error a.err) t'
  | declines {svc svcs req t a t' reply t''} : (svc t req).run lib await t = .ok (a, t') → a.code = -1 →
      Answers svcs { req with result := a.result, err := a.err } t' reply t'' → Answers (svc :: svcs) req t reply t''

variable {lib await} {svcs : List Provider} {req : Req} {t t' : Transport} {reply : Reply}

theorem Answers.unique {reply' : Reply} {t'' : Transport} (h : Answers lib await svcs req t reply t')
    (h' : Answers lib await svcs req t reply' t'') : reply = reply' ∧ t' = t'' := by
  induction h with
  | notFound =>
    cases h'
    exact ⟨rfl, rfl⟩
  | result hrun hcode =>
    cases h' <;> grind
  | error hrun hcode =>
    cases h' <;> grind
  | declines hrun hcode hrest ih =>
    cases h' <;> grind

theorem exists_answers (h : Returns lib await svcs req t) : ∃ reply t', Answers lib await svcs req t reply t' := by
  induction svcs generalizing req t with
  | nil => exact ⟨_, _, .notFound⟩
  | cons svc svcs ih =>
    obtain ⟨a, t', hrun, hcode | hcode | ⟨hcode, hrest⟩⟩ := h
    · exact ⟨_, _, .result hrun hcode⟩
    · exact ⟨_, _, .error hrun hcode⟩
    · obtain ⟨reply, t'', hanswers⟩ := ih hrest
      exact ⟨reply, t'', .declines hrun hcode hanswers⟩

theorem handleRequest_cons {svc : Provider} {a : Answer} (hrun : (svc t req).run lib await t = .ok (a, t')) :
    handleRequest lib await (svc :: svcs) req t =
      if a.code = -1 then handleRequest lib await svcs { req with result := a.result, err := a.err } t'
      else if a.code = 1 then .ok (t'.sendError lib req.id a.err)
      else if req.id ≠ 0 then .ok (t'.sendReply lib req.id a.result)
      else .ok t' := by
  rw [handleRequest, hrun]
  rfl

/-- One response to a request that has an id, and none to one that has not. -/
theorem handleRequest_of_answers (h : Answers lib await svcs req t reply t') :
    handleRequest lib await svcs req t =
      .ok (if req.id = 0 then t' else t'.writeObj lib (reply.response lib req.id.toInt)) := by
  induction h with
  | notFound => rfl
  | @result svc svcs req t a t' hrun hcode =>
    rw [handleRequest_cons hrun, if_neg (by omega), if_neg (by omega)]
    by_cases hid : req.id = 0
    · rw [if_neg (not_not_intro hid), if_pos hid]
    · rw [if_pos hid, if_neg hid]
      rfl
  | error hrun hcode =>
    rw [handleRequest_cons hrun, if_neg (by omega), if_pos hcode]
    rfl
  | declines hrun hcode _ ih => rw [handleRequest_cons hrun, if_pos hcode, ih]

end Providers

section Request

variable {obj : Ucl} (hreq : uclObjIsRequest obj = true) (hresult : obj.lookup "result" = none)
  (herror : obj.lookup "error" = none)

include hresult herror in
theorem responseFor_request : uclObjIsResponseForId obj = 0 := by
  simp [uclObjIsResponseForId, hresult, herror]

include hreq hresult herror in
theorem processMessage_request (lib : Libucl) (svcs : List Provider) (t : Transport)
    (hid : obj.lookup "id" = none ∨ ∃ n, obj.lookup "id" = some (.int n)) :
    processMessage lib svcs t obj =
      handleRequest lib (awaitReply lib svcs (t.events.length + 1)) svcs (requestOf obj) t := by
  unfold processMessage processMessageWith
  rw [responseFor_request hresult herror]
  rcases hid with hid | ⟨n, hid⟩ <;> simp [hreq, hid]

end Request

/-- A transport on which exactly one completion waits for the id, not completed yet. -/
structure Pending (t : Transport) (comp : Nat) (id : Int32) : Prop where
  mem : comp ∈ t.completions
  id_eq : (t.heap comp).id = id
  result_eq : (t.heap comp).result = none
  unique : ∀ a ∈ t.completions, (t.heap a).id = id → a = comp

theorem Pending.find?_eq {t : Transport} {comp : Nat} {id : Int32} (h : Pending t comp id) :
    t.completions.find? (fun a => (t.heap a).id = id) = some comp := by
  cases hfind : t.completions.find? (fun a => (t.heap a).id = id) with
  | none => exact absurd h.id_eq (by simpa using List.find?_eq_none.mp hfind comp h.mem)
  | some a => rw [h.unique a (List.mem_of_find?_eq_some hfind) (by simpa using List.find?_some hfind)]

namespace Reply

theorem responseFor_response (lib : Libucl) (reply : Reply) (id : Int32) :
    uclObjIsResponseForId (reply.response lib id.toInt) = id := by
  cases reply <;> simp [response, uclObjIsResponseForId, Ucl.lookup]

/-- Everything of an error but its message is decoded to what it was. -/
theorem uclToError_makeError (lib : Libucl) (err : Error) :
    uclToError (some (makeError lib err)) = some { err with errmsg := lib.fromString err.errmsg } := by
  simp [uclToError, makeError, Ucl.lookup, Ucl.toInt, Ucl.toString?]

/-- The response decodes to what arrived of the reply it was made of. -/
theorem completed_response (lib : Libucl) (reply : Reply) (id : Int) {comp : Completion}
    (hresult : comp.result = none) :
    Transport.completed comp (reply.response lib id) = some ((reply.arrived lib).complete comp) := by
  cases reply with
  | result obj => rfl
  | error err =>
    have hlookup : (response lib id (.error err)).lookup "result" = none := rfl
    have hlookup' : (response lib id (.error err)).lookup "error" = some (makeError lib err) := rfl
    simp [Transport.completed, complete, arrived, hlookup, hlookup', uclToError_makeError, hresult]

/-- The caller's completion is the same as if the reply itself had come, exactly if its
message is kept. -/
theorem complete_arrived_iff (lib : Libucl) (reply : Reply) (comp : Completion) :
    (reply.arrived lib).complete comp = reply.complete comp ↔ reply.Kept lib := by
  cases reply with
  | result obj => simp [arrived, Kept]
  | error err =>
    obtain ⟨errcode, errmsg⟩ := err
    simp [arrived, complete, Kept]

end Reply

theorem readyForRead_response (svcs : List Provider) {lib : Libucl} {t : Transport} {comp : Nat} {id : Int32}
    (reply : Reply) (hintact : Intact lib (reply.response lib id.toInt)) (hid : id ≠ 0) (hpending : Pending t comp id) :
    readyForRead lib svcs t (lib.emit (reply.response lib id.toInt)) =
      .ok { t with heap := fun a => if a = comp then (reply.arrived lib).complete (t.heap comp) else t.heap a } := by
  have hparse : lib.parse (lib.emit (reply.response lib id.toInt)) = some (reply.response lib id.toInt) := hintact
  unfold readyForRead
  rw [hparse]
  simp only [processMessage, processMessageWith, Reply.responseFor_response, hid, hpending.find?_eq, ne_eq,
    not_false_eq_true, if_true, Transport.completeWith, Reply.completed_response lib reply _ hpending.result_eq]

/-- The request has the id, which is not 0 and fits in an `int`. -/
structure HasId (obj : Ucl) (n : Int) : Prop where
  lookup_eq : obj.lookup "id" = some (.int n)
  ne_zero : n ≠ 0
  low : -2 ^ 31 ≤ n
  high : n < 2 ^ 31

/-- A request is answered by one response, made of the reply that is due, and that
completes the call which waits for it with the same reply. A request without an id gets no
response. `reply` comes from the first provider that has the method, and `t'` is the
transport as the handlers leave it. -/
structure Answered (lib : Libucl) (svcs : List Provider) (t : Transport) (obj : Ucl) (reply : Reply)
    (t' : Transport) : Prop where
  due : Answers lib (awaitReply lib svcs (t.events.length + 1)) svcs (requestOf obj) t reply t'
  written : ∀ n, HasId obj n → processMessage lib svcs t obj =
    .ok { t' with written := t'.written ++ [lib.emit (reply.response lib n)] }
  silent : obj.lookup "id" = none ∨ obj.lookup "id" = some (.int 0) → processMessage lib svcs t obj = .ok t'
  received : ∀ n, HasId obj n → ∀ svcs' u comp, Pending u comp (Int32.ofInt n) →
    readyForRead lib svcs' u (lib.emit (reply.response lib n)) =
      .ok { u with heap := fun a => if a = comp then reply.complete (u.heap comp) else u.heap a }

section Dispatch

variable {lib : Libucl} {svcs : List Provider} {t t' : Transport} {obj : Ucl} {reply : Reply} {n : Int}

theorem HasId.toInt_ofInt (h : HasId obj n) : (Int32.ofInt n).toInt = n :=
  Int32.toInt_ofInt_of_le h.low h.high

theorem HasId.ofInt_ne_zero (h : HasId obj n) : Int32.ofInt n ≠ 0 := by
  intro hzero
  have hint := h.toInt_ofInt
  rw [hzero] at hint
  exact h.ne_zero hint.symm

theorem HasId.requestOf_id (h : HasId obj n) : (requestOf obj).id = Int32.ofInt n := by
  simp [requestOf, h.lookup_eq, Ucl.toInt]

/-- Some transport has just the call that waits for the id. -/
theorem exists_pending (id : Int32) : ∃ u : Transport, Pending u 0 id :=
  ⟨{ heap := fun _ => { id }, next := 1, completions := [0], rand := fun _ => 0 }, by simp, rfl, rfl, by simp⟩

section Request

variable (hreq : uclObjIsRequest obj = true) (hresult : obj.lookup "result" = none) (herror : obj.lookup "error" = none)
  (hanswers : Answers lib (awaitReply lib svcs (t.events.length + 1)) svcs (requestOf obj) t reply t')

include hreq hresult herror hanswers

/-- One response goes out for a request that has an id. -/
theorem processMessage_hasId (hid : HasId obj n) :
    processMessage lib svcs t obj = .ok { t' with written := t'.written ++ [lib.emit (reply.response lib n)] } := by
  have hhandled := handleRequest_of_answers hanswers
  rw [hid.requestOf_id, if_neg hid.ofInt_ne_zero, hid.toInt_ofInt] at hhandled
  rw [processMessage_request hreq hresult herror lib svcs t (Or.inr ⟨n, hid.lookup_eq⟩), hhandled]
  rfl

/-- No response goes out for one that has none. -/
theorem processMessage_noId (hid : obj.lookup "id" = none ∨ obj.lookup "id" = some (.int 0)) :
    processMessage lib svcs t obj = .ok t' := by
  have hrequest : (requestOf obj).id = 0 := by
    rcases hid with hid | hid
    · simp [requestOf, hid]
    · simp [requestOf, hid, Ucl.toInt]
  rw [processMessage_request hreq hresult herror lib svcs t (hid.imp_right fun h => ⟨0, h⟩),
    handleRequest_of_answers hanswers, if_pos hrequest]

end Request

/-- The response brings the reply to the caller as it was exactly if its message is kept. -/
theorem received_iff (hid : HasId obj n) (hintact : Intact lib (reply.response lib n)) :
    (∀ svcs' u comp, Pending u comp (Int32.ofInt n) → readyForRead lib svcs' u (lib.emit (reply.response lib n)) =
      .ok { u with heap := fun a => if a = comp then reply.complete (u.heap comp) else u.heap a }) ↔
        reply.Kept lib := by
  have harrived : ∀ svcs' u comp, Pending u comp (Int32.ofInt n) →
      readyForRead lib svcs' u (lib.emit (reply.response lib n)) =
        .ok { u with heap := fun a => if a = comp then (reply.arrived lib).complete (u.heap comp) else u.heap a } := by
    intro svcs' u comp hpending
    rw [← hid.toInt_ofInt] at hintact ⊢
    exact readyForRead_response svcs' reply hintact hid.ofInt_ne_zero hpending
  constructor
  · intro h
    obtain ⟨u, hpending⟩ := exists_pending (Int32.ofInt n)
    have hboth := Except.ok.inj ((harrived [] u 0 hpending).symm.trans (h [] u 0 hpending))
    have hheap := congrFun (congrArg Transport.heap hboth) 0
    simp only [if_true] at hheap
    exact (reply.complete_arrived_iff lib _).mp hheap
  · intro hkept svcs' u comp hpending
    rw [harrived svcs' u comp hpending, (reply.complete_arrived_iff lib _).mpr hkept]

end Dispatch

/-- Dispatch and reply agree end to end exactly if libucl keeps the message of the error
that is the reply to a request with an id, if it is an error. -/
theorem processMessage_answered_iff (lib : Libucl) (svcs : List Provider) (t : Transport) (obj : Ucl)
    (hreq : uclObjIsRequest obj = true) (hresult : obj.lookup "result" = none) (herror : obj.lookup "error" = none)
    (hreturns : Returns lib (awaitReply lib svcs (t.events.length + 1)) svcs (requestOf obj) t)
    (hintact : ∀ n reply t', HasId obj n →
      Answers lib (awaitReply lib svcs (t.events.length + 1)) svcs (requestOf obj) t reply t' →
        Intact lib (reply.response lib n)) :
    (∃ reply t', Answered lib svcs t obj reply t') ↔
      ∀ n reply t', HasId obj n →
        Answers lib (awaitReply lib svcs (t.events.length + 1)) svcs (requestOf obj) t reply t' → reply.Kept lib := by
  constructor
  · rintro ⟨reply, t', h⟩ n reply' u hid hanswers
    obtain ⟨rfl, rfl⟩ := hanswers.unique h.due
    exact (received_iff hid (hintact n _ _ hid hanswers)).mp (h.received n hid)
  · intro hkept
    obtain ⟨reply, t', hanswers⟩ := exists_answers hreturns
    refine ⟨reply, t', hanswers, fun n hid => processMessage_hasId hreq hresult herror hanswers hid,
      processMessage_noId hreq hresult herror hanswers, fun n hid => ?_⟩
    exact (received_iff hid (hintact n _ _ hid hanswers)).mpr (hkept n reply t' hid hanswers)

/-- A request, and the response of a provider that has the method. -/
def pingRequest : Ucl :=
  .object [("jsonrpc", .string "2.0"), ("method", .string "ping_v1"), ("id", .int 7)]

def pong : Reply :=
  .result (.string "pong")

def pongProvider : Provider :=
  fun _ _ => .answer { code := 0, result := some (.string "pong"), err := {} }

/-- The text of that response. -/
def pongText : Message where
  text := "\x7b\"jsonrpc\":\"2.0\",\"result\":\"pong\",\"id\":7\x7d".toUTF8.toList
  nul_free := by decide +kernel

/-- All that is emitted and parsed here. -/
def pongLib : Libucl where
  emit _ := pongText
  parse _ := some (.object [("jsonrpc", .string "2.0"), ("result", .string "pong"), ("id", .int 7)])
  fromString s := s

/-- The text of a call. -/
def pingText : Message where
  text := "\x7b\"jsonrpc\":\"2.0\",\"method\":\"ping_v1\",\"id\":7\x7d".toUTF8.toList
  nul_free := by decide +kernel

/-- All that is emitted and parsed in a call and its answer. -/
def pingPongLib : Libucl where
  emit obj := if uclObjIsRequest obj then pingText else pongText
  parse m := some (if m.text = pingText.text then pingRequest else
    .object [("jsonrpc", .string "2.0"), ("result", .string "pong"), ("id", .int 7)])
  fromString s := s

/-- A transport with one call under way. -/
def pinger : Transport where
  heap _ := { id := 7, delegated := true }
  next := 1
  completions := [0]
  rand _ := 1

theorem processMessage_answered_pong :
    processMessage pongLib [pongProvider] pinger pingRequest =
        .ok { pinger with written := [pongLib.emit (pong.response pongLib 7)] } ∧
      readyForRead pongLib [] pinger (pongLib.emit (pong.response pongLib 7)) =
        .ok { pinger with heap := fun a => if a = 0 then pong.complete (pinger.heap 0) else pinger.heap a } := by
  have hpong : Answers pongLib (awaitReply pongLib [pongProvider] (pinger.events.length + 1)) [pongProvider]
      (requestOf pingRequest) pinger pong pinger :=
    .result (a := { code := 0, result := some (.string "pong"), err := {} }) rfl rfl
  have hid : HasId pingRequest 7 := ⟨rfl, by decide, by decide, by decide⟩
  have hintact : ∀ n reply t', HasId pingRequest n → Answers pongLib (awaitReply pongLib [pongProvider]
      (pinger.events.length + 1)) [pongProvider] (requestOf pingRequest) pinger reply t' →
      Intact pongLib (reply.response pongLib n) := by
    intro n reply t' hn hanswers
    obtain ⟨rfl, rfl⟩ := hanswers.unique hpong
    obtain rfl : (7 : Int) = n := by simpa using hid.lookup_eq.symm.trans hn.lookup_eq
    rfl
  have hiff := processMessage_answered_iff pongLib [pongProvider] pinger pingRequest (by decide) (by rfl) (by rfl)
    ⟨_, _, rfl, Or.inl rfl⟩ hintact
  obtain ⟨reply, t', h⟩ := hiff.mpr fun n reply t' _ hanswers => (hanswers.unique hpong).1 ▸ trivial
  obtain ⟨rfl, rfl⟩ := hpong.unique h.due
  exact ⟨h.written 7 hid, h.received 7 hid [] pinger 0 ⟨by decide, rfl, rfl, by decide⟩⟩

/-- A provider that fails, with a message in which something is quoted. -/
def quoter : Provider :=
  fun _ _ => .answer { code := 1, result := none, err := { errcode := 1, errmsg := "a\"b" } }

/-- The text of its response. -/
def quotedText : Message where
  text := "\x7b\"jsonrpc\":\"2.0\",\"error\":\x7b\"code\":1,\"message\":\"a\\\\\\\"b\"\x7d,\"id\":7\x7d".toUTF8.toList
  nul_free := by decide +kernel

/-- libucl, which escapes the quote before it emits it. -/
def escapingLib : Libucl where
  emit _ := quotedText
  parse _ := some (.object [("jsonrpc", .string "2.0"),
    ("error", .object [("code", .int 1), ("message", .string "a\\\"b")]), ("id", .int 7)])
  fromString := jsonEscape

theorem intact_quoted : Intact escapingLib (Reply.response escapingLib 7
    (.error { errcode := 1, errmsg := "a\"b" })) := by
  have hversion : jsonEscape "2.0" = "2.0" := by decide
  have hquoted : jsonEscape "a\"b" = "a\\\"b" := by decide
  simp [Intact, escapingLib, Reply.response, makeError, hversion, hquoted]

/-- The caller is told of another message. -/
theorem not_answered_quoted :
    Intact escapingLib (Reply.response escapingLib 7 (.error { errcode := 1, errmsg := "a\"b" })) ∧
      ¬∃ reply t', Answered escapingLib [quoter] pinger pingRequest reply t' := by
  refine ⟨intact_quoted, ?_⟩
  rintro ⟨reply, t', h⟩
  have hquoted : Answers escapingLib (awaitReply escapingLib [quoter] (pinger.events.length + 1)) [quoter]
      (requestOf pingRequest) pinger (.error { errcode := 1, errmsg := "a\"b" }) pinger :=
    .error (a := { code := 1, result := none, err := { errcode := 1, errmsg := "a\"b" } }) rfl rfl
  obtain ⟨rfl, rfl⟩ := hquoted.unique h.due
  have hid : HasId pingRequest 7 := ⟨rfl, by decide, by decide, by decide⟩
  have hkept := (received_iff hid intact_quoted).mp (h.received 7 hid)
  exact absurd hkept (show ¬jsonEscape "a\"b" = "a\"b" by decide)

end ServiceManager.Wsrpc
