import ServiceManager.Wsrpc.Matching

namespace ServiceManager.Wsrpc

open Trace

/-- The object that calls a method. -/
def callObject (lib : Libucl) (method : String) (params : Option Ucl) (id : Int32) : Ucl :=
  .object ([("jsonrpc", .string (lib.fromString "2.0")), ("method", .string (lib.fromString method))] ++
    (params.map fun params => ("params", params)).toList ++ [("id", .int id.toInt)])

/-- The two ends of a connection. Either may call the other. -/
inductive Side where
  | near
  | far
  deriving DecidableEq

namespace Side

def peer : Side → Side
  | near => far
  | far => near

@[simp] theorem peer_peer (p : Side) : p.peer.peer = p := by
  cases p <;> rfl

@[simp] theorem peer_ne (p : Side) : p.peer ≠ p := by
  cases p <;> decide

theorem eq_or_eq_peer (p x : Side) : x = p ∨ x = p.peer := by
  cases p <;> cases x <;> simp [peer]

end Side

/-- Two transports that are connected, with how much of what the peer wrote each end
has read. What each end asked for and answered so far is kept beside it. -/
structure Session where
  transport : Side → Transport
  read : Side → Nat := fun _ => 0
  asked : Side → List Ucl := fun _ => []
  answered : Side → List (Ucl × Reply) := fun _ => []

namespace Session

/-- What the peer wrote and the end has not read yet. -/
def inbox (s : Session) (p : Side) : List Message :=
  (s.transport p.peer).written.drop (s.read p)

/-- An asynchronous call of a method. -/
def call (lib : Libucl) (s : Session) (p : Side) (method : String) (params : Option Ucl) : Session :=
  { s with
    transport := Function.update s.transport p ((s.transport p).sendMessage lib method params true).2
    asked := Function.update s.asked p (s.asked p ++ [callObject lib method params ((s.transport p).rand 0)]) }

/-- The end has read a message, which left it with the transport. -/
def receive (s : Session) (p : Side) (t : Transport) : Session :=
  { s with
    transport := Function.update s.transport p t
    read := Function.update s.read p (s.read p + 1) }

def answer (s : Session) (p : Side) (obj : Ucl) (reply : Reply) : Session :=
  { s with answered := Function.update s.answered p (s.answered p ++ [(obj, reply)]) }

/-- Nothing was sent yet. -/
structure Start (s : Session) : Prop where
  transport : ∀ p, Wsrpc.Start (s.transport p)
  written_eq : ∀ p, (s.transport p).written = []
  read_eq : ∀ p, s.read p = 0
  asked_eq : ∀ p, s.asked p = []
  answered_eq : ∀ p, s.answered p = []

inductive Label where
  | call (p : Side)
  | deliver (p : Side)

/-- The calls of either end and the messages that come in at either, in any order. What
is written is read back as it was. -/
inductive Step (lib : Libucl) (svcs : Side → List Provider) : Session → Label → Session → Prop
  | call {s} (p : Side) (method : String) (params : Option (List (String × Ucl))) :
      Intact lib (callObject lib method (params.map .object) ((s.transport p).rand 0)) →
      Step lib svcs s (.call p) (s.call lib p method (params.map .object))
  | request {s p m rest obj reply q t} : s.inbox p = m :: rest → lib.parse m = some obj →
      uclObjIsResponseForId obj = 0 →
      Answers lib (awaitReply lib (svcs p) ((s.transport p).events.length + 1)) (svcs p) (requestOf obj)
        (s.transport p) reply q →
      Intact lib (reply.response lib (requestOf obj).id.toInt) →
      readyForRead lib (svcs p) (s.transport p) m = .ok t →
      Step lib svcs s (.deliver p) ((s.receive p t).answer p obj reply)
  | response {s p m rest obj t} : s.inbox p = m :: rest → lib.parse m = some obj →
      uclObjIsResponseForId obj ≠ 0 → readyForRead lib (svcs p) (s.transport p) m = .ok t →
      Step lib svcs s (.deliver p) (s.receive p t)

/-- A call draws an id that is not 0 and that no call before it has. -/
def Label.Fresh (s : Session) : Label → Prop
  | .call p => (s.transport p).rand 0 ≠ 0 ∧ ∀ a < (s.transport p).next,
      ((s.transport p).heap a).id ≠ (s.transport p).rand 0
  | .deliver _ => True

end Session

/-- The providers answer without calling the peer themselves. -/
def Prompt (svcs : List Provider) : Prop :=
  ∀ svc ∈ svcs, ∀ t req, ∃ a, svc t req = .answer a ∧ (a.code = 0 ∨ a.code = 1 ∨ a.code = -1)

/-- The text asks for something under the id. -/
def Asks (lib : Libucl) (id : Int32) (m : Message) : Bool :=
  (lib.parse m).any fun obj => uclObjIsResponseForId obj = 0 ∧ (requestOf obj).id = id

/-- The text answers what was asked for under the id. -/
def Replies (lib : Libucl) (id : Int32) (m : Message) : Bool :=
  (lib.parse m).any fun obj => uclObjIsResponseForId obj = id

section Objects

variable {lib : Libucl} {svcs : List Provider} {t t' : Transport} {obj : Ucl} {m : Message} {reply : Reply}

theorem written_sendMessage (t : Transport) (method : String) (params : Option Ucl) (delegated : Bool) :
    (t.sendMessage lib method params delegated).2.written =
      t.written ++ [lib.emit (callObject lib method params (t.rand 0))] :=
  rfl

theorem callObject_id (lib : Libucl) (method : String) (params : Option Ucl) (id : Int32) :
    (callObject lib method params id).lookup "id" = some (.int id.toInt) := by
  cases params <;> simp [callObject, Ucl.lookup]

theorem requestOf_callObject (lib : Libucl) (method : String) (params : Option Ucl) (id : Int32) :
    (requestOf (callObject lib method params id)).id = id := by
  simp [requestOf, callObject_id, Ucl.toInt]

theorem callObject_result (lib : Libucl) (method : String) (params : Option Ucl) (id : Int32) :
    (callObject lib method params id).lookup "result" = none := by
  cases params <;> simp [callObject, Ucl.lookup]

theorem callObject_error (lib : Libucl) (method : String) (params : Option Ucl) (id : Int32) :
    (callObject lib method params id).lookup "error" = none := by
  cases params <;> simp [callObject, Ucl.lookup]

theorem callObject_isRequest (lib : Libucl) (method : String) (params : Option (List (String × Ucl))) (id : Int32) :
    uclObjIsRequest (callObject lib method (params.map .object) id) = true := by
  cases params <;> simp [callObject, uclObjIsRequest, Ucl.lookup]

theorem responseFor_callObject (lib : Libucl) (method : String) (params : Option Ucl) (id : Int32) :
    uclObjIsResponseForId (callObject lib method params id) = 0 :=
  responseFor_request (callObject_result lib method params id) (callObject_error lib method params id)

/-- Prompt providers always have an answer, and leave the transport to it. -/
theorem Prompt.answers (h : Prompt svcs) (lib : Libucl) (await : Nat → Transport → Except Stuck (Bool × Transport))
    (req : Req)
    (t : Transport) : ∃ reply, Answers lib await svcs req t reply t := by
  induction svcs generalizing req with
  | nil => exact ⟨_, .notFound⟩
  | cons svc svcs ih =>
    obtain ⟨hsvc, hrest⟩ := List.forall_mem_cons.mp h
    obtain ⟨a, hanswer, hcode⟩ := hsvc t req
    have hrun : (svc t req).run lib await t = .ok (a, t) := by
      rw [hanswer]
      rfl
    rcases hcode with hcode | hcode | hcode
    · exact ⟨_, .result hrun hcode⟩
    · exact ⟨_, .error hrun hcode⟩
    · obtain ⟨reply, hreply⟩ := ih hrest { req with result := a.result, err := a.err }
      exact ⟨reply, .declines hrun hcode hreply⟩

/-- A call is answered. -/
theorem readyForRead_call {method : String} {params : Option (List (String × Ucl))} {id : Int32} (hprompt : Prompt svcs)
    (hid : id ≠ 0) (hparse : lib.parse m = some (callObject lib method (params.map .object) id))
    (hanswers : Answers lib (awaitReply lib svcs (t.events.length + 1)) svcs
      (requestOf (callObject lib method (params.map .object) id)) t reply t') :
    readyForRead lib svcs t m = .ok (t.writeObj lib (reply.response lib id.toInt)) := by
  obtain ⟨reply', hsame⟩ : ∃ reply', Answers lib (awaitReply lib svcs (t.events.length + 1)) svcs
      (requestOf (callObject lib method (params.map .object) id)) t reply' t := hprompt.answers lib _ _ t
  obtain rfl : t = t' := (hsame.unique hanswers).2
  have hhandled := handleRequest_of_answers hanswers
  rw [requestOf_callObject, if_neg hid] at hhandled
  unfold readyForRead
  rw [hparse]
  simp only
  rw [processMessage_request (callObject_isRequest lib method params id) (callObject_result lib _ _ id)
    (callObject_error lib _ _ id)
    lib svcs t (Or.inr ⟨_, callObject_id lib _ _ id⟩), hhandled]

/-- A response completes the call that waits for it. -/
theorem readyForRead_reply (svcs : List Provider) {comp : Nat} {id : Int32} (hid : id ≠ 0)
    (hparse : lib.parse m = some (reply.response lib id.toInt)) (hpending : Pending t comp id) :
    readyForRead lib svcs t m =
      .ok { t with heap := fun a => if a = comp then (reply.arrived lib).complete (t.heap comp) else t.heap a } := by
  unfold readyForRead
  rw [hparse]
  simp only [processMessage, processMessageWith, Reply.responseFor_response, hid, hpending.find?_eq, ne_eq,
    not_false_eq_true, if_true, Transport.completeWith, Reply.completed_response lib reply _ hpending.result_eq]

end Objects

end ServiceManager.Wsrpc
