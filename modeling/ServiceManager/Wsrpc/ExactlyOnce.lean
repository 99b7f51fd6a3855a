import ServiceManager.Wsrpc.Accounts
import Mathlib.Algebra.GroupWithZero.Nat

namespace ServiceManager.Wsrpc

open Trace

namespace Session

variable {lib : Libucl} {svcs : Side → List Provider} {s s' : Session} {p : Side} {t : Transport}

section Inbox

theorem inbox_call (lib : Libucl) (hle : s.read p.peer ≤ (s.transport p).written.length) (method : String)
    (params : Option Ucl) :
    (s.call lib p method params).inbox p = s.inbox p ∧
      (s.call lib p method params).inbox p.peer =
        s.inbox p.peer ++ [lib.emit (callObject lib method params ((s.transport p).rand 0))] := by
  constructor
  · simp [inbox, call]
  · simp only [inbox, call, Side.peer_peer, Function.update_self, written_sendMessage]
    rw [List.drop_append_of_le_length hle]

theorem inbox_receive (hle : s.read p.peer ≤ (s.transport p).written.length) {new : List Message}
    (hwritten : t.written = (s.transport p).written ++ new) :
    (s.receive p t).inbox p = (s.inbox p).tail ∧ (s.receive p t).inbox p.peer = s.inbox p.peer ++ new := by
  constructor
  · simp [inbox, receive, List.tail_drop]
  · simp only [inbox, receive, Side.peer_peer, Function.update_self, hwritten]
    rw [Function.update_of_ne (Side.peer_ne p), List.drop_append_of_le_length hle]

@[simp] theorem answer_transport (obj : Ucl) (reply : Reply) : (s.answer p obj reply).transport = s.transport := rfl

@[simp] theorem answer_inbox (obj : Ucl) (reply : Reply) : (s.answer p obj reply).inbox = s.inbox := rfl

@[simp] theorem answer_read (obj : Ucl) (reply : Reply) : (s.answer p obj reply).read = s.read := rfl

@[simp] theorem answer_asked (obj : Ucl) (reply : Reply) : (s.answer p obj reply).asked = s.asked := rfl

@[simp] theorem answered_self (obj : Ucl) (reply : Reply) :
    (s.answer p obj reply).answered p = s.answered p ++ [(obj, reply)] :=
  Function.update_self ..

@[simp] theorem answered_peer (obj : Ucl) (reply : Reply) :
    (s.answer p obj reply).answered p.peer = s.answered p.peer :=
  Function.update_of_ne (Side.peer_ne p) ..

end Inbox

/-- Each end's calls are accounted for, and what is to be read can be. -/
structure Orderly (lib : Libucl) (s : Session) : Prop where
  read_le : ∀ p : Side, s.read p.peer ≤ (s.transport p).written.length
  legible : ∀ p, ∀ m ∈ s.inbox p, ∃ obj, lib.parse m = some obj
  accounted : ∀ p : Side, Accounted lib (s.transport p) (s.asked p) (s.answered p.peer) (s.inbox p.peer) (s.inbox p)

theorem Start.orderly (h : s.Start) : s.Orderly lib := by
  have hinbox : ∀ p, s.inbox p = [] := by
    intro p
    rw [inbox, h.written_eq, List.drop_nil]
  refine ⟨fun p => ?_, fun p m hm => ?_, fun p => ?_⟩
  · rw [h.read_eq]
    exact Nat.zero_le _
  · rw [hinbox] at hm
    cases hm
  · have hnext := (h.transport p).next_eq
    have hcompletions := (h.transport p).completions_eq
    rw [hinbox, hinbox, h.asked_eq, h.answered_eq]
    refine ⟨⟨?_, ?_, ?_⟩, ?_, ?_, ?_, ?_, ?_, ?_, ?_, ?_, ?_, ?_⟩ <;> simp [hnext, hcompletions]

/-- One end calls a method. -/
theorem Orderly.call (h : s.Orderly lib) {method : String} {params : Option (List (String × Ucl))}
    (hfresh : Label.Fresh s (.call p))
    (hintact : Intact lib (callObject lib method (params.map .object) ((s.transport p).rand 0))) :
    (s.call lib p method (params.map .object)).Orderly lib := by
  obtain ⟨hself, hpeer⟩ := inbox_call lib (h.read_le p) method (params.map .object)
  refine ⟨fun x => ?_, fun x m hm => ?_, fun x => ?_⟩
  · rcases p.eq_or_eq_peer x with rfl | rfl
    · simp only [Session.call, Function.update_self, written_sendMessage, List.length_append]
      exact Nat.le_add_right_of_le (h.read_le x)
    · simp only [Session.call, Function.update_of_ne (Side.peer_ne p)]
      exact h.read_le p.peer
  · rcases p.eq_or_eq_peer x with rfl | rfl
    · rw [hself] at hm
      exact h.legible x m hm
    · rw [hpeer] at hm
      rcases List.mem_append.mp hm with hm | hm
      · exact h.legible p.peer m hm
      · obtain rfl := List.mem_singleton.mp hm
        exact ⟨_, hintact⟩
  · rcases p.eq_or_eq_peer x with rfl | rfl
    · have hlegible : ∀ m ∈ s.inbox x.peer ++ s.inbox x, ∃ obj, lib.parse m = some obj := by
        intro m hm
        exact (List.mem_append.mp hm).elim (h.legible x.peer m) (h.legible x m)
      have haccounted := (h.accounted x).sendMessage method params hfresh hlegible hintact
      rw [hself, hpeer]
      simpa [Session.call] using haccounted
    · have haccounted := (h.accounted p.peer).back_append hintact (responseFor_callObject _ _ _ _)
      rw [Side.peer_peer] at haccounted ⊢
      rw [hself, hpeer]
      simpa [Session.call, Function.update_of_ne (Side.peer_ne p)] using haccounted

section Receive

variable {m : Message} {rest new : List Message}

theorem Orderly.receive_read_le (h : s.Orderly lib) (hinbox : s.inbox p = m :: rest)
    (hwritten : t.written = (s.transport p).written ++ new) (x : Side) :
    (s.receive p t).read x.peer ≤ ((s.receive p t).transport x).written.length := by
  rcases p.eq_or_eq_peer x with rfl | rfl
  · simp only [receive, Function.update_self, Function.update_of_ne (Side.peer_ne x), hwritten, List.length_append]
    exact Nat.le_add_right_of_le (h.read_le x)
  · have hlen := congrArg List.length hinbox
    simp only [inbox, List.length_drop, List.length_cons] at hlen
    simp only [receive, Side.peer_peer, Function.update_self, Function.update_of_ne (Side.peer_ne p)]
    omega

theorem Orderly.receive_legible (h : s.Orderly lib) (hwritten : t.written = (s.transport p).written ++ new)
    (hnew : ∀ m ∈ new, ∃ obj, lib.parse m = some obj) (x : Side) :
    ∀ m ∈ (s.receive p t).inbox x, ∃ obj, lib.parse m = some obj := by
  obtain ⟨hself, hpeer⟩ := inbox_receive (h.read_le p) hwritten
  intro m hm
  rcases p.eq_or_eq_peer x with rfl | rfl
  · rw [hself] at hm
    exact h.legible x m (List.mem_of_mem_tail hm)
  · rw [hpeer] at hm
    exact (List.mem_append.mp hm).elim (h.legible p.peer m) (hnew m)

/-- One end reads a request of its peer. -/
theorem Orderly.request (h : s.Orderly lib) (hprompt : Prompt (svcs p)) {obj : Ucl} {reply : Reply} {q : Transport}
    (hinbox : s.inbox p = m :: rest) (hparse : lib.parse m = some obj) (hresp : uclObjIsResponseForId obj = 0)
    (hanswers : Answers lib (awaitReply lib (svcs p) ((s.transport p).events.length + 1)) (svcs p) (requestOf obj)
      (s.transport p) reply q) :
    readyForRead lib (svcs p) (s.transport p) m =
        .ok ((s.transport p).writeObj lib (reply.response lib (requestOf obj).id.toInt)) ∧
      uclObjIsResponseForId (reply.response lib (requestOf obj).id.toInt) ≠ 0 := by
  have hpeer := h.accounted p.peer
  rw [Side.peer_peer] at hpeer
  obtain ⟨c, hc⟩ := hpeer.request m (hinbox ▸ List.mem_cons_self) obj hparse hresp
  obtain ⟨method, params, rfl⟩ := hpeer.call c obj hc
  have hid := hpeer.told.ne_zero c (hpeer.lt_of_asked hc)
  rw [requestOf_callObject, Reply.responseFor_response]
  exact ⟨readyForRead_call hprompt hid hparse hanswers, hid⟩

/-- The answer to a request is one more reply on its way back. -/
theorem Orderly.answered (h : s.Orderly lib) {obj : Ucl} {reply : Reply} (hinbox : s.inbox p = m :: rest)
    (hparse : lib.parse m = some obj) (hresp : uclObjIsResponseForId obj = 0)
    (hreplies : uclObjIsResponseForId (reply.response lib (requestOf obj).id.toInt) ≠ 0)
    (hintact : Intact lib (reply.response lib (requestOf obj).id.toInt)) :
    ((s.receive p ((s.transport p).writeObj lib (reply.response lib (requestOf obj).id.toInt))).answer p obj
      reply).Orderly
      lib := by
  have hwritten : ((s.transport p).writeObj lib (reply.response lib (requestOf obj).id.toInt)).written =
      (s.transport p).written ++ [lib.emit (reply.response lib (requestOf obj).id.toInt)] := rfl
  obtain ⟨hself, hother⟩ := inbox_receive (h.read_le p) hwritten
  rw [hinbox, List.tail_cons] at hself
  refine ⟨h.receive_read_le hinbox hwritten, h.receive_legible hwritten ?_, fun x => ?_⟩
  · intro m' hm'
    obtain rfl := List.mem_singleton.mp hm'
    exact ⟨_, hintact⟩
  · rcases p.eq_or_eq_peer x with rfl | rfl
    · have haccounted := (h.accounted x).writeObj (reply.response lib (requestOf obj).id.toInt)
      have haccounted := (haccounted.back_tail hinbox hparse hresp).out_append hintact hreplies
      rw [answer_inbox, hself, hother, answered_peer]
      simpa [receive] using haccounted
    · have hpeer := h.accounted p.peer
      rw [Side.peer_peer] at hpeer
      have haccounted := hpeer.answer hinbox hparse hresp hintact
      rw [answer_inbox, Side.peer_peer, hself, hother, answered_self]
      simpa [receive, Function.update_of_ne (Side.peer_ne p)] using haccounted

/-- One end reads a response of its peer. -/
theorem Orderly.response (h : s.Orderly lib) (svcs : Side → List Provider) {obj : Ucl} (hinbox : s.inbox p = m :: rest)
    (hparse : lib.parse m = some obj) (hresp : uclObjIsResponseForId obj ≠ 0) :
    ∃ t, readyForRead lib (svcs p) (s.transport p) m = .ok t ∧ (s.receive p t).Orderly lib := by
  obtain ⟨t, hread, hsame, haccounted⟩ := (h.accounted p).complete (svcs p) hinbox hparse hresp
  have hwritten : t.written = (s.transport p).written ++ [] := by rw [hsame, List.append_nil]
  obtain ⟨hself, hother⟩ := inbox_receive (h.read_le p) hwritten
  rw [hinbox, List.tail_cons] at hself
  rw [List.append_nil] at hother
  refine ⟨t, hread, h.receive_read_le hinbox hwritten, h.receive_legible hwritten (by simp), fun x => ?_⟩
  rcases p.eq_or_eq_peer x with rfl | rfl
  · rw [hself, hother]
    simpa [receive] using haccounted
  · have hpeer := h.accounted p.peer
    rw [Side.peer_peer] at hpeer ⊢
    have hpeer' := hpeer.out_tail hinbox hparse hresp
    rw [hself, hother]
    simpa [receive, Function.update_of_ne (Side.peer_ne p)] using hpeer'

end Receive

/-- What each step keeps. -/
theorem Orderly.step (hprompt : ∀ p, Prompt (svcs p)) {l : Label} (h : s.Orderly lib) (hfresh : l.Fresh s)
    (hstep : Step lib svcs s l s') : s'.Orderly lib := by
  cases hstep with
  | call p method params hintact => exact h.call hfresh hintact
  | @request p m rest obj reply q t hinbox hparse hresp hanswers hintact hread =>
    obtain ⟨hread', hreplies⟩ := h.request (hprompt p) hinbox hparse hresp hanswers
    obtain rfl := Except.ok.inj (hread'.symm.trans hread)
    exact h.answered hinbox hparse hresp hreplies hintact
  | @response p m rest obj t hinbox hparse hresp hread =>
    obtain ⟨t', hread', horderly⟩ := h.response svcs hinbox hparse hresp
    obtain rfl := Except.ok.inj (hread'.symm.trans hread)
    exact horderly

/-- Of the call there is the request on its way, the response on its way or the
completion, which the delegate was told of, once. The peer answered the request at most
once, and it is this answer that the completion holds. -/
structure ExactlyOnce (lib : Libucl) (s : Session) (p : Side) (c : Nat) : Prop where
  once : (s.inbox p.peer).countP (Asks lib ((s.transport p).heap c).id) +
    (s.inbox p).countP (Replies lib ((s.transport p).heap c).id) + ((s.transport p).heap c).notified = 1
  answered : (s.answered p.peer).countP (fun e => (requestOf e.1).id = ((s.transport p).heap c).id) =
    (s.inbox p).countP (Replies lib ((s.transport p).heap c).id) + ((s.transport p).heap c).notified
  completed : ((s.transport p).heap c).notified ≠ 0 → ∃ obj reply, (s.asked p)[c]? = some obj ∧
    (obj, reply) ∈ s.answered p.peer ∧
    (s.transport p).heap c = (reply.arrived lib).complete { id := ((s.transport p).heap c).id, delegated := true }

theorem Orderly.exactlyOnce (h : s.Orderly lib) {c : Nat} (hc : c < (s.transport p).next) : s.ExactlyOnce lib p c where
  once := (h.accounted p).once c hc
  answered := (h.accounted p).handled c hc
  completed := (h.accounted p).completed c hc

section Run

variable (hprompt : ∀ p, Prompt (svcs p)) {s'' : Session} {trace trace' : List (Session × Label)}

include hprompt

theorem orderly_of_run (hstart : s.Start) (hrun : Run (Step lib svcs) s trace s')
    (hfresh : ∀ e ∈ trace, e.2.Fresh e.1) :
    s'.Orderly lib :=
  hrun.invariant (fun _ _ _ h hok hstep => h.step hprompt hok hstep) hstart.orderly hfresh

/-- However the calls of both ends and the messages interleave, no call is lost, none is
answered twice, and none gets the answer to another. -/
theorem run_exactlyOnce (hstart : s.Start) (hrun : Run (Step lib svcs) s trace s')
    (hfresh : ∀ e ∈ trace, e.2.Fresh e.1) :
    ∀ p, ∀ c < (s'.transport p).next, s'.ExactlyOnce lib p c :=
  fun _ _ hc => (orderly_of_run hprompt hstart hrun hfresh).exactlyOnce hc

end Run

/-- How many messages will be read on account of one: a request brings its response. -/
def weight (lib : Libucl) (m : Message) : Nat :=
  match lib.parse m with
  | some obj => if uclObjIsResponseForId obj = 0 then 2 else 1
  | none => 0

/-- How many messages will be read if there are no more calls. -/
def load (lib : Libucl) (s : Session) : Nat :=
  ((s.inbox .near).map (weight lib)).sum + ((s.inbox .far).map (weight lib)).sum

theorem load_eq (lib : Libucl) (s : Session) (p : Side) :
    s.load lib = ((s.inbox p).map (weight lib)).sum + ((s.inbox p.peer).map (weight lib)).sum := by
  cases p with
  | near => rfl
  | far => exact Nat.add_comm _ _

/-- libucl reads back the replies to all that was asked for. -/
def RepliesIntact (lib : Libucl) (svcs : Side → List Provider) (s : Session) : Prop :=
  ∀ p : Side, ∀ obj ∈ s.asked p.peer, ∀ t reply q,
    Answers lib (awaitReply lib (svcs p) (t.events.length + 1)) (svcs p) (requestOf obj) t reply q →
      Intact lib (reply.response lib (requestOf obj).id.toInt)

theorem asked_deliver (h : Step lib svcs s (.deliver p) s') : s'.asked = s.asked := by
  cases h <;> rfl

theorem asked_deliveries {trace : List (Session × Label)} (hrun : Run (Step lib svcs) s trace s')
    (hdeliver : ∀ e ∈ trace, ∃ p, e.2 = .deliver p) : s'.asked = s.asked := by
  induction hrun with
  | nil => rfl
  | cons hstep _ ih =>
    obtain ⟨⟨p, rfl⟩, hlater⟩ := List.forall_mem_cons.mp hdeliver
    exact (ih hlater).trans (asked_deliver hstep)

section Deliveries

variable (hprompt : ∀ p, Prompt (svcs p))

include hprompt

/-- Reading a message takes one off the load. -/
theorem Orderly.load_deliver (h : s.Orderly lib) (hstep : Step lib svcs s (.deliver p) s') :
    s'.load lib + 1 = s.load lib := by
  rw [load_eq lib s p, load_eq lib s' p]
  cases hstep with
  | @request _ m rest obj reply q t hinbox hparse hresp hanswers hintact hread =>
    obtain ⟨hread', hreplies⟩ := h.request (hprompt p) hinbox hparse hresp hanswers
    obtain rfl := Except.ok.inj (hread'.symm.trans hread)
    have hwritten : ((s.transport p).writeObj lib (reply.response lib (requestOf obj).id.toInt)).written =
        (s.transport p).written ++ [lib.emit (reply.response lib (requestOf obj).id.toInt)] := rfl
    obtain ⟨hself, hother⟩ := inbox_receive (h.read_le p) hwritten
    have hasks : weight lib m = 2 := by simp [weight, hparse, hresp]
    have hanswer : weight lib (lib.emit (reply.response lib (requestOf obj).id.toInt)) = 1 := by
      have hparse' : lib.parse (lib.emit (reply.response lib (requestOf obj).id.toInt)) = _ := hintact
      simp [weight, hparse', hreplies]
    rw [answer_inbox, hself, hother, hinbox]
    simp only [List.tail_cons, List.map_append, List.map_cons, List.map_nil, List.sum_append, List.sum_cons,
      List.sum_nil, hasks, hanswer]
    omega
  | @response _ m rest obj t hinbox hparse hresp hread =>
    obtain ⟨t', hread', hsame, -⟩ := (h.accounted p).complete (svcs p) hinbox hparse hresp
    obtain rfl := Except.ok.inj (hread'.symm.trans hread)
    have hwritten : t'.written = (s.transport p).written ++ [] := by rw [hsame, List.append_nil]
    obtain ⟨hself, hother⟩ := inbox_receive (h.read_le p) hwritten
    have hreplies : weight lib m = 1 := by simp [weight, hparse, hresp]
    rw [hself, hother, hinbox]
    simp only [List.tail_cons, List.append_nil, List.map_cons, List.sum_cons, hreplies]
    omega

/-- What there is to read can be read. -/
theorem Orderly.exists_deliver (h : s.Orderly lib) (hintact : s.RepliesIntact lib svcs) (hne : s.inbox p ≠ []) :
    ∃ s', Step lib svcs s (.deliver p) s' := by
  obtain ⟨m, rest, hinbox⟩ := List.exists_cons_of_ne_nil hne
  have hmem : m ∈ s.inbox p := hinbox ▸ List.mem_cons_self
  obtain ⟨obj, hparse⟩ := h.legible p m hmem
  by_cases hresp : uclObjIsResponseForId obj = 0
  · obtain ⟨reply, hanswers⟩ := (hprompt p).answers lib
      (awaitReply lib (svcs p) ((s.transport p).events.length + 1)) (requestOf obj) (s.transport p)
    obtain ⟨hread, -⟩ := h.request (hprompt p) hinbox hparse hresp hanswers
    have hasked : obj ∈ s.asked p.peer := by
      have hpeer := h.accounted p.peer
      rw [Side.peer_peer] at hpeer
      obtain ⟨c, hc⟩ := hpeer.request m hmem obj hparse hresp
      exact List.mem_of_getElem? hc
    exact ⟨_, .request hinbox hparse hresp hanswers (hintact p obj hasked _ _ _ hanswers) hread⟩
  · obtain ⟨t, hread, -⟩ := h.response svcs hinbox hparse hresp
    exact ⟨_, .response hinbox hparse hresp hread⟩

theorem Orderly.deliver (h : s.Orderly lib) (hintact : s.RepliesIntact lib svcs)
    (hstep : Step lib svcs s (.deliver p) s') :
    s'.Orderly lib ∧ s'.RepliesIntact lib svcs := by
  refine ⟨h.step hprompt (show Label.Fresh s (.deliver p) from trivial) hstep, ?_⟩
  rw [RepliesIntact, asked_deliver hstep]
  exact hintact

/-- The session can come to rest. -/
theorem Orderly.exists_rest (h : s.Orderly lib) (hintact : s.RepliesIntact lib svcs) :
    ∃ trace t, Run (Step lib svcs) s trace t ∧ (∀ e ∈ trace, ∃ p, e.2 = .deliver p) ∧ ∀ p, t.inbox p = [] := by
  generalize hload : s.load lib = n
  induction n using Nat.strongRecOn generalizing s with
  | ind n ih =>
    by_cases hempty : ∀ p, s.inbox p = []
    · exact ⟨[], s, .nil s, by simp, hempty⟩
    · obtain ⟨p, hne⟩ := not_forall.mp hempty
      obtain ⟨s', hstep⟩ := h.exists_deliver hprompt hintact hne
      have hless := h.load_deliver hprompt hstep
      obtain ⟨h', hintact'⟩ := h.deliver hprompt hintact hstep
      obtain ⟨trace, t, hrun, hdeliver, hrest⟩ := ih _ (by omega) h' hintact' rfl
      exact ⟨_, t, .cons hstep hrun, List.forall_mem_cons.mpr ⟨⟨p, rfl⟩, hdeliver⟩, hrest⟩

omit hprompt in
/-- At rest, each call has its answer. -/
theorem Orderly.answered_at_rest (h : s.Orderly lib) (hempty : ∀ p, s.inbox p = []) :
    s.load lib = 0 ∧ ∀ p, ∀ c < (s.transport p).next, ((s.transport p).heap c).notified = 1 ∧
    s.ExactlyOnce lib p c := by
  refine ⟨by rw [load, hempty, hempty]; rfl, fun p c hc => ?_⟩
  have honce := h.exactlyOnce hc
  refine ⟨?_, honce⟩
  have hsum := honce.once
  rw [hempty, hempty, List.countP_nil, List.countP_nil] at hsum
  omega

/-- Without further calls the session comes to rest, after as many messages as there were
to read and to be answered, whichever end reads first. Then each call has its answer. -/
theorem deliveries_complete {s'' : Session} {trace trace' : List (Session × Label)}
    (hstart : s.Start) (hrun : Run (Step lib svcs) s trace s') (hfresh : ∀ e ∈ trace, e.2.Fresh e.1)
    (hintact : s'.RepliesIntact lib svcs) (hrun' : Run (Step lib svcs) s' trace' s'')
    (hdeliver : ∀ e ∈ trace', ∃ p, e.2 = .deliver p) :
    trace'.length + s''.load lib = s'.load lib ∧
      ((∀ p t, ¬Step lib svcs s'' (.deliver p) t) → s''.load lib = 0 ∧ ∀ p, ∀ c < (s''.transport p).next,
        ((s''.transport p).heap c).notified = 1 ∧ s''.ExactlyOnce lib p c) := by
  have horderly := orderly_of_run hprompt hstart hrun hfresh
  clear hstart hrun hfresh
  induction hrun' with
  | nil s' =>
    refine ⟨Nat.zero_add _, fun hstuck => ?_⟩
    refine horderly.answered_at_rest fun p => ?_
    by_contra hne
    obtain ⟨t, hstep⟩ := horderly.exists_deliver hprompt hintact hne
    exact hstuck p t hstep
  | @cons s₁ s₂ s₃ l trace'' hstep hrest ih =>
    obtain ⟨hfirst, hlater⟩ := List.forall_mem_cons.mp hdeliver
    obtain ⟨p, rfl⟩ := hfirst
    have hload := horderly.load_deliver hprompt hstep
    obtain ⟨horderly', hintact'⟩ := horderly.deliver hprompt hintact hstep
    obtain ⟨hlength, hrested⟩ := ih hintact' hlater horderly'
    refine ⟨?_, hrested⟩
    rw [List.length_cons]
    omega

end Deliveries

/-- Two ends that draw the id 7. -/
def pingPong : Session where
  transport _ := caller fun _ => 7

theorem pingPong_start : pingPong.Start :=
  ⟨fun _ => caller_start _, fun _ => rfl, fun _ => rfl, fun _ => rfl, fun _ => rfl⟩

theorem prompt_pongProvider : Prompt [pongProvider] := by
  intro svc hsvc t req
  obtain rfl := List.mem_singleton.mp hsvc
  exact ⟨_, rfl, Or.inl rfl⟩

theorem intact_ping : Intact pingPongLib (callObject pingPongLib "ping_v1" none 7) := by
  rw [Intact]
  exact congrArg some (if_pos rfl)

theorem intact_pong : Intact pingPongLib (pong.response pingPongLib 7) := by
  have hne : pongText.text ≠ pingText.text := by decide +kernel
  exact congrArg some (if_neg hne)

theorem pingPong_call : Run (Step pingPongLib fun _ => [pongProvider]) pingPong [(pingPong, .call .near)]
    (pingPong.call pingPongLib .near "ping_v1" none) :=
  .single (.call .near "ping_v1" none intact_ping)

theorem pingPong_fresh : ∀ e ∈ [(pingPong, Label.call .near)], e.2.Fresh e.1 :=
  List.forall_mem_singleton.mpr ⟨by decide, fun a ha => absurd ha (Nat.not_lt_zero a)⟩

theorem repliesIntact_ping :
    (pingPong.call pingPongLib .near "ping_v1" none).RepliesIntact pingPongLib fun _ => [pongProvider] := by
  intro p obj hobj t reply q hanswers
  have hpong : Answers pingPongLib (awaitReply pingPongLib [pongProvider] (t.events.length + 1)) [pongProvider]
      (requestOf obj) t pong t :=
    Answers.result (a := { code := 0, result := some (.string "pong"), err := {} }) rfl rfl
  obtain ⟨rfl, rfl⟩ := hanswers.unique hpong
  cases p with
  | near => cases hobj
  | far =>
    obtain rfl := List.mem_singleton.mp hobj
    exact intact_pong

/-- A run in which the call is answered. -/
theorem exists_pingPong : ∃ trace s,
    Run (Step pingPongLib fun _ => [pongProvider]) (pingPong.call pingPongLib .near "ping_v1" none) trace s ∧
      (∀ e ∈ trace, ∃ p, e.2 = .deliver p) ∧ (∀ p, s.inbox p = []) ∧
      ∀ e ∈ [(pingPong, Label.call .near)] ++ trace, e.2.Fresh e.1 := by
  have horderly := orderly_of_run (fun _ => prompt_pongProvider) pingPong_start pingPong_call pingPong_fresh
  obtain ⟨trace, s, hrun, hdeliver, hempty⟩ := horderly.exists_rest (fun _ => prompt_pongProvider) repliesIntact_ping
  refine ⟨trace, s, hrun, hdeliver, hempty, ?_⟩
  intro e he
  rcases List.mem_append.mp he with he | he
  · exact pingPong_fresh e he
  · obtain ⟨p, hlabel⟩ := hdeliver e he
    rw [hlabel]
    trivial

theorem run_exactlyOnce_ping : ∃ trace s, Run (Step pingPongLib fun _ => [pongProvider]) pingPong trace s ∧
    (∀ p, s.inbox p = []) ∧ ∀ p, ∀ c < (s.transport p).next, s.ExactlyOnce pingPongLib p c := by
  obtain ⟨trace, s, hrun, -, hempty, hfresh⟩ := exists_pingPong
  exact ⟨_, s, pingPong_call.append hrun, hempty,
    run_exactlyOnce (fun _ => prompt_pongProvider) pingPong_start (pingPong_call.append hrun) hfresh⟩

theorem deliveries_complete_ping : ∃ trace s,
    Run (Step pingPongLib fun _ => [pongProvider]) (pingPong.call pingPongLib .near "ping_v1" none) trace s ∧
      trace.length + s.load pingPongLib = (pingPong.call pingPongLib .near "ping_v1" none).load pingPongLib ∧
      s.load pingPongLib = 0 ∧ ((s.transport .near).heap 0).notified = 1 := by
  obtain ⟨trace, s, hrun, hdeliver, hempty, hfresh⟩ := exists_pingPong
  obtain ⟨hlength, hrested⟩ := deliveries_complete (fun _ => prompt_pongProvider) pingPong_start pingPong_call
    pingPong_fresh repliesIntact_ping hrun hdeliver
  have hstuck : ∀ p t, ¬Step pingPongLib (fun _ => [pongProvider]) s (.deliver p) t := by
    intro p t hstep
    cases hstep with
    | request hinbox => exact absurd ((hempty p).symm.trans hinbox) (List.cons_ne_nil _ _).symm
    | response hinbox => exact absurd ((hempty p).symm.trans hinbox) (List.cons_ne_nil _ _).symm
  obtain ⟨hload, hanswered⟩ := hrested hstuck
  have hnext : 0 < (s.transport .near).next := by
    have horderly := orderly_of_run (fun _ => prompt_pongProvider) pingPong_start (pingPong_call.append hrun) hfresh
    rw [← (horderly.accounted .near).length_eq, asked_deliveries hrun hdeliver]
    decide
  exact ⟨trace, s, hrun, hlength, hload, (hanswered .near 0 hnext).1⟩

end Session

end ServiceManager.Wsrpc
