import Mathlib.Data.List.TakeWhile
import ServiceManager.Wsrpc.Bounds
import ServiceManager.Wsrpc.ExactlyOnce
import ServiceManager.Wsrpc.RoundTrip

namespace ServiceManager.Wsrpc

open Trace

/-- The text that `parseMessage` finds in a buffer, if it ends there. -/
def textOf (buf : List UInt8) : Option Message :=
  (strlen buf).map fun _ =>
    { text := buf.takeWhile (· ≠ 0), nul_free := fun h => by simpa using List.mem_takeWhile_imp h }

theorem textOf_framed (m : Message) : textOf m.framed = some m := by
  have hends : strlen m.framed ≠ none := by simp [strlen, Message.framed]
  obtain ⟨n, hn⟩ := Option.ne_none_iff_exists'.mp hends
  have htext : m.framed.takeWhile (· ≠ 0) = m.text := by
    have hall : ∀ b ∈ m.text, decide (b ≠ 0) = true := fun b hb => decide_eq_true fun h => m.nul_free (h ▸ hb)
    rw [Message.framed, List.takeWhile_append_of_pos hall]
    simp
  simp only [textOf, hn, Option.map_some, htext]

/-- Two transports that are connected by a stream of bytes each way. Each end may hold a part
of a message. -/
structure Wire where
  transport : Side → Transport
  reception : Side → Reception := fun _ => {}
  socket : Side → Socket := fun _ => { stream := [] }

namespace Wire

/-- What the end has written beyond what it wrote before. -/
def news (w : Wire) (p : Side) (t : Transport) : List Message :=
  t.written.drop (w.transport p).written.length

/-- The end is left with the transport, and what it wrote is on its way. -/
def send (w : Wire) (p : Side) (t : Transport) : Wire :=
  { w with
    transport := Function.update w.transport p t
    socket := Function.update w.socket p.peer
      { w.socket p.peer with stream := (w.socket p.peer).stream ++ (w.news p t).flatMap writeObj } }

def received (w : Wire) (p : Side) (reception : Reception) (socket : Socket) : Wire :=
  { w with
    reception := Function.update w.reception p reception
    socket := Function.update w.socket p socket }

/-- Nothing was sent yet. -/
structure Start (w : Wire) : Prop where
  transport : ∀ p, Wsrpc.Start (w.transport p)
  written_eq : ∀ p, (w.transport p).written = []
  reception_eq : ∀ p, (w.reception p).curMsgLen = 0
  stream_eq : ∀ p, (w.socket p).stream = []

inductive Label where
  | call (p : Side)
  | recv (p : Side)

/-- The calls of either end, and the calls of `readyForRead` at either, in any order. What is
written has a size that an `int` holds, and is read back as it was. -/
inductive Step (d : Side → Delivery) (lib : Libucl) (svcs : Side → List Provider) : Wire → Label → Wire → Prop
  | call {w} (p : Side) (method : String) (params : Option (List (String × Ucl))) :
      Intact lib (callObject lib method (params.map .object) ((w.transport p).rand 0)) →
      (lib.emit (callObject lib method (params.map .object) ((w.transport p).rand 0))).Fits →
      Step d lib svcs w (.call p) (w.send p ((w.transport p).sendMessage lib method (params.map .object) true).2)
  | part {w p reception socket} : doRecv (d p).system (w.reception p) (w.socket p) = .ok (false, reception, socket) →
      Step d lib svcs w (.recv p) (w.received p reception socket)
  | message {w p reception socket m t} : doRecv (d p).system (w.reception p)
      (w.socket p) = .ok (true, reception, socket) →
      reception.curMsgBuf.bind textOf = some m → readyForRead lib (svcs p) (w.transport p) m = .ok t →
      (∀ m' ∈ w.news p t, m'.Fits) →
      (∀ obj reply q, lib.parse m = some obj → uclObjIsResponseForId obj = 0 →
        Answers lib (awaitReply lib (svcs p) ((w.transport p).events.length + 1)) (svcs p) (requestOf obj)
          (w.transport p) reply q →
          Intact lib (reply.response lib (requestOf obj).id.toInt)) →
      Step d lib svcs w (.recv p) ((w.received p { reception with curMsgBuf := none } socket).send p t)

/-- A call draws an id that is not 0 and that no call before it has. -/
def Label.Fresh (w : Wire) : Label → Prop
  | .call p => (w.transport p).rand 0 ≠ 0 ∧ ∀ a < (w.transport p).next,
      ((w.transport p).heap a).id ≠ (w.transport p).rand 0
  | .recv _ => True

/-- The bytes on their way to each end are the messages that it has not read, and no end holds
a part of one. -/
structure Carries (w : Wire) (s : Session) : Prop where
  transport : w.transport = s.transport
  idle : ∀ p, (w.reception p).curMsgLen = 0
  stream : ∀ p, (w.socket p).stream = (s.inbox p).flatMap writeObj
  fits : ∀ p, ∀ m ∈ s.inbox p, m.Fits

section Carries

variable {w : Wire} {s s' : Session} {p : Side} {t : Transport} {m : Message} {rest new : List Message}

/-- What an end sends joins what its peer has to read. -/
theorem Carries.send (h : Carries w s) (htransport : s'.transport = Function.update s.transport p t)
    (hself : s'.inbox p = s.inbox p) (hpeer : s'.inbox p.peer = s.inbox p.peer ++ w.news p t)
    (hfits : ∀ m ∈ w.news p t, m.Fits) : Carries (w.send p t) s' where
  transport := by
    rw [htransport, ← h.transport]
    rfl
  idle := h.idle
  stream x := by
    rcases p.eq_or_eq_peer x with rfl | rfl
    · simp only [Wire.send, Function.update_of_ne (Side.peer_ne x).symm, hself]
      exact h.stream x
    · simp only [Wire.send, Function.update_self, hpeer, List.flatMap_append, h.stream p.peer]
  fits x m hm := by
    rcases p.eq_or_eq_peer x with rfl | rfl
    · exact h.fits x m (hself ▸ hm)
    · rw [hpeer] at hm
      exact (List.mem_append.mp hm).elim (h.fits p.peer m) (hfits m)

theorem Carries.news_eq (h : Carries w s) (hwritten : t.written = (s.transport p).written ++ new) :
    w.news p t = new := by
  rw [news, h.transport, hwritten, List.drop_left]

/-- An end takes the first message off its stream. -/
theorem Carries.received (h : Carries w s) (hinbox : s.inbox p = m :: rest) {reception : Reception} {socket : Socket}
    (hidle : reception.curMsgLen = 0) (hstream : socket.stream = rest.flatMap writeObj)
    (hself : s'.inbox p = rest) (hpeer : s'.inbox p.peer = s.inbox p.peer) (htransport : s'.transport = s.transport) :
    Carries (w.received p reception socket) s' where
  transport := by
    rw [htransport, ← h.transport]
    rfl
  idle x := by
    rcases p.eq_or_eq_peer x with rfl | rfl
    · simpa [Wire.received] using hidle
    · simpa [Wire.received] using h.idle p.peer
  stream x := by
    rcases p.eq_or_eq_peer x with rfl | rfl
    · simpa [Wire.received, hself] using hstream
    · simpa [Wire.received, hpeer] using h.stream p.peer
  fits x m' hm := by
    rcases p.eq_or_eq_peer x with rfl | rfl
    · rw [hself] at hm
      exact h.fits x m' (hinbox ▸ List.mem_cons_of_mem m hm)
    · exact h.fits p.peer m' (hpeer ▸ hm)

/-- An end has read a message and has written some. -/
theorem Carries.receive (h : Carries w s) (hread : s.read p.peer ≤ (s.transport p).written.length)
    (hinbox : s.inbox p = m :: rest)
    (reception : Reception) {socket : Socket} (hidle : reception.curMsgLen = 0)
    (hstream : socket.stream = rest.flatMap writeObj)
    (hwritten : t.written = (s.transport p).written ++ new) (hfits : ∀ m ∈ new, m.Fits) :
    Carries ((w.received p reception socket).send p t) (s.receive p t) := by
  have hsame : (s.transport p).written = (s.transport p).written ++ [] := (List.append_nil _).symm
  obtain ⟨hself, hpeer⟩ := Session.inbox_receive hread hsame
  obtain ⟨hself', hpeer'⟩ := Session.inbox_receive hread hwritten
  rw [hinbox, List.tail_cons] at hself hself'
  rw [List.append_nil] at hpeer
  have htransport : (s.receive p (s.transport p)).transport = s.transport := Function.update_eq_self p s.transport
  have hreceived := h.received hinbox hidle hstream hself hpeer htransport
  have hnews : (w.received p reception socket).news p t = new := h.news_eq hwritten
  refine hreceived.send ?_ (hself'.trans hself.symm) ?_ (hnews ▸ hfits)
  · rw [htransport]
    rfl
  · rw [hnews, hpeer, hpeer']

end Carries

section Refinement

variable {d : Side → Delivery} {lib : Libucl} {svcs : Side → List Provider} {w w' : Wire} {s : Session} {p : Side}
    {l : Label}
  {m : Message} {rest : List Message}

/-- Whole messages are delivered whole. -/
theorem Carries.doRecv_eq (h : Carries w s) (hwhole : ∀ p i, 2 ^ 31 ≤ (d p).chunk i) (hinbox : s.inbox p = m :: rest) :
    ∃ socket, socket.stream = rest.flatMap writeObj ∧ doRecv (d p).system (w.reception p) (w.socket p) =
      .ok (true, { curMsgLen := 0, curMsgOff := m.framed.length, curMsgBuf := some m.framed }, socket) := by
  have hfits := h.fits p m (hinbox ▸ List.mem_cons_self)
  have hsize : m.framed.length < 2 ^ 31 := hfits
  have hstream := h.stream p
  rw [hinbox, List.flatMap_cons] at hstream
  generalize w.socket p = socket at hstream ⊢
  obtain ⟨stream, recvs⟩ := socket
  have hheader := hwhole p recvs
  have hbody := hwhole p (recvs + 1)
  exact ⟨_, rfl, doRecv_whole (h.idle p) hfits (by omega) hstream (by omega)⟩

theorem Carries.inbox_of_doRecv (h : Carries w s) {b : Bool} {reception : Reception} {socket : Socket}
    (hrecv : doRecv (d p).system (w.reception p) (w.socket p) = .ok (b, reception, socket)) :
    ∃ m rest, s.inbox p = m :: rest := by
  cases hinbox : s.inbox p with
  | nil =>
    have hstream := h.stream p
    rw [hinbox, List.flatMap_nil] at hstream
    simp [doRecv, recvHeader, h.idle p, Delivery.system, Delivery.recv, hstream, bind, Except.bind] at hrecv
  | cons m rest => exact ⟨m, rest, rfl⟩

theorem Carries.stream_ne_nil (h : Carries w s) (hstep : Step d lib svcs w (.recv p) w') :
    (w.socket p).stream ≠ [] := by
  obtain ⟨m, rest, hinbox⟩ : ∃ m rest, s.inbox p = m :: rest := by
    cases hstep with
    | part hrecv => exact h.inbox_of_doRecv hrecv
    | message hrecv => exact h.inbox_of_doRecv hrecv
  rw [h.stream, hinbox, List.flatMap_cons]
  exact List.append_ne_nil_of_left_ne_nil (writeObj_ne_nil m) _

theorem Carries.call (h : Carries w s) (horderly : s.Orderly lib) (p : Side) (method : String) (params : Option Ucl)
    (hfits : (lib.emit (callObject lib method params ((s.transport p).rand 0))).Fits) :
    Carries (w.send p ((s.transport p).sendMessage lib method params true).2) (s.call lib p method params) := by
  obtain ⟨hself, hpeer⟩ := Session.inbox_call lib (horderly.read_le p) method params
  have hnews := h.news_eq (@written_sendMessage lib (s.transport p) method params true)
  rw [← hnews] at hpeer
  exact h.send rfl hself hpeer (by rw [hnews]; exact List.forall_mem_singleton.mpr hfits)

/-- Where a message is on its way, `readyForRead` has it whole, and gets through it. -/
structure Reads (d : Side → Delivery) (lib : Libucl) (svcs : Side → List Provider) (w : Wire) (p : Side) (m : Message)
    (rest : List Message) : Prop where
  recv : ∃ socket, socket.stream = rest.flatMap writeObj ∧ doRecv (d p).system (w.reception p) (w.socket p) =
    .ok (true, { curMsgLen := 0, curMsgOff := m.framed.length, curMsgBuf := some m.framed }, socket)
  text : textOf m.framed = some m
  process : ∃ t, readyForRead lib (svcs p) (w.transport p) m = .ok t

variable (hprompt : ∀ p, Prompt (svcs p)) (hwhole : ∀ p i, 2 ^ 31 ≤ (d p).chunk i)

include hprompt hwhole

theorem Carries.reads (h : Carries w s) (horderly : s.Orderly lib) (hinbox : s.inbox p = m :: rest) :
    Reads d lib svcs w p m rest := by
  refine ⟨h.doRecv_eq hwhole hinbox, textOf_framed m, ?_⟩
  rw [h.transport]
  obtain ⟨obj, hparse⟩ := horderly.legible p m (hinbox ▸ List.mem_cons_self)
  by_cases hresp : uclObjIsResponseForId obj = 0
  · obtain ⟨reply, hanswers⟩ := (hprompt p).answers lib (awaitReply lib (svcs p) ((s.transport p).events.length + 1))
      (requestOf obj) (s.transport p)
    exact ⟨_, (horderly.request (hprompt p) hinbox hparse hresp hanswers).1⟩
  · obtain ⟨t, hread, _⟩ := horderly.response svcs hinbox hparse hresp
    exact ⟨t, hread⟩

/-- Each step over bytes is one over messages. -/
theorem Carries.step (h : Carries w s) (horderly : s.Orderly lib) (hfresh : l.Fresh w)
    (hstep : Step d lib svcs w l w') :
    ∃ l' s', Session.Step lib svcs s l' s' ∧ Session.Label.Fresh s l' ∧ Carries w' s' ∧ s'.Orderly lib := by
  cases hstep with
  | call p method params hintact hfits =>
    have hfresh : Session.Label.Fresh s (.call p) := by
      rw [Session.Label.Fresh, ← h.transport]
      exact hfresh
    rw [h.transport] at hintact hfits ⊢
    have hstep : Session.Step lib svcs s (.call p) _ := .call p method params hintact
    exact ⟨_, _, hstep, hfresh, h.call horderly p method _ hfits, horderly.step hprompt hfresh hstep⟩
  | part hrecv =>
    obtain ⟨m, rest, hinbox⟩ := h.inbox_of_doRecv hrecv
    obtain ⟨socket, _, hwhole'⟩ := h.doRecv_eq hwhole hinbox
    rw [hwhole'] at hrecv
    cases hrecv
  | @message p reception socket m t hrecv htext hread hfits hintact =>
    obtain ⟨m', rest, hinbox⟩ := h.inbox_of_doRecv hrecv
    obtain ⟨socket', hstream, hwhole'⟩ := h.doRecv_eq hwhole hinbox
    rw [hwhole'] at hrecv
    cases hrecv
    rw [Option.bind_some, textOf_framed] at htext
    obtain rfl := Option.some.inj htext
    rw [h.transport] at hread hintact
    obtain ⟨obj, hparse⟩ := horderly.legible p m' (hinbox ▸ List.mem_cons_self)
    have hread_le := horderly.read_le p
    by_cases hresp : uclObjIsResponseForId obj = 0
    · obtain ⟨reply, hanswers⟩ := (hprompt p).answers lib (awaitReply lib (svcs p) ((s.transport p).events.length + 1))
        (requestOf obj) (s.transport p)
      have hstep := Session.Step.request hinbox hparse hresp hanswers (hintact obj reply _ hparse hresp hanswers) hread
      obtain ⟨hread', _⟩ := horderly.request (hprompt p) hinbox hparse hresp hanswers
      obtain rfl := Except.ok.inj (hread'.symm.trans hread)
      have hwritten : ((s.transport p).writeObj lib (reply.response lib (requestOf obj).id.toInt)).written =
          (s.transport p).written ++ [lib.emit (reply.response lib (requestOf obj).id.toInt)] := rfl
      have hcarries := h.receive hread_le hinbox { curMsgOff := m'.framed.length } rfl hstream hwritten
        (h.news_eq hwritten ▸ hfits)
      exact ⟨_, _, hstep, trivial, ⟨hcarries.transport, hcarries.idle, hcarries.stream, hcarries.fits⟩,
        horderly.step (l := .deliver p) hprompt trivial hstep⟩
    · have hstep := Session.Step.response hinbox hparse hresp hread
      obtain ⟨t', hread', hsame, _⟩ := (horderly.accounted p).complete (svcs p) hinbox hparse hresp
      obtain rfl := Except.ok.inj (hread'.symm.trans hread)
      have hwritten : t'.written = (s.transport p).written ++ [] := by rw [hsame, List.append_nil]
      have hcarries := h.receive hread_le hinbox { curMsgOff := m'.framed.length } rfl hstream hwritten
        (List.forall_mem_nil _)
      exact ⟨_, _, hstep, trivial, hcarries, horderly.step (l := .deliver p) hprompt trivial hstep⟩

/-- What holds of the bytes by the messages that they stand for. -/
structure Refines (d : Side → Delivery) (lib : Libucl) (svcs : Side → List Provider) (w : Wire)
    (s : Session) : Prop where
  carries : Carries w s
  reads : ∀ p m rest, s.inbox p = m :: rest → Reads d lib svcs w p m rest
  once : ∀ p, ∀ c < (w.transport p).next, s.ExactlyOnce lib p c
  rest : (∀ p, (w.socket p).stream = []) → ∀ p, ∀ c < (w.transport p).next, ((w.transport p).heap c).notified = 1

theorem Carries.refines (h : Carries w s) (horderly : s.Orderly lib) : Refines d lib svcs w s where
  carries := h
  reads p m rest hinbox := h.reads hprompt hwhole horderly hinbox
  once p c hc := horderly.exactlyOnce (h.transport ▸ hc)
  rest hempty p c hc := by
    have hrest : ∀ p, s.inbox p = [] := by
      intro p
      have hstream := h.stream p
      rw [hempty p] at hstream
      cases hinbox : s.inbox p with
      | nil => rfl
      | cons m rest =>
        rw [hinbox, List.flatMap_cons] at hstream
        exact absurd hstream.symm (List.append_ne_nil_of_left_ne_nil (writeObj_ne_nil m) _)
    rw [h.transport] at hc ⊢
    exact ((horderly.answered_at_rest hrest).2 p c hc).1

omit hprompt hwhole in
theorem Start.carries (h : w.Start) : Session.Start { transport := w.transport } ∧
    Carries w { transport := w.transport } := by
  refine ⟨⟨h.transport, h.written_eq, fun _ => rfl, fun _ => rfl, fun _ => rfl⟩, rfl, h.reception_eq, fun p => ?_,
    fun p m hm => ?_⟩
  · rw [h.stream_eq, Session.inbox, h.written_eq]
    rfl
  · rw [Session.inbox, h.written_eq] at hm
    cases hm

/-- The connection over bytes refines the one over messages, where each `recv` delivers what
it is asked for. -/
theorem run_refines {trace : List (Wire × Label)} (hstart : w.Start) (hrun : Run (Step d lib svcs) w trace w')
    (hfresh : ∀ e ∈ trace, e.2.Fresh e.1) :
    ∃ trace' s s', s.Start ∧ Run (Session.Step lib svcs) s trace' s' ∧ (∀ e ∈ trace', e.2.Fresh e.1) ∧
      Refines d lib svcs w' s' := by
  obtain ⟨hstart', hcarries⟩ := hstart.carries
  have hsim : ∀ w l w' s, Carries w s ∧ s.Orderly lib → Label.Fresh w l → Step d lib svcs w l w' →
      ∃ trace s', Run (Session.Step lib svcs) s trace s' ∧ (∀ e ∈ trace, e.2.Fresh e.1) ∧ Carries w' s' ∧
        s'.Orderly lib := by
    intro w l w' s h hfresh hstep
    obtain ⟨l', s', hstep', hfresh', hcarries', horderly'⟩ := h.1.step hprompt hwhole h.2 hfresh hstep
    exact ⟨_, s', .single hstep', List.forall_mem_singleton.mpr hfresh', hcarries', horderly'⟩
  obtain ⟨trace', s', hrun', hfresh', hcarries', horderly'⟩ := hrun.simulated hsim hfresh ⟨hcarries, hstart'.orderly⟩
  exact ⟨trace', _, s', hstart', hrun', hfresh', hcarries'.refines hprompt hwhole horderly'⟩

omit hprompt in
theorem Carries.deliver (h : Carries w s) (horderly : s.Orderly lib) (hinbox : s.inbox p = m :: rest) {t : Transport}
    {new : List Message} (hread : readyForRead lib (svcs p) (s.transport p) m = .ok t)
    (hwritten : t.written = (s.transport p).written ++ new) (hfits : ∀ m ∈ t.written, m.Fits)
    (hintact : ∀ obj reply q, lib.parse m = some obj → uclObjIsResponseForId obj = 0 →
      Answers lib (awaitReply lib (svcs p) ((s.transport p).events.length + 1)) (svcs p) (requestOf obj)
        (s.transport p) reply q →
        Intact lib (reply.response lib (requestOf obj).id.toInt)) :
    ∃ w', Step d lib svcs w (.recv p) w' ∧ Carries w' (s.receive p t) := by
  obtain ⟨socket, hstream, hrecv⟩ := h.doRecv_eq hwhole hinbox
  have hnews : ∀ m ∈ new, m.Fits := fun m hm => hfits m (by rw [hwritten]; exact List.mem_append_right _ hm)
  refine ⟨_, .message hrecv (textOf_framed m) (h.transport ▸ hread) (h.news_eq hwritten ▸ hnews)
    (h.transport ▸ hintact), ?_⟩
  exact h.receive (horderly.read_le p) hinbox _ rfl hstream hwritten hnews

/-- What is done with messages can be done with bytes. -/
theorem Carries.follows (h : Carries w s) (horderly : s.Orderly lib) {l' : Session.Label} {s' : Session}
    (hstep : Session.Step lib svcs s l' s') (hfresh : l'.Fresh s)
    (hfits : ∀ p, ∀ m ∈ (s'.transport p).written, m.Fits) :
    ∃ l w', Step d lib svcs w l w' ∧ l.Fresh w ∧ Carries w' s' := by
  cases hstep with
  | call p method params hintact =>
    have hfits : (lib.emit (callObject lib method (params.map .object) ((s.transport p).rand 0))).Fits := by
      refine hfits p _ ?_
      simp [Session.call, written_sendMessage]
    refine ⟨.call p, _, .call p method params ?_ ?_, ?_, ?_⟩
    · rwa [h.transport]
    · rwa [h.transport]
    · rw [Label.Fresh, h.transport]
      exact hfresh
    · rw [h.transport]
      exact h.call horderly p method _ hfits
  | @request p m rest obj reply q t hinbox hparse hresp hanswers hintact hread =>
    obtain ⟨hread', _⟩ := horderly.request (hprompt p) hinbox hparse hresp hanswers
    obtain rfl := Except.ok.inj (hread'.symm.trans hread)
    have hwritten := hfits p
    simp only [Session.answer_transport, Session.receive, Function.update_self] at hwritten
    obtain ⟨w', hstep, hcarries⟩ := h.deliver hwhole horderly hinbox hread rfl hwritten
      fun obj' reply' q' hparse' _ hanswers' => by
      obtain rfl := Option.some.inj (hparse.symm.trans hparse')
      rw [(hanswers'.unique hanswers).1]
      exact hintact
    exact ⟨_, w', hstep, trivial, hcarries.transport, hcarries.idle, hcarries.stream, hcarries.fits⟩
  | @response p m rest obj t hinbox hparse hresp hread =>
    obtain ⟨t', hread', hsame, _⟩ := (horderly.accounted p).complete (svcs p) hinbox hparse hresp
    obtain rfl := Except.ok.inj (hread'.symm.trans hread)
    have hwritten := hfits p
    simp only [Session.receive, Function.update_self] at hwritten
    have hnone : t'.written = (s.transport p).written ++ [] := by rw [hsame, List.append_nil]
    obtain ⟨w', hstep, hcarries⟩ := h.deliver hwhole horderly hinbox hread hnone hwritten
      fun obj' reply' q' hparse' hresp' _ => by
      obtain rfl := Option.some.inj (hparse.symm.trans hparse')
      exact absurd hresp' hresp
    exact ⟨_, w', hstep, trivial, hcarries⟩

omit hwhole in
/-- What an end writes, besides what it wrote, are objects in the words of libucl. -/
theorem written_step (horderly : s.Orderly lib) {l : Session.Label} {s' : Session}
    (hstep : Session.Step lib svcs s l s')
    (x : Side) : ∃ objs : List Ucl, (s'.transport x).written = (s.transport x).written ++ objs.map lib.emit := by
  cases hstep with
  | call p method params hintact =>
    rcases p.eq_or_eq_peer x with rfl | rfl
    · exact ⟨[callObject lib method (params.map .object) ((s.transport x).rand 0)],
        by simp [Session.call, written_sendMessage]⟩
    · exact ⟨[], by simp [Session.call]⟩
  | @request p m rest obj reply q t hinbox hparse hresp hanswers hintact hread =>
    obtain ⟨hread', _⟩ := horderly.request (hprompt p) hinbox hparse hresp hanswers
    obtain rfl := Except.ok.inj (hread'.symm.trans hread)
    rcases p.eq_or_eq_peer x with rfl | rfl
    · exact ⟨[reply.response lib (requestOf obj).id.toInt], by simp [Session.receive, Transport.writeObj]⟩
    · exact ⟨[], by simp [Session.receive]⟩
  | @response p m rest obj t hinbox hparse hresp hread =>
    obtain ⟨t', hread', hsame, _⟩ := (horderly.accounted p).complete (svcs p) hinbox hparse hresp
    obtain rfl := Except.ok.inj (hread'.symm.trans hread)
    refine ⟨[], ?_⟩
    rcases p.eq_or_eq_peer x with rfl | rfl
    · simp [Session.receive, hsame]
    · simp [Session.receive]

variable {trace : List (Session × Session.Label)} {s' : Session}

omit hwhole in
theorem written_run (horderly : s.Orderly lib) (hrun : Run (Session.Step lib svcs) s trace s')
    (hfresh : ∀ e ∈ trace, e.2.Fresh e.1) (x : Side) :
    ∃ objs : List Ucl, (s'.transport x).written = (s.transport x).written ++ objs.map lib.emit := by
  induction hrun with
  | nil => exact ⟨[], by simp⟩
  | cons hstep _ ih =>
    obtain ⟨hfirst, hlater⟩ := List.forall_mem_cons.mp hfresh
    obtain ⟨objs, hobjs⟩ := written_step hprompt horderly hstep x
    obtain ⟨objs', hobjs'⟩ := ih (horderly.step hprompt hfirst hstep) hlater
    exact ⟨objs ++ objs', by rw [hobjs', hobjs, List.append_assoc, List.map_append]⟩

/-- A session is had over bytes too, if all that is written in it has a size that an `int`
holds. -/
theorem Carries.follows_run (h : Carries w s) (horderly : s.Orderly lib) (hrun : Run (Session.Step lib svcs) s trace s')
    (hfresh : ∀ e ∈ trace, e.2.Fresh e.1) (hfits : ∀ p, ∀ m ∈ (s'.transport p).written, m.Fits) :
    ∃ trace' w', Run (Step d lib svcs) w trace' w' ∧ (∀ e ∈ trace', e.2.Fresh e.1) ∧ Carries w' s' := by
  induction hrun generalizing w with
  | nil => exact ⟨[], w, .nil w, List.forall_mem_nil _, h⟩
  | @cons s s₁ s' l trace hstep hrest ih =>
    obtain ⟨hfirst, hlater⟩ := List.forall_mem_cons.mp hfresh
    have horderly₁ := horderly.step hprompt hfirst hstep
    have hfits₁ : ∀ p, ∀ m ∈ (s₁.transport p).written, m.Fits := by
      intro p m hm
      obtain ⟨objs, hobjs⟩ := written_run hprompt horderly₁ hrest hlater p
      apply hfits p m
      rw [hobjs]
      exact List.mem_append_left _ hm
    obtain ⟨l, w₁, hstep₁, hfresh₁, hcarries⟩ := h.follows hprompt hwhole horderly hstep hfirst hfits₁
    obtain ⟨trace', w', hrun', hfresh', hcarries'⟩ := ih hcarries horderly₁ hlater hfits
    exact ⟨_, w', .cons hstep₁ hrun', List.forall_mem_cons.mpr ⟨hfresh₁, hfresh'⟩, hcarries'⟩

end Refinement

/-- The two ends of a ping, before anything was sent. -/
def pingPong : Wire where
  transport := Session.pingPong.transport

/-- What is asked for is delivered. -/
def wholeDelivery : Delivery where
  chunk _ := 2 ^ 31
  chunk_pos _ := Nat.two_pow_pos 31
  heap _ _ := 0

theorem pingPong_start : pingPong.Start :=
  ⟨Session.pingPong_start.transport, fun _ => rfl, fun _ => rfl, fun _ => rfl⟩

theorem fits_pingPongLib (obj : Ucl) : (pingPongLib.emit obj).Fits := by
  have hping : pingText.Fits := by decide +kernel
  have hpong : pongText.Fits := by decide +kernel
  by_cases hrequest : uclObjIsRequest obj
  · rwa [show pingPongLib.emit obj = pingText from if_pos hrequest]
  · rwa [show pingPongLib.emit obj = pongText from if_neg hrequest]

/-- The call, its answer and the completion over bytes. -/
theorem exists_pingPong : ∃ trace w,
    Run (Step (fun _ => wholeDelivery) pingPongLib fun _ => [pongProvider]) pingPong trace w ∧
    (∀ e ∈ trace, e.2.Fresh e.1) ∧ ∀ p, (w.socket p).stream = [] := by
  have hprompt : ∀ p : Side, Prompt ((fun _ => [pongProvider]) p) := fun _ => Session.prompt_pongProvider
  have hwhole : ∀ (p : Side) i, 2 ^ 31 ≤ ((fun _ => wholeDelivery) p : Delivery).chunk i := fun _ _ => le_rfl
  obtain ⟨trace, s, hrun, _, hempty, hfresh⟩ := Session.exists_pingPong
  have hrun := Session.pingPong_call.append hrun
  obtain ⟨hstart, hcarries⟩ := pingPong_start.carries
  have hfits : ∀ p, ∀ m ∈ (s.transport p).written, m.Fits := by
    intro p m hm
    obtain ⟨objs, hobjs⟩ := written_run hprompt hstart.orderly hrun hfresh p
    rw [hobjs, pingPong_start.written_eq, List.nil_append] at hm
    obtain ⟨obj, _, rfl⟩ := List.mem_map.mp hm
    exact fits_pingPongLib obj
  obtain ⟨trace', w, hrun', hfresh', hcarries'⟩ := hcarries.follows_run hprompt hwhole hstart.orderly hrun hfresh hfits
  refine ⟨trace', w, hrun', hfresh', fun p => ?_⟩
  rw [hcarries'.stream, hempty]
  rfl

theorem run_refines_ping : ∃ trace w,
    Run (Step (fun _ => wholeDelivery) pingPongLib fun _ => [pongProvider]) pingPong trace w ∧
      (∀ p, (w.socket p).stream = []) ∧
      ∃ s, Refines (fun _ => wholeDelivery) pingPongLib (fun _ => [pongProvider]) w s := by
  have hwhole : ∀ (p : Side) i, 2 ^ 31 ≤ ((fun _ => wholeDelivery) p : Delivery).chunk i := fun _ _ => le_rfl
  obtain ⟨trace, w, hrun, hfresh, hempty⟩ := exists_pingPong
  obtain ⟨_, _, s, _, _, _, hrefines⟩ :=
    run_refines (fun _ => Session.prompt_pongProvider) hwhole pingPong_start hrun hfresh
  exact ⟨trace, w, hrun, hempty, s, hrefines⟩

end Wire

end ServiceManager.Wsrpc
