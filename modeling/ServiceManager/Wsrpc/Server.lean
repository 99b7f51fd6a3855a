import Mathlib.Data.List.Nodup
import ServiceManager.Wsrpc.Listener
import ServiceManager.Wsrpc.Wire

namespace ServiceManager.Wsrpc

open Trace

/-- Why a call of `readyForRead` does not return: `doRecv` or `processMessage` does not, or the
text goes on behind its buffer. -/
inductive Failure where
  | stop (why : Stop)
  | stuck (why : Stuck)
  | unended

namespace Wire

section Read

variable (d : Delivery) (lib : Libucl) (svcs : List Provider)

/-- `readyForRead` at one end. -/
def readyForRead (w : Wire) (p : Side) : Except Failure Wire :=
  match doRecv d.system (w.reception p) (w.socket p) with
  | .error why => .error (.stop why)
  | .ok (false, reception, socket) => .ok (w.received p reception socket)
  | .ok (true, reception, socket) =>
    match reception.curMsgBuf.bind textOf with
    | none => .error .unended
    | some m =>
      match Wsrpc.readyForRead lib svcs (w.transport p) m with
      | .error why => .error (.stuck why)
      | .ok t => .ok ((w.received p { reception with curMsgBuf := none } socket).send p t)

/-- What the end answers next has a size that an `int` holds, and is read back as it was. -/
structure Answerable (w : Wire) (p : Side) : Prop where
  fits : ∀ reception socket m t, doRecv d.system (w.reception p) (w.socket p) = .ok (true, reception, socket) →
    reception.curMsgBuf.bind textOf = some m → Wsrpc.readyForRead lib svcs (w.transport p) m = .ok t →
      ∀ m' ∈ w.news p t, m'.Fits
  intact : ∀ reception socket m obj reply q, doRecv d.system (w.reception p)
    (w.socket p) = .ok (true, reception, socket) →
    reception.curMsgBuf.bind textOf = some m → lib.parse m = some obj → uclObjIsResponseForId obj = 0 →
      Answers lib (awaitReply lib svcs ((w.transport p).events.length + 1)) svcs (requestOf obj)
        (w.transport p) reply q →
        Intact lib (reply.response lib (requestOf obj).id.toInt)

end Read

variable {d : Side → Delivery} {lib : Libucl} {svcs : Side → List Provider} {w w' : Wire} {p : Side}

/-- The steps in which an end reads are the calls of `readyForRead` that return. -/
theorem step_recv_iff : Step d lib svcs w (.recv p) w' ↔
    w.readyForRead (d p) lib (svcs p) p = .ok w' ∧ w.Answerable (d p) lib (svcs p) p := by
  constructor
  · intro hstep
    cases hstep with
    | part hrecv =>
      refine ⟨by simp only [Wire.readyForRead, hrecv], ⟨?_, ?_⟩⟩
      · intro reception socket m t hrecv'
        rw [hrecv] at hrecv'
        cases hrecv'
      · intro reception socket m obj reply q hrecv'
        rw [hrecv] at hrecv'
        cases hrecv'
    | message hrecv htext hread hfits hintact =>
      refine ⟨by simp only [Wire.readyForRead, hrecv, htext, hread], ⟨?_, ?_⟩⟩
      · intro reception socket m t hrecv' htext' hread'
        rw [hrecv] at hrecv'
        cases hrecv'
        obtain rfl := Option.some.inj (htext.symm.trans htext')
        obtain rfl := Except.ok.inj (hread.symm.trans hread')
        exact hfits
      · intro reception socket m obj reply q hrecv' htext'
        rw [hrecv] at hrecv'
        cases hrecv'
        obtain rfl := Option.some.inj (htext.symm.trans htext')
        exact hintact obj reply q
  · rintro ⟨hread, hanswerable⟩
    unfold Wire.readyForRead at hread
    split at hread
    · cases hread
    · rename_i reception socket hrecv
      obtain rfl := Except.ok.inj hread
      exact .part hrecv
    · rename_i reception socket hrecv
      split at hread
      · cases hread
      · rename_i m htext
        split at hread
        · cases hread
        · rename_i t hprocess
          obtain rfl := Except.ok.inj hread
          exact .message hrecv htext hprocess (hanswerable.fits _ _ _ _ hrecv htext hprocess)
            fun obj reply q => hanswerable.intact _ _ _ _ _ _ hrecv htext

end Wire

/-- A client's connection with the transports at both its ends, of which the far one is the
server's, and the services of the client. -/
structure Connection where
  fd : Int
  svcs : List Provider := []
  wire : Wire

/-- The services at the two ends. All clients have those of the server. -/
def Connection.providers (svcs : List Provider) (c : Connection) : Side → List Provider
  | .near => c.svcs
  | .far => svcs

/-- A listener with the connections of its clients. -/
structure Server where
  fd : Int
  clientXprts : List Connection := []

namespace Server

section Events

variable (d : Side → Delivery) (lib : Libucl) (svcs : List Provider)

/-- Each client that has the descriptor is told. -/
def readAll (aFD : Int) : List Connection → Except Failure (List Connection)
  | [] => .ok []
  | c :: cs =>
    if c.fd = aFD then do
      let wire ← c.wire.readyForRead (d .far) lib svcs .far
      let cs ← readAll aFD cs
      .ok ({ c with wire } :: cs)
    else do
      let cs ← readAll aFD cs
      .ok (c :: cs)

/-- A hangup drops the client, whatever else is reported with it. `accepted` is the connection
that `accept` makes. -/
def fdEvent (accepted : Option Connection) (s : Server) (aFD : Int) (revents : Revents) : Except Failure Server :=
  if revents.pollhup then .ok { s with clientXprts := s.clientXprts.eraseP fun c => c.fd = aFD }
  else if aFD = s.fd then
    match accepted with
    | none => .ok s
    | some c => .ok { s with clientXprts := s.clientXprts ++ [c] }
  else if revents.pollin then do
    let clientXprts ← readAll d lib svcs aFD s.clientXprts
    .ok { s with clientXprts }
  else .ok s

/-- There is something to read where that is reported. -/
def Reported (s : Server) (aFD : Int) (revents : Revents) : Prop :=
  revents.pollin → ∀ c ∈ s.clientXprts, c.fd = aFD → (c.wire.socket .far).stream ≠ []

/-- A connection that `accept` makes has a descriptor of its own, and nothing was sent on it. -/
structure Accepts (s : Server) (c : Connection) : Prop where
  fd_ne : c.fd ≠ s.fd
  fresh : ∀ x ∈ s.clientXprts, x.fd ≠ c.fd
  start : c.wire.Start
  prompt : Prompt c.svcs

inductive Label where
  /-- `fdEvent` is called. -/
  | event (aFD : Int) (revents : Revents) (accepted : Option Connection)
  /-- A client calls or reads, or the server calls it. -/
  | client (fd : Int) (l : Wire.Label)

/-- The events of the descriptors, and what the clients do, in any order. -/
inductive Step : Server → Label → Server → Prop
  | event {s s' aFD revents accepted} : s.Reported aFD revents → (∀ c, accepted = some c → s.Accepts c) →
      (∀ c ∈ s.clientXprts, c.fd = aFD → c.wire.Answerable (d .far) lib svcs .far) →
      fdEvent d lib svcs accepted s aFD revents = .ok s' → Step s (.event aFD revents accepted) s'
  | client {s before c after l wire} : s.clientXprts = before ++ c :: after → l ≠ .recv .far →
      Wire.Step d lib (c.providers svcs) c.wire l wire →
      Step s (.client c.fd l) { s with clientXprts := before ++ { c with wire } :: after }

/-- A call draws an id that is not 0 and that no call before it has. -/
def Label.Fresh (s : Server) : Label → Prop
  | .event .. => True
  | .client fd l => ∀ c ∈ s.clientXprts, c.fd = fd → l.Fresh c.wire

end Events

/-- The server's end of a connection, without its transport. -/
def client (c : Connection) : Client where
  fd := c.fd
  reception := c.wire.reception .far
  socket := c.wire.socket .far

section Listener

variable {d : Side → Delivery} {lib : Libucl} {svcs : List Provider} {s s' : Server} {c : Connection} {wire : Wire}
  {aFD : Int} {revents : Revents} {accepted : Option Connection}

/-- Without the transport, a connection reads as the listener's client does. -/
theorem readyForRead_client (h : c.wire.readyForRead (d .far) lib svcs .far = .ok wire) :
    ∃ obj, (client c).readyForRead (d .far) (fun buf => (textOf buf).bind lib.parse) =
      .ok (client { c with wire }, obj) := by
  unfold Wire.readyForRead at h
  unfold Client.readyForRead
  split at h
  · cases h
  · rename_i reception socket hrecv
    obtain rfl := Except.ok.inj h
    refine ⟨none, ?_⟩
    simp [client, hrecv, Wire.received, bind, Except.bind]
  · rename_i reception socket hrecv
    split at h
    · cases h
    · rename_i m htext
      split at h
      · cases h
      · obtain rfl := Except.ok.inj h
        refine ⟨lib.parse m, ?_⟩
        obtain ⟨buf, hbuf, hm⟩ := Option.bind_eq_some_iff.mp htext
        simp [client, hrecv, hbuf, hm, Wire.received, Wire.send, Side.peer, bind, Except.bind]

/-- By induction on the connections. -/
theorem readAll_client {cs cs' : List Connection} (h : readAll d lib svcs aFD cs = .ok cs') :
    ∃ objs, Wsrpc.readAll (d .far) (fun buf => (textOf buf).bind lib.parse) aFD (cs.map client) =
      .ok (cs'.map client, objs) := by
  induction cs generalizing cs' with
  | nil =>
    obtain rfl := Except.ok.inj h
    exact ⟨[], rfl⟩
  | cons c cs ih =>
    rw [readAll] at h
    rw [List.map_cons, Wsrpc.readAll]
    split at h
    · rename_i hfd
      obtain ⟨wire, hwire, h⟩ := bind_eq_ok h
      obtain ⟨rest, hrest, h⟩ := bind_eq_ok h
      obtain rfl := Except.ok.inj h
      obtain ⟨obj, hread⟩ := readyForRead_client hwire
      obtain ⟨objs, hall⟩ := ih hrest
      rw [if_pos (show (client c).fd = aFD from hfd), hread, hall]
      exact ⟨_, rfl⟩
    · rename_i hfd
      obtain ⟨rest, hrest, h⟩ := bind_eq_ok h
      obtain rfl := Except.ok.inj h
      obtain ⟨objs, hall⟩ := ih hrest
      rw [if_neg (show ¬(client c).fd = aFD from hfd), hall]
      exact ⟨_, rfl⟩

/-- Without the transports, the listener does what it does with them. -/
theorem fdEvent_client (h : fdEvent d lib svcs accepted s aFD revents = .ok s')
    (haccepted : ∀ c, accepted = some c → client c = { fd := c.fd, socket := { stream := [] } })
    (passed : List (Int × Ucl)) :
    ∃ passed', Wsrpc.fdEvent (d .far) (fun buf => (textOf buf).bind lib.parse) (accepted.map Connection.fd)
      { fd := s.fd, clients := s.clientXprts.map client, passed } aFD revents =
        .ok { fd := s'.fd, clients := s'.clientXprts.map client, passed := passed' } := by
  unfold fdEvent at h
  unfold Wsrpc.fdEvent
  split at h
  · rename_i hhup
    obtain rfl := Except.ok.inj h
    rw [if_pos hhup]
    refine ⟨passed, ?_⟩
    rw [List.eraseP_map]
    rfl
  · rename_i hhup
    rw [if_neg hhup]
    split at h
    · rename_i hfd
      rw [if_pos hfd]
      cases accepted with
      | none =>
        obtain rfl := Except.ok.inj h
        exact ⟨passed, rfl⟩
      | some c =>
        obtain rfl := Except.ok.inj h
        refine ⟨passed, ?_⟩
        simp [haccepted c rfl]
    · rename_i hfd
      rw [if_neg hfd]
      split at h
      · rename_i hin
        obtain ⟨clients, hread, h⟩ := bind_eq_ok h
        obtain rfl := Except.ok.inj h
        obtain ⟨objs, hall⟩ := readAll_client hread
        rw [if_pos hin, hall]
        exact ⟨_, rfl⟩
      · rename_i hin
        obtain rfl := Except.ok.inj h
        rw [if_neg hin]
        exact ⟨passed, rfl⟩

end Listener

/-- What went over a connection is a run of a session. -/
def Holds (lib : Libucl) (svcs : List Provider) (c : Connection) : Prop :=
  ∃ trace s₀ s, s₀.Start ∧ Run (Session.Step lib (c.providers svcs)) s₀ trace s ∧ (∀ e ∈ trace, e.2.Fresh e.1) ∧
    c.wire.Carries s ∧ s.Orderly lib

/-- Each client has a descriptor of its own and a session with the server. -/
structure Serves (lib : Libucl) (svcs : List Provider) (s : Server) : Prop where
  distinct : (s.clientXprts.map Connection.fd).Nodup
  apart : ∀ c ∈ s.clientXprts, c.fd ≠ s.fd
  prompt : ∀ c ∈ s.clientXprts, Prompt c.svcs
  holds : ∀ c ∈ s.clientXprts, Holds lib svcs c

section Serves

variable {d : Side → Delivery} {lib : Libucl} {svcs : List Provider} {s s' : Server} {c : Connection} {wire : Wire}
  {before after : List Connection} {aFD : Int} {revents : Revents} {accepted : Option Connection}

theorem readAll_apart {cs : List Connection} (h : ∀ c ∈ cs, c.fd ≠ aFD) : readAll d lib svcs aFD cs = .ok cs := by
  induction cs with
  | nil => rfl
  | cons c cs ih =>
    obtain ⟨hc, hcs⟩ := List.forall_mem_cons.mp h
    rw [readAll, if_neg hc, ih hcs]
    rfl

/-- Where the descriptors differ, one client is told. -/
theorem readAll_split (hdistinct : ((before ++ c :: after).map Connection.fd).Nodup) :
    readAll d lib svcs c.fd (before ++ c :: after) =
      (c.wire.readyForRead (d .far) lib svcs .far).map fun wire => before ++ { c with wire } :: after := by
  induction before with
  | nil =>
    have hafter : ∀ x ∈ after, x.fd ≠ c.fd := by
      intro x hx heq
      exact (List.nodup_cons.mp hdistinct).1 (heq ▸ List.mem_map_of_mem hx)
    rw [List.nil_append, readAll, if_pos rfl, readAll_apart hafter]
    cases c.wire.readyForRead (d .far) lib svcs .far <;> rfl
  | cons b before ih =>
    obtain ⟨hb, hrest⟩ := List.nodup_cons.mp hdistinct
    have hne : b.fd ≠ c.fd := fun heq => hb (heq ▸ List.mem_map_of_mem (List.mem_append_right _ List.mem_cons_self))
    rw [List.cons_append, readAll, if_neg hne, ih hrest]
    cases c.wire.readyForRead (d .far) lib svcs .far <;> rfl

theorem Accepts.holds (h : s.Accepts c) : Holds lib svcs c := by
  obtain ⟨hstart, hcarries⟩ := h.start.carries
  exact ⟨[], _, _, hstart, .nil _, List.forall_mem_nil _, hcarries, hstart.orderly⟩

theorem prompt_providers (hprompt : Prompt svcs) (hclient : Prompt c.svcs) : ∀ p, Prompt (c.providers svcs p)
  | .near => hclient
  | .far => hprompt

/-- What happens at one connection leaves the others as they are. -/
theorem Serves.update (h : s.Serves lib svcs) (hclients : s.clientXprts = before ++ c :: after)
    (hholds : Holds lib svcs { c with wire }) :
    Serves lib svcs { s with clientXprts := before ++ { c with wire } :: after } := by
  have hfds : (before ++ { c with wire } :: after).map Connection.fd = s.clientXprts.map Connection.fd := by
    rw [hclients, List.map_append, List.map_append, List.map_cons, List.map_cons]
  have hc : c ∈ s.clientXprts := by
    rw [hclients]
    exact List.mem_append_right _ List.mem_cons_self
  have hothers : ∀ x ∈ before ++ { c with wire } :: after, x ∈ s.clientXprts ∨ x = { c with wire } := by
    intro x hx
    rw [hclients]
    rcases List.mem_append.mp hx with hx | hx
    · exact Or.inl (List.mem_append_left _ hx)
    · rcases List.mem_cons.mp hx with rfl | hx
      · exact Or.inr rfl
      · exact Or.inl (List.mem_append_right _ (List.mem_cons_of_mem _ hx))
  refine ⟨?_, fun x hx => ?_, fun x hx => ?_, fun x hx => ?_⟩
  · rw [hfds]
    exact h.distinct
  · obtain hx | rfl := hothers x hx
    · exact h.apart x hx
    · exact h.apart c hc
  · obtain hx | rfl := hothers x hx
    · exact h.prompt x hx
    · exact h.prompt c hc
  · obtain hx | rfl := hothers x hx
    · exact h.holds x hx
    · exact hholds

theorem Serves.accept (h : s.Serves lib svcs) (haccepts : s.Accepts c) :
    Serves lib svcs { s with clientXprts := s.clientXprts ++ [c] } := by
  refine ⟨?_, ?_, ?_, ?_⟩
  · rw [List.map_append]
    refine List.nodup_append.mpr ⟨h.distinct, List.pairwise_singleton _ _, fun fd hfd fd' hfd' => ?_⟩
    obtain ⟨x, hx, rfl⟩ := List.mem_map.mp hfd
    obtain rfl := List.mem_singleton.mp hfd'
    exact haccepts.fresh x hx
  · exact List.forall_mem_append.mpr ⟨h.apart, List.forall_mem_singleton.mpr haccepts.fd_ne⟩
  · exact List.forall_mem_append.mpr ⟨h.prompt, List.forall_mem_singleton.mpr haccepts.prompt⟩
  · exact List.forall_mem_append.mpr ⟨h.holds, List.forall_mem_singleton.mpr haccepts.holds⟩

theorem Serves.drop (h : s.Serves lib svcs) (aFD : Int) :
    Serves lib svcs { s with clientXprts := s.clientXprts.eraseP fun c => c.fd = aFD } where
  distinct := h.distinct.sublist (List.Sublist.map _ List.eraseP_sublist)
  apart c hc := h.apart c (List.mem_of_mem_eraseP hc)
  prompt c hc := h.prompt c (List.mem_of_mem_eraseP hc)
  holds c hc := h.holds c (List.mem_of_mem_eraseP hc)

variable (hprompt : Prompt svcs) (hwhole : ∀ p i, 2 ^ 31 ≤ (d p).chunk i)

include hprompt hwhole

/-- Each step at a connection is one of its session. -/
theorem Holds.step (h : Holds lib svcs c) (hclient : Prompt c.svcs) {l : Wire.Label} (hfresh : l.Fresh c.wire)
    (hstep : Wire.Step d lib (c.providers svcs) c.wire l wire) : Holds lib svcs { c with wire } := by
  obtain ⟨trace, s₀, s, hstart, hrun, hfreshs, hcarries, horderly⟩ := h
  obtain ⟨l', s', hstep', hfresh', hcarries', horderly'⟩ :=
    hcarries.step (prompt_providers hprompt hclient) hwhole horderly hfresh hstep
  refine ⟨trace ++ [(s, l')], s₀, s', hstart, hrun.append (.single hstep'), ?_, hcarries', horderly'⟩
  exact List.forall_mem_append.mpr ⟨hfreshs, List.forall_mem_singleton.mpr hfresh'⟩

/-- The server gets through a message that is on its way. -/
theorem Holds.readyForRead (h : Holds lib svcs c) (hclient : Prompt c.svcs) (hne : (c.wire.socket .far).stream ≠ []) :
    ∃ wire, c.wire.readyForRead (d .far) lib svcs .far = .ok wire := by
  obtain ⟨_, _, s, _, _, _, hcarries, horderly⟩ := h
  have hinbox : s.inbox .far ≠ [] := by
    intro hempty
    rw [hcarries.stream, hempty] at hne
    exact hne rfl
  obtain ⟨m, rest, hinbox⟩ := List.exists_cons_of_ne_nil hinbox
  obtain ⟨⟨socket, _, hrecv⟩, htext, t, hread⟩ :=
    hcarries.reads (prompt_providers hprompt hclient) hwhole horderly hinbox
  have hread : Wsrpc.readyForRead lib svcs (c.wire.transport .far) m = .ok t := hread
  unfold Wire.readyForRead
  rw [hrecv]
  simp only [Option.bind_some, htext, hread]
  exact ⟨_, rfl⟩

/-- The server gets through every event that is reported. -/
theorem Serves.fdEvent_isOk (h : s.Serves lib svcs) (hreported : s.Reported aFD revents) :
    ∃ s', fdEvent d lib svcs accepted s aFD revents = .ok s' := by
  unfold fdEvent
  split
  · exact ⟨_, rfl⟩
  · split
    · cases accepted <;> exact ⟨_, rfl⟩
    · split
      · rename_i hin
        by_cases hfd : ∃ c ∈ s.clientXprts, c.fd = aFD
        · obtain ⟨c, hc, rfl⟩ := hfd
          obtain ⟨wire, hread⟩ := (h.holds c hc).readyForRead hprompt hwhole (h.prompt c hc) (hreported hin c hc rfl)
          obtain ⟨before, after, hclients⟩ := List.append_of_mem hc
          rw [hclients, readAll_split (hclients ▸ h.distinct), hread]
          exact ⟨_, rfl⟩
        · rw [readAll_apart fun c hc heq => hfd ⟨c, hc, heq⟩]
          exact ⟨_, rfl⟩
      · exact ⟨_, rfl⟩

/-- What each step keeps. -/
theorem Serves.step (h : s.Serves lib svcs) {l : Label} (hfresh : l.Fresh s) (hstep : Step d lib svcs s l s') :
    s'.Serves lib svcs := by
  cases hstep with
  | @event _ aFD revents accepted _ haccepts hanswerable hevent =>
    unfold fdEvent at hevent
    split at hevent
    · obtain rfl := Except.ok.inj hevent
      exact h.drop aFD
    · split at hevent
      · cases accepted with
        | none =>
          obtain rfl := Except.ok.inj hevent
          exact h
        | some c =>
          obtain rfl := Except.ok.inj hevent
          exact h.accept (haccepts c rfl)
      · split at hevent
        · obtain ⟨clients, hread, heq⟩ := bind_eq_ok hevent
          obtain rfl := Except.ok.inj heq
          by_cases hfd : ∃ c ∈ s.clientXprts, c.fd = aFD
          · obtain ⟨c, hc, rfl⟩ := hfd
            obtain ⟨before, after, hclients⟩ := List.append_of_mem hc
            rw [hclients, readAll_split (hclients ▸ h.distinct)] at hread
            cases hwire : c.wire.readyForRead (d .far) lib svcs .far with
            | error why =>
              rw [hwire] at hread
              cases hread
            | ok wire =>
              rw [hwire] at hread
              obtain rfl := Except.ok.inj hread
              have hstep : Wire.Step d lib (c.providers svcs) c.wire (.recv .far) wire :=
                Wire.step_recv_iff.mpr ⟨hwire, hanswerable c hc rfl⟩
              have hfresh : Wire.Label.Fresh c.wire (.recv .far) := trivial
              exact h.update hclients ((h.holds c hc).step hprompt hwhole (h.prompt c hc) hfresh hstep)
          · rw [readAll_apart fun c hc heq => hfd ⟨c, hc, heq⟩] at hread
            obtain rfl := Except.ok.inj hread
            exact h
        · obtain rfl := Except.ok.inj hevent
          exact h
  | @client before c after l wire hclients hl hstep =>
    have hc : c ∈ s.clientXprts := by
      rw [hclients]
      exact List.mem_append_right _ List.mem_cons_self
    exact h.update hclients ((h.holds c hc).step hprompt hwhole (h.prompt c hc) (hfresh c hc rfl) hstep)

omit hprompt hwhole in
theorem Serves.eq_of_fd (h : s.Serves lib svcs) {x : Connection} (hx : x ∈ s.clientXprts) (hc : c ∈ s.clientXprts)
    (hfd : x.fd = c.fd) : x = c :=
  List.inj_on_of_nodup_map h.distinct hx hc hfd

omit hprompt hwhole in
/-- What a client and the server do over their connection can be done among others. -/
theorem Serves.exists_step (h : s.Serves lib svcs) (hclients : s.clientXprts = before ++ c :: after) {l : Wire.Label}
    (hfresh : l.Fresh c.wire) (hstep : Wire.Step d lib (c.providers svcs) c.wire l wire) :
    ∃ l', Step d lib svcs s l' { s with clientXprts := before ++ { c with wire } :: after } ∧ l'.Fresh s := by
  have hc : c ∈ s.clientXprts := by
    rw [hclients]
    exact List.mem_append_right _ List.mem_cons_self
  by_cases hread : l = .recv .far
  · subst hread
    obtain ⟨_, _, t, _, _, _, hcarries, _⟩ := h.holds c hc
    obtain ⟨hwire, hanswerable⟩ := Wire.step_recv_iff.mp hstep
    have hwire : c.wire.readyForRead (d .far) lib svcs .far = .ok wire := hwire
    refine ⟨.event c.fd { pollin := true } none, .event ?_ ?_ ?_ ?_, trivial⟩
    · intro _ x hx hfd
      rw [h.eq_of_fd hx hc hfd]
      exact hcarries.stream_ne_nil hstep
    · intro x hx
      cases hx
    · intro x hx hfd
      rw [h.eq_of_fd hx hc hfd]
      exact hanswerable
    · have hlistener := h.apart c hc
      simp only [fdEvent, Bool.false_eq_true, if_false, if_neg hlistener, if_true]
      rw [hclients, readAll_split (hclients ▸ h.distinct), hwire]
      rfl
  · refine ⟨.client c.fd l, .client hclients hread hstep, fun x hx hfd => ?_⟩
    rw [h.eq_of_fd hx hc hfd]
    exact hfresh

theorem Serves.exists_run (h : s.Serves lib svcs) {w : Wire}
    (hclients : s.clientXprts = before ++ { c with wire := w } :: after)
    {trace : List (Wire × Wire.Label)} (hrun : Run (Wire.Step d lib (c.providers svcs)) w trace wire)
    (hfresh : ∀ e ∈ trace, e.2.Fresh e.1) :
    ∃ trace', Run (Step d lib svcs) s trace' { s with clientXprts := before ++ { c with wire } :: after } ∧
      ∀ e ∈ trace', e.2.Fresh e.1 := by
  induction hrun generalizing s with
  | nil w =>
    rw [← hclients]
    exact ⟨[], .nil s, List.forall_mem_nil _⟩
  | cons hstep hrest ih =>
    obtain ⟨hfirst, hlater⟩ := List.forall_mem_cons.mp hfresh
    obtain ⟨l', hstep', hfresh'⟩ := h.exists_step hclients hfirst hstep
    obtain ⟨trace', hrun', hlater'⟩ := ih (h.step hprompt hwhole hfresh' hstep') rfl hlater
    exact ⟨_, .cons hstep' hrun', List.forall_mem_cons.mpr ⟨hfresh', hlater'⟩⟩

/-- However many clients there are, and in whatever order they come, call, read and go: the
server gets through each event, and over each connection goes a session of its own. -/
theorem run_serves {trace : List (Server × Label)} (hstart : s.clientXprts = [])
    (hrun : Run (Step d lib svcs) s trace s')
    (hfresh : ∀ e ∈ trace, e.2.Fresh e.1) :
    (s'.clientXprts.map Connection.fd).Nodup ∧
      (∀ c ∈ s'.clientXprts, ∃ trace' s₀ t, s₀.Start ∧ Run (Session.Step lib (c.providers svcs)) s₀ trace' t ∧
        (∀ e ∈ trace', e.2.Fresh e.1) ∧ Wire.Refines d lib (c.providers svcs) c.wire t) ∧
      ∀ aFD revents accepted, s'.Reported aFD revents → ∃ s'',
        fdEvent d lib svcs accepted s' aFD revents = .ok s'' := by
  have hserves : s.Serves lib svcs := by
    constructor <;> simp [hstart]
  have hserves' := hrun.invariant (fun _ _ _ h hok hstep => h.step hprompt hwhole hok hstep) hserves hfresh
  refine ⟨hserves'.distinct, fun c hc => ?_, fun aFD revents accepted => hserves'.fdEvent_isOk hprompt hwhole⟩
  obtain ⟨trace', s₀, t, hstart', hrun', hfresh', hcarries, horderly⟩ := hserves'.holds c hc
  exact ⟨trace', s₀, t, hstart', hrun', hfresh',
    hcarries.refines (prompt_providers hprompt (hserves'.prompt c hc)) hwhole horderly⟩

end Serves

/-- A client that was not called and did not call. -/
def pingClient (fd : Int) : Connection where
  fd
  svcs := [pongProvider]
  wire := Wire.pingPong

theorem pingClient_providers (fd : Int) : (pingClient fd).providers [pongProvider] = fun _ => [pongProvider] := by
  funext p
  cases p <;> rfl

/-- Two clients connect. -/
def pingTrace : List (Server × Label) :=
  [({ fd := 3 }, .event 3 { pollin := true } (some (pingClient 5))),
    ({ fd := 3, clientXprts := [pingClient 5] }, .event 3 { pollin := true } (some (pingClient 6)))]

theorem pingTrace_run : Run (Step (fun _ => Wire.wholeDelivery) pingPongLib [pongProvider]) { fd := 3 } pingTrace
    { fd := 3, clientXprts := [pingClient 5, pingClient 6] } := by
  refine .cons (.event ?_ ?_ ?_ rfl) (.single (.event ?_ ?_ ?_ rfl))
  · simp [Reported]
  · intro c hc
    obtain rfl := Option.some.inj hc
    exact ⟨by decide, by simp, Wire.pingPong_start, Session.prompt_pongProvider⟩
  · simp
  · simp [Reported, pingClient]
  · intro c hc
    obtain rfl := Option.some.inj hc
    exact ⟨by decide, by simp [pingClient], Wire.pingPong_start, Session.prompt_pongProvider⟩
  · simp [pingClient]

theorem pingTrace_fresh : ∀ e ∈ pingTrace, e.2.Fresh e.1 :=
  List.forall_mem_cons.mpr ⟨trivial, List.forall_mem_singleton.mpr trivial⟩

/-- The first of them calls and is answered, while the second is connected. -/
theorem run_serves_ping : ∃ trace w,
    let s : Server := { fd := 3, clientXprts := [{ pingClient 5 with wire := w }, pingClient 6] }
    Run (Step (fun _ => Wire.wholeDelivery) pingPongLib [pongProvider]) { fd := 3 } trace s ∧
      (∀ p, (w.socket p).stream = []) ∧
      (∃ t, Wire.Refines (fun _ => Wire.wholeDelivery) pingPongLib ((pingClient 5).providers [pongProvider]) w t) ∧
      ∃ s', fdEvent (fun _ => Wire.wholeDelivery) pingPongLib [pongProvider] none s 6 {} = .ok s' := by
  have hprompt := Session.prompt_pongProvider
  have hwhole : ∀ (p : Side) i, 2 ^ 31 ≤ ((fun _ => Wire.wholeDelivery) p : Delivery).chunk i := fun _ _ => le_rfl
  have hserves : Serves pingPongLib [pongProvider] { fd := 3 } := by
    constructor <;> simp
  have hserves := pingTrace_run.invariant (fun _ _ _ h hok hstep => h.step hprompt hwhole hok hstep) hserves
      pingTrace_fresh
  obtain ⟨trace, w, hrun, hfresh, hempty⟩ := Wire.exists_pingPong
  rw [← pingClient_providers 5] at hrun
  have hclients : [pingClient 5, pingClient 6] = [] ++ { pingClient 5 with wire := Wire.pingPong } ::
      [pingClient 6] := rfl
  obtain ⟨trace', hrun', hfresh'⟩ := hserves.exists_run hprompt hwhole hclients hrun hfresh
  have hall := pingTrace_run.append hrun'
  obtain ⟨_, hsessions, hevents⟩ := run_serves hprompt hwhole rfl hall
    (List.forall_mem_append.mpr ⟨pingTrace_fresh, hfresh'⟩)
  obtain ⟨_, _, t, _, _, _, hrefines⟩ := hsessions { pingClient 5 with wire := w } List.mem_cons_self
  refine ⟨_, w, hall, hempty, ⟨t, hrefines⟩, hevents 6 {} none ?_⟩
  simp [Reported]

end Server

end ServiceManager.Wsrpc
