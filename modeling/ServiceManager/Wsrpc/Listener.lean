import ServiceManager.Wsrpc.RoundTrip
import ServiceManager.Wsrpc.Transport

namespace ServiceManager.Wsrpc

/-- The transport of a client, with what is in flight on its descriptor. -/
structure Client where
  fd : Int
  reception : Reception := {}
  socket : Socket

/-- A listener with the objects that were given to `processMessage`, each with the
descriptor it came from. -/
structure Listener where
  fd : Int
  clients : List Client
  passed : List (Int × Ucl) := []

/-- The flags that a driver reports. -/
structure Revents where
  pollin : Bool := false
  pollhup : Bool := false

section Events

/- What arrives and how, and `parseMessage` on a buffer. -/
variable (d : Delivery) (parse : List UInt8 → Option Ucl)

/-- The client after a call of `readyForRead`, and what it gave to `processMessage`. -/
def Client.readyForRead (c : Client) : Except Stop (Client × Option Ucl) := do
  let (complete, reception, socket) ← doRecv d.system c.reception c.socket
  if complete then
    .ok ({ c with reception := { reception with curMsgBuf := none }, socket }, reception.curMsgBuf.bind parse)
  else .ok ({ c with reception, socket }, none)

/-- Each client that has the descriptor is told. -/
def readAll (aFD : Int) : List Client → Except Stop (List Client × List (Int × Ucl))
  | [] => .ok ([], [])
  | c :: cs =>
    if c.fd = aFD then do
      let (c, obj) ← c.readyForRead d parse
      let (cs, objs) ← readAll aFD cs
      .ok (c :: cs, obj.toList.map (Prod.mk aFD) ++ objs)
    else do
      let (cs, objs) ← readAll aFD cs
      .ok (c :: cs, objs)

/-- A hangup drops the client, whatever else is reported with it. `accepted` is the
descriptor that `accept` returns. -/
def fdEvent (accepted : Option Int) (l : Listener) (aFD : Int) (revents : Revents) : Except Stop Listener :=
  if revents.pollhup then .ok { l with clients := l.clients.eraseP fun c => c.fd = aFD }
  else if aFD = l.fd then
    match accepted with
    | none => .ok l
    | some clFd => .ok { l with clients := l.clients ++ [{ fd := clFd, socket := { stream := [] } }] }
  else if revents.pollin then do
    let (clients, objs) ← readAll d parse aFD l.clients
    .ok { l with clients, passed := l.passed ++ objs }
  else .ok l

/-- The events that a driver reports for a descriptor, one after the other. -/
def fdEvents (accepted : Option Int) (aFD : Int) : List Revents → Listener → Except Stop Listener
  | [], l => .ok l
  | revents :: rest, l => fdEvent d parse accepted l aFD revents >>= fdEvents accepted aFD rest

end Events

/-- The events for the descriptor of a client that writes and then closes: data while it
is open, data and hangup while data is left, and hangup. -/
def reported (alive closed : Nat) : List Revents :=
  List.replicate alive { pollin := true } ++
    (List.replicate closed { pollin := true, pollhup := true } ++ [{ pollhup := true }])

/-- The listener gets through the events, has then given the objects to `processMessage`
in their order, and has dropped the client. -/
def Lossless (d : Delivery) (parse : List UInt8 → Option Ucl) (accepted : Option Int) (l : Listener) (aFD : Int)
    (events : List Revents) (objs : List Ucl) : Prop :=
  ∃ l', fdEvents d parse accepted aFD events l = .ok l' ∧ l'.passed = l.passed ++ objs.map (Prod.mk aFD) ∧
    ∀ c ∈ l'.clients, c.fd ≠ aFD

section Reads

variable {d : Delivery} {parse : List UInt8 → Option Ucl} {accepted : Option Int} {aFD : Int} {l : Listener}
  {before after : List Client} (hbefore : ∀ c ∈ before, c.fd ≠ aFD) (hafter : ∀ c ∈ after, c.fd ≠ aFD)

theorem fdEvent_hangup {revents : Revents} (hhup : revents.pollhup = true) :
    fdEvent d parse accepted l aFD revents = .ok { l with clients := l.clients.eraseP fun c => c.fd = aFD } := by
  unfold fdEvent
  rw [if_pos hhup]

theorem readAll_apart {cs : List Client} (h : ∀ c ∈ cs, c.fd ≠ aFD) : readAll d parse aFD cs = .ok (cs, []) := by
  induction cs with
  | nil => rfl
  | cons c cs ih =>
    obtain ⟨hc, hcs⟩ := List.forall_mem_cons.mp h
    rw [readAll, if_neg hc, ih hcs]
    rfl

include hbefore hafter

theorem readAll_split {c c' : Client} {obj : Option Ucl} (hfd : c.fd = aFD)
    (hread : c.readyForRead d parse = .ok (c', obj)) :
    readAll d parse aFD (before ++ c :: after) = .ok (before ++ c' :: after, obj.toList.map (Prod.mk aFD)) := by
  induction before with
  | nil =>
    rw [List.nil_append, readAll, if_pos hfd, hread, readAll_apart hafter]
    simp [bind, Except.bind]
  | cons b before ih =>
    obtain ⟨hb, hbefore⟩ := List.forall_mem_cons.mp hbefore
    rw [List.cons_append, readAll, if_neg hb, ih hbefore]
    rfl

/-- The client stands at its place, with the given messages still to be read. -/
def Serving (l : Listener) (before after : List Client) (aFD : Int) (msgs : List Message) : Prop :=
  ∃ reception recvs, reception.curMsgLen = 0 ∧
    l.clients = before ++ { fd := aFD, reception, socket := { stream := msgs.flatMap writeObj, recvs } } :: after

/-- Data that is reported alone is read. -/
theorem fdEvent_pollin (accepted : Option Int) {m : Message} {msgs : List Message} {obj : Ucl} (hlistener : aFD ≠ l.fd)
    (hwhole : ∀ i, 2 ^ 31 ≤ d.chunk i) (hfits : m.Fits) (hparse : parse m.framed = some obj)
    (h : Serving l before after aFD (m :: msgs)) :
    ∃ l', fdEvent d parse accepted l aFD { pollin := true } = .ok l' ∧ Serving l' before after aFD msgs ∧
      l'.fd = l.fd ∧ l'.passed = l.passed ++ [(aFD, obj)] := by
  obtain ⟨reception, recvs, hidle, hclients⟩ := h
  have hheader := hwhole recvs
  have hbody := hwhole (recvs + 1)
  have hsize : m.framed.length < 2 ^ 31 := hfits
  have hstream : (m :: msgs).flatMap writeObj = writeObj m ++ msgs.flatMap writeObj := List.flatMap_cons
  have hrecv := doRecv_whole (d := d) (k := recvs) hidle hfits (by omega) hstream (by omega)
  let client : Client :=
    { fd := aFD, reception := { curMsgLen := 0, curMsgOff := m.framed.length, curMsgBuf := none },
      socket := { stream := msgs.flatMap writeObj, recvs := recvs + 2 } }
  have hread : Client.readyForRead d parse
      { fd := aFD, reception, socket := { stream := (m :: msgs).flatMap writeObj, recvs } } =
        .ok (client, some obj) := by
    simp only [Client.readyForRead, hrecv, bind, Except.bind, if_true, Option.bind_some, hparse, client]
  have hreadAll := readAll_split hbefore hafter rfl hread
  refine ⟨{ l with clients := before ++ client :: after, passed := l.passed ++ [(aFD, obj)] }, ?_, ⟨_, _, rfl, rfl⟩,
    rfl, rfl⟩
  simp only [fdEvent, Bool.false_eq_true, if_false, if_neg hlistener, if_true, hclients, hreadAll]
  rfl

/-- Each report of input takes one message off the stream. -/
theorem fdEvents_pollin (accepted : Option Int) {read msgs : List Message} {objs : List Ucl} (hlistener : aFD ≠ l.fd)
    (hwhole : ∀ i, 2 ^ 31 ≤ d.chunk i) (hfits : ∀ m ∈ read, m.Fits)
    (hparse : read.map (fun m => parse m.framed) = objs.map some) (rest : List Revents)
    (h : Serving l before after aFD (read ++ msgs)) :
    ∃ l', fdEvents d parse accepted aFD (List.replicate read.length { pollin := true } ++ rest) l =
        fdEvents d parse accepted aFD rest l' ∧ Serving l' before after aFD msgs ∧
      l'.passed = l.passed ++ objs.map (Prod.mk aFD) := by
  induction read generalizing l objs with
  | nil =>
    obtain rfl : objs = [] := by simpa using hparse.symm
    exact ⟨l, rfl, h, by simp⟩
  | cons m read ih =>
    cases objs with
    | nil => simp at hparse
    | cons obj objs =>
      obtain ⟨hobj, hparse⟩ := List.cons.inj hparse
      obtain ⟨hm, hfits⟩ := List.forall_mem_cons.mp hfits
      obtain ⟨l₁, hevent, hserving, hfd, hpassed⟩ := fdEvent_pollin hbefore hafter accepted hlistener hwhole
        hm hobj h
      obtain ⟨l₂, hevents, hserving₂, hpassed₂⟩ := ih (hfd ▸ hlistener) hfits hparse hserving
      refine ⟨l₂, ?_, hserving₂, by rw [hpassed₂, hpassed]; simp⟩
      rw [List.length_cons, List.replicate_succ, List.cons_append, fdEvents, hevent]
      exact hevents

omit hafter in
/-- The first hangup drops the client, whatever is left to read. -/
theorem fdEvent_pollhup {msgs : List Message} (revents : Revents) (hhup : revents.pollhup = true)
    (h : Serving l before after aFD msgs) :
    fdEvent d parse accepted l aFD revents = .ok { l with clients := before ++ after } := by
  obtain ⟨reception, recvs, _, hclients⟩ := h
  rw [fdEvent_hangup hhup, hclients, List.eraseP_append_right _ (by simpa using hbefore)]
  simp

omit hbefore hafter in
/-- Nothing more comes of hangups on a descriptor that no client has. -/
theorem fdEvents_hangup {events : List Revents} (hhup : ∀ revents ∈ events, revents.pollhup = true)
    (hapart : ∀ c ∈ l.clients, c.fd ≠ aFD) : fdEvents d parse accepted aFD events l = .ok l := by
  induction events with
  | nil => rfl
  | cons revents events ih =>
    obtain ⟨hhup₁, hhup⟩ := List.forall_mem_cons.mp hhup
    have herase : (l.clients.eraseP fun c => c.fd = aFD) = l.clients :=
      List.eraseP_of_forall_not (by simpa using hapart)
    rw [fdEvents, fdEvent_hangup hhup₁, herase]
    exact ih hhup

theorem fdEvents_pollhup {msgs : List Message} {events : List Revents} (hne : events ≠ [])
    (hhup : ∀ revents ∈ events, revents.pollhup = true) (h : Serving l before after aFD msgs) :
    fdEvents d parse accepted aFD events l = .ok { l with clients := before ++ after } := by
  cases events with
  | nil => exact absurd rfl hne
  | cons revents events =>
    obtain ⟨hhup₁, hhup⟩ := List.forall_mem_cons.mp hhup
    rw [fdEvents, fdEvent_pollhup hbefore revents hhup₁ h]
    exact fdEvents_hangup hhup (List.forall_mem_append.mpr ⟨hbefore, hafter⟩)

/-- What the listener has read when the client is gone: a message for each event that
reported data alone. -/
theorem fdEvents_reported (accepted : Option Int) {msgs : List Message} {objs : List Ucl} (alive closed : Nat)
    (hlistener : aFD ≠ l.fd)
    (hwhole : ∀ i, 2 ^ 31 ≤ d.chunk i) (hfits : ∀ m ∈ msgs, m.Fits)
    (hparse : msgs.map (fun m => parse m.framed) = objs.map some) (halive : alive ≤ msgs.length)
    (h : Serving l before after aFD msgs) :
    ∃ l', fdEvents d parse accepted aFD (reported alive closed) l = .ok l' ∧
      l'.passed = l.passed ++ (objs.take alive).map (Prod.mk aFD) ∧ l'.clients = before ++ after := by
  have hread : (msgs.take alive).length = alive := by rw [List.length_take, Nat.min_eq_left halive]
  have hparse' : (msgs.take alive).map (fun m => parse m.framed) = (objs.take alive).map some := by
    rw [List.map_take, List.map_take, hparse]
  rw [← List.take_append_drop alive msgs] at h
  obtain ⟨l', hevents, hserving, hpassed⟩ := fdEvents_pollin hbefore hafter accepted hlistener hwhole
    (fun m hm => hfits m (List.mem_of_mem_take hm)) hparse'
    (List.replicate closed { pollin := true, pollhup := true } ++ [{ pollhup := true }]) h
  rw [hread] at hevents
  refine ⟨{ l' with clients := before ++ after }, ?_, hpassed, rfl⟩
  rw [reported, hevents]
  refine fdEvents_pollhup hbefore hafter (by simp) (fun revents hmem => ?_) hserving
  rcases List.mem_append.mp hmem with hmem | hmem
  · rw [List.eq_of_mem_replicate hmem]
  · rw [List.mem_singleton.mp hmem]

end Reads

/-- Nothing is lost exactly if no hangup is reported together with data. -/
theorem fdEvents_lossless_iff (d : Delivery) (parse : List UInt8 → Option Ucl) (accepted : Option Int) (l : Listener)
    (c : Client) (msgs : List Message) (objs : List Ucl) (alive closed : Nat)
    (hwhole : ∀ i, 2 ^ 31 ≤ d.chunk i) (hfits : ∀ m ∈ msgs, m.Fits)
    (hparse : msgs.map (fun m => parse m.framed) = objs.map some)
    (hclient : c ∈ l.clients) (hfds : (l.fd :: l.clients.map Client.fd).Nodup) (hidle : c.reception.curMsgLen = 0)
    (hstream : c.socket.stream = msgs.flatMap writeObj)
    (halive : alive ≤ msgs.length) (hclosed : 0 < closed ↔ alive < msgs.length) :
    Lossless d parse accepted l c.fd (reported alive closed) objs ↔ closed = 0 := by
  obtain ⟨before, after, hclients⟩ := List.append_of_mem hclient
  obtain ⟨hlistener, hnodup⟩ := List.nodup_cons.mp hfds
  rw [hclients, List.map_append, List.map_cons] at hnodup
  obtain ⟨_, hcons, hdisjoint⟩ := List.nodup_append.mp hnodup
  have hbefore : ∀ c' ∈ before, c'.fd ≠ c.fd :=
    fun c' hc' => hdisjoint _ (List.mem_map_of_mem hc') _ List.mem_cons_self
  have hafter : ∀ c' ∈ after, c'.fd ≠ c.fd :=
    fun c' hc' heq => (List.nodup_cons.mp hcons).1 (heq ▸ List.mem_map_of_mem hc')
  have hserving : Serving l before after c.fd msgs := by
    refine ⟨c.reception, c.socket.recvs, hidle, ?_⟩
    rw [← hstream]
    exact hclients
  have hlistener' : c.fd ≠ l.fd := fun heq => hlistener (heq ▸ List.mem_map_of_mem hclient)
  obtain ⟨l', hevents, hpassed, hclients'⟩ :=
    fdEvents_reported hbefore hafter accepted alive closed hlistener' hwhole hfits hparse
    halive hserving
  have hlength : objs.length = msgs.length := by simpa using (congrArg List.length hparse).symm
  constructor
  · rintro ⟨l'', hevents', hpassed', _⟩
    obtain rfl := Except.ok.inj (hevents.symm.trans hevents')
    have hobjs := congrArg List.length (List.append_cancel_left (hpassed.symm.trans hpassed'))
    rw [List.length_map, List.length_map, List.length_take] at hobjs
    omega
  · intro hzero
    refine ⟨l', hevents, ?_, ?_⟩
    · rw [hpassed, List.take_of_length_le (by omega)]
    · rw [hclients']
      exact List.forall_mem_append.mpr ⟨hbefore, hafter⟩

/-- A notification, whose text is all the same here. -/
def notice : Message where
  text := [0x7b, 0x7d]
  nul_free := by decide

/-- Whatever was written arrives as it is asked for. -/
def prompt : Delivery where
  chunk _ := 2 ^ 31
  chunk_pos _ := by decide
  heap _ _ := 0

/-- A client that has written two notices. -/
def writer : Client where
  fd := 5
  socket := { stream := [notice, notice].flatMap writeObj }

def server : Listener where
  fd := 3
  clients := [writer]

def parseNotice (_ : List UInt8) : Option Ucl :=
  some (.object [])

/-- Both are read while the client is open. -/
theorem fdEvents_lossless_prompt :
    Lossless prompt parseNotice none server 5 (reported 2 0) [.object [], .object []] :=
  (fdEvents_lossless_iff prompt parseNotice none server writer [notice, notice] _ 2 0
    (fun _ => Nat.le_refl _) (by decide) rfl List.mem_cons_self (by decide) rfl rfl (by decide) (by decide)).mpr rfl

/-- The client closes before the second is read. -/
theorem fdEvents_loses :
    ¬Lossless prompt parseNotice none server 5 (reported 1 1) [.object [], .object []] := by
  rintro ⟨l', hevents, hpassed, _⟩
  have hserving : Serving server [] [] 5 [notice, notice] := ⟨{}, 0, rfl, rfl⟩
  have hwhole : ∀ i, 2 ^ 31 ≤ prompt.chunk i := fun _ => Nat.le_refl _
  have hparse : [notice, notice].map (fun m => parseNotice m.framed) = [Ucl.object [], .object []].map some := rfl
  obtain ⟨l'', hevents', hpassed', _⟩ := fdEvents_reported (by simp) (by simp) none 1 1 (by decide) hwhole (by decide)
    hparse (by decide) hserving
  obtain rfl := Except.ok.inj (hevents.symm.trans hevents')
  have hlength := congrArg List.length (hpassed.symm.trans hpassed')
  exact absurd hlength (by decide)

end ServiceManager.Wsrpc
