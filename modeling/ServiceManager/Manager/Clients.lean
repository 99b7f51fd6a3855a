import ServiceManager.Event.Poll
import ServiceManager.Wsrpc.Listener

namespace ServiceManager

open Event Wsrpc Trace

/-- The manager: its event loop, its listener, and the descriptors that the process has
open. -/
structure Manager where
  loop : EventLoop
  listener : Listener
  opened : List Int

/-- The flags of `poll` that the listener looks at. -/
def Wsrpc.Revents.ofMask (revents : Nat) : Revents where
  pollin := revents.testBit 0
  pollhup := revents.testBit 4

namespace Manager

variable (m : Manager)

/-- The descriptors of the listener's transports. -/
def clientFDs : List Int :=
  m.listener.clients.map Client.fd

/-- What the listener's delegate does to the loop: `clientDisconnected` deletes the
descriptor of a client that is dropped, `clientConnected` adds that of a new one. -/
def delegated (accepted : Option Int) (fd : Int) (revents : Revents) : List Op :=
  if revents.pollhup then if fd ∈ m.clientFDs then [.del fd] else []
  else if fd = m.listener.fd then accepted.toList.map .add
  else []

/-- The descriptors that are open after an event. That of a dropped client is closed. -/
def openedAfter (accepted : Option Int) (fd : Int) (revents : Revents) : List Int :=
  if revents.pollhup then if fd ∈ m.clientFDs then m.opened.filter (· ≠ fd) else m.opened
  else if fd = m.listener.fd then accepted.toList ++ m.opened
  else m.opened

/-- After a call of `fdEvent` in which `accept`, if it is called, returns the given
descriptor. -/
def fdEvent (d : Delivery) (parse : List UInt8 → Option Ucl) (accepted : Option Int) (fd : Int) (revents : Revents) :
    Except Stop Manager := do
  let listener ← Wsrpc.fdEvent d parse accepted m.listener fd revents
  .ok
    { loop := m.loop.applyAll (m.delegated accepted fd revents), listener, opened := m.openedAfter accepted fd revents }

/-- After initialisation, with other descriptors open. -/
def init (pipe listenFD : Int) (others : List Int) : Manager where
  loop := ((EventLoop.init pipe).addFD listenFD).2
  listener := { fd := listenFD, clients := [] }
  opened := pipe :: listenFD :: others

/-- Where `loop` is, between two callbacks. -/
structure State where
  i : Nat
  mgr : Manager

inductive Label where
  /-- The pass is over; `loop` is called again, and `poll` reports this. -/
  | poll (revents : Nat → Nat)
  /-- A signal fired: there is another pass. -/
  | signals
  /-- The index is passed over. -/
  | skip
  /-- The manager is called for a descriptor. -/
  | callback (accepted : Option Int)
  /-- Bytes arrive from the clients. -/
  | arrives (sockets : Client → Socket)
  /-- Other parts of the process open and close descriptors. -/
  | files (opened : List Int)

/-- The steps of the manager. A descriptor that `accept` returns is not open yet, and none
that the loop watches is closed by others. -/
inductive Step (d : Delivery) (parse : List UInt8 → Option Ucl) : State → Label → State → Prop
  | poll {i m} (revents) : m.loop.pFDs.length ≤ i →
      Step d parse ⟨i, m⟩ (.poll revents) ⟨1, { m with loop := m.loop.poll revents }⟩
  | signals {i m} : m.loop.pFDs.length ≤ i → Step d parse ⟨i, m⟩ .signals ⟨1, m⟩
  | skip {i m i' l'} : Event.Step ⟨i, m.loop⟩ .skip ⟨i', l'⟩ → Step d parse ⟨i, m⟩ .skip ⟨i', { m with loop := l' }⟩
  | callback {i m m' p} (accepted) : m.loop.pFDs[i]? = some p → p.revents ≠ 0 → p.fd ∈ m.loop.fdSources →
      (∀ clFd, accepted = some clFd → clFd ∉ m.opened) →
      fdEvent { m with loop := m.loop.call p } d parse accepted p.fd (.ofMask p.revents) = .ok m' →
      Step d parse ⟨i, m⟩ (.callback accepted) ⟨i + 1, { m' with loop := m'.loop.clear i }⟩
  | arrives {i m} (sockets) :
      Step d parse ⟨i, m⟩ (.arrives sockets)
        ⟨i, { m with listener.clients := m.listener.clients.map fun c => { c with socket := sockets c } }⟩
  | files {i m} (opened) : (∀ p ∈ m.loop.pFDs, p.fd ∈ opened) →
      Step d parse ⟨i, m⟩ (.files opened) ⟨i, { m with opened }⟩

/-- The manager's clients are those that the loop watches. -/
structure InStep (pipe : Int) : Prop where
  distinct : m.clientFDs.Nodup
  sources_distinct : m.loop.fdSources.Nodup
  sources : ∀ fd, fd ∈ m.clientFDs ↔ fd ∈ m.loop.fdSources ∧ fd ≠ m.listener.fd
  pFDs_distinct : (m.loop.pFDs.map PollFD.fd).Nodup
  pFDs : ∀ fd, fd ∈ m.clientFDs ↔ fd ∈ m.loop.pFDs.map PollFD.fd ∧ fd ≠ m.listener.fd ∧ fd ≠ pipe
  closed : ∀ fd, fd ∉ m.opened → fd ∉ m.clientFDs ∧ fd ∉ m.loop.fdSources ∧ fd ∉ m.loop.pFDs.map PollFD.fd

/-- Clients, sources and the array hold the same descriptors in the same order, after the
loop's own and the listener's. -/
structure Aligned (pipe listenFD : Int) (m : Manager) : Prop where
  listener : m.listener.fd = listenFD
  sources : m.loop.fdSources = listenFD :: m.clientFDs
  pFDs : m.loop.pFDs.map PollFD.fd = pipe :: listenFD :: m.clientFDs
  nodup : (pipe :: listenFD :: m.clientFDs).Nodup
  opened : ∀ fd ∈ pipe :: listenFD :: m.clientFDs, fd ∈ m.opened

section Aligned

variable {pipe listenFD fd : Int} {m m' : Manager} {d : Delivery} {parse : List UInt8 → Option Ucl}
  {accepted : Option Int} {revents : Revents}

theorem Aligned.init (hne : pipe ≠ listenFD) (others : List Int) :
    Aligned pipe listenFD (init pipe listenFD others) where
  listener := rfl
  sources := rfl
  pFDs := rfl
  nodup := by simpa [clientFDs, Manager.init] using hne
  opened := by simp [clientFDs, Manager.init]

/-- In an aligned manager the loop watches what the listener serves. -/
theorem Aligned.inStep (h : Aligned pipe listenFD m) : m.InStep pipe := by
  obtain ⟨hpipe, hlisten⟩ := List.nodup_cons.mp h.nodup
  obtain ⟨hlistenFD, hclients⟩ := List.nodup_cons.mp hlisten
  have hapart : ∀ fd ∈ m.clientFDs, fd ≠ listenFD ∧ fd ≠ pipe := by
    intro fd hfd
    refine ⟨?_, ?_⟩
    · rintro rfl
      exact hlistenFD hfd
    · rintro rfl
      exact hpipe (List.mem_cons_of_mem _ hfd)
  refine ⟨hclients, h.sources ▸ hlisten, fun fd => ?_, h.pFDs ▸ h.nodup, fun fd => ?_, fun fd hclosed => ?_⟩
  · rw [h.sources, h.listener, List.mem_cons]
    exact ⟨fun hfd => ⟨Or.inr hfd, (hapart fd hfd).1⟩, fun ⟨hfd, hne⟩ => hfd.resolve_left hne⟩
  · rw [h.pFDs, h.listener, List.mem_cons, List.mem_cons]
    exact ⟨fun hfd => ⟨Or.inr (Or.inr hfd), hapart fd hfd⟩,
      fun ⟨hfd, hne, hnePipe⟩ => (hfd.resolve_left hnePipe).resolve_left hne⟩
  · have hnone : fd ∉ pipe :: listenFD :: m.clientFDs := fun hfd => hclosed (h.opened fd hfd)
    rw [h.pFDs, h.sources]
    exact ⟨fun hfd => hnone (List.mem_cons_of_mem _ (List.mem_cons_of_mem _ hfd)),
      fun hfd => hnone (List.mem_cons_of_mem _ hfd), hnone⟩

/-- What is neither a descriptor nor a source does not matter. -/
theorem Aligned.congr (h : Aligned pipe listenFD m) (hlistener : m'.listener.fd = m.listener.fd)
    (hclients : m'.clientFDs = m.clientFDs) (hsources : m'.loop.fdSources = m.loop.fdSources)
    (hpFDs : m'.loop.pFDs.map PollFD.fd = m.loop.pFDs.map PollFD.fd)
    (hopened : ∀ fd ∈ pipe :: listenFD :: m.clientFDs, fd ∈ m'.opened) : Aligned pipe listenFD m' where
  listener := hlistener.trans h.listener
  sources := by rw [hsources, hclients, h.sources]
  pFDs := by rw [hpFDs, hclients, h.pFDs]
  nodup := by rw [hclients]; exact h.nodup
  opened := by rw [hclients]; exact hopened

theorem readyForRead_fd {c c' : Client} {obj : Option Ucl} (h : c.readyForRead d parse = .ok (c', obj)) :
    c'.fd = c.fd := by
  obtain ⟨⟨complete, reception, socket⟩, _, h⟩ := bind_eq_ok h
  cases complete <;> cases h <;> rfl

theorem readAll_fds {cs cs' : List Client} {objs : List (Int × Ucl)} (h : readAll d parse fd cs = .ok (cs', objs)) :
    cs'.map Client.fd = cs.map Client.fd := by
  induction cs generalizing cs' objs with
  | nil =>
    cases h
    rfl
  | cons c cs ih =>
    unfold readAll at h
    split at h
    · obtain ⟨⟨c', obj⟩, hread, h⟩ := bind_eq_ok h
      obtain ⟨⟨rest, objs'⟩, hrest, h⟩ := bind_eq_ok h
      cases h
      rw [List.map_cons, List.map_cons, ih hrest, readyForRead_fd hread]
    · obtain ⟨⟨rest, objs'⟩, hrest, h⟩ := bind_eq_ok h
      cases h
      rw [List.map_cons, List.map_cons, ih hrest]

theorem map_eraseP_eq_erase {α β : Type} [DecidableEq β] (f : α → β) (xs : List α) (y : β) :
    (xs.eraseP fun x => f x = y).map f = (xs.map f).erase y := by
  rw [List.erase_eq_eraseP', List.eraseP_map]
  rfl

/-- A client that hangs up is gone everywhere. -/
theorem Aligned.dropped (h : Aligned pipe listenFD m) (hfd : fd ∈ m.clientFDs) (listener : Listener)
    (hlistener : listener.fd = m.listener.fd)
    (hclients : listener.clients = m.listener.clients.eraseP fun c => c.fd = fd) :
    Aligned pipe listenFD { loop := (m.loop.delFD fd).2, listener, opened := m.opened.filter (· ≠ fd) } := by
  have hfds : listener.clients.map Client.fd = m.clientFDs.erase fd := by
    rw [hclients, map_eraseP_eq_erase]
    rfl
  obtain ⟨hpipe, hlisten⟩ := List.nodup_cons.mp h.nodup
  obtain ⟨hlistenFD, hnodup⟩ := List.nodup_cons.mp hlisten
  have hneListen : listenFD ≠ fd := by
    rintro rfl
    exact hlistenFD hfd
  have hnePipe : pipe ≠ fd := by
    rintro rfl
    exact hpipe (List.mem_cons_of_mem _ hfd)
  have hkept : (pipe :: listenFD :: m.clientFDs.erase fd).Sublist (pipe :: listenFD :: m.clientFDs) :=
    (List.erase_sublist.cons_cons _).cons_cons _
  refine ⟨hlistener.trans h.listener, ?_, ?_, ?_, ?_⟩
  · change m.loop.fdSources.erase fd = listenFD :: listener.clients.map Client.fd
    rw [h.sources, hfds, List.erase_cons_tail (by simpa using hneListen)]
  · change (m.loop.pFDs.eraseP fun p => p.fd = fd).map PollFD.fd = pipe :: listenFD :: listener.clients.map Client.fd
    rw [map_eraseP_eq_erase, h.pFDs, hfds, List.erase_cons_tail (by simpa using hnePipe),
      List.erase_cons_tail (by simpa using hneListen)]
  · change (pipe :: listenFD :: listener.clients.map Client.fd).Nodup
    rw [hfds]
    exact h.nodup.sublist hkept
  · change ∀ fd' ∈ pipe :: listenFD :: listener.clients.map Client.fd, fd' ∈ m.opened.filter (· ≠ fd)
    rw [hfds]
    intro fd' hfd'
    have hne : fd' ≠ fd := by
      rintro rfl
      rcases List.mem_cons.mp hfd' with rfl | hfd'
      · exact hnePipe rfl
      · rcases List.mem_cons.mp hfd' with rfl | hfd'
        · exact hneListen rfl
        · exact hnodup.not_mem_erase hfd'
    exact List.mem_filter.mpr ⟨h.opened fd' (hkept.subset hfd'), by simpa using hne⟩

/-- A new client is there everywhere. -/
theorem Aligned.connected (h : Aligned pipe listenFD m) (hfresh : fd ∉ m.opened) (listener : Listener)
    (hlistener : listener.fd = m.listener.fd) (hclients : listener.clients.map Client.fd = m.clientFDs ++ [fd]) :
    Aligned pipe listenFD { loop := (m.loop.addFD fd).2, listener, opened := fd :: m.opened } := by
  have hnew : fd ∉ pipe :: listenFD :: m.clientFDs := fun hfd => hfresh (h.opened fd hfd)
  refine ⟨hlistener.trans h.listener, ?_, ?_, ?_, ?_⟩
  · change m.loop.fdSources ++ [fd] = listenFD :: listener.clients.map Client.fd
    rw [h.sources, hclients, List.cons_append]
  · change (m.loop.pFDs ++ [_]).map PollFD.fd = pipe :: listenFD :: listener.clients.map Client.fd
    rw [List.map_append, h.pFDs, hclients]
    rfl
  · change (pipe :: listenFD :: listener.clients.map Client.fd).Nodup
    rw [hclients, ← List.cons_append, ← List.cons_append]
    exact List.nodup_append.mpr ⟨h.nodup, List.nodup_singleton fd, fun a ha b hb => by
      rw [List.mem_singleton.mp hb]
      rintro rfl
      exact hnew ha⟩
  · change ∀ fd' ∈ pipe :: listenFD :: listener.clients.map Client.fd, fd' ∈ fd :: m.opened
    rw [hclients, ← List.cons_append, ← List.cons_append]
    intro fd' hfd'
    rcases List.mem_append.mp hfd' with hfd' | hfd'
    · exact List.mem_cons_of_mem _ (h.opened fd' hfd')
    · rw [List.mem_singleton.mp hfd']
      exact List.mem_cons_self

/-- A turn of the listener keeps the descriptors aligned, if accept gives a fresh one. -/
theorem Aligned.fdEvent (h : Aligned pipe listenFD m) (hfresh : ∀ clFd, accepted = some clFd → clFd ∉ m.opened)
    (hevent : m.fdEvent d parse accepted fd revents = .ok m') : Aligned pipe listenFD m' := by
  obtain ⟨listener, hlistener, heq⟩ := bind_eq_ok hevent
  obtain rfl := Except.ok.inj heq
  unfold Wsrpc.fdEvent at hlistener
  unfold delegated openedAfter
  split at hlistener
  · rename_i hhup
    obtain rfl := Except.ok.inj hlistener
    rw [if_pos hhup, if_pos hhup]
    by_cases hfd : fd ∈ m.clientFDs
    · rw [if_pos hfd, if_pos hfd]
      exact h.dropped hfd _ rfl rfl
    · have hnone : (m.listener.clients.eraseP fun c => c.fd = fd) = m.listener.clients := by
        apply List.eraseP_of_forall_not
        intro c hc heq
        exact hfd (of_decide_eq_true heq ▸ List.mem_map_of_mem hc)
      rw [if_neg hfd, if_neg hfd, hnone]
      exact h
  · rename_i hhup
    rw [if_neg hhup, if_neg hhup]
    split at hlistener
    · rename_i hlisten
      rw [if_pos hlisten, if_pos hlisten]
      cases accepted with
      | none =>
        obtain rfl := Except.ok.inj hlistener
        exact h
      | some clFd =>
        obtain rfl := Except.ok.inj hlistener
        exact h.connected (hfresh clFd rfl) _ rfl (by simp [clientFDs])
    · rename_i hlisten
      rw [if_neg hlisten, if_neg hlisten]
      split at hlistener
      · obtain ⟨⟨clients, objs⟩, hread, heq⟩ := bind_eq_ok hlistener
        obtain rfl := Except.ok.inj heq
        exact h.congr rfl (readAll_fds hread) rfl rfl h.opened
      · obtain rfl := Except.ok.inj hlistener
        exact h

theorem map_fd_clear (l : EventLoop) (i : Nat) : (l.clear i).pFDs.map PollFD.fd = l.pFDs.map PollFD.fd := by
  apply List.ext_getElem?
  intro j
  rw [List.getElem?_map, List.getElem?_map, EventLoop.clear, List.getElem?_modify]
  cases l.pFDs[j]? with
  | none => rfl
  | some p => split <;> rfl

theorem map_fd_poll (l : EventLoop) (revents : Nat → Nat) :
    (l.poll revents).pFDs.map PollFD.fd = l.pFDs.map PollFD.fd := by
  apply List.ext_getElem?
  intro j
  rw [List.getElem?_map, List.getElem?_map, EventLoop.poll, List.getElem?_mapIdx, Option.map_map]
  rfl

theorem Aligned.step {s s' : State} {a : Label} (h : Aligned pipe listenFD s.mgr) (hstep : Step d parse s a s') :
    Aligned pipe listenFD s'.mgr := by
  cases hstep with
  | poll revents => exact h.congr rfl rfl rfl (map_fd_poll _ _) h.opened
  | signals => exact h
  | skip hskip =>
    cases hskip with
    | skip => exact h
    | unknown => exact h.congr rfl rfl rfl (map_fd_clear _ _) h.opened
  | @callback i m m' p _ hp hrevents hsource hfresh hevent =>
    have hcalled : Aligned pipe listenFD { m with loop := m.loop.call p } := h.congr rfl rfl rfl rfl h.opened
    have hafter := hcalled.fdEvent hfresh hevent
    exact hafter.congr rfl rfl rfl (map_fd_clear _ _) hafter.opened
  | arrives sockets => exact h.congr rfl (by simp [clientFDs]) rfl rfl h.opened
  | files opened hopened =>
    refine h.congr rfl rfl rfl rfl fun fd hfd => ?_
    rw [← h.pFDs] at hfd
    obtain ⟨p, hp, rfl⟩ := List.mem_map.mp hfd
    exact hopened p hp

/-- A callback of the manager is one of those that the loop allows its handlers, and spares
the loop's own pipe. -/
theorem Aligned.callback {s s' : State} (h : Aligned pipe listenFD s.mgr)
    (hstep : Step d parse s (.callback accepted) s') :
    ∃ ops, Event.Step ⟨s.i, s.mgr.loop⟩ (.callback ops) ⟨s'.i, s'.mgr.loop⟩ ∧
      (Event.Label.callback ops).SparesPipe pipe := by
  cases hstep with
  | @callback i m m' p _ hp hrevents hsource _ hevent =>
    obtain ⟨listener, _, heq⟩ := bind_eq_ok hevent
    obtain rfl := Except.ok.inj heq
    refine ⟨_, .callback _ hp hrevents hsource, fun op hop hdel => ?_⟩
    obtain ⟨hpipe, _⟩ := List.nodup_cons.mp h.nodup
    subst hdel
    unfold delegated at hop
    split at hop
    · split at hop
      · rename_i hfd
        obtain rfl : pipe = p.fd := by simpa using hop
        exact hpipe (List.mem_cons_of_mem _ hfd)
      · simp at hop
    · split at hop <;> simp at hop

end Aligned

/-- Before the first call of `loop`, which calls `poll` first. -/
def start (pipe listenFD : Int) (others : List Int) : State :=
  ⟨2, init pipe listenFD others⟩

/-- Whatever happens, and in whatever order: between callbacks the clients are those that
the loop watches. -/
theorem run_inStep (d : Delivery) (parse : List UInt8 → Option Ucl) {pipe listenFD : Int} (hne : pipe ≠ listenFD)
    (others : List Int) {trace : List (State × Label)} {s : State}
    (hrun : Run (Step d parse) (start pipe listenFD others) trace s) : s.mgr.InStep pipe := by
  have hstep : ∀ (s : State) (a : Label) (s' : State), Aligned pipe listenFD s.mgr → True → Step d parse s a s' →
      Aligned pipe listenFD s'.mgr := fun _ _ _ h _ hstep => h.step hstep
  have haligned := hrun.invariant hstep (Aligned.init hne others) fun _ _ => trivial
  exact haligned.inStep

/-- After `poll` has reported flags for one index. -/
def polled (i flags : Nat) : Manager :=
  { m with loop := m.loop.poll fun j => if j = i then flags else 0 }

/-- After a callback at index `i` in which a client was accepted. -/
def connected (i : Nat) (p : PollFD) (fd : Int) : Manager where
  loop := ((m.loop.call p).applyAll [.add fd]).clear i
  listener := { m.listener with clients := m.listener.clients ++ [{ fd, socket := { stream := [] } }] }
  opened := fd :: m.opened

/-- After a callback at index `i` in which a client was dropped. -/
def dropped (i : Nat) (p : PollFD) : Manager where
  loop := ((m.loop.call p).applyAll [.del p.fd]).clear i
  listener := { m.listener with clients := m.listener.clients.eraseP fun c => c.fd = p.fd }
  opened := m.opened.filter (· ≠ p.fd)

/-- A client has connected as descriptor 5. -/
def served : Manager :=
  ((init 3 4 []).polled 1 1).connected 1 ⟨4, 1, 1⟩ 5

/-- That client is dropped. -/
def vacated : Manager :=
  (served.polled 2 16).dropped 2 ⟨5, 16, 2⟩

/-- Another client gets its descriptor. -/
def reused : Manager :=
  (vacated.polled 1 1).connected 1 ⟨4, 1, 1⟩ 5

theorem run_inStep_reused : reused.clientFDs = [5] ∧ reused.InStep 3 := by
  have hfresh : ∀ clFd, some (5 : Int) = some clFd → clFd ∉ [3, 4] := by
    intro clFd heq
    cases heq
    decide
  have hconnect : Step prompt parseNotice ⟨1, (init 3 4 []).polled 1 1⟩ (.callback (some 5)) ⟨2, served⟩ :=
    .callback (m := (init 3 4 []).polled 1 1) (p := ⟨4, 1, 1⟩) (some 5) rfl (by decide) (by decide) hfresh rfl
  have hdrop : Step prompt parseNotice ⟨2, served.polled 2 16⟩ (.callback none) ⟨3, vacated⟩ :=
    .callback (m := served.polled 2 16) (p := ⟨5, 16, 2⟩) none rfl (by decide) (by decide) (by simp) rfl
  have hreuse : Step prompt parseNotice ⟨1, vacated.polled 1 1⟩ (.callback (some 5)) ⟨2, reused⟩ :=
    .callback (m := vacated.polled 1 1) (p := ⟨4, 1, 1⟩) (some 5) rfl (by decide) (by decide) hfresh rfl
  have hrun : Run (Step prompt parseNotice) (start 3 4 []) _ ⟨2, reused⟩ :=
    .cons (.poll _ (by decide)) (.cons hconnect (.cons (.skip (.skip rfl rfl)) (.cons (.poll _ (by decide))
      (.cons (.skip (.skip rfl rfl)) (.cons hdrop (.cons (.poll _ (by decide)) (.single hreuse)))))))
  exact ⟨rfl, run_inStep prompt parseNotice (by decide) [] hrun⟩

end Manager

end ServiceManager
