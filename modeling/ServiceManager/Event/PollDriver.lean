import ServiceManager.Event.Signals

namespace ServiceManager.Event

/-- A bit of the events to listen for. -/
def POLLIN : Nat := 1

structure FDSource where
  handler : Nat
  fd : Int
deriving DecidableEq

/-- An element of the array that `poll` works on, with the events that it is asked for. -/
structure PollEntry where
  fd : Int
  events : Nat
deriving DecidableEq

/-- `poll` is asked whether it can be read from. -/
def PollEntry.Reads (p : PollEntry) (fd : Int) : Prop :=
  p.fd = fd ∧ p.events &&& POLLIN ≠ 0

instance (p : PollEntry) (fd : Int) : Decidable (p.Reads fd) :=
  inferInstanceAs (Decidable (_ ∧ _))

namespace Signals

variable (nsig : Nat) (s : Signals)

/-- What `loop` does about a signal that has fired. -/
def dispatchSignal (i : Nat) : Signals :=
  let s := { s with signalsFired := Function.update s.signalsFired i false }
  if i = SIGALRM then (List.range 255).foldl timerEvent s
  else s.sigSources.foldl (fun s src => s.signalEvent i src) s

/-- The signals, as `loop` goes through them at its start. -/
def dispatchAll : Signals :=
  if s.signalFired then
    (List.range nsig).foldl (fun s i => if s.signalsFired i then s.dispatchSignal i else s)
      { s with signalFired := false }
  else s

/-- The entry that a timer gets. Where all are taken the search goes on past the end of
the table, and there is no telling what it finds. -/
def addTimer (handler : Nat) : Option (Nat × Signals) :=
  ((List.range 255).find? fun i => !(s.timers i).valid).map fun entryId =>
    (entryId, { s with
      timerSources := s.timerSources ++ [{ handler, id := entryId }]
      timers := Function.update s.timers entryId { valid := true, fired := false } })

/-- No signal has fired. -/
structure Quiet : Prop where
  fired : s.signalFired = false
  signals : ∀ i, s.signalsFired i = false

/-- The effect of the signal handler on the timers. -/
def markFired (value : Nat) : Signals :=
  { s with timers := Function.update s.timers value { s.timers value with fired := true } }

end Signals

/-- The Poll driver between calls of `loop`. The self-pipe is not among its descriptors.
`running` are the timers of the kernel, with the value that each of them sends. -/
structure PollDriver where
  sig : Signals := {}
  fdSources : List FDSource := []
  pFDs : List PollEntry := []
  running : Nat → Option Nat := fun _ => none

namespace PollDriver

section Calls

variable (s : PollDriver)

def addFD (handler : Nat) (fd : Int) (events : Nat) : PollDriver :=
  { s with fdSources := s.fdSources ++ [{ handler, fd }], pFDs := s.pFDs ++ [{ fd, events }] }

def addSignal (handler sigNum : Nat) : PollDriver :=
  { s with sig.sigSources := s.sig.sigSources ++ [{ handler, sigNum }] }

/-- The handler of a timer is known by the number of the call that added it. -/
def addTimer (reg : Nat) : Option PollDriver :=
  (s.sig.addTimer reg).map fun (entryId, sig) =>
    { s with sig, running := Function.update s.running reg (some entryId) }

/-- A signal is sent to the process. It is caught where it has been asked for; that of
timers has been by `init`. -/
def raise (signum value : Nat) : PollDriver :=
  if signum = SIGALRM ∨ ∃ src ∈ s.sig.sigSources, src.sigNum = signum then
    { s with sig := s.sig.sigHandler signum value }
  else s

/-- A timer expires, for the only time. -/
def expire (reg : Nat) : PollDriver :=
  match s.running reg with
  | some value => { s with sig := s.sig.sigHandler SIGALRM value, running := Function.update s.running reg none }
  | none => s

end Calls

/-- A descriptor after `poll` has returned. -/
def fdEvent (readable : Option Int) (s : PollDriver) (p : PollEntry) : PollDriver :=
  if readable.any fun fd => p.Reads fd then
    { s with
      sig.callbacks := s.sig.callbacks ++ (s.fdSources.find? fun src => src.fd = p.fd).toList.map fun src =>
        .fd src.handler p.fd }
  else s

/-- A call of `loop`, with the descriptor that `poll` finds readable. No signal is sent in
the course of it. -/
def loop (nsig : Nat) (s : PollDriver) (readable : Option Int) : PollDriver :=
  let s := { s with sig := s.sig.dispatchAll nsig }
  s.pFDs.foldl (fdEvent readable) s

end PollDriver

section Range

variable {S : Type} {f : S → Nat → S} {s : S} {k n : Nat}

theorem foldl_of_fixed (is : List Nat) (h : ∀ i ∈ is, f s i = s) : is.foldl f s = s := by
  induction is with
  | nil => rfl
  | cons i is ih =>
    obtain ⟨hi, his⟩ := List.forall_mem_cons.mp h
    rw [List.foldl_cons, hi, ih his]

/-- A pass that does something at one index only. -/
theorem foldl_range_of_single (hk : k < n) (hbefore : ∀ i, i < k → f s i = s)
    (hafter : ∀ i, k < i → f (f s k) i = f s k) :
    (List.range n).foldl f s = f s k := by
  obtain ⟨m, rfl⟩ := Nat.exists_eq_add_of_lt hk
  have hfirst : (List.range k).foldl f s = s := foldl_of_fixed _ fun i hi => hbefore i (List.mem_range.mp hi)
  rw [Nat.add_right_comm, List.range_add, List.foldl_append, List.range_succ, List.foldl_append, hfirst]
  refine foldl_of_fixed _ fun i hi => ?_
  obtain ⟨j, _, rfl⟩ := List.mem_map.mp hi
  exact hafter (k + 1 + j) (by omega)

end Range

section Dispatch

variable {nsig i signum value : Nat} {s : Signals}

theorem Signals.Quiet.dispatchAll (h : s.Quiet) : s.dispatchAll nsig = s := by
  simp [Signals.dispatchAll, h.fired]

theorem signalsFired_foldl_signalEvent (srcs : List SignalSource) :
    (srcs.foldl (fun s src => s.signalEvent i src) s).signalsFired = s.signalsFired := by
  induction srcs generalizing s with
  | nil => rfl
  | cons src srcs ih => rw [List.foldl_cons, ih, Signals.signalsFired_signalEvent]

theorem signalsFired_foldl_timerEvent (ids : List Nat) :
    (ids.foldl Signals.timerEvent s).signalsFired = s.signalsFired := by
  induction ids generalizing s with
  | nil => rfl
  | cons id ids ih => rw [List.foldl_cons, ih, Signals.signalsFired_timerEvent]

/-- Nothing but the signal that was sent is dispatched. -/
theorem dispatchAll_sigHandler (h : s.Quiet) (hsignum : signum < nsig) :
    (s.sigHandler signum value).dispatchAll nsig =
      if signum = SIGALRM then (List.range 255).foldl Signals.timerEvent (s.markFired value)
      else s.sigSources.foldl (fun s src => s.signalEvent signum src) s := by
  let s₀ := { s.sigHandler signum value with signalFired := false }
  have hfired : (s.sigHandler signum value).signalFired = true := rfl
  have hother : ∀ i, i ≠ signum → s₀.signalsFired i = false := by
    intro i hne
    exact (Function.update_of_ne hne _ _).trans (h.signals i)
  have hself : s₀.signalsFired signum = true := Function.update_self _ _ _
  -- once the signal is taken, the flags are as they were before it
  have hcleared : Function.update s₀.signalsFired signum false = s.signalsFired := by
    have hfalse : s.signalsFired signum = false := h.signals signum
    rw [show s₀.signalsFired = Function.update s.signalsFired signum true from rfl, Function.update_idem, ← hfalse,
      Function.update_eq_self]
  have hflags : (s₀.dispatchSignal signum).signalsFired = s.signalsFired := by
    unfold Signals.dispatchSignal
    split
    · rw [signalsFired_foldl_timerEvent, hcleared]
    · rw [signalsFired_foldl_signalEvent, hcleared]
  have hdispatch : (s.sigHandler signum value).dispatchAll nsig = s₀.dispatchSignal signum := by
    rw [Signals.dispatchAll, if_pos hfired]
    refine (foldl_range_of_single hsignum (fun i hi => ?_) (fun i hi => ?_)).trans (if_pos hself)
    · rw [hother i (Nat.ne_of_lt hi)]
      rfl
    · rw [if_pos hself, hflags, h.signals i]
      rfl
  rw [hdispatch, Signals.dispatchSignal, hcleared]
  by_cases halrm : signum = SIGALRM
  · have htaken : { s₀ with signalsFired := s.signalsFired } = s.markFired value := by
      simp only [s₀, Signals.sigHandler, Signals.markFired, if_pos halrm, h.fired]
    simp only [if_pos halrm, htaken]
  · have htaken : { s₀ with signalsFired := s.signalsFired } = s := by
      simp only [s₀, Signals.sigHandler, if_neg halrm, ← h.fired]
    simp only [if_neg halrm, htaken]
    rfl

theorem foldl_signalEvent (srcs : List SignalSource) :
    srcs.foldl (fun s src => s.signalEvent i src) s =
      { s with
        callbacks := s.callbacks ++ (srcs.filter fun src => src.sigNum = i).map fun src => .signal src.handler i } := by
  induction srcs generalizing s with
  | nil => simp
  | cons src srcs ih =>
    rw [List.foldl_cons, ih, Signals.signalEvent]
    by_cases heq : src.sigNum = i
    · simp [heq]
    · simp [heq]

/-- A timer that has not expired is left alone. -/
theorem timerEvent_of_not {timID : Nat} (h : ¬((s.timers timID).valid = true ∧ (s.timers timID).fired = true)) :
    s.timerEvent timID = s := by
  rw [Signals.timerEvent, if_neg]
  simpa using h

section Timers

variable (hidle : ∀ id, (s.timers id).valid = true → (s.timers id).fired = false)

include hidle

theorem markFired_idle {id : Nat} (hne : id ≠ value) :
    ¬(((s.markFired value).timers id).valid = true ∧ ((s.markFired value).timers id).fired = true) := by
  have hsame : (s.markFired value).timers id = s.timers id := Function.update_of_ne hne _ _
  rw [hsame]
  intro ⟨hvalid, hfired⟩
  rw [hidle id hvalid] at hfired
  cases hfired

/-- One timer has expired. -/
theorem foldl_timerEvent_of_valid (hlt : value < 255) (hvalid : (s.timers value).valid = true) :
    (List.range 255).foldl Signals.timerEvent (s.markFired value) =
      { s with
        timers := Function.update s.timers value {}
        callbacks := s.callbacks ++ (s.timerSources.find? fun src => src.id = value).toList.map fun src =>
          .timer src.handler value
        timerSources := s.timerSources.eraseP fun src => src.id = value } := by
  have hself : (s.markFired value).timers value = { s.timers value with fired := true } := Function.update_self _ _ _
  have hevent : (s.markFired value).timerEvent value =
      { s with
        timers := Function.update s.timers value {}
        callbacks := s.callbacks ++ (s.timerSources.find? fun src => src.id = value).toList.map fun src =>
          .timer src.handler value
        timerSources := s.timerSources.eraseP fun src => src.id = value } := by
    rw [Signals.timerEvent, hself, hvalid]
    simp only [Signals.markFired, Function.update_idem, Bool.and_self, if_true]
  rw [← hevent]
  refine foldl_range_of_single hlt (fun id hid => timerEvent_of_not (markFired_idle hidle (Nat.ne_of_lt hid))) ?_
  intro id hid
  refine timerEvent_of_not ?_
  have hsame : ((s.markFired value).timerEvent value).timers id = (s.markFired value).timers id := by
    rw [hevent]
    exact (Function.update_of_ne (Nat.ne_of_gt hid) _ _).trans (Function.update_of_ne (Nat.ne_of_gt hid) _ _).symm
  rw [hsame]
  exact markFired_idle hidle (Nat.ne_of_gt hid)

/-- The signal of timers was sent with the value of none. -/
theorem foldl_timerEvent_of_invalid (hvalid : (s.timers value).valid = false) :
    (List.range 255).foldl Signals.timerEvent (s.markFired value) = s.markFired value := by
  refine foldl_of_fixed _ fun id _ => timerEvent_of_not ?_
  by_cases heq : id = value
  · have hself : (s.markFired value).timers value = { s.timers value with fired := true } := Function.update_self _ _ _
    rw [heq, hself]
    simp [hvalid]
  · exact markFired_idle hidle heq

end Timers

end Dispatch

namespace PollDriver

variable {nsig : Nat} {s : PollDriver} {readable : Option Int}

/-- What the descriptors add to the callbacks. -/
theorem foldl_fdEvent (ps : List PollEntry) :
    ps.foldl (fdEvent readable) s =
      { s with
        sig.callbacks := s.sig.callbacks ++ (ps.filter fun p => readable.any fun fd => p.Reads fd).flatMap fun p =>
          (s.fdSources.find? fun src => src.fd = p.fd).toList.map fun src => .fd src.handler p.fd } := by
  induction ps generalizing s with
  | nil => simp
  | cons p ps ih =>
    rw [List.foldl_cons, ih, fdEvent]
    split <;> simp [*]

theorem loop_none : s.loop nsig none = { s with sig := s.sig.dispatchAll nsig } := by
  simp [loop, foldl_fdEvent]

section Quiet

variable (h : s.sig.Quiet)

include h

/-- Each element of the array for the descriptor calls the first handler for it. -/
theorem loop_readable (fd : Int) :
    s.loop nsig (some fd) =
      { s with
        sig.callbacks := s.sig.callbacks ++ (s.pFDs.filter fun p => p.Reads fd).flatMap fun _ =>
          (s.fdSources.find? fun src => src.fd = fd).toList.map fun src => .fd src.handler fd } := by
  have hsame : (s.pFDs.filter fun p => p.Reads fd).flatMap (fun p =>
      (s.fdSources.find? fun src => src.fd = p.fd).toList.map fun src => Callback.fd src.handler p.fd) =
        (s.pFDs.filter fun p => p.Reads fd).flatMap fun _ =>
          (s.fdSources.find? fun src => src.fd = fd).toList.map fun src => .fd src.handler fd := by
    refine List.flatMap_congr fun p hp => ?_
    obtain ⟨rfl, _⟩ := of_decide_eq_true (List.mem_filter.mp hp).2
    rfl
  rw [loop, h.dispatchAll, foldl_fdEvent, ← hsame]
  rfl

/-- All handlers of a signal are called. -/
theorem loop_raise {signum : Nat} (value : Nat) (hsignum : signum < nsig) (hne : signum ≠ SIGALRM) :
    (s.raise signum value).loop nsig none =
      { s with
        sig.callbacks := s.sig.callbacks ++ (s.sig.sigSources.filter fun src => src.sigNum = signum).map fun src =>
          .signal src.handler signum } := by
  rw [loop_none, raise]
  split
  · rw [dispatchAll_sigHandler h hsignum, if_neg hne, foldl_signalEvent]
  · rename_i hnot
    have hnone : s.sig.sigSources.filter (fun src => src.sigNum = signum) = [] := by
      rw [List.filter_eq_nil_iff]
      intro src hsrc heq
      exact hnot (Or.inr ⟨src, hsrc, of_decide_eq_true heq⟩)
    rw [h.dispatchAll, hnone, List.map_nil, List.append_nil]

theorem loop_raise_alarm (value : Nat) (hsignum : SIGALRM < nsig) :
    (s.raise SIGALRM value).loop nsig none =
      { s with sig := (List.range 255).foldl Signals.timerEvent (s.sig.markFired value) } := by
  rw [loop_none, raise, if_pos (Or.inl rfl), dispatchAll_sigHandler h hsignum, if_pos rfl]

theorem loop_expire {reg value : Nat} (hsignum : SIGALRM < nsig) (hrunning : s.running reg = some value) :
    (s.expire reg).loop nsig none =
      { s with
        sig := (List.range 255).foldl Signals.timerEvent (s.sig.markFired value)
        running := Function.update s.running reg none } := by
  rw [loop_none, expire, hrunning]
  simp only [dispatchAll_sigHandler h hsignum, if_pos]

theorem loop_expire_none {reg : Nat} (hrunning : s.running reg = none) : (s.expire reg).loop nsig none = s := by
  rw [loop_none, expire, hrunning, h.dispatchAll]

end Quiet

end PollDriver

end ServiceManager.Event
