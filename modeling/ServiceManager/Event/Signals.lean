import ServiceManager.Event.Poll

namespace ServiceManager.Event

open Trace

def SIGALRM : Nat := 14

/-- What a handler is called for. -/
inductive Callback where
  | fd (handler : Nat) (fd : Int)
  | signal (handler signum : Nat)
  | timer (handler id : Nat)
deriving DecidableEq

structure SignalSource where
  handler : Nat
  sigNum : Nat
deriving DecidableEq

structure TimerSource where
  handler : Nat
  id : Nat
deriving DecidableEq

structure TimerEntry where
  valid : Bool := false
  fired : Bool := false

/-- The part of the Poll driver that has to do with signals, and the callbacks it has
made. The source that `init` adds for `SIGALRM` has no handler, and is never looked at. -/
structure Signals where
  signalFired : Bool := false
  signalsFired : Nat → Bool := fun _ => false
  timers : Nat → TimerEntry := fun _ => {}
  sigSources : List SignalSource := []
  timerSources : List TimerSource := []
  callbacks : List Callback := []

namespace Signals

variable (s : Signals)

/-- `value` is the entry of the timer where the signal is that of a timer. -/
def sigHandler (signum value : Nat) : Signals :=
  { s with
    timers := if signum = SIGALRM then
      Function.update s.timers value { s.timers value with fired := true } else s.timers
    signalFired := true
    signalsFired := Function.update s.signalsFired signum true }

/-- Timers are for one time: the source goes with the callback. -/
def timerEvent (timID : Nat) : Signals :=
  if (s.timers timID).valid && (s.timers timID).fired then
    { s with
      timers := Function.update s.timers timID {}
      callbacks := s.callbacks ++ (s.timerSources.find? fun src => src.id = timID).toList.map fun src =>
        .timer src.handler timID
      timerSources := s.timerSources.eraseP fun src => src.id = timID }
  else s

/-- A source of the list is told of a signal if it is for it. -/
def signalEvent (signum : Nat) (src : SignalSource) : Signals :=
  if src.sigNum = signum then { s with callbacks := s.callbacks ++ [.signal src.handler signum] } else s

@[simp] theorem signalFired_timerEvent (timID : Nat) : (s.timerEvent timID).signalFired = s.signalFired := by
  unfold timerEvent
  split <;> rfl

@[simp] theorem signalsFired_timerEvent (timID : Nat) : (s.timerEvent timID).signalsFired = s.signalsFired := by
  unfold timerEvent
  split <;> rfl

@[simp] theorem signalFired_signalEvent (signum : Nat) (src : SignalSource) :
    (s.signalEvent signum src).signalFired = s.signalFired := by
  unfold signalEvent
  split <;> rfl

@[simp] theorem signalsFired_signalEvent (signum : Nat) (src : SignalSource) :
    (s.signalEvent signum src).signalsFired = s.signalsFired := by
  unfold signalEvent
  split <;> rfl

end Signals

/-- What handlers do to the loop while they are called. -/
structure Effect where
  ops : List Op := []
  signals : List SignalSource := []
  timers : List TimerSource := []

/-- Where `loop` is. -/
inductive Pc where
  /-- It is not being called. -/
  | outside
  /-- `oldSigFired = signalFired` -/
  | sigfired
  /-- `signalFired = false` -/
  | clearFired (oldSigFired : Bool)
  /-- `signalsFired[i] == true` -/
  | scan (i : Nat)
  /-- `signalsFired[i] = false` -/
  | clearSignal (i : Nat)
  /-- The next of the timers. -/
  | timer (timID : Nat)
  /-- The sources that are yet to be told of a signal. -/
  | signal (i : Nat) (rest : List SignalSource)
  /-- `if (!haveRunPoll)` -/
  | runpoll
  /-- The next of the descriptors. -/
  | fds (i : Nat)
  /-- `if (signalFired)` -/
  | test
  /-- `return r` -/
  | ret
deriving DecidableEq

/-- The Poll driver. `failed` says that `poll` has returned -1. -/
structure Driver where
  sig : Signals := {}
  loop : EventLoop
  pc : Pc := .outside
  haveRunPoll : Bool := false
  failed : Bool := false

namespace Driver

variable (s : Driver)

def goto (pc : Pc) : Driver :=
  { s with pc }

/-- After a handler has been called. -/
def affect (e : Effect) : Driver :=
  { s with
    loop := s.loop.applyAll e.ops
    sig.sigSources := s.sig.sigSources ++ e.signals
    sig.timerSources := s.sig.timerSources ++ e.timers
    sig.timers := fun id => if e.timers.any (fun src => src.id = id) then { valid := true } else s.sig.timers id }

end Driver

/-- What happens next: the signal handler runs, or a step of `loop` is taken. -/
inductive Act where
  | sigHandler (signum value : Nat)
  /-- Descriptors, signals and timers are registered between calls of `loop`. -/
  | register
  | call
  | readFired
  | clearFired
  | look
  /-- A signal that has fired is taken, to be dispatched. -/
  | dispatch (i : Nat)
  | callback
  | next
  | poll (revents : Nat → Nat)
  | pollFailed (interrupted : Bool)
  | test
  | ret

/-- The steps of the driver, each atomic. The signal handler may run between any two. -/
inductive Atomic (nsig : Nat) : Driver → Act → Driver → Prop
  | sigHandler {s} (signum value) : signum < nsig →
      Atomic nsig s (.sigHandler signum value) { s with sig := s.sig.sigHandler signum value }
  | register {s} (e) : s.pc = .outside → Atomic nsig s .register (s.affect e)
  | call {s} : s.pc = .outside → Atomic nsig s .call { s with pc := .sigfired, haveRunPoll := false }
  | readFired {s} : s.pc = .sigfired → Atomic nsig s .readFired (s.goto (.clearFired s.sig.signalFired))
  | clearFired {s old} : s.pc = .clearFired old →
      Atomic nsig s .clearFired { s with sig.signalFired := false, pc := if old then .scan 0 else .runpoll }
  | look {s i} : s.pc = .scan i → i < nsig →
      Atomic nsig s .look (s.goto (if s.sig.signalsFired i then .clearSignal i else .scan (i + 1)))
  | scanned {s i} : s.pc = .scan i → nsig ≤ i → Atomic nsig s .next (s.goto .runpoll)
  | dispatch {s i} : s.pc = .clearSignal i →
      Atomic nsig s (.dispatch i)
        { s with
          sig.signalsFired := Function.update s.sig.signalsFired i false
          pc := if i = SIGALRM then .timer 0 else .signal i s.sig.sigSources }
  | timer {s timID} (e) : s.pc = .timer timID → timID < 255 →
      Atomic nsig s .callback (({ s with sig := s.sig.timerEvent timID }.affect e).goto (.timer (timID + 1)))
  | timersDone {s timID} : s.pc = .timer timID → 255 ≤ timID → Atomic nsig s .next (s.goto (.scan (SIGALRM + 1)))
  | signal {s i src rest} (e) : s.pc = .signal i (src :: rest) →
      Atomic nsig s .callback (({ s with sig := s.sig.signalEvent i src }.affect e).goto
        (.signal i (rest ++ e.signals)))
  | signalDone {s i} : s.pc = .signal i [] → Atomic nsig s .next (s.goto (.scan (i + 1)))
  | poll {s} (revents) : s.pc = .runpoll → s.haveRunPoll = false →
      Atomic nsig s (.poll revents)
        { s with loop := s.loop.poll revents, haveRunPoll := true, failed := false, pc := .fds 1 }
  | interrupted {s} : s.pc = .runpoll → s.haveRunPoll = false → Atomic nsig s (.pollFailed true) s
  | pollFailed {s} : s.pc = .runpoll → s.haveRunPoll = false →
      Atomic nsig s (.pollFailed false) { s with haveRunPoll := true, failed := true, pc := .fds 1 }
  | skipPoll {s} : s.pc = .runpoll → s.haveRunPoll = true → Atomic nsig s .next (s.goto (.fds 1))
  | retryPoll {s} : s.pc = .runpoll → s.haveRunPoll = true → s.failed = true →
      Atomic nsig s .next { s with haveRunPoll := false }
  | fd {s i i' l' a} : s.pc = .fds i → a.isSignals = false → Event.Step ⟨i, s.loop⟩ a ⟨i', l'⟩ →
      Atomic nsig s .callback { s with loop := l', pc := .fds i' }
  | fdsDone {s i} : s.pc = .fds i → s.loop.pFDs.length ≤ i → Atomic nsig s .next (s.goto .test)
  | test {s} : s.pc = .test → Atomic nsig s .test (s.goto (if s.sig.signalFired then .sigfired else .ret))
  | ret {s} : s.pc = .ret → Atomic nsig s .ret (s.goto .outside)

namespace Driver

variable (s : Driver)

/-- `loop` is about to call `poll`, or to return. -/
def Leaving : Prop :=
  s.pc = .runpoll ∧ s.haveRunPoll = false ∨ s.pc = .ret

/-- If some signal has fired, it is known that one has. -/
def Noticed : Prop :=
  ∀ i, s.sig.signalsFired i = true → s.sig.signalFired = true

end Driver

/-- The signal handler runs between the read of `signalFired` that finds it down and the
write that takes it down. -/
def Act.Unseen (s : Driver) : Act → Prop
  | .sigHandler .. => s.pc = .clearFired false
  | _ => False

/-- The signals that were looked at, or are not looked for, since `signalFired` was last
taken down. -/
def Pc.Covers (j : Nat) : Pc → Prop
  | .clearFired _ => False
  | .scan i => j < i
  | .clearSignal i => j < i
  | .timer _ => j ≤ SIGALRM
  | .signal i _ => j ≤ i
  | _ => True

/-- What holds as long as the signal handler does not run unseen. -/
structure Watched (nsig : Nat) (s : Driver) : Prop where
  below : ∀ j, s.sig.signalsFired j = true → j < nsig
  covered : ∀ j, s.pc.Covers j → s.sig.signalsFired j = true → s.sig.signalFired = true
  down : s.pc = .clearFired false → ∀ j, s.sig.signalsFired j = false

section Watched

variable {nsig : Nat} {s s' : Driver} {a : Act}

/-- A step that leaves the flags alone, and looks at no more signals. -/
theorem Watched.move (h : Watched nsig s) (hfired : s'.sig.signalFired = s.sig.signalFired)
    (hsignals : s'.sig.signalsFired = s.sig.signalsFired) (hpc : s'.pc ≠ .clearFired false)
    (hcovers : ∀ j, s.sig.signalsFired j = true → s'.pc.Covers j → s.pc.Covers j) : Watched nsig s' := by
  refine ⟨?_, ?_, fun hdown => absurd hdown hpc⟩
  · rw [hsignals]
    exact h.below
  · rw [hsignals, hfired]
    exact fun j hcover hj => h.covered j (hcovers j hj hcover) hj

theorem Watched.sigHandler (h : Watched nsig s) {signum value : Nat} (hsignum : signum < nsig)
    (hseen : s.pc ≠ .clearFired false) : Watched nsig { s with sig := s.sig.sigHandler signum value } := by
  refine ⟨fun j hj => ?_, fun _ _ _ => rfl, fun hdown => absurd hdown hseen⟩
  by_cases heq : j = signum
  · rw [heq]
    exact hsignum
  · apply h.below
    rw [← hj]
    exact (Function.update_of_ne heq _ _).symm

/-- By the points of the loop; the flag is up while a marked signal is still to be looked at. -/
theorem Watched.step (h : Watched nsig s) (hseen : ¬a.Unseen s) (hstep : Atomic nsig s a s') : Watched nsig s' := by
  cases hstep with
  | sigHandler signum value hsignum => exact h.sigHandler hsignum hseen
  | register e hpc => exact h.move rfl rfl (by simp [Driver.affect, hpc]) (by simp [hpc, Pc.Covers])
  | call hpc => exact h.move rfl rfl (by simp) (by simp [hpc, Pc.Covers])
  | readFired hpc =>
    refine ⟨h.below, fun j hcover => hcover.elim, fun hdown j => ?_⟩
    have hfired : s.sig.signalFired = false := by simpa [Driver.goto] using hdown
    by_contra hj
    have hnoticed := h.covered j (by simp [hpc, Pc.Covers]) (Bool.eq_true_of_not_eq_false hj)
    exact absurd (hfired.symm.trans hnoticed) (by decide)
  | @clearFired old hpc =>
    cases old with
    | true => exact ⟨h.below, fun j hcover => absurd hcover (Nat.not_lt_zero j), by simp⟩
    | false =>
      refine ⟨h.below, fun j _ hj => ?_, by simp⟩
      exact absurd ((h.down hpc j).symm.trans hj) (by decide)
  | @look i hpc hi =>
    refine h.move rfl rfl ?_ fun j hj hcover => ?_
    · simp only [Driver.goto]
      split <;> simp
    · simp only [Driver.goto] at hcover
      rw [hpc]
      split at hcover
      · exact hcover
      · rename_i hdown
        have hne : j ≠ i := by
          rintro rfl
          exact hdown hj
        exact Nat.lt_of_le_of_ne (Nat.le_of_lt_succ hcover) hne
  | scanned hpc hi =>
    refine h.move rfl rfl (by simp [Driver.goto]) fun j hj _ => ?_
    rw [hpc]
    exact Nat.lt_of_lt_of_le (h.below j hj) hi
  | @dispatch i hpc =>
    have hkept : ∀ j, Function.update s.sig.signalsFired i false j = true → j ≠ i ∧ s.sig.signalsFired j = true := by
      intro j hj
      by_cases heq : j = i
      · subst heq
        simp at hj
      · rw [Function.update_of_ne heq] at hj
        exact ⟨heq, hj⟩
    have hcovers : ∀ j ≤ i, Function.update s.sig.signalsFired i false j = true → s.sig.signalFired = true := by
      intro j hle hj
      obtain ⟨hne, hj⟩ := hkept j hj
      refine h.covered j ?_ hj
      rw [hpc]
      exact Nat.lt_of_le_of_ne hle hne
    refine ⟨fun j hj => h.below j (hkept j hj).2, fun j hcover hj => hcovers j ?_ hj, ?_⟩
    · split at hcover
      · rename_i heq
        rw [heq]
        exact hcover
      · exact hcover
    · split <;> simp
  | timer e hpc =>
    exact h.move (by simp [Driver.goto, Driver.affect]) (by simp [Driver.goto, Driver.affect]) (by simp [Driver.goto])
      (by simp [hpc, Driver.goto, Pc.Covers])
  | timersDone hpc =>
    refine h.move rfl rfl (by simp [Driver.goto]) fun j _ hcover => ?_
    rw [hpc]
    exact Nat.le_of_lt_succ hcover
  | signal e hpc =>
    exact h.move (by simp [Driver.goto, Driver.affect]) (by simp [Driver.goto, Driver.affect]) (by simp [Driver.goto])
      (by simp [hpc, Driver.goto, Pc.Covers])
  | signalDone hpc =>
    refine h.move rfl rfl (by simp [Driver.goto]) fun j _ hcover => ?_
    rw [hpc]
    exact Nat.le_of_lt_succ hcover
  | poll revents hpc => exact h.move rfl rfl (by simp) (by simp [hpc, Pc.Covers])
  | interrupted => exact h
  | pollFailed hpc => exact h.move rfl rfl (by simp) (by simp [hpc, Pc.Covers])
  | skipPoll hpc => exact h.move rfl rfl (by simp [Driver.goto]) (by simp [hpc, Pc.Covers])
  | retryPoll hpc => exact h.move rfl rfl (by simp [hpc]) (by simp)
  | fd hpc => exact h.move rfl rfl (by simp) (by simp [hpc, Pc.Covers])
  | fdsDone hpc => exact h.move rfl rfl (by simp [Driver.goto]) (by simp [hpc, Pc.Covers])
  | test hpc =>
    refine h.move rfl rfl ?_ (by simp [hpc, Pc.Covers])
    simp only [Driver.goto]
    split <;> simp
  | ret hpc => exact h.move rfl rfl (by simp [Driver.goto]) (by simp [hpc, Pc.Covers])

theorem Watched.noticed (h : Watched nsig s) (hleaving : s.Leaving) : s.Noticed := by
  intro i hi
  refine h.covered i ?_ hi
  rcases hleaving with ⟨hpc, _⟩ | hpc <;> rw [hpc] <;> trivial

end Watched

section Unseen

variable {nsig : Nat} {s s' : Driver} {a : Act} {trace : List (Driver × Act)}

/-- Only the first pass of a call finds `signalFired` down. -/
structure FirstPass (s : Driver) : Prop where
  again : s.pc = .sigfired → s.haveRunPoll = true → s.sig.signalFired = true
  down : s.pc = .clearFired false → s.haveRunPoll = false

theorem FirstPass.elsewhere (hfired : s.pc ≠ .sigfired) (hdown : s.pc ≠ .clearFired false) : FirstPass s :=
  ⟨fun h => absurd h hfired, fun h => absurd h hdown⟩

/-- By the points of the loop; when it goes round again the flag is up. -/
theorem FirstPass.step (h : FirstPass s) (hstep : Atomic nsig s a s') : FirstPass s' := by
  cases hstep with
  | sigHandler => exact ⟨fun _ _ => rfl, h.down⟩
  | register e hpc => exact .elsewhere (by simp [Driver.affect, hpc]) (by simp [Driver.affect, hpc])
  | call => exact ⟨by simp, by simp⟩
  | readFired hpc =>
    refine ⟨by simp [Driver.goto], fun hdown => ?_⟩
    have hfired : s.sig.signalFired = false := by simpa [Driver.goto] using hdown
    by_contra hrun
    have htrue := h.again hpc (Bool.eq_true_of_not_eq_false hrun)
    exact absurd (hfired.symm.trans htrue) (by decide)
  | clearFired =>
    refine .elsewhere ?_ ?_ <;> split <;> simp
  | look =>
    refine .elsewhere ?_ ?_ <;> simp only [Driver.goto] <;> split <;> simp
  | dispatch =>
    refine .elsewhere ?_ ?_ <;> split <;> simp
  | scanned | timer | timersDone | signal | signalDone | skipPoll | fdsDone | ret =>
    exact .elsewhere (by simp [Driver.goto]) (by simp [Driver.goto])
  | poll | pollFailed | fd => exact .elsewhere (by simp) (by simp)
  | interrupted => exact h
  | retryPoll hpc => exact .elsewhere (by simp [hpc]) (by simp [hpc])
  | test hpc =>
    refine ⟨fun hpc' _ => ?_, fun hpc' => ?_⟩
    · simpa [Driver.goto] using hpc'
    · simp only [Driver.goto] at hpc'
      split at hpc' <;> simp at hpc'

/-- What fired unseen is not known to have fired when `poll` is called. -/
theorem run_unseen {k : Nat} (hrun : Run (Atomic nsig) s trace s') (hfirst : FirstPass s)
    (hpc : s.pc = .clearFired false) (hk : s.sig.signalsFired k = true) (hend : s'.pc ≠ .clearFired false) :
    ∃ t ∈ visited trace s', t.Leaving ∧ ¬t.Noticed := by
  induction hrun with
  | nil => exact absurd hpc hend
  | @cons s s₁ s' a trace hstep hrun ih =>
    have hfirst₁ := hfirst.step hstep
    have hrest : s₁.pc = .clearFired false → s₁.sig.signalsFired k = true →
        ∃ t ∈ visited ((s, a) :: trace) s', t.Leaving ∧ ¬t.Noticed := by
      intro hpc₁ hk₁
      obtain ⟨t, ht, hbad⟩ := ih hfirst₁ hpc₁ hk₁ hend
      exact ⟨t, List.mem_cons_of_mem _ ht, hbad⟩
    cases hstep with
    | sigHandler signum value =>
      refine hrest hpc ?_
      by_cases heq : k = signum
      · subst heq
        exact Function.update_self _ _ _
      · exact (Function.update_of_ne heq _ _).trans hk
    | @clearFired old hpc' =>
      obtain rfl : false = old := by simpa using hpc.symm.trans hpc'
      refine ⟨_, List.mem_cons_of_mem _ hrun.start_mem_visited, Or.inl ⟨rfl, hfirst.down hpc⟩, fun hnoticed => ?_⟩
      exact absurd (hnoticed k hk) (by simp)
    | interrupted hpc' | register _ hpc' | call hpc' | readFired hpc' | look hpc' | scanned hpc' | dispatch hpc'
    | timer _ hpc'
    | timersDone hpc' | signal _ hpc' | signalDone hpc' | poll _ hpc' | pollFailed hpc' | skipPoll hpc' | retryPoll hpc'
    | fd hpc' | fdsDone hpc' | test hpc' | ret hpc' => exact absurd (hpc.symm.trans hpc') (by simp)

end Unseen

section Owes

variable {nsig i : Nat} {s s' : Driver} {a : Act} {trace : List (Driver × Act)}

/-- `loop` is between the read of `signalFired` and `poll`. -/
def Pc.InPass : Pc → Prop
  | .clearFired _ | .scan _ | .clearSignal _ | .timer _ | .signal _ _ => True
  | _ => False

/-- The signal is yet to be looked at in this pass, or in the next one, which there will
be. -/
def Pc.Before (i : Nat) (signalFired : Bool) : Pc → Prop
  | .clearFired old => old = true
  | .scan j => j ≤ i
  | .clearSignal j => j ≤ i
  | .timer _ => SIGALRM < i
  | .signal j _ => j < i
  | _ => signalFired = true

/-- A signal has fired and will be looked at. -/
def Driver.Owes (i : Nat) (s : Driver) : Prop :=
  s.sig.signalsFired i = true ∧ s.pc.Before i s.sig.signalFired

theorem Pc.Before.fired {pc : Pc} {fired : Bool} (h : pc.Before i fired) : pc.Before i true := by
  cases pc with
  | clearFired | scan | clearSignal | timer | signal => exact h
  | _ => exact rfl

/-- Until the signal is dispatched, it is owed; and a pass, once begun, is not over. -/
theorem owes_step (hi : i < nsig) (h : s.Owes i) (hother : a ≠ .dispatch i) (hstep : Atomic nsig s a s') :
    s'.Owes i ∧ (s.pc.InPass ∨ a = .readFired → s'.pc.InPass) := by
  obtain ⟨hfired, hpoint⟩ := h
  cases hstep with
  | sigHandler signum value hsignum =>
    refine ⟨⟨?_, hpoint.fired⟩, by simp⟩
    by_cases heq : i = signum
    · subst heq
      exact Function.update_self _ _ _
    · exact (Function.update_of_ne heq _ _).trans hfired
  | register e hpc =>
    exact ⟨⟨hfired, hpoint⟩, by simp [hpc, Pc.InPass]⟩
  | call hpc =>
    rw [hpc] at hpoint ⊢
    exact ⟨⟨hfired, hpoint⟩, by simp [Pc.InPass]⟩
  | readFired hpc =>
    rw [hpc] at hpoint
    exact ⟨⟨hfired, hpoint⟩, fun _ => trivial⟩
  | @clearFired old hpc =>
    rw [hpc] at hpoint
    obtain rfl : old = true := hpoint
    exact ⟨⟨hfired, Nat.zero_le i⟩, fun _ => trivial⟩
  | @look j hpc hj =>
    rw [hpc] at hpoint
    have hle : j ≤ i := hpoint
    by_cases hnow : s.sig.signalsFired j = true
    · rw [if_pos hnow]
      exact ⟨⟨hfired, hle⟩, fun _ => trivial⟩
    · rw [if_neg hnow]
      have hne : j ≠ i := by
        rintro rfl
        exact hnow hfired
      exact ⟨⟨hfired, Nat.lt_of_le_of_ne hle hne⟩, fun _ => trivial⟩
  | @scanned j hpc hj =>
    rw [hpc] at hpoint
    exact absurd (Nat.le_trans hj hpoint) (Nat.not_le_of_lt hi)
  | @dispatch j hpc =>
    rw [hpc] at hpoint
    have hne : i ≠ j := by
      rintro rfl
      exact hother rfl
    have hlt : j < i := Nat.lt_of_le_of_ne hpoint (Ne.symm hne)
    have hkept : Function.update s.sig.signalsFired j false i = true := (Function.update_of_ne hne _ _).trans hfired
    by_cases halarm : j = SIGALRM
    · rw [if_pos halarm]
      exact ⟨⟨hkept, halarm ▸ hlt⟩, fun _ => trivial⟩
    · rw [if_neg halarm]
      exact ⟨⟨hkept, hlt⟩, fun _ => trivial⟩
  | timer e hpc =>
    rw [hpc] at hpoint
    exact ⟨⟨by simpa [Driver.goto, Driver.affect] using hfired, hpoint⟩, fun _ => trivial⟩
  | timersDone hpc =>
    rw [hpc] at hpoint
    exact ⟨⟨hfired, hpoint⟩, fun _ => trivial⟩
  | signal e hpc =>
    rw [hpc] at hpoint
    exact ⟨⟨by simpa [Driver.goto, Driver.affect] using hfired, hpoint⟩, fun _ => trivial⟩
  | signalDone hpc =>
    rw [hpc] at hpoint
    exact ⟨⟨hfired, hpoint⟩, fun _ => trivial⟩
  | interrupted hpc => exact ⟨⟨hfired, hpoint⟩, by simp [hpc, Pc.InPass]⟩
  | poll _ hpc | pollFailed hpc | skipPoll hpc | retryPoll hpc | fd hpc | fdsDone hpc | ret hpc =>
    rw [hpc] at hpoint
    refine ⟨⟨hfired, ?_⟩, by simp [hpc, Pc.InPass]⟩
    simpa [Driver.goto, hpc, Pc.Before] using hpoint
  | test hpc =>
    rw [hpc] at hpoint
    have hnow : s.sig.signalFired = true := hpoint
    rw [if_pos hnow]
    exact ⟨⟨hfired, hnow⟩, by simp [hpc, Pc.InPass]⟩

theorem owes_of_leaving (hleaving : s.Leaving) (hnoticed : s.Noticed) (hi : s.sig.signalsFired i = true) :
    s.Owes i := by
  refine ⟨hi, ?_⟩
  rcases hleaving with ⟨hpc, _⟩ | hpc <;> rw [hpc] <;> exact hnoticed i hi

theorem run_owes (hi : i < nsig) (hrun : Run (Atomic nsig) s trace s') (h : s.Owes i)
    (hnone : ∀ e ∈ trace, e.2 ≠ .dispatch i) :
    s'.Owes i ∧ (s.pc.InPass ∨ (∃ e ∈ trace, e.2 = .readFired) → s'.pc.InPass) := by
  induction hrun with
  | nil => exact ⟨h, by simp⟩
  | @cons s s₁ s' a trace hstep hrun ih =>
    obtain ⟨hother, hnone⟩ := List.forall_mem_cons.mp hnone
    obtain ⟨howes, hpass⟩ := owes_step hi h hother hstep
    obtain ⟨howes', hpass'⟩ := ih howes hnone
    refine ⟨howes', fun hbegun => hpass' ?_⟩
    rcases hbegun with hbegun | ⟨e, he, hread⟩
    · exact Or.inl (hpass (Or.inl hbegun))
    · rcases List.mem_cons.mp he with rfl | he
      · exact Or.inl (hpass (Or.inr hread))
      · exact Or.inr ⟨e, he, hread⟩

/-- A signal that is known to have fired is dispatched by the next pass. -/
theorem run_dispatches (hi : i < nsig) (hrun : Run (Atomic nsig) s trace s') (hleaving : s.Leaving)
    (hnoticed : s.Noticed)
    (hfired : s.sig.signalsFired i = true) (hleaving' : s'.Leaving) (hread : ∃ e ∈ trace, e.2 = .readFired) :
    ∃ e ∈ trace, e.2 = .dispatch i := by
  by_contra hnone
  have hnone' : ∀ e ∈ trace, e.2 ≠ .dispatch i := fun e he heq => hnone ⟨e, he, heq⟩
  have hpass := (run_owes hi hrun (owes_of_leaving hleaving hnoticed hfired) hnone').2 (Or.inr hread)
  rcases hleaving' with ⟨hpc, _⟩ | hpc <;> rw [hpc] at hpass <;> exact hpass

end Owes

/-- Before the first call of `loop`: nothing has fired, whatever is registered. -/
structure Quiet (s : Driver) : Prop where
  outside : s.pc = .outside
  fired : s.sig.signalFired = false
  signals : ∀ i, s.sig.signalsFired i = false

section Loop

variable {nsig : Nat} {s s' : Driver} {trace : List (Driver × Act)}

theorem Quiet.watched (h : Quiet s) (nsig : Nat) : Watched nsig s := by
  have hnone : ∀ j, s.sig.signalsFired j ≠ true := by simp [h.signals]
  exact ⟨fun j hj => absurd hj (hnone j), fun j _ hj => absurd hj (hnone j), fun _ => h.signals⟩

theorem Quiet.firstPass (h : Quiet s) : FirstPass s :=
  .elsewhere (by simp [h.outside]) (by simp [h.outside])

theorem run_watched (hrun : Run (Atomic nsig) s trace s') (h : Watched nsig s) (hseen : ∀ e ∈ trace, ¬e.2.Unseen e.1) :
    ∀ t ∈ visited trace s', Watched nsig t := by
  have hstep : ∀ (s : Driver) (a : Act) (s' : Driver), Watched nsig s → ¬a.Unseen s → Atomic nsig s a s' →
      Watched nsig s' :=
    fun _ _ _ h hseen hstep => h.step hseen hstep
  exact hrun.invariant_visited hstep h hseen

/-- A run that leaves no signal unknown has not had the signal handler run unseen. -/
theorem run_seen (hrun : Run (Atomic nsig) s trace s') (hfirst : FirstPass s) (hend : s'.pc ≠ .clearFired false)
    (hnoticed : ∀ t ∈ visited trace s', t.Leaving → t.Noticed) : ∀ e ∈ trace, ¬e.2.Unseen e.1 := by
  induction hrun with
  | nil => simp
  | @cons s s₁ s' a trace hstep hrun ih =>
    have hrest : ∀ t ∈ visited trace s', t.Leaving → t.Noticed := fun t ht => hnoticed t (List.mem_cons_of_mem _ ht)
    refine List.forall_mem_cons.mpr ⟨fun hunseen => ?_, ih (hfirst.step hstep) hend hrest⟩
    cases hstep with
    | sigHandler signum value hsignum =>
      have hpc : s.pc = .clearFired false := hunseen
      obtain ⟨t, ht, hleaving, hnot⟩ := run_unseen hrun (hfirst.step (.sigHandler signum value hsignum)) hpc
        (Function.update_self _ _ _) hend
      exact hnot (hrest t ht hleaving)
    | _ => exact hunseen

/-- When `loop` is about to call `poll` or to return, no signal has fired without that being
known, as long as the signal handler does not run between the read and the write of
`signalFired`; and otherwise one has, once that write is made. What is known to have fired
is dispatched by the next pass. -/
theorem loop_notices (nsig : Nat) (hquiet : Quiet s) (hrun : Run (Atomic nsig) s trace s') :
    ((∀ e ∈ trace, ¬e.2.Unseen e.1) → ∀ t ∈ visited trace s', t.Leaving → t.Noticed) ∧
    (s'.pc ≠ .clearFired false → (∀ t ∈ visited trace s', t.Leaving → t.Noticed) → ∀ e ∈ trace, ¬e.2.Unseen e.1) ∧
    ((∀ e ∈ trace, ¬e.2.Unseen e.1) → s'.Leaving → ∀ i, s'.sig.signalsFired i = true →
      ∀ trace' s'', Run (Atomic nsig) s' trace' s'' → s''.Leaving → (∃ e ∈ trace', e.2 = .readFired) →
        ∃ e ∈ trace', e.2 = .dispatch i) := by
  refine ⟨fun hseen t ht => ?_, fun hend hnoticed => ?_, fun hseen hleaving i hi trace' s'' hrun' => ?_⟩
  · exact (run_watched hrun (hquiet.watched nsig) hseen t ht).noticed
  · exact run_seen hrun hquiet.firstPass hend hnoticed
  · have hwatched := run_watched hrun (hquiet.watched nsig) hseen s' (Run.end_mem_visited trace s')
    exact run_dispatches (hwatched.below i hi) hrun' hleaving (hwatched.noticed hleaving) hi

end Loop

/-- A driver with a handler for signal 2, before the first call of `loop`. -/
def idle : Driver where
  sig := { sigSources := [⟨7, 2⟩] }
  loop := .init 3

theorem idle_quiet : Quiet idle :=
  ⟨rfl, rfl, fun _ => rfl⟩

/-- The signal fires before the call and is dispatched, and fires once more before `poll`. -/
theorem loop_notices_twice : ∃ trace s, Run (Atomic 3) idle trace s ∧ s.Leaving ∧ s.sig.signalsFired 2 = true ∧
    ∀ t ∈ visited trace s, t.Leaving → t.Noticed := by
  have hrun : Run (Atomic 3) idle _ _ :=
    .cons (.sigHandler 2 0 (by omega)) (.cons (.call rfl) (.cons (.readFired rfl) (.cons (.clearFired rfl)
      (.cons (.look rfl (by omega)) (.cons (.look rfl (by omega)) (.cons (.look rfl (by omega)) (.cons (.dispatch rfl)
        (.cons (.signal {} rfl) (.cons (.signalDone rfl) (.cons (.scanned rfl (by omega))
          (.single (.sigHandler 2 0 (by omega)))))))))))))
  refine ⟨_, _, hrun, Or.inl ⟨rfl, rfl⟩, rfl, (loop_notices 3 idle_quiet hrun).1 ?_⟩
  simp [Act.Unseen, Driver.goto, Driver.affect, idle, Signals.sigHandler]

/-- It fires after `signalFired` was found down, and before that is taken down. -/
theorem loop_forgets : Quiet idle ∧ ∃ trace s, Run (Atomic 65) idle trace s ∧ s.Leaving ∧ ¬s.Noticed := by
  have hrun : Run (Atomic 65) idle _ _ :=
    .cons (.call rfl) (.cons (.readFired rfl) (.cons (.sigHandler 2 0 (by omega)) (.single (.clearFired rfl))))
  refine ⟨idle_quiet, _, _, hrun, Or.inl ⟨rfl, rfl⟩, fun hnoticed => ?_⟩
  have hfired := hnoticed 2 rfl
  exact absurd hfired (by decide)

end ServiceManager.Event
