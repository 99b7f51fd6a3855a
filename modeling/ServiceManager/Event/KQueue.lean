import ServiceManager.Event.PollDriver

namespace ServiceManager.Event

/-- What `kevent` returns, by its filter and its identifier. -/
inductive KEvent where
  | read (ident : Int)
  | timer (ident : Nat)
  | signal (ident : Nat)
deriving DecidableEq

/-- The KQueue driver between calls of `loop`. The last four are what the kernel has: the
filters for descriptors and signals; for each identifier the call whose timer it is, the
last one to set it; and the identifier that each call came with. -/
structure KQueue where
  fdSources : List FDSource := []
  sigSources : List SignalSource := []
  timerSources : List TimerSource := []
  callbacks : List Callback := []
  reads : List Int := []
  signals : List Nat := []
  timers : Nat → Option Nat := fun _ => none
  idents : Nat → Option Nat := fun _ => none

namespace KQueue

variable (s : KQueue)

/-- Filters for writing are left out. -/
def addFD (handler : Nat) (fd : Int) (events : Nat) : KQueue :=
  { s with
    fdSources := s.fdSources ++ [{ handler, fd }]
    reads := if events &&& POLLIN ≠ 0 then fd :: s.reads else s.reads }

def addSignal (handler sigNum : Nat) : KQueue :=
  { s with sigSources := s.sigSources ++ [{ handler, sigNum }], signals := sigNum :: s.signals }

/-- `id` is what `rand` returns. A filter that is there for it is set anew. -/
def addTimer (reg id : Nat) : KQueue :=
  { s with
    timerSources := s.timerSources ++ [{ handler := reg, id }]
    timers := Function.update s.timers id (some reg)
    idents := Function.update s.idents reg (some id) }

/-- The event for a signal that is sent to the process. -/
def raise (signum : Nat) : Option KEvent :=
  if signum ∈ s.signals then some (.signal signum) else none

/-- The event for a descriptor that can be read from. -/
def readable (fd : Int) : Option KEvent :=
  if fd ∈ s.reads then some (.read fd) else none

/-- The event for a timer that expires, if its filter is still there. It is for one time. -/
def expire (reg : Nat) : Option KEvent × KQueue :=
  match s.idents reg with
  | none => (none, s)
  | some id =>
    if s.timers id = some reg then (some (.timer id), { s with timers := Function.update s.timers id none })
    else (none, s)

/-- A call of `loop`, with the event that `kevent` returns, if it does not time out. -/
def loop : Option KEvent → KQueue
  | none => s
  | some (.read ident) =>
    { s with
      callbacks := s.callbacks ++ (s.fdSources.find? fun src => src.fd = ident).toList.map fun src =>
        .fd src.handler ident }
  | some (.timer ident) =>
    { s with
      callbacks := s.callbacks ++ (s.timerSources.find? fun src => src.id = ident).toList.map fun src =>
        .timer src.handler ident
      timerSources := s.timerSources.eraseP fun src => src.id = ident }
  | some (.signal ident) =>
    { s with
      callbacks := s.callbacks ++ (s.sigSources.find? fun src => src.sigNum = ident).toList.map fun src =>
        .signal src.handler ident }

section Loop

variable {s} {reg id : Nat}

theorem loop_expire (hident : s.idents reg = some id) (htimer : s.timers id = some reg) :
    (s.expire reg).2.loop (s.expire reg).1 =
      { s with
        timers := Function.update s.timers id none
        callbacks := s.callbacks ++ (s.timerSources.find? fun src => src.id = id).toList.map fun src =>
          .timer src.handler id
        timerSources := s.timerSources.eraseP fun src => src.id = id } := by
  simp only [expire, hident, htimer, if_true, loop]

/-- A timer whose filter has gone. -/
theorem loop_expire_gone (h : ∀ id, s.idents reg = some id → s.timers id ≠ some reg) :
    (s.expire reg).2.loop (s.expire reg).1 = s := by
  unfold expire
  cases hident : s.idents reg with
  | none => rfl
  | some id => simp only [if_neg (h id hident), loop]

/-- The first handler of a signal is called, where there is one. -/
theorem loop_raise {signum : Nat} (hsignal : signum ∈ s.signals ↔ ∃ src ∈ s.sigSources, src.sigNum = signum) :
    s.loop (s.raise signum) =
      { s with
        callbacks := s.callbacks ++ (s.sigSources.find? fun src => src.sigNum = signum).toList.map fun src =>
          .signal src.handler signum } := by
  unfold raise
  split
  · rfl
  · rename_i hnot
    rw [hsignal] at hnot
    have hnone : (s.sigSources.find? fun src => src.sigNum = signum) = none := by
      rw [List.find?_eq_none]
      intro src hsrc heq
      exact hnot ⟨src, hsrc, of_decide_eq_true heq⟩
    simp [loop, hnone]

end Loop

end KQueue

/-- A call of the interface that succeeds, or something that happens and is handled by one
call of `loop`. -/
inductive Happening where
  | addFD (handler : Nat) (fd : Int) (events : Nat)
  | addSignal (handler signum : Nat)
  /-- `drawn` is what `rand` returns. -/
  | addTimer (handler drawn : Nat)
  /-- `value` is what is sent along with the signal. -/
  | signal (signum value : Nat)
  /-- The timer of one of the calls of `addTimer`, counted from the first. -/
  | expire (reg : Nat)
  | readable (fd : Int)

/-- A callback without the number that the driver has given to a timer: by the handler, and
by the call that added it. -/
def Callback.named (handlers : List Nat) : Callback → Callback
  | .timer reg _ => .timer (handlers.getD reg 0) reg
  | callback => callback

/-- The two drivers, with the same history. -/
structure Drivers where
  poll : PollDriver := {}
  kqueue : KQueue := {}
  handlers : List Nat := []
  /-- The process of the KQueue driver has died of a `SIGALRM`, which `init` of the Poll driver
  catches. -/
  killed : Bool := false

namespace Drivers

variable (nsig : Nat) (s : Drivers)

/-- `none` where a call does not succeed, and where there is no such signal. Only signals that were
added are ignored by the process of the KQueue driver, apart from what it gets of them as events. -/
def happen : Happening → Option Drivers
  | .addFD handler fd events =>
    some { s with poll := s.poll.addFD handler fd events, kqueue := s.kqueue.addFD handler fd events }
  | .addSignal handler signum =>
    if signum < nsig then
      some { s with poll := s.poll.addSignal handler signum, kqueue := s.kqueue.addSignal handler signum }
    else none
  | .addTimer handler drawn =>
    (s.poll.addTimer s.handlers.length).map fun poll =>
      { s with poll, kqueue := s.kqueue.addTimer s.handlers.length drawn, handlers := s.handlers ++ [handler] }
  | .signal signum value =>
    if signum < nsig then
      some { s with
        poll := (s.poll.raise signum value).loop nsig none
        kqueue := s.kqueue.loop (s.kqueue.raise signum)
        killed := signum = SIGALRM ∧ signum ∉ s.kqueue.signals }
    else none
  | .expire reg =>
    some { s with
      poll := (s.poll.expire reg).loop nsig none
      kqueue := (s.kqueue.expire reg).2.loop (s.kqueue.expire reg).1 }
  | .readable fd =>
    some { s with poll := s.poll.loop nsig (some fd), kqueue := s.kqueue.loop (s.kqueue.readable fd) }

/-- Nothing happens to a process that has died. -/
def step (a : Happening) : Option Drivers :=
  if s.killed then none else s.happen nsig a

/-- Both processes are alive, and the callbacks made so far are the same, up to the numbers of
timers. -/
structure Agree : Prop where
  callbacks : s.poll.sig.callbacks.map (Callback.named s.handlers) = s.kqueue.callbacks.map (Callback.named s.handlers)
  alive : s.killed = false

/-- What happens is dispatched alike: there is one handler for a signal, which is not that of
timers; no other timer that is yet to expire has drawn the same number; a descriptor is read by
one registration. -/
def Meets : Happening → Prop
  | .signal signum _ =>
    signum ≠ SIGALRM ∧ (s.poll.sig.sigSources.filter fun src => src.sigNum = signum).length ≤ 1
  | .expire reg =>
    ∀ src ∈ s.kqueue.timerSources, ∀ src' ∈ s.kqueue.timerSources, src.handler = reg → src'.id = src.id → src' = src
  | .readable fd => (s.poll.pFDs.filter fun p => p.Reads fd).length ≤ 1
  | _ => True

end Drivers

end ServiceManager.Event
