import ServiceManager.Event.Watching

namespace ServiceManager.Event

open Memory

/-- What has become of the timers, which the source does not keep. A timer is known by the
number of the call that added it. -/
structure History where
  /-- The calls of `addTimer` so far. -/
  regs : Nat := 0
  /-- The identifiers that were returned, and for which timer. -/
  given : List (Nat × Nat) := []
  /-- The timer that has an identifier, until its handler is called or it is deleted. -/
  live : Nat → Option Nat := fun _ => none
  expired : List Nat := []
  deleted : List Nat := []
  /-- The calls of `timerEvent`. -/
  events : List (Nat × Nat) := []
  /-- The timers that had expired when the last pass over the signals began. -/
  due : List Nat := []

namespace History

variable (h : History)

def add (r : Int) : History :=
  if 0 ≤ r then
    { h with
      regs := h.regs + 1
      given := h.given ++ [(h.regs, r.toNat)]
      live := Function.update h.live r.toNat (some h.regs) }
  else { h with regs := h.regs + 1 }

@[simp] theorem regs_add (entryId : Nat) : (h.add entryId).regs = h.regs + 1 := by
  simp [add]

@[simp] theorem given_add (entryId : Nat) : (h.add entryId).given = h.given ++ [(h.regs, entryId)] := by
  simp [add]

@[simp] theorem live_add (entryId : Nat) : (h.add entryId).live = Function.update h.live entryId (some h.regs) := by
  simp [add]

theorem add_of_neg {r : Int} (hr : r < 0) : h.add r = { h with regs := h.regs + 1 } :=
  if_neg (Int.not_le.mpr hr)

def delete (entryID : Nat) : History :=
  { h with deleted := h.deleted ++ (h.live entryID).toList, live := Function.update h.live entryID none }

def free (timID : Nat) : History :=
  { h with live := Function.update h.live timID none }

def tell (src : TimerSource) : History :=
  { h with events := h.events ++ [(src.handler, src.id)] }

end History

/-- Where `loop` is. Of the signals only that of the timers is followed. -/
inductive Stage where
  /-- It is not being called. -/
  | outside
  /-- `oldSigFired = signalFired` -/
  | sigfired
  /-- `signalFired = false` -/
  | clearFired (oldSigFired : Bool)
  /-- The signals before that of the timers, and the look at that. -/
  | signals
  /-- `signalsFired[i] = false` -/
  | clearAlarm
  /-- The next of the timers. -/
  | timer (timID : Nat)
  /-- The handler of this source is being called. -/
  | timerEvent (timID : Nat) (it : TimerSource)
  /-- The other signals, and then `poll`. -/
  | runpoll
  /-- The next of the descriptors. -/
  | fds (i : Nat)
  /-- A handler of a descriptor is being called. -/
  | fdEvent (i : Nat)
  /-- `if (signalFired)` -/
  | test
deriving DecidableEq

/-- Code other than `loop` runs: its caller's, or that of a handler. -/
def Stage.Calls : Stage → Prop
  | .outside | .signals | .timerEvent .. | .runpoll | .fdEvent _ => True
  | _ => False

/-- The Poll driver, with the signal of the timers. -/
structure Machine where
  loop : PollLoop
  signalFired : Bool := false
  alarmFired : Bool := false
  stage : Stage := .outside
  hist : History := {}
  erasedTwice : Bool := false

/-- A call of the interface, with what the system makes of it. -/
inductive Request where
  | addFD (r : Registration) (realloc : Except Errno Block) (emplaced : Bool)
  | delFD (fd : Int)
  | addTimer (emplaced : Bool) (timer_create timer_settime : Except Errno Unit)
  | delTimer (entryID : Nat)

namespace Machine

/-- After `init`, where nothing fails. Accesses count from there. -/
def start (pipe nPFDs : Int) (pFDs : Nat → Option Pollfd) (block : Block) : Machine :=
  { loop := { PollLoop.initialised pipe nPFDs pFDs block with accesses := [] } }

variable (s : Machine)

def goto (stage : Stage) : Machine :=
  { s with stage }

def touch (accesses : List Access) : Machine :=
  { s with loop := s.loop.touch accesses }

def perform : Request → Machine
  | .addFD r realloc emplaced => { s with loop := (s.loop.addFD r.handler r.fd r.events realloc emplaced).2 }
  | .delFD fd => { s with loop := (s.loop.delFD fd).2 }
  | .addTimer emplaced timer_create timer_settime =>
    { s with
      loop := (s.loop.addTimer s.hist.regs emplaced timer_create timer_settime).2
      hist := s.hist.add (s.loop.addTimer s.hist.regs emplaced timer_create timer_settime).1 }
  | .delTimer entryID => { s with loop := (s.loop.delTimer entryID).2, hist := s.hist.delete entryID }

/-- The signal handler, for a timer with this identifier. -/
def sigHandler (reg id : Nat) : Machine :=
  { s with
    loop.timers := Function.update s.loop.timers id { s.loop.timers id with fired := true }
    signalFired := true
    alarmFired := true
    hist.expired := s.hist.expired ++ [reg] }

/-- The memory after the table of timers is written by whoever it belongs to. -/
def overwrite (beyond : Nat → TimerEntry) : Machine :=
  { s with loop.timers := fun i => if i < 255 then s.loop.timers i else beyond i }

/-- The entry is free before the handler is called. -/
def freeTimer (timID : Nat) : Machine :=
  { s with loop.timers := Function.update s.loop.timers timID {}, hist := s.hist.free timID }

/-- `timerSources.erase(it)`, whether `it` is still there or not. -/
def eraseTimer (it : TimerSource) : Machine :=
  { s with
    loop.timerSources := s.loop.timerSources.erase it
    erasedTwice := s.erasedTwice || decide (it ∉ s.loop.timerSources) }

/-- `pFDs[i].revents = 0` -/
def clearRevents (i : Nat) : Machine :=
  { s with loop.pFDs := Function.update s.loop.pFDs i ((s.loop.pFDs i).map fun p => { p with revents := 0 }) }

def poll (revents : Nat → BitVec 16) : Machine :=
  { s with loop.pFDs := fun i =>
      if i < s.loop.nPFDs.toNat then (s.loop.pFDs i).map fun p => { p with revents := revents i } else s.loop.pFDs i }

/-- A timer has expired that the loop has not seen to. -/
def fires (timID : Nat) : Bool :=
  (s.loop.timers timID).valid && (s.loop.timers timID).fired

/-- An element that is there has been reported. What is in lost memory is left open. -/
def Ready (i : Nat) : Prop :=
  ∀ p, s.loop.pFDs i = some p → p.revents ≠ 0

def Idle (i : Nat) : Prop :=
  ∀ p, s.loop.pFDs i = some p → p.revents = 0

end Machine

/-- The steps of `loop`. Whether `poll` is called again in a later pass is left open. -/
inductive Machine.Pass : Machine → Machine → Prop
  | enter {s} : s.stage = .outside → Pass s (s.goto .sigfired)
  | readFired {s} : s.stage = .sigfired →
      Pass s { s with hist.due := s.hist.expired, stage := .clearFired s.signalFired }
  | clearFired {s old} : s.stage = .clearFired old →
      Pass s { s with signalFired := false, stage := if old then .signals else .runpoll }
  | look {s} : s.stage = .signals → Pass s (s.goto (if s.alarmFired then .clearAlarm else .runpoll))
  | clearAlarm {s} : s.stage = .clearAlarm → Pass s { s with alarmFired := false, stage := .timer 0 }
  | timer {s timID} : s.stage = .timer timID → timID < 255 → s.fires timID = false →
      Pass s ((s.touch [.timers timID]).goto (.timer (timID + 1)))
  | timerEvent {s timID it} : s.stage = .timer timID → timID < 255 → s.fires timID = true →
      (s.loop.timerSources.find? fun src => src.id = timID) = some it →
      Pass s
        { (s.touch [.timers timID]).freeTimer timID with
          hist := (s.hist.free timID).tell it, stage := .timerEvent timID it }
  | timerUnknown {s timID} : s.stage = .timer timID → timID < 255 → s.fires timID = true →
      (s.loop.timerSources.find? fun src => src.id = timID) = none →
      Pass s (((s.touch [.timers timID]).freeTimer timID).goto (.timer (timID + 1)))
  | timerReturn {s timID it} : s.stage = .timerEvent timID it →
      Pass s ((s.eraseTimer it).goto (.timer (timID + 1)))
  | timersDone {s timID} : s.stage = .timer timID → 255 ≤ timID → Pass s (s.goto .runpoll)
  | poll {s} (revents) : s.stage = .runpoll →
      Pass s (((((s.poll revents).touch ((List.range s.loop.nPFDs.toNat).map fun i => .pFDs i s.loop.nPFDs)).touch
        [.pFDs 0 s.loop.nPFDs]).clearRevents 0).goto (.fds 1))
  | skipPoll {s} : s.stage = .runpoll →
      Pass s (((s.touch [.pFDs 0 s.loop.nPFDs]).clearRevents 0).goto (.fds 1))
  | fd {s} {i : Nat} : s.stage = .fds i → (i : Int) < s.loop.nPFDs → s.Idle i →
      Pass s ((s.touch [.pFDs i s.loop.nPFDs]).goto (.fds (i + 1)))
  | fdUnknown {s} {i : Nat} : s.stage = .fds i → (i : Int) < s.loop.nPFDs → s.Ready i →
      (∀ p, s.loop.pFDs i = some p → ∀ src ∈ s.loop.fdSources, src.fd ≠ p.fd) →
      Pass s (((s.touch [.pFDs i s.loop.nPFDs]).clearRevents i).goto (.fds (i + 1)))
  | fdEvent {s} {i : Nat} : s.stage = .fds i → (i : Int) < s.loop.nPFDs → s.Ready i →
      (∀ p, s.loop.pFDs i = some p → ∃ src ∈ s.loop.fdSources, src.fd = p.fd) →
      Pass s ((s.touch [.pFDs i s.loop.nPFDs]).goto (.fdEvent i))
  | fdReturn {s} {i : Nat} : s.stage = .fdEvent i →
      Pass s (((s.touch [.pFDs i s.loop.nPFDs]).clearRevents i).goto (.fds (i + 1)))
  | fdsDone {s} {i : Nat} : s.stage = .fds i → s.loop.nPFDs ≤ (i : Int) → Pass s (s.goto .test)
  | test {s} : s.stage = .test → Pass s (s.goto (if s.signalFired then .sigfired else .outside))

/-- What happens next. -/
inductive Move where
  | request (r : Request)
  /-- The timer of this call expires, and its signal arrives. -/
  | expire (reg : Nat)
  | others (beyond : Nat → TimerEntry)
  | loop

/-- The steps of the driver. A signal may arrive between any two. -/
inductive Machine.Step : Machine → Move → Machine → Prop
  | request {s} (r) : s.stage.Calls → Step s (.request r) (s.perform r)
  | expire {s} {reg id : Nat} : s.hist.live id = some reg → reg ∉ s.hist.expired →
      Step s (.expire reg) (s.sigHandler reg id)
  | others {s} (beyond) : Step s (.others beyond) (s.overwrite beyond)
  | loop {s s'} : Machine.Pass s s' → Step s .loop s'

end ServiceManager.Event
