import ServiceManager.Event.KQueue
import ServiceManager.Memory

namespace ServiceManager.Event

open Memory

def ENOENT : Int := 2
def E2BIG : Int := 7
def ENOMEM : Int := 12

theorem neg_E2BIG : -E2BIG < 0 := by
  decide

theorem neg_ENOMEM : -ENOMEM < 0 := by
  decide

/-- What a call that fails leaves in `errno`. -/
abbrev Errno := { n : Int // 0 < n }

/-- A bit of the events to listen for. -/
def POLLOUT : Nat := 4

/-- `struct pollfd` -/
structure Pollfd where
  fd : Int
  events : BitVec 16
  revents : BitVec 16
deriving DecidableEq

/-- An element of `sigSources`. Its number is whatever was passed. -/
structure SigSource where
  handler : Nat
  sigNum : Int
deriving DecidableEq

/-- The members of `EventLoop` that are there with every driver. -/
structure Sources where
  fdSources : List FDSource := []
  sigSources : List SigSource := []
  timerSources : List TimerSource := []
deriving DecidableEq

/-- An access to an element of one of the two tables of the Poll driver; for one of `pFDs`,
with the value of `nPFDs` at that moment. -/
inductive Access where
  | timers (i : Nat)
  | pFDs (i : Nat) (nPFDs : Int)
deriving DecidableEq

def Access.InRange : Access → Prop
  | .timers i => i < 255
  | .pFDs i nPFDs => (i : Int) < nPFDs

/-- `EventLoop` with the Poll driver, and its table of timers. What `pFDs` points to is
`none` where that is not, or no longer, its memory. The memory after the 255 timers is read
and written as if there were more of them. `accesses` are those made so far. -/
structure PollLoop extends Sources where
  nPFDs : Int
  pFDs : Nat → Option Pollfd
  timers : Nat → TimerEntry := fun _ => {}
  accesses : List Access := []

/-- What `realloc` returns if it does not fail. What is in the block after the elements of
the old one is left open. -/
structure Block where
  moved : Bool
  beyond : Nat → Option Pollfd

/-- The elements that a block has, if the old one has `n`. -/
def Block.contents (b : Block) (n : Nat) (old : Nat → Option Pollfd) : Nat → Option Pollfd :=
  fun i => if i < n then old i else b.beyond i

namespace PollLoop

variable (s : PollLoop)

/-- The constructor leaves the array and its count as they are. -/
def new (nPFDs : Int) (pFDs : Nat → Option Pollfd) : PollLoop :=
  { nPFDs, pFDs }

/-- The registered elements of `pFDs`. -/
def entries : List (Option Pollfd) :=
  contents s.pFDs s.nPFDs.toNat

def touch (accesses : List Access) : PollLoop :=
  { s with accesses := s.accesses ++ accesses }

/-- A call that fails comes with its `errno`; `emplaced` says whether there is memory for the
element of the list. Where there is none, a block that has moved is lost. -/
def addFD (handler : Nat) (fd : Int) (events : BitVec 32) (realloc : Except Errno Block) (emplaced : Bool) :
    Int × PollLoop :=
  match realloc with
  | .error errno => (-errno.val, s)
  | .ok newPFDs =>
    if emplaced then
      let n := s.nPFDs.toNat
      (0, { s with
        fdSources := s.fdSources ++ [{ handler, fd }]
        nPFDs := s.nPFDs + 1
        pFDs := Function.update (newPFDs.contents n s.pFDs) n (some { fd, events := events.setWidth 16, revents := 0 })
        accesses := s.accesses ++ [.pFDs n (s.nPFDs + 1)] })
    else
      (-ENOMEM, { s with pFDs := if newPFDs.moved then fun _ => none else s.pFDs })

/-- `nPFDs` is taken down although it was not put up. -/
def addSignal (handler : Nat) (sigNum : Int) (emplaced : Bool) (sigaction : Except Errno Unit) : Int × PollLoop :=
  if emplaced then
    let sigSources := s.sigSources ++ [{ handler, sigNum }]
    match sigaction with
    | .error errno => (-errno.val, { s with sigSources := sigSources.dropLast })
    | .ok () => (0, { s with sigSources })
  else
    (-ENOMEM, { s with nPFDs := s.nPFDs - 1 })

/-- The search goes one past the end of the table. -/
def freeEntry : Option Nat :=
  (List.range 256).find? fun i => !(s.timers i).valid

/-- The elements that the search looks at. -/
def searched : List Access :=
  (List.range (s.freeEntry.elim 256 (· + 1))).map .timers

/-- The handler of a timer is known by the number of the call that adds it. -/
def addTimer (reg : Nat) (emplaced : Bool) (timer_create timer_settime : Except Errno Unit) : Int × PollLoop :=
  let s' := s.touch s.searched
  match s.freeEntry with
  | none => (-E2BIG, s')
  | some entryId =>
    if emplaced then
      let timerSources := s.timerSources ++ [{ handler := reg, id := entryId }]
      let s' := s'.touch [.timers entryId]
      match timer_create with
      | .error errno => (-errno.val, { s' with timerSources := timerSources.dropLast })
      | .ok () =>
        let entry := { s.timers entryId with fired := false }
        match timer_settime with
        | .error errno =>
          (-errno.val, { s' with
            timerSources := timerSources.dropLast
            timers := Function.update s.timers entryId entry })
        | .ok () =>
          (entryId, { s' with
            timerSources
            timers := Function.update s.timers entryId { entry with valid := true } })
    else
      (-ENOMEM, s')

/-- The first element of `pFDs` for a descriptor. -/
def findFD (fd : Int) : Option Nat :=
  s.entries.findIdx? fun p => p.any fun p => p.fd = fd

/-- The elements that `memmove` reads and writes when that at `i` is removed. -/
def moved (i : Nat) : List Access :=
  (List.range (s.nPFDs.toNat - i)).flatMap fun k => [.pFDs (i + 1 + k) s.nPFDs, .pFDs (i + k) s.nPFDs]

def delFD (fd : Int) : Int × PollLoop :=
  let s' := { s with fdSources := s.fdSources.eraseP fun src => src.fd = fd }
  match s.findFD fd with
  | some i =>
    (0, { s' with
      nPFDs := s.nPFDs - 1
      pFDs := memmove s.pFDs i (i + 1) (s.nPFDs.toNat - i)
      accesses := s.accesses ++ (List.range (i + 1)).map (fun j => .pFDs j s.nPFDs) ++ s.moved i })
  | none => (-ENOENT, s'.touch ((List.range s.nPFDs.toNat).map fun j => .pFDs j s.nPFDs))

/-- What it returns is the same in all cases. -/
def delTimer (entryID : Nat) : Int × PollLoop :=
  (-ENOENT, { s with
    timerSources := s.timerSources.eraseP fun src => src.id = entryID
    timers := Function.update s.timers entryID {}
    accesses := s.accesses ++ [.timers entryID] })

/-- The table is cleared with one more element than it has. `pipe` is the end of the
self-pipe to read from. -/
def init (pipe : Except Errno Int) (emplaced : Bool) (sigaction : Except Errno Unit) (malloc : Except Errno Block) :
    Int × PollLoop :=
  let s := { s.touch ((List.range 256).map .timers) with
    timers := fun i => if i < 256 then { s.timers i with valid := false } else s.timers i }
  match pipe with
  | .error errno => (-errno.val, s)
  | .ok pipe =>
    let (r, s) := s.addSignal 0 SIGALRM emplaced sigaction
    if r < 0 then (r, s)
    else
      match malloc with
      | .error errno => (-errno.val, s)
      | .ok pFDs =>
        (0, { s with
          nPFDs := 1
          pFDs := Function.update pFDs.beyond 0 (some { fd := pipe, events := BitVec.ofNat 16 POLLIN, revents := 0 })
          accesses := s.accesses ++ [.pFDs 0 1] })

/-- A call that returns a negative value has left the loop as it was. -/
def Undoes (r : Int × PollLoop) : Prop :=
  r.1 < 0 → r.2.toSources = s.toSources ∧ r.2.nPFDs = s.nPFDs ∧ r.2.entries = s.entries

end PollLoop

/-! The KQueue driver has no tables of its own besides the lists. -/

/-- There is no telling what happens to an empty list. -/
def popBack {α : Type} (l : List α) : Option (List α) :=
  if l = [] then none else some l.dropLast

theorem popBack_append {α : Type} (l : List α) (a : α) : popBack (l ++ [a]) = some l := by
  simp [popBack]

namespace Sources

variable (s : Sources)

/-- `read` and `write` add a filter, and `delete` takes one out again. -/
def addFD (handler : Nat) (fd : Int) (events : BitVec 32) (emplaced : Bool) (read write delete : Except Errno Unit) :
    Option (Int × Sources) :=
  if emplaced then
    let fdSources := s.fdSources ++ [{ handler, fd }]
    let addedRead := events &&& BitVec.ofNat 32 POLLIN ≠ 0
    match (if addedRead then read else .ok ()), (if events &&& BitVec.ofNat 32 POLLOUT ≠ 0 then write else .ok ()) with
    | .error errno, _ => (popBack fdSources).map fun fdSources => (-errno.val, { s with fdSources })
    | .ok (), .error errno =>
      let errno := match (if addedRead then delete else .ok ()) with
        | .error errno => errno
        | .ok () => errno
      (popBack fdSources).map fun fdSources => (-errno.val, { s with fdSources })
    | .ok (), .ok () => some (0, { s with fdSources })
  else
    some (-ENOMEM, s)

/-- Where all goes well nothing is returned, and `left` is what the caller finds. -/
def addSignal (handler : Nat) (signum : Int) (emplaced : Bool) (add signal delete : Except Errno Unit) (left : Int) :
    Option (Int × Sources) :=
  if emplaced then
    let sigSources := s.sigSources ++ [{ handler, sigNum := signum }]
    match add, signal with
    | .error errno, _ => (popBack sigSources).map fun sigSources => (-errno.val, { s with sigSources })
    | .ok (), .error olderrno => do
      let sigSources ← popBack sigSources
      match delete with
      | .error errno =>
        let sigSources ← popBack sigSources
        pure (-errno.val, { s with sigSources })
      | .ok () => pure (-olderrno.val, { s with sigSources })
    | .ok (), .ok () => some (left, { s with sigSources })
  else
    some (-ENOMEM, s)

/-- `rand` may return anything. -/
def addTimer (reg : Nat) (rand : Int) (emplaced : Bool) (add : Except Errno Unit) : Option (Int × Sources) :=
  let id := rand.natAbs
  if emplaced then
    let timerSources := s.timerSources ++ [{ handler := reg, id }]
    match add with
    | .error errno => (popBack timerSources).map fun timerSources => (-errno.val, { s with timerSources })
    | .ok () => some (id, { s with timerSources })
  else
    some (-ENOMEM, s)

/-- The filter goes too, or cannot be deleted. -/
def delTimer (entryID : Nat) (delete : Except Errno Unit) : Int × Sources :=
  let s := { s with timerSources := s.timerSources.eraseP fun src => src.id = entryID }
  match delete with
  | .error errno => (-errno.val, s)
  | .ok () => (0, s)

/-- A call that returns a negative value has left the lists as they were, and there is no
call of which nothing can be said. -/
def Undoes (r : Option (Int × Sources)) : Prop :=
  ∃ value s', r = some (value, s') ∧ (value < 0 → s' = s)

end Sources

end ServiceManager.Event
