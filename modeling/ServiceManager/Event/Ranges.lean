import ServiceManager.Event.Timers

namespace ServiceManager.Event

open Trace

/-- All accesses are to elements that the tables have. -/
def InRange (accesses : List Access) : Prop :=
  ∀ x ∈ accesses, x.InRange

theorem inRange_append {l l' : List Access} : InRange (l ++ l') ↔ InRange l ∧ InRange l' :=
  List.forall_mem_append

theorem inRange_single {x : Access} : InRange [x] ↔ x.InRange :=
  List.forall_mem_singleton

/-- The first elements of `pFDs`, up to its count. -/
theorem inRange_pFDs {n : Nat} {nPFDs : Int} (h : (n : Int) ≤ nPFDs) :
    InRange ((List.range n).map fun i => .pFDs i nPFDs) := by
  intro x hx
  obtain ⟨i, hi, rfl⟩ := List.mem_map.mp hx
  have hlt : i < n := List.mem_range.mp hi
  change (i : Int) < nPFDs
  omega

theorem inRange_timers_iff {n : Nat} : InRange ((List.range n).map .timers) ↔ n ≤ 255 := by
  constructor
  · intro h
    by_contra hlt
    have hmem : Access.timers 255 ∈ (List.range n).map Access.timers :=
      List.mem_map_of_mem (List.mem_range.mpr (by omega))
    exact Nat.lt_irrefl 255 (h _ hmem)
  · intro hle x hx
    obtain ⟨i, hi, rfl⟩ := List.mem_map.mp hx
    have hlt : i < n := List.mem_range.mp hi
    exact Nat.lt_of_lt_of_le hlt hle

namespace PollLoop

variable {s : PollLoop} {r : Registration} {fd : Int} {realloc : Except Errno Block} {emplaced : Bool}
    {reg entryID : Nat}
  {sigaction timer_create timer_settime : Except Errno Unit} {pipe : Except Errno Int} {malloc : Except Errno Block}

@[simp] theorem accesses_addSignal {handler : Nat} {sigNum : Int} :
    (s.addSignal handler sigNum emplaced sigaction).2.accesses = s.accesses := by
  unfold addSignal
  cases emplaced with
  | false => rfl
  | true =>
    cases sigaction <;> rfl

/-- The table is cleared one element too far, whatever fails after that. -/
theorem not_inRange_init : ¬InRange (s.init pipe emplaced sigaction malloc).2.accesses := by
  have hcleared : ∀ {l : List Access}, ¬InRange (s.accesses ++ (List.range 256).map .timers ++ l) := by
    intro l h
    have hle := inRange_timers_iff.mp (inRange_append.mp (inRange_append.mp h).1).2
    omega
  have hcleared' : ¬InRange (s.accesses ++ (List.range 256).map .timers) := by
    have h := @hcleared []
    rwa [List.append_nil] at h
  unfold init
  cases pipe with
  | error errno => exact hcleared'
  | ok pipe =>
    dsimp only
    split
    · rw [accesses_addSignal]
      exact hcleared'
    · cases malloc with
      | error errno =>
        dsimp only
        rw [accesses_addSignal]
        exact hcleared'
      | ok pFDs =>
        dsimp only
        rw [accesses_addSignal]
        exact hcleared

theorem addFD_accesses (s : PollLoop) (r : Registration) (realloc : Except Errno Block) (emplaced : Bool)
    (h : 0 ≤ s.nPFDs) :
    s.nPFDs ≤ (s.addFD r.handler r.fd r.events realloc emplaced).2.nPFDs ∧
    ∃ l, (s.addFD r.handler r.fd r.events realloc emplaced).2.accesses = s.accesses ++ l ∧ InRange l := by
  unfold addFD
  cases realloc with
  | error errno => exact ⟨Int.le_refl _, [], (List.append_nil _).symm, by simp [InRange]⟩
  | ok b =>
    cases emplaced with
    | false => exact ⟨Int.le_refl _, [], (List.append_nil _).symm, by simp [InRange]⟩
    | true =>
      refine ⟨Int.le_add_one (Int.le_refl _), _, rfl, inRange_single.mpr ?_⟩
      change (s.nPFDs.toNat : Int) < s.nPFDs + 1
      omega

/-- The move reads the element at the count. -/
theorem not_inRange_moved {i : Nat} (h : s.findFD fd = some i) : ¬InRange (s.moved i) := by
  intro hrange
  obtain ⟨hi, _⟩ := List.findIdx?_eq_some_iff_getElem.mp h
  rw [entries, Memory.length_contents] at hi
  have hmem : Access.pFDs (i + 1 + (s.nPFDs.toNat - i - 1)) s.nPFDs ∈ s.moved i :=
    List.mem_flatMap.mpr ⟨s.nPFDs.toNat - i - 1, List.mem_range.mpr (by omega), by simp⟩
  have hlt : ((i + 1 + (s.nPFDs.toNat - i - 1) : Nat) : Int) < s.nPFDs := hrange _ hmem
  omega

theorem delFD_inRange_iff (h : 0 ≤ s.nPFDs) (hrange : InRange s.accesses) :
    InRange (s.delFD fd).2.accesses ↔ s.findFD fd = none := by
  unfold delFD
  cases hfind : s.findFD fd with
  | some i =>
    refine iff_of_false (fun hall => ?_) (by simp)
    exact not_inRange_moved hfind (inRange_append.mp hall).2
  | none =>
    refine iff_of_true (inRange_append.mpr ⟨hrange, inRange_pFDs ?_⟩) rfl
    omega

theorem searched_inRange_iff : InRange s.searched ↔ ∃ i < 255, (s.timers i).valid = false := by
  rw [searched, inRange_timers_iff]
  cases hentry : s.freeEntry with
  | none =>
    refine iff_of_false (by simp) ?_
    rintro ⟨i, hi, hvalid⟩
    have hnone := List.find?_eq_none.mp hentry i (List.mem_range.mpr (by omega))
    simp [hvalid] at hnone
  | some entryId =>
    constructor
    · exact fun hlt => ⟨entryId, hlt, freeEntry_valid hentry⟩
    · exact fun hfree => freeEntry_lt hfree hentry

/-- A search in range finds an entry in range. -/
theorem addTimer_inRange_iff (hrange : InRange s.accesses) :
    InRange (s.addTimer reg emplaced timer_create timer_settime).2.accesses ↔
    ∃ i < 255, (s.timers i).valid = false := by
  have hsearched : InRange (s.accesses ++ s.searched) ↔ ∃ i < 255, (s.timers i).valid = false := by
    rw [inRange_append, searched_inRange_iff, and_iff_right hrange]
  cases hentry : s.freeEntry with
  | none =>
    rw [addTimer, hentry]
    exact hsearched
  | some entryId =>
    have htaken : InRange (s.accesses ++ s.searched ++ [.timers entryId]) ↔ ∃ i < 255, (s.timers i).valid = false := by
      rw [inRange_append, hsearched, inRange_single]
      exact and_iff_left_of_imp fun hfree => freeEntry_lt hfree hentry
    rw [addTimer, hentry]
    cases emplaced with
    | false => exact hsearched
    | true =>
      cases timer_create with
      | error errno => exact htaken
      | ok =>
        cases timer_settime <;> exact htaken

theorem nPFDs_addTimer : (s.addTimer reg emplaced timer_create timer_settime).2.nPFDs = s.nPFDs := by
  unfold addTimer
  cases s.freeEntry with
  | none => rfl
  | some entryId =>
    cases emplaced with
    | false => rfl
    | true =>
      cases timer_create with
      | error errno => rfl
      | ok =>
        cases timer_settime <;> rfl

theorem nPFDs_delFD (hnone : s.findFD fd = none) : (s.delFD fd).2.nPFDs = s.nPFDs := by
  rw [delFD, hnone]
  rfl

theorem delTimer_inRange_iff (hrange : InRange s.accesses) :
    InRange (s.delTimer entryID).2.accesses ↔ entryID < 255 := by
  change InRange (s.accesses ++ [.timers entryID]) ↔ _
  rw [inRange_append, inRange_single, and_iff_right hrange]
  rfl

end PollLoop

namespace Machine

/-- There is an element for the self-pipe at least, and one for the descriptor whose handler
is being called; and identifiers are of entries. -/
structure Bounded (s : Machine) : Prop where
  nPFDs : 1 ≤ s.loop.nPFDs
  fdEvent : ∀ i, s.stage = .fdEvent i → (i : Int) < s.loop.nPFDs
  given : ∀ e ∈ s.hist.given, e.2 < 255

end Machine

/-- An identifier that is deleted was returned by `addTimer`. -/
def Move.Given (s : Machine) : Move → Prop
  | .request (.delTimer entryID) => ∃ reg, (reg, entryID) ∈ s.hist.given
  | _ => True

/-- A timer is added where there is room in the table, and a descriptor is deleted that is
not in the other. -/
def Move.InBounds (s : Machine) : Move → Prop
  | .request (.addTimer ..) => ∃ i < 255, (s.loop.timers i).valid = false
  | .request (.delFD fd) => s.loop.findFD fd = none
  | _ => True

namespace Machine.Bounded

variable {s s' : Machine} {a : Move} (h : s.Bounded)

include h

/-- All that `loop` itself accesses is in range. -/
theorem pass (hpass : Pass s s') :
    s'.Bounded ∧ ∃ l, s'.loop.accesses = s.loop.accesses ++ l ∧ InRange l := by
  have hpipe : Access.InRange (.pFDs 0 s.loop.nPFDs) := by
    have hpos := h.nPFDs
    change ((0 : Nat) : Int) < s.loop.nPFDs
    omega
  cases hpass with
  | enter | readFired | clearAlarm | timerReturn | timersDone | fdsDone =>
    exact ⟨⟨h.nPFDs, nofun, h.given⟩, [], (List.append_nil _).symm, by simp [InRange]⟩
  | clearFired | look | test =>
    refine ⟨⟨h.nPFDs, fun i hstage => ?_, h.given⟩, [], (List.append_nil _).symm, by simp [InRange]⟩
    dsimp only [goto] at hstage
    split at hstage <;> cases hstage
  | timer hstage hlt => exact ⟨⟨h.nPFDs, nofun, h.given⟩, _, rfl, inRange_single.mpr hlt⟩
  | timerEvent hstage hlt => exact ⟨⟨h.nPFDs, nofun, h.given⟩, _, rfl, inRange_single.mpr hlt⟩
  | timerUnknown hstage hlt => exact ⟨⟨h.nPFDs, nofun, h.given⟩, _, rfl, inRange_single.mpr hlt⟩
  | poll revents hstage =>
    refine ⟨⟨h.nPFDs, nofun, h.given⟩, _, List.append_assoc _ _ _,
      inRange_append.mpr ⟨inRange_pFDs ?_, inRange_single.mpr hpipe⟩⟩
    have hpos := h.nPFDs
    omega
  | skipPoll hstage => exact ⟨⟨h.nPFDs, nofun, h.given⟩, _, rfl, inRange_single.mpr hpipe⟩
  | fd hstage hlt => exact ⟨⟨h.nPFDs, nofun, h.given⟩, _, rfl, inRange_single.mpr hlt⟩
  | fdUnknown hstage hlt => exact ⟨⟨h.nPFDs, nofun, h.given⟩, _, rfl, inRange_single.mpr hlt⟩
  | @fdEvent i hstage hlt =>
    refine ⟨⟨h.nPFDs, fun j hj => ?_, h.given⟩, _, rfl, inRange_single.mpr hlt⟩
    obtain rfl : i = j := Stage.fdEvent.inj hj
    exact hlt
  | fdReturn hstage => exact ⟨⟨h.nPFDs, nofun, h.given⟩, _, rfl, inRange_single.mpr (h.fdEvent _ hstage)⟩

theorem addTimer {emplaced : Bool} {timer_create timer_settime : Except Errno Unit}
    (hfree : ∃ i < 255, (s.loop.timers i).valid = false) :
    (s.perform (.addTimer emplaced timer_create timer_settime)).Bounded := by
  have hnPFDs : (s.perform (.addTimer emplaced timer_create timer_settime)).loop.nPFDs = s.loop.nPFDs :=
    PollLoop.nPFDs_addTimer
  refine ⟨?_, ?_, fun e he => ?_⟩
  · rw [hnPFDs]
    exact h.nPFDs
  · rw [hnPFDs]
    exact h.fdEvent
  · rcases s.perform_addTimer emplaced timer_create timer_settime with ⟨entryId, hentry, _, _, hhist⟩ | ⟨_, _, hhist⟩
    · rw [hhist, History.given_add, List.mem_append, List.mem_singleton] at he
      rcases he with he | rfl
      · exact h.given e he
      · exact PollLoop.freeEntry_lt hfree hentry
    · rw [hhist] at he
      exact h.given e he

/-- By the kinds of steps: one leaves the tables exactly if it is out of bounds. -/
theorem step (hrange : InRange s.loop.accesses) (hgiven : a.Given s) (hstep : Step s a s') :
    (InRange s'.loop.accesses ↔ a.InBounds s) ∧ (a.InBounds s → s'.Bounded) := by
  have hnonneg : 0 ≤ s.loop.nPFDs := Int.le_trans (by decide) h.nPFDs
  cases hstep with
  | request r hcalls =>
    cases r with
    | addFD r realloc emplaced =>
      have hadded := s.loop.addFD_accesses r realloc emplaced hnonneg
      obtain ⟨hle, l, haccesses, hl⟩ := hadded
      refine ⟨iff_of_true ?_ trivial, fun _ => ⟨Int.le_trans h.nPFDs hle,
        fun i hi => Int.lt_of_lt_of_le (h.fdEvent i hi) hle, h.given⟩⟩
      change InRange (s.loop.addFD _ _ _ _ _).2.accesses
      rw [haccesses]
      exact inRange_append.mpr ⟨hrange, hl⟩
    | delFD fd =>
      refine ⟨PollLoop.delFD_inRange_iff hnonneg hrange, fun hnone => ?_⟩
      have hnPFDs : (s.perform (.delFD fd)).loop.nPFDs = s.loop.nPFDs := PollLoop.nPFDs_delFD hnone
      refine ⟨?_, ?_, h.given⟩
      · rw [hnPFDs]
        exact h.nPFDs
      · rw [hnPFDs]
        exact h.fdEvent
    | addTimer emplaced timer_create timer_settime => exact ⟨PollLoop.addTimer_inRange_iff hrange, h.addTimer⟩
    | delTimer entryID =>
      obtain ⟨reg, hreg⟩ := hgiven
      refine ⟨iff_of_true ((PollLoop.delTimer_inRange_iff hrange).mpr (h.given _ hreg)) trivial, fun _ => ?_⟩
      exact ⟨h.nPFDs, h.fdEvent, h.given⟩
  | expire | others =>
    exact ⟨iff_of_true hrange trivial, fun _ => ⟨h.nPFDs, h.fdEvent, h.given⟩⟩
  | loop hpass =>
    obtain ⟨hbounded, l, haccesses, hl⟩ := h.pass hpass
    refine ⟨iff_of_true ?_ trivial, fun _ => hbounded⟩
    rw [haccesses]
    exact inRange_append.mpr ⟨hrange, hl⟩

end Machine.Bounded

theorem Machine.Bounded.start (pipe nPFDs : Int) (pFDs : Nat → Option Pollfd) (block : Block) :
    (Machine.start pipe nPFDs pFDs block).Bounded :=
  ⟨Int.le_refl 1, nofun, fun _ h => absurd h List.not_mem_nil⟩

/-- `init` is never in range. After it, the accesses of a run are in range exactly if every
timer is added where there is room in the table, and no descriptor is deleted that is there. -/
theorem accesses_inRange_iff (pipe nPFDs : Int) (pFDs : Nat → Option Pollfd) (block : Block) :
    (∀ (s : PollLoop) (pipe : Except Errno Int) (emplaced : Bool) (sigaction : Except Errno Unit)
      (malloc : Except Errno Block),
      ¬InRange (s.init pipe emplaced sigaction malloc).2.accesses) ∧
    ∀ (trace : List (Machine × Move)) (s' : Machine),
      Run Machine.Step (Machine.start pipe nPFDs pFDs block) trace s' → (∀ e ∈ trace, e.2.Given e.1) →
      ((∀ t ∈ visited trace s', InRange t.loop.accesses) ↔ ∀ e ∈ trace, e.2.InBounds e.1) := by
  refine ⟨fun s pipe emplaced sigaction malloc => PollLoop.not_inRange_init, ?_⟩
  intro trace s' hrun hgiven
  have hstep : ∀ (s : Machine) (a : Move) (s' : Machine), s.Bounded → InRange s.loop.accesses →
      a.Given s ∧ Machine.Step s a s' →
      (InRange s'.loop.accesses ↔ a.InBounds s) ∧ (a.InBounds s → s'.Bounded) :=
    fun _ _ _ h hrange hstep => h.step hrange hstep.1 hstep.2
  exact (hrun.restrict (p := fun s a => a.Given s) hgiven).forall_visited_iff hstep
    (Machine.Bounded.start pipe nPFDs pFDs block) fun _ h => absurd h List.not_mem_nil

/-- A descriptor and a timer are added, and the timer is deleted. -/
theorem accesses_inRange_timer : ∃ s : Machine, s.hist.given = [(0, 0)] ∧ s.loop.nPFDs = 2 ∧
    InRange s.loop.accesses := by
  let block : Block := { moved := false, beyond := fun _ => none }
  have hrun : Run Machine.Step (Machine.start 3 0 (fun _ => none) block) _ _ :=
    .cons (.request (.addFD ⟨7, 5, 1⟩ (.ok block) true) trivial)
      (.cons (.request (.addTimer true (.ok ()) (.ok ())) trivial)
      (.single (.request (.delTimer 0) trivial)))
  refine ⟨_, rfl, rfl, ((accesses_inRange_iff 3 0 _ block).2 _ _ hrun ?_).mpr ?_ _ (Run.end_mem_visited _ _)⟩
  · simp only [List.forall_mem_cons]
    exact ⟨trivial, trivial, ⟨0, List.mem_singleton_self _⟩, fun _ h => absurd h List.not_mem_nil⟩
  · simp only [List.forall_mem_cons]
    exact ⟨trivial, ⟨0, by omega, rfl⟩, trivial, fun _ h => absurd h List.not_mem_nil⟩

/-- `init` writes the element 255 of the table of timers; a deletion reads the element of
`pFDs` at its count; and where all timers are taken one more is given that element 255. -/
theorem accesses_not_inRange :
    (∃ s : PollLoop, Access.timers 255 ∈ (s.init (.ok 3) true (.ok ()) (.ok ⟨false, fun _ => none⟩)).2.accesses) ∧
    (∃ trace s', Run Machine.Step (Machine.start 3 0 (fun _ => none) ⟨false, fun _ => none⟩) trace s' ∧
      (∀ e ∈ trace, e.2.Given e.1) ∧ Access.pFDs 2 2 ∈ s'.loop.accesses) ∧
    (∃ s : PollLoop, (∀ i < 255, (s.timers i).valid = true) ∧ (s.addTimer 255 true (.ok ()) (.ok ())).1 = 255) ∧
    ¬(Access.timers 255).InRange ∧ ¬(Access.pFDs 2 2).InRange := by
  refine ⟨⟨PollLoop.new 0 fun _ => none, by decide⟩, ?_, ?_, by simp [Access.InRange], by simp [Access.InRange]⟩
  · have hrun : Run Machine.Step (Machine.start 3 0 (fun _ => none) ⟨false, fun _ => none⟩) _ _ :=
      .cons (.request (.addFD ⟨7, 5, 1⟩ (.ok ⟨false, fun _ => none⟩) true) trivial)
        (.single (.request (.delFD 5) trivial))
    refine ⟨_, _, hrun, ?_, by decide⟩
    simp only [List.forall_mem_cons]
    exact ⟨trivial, trivial, fun _ h => absurd h List.not_mem_nil⟩
  · refine ⟨{ PollLoop.new 1 fun _ => none with timers := fun i => { valid := decide (i < 255) } }, ?_, ?_⟩
    · exact fun i hi => decide_eq_true hi
    · rfl

end ServiceManager.Event
