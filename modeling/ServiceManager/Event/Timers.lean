import ServiceManager.Event.LiveTimers
import ServiceManager.Event.Machine

namespace ServiceManager.Event

open Trace

namespace PollLoop

variable {s : PollLoop} {r : Registration} {fd : Int} {realloc : Except Errno Block} {emplaced : Bool}
  {timer_create timer_settime : Except Errno Unit} {reg entryId : Nat}

@[simp] theorem timerSources_addFD : (s.addFD r.handler r.fd r.events realloc emplaced).2.timerSources =
    s.timerSources := by
  unfold addFD
  split
  · rfl
  · split <;> rfl

@[simp] theorem timers_addFD : (s.addFD r.handler r.fd r.events realloc emplaced).2.timers = s.timers := by
  unfold addFD
  split
  · rfl
  · split <;> rfl

@[simp] theorem timerSources_delFD : (s.delFD fd).2.timerSources = s.timerSources := by
  unfold delFD
  split <;> rfl

@[simp] theorem timers_delFD : (s.delFD fd).2.timers = s.timers := by
  unfold delFD
  split <;> rfl

theorem freeEntry_valid (h : s.freeEntry = some entryId) : (s.timers entryId).valid = false := by
  simpa using List.find?_some h

/-- An entry of the table is taken, if there is a free one. -/
theorem freeEntry_lt (hfree : ∃ i < 255, (s.timers i).valid = false) (h : s.freeEntry = some entryId) :
    entryId < 255 := by
  obtain ⟨i, hi, hvalid⟩ := hfree
  by_contra hge
  obtain ⟨hentry, k, hk, heq, hbefore⟩ := List.find?_eq_some_iff_getElem.mp h
  rw [List.getElem_range] at heq
  have hnot := hbefore i (by omega)
  rw [List.getElem_range, hvalid] at hnot
  cases hnot

/-- What `addTimer` does to the sources and the table: it adds a timer, or fails and leaves
those that are there. -/
theorem addTimer_cases (s : PollLoop) (reg : Nat) (emplaced : Bool) (timer_create timer_settime : Except Errno Unit) :
    (∃ entryId : Nat, s.freeEntry = some entryId ∧
      (s.addTimer reg emplaced timer_create timer_settime).1 = entryId ∧
      (s.addTimer reg emplaced timer_create timer_settime).2.timerSources = s.timerSources ++
        [{ handler := reg, id := entryId }] ∧
      (s.addTimer reg emplaced timer_create timer_settime).2.timers =
        Function.update s.timers entryId { valid := true, fired := false }) ∨
    ((s.addTimer reg emplaced timer_create timer_settime).1 < 0 ∧
      (s.addTimer reg emplaced timer_create timer_settime).2.timerSources = s.timerSources ∧
      ∀ i, ((s.addTimer reg emplaced timer_create timer_settime).2.timers i).valid = (s.timers i).valid ∧
        ((s.timers i).valid = true →
          (s.addTimer reg emplaced timer_create timer_settime).2.timers i = s.timers i)) := by
  unfold addTimer
  cases hentry : s.freeEntry with
  | none => exact Or.inr ⟨neg_E2BIG, rfl, fun i => ⟨rfl, fun _ => rfl⟩⟩
  | some entryId =>
    cases emplaced with
    | false => exact Or.inr ⟨neg_ENOMEM, rfl, fun i => ⟨rfl, fun _ => rfl⟩⟩
    | true =>
      cases timer_create with
      | error errno =>
        exact Or.inr ⟨Int.neg_neg_of_pos errno.property, List.dropLast_concat, fun i => ⟨rfl, fun _ => rfl⟩⟩
      | ok =>
        cases timer_settime with
        | ok => exact Or.inl ⟨entryId, rfl, rfl, rfl, rfl⟩
        | error errno =>
          refine Or.inr ⟨Int.neg_neg_of_pos errno.property, List.dropLast_concat, fun i => ?_⟩
          change (Function.update s.timers entryId { s.timers entryId with fired := false } i).valid = _ ∧
            (_ → Function.update s.timers entryId { s.timers entryId with fired := false } i = _)
          by_cases hi : i = entryId
          · subst hi
            rw [Function.update_self]
            refine ⟨rfl, fun hvalid => ?_⟩
            rw [freeEntry_valid hentry] at hvalid
            cases hvalid
          · rw [Function.update_of_ne hi]
            exact ⟨rfl, fun _ => rfl⟩

end PollLoop

/-- The same with what has become of the timers. -/
theorem Machine.perform_addTimer (s : Machine) (emplaced : Bool) (timer_create timer_settime : Except Errno Unit) :
    (∃ entryId : Nat, s.loop.freeEntry = some entryId ∧
      (s.perform (.addTimer emplaced timer_create timer_settime)).loop.timerSources =
        s.loop.timerSources ++ [{ handler := s.hist.regs, id := entryId }] ∧
      (s.perform (.addTimer emplaced timer_create timer_settime)).loop.timers =
        Function.update s.loop.timers entryId { valid := true, fired := false } ∧
      (s.perform (.addTimer emplaced timer_create timer_settime)).hist = s.hist.add entryId) ∨
    ((s.perform (.addTimer emplaced timer_create timer_settime)).loop.timerSources = s.loop.timerSources ∧
      (∀ i, ((s.perform (.addTimer emplaced timer_create timer_settime)).loop.timers i).valid =
        (s.loop.timers i).valid ∧
        ((s.loop.timers i).valid = true →
          (s.perform (.addTimer emplaced timer_create timer_settime)).loop.timers i = s.loop.timers i)) ∧
      (s.perform (.addTimer emplaced timer_create timer_settime)).hist = { s.hist with regs := s.hist.regs + 1 }) := by
  rcases s.loop.addTimer_cases s.hist.regs emplaced timer_create timer_settime with
    ⟨entryId, hentry, hresult, hsources, htimers⟩ | ⟨hresult, hsources, htimers⟩
  · exact Or.inl ⟨entryId, hentry, hsources, htimers, congrArg s.hist.add hresult⟩
  · exact Or.inr ⟨hsources, htimers, s.hist.add_of_neg hresult⟩

/-- The source whose handler is being called. -/
def Stage.running : Stage → Option TimerSource
  | .timerEvent _ it => some it
  | _ => none

theorem Machine.timers_overwrite {s : Machine} {beyond : Nat → TimerEntry} {i : Nat} (hi : i < 255) :
    (s.overwrite beyond).loop.timers i = s.loop.timers i :=
  if_pos hi

/-- A step that has nothing to do with a timer. -/
structure Machine.Unmoved (s s' : Machine) : Prop where
  running : s.stage.running = none
  running' : s'.stage.running = none
  sources : s'.loop.timerSources = s.loop.timerSources
  timers : s'.loop.timers = s.loop.timers
  hist : ∃ due, s'.hist = { s.hist with due } ∧ (due = s.hist.due ∨ due = s.hist.expired)
  erased : s'.erasedTwice = s.erasedTwice

/-- What `loop` does about timers. -/
theorem Machine.Pass.cases {s s' : Machine} (h : Machine.Pass s s') :
    Machine.Unmoved s s' ∨
    (∃ timID it, s.stage = .timer timID ∧ timID < 255 ∧ s.fires timID = true ∧
      (s.loop.timerSources.find? fun src => src.id = timID) = some it ∧
      s' = { (s.touch [.timers timID]).freeTimer timID with
        hist := (s.hist.free timID).tell it, stage := .timerEvent timID it }) ∨
    (∃ timID, s.stage = .timer timID ∧ timID < 255 ∧ s.fires timID = true ∧
      (s.loop.timerSources.find? fun src => src.id = timID) = none ∧
      s' = ((s.touch [.timers timID]).freeTimer timID).goto (.timer (timID + 1))) ∨
    ∃ timID it, s.stage = .timerEvent timID it ∧ s' = (s.eraseTimer it).goto (.timer (timID + 1)) := by
  cases h with
  | timerEvent hstage hlt hfires hfind => exact Or.inr (Or.inl ⟨_, _, hstage, hlt, hfires, hfind, rfl⟩)
  | timerUnknown hstage hlt hfires hfind => exact Or.inr (Or.inr (Or.inl ⟨_, hstage, hlt, hfires, hfind, rfl⟩))
  | timerReturn hstage => exact Or.inr (Or.inr (Or.inr ⟨_, _, hstage, rfl⟩))
  | clearFired hstage =>
    refine Or.inl ⟨by rw [hstage]; rfl, ?_, rfl, rfl, ⟨_, rfl, Or.inl rfl⟩, rfl⟩
    dsimp only
    split <;> rfl
  | look hstage | test hstage =>
    refine Or.inl ⟨by rw [hstage]; rfl, ?_, rfl, rfl, ⟨_, rfl, Or.inl rfl⟩, rfl⟩
    dsimp only [Machine.goto]
    split <;> rfl
  | readFired hstage => exact Or.inl ⟨by rw [hstage]; rfl, rfl, rfl, rfl, ⟨_, rfl, Or.inr rfl⟩, rfl⟩
  | enter hstage | clearAlarm hstage | timer hstage | timersDone hstage | poll revents hstage
    | skipPoll hstage | fd hstage | fdUnknown hstage | fdEvent hstage | fdReturn hstage | fdsDone hstage =>
    exact Or.inl ⟨by rw [hstage]; rfl, rfl, rfl, rfl, ⟨_, rfl, Or.inl rfl⟩, rfl⟩

/-- The sources and the table agree on the timers that are live. -/
structure Machine.Tidy (s : Machine) : Prop where
  sources : LiveTimers s.stage.running s.loop.timerSources s.hist.regs s.hist.live
  valid_iff : ∀ i < 255, (s.loop.timers i).valid = true ↔ (s.hist.live i).isSome
  live_lt : ∀ i reg, s.hist.live i = some reg → i < 255
  running_id : ∀ timID it, s.stage = .timerEvent timID it → it.id = timID

/-- A timer is added where there is room in the table, and no handler deletes the timer that
has the identifier it is called with. -/
def Move.Safe (s : Machine) : Move → Prop
  | .request (.addTimer ..) => ∃ i < 255, (s.loop.timers i).valid = false
  | .request (.delTimer entryID) => ∀ it, s.stage.running = some it → it.id ≠ entryID
  | _ => True

namespace Machine.Tidy

variable {s s' : Machine} {a : Move} (h : s.Tidy)

include h

/-- What leaves the live timers alone. -/
theorem same (hrunning : s'.stage.running = s.stage.running)
    (hid : ∀ timID it, s'.stage = .timerEvent timID it → it.id = timID)
    (hsources : s'.loop.timerSources = s.loop.timerSources)
    (hvalid : ∀ i < 255, (s'.loop.timers i).valid = (s.loop.timers i).valid)
    (hregs : s'.hist.regs = s.hist.regs) (hlive : s'.hist.live = s.hist.live) : s'.Tidy where
  sources := by
    rw [hrunning, hsources, hregs, hlive]
    exact h.sources
  valid_iff := fun i hi => by
    rw [hvalid i hi, hlive]
    exact h.valid_iff i hi
  live_lt := by
    rw [hlive]
    exact h.live_lt
  running_id := hid

theorem valid_of_live {id reg : Nat} (hlive : s.hist.live id = some reg) : (s.loop.timers id).valid = true := by
  rw [h.valid_iff id (h.live_lt id reg hlive), hlive]
  rfl

theorem live_of_fires {timID : Nat} (hlt : timID < 255) (hfires : s.fires timID = true) :
    ∃ reg, s.hist.live timID = some reg := by
  have hvalid : (s.loop.timers timID).valid = true := (Bool.and_eq_true_iff.mp hfires).1
  exact Option.isSome_iff_exists.mp ((h.valid_iff timID hlt).mp hvalid)

/-- The entry that a new timer gets is that of no live timer. -/
theorem live_of_freeEntry {entryId : Nat} (hfree : ∃ i < 255, (s.loop.timers i).valid = false)
    (hentry : s.loop.freeEntry = some entryId) : s.hist.live entryId = none := by
  have hlt : entryId < 255 := PollLoop.freeEntry_lt hfree hentry
  rw [← Option.not_isSome_iff_eq_none, ← h.valid_iff entryId hlt, PollLoop.freeEntry_valid hentry]
  exact Bool.false_ne_true

/-- A new timer takes the first entry that is free. -/
theorem addTimer {emplaced : Bool} {timer_create timer_settime : Except Errno Unit}
    (hfree : ∃ i < 255, (s.loop.timers i).valid = false) :
    (s.perform (.addTimer emplaced timer_create timer_settime)).Tidy := by
  rcases s.perform_addTimer emplaced timer_create timer_settime with
    ⟨entryId, hentry, hsources, htimers, hhist⟩ | ⟨hsources, htimers, hhist⟩
  · have hlt : entryId < 255 := PollLoop.freeEntry_lt hfree hentry
    refine ⟨?_, fun i hi => ?_, fun i reg hlive => ?_, h.running_id⟩
    · rw [hsources, hhist, History.regs_add, History.live_add]
      exact h.sources.add (h.live_of_freeEntry hfree hentry)
    · rw [htimers, hhist, History.live_add]
      by_cases heq : i = entryId
      · simp [heq]
      · rw [Function.update_of_ne heq, Function.update_of_ne heq]
        exact h.valid_iff i hi
    · rw [hhist, History.live_add] at hlive
      by_cases heq : i = entryId
      · rw [heq]
        exact hlt
      · rw [Function.update_of_ne heq] at hlive
        exact h.live_lt i reg hlive
  · refine ⟨?_, fun i hi => ?_, fun i reg hlive => ?_, h.running_id⟩
    · rw [hsources, hhist]
      exact h.sources.skip
    · rw [(htimers i).1, hhist]
      exact h.valid_iff i hi
    · rw [hhist] at hlive
      exact h.live_lt i reg hlive

theorem valid_iff_gone (id : Nat) : ∀ i < 255,
    (Function.update s.loop.timers id {} i).valid = true ↔ (Function.update s.hist.live id none i).isSome := by
  intro i hi
  by_cases heq : i = id
  · simp [heq]
  · rw [Function.update_of_ne heq, Function.update_of_ne heq]
    exact h.valid_iff i hi

theorem delTimer {entryID : Nat} (hother : ∀ it, s.stage.running = some it → it.id ≠ entryID) :
    (s.perform (.delTimer entryID)).Tidy where
  sources := h.sources.delete hother
  valid_iff := h.valid_iff_gone entryID
  live_lt := fun i reg hlive => h.live_lt i reg (live_of_update_none hlive).2
  running_id := h.running_id

/-- The source of a timer that has expired is found, and is the one of the live timer. -/
theorem fire {timID : Nat} {it : TimerSource} (hnone : s.stage.running = none)
    (hfind : (s.loop.timerSources.find? fun src => src.id = timID) = some it) :
    it.id = timID ∧ s.hist.live timID = some it.handler ∧
      { (s.touch [.timers timID]).freeTimer timID with
        hist := (s.hist.free timID).tell it, stage := .timerEvent timID it : Machine }.Tidy := by
  obtain ⟨hid, hlive, hsources⟩ := h.sources.fire hnone hfind
  refine ⟨hid, hlive, hsources, h.valid_iff_gone timID, fun i reg hlive' => ?_, ?_⟩
  · exact h.live_lt i reg (live_of_update_none hlive').2
  · rintro _ _ ⟨⟩
    exact hid

/-- There is a source for each timer that has expired. -/
theorem find?_isSome {timID : Nat} (hlt : timID < 255) (hfires : s.fires timID = true) :
    (s.loop.timerSources.find? fun src => src.id = timID) ≠ none := by
  obtain ⟨reg, hlive⟩ := h.live_of_fires hlt hfires
  intro hfind
  exact absurd (decide_eq_true rfl) (List.find?_eq_none.mp hfind _ (h.sources.mem hlive))

/-- What is not about a timer. -/
theorem unmoved (hsame : Unmoved s s') : s'.Tidy := by
  obtain ⟨due, hhist, _⟩ := hsame.hist
  have hregs : s'.hist.regs = s.hist.regs := by rw [hhist]
  have hlive : s'.hist.live = s.hist.live := by rw [hhist]
  refine h.same (hsame.running'.trans hsame.running.symm)
    (fun timID it hstage => ?_) hsame.sources (fun i _ => ?_) hregs hlive
  · have hnone := hsame.running'
    rw [hstage] at hnone
    cases hnone
  · rw [hsame.timers]

/-- By the kinds of steps, one lemma for each request. -/
theorem step (hsafe : a.Safe s) (hstep : Step s a s') : s'.Tidy := by
  cases hstep with
  | request r hcalls =>
    cases r with
    | addFD r realloc emplaced =>
      exact h.same rfl h.running_id PollLoop.timerSources_addFD (fun i _ => by simp [perform]) rfl rfl
    | delFD fd => exact h.same rfl h.running_id PollLoop.timerSources_delFD (fun i _ => by simp [perform]) rfl rfl
    | addTimer emplaced timer_create timer_settime => exact h.addTimer hsafe
    | delTimer entryID => exact h.delTimer hsafe
  | @expire reg id hlive hexpired =>
    refine h.same rfl h.running_id rfl (fun i _ => ?_) rfl rfl
    change (Function.update s.loop.timers id _ i).valid = _
    by_cases heq : i = id
    · simp [heq]
    · rw [Function.update_of_ne heq]
  | others beyond =>
    refine h.same rfl h.running_id rfl (fun i hi => ?_) rfl rfl
    rw [timers_overwrite hi]
  | loop hpass =>
    rcases hpass.cases with hsame | ⟨timID, it, hstage, hlt, hfires, hfind, rfl⟩ |
      ⟨timID, hstage, hlt, hfires, hfind, _⟩ | ⟨timID, it, hstage, rfl⟩
    · exact h.unmoved hsame
    · have hnone : s.stage.running = none := by
        rw [hstage]
        rfl
      exact (h.fire hnone hfind).2.2
    · exact absurd hfind (h.find?_isSome hlt hfires)
    · refine ⟨h.sources.finish ?_, h.valid_iff, h.live_lt, by simp [goto]⟩
      rw [hstage]
      rfl

end Machine.Tidy

end ServiceManager.Event
