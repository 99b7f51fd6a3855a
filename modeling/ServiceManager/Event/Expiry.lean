import ServiceManager.Event.TimerIds

namespace ServiceManager.Event

open Trace

/-- The pass over the signals is yet to look at that of the timers. -/
def Stage.Underway : Stage → Prop
  | .clearFired true | .signals | .clearAlarm => True
  | _ => False

/-- The pass over the timers is yet to look at this one. -/
def Stage.Ahead (timID : Nat) : Stage → Prop
  | .timer i => i ≤ timID
  | .timerEvent i _ => i < timID
  | _ => False

/-- No pass is being made. -/
def Stage.Over : Stage → Prop
  | .outside | .sigfired | .runpoll | .fds _ | .fdEvent _ | .test => True
  | _ => False

theorem Stage.Over.not_underway {stage : Stage} (h : stage.Over) : ¬stage.Underway := by
  cases stage <;> simp [Over, Underway] at h ⊢

theorem Stage.Over.not_ahead {stage : Stage} {timID : Nat} (h : stage.Over) : ¬stage.Ahead timID := by
  cases stage <;> simp [Over, Ahead] at h ⊢

/-- The signal of a live timer has arrived. -/
def Machine.Pending (s : Machine) (id reg : Nat) : Prop :=
  s.hist.live id = some reg ∧ (s.loop.timers id).fired = true

/-- The timer that has its entry freed is no longer pending, and others are as before. -/
theorem Machine.pending_freeTimer {s : Machine} {timID id reg : Nat} (h : (s.freeTimer timID).Pending id reg) :
    id ≠ timID ∧ s.Pending id reg := by
  obtain ⟨hlive, hfired⟩ := h
  have hne : id ≠ timID := by
    rintro rfl
    simp [freeTimer, History.free] at hlive
  refine ⟨hne, ?_, ?_⟩
  · exact (Function.update_of_ne hne _ _).symm.trans hlive
  · have hsame : (s.freeTimer timID).loop.timers id = s.loop.timers id := Function.update_of_ne hne _ _
    rw [← hsame]
    exact hfired

/-- `loop` knows of each timer that has expired. -/
structure Machine.Noticed (s : Machine) : Prop where
  alarm : ∀ id reg, s.Pending id reg → s.alarmFired = true ∨ s.stage.Ahead id
  signal : s.alarmFired = true → s.signalFired = true ∨ s.stage.Underway
  down : s.stage = .clearFired false → s.alarmFired = false
  due : ∀ id reg, s.Pending id reg → reg ∈ s.hist.due → s.stage.Underway ∨ s.stage.Ahead id

/-- What has become of the timers is what the driver has done about them. -/
structure Machine.Recorded (s : Machine) : Prop where
  given_lt : ∀ e ∈ s.hist.given, e.1 < s.hist.regs
  given_once : (s.hist.given.map Prod.fst).Nodup
  live_given : ∀ id reg, s.hist.live id = some reg → (reg, id) ∈ s.hist.given
  expired_lt : ∀ reg ∈ s.hist.expired, reg < s.hist.regs
  fired_iff : ∀ id reg, s.hist.live id = some reg → ((s.loop.timers id).fired = true ↔ reg ∈ s.hist.expired)
  told : ∀ e ∈ s.hist.events, e ∈ s.hist.given ∧ e.1 ∈ s.hist.expired ∧ e.1 ∉ s.hist.deleted ∧
    ∀ id, s.hist.live id ≠ some e.1
  told_once : (s.hist.events.map Prod.fst).Nodup
  gone : ∀ reg ∈ s.hist.deleted, reg < s.hist.regs ∧ ∀ id, s.hist.live id ≠ some reg
  accounted : ∀ reg ∈ s.hist.expired,
    (∃ id, s.hist.live id = some reg) ∨ reg ∈ s.hist.deleted ∨ ∃ id, (reg, id) ∈ s.hist.events
  due_expired : ∀ reg ∈ s.hist.due, reg ∈ s.hist.expired

/-- The signal of a timer does not arrive between the read of `signalFired` that finds it down
and the write that takes it down. -/
def Move.Seen (s : Machine) : Move → Prop
  | .expire _ => s.stage ≠ .clearFired false
  | _ => True

section Recorded

variable {s s' : Machine} {a : Move}

namespace Machine.Recorded

variable (h : s.Recorded)

include h

/-- What happens to no timer. -/
theorem same {regs : Nat} {due : List Nat} (hhist : s'.hist = { s.hist with regs, due }) (hregs : s.hist.regs ≤ regs)
    (hdue : ∀ reg ∈ due, reg ∈ s.hist.expired)
    (hfired : ∀ id reg, s.hist.live id = some reg → (s'.loop.timers id).fired = (s.loop.timers id).fired) :
    s'.Recorded := by
  rcases s' with ⟨loop', signalFired', alarmFired', stage', hist', erasedTwice'⟩
  obtain rfl : hist' = _ := hhist
  refine ⟨fun e he => Nat.lt_of_lt_of_le (h.given_lt e he) hregs, h.given_once, h.live_given,
    fun reg hreg => Nat.lt_of_lt_of_le (h.expired_lt reg hreg) hregs, fun id reg hlive => ?_, h.told, h.told_once,
    fun reg hreg => ⟨Nat.lt_of_lt_of_le (h.gone reg hreg).1 hregs, (h.gone reg hreg).2⟩, h.accounted, hdue⟩
  rw [hfired id reg hlive]
  exact h.fired_iff id reg hlive

/-- A new timer has an entry that is not marked. -/
theorem added {entryId : Nat} (hfree : s.hist.live entryId = none) (hhist : s'.hist = s.hist.add entryId)
    (htimers : s'.loop.timers = Function.update s.loop.timers entryId { valid := true, fired := false }) :
    s'.Recorded := by
  have hadd : s'.hist = { s.hist with
      regs := s.hist.regs + 1
      given := s.hist.given ++ [(s.hist.regs, entryId)]
      live := Function.update s.hist.live entryId (some s.hist.regs) } := by
    rw [hhist, History.add, if_pos (Int.natCast_nonneg entryId), Int.toNat_natCast]
  rcases s' with ⟨loop', signalFired', alarmFired', stage', hist', erasedTwice'⟩
  obtain rfl : hist' = _ := hadd
  have hnew : ∀ {reg : Nat}, reg < s.hist.regs → (∀ id, s.hist.live id ≠ some reg) →
      ∀ id, Function.update s.hist.live entryId (some s.hist.regs) id ≠ some reg := by
    intro reg hlt hnot id
    by_cases heq : id = entryId
    · rw [heq, Function.update_self]
      exact fun hsome => Nat.ne_of_gt hlt (Option.some.inj hsome)
    · rw [Function.update_of_ne heq]
      exact hnot id
  constructor
  case given_lt =>
    intro e he
    rcases List.mem_append.mp he with he | he
    · exact Nat.lt_succ_of_lt (h.given_lt e he)
    · rw [List.mem_singleton.mp he]
      exact Nat.lt_succ_self _
  case given_once =>
    change ((s.hist.given ++ [(s.hist.regs, entryId)]).map Prod.fst).Nodup
    rw [List.map_append, List.nodup_append']
    refine ⟨h.given_once, by simp, fun reg hreg hmem => ?_⟩
    obtain ⟨e, he, rfl⟩ := List.mem_map.mp hreg
    exact Nat.ne_of_lt (h.given_lt e he) (by simpa using hmem)
  case live_given =>
    intro id reg hlive
    change Function.update s.hist.live entryId (some s.hist.regs) id = some reg at hlive
    by_cases heq : id = entryId
    · rw [heq, Function.update_self] at hlive
      rw [heq, ← Option.some.inj hlive]
      exact List.mem_append_right _ (List.mem_singleton_self _)
    · rw [Function.update_of_ne heq] at hlive
      exact List.mem_append_left _ (h.live_given id reg hlive)
  case expired_lt => exact fun reg hreg => Nat.lt_succ_of_lt (h.expired_lt reg hreg)
  case fired_iff =>
    intro id reg hlive
    change Function.update s.hist.live entryId (some s.hist.regs) id = some reg at hlive
    change (loop'.timers id).fired = true ↔ reg ∈ s.hist.expired
    rw [show loop'.timers = _ from htimers]
    by_cases heq : id = entryId
    · rw [heq, Function.update_self] at hlive
      rw [heq, Function.update_self, ← Option.some.inj hlive]
      exact iff_of_false Bool.false_ne_true fun hmem => Nat.lt_irrefl _ (h.expired_lt _ hmem)
    · rw [Function.update_of_ne heq] at hlive ⊢
      exact h.fired_iff id reg hlive
  case told =>
    intro e he
    obtain ⟨hgiven, hexpired, hdeleted, hlive⟩ := h.told e he
    exact ⟨List.mem_append_left _ hgiven, hexpired, hdeleted, hnew (h.expired_lt _ hexpired) hlive⟩
  case told_once => exact h.told_once
  case gone =>
    intro reg hreg
    obtain ⟨hlt, hlive⟩ := h.gone reg hreg
    exact ⟨Nat.lt_succ_of_lt hlt, hnew hlt hlive⟩
  case accounted =>
    intro reg hreg
    refine (h.accounted reg hreg).imp_left ?_
    rintro ⟨id, hlive⟩
    have hne : id ≠ entryId := by
      rintro rfl
      rw [hfree] at hlive
      cases hlive
    exact ⟨id, (Function.update_of_ne hne _ _).trans hlive⟩
  case due_expired => exact h.due_expired

/-- A timer that is deleted leaves the record, and its entry is cleared. -/
theorem deleted (entryID : Nat) (htidy : s.Tidy) : (s.perform (.delTimer entryID)).Recorded := by
  have hmem : ∀ {reg : Nat}, reg ∈ s.hist.deleted ++ (s.hist.live entryID).toList →
      reg ∈ s.hist.deleted ∨ s.hist.live entryID = some reg := by
    intro reg hreg
    rw [List.mem_append, Option.mem_toList] at hreg
    exact hreg
  constructor
  case given_lt => exact h.given_lt
  case given_once => exact h.given_once
  case live_given => exact fun id reg hlive => h.live_given id reg (live_of_update_none hlive).2
  case expired_lt => exact h.expired_lt
  case fired_iff =>
    intro id reg hlive
    obtain ⟨hne, hlive⟩ := live_of_update_none hlive
    change (Function.update s.loop.timers entryID {} id).fired = true ↔ reg ∈ s.hist.expired
    rw [Function.update_of_ne hne]
    exact h.fired_iff id reg hlive
  case told =>
    intro e he
    obtain ⟨hgiven, hexpired, hdeleted, hlive⟩ := h.told e he
    refine ⟨hgiven, hexpired, fun hdel => ?_, fun id hid => hlive id (live_of_update_none hid).2⟩
    exact (hmem hdel).elim hdeleted (hlive entryID)
  case told_once => exact h.told_once
  case gone =>
    intro reg hreg
    rcases hmem hreg with hdel | hlive
    · exact ⟨(h.gone reg hdel).1, fun id hid => (h.gone reg hdel).2 id (live_of_update_none hid).2⟩
    · refine ⟨htidy.sources.live_lt hlive, fun id hid => ?_⟩
      obtain ⟨hne, hid⟩ := live_of_update_none hid
      exact hne (htidy.sources.live_unique hlive hid)
  case accounted =>
    intro reg hreg
    rcases h.accounted reg hreg with ⟨id, hlive⟩ | hdel | htold
    · by_cases heq : id = entryID
      · subst heq
        refine Or.inr (Or.inl (List.mem_append_right _ ?_))
        rw [Option.mem_toList]
        exact hlive
      · exact Or.inl ⟨id, (Function.update_of_ne heq _ _).trans hlive⟩
    · exact Or.inr (Or.inl (List.mem_append_left _ hdel))
    · exact Or.inr (Or.inr htold)
  case due_expired => exact h.due_expired

/-- The signal of an expiry marks the entry and is on record. -/
theorem expired {reg id : Nat} (htidy : s.Tidy) (hlive : s.hist.live id = some reg) (hnew : reg ∉ s.hist.expired) :
    (s.sigHandler reg id).Recorded := by
  constructor
  case given_lt => exact h.given_lt
  case given_once => exact h.given_once
  case live_given => exact h.live_given
  case expired_lt =>
    intro reg' hreg
    rcases List.mem_append.mp hreg with hreg | hreg
    · exact h.expired_lt reg' hreg
    · rw [List.mem_singleton.mp hreg]
      exact htidy.sources.live_lt hlive
  case fired_iff =>
    intro id' reg' hlive'
    change (Function.update s.loop.timers id _ id').fired = true ↔ reg' ∈ s.hist.expired ++ [reg]
    by_cases heq : id' = id
    · subst heq
      obtain rfl : reg = reg' := Option.some.inj (hlive.symm.trans hlive')
      rw [Function.update_self]
      simp
    · have hne : reg' ≠ reg := by
        rintro rfl
        exact heq (htidy.sources.live_unique hlive hlive')
      rw [Function.update_of_ne heq, h.fired_iff id' reg' hlive', List.mem_append, List.mem_singleton, or_iff_left hne]
  case told =>
    intro e he
    obtain ⟨hgiven, hexpired, hrest⟩ := h.told e he
    exact ⟨hgiven, List.mem_append_left _ hexpired, hrest⟩
  case told_once => exact h.told_once
  case gone => exact h.gone
  case accounted =>
    intro reg' hreg
    rcases List.mem_append.mp hreg with hreg | hreg
    · exact h.accounted reg' hreg
    · rw [List.mem_singleton.mp hreg]
      exact Or.inl ⟨id, hlive⟩
  case due_expired => exact fun reg' hreg => List.mem_append_left _ (h.due_expired reg' hreg)

/-- The handler of a timer that has expired is called. -/
theorem fired {timID : Nat} {it : TimerSource} (htidy : s.Tidy) (hid : it.id = timID)
    (hlive : s.hist.live timID = some it.handler) (hfires : s.fires timID = true)
    (hhist : s'.hist = (s.hist.free timID).tell it)
    (htimers : s'.loop.timers = Function.update s.loop.timers timID {}) :
    s'.Recorded := by
  rcases s' with ⟨loop', signalFired', alarmFired', stage', hist', erasedTwice'⟩
  obtain rfl : hist' = _ := hhist
  have hexpired : it.handler ∈ s.hist.expired :=
    (h.fired_iff timID it.handler hlive).mp (Bool.and_eq_true_iff.mp hfires).2
  have hnottold : it.handler ∉ s.hist.events.map Prod.fst := by
    intro hmem
    obtain ⟨e, he, heq⟩ := List.mem_map.mp hmem
    exact (h.told e he).2.2.2 timID (heq ▸ hlive)
  constructor
  case given_lt => exact h.given_lt
  case given_once => exact h.given_once
  case live_given => exact fun id reg hlive' => h.live_given id reg (live_of_update_none hlive').2
  case expired_lt => exact h.expired_lt
  case fired_iff =>
    intro id reg hlive'
    obtain ⟨hne, hlive'⟩ := live_of_update_none hlive'
    change (loop'.timers id).fired = true ↔ reg ∈ s.hist.expired
    rw [show loop'.timers = _ from htimers, Function.update_of_ne hne]
    exact h.fired_iff id reg hlive'
  case told =>
    intro e he
    rcases List.mem_append.mp he with he | he
    · obtain ⟨hgiven, hexp, hdel, hnot⟩ := h.told e he
      exact ⟨hgiven, hexp, hdel, fun id hid => hnot id (live_of_update_none hid).2⟩
    · rw [List.mem_singleton.mp he]
      refine ⟨?_, hexpired, fun hdel => (h.gone _ hdel).2 timID hlive, fun id hid' => ?_⟩
      · rw [hid]
        exact h.live_given timID it.handler hlive
      · obtain ⟨hne, hid'⟩ := live_of_update_none hid'
        exact hne (htidy.sources.live_unique hlive hid')
  case told_once =>
    change ((s.hist.events ++ [(it.handler, it.id)]).map Prod.fst).Nodup
    rw [List.map_append, List.nodup_append']
    refine ⟨h.told_once, by simp, fun reg hreg hmem => hnottold ?_⟩
    obtain rfl : reg = it.handler := List.mem_singleton.mp hmem
    exact hreg
  case gone => exact fun reg hreg =>
    ⟨(h.gone reg hreg).1, fun id hid => (h.gone reg hreg).2 id (live_of_update_none hid).2⟩
  case accounted =>
    intro reg hreg
    rcases h.accounted reg hreg with ⟨id, hlive'⟩ | hdel | ⟨id, htold⟩
    · by_cases heq : id = timID
      · subst heq
        obtain rfl : it.handler = reg := Option.some.inj (hlive.symm.trans hlive')
        exact Or.inr (Or.inr ⟨it.id, List.mem_append_right _ (List.mem_singleton_self _)⟩)
      · exact Or.inl ⟨id, (Function.update_of_ne heq _ _).trans hlive'⟩
    · exact Or.inr (Or.inl hdel)
    · exact Or.inr (Or.inr ⟨id, List.mem_append_left _ htold⟩)
  case due_expired => exact h.due_expired

theorem request (htidy : s.Tidy) (r : Request) (hsafe : (Move.request r).Safe s) : (s.perform r).Recorded := by
  cases r with
  | addFD r realloc emplaced =>
    refine h.same rfl (Nat.le_refl _) h.due_expired fun id reg _ => ?_
    simp [perform]
  | delFD fd =>
    refine h.same rfl (Nat.le_refl _) h.due_expired fun id reg _ => ?_
    simp [perform]
  | addTimer emplaced timer_create timer_settime =>
    rcases s.perform_addTimer emplaced timer_create timer_settime with
      ⟨entryId, hentry, _, htimers, hhist⟩ | ⟨_, htimers, hhist⟩
    · have hfree : s.hist.live entryId = none := htidy.live_of_freeEntry hsafe hentry
      exact h.added hfree hhist htimers
    · refine h.same hhist (Nat.le_succ _) h.due_expired fun id reg hlive => ?_
      rw [(htimers id).2 (htidy.valid_of_live hlive)]
  | delTimer entryID => exact h.deleted entryID htidy

/-- By the kinds of steps. -/
theorem step (htidy : s.Tidy) (hsafe : a.Safe s) (hstep : Step s a s') : s'.Recorded := by
  cases hstep with
  | request r hcalls => exact h.request htidy r hsafe
  | expire hlive hnew => exact h.expired htidy hlive hnew
  | others beyond =>
    refine h.same rfl (Nat.le_refl _) h.due_expired fun id reg hlive => ?_
    rw [timers_overwrite (htidy.live_lt id reg hlive)]
  | loop hpass =>
    rcases hpass.cases with hsame | ⟨timID, it, hstage, hlt, hfires, hfind, rfl⟩ |
      ⟨timID, hstage, hlt, hfires, hfind, _⟩ | ⟨timID, it, hstage, rfl⟩
    · obtain ⟨due, hhist, hdue⟩ := hsame.hist
      refine h.same hhist (Nat.le_refl _) (fun reg hreg => ?_) fun id reg _ => by rw [hsame.timers]
      rcases hdue with rfl | rfl
      · exact h.due_expired reg hreg
      · exact hreg
    · have hnone : s.stage.running = none := by
        rw [hstage]
        rfl
      obtain ⟨hid, hlive, _⟩ := htidy.fire hnone hfind
      exact h.fired htidy hid hlive hfires rfl rfl
    · exact absurd hfind (htidy.find?_isSome hlt hfires)
    · exact h.same rfl (Nat.le_refl _) h.due_expired fun _ _ _ => rfl

end Machine.Recorded

end Recorded

section Noticed

variable {s s' : Machine} {a : Move}

namespace Machine.Noticed

variable (h : s.Noticed)

include h

/-- A step that raises and takes down no flag, and loses no timer from sight. -/
theorem move (halarm : s'.alarmFired = s.alarmFired) (hsignal : s'.signalFired = s.signalFired)
    (hdue : s'.hist.due = s.hist.due) (hpending : ∀ id reg, s'.Pending id reg → s.Pending id reg)
    (hdown : s'.stage = .clearFired false → s.stage = .clearFired false)
    (hunderway : s.stage.Underway → s'.stage.Underway)
    (hahead : ∀ id reg, s'.Pending id reg → s.stage.Ahead id → s'.stage.Ahead id) : s'.Noticed where
  alarm := by
    intro id reg hp
    rw [halarm]
    exact (h.alarm id reg (hpending id reg hp)).imp_right (hahead id reg hp)
  signal := by
    rw [halarm, hsignal]
    exact fun hfired => (h.signal hfired).imp_right hunderway
  down := by
    rw [halarm]
    exact fun hstage => h.down (hdown hstage)
  due := by
    intro id reg hp hmem
    rw [hdue] at hmem
    exact (h.due id reg (hpending id reg hp) hmem).imp hunderway (hahead id reg hp)

/-- A call by a handler, or by the one who calls `loop`. -/
theorem same (halarm : s'.alarmFired = s.alarmFired) (hsignal : s'.signalFired = s.signalFired)
    (hdue : s'.hist.due = s.hist.due) (hstage : s'.stage = s.stage)
    (hpending : ∀ id reg, s'.Pending id reg → s.Pending id reg) : s'.Noticed := by
  refine h.move halarm hsignal hdue hpending ?_ ?_ ?_
  · rw [hstage]
    exact id
  · rw [hstage]
    exact id
  · rw [hstage]
    exact fun _ _ _ hahead => hahead

/-- Steps outside of a pass. -/
theorem moveOver (halarm : s'.alarmFired = s.alarmFired) (hsignal : s'.signalFired = s.signalFired)
    (hdue : s'.hist.due = s.hist.due) (hpending : ∀ id reg, s'.Pending id reg → s.Pending id reg)
    (hover : s.stage.Over) (hover' : s'.stage.Over) : s'.Noticed := by
  refine h.move halarm hsignal hdue hpending (fun hdown => ?_) (fun hunderway => ?_) (fun id reg _ hahead => ?_)
  · rw [hdown] at hover'
    exact hover'.elim
  · exact absurd hunderway hover.not_underway
  · exact absurd hahead hover.not_ahead

/-- Steps from one of the timers to the next. -/
theorem moveAhead (halarm : s'.alarmFired = s.alarmFired) (hsignal : s'.signalFired = s.signalFired)
    (hdue : s'.hist.due = s.hist.due) (hpending : ∀ id reg, s'.Pending id reg → s.Pending id reg)
    (hunderway : ¬s.stage.Underway) (hdown : s'.stage ≠ .clearFired false)
    (hahead : ∀ id reg, s'.Pending id reg → s.stage.Ahead id → s'.stage.Ahead id) : s'.Noticed := by
  refine h.move halarm hsignal hdue hpending ?_ ?_ hahead
  · exact fun hstage => absurd hstage hdown
  · exact fun hstage => absurd hstage hunderway

/-- No request of a callback loses an expiry that is marked. -/
theorem request (htidy : s.Tidy) (r : Request) (hsafe : (Move.request r).Safe s) : (s.perform r).Noticed := by
  cases r with
  | addFD r realloc emplaced =>
    refine h.same rfl rfl rfl rfl fun id reg hp => ?_
    obtain ⟨hlive, hfired⟩ := hp
    simp only [perform, PollLoop.timers_addFD] at hfired
    exact ⟨hlive, hfired⟩
  | delFD fd =>
    refine h.same rfl rfl rfl rfl fun id reg hp => ?_
    obtain ⟨hlive, hfired⟩ := hp
    simp only [perform, PollLoop.timers_delFD] at hfired
    exact ⟨hlive, hfired⟩
  | addTimer emplaced timer_create timer_settime =>
    rcases s.perform_addTimer emplaced timer_create timer_settime with
      ⟨entryId, hentry, _, htimers, hhist⟩ | ⟨_, htimers, hhist⟩
    · have hdue : (s.hist.add entryId).due = s.hist.due := by simp [History.add]
      refine h.same rfl rfl ((congrArg History.due hhist).trans hdue) rfl fun id reg hp => ?_
      obtain ⟨hlive, hfired⟩ := hp
      rw [hhist, History.live_add] at hlive
      rw [htimers] at hfired
      by_cases heq : id = entryId
      · rw [heq, Function.update_self] at hfired
        cases hfired
      · rw [Function.update_of_ne heq] at hlive hfired
        exact ⟨hlive, hfired⟩
    · have hdue : (s.perform (.addTimer emplaced timer_create timer_settime)).hist.due = s.hist.due := by
        rw [hhist]
      refine h.same rfl rfl hdue rfl fun id reg hp => ?_
      obtain ⟨hlive, hfired⟩ := hp
      rw [hhist] at hlive
      rw [(htimers id).2 (htidy.valid_of_live hlive)] at hfired
      exact ⟨hlive, hfired⟩
  | delTimer entryID =>
    refine h.same rfl rfl rfl rfl fun id reg hp => ?_
    obtain ⟨hlive, hfired⟩ := hp
    obtain ⟨hne, hlive⟩ := live_of_update_none hlive
    change (Function.update s.loop.timers entryID {} id).fired = true at hfired
    rw [Function.update_of_ne hne] at hfired
    exact ⟨hlive, hfired⟩

theorem expire (hdue : ∀ reg ∈ s.hist.due, reg ∈ s.hist.expired) {reg id : Nat} (hlive : s.hist.live id = some reg)
    (hnew : reg ∉ s.hist.expired) (hseen : s.stage ≠ .clearFired false) : (s.sigHandler reg id).Noticed where
  alarm := fun _ _ _ => Or.inl rfl
  signal := fun _ => Or.inl rfl
  down := fun hdown => absurd hdown hseen
  due := by
    intro id' reg' hp hmem
    have hlive' : s.hist.live id' = some reg' := hp.1
    have hne : id' ≠ id := by
      rintro rfl
      obtain rfl : reg = reg' := Option.some.inj (hlive.symm.trans hlive')
      exact hnew (hdue reg hmem)
    have hsame : (s.sigHandler reg id).loop.timers id' = s.loop.timers id' := Function.update_of_ne hne _ _
    have hfired : (s.loop.timers id').fired = true := by
      rw [← hsame]
      exact hp.2
    exact h.due id' reg' ⟨hlive', hfired⟩ hmem

theorem others (htidy : s.Tidy) (beyond : Nat → TimerEntry) :
    (s.overwrite beyond).Noticed := by
  refine h.same rfl rfl rfl rfl fun id reg hp => ?_
  obtain ⟨hlive, hfired⟩ := hp
  rw [timers_overwrite (htidy.live_lt id reg hlive)] at hfired
  exact ⟨hlive, hfired⟩

theorem not_pending (halarm : s.alarmFired = false) (hahead : ∀ id, ¬s.stage.Ahead id) {id reg : Nat} :
    ¬s.Pending id reg := by
  intro hp
  rcases h.alarm id reg hp with hfired | hfound
  · rw [halarm] at hfired
    cases hfired
  · exact hahead id hfound

/-- Where no timer is to be seen to, none is after a step that raises no flag. -/
theorem quiet (halarm : s.alarmFired = false) (hahead : ∀ id, ¬s.stage.Ahead id) (halarm' : s'.alarmFired = false)
    (hpending : ∀ id reg, s'.Pending id reg → s.Pending id reg) (hstage : s'.stage ≠ .clearFired false) :
    s'.Noticed where
  alarm := fun id reg hp => absurd (hpending id reg hp) (h.not_pending halarm hahead)
  signal := fun hfired => absurd (halarm'.symm.trans hfired) Bool.false_ne_true
  down := fun hdown => absurd hdown hstage
  due := fun id reg hp _ => absurd (hpending id reg hp) (h.not_pending halarm hahead)

theorem readFired (hover : s.stage.Over) :
    Machine.Noticed { s with hist.due := s.hist.expired, stage := .clearFired s.signalFired } := by
  have hsignal : s.alarmFired = true → s.signalFired = true :=
    fun hfired => (h.signal hfired).resolve_right hover.not_underway
  have hall : ∀ id reg, s.Pending id reg → s.alarmFired = true :=
    fun id reg hp => (h.alarm id reg hp).resolve_right hover.not_ahead
  refine ⟨fun id reg hp => Or.inl (hall id reg hp), fun hfired => Or.inl (hsignal hfired), fun hdown => ?_,
    fun id reg hp _ => Or.inl ?_⟩
  · have hfalse : s.signalFired = false := Stage.clearFired.inj hdown
    by_contra hfired
    have htrue := hsignal (Bool.eq_true_of_not_eq_false hfired)
    rw [hfalse] at htrue
    cases htrue
  · change Stage.Underway (.clearFired s.signalFired)
    rw [hsignal (hall id reg hp)]
    trivial

theorem timersDone (htidy : s.Tidy) {timID : Nat} (hstage : s.stage = .timer timID) (hle : 255 ≤ timID) :
    (s.goto .runpoll).Noticed := by
  have hpassed : ∀ id reg, s.Pending id reg → ¬s.stage.Ahead id := by
    intro id reg hp hahead
    rw [hstage] at hahead
    have hlt := htidy.live_lt id reg hp.1
    have hle' : timID ≤ id := hahead
    omega
  refine ⟨fun id reg hp => Or.inl ((h.alarm id reg hp).resolve_right (hpassed id reg hp)), fun hfired => ?_,
    fun hdown => ?_,
    fun id reg hp hmem => ?_⟩
  · refine Or.inl ((h.signal hfired).resolve_right ?_)
    rw [hstage]
    exact id
  · cases hdown
  · rcases h.due id reg hp hmem with hunderway | hahead
    · rw [hstage] at hunderway
      exact hunderway.elim
    · exact absurd hahead (hpassed id reg hp)

/-- By the stages of the loop: an entry that is marked is still ahead, or the flag is set. -/
theorem pass (htidy : s.Tidy) (hpass : Pass s s') : s'.Noticed := by
  cases hpass with
  | enter hstage =>
    refine h.moveOver rfl rfl rfl (fun _ _ hp => hp) ?_ trivial
    rw [hstage]
    trivial
  | readFired hstage =>
    apply h.readFired
    rw [hstage]
    trivial
  | @clearFired old hstage =>
    have hahead : ∀ id, ¬s.stage.Ahead id := by
      rw [hstage]
      exact fun _ => id
    cases old with
    | true =>
      refine ⟨fun id reg hp => Or.inl ((h.alarm id reg hp).resolve_right (hahead id)), fun _ => Or.inr trivial, ?_,
        fun _ _ _ _ => Or.inl trivial⟩
      rintro ⟨⟩
    | false => exact h.quiet (h.down hstage) hahead (h.down hstage) (fun _ _ hp => hp) nofun
  | look hstage =>
    have hahead : ∀ id, ¬s.stage.Ahead id := by
      rw [hstage]
      exact fun _ => id
    cases halarm : s.alarmFired with
    | true =>
      refine ⟨fun _ _ _ => Or.inl halarm, fun _ => Or.inr ?_, fun hdown => ?_, fun _ _ _ _ => Or.inl ?_⟩
      · trivial
      · cases hdown
      · trivial
    | false => exact h.quiet halarm hahead halarm (fun _ _ hp => hp) nofun
  | clearAlarm hstage =>
    refine ⟨fun id _ _ => Or.inr (Nat.zero_le id), fun hfired => ?_, fun hdown => ?_,
      fun id _ _ _ => Or.inr (Nat.zero_le id)⟩
    · cases hfired
    · cases hdown
  | @timer timID hstage hlt hfires =>
    have hunderway : ¬s.stage.Underway := by
      rw [hstage]
      exact id
    refine h.moveAhead rfl rfl rfl (fun _ _ hp => hp) hunderway nofun fun id reg hp hahead => ?_
    rw [hstage] at hahead
    have hlive : s.hist.live id = some reg := hp.1
    have hvalid : (s.loop.timers id).valid = true := htidy.valid_of_live hlive
    have hne : timID ≠ id := by
      rintro rfl
      rw [fires, hvalid, show (s.loop.timers timID).fired = true from hp.2] at hfires
      cases hfires
    exact Nat.lt_of_le_of_ne hahead hne
  | @timerEvent timID it hstage hlt hfires hfind =>
    have hunderway : ¬s.stage.Underway := by
      rw [hstage]
      exact id
    refine h.moveAhead rfl rfl rfl (fun _ _ hp => (pending_freeTimer hp).2) hunderway nofun fun id reg hp hahead => ?_
    rw [hstage] at hahead
    exact Nat.lt_of_le_of_ne hahead (Ne.symm (pending_freeTimer hp).1)
  | timerUnknown hstage hlt hfires hfind => exact absurd hfind (htidy.find?_isSome hlt hfires)
  | @timerReturn timID it hstage =>
    have hunderway : ¬s.stage.Underway := by
      rw [hstage]
      exact id
    refine h.moveAhead rfl rfl rfl (fun _ _ hp => hp) hunderway nofun fun id reg hp hahead => ?_
    rw [hstage] at hahead
    exact hahead
  | timersDone hstage hle => exact h.timersDone htidy hstage hle
  | poll revents hstage | skipPoll hstage =>
    refine h.moveOver rfl rfl rfl (fun _ _ hp => hp) ?_ trivial
    rw [hstage]
    trivial
  | fd hstage | fdUnknown hstage | fdEvent hstage | fdReturn hstage | fdsDone hstage =>
    refine h.moveOver rfl rfl rfl (fun _ _ hp => hp) ?_ trivial
    rw [hstage]
    trivial
  | test hstage =>
    refine h.moveOver rfl rfl rfl (fun _ _ hp => hp) ?_ ?_
    · rw [hstage]
      trivial
    · dsimp only [goto]
      split <;> trivial

theorem step (htidy : s.Tidy) (hrecorded : s.Recorded) (hsafe : a.Safe s) (hseen : a.Seen s) (hstep : Step s a s') :
    s'.Noticed := by
  cases hstep with
  | request r hcalls => exact h.request htidy r hsafe
  | expire hlive hnew => exact h.expire hrecorded.due_expired hlive hnew hseen
  | others beyond => exact h.others htidy beyond
  | loop hpass => exact h.pass htidy hpass

end Machine.Noticed

end Noticed

/-- Each timer that expires without having been deleted gets one `timerEvent`, with its
identifier: it has had it once the pass that began after it expired is over, and where it has
not had it, it is known that there is to be another pass. No source is erased twice; and
between calls of `loop` the sources are those of the valid entries of the table, each once. -/
structure Machine.Orderly (s : Machine) : Prop where
  given_once : (s.hist.given.map Prod.fst).Nodup
  told : ∀ e ∈ s.hist.events, e ∈ s.hist.given ∧ e.1 ∈ s.hist.expired ∧ e.1 ∉ s.hist.deleted
  told_once : (s.hist.events.map Prod.fst).Nodup
  served : s.stage.Over → ∀ reg ∈ s.hist.due, reg ∉ s.hist.deleted → ∃ id, (reg, id) ∈ s.hist.events
  known : s.stage.Over → ∀ reg ∈ s.hist.expired, reg ∉ s.hist.deleted →
    (∃ id, (reg, id) ∈ s.hist.events) ∨ s.signalFired = true
  erased : s.erasedTwice = false
  ids : s.stage = .outside → (s.loop.timerSources.map TimerSource.id).Nodup
  table : s.stage = .outside → ∀ id,
    (∃ src ∈ s.loop.timerSources, src.id = id) ↔ id < 255 ∧ (s.loop.timers id).valid = true

/-- What the driver keeps to. -/
structure Machine.Kept (s : Machine) : Prop where
  tidy : s.Tidy
  recorded : s.Recorded
  noticed : s.Noticed
  erased : s.erasedTwice = false

namespace Machine.Kept

variable {s s' : Machine} {a : Move} {trace : List (Machine × Move)}

theorem start (pipe nPFDs : Int) (pFDs : Nat → Option Pollfd) (block : Block) :
    (Machine.start pipe nPFDs pFDs block).Kept where
  tidy := Machine.Tidy.start pipe nPFDs pFDs block
  recorded := by
    constructor <;> simp [Machine.start]
  noticed := by
    constructor <;> simp [Machine.start, Pending]
  erased := rfl

section Step

variable (h : s.Kept)

include h

theorem erased_step (hstep : Step s a s') : s'.erasedTwice = false := by
  cases hstep with
  | request r =>
    cases r <;> exact h.erased
  | expire => exact h.erased
  | others => exact h.erased
  | loop hpass =>
    rcases hpass.cases with hsame | ⟨timID, it, hstage, hlt, hfires, hfind, rfl⟩ |
      ⟨timID, hstage, hlt, hfires, hfind, rfl⟩ | ⟨timID, it, hstage, rfl⟩
    · exact hsame.erased.trans h.erased
    · exact h.erased
    · exact h.erased
    · have hmem : it ∈ s.loop.timerSources := by
        refine h.tidy.sources.running_mem it ?_
        rw [hstage]
        rfl
      simp [goto, eraseTimer, h.erased, hmem]

theorem step (hsafe : a.Safe s) (hseen : a.Seen s) (hstep : Step s a s') : s'.Kept where
  tidy := h.tidy.step hsafe hstep
  recorded := h.recorded.step h.tidy hsafe hstep
  noticed := h.noticed.step h.tidy h.recorded hsafe hseen hstep
  erased := h.erased_step hstep

/-- A timer that has expired has had its call, unless its signal is still pending. -/
theorem told_of_not_pending {reg : Nat} (hexpired : reg ∈ s.hist.expired) (hdeleted : reg ∉ s.hist.deleted)
    (hpending : ∀ id, ¬s.Pending id reg) : ∃ id, (reg, id) ∈ s.hist.events := by
  rcases h.recorded.accounted reg hexpired with ⟨id, hlive⟩ | hdel | htold
  · exact absurd ⟨hlive, (h.recorded.fired_iff id reg hlive).mpr hexpired⟩ (hpending id)
  · exact absurd hdel hdeleted
  · exact htold

/-- The invariants together say that the timers behave. -/
theorem orderly : s.Orderly where
  given_once := h.recorded.given_once
  told := fun e he => ⟨(h.recorded.told e he).1, (h.recorded.told e he).2.1, (h.recorded.told e he).2.2.1⟩
  told_once := h.recorded.told_once
  served := by
    intro hover reg hdue hdeleted
    refine h.told_of_not_pending (h.recorded.due_expired reg hdue) hdeleted fun id hp => ?_
    exact (h.noticed.due id reg hp hdue).elim hover.not_underway hover.not_ahead
  known := by
    intro hover reg hexpired hdeleted
    by_cases hsignal : s.signalFired = true
    · exact Or.inr hsignal
    · refine Or.inl (h.told_of_not_pending hexpired hdeleted fun id hp => ?_)
      have halarm : s.alarmFired = true := (h.noticed.alarm id reg hp).resolve_right hover.not_ahead
      exact (h.noticed.signal halarm).elim hsignal hover.not_underway
  erased := h.erased
  ids := by
    intro hstage
    refine h.tidy.sources.ids ?_
    rw [hstage]
    rfl
  table := by
    intro hstage id
    have hnone : s.stage.running = none := by
      rw [hstage]
      rfl
    rw [h.tidy.sources.exists_iff hnone]
    constructor
    · intro hsome
      obtain ⟨reg, hlive⟩ := Option.isSome_iff_exists.mp hsome
      exact ⟨h.tidy.live_lt id reg hlive, h.tidy.valid_of_live hlive⟩
    · intro ⟨hlt, hvalid⟩
      exact (h.tidy.valid_iff id hlt).mp hvalid

end Step

theorem run (h : s.Kept) (hrun : Run Step s trace s') (hok : ∀ e ∈ trace, e.2.Safe e.1 ∧ e.2.Seen e.1) :
    ∀ t ∈ visited trace s', t.Kept := by
  have hstep : ∀ (s : Machine) (a : Move) (s' : Machine), s.Kept → a.Safe s ∧ a.Seen s → Step s a s' → s'.Kept :=
    fun _ _ _ h hok hstep => h.step hok.1 hok.2 hstep
  exact hrun.invariant_visited hstep h hok

end Machine.Kept

/-- Timers fire once and leave no trace, as long as they are added where there is room in the
table, no handler deletes the timer that has the identifier it was called with, and no signal
arrives while `signalFired` has been found down and is about to be taken down. -/
theorem run_orderly (pipe nPFDs : Int) (pFDs : Nat → Option Pollfd) (block : Block) (trace : List (Machine × Move))
    (s' : Machine) (hrun : Run Machine.Step (Machine.start pipe nPFDs pFDs block) trace s')
    (hok : ∀ e ∈ trace, e.2.Safe e.1 ∧ e.2.Seen e.1) : ∀ t ∈ visited trace s', t.Orderly :=
  fun t ht => ((Machine.Kept.start pipe nPFDs pFDs block).run hrun hok t ht).orderly

/-- A loop with one timer, just added. -/
def armed : Machine :=
  (Machine.start 3 0 (fun _ => none) { moved := false, beyond := fun _ => none }).perform
    (.addTimer true (.ok ()) (.ok ()))

/-- The timer has expired, and its handler is being called. -/
def firing : Machine :=
  { ((armed.sigHandler 0 0).touch [.timers 0]).freeTimer 0 with
    signalFired := false
    alarmFired := false
    hist := { (armed.hist.free 0).tell ⟨0, 0⟩ with expired := [0], due := [0] }
    stage := .timerEvent 0 ⟨0, 0⟩ }

theorem exists_run_firing :
    ∃ trace, Run Machine.Step (Machine.start 3 0 (fun _ => none)
      { moved := false, beyond := fun _ => none }) trace firing ∧
      ∀ e ∈ trace, e.2.Safe e.1 ∧ e.2.Seen e.1 ∧ ∀ id, e.2 ≠ .request (.delTimer id) := by
  refine ⟨_, .cons (.request (.addTimer true (.ok ()) (.ok ())) trivial)
    (.cons (@Machine.Step.expire _ 0 0 rfl List.not_mem_nil)
    (.cons (.loop (.enter rfl)) (.cons (.loop (.readFired rfl)) (.cons (.loop (@Machine.Pass.clearFired _ true rfl))
      (.cons (.loop (.look rfl)) (.cons (.loop (.clearAlarm rfl))
        (.single (.loop (@Machine.Pass.timerEvent _ 0 ⟨0, 0⟩ rfl (by omega) rfl rfl))))))))), ?_⟩
  simp only [List.forall_mem_cons]
  exact ⟨⟨⟨0, by omega, rfl⟩, trivial, nofun⟩, ⟨trivial, nofun, nofun⟩, ⟨trivial, trivial, nofun⟩,
    ⟨trivial, trivial, nofun⟩,
    ⟨trivial, trivial, nofun⟩, ⟨trivial, trivial, nofun⟩, ⟨trivial, trivial, nofun⟩, ⟨trivial, trivial, nofun⟩,
    fun _ h => absurd h List.not_mem_nil⟩

/-- Where no timer from `timID` on has fired, `loop` goes past them all. -/
theorem exists_run_timers {s : Machine} {timID : Nat} (hstage : s.stage = .timer timID)
    (hnone : ∀ id ≥ timID, s.fires id = false) :
    ∃ trace accesses, Run Machine.Step s trace { s with loop.accesses := accesses, stage := .runpoll } ∧
      ∀ e ∈ trace, e.2 = .loop := by
  induction hleft : 255 - timID generalizing s timID with
  | zero =>
    have hdone : Machine.Pass s (s.goto .runpoll) := .timersDone hstage (by omega)
    exact ⟨_, s.loop.accesses, .single (.loop hdone), by simp⟩
  | succ left ih =>
    have hnext : Machine.Pass s ((s.touch [.timers timID]).goto (.timer (timID + 1))) :=
      .timer hstage (by omega) (hnone timID (Nat.le_refl timID))
    obtain ⟨trace, accesses, hrun, hloop⟩ := ih (s := (s.touch [.timers timID]).goto (.timer (timID + 1))) rfl
      (fun id hid => hnone id (Nat.le_of_succ_le hid)) (by omega)
    exact ⟨_, accesses, .cons (.loop hnext) hrun, List.forall_mem_cons.mpr ⟨rfl, hloop⟩⟩

theorem firing_timers_of_ne {id : Nat} (hid : id ≠ 0) : firing.loop.timers id = {} := by
  have hstart : (Machine.start 3 0 (fun _ => none) { moved := false, beyond := fun _ => none }).loop.timers id = {} :=
    ite_self _
  have harmed : armed.loop.timers id = {} := (Function.update_of_ne hid ..).trans hstart
  have hfired : (armed.sigHandler 0 0).loop.timers id = {} := (Function.update_of_ne hid ..).trans harmed
  exact (Function.update_of_ne hid ..).trans hfired

/-- The handler returns, and so does `loop` then. -/
theorem exists_run_returned :
    ∃ trace s, Run Machine.Step firing trace s ∧ (∀ e ∈ trace, e.2 = .loop) ∧ s.stage = .outside ∧
      s.hist = firing.hist ∧ s.loop.timerSources = [] := by
  have hreturn : Machine.Pass firing ((firing.eraseTimer ⟨0, 0⟩).goto (.timer 1)) :=
    @Machine.Pass.timerReturn _ 0 ⟨0, 0⟩ rfl
  have hnone : ∀ id ≥ 1, ((firing.eraseTimer ⟨0, 0⟩).goto (.timer 1)).fires id = false := by
    intro id hid
    change ((firing.loop.timers id).valid && (firing.loop.timers id).fired) = false
    rw [firing_timers_of_ne (by omega)]
    rfl
  obtain ⟨trace, accesses, htimers, hloop⟩ := exists_run_timers rfl hnone
  exact ⟨_, _, ((Run.single (.loop hreturn)).append htimers).append
    (.cons (.loop (.skipPoll rfl)) (.cons (.loop (.fdsDone rfl (Int.le_refl 1))) (.single (.loop (.test rfl))))),
    by simpa [or_imp, forall_and] using hloop, rfl, rfl, rfl⟩

theorem run_orderly_firing : ∃ s : Machine, s.stage = .outside ∧ s.hist.events = [(0, 0)] ∧ s.loop.timerSources = [] ∧
    s.Orderly := by
  obtain ⟨trace, hrun, hok⟩ := exists_run_firing
  obtain ⟨trace', s, hreturned, hloop, hstage, hhist, hsources⟩ := exists_run_returned
  refine ⟨s, hstage, hhist ▸ rfl, hsources, run_orderly 3 0 _ _ _ _ (hrun.append hreturned) ?_ s
    (Run.end_mem_visited _ _)⟩
  rw [List.forall_mem_append]
  refine ⟨fun e he => ⟨(hok e he).1, (hok e he).2.1⟩, ?_⟩
  rintro ⟨s, a⟩ he
  obtain rfl : a = .loop := hloop _ he
  exact ⟨trivial, trivial⟩

/-- The handler adds a timer, which gets the entry that has just been freed, and deletes it:
the source that goes is that of the timer it was called for. -/
theorem run_erases_twice :
    ∃ trace s, Run Machine.Step (Machine.start 3 0 (fun _ => none)
      { moved := false, beyond := fun _ => none }) trace s ∧
      (∀ e ∈ trace, ∀ id, e.2 = .request (.delTimer id) → (e.1.hist.live id).isSome) ∧ ¬s.Orderly := by
  obtain ⟨trace, hrun, hok⟩ := exists_run_firing
  have hmore : Run Machine.Step firing _ _ :=
    .cons (.request (.addTimer true (.ok ()) (.ok ())) trivial) (.cons (.request (.delTimer 0) trivial)
      (.single (.loop (@Machine.Pass.timerReturn _ 0 ⟨0, 0⟩ rfl))))
  refine ⟨_, _, hrun.append hmore, fun e he id hdel => ?_, fun horderly => ?_⟩
  · rcases List.mem_append.mp he with he | he
    · exact absurd hdel ((hok e he).2.2 id)
    · simp only [List.mem_cons, List.not_mem_nil, or_false] at he
      rcases he with rfl | rfl | rfl
      · cases hdel
      · cases hdel
        rfl
      · cases hdel
  · cases horderly.erased

end ServiceManager.Event
