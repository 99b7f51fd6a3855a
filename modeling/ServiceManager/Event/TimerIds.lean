import ServiceManager.Event.Timers

namespace ServiceManager.Event

open Trace

/-- The KQueue driver, with its timers. -/
structure KQueueLoop where
  sources : Sources := {}
  /-- The source whose handler is being called. -/
  running : Option TimerSource := none
  hist : History := {}

inductive KQueueMove where
  | addTimer (rand : Int) (emplaced : Bool) (add : Except Errno Unit)
  | delTimer (entryID : Nat) (delete : Except Errno Unit)
  /-- `kevent` reports a timer. -/
  | event (ident : Nat)
  | handled

/-- The steps of the KQueue driver that are about timers. Calls are made from handlers too. -/
inductive KQueueLoop.Step : KQueueLoop → KQueueMove → KQueueLoop → Prop
  | addTimer {s} (rand emplaced add r sources) : s.sources.addTimer s.hist.regs rand emplaced add = some (r, sources) →
      Step s (.addTimer rand emplaced add) { s with sources, hist := s.hist.add r }
  | delTimer {s} (entryID delete) :
      Step s (.delTimer entryID delete)
        { s with sources := (s.sources.delTimer entryID delete).2, hist := s.hist.delete entryID }
  | event {s it} (ident) : s.running = none → (s.sources.timerSources.find? fun src => src.id = ident) = some it →
      Step s (.event ident) { s with running := some it, hist := s.hist.free ident }
  | unknown {s} (ident) : s.running = none → (s.sources.timerSources.find? fun src => src.id = ident) = none →
      Step s (.event ident) s
  | handled {s it} : s.running = some it →
      Step s .handled { s with running := none, sources.timerSources := s.sources.timerSources.erase it }

/-- The number that is drawn is not that of a live timer, and no handler deletes the timer
that has the identifier it is called with. -/
def KQueueMove.Safe (s : KQueueLoop) : KQueueMove → Prop
  | .addTimer rand .. => s.hist.live rand.natAbs = none
  | .delTimer entryID _ => ∀ it, s.running = some it → it.id ≠ entryID
  | _ => True

theorem Sources.addTimer_cases {s s' : Sources} {reg : Nat} {rand r : Int} {emplaced : Bool} {add : Except Errno Unit}
    (h : s.addTimer reg rand emplaced add = some (r, s')) :
    (r = rand.natAbs ∧ s' = { s with timerSources := s.timerSources ++ [{ handler := reg, id := rand.natAbs }] }) ∨
    (r < 0 ∧ s' = s) := by
  cases emplaced with
  | false =>
    cases h
    exact Or.inr ⟨neg_ENOMEM, rfl⟩
  | true =>
    cases add with
    | error errno =>
      simp only [addTimer, popBack_append, if_true, Option.map_some] at h
      cases h
      exact Or.inr ⟨Int.neg_neg_of_pos errno.property, rfl⟩
    | ok =>
      cases h
      exact Or.inl ⟨rfl, rfl⟩

theorem Sources.timerSources_delTimer {s : Sources} {entryID : Nat} {delete : Except Errno Unit} :
    (s.delTimer entryID delete).2.timerSources = s.timerSources.eraseP fun src => src.id = entryID := by
  unfold delTimer
  cases delete <;> rfl

namespace KQueueLoop

variable {s s' : KQueueLoop} {a : KQueueMove}

/-- The sources are those of the live timers. -/
def Tidy (s : KQueueLoop) : Prop :=
  LiveTimers s.running s.sources.timerSources s.hist.regs s.hist.live

theorem Tidy.step (h : s.Tidy) (hsafe : a.Safe s) (hstep : Step s a s') : s'.Tidy := by
  cases hstep with
  | addTimer rand emplaced add r sources hresult =>
    rcases Sources.addTimer_cases hresult with ⟨rfl, rfl⟩ | ⟨hneg, rfl⟩
    · change LiveTimers s.running _ (s.hist.add rand.natAbs).regs (s.hist.add rand.natAbs).live
      rw [History.regs_add, History.live_add]
      exact h.add hsafe
    · change LiveTimers s.running _ (s.hist.add r).regs (s.hist.add r).live
      rw [s.hist.add_of_neg hneg]
      exact h.skip
  | delTimer entryID delete =>
    change LiveTimers s.running (s.sources.delTimer entryID delete).2.timerSources _ _
    rw [Sources.timerSources_delTimer]
    exact h.delete hsafe
  | event ident hrunning hfind => exact (h.fire hrunning hfind).2.2
  | unknown ident hrunning hfind => exact h
  | handled hrunning => exact h.finish hrunning

end KQueueLoop

theorem Machine.Tidy.start (pipe nPFDs : Int) (pFDs : Nat → Option Pollfd) (block : Block) :
    (Machine.start pipe nPFDs pFDs block).Tidy where
  sources := LiveTimers.empty
  valid_iff := by
    intro i hi
    have hlt : i < 256 := Nat.lt_succ_of_lt hi
    simp [Machine.start, PollLoop.initialised, PollLoop.init, PollLoop.addSignal, hlt]
  live_lt := by
    intro i reg hlive
    cases hlive
  running_id := by
    intro timID it hstage
    cases hstage

section Runs

variable {s s' : Machine} {k k' : KQueueLoop}

theorem Machine.Tidy.run {trace : List (Machine × Move)} (h : s.Tidy) (hrun : Run Machine.Step s trace s')
    (hsafe : ∀ e ∈ trace, e.2.Safe e.1) : ∀ t ∈ visited trace s', t.Tidy := by
  have hstep : ∀ (s : Machine) (a : Move) (s' : Machine), s.Tidy → a.Safe s → Machine.Step s a s' → s'.Tidy :=
    fun _ _ _ h hsafe hstep => h.step hsafe hstep
  exact hrun.invariant_visited hstep h hsafe

theorem KQueueLoop.Tidy.run {trace : List (KQueueLoop × KQueueMove)} (h : k.Tidy)
    (hrun : Run KQueueLoop.Step k trace k')
    (hsafe : ∀ e ∈ trace, e.2.Safe e.1) : ∀ t ∈ visited trace k', t.Tidy := by
  have hstep : ∀ (s : KQueueLoop) (a : KQueueMove) (s' : KQueueLoop), s.Tidy → a.Safe s → KQueueLoop.Step s a s' →
      s'.Tidy :=
    fun _ _ _ h hsafe hstep => h.step hsafe hstep
  exact hrun.invariant_visited hstep h hsafe

/-- An identifier that `addTimer` returns is that of no live timer. -/
theorem Machine.Tidy.addTimer_new (h : s.Tidy) {emplaced : Bool} {timer_create timer_settime : Except Errno Unit}
    {id : Nat}
    (hfree : ∃ i < 255, (s.loop.timers i).valid = false)
    (hresult : (s.loop.addTimer s.hist.regs emplaced timer_create timer_settime).1 = id) : s.hist.live id = none := by
  rcases s.loop.addTimer_cases s.hist.regs emplaced timer_create timer_settime with
    ⟨entryId, hentry, hentryId, _, _⟩ | ⟨hneg, _, _⟩
  · obtain rfl : entryId = id := Int.ofNat_inj.mp (hentryId.symm.trans hresult)
    exact h.live_of_freeEntry hfree hentry
  · omega

/-- The identifier that is returned is the number that was drawn. -/
theorem Sources.addTimer_id {k : Sources} {reg : Nat} {rand : Int} {emplaced : Bool} {add : Except Errno Unit}
    {id : Nat}
    {sources : Sources} (hresult : k.addTimer reg rand emplaced add = some ((id : Int), sources)) :
    id = rand.natAbs := by
  rcases Sources.addTimer_cases hresult with ⟨hid, _⟩ | ⟨hneg, _⟩
  · exact Int.ofNat_inj.mp hid
  · omega

end Runs

/-- After any history, `addTimer` returns the identifier of no live timer, and `delTimer`
takes out the source of the very timer that has the identifier: in the Poll driver as long as
timers are added where there is room in the table, in the KQueue driver as long as no number
is drawn that is the identifier of a live timer; in both, as long as no handler deletes the
timer that has the identifier it was called with. -/
theorem timer_ids_unique (pipe nPFDs : Int) (pFDs : Nat → Option Pollfd) (block : Block) :
    (∀ (trace : List (Machine × Move)) (s' : Machine),
      Run Machine.Step (Machine.start pipe nPFDs pFDs block) trace s' → (∀ e ∈ trace, e.2.Safe e.1) →
      ∀ t ∈ visited trace s',
        (∀ (emplaced : Bool) (timer_create timer_settime : Except Errno Unit) (id : Nat),
          (∃ i < 255, (t.loop.timers i).valid = false) →
          (t.loop.addTimer t.hist.regs emplaced timer_create timer_settime).1 = id → t.hist.live id = none) ∧
        (∀ id reg, t.hist.live id = some reg → (∀ it, t.stage.running = some it → it.id ≠ id) →
          { handler := reg, id } ∈ t.loop.timerSources ∧
          (t.loop.delTimer id).2.timerSources = t.loop.timerSources.filter fun src => src.handler ≠ reg)) ∧
    (∀ (trace : List (KQueueLoop × KQueueMove)) (s' : KQueueLoop),
      Run KQueueLoop.Step {} trace s' → (∀ e ∈ trace, e.2.Safe e.1) →
      ∀ t ∈ visited trace s',
        (∀ (rand : Int) (emplaced : Bool) (add : Except Errno Unit) (id : Nat) (sources : Sources),
          t.hist.live rand.natAbs = none →
          t.sources.addTimer t.hist.regs rand emplaced add = some ((id : Int), sources) → t.hist.live id = none) ∧
        (∀ id reg (delete : Except Errno Unit), t.hist.live id = some reg → (∀ it, t.running = some it → it.id ≠ id) →
          { handler := reg, id } ∈ t.sources.timerSources ∧
          (t.sources.delTimer id delete).2.timerSources =
            t.sources.timerSources.filter fun src => src.handler ≠ reg)) := by
  refine ⟨fun trace s' hrun hsafe t ht => ?_, fun trace s' hrun hsafe t ht => ?_⟩
  · have htidy := (Machine.Tidy.start pipe nPFDs pFDs block).run hrun hsafe t ht
    refine ⟨fun emplaced timer_create timer_settime id hfree hresult => ?_, fun id reg hlive hother => ⟨?_, ?_⟩⟩
    · exact htidy.addTimer_new hfree hresult
    · exact htidy.sources.mem hlive
    · exact htidy.sources.erase_live hother hlive
  · have hempty : ({} : KQueueLoop).Tidy := LiveTimers.empty
    have htidy := hempty.run hrun hsafe t ht
    refine ⟨fun rand emplaced add id sources hdrawn hresult => ?_, fun id reg delete hlive hother => ⟨?_, ?_⟩⟩
    · rwa [Sources.addTimer_id hresult]
    · exact LiveTimers.mem htidy hlive
    · rw [Sources.timerSources_delTimer]
      exact LiveTimers.erase_live htidy hother hlive

/-- Two timers in each driver, of which the first is deleted. In the KQueue driver the other one
expires, and its handler draws the number of its own again. -/
theorem timer_ids_unique_two :
    (∃ t : Machine, t.hist.live 0 = none ∧ t.hist.live 1 = some 1 ∧ { handler := 1, id := 1 } ∈ t.loop.timerSources ∧
      (t.loop.addTimer t.hist.regs true (.ok ()) (.ok ())).1 = 0) ∧
    ∃ t : KQueueLoop, t.hist.live 5 = none ∧ t.hist.live 7 = some 2 ∧
      { handler := 2, id := 7 } ∈ t.sources.timerSources ∧
      (t.sources.delTimer 7 (.ok ())).2.timerSources = t.sources.timerSources.filter fun src => src.handler ≠ 2 := by
  let block : Block := { moved := false, beyond := fun _ => none }
  constructor
  · have hrun : Run Machine.Step (Machine.start 3 0 (fun _ => none) block) _ _ :=
      .cons (.request (.addTimer true (.ok ()) (.ok ())) trivial)
        (.cons (.request (.addTimer true (.ok ()) (.ok ())) trivial)
        (.single (.request (.delTimer 0) trivial)))
    obtain ⟨hnew, hdel⟩ := (timer_ids_unique 3 0 (fun _ => none) block).1 _ _ hrun (by
      intro e he
      simp only [List.mem_cons, List.not_mem_nil, or_false] at he
      rcases he with rfl | rfl | rfl
      · exact ⟨0, by omega, rfl⟩
      · exact ⟨1, by omega, rfl⟩
      · rintro it ⟨⟩) _ (Run.end_mem_visited _ _)
    refine ⟨_, hnew true (.ok ()) (.ok ()) 0 ⟨0, by omega, rfl⟩ rfl, rfl, (hdel 1 1 rfl ?_).1, rfl⟩
    rintro it ⟨⟩
  · have hrun : Run KQueueLoop.Step {} _ _ := .cons (.addTimer 5 true (.ok ()) 5 _ rfl)
      (.cons (.addTimer 7 true (.ok ()) 7 _ rfl) (.cons (.delTimer 5 (.ok ())) (.cons (.event 7 rfl rfl)
        (.cons (.addTimer 7 true (.ok ()) 7 _ rfl) (.single (.handled rfl))))))
    obtain ⟨-, hdel⟩ := (timer_ids_unique 3 0 (fun _ => none) block).2 _ _ hrun (by
      intro e he
      simp only [List.mem_cons, List.not_mem_nil, or_false] at he
      rcases he with rfl | rfl | rfl | rfl | rfl | rfl
      · rfl
      · rfl
      · rintro it ⟨⟩
      · trivial
      · rfl
      · trivial) _ (Run.end_mem_visited _ _)
    obtain ⟨hmem, herase⟩ := hdel 7 2 (.ok ()) rfl (by rintro it ⟨⟩)
    exact ⟨_, rfl, rfl, hmem, herase⟩

/-- `rand` returns the same number twice. -/
theorem kqueue_id_twice : ∃ trace s, Run KQueueLoop.Step {} trace s ∧ s.hist.live 5 = some 0 ∧
    (s.sources.addTimer s.hist.regs 5 true (.ok ())).map Prod.fst = some 5 := by
  have hrun : Run KQueueLoop.Step {} _ _ := .single (.addTimer 5 true (.ok ()) 5 _ rfl)
  exact ⟨_, _, hrun, rfl, rfl⟩

end ServiceManager.Event
