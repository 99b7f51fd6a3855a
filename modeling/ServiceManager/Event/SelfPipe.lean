import ServiceManager.Event.PollDriver

namespace ServiceManager.Event

open Trace

/-- The Poll driver with its self-pipe: how many bytes in it are unread, and how many signals were delivered
since `poll` last returned. A handler whose write finds the pipe full is `blocked`. -/
structure Piped where
  driver : Driver
  unread : Nat := 0
  since : Nat := 0
  blocked : Bool := false

namespace Piped

/-- `write(sigPipe[1], ".", 1)` -/
def write (s : Piped) (capacity : Nat) : Piped :=
  if s.unread < capacity then { s with unread := s.unread + 1, since := s.since + 1 } else { s with blocked := true }

/-- What `poll` reports for the self-pipe. -/
def revents (s : Piped) : Nat :=
  if 0 < s.unread then POLLIN else 0

/-- `loop` is about to call `poll`. -/
def AboutToPoll (s : Piped) : Prop :=
  s.driver.pc = .runpoll ∧ s.driver.haveRunPoll = false

/-- Where `poll` is about to be called the pipe has no byte of a signal from before, so that `poll` waits if there is
none since; and a handler is blocked by so many signals since then only. -/
structure Drained (capacity : Nat) (s : Piped) : Prop where
  unread_le : s.AboutToPoll → s.unread ≤ s.since
  waits : s.AboutToPoll → s.since = 0 → s.revents = 0
  room : s.blocked = true → capacity ≤ s.since

end Piped

/-- `poll` returns. One that a signal interrupts is called again at once. -/
def Act.returns : Act → Bool
  | .poll _ => true
  | .pollFailed interrupted => !interrupted
  | _ => false

def Act.handles : Act → Bool
  | .sigHandler .. => true
  | _ => false

/-- The steps of the driver. No step reads from the pipe: `loop` only clears what `poll` reports for it. -/
inductive PipeStep (nsig capacity : Nat) : Piped → Act → Piped → Prop
  | sigHandler {s d} (signum value) : Atomic nsig s.driver (.sigHandler signum value) d →
      PipeStep nsig capacity s (.sigHandler signum value) ({ s with driver := d }.write capacity)
  | loop {s a d} : s.blocked = false → a.handles = false → (∀ revents, a = .poll revents → revents 0 = s.revents) →
      Atomic nsig s.driver a d →
      PipeStep nsig capacity s a { s with driver := d, since := if a.returns then 0 else s.since }

section Runs

variable {nsig capacity : Nat} {s s' : Piped} {a : Act} {trace : List (Piped × Act)}

@[simp] theorem Piped.driver_write (s : Piped) (capacity : Nat) : (s.write capacity).driver = s.driver := by
  unfold Piped.write
  split <;> rfl

/-- Without the pipe they are the steps of the driver. -/
theorem PipeStep.atomic (h : PipeStep nsig capacity s a s') : Atomic nsig s.driver a s'.driver := by
  cases h with
  | sigHandler signum value hstep => simpa using hstep
  | loop _ _ _ hstep => exact hstep

theorem run_atomic (h : Run (PipeStep nsig capacity) s trace s') :
    Run (Atomic nsig) s.driver (trace.map fun e => (e.1.driver, e.2)) s'.driver := by
  induction h with
  | nil s => exact .nil _
  | cons hstep _ ih => exact .cons hstep.atomic ih

/-- A blocked handler never goes on, and `loop` does not while it is blocked. -/
theorem PipeStep.blocked (h : PipeStep nsig capacity s a s') (hblocked : s.blocked = true) :
    s'.blocked = true ∧ s'.driver.pc = s.driver.pc := by
  cases h with
  | sigHandler signum value hstep =>
    cases hstep with
    | sigHandler _ _ hsignum =>
      unfold Piped.write
      split
      · exact ⟨hblocked, rfl⟩
      · exact ⟨rfl, rfl⟩
  | loop hrunning => exact absurd (hblocked.symm.trans hrunning) (by decide)

theorem run_blocked (h : Run (PipeStep nsig capacity) s trace s') (hblocked : s.blocked = true) :
    s'.blocked = true ∧ s'.driver.pc = s.driver.pc := by
  induction h with
  | nil => exact ⟨hblocked, rfl⟩
  | cons hstep _ ih =>
    obtain ⟨hstill, hpc⟩ := hstep.blocked hblocked
    obtain ⟨hend, hpc'⟩ := ih hstill
    exact ⟨hend, hpc'.trans hpc⟩

/-- The bytes are those of the signals since `poll` last returned. -/
structure Piped.Current (capacity : Nat) (s : Piped) : Prop where
  unread_eq : s.unread = s.since
  full : s.blocked = true → capacity ≤ s.unread

theorem Piped.Current.drained (h : s.Current capacity) : s.Drained capacity where
  unread_le _ := Nat.le_of_eq h.unread_eq
  waits _ hnone := by
    rw [Piped.revents, h.unread_eq, hnone]
    rfl
  room hblocked := h.unread_eq ▸ h.full hblocked

theorem Piped.Current.step (h : s.Current capacity) (hempty : a.returns = true → s.unread = 0)
    (hstep : PipeStep nsig capacity s a s') : s'.Current capacity := by
  have hunread := h.unread_eq
  cases hstep with
  | sigHandler signum value =>
    unfold Piped.write
    split
    · exact ⟨congrArg (· + 1) hunread, fun hblocked => Nat.le_succ_of_le (h.full hblocked)⟩
    · rename_i hfull
      exact ⟨hunread, fun _ => Nat.le_of_not_lt hfull⟩
  | loop =>
    refine ⟨?_, h.full⟩
    change s.unread = if a.returns then 0 else s.since
    split
    · rename_i hreturns
      exact hempty hreturns
    · exact hunread

/-- A byte of a signal from before stays in the pipe, and `poll` returns at once from then on. -/
theorem stale_step (hstale : s.since < s.unread ∨ a.returns = true ∧ s.unread ≠ 0)
    (hstep : PipeStep nsig capacity s a s') : s'.since < s'.unread := by
  cases hstep with
  | sigHandler signum value =>
    obtain hstale | ⟨hreturns, -⟩ := hstale
    · unfold Piped.write
      split
      · exact Nat.succ_lt_succ hstale
      · exact hstale
    · cases hreturns
  | loop =>
    change (if a.returns then 0 else s.since) < s.unread
    split
    · omega
    · rename_i hreturns
      exact hstale.resolve_right fun h => hreturns h.1

theorem run_stale (h : Run (PipeStep nsig capacity) s trace s') (hstale : s.since < s.unread) :
    s'.since < s'.unread := by
  induction h with
  | nil => exact hstale
  | cons hstep _ ih => exact ih (stale_step (.inl hstale) hstep)

theorem run_returns_stale (h : Run (PipeStep nsig capacity) s trace s') {e : Piped × Act} (he : e ∈ trace)
    (hreturns : e.2.returns = true) (hunread : e.1.unread ≠ 0) : s'.since < s'.unread := by
  induction h with
  | nil => cases he
  | cons hstep hrun ih =>
    obtain rfl | he := List.mem_cons.mp he
    · exact run_stale hrun (stale_step (.inr ⟨hreturns, hunread⟩) hstep)
    · exact ih he

/-- The pipe is drained in all states of a run in which `poll` only returns before any signal was delivered; and where
`poll` is about to be called, only after such a run. -/
theorem selfPipe_drained_iff (nsig capacity : Nat) (d : Driver)
    (hrun : Run (PipeStep nsig capacity) { driver := d } trace s) :
    ((∀ e ∈ trace, e.2.returns = true → e.1.unread = 0) → ∀ t ∈ visited trace s, t.Drained capacity) ∧
      (s.AboutToPoll → s.Drained capacity → ∀ e ∈ trace, e.2.returns = true → e.1.unread = 0) := by
  constructor
  · intro hempty t ht
    have hstep : ∀ (s : Piped) (a : Act) (s' : Piped), s.Current capacity → (a.returns = true → s.unread = 0) →
        PipeStep nsig capacity s a s' → s'.Current capacity := fun _ _ _ h hempty hstep => h.step hempty hstep
    have hstart : ({ driver := d } : Piped).Current capacity := ⟨rfl, fun hblocked => nomatch hblocked⟩
    exact (hrun.invariant_visited hstep hstart hempty t ht).drained
  · intro hpoll hdrained e he hreturns
    by_contra hunread
    have hstale := run_returns_stale hrun he hreturns hunread
    exact Nat.not_le_of_lt hstale (hdrained.unread_le hpoll)

/-- Where no signal from `i` on has fired, `loop` goes on to `poll`. -/
theorem scan_runs {i : Nat} (hrunning : s.blocked = false) (hpc : s.driver.pc = .scan i)
    (hnone : ∀ j ≥ i, s.driver.sig.signalsFired j = false) :
    ∃ trace, Run (PipeStep nsig capacity) s trace { s with driver := s.driver.goto .runpoll } ∧
      ∀ e ∈ trace, e.2.returns = false := by
  induction hleft : nsig - i generalizing s i with
  | zero =>
    have hscanned : Atomic nsig s.driver .next (s.driver.goto .runpoll) := .scanned hpc (by omega)
    have hrun : Run (PipeStep nsig capacity) s _ _ := .single (.loop hrunning rfl (by simp) hscanned)
    exact ⟨_, hrun, by simp [Act.returns]⟩
  | succ left ih =>
    have hlook : Atomic nsig s.driver .look (s.driver.goto (.scan (i + 1))) := by
      have hstep := Atomic.look hpc (by omega : i < nsig)
      rwa [hnone i (Nat.le_refl i)] at hstep
    have hstep : PipeStep nsig capacity s .look { s with driver := s.driver.goto (.scan (i + 1)) } :=
      .loop hrunning rfl (by simp) hlook
    obtain ⟨trace, hscan, hreturns⟩ := ih (s := { s with driver := s.driver.goto (.scan (i + 1)) }) hrunning rfl
      (fun j hj => hnone j (Nat.le_of_succ_le hj)) (by omega)
    exact ⟨_, .cons hstep hscan, List.forall_mem_cons.mpr ⟨rfl, hreturns⟩⟩

theorem run_scan {start : Piped} {i : Nat} (hrun : Run (PipeStep nsig capacity) start trace s)
    (hrunning : s.blocked = false) (hpc : s.driver.pc = .scan i)
    (hnone : ∀ j ≥ i, s.driver.sig.signalsFired j = false) :
    ∃ scanned, Run (PipeStep nsig capacity) start (trace ++ scanned) { s with driver := s.driver.goto .runpoll } ∧
      ∀ e ∈ scanned, e.2.returns = false := by
  obtain ⟨scanned, hscan, hreturns⟩ := scan_runs hrunning hpc hnone
  exact ⟨scanned, hrun.append hscan, hreturns⟩

end Runs

/-- The first `poll` returns before any signal was delivered. One is then, and is dispatched, and its byte is in the
pipe where `poll` is about to be called again. -/
theorem selfPipe_drained_once : ∃ trace s, Run (PipeStep 65 65536) { driver := idle } trace s ∧ s.AboutToPoll ∧
    (∃ e ∈ trace, e.2.returns = true) ∧ s.unread = 1 ∧ s.since = 1 ∧ ∀ t ∈ visited trace s, t.Drained 65536 := by
  have hpolled : Run (PipeStep 65 65536) { driver := idle } _ _ :=
    .cons (.loop rfl rfl (by simp) (.call rfl)) (.cons (.loop rfl rfl (by simp) (.readFired rfl))
      (.cons (.loop rfl rfl (by simp) (.clearFired rfl))
      (.cons (.loop rfl rfl (by rintro _ ⟨⟩; rfl) (.poll (fun _ => 0) rfl rfl))
      (.cons (.loop rfl rfl (by simp) (.fdsDone rfl (by decide))) (.cons (.loop rfl rfl (by simp) (.test rfl))
      (.single (.loop rfl rfl (by simp) (.ret rfl))))))))
  have hdispatched := hpolled.append
    (.cons (.sigHandler 2 0 (.sigHandler 2 0 (by omega))) (.cons (.loop rfl rfl (by simp) (.call rfl))
      (.cons (.loop rfl rfl (by simp) (.readFired rfl)) (.cons (.loop rfl rfl (by simp) (.clearFired rfl))
      (.cons (.loop rfl rfl (by simp) (.look rfl (by omega))) (.cons (.loop rfl rfl (by simp) (.look rfl (by omega)))
      (.cons (.loop rfl rfl (by simp) (.look rfl (by omega))) (.cons (.loop rfl rfl (by simp) (.dispatch rfl))
      (.cons (.loop rfl rfl (by simp) (.signal {} rfl)) (.single (.loop rfl rfl (by simp) (.signalDone rfl))))))))))))
  have hnone : ∀ j ≥ 3, Function.update (Function.update (fun _ => false) 2 true) 2 false j = false := by
    intro j hj
    have hne : j ≠ 2 := by omega
    simp [hne]
  obtain ⟨_, hscan, hlast⟩ := run_scan hdispatched rfl rfl hnone
  refine ⟨_, _, hscan, ⟨rfl, rfl⟩, ?_, rfl, rfl, (selfPipe_drained_iff 65 65536 idle hscan).1
    (List.forall_mem_append.mpr ⟨List.forall_mem_append.mpr ⟨?_, ?_⟩, ?_⟩)⟩
  · exact ⟨_, List.mem_append_left _ (List.mem_append_left _ (List.mem_of_getElem? (i := 3) rfl)), rfl⟩
  · repeat' refine List.forall_mem_cons.mpr ⟨by rintro ⟨⟩ <;> rfl, ?_⟩
    exact fun _ he => nomatch he
  · repeat' refine List.forall_mem_cons.mpr ⟨by rintro ⟨⟩, ?_⟩
    exact fun _ he => nomatch he
  · exact fun e he hreturns => absurd hreturns (by simp [hlast e he])

/-- A signal is dispatched before `poll`, which its byte wakes up, and wakes up again in the next call of `loop`. -/
theorem selfPipe_not_drained : ∃ trace s, Run (PipeStep 65 65536) { driver := idle } trace s ∧ s.AboutToPoll ∧
    s.unread = 1 ∧ s.since = 0 ∧ ¬s.Drained 65536 := by
  have hdispatched : Run (PipeStep 65 65536) { driver := idle } _ _ :=
    .cons (.sigHandler 2 0 (.sigHandler 2 0 (by omega))) (.cons (.loop rfl rfl (by simp) (.call rfl))
      (.cons (.loop rfl rfl (by simp) (.readFired rfl)) (.cons (.loop rfl rfl (by simp) (.clearFired rfl))
      (.cons (.loop rfl rfl (by simp) (.look rfl (by omega))) (.cons (.loop rfl rfl (by simp) (.look rfl (by omega)))
      (.cons (.loop rfl rfl (by simp) (.look rfl (by omega))) (.cons (.loop rfl rfl (by simp) (.dispatch rfl))
      (.cons (.loop rfl rfl (by simp) (.signal {} rfl)) (.single (.loop rfl rfl (by simp) (.signalDone rfl)))))))))))
  have hnone : ∀ j ≥ 3, Function.update (Function.update (fun _ => false) 2 true) 2 false j = false := by
    intro j hj
    have hne : j ≠ 2 := by omega
    simp [hne]
  obtain ⟨_, hscan, -⟩ := run_scan hdispatched rfl rfl hnone
  have hagain : Run (PipeStep 65 65536) { driver := idle } _ _ := hscan.append
    (.cons (.loop rfl rfl (by rintro _ ⟨⟩; rfl) (.poll (fun _ => POLLIN) rfl rfl))
      (.cons (.loop rfl rfl (by simp) (.fdsDone rfl (by decide))) (.cons (.loop rfl rfl (by simp) (.test rfl))
      (.cons (.loop rfl rfl (by simp) (.ret rfl)) (.cons (.loop rfl rfl (by simp) (.call rfl))
      (.cons (.loop rfl rfl (by simp) (.readFired rfl)) (.single (.loop rfl rfl (by simp) (.clearFired rfl)))))))))
  exact ⟨_, _, hagain, ⟨rfl, rfl⟩, rfl, rfl, fun h => absurd (h.unread_le ⟨rfl, rfl⟩) (by decide)⟩

end ServiceManager.Event
