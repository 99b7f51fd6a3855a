import ServiceManager.Event.Poll

namespace ServiceManager.Event

open Trace

section Status

variable (q : PollFD) (s : Pass)

/-- A descriptor that was reported ready is yet to be looked at. -/
def Todo : Prop :=
  s.loop.callsOf q.reg = [] ∧ ∃ j, s.i ≤ j ∧ s.loop.pFDs[j]? = some q

/-- Its handler was called. In the last pass it does not matter whether its flag was
cleared. -/
def Handled (last : Prop) : Prop :=
  s.loop.callsOf q.reg = [q.revents] ∧
    ∃ j p, s.loop.pFDs[j]? = some p ∧ p.reg = q.reg ∧ (p.revents = 0 ∨ last ∧ j < s.i)

/-- It was passed over. -/
def Missed : Prop :=
  s.loop.callsOf q.reg = [] ∧ ∃ j p, s.loop.pFDs[j]? = some p ∧ p.reg = q.reg ∧ j < s.i

end Status

def EventLoop.registered (l : EventLoop) (reg : Nat) : Prop :=
  ∃ p ∈ l.pFDs, p.reg = reg

section Origin

variable {pipe : Int} {l l' : EventLoop} {i j reg : Nat} {p q : PollFD} {ops : List Op}

theorem EventLoop.registered_clear (h : (l.clear i).registered reg) : l.registered reg := by
  obtain ⟨p, hp, rfl⟩ := h
  obtain ⟨j, hj⟩ := List.mem_iff_getElem?.mp hp
  obtain ⟨q, hq, rfl⟩ := EventLoop.getElem?_clear hj
  refine ⟨q, List.mem_of_getElem? hq, ?_⟩
  split <;> rfl

theorem Evolves.registered (h : Evolves l l') (hreg : l'.registered reg) (hlt : reg < l.regs) : l.registered reg := by
  obtain ⟨p, hp, rfl⟩ := hreg
  obtain ⟨j, hj⟩ := List.mem_iff_getElem?.mp hp
  obtain ⟨k, _, hk⟩ := h.origin hj hlt
  exact ⟨p, List.mem_of_getElem? hk, rfl⟩

/-- A registration that is still there is at the same index or an earlier one. -/
theorem Shape.kept (h : Shape pipe l) (hevolves : Evolves l l') (hq : l.pFDs[j]? = some q)
    (hreg : l'.registered q.reg) : ∃ j', j' ≤ j ∧ l'.pFDs[j']? = some q := by
  obtain ⟨p, hp, hsame⟩ := hreg
  obtain ⟨j', hj'⟩ := List.mem_iff_getElem?.mp hp
  have hlt : p.reg < l.regs := by
    rw [hsame]
    exact h.regs_lt q (List.mem_of_getElem? hq)
  obtain ⟨k, hk, hpk⟩ := hevolves.origin hj' hlt
  obtain ⟨rfl, rfl⟩ := h.unique hpk hq hsame
  exact ⟨j', hk, hj'⟩

/-- After a handler, it has kept its flag unless it is at the index that is cleared. -/
theorem Shape.callback_kept (h : Shape pipe l) (hq : l.pFDs[j]? = some q)
    (hreg : (((l.call p).applyAll ops).clear i).registered q.reg) :
    ∃ j', j' ≤ j ∧ (l.applyAll ops).pFDs[j']? = some q ∧
      (((l.call p).applyAll ops).clear i).pFDs[j']? = some (if i = j' then { q with revents := 0 } else q) := by
  rw [EventLoop.call_applyAll] at hreg ⊢
  obtain ⟨j', hle, hj'⟩ := h.kept (Evolves.applyAll l ops) hq (EventLoop.registered_clear hreg)
  refine ⟨j', hle, hj', ?_⟩
  rw [EventLoop.clear, List.getElem?_modify, EventLoop.call_pFDs, hj']
  rfl

theorem EventLoop.callsOf_callback (l : EventLoop) (p : PollFD) (ops : List Op) (i reg : Nat) :
    (((l.call p).applyAll ops).clear i).callsOf reg = (l.call p).callsOf reg :=
  EventLoop.callsOf_congr (Evolves.applyAll (l.call p) ops).calls_eq reg

theorem EventLoop.callsOf_callback_of_ne (hne : p.reg ≠ reg) :
    (((l.call p).applyAll ops).clear i).callsOf reg = l.callsOf reg := by
  rw [EventLoop.callsOf_callback, EventLoop.callsOf_call_of_ne hne]

end Origin

section Step

variable {start : EventLoop} {pipe : Int} {s s' : Pass} {a : Label} {q : PollFD} {last : Prop}

/-- A descriptor that is still to come stays so, or is handled, where nothing slides past it. -/
theorem Todo.step (hvalid : Valid start pipe s) (hq : q.revents ≠ 0) (h : Todo q s) (hstep : Step s a s')
    (hreg : s'.loop.registered q.reg) (hslides : ¬a.Slides s q) (hmoves : last ∨ ¬a.Moves s q) :
    Todo q s' ∨ Handled q s' last := by
  obtain ⟨hcalls, j, hij, hj⟩ := h
  cases hstep with
  | @skip i l p hp hrevents =>
    have hne : i ≠ j := by
      rintro rfl
      rw [hj] at hp
      exact hq (by rw [Option.some.inj hp, hrevents])
    exact Or.inl ⟨hcalls, j, Nat.lt_of_le_of_ne hij hne, hj⟩
  | unknown hp _ hsource => exact absurd (hvalid.shape.source hp hvalid.pos) hsource
  | @callback i l p ops hp hrevents hsource =>
    obtain ⟨j', hle, hj', hafter⟩ := hvalid.shape.callback_kept hj hreg
    rcases Nat.eq_or_lt_of_le hij with heq | hlt
    · -- The callback is for it. If it has moved, the flag that is cleared is another's.
      obtain rfl : i = j := heq
      obtain rfl : p = q := Option.some.inj (hp.symm.trans hj)
      refine Or.inr ⟨?_, j', _, hafter, ?_, ?_⟩
      · rw [EventLoop.callsOf_callback, EventLoop.callsOf_call, hcalls, List.nil_append]
      · split <;> rfl
      · by_cases hmoved : i = j'
        · rw [if_pos hmoved]
          exact Or.inl rfl
        · have hlast := hmoves.resolve_right fun h => h ⟨hj, j', Ne.symm hmoved, hj'⟩
          exact Or.inr ⟨hlast, Nat.lt_succ_of_le hle⟩
    · have hother : p.reg ≠ q.reg := fun h => Nat.ne_of_lt hlt (hvalid.shape.unique hp hj h).1
      have hlt' : i < j' := by
        by_contra hlt'
        exact hslides ⟨j, j', hlt, hj, Nat.le_of_not_lt hlt', hj'⟩
      rw [if_neg (Nat.ne_of_lt hlt')] at hafter
      refine Or.inl ⟨?_, j', hlt', hafter⟩
      rw [EventLoop.callsOf_callback_of_ne hother, hcalls]
  | signals ops hi =>
    exact absurd (List.getElem?_eq_some_iff.mp hj).1 (Nat.not_lt.mpr (Nat.le_trans hi hij))

/-- A descriptor that slides is not looked at. -/
theorem Todo.slides (hvalid : Valid start pipe s) (hpipe : a.SparesPipe pipe) (h : Todo q s) (hstep : Step s a s')
    (hreg : s'.loop.registered q.reg) (hslides : a.Slides s q) : Missed q s' := by
  obtain ⟨hcalls, _⟩ := h
  cases hstep with
  | skip => exact hslides.elim
  | unknown => exact hslides.elim
  | signals => exact hslides.elim
  | @callback i l p ops hp hrevents hsource =>
    obtain ⟨j, k, hij, hj, hk, hkept⟩ := hslides
    obtain ⟨j', hle, hj', hafter⟩ := hvalid.shape.callback_kept hj hreg
    obtain ⟨rfl, _⟩ := (hvalid.shape.applyAll hpipe).unique hkept hj' rfl
    have hother : p.reg ≠ q.reg := fun h => Nat.ne_of_lt hij (hvalid.shape.unique hp hj h).1
    refine ⟨?_, k, _, hafter, ?_, Nat.lt_succ_of_le hk⟩
    · rw [EventLoop.callsOf_callback_of_ne hother, hcalls]
    · split <;> rfl

theorem Missed.step (hvalid : Valid start pipe s) (h : Missed q s) (hstep : Step s a s')
    (hreg : s'.loop.registered q.reg) (hquiet : a.isSignals = false) : Missed q s' := by
  obtain ⟨hcalls, j, p', hj, hsame, hlt⟩ := h
  cases hstep with
  | skip => exact ⟨hcalls, j, p', hj, hsame, Nat.lt_succ_of_lt hlt⟩
  | unknown hp _ hsource => exact absurd (hvalid.shape.source hp hvalid.pos) hsource
  | signals => exact absurd hquiet (by simp [Label.isSignals])
  | @callback i l p ops hp hrevents hsource =>
    rw [← hsame] at hreg
    obtain ⟨j', hle, _, hafter⟩ := hvalid.shape.callback_kept hj hreg
    have hother : p.reg ≠ q.reg := by
      rw [← hsame]
      exact fun h => Nat.ne_of_gt hlt (hvalid.shape.unique hp hj h).1
    refine ⟨?_, j', _, hafter, ?_, Nat.lt_succ_of_lt (Nat.lt_of_le_of_lt hle hlt)⟩
    · rw [EventLoop.callsOf_callback_of_ne hother, hcalls]
    · rw [← hsame]
      split <;> rfl

/-- What was handled is not handled again in the same pass. -/
theorem Handled.step (hvalid : Valid start pipe s) (h : Handled q s last) (hstep : Step s a s')
    (hreg : s'.loop.registered q.reg) (hlast : last → a.isSignals = false) : Handled q s' last := by
  obtain ⟨hcalls, j, p', hj, hsame, hflag⟩ := h
  cases hstep with
  | skip => exact ⟨hcalls, j, p', hj, hsame, hflag.imp_right fun h => ⟨h.1, Nat.lt_succ_of_lt h.2⟩⟩
  | unknown hp _ hsource => exact absurd (hvalid.shape.source hp hvalid.pos) hsource
  | @signals i l ops hi =>
    have hrevents : p'.revents = 0 := hflag.resolve_right fun h => absurd (hlast h.1) (by simp [Label.isSignals])
    have hevolves := Evolves.applyAll l ops
    rw [← hsame] at hreg
    obtain ⟨j', _, hj'⟩ := hvalid.shape.kept hevolves hj hreg
    refine ⟨?_, j', p', hj', hsame, Or.inl hrevents⟩
    rw [EventLoop.callsOf_congr hevolves.calls_eq, hcalls]
  | @callback i l p ops hp hrevents hsource =>
    rw [← hsame] at hreg
    obtain ⟨j', hle, _, hafter⟩ := hvalid.shape.callback_kept hj hreg
    -- The callback is for one whose flag is set, at the index.
    have hother : p.reg ≠ q.reg := by
      rw [← hsame]
      intro h
      obtain ⟨rfl, rfl⟩ := hvalid.shape.unique hp hj h
      exact hflag.elim hrevents fun h => Nat.lt_irrefl _ h.2
    refine ⟨?_, j', _, hafter, ?_, ?_⟩
    · rw [EventLoop.callsOf_callback_of_ne hother, hcalls]
    · rw [← hsame]
      split <;> rfl
    · split
      · exact Or.inl rfl
      · exact hflag.imp_right fun h => ⟨h.1, Nat.lt_succ_of_lt (Nat.lt_of_le_of_lt hle h.2)⟩

theorem Step.registered (hstep : Step s a s') {reg : Nat} (hreg : s'.loop.registered reg) (hlt : reg < s.loop.regs) :
    s.loop.registered reg := by
  cases hstep with
  | skip => exact hreg
  | unknown => exact EventLoop.registered_clear hreg
  | @callback i l p ops _ _ _ =>
    exact (Evolves.applyAll (l.call p) ops).registered (EventLoop.registered_clear hreg) hlt
  | @signals i l ops _ => exact (Evolves.applyAll l ops).registered hreg hlt

end Step

section Run

variable {start : EventLoop} {pipe : Int} {s s' : Pass} {a : Label} {q : PollFD} {trace : List (Pass × Label)}

/-- Without a slide, and without a move before another pass, a descriptor's handler is
called once. -/
theorem run_handled {last : Prop} (hrun : Run Step s trace s') (hvalid : Valid start pipe s) (hq : q.revents ≠ 0)
    (hlt : q.reg < start.regs) (htodo : Todo q s) (hpipe : ∀ e ∈ trace, e.2.SparesPipe pipe)
    (hslides : ∀ e ∈ trace, ¬e.2.Slides e.1 q) (hmoves : ∀ e ∈ trace, last ∨ ¬e.2.Moves e.1 q)
    (hlast : ∀ e ∈ trace, last → e.2.isSignals = false) (hreg : s'.loop.registered q.reg) :
    Todo q s' ∨ Handled q s' last := by
  have hstep : ∀ (s : Pass) (a : Label) (s' : Pass),
      (Valid start pipe s ∧ (s.loop.registered q.reg → Todo q s ∨ Handled q s last)) →
      (a.SparesPipe pipe ∧ ¬a.Slides s q ∧ (last ∨ ¬a.Moves s q) ∧ (last → a.isSignals = false)) →
      Step s a s' → Valid start pipe s' ∧ (s'.loop.registered q.reg → Todo q s' ∨ Handled q s' last) := by
    intro s a s' ⟨hvalid, h⟩ ⟨hpipe, hslides, hmoves, hlast⟩ hstep
    refine ⟨hvalid.step hpipe hstep, fun hreg => ?_⟩
    rcases h (hstep.registered hreg (Nat.lt_of_lt_of_le hlt hvalid.regs_le)) with h | h
    · exact h.step hvalid hq hstep hreg hslides hmoves
    · exact Or.inr (h.step hvalid hstep hreg hlast)
  have hend := hrun.invariant hstep ⟨hvalid, fun _ => Or.inl htodo⟩
    fun e he => ⟨hpipe e he, hslides e he, hmoves e he, hlast e he⟩
  exact hend.2 hreg

/-- What was passed over stays so until another pass. -/
theorem run_missed (hrun : Run Step s trace s') (hvalid : Valid start pipe s) (hlt : q.reg < start.regs)
    (hmissed : Missed q s) (hpipe : ∀ e ∈ trace, e.2.SparesPipe pipe) (hquiet : ∀ e ∈ trace, e.2.isSignals = false)
    (hreg : s'.loop.registered q.reg) : Missed q s' := by
  have hstep : ∀ (s : Pass) (a : Label) (s' : Pass),
      (Valid start pipe s ∧ (s.loop.registered q.reg → Missed q s)) →
      (a.SparesPipe pipe ∧ a.isSignals = false) →
      Step s a s' → Valid start pipe s' ∧ (s'.loop.registered q.reg → Missed q s') := by
    intro s a s' ⟨hvalid, h⟩ ⟨hpipe, hquiet⟩ hstep
    refine ⟨hvalid.step hpipe hstep, fun hreg => ?_⟩
    exact (h (hstep.registered hreg (Nat.lt_of_lt_of_le hlt hvalid.regs_le))).step hvalid hstep hreg hquiet
  have hend := hrun.invariant hstep ⟨hvalid, fun _ => hmissed⟩ fun e he => ⟨hpipe e he, hquiet e he⟩
  exact hend.2 hreg

/-- What was handled is not there to slide. -/
theorem Handled.not_slides (hvalid : Valid start pipe s) (hq : q.revents ≠ 0) (h : Handled q s True) :
    ¬a.Slides s q := by
  obtain ⟨_, k, p, hk, hsame, hflag⟩ := h
  intro hslides
  cases a with
  | skip => exact hslides
  | signals => exact hslides
  | callback ops =>
    obtain ⟨j, _, hij, hj, _⟩ := hslides
    obtain ⟨rfl, rfl⟩ := hvalid.shape.unique hk hj hsame
    exact hflag.elim hq fun h => Nat.lt_asymm hij h.2

theorem run_registered (hrun : Run Step s trace s') (hvalid : Valid start pipe s)
    (hpipe : ∀ e ∈ trace, e.2.SparesPipe pipe) {reg : Nat} (hlt : reg < start.regs)
    (hreg : s'.loop.registered reg) : s.loop.registered reg := by
  induction hrun with
  | nil => exact hreg
  | cons hstep _ ih =>
    obtain ⟨hpipe₁, hpipe⟩ := List.forall_mem_cons.mp hpipe
    exact hstep.registered (ih (hvalid.step hpipe₁ hstep) hpipe hreg) (Nat.lt_of_lt_of_le hlt hvalid.regs_le)

/-- Once a descriptor slides, its handler is not called in the pass. -/
theorem run_slides (hrun : Run Step s trace s') (hvalid : Valid start pipe s) (hq : q.revents ≠ 0)
    (hlt : q.reg < start.regs) (hstatus : Todo q s ∨ Handled q s True) (hpipe : ∀ e ∈ trace, e.2.SparesPipe pipe)
    (hquiet : ∀ e ∈ trace, e.2.isSignals = false) (hslides : ∃ e ∈ trace, e.2.Slides e.1 q)
    (hreg : s'.loop.registered q.reg) : Missed q s' := by
  induction hrun with
  | nil =>
    obtain ⟨e, he, _⟩ := hslides
    exact absurd he List.not_mem_nil
  | @cons s s₁ s' a trace hstep hrun ih =>
    obtain ⟨hpipe₁, hpipe⟩ := List.forall_mem_cons.mp hpipe
    obtain ⟨hquiet₁, hquiet⟩ := List.forall_mem_cons.mp hquiet
    have hvalid₁ := hvalid.step hpipe₁ hstep
    have hreg₁ := run_registered hrun hvalid₁ hpipe hlt hreg
    by_cases hnow : a.Slides s q
    · have htodo := hstatus.resolve_right fun h => h.not_slides hvalid hq hnow
      exact run_missed hrun hvalid₁ hlt (htodo.slides hvalid hpipe₁ hstep hreg₁ hnow) hpipe hquiet hreg
    · apply ih hvalid₁ _ hpipe hquiet _ hreg
      · rcases hstatus with h | h
        · exact h.step hvalid hq hstep hreg₁ hnow (Or.inl trivial)
        · exact Or.inr (h.step hvalid hstep hreg₁ fun _ => hquiet₁)
      · obtain ⟨e, he, hslides⟩ := hslides
        rcases List.mem_cons.mp he with rfl | he
        · exact absurd hslides hnow
        · exact ⟨e, he, hslides⟩

end Run

section Termination

variable {s s' : Pass} {a : Label}

/-- How many descriptors are yet to be handled. -/
def Pass.waiting (s : Pass) : Nat :=
  (s.loop.pFDs.drop s.i).countP fun p => p.revents ≠ 0

/-- A step of the loop over the array. -/
def Next (s' s : Pass) : Prop :=
  ∃ a : Label, a.isSignals = false ∧ Step s a s'

theorem Evolves.countP_drop_le {l l' : EventLoop} (h : Evolves l l') (i : Nat) :
    ((l'.pFDs.drop i).countP fun p => p.revents ≠ 0) ≤ (l.pFDs.drop i).countP fun p => p.revents ≠ 0 := by
  obtain ⟨kept, added, hpFDs, hkept, hadded⟩ := h.parts
  have hnone : ((added.drop (i - kept.length)).countP fun p => p.revents ≠ 0) = 0 := by
    rw [List.countP_eq_zero]
    intro p hp
    simp [(hadded p (List.mem_of_mem_drop hp)).1]
  rw [hpFDs, List.drop_append, List.countP_append, hnone, Nat.add_zero]
  exact (hkept.drop i).countP_le

theorem waiting_clear_lt {l l' : EventLoop} {i : Nat} {p : PollFD} (h : Evolves l l') (hp : l.pFDs[i]? = some p)
    (hrevents : p.revents ≠ 0) : Pass.waiting ⟨i + 1, l'.clear i⟩ < Pass.waiting ⟨i, l⟩ := by
  obtain ⟨hi, rfl⟩ := List.getElem?_eq_some_iff.mp hp
  have hafter := h.countP_drop_le (i + 1)
  rw [Pass.waiting, Pass.waiting, List.drop_eq_getElem_cons hi, List.countP_cons_of_pos (by simpa using hrevents),
    EventLoop.clear, List.drop_modify_of_lt _ _ _ _ (Nat.lt_succ_self i)]
  exact Nat.lt_succ_of_le hafter

/-- The loop over the array ends, whatever the handlers do: each callback leaves fewer
descriptors to handle, even if it adds some. -/
theorem wellFounded_next : WellFounded Next := by
  apply Subrelation.wf _ (InvImage.wf (fun s : Pass => (s.waiting, s.loop.pFDs.length - s.i))
    (WellFounded.prod_lex Nat.lt_wfRel.wf Nat.lt_wfRel.wf))
  intro s' s ⟨a, hquiet, hstep⟩
  cases hstep with
  | @skip i l p hp hrevents =>
    obtain ⟨hi, rfl⟩ := List.getElem?_eq_some_iff.mp hp
    have hsame : Pass.waiting ⟨i + 1, l⟩ = Pass.waiting ⟨i, l⟩ := by
      rw [Pass.waiting, Pass.waiting, List.drop_eq_getElem_cons hi, List.countP_cons_of_neg (by simp [hrevents])]
    apply Prod.lex_iff.mpr
    refine Or.inr ⟨hsame, ?_⟩
    change l.pFDs.length - (i + 1) < l.pFDs.length - i
    omega
  | @unknown i l p hp hrevents _ =>
    apply Prod.lex_iff.mpr
    left
    exact waiting_clear_lt (Evolves.refl l) hp hrevents
  | @callback i l p ops hp hrevents _ =>
    apply Prod.lex_iff.mpr
    left
    exact waiting_clear_lt (l := l.call p) (Evolves.applyAll (l.call p) ops) hp hrevents
  | signals => exact absurd hquiet (by simp [Label.isSignals])

end Termination

section Loop

variable {start l : EventLoop} {pipe : Int} {i : Nat} {q : PollFD} {trace : List (Pass × Label)}

theorem Valid.init (hshape : Shape pipe start) (hcalls : start.calls = []) : Valid start pipe ⟨1, start⟩ := by
  refine ⟨hshape, Nat.one_pos, Nat.le_refl _, fun _ hp _ => hp, ?_⟩
  rw [hcalls]
  exact fun c hc => absurd hc List.not_mem_nil

theorem Todo.init (hshape : Shape pipe start) (hcalls : start.calls = []) (hmem : q ∈ start.pFDs)
    (hq : q.revents ≠ 0) : Todo q ⟨1, start⟩ := by
  obtain ⟨j, hj⟩ := List.mem_iff_getElem?.mp hmem
  refine ⟨by simp [EventLoop.callsOf, hcalls], j, ?_, hj⟩
  apply Nat.one_le_iff_ne_zero.mpr
  rintro rfl
  rw [← List.head?_eq_getElem?] at hj
  exact hq (hshape.head_revents hj)

theorem Todo.not_finished (h : Todo q ⟨i, l⟩) (hi : l.pFDs.length ≤ i) : False := by
  obtain ⟨_, j, hij, hj⟩ := h
  exact absurd (List.getElem?_eq_some_iff.mp hj).1 (Nat.not_lt.mpr (Nat.le_trans hi hij))

/-- The descriptors that were reported ready and are still registered. -/
def Remains (start l : EventLoop) (q : PollFD) : Prop :=
  q ∈ start.pFDs ∧ q.revents ≠ 0 ∧ l.registered q.reg

theorem dispatchesOnce_iff (hvalid : Valid start pipe ⟨i, l⟩) :
    DispatchesOnce start l ↔ ∀ q, Remains start l q → l.callsOf q.reg = [q.revents] := by
  constructor
  · rintro h q ⟨hmem, hq, p, hp, hreg⟩
    rw [← hreg]
    exact h.once p hp q hmem hreg.symm hq
  · intro h
    refine ⟨fun p hp q hmem hreg hq => ?_, hvalid.only⟩
    rw [← hreg]
    exact h q ⟨hmem, hq, p, hp, hreg.symm⟩

theorem run_callsOf {last : Prop} (hrun : Run Step ⟨1, start⟩ trace ⟨i, l⟩) (hi : l.pFDs.length ≤ i)
    (hshape : Shape pipe start) (hcalls : start.calls = []) (hpipe : ∀ e ∈ trace, e.2.SparesPipe pipe)
    (hremains : Remains start l q) (hslides : ∀ e ∈ trace, ¬e.2.Slides e.1 q)
    (hmoves : ∀ e ∈ trace, last ∨ ¬e.2.Moves e.1 q) (hlast : ∀ e ∈ trace, last → e.2.isSignals = false) :
    l.callsOf q.reg = [q.revents] := by
  obtain ⟨hmem, hq, hreg⟩ := hremains
  have htodo := Todo.init hshape hcalls hmem hq
  have hend := run_handled hrun (.init hshape hcalls) hq (hshape.regs_lt q hmem) htodo hpipe hslides hmoves hlast hreg
  exact (hend.resolve_left fun h => h.not_finished hi).1

/-- The loop over the array ends, whatever the handlers do. In one pass each descriptor
that was reported ready, and is still registered at the end, is handled once exactly if
none of them slides to an index that was looked at already. If signals make further
passes, it is so if besides none of them moves during its own callback. -/
theorem loop_dispatchesOnce_iff (hshape : Shape pipe start) (hcalls : start.calls = []) :
    Acc Next ⟨1, start⟩ ∧
    ∀ trace i l, Run Step ⟨1, start⟩ trace ⟨i, l⟩ → l.pFDs.length ≤ i → (∀ e ∈ trace, e.2.SparesPipe pipe) →
      ((∀ e ∈ trace, e.2.isSignals = false) →
        (DispatchesOnce start l ↔ ∀ q, Remains start l q → ∀ e ∈ trace, ¬e.2.Slides e.1 q)) ∧
      ((∀ q, Remains start l q → ∀ e ∈ trace, ¬e.2.Slides e.1 q ∧ ¬e.2.Moves e.1 q) → DispatchesOnce start l) := by
  refine ⟨wellFounded_next.apply _, fun trace i l hrun hi hpipe => ?_⟩
  have hvalid : Valid start pipe ⟨i, l⟩ :=
    hrun.invariant (fun _ _ _ hvalid hpipe hstep => hvalid.step hpipe hstep) (.init hshape hcalls) hpipe
  rw [dispatchesOnce_iff hvalid]
  refine ⟨fun hquiet => ⟨?_, ?_⟩, ?_⟩
  · intro honce q hremains e he hslides
    obtain ⟨hmem, hq, hreg⟩ := hremains
    have hmissed := run_slides hrun (.init hshape hcalls) hq (hshape.regs_lt q hmem)
      (Or.inl (.init hshape hcalls hmem hq)) hpipe hquiet ⟨e, he, hslides⟩ hreg
    have hcalled := honce q ⟨hmem, hq, hreg⟩
    rw [hmissed.1] at hcalled
    exact absurd hcalled (by simp)
  · intro hslides q hremains
    exact run_callsOf hrun hi hshape hcalls hpipe hremains (hslides q hremains) (fun _ _ => Or.inl trivial)
      fun e he _ => hquiet e he
  · intro hspared q hremains
    exact run_callsOf hrun hi hshape hcalls hpipe hremains (fun e he => (hspared q hremains e he).1)
      (fun e he => Or.inr (hspared q hremains e he).2) fun _ _ => False.elim

end Loop

/-- After a callback, with the pass at index `i`. -/
def EventLoop.handled (l : EventLoop) (i : Nat) (p : PollFD) (ops : List Op) : EventLoop :=
  ((l.call p).applyAll ops).clear i

/-- The self-pipe and two ready descriptors. -/
def pair : EventLoop :=
  ((EventLoop.init 3).applyAll [.add 5, .add 6]).poll fun _ => 1

theorem pair_shape : Shape 3 pair :=
  ((Shape.init 3).applyAll (by decide)).poll _

/-- The handler of the second descriptor deletes the first. -/
theorem loop_dispatchesOnce_pair :
    DispatchesOnce pair ((pair.handled 1 ⟨5, 1, 1⟩ [.add 8]).handled 2 ⟨6, 1, 2⟩ [.del 5]) := by
  have hrun : Run Step ⟨1, pair⟩
      [(⟨1, pair⟩, .callback [.add 8]), (⟨2, pair.handled 1 ⟨5, 1, 1⟩ [.add 8]⟩, .callback [.del 5])]
      ⟨3, (pair.handled 1 ⟨5, 1, 1⟩ [.add 8]).handled 2 ⟨6, 1, 2⟩ [.del 5]⟩ :=
    .cons (.callback _ rfl (by decide) (by decide)) (.single (.callback _ rfl (by decide) (by decide)))
  have hloop := (loop_dispatchesOnce_iff pair_shape rfl).2 _ _ _ hrun (by decide) (by simp [Label.SparesPipe])
  refine (hloop.1 (by simp [Label.isSignals])).mpr fun q hremains e he hslides => ?_
  simp only [List.mem_cons, List.not_mem_nil, or_false] at he
  rcases he with rfl | rfl
  · obtain ⟨j, j', hij, hj, hle, hj'⟩ := hslides
    have hlen : j < 3 := (List.getElem?_eq_some_iff.mp hj).1
    obtain rfl : j = 2 := Nat.le_antisymm (Nat.le_of_lt_succ hlen) hij
    obtain rfl : (⟨6, 1, 2⟩ : PollFD) = q := Option.some.inj hj
    rcases Nat.le_one_iff_eq_zero_or_eq_one.mp hle with rfl | rfl
    · exact absurd hj' (by decide)
    · exact absurd hj' (by decide)
  · obtain ⟨j, j', hij, hj, hle, hj'⟩ := hslides
    have hlen : j < 4 := (List.getElem?_eq_some_iff.mp hj).1
    obtain rfl : j = 3 := Nat.le_antisymm (Nat.le_of_lt_succ hlen) hij
    obtain rfl : (⟨8, 0, 3⟩ : PollFD) = q := Option.some.inj hj
    exact absurd rfl hremains.2.1

theorem loop_not_dispatchesOnce :
    Shape 3 pair ∧ Run Step ⟨1, pair⟩ [(⟨1, pair⟩, .callback [.del 5])] ⟨2, pair.handled 1 ⟨5, 1, 1⟩ [.del 5]⟩ ∧
      (pair.handled 1 ⟨5, 1, 1⟩ [.del 5]).pFDs.length ≤ 2 ∧
      ¬DispatchesOnce pair (pair.handled 1 ⟨5, 1, 1⟩ [.del 5]) := by
  refine ⟨pair_shape, .single (.callback _ rfl (by decide) (by decide)), by decide, fun h => ?_⟩
  exact absurd (h.once ⟨6, 0, 2⟩ (by decide) ⟨6, 1, 2⟩ (by decide) rfl (by decide)) (by decide)

end ServiceManager.Event
