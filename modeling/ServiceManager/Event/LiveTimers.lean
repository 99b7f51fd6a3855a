import Mathlib.Data.List.Nodup
import Mathlib.Logic.Function.Basic
import ServiceManager.Event.Drivers

namespace ServiceManager.Event

theorem live_of_update_none {live : Nat → Option Nat} {id id' reg : Nat}
    (h : Function.update live id none id' = some reg) :
    id' ≠ id ∧ live id' = some reg := by
  by_cases heq : id' = id
  · rw [heq, Function.update_self] at h
    cases h
  · rw [Function.update_of_ne heq] at h
    exact ⟨heq, h⟩

/-- The sources are those of the live timers, by their identifiers, and the one whose handler
is being called. -/
structure LiveTimers (running : Option TimerSource) (srcs : List TimerSource) (regs : Nat) (live : Nat → Option Nat) :
    Prop where
  handlers : (srcs.map TimerSource.handler).Nodup
  regs_lt : ∀ src ∈ srcs, src.handler < regs
  waiting_iff : ∀ src, src ∈ srcs ∧ running ≠ some src ↔ live src.id = some src.handler
  running_mem : ∀ it, running = some it → it ∈ srcs

namespace LiveTimers

variable {running : Option TimerSource} {srcs : List TimerSource} {regs : Nat} {live : Nat → Option Nat} {id reg : Nat}

theorem empty : LiveTimers none [] 0 fun _ => none :=
  ⟨List.nodup_nil, by simp, by simp, by simp⟩

variable (h : LiveTimers running srcs regs live)

include h

theorem mem (hlive : live id = some reg) : { handler := reg, id } ∈ srcs :=
  ((h.waiting_iff { handler := reg, id }).mpr hlive).1

theorem live_lt (hlive : live id = some reg) : reg < regs :=
  h.regs_lt _ (h.mem hlive)

/-- No timer has two identifiers. -/
theorem live_unique {id' : Nat} (hlive : live id = some reg) (hlive' : live id' = some reg) : id' = id :=
  congrArg TimerSource.id (source_unique h.handlers (h.mem hlive) (h.mem hlive') rfl)

/-- Outside of its handler, a source of an identifier is the one of the timer that has it. -/
theorem eq_of_id {src : TimerSource} (hsrc : src ∈ srcs) (hrunning : running ≠ some src)
    (hlive : live src.id = some reg) :
    src = { handler := reg, id := src.id } := by
  have hself : live src.id = some src.handler := (h.waiting_iff src).mp ⟨hsrc, hrunning⟩
  have hreg : src.handler = reg := Option.some.inj (hself.symm.trans hlive)
  rw [← hreg]

theorem running_not_live {it : TimerSource} (hit : running = some it) : live id ≠ some it.handler := by
  intro hlive
  obtain ⟨hmem, hne⟩ := (h.waiting_iff { handler := it.handler, id }).mpr hlive
  have heq := source_unique h.handlers (h.running_mem it hit) hmem rfl
  exact hne (hit.trans (congrArg some heq.symm))

theorem ids (hnone : running = none) : (srcs.map TimerSource.id).Nodup := by
  refine List.Nodup.map_on (fun src hsrc src' hsrc' heq => ?_) (List.Nodup.of_map _ h.handlers)
  have hwaiting : ∀ src : TimerSource, running ≠ some src := by simp [hnone]
  have hlive := (h.waiting_iff src).mp ⟨hsrc, hwaiting src⟩
  have hlive' := (h.waiting_iff src').mp ⟨hsrc', hwaiting src'⟩
  rw [heq, hlive'] at hlive
  exact source_unique h.handlers hsrc' hsrc (Option.some.inj hlive).symm

theorem exists_iff (hnone : running = none) : (∃ src ∈ srcs, src.id = id) ↔ (live id).isSome := by
  constructor
  · rintro ⟨src, hsrc, rfl⟩
    rw [(h.waiting_iff src).mp ⟨hsrc, by simp [hnone]⟩]
    rfl
  · intro hsome
    obtain ⟨reg, hlive⟩ := Option.isSome_iff_exists.mp hsome
    exact ⟨_, h.mem hlive, rfl⟩

/-- A timer with an identifier that no live one has. -/
theorem add (hfree : live id = none) :
    LiveTimers running (srcs ++ [{ handler := regs, id }]) (regs + 1) (Function.update live id (some regs)) where
  handlers := nodup_map_append h.handlers fun src hsrc => Nat.ne_of_lt (h.regs_lt src hsrc)
  regs_lt := by
    intro src hsrc
    rcases List.mem_append.mp hsrc with hsrc | hsrc
    · exact Nat.lt_succ_of_lt (h.regs_lt src hsrc)
    · rw [List.mem_singleton.mp hsrc]
      exact Nat.lt_succ_self regs
  waiting_iff := by
    intro src
    by_cases hid : src.id = id
    · have hold : ¬(src ∈ srcs ∧ running ≠ some src) := by
        rw [h.waiting_iff, hid, hfree]
        simp
      have hnew : src = { handler := regs, id } → running ≠ some src := by
        intro heq hrunning
        have hlt := h.regs_lt src (h.running_mem src hrunning)
        rw [heq] at hlt
        exact Nat.lt_irrefl regs hlt
      rw [hid, Function.update_self, List.mem_append, List.mem_singleton]
      constructor
      · rintro ⟨hsrc | rfl, hrunning⟩
        · exact absurd ⟨hsrc, hrunning⟩ hold
        · rfl
      · intro heq
        have hsrc : src = { handler := regs, id } := by
          rw [Option.some.inj heq, ← hid]
        exact ⟨Or.inr hsrc, hnew hsrc⟩
    · have hne : src ≠ { handler := regs, id } := fun heq => hid (congrArg TimerSource.id heq)
      rw [Function.update_of_ne hid, ← h.waiting_iff, List.mem_append, List.mem_singleton, or_iff_left hne]
  running_mem := fun it hit => List.mem_append_left _ (h.running_mem it hit)

/-- A call that adds nothing is counted too. -/
theorem skip : LiveTimers running srcs (regs + 1) live :=
  { h with regs_lt := fun src hsrc => Nat.lt_succ_of_lt (h.regs_lt src hsrc) }

section Delete

variable (hother : ∀ it, running = some it → it.id ≠ id)

include hother

/-- The first source of an identifier is that of the timer that has it. -/
theorem erase_live (hlive : live id = some reg) :
    (srcs.eraseP fun src => src.id = id) = srcs.filter fun src => src.handler ≠ reg := by
  refine eraseP_eq_filter h.handlers (h.mem hlive) fun src hsrc hid => ?_
  have hrunning : running ≠ some src := fun hit => hother src hit hid
  subst hid
  exact h.eq_of_id hsrc hrunning hlive

theorem erase_none (hfree : live id = none) : (srcs.eraseP fun src => src.id = id) = srcs := by
  refine List.eraseP_of_forall_not fun src hsrc hid => ?_
  have hid : src.id = id := of_decide_eq_true hid
  have hlive := (h.waiting_iff src).mp ⟨hsrc, fun hit => hother src hit hid⟩
  rw [hid, hfree] at hlive
  cases hlive

/-- The identifier of a deleted timer is free again. -/
theorem delete : LiveTimers running (srcs.eraseP fun src => src.id = id) regs (Function.update live id none) := by
  cases hlive : live id with
  | none =>
    rw [h.erase_none hother hlive, ← hlive, Function.update_eq_self]
    exact h
  | some reg =>
    rw [h.erase_live hother hlive]
    refine ⟨h.handlers.sublist (List.filter_sublist.map _),
      fun src hsrc => h.regs_lt src (List.mem_filter.mp hsrc).1, ?_, ?_⟩
    · intro src
      have hkept : src ∈ srcs.filter (fun src => src.handler ≠ reg) ↔ src ∈ srcs ∧ src.handler ≠ reg := by
        simp
      rw [hkept, and_right_comm, h.waiting_iff]
      by_cases hid : src.id = id
      · rw [hid, Function.update_self, hlive]
        simp [eq_comm]
      · rw [Function.update_of_ne hid]
        refine and_iff_left_of_imp fun hself heq => hid ?_
        rw [heq] at hself
        exact h.live_unique hlive hself
    · intro it hit
      refine List.mem_filter.mpr ⟨h.running_mem it hit, decide_eq_true fun heq => ?_⟩
      have hnot : live id ≠ some it.handler := h.running_not_live hit
      rw [heq] at hnot
      exact hnot hlive

end Delete

/-- The handler of a timer is called. -/
theorem fire {it : TimerSource} (hnone : running = none) (hfind : (srcs.find? fun src => src.id = id) = some it) :
    it.id = id ∧ live id = some it.handler ∧ LiveTimers (some it) srcs regs (Function.update live id none) := by
  have hid : it.id = id := by simpa using List.find?_some hfind
  have hmem : it ∈ srcs := List.mem_of_find?_eq_some hfind
  have hlive : live id = some it.handler := by
    rw [← hid]
    exact (h.waiting_iff it).mp ⟨hmem, by simp [hnone]⟩
  refine ⟨hid, hlive, h.handlers, h.regs_lt, fun src => ?_, fun it' hit => Option.some.inj hit ▸ hmem⟩
  have hwaiting : src ∈ srcs ↔ live src.id = some src.handler := by
    rw [← h.waiting_iff src, hnone]
    simp
  rw [hwaiting]
  by_cases heq : src.id = id
  · rw [heq, Function.update_self, hlive]
    have hsame : it.handler = src.handler → it = src := by
      intro hhandler
      have hsrc : src ∈ srcs := by
        rw [hwaiting, heq, hlive, hhandler]
      exact source_unique h.handlers hsrc hmem hhandler
    simpa using hsame
  · rw [Function.update_of_ne heq]
    refine and_iff_left fun hit => heq ?_
    rw [← Option.some.inj hit, hid]

/-- The source goes once the handler has returned. -/
theorem finish {it : TimerSource} (hit : running = some it) : LiveTimers none (srcs.erase it) regs live := by
  have hnodup : srcs.Nodup := List.Nodup.of_map _ h.handlers
  refine ⟨h.handlers.sublist (List.erase_sublist.map _), fun src hsrc => h.regs_lt src (List.mem_of_mem_erase hsrc),
    fun src => ?_, by simp⟩
  rw [hnodup.mem_erase_iff, ← h.waiting_iff src, hit]
  simp [and_comm, eq_comm]

end LiveTimers

end ServiceManager.Event
