import ServiceManager.Event.Tables

namespace ServiceManager.Event

open Memory

namespace PollLoop

variable {s : PollLoop} {r : Int × PollLoop} {handler reg : Nat} {fd sigNum : Int} {events : BitVec 32}
  {realloc : Except Errno Block} {emplaced : Bool} {sigaction timer_create timer_settime : Except Errno Unit}

theorem undoes_of_same (hsources : r.2.toSources = s.toSources) (hnPFDs : r.2.nPFDs = s.nPFDs)
    (hpFDs : r.2.pFDs = s.pFDs) :
    s.Undoes r := by
  refine fun _ => ⟨hsources, hnPFDs, ?_⟩
  rw [entries, hnPFDs, hpFDs, entries]

theorem undoes_of_nonneg (h : 0 ≤ r.1) : s.Undoes r :=
  fun hneg => absurd hneg (Int.not_lt.mpr h)

/-- What is left once the block has moved and is lost. -/
theorem lost_entries_eq_iff : ({ s with pFDs := fun _ => none } : PollLoop).entries = s.entries ↔
    ∀ p ∈ s.entries, p = none := by
  have hlost : ({ s with pFDs := fun _ => none } : PollLoop).entries = List.replicate s.entries.length none := by
    refine List.ext_getElem (by simp [entries]) fun i _ _ => ?_
    simp [entries]
  rw [hlost, eq_comm, List.eq_replicate_iff]
  exact and_iff_right rfl

/-- If the table was moved and nothing was added, what was in the table is lost. -/
theorem addFD_undoes_iff :
    s.Undoes (s.addFD handler fd events realloc emplaced) ↔
      (emplaced = false → ∀ b, realloc = .ok b → b.moved = true → ∀ p ∈ s.entries, p = none) := by
  cases realloc with
  | error errno => exact iff_of_true (undoes_of_same rfl rfl rfl) (by simp)
  | ok b =>
    cases emplaced with
    | true => exact iff_of_true (undoes_of_nonneg (Int.le_refl 0)) (by simp)
    | false =>
      cases hmoved : b.moved with
      | false =>
        refine iff_of_true (undoes_of_same rfl rfl ?_) (by simp [hmoved])
        simp [addFD, hmoved]
      | true =>
        have hentries : (s.addFD handler fd events (.ok b) false).2.entries =
            ({ s with pFDs := fun _ => none } : PollLoop).entries := by
          simp [addFD, hmoved]
        rw [← lost_entries_eq_iff, ← hentries]
        constructor
        · intro h _ _ _ _
          exact (h neg_ENOMEM).2.2
        · intro h _
          exact ⟨rfl, rfl, h rfl b rfl hmoved⟩

theorem addSignal_undoes_iff : s.Undoes (s.addSignal handler sigNum emplaced sigaction) ↔ emplaced = true := by
  cases emplaced with
  | false =>
    refine iff_of_false (fun h => ?_) (by simp)
    have hnPFDs : s.nPFDs - 1 = s.nPFDs := (h neg_ENOMEM).2.1
    omega
  | true =>
    refine iff_of_true ?_ rfl
    cases sigaction with
    | ok => exact undoes_of_nonneg (Int.le_refl 0)
    | error errno =>
      refine undoes_of_same ?_ rfl rfl
      simp [addSignal]

theorem addTimer_undoes : s.Undoes (s.addTimer reg emplaced timer_create timer_settime) := by
  unfold addTimer
  cases s.freeEntry with
  | none => exact undoes_of_same rfl rfl rfl
  | some entryId =>
    cases emplaced with
    | false => exact undoes_of_same rfl rfl rfl
    | true =>
      cases timer_create with
      | error errno => exact undoes_of_same (by simp [touch]) rfl rfl
      | ok =>
        cases timer_settime with
        | error errno => exact undoes_of_same (by simp [touch]) rfl rfl
        | ok => exact undoes_of_nonneg (Int.natCast_nonneg entryId)

end PollLoop

theorem popBack_ne_self {α : Type} {l l' : List α} (h : popBack l = some l') : l' ≠ l := by
  unfold popBack at h
  split at h
  · cases h
  · rename_i hne
    rintro rfl
    have hlength := congrArg List.length (Option.some.inj h)
    have hpos : 0 < l'.length := List.length_pos_iff.mpr hne
    rw [List.length_dropLast] at hlength
    omega

namespace Sources

variable {s : Sources} {handler reg : Nat} {fd signum rand left : Int} {events : BitVec 32} {emplaced : Bool}
  {read write add signal delete : Except Errno Unit}

theorem undoes_same (value : Int) : s.Undoes (some (value, s)) :=
  ⟨value, s, rfl, fun _ => rfl⟩

theorem undoes_some_iff {value : Int} {s' : Sources} : s.Undoes (some (value, s')) ↔ (value < 0 → s' = s) := by
  constructor
  · rintro ⟨_, _, ⟨⟩, h⟩
    exact h
  · exact fun h => ⟨value, s', rfl, h⟩

theorem addFD_undoes : s.Undoes (s.addFD handler fd events emplaced read write delete) := by
  cases emplaced with
  | false => exact undoes_same _
  | true =>
    simp only [addFD, popBack_append, if_true]
    split
    · exact undoes_same _
    · exact undoes_same _
    · exact undoes_some_iff.mpr fun hneg => absurd hneg (Int.lt_irrefl 0)

/-- One source too many is taken back where the filter stays; and the value is anything
where all goes well. -/
theorem addSignal_undoes_iff :
    s.Undoes (s.addSignal handler signum emplaced add signal delete left) ↔
      (emplaced = true → add = .ok () →
        (∀ errno, signal = .error errno → delete = .ok ()) ∧ (signal = .ok () → 0 ≤ left)) := by
  cases emplaced with
  | false => exact iff_of_true (undoes_same _) (by simp)
  | true =>
    cases add with
    | error errno =>
      refine iff_of_true ?_ (by simp)
      simp only [addSignal, popBack_append, if_true]
      exact undoes_same _
    | ok =>
      cases signal with
      | ok =>
        have hne : ({ s with sigSources := s.sigSources ++ [{ handler, sigNum := signum }] } : Sources) ≠ s :=
          fun heq => absurd (congrArg (List.length ∘ Sources.sigSources) heq) (by simp)
        simp only [addSignal, if_true, undoes_some_iff]
        simp [hne]
      | error olderrno =>
        cases delete with
        | ok =>
          refine iff_of_true ?_ (by simp)
          simp only [addSignal, popBack_append, if_true]
          exact undoes_same _
        | error errno =>
          refine iff_of_false (fun h => ?_) (by simp)
          obtain ⟨value, s', hresult, hundone⟩ := h
          simp only [addSignal, popBack_append, if_true, Option.bind_eq_bind, Option.bind_some,
            Option.bind_eq_some_iff] at hresult
          obtain ⟨sigSources, hpop, heq⟩ := hresult
          obtain ⟨rfl, rfl⟩ := Prod.mk.inj (Option.some.inj heq)
          exact popBack_ne_self hpop (congrArg Sources.sigSources (hundone (Int.neg_neg_of_pos errno.property)))

theorem addTimer_undoes : s.Undoes (s.addTimer reg rand emplaced add) := by
  cases emplaced with
  | false => exact undoes_same _
  | true =>
    cases add with
    | error errno =>
      simp only [addTimer, popBack_append, if_true]
      exact undoes_same _
    | ok => exact undoes_some_iff.mpr fun hneg => absurd hneg (Int.not_lt.mpr (Int.natCast_nonneg _))

end Sources

/-- A registration that fails is undone, with these exceptions. In the Poll driver `addFD`
loses the array where it has moved and there is no memory for the source, and `addSignal`
counts one element of it too few where there is none. In the KQueue driver `addSignal` takes
back a source of another where the filter cannot be deleted either, and returns anything at
all where it does not fail. -/
theorem registration_undoes_iff (emplaced : Bool) :
    (∀ (s : PollLoop) (handler : Nat) (fd : Int) (events : BitVec 32) (realloc : Except Errno Block),
      s.Undoes (s.addFD handler fd events realloc emplaced) ↔
        (emplaced = false → ∀ b, realloc = .ok b → b.moved = true → ∀ p ∈ s.entries, p = none)) ∧
    (∀ (s : PollLoop) (handler : Nat) (sigNum : Int) (sigaction : Except Errno Unit),
      s.Undoes (s.addSignal handler sigNum emplaced sigaction) ↔ emplaced = true) ∧
    (∀ (s : PollLoop) (reg : Nat) (timer_create timer_settime : Except Errno Unit),
      s.Undoes (s.addTimer reg emplaced timer_create timer_settime)) ∧
    (∀ (s : Sources) (handler : Nat) (fd : Int) (events : BitVec 32) (read write delete : Except Errno Unit),
      s.Undoes (s.addFD handler fd events emplaced read write delete)) ∧
    (∀ (s : Sources) (handler : Nat) (signum : Int) (add signal delete : Except Errno Unit) (left : Int),
      s.Undoes (s.addSignal handler signum emplaced add signal delete left) ↔
        (emplaced = true → add = .ok () →
          (∀ errno, signal = .error errno → delete = .ok ()) ∧ (signal = .ok () → 0 ≤ left))) ∧
    (∀ (s : Sources) (reg : Nat) (rand : Int) (add : Except Errno Unit),
      s.Undoes (s.addTimer reg rand emplaced add)) := by
  refine ⟨fun s handler fd events realloc => ?_, fun s handler sigNum sigaction => ?_,
    fun s reg timer_create timer_settime => ?_, fun s handler fd events read write delete => ?_,
    fun s handler signum add signal delete left => ?_, fun s reg rand add => ?_⟩
  · exact PollLoop.addFD_undoes_iff
  · exact PollLoop.addSignal_undoes_iff
  · exact PollLoop.addTimer_undoes
  · exact Sources.addFD_undoes
  · exact Sources.addSignal_undoes_iff
  · exact Sources.addTimer_undoes

/-- The self-pipe alone, as `init` leaves it. -/
def selfPipe : PollLoop where
  nPFDs := 1
  pFDs := fun i => if i = 0 then some { fd := 3, events := 1, revents := 0 } else none

/-- A handler of signal 2. -/
def oneSignal : Sources where
  sigSources := [{ handler := 7, sigNum := 2 }]

/-- There is no memory for a source, of a signal in the Poll driver or of a descriptor once
the array has moved; and `signal` fails in the KQueue driver, and so does what should undo
it: the handler that was there is gone. -/
theorem registration_not_undone :
    ¬selfPipe.Undoes (selfPipe.addSignal 7 2 false (.ok ())) ∧
    ¬selfPipe.Undoes (selfPipe.addFD 7 5 1 (.ok { moved := true, beyond := fun _ => none }) false) ∧
    ¬oneSignal.Undoes (oneSignal.addSignal 8 9 true (.ok ()) (.error ⟨22, by decide⟩) (.error ⟨2, by decide⟩) 0) := by
  refine ⟨?_, ?_, ?_⟩
  · rw [PollLoop.addSignal_undoes_iff]
    simp
  · rw [PollLoop.addFD_undoes_iff]
    intro h
    have hnone := h rfl _ rfl rfl (some { fd := 3, events := 1, revents := 0 }) (List.mem_singleton_self _)
    cases hnone
  · rw [Sources.addSignal_undoes_iff]
    intro h
    cases (h rfl rfl).1 _ rfl

end ServiceManager.Event
