import ServiceManager.Machine

namespace ServiceManager.Core

open Machine

/-- The fields are 64 bits wide. -/
structure Timespec where
  tv_sec : Int
  tv_nsec : Int

/-- The result of 64-bit arithmetic, which has none where it overflows. -/
def long (n : Int) : Option Int :=
  if -2 ^ 63 ≤ n ∧ n < 2 ^ 63 then some n else none

/-- A pointer to no time is a wait without an end. -/
def timeSpecToMSecs (ts : Option Timespec) : Option Int :=
  match ts with
  | none => some (-1)
  | some ts => do
    let msecs := int32 (ts.tv_nsec.tdiv 1000000)
    let secs ← long (ts.tv_sec * 1000)
    let sum ← long (msecs + secs)
    return int32 sum

/-- How long `poll` waits: the number of milliseconds, or for ever. -/
def pollWait (timeout : Int) : Option Nat :=
  if timeout < 0 then none else some timeout.toNat

namespace Timespec

variable (ts : Timespec)

/-- A length of time. -/
structure Finite : Prop where
  sec_nonneg : 0 ≤ ts.tv_sec
  sec_lt : ts.tv_sec < 2 ^ 63
  nsec_nonneg : 0 ≤ ts.tv_nsec
  nsec_lt : ts.tv_nsec < 10 ^ 9

/-- The whole milliseconds in it. -/
def msecs : Int :=
  (ts.tv_sec * 10 ^ 9 + ts.tv_nsec) / 10 ^ 6

/-- The timeout is a wait with an end, after the milliseconds where an `int` holds them. -/
structure StaysFinite (timeout : Int) : Prop where
  nonneg : 0 ≤ timeout
  exact : ts.msecs < 2 ^ 31 → timeout = ts.msecs
  ends : (pollWait timeout).isSome

end Timespec

variable {ts : Timespec}

theorem pollWait_isSome_iff (timeout : Int) : (pollWait timeout).isSome ↔ 0 ≤ timeout := by
  unfold pollWait
  split
  · rename_i hneg
    exact iff_of_false Bool.false_ne_true (by omega)
  · rename_i hnonneg
    exact iff_of_true rfl (by omega)

theorem Timespec.msecs_eq (ts : Timespec) : ts.msecs = ts.tv_sec * 1000 + ts.tv_nsec / 1000000 := by
  unfold msecs
  omega

theorem Timespec.Finite.msecs_nonneg (h : ts.Finite) : 0 ≤ ts.msecs := by
  have hsec := h.sec_nonneg
  have hnsec := h.nsec_nonneg
  unfold msecs
  omega

theorem long_eq_some {n m : Int} (h : long n = some m) : m = n ∧ n < 2 ^ 63 := by
  unfold long at h
  split at h
  · rename_i hbounds
    exact ⟨(Option.some.inj h).symm, hbounds.2⟩
  · cases h

theorem long_of_lt {n : Int} (hlow : 0 ≤ n) (hhigh : n < 2 ^ 63) : long n = some n := by
  rw [long, if_pos ⟨by omega, hhigh⟩]

/-- The milliseconds are narrowed to an `int`, if 64 bits hold them. -/
theorem timeSpecToMSecs_eq_some_iff (h : ts.Finite) (timeout : Int) :
    timeSpecToMSecs (some ts) = some timeout ↔ ts.msecs < 2 ^ 63 ∧ timeout = int32 ts.msecs := by
  have hsec := h.sec_nonneg
  have hnsec := h.nsec_nonneg
  have hlt := h.nsec_lt
  have hmsecs : int32 (ts.tv_nsec.tdiv 1000000) = ts.tv_nsec / 1000000 := by
    rw [Int.tdiv_eq_ediv_of_nonneg hnsec]
    exact int32_eq_self (by omega) (by omega)
  rw [timeSpecToMSecs, hmsecs, ts.msecs_eq]
  constructor
  · intro heq
    obtain ⟨secs, hsecs, heq⟩ := Option.bind_eq_some_iff.mp heq
    obtain ⟨sum, hsum, heq⟩ := Option.bind_eq_some_iff.mp heq
    obtain ⟨rfl, _⟩ := long_eq_some hsecs
    obtain ⟨rfl, hbound⟩ := long_eq_some hsum
    rw [Int.add_comm] at heq hbound
    exact ⟨hbound, (Option.some.inj heq).symm⟩
  · rintro ⟨hbound, rfl⟩
    have hsecs := long_of_lt (n := ts.tv_sec * 1000) (by omega) (by omega)
    have hsum := long_of_lt (n := ts.tv_nsec / 1000000 + ts.tv_sec * 1000) (by omega) (by omega)
    rw [hsecs, Int.add_comm (ts.tv_sec * 1000)]
    change (long (ts.tv_nsec / 1000000 + ts.tv_sec * 1000) >>= fun sum => some (int32 sum)) = _
    rw [hsum]
    rfl

theorem int32_nonneg_iff (n : Int) : 0 ≤ int32 n ↔ n % 2 ^ 32 < 2 ^ 31 := by
  unfold int32
  rw [Int.bmod_def]
  split <;> omega

/-- A wait stays finite exactly if its milliseconds fit in 64 bits, and the lower 32 of them
are no negative number. -/
theorem timeSpecToMSecs_staysFinite_iff (ts : Timespec) (h : ts.Finite) :
    (∃ timeout, timeSpecToMSecs (some ts) = some timeout ∧ ts.StaysFinite timeout) ↔
      ts.msecs < 2 ^ 63 ∧ ts.msecs % 2 ^ 32 < 2 ^ 31 := by
  constructor
  · rintro ⟨timeout, heq, hfinite⟩
    obtain ⟨hbound, rfl⟩ := (timeSpecToMSecs_eq_some_iff h timeout).mp heq
    exact ⟨hbound, (int32_nonneg_iff _).mp hfinite.nonneg⟩
  · rintro ⟨hbound, hlow⟩
    have hnonneg := (int32_nonneg_iff ts.msecs).mpr hlow
    have hmsecs := h.msecs_nonneg
    refine ⟨int32 ts.msecs, (timeSpecToMSecs_eq_some_iff h _).mpr ⟨hbound, rfl⟩, hnonneg, fun hfits => ?_, ?_⟩
    · exact int32_eq_self (by omega) hfits
    · exact (pollWait_isSome_iff _).mpr hnonneg

/-- A second and a half. -/
theorem timeSpecToMSecs_staysFinite_second :
    ∃ timeout, timeSpecToMSecs (some ⟨1, 500000000⟩) = some timeout ∧ Timespec.StaysFinite ⟨1, 500000000⟩ timeout :=
  (timeSpecToMSecs_staysFinite_iff ⟨1, 500000000⟩ ⟨by decide, by decide, by decide, by decide⟩).mpr
    ⟨by decide, by decide⟩

/-- A wait of almost 25 days becomes one without an end. -/
theorem timeSpecToMSecs_infinite :
    Timespec.Finite ⟨2147484, 0⟩ ∧ timeSpecToMSecs (some ⟨2147484, 0⟩) = some (-2147483296) ∧
      pollWait (-2147483296) = none ∧ ¬Timespec.StaysFinite ⟨2147484, 0⟩ (-2147483296) :=
  ⟨⟨by decide, by decide, by decide, by decide⟩, by decide, by decide, fun h => absurd h.nonneg (by decide)⟩

end ServiceManager.Core
