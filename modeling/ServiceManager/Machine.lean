import Mathlib.Algebra.Group.Nat.Defs
import Mathlib.Algebra.Ring.Int.Defs
import Mathlib.Data.List.Basic
import Mathlib.Tactic.Common

namespace ServiceManager.Machine

/-- Conversion to a 32-bit `int`. -/
def int32 (n : Int) : Int :=
  n.bmod (2 ^ 32)

/-- Conversion to a 64-bit `size_t`. -/
def size (n : Int) : Nat :=
  (n % 2 ^ 64).toNat

theorem int32_eq_self {n : Int} (hlow : -2 ^ 31 ≤ n) (hhigh : n < 2 ^ 31) : int32 n = n := by
  unfold int32
  rw [Int.bmod_def]
  split <;> omega

theorem int32_natCast {n : Nat} (h : n < 2 ^ 31) : int32 n = n :=
  int32_eq_self (by omega) (by omega)

theorem int32_emod (n : Int) : int32 (n % 2 ^ 32) = int32 n := by
  exact_mod_cast Int.emod_bmod n (2 ^ 32)

theorem int32_lt (n : Int) : int32 n < 2 ^ 31 := by
  unfold int32
  rw [Int.bmod_def]
  split <;> omega

theorem le_int32 (n : Int) : -2 ^ 31 ≤ int32 n := by
  unfold int32
  rw [Int.bmod_def]
  split <;> omega

theorem size_of_nonneg {n : Int} (hlow : 0 ≤ n) (hhigh : n < 2 ^ 31) : size n = n.toNat := by
  unfold size
  omega

/-- The memory of a 32-bit `int`, least significant byte first. -/
def hostBytes (n : Int) : List UInt8 :=
  let word := (n % 2 ^ 32).toNat
  [UInt8.ofNat word, UInt8.ofNat (word / 2 ^ 8), UInt8.ofNat (word / 2 ^ 16), UInt8.ofNat (word / 2 ^ 24)]

/-- The 32-bit `int` with the given memory. -/
def ofHostBytes (bytes : List UInt8) : Int :=
  int32 (bytes.foldr (fun byte word => byte.toNat + 2 ^ 8 * word) 0 : Nat)

theorem ofHostBytes_lt (bytes : List UInt8) : ofHostBytes bytes < 2 ^ 31 :=
  int32_lt _

theorem le_ofHostBytes (bytes : List UInt8) : -2 ^ 31 ≤ ofHostBytes bytes :=
  le_int32 _

@[simp] theorem length_hostBytes (n : Int) : (hostBytes n).length = 4 :=
  rfl

theorem hostBytes_ne_nil (n : Int) : hostBytes n ≠ [] :=
  List.cons_ne_nil _ _

theorem ofHostBytes_hostBytes (n : Int) : ofHostBytes (hostBytes n) = int32 n := by
  have hword : ((hostBytes n).foldr (fun byte word => byte.toNat + 2 ^ 8 * word) 0 : Nat) = (n % 2 ^ 32).toNat := by
    simp only [hostBytes, List.foldr_cons, List.foldr_nil, UInt8.toNat_ofNat']
    omega
  unfold ofHostBytes
  rw [hword, Int.toNat_of_nonneg (Int.emod_nonneg n (by decide)), int32_emod]

end ServiceManager.Machine
