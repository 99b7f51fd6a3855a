import Mathlib.Data.List.Basic
import Mathlib.Logic.Function.Basic

namespace ServiceManager.Memory

variable {α : Type} {mem mem' : Nat → α} {n i : Nat}

/-- `count` elements are moved from `src` on to `dst` on. -/
def memmove (mem : Nat → α) (dst src count : Nat) : Nat → α :=
  fun i => if dst ≤ i ∧ i < dst + count then mem (i - dst + src) else mem i

/-- The array of the first `n` elements. -/
def contents (mem : Nat → α) (n : Nat) : List α :=
  (List.range n).map mem

@[simp] theorem length_contents : (contents mem n).length = n := by
  simp [contents]

@[simp] theorem getElem_contents (h : i < (contents mem n).length) : (contents mem n)[i] = mem i := by
  simp [contents]

theorem contents_congr (h : ∀ i < n, mem' i = mem i) : contents mem' n = contents mem n :=
  List.map_congr_left fun i hi => h i (List.mem_range.mp hi)

/-- The array grows by one element. -/
theorem contents_succ_update (a : α) : contents (Function.update mem n a) (n + 1) = contents mem n ++ [a] := by
  have hbefore : contents (Function.update mem n a) n = contents mem n :=
    contents_congr fun i hi => Function.update_of_ne (Nat.ne_of_lt hi) _ _
  have hlast : Function.update mem n a n = a := Function.update_self _ _ _
  rw [contents, List.range_succ, List.map_append, ← contents, hbefore, List.map_singleton, hlast]

/-- An element is removed by moving up those after it. What is moved to the end from beyond
the array does not matter. -/
theorem contents_memmove (h : i < n) : contents (memmove mem i (i + 1) (n - i))
    (n - 1) = (contents mem n).eraseIdx i := by
  have hlength : ((contents mem n).eraseIdx i).length = n - 1 := by
    rw [List.length_eraseIdx_of_lt (by simpa using h), length_contents]
  refine List.ext_getElem (by simp [hlength]) fun j hj _ => ?_
  rw [length_contents] at hj
  rw [getElem_contents, List.getElem_eraseIdx]
  by_cases hji : j < i
  · rw [dif_pos hji, getElem_contents, memmove, if_neg (by omega)]
  · rw [dif_neg hji, getElem_contents, memmove, if_pos (by omega)]
    congr 1
    omega

end ServiceManager.Memory
