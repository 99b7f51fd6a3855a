import Mathlib.Data.Finset.Card
import Mathlib.Data.Finset.Range
import Mathlib.Logic.Function.Basic

namespace ServiceManager

/-- Reference counts of objects. The addresses from `next` on are not in use yet. -/
structure Refs where
  count : Nat → Int := fun _ => 0
  next : Nat := 0

namespace Refs

/-- A new object, with one reference. -/
def alloc (r : Refs) : Refs :=
  { count := Function.update r.count r.next 1, next := r.next + 1 }

def unref (r : Refs) (a : Nat) : Refs :=
  { r with count := Function.update r.count a (r.count a - 1) }

/-- The objects that have references. -/
def live (r : Refs) : Finset Nat :=
  (Finset.range r.next).filter (0 < r.count ·)

variable {r : Refs} {a b : Nat}

theorem mem_live : a ∈ r.live ↔ a < r.next ∧ 0 < r.count a := by
  simp [live]

@[simp] theorem next_alloc (r : Refs) : r.alloc.next = r.next + 1 := rfl

@[simp] theorem next_unref (r : Refs) (a : Nat) : (r.unref a).next = r.next := rfl

@[simp] theorem count_alloc_next (r : Refs) : r.alloc.count r.next = 1 :=
  Function.update_self _ _ _

theorem count_alloc (h : a < r.next) : r.alloc.count a = r.count a :=
  Function.update_of_ne (Nat.ne_of_lt h) _ _

@[simp] theorem count_unref_self (r : Refs) (a : Nat) : (r.unref a).count a = r.count a - 1 :=
  Function.update_self _ _ _

theorem count_unref (h : b ≠ a) : (r.unref a).count b = r.count b :=
  Function.update_of_ne h _ _

theorem card_live_alloc (r : Refs) : r.alloc.live.card = r.live.card + 1 := by
  have hnew : r.next ∉ r.live := fun hmem => Nat.lt_irrefl _ (mem_live.mp hmem).1
  have hlive : r.alloc.live = insert r.next r.live := by
    ext b
    rw [Finset.mem_insert, mem_live, mem_live, next_alloc]
    by_cases hb : b = r.next
    · subst hb
      simp
    · by_cases hlt : b < r.next
      · rw [count_alloc hlt]
        omega
      · omega
  rw [hlive, Finset.card_insert_of_notMem hnew]

/-- The last reference to an object is released. -/
theorem card_live_unref (hlt : a < r.next) (hone : r.count a = 1) : (r.unref a).live.card + 1 = r.live.card := by
  have hmem : a ∈ r.live := mem_live.mpr ⟨hlt, by omega⟩
  have hlive : (r.unref a).live = r.live.erase a := by
    ext b
    rw [Finset.mem_erase, mem_live, mem_live, next_unref]
    by_cases hb : b = a
    · subst hb
      simp [hone]
    · rw [count_unref hb]
      simp [hb]
  rw [hlive, Finset.card_erase_add_one hmem]

end Refs

end ServiceManager
