import Mathlib.Data.Fintype.Card
import Mathlib.Data.Set.Finite.Basic
import Mathlib.Logic.Relation

namespace ServiceManager.Traversal

variable {α : Type}

section Visit

/- A traversal goes to the nodes that a node calls, one after the other. A node may stop
the whole traversal after its last call. -/
variable (calls : α → List α) (stops : α → Bool)

/-- The nodes of a list, one after the other, until one stops the traversal. -/
def visitAll (visit : α → Option Bool) (last : Bool) : List α → Option Bool
  | [] => some last
  | b :: bs =>
    match visit b with
    | some true => visitAll visit last bs
    | r => r

/-- Whether the traversal goes on after a node, if it is done with the node at the given
depth. -/
def visit : Nat → α → Option Bool
  | 0, _ => none
  | n + 1, a => visitAll (visit n) (!stops a) (calls a)

/-- Nothing that is reached from the node stops the traversal, nor goes on for ever. -/
inductive Completes : α → Prop
  | intro {a : α} : stops a = false → (∀ b ∈ calls a, Completes b) → Completes a

/-- A node is entered from another once all that are called before it are complete. -/
def Enters (a b : α) : Prop :=
  ∃ before after, calls a = before ++ b :: after ∧ ∀ c ∈ before, Completes calls stops c

variable {calls stops} {visits visits' : α → Option Bool} {last r : Bool} {bs : List α} {n m : Nat} {a b : α}

theorem visitAll_mono (h : ∀ b ∈ bs, ∀ r, visits b = some r → visits' b = some r)
    (hbs : visitAll visits last bs = some r) : visitAll visits' last bs = some r := by
  induction bs with
  | nil => exact hbs
  | cons b bs ih =>
    obtain ⟨hb, h⟩ := List.forall_mem_cons.mp h
    unfold visitAll at hbs ⊢
    cases hvisit : visits b with
    | none => simp [hvisit] at hbs
    | some done =>
      rw [hb done hvisit]
      rw [hvisit] at hbs
      cases done with
      | true => exact ih h hbs
      | false => exact hbs

theorem visitAll_append (as bs : List α) : visitAll visits last (as ++ bs) =
    match visitAll visits true as with
    | some true => visitAll visits last bs
    | r => r := by
  induction as with
  | nil => rfl
  | cons a as ih =>
    rw [List.cons_append, visitAll, visitAll]
    split <;> simp_all

theorem visit_succ (h : visit calls stops n a = some r) : visit calls stops (n + 1) a = some r := by
  induction n generalizing a r with
  | zero => cases h
  | succ n ih => exact visitAll_mono (fun b _ r hb => ih hb) h

theorem visit_mono (hle : n ≤ m) (h : visit calls stops n a = some r) : visit calls stops m a = some r := by
  induction hle with
  | refl => exact h
  | step _ ih => exact visit_succ ih

theorem visitAll_true (h : visitAll visits last bs = some true) : last = true ∧ ∀ b ∈ bs, visits b = some true := by
  induction bs with
  | nil => exact ⟨by simpa [visitAll] using h, by simp⟩
  | cons b bs ih =>
    unfold visitAll at h
    cases hvisit : visits b with
    | none => simp [hvisit] at h
    | some done =>
      rw [hvisit] at h
      cases done with
      | false => cases h
      | true => exact ⟨(ih h).1, List.forall_mem_cons.mpr ⟨hvisit, (ih h).2⟩⟩

theorem completes_of_visit (h : visit calls stops n a = some true) : Completes calls stops a := by
  induction n generalizing a with
  | zero => cases h
  | succ n ih =>
    obtain ⟨hstops, hcalls⟩ := visitAll_true h
    exact .intro (by simpa using hstops) fun b hb => ih (hcalls b hb)

theorem visitAll_of_true (hlast : last = true) (h : ∀ b ∈ bs, ∀ r, visits b = some r → r = true)
    (hbs : visitAll visits last bs = some r) : r = true := by
  induction bs with
  | nil =>
    obtain rfl : last = r := by simpa [visitAll] using hbs
    exact hlast
  | cons b bs ih =>
    obtain ⟨hb, h⟩ := List.forall_mem_cons.mp h
    unfold visitAll at hbs
    cases hvisit : visits b with
    | none => simp [hvisit] at hbs
    | some done =>
      obtain rfl := hb done hvisit
      rw [hvisit] at hbs
      exact ih h hbs

theorem Completes.visit_eq (h : Completes calls stops a) (hvisit : visit calls stops n a = some r) : r = true := by
  induction h generalizing n r with
  | intro hstops _ ih =>
    cases n with
    | zero => cases hvisit
    | succ n => exact visitAll_of_true (by simp [hstops]) (fun b hb r hr => ih b hb hr) hvisit

/-- What is entered is visited. -/
theorem visitAll_entered {before after : List α} (hbs : visitAll visits last (before ++ b :: after) = some r)
    (hbefore : ∀ c ∈ before, ∀ r, visits c = some r → r = true) : ∃ r', visits b = some r' := by
  induction before with
  | nil =>
    rw [List.nil_append, visitAll] at hbs
    cases hvisit : visits b with
    | none => simp [hvisit] at hbs
    | some done => exact ⟨done, rfl⟩
  | cons c before ih =>
    obtain ⟨hc, hbefore⟩ := List.forall_mem_cons.mp hbefore
    rw [List.cons_append, visitAll] at hbs
    cases hvisit : visits c with
    | none => simp [hvisit] at hbs
    | some done =>
      obtain rfl := hc done hvisit
      rw [hvisit] at hbs
      exact ih hbs hbefore

theorem acc_of_visit (h : visit calls stops n a = some r) : Acc (fun b a => Enters calls stops a b) a := by
  induction n generalizing a r with
  | zero => cases h
  | succ n ih =>
    refine .intro a fun b ⟨before, after, hcalls, hbefore⟩ => ?_
    rw [visit, hcalls] at h
    obtain ⟨r', hb⟩ := visitAll_entered h fun c hc r hr => (hbefore c hc).visit_eq hr
    exact ih hb

/-- Nodes of which each ends once those before it are complete end together. -/
theorem exists_visitAll (hbs : ∀ before b after, bs = before ++ b :: after → (∀ c ∈ before, Completes calls stops c) →
    ∃ n r, visit calls stops n b = some r) : ∃ n r, visitAll (visit calls stops n) last bs = some r := by
  induction bs with
  | nil => exact ⟨0, last, rfl⟩
  | cons b bs ih =>
    obtain ⟨n, done, hb⟩ := hbs [] b bs rfl (by simp)
    cases done with
    | false => exact ⟨n, false, by simp [visitAll, hb]⟩
    | true =>
      obtain ⟨m, r, hrest⟩ := ih fun before c after heq hbefore =>
        hbs (b :: before) c after (by rw [heq, List.cons_append])
          (List.forall_mem_cons.mpr ⟨completes_of_visit hb, hbefore⟩)
      refine ⟨max n m, r, ?_⟩
      rw [visitAll, visit_mono (Nat.le_max_left n m) hb]
      exact visitAll_mono (fun c _ r hc => visit_mono (Nat.le_max_right n m) hc) hrest

/-- A traversal ends exactly if no endless chain of nodes is entered. -/
theorem exists_visit_iff_acc (calls : α → List α) (stops : α → Bool) (a : α) :
    (∃ n r, visit calls stops n a = some r) ↔ Acc (fun b a => Enters calls stops a b) a := by
  constructor
  · rintro ⟨n, r, h⟩
    exact acc_of_visit h
  · intro h
    induction h with
    | intro a _ ih =>
      have hcalls : ∃ n r, visitAll (visit calls stops n) (!stops a) (calls a) = some r :=
        exists_visitAll fun before b after hcalls hbefore => ih b ⟨before, after, hcalls, hbefore⟩
      obtain ⟨n, r, h⟩ := hcalls
      exact ⟨n + 1, r, h⟩

end Visit

section Cycle

open Relation

variable {r : α → α → Prop} {a b : α}

theorem acc_of_reflTransGen (h : Acc (fun b a => r a b) a) (hab : ReflTransGen r a b) : Acc (fun b a => r a b) b := by
  induction hab with
  | refl => exact h
  | tail _ hbc ih => exact ih.inv hbc

theorem not_transGen_of_acc (h : Acc (fun b a => r a b) a) : ¬TransGen r a a := by
  induction h with
  | intro a _ ih =>
    intro hcycle
    obtain ⟨b, hab, hba⟩ := TransGen.head'_iff.mp hcycle
    exact ih b hab (TransGen.tail' hba hab)

/-- Where finitely many nodes are reached, no chain is endless exactly if none of them is
reached again from itself. -/
theorem acc_iff_no_cycle (hfinite : {b | ReflTransGen r a b}.Finite) :
    Acc (fun b a => r a b) a ↔ ∀ b, ReflTransGen r a b → ¬TransGen r b b := by
  constructor
  · intro h b hab
    exact not_transGen_of_acc (acc_of_reflTransGen h hab)
  · intro h
    have hsub : Finite {b // ReflTransGen r a b} := hfinite
    let after : {b // ReflTransGen r a b} → {b // ReflTransGen r a b} → Prop := fun c b => TransGen r b.1 c.1
    have htrans : IsTrans _ after := ⟨fun _ _ _ hbc hcd => hcd.trans hbc⟩
    have hirrefl : Std.Irrefl after := ⟨fun b => h b.1 b.2⟩
    have hwf : WellFounded after := Finite.wellFounded_of_trans_of_irrefl after
    have hacc : ∀ b : {b // ReflTransGen r a b}, Acc (fun b a => r a b) b.1 := by
      intro b
      induction b using hwf.induction with
      | h b ih => exact .intro _ fun c hbc => ih ⟨c, b.2.tail hbc⟩ (TransGen.single hbc)
    exact hacc ⟨a, .refl⟩

end Cycle

end ServiceManager.Traversal
