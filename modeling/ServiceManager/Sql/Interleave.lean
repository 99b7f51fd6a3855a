import Mathlib.Data.List.Basic
import Mathlib.Data.List.Flatten
import Mathlib.Data.List.Pairwise
import Mathlib.Data.List.Perm.Basic

namespace ServiceManager.Sql

variable {α β τ : Type} [DecidableEq τ] {cs : List α} {f : α → List β} {place : α → τ} {tag : β → τ}

theorem filter_tag_of_ne {c : α} (htag : ∀ e ∈ f c, tag e = place c) {t : τ} (hne : place c ≠ t) :
    (f c).filter (fun e => tag e = t) = [] := by
  rw [List.filter_eq_nil_iff]
  intro e he
  simpa [htag e he] using hne

theorem filter_tag_self {c : α} (htag : ∀ e ∈ f c, tag e = place c) :
    (f c).filter (fun e => tag e = place c) = f c := by
  rw [List.filter_eq_self]
  intro e he
  simpa using htag e he

/-- Where lists that go to one place are all empty, nothing carries its tag. -/
theorem filter_flatMap_eq_nil (htag : ∀ c ∈ cs, ∀ e ∈ f c, tag e = place c) {t : τ}
    (hempty : ∀ c ∈ cs, place c = t → f c = []) : (cs.flatMap f).filter (fun e => tag e = t) = [] := by
  rw [List.filter_flatMap, List.flatMap_eq_nil_iff]
  intro c hc
  by_cases hplace : place c = t
  · rw [hempty c hc hplace]
    rfl
  · exact filter_tag_of_ne (htag c hc) hplace

/-- Of what several make, the part at one place is as long as what is made for it. -/
theorem length_filter_flatMap (htag : ∀ c ∈ cs, ∀ e ∈ f c, tag e = place c)
    (hpair : cs.Pairwise fun c d => place c = place d → f c = [] ∧ f d = []) {c : α} (hc : c ∈ cs) :
    ((cs.flatMap f).filter (fun e => tag e = place c)).length = (f c).length := by
  induction cs with
  | nil => cases hc
  | cons d ds ih =>
    obtain ⟨hd, hds⟩ := List.pairwise_cons.mp hpair
    have htag' : ∀ c ∈ ds, ∀ e ∈ f c, tag e = place c := fun c hc => htag c (List.mem_cons_of_mem d hc)
    rw [List.flatMap_cons, List.filter_append, List.length_append]
    rcases List.mem_cons.mp hc with rfl | hc
    · have hrest := filter_flatMap_eq_nil htag' fun d hd' heq => (hd d hd' heq.symm).2
      rw [filter_tag_self (htag c (List.mem_cons_self ..)), hrest]
      rfl
    · have hhead : (f d).filter (fun e => tag e = place c) = [] := by
        by_cases hplace : place d = place c
        · rw [(hd c hc hplace).1]
          rfl
        · exact filter_tag_of_ne (htag d (List.mem_cons_self ..)) hplace
      rw [hhead, ih htag' hds hc]
      exact Nat.zero_add _

/-- Several lists are written interleaved, each element tagged with the place its
list goes to. Every list can be told apart again exactly when no two lists go to
one place, empty ones aside. -/
theorem filter_tag_eq_iff {es : List β} (htag : ∀ c ∈ cs, ∀ e ∈ f c, tag e = place c)
    (hsub : ∀ c ∈ cs, (f c).Sublist es) (hperm : es.Perm (cs.flatMap f)) :
    (∀ c ∈ cs, es.filter (fun e => tag e = place c) = f c) ↔
      cs.Pairwise fun c d => place c = place d → f c = [] ∧ f d = [] := by
  constructor
  · intro h
    rw [List.pairwise_iff_forall_sublist]
    intro c d hcd hplace
    have hc : c ∈ cs := hcd.subset (List.mem_cons_self ..)
    have hd : d ∈ cs := hcd.subset (by simp)
    have hle : ([c, d].flatMap f).length ≤ (es.filter (fun e => tag e = place c)).length := by
      rw [(hperm.filter _).length_eq]
      have hsub' : (([c, d].flatMap f).filter (fun e => tag e = place c)).Sublist
          ((cs.flatMap f).filter (fun e => tag e = place c)) := (hcd.flatMap f).filter _
      refine Nat.le_trans (Nat.le_of_eq ?_) hsub'.length_le
      rw [List.filter_eq_self.mpr]
      intro e he
      obtain ⟨x, hx, hex⟩ := List.mem_flatMap.mp he
      rcases List.mem_cons.mp hx with rfl | hx
      · simpa using htag x hc e hex
      · obtain rfl := List.mem_singleton.mp hx
        simpa [hplace] using htag x hd e hex
    have hlenc := congrArg List.length (h c hc)
    have hlend := congrArg List.length (h d hd)
    rw [← hplace] at hlend
    simp only [List.flatMap_cons, List.flatMap_nil, List.append_nil, List.length_append] at hle
    exact ⟨List.eq_nil_of_length_eq_zero (by omega), List.eq_nil_of_length_eq_zero (by omega)⟩
  · intro hpair c hc
    have hown : (f c).Sublist (es.filter (fun e => tag e = place c)) := by
      have hfilter := (hsub c hc).filter (fun e => tag e = place c)
      rwa [filter_tag_self (htag c hc)] at hfilter
    refine (hown.eq_of_length ?_).symm
    rw [(hperm.filter _).length_eq, length_filter_flatMap htag hpair hc]

end ServiceManager.Sql
