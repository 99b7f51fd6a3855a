import Mathlib.Data.List.Dedup
import Mathlib.Data.Prod.Lex
import Mathlib.Order.MinMax

namespace ServiceManager.Sql

variable {α κ β γ : Type} [DecidableEq κ]

/-- `SELECT key, MAX(col) FROM xs GROUP BY key`: one row for each key that occurs. -/
def groupMax [Max β] (xs : List α) (key : α → κ) (col : α → β) : List (κ × β) :=
  (xs.map key).dedup.filterMap fun k =>
    ((xs.filter (fun x => key x = k)).map col).max?.map (fun m => (k, m))

/-- The groups are those of some row, each with the greatest value of its rows. -/
theorem mem_groupMax [LinearOrder β] {xs : List α} {key : α → κ} {col : α → β} {k : κ} {m : β} :
    (k, m) ∈ groupMax xs key col ↔
      (∃ x ∈ xs, key x = k ∧ col x = m) ∧ ∀ x ∈ xs, key x = k → col x ≤ m := by
  have hmax : ((xs.filter (fun x => key x = k)).map col).max? = some m ↔
      (∃ x ∈ xs, key x = k ∧ col x = m) ∧ ∀ x ∈ xs, key x = k → col x ≤ m := by
    rw [List.max?_eq_some_iff]
    simp only [List.mem_map, List.mem_filter, decide_eq_true_eq, and_assoc]
    refine and_congr_right fun _ => ⟨fun h x hx hk => h _ ⟨x, hx, hk, rfl⟩, ?_⟩
    rintro h _ ⟨x, hx, hk, rfl⟩
    exact h x hx hk
  constructor
  · intro h
    obtain ⟨k', _, hk'⟩ := List.mem_filterMap.mp h
    obtain ⟨m', hm', heq⟩ := Option.map_eq_some_iff.mp hk'
    simp only [Prod.mk.injEq] at heq
    obtain ⟨rfl, rfl⟩ := heq
    exact hmax.mp hm'
  · intro h
    obtain ⟨x, hx, hkey, _⟩ := h.1
    refine List.mem_filterMap.mpr ⟨k, ?_, ?_⟩
    · rw [List.mem_dedup]
      exact List.mem_map.mpr ⟨x, hx, hkey⟩
    · rw [hmax.mpr h]
      rfl

/-- A grouped query has one row for each key. -/
theorem pairwise_groupMax [Max β] (xs : List α) (key : α → κ) (col : α → β) :
    (groupMax xs key col).Pairwise (fun a b => a.1 ≠ b.1) := by
  refine List.Pairwise.filterMap _ ?_ (List.nodup_dedup (xs.map key))
  intro k k' hne a ha b hb
  obtain ⟨_, _, rfl⟩ := Option.map_eq_some_iff.mp ha
  obtain ⟨_, _, rfl⟩ := Option.map_eq_some_iff.mp hb
  exact hne

/-- Two chained maxima select the lexicographic maxima: the rows whose first
column is the maximum of their key, and whose second column is the maximum of
their key among the rows with that first column. -/
theorem chained_groupMax_iff [LinearOrder β] [LinearOrder γ] {xs : List α} (key : α → κ)
    {fst : α → β} {snd : α → γ} {x : α} (hx : x ∈ xs) :
    ((key x, fst x) ∈ groupMax xs key fst ∧ ∀ y ∈ xs, key y = key x → fst y = fst x → snd y ≤ snd x) ↔
      ∀ y ∈ xs, key y = key x → ¬ toLex (fst x, snd x) < toLex (fst y, snd y) := by
  constructor
  · rintro ⟨hfst, hsnd⟩ y hy hkey hlt
    have hle := (mem_groupMax.mp hfst).2 y hy hkey
    rcases Prod.Lex.toLex_lt_toLex.mp hlt with h | ⟨heq, h⟩
    · exact absurd h (not_lt.mpr hle)
    · exact absurd h (not_lt.mpr (hsnd y hy hkey heq.symm))
  · intro h
    constructor
    · refine mem_groupMax.mpr ⟨⟨x, hx, rfl, rfl⟩, ?_⟩
      intro y hy hkey
      by_contra hlt
      exact h y hy hkey (Prod.Lex.toLex_lt_toLex.mpr (Or.inl (not_le.mp hlt)))
    · intro y hy hkey heq
      by_contra hlt
      exact h y hy hkey (Prod.Lex.toLex_lt_toLex.mpr (Or.inr ⟨heq.symm, not_le.mp hlt⟩))

/-- Every key that occurs has a row that no row of the same key exceeds. -/
theorem exists_lex_max [LinearOrder β] [LinearOrder γ] {xs : List α} (key : α → κ)
    (fst : α → β) (snd : α → γ) {x : α} (hx : x ∈ xs) :
    ∃ y ∈ xs, key y = key x ∧
      ∀ z ∈ xs, key z = key x → ¬ toLex (fst y, snd y) < toLex (fst z, snd z) := by
  have hne : ((xs.filter (fun z => key z = key x)).map (fun z => toLex (fst z, snd z))).max? ≠ none := by
    rw [ne_eq, List.max?_eq_none_iff, List.map_eq_nil_iff, List.filter_eq_nil_iff]
    intro h
    exact h x hx (by simp)
  obtain ⟨m, hm⟩ := Option.ne_none_iff_exists'.mp hne
  obtain ⟨hmem, hbound⟩ := List.max?_eq_some_iff.mp hm
  obtain ⟨y, hy, rfl⟩ := List.mem_map.mp hmem
  simp only [List.mem_filter, decide_eq_true_eq] at hy
  refine ⟨y, hy.1, hy.2, ?_⟩
  intro z hz hkey
  apply not_lt.mpr
  apply hbound
  exact List.mem_map.mpr ⟨z, List.mem_filter.mpr ⟨hz, by simpa using hkey⟩, rfl⟩

end ServiceManager.Sql
