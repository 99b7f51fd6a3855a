import Mathlib.Tactic.Common

namespace ServiceManager.Trace

variable {S L : Type} {step : S → L → S → Prop} {s s' s'' : S} {l : L} {trace trace' : List (S × L)}

/-- A run of a labelled transition relation, with the label of each step and the state it
is taken in. -/
inductive Run (step : S → L → S → Prop) : S → List (S × L) → S → Prop
  | nil (s : S) : Run step s [] s
  | cons {s s' s'' : S} {l : L} {trace : List (S × L)} :
      step s l s' → Run step s' trace s'' → Run step s ((s, l) :: trace) s''

/-- The states of a run, the last included. -/
def visited (trace : List (S × L)) (s : S) : List S :=
  trace.map Prod.fst ++ [s]

namespace Run

theorem single (h : step s l s') : Run step s [(s, l)] s' :=
  .cons h (.nil s')

theorem append (h : Run step s trace s') (h' : Run step s' trace' s'') : Run step s (trace ++ trace') s'' := by
  induction h with
  | nil => exact h'
  | cons hstep _ ih => exact .cons hstep (ih h')

section Invariant

variable {inv : S → Prop} {ok : S → L → Prop} (hstep : ∀ s l s', inv s → ok s l → step s l s' → inv s')

include hstep

/-- What each step that meets a condition preserves, a run of such steps preserves. -/
theorem invariant (h : Run step s trace s') (hs : inv s) (hok : ∀ e ∈ trace, ok e.1 e.2) : inv s' := by
  induction h with
  | nil => exact hs
  | cons hstep₁ _ ih =>
    obtain ⟨hok₁, hok⟩ := List.forall_mem_cons.mp hok
    exact ih (hstep _ _ _ hs hok₁ hstep₁) hok

/-- The states in which the steps are taken have it too. -/
theorem invariant_before (h : Run step s trace s') (hs : inv s) (hok : ∀ e ∈ trace, ok e.1 e.2) :
    ∀ e ∈ trace, inv e.1 := by
  induction h with
  | nil => simp
  | cons hstep₁ _ ih =>
    obtain ⟨hok₁, hok⟩ := List.forall_mem_cons.mp hok
    exact List.forall_mem_cons.mpr ⟨hs, ih (hstep _ _ _ hs hok₁ hstep₁) hok⟩

theorem invariant_visited (h : Run step s trace s') (hs : inv s) (hok : ∀ e ∈ trace, ok e.1 e.2) :
    ∀ t ∈ visited trace s', inv t := by
  intro t ht
  rcases List.mem_append.mp ht with ht | ht
  · obtain ⟨e, he, rfl⟩ := List.mem_map.mp ht
    exact h.invariant_before hstep hs hok e he
  · rw [List.mem_singleton.mp ht]
    exact h.invariant hstep hs hok

end Invariant

theorem end_mem_visited (trace : List (S × L)) (s : S) : s ∈ visited trace s :=
  List.mem_append_right _ (List.mem_singleton_self s)

theorem start_mem_visited (h : Run step s trace s') : s ∈ visited trace s' := by
  cases h with
  | nil => exact List.mem_singleton_self s
  | cons => exact List.mem_cons_self

/-- A run keeps to what is good exactly if its steps all meet the condition under which one
step does, as long as the invariant that this rests on is kept by such steps. -/
theorem forall_visited_iff {inv good : S → Prop} {ok : S → L → Prop}
    (hstep : ∀ s l s', inv s → good s → step s l s' → (good s' ↔ ok s l) ∧ (ok s l → inv s'))
    (h : Run step s trace s') (hinv : inv s) (hgood : good s) :
    (∀ t ∈ visited trace s', good t) ↔ ∀ e ∈ trace, ok e.1 e.2 := by
  induction h with
  | nil => simpa [visited] using hgood
  | cons hstep₁ hrun ih =>
    obtain ⟨hiff, hkeep⟩ := hstep _ _ _ hinv hgood hstep₁
    rw [List.forall_mem_cons]
    constructor
    · intro hall
      obtain ⟨_, hrest⟩ := List.forall_mem_cons.mp hall
      have hok := hiff.mp (hrest _ hrun.start_mem_visited)
      exact ⟨hok, (ih (hkeep hok) (hiff.mpr hok)).mp hrest⟩
    · intro ⟨hok, hrest⟩
      exact List.forall_mem_cons.mpr ⟨hgood, (ih (hkeep hok) (hiff.mpr hok)).mpr hrest⟩

/-- If each step can be followed by a run of another system, so can a run. -/
theorem simulated {T M : Type} {step' : T → M → T → Prop} {rel : S → T → Prop} {ok : S → L → Prop} {ok' : T → M → Prop}
    (hsim : ∀ s l s' t, rel s t → ok s l → step s l s' →
      ∃ trace t', Run step' t trace t' ∧ (∀ e ∈ trace, ok' e.1 e.2) ∧ rel s' t')
    (h : Run step s trace s') (hok : ∀ e ∈ trace, ok e.1 e.2) {t : T} (ht : rel s t) :
    ∃ trace t', Run step' t trace t' ∧ (∀ e ∈ trace, ok' e.1 e.2) ∧ rel s' t' := by
  induction h generalizing t with
  | nil => exact ⟨[], t, .nil t, by simp, ht⟩
  | cons hstep _ ih =>
    obtain ⟨hfirst, hrest⟩ := List.forall_mem_cons.mp hok
    obtain ⟨trace₁, t₁, hrun₁, hok₁, ht₁⟩ := hsim _ _ _ _ ht hfirst hstep
    obtain ⟨trace₂, t₂, hrun₂, hok₂, ht₂⟩ := ih hrest ht₁
    exact ⟨trace₁ ++ trace₂, t₂, hrun₁.append hrun₂, List.forall_mem_append.mpr ⟨hok₁, hok₂⟩, ht₂⟩

/-- A run whose steps all meet a condition is one of the steps that do. -/
theorem restrict {p : S → L → Prop} (h : Run step s trace s') (hp : ∀ e ∈ trace, p e.1 e.2) :
    Run (fun s l s' => p s l ∧ step s l s') s trace s' := by
  induction h with
  | nil => exact .nil _
  | cons hstep _ ih =>
    obtain ⟨hfirst, hrest⟩ := List.forall_mem_cons.mp hp
    exact .cons ⟨hfirst, hstep⟩ (ih hrest)

/-- Each step of a run is a step. -/
theorem exists_step (h : Run step s trace s') : ∀ e ∈ trace, ∃ t, step e.1 e.2 t := by
  induction h with
  | nil => simp
  | cons hstep _ ih => exact List.forall_mem_cons.mpr ⟨⟨_, hstep⟩, ih⟩

end Run

end ServiceManager.Trace
