import ServiceManager.Machine
import ServiceManager.Sql.Connection

namespace ServiceManager.Sql

open Machine

variable {Q Q' σ α β : Type}

/-- The integers of a row, as `sqlite3_column_int` gives them. -/
def StepResult.ints : StepResult → StepResult
  | .row first second => .row (int32 first) (int32 second)
  | .done => .done
  | .error code => .error code

namespace Connection

/-- A connection for queries that are turned into those of another. -/
def comap (f : Q → Q') (conn : Connection Q' σ) : Connection Q σ where
  exec q := conn.exec (f q)
  prepare q := conn.prepare (f q)
  step q := conn.step (f q)
  finalize q := conn.finalize (f q)
  lastInsertRowid := conn.lastInsertRowid

/-- A connection whose columns and keys, of 64 bits, are kept in variables of type `int`. -/
def ints (conn : Connection Q σ) : Connection Q σ :=
  { conn with
    step := fun q s => ((conn.step q s).1.ints, (conn.step q s).2)
    lastInsertRowid := fun s => int32 (conn.lastInsertRowid s) }

end Connection

namespace Script

/-- The second program does what the first does, unless that runs out of turns. -/
def Extends (m m' : Script Q σ α) : Prop :=
  ∀ s, (m s).result ≠ .error .unfinished → m' s = m s

variable {m m' : Script Q σ α} {f f' : α → Script Q σ β}

theorem Extends.refl (m : Script Q σ α) : Extends m m :=
  fun _ _ => rfl

/-- A program goes on only where its beginning has not run out of turns. -/
theorem Extends.bind (h : Extends m m') (hf : ∀ a, Extends (f a) (f' a)) : Extends (m >>= f) (m' >>= f') := by
  intro s hturns
  cases hm : (m s).result with
  | error stop =>
    rw [bind_error hm] at hturns
    have hstop : (m s).result ≠ .error .unfinished := by
      intro hunfinished
      obtain rfl := Except.error.inj (hm.symm.trans hunfinished)
      exact hturns rfl
    have hsame : m' s = m s := h s hstop
    rw [bind_error hm, bind_error (hsame ▸ hm), hsame]
  | ok a =>
    rw [bind_ok hm] at hturns
    have hsame : m' s = m s := h s (by simp [hm])
    rw [bind_ok hm, bind_ok (hsame ▸ hm), hsame, hf a _ hturns]

end Script

section Gives

variable {ρ : Type} (repo : σ → ρ) {m : Script Q σ α} {f : α → Script Q σ β} {s : σ} {a : α} {b : β} {r r' : ρ}
    {msg : String}

/-- The program returns the value, and what is stored is then as given. -/
def Gives (m : Script Q σ α) (s : σ) (a : α) (r : ρ) : Prop :=
  ∃ s' made, m s = ⟨.ok a, s', made⟩ ∧ repo s' = r

/-- The program dies with the message. -/
def DiesWith (m : Script Q σ α) (s : σ) (msg : String) : Prop :=
  ∃ s' made, m s = ⟨.error (.died msg), s', made⟩

variable {repo}

theorem Gives.pure (a : α) (s : σ) : Gives repo (Pure.pure a : Script Q σ α) s a (repo s) :=
  ⟨s, [], rfl, rfl⟩

theorem Gives.bind (h : Gives repo m s a r) (hf : ∀ s', repo s' = r → Gives repo (f a) s' b r') :
    Gives repo (m >>= f) s b r' := by
  obtain ⟨s', made, hm, hrepo⟩ := h
  obtain ⟨s'', made', hrest, hrepo'⟩ := hf s' hrepo
  refine ⟨s'', made ++ made', ?_, hrepo'⟩
  rw [Script.bind_of_ok hm, hrest]
  rfl

theorem Gives.bind_dies (h : Gives repo m s a r) (hf : ∀ s', repo s' = r → DiesWith (f a) s' msg) :
    DiesWith (m >>= f) s msg := by
  obtain ⟨s', made, hm, hrepo⟩ := h
  obtain ⟨s'', made', hrest⟩ := hf s' hrepo
  refine ⟨s'', made ++ made', ?_⟩
  rw [Script.bind_of_ok hm, hrest]
  rfl

theorem DiesWith.bind (h : DiesWith m s msg) : DiesWith (m >>= f) s msg := by
  obtain ⟨s', made, hm⟩ := h
  exact ⟨s', made, Script.bind_of_error hm⟩

end Gives

end ServiceManager.Sql
