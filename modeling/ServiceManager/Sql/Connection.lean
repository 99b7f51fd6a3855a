import Mathlib.Tactic.Common

namespace ServiceManager.Sql

/-- What `sqlite3_step` gives: a row, with its first two columns as `int`s, or its end. -/
inductive StepResult where
  | row (first second : Int)
  | done
  | error (code : Int)
deriving DecidableEq

/-- A connection to a database, as a program sees it that makes its queries of type `Q`.
What `exec` and `prepare` return is `none` for `SQLITE_OK`, and an error code else. -/
structure Connection (Q σ : Type) where
  exec : Q → σ → Option Int × σ
  prepare : Q → σ → Option Int × σ
  step : Q → σ → StepResult × σ
  finalize : Q → σ → σ
  /-- As an `int`. -/
  lastInsertRowid : σ → Int

inductive Call (Q : Type) where
  | exec (q : Q)
  | prepare (q : Q)
  | step (q : Q)
deriving DecidableEq

/-- A call that was made, and whether it succeeded. -/
structure Made (Q : Type) where
  call : Call Q
  ok : Bool
deriving DecidableEq

/-- How a program stops before its end. -/
inductive Stop where
  | died (msg : String)
  /-- A loop has not ended within the turns it was given. -/
  | unfinished
deriving DecidableEq

structure Outcome (Q σ α : Type) where
  result : Except Stop α
  db : σ
  made : List (Made Q)

/-- A program that works on a connection. -/
def Script (Q σ α : Type) : Type :=
  σ → Outcome Q σ α

variable {Q σ α β γ : Type}

/-- The calls that were made before. -/
def Outcome.after (o : Outcome Q σ α) (made : List (Made Q)) : Outcome Q σ α :=
  { o with made := made ++ o.made }

namespace Script

instance : Monad (Script Q σ) where
  pure a := fun s => ⟨.ok a, s, []⟩
  bind m f := fun s =>
    match (m s).result with
    | .ok a => (f a (m s).db).after (m s).made
    | .error stop => ⟨.error stop, (m s).db, (m s).made⟩

variable {m : Script Q σ α} {f : α → Script Q σ β} {s : σ} {a : α} {stop : Stop}

theorem pure_apply (a : α) (s : σ) : (pure a : Script Q σ α) s = ⟨.ok a, s, []⟩ := rfl

theorem bind_ok (h : (m s).result = .ok a) : (m >>= f) s = (f a (m s).db).after (m s).made := by
  change (match (m s).result with | .ok a => _ | .error stop => _) = _
  rw [h]

theorem bind_error (h : (m s).result = .error stop) : (m >>= f) s = ⟨.error stop, (m s).db, (m s).made⟩ := by
  change (match (m s).result with | .ok a => _ | .error stop => _) = _
  rw [h]

theorem bind_of_ok {s' : σ} {made : List (Made Q)} (h : m s = ⟨.ok a, s', made⟩) :
    (m >>= f) s = (f a s').after made := by
  rw [bind_ok (by rw [h]), h]

theorem bind_of_error {s' : σ} {made : List (Made Q)} (h : m s = ⟨.error stop, s', made⟩) :
    (m >>= f) s = ⟨.error stop, s', made⟩ := by
  rw [bind_error (by rw [h]), h]

theorem pure_bind (a : α) (f : α → Script Q σ β) : pure a >>= f = f a := rfl

/-- Scripts are a monad. -/
theorem bind_assoc (m : Script Q σ α) (f : α → Script Q σ β) (g : β → Script Q σ γ) :
    m >>= f >>= g = m >>= fun a => f a >>= g := by
  funext s
  cases hm : (m s).result with
  | error stop =>
    rw [bind_error hm, bind_error]
    · rw [bind_error hm]
    · rw [bind_error hm]
  | ok a =>
    rw [bind_ok hm]
    cases hf : (f a (m s).db).result with
    | error stop =>
      rw [bind_error hf, bind_error]
      · rw [bind_ok hm]
        rfl
      · rw [bind_ok hm]
        exact hf
    | ok b =>
      rw [bind_ok hf, bind_ok (a := b)]
      · rw [bind_ok hm]
        simp only [Outcome.after, List.append_assoc]
      · rw [bind_ok hm]
        exact hf

end Script

section Calls

variable (conn : Connection Q σ)

def die (msg : String) : Script Q σ α :=
  fun s => ⟨.error (.died msg), s, []⟩

/-- A loop that is given no more turns. -/
def unfinished : Script Q σ α :=
  fun s => ⟨.error .unfinished, s, []⟩

/-- A call that gives `SQLITE_OK` or an error code. -/
def attempt (call : Call Q) (f : σ → Option Int × σ) : Script Q σ (Option Int) :=
  fun s => ⟨.ok (f s).1, (f s).2, [⟨call, (f s).1.isNone⟩]⟩

def exec (q : Q) : Script Q σ (Option Int) :=
  attempt (.exec q) (conn.exec q)

def prepare (q : Q) : Script Q σ (Option Int) :=
  attempt (.prepare q) (conn.prepare q)

def StepResult.ok : StepResult → Bool
  | .error _ => false
  | _ => true

def step (q : Q) : Script Q σ StepResult :=
  fun s => ⟨.ok (conn.step q s).1, (conn.step q s).2, [⟨.step q, (conn.step q s).1.ok⟩]⟩

def finalize (q : Q) : Script Q σ Unit :=
  fun s => ⟨.ok (), conn.finalize q s, []⟩

def lastInsertRowid : Script Q σ Int :=
  fun s => ⟨.ok (conn.lastInsertRowid s), s, []⟩

/-- Die with a message unless the call gave `SQLITE_OK`. -/
def orDie (m : Script Q σ (Option Int)) (msg : String) : Script Q σ Unit := do
  match ← m with
  | none => pure ()
  | some _ => die msg

/-- `sqlite3_get_single_int` and `sqlite3_get_two_int`, which return an error of
`prepare` as one of `step`. -/
def getInts (q : Q) : Script Q σ StepResult := do
  match ← prepare conn q with
  | some code => return .error code
  | none =>
    let res ← step conn q
    finalize conn q
    return res

end Calls

section Checked

/-- The program went on only while its calls succeeded, and died else. It did not make
the last call. -/
structure Outcome.Checked (last : Q) (o : Outcome Q σ α) : Prop where
  not_last : ∀ e ∈ o.made, e.call ≠ .exec last
  ends : (∃ a, o.result = .ok a) ∧ (∀ e ∈ o.made, e.ok = true) ∨
    (∃ msg, o.result = .error (.died msg)) ∧ ∃ e ∈ o.made, e.ok = false

def Checked (last : Q) (m : Script Q σ α) : Prop :=
  ∀ s, (m s).Checked last

variable {last : Q} {m : Script Q σ α} {f : α → Script Q σ β} {s : σ} {a : α} {made : List (Made Q)}

theorem Outcome.Checked.ok_made {o : Outcome Q σ α} (h : o.Checked last) (hok : o.result = .ok a) :
    ∀ e ∈ o.made, e.ok = true := by
  obtain ⟨_, hmade⟩ | ⟨⟨msg, hdied⟩, _⟩ := h.ends
  · exact hmade
  · rw [hok] at hdied
    cases hdied

theorem Outcome.Checked.after {o : Outcome Q σ α} (h : o.Checked last) (hlast : ∀ e ∈ made, e.call ≠ .exec last)
    (hmade : ∀ e ∈ made, e.ok = true) : (o.after made).Checked last := by
  refine ⟨?_, ?_⟩
  · intro e he
    exact (List.mem_append.mp he).elim (hlast e) (h.not_last e)
  · obtain ⟨hok, hall⟩ | ⟨hdied, e, he, hfailed⟩ := h.ends
    · exact Or.inl ⟨hok, fun e he => (List.mem_append.mp he).elim (hmade e) (hall e)⟩
    · exact Or.inr ⟨hdied, e, List.mem_append_right _ he, hfailed⟩

theorem Checked.pure (a : α) : Checked last (pure a : Script Q σ α) :=
  fun _ => ⟨fun _ he => absurd he List.not_mem_nil, Or.inl ⟨⟨a, rfl⟩, fun _ he => absurd he List.not_mem_nil⟩⟩

theorem Checked.bind (h : Checked last m) (hf : ∀ a, Checked last (f a)) : Checked last (m >>= f) := by
  intro s
  cases hm : (m s).result with
  | ok a =>
    rw [Script.bind_ok hm]
    exact (hf a _).after (h s).not_last ((h s).ok_made hm)
  | error stop =>
    rw [Script.bind_error hm]
    refine ⟨(h s).not_last, ?_⟩
    obtain ⟨⟨a, hok⟩, _⟩ | ⟨⟨msg, hdied⟩, hfailed⟩ := (h s).ends
    · rw [hm] at hok
      cases hok
    · rw [hm] at hdied
      cases hdied
      exact Or.inr ⟨⟨msg, rfl⟩, hfailed⟩

variable (conn : Connection Q σ)

theorem checked_finalize (q : Q) : Checked last (finalize conn q) :=
  fun _ => ⟨by simp [finalize], Or.inl ⟨⟨(), rfl⟩, by simp [finalize]⟩⟩

theorem checked_lastInsertRowid : Checked last (lastInsertRowid conn) :=
  fun _ => ⟨by simp [lastInsertRowid], Or.inl ⟨⟨_, rfl⟩, by simp [lastInsertRowid]⟩⟩

variable {call : Call Q} {g : σ → Option Int × σ} {msg : String}

theorem attempt_eq {res : Option Int} {s' : σ} (h : g s = (res, s')) :
    attempt call g s = ⟨.ok res, s', [⟨call, res.isNone⟩]⟩ := by
  rw [attempt, h]

theorem step_eq {q : Q} {res : StepResult} {s' : σ} (h : conn.step q s = (res, s')) :
    step conn q s = ⟨.ok res, s', [⟨.step q, res.ok⟩]⟩ := by
  rw [step, h]

theorem orDie_attempt_none {s' : σ} (h : g s = (none, s')) :
    orDie (attempt call g) msg s = ⟨.ok (), s', [⟨call, true⟩]⟩ := by
  rw [orDie, Script.bind_of_ok (attempt_eq h)]
  rfl

theorem orDie_attempt_some {s' : σ} {code : Int} (h : g s = (some code, s')) :
    orDie (attempt call g) msg s = ⟨.error (.died msg), s', [⟨call, false⟩]⟩ := by
  rw [orDie, Script.bind_of_ok (attempt_eq h)]
  rfl

theorem orDie_bind_none {s' : σ} {f : Unit → Script Q σ β} (h : g s = (none, s')) :
    (orDie (attempt call g) msg >>= f) s = (f () s').after [⟨call, true⟩] :=
  Script.bind_of_ok (orDie_attempt_none h)

theorem orDie_bind_some {s' : σ} {code : Int} {f : Unit → Script Q σ β} (h : g s = (some code, s')) :
    (orDie (attempt call g) msg >>= f) s = ⟨.error (.died msg), s', [⟨call, false⟩]⟩ :=
  Script.bind_of_error (orDie_attempt_some h)

theorem checked_orDie (hcall : call ≠ .exec last) (g : σ → Option Int × σ) (msg : String) :
    Checked last (orDie (attempt call g) msg) := by
  intro s
  rcases hg : g s with ⟨res, s'⟩
  cases res with
  | none =>
    rw [orDie_attempt_none hg]
    exact ⟨by simpa using hcall, Or.inl ⟨⟨(), rfl⟩, by simp⟩⟩
  | some code =>
    rw [orDie_attempt_some hg]
    exact ⟨by simpa using hcall, Or.inr ⟨⟨msg, rfl⟩, by simp⟩⟩

theorem getInts_prepare_error {q : Q} {code : Int} {s' : σ} (h : conn.prepare q s = (some code, s')) :
    getInts conn q s = ⟨.ok (.error code), s', [⟨.prepare q, false⟩]⟩ := by
  rw [getInts, prepare, Script.bind_of_ok (attempt_eq h)]
  rfl

theorem getInts_prepared {q : Q} {res : StepResult} {s₁ s₂ : σ} (hprepare : conn.prepare q s = (none, s₁))
    (hstep : conn.step q s₁ = (res, s₂)) :
    getInts conn q s = ⟨.ok res, conn.finalize q s₂, [⟨.prepare q, true⟩, ⟨.step q, res.ok⟩]⟩ := by
  rw [getInts, prepare, Script.bind_of_ok (attempt_eq hprepare)]
  simp only
  rw [Script.bind_of_ok (step_eq conn hstep)]
  rfl

/-- A program that looks at the result of a select, and dies upon an error. -/
theorem Checked.getInts_bind {q : Q} {f : StepResult → Script Q σ β}
    (hrow : ∀ first second, Checked last (f (.row first second)))
    (hdone : Checked last (f .done)) (herror : ∀ code s, ∃ msg, f (.error code) s = ⟨.error (.died msg), s, []⟩) :
    Checked last (getInts conn q >>= f) := by
  intro s
  have herror' : ∀ code s made, (∃ e ∈ made, e.ok = false) → (∀ e ∈ made, e.call ≠ .exec last) →
      ((f (.error code) s).after made).Checked last := by
    intro code s made hfailed hlast
    obtain ⟨msg, hdied⟩ := herror code s
    rw [hdied]
    refine ⟨by simpa [Outcome.after] using hlast, Or.inr ⟨⟨msg, rfl⟩, by simpa [Outcome.after] using hfailed⟩⟩
  rcases hprepare : conn.prepare q s with ⟨_ | code, s₁⟩
  · rcases hstep : conn.step q s₁ with ⟨res, s₂⟩
    rw [Script.bind_of_ok (getInts_prepared conn hprepare hstep)]
    cases res with
    | row first second => exact (hrow first second _).after (by simp) (by simp [StepResult.ok])
    | done => exact (hdone _).after (by simp) (by simp [StepResult.ok])
    | error code => exact herror' _ _ _ (by simp [StepResult.ok]) (by simp)
  · rw [Script.bind_of_ok (getInts_prepare_error conn hprepare)]
    exact herror' _ _ _ (by simp) (by simp)

end Checked

section AllOrNothing

/-- The program died without having made the last call, or it made it after every earlier
call had succeeded and ended there. -/
def Outcome.AllOrNothing (last : Q) (o : Outcome Q σ α) : Prop :=
  (∃ msg, o.result = .error (.died msg)) ∧ (∀ e ∈ o.made, e.call ≠ .exec last) ∨
    ∃ earlier ok, o.made = earlier ++ [⟨.exec last, ok⟩] ∧ (∀ e ∈ earlier, e.ok = true ∧ e.call ≠ .exec last) ∧
      ((∃ a, o.result = .ok a) ∧ ok = true ∨ (∃ msg, o.result = .error (.died msg)) ∧ ok = false)

variable {last : Q} {m : Script Q σ α} {f : α → Script Q σ β} {s : σ} {a : α} {made : List (Made Q)} {o : Outcome Q σ α}

theorem Outcome.Checked.died_of_error {stop : Stop} (h : o.Checked last) (hstop : o.result = .error stop) :
    (∃ msg, stop = .died msg) ∧ ∀ e ∈ o.made, e.call ≠ .exec last := by
  refine ⟨?_, h.not_last⟩
  obtain ⟨⟨a, hok⟩, _⟩ | ⟨⟨msg, hdied⟩, _⟩ := h.ends
  · rw [hstop] at hok
    cases hok
  · rw [hstop] at hdied
    cases hdied
    exact ⟨msg, rfl⟩

theorem Outcome.AllOrNothing.finished (h : o.AllOrNothing last) : o.result ≠ .error .unfinished := by
  intro hunfinished
  obtain ⟨⟨msg, hdied⟩, _⟩ | ⟨_, _, _, _, ⟨⟨a, hok⟩, _⟩ | ⟨⟨msg, hdied⟩, _⟩⟩ := h
  · rw [hunfinished] at hdied
    cases hdied
  · rw [hunfinished] at hok
    cases hok
  · rw [hunfinished] at hdied
    cases hdied

theorem Outcome.AllOrNothing.succeeded (h : o.AllOrNothing last) (hlast : ∃ e ∈ o.made, e.call = .exec last) :
    ∀ e ∈ o.made, e.call ≠ .exec last → e.ok = true := by
  obtain ⟨_, hnone⟩ | ⟨earlier, ok, heq, hearlier, _⟩ := h
  · obtain ⟨e, he, hcall⟩ := hlast
    exact absurd hcall (hnone e he)
  · intro e he hcall
    rw [heq] at he
    obtain he | he := List.mem_append.mp he
    · exact (hearlier e he).1
    · rw [List.mem_singleton.mp he] at hcall
      exact absurd rfl hcall

/-- Calls that succeeded before do not matter. -/
theorem Outcome.allOrNothing_after_iff (hlast : ∀ e ∈ made, e.call ≠ .exec last) (hmade : ∀ e ∈ made, e.ok = true) :
    (o.after made).AllOrNothing last ↔ o.AllOrNothing last := by
  constructor
  · rintro (⟨hdied, hnone⟩ | ⟨earlier, ok, heq, hearlier, hends⟩)
    · exact Or.inl ⟨hdied, fun e he => hnone e (List.mem_append_right _ he)⟩
    · refine Or.inr ?_
      obtain hnil | ⟨init, e, hconcat⟩ := List.eq_nil_or_concat o.made
      · have hmem : ⟨.exec last, ok⟩ ∈ (o.after made).made := by
          rw [heq]
          exact List.mem_append_right _ (List.mem_singleton_self _)
        rw [Outcome.after, hnil, List.append_nil] at hmem
        exact absurd rfl (hlast _ hmem)
      · rw [List.concat_eq_append] at hconcat
        rw [Outcome.after, hconcat, ← List.append_assoc] at heq
        obtain ⟨hinit, he⟩ := List.append_inj' heq rfl
        obtain rfl := List.singleton_inj.mp he
        exact ⟨init, ok, hconcat, fun e he => hearlier e (by rw [← hinit]; exact List.mem_append_right _ he), hends⟩
  · rintro (⟨hdied, hnone⟩ | ⟨earlier, ok, heq, hearlier, hends⟩)
    · exact Or.inl ⟨hdied, fun e he => (List.mem_append.mp he).elim (hlast e) (hnone e)⟩
    · refine Or.inr ⟨made ++ earlier, ok, ?_, ?_, hends⟩
      · rw [Outcome.after, heq, List.append_assoc]
      · intro e he
        exact (List.mem_append.mp he).elim (fun he => ⟨hmade e he, hlast e he⟩) (hearlier e)

/-- A failed call must not be followed by the last one. -/
theorem Outcome.allOrNothing_after_failed_iff (hlast : ∀ e ∈ made, e.call ≠ .exec last)
    (hfailed : ∃ e ∈ made, e.ok = false) :
    (o.after made).AllOrNothing last ↔ (∃ msg, o.result = .error (.died msg)) ∧ ∀ e ∈ o.made, e.call ≠ .exec last := by
  constructor
  · rintro (⟨hdied, hnone⟩ | ⟨earlier, ok, heq, hearlier, hends⟩)
    · exact ⟨hdied, fun e he => hnone e (List.mem_append_right _ he)⟩
    · obtain ⟨e, he, hfailed⟩ := hfailed
      have hmem : e ∈ (o.after made).made := List.mem_append_left _ he
      rw [heq] at hmem
      obtain hmem | hmem := List.mem_append.mp hmem
      · rw [(hearlier e hmem).1] at hfailed
        cases hfailed
      · rw [List.mem_singleton.mp hmem] at he
        exact absurd rfl (hlast _ he)
  · rintro ⟨hdied, hnone⟩
    exact Or.inl ⟨hdied, fun e he => (List.mem_append.mp he).elim (hlast e) (hnone e)⟩

/-- After a part that checks its calls, what follows it decides. -/
theorem Outcome.Checked.allOrNothing_bind_iff (h : (m s).Checked last) :
    ((m >>= f) s).AllOrNothing last ↔ ∀ a, (m s).result = .ok a → (f a (m s).db).AllOrNothing last := by
  cases hm : (m s).result with
  | error stop =>
    obtain ⟨⟨msg, rfl⟩, hlast⟩ := h.died_of_error hm
    rw [Script.bind_error hm]
    exact ⟨fun _ _ hok => (nomatch hok), fun _ => Or.inl ⟨⟨msg, rfl⟩, hlast⟩⟩
  | ok a =>
    rw [Script.bind_ok hm, Outcome.allOrNothing_after_iff h.not_last (h.ok_made hm)]
    constructor
    · rintro hall _ ⟨⟩
      exact hall
    · exact fun hall => hall a rfl

/-- The last call, made after calls that succeeded. -/
theorem Checked.allOrNothing (h : Checked last m) (g : σ → Option Int × σ) (msg : String) (s : σ) :
    ((m >>= fun _ => orDie (attempt (.exec last) g) msg) s).AllOrNothing last := by
  rw [(h s).allOrNothing_bind_iff]
  intro _ _
  rcases hg : g (m s).db with ⟨res, s'⟩
  cases res with
  | none =>
    rw [orDie_attempt_none hg]
    exact Or.inr ⟨[], true, rfl, fun _ he => absurd he List.not_mem_nil, Or.inl ⟨⟨(), rfl⟩, rfl⟩⟩
  | some code =>
    rw [orDie_attempt_some hg]
    exact Or.inr ⟨[], false, rfl, fun _ he => absurd he List.not_mem_nil, Or.inr ⟨⟨msg, rfl⟩, rfl⟩⟩

/-- The last call is avoided only by dying before it. -/
theorem Checked.died_iff (h : Checked last m) (g : σ → Option Int × σ) (msg : String) (s : σ) :
    ((∃ msg', ((m >>= fun _ => orDie (attempt (.exec last) g) msg) s).result = .error (.died msg')) ∧
        ∀ e ∈ ((m >>= fun _ => orDie (attempt (.exec last) g) msg) s).made, e.call ≠ .exec last) ↔
      ∃ msg', (m s).result = .error (.died msg') := by
  cases hm : (m s).result with
  | error stop =>
    obtain ⟨⟨msg', rfl⟩, hlast⟩ := (h s).died_of_error hm
    rw [Script.bind_error hm]
    exact ⟨fun _ => ⟨msg', rfl⟩, fun _ => ⟨⟨msg', rfl⟩, hlast⟩⟩
  | ok a =>
    rw [Script.bind_ok hm]
    constructor
    · rintro ⟨_, hlast⟩
      have hmem : ∃ ok, ⟨.exec last, ok⟩ ∈ (orDie (attempt (.exec last) g) msg (m s).db).made := by
        rcases hg : g (m s).db with ⟨res, s'⟩
        cases res with
        | none => exact ⟨true, by rw [orDie_attempt_none hg]; exact List.mem_singleton_self _⟩
        | some code => exact ⟨false, by rw [orDie_attempt_some hg]; exact List.mem_singleton_self _⟩
      obtain ⟨ok, hmem⟩ := hmem
      exact absurd rfl (hlast _ (List.mem_append_right _ hmem))
    · rintro ⟨_, hdied⟩
      cases hdied

end AllOrNothing

end ServiceManager.Sql
