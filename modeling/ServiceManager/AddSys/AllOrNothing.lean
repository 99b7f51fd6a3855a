import ServiceManager.AddSys.Transaction

namespace ServiceManager

open Sql

namespace AddSys.Conn

variable {σ : Type} (conn : Connection Query σ)

section Checked

theorem checked_execf {q : Query} (hq : q ≠ .commit) (msg : String) : Checked .commit (execf conn q msg) := by
  apply checked_orDie
  intro h
  exact hq (Call.exec.inj h)

theorem checked_getOrCreate (select : Query) {insert : Query} (hinsert : insert ≠ .commit)
    (insertMsg selectMsg : String) :
    Checked .commit (getOrCreate conn select insert insertMsg selectMsg) := by
  apply Checked.getInts_bind
  · exact fun id _ => Checked.pure id
  · apply (checked_execf conn hinsert insertMsg).bind
    exact fun _ => checked_lastInsertRowid conn
  · exact fun _ _ => ⟨selectMsg, rfl⟩

/-- The end of `importProp`: a value and the property that refers to it. -/
theorem checked_insertValue {q : Query} (hq : q ≠ .commit) (parent : PropertyColumn) (msg msg' : String) :
    Checked .commit (execf conn q msg >>= fun _ => lastInsertRowid conn >>= fun propValId =>
      execf conn (.insertProperty parent propValId) msg') := by
  apply (checked_execf conn hq msg).bind
  intro _
  apply (checked_lastInsertRowid conn).bind
  exact fun propValId => checked_execf conn (by simp) msg'

mutual

theorem checked_importProp (bundleID parentSvcId parentInstId parentPageId : Int) :
    ∀ prop, Checked .commit (importProp conn bundleID parentSvcId parentInstId parentPageId prop)
  | .string key value => by
    rw [importProp]
    exact checked_insertValue conn (by simp) _ _ _
  | .page key properties => by
    rw [importProp]
    apply (checked_getOrCreate conn _ (by simp) _ _).bind
    intro pageID
    apply (checked_importProps bundleID parentSvcId parentInstId pageID properties).bind
    exact fun _ => checked_insertValue conn (by simp) _ _ _

theorem checked_importProps (bundleID parentSvcId parentInstId parentPageId : Int) :
    ∀ props, Checked .commit (importProps conn bundleID parentSvcId parentInstId parentPageId props)
  | [] => by
    rw [importProps]
    exact Checked.pure ()
  | prop :: rest => by
    rw [importProps]
    apply (checked_importProp bundleID parentSvcId parentInstId parentPageId prop).bind
    exact fun _ => checked_importProps bundleID parentSvcId parentInstId parentPageId rest

end

theorem checked_importInstances (bundleID svcId : Int) (insts : List Instance) :
    Checked .commit (importInstances conn bundleID svcId insts) := by
  induction insts with
  | nil => exact Checked.pure ()
  | cons inst rest ih =>
    apply (checked_getOrCreate conn _ (by simp) _ _).bind
    intro instId
    apply (checked_importProps conn bundleID svcId instId 0 inst.properties).bind
    exact fun _ => ih

theorem checked_importNew (layer : Int) (path : String) (klass : Class) :
    Checked .commit (importNew conn layer path klass) := by
  apply (checked_execf conn (by simp) _).bind
  intro _
  apply (checked_lastInsertRowid conn).bind
  intro bundleID
  apply (checked_getOrCreate conn _ (by simp) _ _).bind
  intro svcId
  apply (checked_importProps conn bundleID svcId 0 0 klass.properties).bind
  exact fun _ => checked_importInstances conn bundleID svcId klass.instances

end Checked

section Parts

/-- What `import` does until the loop over the values of an old bundle, if it gets there. -/
def beforeValues (path : String) : Script Query σ (Option Int) := do
  execf conn .begin "Failed to begin transaction: %s\n"
  match ← getInts conn (.selectBundle path) with
  | .row bundleID rcOldBundle =>
    if rcOldBundle = 0 then
      orDie (prepare conn (.selectValues bundleID)) "Failed to get old property values: %s\n"
      return some bundleID
    else return none
  | .done => return none
  | .error _ => Sql.die "Failed to get bundle ID: %s\n"

/-- What it does from there to the COMMIT. -/
def afterValues (bundleID layer : Int) (path : String) (klass : Class) : Script Query σ Unit := do
  finalize conn (.selectValues bundleID)
  execf conn (.deleteBundle bundleID) "Failed to delete old bundle: %s\n"
  importNew conn layer path klass

theorem importClass_eq (turns : Nat) (layer : Int) (path : String) (klass : Class) :
    importClass conn turns layer path klass = beforeValues conn path >>= fun old =>
      match old with
      | none => importNew conn layer path klass >>= fun _ => execf conn .commit "Failed to commit: %s\n"
      | some bundleID => deleteValues conn turns bundleID >>= fun _ =>
          afterValues conn bundleID layer path klass >>= fun _ => execf conn .commit "Failed to commit: %s\n" := by
  simp only [importClass, beforeValues, deleteOldBundle, Script.bind_assoc]
  congr 1
  funext _
  congr 1
  funext res
  cases res with
  | error code => rfl
  | done => rfl
  | row bundleID rcOldBundle =>
    simp only
    split
    · simp only [deleteBundle, afterValues, Script.bind_assoc, Script.pure_bind]
    · rfl

theorem checked_beforeValues (path : String) : Checked .commit (beforeValues conn path) := by
  apply (checked_execf conn (by simp) _).bind
  intro _
  apply Checked.getInts_bind
  · intro bundleID rcOldBundle
    simp only
    split
    · apply (checked_orDie (by simp) _ _).bind
      exact fun _ => Checked.pure _
    · exact Checked.pure _
  · exact Checked.pure _
  · exact fun _ _ => ⟨_, rfl⟩

theorem checked_afterValues (bundleID layer : Int) (path : String) (klass : Class) :
    Checked .commit (afterValues conn bundleID layer path klass) := by
  apply (checked_finalize conn _).bind
  intro _
  apply (checked_execf conn (by simp) _).bind
  exact fun _ => checked_importNew conn layer path klass

end Parts

section Scan

/-- The loop over the values of an old bundle is begun, in a given state. -/
def Scans (path : String) (s : σ) (bundleID : Int) (s' : σ) : Prop :=
  ∃ s₁ s₂ s₃, conn.exec .begin s = (none, s₁) ∧ conn.prepare (.selectBundle path) s₁ = (none, s₂) ∧
    conn.step (.selectBundle path) s₂ = (.row bundleID 0, s₃) ∧
    conn.prepare (.selectValues bundleID) (conn.finalize (.selectBundle path) s₃) = (none, s')

/-- How the loop ends: whether a step has returned an error, and the state after the last
step, unless a deletion has failed. -/
inductive Ends (bundleID : Int) : σ → Bool → Option σ → Prop
  | done {s s' : σ} : conn.step (.selectValues bundleID) s = (.done, s') → Ends bundleID s false (some s')
  | value {s s₁ s₂ : σ} {rowID second code : Int} :
      conn.step (.selectValues bundleID) s = (.row rowID second, s₁) →
      conn.exec (.deleteValue rowID) s₁ = (some code, s₂) → Ends bundleID s false none
  | properties {s s₁ s₂ s₃ : σ} {rowID second code : Int} :
      conn.step (.selectValues bundleID) s = (.row rowID second, s₁) →
      conn.exec (.deleteValue rowID) s₁ = (none, s₂) →
      conn.exec (.deletePropertiesOf rowID) s₂ = (some code, s₃) → Ends bundleID s false none
  | row {s s₁ s₂ s₃ : σ} {rowID second : Int} {erred : Bool} {out : Option σ} :
      conn.step (.selectValues bundleID) s = (.row rowID second, s₁) →
      conn.exec (.deleteValue rowID) s₁ = (none, s₂) →
      conn.exec (.deletePropertiesOf rowID) s₂ = (none, s₃) →
      Ends bundleID s₃ erred out → Ends bundleID s erred out
  | error {s s₁ : σ} {code : Int} {erred : Bool} {out : Option σ} :
      conn.step (.selectValues bundleID) s = (.error code, s₁) →
      Ends bundleID s₁ erred out → Ends bundleID s true out

/-- What the loop has done when it ends so. -/
structure Ended (o : Outcome Query σ Unit) (erred : Bool) (out : Option σ) : Prop where
  not_last : ∀ e ∈ o.made, e.call ≠ .exec .commit
  result : match out with
    | some s' => o.result = .ok () ∧ o.db = s'
    | none => ∃ msg, o.result = .error (.died msg)
  made : out.isSome = true → if erred then ∃ e ∈ o.made, e.ok = false else ∀ e ∈ o.made, e.ok = true

variable {conn} {o : Outcome Query σ Unit} {erred : Bool} {out : Option σ} {made : List (Made Query)}

theorem Ended.after (h : Ended o erred out) (hlast : ∀ e ∈ made, e.call ≠ .exec .commit)
    (hmade : ∀ e ∈ made, e.ok = true) : Ended (o.after made) erred out := by
  refine ⟨fun e he => (List.mem_append.mp he).elim (hlast e) (h.not_last e), h.result, fun hout => ?_⟩
  have hall := h.made hout
  cases erred with
  | true =>
    obtain ⟨e, he, hfailed⟩ := hall
    exact ⟨e, List.mem_append_right _ he, hfailed⟩
  | false => exact fun e he => (List.mem_append.mp he).elim (hmade e) (hall e)

theorem Ended.after_error (h : Ended o erred out) (hlast : ∀ e ∈ made, e.call ≠ .exec .commit)
    (hfailed : ∃ e ∈ made, e.ok = false) : Ended (o.after made) true out := by
  refine ⟨fun e he => (List.mem_append.mp he).elim (hlast e) (h.not_last e), h.result, fun _ => ?_⟩
  obtain ⟨e, he, hfailed⟩ := hfailed
  exact ⟨e, List.mem_append_left _ he, hfailed⟩

variable {bundleID rowID second code : Int} {s s' s₁ s₂ s₃ : σ} (turns : Nat)

/-- What the loop over the values comes to, it comes to in some number of turns. -/
theorem Ends.exists_turns (h : Ends conn bundleID s erred out) :
    ∃ turns, Ended (deleteValues conn turns bundleID s) erred out := by
  induction h with
  | done hstep =>
    refine ⟨1, ?_⟩
    rw [deleteValues_done 0 hstep]
    exact ⟨by simp, ⟨rfl, rfl⟩, by simp⟩
  | value hstep hvalue =>
    refine ⟨1, ?_⟩
    rw [deleteValues_value 0 hstep hvalue]
    exact ⟨by simp, ⟨_, rfl⟩, by simp⟩
  | properties hstep hvalue hproperties =>
    refine ⟨1, ?_⟩
    rw [deleteValues_properties 0 hstep hvalue hproperties]
    exact ⟨by simp, ⟨_, rfl⟩, by simp⟩
  | row hstep hvalue hproperties _ ih =>
    obtain ⟨turns, hended⟩ := ih
    refine ⟨turns + 1, ?_⟩
    rw [deleteValues_row turns hstep hvalue hproperties]
    exact hended.after (by simp) (by simp)
  | error hstep _ ih =>
    obtain ⟨turns, hended⟩ := ih
    refine ⟨turns + 1, ?_⟩
    rw [deleteValues_error turns hstep]
    exact hended.after_error (by simp) (by simp)

/-- A loop that has its turns comes to an end, by induction on the turns. -/
theorem exists_ends (h : (deleteValues conn turns bundleID s).result ≠ .error .unfinished) :
    ∃ erred out, Ends conn bundleID s erred out ∧ Ended (deleteValues conn turns bundleID s) erred out := by
  induction turns generalizing s with
  | zero => exact absurd rfl h
  | succ turns ih =>
    rcases hstep : conn.step (.selectValues bundleID) s with ⟨res, s₁⟩
    cases res with
    | done =>
      rw [deleteValues_done turns hstep]
      exact ⟨false, some s₁, .done hstep, by simp, ⟨rfl, rfl⟩, by simp⟩
    | error code =>
      rw [deleteValues_error turns hstep] at h ⊢
      obtain ⟨erred, out, hends, hended⟩ := ih h
      exact ⟨true, out, .error hstep hends, hended.after_error (by simp) (by simp)⟩
    | row rowID second =>
      rcases hvalue : conn.exec (.deleteValue rowID) s₁ with ⟨_ | code, s₂⟩
      · rcases hproperties : conn.exec (.deletePropertiesOf rowID) s₂ with ⟨_ | code, s₃⟩
        · rw [deleteValues_row turns hstep hvalue hproperties] at h ⊢
          obtain ⟨erred, out, hends, hended⟩ := ih h
          exact ⟨erred, out, .row hstep hvalue hproperties hends, hended.after (by simp) (by simp)⟩
        · rw [deleteValues_properties turns hstep hvalue hproperties]
          exact ⟨false, none, .properties hstep hvalue hproperties, by simp, ⟨_, rfl⟩, by simp⟩
      · rw [deleteValues_value turns hstep hvalue]
        exact ⟨false, none, .value hstep hvalue, by simp, ⟨_, rfl⟩, by simp⟩

/-- What follows the loop decides, unless no step of it returned an error. -/
theorem Ended.allOrNothing_iff {layer : Int} {path : String} {klass : Class}
    (h : Ended (deleteValues conn turns bundleID s) erred out) :
    ((deleteValues conn turns bundleID >>= fun _ => afterValues conn bundleID layer path klass >>= fun _ =>
        execf conn .commit "Failed to commit: %s\n") s).AllOrNothing .commit ↔
      (erred = true → ∀ s', out = some s' → ∃ msg,
        (afterValues conn bundleID layer path klass s').result = .error (.died msg)) := by
  have hafter := checked_afterValues conn bundleID layer path klass
  cases out with
  | none =>
    obtain ⟨msg, hdied⟩ := h.result
    rw [Script.bind_error hdied]
    exact ⟨fun _ _ _ hnone => (nomatch hnone), fun _ => Or.inl ⟨⟨msg, rfl⟩, h.not_last⟩⟩
  | some s' =>
    obtain ⟨hok, hdb⟩ := h.result
    rw [Script.bind_ok hok, hdb]
    have hmade := h.made rfl
    cases erred with
    | false =>
      rw [Outcome.allOrNothing_after_iff h.not_last hmade]
      exact ⟨fun _ hfalse => (nomatch hfalse), fun _ => hafter.allOrNothing _ _ s'⟩
    | true =>
      rw [Outcome.allOrNothing_after_failed_iff h.not_last hmade, execf, Sql.exec, hafter.died_iff]
      constructor
      · rintro hdied _ _ ⟨⟩
        exact hdied
      · exact fun hdied => hdied rfl s' rfl

theorem scans_iff {path : String} {id : Int} (hbegin : conn.exec .begin s = (none, s₁))
    (hprepare : conn.prepare (.selectBundle path) s₁ = (none, s₂))
    (hstep : conn.step (.selectBundle path) s₂ = (.row id 0, s₃)) :
    Scans conn path s bundleID s' ↔
      id = bundleID ∧ conn.prepare (.selectValues id) (conn.finalize (.selectBundle path) s₃) = (none, s') := by
  constructor
  · rintro ⟨t₁, t₂, t₃, hbegin', hprepare', hstep', hvalues⟩
    cases hbegin.symm.trans hbegin'
    cases hprepare.symm.trans hprepare'
    cases hstep.symm.trans hstep'
    exact ⟨rfl, hvalues⟩
  · rintro ⟨rfl, hvalues⟩
    exact ⟨s₁, s₂, s₃, hbegin, hprepare, hstep, hvalues⟩

/-- The script gets to the old values exactly if each call before them succeeds. -/
theorem beforeValues_some_iff {path : String} :
    (beforeValues conn path s).result = .ok (some bundleID) ∧ (beforeValues conn path s).db = s' ↔
      Scans conn path s bundleID s' := by
  rcases hbegin : conn.exec .begin s with ⟨_ | code, s₁⟩
  · rw [beforeValues, execf_bind_ok hbegin]
    rcases hprepare : conn.prepare (.selectBundle path) s₁ with ⟨_ | code, s₂⟩
    · rcases hstep : conn.step (.selectBundle path) s₂ with ⟨res, s₃⟩
      rw [Script.bind_of_ok (getInts_prepared conn hprepare hstep)]
      cases res with
      | row id rc =>
        by_cases hrc : rc = 0
        · subst hrc
          rcases hvalues : conn.prepare (.selectValues id) (conn.finalize (.selectBundle path) s₃) with ⟨_ | code, s₄⟩
          · simp only [↓reduceIte, prepare, orDie_bind_none hvalues]
            rw [scans_iff hbegin hprepare hstep, hvalues]
            simp [Outcome.after, Script.pure_apply]
          · simp only [↓reduceIte, prepare, orDie_bind_some hvalues]
            rw [scans_iff hbegin hprepare hstep, hvalues]
            simp [Outcome.after]
        · simp [Scans, hbegin, hprepare, hstep, hrc, Outcome.after, Script.pure_apply]
      | done => simp [Scans, hbegin, hprepare, hstep, Outcome.after, Script.pure_apply]
      | error code => simp [Scans, hbegin, hprepare, hstep, Outcome.after, Sql.die]
    · rw [Script.bind_of_ok (getInts_prepare_error conn hprepare)]
      simp [Scans, hbegin, hprepare, Outcome.after, Sql.die]
  · rw [beforeValues, execf_bind_died hbegin]
    simp [Scans, hbegin]

end Scan

/-- Import is all or nothing exactly if the loop over the values of an old bundle, once
begun, ends, and has seen no error unless a later call before the COMMIT fails. -/
theorem importClass_allOrNothing_iff (layer : Int) (path : String) (klass : Class) (s : σ) :
    (∃ turns, (importClass conn turns layer path klass s).AllOrNothing .commit) ↔
      ∀ bundleID s', Scans conn path s bundleID s' → ∃ erred out, Ends conn bundleID s' erred out ∧
        (erred = true → ∀ s'', out = some s'' →
          ∃ msg, (afterValues conn bundleID layer path klass s'').result = .error (.died msg)) := by
  simp only [importClass_eq, (checked_beforeValues conn path s).allOrNothing_bind_iff]
  constructor
  · rintro ⟨turns, hall⟩ bundleID s' hscans
    obtain ⟨hbefore, rfl⟩ := beforeValues_some_iff.mpr hscans
    have hall := hall _ hbefore
    have hended : (deleteValues conn turns bundleID (beforeValues conn path s).db).result ≠ .error .unfinished := by
      intro hunfinished
      simp only [Script.bind_error hunfinished] at hall
      exact hall.finished rfl
    obtain ⟨erred, out, hends, hended⟩ := exists_ends turns hended
    exact ⟨erred, out, hends, hended.allOrNothing_iff.mp hall⟩
  · intro hends
    cases hbefore : (beforeValues conn path s).result with
    | error stop => exact ⟨0, fun _ hok => nomatch hok⟩
    | ok old =>
      cases old with
      | none =>
        refine ⟨0, ?_⟩
        rintro _ ⟨⟩
        exact (checked_importNew conn layer path klass).allOrNothing _ _ _
      | some bundleID =>
        obtain ⟨erred, out, hends, hlater⟩ := hends bundleID _ (beforeValues_some_iff.mp ⟨hbefore, rfl⟩)
        obtain ⟨turns, hended⟩ := hends.exists_turns
        refine ⟨turns, ?_⟩
        rintro _ ⟨⟩
        exact hended.allOrNothing_iff.mpr hlater

/-- A connection that holds an old bundle, and whose first step over the values fails. -/
def busyOnce : Connection Query Nat where
  exec _ steps := (none, steps)
  prepare _ steps := (none, steps)
  step q steps :=
    match q with
    | .selectBundle _ => (.row 1 0, steps)
    | .selectValues _ => (if steps = 0 then .error 5 else .done, steps + 1)
    | _ => (.row 1 0, steps)
  finalize _ steps := steps
  lastInsertRowid _ := 2

theorem importClass_not_allOrNothing :
    ¬∃ turns, (importClass busyOnce turns 1 "svc.ucl" ⟨"svc", [], []⟩ 0).AllOrNothing .commit := by
  rintro ⟨turns, hall⟩
  match turns with
  | 0 => exact hall.finished rfl
  | 1 => exact hall.finished rfl
  | turns + 2 =>
    have hmade : (importClass busyOnce (turns + 2) 1 "svc.ucl" ⟨"svc", [], []⟩ 0).made =
        [⟨.exec .begin, true⟩, ⟨.prepare (.selectBundle "svc.ucl"), true⟩, ⟨.step (.selectBundle "svc.ucl"), true⟩,
          ⟨.prepare (.selectValues 1), true⟩, ⟨.step (.selectValues 1), false⟩, ⟨.step (.selectValues 1), true⟩,
          ⟨.exec (.deleteBundle 1), true⟩, ⟨.exec (.insertBundle "svc.ucl" 1), true⟩,
          ⟨.prepare (.selectService "svc"), true⟩, ⟨.step (.selectService "svc"), true⟩, ⟨.exec .commit, true⟩] := rfl
    have hsucceeded := hall.succeeded
    rw [hmade] at hsucceeded
    have hfailed := hsucceeded ⟨⟨.exec .commit, true⟩, by simp, rfl⟩ ⟨.step (.selectValues 1),
        false⟩ (by simp) (by simp)
    cases hfailed

end AddSys.Conn

end ServiceManager
