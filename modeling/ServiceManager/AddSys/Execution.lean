import ServiceManager.AddSys.Format
import ServiceManager.AddSys.Run
import ServiceManager.Sql.Layers

namespace ServiceManager

open Sql Machine

namespace AddSys

def GroupColumn.parent : GroupColumn → GroupParent
  | .service id => .service id.toNat
  | .group id => .group id.toNat

def PropertyColumn.parent : PropertyColumn → PropertyParent
  | .service id => .service id.toNat
  | .nst id => .nst id.toNat
  | .group id => .group id.toNat

/-- The keys that a statement names. -/
def Query.ids : Query → List Int
  | .selectValues bundleID => [bundleID]
  | .deleteValue rowID => [rowID]
  | .deletePropertiesOf rowID => [rowID]
  | .deleteBundle bundleID => [bundleID]
  | .selectInstance svcId _ => [svcId]
  | .insertInstance svcId _ => [svcId]
  | .selectGroup parent _ => [parent.column.2]
  | .insertGroup parent _ => [parent.column.2]
  | .insertString bundleID _ _ => [bundleID]
  | .insertPage bundleID _ pageID => [bundleID, pageID]
  | .insertProperty parent propValId => [parent.column.2, propValId]
  | _ => []

/-- The keys are such as rows have. -/
def Query.Named (q : Query) : Prop :=
  ∀ id ∈ q.ids, 0 ≤ id

/-- There is a key left for the row that a statement inserts. -/
def Query.HasRoom (r : Repository) : Query → Prop
  | .insertBundle .. => r.bundles.nextId < 2 ^ 63
  | .insertInstance .. => r.instances.nextId < 2 ^ 63
  | .insertGroup .. => r.propertyGroups.nextId < 2 ^ 63
  | .insertString .. => r.propertyValues.nextId < 2 ^ 63
  | .insertPage .. => r.propertyValues.nextId < 2 ^ 63
  | .insertProperty .. => r.properties.nextId < 2 ^ 63
  | _ => True

namespace Conn

/-- A repository with what SQLite keeps besides: the rows a select has yet to give, and
the key of the last insertion. -/
structure Db where
  repo : Repository
  rows : List (Int × Int)
  rowid : Nat

variable (affinity : String → SqlValue)

/-- Rows of one column, the key. -/
def keys (ids : List Nat) : List (Int × Int) :=
  ids.map fun id : Nat => ((id : Int), 0)

/-- The rows of a select, in the order of their keys. -/
def select (r : Repository) : Query → List (Int × Int)
  | .selectBundle filename =>
    (r.bundles.rows.filter fun row => row.2.filename = affinity filename).map fun row => ((row.1 : Int), row.2.refCount)
  | .selectValues bundleID => keys (r.propertyValues.select fun row => row.fkBundleID = some bundleID.toNat)
  | .selectService name => keys (r.services.select fun row => row.name = name)
  | .selectInstance svcId name => keys (r.instances.select (InstanceKey.hit ⟨svcId.toNat, name⟩))
  | .selectGroup parent name => keys (r.propertyGroups.select (GroupKey.hit ⟨parent.parent, affinity name⟩))
  | _ => []

/-- The repository after a statement, and the key it has inserted. -/
def perform (r : Repository) : Query → Option (Repository × Option Nat)
  | .deleteValue rowID => some (r.deletePropertyValue rowID.toNat, none)
  | .deletePropertiesOf rowID => some (r.deletePropertiesOf rowID.toNat, none)
  | .deleteBundle bundleID => some (r.deleteBundleRow bundleID.toNat, none)
  | .insertBundle filename layer =>
    (r.insertBundle (affinity filename) 0 layer).map fun r => (r, some r.bundles.seq)
  | .insertService name => (r.insertService name none).map fun r => (r, some r.services.seq)
  | .insertInstance svcId name =>
    (r.insertInstance ⟨svcId.toNat, name⟩).map fun r => (r, some r.instances.seq)
  | .insertGroup parent name =>
    (r.insertPropertyGroup ⟨parent.parent, affinity name⟩).map fun r => (r, some r.propertyGroups.seq)
  | .insertString bundleID key value =>
    (r.insertPropertyValue bundleID.toNat "String" key (some value) none).map fun r => (r, some r.propertyValues.seq)
  | .insertPage bundleID key pageID =>
    (r.insertPropertyValue bundleID.toNat "Page" key none (some pageID.toNat)).map fun r =>
      (r, some r.propertyValues.seq)
  | .insertProperty parent propValId =>
    (r.insertProperty parent.parent propValId.toNat).map fun r => (r, some r.properties.seq)
  | _ => some (r, none)

/-- A connection to a repository on which only a violated constraint makes a call fail,
with SQLITE_CONSTRAINT. -/
def repository : Connection Query Db where
  exec q db :=
    match perform affinity db.repo q with
    | some (repo, rowid) => (none, { db with repo, rowid := rowid.getD db.rowid })
    | none => (some 19, db)
  prepare q db := (none, { db with rows := select affinity db.repo q })
  step _ db :=
    match db.rows with
    | [] => (.done, db)
    | (first, second) :: rows => (.row first second, { db with rows })
  finalize _ db := { db with rows := [] }
  lastInsertRowid db := db.rowid

/-- The connection acts on a repository as `repository` does, where the strings of a statement
are such as `P` says. -/
structure Acts {σ : Type} (conn : Connection Query σ) (db : σ → Db) (P : String → Prop) : Prop where
  exec : ∀ q s, q.Named → (∀ x ∈ q.strings, P x) → q.HasRoom (db s).repo →
    (conn.exec q s).1 = ((repository affinity).exec q (db s)).1 ∧
      db (conn.exec q s).2 = ((repository affinity).exec q (db s)).2
  prepare : ∀ q s, q.Named → (∀ x ∈ q.strings, P x) →
    (conn.prepare q s).1 = ((repository affinity).prepare q (db s)).1 ∧
      db (conn.prepare q s).2 = ((repository affinity).prepare q (db s)).2
  step : ∀ q s, q.Named → (∀ x ∈ q.strings, P x) →
    (conn.step q s).1 = ((repository affinity).step q (db s)).1 ∧
      db (conn.step q s).2 = ((repository affinity).step q (db s)).2
  finalize : ∀ q s, q.Named → (∀ x ∈ q.strings, P x) →
    db (conn.finalize q s) = (repository affinity).finalize q (db s)
  rowid : ∀ s, conn.lastInsertRowid s = (repository affinity).lastInsertRowid (db s)

/-- The repository acts on itself. -/
theorem repository_acts (P : String → Prop) : Acts affinity (repository affinity) (fun db => db) P where
  exec _ _ _ _ _ := ⟨rfl, rfl⟩
  prepare _ _ _ _ := ⟨rfl, rfl⟩
  step _ _ _ _ := ⟨rfl, rfl⟩
  finalize _ _ _ _ := rfl
  rowid _ := rfl

section Calls

variable {affinity} {σ α : Type} {conn : Connection Query σ} {db : σ → Db} {P : String → Prop}
    (h : Acts affinity conn db P)
  {q q' : Query} {s : σ} {r r' : Repository} {msg msg' : String} {f : Int → Script Query σ α} {b : α} {id : Nat}

/-- The repository of a connection. -/
abbrev repoOf (db : σ → Db) (s : σ) : Repository :=
  (db s).repo

namespace Acts

include h

theorem exec_none (hq : q.Named) (hP : ∀ x ∈ q.strings, P x) (hroom : q.HasRoom (db s).repo)
    (hperform : perform affinity (db s).repo q = none) : DiesWith (execf conn.ints q msg) s msg := by
  obtain ⟨hresult, -⟩ := h.exec q s hq hP hroom
  have hexec : conn.ints.exec q s = (some 19, (conn.exec q s).2) := by
    have hcode : ((repository affinity).exec q (db s)).1 = some 19 := by simp [repository, hperform]
    exact Prod.ext (hresult.trans hcode) rfl
  exact ⟨_, _, orDie_attempt_some hexec⟩

theorem exec_some (hq : q.Named) (hP : ∀ x ∈ q.strings, P x) (hroom : q.HasRoom (db s).repo) {rowid : Option Nat}
    (hperform : perform affinity (db s).repo q = some (r, rowid)) :
    ∃ s', conn.ints.exec q s = (none, s') ∧ db s' = { db s with repo := r, rowid := rowid.getD (db s).rowid } := by
  obtain ⟨hresult, hdb⟩ := h.exec q s hq hP hroom
  have hrepo : (repository affinity).exec q (db s) =
      (none, { db s with repo := r, rowid := rowid.getD (db s).rowid }) := by simp [repository, hperform]
  rw [hrepo] at hresult hdb
  exact ⟨_, Prod.ext hresult rfl, hdb⟩

/-- A statement that a constraint does not stop. -/
theorem execf_gives (hq : q.Named) (hP : ∀ x ∈ q.strings, P x) (hroom : q.HasRoom (db s).repo) {rowid : Option Nat}
    (hperform : perform affinity (db s).repo q = some (r, rowid)) :
    Gives (repoOf db) (execf conn.ints q msg) s () r := by
  obtain ⟨s', hexec, hdb⟩ := h.exec_some hq hP hroom hperform
  exact ⟨s', _, orDie_attempt_none hexec, by rw [repoOf, hdb]⟩

/-- An insertion and the key of the new row, which an `int` has to hold. -/
theorem insert_gives (hq : q.Named) (hP : ∀ x ∈ q.strings, P x) (hroom : q.HasRoom (db s).repo)
    (hperform : perform affinity (db s).repo q = some (r, some id)) (hid : id < 2 ^ 31)
    (hf : ∀ s', (db s').repo = r → Gives (repoOf db) (f id) s' b r') :
    Gives (repoOf db) (execf conn.ints q msg >>= fun _ => lastInsertRowid conn.ints >>= f) s b r' := by
  obtain ⟨s', hexec, hdb⟩ := h.exec_some hq hP hroom hperform
  have hkey : (lastInsertRowid conn.ints) s' = ⟨.ok (id : Int), s', []⟩ := by
    have hrowid : conn.ints.lastInsertRowid s' = id := by
      change int32 (conn.lastInsertRowid s') = id
      rw [h.rowid, hdb]
      exact int32_natCast hid
    rw [lastInsertRowid, hrowid]
  obtain ⟨s'', made, hrest, hrepo⟩ := hf s' (by rw [hdb])
  refine ⟨s'', ⟨.exec q, true⟩ :: made, ?_, hrepo⟩
  rw [execf, Sql.exec, orDie_bind_none hexec, Script.bind_of_ok hkey, hrest]
  rfl

theorem getInts_nil (hq : q.Named) (hP : ∀ x ∈ q.strings, P x) (hrows : select affinity (db s).repo q = []) :
    Gives (repoOf db) (getInts conn.ints q) s .done (db s).repo := by
  obtain ⟨hprepare, hdb⟩ := h.prepare q s hq hP
  obtain ⟨hstep, hdb'⟩ := h.step q (conn.prepare q s).2 hq hP
  have hfinal := h.finalize q (conn.step q (conn.prepare q s).2).2 hq hP
  rw [hdb] at hstep hdb'
  rw [hdb'] at hfinal
  have hprepared : conn.ints.prepare q s = (none, (conn.prepare q s).2) := Prod.ext hprepare rfl
  have hdone : conn.ints.step q (conn.prepare q s).2 = (.done, (conn.step q (conn.prepare q s).2).2) := by
    refine Prod.ext ?_ rfl
    change (conn.step q (conn.prepare q s).2).1.ints = .done
    rw [hstep]
    simp [repository, hrows, StepResult.ints]
  refine ⟨_, _, getInts_prepared conn.ints hprepared hdone, ?_⟩
  change (db (conn.finalize q _)).repo = _
  rw [hfinal]
  simp [repository, hrows]

theorem getInts_cons (hq : q.Named) (hP : ∀ x ∈ q.strings, P x) {first second : Int} {rest : List (Int × Int)}
    (hrows : select affinity (db s).repo q = (first, second) :: rest) :
    Gives (repoOf db) (getInts conn.ints q) s (.row (int32 first) (int32 second)) (db s).repo := by
  obtain ⟨hprepare, hdb⟩ := h.prepare q s hq hP
  obtain ⟨hstep, hdb'⟩ := h.step q (conn.prepare q s).2 hq hP
  have hfinal := h.finalize q (conn.step q (conn.prepare q s).2).2 hq hP
  rw [hdb] at hstep hdb'
  rw [hdb'] at hfinal
  have hprepared : conn.ints.prepare q s = (none, (conn.prepare q s).2) := Prod.ext hprepare rfl
  have hrow : conn.ints.step q (conn.prepare q s).2 =
      (.row (int32 first) (int32 second), (conn.step q (conn.prepare q s).2).2) := by
    refine Prod.ext ?_ rfl
    change (conn.step q (conn.prepare q s).2).1.ints = _
    rw [hstep]
    simp [repository, hrows, StepResult.ints]
  refine ⟨_, _, getInts_prepared conn.ints hprepared hrow, ?_⟩
  change (db (conn.finalize q _)).repo = _
  rw [hfinal]
  simp [repository, hrows]

theorem getOrCreate_found (hq : q.Named) (hP : ∀ x ∈ q.strings, P x) {rest : List Nat}
    (hrows : select affinity (db s).repo q = keys (id :: rest)) (hid : id < 2 ^ 31) :
    Gives (repoOf db) (getOrCreate conn.ints q q' msg msg') s (id : Int) (db s).repo := by
  obtain ⟨s', made, hget, hrepo⟩ := h.getInts_cons hq hP hrows
  refine ⟨s', made, ?_, hrepo⟩
  rw [getOrCreate, Script.bind_of_ok hget, int32_natCast hid]
  simp [Script.pure_apply, Outcome.after]

theorem getOrCreate_made (hq : q.Named) (hq' : q'.Named) (hP : ∀ x ∈ q.strings, P x) (hP' : ∀ x ∈ q'.strings, P x)
    (hroom : q'.HasRoom (db s).repo) (hrows : select affinity (db s).repo q = [])
    (hperform : perform affinity (db s).repo q' = some (r, some id)) (hid : id < 2 ^ 31) :
    Gives (repoOf db) (getOrCreate conn.ints q q' msg msg') s (id : Int) r := by
  rw [getOrCreate]
  refine (h.getInts_nil hq hP hrows).bind fun s' hrepo => ?_
  change (db s').repo = _ at hrepo
  rw [← hrepo] at hroom hperform
  have hrest : Gives (repoOf db) (execf conn.ints q' msg >>= fun _ => lastInsertRowid conn.ints >>= Pure.pure) s'
      (id : Int) r :=
    h.insert_gives hq' hP' hroom hperform hid fun s'' hs'' => ⟨s'', [], rfl, hs''⟩
  exact hrest

theorem getOrCreate_dies (hq : q.Named) (hq' : q'.Named) (hP : ∀ x ∈ q.strings, P x) (hP' : ∀ x ∈ q'.strings, P x)
    (hroom : q'.HasRoom (db s).repo) (hrows : select affinity (db s).repo q = [])
    (hperform : perform affinity (db s).repo q' = none) : DiesWith (getOrCreate conn.ints q q' msg msg') s msg := by
  rw [getOrCreate]
  refine (h.getInts_nil hq hP hrows).bind_dies fun s' hrepo => ?_
  change (db s').repo = _ at hrepo
  rw [← hrepo] at hroom hperform
  exact (h.exec_none hq' hP' hroom hperform).bind

end Acts

end Calls

end Conn

end AddSys

end ServiceManager
