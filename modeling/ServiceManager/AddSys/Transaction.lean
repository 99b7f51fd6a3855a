import ServiceManager.AddSys.Import
import ServiceManager.Sql.Connection

namespace ServiceManager

open Sql

namespace AddSys

/-- The column that `parentKey` names, and `parentID`. -/
inductive GroupColumn where
  | service (id : Int)
  | group (id : Int)
deriving DecidableEq

/-- The column that `propParentKey` names, and `propParentID`. -/
inductive PropertyColumn where
  | service (id : Int)
  | nst (id : Int)
  | group (id : Int)
deriving DecidableEq

/-- The statements of `import`, `deleteBundle` and `importProp`. -/
inductive Query where
  /-- `BEGIN TRANSACTION;` -/
  | begin
  /-- `COMMIT;` -/
  | commit
  /-- `SELECT BundleID, RefCount FROM Bundles WHERE Filename = '%s';` -/
  | selectBundle (filename : String)
  /-- `SELECT rowid FROM PropertyValues WHERE FK_BundleID = %d;` -/
  | selectValues (bundleID : Int)
  /-- `DELETE FROM PropertyValues WHERE rowid = %d;` -/
  | deleteValue (rowID : Int)
  /-- `DELETE FROM Properties WHERE FK_PropertyValueID = %d;` -/
  | deletePropertiesOf (rowID : Int)
  /-- `DELETE FROM Bundles WHERE BundleID = %d;` -/
  | deleteBundle (bundleID : Int)
  /-- `INSERT INTO Bundles(Filename, MD5Sum, Layer) VALUES('%s', 0, %d);` -/
  | insertBundle (filename : String) (layer : Int)
  /-- `SELECT ServiceID FROM Services WHERE Name = '%s';` -/
  | selectService (name : String)
  /-- `INSERT INTO Services(Name) VALUES ('%s');` -/
  | insertService (name : String)
  /-- `SELECT InstanceID FROM Instances WHERE FK_Parent_ServiceID = %d AND Name = '%s';` -/
  | selectInstance (svcId : Int) (name : String)
  /-- `INSERT INTO Instances(FK_Parent_ServiceID, Name) VALUES (%d, '%s');` -/
  | insertInstance (svcId : Int) (name : String)
  /-- `SELECT PropertyGroupID FROM PropertyGroups WHERE %s = %d AND Name = '%s';` -/
  | selectGroup (parent : GroupColumn) (name : String)
  /-- `INSERT INTO PropertyGroups(Name, %s) VALUES ('%s', %d);` -/
  | insertGroup (parent : GroupColumn) (name : String)
  /-- `INSERT INTO PropertyValues(FK_BundleID, Type, PropertyKey, StringValue)VALUES(%d, 'String', '%s', '%s');` -/
  | insertString (bundleID : Int) (key value : String)
  /-- `INSERT INTO PropertyValues (FK_BundleID, Type, PropertyKey, FK_PageValue_PropertyGroupID) VALUES(%d, 'Page',
    '%s', '%d');` -/
  | insertPage (bundleID : Int) (key : String) (pageID : Int)
  /-- `INSERT INTO Properties(%s, FK_PropertyValueID) VALUES (%d, %d);` -/
  | insertProperty (parent : PropertyColumn) (propValId : Int)
deriving DecidableEq

namespace Conn

variable {σ : Type} (conn : Connection Query σ)

def execf (q : Query) (msg : String) : Script Query σ Unit :=
  orDie (Sql.exec conn q) msg

/-- The loop of `deleteBundle`, for so many turns. A step that fails is followed by
another. -/
def deleteValues : Nat → Int → Script Query σ Unit
  | 0, _ => unfinished
  | turns + 1, bundleID => do
    match ← step conn (.selectValues bundleID) with
    | .done => pure ()
    | .row rowID _ =>
      execf conn (.deleteValue rowID) "Failed to delete old property values: %s\n"
      execf conn (.deletePropertiesOf rowID) "Failed to delete old properties: %s\n"
      deleteValues turns bundleID
    | .error _ => deleteValues turns bundleID

def deleteBundle (turns : Nat) (bundleID : Int) : Script Query σ Unit := do
  orDie (prepare conn (.selectValues bundleID)) "Failed to get old property values: %s\n"
  deleteValues conn turns bundleID
  finalize conn (.selectValues bundleID)
  execf conn (.deleteBundle bundleID) "Failed to delete old bundle: %s\n"

/-- Step 2. -/
def deleteOldBundle (turns : Nat) (bundleFullPath : String) : Script Query σ Unit := do
  match ← getInts conn (.selectBundle bundleFullPath) with
  | .row bundleID rcOldBundle => if rcOldBundle = 0 then deleteBundle conn turns bundleID
  | .done => pure ()
  | .error _ => Sql.die "Failed to get bundle ID: %s\n"

/-- Get the row of a select, or insert one. -/
def getOrCreate (select insert : Query) (insertMsg selectMsg : String) : Script Query σ Int := do
  match ← getInts conn select with
  | .row id _ => return id
  | .done =>
    execf conn insert insertMsg
    lastInsertRowid conn
  | .error _ => Sql.die selectMsg

def groupParent (parentSvcId parentPageId : Int) : GroupColumn :=
  if parentPageId ≠ 0 then .group parentPageId else .service parentSvcId

def propertyParent (parentSvcId parentInstId parentPageId : Int) : PropertyColumn :=
  if parentPageId ≠ 0 then .group parentPageId
  else if parentInstId ≠ 0 then .nst parentInstId
  else .service parentSvcId

mutual

def importProp (bundleID parentSvcId parentInstId parentPageId : Int) : Property → Script Query σ Unit
  | .string key value => do
    execf conn (.insertString bundleID key value) "Failed to insert property value: %s\n"
    let propValId ← lastInsertRowid conn
    execf conn (.insertProperty (propertyParent parentSvcId parentInstId parentPageId) propValId)
      "Failed to insert property: %s\n"
  | .page key properties => do
    let parent := groupParent parentSvcId parentPageId
    let pageID ← getOrCreate conn (.selectGroup parent key) (.insertGroup parent key)
      "Failed to insert property group entry: %s\n" "Failed to get property group ID: %s\n"
    importProps bundleID parentSvcId parentInstId pageID properties
    execf conn (.insertPage bundleID key pageID) "Failed to insert property value: %s\n"
    let propValId ← lastInsertRowid conn
    execf conn (.insertProperty (propertyParent parentSvcId parentInstId parentPageId) propValId)
      "Failed to insert property: %s\n"

def importProps (bundleID parentSvcId parentInstId parentPageId : Int) : List Property → Script Query σ Unit
  | [] => pure ()
  | prop :: rest => do
    importProp bundleID parentSvcId parentInstId parentPageId prop
    importProps bundleID parentSvcId parentInstId parentPageId rest

end

def importInstances (bundleID svcId : Int) : List Instance → Script Query σ Unit
  | [] => pure ()
  | inst :: rest => do
    let instId ← getOrCreate conn (.selectInstance svcId inst.name) (.insertInstance svcId inst.name)
      "Failed to insert instance name: %d\n" "Failed to get instance ID: %s\n"
    importProps conn bundleID svcId instId 0 inst.properties
    importInstances bundleID svcId rest

/-- Steps 3 to 5. -/
def importNew (layer : Int) (bundleFullPath : String) (klass : Class) : Script Query σ Unit := do
  execf conn (.insertBundle bundleFullPath layer) "Failed to insert bundle descriptor: %s\n"
  let bundleID ← lastInsertRowid conn
  let svcId ← getOrCreate conn (.selectService klass.name) (.insertService klass.name)
    "Failed to insert service name: %d\n" "Failed to get service ID: %s\n"
  importProps conn bundleID svcId 0 0 klass.properties
  importInstances conn bundleID svcId klass.instances

/-- `AddSys::import`, with so many turns for the loop of `deleteBundle`. -/
def importClass (turns : Nat) (layer : Int) (bundleFullPath : String) (klass : Class) : Script Query σ Unit := do
  execf conn .begin "Failed to begin transaction: %s\n"
  deleteOldBundle conn turns bundleFullPath
  importNew conn layer bundleFullPath klass
  execf conn .commit "Failed to commit: %s\n"

section Turns

variable {conn} {bundleID rowID second code : Int} {s s' s₁ s₂ s₃ : σ} (turns : Nat)

theorem execf_bind_ok {α : Type} {q : Query} {msg : String} {f : Unit → Script Query σ α}
    (h : conn.exec q s = (none, s')) :
    (execf conn q msg >>= f) s = (f () s').after [⟨.exec q, true⟩] :=
  orDie_bind_none h

theorem execf_bind_died {α : Type} {q : Query} {msg : String} {f : Unit → Script Query σ α}
    (h : conn.exec q s = (some code, s')) :
    (execf conn q msg >>= f) s = ⟨.error (.died msg), s', [⟨.exec q, false⟩]⟩ :=
  orDie_bind_some h

theorem deleteValues_done (h : conn.step (.selectValues bundleID) s = (.done, s')) :
    deleteValues conn (turns + 1) bundleID s = ⟨.ok (), s', [⟨.step (.selectValues bundleID), true⟩]⟩ := by
  rw [deleteValues, Script.bind_of_ok (step_eq conn h)]
  rfl

theorem deleteValues_error (h : conn.step (.selectValues bundleID) s = (.error code, s₁)) :
    deleteValues conn (turns + 1) bundleID s =
      (deleteValues conn turns bundleID s₁).after [⟨.step (.selectValues bundleID), false⟩] := by
  rw [deleteValues, Script.bind_of_ok (step_eq conn h)]
  rfl

theorem deleteValues_value (h : conn.step (.selectValues bundleID) s = (.row rowID second, s₁))
    (hvalue : conn.exec (.deleteValue rowID) s₁ = (some code, s₂)) :
    deleteValues conn (turns + 1) bundleID s =
      ⟨.error (.died "Failed to delete old property values: %s\n"), s₂,
        [⟨.step (.selectValues bundleID), true⟩, ⟨.exec (.deleteValue rowID), false⟩]⟩ := by
  rw [deleteValues, Script.bind_of_ok (step_eq conn h)]
  simp only
  rw [execf_bind_died hvalue]
  rfl

theorem deleteValues_properties (h : conn.step (.selectValues bundleID) s = (.row rowID second, s₁))
    (hvalue : conn.exec (.deleteValue rowID) s₁ = (none, s₂))
    (hproperties : conn.exec (.deletePropertiesOf rowID) s₂ = (some code, s₃)) :
    deleteValues conn (turns + 1) bundleID s =
      ⟨.error (.died "Failed to delete old properties: %s\n"), s₃,
        [⟨.step (.selectValues bundleID), true⟩, ⟨.exec (.deleteValue rowID), true⟩,
          ⟨.exec (.deletePropertiesOf rowID), false⟩]⟩ := by
  rw [deleteValues, Script.bind_of_ok (step_eq conn h)]
  simp only
  rw [execf_bind_ok hvalue, execf_bind_died hproperties]
  rfl

theorem deleteValues_row (h : conn.step (.selectValues bundleID) s = (.row rowID second, s₁))
    (hvalue : conn.exec (.deleteValue rowID) s₁ = (none, s₂))
    (hproperties : conn.exec (.deletePropertiesOf rowID) s₂ = (none, s₃)) :
    deleteValues conn (turns + 1) bundleID s =
      (deleteValues conn turns bundleID s₃).after
        [⟨.step (.selectValues bundleID), true⟩, ⟨.exec (.deleteValue rowID), true⟩,
          ⟨.exec (.deletePropertiesOf rowID), true⟩] := by
  rw [deleteValues, Script.bind_of_ok (step_eq conn h)]
  simp only
  rw [execf_bind_ok hvalue, execf_bind_ok hproperties]
  rfl

end Turns

end Conn

end AddSys

end ServiceManager
