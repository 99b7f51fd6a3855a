import ServiceManager.Repository.Statements

namespace ServiceManager

open Sql

namespace AddSys

/-- A property of a bundle: `PropString` or `PropPage`. -/
inductive Property where
  | string (key value : String)
  | page (key : String) (properties : List Property)

def Property.key : Property → String
  | .string key _ => key
  | .page key _ => key

structure Instance where
  name : String
  properties : List Property

structure Class where
  name : String
  instances : List Instance
  properties : List Property

/-- Statements on the open transaction. `die` ends the process, upon which SQLite
rolls the transaction back. -/
abbrev SqlM := StateT Repository (Except String)

def die {α : Type} (msg : String) : SqlM α := throw msg

/-- Execute one statement, `none` being a violated constraint. -/
def exec (stmt : Repository → Option Repository) (msg : String) : SqlM Unit := do
  match stmt (← get) with
  | some r => set r
  | none => die msg

/-- The loop over the values of a bundle in `deleteBundle`. -/
def deleteValues : List Nat → SqlM Unit
  | [] => pure ()
  | rowID :: rest => do
    exec (fun r => some (r.deletePropertyValue rowID)) "Failed to delete old property values: %s\n"
    exec (fun r => some (r.deletePropertiesOf rowID)) "Failed to delete old properties: %s\n"
    deleteValues rest

/-- Delete a bundle from the repository, along with all its PropertyValues and
their Properties. The rows of the SELECT are visited in key order; deleting the
row just read does not disturb the scan. -/
def deleteBundle (bundleID : Nat) : SqlM Unit := do
  let rows := (← get).propertyValues.rows.filter (fun row => row.2.fkBundleID = some bundleID)
  deleteValues (rows.map Prod.fst)
  exec (fun r => some (r.deleteBundleRow bundleID)) "Failed to delete old bundle: %s\n"

/-- A page identifier of 0 stands for "no page". -/
def groupParent (parentSvcId parentPageId : Nat) : GroupParent :=
  if parentPageId ≠ 0 then .group parentPageId else .service parentSvcId

def propertyParent (parentSvcId parentInstId parentPageId : Nat) : PropertyParent :=
  if parentPageId ≠ 0 then .group parentPageId
  else if parentInstId ≠ 0 then .nst parentInstId
  else .service parentSvcId

section

-- How a column of numeric affinity stores a text, and compares with one.
variable (affinity : String → SqlValue)

/-- Get or create the PropertyGroups row of a page. -/
def getOrCreateGroup (k : GroupKey) : SqlM Nat := do
  match (← get).propertyGroups.lookup GroupKey.hit k with
  | some pageID => return pageID
  | none =>
    exec (·.insertPropertyGroup k) "Failed to insert property group entry: %s\n"
    return (← get).propertyGroups.seq

mutual

def importProp (bundleID parentSvcId parentInstId parentPageId : Nat) : Property → SqlM Unit
  | .string key value => do
    exec (·.insertPropertyValue bundleID "String" key (some value) none)
      "Failed to insert property value: %s\n"
    let propValId := (← get).propertyValues.seq
    exec (·.insertProperty (propertyParent parentSvcId parentInstId parentPageId) propValId)
      "Failed to insert property: %s\n"
  | .page key properties => do
    let pageID ← getOrCreateGroup ⟨groupParent parentSvcId parentPageId, affinity key⟩
    importProps bundleID parentSvcId parentInstId pageID properties
    exec (·.insertPropertyValue bundleID "Page" key none (some pageID))
      "Failed to insert property value: %s\n"
    let propValId := (← get).propertyValues.seq
    exec (·.insertProperty (propertyParent parentSvcId parentInstId parentPageId) propValId)
      "Failed to insert property: %s\n"

def importProps (bundleID parentSvcId parentInstId parentPageId : Nat) : List Property → SqlM Unit
  | [] => pure ()
  | prop :: rest => do
    importProp bundleID parentSvcId parentInstId parentPageId prop
    importProps bundleID parentSvcId parentInstId parentPageId rest

end

/-- Step 5.1: get or create an Instances entry. -/
def getOrCreateInstance (k : InstanceKey) : SqlM Nat := do
  match (← get).instances.lookup InstanceKey.hit k with
  | some instId => return instId
  | none =>
    exec (·.insertInstance k) "Failed to insert instance name: %d\n"
    return (← get).instances.seq

/-- Steps 5.1 and 5.2 for each instance of the class. -/
def importInstances (bundleID svcId : Nat) : List Instance → SqlM Unit
  | [] => pure ()
  | inst :: rest => do
    let instId ← getOrCreateInstance ⟨svcId, inst.name⟩
    importProps affinity bundleID svcId instId 0 inst.properties
    importInstances bundleID svcId rest

/-- Step 2: an old bundle of the same file goes, unless a snapshot refers to it. -/
def deleteOldBundle (filename : SqlValue) : SqlM Unit := do
  match (← get).selectBundle filename with
  | some (bundleID, rcOldBundle) => if rcOldBundle = 0 then deleteBundle bundleID
  | none => pure ()

/-- Step 4: get or create a Services entry. -/
def getOrCreateService (name : String) : SqlM Nat := do
  match (← get).selectService name with
  | some svcId => return svcId
  | none =>
    exec (·.insertService name none) "Failed to insert service name: %d\n"
    return (← get).services.seq

/-- `AddSys::import` between BEGIN and COMMIT. -/
def importClass (layer : Int) (bundleFullPath : String) (klass : Class) : SqlM Unit := do
  deleteOldBundle (affinity bundleFullPath)
  exec (·.insertBundle (affinity bundleFullPath) 0 layer) "Failed to insert bundle descriptor: %s\n"
  let bundleID := (← get).bundles.seq
  let svcId ← getOrCreateService klass.name
  importProps affinity bundleID svcId 0 0 klass.properties
  importInstances affinity bundleID svcId klass.instances

/-- The repository after `import` has committed, or the message it died with. -/
def commit (layer : Int) (bundleFullPath : String) (klass : Class) (r : Repository) : Except String Repository :=
  (fun res => res.2) <$> (importClass affinity layer bundleFullPath klass).run r

end

end AddSys

end ServiceManager
