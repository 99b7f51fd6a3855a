import ServiceManager.Repository.Schema
import ServiceManager.Sql.Keyed

namespace ServiceManager

open Sql

/-- The column that holds a property group's parent, and the parent's key. -/
inductive GroupParent where
  | service (id : Nat)
  | group (id : Nat)
  deriving DecidableEq, Repr

/-- The column that holds a property's parent, and the parent's key. -/
inductive PropertyParent where
  | service (id : Nat)
  | nst (id : Nat)
  | group (id : Nat)
  deriving DecidableEq, Repr

/-- What `SELECT PropertyGroupID FROM PropertyGroups WHERE parent = id AND Name = name` asks for. -/
structure GroupKey where
  parent : GroupParent
  name : SqlValue
  deriving DecidableEq

def GroupKey.hit (k : GroupKey) (row : PropertyGroupRow) : Bool :=
  match k.parent with
  | .service id => row.fkParentServiceID = some id ∧ row.name = k.name
  | .group id => row.fkParentPropertyGroupID = some id ∧ row.name = k.name

/-- `INSERT INTO PropertyGroups(Name, parent) VALUES (name, id)`. -/
def GroupKey.row (k : GroupKey) : PropertyGroupRow :=
  match k.parent with
  | .service id => ⟨k.name, 0, some id, none⟩
  | .group id => ⟨k.name, 0, none, some id⟩

theorem GroupKey.hit_row {k l : GroupKey} : k.hit l.row = true ↔ k = l := by
  obtain ⟨parent, name⟩ := k
  obtain ⟨parent', name'⟩ := l
  cases parent <;> cases parent' <;> simp [GroupKey.hit, GroupKey.row] <;> exact and_congr eq_comm eq_comm

/-- What `SELECT InstanceID FROM Instances WHERE FK_Parent_ServiceID = svc AND Name = name` asks for. -/
structure InstanceKey where
  fkParentServiceID : Nat
  name : String
  deriving DecidableEq

def InstanceKey.hit (k : InstanceKey) (row : InstanceRow) : Bool :=
  row.fkParentServiceID = k.fkParentServiceID ∧ row.name = k.name

/-- `INSERT INTO Instances(FK_Parent_ServiceID, Name) VALUES (svc, name)`. -/
def InstanceKey.row (k : InstanceKey) : InstanceRow :=
  ⟨k.name, k.fkParentServiceID⟩

theorem InstanceKey.hit_row {k l : InstanceKey} : k.hit l.row = true ↔ k = l := by
  obtain ⟨svc, name⟩ := k
  obtain ⟨svc', name'⟩ := l
  rw [InstanceKey.hit, decide_eq_true_eq, InstanceKey.mk.injEq]
  exact and_congr eq_comm eq_comm

/-- The instances of different names have different rows. -/
theorem lookup_name_injective {instances : Table InstanceRow} {svcId id : Nat} {name name' : String}
    (h : instances.lookup InstanceKey.hit ⟨svcId, name⟩ = some id)
    (h' : instances.lookup InstanceKey.hit ⟨svcId, name'⟩ = some id) : name = name' := by
  obtain ⟨row, hrow, hhit⟩ := Table.lookup_mem h
  obtain ⟨row', hrow', hhit'⟩ := Table.lookup_mem h'
  have hsame := Table.row_unique hrow hrow'
  subst hsame
  simp only [InstanceKey.hit, decide_eq_true_eq] at hhit hhit'
  rw [← hhit.2, ← hhit'.2]

/-- `INSERT INTO Properties(parent, FK_PropertyValueID) VALUES (id, value)`. -/
def PropertyParent.row (parent : PropertyParent) (fkPropertyValueID : Nat) : PropertyRow :=
  match parent with
  | .service id => ⟨none, some id, none, fkPropertyValueID⟩
  | .nst id => ⟨some id, none, none, fkPropertyValueID⟩
  | .group id => ⟨none, none, some id, fkPropertyValueID⟩

@[simp] theorem PropertyParent.row_value (parent : PropertyParent) (fkPropertyValueID : Nat) :
    (parent.row fkPropertyValueID).fkPropertyValueID = fkPropertyValueID := by
  cases parent <;> rfl

/-- The property is parented, in the column the parent names, to that parent. -/
def PropertyRow.HasColumn (row : PropertyRow) : PropertyParent → Prop
  | .service id => row.fkParentServiceID = some id
  | .nst id => row.fkParentInstanceID = some id
  | .group id => row.fkParentPropertyGroupID = some id

instance (row : PropertyRow) (parent : PropertyParent) : Decidable (row.HasColumn parent) :=
  match parent with
  | .service id => inferInstanceAs (Decidable (row.fkParentServiceID = some id))
  | .nst id => inferInstanceAs (Decidable (row.fkParentInstanceID = some id))
  | .group id => inferInstanceAs (Decidable (row.fkParentPropertyGroupID = some id))

theorem PropertyParent.hasColumn_row {parent parent' : PropertyParent} {vid : Nat} :
    (parent'.row vid).HasColumn parent ↔ parent' = parent := by
  cases parent <;> cases parent' <;> simp [PropertyRow.HasColumn, PropertyParent.row]

/-- The values the CHECK on `PropertyValues.Type` admits. -/
def ValueType.ofText? : String → Option ValueType
  | "String" => some .string
  | "Page" => some .page
  | _ => none

namespace Repository

/-- `SELECT BundleID, RefCount FROM Bundles WHERE Filename = path`. -/
def selectBundle (r : Repository) (filename : SqlValue) : Option (Nat × Int) :=
  (r.bundles.first (fun row => row.filename = filename)).map (fun row => (row.1, row.2.refCount))

/-- `SELECT ServiceID FROM Services WHERE Name = name`. -/
def selectService (r : Repository) (name : String) : Option Nat :=
  (r.services.first (fun row => row.name = name)).map Prod.fst

/-- `INSERT INTO Bundles(Filename, MD5Sum, Layer)`: RefCount takes its default. -/
def insertBundle (r : Repository) (filename : SqlValue) (md5Sum layer : Int) : Option Repository :=
  if h : layer = 1 ∨ layer = 2 ∨ layer = 3 ∨ layer = 4 then
    some { r with bundles := r.bundles.insert ⟨0, filename, md5Sum, ⟨layer, h⟩⟩ }
  else none

/-- `INSERT INTO Services`, with the columns given. Type is NOT NULL and has no default. -/
def insertService (r : Repository) (name : String) (type : Option String) : Option Repository :=
  type.map fun type => { r with services := r.services.insert ⟨name, type⟩ }

def insertInstance (r : Repository) (k : InstanceKey) : Option Repository :=
  some { r with instances := r.instances.insert k.row }

def insertPropertyGroup (r : Repository) (k : GroupKey) : Option Repository :=
  some { r with propertyGroups := r.propertyGroups.insert k.row }

/-- `INSERT INTO PropertyValues`, with the columns given. -/
def insertPropertyValue (r : Repository) (fkBundleID : Nat) (type propertyKey : String)
    (stringValue : Option String) (fkPageValue : Option Nat) : Option Repository :=
  (ValueType.ofText? type).map fun type =>
    { r with propertyValues :=
        r.propertyValues.insert ⟨some fkBundleID, type, propertyKey, stringValue, fkPageValue⟩ }

def insertProperty (r : Repository) (parent : PropertyParent) (fkPropertyValueID : Nat) : Option Repository :=
  some { r with properties := r.properties.insert (parent.row fkPropertyValueID) }

/-- `DELETE FROM PropertyValues WHERE rowid = id`. -/
def deletePropertyValue (r : Repository) (rowID : Nat) : Repository :=
  { r with propertyValues := r.propertyValues.delete (fun id _ => id = rowID) }

/-- `DELETE FROM Properties WHERE FK_PropertyValueID = id`. -/
def deletePropertiesOf (r : Repository) (rowID : Nat) : Repository :=
  { r with properties := r.properties.delete (fun _ row => row.fkPropertyValueID = rowID) }

/-- `DELETE FROM Bundles WHERE BundleID = id`. -/
def deleteBundleRow (r : Repository) (bundleID : Nat) : Repository :=
  { r with bundles := r.bundles.delete (fun id _ => id = bundleID) }

end Repository

end ServiceManager
