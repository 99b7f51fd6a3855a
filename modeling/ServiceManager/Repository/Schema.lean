import ServiceManager.Sql.Table

namespace ServiceManager

open Sql

/-- A value as a column of numeric affinity stores it: text that reads as a
number has become one. -/
inductive SqlValue where
  | integer (n : Int)
  | real (bits : BitVec 64)
  | text (s : String)
  deriving DecidableEq, Repr

/-- `Layer INTEGER NOT NULL CHECK(Layer = 1 OR Layer = 2 OR Layer = 3 OR Layer = 4)`. -/
def Layer : Type := { n : Int // n = 1 ∨ n = 2 ∨ n = 3 ∨ n = 4 }

instance : DecidableEq Layer := inferInstanceAs (DecidableEq (Subtype _))

structure ServiceRow where
  name : String
  type : String
  deriving DecidableEq

structure InstanceRow where
  name : String
  fkParentServiceID : Nat
  deriving DecidableEq

structure SnapshotRow where
  name : String
  fkParentInstanceID : Nat
  deriving DecidableEq

/-- `Filename` is declared INTEGER, hence of numeric affinity. -/
structure BundleRow where
  refCount : Int
  filename : SqlValue
  md5Sum : Int
  layer : Layer
  deriving DecidableEq

structure SnapshotPropertyRow where
  fkSnapshotID : Nat
  fkPropertyID : Nat
  deriving DecidableEq

structure PropertyRow where
  fkParentInstanceID : Option Nat
  fkParentServiceID : Option Nat
  fkParentPropertyGroupID : Option Nat
  fkPropertyValueID : Nat
  deriving DecidableEq

/-- `Type TEXT NOT NULL CHECK(Type = 'String' OR Type = 'Page')`. -/
inductive ValueType where
  | string
  | page
  deriving DecidableEq, Repr

structure PropertyValueRow where
  fkBundleID : Option Nat
  type : ValueType
  propertyKey : String
  stringValue : Option String
  fkPageValuePropertyGroupID : Option Nat
  deriving DecidableEq

/-- `Name` is declared STRING, which SQLite reads as numeric affinity. -/
structure PropertyGroupRow where
  name : SqlValue
  refCount : Int
  fkParentServiceID : Option Nat
  fkParentPropertyGroupID : Option Nat
  deriving DecidableEq

/-- The tables of `repositorySchema.sql`. NOT NULL, CHECK and UNIQUE are carried
by the types; the foreign keys are not, since SQLite does not enforce them on
the connections the programs open. -/
structure Repository where
  services : Table ServiceRow
  instances : Table InstanceRow
  snapshots : Table SnapshotRow
  bundles : Table BundleRow
  snapshotProperty : List SnapshotPropertyRow
  properties : Table PropertyRow
  propertyValues : Table PropertyValueRow
  propertyGroups : Table PropertyGroupRow
  deriving DecidableEq

/-- No foreign key of the schema dangles. -/
structure Repository.NoDangling (r : Repository) : Prop where
  instances : ∀ row ∈ r.instances.rows, row.2.fkParentServiceID ∈ r.services.ids
  snapshots : ∀ row ∈ r.snapshots.rows, row.2.fkParentInstanceID ∈ r.instances.ids
  snapshotProperty : ∀ row ∈ r.snapshotProperty,
    row.fkSnapshotID ∈ r.snapshots.ids ∧ row.fkPropertyID ∈ r.properties.ids
  propertyInstance : ∀ row ∈ r.properties.rows, ∀ id, row.2.fkParentInstanceID = some id →
    id ∈ r.instances.ids
  propertyService : ∀ row ∈ r.properties.rows, ∀ id, row.2.fkParentServiceID = some id →
    id ∈ r.services.ids
  propertyGroup : ∀ row ∈ r.properties.rows, ∀ id, row.2.fkParentPropertyGroupID = some id →
    id ∈ r.propertyGroups.ids
  propertyValue : ∀ row ∈ r.properties.rows, row.2.fkPropertyValueID ∈ r.propertyValues.ids
  valueBundle : ∀ row ∈ r.propertyValues.rows, ∀ id, row.2.fkBundleID = some id → id ∈ r.bundles.ids
  valueGroup : ∀ row ∈ r.propertyValues.rows, ∀ id, row.2.fkPageValuePropertyGroupID = some id →
    id ∈ r.propertyGroups.ids
  groupService : ∀ row ∈ r.propertyGroups.rows, ∀ id, row.2.fkParentServiceID = some id →
    id ∈ r.services.ids
  groupGroup : ∀ row ∈ r.propertyGroups.rows, ∀ id, row.2.fkParentPropertyGroupID = some id →
    id ∈ r.propertyGroups.ids

/-- A repository that knows one service and holds nothing else. -/
def Repository.ofService (row : ServiceRow) : Repository where
  services := Table.empty.insert row
  instances := Table.empty
  snapshots := Table.empty
  bundles := Table.empty
  snapshotProperty := []
  properties := Table.empty
  propertyValues := Table.empty
  propertyGroups := Table.empty

theorem Repository.ofService_noDangling (row : ServiceRow) : (Repository.ofService row).NoDangling := by
  constructor <;> simp [Repository.ofService, Table.empty]

end ServiceManager
