import ServiceManager.Repository.Statements
import ServiceManager.Sql.Simulation

namespace ServiceManager

open Sql

/-- A renaming of row ids, table by table. Services keep theirs: no program here
creates one. The id 0, which the code reads as "none", is not renamed. -/
structure Renaming where
  nst : Equiv.Perm Nat
  bundle : Equiv.Perm Nat
  property : Equiv.Perm Nat
  value : Equiv.Perm Nat
  group : Equiv.Perm Nat
  nst_zero : nst 0 = 0
  group_zero : group 0 = 0

namespace Renaming

/-- The renaming that changes nothing. -/
def refl : Renaming where
  nst := Equiv.refl Nat
  bundle := Equiv.refl Nat
  property := Equiv.refl Nat
  value := Equiv.refl Nat
  group := Equiv.refl Nat
  nst_zero := rfl
  group_zero := rfl

@[simp] theorem refl_nst (id : Nat) : refl.nst id = id := rfl

@[simp] theorem refl_group (id : Nat) : refl.group id = id := rfl

theorem nst_eq_zero (ρ : Renaming) {id : Nat} : ρ.nst id = 0 ↔ id = 0 :=
  ⟨fun h => ρ.nst.injective (h.trans ρ.nst_zero.symm), fun h => h ▸ ρ.nst_zero⟩

theorem group_eq_zero (ρ : Renaming) {id : Nat} : ρ.group id = 0 ↔ id = 0 :=
  ⟨fun h => ρ.group.injective (h.trans ρ.group_zero.symm), fun h => h ▸ ρ.group_zero⟩

end Renaming

def GroupParent.rename (f : Nat → Nat) : GroupParent → GroupParent
  | .service id => .service id
  | .group id => .group (f id)

def GroupKey.rename (f : Nat → Nat) (k : GroupKey) : GroupKey :=
  { k with parent := k.parent.rename f }

def PropertyGroupRow.rename (f : Nat → Nat) (row : PropertyGroupRow) : PropertyGroupRow :=
  { row with fkParentPropertyGroupID := row.fkParentPropertyGroupID.map f }

def PropertyParent.rename (ρ : Renaming) : PropertyParent → PropertyParent
  | .service id => .service id
  | .nst id => .nst (ρ.nst id)
  | .group id => .group (ρ.group id)

def PropertyRow.rename (ρ : Renaming) (row : PropertyRow) : PropertyRow where
  fkParentInstanceID := row.fkParentInstanceID.map ρ.nst
  fkParentServiceID := row.fkParentServiceID
  fkParentPropertyGroupID := row.fkParentPropertyGroupID.map ρ.group
  fkPropertyValueID := ρ.value row.fkPropertyValueID

def PropertyValueRow.rename (ρ : Renaming) (row : PropertyValueRow) : PropertyValueRow :=
  { row with
    fkBundleID := row.fkBundleID.map ρ.bundle
    fkPageValuePropertyGroupID := row.fkPageValuePropertyGroupID.map ρ.group }

def SnapshotRow.rename (ρ : Renaming) (row : SnapshotRow) : SnapshotRow :=
  { row with fkParentInstanceID := ρ.nst row.fkParentInstanceID }

def SnapshotPropertyRow.rename (ρ : Renaming) (row : SnapshotPropertyRow) : SnapshotPropertyRow :=
  { row with fkPropertyID := ρ.property row.fkPropertyID }

theorem GroupKey.rename_id (k : GroupKey) : k.rename (fun id => id) = k := by
  obtain ⟨parent, name⟩ := k
  cases parent <;> rfl

@[simp] theorem PropertyParent.rename_refl (parent : PropertyParent) : parent.rename Renaming.refl = parent := by
  cases parent <;> rfl

@[simp] theorem GroupKey.row_rename (f : Nat → Nat) (k : GroupKey) : (k.rename f).row = k.row.rename f := by
  obtain ⟨parent, name⟩ := k
  cases parent <;> rfl

@[simp] theorem PropertyParent.row_rename (ρ : Renaming) (parent : PropertyParent) (vid : Nat) :
    (parent.rename ρ).row (ρ.value vid) = (parent.row vid).rename ρ := by
  cases parent <;> rfl

/-- The renaming leaves the ids that are in use alone. -/
structure Renaming.Fixes (ρ : Renaming) (r : Repository) : Prop where
  nst : ∀ id ∈ r.instances.ids, ρ.nst id = id
  bundle : ∀ id ∈ r.bundles.ids, ρ.bundle id = id
  property : ∀ id ∈ r.properties.ids, ρ.property id = id
  value : ∀ id ∈ r.propertyValues.ids, ρ.value id = id
  group : ∀ id ∈ r.propertyGroups.ids, ρ.group id = id

theorem map_fixed {f : Nat → Nat} {x : Option Nat} (h : ∀ id, x = some id → f id = id) : x.map f = x := by
  cases x with
  | none => rfl
  | some id => simp [h id rfl]

theorem Renaming.Fixes.bundleRows {ρ : Renaming} {r : Repository} (hfixes : ρ.Fixes r)
    {rows : List (Nat × BundleRow)} (hrows : ∀ row ∈ rows, row ∈ r.bundles.rows) :
    rows.map (fun row => (ρ.bundle row.1, row.2)) = rows := by
  refine (List.map_congr_left fun row hrow => ?_).trans (List.map_id rows)
  rw [hfixes.bundle _ (Table.mem_ids.mpr ⟨row.2, hrows row hrow⟩)]
  rfl

section

variable {ρ : Renaming} {r : Repository} (hfixes : ρ.Fixes r) (hfk : r.NoDangling)

include hfixes hfk

/-- Rows whose foreign keys do not dangle are then left alone too. -/
theorem Renaming.Fixes.valueRow {row : Nat × PropertyValueRow} (hrow : row ∈ r.propertyValues.rows) :
    row.2.rename ρ = row.2 := by
  have hbundle := map_fixed fun id hid => hfixes.bundle id (hfk.valueBundle row hrow id hid)
  have hgroup := map_fixed fun id hid => hfixes.group id (hfk.valueGroup row hrow id hid)
  rw [PropertyValueRow.rename, hbundle, hgroup]

theorem Renaming.Fixes.propertyRow {row : Nat × PropertyRow} (hrow : row ∈ r.properties.rows) :
    row.2.rename ρ = row.2 := by
  have hnst := map_fixed fun id hid => hfixes.nst id (hfk.propertyInstance row hrow id hid)
  have hgroup := map_fixed fun id hid => hfixes.group id (hfk.propertyGroup row hrow id hid)
  rw [PropertyRow.rename, hnst, hgroup, hfixes.value _ (hfk.propertyValue row hrow)]

theorem Renaming.Fixes.snapshotRows : r.snapshots.rows.map (fun row => (row.1, row.2.rename ρ)) = r.snapshots.rows := by
  refine (List.map_congr_left fun row hrow => ?_).trans (List.map_id _)
  rw [SnapshotRow.rename, hfixes.nst _ (hfk.snapshots row hrow)]
  rfl

theorem Renaming.Fixes.snapshotPropertyRows :
    r.snapshotProperty.map (SnapshotPropertyRow.rename ρ) = r.snapshotProperty := by
  refine (List.map_congr_left fun row hrow => ?_).trans (List.map_id _)
  rw [SnapshotPropertyRow.rename, hfixes.property _ (hfk.snapshotProperty row hrow).2]
  rfl

theorem Renaming.Fixes.valueRows {rows : List (Nat × PropertyValueRow)}
    (hrows : ∀ row ∈ rows, row ∈ r.propertyValues.rows) :
    rows.map (fun row => (ρ.value row.1, row.2.rename ρ)) = rows := by
  refine (List.map_congr_left fun row hrow => ?_).trans (List.map_id rows)
  rw [hfixes.valueRow hfk (hrows row hrow), hfixes.value _ (Table.mem_ids.mpr ⟨row.2, hrows row hrow⟩)]
  rfl

theorem Renaming.Fixes.propertyRows {rows : List (Nat × PropertyRow)} (hrows : ∀ row ∈ rows, row ∈ r.properties.rows) :
    rows.map (fun row => (ρ.property row.1, row.2.rename ρ)) = rows := by
  refine (List.map_congr_left fun row hrow => ?_).trans (List.map_id rows)
  rw [hfixes.propertyRow hfk (hrows row hrow), hfixes.property _ (Table.mem_ids.mpr ⟨row.2, hrows row hrow⟩)]
  rfl

end

/-- The property groups, got or created under their parent and name. -/
@[reducible] def groupKeyed : SelfKeyed GroupKey PropertyGroupRow where
  hit := GroupKey.hit
  make := GroupKey.row
  renameKey := GroupKey.rename
  renameRow := PropertyGroupRow.rename
  keyRefs k := match k.parent with
    | .service _ => []
    | .group id => [id]
  rowRefs row := row.fkParentPropertyGroupID.toList
  hit_make := GroupKey.hit_row
  make_rename := GroupKey.row_rename
  rowRefs_make k := by
    obtain ⟨parent, name⟩ := k
    cases parent <;> rfl
  keyRefs_of_hit {k row} hhit id hid := by
    obtain ⟨parent, name⟩ := k
    cases parent with
    | service _ => cases hid
    | group _ =>
      rw [List.mem_singleton] at hid
      subst hid
      simp only [GroupKey.hit, decide_eq_true_eq] at hhit
      simp [hhit.1]
  hit_rename {f} hf k row := by
    obtain ⟨parent, name⟩ := k
    cases parent with
    | service _ => rfl
    | group id =>
      simp only [GroupKey.hit, GroupKey.rename, GroupParent.rename, PropertyGroupRow.rename,
        Option.map_eq_some_iff, hf.eq_iff, exists_eq_right]
  renameKey_congr {f g k} hfg := by
    obtain ⟨parent, name⟩ := k
    cases parent with
    | service _ => rfl
    | group id => simp [GroupKey.rename, GroupParent.rename, hfg id (List.mem_singleton.mpr rfl)]
  renameRow_congr {f g row} hfg := by
    obtain ⟨name, refCount, svc, group⟩ := row
    cases group with
    | none => rfl
    | some id => simp [PropertyGroupRow.rename, hfg id (by simp)]
  renameKey_id := GroupKey.rename_id
  renameRow_id row := by
    obtain ⟨name, refCount, svc, group⟩ := row
    cases group <;> rfl

/-- The instances, got or created under their service and name. -/
@[reducible] def instanceKeyed : SelfKeyed InstanceKey InstanceRow where
  hit := InstanceKey.hit
  make := InstanceKey.row
  renameKey _ k := k
  renameRow _ row := row
  keyRefs _ := []
  rowRefs _ := []
  hit_make := InstanceKey.hit_row
  make_rename _ _ := rfl
  rowRefs_make _ := rfl
  keyRefs_of_hit _ _ hid := hid
  hit_rename _ _ _ := rfl
  renameKey_congr _ := rfl
  renameRow_congr _ := rfl
  renameKey_id _ := rfl
  renameRow_id _ := rfl

end ServiceManager
