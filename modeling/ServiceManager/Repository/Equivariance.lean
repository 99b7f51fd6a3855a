import ServiceManager.Repository.Composed
import ServiceManager.Repository.Renaming

namespace ServiceManager

open Sql

namespace Repository

/-- The second repository is the first one with its row ids renamed. -/
structure EqUpTo (ρ : Renaming) (r r' : Repository) : Prop where
  services : r'.services = r.services
  instances : Table.Renamed ρ.nst (fun row => row) r.instances r'.instances
  snapshots : r'.snapshots.rows = r.snapshots.rows.map fun row => (row.1, row.2.rename ρ)
  bundles : Table.Renamed ρ.bundle (fun row => row) r.bundles r'.bundles
  snapshotProperty : r'.snapshotProperty = r.snapshotProperty.map (SnapshotPropertyRow.rename ρ)
  properties : Table.Renamed ρ.property (PropertyRow.rename ρ) r.properties r'.properties
  propertyValues : Table.Renamed ρ.value (PropertyValueRow.rename ρ) r.propertyValues r'.propertyValues
  propertyGroups : Table.Renamed ρ.group (PropertyGroupRow.rename ρ.group) r.propertyGroups r'.propertyGroups

variable {ρ : Renaming} {r r' : Repository} {instanceID level propertyID : Nat} {key : String} {layer : Int}

theorem EqUpTo.refl (r : Repository) : EqUpTo Renaming.refl r r := by
  have hrow : ∀ row : PropertyRow, row.rename Renaming.refl = row := by
    rintro ⟨nst, svc, group, value⟩
    cases nst <;> cases group <;> rfl
  have hvalue : ∀ row : PropertyValueRow, row.rename Renaming.refl = row := by
    rintro ⟨bundle, type, key, text, group⟩
    cases bundle <;> cases group <;> rfl
  have hgroup : ∀ row : PropertyGroupRow, row.rename Renaming.refl.group = row := groupKeyed.renameRow_id
  refine ⟨rfl, .refl (fun _ _ => rfl) fun _ _ => rfl, ?_, .refl (fun _ _ => rfl) fun _ _ => rfl, ?_,
    .refl (fun row _ => hrow row.2) fun _ _ => rfl, .refl (fun row _ => hvalue row.2) fun _ _ => rfl,
    .refl (fun row _ => hgroup row.2) fun _ _ => rfl⟩
  · exact (List.map_id r.snapshots.rows).symm
  · exact (List.map_id r.snapshotProperty).symm

theorem Fixes.refl (r : Repository) : Renaming.refl.Fixes r :=
  ⟨fun _ _ => rfl, fun _ _ => rfl, fun _ _ => rfl, fun _ _ => rfl, fun _ _ => rfl⟩

/-- What counts for an instance does not depend on the names of rows. -/
theorem EqUpTo.isCandidate (h : EqUpTo ρ r r') :
    r'.IsCandidate (ρ.nst instanceID) level (ρ.property propertyID) key layer ↔
      r.IsCandidate instanceID level propertyID key layer := by
  constructor
  · rintro ⟨prop', val', bid', bundle, hprop', hval', hbid', hbundle', rfl, rfl, hlevel⟩
    obtain ⟨prop, hprop, rfl⟩ := h.properties.mem.mp hprop'
    obtain ⟨val, hval, rfl⟩ := h.propertyValues.mem.mp hval'
    obtain ⟨bid, hbid, rfl⟩ := Option.map_eq_some_iff.mp hbid'
    obtain ⟨row, hbundle, hrow⟩ := h.bundles.mem.mp hbundle'
    subst hrow
    refine ⟨prop, val, bid, bundle, hprop, hval, hbid, hbundle, rfl, rfl, ?_⟩
    rcases hlevel with ⟨hlevel, hparent⟩ | ⟨hlevel, nst, hnst, hparent⟩
    · obtain ⟨id, hid, heq⟩ := Option.map_eq_some_iff.mp hparent
      rw [ρ.nst.injective heq] at hid
      exact Or.inl ⟨hlevel, hid⟩
    · obtain ⟨row, hrow, hsame⟩ := h.instances.mem.mp hnst
      subst hsame
      exact Or.inr ⟨hlevel, nst, hrow, hparent⟩
  · rintro ⟨prop, val, bid, bundle, hprop, hval, hbid, hbundle, rfl, rfl, hlevel⟩
    refine ⟨prop.rename ρ, val.rename ρ, ρ.bundle bid, bundle, h.properties.mem.mpr ⟨prop, hprop, rfl⟩,
      h.propertyValues.mem.mpr ⟨val, hval, rfl⟩, by simp [PropertyValueRow.rename, hbid],
      h.bundles.mem.mpr ⟨bundle, hbundle, rfl⟩, rfl, rfl, ?_⟩
    rcases hlevel with ⟨hlevel, hparent⟩ | ⟨hlevel, nst, hnst, hparent⟩
    · exact Or.inl ⟨hlevel, by simp [PropertyRow.rename, hparent]⟩
    · exact Or.inr ⟨hlevel, nst, h.instances.mem.mpr ⟨nst, hnst, rfl⟩, hparent⟩

/-- The composed view does not depend on how row ids are chosen. -/
theorem EqUpTo.composed (h : EqUpTo ρ r r') (instanceID : Nat) :
    ((r.queryGetInstancePropertiesComposed instanceID).map ρ.property).Perm
      (r'.queryGetInstancePropertiesComposed (ρ.nst instanceID)) := by
  rw [List.perm_ext_iff_of_nodup ((r.nodup_composed instanceID).map ρ.property.injective) (r'.nodup_composed _)]
  intro pid'
  obtain ⟨pid, rfl⟩ := ρ.property.surjective pid'
  rw [List.mem_map_of_injective ρ.property.injective, mem_composed_iff, mem_composed_iff]
  constructor
  · rintro ⟨level, key, layer, hcand, hmax⟩
    refine ⟨level, key, layer, h.isCandidate.mpr hcand, ?_⟩
    intro level' pid' layer' hcand'
    obtain ⟨pid', rfl⟩ := ρ.property.surjective pid'
    exact hmax level' pid' layer' (h.isCandidate.mp hcand')
  · rintro ⟨level, key, layer, hcand, hmax⟩
    refine ⟨level, key, layer, h.isCandidate.mp hcand, ?_⟩
    intro level' pid' layer' hcand'
    exact hmax level' _ layer' (h.isCandidate.mpr hcand')

end Repository

end ServiceManager
