import ServiceManager.AddSys.Injection
import ServiceManager.AddSys.Rows

namespace ServiceManager

open Sql AddSys

/-- A group whose chain of parents ends in a service. -/
inductive Rooted (services : Table ServiceRow) (groups : Table PropertyGroupRow) : Nat → Prop
  | service {id svc : Nat} {row : PropertyGroupRow} (hrow : (id, row) ∈ groups.rows)
      (hparent : row.fkParentServiceID = some svc) (hsvc : svc ∈ services.ids) : Rooted services groups id
  | group {id parent : Nat} {row : PropertyGroupRow} (hrow : (id, row) ∈ groups.rows)
      (hparent : row.fkParentPropertyGroupID = some parent) (hrooted : Rooted services groups parent) :
      Rooted services groups id

/-- Every group has exactly one parent, which exists, and chains of parents end
in a service. -/
structure GroupsSound (services : Table ServiceRow) (groups : Table PropertyGroupRow) : Prop where
  parent : ∀ row ∈ groups.rows,
    (∃ svc, row.2.fkParentServiceID = some svc ∧ row.2.fkParentPropertyGroupID = none ∧ svc ∈ services.ids) ∨
    (∃ group, row.2.fkParentServiceID = none ∧ row.2.fkParentPropertyGroupID = some group ∧ group ∈ groups.ids)
  rooted : ∀ id ∈ groups.ids, Rooted services groups id

/-- The property has exactly one non-null parent, and it exists. -/
def PropertyRow.HasParent (r : Repository) (row : PropertyRow) : Prop :=
  (∃ id, row.fkParentInstanceID = some id ∧ row.fkParentServiceID = none ∧
    row.fkParentPropertyGroupID = none ∧ id ∈ r.instances.ids) ∨
  (∃ id, row.fkParentInstanceID = none ∧ row.fkParentServiceID = some id ∧
    row.fkParentPropertyGroupID = none ∧ id ∈ r.services.ids) ∨
  (∃ id, row.fkParentInstanceID = none ∧ row.fkParentServiceID = none ∧
    row.fkParentPropertyGroupID = some id ∧ id ∈ r.propertyGroups.ids)

/-- String values have a text and no group, page values a group and no text. -/
def PropertyValueRow.WellTyped (r : Repository) (row : PropertyValueRow) : Prop :=
  match row.type with
  | .string => (∃ text, row.stringValue = some text) ∧ row.fkPageValuePropertyGroupID = none
  | .page => row.stringValue = none ∧ ∃ id, row.fkPageValuePropertyGroupID = some id ∧ id ∈ r.propertyGroups.ids

/-- The integrity that the schema's foreign keys describe and that only the
programs themselves keep. -/
structure Repository.Sound (r : Repository) : Prop where
  propertyParent : ∀ row ∈ r.properties.rows, row.2.HasParent r
  propertyValue : ∀ row ∈ r.properties.rows, row.2.fkPropertyValueID ∈ r.propertyValues.ids
  valueBundle : ∀ row ∈ r.propertyValues.rows, ∃ id, row.2.fkBundleID = some id ∧ id ∈ r.bundles.ids
  valueReferenced : ∀ id ∈ r.propertyValues.ids,
    ∃! prop, prop ∈ r.properties.rows ∧ prop.2.fkPropertyValueID = id
  valueTyped : ∀ row ∈ r.propertyValues.rows, row.2.WellTyped r
  groups : GroupsSound r.services r.propertyGroups
  instanceService : ∀ row ∈ r.instances.rows, row.2.fkParentServiceID ∈ r.services.ids
  snapshot : ∀ row ∈ r.snapshotProperty, ∃ prop val bundleID bundle,
    (row.fkPropertyID, prop) ∈ r.properties.rows ∧ (prop.fkPropertyValueID, val) ∈ r.propertyValues.rows ∧
    val.fkBundleID = some bundleID ∧ (bundleID, bundle) ∈ r.bundles.rows ∧ 0 < bundle.refCount

theorem Rooted.grows {services : Table ServiceRow} {groups groups' : Table PropertyGroupRow}
    (hgrows : groups.Grows groups') {id : Nat} (h : Rooted services groups id) : Rooted services groups' id := by
  induction h with
  | service hrow hparent hsvc => exact .service (hgrows.mem hrow) hparent hsvc
  | group hrow hparent _ ih => exact .group (hgrows.mem hrow) hparent ih

namespace AddSys

/-- Getting or creating a group of an existing service keeps the groups sound. -/
theorem groupsSound_step {services : Table ServiceRow} {svc : Nat} (hsvc : svc ∈ services.ids) :
    GroupStepPreserves svc (GroupsSound services) := by
  intro groups k hsound hwithin
  cases hfound : groups.lookup GroupKey.hit k with
  | some id =>
    rw [Table.getOrCreate_of_some hfound]
    exact hsound
  | none =>
    rw [Table.getOrCreate_of_none hfound]
    have hgrows := groups.grows_insert k.row
    have hnew : (groups.nextId, k.row) ∈ (groups.insert k.row).rows := Table.mem_insert.mpr (Or.inr ⟨rfl, rfl⟩)
    obtain ⟨parent, name⟩ := k
    constructor
    · rintro ⟨id, row⟩ hrow
      rcases Table.mem_insert.mp hrow with hrow | ⟨-, rfl⟩
      · rcases hsound.parent _ hrow with ⟨s, h⟩ | ⟨g, h1, h2, h3⟩
        · exact Or.inl ⟨s, h⟩
        · exact Or.inr ⟨g, h1, h2, hgrows.mem_ids h3⟩
      · cases parent with
        | service s =>
          obtain rfl : s = svc := hwithin
          exact Or.inl ⟨s, rfl, rfl, hsvc⟩
        | group g => exact Or.inr ⟨g, rfl, rfl, hgrows.mem_ids hwithin⟩
    · intro id hid
      obtain ⟨row, hrow⟩ := Table.mem_ids.mp hid
      rcases Table.mem_insert.mp hrow with hrow | ⟨rfl, -⟩
      · exact (hsound.rooted id (Table.mem_ids.mpr ⟨row, hrow⟩)).grows hgrows
      · cases parent with
        | service s =>
          obtain rfl : s = svc := hwithin
          exact .service hnew rfl hsvc
        | group g => exact .group hnew rfl ((hsound.rooted g hwithin).grows hgrows)

theorem selectService_mem {r : Repository} {name : String} {svcId : Nat} (h : r.selectService name = some svcId) :
    svcId ∈ r.services.ids := by
  obtain ⟨found, hfound, rfl⟩ := Option.map_eq_some_iff.mp h
  exact Table.mem_ids.mpr ⟨found.2, (Table.first_mem hfound).1⟩

theorem classInstances_service {svc : Nat} {services : Table ServiceRow} (hsvc : svc ∈ services.ids)
    {instances : Table InstanceRow} (h : ∀ row ∈ instances.rows, row.2.fkParentServiceID ∈ services.ids)
    (insts : List Instance) :
    ∀ row ∈ (classInstances svc instances insts).rows, row.2.fkParentServiceID ∈ services.ids := by
  refine classInstances_preserves (P := fun t => ∀ row ∈ t.rows, row.2.fkParentServiceID ∈ services.ids)
    ?_ h insts
  intro t name ht
  cases hfound : t.lookup InstanceKey.hit ⟨svc, name⟩ with
  | some id =>
    rw [Table.getOrCreate_of_some hfound]
    exact ht
  | none =>
    rw [Table.getOrCreate_of_none hfound]
    rintro ⟨id, row⟩ hrow
    rcases Table.mem_insert.mp hrow with hrow | ⟨-, rfl⟩
    · exact ht _ hrow
    · exact hsvc

variable {affinity : String → SqlValue} {layer : Layer} {filename : SqlValue} {klass : Class}
  {r r' : Repository} {svcId : Nat} {es : List Entry}

theorem Imported.propertyParent (h : Imported affinity layer filename klass r r' svcId es) (hsound : r.Sound) :
    ∀ row ∈ r'.properties.rows, row.2.HasParent r' := by
  rintro ⟨id, row⟩ hrow
  rcases h.mem_properties.mp hrow with ⟨hold, -⟩ | ⟨i, e, he, -, rfl⟩
  · rcases hsound.propertyParent _ hold with ⟨p, h1, h2, h3, h4⟩ | ⟨p, h1, h2, h3, h4⟩ | ⟨p, h1, h2, h3, h4⟩
    · exact Or.inl ⟨p, h1, h2, h3, h.grows_instances.mem_ids h4⟩
    · exact Or.inr (Or.inl ⟨p, h1, h2, h3, h.services_eq ▸ h4⟩)
    · exact Or.inr (Or.inr ⟨p, h1, h2, h3, h.grows_groups.mem_ids h4⟩)
  · have hwithin := h.within e (List.mem_of_getElem? he)
    cases hparent : e.parent with
    | service s =>
      have hs := hwithin.service s hparent
      subst hs
      exact Or.inr (Or.inl ⟨s, rfl, rfl, rfl, h.services_eq ▸ selectService_mem h.service⟩)
    | nst n => exact Or.inl ⟨n, rfl, rfl, rfl, hwithin.nst n hparent⟩
    | group g => exact Or.inr (Or.inr ⟨g, rfl, rfl, rfl, hwithin.group g hparent⟩)

/-- Each value is that of one property, the new ones included. -/
theorem Imported.valueReferenced (h : Imported affinity layer filename klass r r' svcId es) (hsound : r.Sound) :
    ∀ id ∈ r'.propertyValues.ids, ∃! prop, prop ∈ r'.properties.rows ∧ prop.2.fkPropertyValueID = id := by
  intro id hid
  obtain ⟨val, hval⟩ := Table.mem_ids.mp hid
  rcases h.mem_values.mp hval with ⟨hold, hkept⟩ | ⟨i, e, he, rfl, rfl⟩
  · have hid' : id ∈ r.propertyValues.ids := Table.mem_ids.mpr ⟨val, hold⟩
    obtain ⟨⟨pid, prop⟩, ⟨hprop, hfk⟩, huniq⟩ := hsound.valueReferenced id hid'
    simp only at hfk
    refine ⟨(pid, prop), ⟨h.mem_properties.mpr (Or.inl ⟨hprop, ?_⟩), hfk⟩, ?_⟩
    · intro b hb val' hval'
      rw [hfk] at hval'
      have heq := Table.row_unique hold hval'
      subst heq
      exact hkept b hb
    · rintro ⟨pid', prop'⟩ ⟨hprop', hfk'⟩
      rcases h.mem_properties.mp hprop' with ⟨hold', -⟩ | ⟨j, e, -, -, rfl⟩
      · exact huniq _ ⟨hold', hfk'⟩
      · have := Table.le_seq hid'
        simp only [PropertyParent.row_value] at hfk'
        omega
  · refine ⟨(r.properties.seq + 1 + i, e.parent.row (r.propertyValues.seq + 1 + i)),
      ⟨h.mem_properties.mpr (Or.inr ⟨i, e, he, rfl, rfl⟩), by simp⟩, ?_⟩
    rintro ⟨pid', prop'⟩ ⟨hprop', hfk'⟩
    rcases h.mem_properties.mp hprop' with ⟨hold', -⟩ | ⟨j, e', he', rfl, rfl⟩
    · have hle : prop'.fkPropertyValueID ≤ r.propertyValues.seq := Table.le_seq (hsound.propertyValue _ hold')
      simp only at hfk'
      omega
    · simp only [PropertyParent.row_value] at hfk'
      obtain rfl : j = i := by omega
      rw [he] at he'
      cases he'
      rfl

theorem Imported.valueBundle (h : Imported affinity layer filename klass r r' svcId es) (hsound : r.Sound) :
    ∀ row ∈ r'.propertyValues.rows, ∃ id, row.2.fkBundleID = some id ∧ id ∈ r'.bundles.ids := by
  have hold : ∀ row ∈ r.propertyValues.rows, ∀ b, row.2.fkBundleID = some b → b ∈ r.bundles.ids := by
    intro row hrow b hb
    obtain ⟨b', hb', hmem⟩ := hsound.valueBundle row hrow
    rw [hb, Option.some.injEq] at hb'
    exact hb' ▸ hmem
  rintro ⟨id, row⟩ hrow
  obtain ⟨b, hb⟩ : ∃ b, row.fkBundleID = some b := by
    rcases h.mem_values.mp hrow with ⟨hrow, -⟩ | ⟨i, e, -, -, rfl⟩
    · obtain ⟨b, hb, -⟩ := hsound.valueBundle _ hrow
      exact ⟨b, hb⟩
    · exact ⟨_, Entry.valueRow_bundle _ e⟩
  exact ⟨b, hb, h.valueBundle_of hold _ hrow b hb⟩

theorem Imported.valueTyped (h : Imported affinity layer filename klass r r' svcId es) (hsound : r.Sound) :
    ∀ row ∈ r'.propertyValues.rows, row.2.WellTyped r' := by
  rintro ⟨id, row⟩ hrow
  rcases h.mem_values.mp hrow with ⟨hold, -⟩ | ⟨i, e, he, -, rfl⟩
  · have htyped := hsound.valueTyped _ hold
    simp only [PropertyValueRow.WellTyped] at htyped ⊢
    split
    next htype =>
      rw [htype] at htyped
      exact htyped
    next htype =>
      rw [htype] at htyped
      obtain ⟨hnone, g, hg, hmem⟩ := htyped
      exact ⟨hnone, g, hg, h.grows_groups.mem_ids hmem⟩
  · have hwithin := h.within e (List.mem_of_getElem? he)
    obtain ⟨parent, key, content⟩ := e
    cases content with
    | string value => exact ⟨⟨value, rfl⟩, rfl⟩
    | page g => exact ⟨rfl, g, rfl, hwithin.page g rfl⟩

/-- A property listed in a snapshot belongs to a bundle with a positive RefCount,
and such a bundle is never the one that import deletes. -/
theorem Imported.snapshot (h : Imported affinity layer filename klass r r' svcId es) (hsound : r.Sound) :
    ∀ row ∈ r'.snapshotProperty, ∃ prop val bundleID bundle,
      (row.fkPropertyID, prop) ∈ r'.properties.rows ∧ (prop.fkPropertyValueID, val) ∈ r'.propertyValues.rows ∧
      val.fkBundleID = some bundleID ∧ (bundleID, bundle) ∈ r'.bundles.rows ∧ 0 < bundle.refCount := by
  rw [h.snapshotProperty_eq]
  intro row hrow
  obtain ⟨prop, val, b, bundle, hprop, hval, hb, hbundle, hrc⟩ := hsound.snapshot row hrow
  have hkept : ∀ b', r.Replaces filename b' → val.fkBundleID ≠ some b' := by
    intro b' hrep heq
    obtain rfl : b = b' := by simpa [hb] using heq
    obtain ⟨bundle', hbundle', -, hzero⟩ := hrep.bundle
    have := Table.row_unique hbundle hbundle'
    subst this
    omega
  refine ⟨prop, val, b, bundle, h.mem_properties.mpr (Or.inl ⟨hprop, ?_⟩), h.mem_values.mpr (Or.inl ⟨hval, hkept⟩),
    hb, h.mem_bundles.mpr (Or.inl ⟨hbundle, fun hrep => hkept b hrep hb⟩), hrc⟩
  intro b' hrep val' hval'
  have := Table.row_unique hval hval'
  subst this
  exact hkept b' hrep

theorem Imported.sound (h : Imported affinity layer filename klass r r' svcId es) (hsound : r.Sound) : r'.Sound where
  propertyParent := h.propertyParent hsound
  propertyValue := h.propertyValue hsound.propertyValue
  valueBundle := h.valueBundle hsound
  valueReferenced := h.valueReferenced hsound
  valueTyped := h.valueTyped hsound
  groups := by
    rw [h.services_eq, h.groups_eq]
    exact classGroups_preserves (groupsSound_step (selectService_mem h.service)) hsound.groups klass
  instanceService := by
    rw [h.services_eq, h.instances_eq]
    exact classInstances_service (selectService_mem h.service) hsound.instanceService klass.instances
  snapshot := h.snapshot hsound

/-- Import keeps the repository sound, whatever the class, the path and the layer. -/
theorem commit_preserves_sound {layer : Int} {path : String} {klass : Class} {r r' : Repository}
    (hsound : r.Sound) (hcommit : commit affinity layer path klass r = .ok r') : r'.Sound := by
  obtain ⟨l, svcId, es, -, himp⟩ := commit_eq_ok_iff.mp hcommit
  exact himp.sound hsound

theorem ofService_sound (row : ServiceRow) : (Repository.ofService row).Sound := by
  constructor
  case groups => constructor <;> simp [Repository.ofService, Table.empty, Table.ids]
  all_goals simp [Repository.ofService, Table.empty, Table.ids]

namespace Conn

end Conn

end AddSys

end ServiceManager
