import ServiceManager.AddSys.Run

namespace ServiceManager

open Sql AddSys

namespace Repository

variable {r : Repository} {filename : SqlValue} {bundleID id : Nat}

/-- The bundle that an import of the file deletes. -/
def Replaces (r : Repository) (filename : SqlValue) (bundleID : Nat) : Prop :=
  r.selectBundle filename = some (bundleID, 0)

theorem Replaces.bundle (h : r.Replaces filename bundleID) :
    ∃ row, (bundleID, row) ∈ r.bundles.rows ∧ row.filename = filename ∧ row.refCount = 0 := by
  obtain ⟨⟨id, row⟩, hfirst, heq⟩ := Option.map_eq_some_iff.mp h
  obtain ⟨hmem, hname⟩ := Table.first_mem hfirst
  simp only [Prod.mk.injEq] at heq
  obtain ⟨rfl, hrc⟩ := heq
  exact ⟨row, hmem, by simpa using hname, hrc⟩

theorem dropOldBundle_eq_self (h : ∀ b, ¬ r.Replaces filename b) : r.dropOldBundle filename = r := by
  unfold dropOldBundle
  split
  next b rc hsel =>
    split
    next hrc =>
      subst hrc
      exact absurd hsel (h b)
    next => rfl
  next => rfl

theorem dropOldBundle_of_replaces (h : r.Replaces filename bundleID) :
    r.dropOldBundle filename = r.dropBundle bundleID := by
  have hsel : r.selectBundle filename = some (bundleID, 0) := h
  simp [dropOldBundle, hsel]

theorem Replaces.unique {b : Nat} (h : r.Replaces filename bundleID) (h' : r.Replaces filename b) :
    bundleID = b := by
  unfold Replaces at h h'
  rw [h] at h'
  simpa using h'

theorem mem_dropOldBundle_bundles {row : BundleRow} :
    (id, row) ∈ (r.dropOldBundle filename).bundles.rows ↔
      (id, row) ∈ r.bundles.rows ∧ ¬ r.Replaces filename id := by
  by_cases h : ∃ b, r.Replaces filename b
  · obtain ⟨b, hb⟩ := h
    rw [dropOldBundle_of_replaces hb]
    simp only [dropBundle, Table.mem_delete, decide_eq_false_iff_not]
    refine and_congr_right fun _ => not_congr ⟨?_, fun h => h.unique hb⟩
    rintro rfl
    exact hb
  · have hnone := fun b hb => h ⟨b, hb⟩
    rw [dropOldBundle_eq_self hnone]
    exact ⟨fun hmem => ⟨hmem, hnone id⟩, And.left⟩

theorem mem_dropOldBundle_values {row : PropertyValueRow} :
    (id, row) ∈ (r.dropOldBundle filename).propertyValues.rows ↔
      (id, row) ∈ r.propertyValues.rows ∧ ∀ b, r.Replaces filename b → row.fkBundleID ≠ some b := by
  by_cases h : ∃ b, r.Replaces filename b
  · obtain ⟨b, hb⟩ := h
    rw [dropOldBundle_of_replaces hb]
    simp only [dropBundle, Table.mem_delete, decide_eq_false_iff_not]
    refine and_congr_right fun _ => ⟨?_, fun h => h b hb⟩
    intro hne c hc
    rwa [← hb.unique hc]
  · have hnone := fun b hb => h ⟨b, hb⟩
    rw [dropOldBundle_eq_self hnone]
    exact ⟨fun hmem => ⟨hmem, fun b hb => absurd hb (hnone b)⟩, And.left⟩

theorem mem_dropOldBundle_properties {row : PropertyRow} :
    (id, row) ∈ (r.dropOldBundle filename).properties.rows ↔
      (id, row) ∈ r.properties.rows ∧ ∀ b, r.Replaces filename b →
        ∀ val, (row.fkPropertyValueID, val) ∈ r.propertyValues.rows → val.fkBundleID ≠ some b := by
  by_cases h : ∃ b, r.Replaces filename b
  · obtain ⟨b, hb⟩ := h
    rw [dropOldBundle_of_replaces hb]
    simp only [dropBundle, Table.mem_delete, List.any_eq_false, decide_eq_true_eq, not_and]
    refine and_congr_right fun _ => ⟨?_, ?_⟩
    · intro hnot c hc val hval
      rw [← hb.unique hc]
      exact hnot _ hval rfl
    · rintro hall ⟨vid, val⟩ hval rfl
      exact hall b hb val hval
  · have hnone := fun b hb => h ⟨b, hb⟩
    rw [dropOldBundle_eq_self hnone]
    exact ⟨fun hmem => ⟨hmem, fun b hb => absurd hb (hnone b)⟩, And.left⟩

end Repository

namespace AddSys.Imported

variable {affinity : String → SqlValue} {layer : Layer} {filename : SqlValue} {klass : Class}
  {r r' : Repository} {svcId id : Nat} {es : List Entry}

theorem services_eq (h : Imported affinity layer filename klass r r' svcId es) : r'.services = r.services := by
  rw [h.result, Repository.addEntries_eq]
  exact r.dropOldBundle_services filename

theorem selectService_eq (h : Imported affinity layer filename klass r r' svcId es) :
    r'.selectService klass.name = some svcId := by
  rw [Repository.selectService, h.services_eq, ← Repository.selectService, h.service]

theorem snapshots_eq (h : Imported affinity layer filename klass r r' svcId es) : r'.snapshots = r.snapshots := by
  rw [h.result, Repository.addEntries_eq]
  exact r.dropOldBundle_snapshots filename

theorem snapshotProperty_eq (h : Imported affinity layer filename klass r r' svcId es) :
    r'.snapshotProperty = r.snapshotProperty := by
  rw [h.result, Repository.addEntries_eq]
  exact r.dropOldBundle_snapshotProperty filename

theorem bundles_eq (h : Imported affinity layer filename klass r r' svcId es) :
    r'.bundles = (r.dropOldBundle filename).bundles.insert ⟨0, filename, 0, layer⟩ := by
  rw [h.result, Repository.addEntries_eq]
  rfl

theorem values_eq (h : Imported affinity layer filename klass r r' svcId es) :
    r'.propertyValues =
      (r.dropOldBundle filename).propertyValues.insertAll (es.map (Entry.valueRow r.bundles.nextId)) := by
  rw [h.result, Repository.addEntries_eq]
  rfl

theorem properties_eq (h : Imported affinity layer filename klass r r' svcId es) :
    r'.properties = (r.dropOldBundle filename).properties.insertAll
      (es.mapIdx fun i e => e.parent.row (r.propertyValues.seq + 1 + i)) := by
  rw [h.result, Repository.addEntries_eq]
  simp [Repository.replaceBundle]

theorem bundles_seq (h : Imported affinity layer filename klass r r' svcId es) :
    r'.bundles.seq = r.bundles.seq + 1 := by
  rw [h.bundles_eq, Table.seq_insert, r.dropOldBundle_bundles_seq]

theorem values_seq (h : Imported affinity layer filename klass r r' svcId es) :
    r'.propertyValues.seq = r.propertyValues.seq + es.length := by
  rw [h.values_eq, Table.seq_insertAll, r.dropOldBundle_values_seq, List.length_map]

theorem properties_seq (h : Imported affinity layer filename klass r r' svcId es) :
    r'.properties.seq = r.properties.seq + es.length := by
  rw [h.properties_eq, Table.seq_insertAll, r.dropOldBundle_properties_seq, List.length_mapIdx]

theorem grows_groups (h : Imported affinity layer filename klass r r' svcId es) :
    r.propertyGroups.Grows r'.propertyGroups := by
  rw [h.groups_eq]
  exact grows_classGroups svcId r.propertyGroups klass

theorem grows_instances (h : Imported affinity layer filename klass r r' svcId es) :
    r.instances.Grows r'.instances := by
  rw [h.instances_eq]
  exact grows_classInstances svcId r.instances klass.instances

theorem mem_bundles (h : Imported affinity layer filename klass r r' svcId es) {row : BundleRow} :
    (id, row) ∈ r'.bundles.rows ↔
      ((id, row) ∈ r.bundles.rows ∧ ¬ r.Replaces filename id) ∨
      id = r.bundles.nextId ∧ row = ⟨0, filename, 0, layer⟩ := by
  rw [h.bundles_eq, Table.mem_insert, Repository.mem_dropOldBundle_bundles, Table.nextId, Table.nextId,
    r.dropOldBundle_bundles_seq]

theorem mem_values (h : Imported affinity layer filename klass r r' svcId es) {row : PropertyValueRow} :
    (id, row) ∈ r'.propertyValues.rows ↔
      ((id, row) ∈ r.propertyValues.rows ∧ ∀ b, r.Replaces filename b → row.fkBundleID ≠ some b) ∨
      ∃ i e, es[i]? = some e ∧ id = r.propertyValues.seq + 1 + i ∧ row = e.valueRow r.bundles.nextId := by
  rw [h.values_eq, Table.mem_insertAll, Repository.mem_dropOldBundle_values, r.dropOldBundle_values_seq]
  refine or_congr_right ?_
  simp only [List.getElem?_map, Option.map_eq_some_iff]
  constructor
  · rintro ⟨i, ⟨e, he, rfl⟩, hid⟩
    exact ⟨i, e, he, hid, rfl⟩
  · rintro ⟨i, e, he, hid, rfl⟩
    exact ⟨i, ⟨e, he, rfl⟩, hid⟩

/-- A value under an old key is an old one that survived. -/
theorem mem_values_of_le (h : Imported affinity layer filename klass r r' svcId es) (hle : id ≤ r.propertyValues.seq)
    {row : PropertyValueRow} : (id, row) ∈ r'.propertyValues.rows ↔
      (id, row) ∈ r.propertyValues.rows ∧ ∀ b, r.Replaces filename b → row.fkBundleID ≠ some b := by
  rw [h.mem_values, or_iff_left]
  rintro ⟨i, e, -, hid, -⟩
  omega

/-- A value under a new key belongs to the new bundle. -/
theorem bundle_of_new (h : Imported affinity layer filename klass r r' svcId es) {row : PropertyValueRow}
    (hrow : (id, row) ∈ r'.propertyValues.rows) (hlt : r.propertyValues.seq < id) :
    row.fkBundleID = some r.bundles.nextId := by
  rcases h.mem_values.mp hrow with ⟨hold, -⟩ | ⟨i, e, -, -, rfl⟩
  · have := Table.le_seq (Table.mem_ids.mpr ⟨row, hold⟩)
    omega
  · exact Entry.valueRow_bundle _ e

theorem mem_properties (h : Imported affinity layer filename klass r r' svcId es) {row : PropertyRow} :
    (id, row) ∈ r'.properties.rows ↔
      ((id, row) ∈ r.properties.rows ∧ ∀ b, r.Replaces filename b →
        ∀ val, (row.fkPropertyValueID, val) ∈ r.propertyValues.rows → val.fkBundleID ≠ some b) ∨
      ∃ i e, es[i]? = some e ∧ id = r.properties.seq + 1 + i ∧
        row = e.parent.row (r.propertyValues.seq + 1 + i) := by
  rw [h.properties_eq, Table.mem_insertAll, Repository.mem_dropOldBundle_properties, r.dropOldBundle_properties_seq]
  refine or_congr_right ?_
  simp only [List.getElem?_mapIdx, Option.map_eq_some_iff]
  constructor
  · rintro ⟨i, ⟨e, he, rfl⟩, hid⟩
    exact ⟨i, e, he, hid, rfl⟩
  · rintro ⟨i, e, he, hid, rfl⟩
    exact ⟨i, ⟨e, he, rfl⟩, hid⟩

theorem within (h : Imported affinity layer filename klass r r' svcId es) :
    ∀ e ∈ es, Entry.Within svcId r'.instances r'.propertyGroups e :=
  flattenClass_within h.entries

/-- No property is left without its value: those of the replaced bundle's values
went with them. -/
theorem propertyValue (h : Imported affinity layer filename klass r r' svcId es)
    (hold : ∀ row ∈ r.properties.rows, row.2.fkPropertyValueID ∈ r.propertyValues.ids) :
    ∀ row ∈ r'.properties.rows, row.2.fkPropertyValueID ∈ r'.propertyValues.ids := by
  rintro ⟨id, row⟩ hrow
  rcases h.mem_properties.mp hrow with ⟨hrow, hkept⟩ | ⟨i, e, he, -, rfl⟩
  · obtain ⟨val, hval⟩ := Table.mem_ids.mp (hold _ hrow)
    exact Table.mem_ids.mpr ⟨val, h.mem_values.mpr (Or.inl ⟨hval, fun b hb => hkept b hb val hval⟩)⟩
  · refine Table.mem_ids.mpr ⟨e.valueRow r.bundles.nextId, h.mem_values.mpr (Or.inr ⟨i, e, he, ?_, rfl⟩)⟩
    simp

/-- No value is left without its bundle. -/
theorem valueBundle_of (h : Imported affinity layer filename klass r r' svcId es)
    (hold : ∀ row ∈ r.propertyValues.rows, ∀ b, row.2.fkBundleID = some b → b ∈ r.bundles.ids) :
    ∀ row ∈ r'.propertyValues.rows, ∀ b, row.2.fkBundleID = some b → b ∈ r'.bundles.ids := by
  rintro ⟨id, row⟩ hrow b hb
  rcases h.mem_values.mp hrow with ⟨hrow, hkept⟩ | ⟨i, e, -, -, rfl⟩
  · obtain ⟨bundle, hbundle⟩ := Table.mem_ids.mp (hold _ hrow b hb)
    exact Table.mem_ids.mpr ⟨bundle, h.mem_bundles.mpr (Or.inl ⟨hbundle, fun hrep => hkept b hrep hb⟩)⟩
  · rw [Entry.valueRow_bundle, Option.some.injEq] at hb
    exact Table.mem_ids.mpr ⟨_, h.mem_bundles.mpr (Or.inr ⟨hb.symm, rfl⟩)⟩

end AddSys.Imported

namespace AddSys

variable {affinity : String → SqlValue} {layer : Int} {path : String} {klass : Class} {r r' : Repository}

/-- Import creates no service. -/
theorem commit_services (h : commit affinity layer path klass r = .ok r') : r'.services = r.services := by
  obtain ⟨l, svcId, es, -, himp⟩ := commit_eq_ok_iff.mp h
  exact himp.services_eq

/-- Whether an import commits does not depend on another one before it. -/
theorem commit_isOk_after {layer' : Int} {path' : String} {klass' : Class}
    (h : commit affinity layer path klass r = .ok r') :
    (∃ q', commit affinity layer' path' klass' r' = .ok q') ↔ ∃ q, commit affinity layer' path' klass' r = .ok q := by
  rw [commit_isOk_iff, commit_isOk_iff, Repository.selectService, commit_services h, ← Repository.selectService]

end AddSys

end ServiceManager
