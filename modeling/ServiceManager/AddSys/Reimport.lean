import ServiceManager.AddSys.Injection
import ServiceManager.AddSys.Simulation

namespace ServiceManager

open Sql AddSys

/-- No other bundle carries the path, and none that carries it is referred to. -/
structure Repository.PathFree (r : Repository) (filename : SqlValue) : Prop where
  unique : ∀ row ∈ r.bundles.rows, ∀ row' ∈ r.bundles.rows,
    row.2.filename = filename → row'.2.filename = filename → row = row'
  refCount : ∀ row ∈ r.bundles.rows, row.2.filename = filename → row.2.refCount = 0

/-- Under the renaming the two repositories agree in what the bundles hold; the
second may have further instances and groups. -/
structure Repository.SameBundles (ρ : Renaming) (r r' : Repository) : Prop where
  services : r'.services = r.services
  instances : ∀ row ∈ r.instances.rows, (ρ.nst row.1, row.2) ∈ r'.instances.rows
  groups : ∀ row ∈ r.propertyGroups.rows, (ρ.group row.1, row.2.rename ρ.group) ∈ r'.propertyGroups.rows
  bundles : r'.bundles.rows = r.bundles.rows.map fun row => (ρ.bundle row.1, row.2)
  values : r'.propertyValues.rows = r.propertyValues.rows.map fun row => (ρ.value row.1, row.2.rename ρ)
  properties : r'.properties.rows = r.properties.rows.map fun row => (ρ.property row.1, row.2.rename ρ)

/-- What `r₁` put into the tables of bundles, on top of `r`, is not in `r'`. -/
structure Repository.Forgets (r r₁ r' : Repository) : Prop where
  bundles : ∀ id ∈ r₁.bundles.ids, id ∉ r.bundles.ids → id ∉ r'.bundles.ids
  values : ∀ id ∈ r₁.propertyValues.ids, id ∉ r.propertyValues.ids → id ∉ r'.propertyValues.ids
  properties : ∀ id ∈ r₁.properties.ids, id ∉ r.properties.ids → id ∉ r'.properties.ids

namespace Repository

variable {r : Repository} {filename : SqlValue}

/-- Step 2 of import leaves no bundle of the path. -/
theorem PathFree.dropOldBundle (h : r.PathFree filename) :
    ∀ row ∈ (r.dropOldBundle filename).bundles.rows, row.2.filename ≠ filename := by
  rintro ⟨id, row⟩ hrow hname
  obtain ⟨hmem, hnot⟩ := mem_dropOldBundle_bundles.mp hrow
  apply hnot
  cases hfirst : r.bundles.first (fun row => row.filename = filename) with
  | none =>
    have hmiss := Table.first_eq_none.mp hfirst _ hmem
    exact absurd hname (by simpa using hmiss)
  | some found =>
    obtain ⟨hfound, hhit⟩ := Table.first_mem hfirst
    have hsame := h.unique _ hmem _ hfound hname (by simpa using hhit)
    subst hsame
    have hrc : row.refCount = 0 := h.refCount _ hmem hname
    simp [Replaces, selectBundle, hfirst, hrc]

theorem dropOldBundle_values_subset {row : Nat × PropertyValueRow}
    (h : row ∈ (r.dropOldBundle filename).propertyValues.rows) : row ∈ r.propertyValues.rows :=
  (mem_dropOldBundle_values.mp h).1

theorem dropOldBundle_properties_subset {row : Nat × PropertyRow}
    (h : row ∈ (r.dropOldBundle filename).properties.rows) : row ∈ r.properties.rows :=
  (mem_dropOldBundle_properties.mp h).1

theorem dropOldBundle_bundles_subset {row : Nat × BundleRow}
    (h : row ∈ (r.dropOldBundle filename).bundles.rows) : row ∈ r.bundles.rows :=
  (mem_dropOldBundle_bundles.mp h).1

end Repository

namespace AddSys

variable {affinity : String → SqlValue} {layer : Layer} {filename : SqlValue} {klass : Class}
  {r r' : Repository} {svcId : Nat} {es : List Entry}

namespace Imported

/-- The bundle just imported is the one a further import of the path deletes. -/
theorem replaces (h : Imported affinity layer filename klass r r' svcId es)
    (hclear : ∀ row ∈ (r.dropOldBundle filename).bundles.rows, row.2.filename ≠ filename) :
    r'.Replaces filename r.bundles.nextId := by
  have hnone : (r.dropOldBundle filename).bundles.first (fun row => row.filename = filename) = none := by
    rw [Table.first_eq_none]
    intro row hrow
    simpa using hclear row hrow
  simp [Repository.Replaces, Repository.selectBundle, h.bundles_eq, Table.first_insert, hnone, Table.nextId]

theorem not_bundle_of_old (hfk : r.NoDangling) {row : Nat × PropertyValueRow} (hrow : row ∈ r.propertyValues.rows) :
    row.2.fkBundleID ≠ some r.bundles.nextId := fun heq =>
  r.bundles.nextId_not_mem (hfk.valueBundle row hrow _ heq)

section

variable (h : Imported affinity layer filename klass r r' svcId es)
  (hclear : ∀ row ∈ (r.dropOldBundle filename).bundles.rows, row.2.filename ≠ filename)

include h hclear

/-- Deleting the bundle just imported leaves what was there without it. -/
theorem dropOldBundle_bundles :
    (r'.dropOldBundle filename).bundles.rows = (r.dropOldBundle filename).bundles.rows := by
  rw [Repository.dropOldBundle_of_replaces (h.replaces hclear)]
  simp only [Repository.dropBundle, Table.rows_delete, h.bundles_eq, Table.rows_insert, List.filter_append]
  have hold : (r.dropOldBundle filename).bundles.rows.filter (fun row => !decide (row.1 = r.bundles.nextId)) =
      (r.dropOldBundle filename).bundles.rows := by
    rw [List.filter_eq_self]
    rintro ⟨id, row⟩ hrow
    have hmem : id ∈ r.bundles.ids := Table.mem_ids.mpr ⟨row, Repository.dropOldBundle_bundles_subset hrow⟩
    have hne : id ≠ r.bundles.nextId := fun heq => r.bundles.nextId_not_mem (heq ▸ hmem)
    simpa using hne
  rw [hold]
  simp [Table.nextId]

theorem dropOldBundle_values (hfk : r.NoDangling) :
    (r'.dropOldBundle filename).propertyValues.rows = (r.dropOldBundle filename).propertyValues.rows := by
  rw [Repository.dropOldBundle_of_replaces (h.replaces hclear)]
  simp only [Repository.dropBundle, Table.rows_delete, h.values_eq, Table.rows_insertAll, List.filter_append]
  have hold : (r.dropOldBundle filename).propertyValues.rows.filter
      (fun row => !decide (row.2.fkBundleID = some r.bundles.nextId)) =
      (r.dropOldBundle filename).propertyValues.rows := by
    rw [List.filter_eq_self]
    intro row hrow
    simpa using not_bundle_of_old hfk (Repository.dropOldBundle_values_subset hrow)
  rw [hold, List.append_right_eq_self, List.filter_eq_nil_iff]
  intro row hrow
  obtain ⟨i, hi, rfl⟩ := List.mem_mapIdx.mp hrow
  simp

/-- Without the old bundle, the properties are those from before it was imported. -/
theorem dropOldBundle_properties (hfk : r.NoDangling) :
    (r'.dropOldBundle filename).properties.rows = (r.dropOldBundle filename).properties.rows := by
  rw [Repository.dropOldBundle_of_replaces (h.replaces hclear)]
  simp only [Repository.dropBundle, Table.rows_delete]
  rw [h.properties_eq, Table.rows_insertAll, List.filter_append]
  have hold : (r.dropOldBundle filename).properties.rows.filter (fun row => !r'.propertyValues.rows.any
      (fun val => val.1 = row.2.fkPropertyValueID ∧ val.2.fkBundleID = some r.bundles.nextId)) =
      (r.dropOldBundle filename).properties.rows := by
    rw [List.filter_eq_self]
    intro row hrow
    rw [Bool.not_eq_true', List.any_eq_false]
    rintro ⟨vid, val⟩ hval
    rw [decide_eq_true_eq]
    rintro ⟨rfl, hbundle⟩
    have hle : row.2.fkPropertyValueID ≤ r.propertyValues.seq :=
      Table.le_seq (hfk.propertyValue row (Repository.dropOldBundle_properties_subset hrow))
    rcases h.mem_values.mp hval with ⟨hold, -⟩ | ⟨i, e, -, hid, -⟩
    · exact not_bundle_of_old hfk hold hbundle
    · omega
  rw [hold, List.append_right_eq_self, List.filter_eq_nil_iff]
  intro row hrow
  obtain ⟨i, hi, rfl⟩ := List.mem_mapIdx.mp hrow
  rw [List.length_mapIdx] at hi
  rw [Bool.not_eq_true', Bool.not_eq_false, List.any_eq_true]
  refine ⟨(r.propertyValues.seq + 1 + i, es[i].valueRow r.bundles.nextId), ?_, by simp⟩
  exact h.mem_values.mpr (Or.inr ⟨i, es[i], List.getElem?_eq_getElem hi, rfl, rfl⟩)

end

end Imported

section

variable {layer₁ layer₂ : Layer} {klass₁ klass₂ : Class} {r₁ r₂ r₁₂ : Repository} {svc₁ svc₂ : Nat}
  {es₁ es₂ es₁₂ : List Entry} {ρ : Renaming}

/-- The second import leaves what it would have left without the first one, renamed. -/
theorem Imported.sameBundles (hfk : r.NoDangling)
    (hclear : ∀ row ∈ (r.dropOldBundle filename).bundles.rows, row.2.filename ≠ filename)
    (h₁ : Imported affinity layer₁ filename klass₁ r r₁ svc₁ es₁)
    (h₂ : Imported affinity layer₂ filename klass₂ r r₂ svc₂ es₂)
    (h₁₂ : Imported affinity layer₂ filename klass₂ r₁ r₁₂ svc₂ es₁₂)
    (hexchanges : Exchanges ρ r es₂ es₁) (hfixes : ρ.Fixes r)
    (hgroups : groupKeyed.Sim ρ.group r₂.propertyGroups r₁₂.propertyGroups)
    (hinstances : instanceKeyed.Sim ρ.nst r₂.instances r₁₂.instances) : Repository.SameBundles ρ r₂ r₁₂ := by
  have hbundle : ρ.bundle r.bundles.nextId = r₁.bundles.nextId := by
    rw [hexchanges.bundle, Table.nextId, Table.nextId, h₁.bundles_seq]
    exact exchange_first Nat.zero_lt_one
  have hvalue : ∀ i < es₂.length, ρ.value (r.propertyValues.seq + 1 + i) = r₁.propertyValues.seq + 1 + i := by
    rw [hexchanges.value, h₁.values_seq]
    exact fun i hi => exchange_first hi
  have hproperty : ∀ i < es₂.length, ρ.property (r.properties.seq + 1 + i) = r₁.properties.seq + 1 + i := by
    rw [hexchanges.property, h₁.properties_seq]
    exact fun i hi => exchange_first hi
  have hentries := h₂.entries_rename h₁₂ hgroups hinstances
  constructor
  · rw [h₁₂.services_eq, h₁.services_eq, h₂.services_eq]
  · exact fun row hrow => hinstances.rows row.1 row.2 hrow
  · exact fun row hrow => hgroups.rows row.1 row.2 hrow
  · rw [h₁₂.bundles_eq, h₂.bundles_eq, Table.rows_insert, Table.rows_insert, h₁.dropOldBundle_bundles hclear,
      List.map_append, hfixes.bundleRows fun _ => Repository.dropOldBundle_bundles_subset]
    simpa [Table.nextId] using hbundle.symm
  · rw [h₁₂.values_eq, h₂.values_eq, Table.rows_insertAll, Table.rows_insertAll, h₁.dropOldBundle_values hclear hfk,
      List.map_append, hfixes.valueRows hfk fun _ => Repository.dropOldBundle_values_subset,
      Repository.dropOldBundle_values_seq, Repository.dropOldBundle_values_seq, valueRows_rename hbundle hvalue,
      ← hentries]
  · rw [h₁₂.properties_eq, h₂.properties_eq, Table.rows_insertAll, Table.rows_insertAll,
      h₁.dropOldBundle_properties hclear hfk, List.map_append,
      hfixes.propertyRows hfk fun _ => Repository.dropOldBundle_properties_subset,
      Repository.dropOldBundle_properties_seq, Repository.dropOldBundle_properties_seq,
      propertyRows_rename hvalue hproperty, ← hentries]

/-- Nothing of the first import is left but what is shared. -/
theorem Imported.forgets (h₁ : Imported affinity layer₁ filename klass₁ r r₁ svc₁ es₁) (hfk : r.NoDangling)
    (hclear : ∀ row ∈ (r.dropOldBundle filename).bundles.rows, row.2.filename ≠ filename)
    (h₁₂ : Imported affinity layer₂ filename klass₂ r₁ r₁₂ svc₂ es₁₂) : Repository.Forgets r r₁ r₁₂ := by
  constructor
  · intro id hid hnew hmem
    obtain ⟨row, hrow⟩ := Table.mem_ids.mp hmem
    rcases h₁₂.mem_bundles.mp hrow with hold | ⟨rfl, -⟩
    · have hrow' := Repository.mem_dropOldBundle_bundles.mpr hold
      rw [h₁.dropOldBundle_bundles hclear] at hrow'
      exact hnew (Table.mem_ids.mpr ⟨row, Repository.dropOldBundle_bundles_subset hrow'⟩)
    · exact r₁.bundles.nextId_not_mem hid
  · intro id hid hnew hmem
    obtain ⟨row, hrow⟩ := Table.mem_ids.mp hmem
    rcases h₁₂.mem_values.mp hrow with hold | ⟨i, e, -, rfl, -⟩
    · have hrow' := Repository.mem_dropOldBundle_values.mpr hold
      rw [h₁.dropOldBundle_values hclear hfk] at hrow'
      exact hnew (Table.mem_ids.mpr ⟨row, Repository.dropOldBundle_values_subset hrow'⟩)
    · have := Table.le_seq hid
      omega
  · intro id hid hnew hmem
    obtain ⟨row, hrow⟩ := Table.mem_ids.mp hmem
    rcases h₁₂.mem_properties.mp hrow with hold | ⟨i, e, -, rfl, -⟩
    · have hrow' := Repository.mem_dropOldBundle_properties.mpr hold
      rw [h₁.dropOldBundle_properties hclear hfk] at hrow'
      exact hnew (Table.mem_ids.mpr ⟨row, Repository.dropOldBundle_properties_subset hrow'⟩)
    · have := Table.le_seq hid
      omega

end

/-- The last import of a file wins: what an earlier import of the same path put
into the tables is gone, and the result is, up to the ids handed out, the result
of the last import alone. -/
theorem commit_same_path_twice {layer₁ layer₂ : Int} {path : String} {klass₁ klass₂ : Class}
    {r r₁ r₂ r₁₂ : Repository} (hfk : r.NoDangling) (hpath : r.PathFree (affinity path))
    (h₁ : commit affinity layer₁ path klass₁ r = .ok r₁) (h₁₂ : commit affinity layer₂ path klass₂ r₁ = .ok r₁₂)
    (h₂ : commit affinity layer₂ path klass₂ r = .ok r₂) :
    (∃ ρ : Renaming, ρ.Fixes r ∧ Repository.SameBundles ρ r₂ r₁₂) ∧ Repository.Forgets r r₁ r₁₂ := by
  obtain ⟨l₁, svc₁, es₁, -, imp₁⟩ := commit_eq_ok_iff.mp h₁
  obtain ⟨l₂, svc₂, es₂, rfl, imp₂⟩ := commit_eq_ok_iff.mp h₂
  obtain ⟨l, svc, es, hl, imp₁₂⟩ := commit_eq_ok_iff.mp h₁₂
  obtain rfl : l = l₂ := Subtype.ext hl
  obtain rfl : svc = svc₂ := imp₂.service_unique imp₁₂ imp₁.services_eq
  refine ⟨?_, imp₁.forgets hfk hpath.dropOldBundle imp₁₂⟩
  obtain ⟨g, hgold, hg⟩ := imp₂.sim_groups imp₁₂ (imp₁.groups_sim hfk)
  obtain ⟨n, hnold, hn⟩ := imp₂.sim_instances imp₁₂ imp₁.instances_sim
  let ρ : Renaming :=
    { nst := n
      bundle := exchange r.bundles.seq 1 1
      property := exchange r.properties.seq es₂.length es₁.length
      value := exchange r.propertyValues.seq es₂.length es₁.length
      group := g
      nst_zero := hn.zero
      group_zero := hg.zero }
  have hexchanges : Exchanges ρ r es₂ es₁ := ⟨rfl, rfl, rfl⟩
  have hfixes := hexchanges.fixes hnold hgold
  exact ⟨ρ, hfixes, Imported.sameBundles hfk hpath.dropOldBundle imp₁ imp₂ imp₁₂ hexchanges hfixes hg hn⟩

namespace Conn

end Conn

end AddSys

end ServiceManager
