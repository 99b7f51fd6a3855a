import ServiceManager.AddSys.Injection
import ServiceManager.AddSys.Simulation
import ServiceManager.Repository.Equivariance

namespace ServiceManager

open Sql AddSys

namespace Repository

variable {r : Repository} {filename other : SqlValue}

/-- Deleting the bundle of one path does not change which bundle another path has. -/
theorem selectBundle_dropOldBundle (hne : other ≠ filename) :
    (r.dropOldBundle filename).selectBundle other = r.selectBundle other := by
  by_cases hrep : ∃ b, r.Replaces filename b
  · obtain ⟨b, hb⟩ := hrep
    obtain ⟨row, hrow, hname, -⟩ := hb.bundle
    rw [dropOldBundle_of_replaces hb]
    simp only [selectBundle, dropBundle, Table.first, Table.rows_delete, ← List.head?_filter, List.filter_filter]
    congr 2
    apply List.filter_congr
    rintro ⟨id, row'⟩ hrow'
    by_cases hid : id = b
    · subst hid
      have hsame := Table.row_unique hrow hrow'
      subst hsame
      simp [hname, hne.symm]
    · simp [hid]
  · rw [dropOldBundle_eq_self fun b hb => hrep ⟨b, hb⟩]

end Repository

namespace AddSys

variable {affinity : String → SqlValue} {layer : Layer} {filename other : SqlValue} {klass : Class}
  {r r' : Repository} {svcId : Nat} {es : List Entry}

namespace Imported

theorem replaces_iff (h : Imported affinity layer filename klass r r' svcId es) (hne : other ≠ filename) (b : Nat) :
    r'.Replaces other b ↔ r.Replaces other b := by
  have hsel : r'.selectBundle other = (r.dropOldBundle filename).selectBundle other := by
    rw [Repository.selectBundle, h.bundles_eq, Table.first_insert]
    simp [Repository.selectBundle, hne.symm]
  rw [Repository.Replaces, hsel, Repository.selectBundle_dropOldBundle hne, Repository.Replaces]

theorem not_replaces_nextId (r : Repository) (filename : SqlValue) : ¬ r.Replaces filename r.bundles.nextId := by
  intro hrep
  obtain ⟨row, hrow, -⟩ := hrep.bundle
  exact r.bundles.nextId_not_mem (Table.mem_ids.mpr ⟨row, hrow⟩)

end Imported

/-- Two classes imported from two paths in either order. -/
structure BothOrders (affinity : String → SqlValue) (layerK layerL : Layer) (f g : SqlValue) (K L : Class)
    (r a ab b ba : Repository) (svcK svcL : Nat) (esK esL esL' esK' : List Entry) : Prop where
  ne : f ≠ g
  fk : r.NoDangling
  fst : Imported affinity layerK f K r a svcK esK
  fstSnd : Imported affinity layerL g L a ab svcL esL
  snd : Imported affinity layerL g L r b svcL esL'
  sndFst : Imported affinity layerK f K b ba svcK esK'

namespace BothOrders

variable {layerK layerL : Layer} {f g : SqlValue} {K L : Class} {a b ab ba : Repository} {svcK svcL : Nat}
  {esK esK' esL esL' : List Entry} {ρ : Renaming} {id : Nat}

theorem symm (h : BothOrders affinity layerK layerL f g K L r a ab b ba svcK svcL esK esL esL' esK') :
    BothOrders affinity layerL layerK g f L K r b ba a ab svcL svcK esL' esK' esK esL :=
  ⟨h.ne.symm, h.fk, h.snd, h.sndFst, h.fst, h.fstSnd⟩

variable (h : BothOrders affinity layerK layerL f g K L r a ab b ba svcK svcL esK esL esL' esK')

include h

/-- The groups of one order are part of those of the other. -/
theorem groups_sim : ∃ p : Equiv.Perm Nat, (∀ id ∈ r.propertyGroups.ids, p id = id) ∧
    groupKeyed.Sim p ab.propertyGroups ba.propertyGroups := by
  obtain ⟨p, hp, hsim⟩ := h.fst.sim_groups h.sndFst (h.snd.groups_sim h.fk)
  obtain ⟨q, hq, hsim'⟩ := classGroups_sim affinity svcL hsim L
  -- the groups of `L` are there already
  rw [← h.fstSnd.groups_eq,
    classGroups_idem (flattenClass_grows h.sndFst.grows_groups h.sndFst.grows_instances h.snd.entries)] at hsim'
  exact ⟨q, fun id hid => (hq id (h.fst.grows_groups.mem_ids hid)).trans (hp id hid), hsim'⟩

theorem instances_sim : ∃ p : Equiv.Perm Nat, (∀ id ∈ r.instances.ids, p id = id) ∧
    instanceKeyed.Sim p ab.instances ba.instances := by
  obtain ⟨p, hp, hsim⟩ := h.fst.sim_instances h.sndFst h.snd.instances_sim
  obtain ⟨q, hq, hsim'⟩ := classInstances_sim svcL hsim L.instances
  rw [← h.fstSnd.instances_eq,
    classInstances_idem (flattenClass_grows h.sndFst.grows_groups h.sndFst.grows_instances h.snd.entries)] at hsim'
  exact ⟨q, fun id hid => (hq id (h.fst.grows_instances.mem_ids hid)).trans (hp id hid), hsim'⟩

theorem entries_fst (hgroups : groupKeyed.Sim ρ.group ab.propertyGroups ba.propertyGroups)
    (hinstances : instanceKeyed.Sim ρ.nst ab.instances ba.instances) : esK' = esK.map (Entry.rename ρ) := by
  have hes := flattenClass_rename (ρ := ρ) hgroups.lookup hinstances.lookup
    (flattenClass_grows h.fstSnd.grows_groups h.fstSnd.grows_instances h.fst.entries)
  rw [h.sndFst.entries] at hes
  exact Option.some.inj hes

theorem entries_snd (hgroups : groupKeyed.Sim ρ.group ab.propertyGroups ba.propertyGroups)
    (hinstances : instanceKeyed.Sim ρ.nst ab.instances ba.instances) : esL' = esL.map (Entry.rename ρ) := by
  have hes := flattenClass_rename (ρ := ρ) hgroups.lookup hinstances.lookup h.fstSnd.entries
  rw [flattenClass_grows h.sndFst.grows_groups h.sndFst.grows_instances h.snd.entries] at hes
  exact Option.some.inj hes

section

variable (hfixes : ρ.Fixes r) (hexchanges : Exchanges ρ r esK esL)

include hfixes hexchanges

theorem embeds_bundles {row : BundleRow} (hrow : (id, row) ∈ ab.bundles.rows) :
    (ρ.bundle id, row) ∈ ba.bundles.rows := by
  rw [h.sndFst.mem_bundles, h.snd.mem_bundles, h.snd.replaces_iff h.ne]
  rcases h.fstSnd.mem_bundles.mp hrow with ⟨hrow, hnot⟩ | ⟨rfl, rfl⟩
  · rw [h.fst.replaces_iff h.ne.symm] at hnot
    rcases h.fst.mem_bundles.mp hrow with ⟨hrow, hnot'⟩ | ⟨rfl, rfl⟩
    · rw [hfixes.bundle id (Table.mem_ids.mpr ⟨row, hrow⟩)]
      exact Or.inl ⟨Or.inl ⟨hrow, hnot⟩, hnot'⟩
    · refine Or.inr ⟨?_, rfl⟩
      rw [hexchanges.bundle, Table.nextId, Table.nextId, h.snd.bundles_seq]
      exact exchange_first Nat.zero_lt_one
  · have hid : ρ.bundle a.bundles.nextId = r.bundles.nextId := by
      rw [hexchanges.bundle, Table.nextId, Table.nextId, h.fst.bundles_seq]
      exact exchange_second Nat.zero_lt_one
    rw [hid]
    exact Or.inl ⟨Or.inr ⟨rfl, rfl⟩, Imported.not_replaces_nextId r f⟩

variable (hsnd : esL' = esL.map (Entry.rename ρ))

include hsnd

omit hfixes in
/-- Where the renaming takes the keys of the entries of the two classes. -/
theorem moves : ρ.bundle r.bundles.nextId = b.bundles.nextId ∧ ρ.bundle a.bundles.nextId = r.bundles.nextId ∧
    (∀ i < esK.length, ρ.value (r.propertyValues.seq + 1 + i) = b.propertyValues.seq + 1 + i) ∧
    (∀ i < esL.length, ρ.value (a.propertyValues.seq + 1 + i) = r.propertyValues.seq + 1 + i) ∧
    (∀ i < esK.length, ρ.property (r.properties.seq + 1 + i) = b.properties.seq + 1 + i) ∧
    (∀ i < esL.length, ρ.property (a.properties.seq + 1 + i) = r.properties.seq + 1 + i) := by
  have hlen : esL'.length = esL.length := by rw [hsnd, List.length_map]
  rw [hexchanges.bundle, hexchanges.value, hexchanges.property, Table.nextId, Table.nextId, Table.nextId,
    h.snd.bundles_seq, h.fst.bundles_seq, h.snd.values_seq, h.fst.values_seq, h.snd.properties_seq,
    h.fst.properties_seq, hlen]
  exact ⟨exchange_first Nat.zero_lt_one, exchange_second Nat.zero_lt_one, fun _ => exchange_first,
    fun _ => exchange_second, fun _ => exchange_first, fun _ => exchange_second⟩

variable (hfst : esK' = esK.map (Entry.rename ρ))

include hfst

theorem embeds_values {row : PropertyValueRow} (hrow : (id, row) ∈ ab.propertyValues.rows) :
    (ρ.value id, row.rename ρ) ∈ ba.propertyValues.rows := by
  obtain ⟨hK, hL, hKv, hLv, -, -⟩ := h.moves hexchanges hsnd
  simp only [h.sndFst.mem_values, h.snd.mem_values, h.snd.replaces_iff h.ne]
  rcases h.fstSnd.mem_values.mp hrow with ⟨hrow, hnot⟩ | ⟨i, e, he, rfl, rfl⟩
  · simp only [h.fst.replaces_iff h.ne.symm] at hnot
    rcases h.fst.mem_values.mp hrow with ⟨hrow, hnot'⟩ | ⟨i, e, he, rfl, rfl⟩
    · rw [hfixes.value id (Table.mem_ids.mpr ⟨row, hrow⟩), hfixes.valueRow h.fk hrow]
      exact Or.inl ⟨Or.inl ⟨hrow, hnot⟩, hnot'⟩
    · refine Or.inr ⟨i, e.rename ρ, by simp [hfst, he], hKv i (List.getElem?_eq_some_iff.mp he).1, ?_⟩
      rw [← hK, Entry.valueRow_rename]
  · have hentry : (e.valueRow a.bundles.nextId).rename ρ = (e.rename ρ).valueRow r.bundles.nextId := by
      rw [← hL, Entry.valueRow_rename]
    rw [hentry, hLv i (List.getElem?_eq_some_iff.mp he).1]
    refine Or.inl ⟨Or.inr ⟨i, e.rename ρ, by simp [hsnd, he], rfl, rfl⟩, ?_⟩
    intro c hc heq
    rw [Entry.valueRow_bundle, Option.some.injEq] at heq
    subst heq
    exact Imported.not_replaces_nextId r f hc

/-- Each property of one order is there in the other, renamed. -/
theorem embeds_properties {row : PropertyRow} (hrow : (id, row) ∈ ab.properties.rows) :
    (ρ.property id, row.rename ρ) ∈ ba.properties.rows := by
  obtain ⟨-, -, hKv, hLv, hKp, hLp⟩ := h.moves hexchanges hsnd
  simp only [h.sndFst.mem_properties, h.snd.mem_properties, h.snd.replaces_iff h.ne]
  rcases h.fstSnd.mem_properties.mp hrow with ⟨hrow, hnot⟩ | ⟨i, e, he, rfl, rfl⟩
  · simp only [h.fst.replaces_iff h.ne.symm] at hnot
    rcases h.fst.mem_properties.mp hrow with ⟨hrow, hnot'⟩ | ⟨i, e, he, rfl, rfl⟩
    · rw [hfixes.property id (Table.mem_ids.mpr ⟨row, hrow⟩), hfixes.propertyRow h.fk hrow]
      have hle : row.fkPropertyValueID ≤ r.propertyValues.seq := Table.le_seq (h.fk.propertyValue _ hrow)
      refine Or.inl ⟨Or.inl ⟨hrow, ?_⟩, ?_⟩
      · intro c hc val hval
        exact hnot c hc val ((h.fst.mem_values_of_le hle).mpr ⟨hval, fun d hd => hnot' d hd val hval⟩)
      · intro c hc val hval
        exact hnot' c hc val ((h.snd.mem_values_of_le hle).mp hval).1
    · have hi := (List.getElem?_eq_some_iff.mp he).1
      refine Or.inr ⟨i, e.rename ρ, by simp [hfst, he], hKp i hi, ?_⟩
      rw [← hKv i hi, ← PropertyParent.row_rename]
      rfl
  · have hi := (List.getElem?_eq_some_iff.mp he).1
    have hentry : (e.parent.row (a.propertyValues.seq + 1 + i)).rename ρ =
        (e.rename ρ).parent.row (r.propertyValues.seq + 1 + i) := by
      rw [← hLv i hi, ← PropertyParent.row_rename]
      rfl
    rw [hentry, hLp i hi]
    refine Or.inl ⟨Or.inr ⟨i, e.rename ρ, by simp [hsnd, he], rfl, rfl⟩, ?_⟩
    intro c hc val hval heq
    rw [PropertyParent.row_value] at hval
    rw [h.snd.bundle_of_new hval (by omega), Option.some.injEq] at heq
    subst heq
    exact Imported.not_replaces_nextId r f hc

end

theorem counts_groups : r.propertyGroups.Counts ab.propertyGroups := by
  rw [h.fstSnd.groups_eq, h.fst.groups_eq]
  have hstep : ∀ svc, GroupStepPreserves svc r.propertyGroups.Counts := fun _ _ k hcounts _ => hcounts.getOrCreate k
  exact classGroups_preserves (hstep svcL) (classGroups_preserves (hstep svcK) rfl K) L

theorem counts_instances : r.instances.Counts ab.instances := by
  rw [h.fstSnd.instances_eq, h.fst.instances_eq]
  have hstep : ∀ svc t name, r.instances.Counts t →
      r.instances.Counts (t.getOrCreate InstanceKey.hit InstanceKey.row ⟨svc, name⟩).2 :=
    fun _ _ _ hcounts => hcounts.getOrCreate _
  exact classInstances_preserves (hstep svcL) (classInstances_preserves (hstep svcK) rfl K.instances) L.instances

/-- Every row of the one order is, renamed, a row of the other. -/
theorem exists_embeds : ∃ ρ : Renaming, ρ.Fixes r ∧
    esK' = esK.map (Entry.rename ρ) ∧ esL' = esL.map (Entry.rename ρ) ∧
    (∀ id row, (id, row) ∈ ab.instances.rows → (ρ.nst id, row) ∈ ba.instances.rows) ∧
    (∀ id row, (id, row) ∈ ab.bundles.rows → (ρ.bundle id, row) ∈ ba.bundles.rows) ∧
    (∀ id row, (id, row) ∈ ab.properties.rows → (ρ.property id, row.rename ρ) ∈ ba.properties.rows) ∧
    (∀ id row, (id, row) ∈ ab.propertyValues.rows → (ρ.value id, row.rename ρ) ∈ ba.propertyValues.rows) ∧
    (∀ id row, (id, row) ∈ ab.propertyGroups.rows →
      (ρ.group id, row.rename ρ.group) ∈ ba.propertyGroups.rows) := by
  obtain ⟨p, hp, hgroups⟩ := h.groups_sim
  obtain ⟨n, hn, hinstances⟩ := h.instances_sim
  let ρ : Renaming :=
    { nst := n
      bundle := exchange r.bundles.seq 1 1
      property := exchange r.properties.seq esK.length esL.length
      value := exchange r.propertyValues.seq esK.length esL.length
      group := p
      nst_zero := hinstances.zero
      group_zero := hgroups.zero }
  have hexchanges : Exchanges ρ r esK esL := ⟨rfl, rfl, rfl⟩
  have hfixes := hexchanges.fixes hn hp
  have hfst : esK' = esK.map (Entry.rename ρ) := h.entries_fst hgroups hinstances
  have hsnd : esL' = esL.map (Entry.rename ρ) := h.entries_snd hgroups hinstances
  refine ⟨ρ, hfixes, hfst, hsnd, hinstances.rows, fun _ _ => h.embeds_bundles hfixes hexchanges,
    fun _ _ => h.embeds_properties hfixes hexchanges hsnd hfst,
    fun _ _ => h.embeds_values hfixes hexchanges hsnd hfst, hgroups.rows⟩

/-- The results of the two orders are equal up to a renaming of the keys they
handed out. -/
theorem eqUpTo : ∃ ρ : Renaming, ρ.Fixes r ∧ Repository.EqUpTo ρ ab ba := by
  obtain ⟨ρ, hfixes, hfst, hsnd, hinst, hbundles, hprops, hvalues, hgroups⟩ := h.exists_embeds
  obtain ⟨_, -, -, -, hinst', hbundles', hprops', hvalues', hgroups'⟩ := h.symm.exists_embeds
  have hinstSeq := h.counts_instances.seq_eq h.symm.counts_instances hinst hinst'
  have hgroupSeq := h.counts_groups.seq_eq h.symm.counts_groups hgroups hgroups'
  refine ⟨ρ, hfixes, ?_, .of_embeds hinst hinst' hinstSeq, ?_, .of_embeds hbundles hbundles' ?_, ?_,
    .of_embeds hprops hprops' ?_, .of_embeds hvalues hvalues' ?_, .of_embeds hgroups hgroups' hgroupSeq⟩
  · rw [h.sndFst.services_eq, h.snd.services_eq, h.fstSnd.services_eq, h.fst.services_eq]
  · rw [h.sndFst.snapshots_eq, h.snd.snapshots_eq, h.fstSnd.snapshots_eq, h.fst.snapshots_eq]
    exact (hfixes.snapshotRows h.fk).symm
  · rw [h.sndFst.bundles_seq, h.snd.bundles_seq, h.fstSnd.bundles_seq, h.fst.bundles_seq]
  · rw [h.sndFst.snapshotProperty_eq, h.snd.snapshotProperty_eq, h.fstSnd.snapshotProperty_eq,
      h.fst.snapshotProperty_eq]
    exact (hfixes.snapshotPropertyRows h.fk).symm
  · rw [h.sndFst.properties_seq, h.snd.properties_seq, h.fstSnd.properties_seq, h.fst.properties_seq, hfst, hsnd,
      List.length_map, List.length_map]
    omega
  · rw [h.sndFst.values_seq, h.snd.values_seq, h.fstSnd.values_seq, h.fst.values_seq, hfst, hsnd,
      List.length_map, List.length_map]
    omega

end BothOrders

/-- What `realpath` returns: an absolute path. -/
def FullPath : Type := { s : String // s.toList.head? = some '/' }

/-- Both imports commit. -/
theorem commit_commute {layerK layerL : Int} {f g : String} {K L : Class} {r a b : Repository} (hfk : r.NoDangling)
    (hne : affinity f ≠ affinity g) (ha : commit affinity layerK f K r = .ok a)
    (hb : commit affinity layerL g L r = .ok b) :
    ∃ ρ : Renaming, ρ.Fixes r ∧
      Repository.EqUpTo ρ (runImport affinity layerL g L a) (runImport affinity layerK f K b) := by
  obtain ⟨ab, hab⟩ := (commit_isOk_after ha).mpr ⟨b, hb⟩
  obtain ⟨ba, hba⟩ := (commit_isOk_after hb).mpr ⟨a, ha⟩
  rw [runImport_of_ok hab, runImport_of_ok hba]
  obtain ⟨lK, svcK, esK, rfl, impA⟩ := commit_eq_ok_iff.mp ha
  obtain ⟨lL, svcL, esL', rfl, impB⟩ := commit_eq_ok_iff.mp hb
  obtain ⟨lL', svcL', esL, hlL, impAB⟩ := commit_eq_ok_iff.mp hab
  obtain ⟨lK', svcK', esK', hlK, impBA⟩ := commit_eq_ok_iff.mp hba
  obtain rfl : lL' = lL := Subtype.ext hlL
  obtain rfl : lK' = lK := Subtype.ext hlK
  obtain rfl := impA.service_unique impBA impB.services_eq
  obtain rfl := impB.service_unique impAB impA.services_eq
  exact BothOrders.eqUpTo ⟨hne, hfk, impA, impAB, impB, impBA⟩

/-- Imports of two files commute, up to a renaming of the ids they allocate, and
so does the composed view of every instance. Paths are absolute, and an absolute
path is no number, so the column's affinity leaves it a text. -/
theorem runImport_commute (haffinity : ∀ path : FullPath, affinity path.1 = .text path.1) {f g : FullPath}
    (hne : f ≠ g) (layerK layerL : Int) (K L : Class) {r : Repository} (hfk : r.NoDangling) :
    ∃ ρ : Renaming, ρ.Fixes r ∧
      Repository.EqUpTo ρ (runImport affinity layerL g.1 L (runImport affinity layerK f.1 K r))
        (runImport affinity layerK f.1 K (runImport affinity layerL g.1 L r)) ∧
      ∀ instanceID, ((runImport affinity layerL g.1 L (runImport affinity layerK f.1 K
          r)).queryGetInstancePropertiesComposed instanceID).map ρ.property |>.Perm
        ((runImport affinity layerK f.1 K (runImport affinity layerL g.1 L
          r)).queryGetInstancePropertiesComposed (ρ.nst instanceID)) := by
  suffices hmain : ∃ ρ : Renaming, ρ.Fixes r ∧
      Repository.EqUpTo ρ (runImport affinity layerL g.1 L (runImport affinity layerK f.1 K r))
        (runImport affinity layerK f.1 K (runImport affinity layerL g.1 L r)) by
    obtain ⟨ρ, hfixes, heq⟩ := hmain
    exact ⟨ρ, hfixes, heq, heq.composed⟩
  have hnames : affinity f.1 ≠ affinity g.1 := by
    rw [haffinity, haffinity]
    exact fun heq => hne (Subtype.ext (SqlValue.text.inj heq))
  by_cases hK : ∃ a, commit affinity layerK f.1 K r = .ok a
  · obtain ⟨a, ha⟩ := hK
    rw [runImport_of_ok ha]
    by_cases hL : ∃ b, commit affinity layerL g.1 L r = .ok b
    · obtain ⟨b, hb⟩ := hL
      rw [runImport_of_ok hb]
      exact commit_commute hfk hnames ha hb
    · rw [runImport_of_error hL, runImport_of_ok ha, runImport_of_error (mt (commit_isOk_after ha).mp hL)]
      exact ⟨Renaming.refl, Repository.Fixes.refl r, Repository.EqUpTo.refl a⟩
  · rw [runImport_of_error hK]
    by_cases hL : ∃ b, commit affinity layerL g.1 L r = .ok b
    · obtain ⟨b, hb⟩ := hL
      rw [runImport_of_ok hb, runImport_of_error (mt (commit_isOk_after hb).mp hK)]
      exact ⟨Renaming.refl, Repository.Fixes.refl r, Repository.EqUpTo.refl b⟩
    · rw [runImport_of_error hL, runImport_of_error hK]
      exact ⟨Renaming.refl, Repository.Fixes.refl r, Repository.EqUpTo.refl r⟩

namespace Conn

section Program

variable {σ : Type} {sqlite : Connection (List Char) σ} {db : σ → Db} (h : Understands affinity sqlite db)

include h

end Program

end Conn

end AddSys

end ServiceManager
