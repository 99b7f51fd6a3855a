import ServiceManager.AddSys.Rows

namespace ServiceManager

open Sql

namespace AddSys

section

variable (affinity : String → SqlValue) (svc : Nat)

theorem keyRefs_of_within {svc : Nat} {groups : Table PropertyGroupRow} {k : GroupKey}
    (h : ParentWithin svc groups k.parent) :
    ∀ id ∈ groupKeyed.keyRefs k, id ∈ groups.ids := by
  obtain ⟨parent, name⟩ := k
  cases parent with
  | service _ => simp
  | group id =>
    intro ref href
    obtain rfl : ref = id := by simpa using href
    exact h

theorem groupParent_perm {f : Equiv.Perm Nat} (hzero : f 0 = 0) (svc page : Nat) :
    groupParent svc (f page) = (groupParent svc page).rename f :=
  groupParent_rename { Renaming.refl with group := f, group_zero := hzero } svc page

mutual

/-- Importing a property into two tables of groups keeps the one part of the
other. -/
theorem propGroups_sim {f : Equiv.Perm Nat} {groups groups' : Table PropertyGroupRow}
    (h : groupKeyed.Sim f groups groups') {page : Nat} (hpage : page = 0 ∨ page ∈ groups.ids) (prop : Property) :
    ∃ g : Equiv.Perm Nat, (∀ id ∈ groups.ids, g id = f id) ∧
      groupKeyed.Sim g (propGroups affinity svc page groups prop)
        (propGroups affinity svc (f page) groups' prop) := by
  cases prop with
  | string key value => exact ⟨f, fun _ _ => rfl, h⟩
  | page key properties =>
    set k : GroupKey := ⟨groupParent svc page, affinity key⟩ with hk
    have hkey : groupKeyed.renameKey f k = ⟨groupParent svc (f page), affinity key⟩ := by
      rw [groupParent_perm h.zero]
      rfl
    have hrefs := keyRefs_of_within (k := k) (groupParent_within svc hpage)
    obtain ⟨g, hold, hgot, hsim⟩ := h.getOrCreate hrefs
    have hmem : (groups.getOrCreate GroupKey.hit GroupKey.row k).1 ∈
        (groups.getOrCreate GroupKey.hit GroupKey.row k).2.ids :=
      Table.lookup_mem_ids (Table.lookup_getOrCreate (GroupKey.hit_row.mpr rfl))
    obtain ⟨g', hold', hsim'⟩ := propsGroups_sim hsim (Or.inr hmem) properties
    rw [hgot, hkey] at hsim'
    refine ⟨g', fun id hid => ?_, hsim'⟩
    exact (hold' id ((Table.grows_getOrCreate groups k).mem_ids hid)).trans (hold id hid)

theorem propsGroups_sim {f : Equiv.Perm Nat} {groups groups' : Table PropertyGroupRow}
    (h : groupKeyed.Sim f groups groups') {page : Nat} (hpage : page = 0 ∨ page ∈ groups.ids)
    (props : List Property) :
    ∃ g : Equiv.Perm Nat, (∀ id ∈ groups.ids, g id = f id) ∧
      groupKeyed.Sim g (propsGroups affinity svc page groups props)
        (propsGroups affinity svc (f page) groups' props) := by
  cases props with
  | nil => exact ⟨f, fun _ _ => rfl, h⟩
  | cons prop rest =>
    obtain ⟨g, hold, hsim⟩ := propGroups_sim h hpage prop
    have hgrows : groups.Grows (propGroups affinity svc page groups prop) := grows_propGroups svc page groups prop
    obtain ⟨g', hold', hsim'⟩ := propsGroups_sim hsim (hpage.imp_right hgrows.mem_ids) rest
    have hsame : g page = f page := by
      rcases hpage with rfl | hpage
      · rw [hsim.zero, h.zero]
      · exact hold page hpage
    rw [hsame] at hsim'
    exact ⟨g', fun id hid => (hold' id (hgrows.mem_ids hid)).trans (hold id hid), hsim'⟩

end

theorem instancesGroups_sim {f : Equiv.Perm Nat} {groups groups' : Table PropertyGroupRow}
    (h : groupKeyed.Sim f groups groups') (insts : List Instance) :
    ∃ g : Equiv.Perm Nat, (∀ id ∈ groups.ids, g id = f id) ∧
      groupKeyed.Sim g (instancesGroups affinity svc groups insts) (instancesGroups affinity svc groups' insts) := by
  induction insts generalizing f groups groups' with
  | nil => exact ⟨f, fun _ _ => rfl, h⟩
  | cons inst rest ih =>
    obtain ⟨g, hold, hsim⟩ := propsGroups_sim affinity svc h (Or.inl rfl) inst.properties
    rw [h.zero] at hsim
    obtain ⟨g', hold', hsim'⟩ := ih hsim
    refine ⟨g', fun id hid => ?_, hsim'⟩
    exact (hold' id ((grows_propsGroups svc 0 groups inst.properties).mem_ids hid)).trans (hold id hid)

/-- So does importing a class. -/
theorem classGroups_sim {f : Equiv.Perm Nat} {groups groups' : Table PropertyGroupRow}
    (h : groupKeyed.Sim f groups groups') (klass : Class) :
    ∃ g : Equiv.Perm Nat, (∀ id ∈ groups.ids, g id = f id) ∧
      groupKeyed.Sim g (classGroups affinity svc groups klass) (classGroups affinity svc groups' klass) := by
  obtain ⟨g, hold, hsim⟩ := propsGroups_sim affinity svc h (Or.inl rfl) klass.properties
  rw [h.zero] at hsim
  obtain ⟨g', hold', hsim'⟩ := instancesGroups_sim affinity svc hsim klass.instances
  refine ⟨g', fun id hid => ?_, hsim'⟩
  exact (hold' id ((grows_propsGroups svc 0 groups klass.properties).mem_ids hid)).trans (hold id hid)

theorem classInstances_sim {f : Equiv.Perm Nat} {instances instances' : Table InstanceRow}
    (h : instanceKeyed.Sim f instances instances') (insts : List Instance) :
    ∃ g : Equiv.Perm Nat, (∀ id ∈ instances.ids, g id = f id) ∧
      instanceKeyed.Sim g (classInstances svc instances insts) (classInstances svc instances' insts) := by
  induction insts generalizing f instances instances' with
  | nil => exact ⟨f, fun _ _ => rfl, h⟩
  | cons inst rest ih =>
    obtain ⟨g, hold, -, hsim⟩ := h.getOrCreate (k := ⟨svc, inst.name⟩) (by simp)
    obtain ⟨g', hold', hsim'⟩ := ih hsim
    refine ⟨g', fun id hid => ?_, hsim'⟩
    exact (hold' id ((Table.grows_getOrCreate instances (⟨svc, inst.name⟩ : InstanceKey)).mem_ids hid)).trans
      (hold id hid)

/-- Import creates groups by key only. -/
theorem classGroups_made {groups : Table PropertyGroupRow} (klass : Class) :
    ∀ row ∈ (classGroups affinity svc groups klass).rows, row ∈ groups.rows ∨ ∃ l, row.2 = groupKeyed.make l := by
  refine classGroups_preserves (P := fun t => ∀ row ∈ t.rows, row ∈ groups.rows ∨ ∃ l, row.2 = groupKeyed.make l)
    ?_ (fun row hrow => Or.inl hrow) klass
  intro t k ht _ row hrow
  rcases Table.mem_getOrCreate t k row hrow with hrow | hmake
  · exact ht row hrow
  · exact Or.inr ⟨k, hmake⟩

theorem classInstances_made {instances : Table InstanceRow} (insts : List Instance) :
    ∀ row ∈ (classInstances svc instances insts).rows,
      row ∈ instances.rows ∨ ∃ l, row.2 = instanceKeyed.make l := by
  refine classInstances_preserves
    (P := fun t => ∀ row ∈ t.rows, row ∈ instances.rows ∨ ∃ l, row.2 = instanceKeyed.make l)
    ?_ (fun row hrow => Or.inl hrow) insts
  intro t name ht row hrow
  rcases Table.mem_getOrCreate t (⟨svc, name⟩ : InstanceKey) row hrow with hrow | hmake
  · exact ht row hrow
  · exact Or.inr ⟨⟨svc, name⟩, hmake⟩

variable {affinity svc}

mutual

/-- A property whose pages all have their groups adds none. -/
theorem propGroups_idem {find : GroupKey → Option Nat} {groups : Table PropertyGroupRow}
    (hfind : find = groups.lookup GroupKey.hit) {inst page : Nat} {prop : Property} {es : List Entry}
    (h : flattenProp affinity find svc inst page prop = some es) :
    propGroups affinity svc page groups prop = groups := by
  cases prop with
  | string key value => rfl
  | page key properties =>
    obtain ⟨pageID, hpage, members, hmembers, -⟩ := flattenProp_page_eq_some h
    rw [hfind] at hpage
    rw [propGroups, Table.getOrCreate_of_some hpage]
    exact propsGroups_idem hfind hmembers

theorem propsGroups_idem {find : GroupKey → Option Nat} {groups : Table PropertyGroupRow}
    (hfind : find = groups.lookup GroupKey.hit) {inst page : Nat} {props : List Property} {es : List Entry}
    (h : flattenProps affinity find svc inst page props = some es) :
    propsGroups affinity svc page groups props = groups := by
  cases props with
  | nil => rfl
  | cons prop rest =>
    obtain ⟨fs, hfs, gs, hgs, -⟩ := flattenProps_cons_eq_some h
    rw [propsGroups, propGroups_idem hfind hfs]
    exact propsGroups_idem hfind hgs

end

theorem classGroups_idem {groups : Table PropertyGroupRow} {findInst : InstanceKey → Option Nat} {klass : Class}
    {es : List Entry} (h : flattenClass affinity (groups.lookup GroupKey.hit) findInst svc klass = some es) :
    classGroups affinity svc groups klass = groups := by
  obtain ⟨fs, hfs, gs, hgs, -⟩ := flattenClass_eq_some h
  rw [classGroups, propsGroups_idem rfl hfs]
  generalize klass.instances = insts at hgs
  induction insts generalizing gs with
  | nil => rfl
  | cons inst rest ih =>
    obtain ⟨instId, -, fs', hfs', gs', hgs', -⟩ := flattenInstances_cons_eq_some hgs
    rw [instancesGroups, propsGroups_idem rfl hfs']
    exact ih gs' hgs'

theorem classInstances_idem {instances : Table InstanceRow} {find : GroupKey → Option Nat} {klass : Class}
    {es : List Entry} (h : flattenClass affinity find (instances.lookup InstanceKey.hit) svc klass = some es) :
    classInstances svc instances klass.instances = instances := by
  obtain ⟨-, -, gs, hgs, -⟩ := flattenClass_eq_some h
  generalize klass.instances = insts at hgs
  induction insts generalizing gs with
  | nil => rfl
  | cons inst rest ih =>
    obtain ⟨instId, hid, -, -, gs', hgs', -⟩ := flattenInstances_cons_eq_some hgs
    rw [classInstances, Table.getOrCreate_of_some hid]
    exact ih gs' hgs'

end

namespace Imported

variable {affinity : String → SqlValue} {layer layer' : Layer} {filename filename' : SqlValue} {klass klass' : Class}
  {r r' q q' : Repository} {svcId svcId' : Nat} {es fs : List Entry} {f : Equiv.Perm Nat}

/-- What was there before an import is part of what is there after it. -/
theorem groups_sim (h : Imported affinity layer filename klass r r' svcId es) (hfk : r.NoDangling) :
    groupKeyed.Sim (Equiv.refl Nat) r.propertyGroups r'.propertyGroups := by
  refine .of_grows ?_ h.grows_groups ?_
  · intro row hrow id hid
    exact hfk.groupGroup row hrow id (by simpa using hid)
  · rw [h.groups_eq]
    exact classGroups_made affinity svcId klass

theorem instances_sim (h : Imported affinity layer filename klass r r' svcId es) :
    instanceKeyed.Sim (Equiv.refl Nat) r.instances r'.instances := by
  refine .of_grows (fun _ _ _ hid => by cases hid) h.grows_instances ?_
  rw [h.instances_eq]
  exact classInstances_made svcId klass.instances

/-- Importing one class twice, into a repository and into one it is part of,
gives a result that is part of the other. -/
theorem sim_groups (h : Imported affinity layer filename klass r r' svcId es)
    (h' : Imported affinity layer' filename' klass q q' svcId fs)
    (hsim : groupKeyed.Sim f r.propertyGroups q.propertyGroups) :
    ∃ g : Equiv.Perm Nat, (∀ id ∈ r.propertyGroups.ids, g id = f id) ∧
      groupKeyed.Sim g r'.propertyGroups q'.propertyGroups := by
  rw [h.groups_eq, h'.groups_eq]
  exact classGroups_sim affinity svcId hsim klass

theorem sim_instances (h : Imported affinity layer filename klass r r' svcId es)
    (h' : Imported affinity layer' filename' klass q q' svcId fs)
    (hsim : instanceKeyed.Sim f r.instances q.instances) :
    ∃ g : Equiv.Perm Nat, (∀ id ∈ r.instances.ids, g id = f id) ∧
      instanceKeyed.Sim g r'.instances q'.instances := by
  rw [h.instances_eq, h'.instances_eq]
  exact classInstances_sim svcId hsim klass.instances

/-- Two imports of one class write the same entries, up to a renaming that takes
the groups and instances of the one result to those of the other. -/
theorem entries_rename {ρ : Renaming} (h : Imported affinity layer filename klass r r' svcId es)
    (h' : Imported affinity layer' filename' klass q q' svcId fs)
    (hgroups : groupKeyed.Sim ρ.group r'.propertyGroups q'.propertyGroups)
    (hinstances : instanceKeyed.Sim ρ.nst r'.instances q'.instances) : fs = es.map (Entry.rename ρ) := by
  have hes := flattenClass_rename (ρ := ρ) hgroups.lookup hinstances.lookup h.entries
  rw [h'.entries] at hes
  exact Option.some.inj hes

/-- The service of a class is the same in repositories with the same services. -/
theorem service_unique (h : Imported affinity layer filename klass r r' svcId es)
    (h' : Imported affinity layer' filename' klass q q' svcId' fs) (hservices : q.services = r.services) :
    svcId' = svcId := by
  have hsvc := h'.service
  rw [Repository.selectService, hservices, ← Repository.selectService, h.service] at hsvc
  exact (Option.some.inj hsvc).symm

end Imported

/-- The renaming exchanges the keys of two imports: those of the first `es` to be
written after `r` with those of the `fs` written next. -/
structure Exchanges (ρ : Renaming) (r : Repository) (es fs : List Entry) : Prop where
  bundle : ρ.bundle = exchange r.bundles.seq 1 1
  value : ρ.value = exchange r.propertyValues.seq es.length fs.length
  property : ρ.property = exchange r.properties.seq es.length fs.length

theorem Exchanges.fixes {ρ : Renaming} {r : Repository} {es fs : List Entry} (h : Exchanges ρ r es fs)
    (hnst : ∀ id ∈ r.instances.ids, ρ.nst id = id) (hgroup : ∀ id ∈ r.propertyGroups.ids, ρ.group id = id) :
    ρ.Fixes r where
  nst := hnst
  bundle id hid := by
    rw [h.bundle]
    exact exchange_of_le (Table.le_seq hid)
  property id hid := by
    rw [h.property]
    exact exchange_of_le (Table.le_seq hid)
  value id hid := by
    rw [h.value]
    exact exchange_of_le (Table.le_seq hid)
  group := hgroup

/-- The values of the entries of a bundle, moved to another block of ids. -/
theorem valueRows_rename {ρ : Renaming} {es : List Entry} {b b' s s' : Nat} (hbundle : ρ.bundle b = b')
    (hvalue : ∀ i < es.length, ρ.value (s + i) = s' + i) :
    ((es.map (Entry.valueRow b)).mapIdx fun i row => (s + i, row)).map
        (fun row => (ρ.value row.1, row.2.rename ρ)) =
      ((es.map (Entry.rename ρ)).map (Entry.valueRow b')).mapIdx fun i row => (s' + i, row) := by
  subst hbundle
  rw [map_inserted (by simpa using hvalue), List.map_map, List.map_map]
  congr 1
  exact List.map_congr_left fun e _ => (e.valueRow_rename ρ b).symm

/-- The properties of the entries of a bundle, moved to another block of ids. -/
theorem propertyRows_rename {ρ : Renaming} {es : List Entry} {s s' t t' : Nat}
    (hvalue : ∀ i < es.length, ρ.value (s + i) = s' + i)
    (hproperty : ∀ i < es.length, ρ.property (t + i) = t' + i) :
    ((es.mapIdx fun i e => e.parent.row (s + i)).mapIdx fun i row => (t + i, row)).map
        (fun row => (ρ.property row.1, row.2.rename ρ)) =
      ((es.map (Entry.rename ρ)).mapIdx fun i e => e.parent.row (s' + i)).mapIdx fun i row => (t' + i, row) := by
  rw [map_inserted (by simpa using hproperty)]
  congr 1
  apply List.ext_getElem
  · simp
  · intro i hi _
    simp only [List.length_map, List.length_mapIdx] at hi
    simp [Entry.rename, ← hvalue i hi]

end AddSys

end ServiceManager
