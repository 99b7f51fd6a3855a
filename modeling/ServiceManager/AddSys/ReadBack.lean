import ServiceManager.AddSys.Containers
import ServiceManager.AddSys.Simulation
import ServiceManager.Sql.Interleave

namespace ServiceManager

open Sql AddSys

namespace Repository

/-- The values of a bundle below a parent, in the order of the properties that
refer to them. -/
def readRows (r : Repository) (bundleID : Nat) (parent : PropertyParent) : List PropertyValueRow :=
  r.properties.rows.filterMap fun row =>
    if row.2.HasColumn parent then
      (r.propertyValues.get? row.2.fkPropertyValueID).filter fun val => val.fkBundleID = some bundleID
    else none

mutual

/-- The value reads as the property: a text, or a page whose members are the rows
of the bundle below the page's group. -/
def ReadsProp (r : Repository) (bundleID : Nat) (val : PropertyValueRow) : Property → Prop
  | .string key value => val.type = .string ∧ val.propertyKey = key ∧ val.stringValue = some value
  | .page key properties => val.type = .page ∧ val.propertyKey = key ∧
      ∃ groupID, val.fkPageValuePropertyGroupID = some groupID ∧
        r.ReadsProps bundleID (r.readRows bundleID (.group groupID)) properties

/-- The values read as the properties, one by one: none is missing, none is extra. -/
def ReadsProps (r : Repository) (bundleID : Nat) (vals : List PropertyValueRow) : List Property → Prop
  | [] => vals = []
  | prop :: rest => ∃ val vals', vals = val :: vals' ∧ r.ReadsProp bundleID val prop ∧
      r.ReadsProps bundleID vals' rest

end

/-- The rows of a bundle read as the class: the service's properties, those of
each instance, and nothing besides them and their pages. -/
structure ReadsBack (r : Repository) (bundleID svcId : Nat) (klass : AddSys.Class) : Prop where
  service : r.ReadsProps bundleID (r.readRows bundleID (.service svcId)) klass.properties
  nst : ∀ inst ∈ klass.instances, ∃ instId, r.instances.lookup InstanceKey.hit ⟨svcId, inst.name⟩ = some instId ∧
    r.ReadsProps bundleID (r.readRows bundleID (.nst instId)) inst.properties
  rooted : ∀ row ∈ r.properties.rows, ∀ val, (row.2.fkPropertyValueID, val) ∈ r.propertyValues.rows →
    val.fkBundleID = some bundleID →
      row.2.HasColumn (.service svcId) ∨
      (∃ inst ∈ klass.instances, ∃ instId, r.instances.lookup InstanceKey.hit ⟨svcId, inst.name⟩ = some instId ∧
        row.2.HasColumn (.nst instId)) ∨
      ∃ page ∈ r.propertyValues.rows, page.2.fkBundleID = some bundleID ∧
        ∃ groupID, page.2.fkPageValuePropertyGroupID = some groupID ∧ row.2.HasColumn (.group groupID)

theorem ReadsProps.length {r : Repository} {bundleID : Nat} {vals : List PropertyValueRow} {props : List Property}
    (h : r.ReadsProps bundleID vals props) : vals.length = props.length := by
  induction props generalizing vals with
  | nil =>
    simp only [ReadsProps] at h
    simp [h]
  | cons prop rest ih =>
    simp only [ReadsProps] at h
    obtain ⟨val, vals', rfl, -, hrest⟩ := h
    simp [ih hrest]

end Repository

/-- Nothing that a bundle is read back from refers to rows that are not there yet: no property
to a value that has yet to be inserted or that is already of the next bundle, and no group to a
group that has yet to be inserted. -/
structure Repository.NoForward (r : Repository) : Prop where
  property : ∀ row ∈ r.properties.rows, row.2.fkPropertyValueID ≤ r.propertyValues.seq
  bundle : ∀ row ∈ r.properties.rows, ∀ val, (row.2.fkPropertyValueID, val) ∈ r.propertyValues.rows →
    val.fkBundleID ≠ some r.bundles.nextId
  group : ∀ row ∈ r.propertyGroups.rows, ∀ id, row.2.fkParentPropertyGroupID = some id → id ≤ r.propertyGroups.seq

theorem Repository.NoDangling.noForward {r : Repository} (h : r.NoDangling) : r.NoForward where
  property row hrow := Table.le_seq (h.propertyValue row hrow)
  bundle _ _ _ hval heq := r.bundles.nextId_not_mem (h.valueBundle _ hval _ heq)
  group row hrow id hid := Table.le_seq (h.groupGroup row hrow id hid)

namespace AddSys

variable {affinity : String → SqlValue} {layer : Layer} {filename : SqlValue} {klass : Class}
  {r r' : Repository} {svcId : Nat} {es : List Entry}

theorem filterMap_mapIdx {α β γ : Type} {l : List α} {f : Nat → α → β} {g : β → Option γ} {h : α → Option γ}
    (hgf : ∀ i a, l[i]? = some a → g (f i a) = h a) : (l.mapIdx f).filterMap g = l.filterMap h := by
  induction l generalizing f with
  | nil => rfl
  | cons a l ih =>
    have htail := ih (f := fun i => f (i + 1)) fun i b hb => hgf (i + 1) b (by simpa using hb)
    rw [List.mapIdx_cons, List.filterMap_cons, List.filterMap_cons, hgf 0 a rfl, htail]

/-- Reading below a parent gives the values of the entries with that parent. -/
theorem Imported.readRows (h : Imported affinity layer filename klass r r' svcId es) (hfk : r.NoForward)
    (parent : PropertyParent) :
    r'.readRows r.bundles.nextId parent =
      (es.filter (fun e => e.parent = parent)).map (Entry.valueRow r.bundles.nextId) := by
  have hold : ((r.dropOldBundle filename).properties.rows).filterMap (fun row =>
      if row.2.HasColumn parent then (r'.propertyValues.get? row.2.fkPropertyValueID).filter
        (fun val => val.fkBundleID = some r.bundles.nextId) else none) = [] := by
    rw [List.filterMap_eq_nil_iff]
    intro row hrow
    split
    · rw [Option.filter_eq_none_iff]
      intro val hval
      have hmem := (Repository.mem_dropOldBundle_properties.mp hrow).1
      obtain ⟨hval', -⟩ := (h.mem_values_of_le (hfk.property row hmem)).mp (Table.get?_eq_some.mp hval)
      simpa using hfk.bundle row hmem val hval'
    · rfl
  rw [Repository.readRows, h.properties_eq, Table.rows_insertAll, List.filterMap_append, hold, List.nil_append,
    List.mapIdx_mapIdx]
  rw [filterMap_mapIdx (h := fun e => if e.parent = parent then some (e.valueRow r.bundles.nextId) else none)]
  · rw [← List.filterMap_eq_map, List.filterMap_filter]
    apply List.filterMap_congr
    intro e _
    simp
  · intro i e he
    have hget : r'.propertyValues.get? (r.propertyValues.seq + 1 + i) = some (e.valueRow r.bundles.nextId) :=
      Table.get?_eq_some.mpr (h.mem_values.mpr (Or.inr ⟨i, e, he, rfl, rfl⟩))
    simp [PropertyParent.hasColumn_row, hget, Option.filter_some]

section

variable {find : GroupKey → Option Nat} {b : Nat}

/-- The entries below the group of a page are those of the page's members. -/
def PageAlone (affinity : String → SqlValue) (find : GroupKey → Option Nat) (svcId : Nat) (es : List Entry)
    (c : Nat × List Property) : Prop :=
  es.filter (fun e => e.parent = .group c.1) = memberEntries affinity find svcId (.group c.1) c.1 c.2

/-- What is read below a parent is right when the entries there are those of the
list, and their pages are right. -/
theorem readsProps_readRows_iff
    (hread : ∀ parent, r.readRows b parent = (es.filter (fun e => e.parent = parent)).map (Entry.valueRow b))
    {page : Nat} {parent : PropertyParent} {props : List Property} {pages : Prop}
    (hself : (memberEntries affinity find svcId parent page props).Sublist es)
    (hpages : r.ReadsProps b ((memberEntries affinity find svcId parent page props).map (Entry.valueRow b)) props ↔
      pages) :
    r.ReadsProps b (r.readRows b parent) props ↔
      es.filter (fun e => e.parent = parent) = memberEntries affinity find svcId parent page props ∧ pages := by
  have hfilter : (memberEntries affinity find svcId parent page props).Sublist
      (es.filter fun e => e.parent = parent) := by
    have hsub := hself.filter (fun e => decide (e.parent = parent))
    rwa [List.filter_eq_self.mpr (by simp [memberEntries])] at hsub
  rw [hread, ← hpages]
  constructor
  · intro hreads
    have hlen := hreads.length
    rw [List.length_map] at hlen
    have halone := (hfilter.eq_of_length (by simp [memberEntries, hlen])).symm
    exact ⟨halone, halone ▸ hreads⟩
  · rintro ⟨halone, hreads⟩
    rwa [halone]

mutual

/-- A property reads back when each page in it is alone in its group. -/
theorem readsProp_iff
    (hread : ∀ parent, r.readRows b parent = (es.filter (fun e => e.parent = parent)).map (Entry.valueRow b))
    {page : Nat} (parent : PropertyParent) {prop : Property}
    (hsub : ∀ c ∈ propPages (pageGroup affinity find svcId) page prop,
      (memberEntries affinity find svcId (.group c.1) c.1 c.2).Sublist es) :
    r.ReadsProp b (Entry.valueRow b ⟨parent, prop.key, memberContent affinity find svcId page prop⟩) prop ↔
      ∀ c ∈ propPages (pageGroup affinity find svcId) page prop, PageAlone affinity find svcId es c := by
  cases prop with
  | string key value => simp [Repository.ReadsProp, Entry.valueRow, memberContent, Property.key, propPages]
  | page key properties =>
    rw [propPages, List.forall_mem_cons] at hsub ⊢
    set groupID := pageGroup affinity find svcId page key with hgroup
    have hval : r.ReadsProp b (Entry.valueRow b ⟨parent, key, .page groupID⟩) (.page key properties) ↔
        r.ReadsProps b (r.readRows b (.group groupID)) properties := by
      simp [Repository.ReadsProp, Entry.valueRow]
    change r.ReadsProp b (Entry.valueRow b ⟨parent, key, .page groupID⟩) (.page key properties) ↔ _
    rw [hval]
    exact readsProps_readRows_iff hread hsub.1 (readsProps_iff hread (.group groupID) hsub.2)

theorem readsProps_iff
    (hread : ∀ parent, r.readRows b parent = (es.filter (fun e => e.parent = parent)).map (Entry.valueRow b))
    {page : Nat} (parent : PropertyParent) {props : List Property}
    (hsub : ∀ c ∈ propsPages (pageGroup affinity find svcId) page props,
      (memberEntries affinity find svcId (.group c.1) c.1 c.2).Sublist es) :
    r.ReadsProps b ((memberEntries affinity find svcId parent page props).map (Entry.valueRow b)) props ↔
      ∀ c ∈ propsPages (pageGroup affinity find svcId) page props, PageAlone affinity find svcId es c := by
  cases props with
  | nil => simp [Repository.ReadsProps, memberEntries, propsPages]
  | cons prop rest =>
    rw [propsPages, List.forall_mem_append] at hsub ⊢
    rw [← readsProp_iff hread parent hsub.1, ← readsProps_iff hread parent hsub.2]
    simp only [Repository.ReadsProps, memberEntries, List.map_cons, List.cons.injEq]
    constructor
    · rintro ⟨val, vals, ⟨rfl, rfl⟩, hprop, hrest⟩
      exact ⟨hprop, hrest⟩
    · rintro ⟨hprop, hrest⟩
      exact ⟨_, _, ⟨rfl, rfl⟩, hprop, hrest⟩

end

end

section

variable {find : GroupKey → Option Nat} {findInst : InstanceKey → Option Nat} {b : Nat}

/-- The entries at the place of a container are the container's own. -/
def Container.Alone (affinity : String → SqlValue) (find : GroupKey → Option Nat)
    (findInst : InstanceKey → Option Nat) (svcId : Nat) (es : List Entry) (c : Container Nat × List Property) : Prop :=
  es.filter (fun e => e.parent = c.1.parent findInst svcId) = Container.entries affinity find findInst svcId c

/-- The containers are alone when no two of them, empty ones aside, have one place. -/
theorem ClassLaidOut.alone_iff {cs : List (Container Nat × List Property)}
    (h : ClassLaidOut affinity find findInst svcId cs es) :
    (∀ c ∈ cs, Container.Alone affinity find findInst svcId es c) ↔ cs.Pairwise fun c d =>
      c.1.parent findInst svcId = d.1.parent findInst svcId → c.2 = [] ∧ d.2 = [] := by
  have htag : ∀ c ∈ cs, ∀ e ∈ Container.entries affinity find findInst svcId c,
      e.parent = c.1.parent findInst svcId := by
    intro c _ e he
    obtain ⟨prop, -, rfl⟩ := List.mem_map.mp he
    rfl
  have hnil : ∀ c, Container.entries affinity find findInst svcId c = [] ↔ c.2 = [] := fun c => List.map_eq_nil_iff
  refine (filter_tag_eq_iff htag h.sublist h.perm).trans ?_
  simp only [hnil]

/-- The properties of the service or of an instance read back when they and their
pages are alone. -/
theorem readsTop_iff
    (hread : ∀ parent, r.readRows b parent = (es.filter (fun e => e.parent = parent)).map (Entry.valueRow b))
    {top : Container Nat} (htop : top.pageId = 0) {props : List Property}
    (hsub : ∀ c ∈ containersAt (pageGroup affinity find svcId) 0 top props,
      (Container.entries affinity find findInst svcId c).Sublist es) :
    r.ReadsProps b (r.readRows b (top.parent findInst svcId)) props ↔
      ∀ c ∈ containersAt (pageGroup affinity find svcId) 0 top props,
        Container.Alone affinity find findInst svcId es c := by
  rw [containersAt, List.forall_mem_cons, List.forall_mem_map] at hsub ⊢
  have hown : (memberEntries affinity find svcId (top.parent findInst svcId) 0 props).Sublist es := by
    have hsub := hsub.1
    rwa [Container.entries, htop] at hsub
  rw [readsProps_readRows_iff hread hown (readsProps_iff hread _ hsub.2), Container.Alone, Container.entries, htop]
  rfl

mutual

/-- An entry below a group belongs to the page the import started with, or the
entry of the group's page is there too. -/
theorem flattenProp_rooted {inst page : Nat} {prop : Property} {es : List Entry}
    (h : flattenProp affinity find svcId inst page prop = some es) :
    ∀ e ∈ es, e.parent = propertyParent svcId inst page ∨
      ∃ g, e.parent = propertyParent svcId inst g ∧ ∃ e' ∈ es, e'.content = .page g := by
  cases prop with
  | string key value =>
    simp only [flattenProp, Option.some.injEq] at h
    subst h
    simp
  | page key properties =>
    obtain ⟨pageID, hpage, members, hmembers, rfl⟩ := flattenProp_page_eq_some h
    intro e he
    rcases List.mem_append.mp he with he | he
    · rcases flattenProps_rooted hmembers e he with hparent | ⟨g, hparent, e', he', hcontent⟩
      · exact Or.inr ⟨pageID, hparent, _, List.mem_append_right _ (List.mem_singleton.mpr rfl), rfl⟩
      · exact Or.inr ⟨g, hparent, e', List.mem_append_left _ he', hcontent⟩
    · rw [List.mem_singleton] at he
      subst he
      exact Or.inl rfl

theorem flattenProps_rooted {inst page : Nat} {props : List Property} {es : List Entry}
    (h : flattenProps affinity find svcId inst page props = some es) :
    ∀ e ∈ es, e.parent = propertyParent svcId inst page ∨
      ∃ g, e.parent = propertyParent svcId inst g ∧ ∃ e' ∈ es, e'.content = .page g := by
  cases props with
  | nil =>
    simp only [flattenProps, Option.some.injEq] at h
    subst h
    simp
  | cons prop rest =>
    obtain ⟨fs, hfs, gs, hgs, rfl⟩ := flattenProps_cons_eq_some h
    intro e he
    rcases List.mem_append.mp he with he | he
    · rcases flattenProp_rooted hfs e he with hparent | ⟨g, hparent, e', he', hcontent⟩
      · exact Or.inl hparent
      · exact Or.inr ⟨g, hparent, e', List.mem_append_left _ he', hcontent⟩
    · rcases flattenProps_rooted hgs e he with hparent | ⟨g, hparent, e', he', hcontent⟩
      · exact Or.inl hparent
      · exact Or.inr ⟨g, hparent, e', List.mem_append_right _ he', hcontent⟩

end

/-- The places of the entries of a class. -/
inductive EntryPlace (findInst : InstanceKey → Option Nat) (svcId : Nat) (insts : List Instance) (es : List Entry) :
    PropertyParent → Prop
  | service : EntryPlace findInst svcId insts es (.service svcId)
  | nst {inst : Instance} {instId : Nat} (hinst : inst ∈ insts)
      (hid : findInst ⟨svcId, inst.name⟩ = some instId) : EntryPlace findInst svcId insts es (.nst instId)
  | page {e : Entry} {g : Nat} (he : e ∈ es) (hpage : e.content = .page g) :
      EntryPlace findInst svcId insts es (.group g)

theorem EntryPlace.mono {insts insts' : List Instance} {es es' : List Entry} (hinsts : ∀ inst ∈ insts, inst ∈ insts')
    (hes : ∀ e ∈ es, e ∈ es') {parent : PropertyParent} (h : EntryPlace findInst svcId insts es parent) :
    EntryPlace findInst svcId insts' es' parent := by
  cases h with
  | service => exact .service
  | nst hinst hid => exact .nst (hinsts _ hinst) hid
  | page he hpage => exact .page (hes _ he) hpage

theorem propertyParent_place {insts : List Instance} {es : List Entry} {inst page : Nat}
    (hinst : inst ≠ 0 → ∃ i ∈ insts, findInst ⟨svcId, i.name⟩ = some inst)
    (hpage : page ≠ 0 → ∃ e ∈ es, e.content = .page page) :
    EntryPlace findInst svcId insts es (propertyParent svcId inst page) := by
  unfold propertyParent
  split
  next hp =>
    obtain ⟨e, he, hcontent⟩ := hpage hp
    exact .page he hcontent
  next =>
    split
    next hi =>
      obtain ⟨i, hi, hid⟩ := hinst hi
      exact .nst hi hid
    next => exact .service

theorem flattenProps_place {insts : List Instance} {es : List Entry} {inst : Nat} {props : List Property}
    (hinst : inst ≠ 0 → ∃ i ∈ insts, findInst ⟨svcId, i.name⟩ = some inst)
    (h : flattenProps affinity find svcId inst 0 props = some es) :
    ∀ e ∈ es, EntryPlace findInst svcId insts es e.parent := by
  intro e he
  rcases flattenProps_rooted h e he with hparent | ⟨g, hparent, hpage⟩
  · rw [hparent]
    exact propertyParent_place hinst (by simp)
  · rw [hparent]
    exact propertyParent_place hinst fun _ => hpage

theorem flattenInstances_place {insts : List Instance} {es : List Entry}
    (h : flattenInstances affinity find findInst svcId insts = some es) :
    ∀ e ∈ es, EntryPlace findInst svcId insts es e.parent := by
  induction insts generalizing es with
  | nil =>
    simp only [flattenInstances, Option.some.injEq] at h
    subst h
    simp
  | cons inst rest ih =>
    obtain ⟨instId, hid, fs, hfs, gs, hgs, rfl⟩ := flattenInstances_cons_eq_some h
    intro e he
    rcases List.mem_append.mp he with he | he
    · have hplace : EntryPlace findInst svcId (inst :: rest) fs e.parent :=
        flattenProps_place (fun _ => ⟨inst, List.mem_cons_self .., hid⟩) hfs e he
      exact hplace.mono (fun _ h => h) fun _ => List.mem_append_left _
    · exact (ih hgs e he).mono (fun _ => List.mem_cons_of_mem _) fun _ => List.mem_append_right _

/-- Every entry of a class is below its service, one of its instances or one of
its pages. -/
theorem flattenClass_place {es : List Entry} (h : flattenClass affinity find findInst svcId klass = some es) :
    ∀ e ∈ es, EntryPlace findInst svcId klass.instances es e.parent := by
  obtain ⟨fs, hfs, gs, hgs, rfl⟩ := flattenClass_eq_some h
  intro e he
  rcases List.mem_append.mp he with he | he
  · have hplace : EntryPlace findInst svcId klass.instances fs e.parent := flattenProps_place (by simp) hfs e he
    exact hplace.mono (fun _ h => h) fun _ => List.mem_append_left _
  · exact (flattenInstances_place hgs e he).mono (fun _ h => h) fun _ => List.mem_append_right _

end

namespace Imported

variable (h : Imported affinity layer filename klass r r' svcId es) (hfk : r.NoForward)

include h hfk

/-- Nothing of the bundle is outside the trees of the class. -/
theorem rooted : ∀ row ∈ r'.properties.rows, ∀ val, (row.2.fkPropertyValueID, val) ∈ r'.propertyValues.rows →
    val.fkBundleID = some r.bundles.nextId →
      row.2.HasColumn (.service svcId) ∨
      (∃ inst ∈ klass.instances, ∃ instId, r'.instances.lookup InstanceKey.hit ⟨svcId, inst.name⟩ = some instId ∧
        row.2.HasColumn (.nst instId)) ∨
      ∃ page ∈ r'.propertyValues.rows, page.2.fkBundleID = some r.bundles.nextId ∧
        ∃ groupID, page.2.fkPageValuePropertyGroupID = some groupID ∧ row.2.HasColumn (.group groupID) := by
  rintro ⟨id, row⟩ hrow val hval hbundle
  rcases h.mem_properties.mp hrow with ⟨hold, -⟩ | ⟨i, e, he, -, rfl⟩
  · obtain ⟨hval', -⟩ := (h.mem_values_of_le (hfk.property _ hold)).mp hval
    exact absurd hbundle (hfk.bundle _ hold val hval')
  · simp only [PropertyParent.hasColumn_row]
    have hplace := flattenClass_place h.entries e (List.mem_of_getElem? he)
    generalize e.parent = parent at hplace
    cases hplace with
    | service => exact Or.inl rfl
    | nst hinst hid => exact Or.inr (Or.inl ⟨_, hinst, _, hid, rfl⟩)
    | page hpage hcontent =>
      rename_i page groupID
      obtain ⟨j, hj⟩ := List.mem_iff_getElem?.mp hpage
      have hrow' : (r.propertyValues.seq + 1 + j, page.valueRow r.bundles.nextId) ∈ r'.propertyValues.rows :=
        h.mem_values.mpr (Or.inr ⟨j, page, hj, rfl, rfl⟩)
      refine Or.inr (Or.inr ⟨_, hrow', page.valueRow_bundle _, groupID, ?_, rfl⟩)
      simp [Entry.valueRow, hcontent]

/-- The class reads back when each of its containers is alone at its place. -/
theorem readsBack_iff : r'.ReadsBack r.bundles.nextId svcId klass ↔
    ∀ c ∈ classContainers (pageGroup affinity (r'.propertyGroups.lookup GroupKey.hit) svcId) 0 klass,
      Container.Alone affinity (r'.propertyGroups.lookup GroupKey.hit) (r'.instances.lookup InstanceKey.hit)
        svcId es c := by
  have hlaid := flattenClass_laidOut (fun _ _ => Table.lookup_ne_zero) (fun _ _ => Table.lookup_ne_zero) h.entries
  have hread := h.readRows hfk
  have hfound := flattenClass_found h.entries
  have hsub := hlaid.sublist
  rw [classContainers, List.forall_mem_append, List.forall_mem_flatMap] at hsub ⊢
  have hparent : ∀ {name : String} {instId : Nat},
      r'.instances.lookup InstanceKey.hit ⟨svcId, name⟩ = some instId →
      (Container.nst name).parent (r'.instances.lookup InstanceKey.hit) svcId = .nst instId := by
    intro name instId hid
    rw [Container.parent, hid]
    rfl
  constructor
  · intro hback
    refine ⟨(readsTop_iff hread rfl hsub.1).mp hback.service, ?_⟩
    intro inst hinst
    obtain ⟨instId, hid, hreads⟩ := hback.nst inst hinst
    rw [← hparent hid] at hreads
    exact (readsTop_iff hread rfl (hsub.2 inst hinst)).mp hreads
  · rintro ⟨hservice, hnst⟩
    refine ⟨(readsTop_iff hread rfl hsub.1).mpr hservice, ?_, h.rooted hfk⟩
    intro inst hinst
    obtain ⟨instId, hid⟩ := hfound inst hinst
    refine ⟨instId, hid, ?_⟩
    rw [← hparent hid]
    exact (readsTop_iff hread rfl (hsub.2 inst hinst)).mpr (hnst inst hinst)

/-- The class reads back when no two of its containers, empty ones aside, are put
at one place. -/
theorem readsBack_iff_pairwise : r'.ReadsBack r.bundles.nextId svcId klass ↔
    (classContainers (pageGroup affinity (r'.propertyGroups.lookup GroupKey.hit) svcId) 0 klass).Pairwise fun c d =>
      c.1.parent (r'.instances.lookup InstanceKey.hit) svcId =
        d.1.parent (r'.instances.lookup InstanceKey.hit) svcId → c.2 = [] ∧ d.2 = [] := by
  rw [h.readsBack_iff hfk]
  exact (flattenClass_laidOut (fun _ _ => Table.lookup_ne_zero) (fun _ _ => Table.lookup_ne_zero) h.entries).alone_iff

end Imported

end AddSys

end ServiceManager
