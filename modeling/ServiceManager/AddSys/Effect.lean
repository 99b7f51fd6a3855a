import ServiceManager.AddSys.Import
import ServiceManager.Repository.Renaming

namespace ServiceManager

open Sql

namespace AddSys

/-- What a property row leads to: a text, or the property group of a page. -/
inductive Content where
  | string (value : String)
  | page (groupID : Nat)
  deriving DecidableEq

/-- One property of a class as import writes it, with its parent resolved. -/
structure Entry where
  parent : PropertyParent
  key : String
  content : Content
  deriving DecidableEq

def Entry.valueRow (bundleID : Nat) (e : Entry) : PropertyValueRow :=
  match e.content with
  | .string value => ⟨some bundleID, .string, e.key, some value, none⟩
  | .page groupID => ⟨some bundleID, .page, e.key, none, some groupID⟩

@[simp] theorem Entry.valueRow_bundle (bundleID : Nat) (e : Entry) :
    (e.valueRow bundleID).fkBundleID = some bundleID := by
  obtain ⟨parent, key, content⟩ := e
  cases content <;> rfl

@[simp] theorem Entry.valueRow_key (bundleID : Nat) (e : Entry) : (e.valueRow bundleID).propertyKey = e.key := by
  obtain ⟨parent, key, content⟩ := e
  cases content <;> rfl

def Content.rename (f : Nat → Nat) : Content → Content
  | .string value => .string value
  | .page groupID => .page (f groupID)

def Entry.rename (ρ : Renaming) (e : Entry) : Entry where
  parent := e.parent.rename ρ
  key := e.key
  content := e.content.rename ρ.group

@[simp] theorem Entry.valueRow_rename (ρ : Renaming) (bundleID : Nat) (e : Entry) :
    (e.rename ρ).valueRow (ρ.bundle bundleID) = (e.valueRow bundleID).rename ρ := by
  obtain ⟨parent, key, content⟩ := e
  cases content <;> rfl

@[simp] theorem map_rename_refl (es : List Entry) : es.map (Entry.rename Renaming.refl) = es := by
  refine (List.map_congr_left ?_).trans (List.map_id es)
  rintro ⟨parent, key, content⟩ _
  cases content <;> simp [Entry.rename, Content.rename]

end AddSys

open AddSys

namespace Repository

/-- A value and the property that refers to it. -/
def addEntry (r : Repository) (bundleID : Nat) (e : Entry) : Repository :=
  { r with
    propertyValues := r.propertyValues.insert (e.valueRow bundleID)
    properties := r.properties.insert (e.parent.row r.propertyValues.nextId) }

def addEntries (r : Repository) (bundleID : Nat) : List Entry → Repository
  | [] => r
  | e :: es => (r.addEntry bundleID e).addEntries bundleID es

theorem addEntries_append (r : Repository) (bundleID : Nat) (es fs : List Entry) :
    r.addEntries bundleID (es ++ fs) = (r.addEntries bundleID es).addEntries bundleID fs := by
  induction es generalizing r with
  | nil => rfl
  | cons e es ih => exact ih (r.addEntry bundleID e)

/-- Entries touch PropertyValues and Properties only. The property of the `i`-th
entry refers to the `i`-th value. -/
theorem addEntries_eq (r : Repository) (bundleID : Nat) (es : List Entry) :
    r.addEntries bundleID es =
      { r with
        propertyValues := r.propertyValues.insertAll (es.map (Entry.valueRow bundleID))
        properties := r.properties.insertAll
          (es.mapIdx fun i e => e.parent.row (r.propertyValues.seq + 1 + i)) } := by
  induction es generalizing r with
  | nil => rfl
  | cons e es ih =>
    have hkey : ∀ i, r.propertyValues.seq + 1 + 1 + i = r.propertyValues.seq + 1 + (i + 1) := by omega
    simp [addEntries, ih, addEntry, Table.nextId, hkey]

@[simp] theorem addEntries_groups (r : Repository) (bundleID : Nat) (es : List Entry) :
    (r.addEntries bundleID es).propertyGroups = r.propertyGroups := by
  rw [addEntries_eq]

@[simp] theorem addEntries_instances (r : Repository) (bundleID : Nat) (es : List Entry) :
    (r.addEntries bundleID es).instances = r.instances := by
  rw [addEntries_eq]

theorem addEntries_with_groups (r : Repository) (bundleID : Nat) (es : List Entry)
    (groups : Table PropertyGroupRow) :
    { r.addEntries bundleID es with propertyGroups := groups } =
      ({ r with propertyGroups := groups } : Repository).addEntries bundleID es := by
  simp [addEntries_eq]

theorem addEntries_with_tables (r : Repository) (bundleID : Nat) (es : List Entry)
    (instances : Table InstanceRow) (groups : Table PropertyGroupRow) :
    { r.addEntries bundleID es with instances := instances, propertyGroups := groups } =
      ({ r with instances := instances, propertyGroups := groups } : Repository).addEntries bundleID es := by
  simp [addEntries_eq]

end Repository

namespace AddSys

section

variable (affinity : String → SqlValue)

mutual

/-- The PropertyGroups table after a property is imported. -/
def propGroups (parentSvcId parentPageId : Nat) (groups : Table PropertyGroupRow) :
    Property → Table PropertyGroupRow
  | .string _ _ => groups
  | .page key properties =>
    let got := groups.getOrCreate GroupKey.hit GroupKey.row ⟨groupParent parentSvcId parentPageId, affinity key⟩
    propsGroups parentSvcId got.1 got.2 properties

def propsGroups (parentSvcId parentPageId : Nat) (groups : Table PropertyGroupRow) :
    List Property → Table PropertyGroupRow
  | [] => groups
  | prop :: rest => propsGroups parentSvcId parentPageId (propGroups parentSvcId parentPageId groups prop) rest

end

section

-- `find` is how pages find their group; flattening fails where it finds none.
variable (find : GroupKey → Option Nat)

mutual

/-- The entries of a property, in the order import writes them: the members of a
page before the page. -/
def flattenProp (parentSvcId parentInstId parentPageId : Nat) : Property → Option (List Entry)
  | .string key value => some [⟨propertyParent parentSvcId parentInstId parentPageId, key, .string value⟩]
  | .page key properties =>
    (find ⟨groupParent parentSvcId parentPageId, affinity key⟩).bind fun pageID =>
      (flattenProps parentSvcId parentInstId pageID properties).map fun members =>
        members ++ [⟨propertyParent parentSvcId parentInstId parentPageId, key, .page pageID⟩]

def flattenProps (parentSvcId parentInstId parentPageId : Nat) : List Property → Option (List Entry)
  | [] => some []
  | prop :: rest =>
    (flattenProp parentSvcId parentInstId parentPageId prop).bind fun es =>
      (flattenProps parentSvcId parentInstId parentPageId rest).map fun fs => es ++ fs

end

end

/-- The PropertyGroups table after the instances of a class are imported. -/
def instancesGroups (svcId : Nat) (groups : Table PropertyGroupRow) : List Instance → Table PropertyGroupRow
  | [] => groups
  | inst :: rest => instancesGroups svcId (propsGroups affinity svcId 0 groups inst.properties) rest

def classGroups (svcId : Nat) (groups : Table PropertyGroupRow) (klass : Class) : Table PropertyGroupRow :=
  instancesGroups affinity svcId (propsGroups affinity svcId 0 groups klass.properties) klass.instances

/-- The Instances table after the instances of a class are imported. -/
def classInstances (svcId : Nat) (instances : Table InstanceRow) : List Instance → Table InstanceRow
  | [] => instances
  | inst :: rest =>
    classInstances svcId (instances.getOrCreate InstanceKey.hit InstanceKey.row ⟨svcId, inst.name⟩).2 rest

/-- The entries of a class's instances, given how an instance finds its row. -/
def flattenInstances (find : GroupKey → Option Nat) (findInst : InstanceKey → Option Nat) (svcId : Nat) :
    List Instance → Option (List Entry)
  | [] => some []
  | inst :: rest =>
    (findInst ⟨svcId, inst.name⟩).bind fun instId =>
      (flattenProps affinity find svcId instId 0 inst.properties).bind fun es =>
        (flattenInstances find findInst svcId rest).map fun fs => es ++ fs

def flattenClass (find : GroupKey → Option Nat) (findInst : InstanceKey → Option Nat) (svcId : Nat)
    (klass : Class) : Option (List Entry) :=
  (flattenProps affinity find svcId 0 0 klass.properties).bind fun es =>
    (flattenInstances affinity find findInst svcId klass.instances).map fun fs => es ++ fs

variable {affinity}

section Inversion

variable {find : GroupKey → Option Nat} {findInst : InstanceKey → Option Nat} {svcId inst page : Nat} {es : List Entry}

theorem flattenProp_page_eq_some {key : String} {properties : List Property}
    (h : flattenProp affinity find svcId inst page (.page key properties) = some es) :
    ∃ pageID, find ⟨groupParent svcId page, affinity key⟩ = some pageID ∧
      ∃ members, flattenProps affinity find svcId inst pageID properties = some members ∧
        members ++ [⟨propertyParent svcId inst page, key, .page pageID⟩] = es := by
  simpa only [flattenProp, Option.bind_eq_some_iff, Option.map_eq_some_iff] using h

theorem flattenProps_cons_eq_some {prop : Property} {rest : List Property}
    (h : flattenProps affinity find svcId inst page (prop :: rest) = some es) :
    ∃ fs, flattenProp affinity find svcId inst page prop = some fs ∧
      ∃ gs, flattenProps affinity find svcId inst page rest = some gs ∧ fs ++ gs = es := by
  simpa only [flattenProps, Option.bind_eq_some_iff, Option.map_eq_some_iff] using h

theorem flattenInstances_cons_eq_some {nst : Instance} {rest : List Instance}
    (h : flattenInstances affinity find findInst svcId (nst :: rest) = some es) :
    ∃ instId, findInst ⟨svcId, nst.name⟩ = some instId ∧
      ∃ fs, flattenProps affinity find svcId instId 0 nst.properties = some fs ∧
        ∃ gs, flattenInstances affinity find findInst svcId rest = some gs ∧ fs ++ gs = es := by
  simpa only [flattenInstances, Option.bind_eq_some_iff, Option.map_eq_some_iff] using h

theorem flattenClass_eq_some {klass : Class} (h : flattenClass affinity find findInst svcId klass = some es) :
    ∃ fs, flattenProps affinity find svcId 0 0 klass.properties = some fs ∧
      ∃ gs, flattenInstances affinity find findInst svcId klass.instances = some gs ∧ fs ++ gs = es := by
  simpa only [flattenClass, Option.bind_eq_some_iff, Option.map_eq_some_iff] using h

end Inversion

mutual

theorem grows_propGroups (svc page : Nat) (groups : Table PropertyGroupRow) (prop : Property) :
    groups.Grows (propGroups affinity svc page groups prop) := by
  cases prop with
  | string key value => exact Table.Grows.refl groups
  | page key properties =>
    exact (Table.grows_getOrCreate groups _).trans (grows_propsGroups svc _ _ properties)

theorem grows_propsGroups (svc page : Nat) (groups : Table PropertyGroupRow) (props : List Property) :
    groups.Grows (propsGroups affinity svc page groups props) := by
  cases props with
  | nil => exact Table.Grows.refl groups
  | cons prop rest => exact (grows_propGroups svc page groups prop).trans (grows_propsGroups svc page _ rest)

end

theorem grows_instancesGroups (svc : Nat) (groups : Table PropertyGroupRow) (insts : List Instance) :
    groups.Grows (instancesGroups affinity svc groups insts) := by
  induction insts generalizing groups with
  | nil => exact Table.Grows.refl groups
  | cons inst rest ih => exact (grows_propsGroups svc 0 groups inst.properties).trans (ih _)

theorem grows_classGroups (svc : Nat) (groups : Table PropertyGroupRow) (klass : Class) :
    groups.Grows (classGroups affinity svc groups klass) :=
  (grows_propsGroups svc 0 groups klass.properties).trans (grows_instancesGroups svc _ klass.instances)

theorem grows_classInstances (svc : Nat) (instances : Table InstanceRow) (insts : List Instance) :
    instances.Grows (classInstances svc instances insts) := by
  induction insts generalizing instances with
  | nil => exact Table.Grows.refl instances
  | cons inst rest ih => exact (Table.grows_getOrCreate instances _).trans (ih _)

/-- A parent that a page of the service can have: the service or an existing group. -/
def ParentWithin (svc : Nat) (groups : Table PropertyGroupRow) : GroupParent → Prop
  | .service id => id = svc
  | .group id => id ∈ groups.ids

theorem groupParent_within (svc : Nat) {page : Nat} {groups : Table PropertyGroupRow}
    (hpage : page = 0 ∨ page ∈ groups.ids) :
    ParentWithin svc groups (groupParent svc page) := by
  rcases hpage with rfl | hpage
  · rfl
  · have hne : page ≠ 0 := Nat.pos_iff_ne_zero.mp (Table.id_pos hpage)
    simpa [groupParent, hne, ParentWithin] using hpage

/-- Getting or creating a group of the service keeps `P`. -/
def GroupStepPreserves (svc : Nat) (P : Table PropertyGroupRow → Prop) : Prop :=
  ∀ groups k, P groups → ParentWithin svc groups k.parent →
    P (groups.getOrCreate GroupKey.hit GroupKey.row k).2

section

variable {P : Table PropertyGroupRow → Prop} {svc : Nat}

mutual

theorem propGroups_preserves (hstep : GroupStepPreserves svc P) {page : Nat} {groups : Table PropertyGroupRow}
    (hpage : page = 0 ∨ page ∈ groups.ids) (h : P groups) (prop : Property) :
    P (propGroups affinity svc page groups prop) := by
  cases prop with
  | string key value => exact h
  | page key properties =>
    refine propsGroups_preserves hstep ?_ (hstep groups ⟨_, affinity key⟩ h (groupParent_within svc hpage)) properties
    exact Or.inr (Table.lookup_mem_ids (Table.lookup_getOrCreate (GroupKey.hit_row.mpr rfl)))

theorem propsGroups_preserves (hstep : GroupStepPreserves svc P) {page : Nat} {groups : Table PropertyGroupRow}
    (hpage : page = 0 ∨ page ∈ groups.ids) (h : P groups) (props : List Property) :
    P (propsGroups affinity svc page groups props) := by
  cases props with
  | nil => exact h
  | cons prop rest =>
    refine propsGroups_preserves hstep ?_ (propGroups_preserves hstep hpage h prop) rest
    exact hpage.imp_right (grows_propGroups svc page groups prop).mem_ids

end

theorem instancesGroups_preserves (hstep : GroupStepPreserves svc P) {groups : Table PropertyGroupRow} (h : P groups)
    (insts : List Instance) :
    P (instancesGroups affinity svc groups insts) := by
  induction insts generalizing groups with
  | nil => exact h
  | cons inst rest ih => exact ih (propsGroups_preserves hstep (Or.inl rfl) h inst.properties)

/-- What getting or creating one group keeps, the import of a class keeps. -/
theorem classGroups_preserves (hstep : GroupStepPreserves svc P) {groups : Table PropertyGroupRow} (h : P groups)
    (klass : Class) :
    P (classGroups affinity svc groups klass) :=
  instancesGroups_preserves hstep (propsGroups_preserves hstep (Or.inl rfl) h klass.properties) klass.instances

end

theorem classInstances_preserves {P : Table InstanceRow → Prop} {svc : Nat}
    (hstep : ∀ instances name, P instances →
      P (instances.getOrCreate InstanceKey.hit InstanceKey.row ⟨svc, name⟩).2)
    {instances : Table InstanceRow} (h : P instances) (insts : List Instance) :
    P (classInstances svc instances insts) := by
  induction insts generalizing instances with
  | nil => exact h
  | cons inst rest ih => exact ih (hstep instances inst.name h)

theorem groupParent_rename (ρ : Renaming) (svc page : Nat) :
    groupParent svc (ρ.group page) = (groupParent svc page).rename ρ.group := by
  simp only [groupParent, ne_eq, ρ.group_eq_zero]
  split <;> rfl

theorem propertyParent_rename (ρ : Renaming) (svc inst page : Nat) :
    propertyParent svc (ρ.nst inst) (ρ.group page) = (propertyParent svc inst page).rename ρ := by
  simp only [propertyParent, ne_eq, ρ.group_eq_zero, ρ.nst_eq_zero]
  split
  · rfl
  · split <;> rfl

section

variable {ρ : Renaming} {find find' : GroupKey → Option Nat}

mutual

/-- A renaming that takes what `find` finds to what `find'` finds takes the
entries under `find` to those under `find'`. -/
theorem flattenProp_rename
    (hfind : ∀ k id, find k = some id → find' (k.rename ρ.group) = some (ρ.group id))
    {svc inst page : Nat} {prop : Property} {es : List Entry}
    (h : flattenProp affinity find svc inst page prop = some es) :
    flattenProp affinity find' svc (ρ.nst inst) (ρ.group page) prop = some (es.map (Entry.rename ρ)) := by
  cases prop with
  | string key value =>
    simp only [flattenProp, Option.some.injEq] at h
    subst h
    simp [flattenProp, propertyParent_rename, Entry.rename, Content.rename]
  | page key properties =>
    obtain ⟨pageID, hpage, members, hmembers, rfl⟩ := flattenProp_page_eq_some h
    have hpage' := hfind _ _ hpage
    simp only [GroupKey.rename, ← groupParent_rename] at hpage'
    simp [flattenProp, hpage', flattenProps_rename hfind hmembers, propertyParent_rename, Entry.rename,
      Content.rename]

theorem flattenProps_rename
    (hfind : ∀ k id, find k = some id → find' (k.rename ρ.group) = some (ρ.group id))
    {svc inst page : Nat} {props : List Property} {es : List Entry}
    (h : flattenProps affinity find svc inst page props = some es) :
    flattenProps affinity find' svc (ρ.nst inst) (ρ.group page) props = some (es.map (Entry.rename ρ)) := by
  cases props with
  | nil =>
    simp only [flattenProps, Option.some.injEq] at h
    subst h
    rfl
  | cons prop rest =>
    obtain ⟨fs, hfs, gs, hgs, rfl⟩ := flattenProps_cons_eq_some h
    simp [flattenProps, flattenProp_rename hfind hfs, flattenProps_rename hfind hgs]

end

variable {findInst findInst' : InstanceKey → Option Nat}

theorem flattenInstances_rename
    (hfind : ∀ k id, find k = some id → find' (k.rename ρ.group) = some (ρ.group id))
    (hinst : ∀ k id, findInst k = some id → findInst' k = some (ρ.nst id))
    {svc : Nat} {insts : List Instance} {es : List Entry}
    (h : flattenInstances affinity find findInst svc insts = some es) :
    flattenInstances affinity find' findInst' svc insts = some (es.map (Entry.rename ρ)) := by
  induction insts generalizing es with
  | nil =>
    simp only [flattenInstances, Option.some.injEq] at h
    subst h
    rfl
  | cons inst rest ih =>
    obtain ⟨instId, hid, fs, hfs, gs, hgs, rfl⟩ := flattenInstances_cons_eq_some h
    have hfs' := flattenProps_rename hfind hfs
    rw [ρ.group_zero] at hfs'
    simp [flattenInstances, hinst _ _ hid, hfs', ih hgs]

theorem flattenClass_rename
    (hfind : ∀ k id, find k = some id → find' (k.rename ρ.group) = some (ρ.group id))
    (hinst : ∀ k id, findInst k = some id → findInst' k = some (ρ.nst id))
    {svc : Nat} {klass : Class} {es : List Entry}
    (h : flattenClass affinity find findInst svc klass = some es) :
    flattenClass affinity find' findInst' svc klass = some (es.map (Entry.rename ρ)) := by
  obtain ⟨fs, hfs, gs, hgs, rfl⟩ := flattenClass_eq_some h
  have hfs' := flattenProps_rename hfind hfs
  rw [ρ.group_zero, ρ.nst_zero] at hfs'
  simp [flattenClass, hfs', flattenInstances_rename hfind hinst hgs]

theorem lookup_refl {groups groups' : Table PropertyGroupRow} (hgrows : groups.Grows groups') :
    ∀ k id, groups.lookup GroupKey.hit k = some id →
      groups'.lookup GroupKey.hit (k.rename Renaming.refl.group) = some (Renaming.refl.group id) := by
  intro k id hk
  have hkey : k.rename Renaming.refl.group = k := GroupKey.rename_id k
  rw [hkey]
  exact hgrows.lookup hk

/-- Pages keep their groups when the table grows. -/
theorem flattenProps_grows {groups groups' : Table PropertyGroupRow} (hgrows : groups.Grows groups')
    {svc inst page : Nat} {props : List Property} {es : List Entry}
    (h : flattenProps affinity (groups.lookup GroupKey.hit) svc inst page props = some es) :
    flattenProps affinity (groups'.lookup GroupKey.hit) svc inst page props = some es := by
  have h' := flattenProps_rename (ρ := Renaming.refl)
    (lookup_refl hgrows) h
  simpa using h'

theorem flattenProp_grows {groups groups' : Table PropertyGroupRow} (hgrows : groups.Grows groups')
    {svc inst page : Nat} {prop : Property} {es : List Entry}
    (h : flattenProp affinity (groups.lookup GroupKey.hit) svc inst page prop = some es) :
    flattenProp affinity (groups'.lookup GroupKey.hit) svc inst page prop = some es := by
  have h' := flattenProp_rename (ρ := Renaming.refl)
    (lookup_refl hgrows) h
  simpa using h'

theorem flattenInstances_grows {groups groups' : Table PropertyGroupRow} (hgrows : groups.Grows groups')
    {instances instances' : Table InstanceRow} (hgrows' : instances.Grows instances')
    {svc : Nat} {insts : List Instance} {es : List Entry}
    (h : flattenInstances affinity (groups.lookup GroupKey.hit) (instances.lookup InstanceKey.hit) svc insts =
      some es) :
    flattenInstances affinity (groups'.lookup GroupKey.hit) (instances'.lookup InstanceKey.hit) svc insts =
      some es := by
  have h' := flattenInstances_rename (ρ := Renaming.refl)
    (lookup_refl hgrows) (fun k id hk => hgrows'.lookup hk) h
  simpa using h'

theorem flattenClass_grows {groups groups' : Table PropertyGroupRow} (hgrows : groups.Grows groups')
    {instances instances' : Table InstanceRow} (hgrows' : instances.Grows instances')
    {svc : Nat} {klass : Class} {es : List Entry}
    (h : flattenClass affinity (groups.lookup GroupKey.hit) (instances.lookup InstanceKey.hit) svc klass =
      some es) :
    flattenClass affinity (groups'.lookup GroupKey.hit) (instances'.lookup InstanceKey.hit) svc klass = some es := by
  simp only [flattenClass, Option.bind_eq_some_iff, Option.map_eq_some_iff] at h ⊢
  obtain ⟨fs, hfs, gs, hgs, rfl⟩ := h
  exact ⟨fs, flattenProps_grows hgrows hfs, gs, flattenInstances_grows hgrows hgrows' hgs, rfl⟩

/-- The entry's parent exists, and so does the group of a page entry. -/
structure Entry.Within (svc : Nat) (instances : Table InstanceRow) (groups : Table PropertyGroupRow) (e : Entry) :
    Prop where
  service : ∀ id, e.parent = .service id → id = svc
  nst : ∀ id, e.parent = .nst id → id ∈ instances.ids
  group : ∀ id, e.parent = .group id → id ∈ groups.ids
  page : ∀ id, e.content = .page id → id ∈ groups.ids

theorem entry_within {svc inst page : Nat} {instances : Table InstanceRow} {groups : Table PropertyGroupRow}
    (hinst : inst = 0 ∨ inst ∈ instances.ids) (hpage : page = 0 ∨ page ∈ groups.ids) (key : String)
    {content : Content} (hcontent : ∀ id, content = .page id → id ∈ groups.ids) :
    Entry.Within svc instances groups ⟨propertyParent svc inst page, key, content⟩ := by
  by_cases hp : page = 0
  · by_cases hi : inst = 0
    · constructor <;> simp_all [propertyParent]
    · have := hinst.resolve_left hi
      constructor <;> simp_all [propertyParent]
  · have := hpage.resolve_left hp
    constructor <;> simp_all [propertyParent]

section

variable {svc inst : Nat} {instances : Table InstanceRow} {groups : Table PropertyGroupRow}

mutual

/-- The entries of a property refer to what is there. -/
theorem flattenProp_within (hinst : inst = 0 ∨ inst ∈ instances.ids) {page : Nat}
    (hpage : page = 0 ∨ page ∈ groups.ids) {prop : Property} {es : List Entry}
    (h : flattenProp affinity (groups.lookup GroupKey.hit) svc inst page prop = some es) :
    ∀ e ∈ es, Entry.Within svc instances groups e := by
  cases prop with
  | string key value =>
    simp only [flattenProp, Option.some.injEq] at h
    subst h
    intro e he
    rw [List.mem_singleton] at he
    subst he
    exact entry_within hinst hpage key (by simp)
  | page key properties =>
    obtain ⟨pageID, hfound, members, hmembers, rfl⟩ := flattenProp_page_eq_some h
    have hid := Table.lookup_mem_ids hfound
    intro e he
    rcases List.mem_append.mp he with he | he
    · exact flattenProps_within hinst (Or.inr hid) hmembers e he
    · rw [List.mem_singleton] at he
      subst he
      exact entry_within hinst hpage key (by rintro id ⟨⟩; exact hid)

theorem flattenProps_within (hinst : inst = 0 ∨ inst ∈ instances.ids) {page : Nat}
    (hpage : page = 0 ∨ page ∈ groups.ids) {props : List Property} {es : List Entry}
    (h : flattenProps affinity (groups.lookup GroupKey.hit) svc inst page props = some es) :
    ∀ e ∈ es, Entry.Within svc instances groups e := by
  cases props with
  | nil =>
    simp only [flattenProps, Option.some.injEq] at h
    subst h
    simp
  | cons prop rest =>
    obtain ⟨fs, hfs, gs, hgs, rfl⟩ := flattenProps_cons_eq_some h
    intro e he
    rcases List.mem_append.mp he with he | he
    · exact flattenProp_within hinst hpage hfs e he
    · exact flattenProps_within hinst hpage hgs e he

end

theorem flattenInstances_within {insts : List Instance} {es : List Entry}
    (h : flattenInstances affinity (groups.lookup GroupKey.hit) (instances.lookup InstanceKey.hit) svc insts =
      some es) : ∀ e ∈ es, Entry.Within svc instances groups e := by
  induction insts generalizing es with
  | nil =>
    simp only [flattenInstances, Option.some.injEq] at h
    subst h
    simp
  | cons inst rest ih =>
    obtain ⟨instId, hid, fs, hfs, gs, hgs, rfl⟩ := flattenInstances_cons_eq_some h
    intro e he
    rcases List.mem_append.mp he with he | he
    · exact flattenProps_within (Or.inr (Table.lookup_mem_ids hid)) (Or.inl rfl) hfs e he
    · exact ih hgs e he

/-- The entries of a class refer to rows that exist. -/
theorem flattenClass_within {klass : Class} {es : List Entry}
    (h : flattenClass affinity (groups.lookup GroupKey.hit) (instances.lookup InstanceKey.hit) svc klass =
      some es) : ∀ e ∈ es, Entry.Within svc instances groups e := by
  obtain ⟨fs, hfs, gs, hgs, rfl⟩ := flattenClass_eq_some h
  intro e he
  rcases List.mem_append.mp he with he | he
  · exact flattenProps_within (Or.inl rfl) (Or.inl rfl) hfs e he
  · exact flattenInstances_within hgs e he

end

end

end

end AddSys

end ServiceManager
