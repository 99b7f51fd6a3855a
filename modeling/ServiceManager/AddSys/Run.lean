import ServiceManager.AddSys.Effect

namespace ServiceManager

open Sql

namespace Repository

/-- A bundle gone with its values and with every property that refers to one. -/
def dropBundle (r : Repository) (bundleID : Nat) : Repository :=
  { r with
    bundles := r.bundles.delete (fun id _ => id = bundleID)
    propertyValues := r.propertyValues.delete (fun _ row => row.fkBundleID = some bundleID)
    properties := r.properties.delete fun _ row =>
      r.propertyValues.rows.any (fun val => val.1 = row.fkPropertyValueID ∧ val.2.fkBundleID = some bundleID) }

/-- Step 2 of import: the bundle found under the path goes if its RefCount is 0. -/
def dropOldBundle (r : Repository) (filename : SqlValue) : Repository :=
  match r.selectBundle filename with
  | some (bundleID, rcOldBundle) => if rcOldBundle = 0 then r.dropBundle bundleID else r
  | none => r

/-- Steps 2 and 3 of import. -/
def replaceBundle (r : Repository) (filename : SqlValue) (layer : Layer) : Repository :=
  { r.dropOldBundle filename with
    bundles := (r.dropOldBundle filename).bundles.insert ⟨0, filename, 0, layer⟩ }

section

variable (r : Repository) (filename : SqlValue)

/-- Step 2 removes rows of Bundles, PropertyValues and Properties only, and the
keys it frees are not given out again. -/
theorem dropOldBundle_frame :
    r.dropOldBundle filename =
      { r with
        bundles := (r.dropOldBundle filename).bundles
        propertyValues := (r.dropOldBundle filename).propertyValues
        properties := (r.dropOldBundle filename).properties } := by
  unfold dropOldBundle
  split
  · split <;> rfl
  · rfl

@[simp] theorem dropOldBundle_services : (r.dropOldBundle filename).services = r.services := by
  rw [dropOldBundle_frame]

@[simp] theorem dropOldBundle_instances : (r.dropOldBundle filename).instances = r.instances := by
  rw [dropOldBundle_frame]

@[simp] theorem dropOldBundle_groups : (r.dropOldBundle filename).propertyGroups = r.propertyGroups := by
  rw [dropOldBundle_frame]

@[simp] theorem dropOldBundle_snapshots : (r.dropOldBundle filename).snapshots = r.snapshots := by
  rw [dropOldBundle_frame]

@[simp] theorem dropOldBundle_snapshotProperty :
    (r.dropOldBundle filename).snapshotProperty = r.snapshotProperty := by
  rw [dropOldBundle_frame]

theorem dropOldBundle_seq :
    (r.dropOldBundle filename).bundles.seq = r.bundles.seq ∧
    (r.dropOldBundle filename).propertyValues.seq = r.propertyValues.seq ∧
    (r.dropOldBundle filename).properties.seq = r.properties.seq := by
  unfold dropOldBundle
  split
  · split <;> exact ⟨rfl, rfl, rfl⟩
  · exact ⟨rfl, rfl, rfl⟩

@[simp] theorem dropOldBundle_bundles_seq : (r.dropOldBundle filename).bundles.seq = r.bundles.seq :=
  (r.dropOldBundle_seq filename).1

@[simp] theorem dropOldBundle_values_seq :
    (r.dropOldBundle filename).propertyValues.seq = r.propertyValues.seq :=
  (r.dropOldBundle_seq filename).2.1

@[simp] theorem dropOldBundle_properties_seq : (r.dropOldBundle filename).properties.seq = r.properties.seq :=
  (r.dropOldBundle_seq filename).2.2

end

end Repository

namespace AddSys

@[simp] theorem ok_bind {α β : Type} (a : α) (f : α → Except String β) : (Except.ok a >>= f) = f a := rfl

@[simp] theorem run_exec (f : Repository → Repository) (msg : String) (r : Repository) :
    (exec (fun r => some (f r)) msg).run r = .ok ((), f r) := rfl

/-- The loop of `deleteBundle` deletes the values with the given ids and the
properties that refer to them. -/
theorem run_deleteValues (ids : List Nat) (r : Repository) :
    (deleteValues ids).run r = .ok ((),
      { r with
        propertyValues := r.propertyValues.delete (fun id _ => id ∈ ids)
        properties := r.properties.delete (fun _ row => row.fkPropertyValueID ∈ ids) }) := by
  induction ids generalizing r with
  | nil =>
    have hv : r.propertyValues.delete (fun id _ => decide (id ∈ ([] : List Nat))) = r.propertyValues :=
      Table.ext (by simp) rfl
    have hp : r.properties.delete (fun _ row => decide (row.fkPropertyValueID ∈ ([] : List Nat))) =
        r.properties := Table.ext (by simp) rfl
    rw [hv, hp]
    rfl
  | cons rowID rest ih =>
    simp only [deleteValues, StateT.run_bind, run_exec, ok_bind, ih]
    congr 3
    · apply Table.ext
      · simp only [Repository.deletePropertyValue, Repository.deletePropertiesOf, Table.rows_delete,
          List.filter_filter]
        congr 1
        funext row
        by_cases h : row.2.fkPropertyValueID = rowID <;> simp [h]
      · rfl
    · apply Table.ext
      · simp only [Repository.deletePropertyValue, Repository.deletePropertiesOf, Table.rows_delete,
          List.filter_filter]
        congr 1
        funext row
        by_cases h : row.1 = rowID <;> simp [h]
      · rfl

/-- The loop deletes the values of the bundle, with their properties. -/
theorem run_deleteBundle (bundleID : Nat) (r : Repository) :
    (deleteBundle bundleID).run r = .ok ((), r.dropBundle bundleID) := by
  simp only [deleteBundle, StateT.run_bind, StateT.run_get, pure_bind, run_deleteValues, run_exec, ok_bind]
  congr 2
  simp only [Repository.dropBundle, Repository.deleteBundleRow]
  congr 1
  · apply Table.ext
    · apply List.filter_congr
      intro row _
      congr 1
      simp [List.any_eq]
    · rfl
  · apply Table.ext
    · apply List.filter_congr
      intro row hrow
      congr 1
      rw [decide_eq_decide, List.mem_map]
      constructor
      · rintro ⟨found, hfound, hid⟩
        obtain ⟨hmem, hbundle⟩ := List.mem_filter.mp hfound
        obtain ⟨id, val⟩ := row
        obtain ⟨id', val'⟩ := found
        obtain rfl : id' = id := hid
        have heq := Table.row_unique hmem hrow
        subst heq
        simpa using hbundle
      · intro h
        exact ⟨row, List.mem_filter.mpr ⟨hrow, by simpa using h⟩, rfl⟩
    · rfl

theorem run_deleteOldBundle (filename : SqlValue) (r : Repository) :
    (deleteOldBundle filename).run r = .ok ((), r.dropOldBundle filename) := by
  simp only [deleteOldBundle, StateT.run_bind, StateT.run_get, pure_bind, Repository.dropOldBundle]
  cases r.selectBundle filename with
  | none => rfl
  | some old =>
    obtain ⟨bundleID, rc⟩ := old
    by_cases h : rc = 0
    · simp only [h, if_true, run_deleteBundle]
    · simp only [h, if_false]
      rfl

theorem run_getOrCreateGroup (k : GroupKey) (r : Repository) :
    (getOrCreateGroup k).run r =
      .ok ((r.propertyGroups.getOrCreate GroupKey.hit GroupKey.row k).1,
        { r with propertyGroups := (r.propertyGroups.getOrCreate GroupKey.hit GroupKey.row k).2 }) := by
  simp only [getOrCreateGroup, StateT.run_bind, StateT.run_get, pure_bind]
  cases h : r.propertyGroups.lookup GroupKey.hit k with
  | some pageID =>
    rw [Table.getOrCreate_of_some h]
    rfl
  | none =>
    rw [Table.getOrCreate_of_none h]
    rfl

theorem run_getOrCreateInstance (k : InstanceKey) (r : Repository) :
    (getOrCreateInstance k).run r =
      .ok ((r.instances.getOrCreate InstanceKey.hit InstanceKey.row k).1,
        { r with instances := (r.instances.getOrCreate InstanceKey.hit InstanceKey.row k).2 }) := by
  simp only [getOrCreateInstance, StateT.run_bind, StateT.run_get, pure_bind]
  cases h : r.instances.lookup InstanceKey.hit k with
  | some instId =>
    rw [Table.getOrCreate_of_some h]
    rfl
  | none =>
    rw [Table.getOrCreate_of_none h]
    rfl

/-- The two INSERTs that end `importProp` in either branch. -/
theorem run_insertEntry (bundleID : Nat) (e : Entry) (r : Repository) :
    (do
      exec (match e.content with
        | .string value => (·.insertPropertyValue bundleID "String" e.key (some value) none)
        | .page pageID => (·.insertPropertyValue bundleID "Page" e.key none (some pageID)))
        "Failed to insert property value: %s\n"
      let propValId := (← get).propertyValues.seq
      exec (·.insertProperty e.parent propValId) "Failed to insert property: %s\n" : SqlM Unit).run r =
      .ok ((), r.addEntry bundleID e) := by
  obtain ⟨parent, key, content⟩ := e
  cases content <;> rfl

section

variable (affinity : String → SqlValue)

mutual

/-- `importProp` makes the groups of the property's pages and then adds the
property's entries. -/
theorem run_importProp (bundleID svc inst page : Nat) (prop : Property) (r : Repository) :
    ∃ es, flattenProp affinity ((propGroups affinity svc page r.propertyGroups prop).lookup GroupKey.hit)
        svc inst page prop = some es ∧
      (importProp affinity bundleID svc inst page prop).run r =
        .ok ((), { r with propertyGroups := propGroups affinity svc page r.propertyGroups prop }.addEntries
          bundleID es) := by
  cases prop with
  | string key value =>
    refine ⟨_, rfl, ?_⟩
    exact run_insertEntry bundleID ⟨propertyParent svc inst page, key, .string value⟩ r
  | page key properties =>
    set k : GroupKey := ⟨groupParent svc page, affinity key⟩ with hk
    set got := r.propertyGroups.getOrCreate GroupKey.hit GroupKey.row k with hgot
    obtain ⟨members, hmembers, hrun⟩ := run_importProps bundleID svc inst got.1 properties
      { r with propertyGroups := got.2 }
    have hfound : (propsGroups affinity svc got.1 got.2 properties).lookup GroupKey.hit k = some got.1 :=
      (grows_propsGroups svc got.1 got.2 properties).lookup
        (Table.lookup_getOrCreate (GroupKey.hit_row.mpr rfl))
    refine ⟨members ++ [⟨propertyParent svc inst page, key, .page got.1⟩], ?_, ?_⟩
    · simp only [flattenProp, propGroups, ← hk, ← hgot, hfound, Option.bind_some]
      rw [hmembers]
      rfl
    · rw [importProp, StateT.run_bind, run_getOrCreateGroup, ok_bind, ← hk, ← hgot]
      simp only []
      rw [StateT.run_bind, hrun, ok_bind, Repository.addEntries_append]
      exact run_insertEntry bundleID ⟨propertyParent svc inst page, key, .page got.1⟩ _

/-- By induction on the properties, with the groups that are made on the way. -/
theorem run_importProps (bundleID svc inst page : Nat) (props : List Property) (r : Repository) :
    ∃ es, flattenProps affinity ((propsGroups affinity svc page r.propertyGroups props).lookup GroupKey.hit)
        svc inst page props = some es ∧
      (importProps affinity bundleID svc inst page props).run r =
        .ok ((), { r with propertyGroups := propsGroups affinity svc page r.propertyGroups props }.addEntries
          bundleID es) := by
  cases props with
  | nil => exact ⟨[], rfl, rfl⟩
  | cons prop rest =>
    obtain ⟨es, hes, hrun⟩ := run_importProp bundleID svc inst page prop r
    set groups := propGroups affinity svc page r.propertyGroups prop with hgroups
    obtain ⟨fs, hfs, hrun'⟩ := run_importProps bundleID svc inst page rest
      ({ r with propertyGroups := groups }.addEntries bundleID es)
    simp only [Repository.addEntries_groups] at hfs hrun'
    refine ⟨es ++ fs, ?_, ?_⟩
    · simp only [flattenProps, propsGroups, ← hgroups,
        flattenProp_grows (grows_propsGroups svc page groups rest) hes, Option.bind_some]
      rw [hfs]
      rfl
    · rw [importProps, StateT.run_bind, hrun, ok_bind, hrun', Repository.addEntries_append,
        Repository.addEntries_with_groups]
      rfl

end

/-- By induction on the instances, with the groups and instances that are made on the way. -/
theorem run_importInstances (bundleID svc : Nat) (insts : List Instance) (r : Repository) :
    ∃ es, flattenInstances affinity
        ((instancesGroups affinity svc r.propertyGroups insts).lookup GroupKey.hit)
        ((classInstances svc r.instances insts).lookup InstanceKey.hit) svc insts = some es ∧
      (importInstances affinity bundleID svc insts).run r =
        .ok ((), { r with
          propertyGroups := instancesGroups affinity svc r.propertyGroups insts
          instances := classInstances svc r.instances insts }.addEntries bundleID es) := by
  induction insts generalizing r with
  | nil => exact ⟨[], rfl, rfl⟩
  | cons inst rest ih =>
    set got := r.instances.getOrCreate InstanceKey.hit InstanceKey.row ⟨svc, inst.name⟩ with hgot
    obtain ⟨es, hes, hrun⟩ := run_importProps affinity bundleID svc got.1 0 inst.properties
      { r with instances := got.2 }
    set groups := propsGroups affinity svc 0 r.propertyGroups inst.properties with hgroups
    obtain ⟨fs, hfs, hrun'⟩ := ih ({ r with instances := got.2, propertyGroups := groups }.addEntries bundleID es)
    simp only [Repository.addEntries_groups, Repository.addEntries_instances] at hfs hrun'
    have hfound : (classInstances svc got.2 rest).lookup InstanceKey.hit ⟨svc, inst.name⟩ = some got.1 :=
      (grows_classInstances svc got.2 rest).lookup
        (Table.lookup_getOrCreate (InstanceKey.hit_row.mpr rfl))
    refine ⟨es ++ fs, ?_, ?_⟩
    · simp only [flattenInstances, instancesGroups, classInstances, ← hgot, ← hgroups, hfound, Option.bind_some,
        flattenProps_grows (grows_instancesGroups svc groups rest) hes]
      rw [hfs]
      rfl
    · rw [importInstances, StateT.run_bind, run_getOrCreateInstance, ok_bind, ← hgot]
      simp only []
      rw [StateT.run_bind, hrun, ok_bind]
      rw [hrun', Repository.addEntries_append, Repository.addEntries_with_tables]
      rfl

theorem run_getOrCreateService (name : String) (r : Repository) :
    (getOrCreateService name).run r =
      match r.selectService name with
      | some svcId => .ok (svcId, r)
      | none => .error "Failed to insert service name: %d\n" := by
  simp only [getOrCreateService, StateT.run_bind, StateT.run_get, pure_bind]
  cases r.selectService name <;> rfl

theorem run_insertBundle (filename : SqlValue) (layer : Layer) (r : Repository) :
    (exec (·.insertBundle filename 0 layer.1) "Failed to insert bundle descriptor: %s\n").run r =
      .ok ((), { r with bundles := r.bundles.insert ⟨0, filename, 0, layer⟩ }) := by
  have h : r.insertBundle filename 0 layer.1 =
      some { r with bundles := r.bundles.insert ⟨0, filename, 0, layer⟩ } := dif_pos layer.2
  simp only [exec, StateT.run_bind, StateT.run_get, pure_bind, h]
  rfl

theorem run_insertBundle_error {layer : Int} (hlayer : ¬ (layer = 1 ∨ layer = 2 ∨ layer = 3 ∨ layer = 4))
    (filename : SqlValue) (r : Repository) :
    (exec (·.insertBundle filename 0 layer) "Failed to insert bundle descriptor: %s\n").run r =
      .error "Failed to insert bundle descriptor: %s\n" := by
  have h : r.insertBundle filename 0 layer = none := dif_neg hlayer
  simp only [exec, StateT.run_bind, StateT.run_get, pure_bind, h]
  rfl

/-- Import up to step 4, when the layer passes its CHECK. -/
theorem run_importClass (layer : Layer) (path : String) (klass : Class) (r : Repository) :
    (importClass affinity layer.1 path klass).run r =
      match r.selectService klass.name with
      | some svcId => (do
          importProps affinity r.bundles.nextId svcId 0 0 klass.properties
          importInstances affinity r.bundles.nextId svcId klass.instances : SqlM Unit).run
            (r.replaceBundle (affinity path) layer)
      | none => .error "Failed to insert service name: %d\n" := by
  have hservice : (r.replaceBundle (affinity path) layer).selectService klass.name = r.selectService klass.name :=
    congrArg (fun t : Table ServiceRow => (t.first _).map Prod.fst) (r.dropOldBundle_services (affinity path))
  have hbundle : (r.replaceBundle (affinity path) layer).bundles.seq = r.bundles.nextId :=
    congrArg Nat.succ (r.dropOldBundle_bundles_seq (affinity path))
  rw [importClass, StateT.run_bind, run_deleteOldBundle, ok_bind, StateT.run_bind, run_insertBundle, ok_bind]
  change ((do
    let bundleID := (← get).bundles.seq
    let svcId ← getOrCreateService klass.name
    importProps affinity bundleID svcId 0 0 klass.properties
    importInstances affinity bundleID svcId klass.instances : SqlM Unit).run
      (r.replaceBundle (affinity path) layer)) = _
  simp only [StateT.run_bind, StateT.run_get, pure_bind, run_getOrCreateService, hservice, hbundle]
  cases r.selectService klass.name <;> rfl

/-- What a committed import did: `es` are the entries of the class under the
service `svcId`, written for the bundle row that took the next key. -/
structure Imported (affinity : String → SqlValue) (layer : Layer) (filename : SqlValue) (klass : Class)
    (r r' : Repository) (svcId : Nat) (es : List Entry) : Prop where
  service : r.selectService klass.name = some svcId
  entries : flattenClass affinity (r'.propertyGroups.lookup GroupKey.hit) (r'.instances.lookup InstanceKey.hit)
    svcId klass = some es
  result : r' = { r.replaceBundle filename layer with
    instances := classInstances svcId r.instances klass.instances
    propertyGroups := classGroups affinity svcId r.propertyGroups klass }.addEntries r.bundles.nextId es

/-- The import of a class whose service is there runs to its end. -/
theorem run_importClass_of_service (layer : Layer) {klass : Class} {r : Repository} {svcId : Nat}
    (path : String) (hsvc : r.selectService klass.name = some svcId) :
    ∃ r' es, (importClass affinity layer.1 path klass).run r = .ok ((), r') ∧
      Imported affinity layer (affinity path) klass r r' svcId es := by
  have hgroups : (r.replaceBundle (affinity path) layer).propertyGroups = r.propertyGroups :=
    r.dropOldBundle_groups _
  have hinstances : (r.replaceBundle (affinity path) layer).instances = r.instances :=
    r.dropOldBundle_instances _
  obtain ⟨es, hes, hrun⟩ := run_importProps affinity r.bundles.nextId svcId 0 0 klass.properties
    (r.replaceBundle (affinity path) layer)
  obtain ⟨fs, hfs, hrun'⟩ := run_importInstances affinity r.bundles.nextId svcId klass.instances
    ({ r.replaceBundle (affinity path) layer with
      propertyGroups := propsGroups affinity svcId 0 r.propertyGroups klass.properties }.addEntries
      r.bundles.nextId es)
  rw [Repository.addEntries_groups, Repository.addEntries_instances, hinstances] at hfs hrun'
  rw [hgroups] at hes hrun
  refine ⟨_, es ++ fs, ?_, hsvc, ?_, rfl⟩
  · rw [run_importClass, hsvc]
    simp only []
    rw [StateT.run_bind, hrun, ok_bind, hrun', Repository.addEntries_append, Repository.addEntries_with_tables]
    rfl
  · rw [Repository.addEntries_groups, Repository.addEntries_instances]
    simp only [flattenClass, classGroups, Option.bind_some,
      flattenProps_grows (grows_instancesGroups svcId _ klass.instances) hes]
    rw [hfs]
    rfl

variable {affinity}

theorem Imported.groups_eq {layer : Layer} {filename : SqlValue} {klass : Class} {r r' : Repository} {svcId : Nat}
    {es : List Entry} (h : Imported affinity layer filename klass r r' svcId es) :
    r'.propertyGroups = classGroups affinity svcId r.propertyGroups klass := by
  rw [h.result, Repository.addEntries_groups]

theorem Imported.instances_eq {layer : Layer} {filename : SqlValue} {klass : Class} {r r' : Repository} {svcId : Nat}
    {es : List Entry} (h : Imported affinity layer filename klass r r' svcId es) :
    r'.instances = classInstances svcId r.instances klass.instances := by
  rw [h.result, Repository.addEntries_instances]

/-- Import commits exactly when the layer passes its CHECK and the service is
there already: the INSERT of a Services row leaves Type NULL, which the schema
forbids. -/
theorem commit_eq_ok_iff {layer : Int} {path : String} {klass : Class} {r r' : Repository} :
    commit affinity layer path klass r = .ok r' ↔
      ∃ (l : Layer) (svcId : Nat) (es : List Entry), l.1 = layer ∧
        Imported affinity l (affinity path) klass r r' svcId es := by
  constructor
  · intro h
    by_cases hlayer : layer = 1 ∨ layer = 2 ∨ layer = 3 ∨ layer = 4
    · have hrun := run_importClass affinity ⟨layer, hlayer⟩ path klass r
      cases hsvc : r.selectService klass.name with
      | none =>
        rw [hsvc] at hrun
        simp only [commit, hrun] at h
        cases h
      | some svcId =>
        obtain ⟨r'', es, hrun', himp⟩ := run_importClass_of_service affinity
          ⟨layer, hlayer⟩ path hsvc
        simp only [commit, hrun'] at h
        cases h
        exact ⟨⟨layer, hlayer⟩, svcId, es, rfl, himp⟩
    · rw [commit, importClass, StateT.run_bind, run_deleteOldBundle, ok_bind, StateT.run_bind,
        run_insertBundle_error hlayer] at h
      cases h
  · rintro ⟨l, svcId, es, rfl, himp⟩
    obtain ⟨r'', es', hrun, himp'⟩ := run_importClass_of_service affinity l path
      himp.service
    have hes := himp.entries
    rw [himp.groups_eq, himp.instances_eq, ← himp'.groups_eq, ← himp'.instances_eq, himp'.entries] at hes
    cases hes
    rw [commit, hrun, himp.result, himp'.result]
    rfl

/-- Whether import commits is settled by the layer and the Services table. -/
theorem commit_isOk_iff {layer : Int} {path : String} {klass : Class} {r : Repository} :
    (∃ r', commit affinity layer path klass r = .ok r') ↔
      (layer = 1 ∨ layer = 2 ∨ layer = 3 ∨ layer = 4) ∧ ∃ svcId, r.selectService klass.name = some svcId := by
  constructor
  · rintro ⟨r', h⟩
    obtain ⟨l, svcId, es, rfl, himp⟩ := commit_eq_ok_iff.mp h
    exact ⟨l.2, svcId, himp.service⟩
  · rintro ⟨hlayer, svcId, hsvc⟩
    obtain ⟨r', es, hrun, himp⟩ := run_importClass_of_service affinity
      ⟨layer, hlayer⟩ path hsvc
    exact ⟨r', commit_eq_ok_iff.mpr ⟨⟨layer, hlayer⟩, svcId, es, rfl, himp⟩⟩

variable (affinity) in
/-- The repository after the program has run: one with the import committed, or
the old one where the import died and its transaction was rolled back. -/
def runImport (layer : Int) (bundleFullPath : String) (klass : Class) (r : Repository) : Repository :=
  match commit affinity layer bundleFullPath klass r with
  | .ok r' => r'
  | .error _ => r

theorem runImport_of_ok {layer : Int} {path : String} {klass : Class} {r r' : Repository}
    (h : commit affinity layer path klass r = .ok r') : runImport affinity layer path klass r = r' := by
  simp [runImport, h]

theorem runImport_of_error {layer : Int} {path : String} {klass : Class} {r : Repository}
    (h : ¬ ∃ r', commit affinity layer path klass r = .ok r') : runImport affinity layer path klass r = r := by
  rw [runImport]
  split
  next r' hr' => exact absurd ⟨r', hr'⟩ h
  next => rfl

end

end AddSys

end ServiceManager
