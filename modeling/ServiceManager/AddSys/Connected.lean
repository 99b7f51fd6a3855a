import ServiceManager.AddSys.Execution
import ServiceManager.AddSys.Rows

namespace ServiceManager

open Sql Machine

namespace AddSys

mutual

/-- The strings that importing a property puts into statements. -/
def Property.strings : Property → List String
  | .string key value => [key, value]
  | .page key properties => key :: propsStrings properties

def propsStrings : List Property → List String
  | [] => []
  | prop :: rest => prop.strings ++ propsStrings rest

end

/-- The strings that importing a class puts into statements. -/
def Class.strings (klass : Class) : List String :=
  klass.name :: (propsStrings klass.properties ++
    klass.instances.flatMap fun inst => inst.name :: propsStrings inst.properties)

/-- What the import of a class keeps in variables of type `int` fits there: the bundle of the
path with its RefCount and, where it goes, the keys of its values, the new bundle, the service,
each instance and the group of each page, be they found or made, and each new value. -/
structure IdsFit (affinity : String → SqlValue) (r : Repository) (path : String) (klass : Class) : Prop where
  old : ∀ id rc, r.selectBundle (affinity path) = some (id, rc) → id < 2 ^ 31 ∧ -2 ^ 31 ≤ rc ∧ rc < 2 ^ 31 ∧
    (rc = 0 → ∀ row ∈ r.propertyValues.rows, row.2.fkBundleID = some id → row.1 < 2 ^ 31)
  bundle : r.bundles.nextId < 2 ^ 31
  service : ∀ svcId, r.selectService klass.name = some svcId → svcId < 2 ^ 31 ∧
    (∀ inst ∈ klass.instances, ∀ id,
      (classInstances svcId r.instances klass.instances).lookup InstanceKey.hit ⟨svcId, inst.name⟩ = some id →
      id < 2 ^ 31) ∧
    ∀ es, flattenClass affinity ((classGroups affinity svcId r.propertyGroups klass).lookup GroupKey.hit)
        ((classInstances svcId r.instances klass.instances).lookup InstanceKey.hit) svcId klass = some es →
      (∀ e ∈ es, ∀ id, e.content = .page id → id < 2 ^ 31) ∧ r.propertyValues.seq + es.length < 2 ^ 31 ∧
        r.properties.seq + es.length < 2 ^ 63

namespace Conn

theorem groupParent_natCast (svc page : Nat) : (groupParent svc page).parent = AddSys.groupParent svc page := by
  unfold groupParent AddSys.groupParent
  by_cases h : page = 0 <;> simp [h, GroupColumn.parent]

theorem groupParent_nonneg (svc page : Nat) : 0 ≤ (groupParent svc page).column.2 := by
  unfold groupParent
  split <;> simp [GroupColumn.column]

theorem propertyParent_natCast (svc inst page : Nat) :
    (propertyParent svc inst page).parent = AddSys.propertyParent svc inst page := by
  unfold propertyParent AddSys.propertyParent
  by_cases h : page = 0 <;> by_cases h' : inst = 0 <;> simp [h, h', PropertyColumn.parent]

theorem propertyParent_nonneg (svc inst page : Nat) : 0 ≤ (propertyParent svc inst page).column.2 := by
  unfold propertyParent
  split
  · simp [PropertyColumn.column]
  · split <;> simp [PropertyColumn.column]

theorem insertBundle_room {filename : SqlValue} {r : Repository} (hbundle : r.bundles.nextId < 2 ^ 31) {path : String}
    {layer : Int} : (Query.insertBundle path layer).HasRoom (r.dropOldBundle filename) := by
  simp only [Query.HasRoom, Table.nextId, Repository.dropOldBundle_bundles_seq]
  rw [Table.nextId] at hbundle
  omega

/-- The row of the new bundle, once the old one is gone. -/
theorem perform_insertBundle (affinity : String → SqlValue) (r : Repository) (path : String) (layer : Layer) :
    perform affinity (r.dropOldBundle (affinity path)) (.insertBundle path layer.1) =
      some (r.replaceBundle (affinity path) layer, some r.bundles.nextId) := by
  have hinsert : (r.dropOldBundle (affinity path)).insertBundle (affinity path) 0 layer.1 =
      some (r.replaceBundle (affinity path) layer) := dif_pos layer.2
  have hseq : (r.replaceBundle (affinity path) layer).bundles.seq = r.bundles.nextId :=
    congrArg Nat.succ (r.dropOldBundle_bundles_seq (affinity path))
  rw [perform, hinsert, Option.map_some, hseq]

section Spec

variable {affinity : String → SqlValue} {σ : Type} {conn : Connection Query σ} {db : σ → Db} {P : String → Prop}
  (h : Acts affinity conn db P) {s : σ}

include h

/-- The loop of `deleteBundle` with turns for each row and its end. -/
theorem deleteValues_follows {ids : List Nat} {turns : Nat} (bundleID : Nat) (hrows : (db s).rows = keys ids)
    (hids : ∀ id ∈ ids, id < 2 ^ 31) (hturns : ids.length < turns) :
    ∃ s' made, deleteValues conn.ints turns bundleID s = ⟨.ok (), s', made⟩ ∧
      (AddSys.deleteValues ids).run (db s).repo = .ok ((), (db s').repo) := by
  have hnamed : (Query.selectValues bundleID).Named := by simp [Query.Named, Query.ids]
  obtain ⟨hstep, hdb⟩ := h.step (.selectValues bundleID) s hnamed (by simp [Query.strings])
  induction ids generalizing turns s with
  | nil =>
    obtain ⟨turns, rfl⟩ := Nat.exists_eq_add_one.mpr hturns
    have hdone : conn.ints.step (.selectValues bundleID) s = (.done, (conn.step (.selectValues bundleID) s).2) := by
      refine Prod.ext ?_ rfl
      change (conn.step (.selectValues bundleID) s).1.ints = .done
      rw [hstep]
      simp [repository, hrows, keys, StepResult.ints]
    rw [deleteValues_done turns hdone]
    refine ⟨_, _, rfl, ?_⟩
    rw [hdb]
    simp [repository, hrows, keys]
    rfl
  | cons id ids ih =>
    obtain ⟨turns, rfl⟩ := Nat.exists_eq_add_one.mpr (Nat.zero_lt_of_lt hturns)
    obtain ⟨hid, hids⟩ := List.forall_mem_cons.mp hids
    have hrow : conn.ints.step (.selectValues bundleID) s = (.row id 0, (conn.step (.selectValues bundleID) s).2) := by
      refine Prod.ext ?_ rfl
      change (conn.step (.selectValues bundleID) s).1.ints = _
      rw [hstep]
      have hzero : int32 0 = 0 := rfl
      simp [repository, hrows, keys, StepResult.ints, int32_natCast hid, hzero]
    have hdb₁ : db (conn.step (.selectValues bundleID) s).2 = { db s with rows := keys ids } := by
      rw [hdb]
      simp [repository, hrows, keys]
    obtain ⟨s₂, hvalue, hdb₂⟩ := h.exec_some (s := (conn.step (.selectValues bundleID) s).2) (q := .deleteValue id)
      (by simp [Query.Named, Query.ids]) (by simp [Query.strings]) trivial rfl
    obtain ⟨s₃, hproperties, hdb₃⟩ := h.exec_some (s := s₂) (q := .deletePropertiesOf id)
      (by simp [Query.Named, Query.ids]) (by simp [Query.strings]) trivial rfl
    have hrows₃ : (db s₃).rows = keys ids := by rw [hdb₃, hdb₂, hdb₁]
    have hrepo₃ : (db s₃).repo = ((db s).repo.deletePropertyValue id).deletePropertiesOf id := by
      rw [hdb₃, hdb₂, hdb₁]
      simp
    obtain ⟨hstep₃, hdb₄⟩ := h.step (.selectValues bundleID) s₃ hnamed (by simp [Query.strings])
    obtain ⟨s', made, hrest, hrun⟩ := ih hrows₃ hids (Nat.lt_of_succ_lt_succ hturns) hstep₃ hdb₄
    rw [deleteValues_row turns hrow hvalue hproperties, hrest]
    refine ⟨s', _, rfl, ?_⟩
    rw [hrepo₃] at hrun
    exact hrun

/-- The end of `deleteBundle`, where the statement is closed and the row of the bundle deleted. -/
theorem deleteBundleRow_gives (bundleID : Nat) :
    Gives (repoOf db) (finalize conn.ints (.selectValues bundleID) >>= fun _ =>
      execf conn.ints (.deleteBundle bundleID) "Failed to delete old bundle: %s\n") s ()
        ((db s).repo.deleteBundleRow bundleID) := by
  have hfinal := h.finalize (.selectValues bundleID) s (by simp [Query.Named, Query.ids]) (by simp [Query.strings])
  have hclose : Gives (repoOf db) (finalize conn.ints (.selectValues bundleID)) s () (db s).repo :=
    ⟨_, _, rfl, (congrArg Db.repo hfinal).trans rfl⟩
  refine hclose.bind fun s' hrepo => ?_
  change (db s').repo = _ at hrepo
  rw [← hrepo]
  exact h.execf_gives (by simp [Query.Named, Query.ids]) (by simp [Query.strings]) trivial rfl

/-- The select of the old values, the loop over them and the delete of the bundle. -/
theorem deleteBundle_gives {turns bundleID : Nat}
    (hrows : ∀ row ∈ (db s).repo.propertyValues.rows, row.2.fkBundleID = some bundleID → row.1 < 2 ^ 31)
    (hturns : (db s).repo.propertyValues.rows.length < turns) :
    Gives (repoOf db) (deleteBundle conn.ints turns bundleID) s () ((db s).repo.dropBundle bundleID) := by
  have hnamed : (Query.selectValues bundleID).Named := by simp [Query.Named, Query.ids]
  obtain ⟨hresult, hdb⟩ := h.prepare (.selectValues bundleID) s hnamed (by simp [Query.strings])
  set ids := (db s).repo.propertyValues.select fun row => row.fkBundleID = some bundleID with hselect
  have hprepare : conn.ints.prepare (.selectValues bundleID) s = (none, (conn.prepare (.selectValues bundleID) s).2) :=
    Prod.ext hresult rfl
  have hdb₁ : db (conn.prepare (.selectValues bundleID) s).2 = { db s with rows := keys ids } := by
    rw [hdb]
    simp [repository, select, hselect]
  have hids : ∀ id ∈ ids, id < 2 ^ 31 := by
    intro id hmem
    obtain ⟨row, hrow, rfl⟩ := List.mem_map.mp hmem
    obtain ⟨hrow, hbundle⟩ := List.mem_filter.mp hrow
    exact hrows row hrow (by simpa using hbundle)
  have hlength : ids.length < turns := by
    rw [hselect, Table.select, List.length_map]
    exact Nat.lt_of_le_of_lt (List.length_filter_le _ _) hturns
  obtain ⟨s₂, made, hloop, hrun⟩ := deleteValues_follows h (s := (conn.prepare (.selectValues bundleID) s).2)
    bundleID (by rw [hdb₁]) hids hlength
  rw [hdb₁] at hrun
  have hdropped : (db s₂).repo.deleteBundleRow bundleID = (db s).repo.dropBundle bundleID := by
    have hall := run_deleteBundle bundleID (db s).repo
    have hselected : ((db s).repo.propertyValues.rows.filter fun row => row.2.fkBundleID = some bundleID).map
        Prod.fst = ids :=
      rfl
    simp only [AddSys.deleteBundle, StateT.run_bind, StateT.run_get, pure_bind, hselected, hrun, ok_bind, run_exec,
      Except.ok.injEq, Prod.mk.injEq, true_and] at hall
    exact hall
  obtain ⟨s₃, made', hdelete, hrepo⟩ := deleteBundleRow_gives h (s := s₂) bundleID
  refine ⟨s₃, ⟨.prepare (.selectValues bundleID), true⟩ :: (made ++ made'), ?_, hrepo.trans hdropped⟩
  rw [deleteBundle, prepare, orDie_bind_none hprepare, Script.bind_of_ok hloop, hdelete]
  rfl

/-- Step 2, with turns for all values. -/
theorem deleteOldBundle_gives {turns : Nat} {path : String} {klass : Class}
    (hfits : IdsFit affinity (db s).repo path klass)
    (hP : P path) (hturns : (db s).repo.propertyValues.rows.length < turns) :
    Gives (repoOf db) (deleteOldBundle conn.ints turns path) s () ((db s).repo.dropOldBundle (affinity path)) := by
  have hnamed : (Query.selectBundle path).Named := by simp [Query.Named, Query.ids]
  have hstrings : ∀ x ∈ (Query.selectBundle path).strings, P x := by simpa [Query.strings] using hP
  unfold deleteOldBundle Repository.dropOldBundle
  cases hold : (db s).repo.selectBundle (affinity path) with
  | none =>
    have hrows : select affinity (db s).repo (.selectBundle path) = [] := by
      have hnone := Table.first_eq_none.mp (Option.map_eq_none_iff.mp hold)
      simp only [select, List.map_eq_nil_iff, List.filter_eq_nil_iff]
      intro row hrow
      simpa using hnone row hrow
    refine (h.getInts_nil hnamed hstrings hrows).bind fun s' hrepo => ?_
    simp only
    rw [← hrepo]
    exact Gives.pure () s'
  | some old =>
    obtain ⟨bundleID, rcOldBundle⟩ := old
    obtain ⟨hid, hlow, hhigh, hvalues⟩ := hfits.old _ _ hold
    obtain ⟨rest, hrows⟩ : ∃ rest, select affinity (db s).repo (.selectBundle path) =
        ((bundleID : Int), rcOldBundle) :: rest := by
      obtain ⟨⟨id, row⟩, hfirst, heq⟩ := Option.map_eq_some_iff.mp hold
      obtain ⟨rfl, rfl⟩ := Prod.mk.inj heq
      have hhead : ((db s).repo.bundles.rows.filter fun row => row.2.filename = affinity path).head? =
          some (id, row) := by
        rw [List.head?_filter]
        exact hfirst
      obtain ⟨rest, hrest⟩ := List.head?_eq_some_iff.mp hhead
      exact ⟨_, by rw [select, hrest, List.map_cons]⟩
    refine (h.getInts_cons hnamed hstrings hrows).bind fun s' hrepo => ?_
    change (db s').repo = _ at hrepo
    rw [int32_natCast hid, int32_eq_self hlow hhigh]
    simp only
    by_cases hrc : rcOldBundle = 0
    · rw [if_pos hrc, if_pos hrc, ← hrepo]
      exact deleteBundle_gives h (by rw [hrepo]; exact hvalues hrc) (by rw [hrepo]; exact hturns)
    · rw [if_neg hrc, if_neg hrc, ← hrepo]
      exact Gives.pure () s'

/-- A row is found by its key or made for it. -/
theorem getOrCreate_gives {κ ρ : Type} {hit : κ → ρ → Bool} {make : κ → ρ} {t : Table ρ} {k : κ} {q q' : Query}
    {msg msg' : String} {r : Repository} (hq : q.Named) (hq' : q'.Named) (hP : ∀ x ∈ q.strings, P x)
    (hP' : ∀ x ∈ q'.strings, P x) (hrows : select affinity (db s).repo q = keys (t.select (hit k)))
    (hfound : ∀ id, t.lookup hit k = some id → (db s).repo = r)
    (hmade : t.lookup hit k = none → (t.nextId < 2 ^ 63 → q'.HasRoom (db s).repo) ∧
      perform affinity (db s).repo q' = some (r, some t.nextId))
    (hid : (t.getOrCreate hit make k).1 < 2 ^ 31) :
    Gives (repoOf db) (getOrCreate conn.ints q q' msg msg') s ((t.getOrCreate hit make k).1 : Int) r := by
  cases hlookup : t.lookup hit k with
  | some id =>
    rw [Table.getOrCreate_of_some hlookup] at hid ⊢
    obtain ⟨found, hfirst, rfl⟩ := Option.map_eq_some_iff.mp hlookup
    obtain ⟨rest, hrest⟩ := Table.select_of_first_some hfirst
    rw [hrest] at hrows
    rw [← hfound _ hlookup]
    exact h.getOrCreate_found hq hP hrows hid
  | none =>
    rw [Table.getOrCreate_of_none hlookup] at hid ⊢
    rw [Table.select_of_first_none (Option.map_eq_none_iff.mp hlookup)] at hrows
    obtain ⟨hroom, hperform⟩ := hmade hlookup
    exact h.getOrCreate_made hq hq' hP hP' (hroom (by omega)) hrows hperform hid

/-- The group of a page. -/
theorem getOrCreateGroup_gives (svc page : Nat) {key : String} (hP : P key)
    (hid : ((db s).repo.propertyGroups.getOrCreate GroupKey.hit GroupKey.row
      ⟨AddSys.groupParent svc page, affinity key⟩).1 < 2 ^ 31) :
    let got := (db s).repo.propertyGroups.getOrCreate GroupKey.hit GroupKey.row ⟨AddSys.groupParent svc page,
      affinity key⟩
    Gives (repoOf db) (getOrCreate conn.ints (.selectGroup (groupParent svc page) key)
      (.insertGroup (groupParent svc page) key)
      "Failed to insert property group entry: %s\n" "Failed to get property group ID: %s\n") s (got.1 : Int)
      { (db s).repo with propertyGroups := got.2 } := by
  intro got
  have hparent : (groupParent svc page).parent = AddSys.groupParent svc page := groupParent_natCast svc page
  have hcolumn : 0 ≤ (groupParent svc page).column.2 := groupParent_nonneg svc page
  have hnamed : (Query.selectGroup (groupParent svc page) key).Named := by simpa [Query.Named, Query.ids] using hcolumn
  have hnamed' : (Query.insertGroup (groupParent svc page) key).Named := by simpa [Query.Named, Query.ids] using hcolumn
  refine getOrCreate_gives h hnamed hnamed' (by simpa [Query.strings] using hP)
    (by simpa [Query.strings] using hP) ?_ ?_ ?_ hid
  · rw [select, hparent]
  · intro id hlookup
    have hgot : got = (id, (db s).repo.propertyGroups) := Table.getOrCreate_of_some hlookup
    rw [hgot]
  · intro hlookup
    have hgot : got = ((db s).repo.propertyGroups.nextId, (db s).repo.propertyGroups.insert
      (GroupKey.row ⟨AddSys.groupParent svc page, affinity key⟩)) := Table.getOrCreate_of_none hlookup
    refine ⟨fun hroom => hroom, ?_⟩
    rw [perform, hparent, hgot]
    rfl

/-- The row of an instance. -/
theorem getOrCreateInstance_gives (svc : Nat) {name : String} (hP : P name)
    (hid : ((db s).repo.instances.getOrCreate InstanceKey.hit InstanceKey.row ⟨svc, name⟩).1 < 2 ^ 31) :
    let got := (db s).repo.instances.getOrCreate InstanceKey.hit InstanceKey.row ⟨svc, name⟩
    Gives (repoOf db) (getOrCreate conn.ints (.selectInstance svc name) (.insertInstance svc name)
      "Failed to insert instance name: %d\n" "Failed to get instance ID: %s\n") s (got.1 : Int)
      { (db s).repo with instances := got.2 } := by
  intro got
  have hnamed : (Query.selectInstance svc name).Named := by simp [Query.Named, Query.ids]
  have hnamed' : (Query.insertInstance svc name).Named := by simp [Query.Named, Query.ids]
  refine getOrCreate_gives h hnamed hnamed' (by simpa [Query.strings] using hP)
    (by simpa [Query.strings] using hP) ?_ ?_ ?_ hid
  · rw [select, Int.toNat_natCast]
  · intro id hlookup
    have hgot : got = (id, (db s).repo.instances) := Table.getOrCreate_of_some hlookup
    rw [hgot]
  · intro hlookup
    have hgot : got = ((db s).repo.instances.nextId, (db s).repo.instances.insert (InstanceKey.row ⟨svc, name⟩)) :=
      Table.getOrCreate_of_none hlookup
    refine ⟨fun hroom => hroom, ?_⟩
    rw [perform, Int.toNat_natCast, hgot]
    rfl

/-- A value and the property that refers to it. -/
theorem insertEntry_gives (bundleID svc inst page : Nat) (msg : String) {e : Entry} {q : Query} (hq : q.Named)
    (hP : ∀ x ∈ q.strings, P x) (hroom : (db s).repo.propertyValues.nextId < 2 ^ 63 → q.HasRoom (db s).repo)
    (hparent : e.parent = AddSys.propertyParent svc inst page)
    (hperform : perform affinity (db s).repo q = some
      ({ (db s).repo with propertyValues := (db s).repo.propertyValues.insert (e.valueRow bundleID) },
        some (db s).repo.propertyValues.nextId))
    (hvalue : (db s).repo.propertyValues.nextId < 2 ^ 31) (hproperty : (db s).repo.properties.nextId < 2 ^ 63) :
    Gives (repoOf db) (execf conn.ints q msg >>= fun _ => lastInsertRowid conn.ints >>= fun propValId =>
        execf conn.ints (.insertProperty (propertyParent svc inst page) propValId) "Failed to insert property: %s\n")
      s () ((db s).repo.addEntry bundleID e) := by
  refine h.insert_gives hq hP (hroom (by omega)) hperform hvalue fun s' hs' => ?_
  have hcolumn := propertyParent_nonneg svc inst page
  have hperform' : perform affinity (db s').repo
      (.insertProperty (propertyParent svc inst page) (db s).repo.propertyValues.nextId) =
      some ((db s).repo.addEntry bundleID e, some (db s).repo.properties.nextId) := by
    simp only [perform, propertyParent_natCast, Int.toNat_natCast, hs', ← hparent]
    rfl
  refine h.execf_gives (by simpa [Query.Named, Query.ids] using hcolumn) (by simp [Query.strings]) ?_ hperform'
  simp only [Query.HasRoom, hs']
  exact hproperty

section Import

variable {groups' : Table PropertyGroupRow}

omit h in
mutual

/-- `importProp` makes the groups of the property's pages and adds its entries, if the keys
fit. -/
theorem importProp_gives (h : Acts affinity conn db P) (bundleID : Nat) {svc inst page : Nat} {prop : Property}
    {es : List Entry} {s : σ} (hP : ∀ x ∈ prop.strings, P x)
    (hgrows : (propGroups affinity svc page (db s).repo.propertyGroups prop).Grows groups')
    (hes : flattenProp affinity (groups'.lookup GroupKey.hit) svc inst page prop = some es)
    (hpages : ∀ e ∈ es, ∀ id, e.content = .page id → id < 2 ^ 31)
    (hvalues : (db s).repo.propertyValues.seq + es.length < 2 ^ 31)
    (hproperties : (db s).repo.properties.seq + es.length < 2 ^ 63) :
    Gives (repoOf db) (importProp conn.ints bundleID svc inst page prop) s ()
      ({ (db s).repo with propertyGroups := propGroups affinity svc page (db s).repo.propertyGroups prop }.addEntries
        bundleID es) := by
  cases prop with
  | string key value =>
    obtain rfl := Option.some.inj hes
    rw [importProp]
    exact insertEntry_gives h bundleID svc inst page _ (by simp [Query.Named, Query.ids])
      (by simpa [Query.strings, Property.strings] using hP) (fun hroom => hroom) rfl rfl hvalues hproperties
  | page key properties =>
    obtain ⟨pageID, hpage, members, hmembers, rfl⟩ := flattenProp_page_eq_some hes
    set got := (db s).repo.propertyGroups.getOrCreate GroupKey.hit GroupKey.row ⟨AddSys.groupParent svc page,
      affinity key⟩
      with hgot
    rw [propGroups] at hgrows
    have hfound : groups'.lookup GroupKey.hit ⟨AddSys.groupParent svc page, affinity key⟩ = some got.1 :=
      ((grows_propsGroups svc got.1 got.2 properties).trans hgrows).lookup
        (Table.lookup_getOrCreate (GroupKey.hit_row.mpr rfl))
    obtain rfl : pageID = got.1 := Option.some.inj (hpage.symm.trans hfound)
    have hpageID : got.1 < 2 ^ 31 := hpages _ (List.mem_append_right _ List.mem_cons_self) _ rfl
    rw [List.length_append, List.length_singleton] at hvalues hproperties
    obtain ⟨hkey, hproperties'⟩ := List.forall_mem_cons.mp (by simpa only [Property.strings] using hP)
    rw [importProp]
    refine (getOrCreateGroup_gives h svc page hkey hpageID).bind fun s₁ hs₁ => ?_
    change (db s₁).repo = _ at hs₁
    have hmembers_give := importProps_gives h bundleID (s := s₁) hproperties'
      (by rw [hs₁]; exact hgrows) hmembers (fun e he => hpages e (List.mem_append_left _ he))
      (by rw [hs₁]; simp only; omega) (by rw [hs₁]; simp only; omega)
    refine hmembers_give.bind fun s₂ hs₂ => ?_
    change (db s₂).repo = _ at hs₂
    have hlast := insertEntry_gives h (s := s₂) bundleID svc inst page "Failed to insert property value: %s\n"
      (e := ⟨AddSys.propertyParent svc inst page, key, .page got.1⟩) (q := .insertPage bundleID key got.1)
      (by simp [Query.Named, Query.ids]) (by simpa [Query.strings] using hkey)
      (fun hroom => hroom) rfl rfl
      (by rw [hs₂, Repository.addEntries_eq, hs₁]; simp [Table.nextId]; omega)
      (by rw [hs₂, Repository.addEntries_eq, hs₁]; simp [Table.nextId]; omega)
    rw [hs₂, hs₁] at hlast
    rw [Repository.addEntries_append]
    exact hlast

/-- By induction on the properties; each finds the groups that those before it have made. -/
theorem importProps_gives (h : Acts affinity conn db P) (bundleID : Nat) {svc inst page : Nat} {props : List Property}
    {es : List Entry} {s : σ} (hP : ∀ x ∈ propsStrings props, P x)
    (hgrows : (propsGroups affinity svc page (db s).repo.propertyGroups props).Grows groups')
    (hes : flattenProps affinity (groups'.lookup GroupKey.hit) svc inst page props = some es)
    (hpages : ∀ e ∈ es, ∀ id, e.content = .page id → id < 2 ^ 31)
    (hvalues : (db s).repo.propertyValues.seq + es.length < 2 ^ 31)
    (hproperties : (db s).repo.properties.seq + es.length < 2 ^ 63) :
    Gives (repoOf db) (importProps conn.ints bundleID svc inst page props) s ()
      ({ (db s).repo with propertyGroups := propsGroups affinity svc page (db s).repo.propertyGroups props }.addEntries
        bundleID es) := by
  cases props with
  | nil =>
    obtain rfl := Option.some.inj hes
    rw [importProps]
    exact Gives.pure () s
  | cons prop rest =>
    obtain ⟨fs, hfs, gs, hgs, rfl⟩ := flattenProps_cons_eq_some hes
    rw [propsStrings, List.forall_mem_append] at hP
    rw [List.forall_mem_append] at hpages
    rw [List.length_append] at hvalues hproperties
    rw [propsGroups] at hgrows
    rw [importProps]
    refine (importProp_gives h bundleID hP.1 ((grows_propsGroups svc page _ rest).trans hgrows) hfs hpages.1
      (by omega) (by omega)).bind fun s₁ hs₁ => ?_
    change (db s₁).repo = _ at hs₁
    have hrest := importProps_gives h bundleID (s := s₁) hP.2
      (by rw [hs₁, Repository.addEntries_groups]; exact hgrows) hgs hpages.2
      (by rw [hs₁, Repository.addEntries_eq]; simp; omega) (by rw [hs₁, Repository.addEntries_eq]; simp; omega)
    rw [hs₁, Repository.addEntries_groups, Repository.addEntries_with_groups] at hrest
    rw [Repository.addEntries_append]
    exact hrest

end

/-- By induction on the instances, as for properties. -/
theorem importInstances_gives (bundleID : Nat) {svc : Nat} {insts : List Instance} {instances' : Table InstanceRow}
    {es : List Entry}
    {s : σ} (hP : ∀ inst ∈ insts, P inst.name ∧ ∀ x ∈ propsStrings inst.properties, P x)
    (hgrows : (instancesGroups affinity svc (db s).repo.propertyGroups insts).Grows groups')
    (hgrows' : (classInstances svc (db s).repo.instances insts).Grows instances')
    (hes : flattenInstances affinity (groups'.lookup GroupKey.hit)
      (instances'.lookup InstanceKey.hit) svc insts = some es)
    (hinsts : ∀ inst ∈ insts, ∀ id, instances'.lookup InstanceKey.hit ⟨svc, inst.name⟩ = some id → id < 2 ^ 31)
    (hpages : ∀ e ∈ es, ∀ id, e.content = .page id → id < 2 ^ 31)
    (hvalues : (db s).repo.propertyValues.seq + es.length < 2 ^ 31)
    (hproperties : (db s).repo.properties.seq + es.length < 2 ^ 63) :
    Gives (repoOf db) (importInstances conn.ints bundleID svc insts) s ()
      ({ (db s).repo with
        propertyGroups := instancesGroups affinity svc (db s).repo.propertyGroups insts
        instances := classInstances svc (db s).repo.instances insts }.addEntries bundleID es) := by
  induction insts generalizing es s with
  | nil =>
    obtain rfl := Option.some.inj hes
    exact Gives.pure () s
  | cons inst rest ih =>
    obtain ⟨instId, hid, fs, hfs, gs, hgs, rfl⟩ := flattenInstances_cons_eq_some hes
    obtain ⟨⟨hname, hprops⟩, hrest⟩ := List.forall_mem_cons.mp hP
    obtain ⟨hinst, hinsts⟩ := List.forall_mem_cons.mp hinsts
    rw [List.forall_mem_append] at hpages
    rw [List.length_append] at hvalues hproperties
    set got := (db s).repo.instances.getOrCreate InstanceKey.hit InstanceKey.row ⟨svc, inst.name⟩ with hgot
    rw [instancesGroups] at hgrows
    rw [classInstances] at hgrows'
    have hfound : instances'.lookup InstanceKey.hit ⟨svc, inst.name⟩ = some got.1 :=
      ((grows_classInstances svc got.2 rest).trans hgrows').lookup
        (Table.lookup_getOrCreate (InstanceKey.hit_row.mpr rfl))
    obtain rfl : instId = got.1 := Option.some.inj (hid.symm.trans hfound)
    rw [importInstances]
    refine (getOrCreateInstance_gives h svc hname (hinst _ hid)).bind fun s₁ hs₁ => ?_
    change (db s₁).repo = _ at hs₁
    have hprops_give := importProps_gives h bundleID (s := s₁) hprops
      (by rw [hs₁]; exact (grows_instancesGroups svc _ rest).trans hgrows) hfs hpages.1
      (by rw [hs₁]; simp only; omega) (by rw [hs₁]; simp only; omega)
    refine hprops_give.bind fun s₂ hs₂ => ?_
    change (db s₂).repo = _ at hs₂
    have hrest_give := ih (s := s₂) hrest (by rw [hs₂, Repository.addEntries_groups, hs₁]; exact hgrows)
      (by rw [hs₂, Repository.addEntries_instances, hs₁]; exact hgrows') hgs hinsts hpages.2
      (by rw [hs₂, Repository.addEntries_eq, hs₁]; simp; omega)
      (by rw [hs₂, Repository.addEntries_eq, hs₁]; simp; omega)
    rw [hs₂, Repository.addEntries_groups, Repository.addEntries_instances, hs₁,
      Repository.addEntries_with_tables] at hrest_give
    rw [Repository.addEntries_append]
    exact hrest_give

end Import

/-- The service is there, as it is not made. -/
theorem getOrCreateService_gives {name : String} (hP : P name) {svcId : Nat}
    (hservice : (db s).repo.selectService name = some svcId) (hid : svcId < 2 ^ 31) :
    Gives (repoOf db) (getOrCreate conn.ints (.selectService name) (.insertService name)
      "Failed to insert service name: %d\n" "Failed to get service ID: %s\n") s (svcId : Int) (db s).repo := by
  obtain ⟨found, hfirst, rfl⟩ := Option.map_eq_some_iff.mp hservice
  obtain ⟨rest, hrest⟩ := Table.select_of_first_some hfirst
  have hrows : select affinity (db s).repo (.selectService name) = keys (found.1 :: rest) := by rw [select, hrest]
  exact h.getOrCreate_found (by simp [Query.Named, Query.ids]) (by simpa [Query.strings] using hP) hrows hid

/-- Type is NOT NULL, so a new service is not accepted. -/
theorem getOrCreateService_dies {name : String} (hP : P name) (hservice : (db s).repo.selectService name = none) :
    DiesWith (getOrCreate conn.ints (.selectService name) (.insertService name)
      "Failed to insert service name: %d\n" "Failed to get service ID: %s\n") s
        "Failed to insert service name: %d\n" := by
  have hrows : select affinity (db s).repo (.selectService name) = [] := by
    rw [select, Table.select_of_first_none (Option.map_eq_none_iff.mp hservice)]
    rfl
  exact h.getOrCreate_dies (by simp [Query.Named, Query.ids]) (by simp [Query.Named, Query.ids])
    (by simpa [Query.strings] using hP) (by simpa [Query.strings] using hP) trivial hrows rfl

/-- Steps 3 to 5, where the layer passes its CHECK and the service is there. -/
theorem importNew_gives {layer : Layer} {path : String} {klass : Class} {r r' : Repository} {svcId : Nat}
    {es : List Entry} (hs : (db s).repo = r.dropOldBundle (affinity path)) (hpath : P path)
    (hP : ∀ x ∈ klass.strings, P x)
    (hfits : IdsFit affinity r path klass) (himp : Imported affinity layer (affinity path) klass r r' svcId es) :
    Gives (repoOf db) (importNew conn.ints layer.1 path klass) s () r' := by
  obtain ⟨hsvc, hinsts, hentries⟩ := hfits.service svcId himp.service
  have hflat := himp.entries
  rw [himp.groups_eq, himp.instances_eq] at hflat
  obtain ⟨hpages, hvalues, hproperties⟩ := hentries es hflat
  obtain ⟨fs, hfs, gs, hgs, rfl⟩ := flattenClass_eq_some hflat
  rw [List.forall_mem_append] at hpages
  rw [List.length_append] at hvalues hproperties
  obtain ⟨hname, hprops, hnsts⟩ : P klass.name ∧ (∀ x ∈ propsStrings klass.properties, P x) ∧
      ∀ inst ∈ klass.instances, P inst.name ∧ ∀ x ∈ propsStrings inst.properties, P x := by
    simp only [Class.strings, List.forall_mem_cons, List.forall_mem_append, List.forall_mem_flatMap] at hP
    exact hP
  set r₁ := r.replaceBundle (affinity path) layer with hr₁
  have hgroups : r₁.propertyGroups = r.propertyGroups := r.dropOldBundle_groups _
  have hinstances : r₁.instances = r.instances := r.dropOldBundle_instances _
  have hvalues₁ : r₁.propertyValues.seq = r.propertyValues.seq := r.dropOldBundle_values_seq _
  have hproperties₁ : r₁.properties.seq = r.properties.seq := r.dropOldBundle_properties_seq _
  have hservice : r₁.selectService klass.name = some svcId := by
    rw [← himp.service]
    exact congrArg (fun t : Table ServiceRow => (t.first _).map Prod.fst) (r.dropOldBundle_services (affinity path))
  have hperform : perform affinity (db s).repo (.insertBundle path layer.1) = some (r₁, some r.bundles.nextId) := by
    rw [hs, perform_insertBundle]
  rw [importNew]
  refine h.insert_gives (by simp [Query.Named, Query.ids]) (by simpa [Query.strings] using hpath)
    (by rw [hs]; exact insertBundle_room hfits.bundle) hperform hfits.bundle fun s₁ hs₁ => ?_
  refine (getOrCreateService_gives h (s := s₁) hname (by rw [hs₁]; exact hservice) hsvc).bind fun s₂ hs₂ => ?_
  change (db s₂).repo = (db s₁).repo at hs₂
  rw [hs₁] at hs₂
  have hfirst := importProps_gives h r.bundles.nextId (s := s₂) hprops
    (by rw [hs₂, hgroups]; exact grows_instancesGroups svcId _ klass.instances) hfs hpages.1
    (by rw [hs₂, hvalues₁]; omega) (by rw [hs₂, hproperties₁]; omega)
  refine hfirst.bind fun s₃ hs₃ => ?_
  change (db s₃).repo = _ at hs₃
  rw [hs₂, hgroups] at hs₃
  have hsecond := importInstances_gives h r.bundles.nextId (s := s₃) hnsts
    (by rw [hs₃, Repository.addEntries_groups]; exact Table.Grows.refl _)
    (by rw [hs₃, Repository.addEntries_instances, hinstances]; exact Table.Grows.refl _) hgs hinsts hpages.2
    (by rw [hs₃, Repository.addEntries_eq]; simp only [Table.seq_insertAll, List.length_map, hvalues₁]; omega)
    (by rw [hs₃, Repository.addEntries_eq]; simp only [Table.seq_insertAll, List.length_mapIdx, hproperties₁]; omega)
  rw [hs₃, Repository.addEntries_groups, Repository.addEntries_instances, hinstances,
    Repository.addEntries_with_tables] at hsecond
  rw [himp.result, Repository.addEntries_append]
  exact hsecond

/-- The import of a class that is not committed. -/
theorem importNew_dies {layer : Int} {path msg : String} {klass : Class} {r : Repository}
    (hs : (db s).repo = r.dropOldBundle (affinity path)) (hpath : P path) (hname : P klass.name)
    (hbundle : r.bundles.nextId < 2 ^ 31) (hcommit : AddSys.commit affinity layer path klass r = .error msg) :
    DiesWith (importNew conn.ints layer path klass) s msg := by
  have hnamed : (Query.insertBundle path layer).Named := by simp [Query.Named, Query.ids]
  have hstrings : ∀ x ∈ (Query.insertBundle path layer).strings, P x := by simpa [Query.strings] using hpath
  have hroom : (Query.insertBundle path layer).HasRoom (db s).repo := by
    rw [hs]
    exact insertBundle_room hbundle
  by_cases hlayer : layer = 1 ∨ layer = 2 ∨ layer = 3 ∨ layer = 4
  · have hrun := run_importClass affinity ⟨layer, hlayer⟩ path klass r
    cases hservice : r.selectService klass.name with
    | none =>
      rw [hservice] at hrun
      simp only [AddSys.commit, hrun] at hcommit
      obtain rfl := Except.error.inj hcommit
      have hperform : perform affinity (db s).repo (.insertBundle path layer) =
          some (r.replaceBundle (affinity path) ⟨layer, hlayer⟩, some r.bundles.nextId) := by
        rw [hs]
        exact perform_insertBundle affinity r path ⟨layer, hlayer⟩
      obtain ⟨s₁, hexec, hdb⟩ := h.exec_some hnamed hstrings hroom hperform
      have hservice₁ : (db s₁).repo.selectService klass.name = none := by
        rw [hdb, ← hservice]
        exact congrArg (fun t : Table ServiceRow => (t.first _).map Prod.fst) (r.dropOldBundle_services (affinity path))
      obtain ⟨s₂, made, hdies⟩ := (getOrCreateService_dies h (s := s₁) hname hservice₁).bind (f := fun svcId =>
        importProps conn.ints (conn.ints.lastInsertRowid s₁) svcId 0 0 klass.properties >>= fun _ =>
          importInstances conn.ints (conn.ints.lastInsertRowid s₁) svcId klass.instances)
      refine ⟨s₂, ⟨.exec (.insertBundle path layer), true⟩ :: made, ?_⟩
      have hkey : Sql.lastInsertRowid conn.ints s₁ = ⟨.ok (conn.ints.lastInsertRowid s₁), s₁, []⟩ := rfl
      rw [importNew, execf_bind_ok hexec, Script.bind_of_ok hkey, hdies]
      rfl
    | some svcId =>
      obtain ⟨r', hok⟩ : ∃ r', AddSys.commit affinity layer path klass r = .ok r' :=
        commit_isOk_iff.mpr ⟨hlayer, svcId, hservice⟩
      rw [hok] at hcommit
      cases hcommit
  · rw [AddSys.commit, AddSys.importClass, StateT.run_bind, run_deleteOldBundle, ok_bind, StateT.run_bind,
      run_insertBundle_error hlayer] at hcommit
    obtain rfl := Except.error.inj hcommit
    have hperform : perform affinity (db s).repo (.insertBundle path layer) = none := by
      have hinsert : (r.dropOldBundle (affinity path)).insertBundle (affinity path) 0 layer = none := dif_neg hlayer
      rw [perform, hs, hinsert]
      rfl
    exact (h.exec_none hnamed hstrings hroom hperform).bind

/-- With turns for all values, and as long as what `int`s hold fits, import on the connection
commits what `commit` gives, and dies where that dies. -/
theorem importClass_gives (turns : Nat) (layer : Int) {path : String} {klass : Class} (hpath : P path)
    (hP : ∀ x ∈ klass.strings, P x) (hfits : IdsFit affinity (db s).repo path klass)
    (hturns : (db s).repo.propertyValues.rows.length < turns) :
    (∀ r', AddSys.commit affinity layer path klass (db s).repo = .ok r' →
      Gives (repoOf db) (importClass conn.ints turns layer path klass) s () r') ∧
    ∀ msg, AddSys.commit affinity layer path klass (db s).repo = .error msg →
      DiesWith (importClass conn.ints turns layer path klass) s msg := by
  have hbegin : Gives (repoOf db) (execf conn.ints .begin "Failed to begin transaction: %s\n") s () (db s).repo :=
    h.execf_gives (by simp [Query.Named, Query.ids]) (by simp [Query.strings]) trivial rfl
  have hdelete : ∀ s₁, (db s₁).repo = (db s).repo → Gives (repoOf db) (deleteOldBundle conn.ints turns path) s₁ ()
      ((db s).repo.dropOldBundle (affinity path)) := by
    intro s₁ hs₁
    rw [← hs₁] at hfits hturns ⊢
    exact deleteOldBundle_gives h hfits hpath hturns
  unfold importClass
  constructor
  · intro r' hcommit
    obtain ⟨l, svcId, es, rfl, himp⟩ := commit_eq_ok_iff.mp hcommit
    refine hbegin.bind fun s₁ hs₁ => (hdelete s₁ hs₁).bind fun s₂ hs₂ =>
      (importNew_gives h hs₂ hpath hP hfits himp).bind fun s₃ hs₃ => ?_
    change (db s₃).repo = _ at hs₃
    rw [← hs₃]
    exact h.execf_gives (by simp [Query.Named, Query.ids]) (by simp [Query.strings]) trivial rfl
  · intro msg hcommit
    have hname : P klass.name := hP _ List.mem_cons_self
    exact hbegin.bind_dies fun s₁ hs₁ => (hdelete s₁ hs₁).bind_dies fun s₂ hs₂ =>
      (importNew_dies h hs₂ hpath hname hfits.bundle hcommit).bind

end Spec

end Conn

end AddSys

end ServiceManager
