import ServiceManager.AddSys.Carried

namespace ServiceManager

open Sql

namespace AddSys

mutual

/-- The number of values that importing a property makes. -/
def Property.size : Property → Nat
  | .string _ _ => 1
  | .page _ properties => propsSize properties + 1

def propsSize : List Property → Nat
  | [] => 0
  | prop :: rest => prop.size + propsSize rest

end

def instancesSize : List Instance → Nat
  | [] => 0
  | inst :: rest => propsSize inst.properties + 1 + instancesSize rest

/-- A bound for the keys that importing a class takes from any table. -/
def Class.size (klass : Class) : Nat :=
  propsSize klass.properties + instancesSize klass.instances + 1

variable {affinity : String → SqlValue}

section Sizes

mutual

theorem seq_propGroups_le (svc page : Nat) (groups : Table PropertyGroupRow) (prop : Property) :
    (propGroups affinity svc page groups prop).seq ≤ groups.seq + prop.size := by
  cases prop with
  | string key value => exact Nat.le_add_right _ _
  | page key properties =>
    set got := groups.getOrCreate GroupKey.hit GroupKey.row ⟨groupParent svc page, affinity key⟩ with hgot
    have hseq : got.2.seq ≤ groups.seq + 1 := Table.seq_getOrCreate_le groups _
    have hrest : (propsGroups affinity svc got.1 got.2 properties).seq ≤ got.2.seq + propsSize properties :=
      seq_propsGroups_le svc got.1 got.2 properties
    rw [propGroups, ← hgot, Property.size]
    omega

theorem seq_propsGroups_le (svc page : Nat) (groups : Table PropertyGroupRow) (props : List Property) :
    (propsGroups affinity svc page groups props).seq ≤ groups.seq + propsSize props := by
  cases props with
  | nil => exact Nat.le_refl _
  | cons prop rest =>
    have hfirst := seq_propGroups_le svc page groups prop
    have hrest := seq_propsGroups_le svc page (propGroups affinity svc page groups prop) rest
    rw [propsGroups, propsSize]
    omega

end

theorem seq_instancesGroups_le (svcId : Nat) (groups : Table PropertyGroupRow) (insts : List Instance) :
    (instancesGroups affinity svcId groups insts).seq ≤ groups.seq + instancesSize insts := by
  induction insts generalizing groups with
  | nil => exact Nat.le_refl _
  | cons inst rest ih =>
    have hfirst : (propsGroups affinity svcId 0 groups inst.properties).seq ≤ groups.seq + propsSize inst.properties :=
      seq_propsGroups_le svcId 0 groups inst.properties
    have hrest := ih (propsGroups affinity svcId 0 groups inst.properties)
    rw [instancesGroups, instancesSize]
    omega

theorem seq_classGroups_le (svcId : Nat) (groups : Table PropertyGroupRow) (klass : Class) :
    (classGroups affinity svcId groups klass).seq ≤ groups.seq + klass.size := by
  set groups' := propsGroups affinity svcId 0 groups klass.properties with hgroups
  have hfirst : groups'.seq ≤ groups.seq + propsSize klass.properties :=
    seq_propsGroups_le svcId 0 groups klass.properties
  have hrest : (instancesGroups affinity svcId groups' klass.instances).seq ≤ groups'.seq +
      instancesSize klass.instances :=
    seq_instancesGroups_le svcId groups' klass.instances
  rw [classGroups, ← hgroups, Class.size]
  omega

theorem seq_classInstances_le (svcId : Nat) (instances : Table InstanceRow) (insts : List Instance) :
    (classInstances svcId instances insts).seq ≤ instances.seq + instancesSize insts := by
  induction insts generalizing instances with
  | nil => exact Nat.le_refl _
  | cons inst rest ih =>
    set got := instances.getOrCreate InstanceKey.hit InstanceKey.row ⟨svcId, inst.name⟩ with hgot
    have hseq : got.2.seq ≤ instances.seq + 1 := Table.seq_getOrCreate_le instances _
    have hrest := ih got.2
    rw [classInstances, ← hgot, instancesSize]
    omega

variable {find : GroupKey → Option Nat} {findInst : InstanceKey → Option Nat} {svc : Nat}

mutual

theorem length_flattenProp {inst page : Nat} {prop : Property} {es : List Entry}
    (h : flattenProp affinity find svc inst page prop = some es) : es.length = prop.size := by
  cases prop with
  | string key value =>
    obtain rfl := Option.some.inj h
    rfl
  | page key properties =>
    obtain ⟨pageID, -, members, hmembers, rfl⟩ := flattenProp_page_eq_some h
    rw [List.length_append, length_flattenProps hmembers]
    rfl

theorem length_flattenProps {inst page : Nat} {props : List Property} {es : List Entry}
    (h : flattenProps affinity find svc inst page props = some es) : es.length = propsSize props := by
  cases props with
  | nil =>
    obtain rfl := Option.some.inj h
    rfl
  | cons prop rest =>
    obtain ⟨fs, hfs, gs, hgs, rfl⟩ := flattenProps_cons_eq_some h
    rw [List.length_append, length_flattenProp hfs, length_flattenProps hgs]
    rfl

end

theorem length_flattenInstances_le {insts : List Instance} {es : List Entry}
    (h : flattenInstances affinity find findInst svc insts = some es) : es.length ≤ instancesSize insts := by
  induction insts generalizing es with
  | nil =>
    obtain rfl := Option.some.inj h
    exact Nat.le_refl _
  | cons nst rest ih =>
    obtain ⟨instId, -, fs, hfs, gs, hgs, rfl⟩ := flattenInstances_cons_eq_some h
    have hfirst := length_flattenProps hfs
    have hrest := ih hgs
    rw [List.length_append, instancesSize]
    omega

theorem length_flattenClass_le {klass : Class} {es : List Entry}
    (h : flattenClass affinity find findInst svc klass = some es) : es.length ≤ klass.size := by
  obtain ⟨fs, hfs, gs, hgs, rfl⟩ := flattenClass_eq_some h
  have hfirst := length_flattenProps hfs
  have hrest := length_flattenInstances_le hgs
  rw [List.length_append, Class.size]
  omega

end Sizes

end AddSys

open AddSys

/-- The keys of the repository, and `n` more of each table, fit in variables of type `int`, and
so does every RefCount. -/
structure Repository.Roomy (r : Repository) (n : Nat) : Prop where
  refCount : ∀ row ∈ r.bundles.rows, -2 ^ 31 ≤ row.2.refCount ∧ row.2.refCount < 2 ^ 31
  services : r.services.seq < 2 ^ 31
  bundles : r.bundles.seq + n < 2 ^ 31
  instances : r.instances.seq + n < 2 ^ 31
  groups : r.propertyGroups.seq + n < 2 ^ 31
  values : r.propertyValues.seq + n < 2 ^ 31
  properties : r.properties.seq + n < 2 ^ 31

theorem Repository.Roomy.mono {r : Repository} {n m : Nat} (h : r.Roomy m) (hle : n ≤ m) : r.Roomy n := by
  obtain ⟨hrefCount, hservices, hbundles, hinstances, hgroups, hvalues, hproperties⟩ := h
  exact ⟨hrefCount, hservices, by omega, by omega, by omega, by omega, by omega⟩

namespace AddSys

variable {affinity : String → SqlValue} {layer : Int} {path : String} {klass : Class} {r r' : Repository} {n : Nat}

theorem selectService_le {name : String} {svcId : Nat} (h : r.selectService name = some svcId) :
    svcId ≤ r.services.seq := by
  obtain ⟨found, hfound, rfl⟩ := Option.map_eq_some_iff.mp h
  exact Table.le_seq (Table.mem_ids.mpr ⟨found.2, (Table.first_mem hfound).1⟩)

/-- Where there is room for a class, what its import keeps in `int`s fits. -/
theorem IdsFit.of_roomy (h : r.Roomy klass.size) (path : String) : IdsFit affinity r path klass where
  old := by
    intro id rc hold
    obtain ⟨found, hfound, heq⟩ := Option.map_eq_some_iff.mp hold
    obtain ⟨rfl, rfl⟩ := Prod.mk.inj heq
    have hmem := (Table.first_mem hfound).1
    have hid := Table.le_seq (Table.mem_ids.mpr ⟨found.2, hmem⟩)
    have hbundles := h.bundles
    refine ⟨by omega, (h.refCount _ hmem).1, (h.refCount _ hmem).2, ?_⟩
    rintro - row hrow -
    have hvalue := Table.le_seq (Table.mem_ids.mpr ⟨row.2, hrow⟩)
    have hvalues := h.values
    omega
  bundle := by
    have hbundles := h.bundles
    rw [Class.size] at hbundles
    rw [Table.nextId]
    omega
  service := by
    intro svcId hservice
    have hsvc := selectService_le hservice
    refine ⟨Nat.lt_of_le_of_lt hsvc h.services, ?_, ?_⟩
    · intro inst _ id hlookup
      have hid := Table.le_seq (Table.lookup_mem_ids hlookup)
      have hseq := seq_classInstances_le svcId r.instances klass.instances
      have hinstances := h.instances
      rw [Class.size] at hinstances
      omega
    · intro es hes
      have hlength := length_flattenClass_le hes
      refine ⟨?_, Nat.lt_of_le_of_lt (Nat.add_le_add_left hlength _) h.values, ?_⟩
      · intro e he id hpage
        have hid := Table.le_seq ((flattenClass_within hes e he).page id hpage)
        have hseq : (classGroups affinity svcId r.propertyGroups klass).seq ≤ _ :=
          seq_classGroups_le svcId r.propertyGroups klass
        have hgroups := h.groups
        omega
      · have hproperties := h.properties
        omega

theorem Carried.of_roomy (hpath : QuoteFree path) (hstrings : ∀ x ∈ klass.strings, QuoteFree x)
    (h : r.Roomy klass.size) :
    Carried affinity r path klass :=
  ⟨hpath, hstrings, .of_roomy h path⟩

/-- An import leaves the room that its class does not take. -/
theorem commit_roomy (h : r.Roomy (n + klass.size)) (hcommit : commit affinity layer path klass r = .ok r') :
    r'.Roomy n := by
  obtain ⟨l, svcId, es, -, himp⟩ := commit_eq_ok_iff.mp hcommit
  have hlength := length_flattenClass_le himp.entries
  constructor
  · rintro ⟨id, row⟩ hrow
    rcases himp.mem_bundles.mp hrow with ⟨hrow, -⟩ | ⟨-, rfl⟩
    · exact h.refCount _ hrow
    · simp
  · rw [himp.services_eq]
    exact h.services
  · have hbundles := h.bundles
    rw [Class.size] at hbundles
    rw [himp.bundles_seq]
    omega
  · have hseq := seq_classInstances_le svcId r.instances klass.instances
    have hinstances := h.instances
    rw [Class.size] at hinstances
    rw [himp.instances_eq]
    omega
  · have hseq : (classGroups affinity svcId r.propertyGroups klass).seq ≤ _ :=
      seq_classGroups_le svcId r.propertyGroups klass
    have hgroups := h.groups
    rw [himp.groups_eq]
    omega
  · have hvalues := h.values
    rw [himp.values_seq]
    omega
  · have hproperties := h.properties
    rw [himp.properties_seq]
    omega

theorem ofService_roomy {row : ServiceRow} (hn : n < 2 ^ 31) : (Repository.ofService row).Roomy n := by
  constructor <;> simp [Repository.ofService, Table.empty] <;> omega

/-- A service with one instance, and no bundle yet. -/
def oneInstance : Repository :=
  { Repository.ofService ⟨"sshd", "service"⟩ with instances := Table.empty.insert ⟨"default", 1⟩ }

theorem oneInstance_roomy (hn : n + 1 < 2 ^ 31) : oneInstance.Roomy n := by
  constructor <;> simp [oneInstance, Repository.ofService, Table.empty, Table.insert, Table.nextId] <;> omega

section Sshd

/-- The service with its instance and a page. -/
def sshdKlass : Class := ⟨"sshd", [⟨"default", []⟩], [.page "methods" [.string "start" "sshd"]]⟩

/-- The service with another page. -/
def limitsKlass : Class := ⟨"sshd", [], [.page "limits" [.string "files" "64"]]⟩

theorem sshdKlass_quoteFree : ∀ x ∈ sshdKlass.strings, QuoteFree x := by
  have hstrings : sshdKlass.strings = ["sshd", "methods", "start", "sshd", "default"] := rfl
  simp only [hstrings, List.forall_mem_cons, List.not_mem_nil, false_implies, implies_true, and_true]
  and_intros <;> exact quoteFree_ofList (by decide)

theorem limitsKlass_quoteFree : ∀ x ∈ limitsKlass.strings, QuoteFree x := by
  have hstrings : limitsKlass.strings = ["sshd", "limits", "files", "64"] := rfl
  simp only [hstrings, List.forall_mem_cons, List.not_mem_nil, false_implies, implies_true, and_true]
  and_intros <;> exact quoteFree_ofList (by decide)

end Sshd

end AddSys

end ServiceManager
