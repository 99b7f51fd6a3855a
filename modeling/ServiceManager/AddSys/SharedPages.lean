import ServiceManager.AddSys.ReadBack
import ServiceManager.AddSys.Room

namespace ServiceManager

open Sql

namespace AddSys

/-- Where import puts the members of a page, told from the repository before it:
into a group that exists, or into one made under a name below another place. The
group 0 stands for the service itself. -/
inductive GroupPlace where
  | existing (id : Nat)
  | fresh (parent : GroupPlace) (name : SqlValue)
  deriving DecidableEq

/-- The place of a page below another place. -/
def GroupPlace.step (affinity : String → SqlValue) (groups : Table PropertyGroupRow) (svcId : Nat) :
    GroupPlace → String → GroupPlace
  | .existing id, key =>
    match groups.lookup GroupKey.hit ⟨groupParent svcId id, affinity key⟩ with
    | some found => .existing found
    | none => .fresh (.existing id) (affinity key)
  | .fresh parent name, key => .fresh (.fresh parent name) (affinity key)

/-- The containers of a class with their places before the import. -/
def placedContainers (affinity : String → SqlValue) (groups : Table PropertyGroupRow) (svcId : Nat) (klass : Class) :
    List (Container GroupPlace × List Property) :=
  classContainers (GroupPlace.step affinity groups svcId) (.existing 0) klass

/-- No two lists of properties of the class go to one place, unless both are
empty. -/
def SharesNoPlace (affinity : String → SqlValue) (r : Repository) (klass : Class) : Prop :=
  ∀ svcId, r.selectService klass.name = some svcId →
    (placedContainers affinity r.propertyGroups svcId klass).Pairwise fun c d => c.1 = d.1 → c.2 = [] ∧ d.2 = []

/-- The group that a place has become, `find` looking up groups after the import. -/
def GroupPlace.resolve (find : GroupKey → Option Nat) (svcId : Nat) : GroupPlace → Nat
  | .existing id => id
  | .fresh parent name => (find ⟨groupParent svcId (parent.resolve find svcId), name⟩).getD 0

section

variable {affinity : String → SqlValue} {groups groups' : Table PropertyGroupRow} {svcId : Nat}

theorem GroupPlace.resolve_step (affinity : String → SqlValue) (svcId : Nat) (hgrows : groups.Grows groups')
    (p : GroupPlace) (key : String) :
    (p.step affinity groups svcId key).resolve (groups'.lookup GroupKey.hit) svcId =
      pageGroup affinity (groups'.lookup GroupKey.hit) svcId (p.resolve (groups'.lookup GroupKey.hit) svcId) key := by
  cases p with
  | fresh parent name => rfl
  | existing id =>
    cases hfound : groups.lookup GroupKey.hit ⟨groupParent svcId id, affinity key⟩ with
    | none => simp [GroupPlace.step, hfound, GroupPlace.resolve, pageGroup]
    | some found => simp [GroupPlace.step, hfound, GroupPlace.resolve, pageGroup, hgrows.lookup hfound]

/-- A place that import goes through: what is told to be fresh was not there
before and is there afterwards. -/
inductive GroupPlace.Good (groups groups' : Table PropertyGroupRow) (svcId : Nat) : GroupPlace → Prop
  | root : Good groups groups' svcId (.existing 0)
  | existing {id : Nat} (hid : id ∈ groups.ids) : Good groups groups' svcId (.existing id)
  | fresh {parent : GroupPlace} {name : SqlValue} {id : Nat} (hparent : Good groups groups' svcId parent)
      (hnone : groups.lookup GroupKey.hit
        ⟨groupParent svcId (parent.resolve (groups'.lookup GroupKey.hit) svcId), name⟩ = none)
      (hfound : groups'.lookup GroupKey.hit
        ⟨groupParent svcId (parent.resolve (groups'.lookup GroupKey.hit) svcId), name⟩ = some id) :
      Good groups groups' svcId (.fresh parent name)

/-- The groups after an import: those before it and some made by key. -/
structure GroupsExtend (groups groups' : Table PropertyGroupRow) : Prop where
  grows : groups.Grows groups'
  made : ∀ row ∈ groups'.rows, row ∈ groups.rows ∨ ∃ l, row.2 = groupKeyed.make l
  below : ∀ row ∈ groups.rows, ∀ id, row.2.fkParentPropertyGroupID = some id → id ≤ groups.seq

/-- A group found now and not before is a new row made for its key. -/
theorem lookup_new (hext : GroupsExtend groups groups') {k : GroupKey} {id : Nat}
    (hnone : groups.lookup GroupKey.hit k = none) (hfound : groups'.lookup GroupKey.hit k = some id) :
    groups.seq < id ∧ (id, k.row) ∈ groups'.rows := by
  obtain ⟨row, hrow, hhit⟩ := Table.lookup_mem hfound
  have hnew : (id, row) ∉ groups.rows := by
    intro hold
    have hmiss := Table.lookup_eq_none.mp hnone _ hold
    simp [hhit] at hmiss
  constructor
  · by_contra hle
    exact hnew (hext.grows.mem_of_le hrow (by simpa using hle))
  · rcases hext.made _ hrow with hold | ⟨l, hl⟩
    · exact absurd hold hnew
    · change row = l.row at hl
      subst hl
      obtain rfl := GroupKey.hit_row.mp hhit
      exact hrow

theorem groupParent_injective {p q : Nat} (h : groupParent svcId p = groupParent svcId q) : p = q := by
  unfold groupParent at h
  split at h <;> split at h <;> simp_all

theorem GroupPlace.Good.existing_le {id : Nat} (h : (GroupPlace.existing id).Good groups groups' svcId) :
    id ≤ groups.seq := by
  cases h with
  | root => exact Nat.zero_le _
  | existing hid => exact Table.le_seq hid

theorem GroupPlace.Good.fresh_row (hext : GroupsExtend groups groups') {p : GroupPlace}
    {name : SqlValue} (h : (GroupPlace.fresh p name).Good groups groups' svcId) :
    groups.seq < (GroupPlace.fresh p name).resolve (groups'.lookup GroupKey.hit) svcId ∧
    ((GroupPlace.fresh p name).resolve (groups'.lookup GroupKey.hit) svcId,
      GroupKey.row ⟨groupParent svcId (p.resolve (groups'.lookup GroupKey.hit) svcId), name⟩) ∈ groups'.rows := by
  cases h with
  | fresh hparent hnone hfound =>
    have hnew := lookup_new hext hnone hfound
    rw [GroupPlace.resolve, hfound]
    exact hnew

/-- Different places become different groups. -/
theorem GroupPlace.Good.resolve_injective (hext : GroupsExtend groups groups') {p q : GroupPlace}
    (hp : p.Good groups groups' svcId) (hq : q.Good groups groups' svcId)
    (heq : p.resolve (groups'.lookup GroupKey.hit) svcId = q.resolve (groups'.lookup GroupKey.hit) svcId) : p = q := by
  induction p generalizing q with
  | existing id =>
    have hle := hp.existing_le
    cases q with
    | existing id' => exact congrArg GroupPlace.existing heq
    | fresh parent name =>
      have hlt := (hq.fresh_row hext).1
      rw [← heq] at hlt
      exact absurd hlt (Nat.not_lt.mpr hle)
  | fresh parent name ih =>
    have hrow := hp.fresh_row hext
    cases q with
    | existing id =>
      have hlt := hrow.1
      rw [heq] at hlt
      exact absurd hlt (Nat.not_lt.mpr hq.existing_le)
    | fresh parent' name' =>
      have hrow' := (hq.fresh_row hext).2
      rw [← heq] at hrow'
      have hkey := GroupKey.hit_row.mp
        ((congrArg (GroupKey.hit _) (Table.row_unique hrow.2 hrow')).symm.trans (GroupKey.hit_row.mpr rfl))
      simp only [GroupKey.mk.injEq] at hkey
      obtain ⟨hparent, rfl⟩ := hkey
      cases hp with
      | fresh hgood _ _ =>
        cases hq with
        | fresh hgood' _ _ => rw [ih hgood hgood' (groupParent_injective hparent)]

/-- A place below a good one is good: it is the group that is found there, or one that is new. -/
theorem GroupPlace.Good.step (hext : GroupsExtend groups groups')
    {p : GroupPlace} (hp : p.Good groups groups' svcId) {key : String} {id : Nat}
    (hfound : groups'.lookup GroupKey.hit
      ⟨groupParent svcId (p.resolve (groups'.lookup GroupKey.hit) svcId), affinity key⟩ = some id) :
    (p.step affinity groups svcId key).Good groups groups' svcId := by
  cases p with
  | existing id' =>
    rw [GroupPlace.step]
    split
    next found hold => exact .existing (Table.lookup_mem_ids hold)
    next hnone => exact .fresh hp hnone hfound
  | fresh parent name =>
    refine .fresh hp ?_ hfound
    have hlt := (hp.fresh_row hext).1
    generalize (GroupPlace.fresh parent name).resolve (groups'.lookup GroupKey.hit) svcId = page at hlt
    rw [Table.lookup_eq_none]
    intro row hrow
    have hne : page ≠ 0 := by omega
    by_contra hhit
    have hrefs : page ∈ row.2.fkParentPropertyGroupID.toList :=
      groupKeyed.keyRefs_of_hit (by simpa using hhit) page (by simp [groupParent, hne])
    have hle := hext.below row hrow page (by simpa using hrefs)
    omega

variable {inst : Nat}

mutual

theorem flattenProp_good (hext : GroupsExtend groups groups')
    {p : GroupPlace} (hp : p.Good groups groups' svcId) {prop : Property}
    {es : List Entry} (h : flattenProp affinity (groups'.lookup GroupKey.hit) svcId inst
      (p.resolve (groups'.lookup GroupKey.hit) svcId) prop = some es) :
    ∀ c ∈ propPages (GroupPlace.step affinity groups svcId) p prop, c.1.Good groups groups' svcId := by
  cases prop with
  | string key value => simp [propPages]
  | page key properties =>
    obtain ⟨pageID, hpage, members, hmembers, -⟩ := flattenProp_page_eq_some h
    have hstep := GroupPlace.resolve_step affinity svcId hext.grows p key
    rw [pageGroup, hpage, Option.getD_some] at hstep
    have hgood := hp.step hext hpage
    rw [propPages, List.forall_mem_cons]
    exact ⟨hgood, flattenProps_good hext hgood (hstep ▸ hmembers)⟩

theorem flattenProps_good (hext : GroupsExtend groups groups')
    {p : GroupPlace} (hp : p.Good groups groups' svcId) {props : List Property}
    {es : List Entry} (h : flattenProps affinity (groups'.lookup GroupKey.hit) svcId inst
      (p.resolve (groups'.lookup GroupKey.hit) svcId) props = some es) :
    ∀ c ∈ propsPages (GroupPlace.step affinity groups svcId) p props, c.1.Good groups groups' svcId := by
  cases props with
  | nil => simp [propsPages]
  | cons prop rest =>
    obtain ⟨fs, hfs, gs, hgs, -⟩ := flattenProps_cons_eq_some h
    rw [propsPages, List.forall_mem_append]
    exact ⟨flattenProp_good hext hp hfs, flattenProps_good hext hp hgs⟩

end

/-- A container that import goes through. -/
def Container.Good (groups groups' : Table PropertyGroupRow) (findInst : InstanceKey → Option Nat) (svcId : Nat) :
    Container GroupPlace → Prop
  | .service => True
  | .nst name => ∃ instId, findInst ⟨svcId, name⟩ = some instId
  | .page p => p.Good groups groups' svcId

theorem containersAt_good {findInst : InstanceKey → Option Nat} (hext : GroupsExtend groups groups')
    {top : Container GroupPlace} (htop : top.Good groups groups' findInst svcId) {props : List Property}
    {es : List Entry} (h : flattenProps affinity (groups'.lookup GroupKey.hit) svcId inst 0 props = some es) :
    ∀ c ∈ containersAt (GroupPlace.step affinity groups svcId) (.existing 0) top props,
      c.1.Good groups groups' findInst svcId := by
  rw [containersAt, List.forall_mem_cons, List.forall_mem_map]
  exact ⟨htop, flattenProps_good hext .root h⟩

theorem flattenClass_good {findInst : InstanceKey → Option Nat} (hext : GroupsExtend groups groups') {klass : Class}
    {es : List Entry} (h : flattenClass affinity (groups'.lookup GroupKey.hit) findInst svcId klass = some es) :
    ∀ c ∈ placedContainers affinity groups svcId klass, c.1.Good groups groups' findInst svcId := by
  obtain ⟨fs, hfs, gs, hgs, -⟩ := flattenClass_eq_some h
  have htop : Container.service.Good groups groups' findInst svcId := trivial
  rw [placedContainers, classContainers, List.forall_mem_append]
  refine ⟨containersAt_good hext htop hfs, ?_⟩
  generalize klass.instances = insts at hgs
  induction insts generalizing gs with
  | nil => simp
  | cons nst rest ih =>
    obtain ⟨instId, hid, fs', hfs', gs', hgs', -⟩ := flattenInstances_cons_eq_some hgs
    have hnst : (Container.nst nst.name).Good groups groups' findInst svcId := ⟨instId, hid⟩
    rw [List.flatMap_cons, List.forall_mem_append]
    exact ⟨containersAt_good hext hnst hfs', ih gs' hgs'⟩

/-- Different containers are put below different parents. -/
theorem Container.Good.parent_injective {instances : Table InstanceRow} (hext : GroupsExtend groups groups')
    {c d : Container GroupPlace} (hc : c.Good groups groups' (instances.lookup InstanceKey.hit) svcId)
    (hd : d.Good groups groups' (instances.lookup InstanceKey.hit) svcId) :
    (c.map (GroupPlace.resolve (groups'.lookup GroupKey.hit) svcId)).parent (instances.lookup InstanceKey.hit) svcId =
      (d.map (GroupPlace.resolve (groups'.lookup GroupKey.hit) svcId)).parent (instances.lookup InstanceKey.hit) svcId ↔
      c = d := by
  refine ⟨fun heq => ?_, fun h => h ▸ rfl⟩
  cases c with
  | service => cases d <;> simp_all [Container.map, Container.parent]
  | nst name =>
    obtain ⟨id, hid⟩ := hc
    cases d with
    | nst name' =>
      obtain ⟨id', hid'⟩ := hd
      simp only [Container.map, Container.parent, hid, hid', Option.getD_some, PropertyParent.nst.injEq] at heq
      subst heq
      rw [lookup_name_injective hid hid']
    | _ => simp [Container.map, Container.parent] at heq
  | page p =>
    cases d with
    | page q =>
      simp only [Container.map, Container.parent, PropertyParent.group.injEq] at heq
      rw [GroupPlace.Good.resolve_injective hext hc hd heq]
    | _ => simp [Container.map, Container.parent] at heq

end

section

variable {affinity : String → SqlValue} {klass : Class} {r r' : Repository}

theorem Imported.groups_extend {layer : Layer} {filename : SqlValue} {svcId : Nat} {es : List Entry}
    (h : Imported affinity layer filename klass r r' svcId es) (hfk : r.NoForward) :
    GroupsExtend r.propertyGroups r'.propertyGroups where
  grows := h.grows_groups
  made := by
    rw [h.groups_eq]
    exact classGroups_made affinity svcId klass
  below := hfk.group

/-- The class reads back exactly when no two of its lists go to one place. -/
theorem Imported.readsBack_iff_sharesNoPlace {layer : Layer} {filename : SqlValue} {svcId : Nat} {es : List Entry}
    (h : Imported affinity layer filename klass r r' svcId es) (hfk : r.NoForward) :
    r'.ReadsBack r.bundles.nextId svcId klass ↔ SharesNoPlace affinity r klass := by
  have hext := h.groups_extend hfk
  have hgood := flattenClass_good hext h.entries
  have hmap := classContainers_map (GroupPlace.resolve_step affinity svcId hext.grows) (.existing 0) klass
  have hshares : SharesNoPlace affinity r klass ↔ (placedContainers affinity r.propertyGroups svcId klass).Pairwise
      fun c d => c.1 = d.1 → c.2 = [] ∧ d.2 = [] := by
    refine ⟨fun hall => hall svcId h.service, fun hpair svc hsvc => ?_⟩
    obtain rfl : svcId = svc := Option.some.inj (h.service.symm.trans hsvc)
    exact hpair
  rw [hshares, h.readsBack_iff_pairwise hfk]
  change (classContainers _ ((GroupPlace.existing 0).resolve (r'.propertyGroups.lookup GroupKey.hit) svcId)
    klass).Pairwise
    _ ↔ _
  rw [hmap, List.pairwise_map]
  refine List.Pairwise.iff_of_mem fun {c d} hc hd => ?_
  rw [Container.Good.parent_injective hext (hgood c hc) (hgood d hd)]

/-- The rows that an import wrote read back as the class it was given if and only
if no two of the class's lists of properties go to one place: two instances of
one name, or two pages whose group is found under the same parent and name, be
they pages of the class and of an instance. -/
theorem commit_readsBack_iff {layer : Int} {path : String} (hfk : r.NoForward)
    (h : commit affinity layer path klass r = .ok r') :
    (∃ svcId, r'.selectService klass.name = some svcId ∧ r'.ReadsBack r'.bundles.seq svcId klass) ↔
      SharesNoPlace affinity r klass := by
  obtain ⟨l, svcId, es, -, himp⟩ := commit_eq_ok_iff.mp h
  rw [himp.bundles_seq, ← himp.readsBack_iff_sharesNoPlace hfk]
  constructor
  · rintro ⟨svc, hsvc, hback⟩
    obtain rfl : svcId = svc := Option.some.inj (himp.selectService_eq.symm.trans hsvc)
    exact hback
  · exact fun hback => ⟨svcId, himp.selectService_eq, hback⟩

namespace Conn

end Conn

end

end AddSys

end ServiceManager
