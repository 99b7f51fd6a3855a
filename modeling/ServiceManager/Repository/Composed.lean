import ServiceManager.Repository.Schema
import ServiceManager.Sql.GroupMax

namespace ServiceManager

open Sql

/-- A row of the query's `AllValues` table. -/
structure AllValuesRow where
  level : Nat
  propertyID : Nat
  fkPropertyValueID : Nat
  layer : Int
  propertyKey : String
  deriving DecidableEq

namespace Repository

/-- `InstanceValues`: the properties parented to the instance. -/
def instanceValues (r : Repository) (instanceID : Nat) : List (Nat × Nat) :=
  (r.properties.rows.filter (fun row => row.2.fkParentInstanceID = some instanceID)).map
    (fun row => (row.1, row.2.fkPropertyValueID))

/-- `ServiceValues`: the properties parented to the instance's service. For an
instance that does not exist the subquery is NULL, which equals nothing. -/
def serviceValues (r : Repository) (instanceID : Nat) : List (Nat × Nat) :=
  match r.instances.get? instanceID with
  | none => []
  | some nst =>
    (r.properties.rows.filter (fun row => row.2.fkParentServiceID = some nst.fkParentServiceID)).map
      (fun row => (row.1, row.2.fkPropertyValueID))

/-- The two inner joins that add a value's key and the layer of its bundle. -/
def joinValues (r : Repository) (level : Nat) (props : List (Nat × Nat)) : List AllValuesRow :=
  props.flatMap fun prop =>
    (r.propertyValues.rows.filter (fun val => val.1 = prop.2)).flatMap fun val =>
      (r.bundles.rows.filter (fun bundle => some bundle.1 = val.2.fkBundleID)).map fun bundle =>
        { level, propertyID := prop.1, fkPropertyValueID := prop.2, layer := bundle.2.layer.1,
          propertyKey := val.2.propertyKey }

/-- `AllValues`. The column `Instance` of the query is called `level` here. -/
def allValues (r : Repository) (instanceID : Nat) : List AllValuesRow :=
  (r.joinValues 0 (r.serviceValues instanceID) ++ r.joinValues 1 (r.instanceValues instanceID)).dedup

/-- `MaxInstance`. -/
def maxInstance (all : List AllValuesRow) : List (String × Nat) :=
  groupMax all AllValuesRow.propertyKey AllValuesRow.level

/-- The rows that `MaxLayerForHighestInstance` groups. -/
def highestInstance (all : List AllValuesRow) : List (AllValuesRow × (String × Nat)) :=
  all.flatMap fun v =>
    ((maxInstance all).filter (fun m => v.propertyKey = m.1 ∧ v.level = m.2)).map (fun m => (v, m))

/-- `MaxLayerForHighestInstance`. The column `MaxInstance.Instance` stands beside
MAX without being grouped by: SQLite takes it from a row that has the maximum. -/
def maxLayerForHighestInstance (all : List AllValuesRow) : List (String × Nat × Int) :=
  (groupMax (highestInstance all) (fun row => row.1.propertyKey) (fun row => row.1.layer)).filterMap
    fun g => ((highestInstance all).find? (fun row => row.1.propertyKey = g.1 ∧ row.1.layer = g.2)).map
      fun row => (g.1, row.2.2, g.2)

/-- The composed view of an instance: `queryGetInstancePropertiesComposed.sql`. -/
def queryGetInstancePropertiesComposed (r : Repository) (instanceID : Nat) : List Nat :=
  (r.allValues instanceID).flatMap fun v =>
    ((maxLayerForHighestInstance (r.allValues instanceID)).filter
      (fun m => m.1 = v.propertyKey ∧ m.2.1 = v.level ∧ m.2.2 = v.layer)).map (fun _ => v.propertyID)

/-- A property that competes for the composed view of an instance: one parented
to the instance (level 1) or to the instance's service (level 0) that has a
value, itself with an existing bundle. -/
def IsCandidate (r : Repository) (instanceID level propertyID : Nat) (key : String) (layer : Int) : Prop :=
  ∃ prop val bundleID bundle, (propertyID, prop) ∈ r.properties.rows ∧
    (prop.fkPropertyValueID, val) ∈ r.propertyValues.rows ∧ val.fkBundleID = some bundleID ∧
    (bundleID, bundle) ∈ r.bundles.rows ∧ key = val.propertyKey ∧ layer = bundle.layer.1 ∧
    (level = 1 ∧ prop.fkParentInstanceID = some instanceID ∨
      level = 0 ∧ ∃ nst, (instanceID, nst) ∈ r.instances.rows ∧
        prop.fkParentServiceID = some nst.fkParentServiceID)

theorem mem_joinValues {r : Repository} {level : Nat} {props : List (Nat × Nat)} {v : AllValuesRow} :
    v ∈ r.joinValues level props ↔ (v.propertyID, v.fkPropertyValueID) ∈ props ∧ v.level = level ∧
      ∃ val bundleID bundle, (v.fkPropertyValueID, val) ∈ r.propertyValues.rows ∧
        val.fkBundleID = some bundleID ∧ (bundleID, bundle) ∈ r.bundles.rows ∧
        v.propertyKey = val.propertyKey ∧ v.layer = bundle.layer.1 := by
  constructor
  · intro h
    simp only [joinValues, List.mem_flatMap, List.mem_map, List.mem_filter, decide_eq_true_eq] at h
    obtain ⟨⟨pid, vid⟩, hprop, ⟨vid', val⟩, ⟨hval, rfl⟩, ⟨bid, bundle⟩, ⟨hbundle, hbid⟩, rfl⟩ := h
    exact ⟨hprop, rfl, val, bid, bundle, hval, hbid.symm, hbundle, rfl, rfl⟩
  · rintro ⟨hprop, hlevel, val, bid, bundle, hval, hbid, hbundle, hkey, hlayer⟩
    simp only [joinValues, List.mem_flatMap, List.mem_map, List.mem_filter, decide_eq_true_eq]
    refine ⟨_, hprop, (_, val), ⟨hval, rfl⟩, (bid, bundle), ⟨hbundle, hbid.symm⟩, ?_⟩
    rw [← hlevel, ← hkey, ← hlayer]

theorem mem_instanceValues {r : Repository} {instanceID pid vid : Nat} :
    (pid, vid) ∈ r.instanceValues instanceID ↔ ∃ prop, (pid, prop) ∈ r.properties.rows ∧
      prop.fkPropertyValueID = vid ∧ prop.fkParentInstanceID = some instanceID := by
  simp only [instanceValues, List.mem_map, List.mem_filter, decide_eq_true_eq, Prod.exists, Prod.mk.injEq]
  constructor
  · rintro ⟨_, prop, ⟨hmem, hparent⟩, rfl, hvid⟩
    exact ⟨prop, hmem, hvid, hparent⟩
  · rintro ⟨prop, hmem, hvid, hparent⟩
    exact ⟨pid, prop, ⟨hmem, hparent⟩, rfl, hvid⟩

/-- The properties that the service of an instance has at the top. -/
theorem mem_serviceValues {r : Repository} {instanceID pid vid : Nat} :
    (pid, vid) ∈ r.serviceValues instanceID ↔ ∃ prop nst, (pid, prop) ∈ r.properties.rows ∧
      prop.fkPropertyValueID = vid ∧ (instanceID, nst) ∈ r.instances.rows ∧
      prop.fkParentServiceID = some nst.fkParentServiceID := by
  unfold serviceValues
  split
  next hnone =>
    simp only [List.not_mem_nil, false_iff]
    rintro ⟨_, nst, _, _, hnst, _⟩
    rw [Table.get?_eq_some.mpr hnst] at hnone
    cases hnone
  next nst hsome =>
    have hnst := Table.get?_eq_some.mp hsome
    simp only [List.mem_map, List.mem_filter, decide_eq_true_eq, Prod.exists, Prod.mk.injEq]
    constructor
    · rintro ⟨_, prop, ⟨hmem, hparent⟩, rfl, hvid⟩
      exact ⟨prop, nst, hmem, hvid, hnst, hparent⟩
    · rintro ⟨prop, nst', hmem, hvid, hnst', hparent⟩
      have heq := Table.row_unique hnst hnst'
      subst heq
      exact ⟨pid, prop, ⟨hmem, hparent⟩, rfl, hvid⟩

/-- The rows of `AllValues` are the candidates, each with its value. -/
theorem mem_allValues {r : Repository} {instanceID : Nat} {v : AllValuesRow} :
    v ∈ r.allValues instanceID ↔
      (∃ prop, (v.propertyID, prop) ∈ r.properties.rows ∧ prop.fkPropertyValueID = v.fkPropertyValueID) ∧
      r.IsCandidate instanceID v.level v.propertyID v.propertyKey v.layer := by
  rw [allValues, List.mem_dedup, List.mem_append, mem_joinValues, mem_joinValues, mem_serviceValues,
    mem_instanceValues]
  constructor
  · rintro (⟨⟨prop, nst, hprop, hvid, hnst, hparent⟩, hlevel, val, bid, bundle, hval, hbid, hbundle, hkey, hlayer⟩ |
      ⟨⟨prop, hprop, hvid, hparent⟩, hlevel, val, bid, bundle, hval, hbid, hbundle, hkey, hlayer⟩)
    · exact ⟨⟨prop, hprop, hvid⟩, prop, val, bid, bundle, hprop, hvid ▸ hval, hbid, hbundle, hkey, hlayer,
        Or.inr ⟨hlevel, nst, hnst, hparent⟩⟩
    · exact ⟨⟨prop, hprop, hvid⟩, prop, val, bid, bundle, hprop, hvid ▸ hval, hbid, hbundle, hkey, hlayer,
        Or.inl ⟨hlevel, hparent⟩⟩
  · rintro ⟨⟨prop', hprop', hvid⟩, prop, val, bid, bundle, hprop, hval, hbid, hbundle, hkey, hlayer, hlevel⟩
    have heq := Table.row_unique hprop' hprop
    subst heq
    rcases hlevel with ⟨hlevel, hparent⟩ | ⟨hlevel, nst, hnst, hparent⟩
    · exact Or.inr ⟨⟨prop', hprop, hvid, hparent⟩, hlevel, val, bid, bundle, hvid ▸ hval, hbid, hbundle,
        hkey, hlayer⟩
    · exact Or.inl ⟨⟨prop', nst, hprop, hvid, hnst, hparent⟩, hlevel, val, bid, bundle, hvid ▸ hval, hbid,
        hbundle, hkey, hlayer⟩

theorem IsCandidate.exists_mem_allValues {r : Repository} {instanceID level pid : Nat} {key : String} {layer : Int}
    (h : r.IsCandidate instanceID level pid key layer) :
    ∃ vid, (⟨level, pid, vid, layer, key⟩ : AllValuesRow) ∈ r.allValues instanceID := by
  obtain ⟨prop, _, _, _, hprop, _⟩ := id h
  exact ⟨prop.fkPropertyValueID, mem_allValues.mpr ⟨⟨prop, hprop, rfl⟩, h⟩⟩

theorem mem_highestInstance {all : List AllValuesRow} {v : AllValuesRow} {m : String × Nat} :
    (v, m) ∈ highestInstance all ↔ v ∈ all ∧ m ∈ maxInstance all ∧ v.propertyKey = m.1 ∧ v.level = m.2 := by
  simp only [highestInstance, List.mem_flatMap, List.mem_map, List.mem_filter, decide_eq_true_eq, Prod.mk.injEq]
  constructor
  · rintro ⟨_, hv, _, ⟨hm, hkey, hlevel⟩, rfl, rfl⟩
    exact ⟨hv, hm, hkey, hlevel⟩
  · rintro ⟨hv, hm, hkey, hlevel⟩
    exact ⟨v, hv, m, ⟨hm, hkey, hlevel⟩, rfl, rfl⟩

/-- A row of `AllValues` finds its own key, level and layer in
`MaxLayerForHighestInstance` exactly when no row of its key exceeds it. -/
theorem mem_maxLayerForHighestInstance {all : List AllValuesRow} {v : AllValuesRow} (hv : v ∈ all) :
    (v.propertyKey, v.level, v.layer) ∈ maxLayerForHighestInstance all ↔
      ∀ w ∈ all, w.propertyKey = v.propertyKey → ¬ toLex (v.level, v.layer) < toLex (w.level, w.layer) := by
  rw [← chained_groupMax_iff AllValuesRow.propertyKey hv, maxLayerForHighestInstance,
    List.mem_filterMap]
  constructor
  · rintro ⟨⟨k, l⟩, hg, hrow⟩
    obtain ⟨⟨w, m⟩, hfind, heq⟩ := Option.map_eq_some_iff.mp hrow
    simp only [Prod.mk.injEq] at heq
    obtain ⟨rfl, hm, rfl⟩ := heq
    obtain ⟨hw, hmax, hkey, _⟩ := mem_highestInstance.mp (List.mem_of_find?_eq_some hfind)
    have hfound := List.find?_some hfind
    simp only [Bool.decide_and, Bool.and_eq_true, decide_eq_true_eq] at hfound
    have hmv : m = (v.propertyKey, v.level) := Prod.ext (hkey.symm.trans hfound.1) hm
    rw [hmv] at hmax
    refine ⟨hmax, ?_⟩
    intro y hy hykey hylevel
    have hy' : (y, (v.propertyKey, v.level)) ∈ highestInstance all :=
      mem_highestInstance.mpr ⟨hy, hmax, hykey, hylevel⟩
    exact (mem_groupMax.mp hg).2 _ hy' hykey
  · rintro ⟨hmax, hbound⟩
    have hv' : (v, (v.propertyKey, v.level)) ∈ highestInstance all :=
      mem_highestInstance.mpr ⟨hv, hmax, rfl, rfl⟩
    -- every grouped row of the key stands at the one maximal level
    have hlevel : ∀ w m, (w, m) ∈ highestInstance all → w.propertyKey = v.propertyKey →
        w.level = v.level ∧ m.2 = v.level := by
      intro w m hwm hkey
      obtain ⟨hw, hm, hwkey, hwlevel⟩ := mem_highestInstance.mp hwm
      have hle := (mem_groupMax.mp hmax).2 w hw hkey
      have hge := (mem_groupMax.mp (show (m.1, m.2) ∈ groupMax all _ _ from hm)).2 v hv (hkey.symm.trans hwkey)
      omega
    refine ⟨(v.propertyKey, v.layer), ?_, ?_⟩
    · refine mem_groupMax.mpr ⟨⟨_, hv', rfl, rfl⟩, ?_⟩
      rintro ⟨w, m⟩ hwm hkey
      exact hbound w (mem_highestInstance.mp hwm).1 hkey (hlevel w m hwm hkey).1
    · cases hfind : (highestInstance all).find?
          (fun row => row.1.propertyKey = v.propertyKey ∧ row.1.layer = v.layer) with
      | none =>
        have := List.find?_eq_none.mp hfind _ hv'
        simp at this
      | some row =>
        have hfound := List.find?_some hfind
        simp only [Bool.decide_and, Bool.and_eq_true, decide_eq_true_eq] at hfound
        have hsame := hlevel row.1 row.2 (List.mem_of_find?_eq_some hfind) hfound.1
        simp [hsame.2]

theorem mem_queryGetInstancePropertiesComposed {r : Repository} {instanceID pid : Nat} :
    pid ∈ r.queryGetInstancePropertiesComposed instanceID ↔
      ∃ v ∈ r.allValues instanceID, v.propertyID = pid ∧
        (v.propertyKey, v.level, v.layer) ∈ maxLayerForHighestInstance (r.allValues instanceID) := by
  simp only [queryGetInstancePropertiesComposed, List.mem_flatMap, List.mem_map, List.mem_filter,
    decide_eq_true_eq]
  constructor
  · rintro ⟨v, hv, ⟨k, i, l⟩, ⟨hm, rfl, rfl, rfl⟩, rfl⟩
    exact ⟨v, hv, rfl, hm⟩
  · rintro ⟨v, hv, rfl, hm⟩
    exact ⟨v, hv, _, ⟨hm, rfl, rfl, rfl⟩, rfl⟩

/-- A property is in the composed view exactly when it is a candidate that no
candidate of its key exceeds in level, or in layer at the same level. -/
theorem mem_composed_iff {r : Repository} {instanceID pid : Nat} :
    pid ∈ r.queryGetInstancePropertiesComposed instanceID ↔
      ∃ level key layer, r.IsCandidate instanceID level pid key layer ∧
        ∀ level' pid' layer', r.IsCandidate instanceID level' pid' key layer' →
          ¬ toLex (level, layer) < toLex (level', layer') := by
  rw [mem_queryGetInstancePropertiesComposed]
  constructor
  · rintro ⟨v, hv, rfl, hm⟩
    have hmax := (mem_maxLayerForHighestInstance hv).mp hm
    refine ⟨v.level, v.propertyKey, v.layer, (mem_allValues.mp hv).2, ?_⟩
    intro level' pid' layer' hcand
    obtain ⟨vid, hw⟩ := hcand.exists_mem_allValues
    exact hmax _ hw rfl
  · rintro ⟨level, key, layer, hcand, hmax⟩
    obtain ⟨vid, hv⟩ := hcand.exists_mem_allValues
    refine ⟨_, hv, rfl, (mem_maxLayerForHighestInstance hv).mpr ?_⟩
    intro w hw hkey
    have hwcand := (mem_allValues.mp hw).2
    rw [hkey] at hwcand
    exact hmax _ _ _ hwcand

/-- The property alone determines the key and the layer it competes with. -/
theorem IsCandidate.key_layer_unique {r : Repository} {instanceID instanceID' level level' pid : Nat}
    {key key' : String} {layer layer' : Int} (h : r.IsCandidate instanceID level pid key layer)
    (h' : r.IsCandidate instanceID' level' pid key' layer') : key = key' ∧ layer = layer' := by
  obtain ⟨prop, val, bid, bundle, hprop, hval, hbid, hbundle, rfl, rfl, _⟩ := h
  obtain ⟨prop', val', bid', bundle', hprop', hval', hbid', hbundle', rfl, rfl, _⟩ := h'
  have hp := Table.row_unique hprop hprop'
  subst hp
  have hv := Table.row_unique hval hval'
  subst hv
  rw [hbid] at hbid'
  cases hbid'
  have hb := Table.row_unique hbundle hbundle'
  subst hb
  exact ⟨rfl, rfl⟩

theorem pairwise_maxLayerForHighestInstance (all : List AllValuesRow) :
    (maxLayerForHighestInstance all).Pairwise (fun a b => a.1 ≠ b.1) := by
  refine List.Pairwise.filterMap _ ?_ (pairwise_groupMax _ _ _)
  intro g g' hne a ha b hb
  obtain ⟨_, _, rfl⟩ := Option.map_eq_some_iff.mp ha
  obtain ⟨_, _, rfl⟩ := Option.map_eq_some_iff.mp hb
  exact hne

/-- The composed view lists no property twice. -/
theorem nodup_composed (r : Repository) (instanceID : Nat) :
    (r.queryGetInstancePropertiesComposed instanceID).Nodup := by
  rw [queryGetInstancePropertiesComposed, List.nodup_flatMap]
  constructor
  · intro v _
    rw [List.nodup_iff_pairwise_ne, List.pairwise_map, List.pairwise_filter]
    refine (pairwise_maxLayerForHighestInstance _).imp ?_
    intro a b hne ha hb
    simp only [decide_eq_true_eq] at ha hb
    exact absurd (ha.1.trans hb.1.symm) hne
  · refine (List.nodup_dedup _).pairwise_of_forall_ne ?_
    intro v hv w hw hne pid hpid hpid'
    simp only [List.mem_map, List.mem_filter, decide_eq_true_eq] at hpid hpid'
    obtain ⟨⟨k, i, l⟩, ⟨hm, rfl, rfl, rfl⟩, rfl⟩ := hpid
    obtain ⟨⟨k', i', l'⟩, ⟨hm', rfl, rfl, rfl⟩, hpid⟩ := hpid'
    obtain ⟨⟨prop, hprop, hvid⟩, hcand⟩ := mem_allValues.mp hv
    obtain ⟨⟨prop', hprop', hvid'⟩, hcand'⟩ := mem_allValues.mp hw
    rw [hpid] at hprop' hcand'
    have hrow := Table.row_unique hprop hprop'
    subst hrow
    obtain ⟨hkey, hlayer⟩ := hcand.key_layer_unique hcand'
    have hge := (mem_maxLayerForHighestInstance hv).mp hm w hw hkey.symm
    have hle := (mem_maxLayerForHighestInstance hw).mp hm' v hv hkey
    have hlex := toLex_inj.mp (le_antisymm (not_lt.mp hle) (not_lt.mp hge))
    simp only [Prod.mk.injEq] at hlex
    apply hne
    cases v
    cases w
    simp_all

/-- The composed view consists of the candidates that no candidate of the same
key exceeds in level or, at the same level, in layer, each once. Every key with
a candidate is represented, and where an instance has a candidate for a key no
property that only its service has is shown for that key, whatever the layers. -/
theorem queryGetInstancePropertiesComposed_lexMax (r : Repository) (instanceID : Nat) :
    (r.queryGetInstancePropertiesComposed instanceID).Nodup ∧
    (∀ pid, pid ∈ r.queryGetInstancePropertiesComposed instanceID ↔
      ∃ level key layer, r.IsCandidate instanceID level pid key layer ∧
        ∀ level' pid' layer', r.IsCandidate instanceID level' pid' key layer' →
          ¬ toLex (level, layer) < toLex (level', layer')) ∧
    (∀ level pid key layer, r.IsCandidate instanceID level pid key layer →
      ∃ pid' ∈ r.queryGetInstancePropertiesComposed instanceID, ∃ level' layer',
        r.IsCandidate instanceID level' pid' key layer') ∧
    (∀ pid key layer, r.IsCandidate instanceID 1 pid key layer →
      ∀ pid' ∈ r.queryGetInstancePropertiesComposed instanceID, ∀ level' layer',
        r.IsCandidate instanceID level' pid' key layer' →
          r.IsCandidate instanceID 1 pid' key layer') := by
  refine ⟨r.nodup_composed instanceID, fun pid => mem_composed_iff, ?_, ?_⟩
  · intro level pid key layer hcand
    obtain ⟨vid, hv⟩ := hcand.exists_mem_allValues
    obtain ⟨w, hw, hkey, hmax⟩ := exists_lex_max AllValuesRow.propertyKey AllValuesRow.level
      AllValuesRow.layer hv
    have hkey' : w.propertyKey = key := hkey
    refine ⟨w.propertyID, ?_, w.level, w.layer, hkey' ▸ (mem_allValues.mp hw).2⟩
    rw [mem_queryGetInstancePropertiesComposed]
    exact ⟨w, hw, rfl, (mem_maxLayerForHighestInstance hw).mpr (fun z hz hzk => hmax z hz (hzk.trans hkey))⟩
  · intro pid key layer hcand pid' hpid' level' layer' hcand'
    obtain ⟨level₀, key₀, layer₀, hcand₀, hmax⟩ := mem_composed_iff.mp hpid'
    obtain ⟨rfl, rfl⟩ := hcand₀.key_layer_unique hcand'
    have hnot := hmax 1 pid layer hcand
    have hlevel : level₀ = 1 ∨ level₀ = 0 := by
      obtain ⟨_, _, _, _, _, _, _, _, _, _, hlevel⟩ := hcand₀
      exact hlevel.imp And.left And.left
    rcases hlevel with rfl | rfl
    · exact hcand₀
    · exact absurd (Prod.Lex.toLex_lt_toLex.mpr (Or.inl Nat.zero_lt_one)) hnot

end Repository

end ServiceManager
