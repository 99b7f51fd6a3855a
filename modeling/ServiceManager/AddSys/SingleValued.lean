import ServiceManager.AddSys.Containers
import ServiceManager.AddSys.Injection
import ServiceManager.AddSys.Process
import ServiceManager.AddSys.Rows
import ServiceManager.Repository.Composed

namespace ServiceManager

open Sql AddSys

/-- A parent whose properties the composed view composes. -/
def PropertyParent.TopLevel : PropertyParent → Prop
  | .service _ => True
  | .nst _ => True
  | .group _ => False

instance (parent : PropertyParent) : Decidable parent.TopLevel :=
  match parent with
  | .service _ => inferInstanceAs (Decidable True)
  | .nst _ => inferInstanceAs (Decidable True)
  | .group _ => inferInstanceAs (Decidable False)

namespace Repository

/-- The property offers a value for the key below the parent, from a bundle of
the layer. -/
def Offers (r : Repository) (parent : PropertyParent) (propertyID : Nat) (key : String) (bundleID : Nat)
    (layer : Int) : Prop :=
  ∃ prop val bundle, (propertyID, prop) ∈ r.properties.rows ∧ prop.HasColumn parent ∧
    (prop.fkPropertyValueID, val) ∈ r.propertyValues.rows ∧ val.fkBundleID = some bundleID ∧
    (bundleID, bundle) ∈ r.bundles.rows ∧ key = val.propertyKey ∧ layer = bundle.layer.1

/-- No two properties offer a value for one key at one place in one layer. -/
def NoTies (r : Repository) : Prop :=
  ∀ parent : PropertyParent, parent.TopLevel → ∀ pid pid' key b b' layer,
    r.Offers parent pid key b layer → r.Offers parent pid' key b' layer → pid = pid'

def propertyKey (r : Repository) (propertyID : Nat) : Option String :=
  (r.properties.get? propertyID).bind fun prop =>
    (r.propertyValues.get? prop.fkPropertyValueID).map fun val => val.propertyKey

/-- The composed view of every instance has at most one property for a key. -/
def SingleValued (r : Repository) : Prop :=
  ∀ instanceID, ∀ pid ∈ r.queryGetInstancePropertiesComposed instanceID,
    ∀ pid' ∈ r.queryGetInstancePropertiesComposed instanceID, r.propertyKey pid = r.propertyKey pid' → pid = pid'

theorem IsCandidate.offers {r : Repository} {instanceID level pid : Nat} {key : String} {layer : Int}
    (h : r.IsCandidate instanceID level pid key layer) :
    (level = 1 ∧ ∃ b, r.Offers (.nst instanceID) pid key b layer) ∨
      level = 0 ∧ ∃ nst b, (instanceID, nst) ∈ r.instances.rows ∧
        r.Offers (.service nst.fkParentServiceID) pid key b layer := by
  obtain ⟨prop, val, b, bundle, hprop, hval, hb, hbundle, hkey, hlayer, hlevel⟩ := h
  rcases hlevel with ⟨hlevel, hparent⟩ | ⟨hlevel, nst, hnst, hparent⟩
  · exact Or.inl ⟨hlevel, b, prop, val, bundle, hprop, hparent, hval, hb, hbundle, hkey, hlayer⟩
  · exact Or.inr ⟨hlevel, nst, b, hnst, prop, val, bundle, hprop, hparent, hval, hb, hbundle, hkey, hlayer⟩

theorem IsCandidate.propertyKey {r : Repository} {instanceID level pid : Nat} {key : String} {layer : Int}
    (h : r.IsCandidate instanceID level pid key layer) : r.propertyKey pid = some key := by
  obtain ⟨prop, val, b, bundle, hprop, hval, hb, hbundle, rfl, hlayer, hlevel⟩ := h
  simp [Repository.propertyKey, Table.get?_eq_some.mpr hprop, Table.get?_eq_some.mpr hval]

/-- Where no two offers tie, no key has two values. -/
theorem NoTies.singleValued {r : Repository} (h : r.NoTies) : r.SingleValued := by
  intro instanceID pid hpid pid' hpid' hkeys
  obtain ⟨level, key, layer, hcand, hmax⟩ := mem_composed_iff.mp hpid
  obtain ⟨level', key', layer', hcand', hmax'⟩ := mem_composed_iff.mp hpid'
  obtain rfl : key = key' := by
    rw [hcand.propertyKey, hcand'.propertyKey] at hkeys
    exact Option.some.inj hkeys
  have hlex : toLex (level, layer) = toLex (level', layer') :=
    le_antisymm (not_lt.mp (hmax' _ _ _ hcand)) (not_lt.mp (hmax _ _ _ hcand'))
  simp only [toLex_inj, Prod.mk.injEq] at hlex
  obtain ⟨rfl, rfl⟩ := hlex
  rcases hcand.offers with ⟨rfl, b, hoffer⟩ | ⟨rfl, nst, b, hnst, hoffer⟩
  · rcases hcand'.offers with ⟨-, b', hoffer'⟩ | ⟨hlevel, -⟩
    · exact h (.nst instanceID) trivial _ _ _ _ _ _ hoffer hoffer'
    · cases hlevel
  · rcases hcand'.offers with ⟨hlevel, -⟩ | ⟨-, nst', b', hnst', hoffer'⟩
    · cases hlevel
    · have hsame := Table.row_unique hnst hnst'
      subst hsame
      exact h (.service nst.fkParentServiceID) trivial _ _ _ _ _ _ hoffer hoffer'

/-- What an import relies on to tell old rows from new ones: values belong to
bundles that exist, properties to values and instances that exist. -/
structure Linked (r : Repository) : Prop where
  valueBundle : ∀ row ∈ r.propertyValues.rows, ∀ id, row.2.fkBundleID = some id → id ∈ r.bundles.ids
  propertyValue : ∀ row ∈ r.properties.rows, row.2.fkPropertyValueID ∈ r.propertyValues.ids
  nst : ∀ id pid key b layer, r.Offers (.nst id) pid key b layer → id ∈ r.instances.ids

end Repository

namespace AddSys

/-- The import of a class does not bring a tie: its keys are distinct at each
place, and what the repository offers already at the same place, under the same
key and in the same layer belongs to the bundle that the import replaces. -/
structure TieFree (affinity : String → SqlValue) (layer : Int) (path : String) (klass : Class) (r : Repository) :
    Prop where
  classKeys : (klass.properties.map Property.key).Nodup
  instanceKeys : (klass.instances.flatMap fun inst => inst.properties.map fun prop => (inst.name, prop.key)).Nodup
  service : ∀ svcId, r.selectService klass.name = some svcId → ∀ prop ∈ klass.properties, ∀ pid b,
    r.Offers (.service svcId) pid prop.key b layer → r.Replaces (affinity path) b
  nst : ∀ svcId, r.selectService klass.name = some svcId → ∀ inst ∈ klass.instances, ∀ instId,
    r.instances.lookup InstanceKey.hit ⟨svcId, inst.name⟩ = some instId → ∀ prop ∈ inst.properties, ∀ pid b,
      r.Offers (.nst instId) pid prop.key b layer → r.Replaces (affinity path) b

variable {affinity : String → SqlValue} {layer : Layer} {filename : SqlValue} {path : String} {klass : Class}
  {r r' : Repository} {svcId : Nat} {es : List Entry}

/-- What is offered after an import was offered before by a bundle that stayed,
or is an entry of the class. -/
theorem Imported.offers_cases (h : Imported affinity layer filename klass r r' svcId es) (hlinked : r.Linked)
    {parent : PropertyParent} {pid b : Nat} {key : String} {l : Int} (hoffer : r'.Offers parent pid key b l) :
    (r.Offers parent pid key b l ∧ ¬ r.Replaces filename b) ∨
      ∃ i e, es[i]? = some e ∧ pid = r.properties.seq + 1 + i ∧ e.parent = parent ∧ e.key = key ∧ l = layer.1 := by
  obtain ⟨prop, val, bundle, hprop, hcolumn, hval, hb, hbundle, rfl, rfl⟩ := hoffer
  rcases h.mem_properties.mp hprop with ⟨hold, -⟩ | ⟨i, e, he, rfl, rfl⟩
  · obtain ⟨hval', hkept⟩ := (h.mem_values_of_le (Table.le_seq (hlinked.propertyValue _ hold))).mp hval
    refine Or.inl ⟨⟨prop, val, bundle, hold, hcolumn, hval', hb, ?_, rfl, rfl⟩, fun hrep => hkept b hrep hb⟩
    rcases h.mem_bundles.mp hbundle with ⟨hold', -⟩ | ⟨rfl, -⟩
    · exact hold'
    · exact absurd (hlinked.valueBundle _ hval' _ hb) r.bundles.nextId_not_mem
  · rw [PropertyParent.row_value] at hval
    have hrow : (r.propertyValues.seq + 1 + i, e.valueRow r.bundles.nextId) ∈ r'.propertyValues.rows :=
      h.mem_values.mpr (Or.inr ⟨i, e, he, rfl, rfl⟩)
    have hsame := Table.row_unique hval hrow
    subst hsame
    refine Or.inr ⟨i, e, he, rfl, PropertyParent.hasColumn_row.mp hcolumn, (e.valueRow_key _).symm, ?_⟩
    rw [Entry.valueRow_bundle, Option.some.injEq] at hb
    subst hb
    rcases h.mem_bundles.mp hbundle with ⟨hold, -⟩ | ⟨-, rfl⟩
    · exact absurd (Table.mem_ids.mpr ⟨_, hold⟩) r.bundles.nextId_not_mem
    · rfl

/-- The keys of the class with the places the composed view composes. -/
def topPairs (findInst : InstanceKey → Option Nat) (svcId : Nat) (klass : Class) : List (PropertyParent × String) :=
  klass.properties.map (fun prop => (.service svcId, prop.key)) ++
    klass.instances.flatMap fun inst =>
      inst.properties.map fun prop => (.nst ((findInst ⟨svcId, inst.name⟩).getD 0), prop.key)

section

variable {find : GroupKey → Option Nat} {findInst : InstanceKey → Option Nat} {step : Nat → String → Nat}

/-- Of the containers of a list of properties, only the first is at the top. -/
theorem top_containersAt (top : Container Nat) (htop : (top.parent findInst svcId).TopLevel) (props : List Property) :
    (((containersAt step 0 top props).flatMap (Container.entries affinity find findInst svcId)).filter
      (fun e => e.parent.TopLevel)).map (fun e => (e.parent, e.key)) =
      props.map fun prop => (top.parent findInst svcId, prop.key) := by
  have hpages : ((((propsPages step 0 props).map fun c => (Container.page c.1, c.2)).flatMap
      (Container.entries affinity find findInst svcId)).filter fun e => e.parent.TopLevel) = [] := by
    rw [List.filter_eq_nil_iff]
    intro e he
    simp only [List.mem_flatMap, List.mem_map, Container.entries, memberEntries] at he
    obtain ⟨_, ⟨c, -, rfl⟩, prop, -, rfl⟩ := he
    exact fun hdec => (of_decide_eq_true hdec : False)
  have hown : (Container.entries affinity find findInst svcId (top, props)).filter (fun e => e.parent.TopLevel) =
      Container.entries affinity find findInst svcId (top, props) := by
    rw [List.filter_eq_self]
    intro e he
    obtain ⟨prop, -, rfl⟩ := List.mem_map.mp he
    simpa using htop
  rw [containersAt, List.flatMap_cons, List.filter_append, hpages, hown, List.append_nil, Container.entries,
    memberEntries, List.map_map]
  rfl

theorem ClassLaidOut.top_perm
    (h : ClassLaidOut affinity find findInst svcId (classContainers step 0 klass) es) :
    ((es.filter fun e => e.parent.TopLevel).map fun e => (e.parent, e.key)).Perm (topPairs findInst svcId klass) := by
  refine ((h.perm.filter _).map _).trans (List.Perm.of_eq ?_)
  rw [classContainers, List.flatMap_append, List.filter_append, List.map_append,
    top_containersAt .service trivial, List.flatMap_assoc, List.filter_flatMap, List.map_flatMap]
  congr 2
  funext inst
  exact top_containersAt (.nst inst.name) trivial inst.properties

end

/-- No key comes twice at the top if none does in the class. -/
theorem nodup_topPairs {findInst : InstanceKey → Option Nat}
    (hfound : ∀ inst ∈ klass.instances, ∃ instId, findInst ⟨svcId, inst.name⟩ = some instId)
    (hinj : ∀ name name' id, findInst ⟨svcId, name⟩ = some id → findInst ⟨svcId, name'⟩ = some id → name = name')
    (hclass : (klass.properties.map Property.key).Nodup)
    (hinsts : (klass.instances.flatMap fun inst => inst.properties.map fun prop => (inst.name, prop.key)).Nodup) :
    (topPairs findInst svcId klass).Nodup := by
  have hservice : (klass.properties.map fun prop => (PropertyParent.service svcId, prop.key)).Nodup := by
    have hmap := hclass.map (f := fun key => (PropertyParent.service svcId, key)) (by intro a b h; simpa using h)
    rwa [List.map_map] at hmap
  have hnst : (klass.instances.flatMap fun inst => inst.properties.map fun prop =>
      (PropertyParent.nst ((findInst ⟨svcId, inst.name⟩).getD 0), prop.key)).Nodup := by
    have hmap := hinsts.map_on (f := fun pair : String × String =>
      (PropertyParent.nst ((findInst ⟨svcId, pair.1⟩).getD 0), pair.2)) ?_
    · simpa [List.map_flatMap, Function.comp_def] using hmap
    · rintro ⟨name, key⟩ hmem ⟨name', key'⟩ hmem' heq
      simp only [List.mem_flatMap, List.mem_map, Prod.mk.injEq] at hmem hmem'
      obtain ⟨inst, hinst, -, -, rfl, -⟩ := hmem
      obtain ⟨inst', hinst', -, -, rfl, -⟩ := hmem'
      obtain ⟨id, hid⟩ := hfound inst hinst
      obtain ⟨id', hid'⟩ := hfound inst' hinst'
      simp only [hid, hid', Option.getD_some, Prod.mk.injEq, PropertyParent.nst.injEq] at heq
      obtain ⟨rfl, rfl⟩ := heq
      rw [hinj _ _ _ hid hid']
  rw [topPairs, List.nodup_append]
  refine ⟨hservice, hnst, ?_⟩
  intro a ha b hb
  obtain ⟨prop, -, rfl⟩ := List.mem_map.mp ha
  obtain ⟨inst, -, hb⟩ := List.mem_flatMap.mp hb
  obtain ⟨prop', -, rfl⟩ := List.mem_map.mp hb
  simp

/-- Where the pairs of place and key of the entries are distinct, an entry is
known by them. -/
theorem index_unique (hnodup : ((es.filter fun e => e.parent.TopLevel).map fun e => (e.parent, e.key)).Nodup)
    {i j : Nat} {e e' : Entry} (he : es[i]? = some e) (he' : es[j]? = some e') (htop : e.parent.TopLevel)
    (hparent : e.parent = e'.parent) (hkey : e.key = e'.key) : i = j := by
  rw [List.nodup_iff_pairwise_ne, List.pairwise_map, List.pairwise_filter, List.pairwise_iff_getElem] at hnodup
  obtain ⟨hi, rfl⟩ := List.getElem?_eq_some_iff.mp he
  obtain ⟨hj, rfl⟩ := List.getElem?_eq_some_iff.mp he'
  have htop' : es[j].parent.TopLevel := hparent ▸ htop
  rcases Nat.lt_trichotomy i j with hlt | heq | hlt
  · exact absurd (Prod.ext hparent hkey) (hnodup i j hi hj hlt (by simpa using htop) (by simpa using htop'))
  · exact heq
  · exact absurd (Prod.ext hparent.symm hkey.symm)
      (hnodup j i hj hi hlt (by simpa using htop') (by simpa using htop))

namespace Imported

variable (h : Imported affinity layer (affinity path) klass r r' svcId es) (hlinked : r.Linked)
  (htie : TieFree affinity layer.1 path klass r)

include h

theorem top_perm : ((es.filter fun e => e.parent.TopLevel).map fun e => (e.parent, e.key)).Perm
    (topPairs (r'.instances.lookup InstanceKey.hit) svcId klass) :=
  (flattenClass_laidOut (fun _ _ => Table.lookup_ne_zero) (fun _ _ => Table.lookup_ne_zero) h.entries).top_perm

include hlinked htie

/-- A new entry does not meet an old offer of its place, key and layer. -/
theorem no_tie_with_old {i pid b : Nat} {e : Entry} (he : es[i]? = some e) (htop : e.parent.TopLevel)
    (hoffer : r.Offers e.parent pid e.key b layer.1) : r.Replaces (affinity path) b := by
  have hmem : (e.parent, e.key) ∈ topPairs (r'.instances.lookup InstanceKey.hit) svcId klass := by
    rw [← h.top_perm.mem_iff]
    exact List.mem_map.mpr ⟨e, List.mem_filter.mpr ⟨List.mem_of_getElem? he, by simpa using htop⟩, rfl⟩
  rcases List.mem_append.mp hmem with hmem | hmem
  · obtain ⟨prop, hprop, heq⟩ := List.mem_map.mp hmem
    simp only [Prod.mk.injEq] at heq
    rw [← heq.1, ← heq.2] at hoffer
    exact htie.service svcId h.service prop hprop pid b hoffer
  · obtain ⟨inst, hinst, hmem⟩ := List.mem_flatMap.mp hmem
    obtain ⟨prop, hprop, heq⟩ := List.mem_map.mp hmem
    simp only [Prod.mk.injEq] at heq
    obtain ⟨id, hid⟩ := flattenClass_found h.entries inst hinst
    rw [hid, Option.getD_some] at heq
    rw [← heq.1, ← heq.2] at hoffer
    -- the instance has an old offer, so it is itself an old one
    have hold := hlinked.nst id pid _ b _ hoffer
    obtain ⟨row, hrow, hhit⟩ := Table.lookup_mem hid
    have hrow' := h.grows_instances.mem_of_le hrow (Table.le_seq hold)
    cases hlookup : r.instances.lookup InstanceKey.hit ⟨svcId, inst.name⟩ with
    | none =>
      have hmiss := Table.lookup_eq_none.mp hlookup _ hrow'
      simp [hhit] at hmiss
    | some id' =>
      have hsame := h.grows_instances.lookup hlookup
      rw [hid, Option.some.injEq] at hsame
      subst hsame
      exact htie.nst svcId h.service inst hinst id hlookup prop hprop pid b hoffer

theorem noTies (hold : r.NoTies) : r'.NoTies := by
  intro parent htop pid pid' key b b' l hoffer hoffer'
  have hnodup := h.top_perm.nodup_iff.mpr (nodup_topPairs (flattenClass_found h.entries)
    (fun _ _ _ => lookup_name_injective) htie.classKeys htie.instanceKeys)
  rcases h.offers_cases hlinked hoffer with ⟨hoffer, hnot⟩ | ⟨i, e, he, rfl, rfl, rfl, rfl⟩
  · rcases h.offers_cases hlinked hoffer' with ⟨hoffer', -⟩ | ⟨i, e, he, rfl, rfl, rfl, rfl⟩
    · exact hold parent htop _ _ _ _ _ _ hoffer hoffer'
    · exact absurd (h.no_tie_with_old hlinked htie he htop hoffer) hnot
  · rcases h.offers_cases hlinked hoffer' with ⟨hoffer', hnot⟩ | ⟨j, e', he', rfl, hparent, hkey, -⟩
    · exact absurd (h.no_tie_with_old hlinked htie he htop hoffer') hnot
    · rw [index_unique hnodup he he' htop hparent.symm hkey.symm]

omit htie in
theorem linked : r'.Linked where
  valueBundle := h.valueBundle_of hlinked.valueBundle
  propertyValue := h.propertyValue hlinked.propertyValue
  nst := by
    intro id pid key b l hoffer
    rcases h.offers_cases hlinked hoffer with ⟨hoffer, -⟩ | ⟨i, e, he, -, hparent, -⟩
    · exact h.grows_instances.mem_ids (hlinked.nst id pid key b l hoffer)
    · exact (h.within e (List.mem_of_getElem? he)).nst id hparent

end Imported

/-- One run of the program: the layer and the path it is given and the class that
the file describes. -/
structure Job where
  layer : Int
  path : String
  klass : Class

/-- The repositories that committed imports lead to, each import meeting a
condition on the repository it finds. -/
inductive Reaches (affinity : String → SqlValue) (cond : Job → Repository → Prop) (r : Repository) : Repository → Prop
  | refl : Reaches affinity cond r r
  | step {q q' : Repository} {job : Job} (hreach : Reaches affinity cond r q) (hcond : cond job q)
      (hcommit : commit affinity job.layer job.path job.klass q = .ok q') : Reaches affinity cond r q'

/-- A repository without bundles, whose values and properties refer to nothing
that is missing. Services, instances and groups are arbitrary. -/
structure NoBundles (r : Repository) : Prop where
  bundles : r.bundles.rows = []
  valueBundle : ∀ row ∈ r.propertyValues.rows, row.2.fkBundleID = none
  propertyValue : ∀ row ∈ r.properties.rows, row.2.fkPropertyValueID ∈ r.propertyValues.ids

theorem NoBundles.no_offers (h : NoBundles r) {parent : PropertyParent} {pid b : Nat} {key : String} {l : Int} :
    ¬ r.Offers parent pid key b l := by
  rintro ⟨prop, val, bundle, -, -, -, -, hbundle, -⟩
  rw [h.bundles] at hbundle
  cases hbundle

theorem NoBundles.linked (h : NoBundles r) : r.Linked where
  valueBundle row hrow id hid := by
    rw [h.valueBundle row hrow] at hid
    cases hid
  propertyValue := h.propertyValue
  nst _ _ _ _ _ hoffer := absurd hoffer h.no_offers

/-- What each import keeps, the whole history keeps. -/
theorem Reaches.noTies (hstart : NoBundles r)
    (hreach : Reaches affinity (fun job q => TieFree affinity job.layer job.path job.klass q) r r') :
    r'.NoTies ∧ r'.Linked := by
  induction hreach with
  | refl => exact ⟨fun _ _ _ _ _ _ _ _ hoffer => absurd hoffer hstart.no_offers, hstart.linked⟩
  | step _ htie hcommit ih =>
    obtain ⟨hties, hlinked⟩ := ih
    obtain ⟨l, svcId, es, hl, himp⟩ := commit_eq_ok_iff.mp hcommit
    rw [← hl] at htie
    exact ⟨himp.noTies hlinked htie hties, himp.linked hlinked⟩

/-- Starting without bundles, the composed view is single-valued after any history
of imports each of which brings no tie. -/
theorem reaches_singleValued (hstart : NoBundles r)
    (hreach : Reaches affinity (fun job q => TieFree affinity job.layer job.path job.klass q) r r') :
    r'.SingleValued :=
  (hreach.noTies hstart).1.singleValued

theorem oneInstance_noBundles : NoBundles oneInstance where
  bundles := rfl
  valueBundle := by simp [oneInstance, Repository.ofService, Table.empty]
  propertyValue := by simp [oneInstance, Repository.ofService, Table.empty]

namespace Conn

section Reaches

variable {σ : Type}

/-- The same for imports that the program commits. -/
inductive Reaches (conn : Connection Query σ) (db : σ → Db) (cond : Job → Repository → Prop) (r : Repository) :
    Repository → Prop
  | refl : Reaches conn db cond r r
  | step {q q' : Repository} {job : Job} (hreach : Reaches conn db cond r q) (hcond : cond job q)
      (hcommits : CommitsTo conn db job.layer job.path job.klass q q') : Reaches conn db cond r q'

/-- An import that brings no tie, in strings without a quote and with keys that fit. -/
structure TieFree (affinity : String → SqlValue) (job : Job) (r : Repository) : Prop where
  tieFree : AddSys.TieFree affinity job.layer job.path job.klass r
  carried : Carried affinity r job.path job.klass

variable {sqlite : Connection (List Char) σ} {db : σ → Db} (h : Understands affinity sqlite db)

include h

theorem Reaches.commits (hreach : Reaches (program sqlite) db (TieFree affinity) r r') :
    AddSys.Reaches affinity (fun job q => AddSys.TieFree affinity job.layer job.path job.klass q) r r' := by
  induction hreach with
  | refl => exact .refl
  | step _ hcond hcommits ih => exact .step ih hcond.tieFree (hcommits.commit h hcond.carried)

end Reaches

/-- A class with a port. -/
def portKlass (port : String) : Class := ⟨"sshd", [], [.string "port" port]⟩

theorem portKlass_quoteFree {port : String} (hport : QuoteFree port) : ∀ x ∈ (portKlass port).strings, QuoteFree x := by
  have hstrings : (portKlass port).strings = ["sshd", "port", port] := rfl
  simp only [hstrings, List.forall_mem_cons, List.not_mem_nil, false_implies, implies_true, and_true, hport]
  and_intros <;> exact quoteFree_ofList (by decide)

end Conn

end AddSys

end ServiceManager
