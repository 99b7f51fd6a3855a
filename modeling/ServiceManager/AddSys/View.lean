import ServiceManager.AddSys.Contents

namespace ServiceManager

open Sql

namespace AddSys

/-- The contents offer a property to the instance of the service: at level 0 what a
class of the service has itself, at level 1 what it has for an instance of the name. -/
def Contents.Offers (m : Contents) (service nst : String) (level : Nat) (layer : Int) (prop : Property) : Prop :=
  ∃ filename l klass, m filename = some (l, klass) ∧ klass.name = service ∧ layer = l.1 ∧
    (level = 1 ∧ (∃ inst ∈ klass.instances, inst.name = nst ∧ prop ∈ inst.properties) ∨
      level = 0 ∧ prop ∈ klass.properties)

/-- The property counts for the instance: none of its key is offered nearer the
instance or, as near, in a higher layer. -/
def Contents.Shows (m : Contents) (service nst : String) (prop : Property) : Prop :=
  ∃ level layer, m.Offers service nst level layer prop ∧
    ∀ level' layer' prop', m.Offers service nst level' layer' prop' → prop'.key = prop.key →
      ¬ toLex (level, layer) < toLex (level', layer')

/-- The value is the one of a property: its key with the text, or with the group
that the pages of the key share in the service. -/
def ValueOf (affinity : String → SqlValue) (r : Repository) (svcId : Nat) (val : PropertyValueRow) : Property → Prop
  | .string key value => val.propertyKey = key ∧ val.type = .string ∧ val.stringValue = some value
  | .page key _ => val.propertyKey = key ∧ val.type = .page ∧ ∃ groupID,
      r.propertyGroups.lookup GroupKey.hit ⟨.service svcId, affinity key⟩ = some groupID ∧
        val.fkPageValuePropertyGroupID = some groupID

/-- The property row leads to a value of the property. -/
def Reads (affinity : String → SqlValue) (r : Repository) (svcId pid : Nat) (prop : Property) : Prop :=
  ∃ row val, (pid, row) ∈ r.properties.rows ∧ (row.fkPropertyValueID, val) ∈ r.propertyValues.rows ∧
    ValueOf affinity r svcId val prop

/-- The entry of a property of the class, or of one of its instances. -/
def topEntry (affinity : String → SqlValue) (find : GroupKey → Option Nat) (svcId : Nat) (parent : PropertyParent)
    (prop : Property) : Entry :=
  ⟨parent, prop.key, memberContent affinity find svcId 0 prop⟩

variable {affinity : String → SqlValue} {r : Repository} {m : Contents} {klass : Class}
  {svcId vseq pseq bundleID : Nat} {es : List Entry} {service nst : String} {instanceID : Nat}

/-- The entries at the top of a class are its own properties and those of its instances. -/
theorem mem_top_iff {find : GroupKey → Option Nat} {findInst : InstanceKey → Option Nat} {step : Nat → String → Nat}
    (h : ClassLaidOut affinity find findInst svcId (classContainers step 0 klass) es) {e : Entry}
    (htop : e.parent.TopLevel) : e ∈ es ↔
      (∃ prop ∈ klass.properties, e = topEntry affinity find svcId (.service svcId) prop) ∨
      ∃ inst ∈ klass.instances, ∃ prop ∈ inst.properties,
        e = topEntry affinity find svcId (.nst ((findInst ⟨svcId, inst.name⟩).getD 0)) prop := by
  -- a page's members are below a group
  have hpage : ∀ (top : Container Nat) (props : List Property), top.pageId = 0 →
      ((∃ c ∈ containersAt step 0 top props, e ∈ Container.entries affinity find findInst svcId c) ↔
        ∃ prop ∈ props, e = topEntry affinity find svcId (top.parent findInst svcId) prop) := by
    intro top props hid
    constructor
    · rintro ⟨c, hc, he⟩
      obtain ⟨prop, hprop, rfl⟩ := List.mem_map.mp he
      rcases List.mem_cons.mp hc with rfl | hc
      · exact ⟨prop, hprop, by rw [topEntry, hid]⟩
      · obtain ⟨page, -, rfl⟩ := List.mem_map.mp hc
        exact htop.elim
    · rintro ⟨prop, hprop, rfl⟩
      refine ⟨(top, props), List.mem_cons_self, List.mem_map.mpr ⟨prop, hprop, ?_⟩⟩
      rw [topEntry, hid]
  rw [h.perm.mem_iff, List.mem_flatMap, classContainers]
  simp only [List.mem_append, or_and_right, exists_or]
  refine or_congr (hpage .service klass.properties rfl) ?_
  constructor
  · rintro ⟨c, hc, he⟩
    obtain ⟨inst, hinst, hc⟩ := List.mem_flatMap.mp hc
    exact ⟨inst, hinst, (hpage (.nst inst.name) inst.properties rfl).mp ⟨c, hc, he⟩⟩
  · rintro ⟨inst, hinst, hprop⟩
    obtain ⟨c, hc, he⟩ := (hpage (.nst inst.name) inst.properties rfl).mpr hprop
    exact ⟨c, List.mem_flatMap.mpr ⟨inst, hinst, hc⟩, he⟩

theorem selectService_row {name : String} (h : r.selectService name = some svcId) :
    ∃ row, (svcId, row) ∈ r.services.rows ∧ row.name = name := by
  obtain ⟨⟨id, row⟩, hfirst, rfl⟩ := Option.map_eq_some_iff.mp h
  obtain ⟨hmem, hname⟩ := Table.first_mem hfirst
  exact ⟨row, hmem, by simpa using hname⟩

/-- The services of different names have different rows. -/
theorem selectService_injective {name name' : String} (h : r.selectService name = some svcId)
    (h' : r.selectService name' = some svcId) : name = name' := by
  obtain ⟨row, hrow, rfl⟩ := selectService_row h
  obtain ⟨row', hrow', rfl⟩ := selectService_row h'
  rw [Table.row_unique hrow hrow']

namespace Holds

variable (h : Holds affinity r bundleID klass svcId vseq pseq es)

include h

theorem laidOut : ClassLaidOut affinity (r.propertyGroups.lookup GroupKey.hit) (r.instances.lookup InstanceKey.hit)
    svcId (classContainers (pageGroup affinity (r.propertyGroups.lookup GroupKey.hit) svcId) 0 klass) es :=
  flattenClass_laidOut (fun _ _ => Table.lookup_ne_zero) (fun _ _ => Table.lookup_ne_zero) h.entries

/-- A property whose value is the bundle's is one of the entries. -/
theorem entry_of_property {pid : Nat} {row : PropertyRow} {val : PropertyValueRow}
    (hrow : (pid, row) ∈ r.properties.rows) (hval : (row.fkPropertyValueID, val) ∈ r.propertyValues.rows)
    (hb : val.fkBundleID = some bundleID) :
    ∃ e ∈ es, row = e.parent.row row.fkPropertyValueID ∧ val = e.valueRow bundleID := by
  obtain ⟨i, e, he, -, hproperty⟩ := (h.properties pid row).mp ⟨hrow, val, hval, hb⟩
  obtain ⟨j, e', he', hid, hvalue⟩ := (h.values _ val).mp ⟨hval, hb⟩
  have hvid : row.fkPropertyValueID = vseq + 1 + i := by rw [hproperty, PropertyParent.row_value]
  obtain rfl : i = j := by omega
  rw [he, Option.some.injEq] at he'
  subst he'
  exact ⟨e, List.mem_of_getElem? he, by rw [hvid, ← hproperty], hvalue⟩

/-- Each entry has a property and its value. -/
theorem property_of_entry {e : Entry} (he : e ∈ es) : ∃ pid row, (pid, row) ∈ r.properties.rows ∧
    (row.fkPropertyValueID, e.valueRow bundleID) ∈ r.propertyValues.rows ∧
      row = e.parent.row row.fkPropertyValueID := by
  obtain ⟨i, hi⟩ := List.mem_iff_getElem?.mp he
  obtain ⟨hrow, -⟩ := (h.properties _ _).mpr ⟨i, e, hi, rfl, rfl⟩
  obtain ⟨hval, -⟩ := (h.values _ _).mpr ⟨i, e, hi, rfl, rfl⟩
  refine ⟨_, _, hrow, ?_, ?_⟩
  · rwa [PropertyParent.row_value]
  · rw [PropertyParent.row_value]

/-- The value of a top entry is the one of its property. -/
theorem valueOf_topEntry {parent : PropertyParent} {prop : Property}
    (he : topEntry affinity (r.propertyGroups.lookup GroupKey.hit) svcId parent prop ∈ es) :
    ValueOf affinity r svcId
      ((topEntry affinity (r.propertyGroups.lookup GroupKey.hit) svcId parent prop).valueRow bundleID) prop := by
  cases prop with
  | string key value => exact ⟨rfl, rfl, rfl⟩
  | page key properties =>
    have hmem := (flattenClass_within h.entries _ he).page _ rfl
    have hne := Nat.pos_iff_ne_zero.mp (Table.id_pos hmem)
    refine ⟨rfl, rfl, ?_⟩
    cases hfind : r.propertyGroups.lookup GroupKey.hit ⟨.service svcId, affinity key⟩ with
    | none => exact absurd (by simp [pageGroup, groupParent, hfind]) hne
    | some groupID =>
      refine ⟨groupID, rfl, ?_⟩
      simp [topEntry, memberContent, Entry.valueRow, pageGroup, groupParent, hfind]

end Holds

namespace Represents

variable (hrep : Represents affinity m r) (hservice : r.selectService service = some svcId)
  (hinstance : r.instances.lookup InstanceKey.hit ⟨svcId, nst⟩ = some instanceID)

include hrep hservice hinstance

/-- What competes for the composed view is offered by the contents. -/
theorem offers_of_candidate {level pid : Nat} {key : String} {layer : Int}
    (hcand : r.IsCandidate instanceID level pid key layer) :
    ∃ prop, m.Offers service nst level layer prop ∧ prop.key = key ∧ Reads affinity r svcId pid prop := by
  obtain ⟨row, val, b, bundle, hrow, hval, hb, hbundle, rfl, rfl, hlevel⟩ := hcand
  obtain ⟨-, klass, svc, vseq, pseq, es, hfile, hheld⟩ := hrep.bundle b bundle hbundle
  obtain ⟨e, he, hparent, rfl⟩ := hheld.entry_of_property hrow hval hb
  obtain ⟨nstRow, hnst, hhit⟩ := Table.lookup_mem hinstance
  simp only [InstanceKey.hit, decide_eq_true_eq] at hhit
  have hreads : ∀ parent prop, e = topEntry affinity (r.propertyGroups.lookup GroupKey.hit) svc parent prop →
      svc = svcId → Reads affinity r svcId pid prop := by
    rintro parent prop rfl rfl
    exact ⟨row, _, hrow, hval, hheld.valueOf_topEntry he⟩
  rcases hlevel with ⟨rfl, hcolumn⟩ | ⟨rfl, nstRow', hnst', hcolumn⟩
  · have heparent : e.parent = .nst instanceID := by
      rw [hparent] at hcolumn
      exact PropertyParent.hasColumn_row.mp hcolumn
    rcases (mem_top_iff hheld.laidOut (heparent ▸ trivial)).mp he with ⟨prop, -, rfl⟩ | ⟨inst, hinst, prop, hprop, heq⟩
    · cases heparent
    · -- the instance of the class is the one that was asked for
      obtain ⟨id, hid⟩ := flattenClass_found hheld.entries inst hinst
      rw [heq, topEntry, PropertyParent.nst.injEq, hid, Option.getD_some] at heparent
      subst heparent
      obtain ⟨nstRow', hnst', hhit'⟩ := Table.lookup_mem hid
      simp only [InstanceKey.hit, decide_eq_true_eq] at hhit'
      have hsame := Table.row_unique hnst hnst'
      subst hsame
      obtain rfl : svc = svcId := hhit'.1.symm.trans hhit.1
      have hname : inst.name = nst := hhit'.2.symm.trans hhit.2
      have hklass : klass.name = service := selectService_injective hheld.service hservice
      refine ⟨prop, ⟨_, _, klass, hfile, hklass, rfl, Or.inl ⟨rfl, inst, hinst, hname, hprop⟩⟩, ?_,
        hreads _ prop heq rfl⟩
      rw [Entry.valueRow_key, heq, topEntry]
  · have heparent : e.parent = .service nstRow'.fkParentServiceID := by
      rw [hparent] at hcolumn
      exact PropertyParent.hasColumn_row.mp hcolumn
    have hsame := Table.row_unique hnst hnst'
    subst hsame
    rw [hhit.1] at heparent
    rcases (mem_top_iff hheld.laidOut (heparent ▸ trivial)).mp he with ⟨prop, hprop, heq⟩ | ⟨inst, -, prop, -, rfl⟩
    · obtain rfl : svc = svcId := by
        rw [heq, topEntry, PropertyParent.service.injEq] at heparent
        exact heparent
      have hklass : klass.name = service := selectService_injective hheld.service hservice
      refine ⟨prop, ⟨_, _, klass, hfile, hklass, rfl, Or.inr ⟨rfl, hprop⟩⟩, ?_, hreads _ prop heq rfl⟩
      rw [Entry.valueRow_key, heq, topEntry]
    · cases heparent

/-- What the contents offer competes for the composed view. -/
theorem candidate_of_offers {level : Nat} {layer : Int} {prop : Property}
    (hoffer : m.Offers service nst level layer prop) :
    ∃ pid, r.IsCandidate instanceID level pid prop.key layer ∧ Reads affinity r svcId pid prop := by
  obtain ⟨filename, l, klass, hfile, hklass, rfl, hwhere⟩ := hoffer
  obtain ⟨b, bundle, hbundle, rfl⟩ := hrep.file filename l klass hfile
  obtain ⟨-, klass', svc, vseq, pseq, es, hfile', hheld⟩ := hrep.bundle b bundle hbundle
  rw [hfile, Option.some.injEq, Prod.mk.injEq] at hfile'
  obtain ⟨rfl, rfl⟩ := hfile'
  obtain rfl : svc = svcId := by
    have hsvc := hheld.service
    rw [hklass, hservice, Option.some.injEq] at hsvc
    exact hsvc.symm
  obtain ⟨nstRow, hnst, hhit⟩ := Table.lookup_mem hinstance
  simp only [InstanceKey.hit, decide_eq_true_eq] at hhit
  rcases hwhere with ⟨rfl, inst, hinst, hname, hprop⟩ | ⟨rfl, hprop⟩
  · have he : topEntry affinity (r.propertyGroups.lookup GroupKey.hit) svc (.nst instanceID) prop ∈ es := by
      refine (mem_top_iff hheld.laidOut (show PropertyParent.TopLevel (.nst instanceID) from trivial)).mpr ?_
      exact Or.inr ⟨inst, hinst, prop, hprop, by rw [hname, hinstance, Option.getD_some]⟩
    obtain ⟨pid, row, hrow, hval, hparent⟩ := hheld.property_of_entry he
    refine ⟨pid, ⟨row, _, b, bundle, hrow, hval, Entry.valueRow_bundle _ _, hbundle, ?_, rfl, Or.inl ⟨rfl, ?_⟩⟩,
      row, _, hrow, hval, hheld.valueOf_topEntry he⟩
    · rw [Entry.valueRow_key, topEntry]
    · rw [hparent]
      rfl
  · have he : topEntry affinity (r.propertyGroups.lookup GroupKey.hit) svc (.service svc) prop ∈ es := by
      refine (mem_top_iff hheld.laidOut (show PropertyParent.TopLevel (.service svc) from trivial)).mpr ?_
      exact Or.inl ⟨prop, hprop, rfl⟩
    obtain ⟨pid, row, hrow, hval, hparent⟩ := hheld.property_of_entry he
    refine ⟨pid, ⟨row, _, b, bundle, hrow, hval, Entry.valueRow_bundle _ _, hbundle, ?_, rfl,
      Or.inr ⟨rfl, nstRow, hnst, ?_⟩⟩, row, _, hrow, hval, hheld.valueOf_topEntry he⟩
    · rw [Entry.valueRow_key, topEntry]
    · rw [hparent, hhit.1]
      rfl

/-- The composed view of an instance is what the contents show of it. -/
theorem composed :
    (∀ pid ∈ r.queryGetInstancePropertiesComposed instanceID, ∃ prop, m.Shows service nst prop ∧
      Reads affinity r svcId pid prop) ∧
    ∀ prop, m.Shows service nst prop → ∃ pid ∈ r.queryGetInstancePropertiesComposed instanceID,
      Reads affinity r svcId pid prop := by
  constructor
  · intro pid hpid
    obtain ⟨level, key, layer, hcand, hmax⟩ := Repository.mem_composed_iff.mp hpid
    obtain ⟨prop, hoffer, rfl, hreads⟩ := hrep.offers_of_candidate hservice hinstance hcand
    refine ⟨prop, ⟨level, layer, hoffer, ?_⟩, hreads⟩
    intro level' layer' prop' hoffer' hkey
    obtain ⟨pid', hcand', -⟩ := hrep.candidate_of_offers hservice hinstance hoffer'
    exact hmax level' pid' layer' (hkey ▸ hcand')
  · rintro prop ⟨level, layer, hoffer, hmax⟩
    obtain ⟨pid, hcand, hreads⟩ := hrep.candidate_of_offers hservice hinstance hoffer
    refine ⟨pid, Repository.mem_composed_iff.mpr ⟨level, prop.key, layer, hcand, ?_⟩, hreads⟩
    intro level' pid' layer' hcand'
    obtain ⟨prop', hoffer', hkey, -⟩ := hrep.offers_of_candidate hservice hinstance hcand'
    exact hmax level' layer' prop' hoffer' hkey

end Represents

theorem runJobs_selectService (jobs : List Job) (name : String) :
    (runJobs affinity jobs r).selectService name = r.selectService name := by
  rw [Repository.selectService, runJobs_services, ← Repository.selectService]

/-- Whatever jobs the program was run for, the composed view of an instance is what
the last committed import of each file has for it: what is for the instance before
what is for its service, and the highest layer of that. -/
theorem runJobs_composed (hstart : NoBundles r) (jobs : List Job) (hservice : r.selectService service = some svcId)
    (hinstance : (runJobs affinity jobs r).instances.lookup InstanceKey.hit ⟨svcId, nst⟩ = some instanceID) :
    (∀ pid ∈ (runJobs affinity jobs r).queryGetInstancePropertiesComposed instanceID, ∃ prop,
      (jobs.foldl (Contents.add affinity r) fun _ => none).Shows service nst prop ∧
        Reads affinity (runJobs affinity jobs r) svcId pid prop) ∧
    ∀ prop, (jobs.foldl (Contents.add affinity r) fun _ => none).Shows service nst prop →
      ∃ pid ∈ (runJobs affinity jobs r).queryGetInstancePropertiesComposed instanceID,
        Reads affinity (runJobs affinity jobs r) svcId pid prop := by
  have hrep : Represents affinity _ (runJobs affinity jobs r) := (hstart.represents.runJobs_services jobs).1
  have hservice' : (runJobs affinity jobs r).selectService service = some svcId := by
    rw [runJobs_selectService, hservice]
  exact hrep.composed hservice' hinstance

/-- What one row is read as determines what every row is that is read so. -/
theorem Reads.same {r' : Repository} {pid pid' : Nat} {prop prop' : Property} (h : Reads affinity r svcId pid prop)
    (h' : Reads affinity r svcId pid prop') (hread : Reads affinity r' svcId pid' prop) :
    Reads affinity r' svcId pid' prop' := by
  obtain ⟨row, val, hrow, hval, hof⟩ := h
  obtain ⟨row', val', hrow', hval', hof'⟩ := h'
  have hsame := Table.row_unique hrow hrow'
  subst hsame
  have hsame := Table.row_unique hval hval'
  subst hsame
  obtain ⟨row₂, val₂, hrow₂, hval₂, hof₂⟩ := hread
  refine ⟨row₂, val₂, hrow₂, hval₂, ?_⟩
  cases prop with
  | string key value =>
    obtain ⟨hkey, htype, hvalue⟩ := hof
    cases prop' with
    | string key' value' =>
      obtain ⟨hkey', -, hvalue'⟩ := hof'
      obtain rfl : key = key' := hkey.symm.trans hkey'
      obtain rfl : value = value' := Option.some.inj (hvalue.symm.trans hvalue')
      exact hof₂
    | page key' members' =>
      obtain ⟨-, htype', -⟩ := hof'
      rw [htype] at htype'
      cases htype'
  | page key members =>
    obtain ⟨hkey, htype, -⟩ := hof
    cases prop' with
    | string key' value' =>
      obtain ⟨-, htype', -⟩ := hof'
      rw [htype] at htype'
      cases htype'
    | page key' members' =>
      obtain ⟨hkey', -⟩ := hof'
      obtain rfl : key = key' := hkey.symm.trans hkey'
      exact hof₂

/-- What an instance is shown depends on the last committed import of each file
alone: not on the order in which different files came, on imports that were
replaced since or on runs that died. -/
theorem runJobs_sameView {jobs jobs' : List Job} {instanceID' : Nat} (hstart : NoBundles r)
    (hsame : jobs.foldl (Contents.add affinity r) (fun _ => none) = jobs'.foldl (Contents.add affinity r) fun _ => none)
    (hservice : r.selectService service = some svcId)
    (hinstance : (runJobs affinity jobs r).instances.lookup InstanceKey.hit ⟨svcId, nst⟩ = some instanceID)
    (hinstance' : (runJobs affinity jobs' r).instances.lookup InstanceKey.hit ⟨svcId, nst⟩ = some instanceID')
    (prop : Property) :
    (∃ pid ∈ (runJobs affinity jobs r).queryGetInstancePropertiesComposed instanceID,
        Reads affinity (runJobs affinity jobs r) svcId pid prop) ↔
      ∃ pid ∈ (runJobs affinity jobs' r).queryGetInstancePropertiesComposed instanceID',
        Reads affinity (runJobs affinity jobs' r) svcId pid prop := by
  have hrep : Represents affinity _ (runJobs affinity jobs r) := (hstart.represents.runJobs_services jobs).1
  have hrep' : Represents affinity _ (runJobs affinity jobs' r) := (hstart.represents.runJobs_services jobs').1
  rw [hsame] at hrep
  obtain ⟨hshown, hall⟩ := hrep.composed (by rwa [runJobs_selectService]) hinstance
  obtain ⟨hshown', hall'⟩ := hrep'.composed (by rwa [runJobs_selectService]) hinstance'
  constructor
  · rintro ⟨pid, hpid, hread⟩
    obtain ⟨prop', hshows, hread'⟩ := hshown pid hpid
    obtain ⟨pid', hpid', hread''⟩ := hall' prop' hshows
    exact ⟨pid', hpid', hread'.same hread hread''⟩
  · rintro ⟨pid, hpid, hread⟩
    obtain ⟨prop', hshows, hread'⟩ := hshown' pid hpid
    obtain ⟨pid', hpid', hread''⟩ := hall prop' hshows
    exact ⟨pid', hpid', hread'.same hread hread''⟩

namespace Conn

section Runs

variable {σ : Type} {sqlite : Connection (List Char) σ} {db : σ → Db} (h : Understands affinity sqlite db)
  {jobs jobs' : List Job} {r₁ r₂ : Repository} {instanceID' : Nat}

include h

end Runs

section Sshd

/-- The jobs of `sshdJobs` that count. -/
def sshdLastJob : List Job := [⟨2, "/lib/sshd.ucl", portKlass "2222"⟩]

theorem sshdLastJob_quoteFree : ∀ job ∈ sshdLastJob, QuoteFree job.path ∧ ∀ x ∈ job.klass.strings, QuoteFree x :=
  fun job hjob => sshdJobs_quoteFree job (by simp_all [sshdLastJob, sshdJobs])

theorem sshdJobs_sameContents : sshdJobs.foldl (Contents.add SqlValue.text oneInstance) (fun _ => none) =
    sshdLastJob.foldl (Contents.add SqlValue.text oneInstance) fun _ => none := by
  have hput : ∀ (m : Contents) filename (x y : Option (Layer × Class)),
      Function.update (Function.update m filename x) filename y = Function.update m filename y := by
    intro m filename x y
    simp
  exact hput (fun _ => none) (.text "/lib/sshd.ucl") (some (⟨1, by decide⟩, portKlass "22"))
    (some (⟨2, by decide⟩, portKlass "2222"))

/-- The row of the instance is there from the start. -/
theorem runs_oneInstance {jobs : List Job} {r' : Repository}
    (hruns : Runs (program (engine SqlValue.text)) (fun db => db) (CarriedJob SqlValue.text) jobs oneInstance r')
    (hinstance : (runJobs SqlValue.text jobs oneInstance).instances.lookup InstanceKey.hit ⟨1, "default"⟩ = some 1) :
    r'.instances.lookup InstanceKey.hit ⟨1, "default"⟩ = some 1 := by
  rw [hruns.runJobs (engine_understands SqlValue.text)]
  exact hinstance

end Sshd

end Conn

end AddSys

end ServiceManager
