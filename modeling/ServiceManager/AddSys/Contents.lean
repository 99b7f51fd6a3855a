import ServiceManager.AddSys.Reimport
import ServiceManager.AddSys.SingleValued
import Mathlib.Logic.Function.Basic

namespace ServiceManager

open Sql

namespace AddSys

/-- What the store is for: the layer and the class of each file that was imported,
by the name under which Bundles has it. -/
abbrev Contents : Type := SqlValue → Option (Layer × Class)

/-- A run of the program puts the class of its file in place of what the file had,
provided the layer passes its CHECK and the service is known. -/
def Contents.add (affinity : String → SqlValue) (r : Repository) (m : Contents) (job : Job) : Contents :=
  if h : job.layer = 1 ∨ job.layer = 2 ∨ job.layer = 3 ∨ job.layer = 4 then
    if (r.selectService job.klass.name).isSome then
      Function.update m (affinity job.path) (some (⟨job.layer, h⟩, job.klass))
    else m
  else m

/-- One run of the program: one that dies leaves the repository as it was. -/
def runJob (affinity : String → SqlValue) (r : Repository) (job : Job) : Repository :=
  match commit affinity job.layer job.path job.klass r with
  | .ok r' => r'
  | .error _ => r

/-- The program run once for each job. -/
def runJobs (affinity : String → SqlValue) (jobs : List Job) (r : Repository) : Repository :=
  jobs.foldl (runJob affinity) r

/-- The bundle holds the class: its values and their properties are the entries of
the class, each once. The keys of the values follow `vseq`, those of the
properties `pseq`. -/
structure Holds (affinity : String → SqlValue) (r : Repository) (bundleID : Nat) (klass : Class)
    (svcId vseq pseq : Nat) (es : List Entry) : Prop where
  service : r.selectService klass.name = some svcId
  entries : flattenClass affinity (r.propertyGroups.lookup GroupKey.hit) (r.instances.lookup InstanceKey.hit)
    svcId klass = some es
  values : ∀ id row, (id, row) ∈ r.propertyValues.rows ∧ row.fkBundleID = some bundleID ↔
    ∃ i e, es[i]? = some e ∧ id = vseq + 1 + i ∧ row = e.valueRow bundleID
  properties : ∀ id row, (id, row) ∈ r.properties.rows ∧
      (∃ val, (row.fkPropertyValueID, val) ∈ r.propertyValues.rows ∧ val.fkBundleID = some bundleID) ↔
    ∃ i e, es[i]? = some e ∧ id = pseq + 1 + i ∧ row = e.parent.row (vseq + 1 + i)

/-- The repository is a way to keep the contents: one bundle for each file, in the
file's layer, that holds the file's class. -/
structure Represents (affinity : String → SqlValue) (m : Contents) (r : Repository) : Prop where
  bundle : ∀ id row, (id, row) ∈ r.bundles.rows → row.refCount = 0 ∧ ∃ klass svcId vseq pseq es,
    m row.filename = some (row.layer, klass) ∧ Holds affinity r id klass svcId vseq pseq es
  file : ∀ filename layer klass, m filename = some (layer, klass) →
    ∃ id row, (id, row) ∈ r.bundles.rows ∧ row.filename = filename
  unique : ∀ row ∈ r.bundles.rows, ∀ row' ∈ r.bundles.rows, row.2.filename = row'.2.filename → row = row'
  valueBundle : ∀ row ∈ r.propertyValues.rows, ∀ id, row.2.fkBundleID = some id → id ∈ r.bundles.ids
  propertyValue : ∀ row ∈ r.properties.rows, row.2.fkPropertyValueID ∈ r.propertyValues.ids

variable {affinity : String → SqlValue} {layer : Layer} {filename : SqlValue} {klass klass' : Class}
  {r r' : Repository} {m : Contents} {svcId svcId' vseq pseq bundleID : Nat} {es es' : List Entry} {job : Job}

/-- A repository without bundles has nothing in it. -/
theorem NoBundles.represents (h : NoBundles r) : Represents affinity (fun _ => none) r where
  bundle id row hrow := by
    rw [h.bundles] at hrow
    cases hrow
  file _ _ _ hfile := by cases hfile
  unique row hrow := by
    rw [h.bundles] at hrow
    cases hrow
  valueBundle := h.linked.valueBundle
  propertyValue := h.propertyValue

theorem Represents.not_old_value (hrep : Represents affinity m r) {id : Nat} {row : PropertyValueRow}
    (hrow : (id, row) ∈ r.propertyValues.rows) : row.fkBundleID ≠ some r.bundles.nextId :=
  fun heq => r.bundles.nextId_not_mem (hrep.valueBundle _ hrow _ heq)

/-- The bundle that an import replaces is the one of its file. -/
theorem Represents.replaces_iff (hrep : Represents affinity m r) {id : Nat} {row : BundleRow}
    (hrow : (id, row) ∈ r.bundles.rows) : r.Replaces filename id ↔ row.filename = filename := by
  constructor
  · intro hgoes
    obtain ⟨row', hrow', hname, -⟩ := hgoes.bundle
    rwa [Table.row_unique hrow hrow']
  · intro hname
    have hfree : r.PathFree filename := by
      constructor
      · intro row hrow row' hrow' hn hn'
        exact hrep.unique row hrow row' hrow' (hn.trans hn'.symm)
      · intro row hrow _
        exact (hrep.bundle row.1 row.2 hrow).1
    by_contra hnot
    exact hfree.dropOldBundle (id, row) (Repository.mem_dropOldBundle_bundles.mpr ⟨hrow, hnot⟩) hname

namespace Imported

variable (h : Imported affinity layer filename klass r r' svcId es)

include h

/-- The new bundle holds the class that was imported. -/
theorem holds (hrep : Represents affinity m r) :
    Holds affinity r' r.bundles.nextId klass svcId r.propertyValues.seq r.properties.seq es where
  service := h.selectService_eq
  entries := h.entries
  values := by
    intro id row
    constructor
    · rintro ⟨hrow, hid⟩
      rcases h.mem_values.mp hrow with ⟨hold, -⟩ | hnew
      · exact absurd hid (hrep.not_old_value hold)
      · exact hnew
    · rintro ⟨i, e, he, rfl, rfl⟩
      exact ⟨h.mem_values.mpr (Or.inr ⟨i, e, he, rfl, rfl⟩), e.valueRow_bundle _⟩
  properties := by
    intro id row
    constructor
    · rintro ⟨hrow, val, hval, hid⟩
      rcases h.mem_properties.mp hrow with ⟨hold, -⟩ | hnew
      · have hle := Table.le_seq (hrep.propertyValue _ hold)
        have hval' := ((h.mem_values_of_le hle).mp hval).1
        exact absurd hid (hrep.not_old_value hval')
      · exact hnew
    · rintro ⟨i, e, he, rfl, rfl⟩
      refine ⟨h.mem_properties.mpr (Or.inr ⟨i, e, he, rfl, rfl⟩), e.valueRow r.bundles.nextId, ?_, e.valueRow_bundle _⟩
      rw [PropertyParent.row_value]
      exact h.mem_values.mpr (Or.inr ⟨i, e, he, rfl, rfl⟩)

/-- A bundle that the import does not replace holds what it held. -/
theorem keeps_holds (hheld : Holds affinity r bundleID klass' svcId' vseq pseq es') (hid : bundleID ∈ r.bundles.ids)
    (hkept : ¬ r.Replaces filename bundleID) : Holds affinity r' bundleID klass' svcId' vseq pseq es' := by
  have hne : r.bundles.nextId ≠ bundleID := by
    rintro rfl
    exact r.bundles.nextId_not_mem hid
  have hsurvives : ∀ b, r.Replaces filename b → bundleID ≠ b := by
    rintro b hb rfl
    exact hkept hb
  have hvalues : ∀ id row, (id, row) ∈ r'.propertyValues.rows ∧ row.fkBundleID = some bundleID ↔
      (id, row) ∈ r.propertyValues.rows ∧ row.fkBundleID = some bundleID := by
    intro id row
    constructor
    · rintro ⟨hrow, hb⟩
      rcases h.mem_values.mp hrow with ⟨hold, -⟩ | ⟨i, e, -, -, rfl⟩
      · exact ⟨hold, hb⟩
      · rw [Entry.valueRow_bundle, Option.some.injEq] at hb
        exact absurd hb hne
    · rintro ⟨hrow, hb⟩
      refine ⟨h.mem_values.mpr (Or.inl ⟨hrow, ?_⟩), hb⟩
      intro b hrep heq
      rw [hb, Option.some.injEq] at heq
      exact hsurvives b hrep heq
  constructor
  · rw [Repository.selectService, h.services_eq, ← Repository.selectService, hheld.service]
  · exact flattenClass_grows h.grows_groups h.grows_instances hheld.entries
  · intro id row
    rw [hvalues, hheld.values]
  · intro id row
    simp only [hvalues]
    rw [← hheld.properties]
    refine and_congr_left ?_
    rintro ⟨val, hval, hb⟩
    rw [h.mem_properties]
    constructor
    · rintro (⟨hold, -⟩ | ⟨i, e, -, -, rfl⟩)
      · exact hold
      · have hle := Table.le_seq (Table.mem_ids.mpr ⟨val, hval⟩)
        rw [PropertyParent.row_value] at hle
        omega
    · intro hold
      refine Or.inl ⟨hold, ?_⟩
      intro b hrep val' hval' heq
      rw [Table.row_unique hval' hval, hb, Option.some.injEq] at heq
      exact hsurvives b hrep heq

/-- An import that commits is a put into the contents. -/
theorem represents (hrep : Represents affinity m r) :
    Represents affinity (Function.update m filename (some (layer, klass))) r' := by
  have hmem : ∀ id row, (id, row) ∈ r'.bundles.rows ↔
      ((id, row) ∈ r.bundles.rows ∧ row.filename ≠ filename) ∨
      id = r.bundles.nextId ∧ row = ⟨0, filename, 0, layer⟩ := by
    intro id row
    rw [h.mem_bundles]
    refine or_congr_left (and_congr_right fun hrow => ?_)
    rw [hrep.replaces_iff hrow]
  constructor
  · intro id row hrow
    rcases (hmem id row).mp hrow with ⟨hold, hname⟩ | ⟨rfl, rfl⟩
    · obtain ⟨hrc, klass', svcId', vseq, pseq, es', hfile, hheld⟩ := hrep.bundle id row hold
      refine ⟨hrc, klass', svcId', vseq, pseq, es', ?_, ?_⟩
      · rw [Function.update_of_ne hname, hfile]
      · refine h.keeps_holds hheld (Table.mem_ids.mpr ⟨row, hold⟩) ?_
        rwa [hrep.replaces_iff hold]
    · refine ⟨rfl, klass, svcId, _, _, es, ?_, h.holds hrep⟩
      exact Function.update_self ..
  · intro name l k hfile
    by_cases hname : name = filename
    · exact ⟨_, _, (hmem _ _).mpr (Or.inr ⟨rfl, rfl⟩), hname.symm⟩
    · rw [Function.update_of_ne hname] at hfile
      obtain ⟨id, row, hrow, hid⟩ := hrep.file name l k hfile
      exact ⟨id, row, (hmem _ _).mpr (Or.inl ⟨hrow, by rwa [hid]⟩), hid⟩
  · rintro ⟨id, row⟩ hrow ⟨id', row'⟩ hrow' hname
    rcases (hmem id row).mp hrow with ⟨hold, hother⟩ | ⟨rfl, rfl⟩
    · rcases (hmem id' row').mp hrow' with ⟨hold', -⟩ | ⟨rfl, rfl⟩
      · exact hrep.unique _ hold _ hold' hname
      · exact absurd hname hother
    · rcases (hmem id' row').mp hrow' with ⟨-, hother⟩ | ⟨rfl, rfl⟩
      · exact absurd hname.symm hother
      · rfl
  · exact h.valueBundle_of hrep.valueBundle
  · exact h.propertyValue hrep.propertyValue

end Imported

/-- A run of the program acts on the contents as it says, also when it dies. -/
theorem runJob_represents (hrep : Represents affinity m r) (job : Job) :
    Represents affinity (m.add affinity r job) (runJob affinity r job) := by
  unfold runJob
  split
  next r' hcommit =>
    obtain ⟨l, svcId, es, hl, himp⟩ := commit_eq_ok_iff.mp hcommit
    have hput : m.add affinity r job = Function.update m (affinity job.path) (some (l, job.klass)) := by
      have hlayer : job.layer = 1 ∨ job.layer = 2 ∨ job.layer = 3 ∨ job.layer = 4 := hl ▸ l.2
      have hsame : (⟨job.layer, hlayer⟩ : Layer) = l := Subtype.ext hl.symm
      rw [Contents.add, dif_pos hlayer, if_pos (by rw [himp.service]; rfl), hsame]
    rw [hput]
    exact himp.represents hrep
  next msg hdied =>
    have hno : ¬ ∃ r', commit affinity job.layer job.path job.klass r = .ok r' := by
      rintro ⟨r', h⟩
      rw [hdied] at h
      cases h
    have hput : m.add affinity r job = m := by
      rw [commit_isOk_iff] at hno
      unfold Contents.add
      split
      next hlayer =>
        refine if_neg ?_
        intro hsome
        exact hno ⟨hlayer, Option.isSome_iff_exists.mp hsome⟩
      next => rfl
    rw [hput]
    exact hrep

theorem runJob_services (r : Repository) (job : Job) : (runJob affinity r job).services = r.services := by
  unfold runJob
  split
  next r' hcommit => exact commit_services hcommit
  next => rfl

theorem runJobs_services (jobs : List Job) (r : Repository) : (runJobs affinity jobs r).services = r.services := by
  induction jobs generalizing r with
  | nil => rfl
  | cons job rest ih => exact (ih _).trans (runJob_services r job)

/-- The services are the same throughout, so what a run may import does not change. -/
theorem Contents.add_of_services (h : r'.services = r.services) (m : Contents) (job : Job) :
    m.add affinity r' job = m.add affinity r job := by
  have hselect : r'.selectService job.klass.name = r.selectService job.klass.name := by
    rw [Repository.selectService, h, ← Repository.selectService]
  rw [Contents.add, hselect, ← Contents.add]

/-- A sequence of runs goes along with putting the classes into the contents one after
the other, and the services stay as they were. -/
theorem Represents.runJobs_services (hrep : Represents affinity m r) (jobs : List Job) :
    Represents affinity (jobs.foldl (Contents.add affinity r) m) (runJobs affinity jobs r) ∧
      (runJobs affinity jobs r).services = r.services := by
  refine List.foldl_rel (r := fun m q => Represents affinity m q ∧ q.services = r.services) ⟨hrep, rfl⟩ ?_
  intro job _ m q ⟨hq, hservices⟩
  refine ⟨?_, (runJob_services q job).trans hservices⟩
  rw [← Contents.add_of_services hservices]
  exact runJob_represents hq job

/-- Whatever jobs the program is run for, the repository keeps the contents that
putting one class after the other leaves: the last import of a file that
committed counts, and nothing else is there. -/
theorem runJobs_represents (hrep : Represents affinity m r) (jobs : List Job) :
    Represents affinity (jobs.foldl (Contents.add affinity r) m) (runJobs affinity jobs r) := by
  obtain ⟨hrep', -⟩ := hrep.runJobs_services jobs
  exact hrep'

namespace Conn

/-- Runs of the program, one after the other, each of which finds what the condition says. -/
inductive Runs {σ : Type} (conn : Connection Query σ) (db : σ → Db) (cond : Job → Repository → Prop) :
    List Job → Repository → Repository → Prop
  | nil {r : Repository} : Runs conn db cond [] r r
  | cons {job : Job} {jobs : List Job} {r r₁ r' : Repository} (hcond : cond job r)
      (hruns : RunsTo conn db job.layer job.path job.klass r r₁) (hrest : Runs conn db cond jobs r₁ r') :
      Runs conn db cond (job :: jobs) r r'

/-- What the job brings arrives as it is. -/
def CarriedJob (affinity : String → SqlValue) (job : Job) (r : Repository) : Prop :=
  Carried affinity r job.path job.klass

section Runs

variable {σ : Type} {sqlite : Connection (List Char) σ} {db : σ → Db} (h : Understands affinity sqlite db)
  {jobs : List Job}

include h

theorem Runs.runJobs (hruns : Runs (program sqlite) db (CarriedJob affinity) jobs r r') :
    r' = AddSys.runJobs affinity jobs r := by
  induction hruns with
  | nil => rfl
  | cons hcond hruns _ ih =>
    rw [ih, hruns.runImport h hcond]
    rfl

/-- Where there is room for all classes, the program gets through its runs. -/
theorem exists_runs {s : σ} (hstrings : ∀ job ∈ jobs, QuoteFree job.path ∧ ∀ x ∈ job.klass.strings, QuoteFree x)
    (hroom : (db s).repo.Roomy (jobs.map fun job => job.klass.size).sum) :
    ∃ s', Runs (program sqlite) db (CarriedJob affinity) jobs (db s).repo (db s').repo := by
  induction jobs generalizing s with
  | nil => exact ⟨s, .nil⟩
  | cons job jobs ih =>
    obtain ⟨⟨hpath, hklass⟩, hstrings⟩ := List.forall_mem_cons.mp hstrings
    rw [List.map_cons, List.sum_cons] at hroom
    have hcarried : Carried affinity (db s).repo job.path job.klass := .of_roomy hpath hklass (hroom.mono (by omega))
    obtain ⟨s₁, hruns⟩ : ∃ s₁, RunsTo (program sqlite) db job.layer job.path job.klass (db s).repo (db s₁).repo :=
      exists_runsTo h s hcarried
    have hroom₁ : (db s₁).repo.Roomy (jobs.map fun job => job.klass.size).sum := by
      obtain hcommit | ⟨-, hsame⟩ := hruns.commit h hcarried
      · exact commit_roomy (hroom.mono (by omega)) hcommit
      · rw [hsame]
        exact hroom.mono (by omega)
    obtain ⟨s', hrest⟩ := ih hstrings hroom₁
    exact ⟨s', .cons hcarried hruns hrest⟩

end Runs

section Sshd

/-- A file imported twice, and one whose layer does not pass its CHECK. -/
def sshdJobs : List Job :=
  [⟨1, "/lib/sshd.ucl", portKlass "22"⟩, ⟨7, "/etc/a.ucl", portKlass "23"⟩, ⟨2, "/lib/sshd.ucl", portKlass "2222"⟩]

theorem sshdJobs_quoteFree : ∀ job ∈ sshdJobs, QuoteFree job.path ∧ ∀ x ∈ job.klass.strings, QuoteFree x := by
  simp only [sshdJobs, List.forall_mem_cons, List.not_mem_nil, false_implies, implies_true, and_true]
  refine ⟨⟨?_, portKlass_quoteFree ?_⟩, ⟨?_, portKlass_quoteFree ?_⟩, ?_, portKlass_quoteFree ?_⟩ <;>
    exact quoteFree_ofList (by decide)

end Sshd

end Conn

end AddSys

end ServiceManager
