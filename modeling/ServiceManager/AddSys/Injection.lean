import ServiceManager.AddSys.Engine
import ServiceManager.AddSys.Room

namespace ServiceManager

open Sql Token

namespace AddSys

/-- Statements are executed one after the other. -/
def Conn.execScript (affinity : String → SqlValue) : List Query → Conn.Db → Option Int × Conn.Db
  | [], db => (none, db)
  | q :: qs, db =>
    match (Conn.repository affinity).exec q db with
    | (none, db) => execScript affinity qs db
    | failed => failed

/-- A value that closes the literal and the statement it is put in, and goes on with a statement
that inserts an instance. -/
def withInstance (value : String) (svcId : Nat) (nst : String) : String :=
  value ++ "'); INSERT INTO Instances(FK_Parent_ServiceID, Name) VALUES (" ++ svcId.repr ++ ", '" ++ nst

section Texts

variable {key value nst : String}

theorem eq_withInstance {s : String} {svcId : Nat} {vs cs ds bs ns : List Char} (hvalue : value = .ofList vs)
    (hcode : "'); INSERT INTO Instances(FK_Parent_ServiceID, Name) VALUES (" = .ofList cs)
    (hid : svcId.repr = .ofList ds)
    (hbetween : ", '" = .ofList bs) (hnst : nst = .ofList ns) (hs : s = .ofList (vs ++ cs ++ ds ++ bs ++ ns)) :
    s = withInstance value svcId nst := by
  rw [withInstance, hvalue, hcode, hid, hbetween, hnst, hs, String.ofList_append, String.ofList_append,
    String.ofList_append, String.ofList_append]

theorem quoted_withInstance (n svcId : Nat) :
    (Query.insertString n key (withInstance value svcId nst)).statement.quoted =
      (Query.insertString n key value).statement.quoted ++ ' ' ::
        (Query.insertInstance svcId nst).statement.quoted := by
  have hend : ");".toList = [')', ';'] := String.toList_ofList
  have hbetween : ", '".toList = ", ".toList ++ ['\''] :=
    String.toList_ofList.trans (congrArg (· ++ ['\'']) (String.toList_ofList (l := [',', ' '])).symm)
  have hinstance : "'); INSERT INTO Instances(FK_Parent_ServiceID, Name) VALUES (".toList =
      '\'' :: ')' :: ';' :: ' ' :: "INSERT INTO Instances(FK_Parent_ServiceID, Name) VALUES (".toList :=
    String.toList_ofList.trans (congrArg ('\'' :: ')' :: ';' :: ' ' :: ·) String.toList_ofList.symm)
  simp [Query.statement, Statement.quoted, withInstance, hend, hbetween, hinstance, repr_natCast, -String.reduceToList]

theorem null_not_mem_withInstance (svcId : Nat) (hvalue : QuoteFree value) (hnst : QuoteFree nst) :
    '\x00' ∉ (withInstance value svcId nst).toList := by
  have hcode : '\x00' ∉ "'); INSERT INTO Instances(FK_Parent_ServiceID, Name) VALUES (".toList :=
    not_mem_toList (by decide)
  have hbetween : '\x00' ∉ ", '".toList := not_mem_toList (by decide)
  have hid : '\x00' ∉ svcId.repr.toList := null_not_mem_decimal svcId
  simp only [withInstance, String.toList_append, List.mem_append, hvalue.2, hnst.2, hcode, hbetween, hid, or_self,
    not_false_eq_true]

/-- The text that brings an instance is two statements. -/
theorem tokenize_withInstance (n svcId : Nat) (hkey : QuoteFree key) (hvalue : QuoteFree value) (hnst : QuoteFree nst) :
    tokenize .nothing (vasprintf (Query.insertString n key (withInstance value svcId nst)).format) =
      [Query.insertString n key value, .insertInstance svcId nst].flatMap fun q => q.statement.meant := by
  have hnull : ∀ x ∈ (Query.insertString n key (withInstance value svcId nst)).strings, '\x00' ∉ x.toList := by
    simp [Query.strings, hkey.2, null_not_mem_withInstance svcId hvalue hnst]
  have hfirst : ∀ p ∈ (Query.insertString n key value).statement.rest, '\'' ∉ p.1 :=
    (statement_texts _).mpr (by simp [Query.strings, hkey.1, hvalue.1])
  have hsecond : ∀ p ∈ (Query.insertInstance svcId nst).statement.rest, '\'' ∉ p.1 :=
    (statement_texts _).mpr (by simp [Query.strings, hnst.1])
  have hlast : (feed .nothing (Statement.lastCode (Query.insertString n key value).statement.start
      (Query.insertString n key value).statement.rest)).2 = .nothing := by
    have hend : ");".toList = [')', ';'] := String.toList_ofList
    simp only [Query.statement, Statement.start_ofStrings, Statement.rest_ofStrings, List.map, Statement.lastCode, hend]
    rfl
  rw [format_statement _ hnull, quoted_withInstance, Statement.tokenize_quoted_append (statement_plain _) hfirst hlast]
  change _ ++ tokenize .nothing (Query.insertInstance svcId nst).statement.quoted = _
  rw [Statement.tokenize_quoted (statement_plain _) hsecond]
  simp

end Texts

namespace Conn

variable {affinity : String → SqlValue}

/-- A text that is several statements is executed as these. -/
theorem texts_exec_script {q : Query} {qs : List Query}
    (htokens : tokenize .nothing (vasprintf q.format) = qs.flatMap fun q => q.statement.meant) (hqs : ∀ q ∈ qs, q.Named)
    (db : Db) : (texts (engine affinity)).exec q db = execScript affinity qs db := by
  change execAll affinity (statements [] (tokenize .nothing (vasprintf q.format))) db = _
  rw [htokens]
  clear htokens
  induction qs generalizing db with
  | nil => rfl
  | cons q qs ih =>
    obtain ⟨hq, hqs⟩ := List.forall_mem_cons.mp hqs
    rw [List.flatMap_cons, statements_meant hq]
    simp only [execAll, parse_meant hq, execScript]
    rcases (repository affinity).exec q db with ⟨_ | code, db'⟩
    · exact ih hqs db'
    · rfl

section Script

variable {σ : Type} {conn : Connection Query σ} {db : σ → Db} {P : String → Prop} {layer : Layer}
  {path name key value : String} {s : σ} {r r₂ r' : Repository} {svcId rowid : Nat}

/-- A property whose value brings statements of its own refers to the row inserted last. -/
theorem Acts.importProp_script (h : Acts affinity conn db P) {bundleID : Nat} {s₂ : σ}
    (hexec : conn.exec (.insertString bundleID key value) s = (none, s₂)) (hrowid : (db s₂).rowid = rowid)
    (hid : rowid < 2 ^ 31) (hroom : (db s₂).repo.properties.nextId < 2 ^ 63)
    (hproperty : (db s₂).repo.insertProperty (.service svcId) rowid = some r') :
    Gives (repoOf db) (importProp conn.ints bundleID svcId 0 0 (.string key value)) s () r' := by
  have hkey : Sql.lastInsertRowid conn.ints s₂ = ⟨.ok (rowid : Int), s₂, []⟩ := by
    have hlast : conn.ints.lastInsertRowid s₂ = rowid := by
      change Machine.int32 (conn.lastInsertRowid s₂) = rowid
      rw [h.rowid]
      change Machine.int32 ((db s₂).rowid : Int) = rowid
      rw [hrowid]
      exact Machine.int32_natCast hid
    rw [Sql.lastInsertRowid, hlast]
  have hnamed : (Query.insertProperty (propertyParent svcId 0 0) rowid).Named := by
    simp [Query.Named, Query.ids, propertyParent, PropertyColumn.column]
  have hperform : perform affinity (db s₂).repo (.insertProperty (propertyParent svcId 0 0) rowid) =
      some (r', some r'.properties.seq) := by
    have hparent : (propertyParent svcId 0 0).parent = .service svcId := propertyParent_natCast svcId 0 0
    rw [perform, hparent, Int.toNat_natCast, hproperty, Option.map_some]
  have hinsert : Gives (repoOf db) (execf conn.ints (.insertProperty (propertyParent svcId 0 0) rowid)
      "Failed to insert property: %s\n") s₂ () r' :=
    h.execf_gives hnamed (by simp [Query.strings]) hroom hperform
  obtain ⟨s₃, made, hrun, hrepo⟩ := hinsert
  refine ⟨s₃, ⟨.exec (.insertString bundleID key value), true⟩ :: made, ?_, hrepo⟩
  rw [importProp, execf_bind_ok (by exact hexec), Script.bind_of_ok hkey, hrun]
  rfl

/-- The part from the insert of the bundle on, of a class with such a property and nothing else. -/
theorem Acts.importNew_script (h : Acts affinity conn db P) (hs : (db s).repo = r.dropOldBundle (affinity path))
    (hpath : P path) (hname : P name) (hroom : r.Roomy 1) (hservice : r.selectService name = some svcId)
    (hexec : ∀ s₁, (db s₁).repo = r.replaceBundle (affinity path) layer →
      ∃ s₂, conn.exec (.insertString r.bundles.nextId key value) s₁ = (none, s₂) ∧ (db s₂).repo = r₂ ∧
        (db s₂).rowid = rowid)
    (hrowid : rowid < 2 ^ 31) (hproperties : r₂.properties.nextId < 2 ^ 63)
    (hproperty : r₂.insertProperty (.service svcId) rowid = some r') :
    Gives (repoOf db) (importNew conn.ints layer.1 path ⟨name, [], [.string key value]⟩) s () r' := by
  have hfits : IdsFit affinity r path ⟨name, [], []⟩ := .of_roomy hroom path
  have hperform : perform affinity (db s).repo (.insertBundle path layer.1) =
      some (r.replaceBundle (affinity path) layer, some r.bundles.nextId) := by
    rw [hs, perform_insertBundle]
  rw [importNew]
  refine h.insert_gives (by simp [Query.Named, Query.ids]) (by simpa [Query.strings] using hpath)
    (by rw [hs]; exact insertBundle_room hfits.bundle) hperform hfits.bundle fun s₁ hs₁ => ?_
  have hservice₁ : (db s₁).repo.selectService name = some svcId := by
    rw [hs₁, ← hservice]
    exact congrArg (fun t : Table ServiceRow => (t.first _).map Prod.fst) (r.dropOldBundle_services (affinity path))
  have hsvc : svcId < 2 ^ 31 := Nat.lt_of_le_of_lt (selectService_le hservice) hroom.services
  refine (getOrCreateService_gives h (s := s₁) hname hservice₁ hsvc).bind fun s₂ hs₂ => ?_
  change (db s₂).repo = (db s₁).repo at hs₂
  obtain ⟨s₃, hinserted, hrepo, hlast⟩ := hexec s₂ (hs₂.trans hs₁)
  have hprop := h.importProp_script hinserted hlast hrowid (by rw [hrepo]; exact hproperties)
    (by rw [hrepo]; exact hproperty)
  have hprops : Gives (repoOf db) (importProps conn.ints r.bundles.nextId svcId 0 0 [.string key value]) s₂ () r' := by
    rw [importProps]
    exact hprop.bind fun s₄ hs₄ => ⟨s₄, [], rfl, hs₄⟩
  exact hprops.bind fun s₄ hs₄ => ⟨s₄, [], rfl, hs₄⟩

/-- The import of a class with such a property and nothing else. -/
theorem Acts.commits_script (h : Acts affinity conn db P) (hs : (db s).repo = r) (hpath : P path) (hname : P name)
    (hroom : r.Roomy 1) (hservice : r.selectService name = some svcId)
    (hexec : ∀ s₁, (db s₁).repo = r.replaceBundle (affinity path) layer →
      ∃ s₂, conn.exec (.insertString r.bundles.nextId key value) s₁ = (none, s₂) ∧ (db s₂).repo = r₂ ∧
        (db s₂).rowid = rowid)
    (hrowid : rowid < 2 ^ 31) (hproperties : r₂.properties.nextId < 2 ^ 63)
    (hproperty : r₂.insertProperty (.service svcId) rowid = some r') :
    ∃ s', Commits conn.ints layer.1 path ⟨name, [], [.string key value]⟩ s s' ∧ (db s').repo = r' := by
  subst hs
  have hfits : IdsFit affinity (db s).repo path ⟨name, [], []⟩ := .of_roomy hroom path
  have hbegin : Gives (repoOf db) (execf conn.ints .begin "Failed to begin transaction: %s\n") s () (db s).repo :=
    h.execf_gives (by simp [Query.Named, Query.ids]) (by simp [Query.strings]) trivial rfl
  have hdelete : ∀ s₁, (db s₁).repo = (db s).repo →
      Gives (repoOf db) (deleteOldBundle conn.ints ((db s).repo.propertyValues.rows.length + 1) path) s₁ ()
        ((db s).repo.dropOldBundle (affinity path)) := by
    intro s₁ hs₁
    rw [← hs₁] at hfits ⊢
    exact deleteOldBundle_gives h hfits hpath (Nat.lt_succ_self _)
  have hcommit : ∀ s₃, (db s₃).repo = r' → Gives (repoOf db)
      (execf conn.ints .commit "Failed to commit: %s\n") s₃ () r' := by
    rintro s₃ rfl
    exact h.execf_gives (by simp [Query.Named, Query.ids]) (by simp [Query.strings]) trivial rfl
  have himport : Gives (repoOf db) (importClass conn.ints ((db s).repo.propertyValues.rows.length + 1) layer.1 path
      ⟨name, [], [.string key value]⟩) s () r' := by
    unfold importClass
    refine hbegin.bind fun s₁ hs₁ => (hdelete s₁ hs₁).bind fun s₂ hs₂ => ?_
    exact (h.importNew_script hs₂ hpath hname hroom hservice hexec hrowid hproperties hproperty).bind hcommit
  obtain ⟨s', made, hrun, hrepo⟩ := himport
  exact ⟨s', ⟨_, made, hrun⟩, hrepo⟩

end Script

section Engine

variable {r : Repository} {layer : Layer} {path name key value nst : String} {svcId : Nat}

variable (affinity) in
theorem texts_exec_withInstance (bundleID n : Nat) (hkey : QuoteFree key) (hvalue : QuoteFree value)
    (hnst : QuoteFree nst) (db : Db) :
    ∃ db', (texts (engine affinity)).exec (.insertString bundleID key (withInstance value n nst)) db = (none, db') ∧
      db'.repo = { db.repo with
        instances := db.repo.instances.insert ⟨nst, n⟩
        propertyValues := db.repo.propertyValues.insert ⟨some bundleID, .string, key, some value, none⟩ } ∧
      db'.rowid = db.repo.instances.nextId := by
  have hnamed : ∀ q ∈ [Query.insertString bundleID key value, .insertInstance n nst], q.Named := by
    simp [Query.Named, Query.ids]
  rw [texts_exec_script (tokenize_withInstance bundleID n hkey hvalue hnst) hnamed]
  exact ⟨_, rfl, rfl, rfl⟩

end Engine

end Conn

end AddSys

open AddSys

/-- What import leaves of a class whose one property has a value with an instance of its own: the
instance, and a property that refers to the value numbered like that. -/
def Repository.withInstance (r : Repository) (filename : SqlValue) (layer : Layer) (svcId n : Nat)
    (key value nst : String) : Repository :=
  { r.replaceBundle filename layer with
    instances := (r.replaceBundle filename layer).instances.insert ⟨nst, n⟩
    propertyValues := (r.replaceBundle filename layer).propertyValues.insert
      ⟨some r.bundles.nextId, .string, key, some value, none⟩
    properties := (r.replaceBundle filename layer).properties.insert
      ((PropertyParent.service svcId).row r.instances.nextId) }

namespace AddSys.Conn

variable (affinity : String → SqlValue) {r : Repository} {path name key value nst : String} {svcId : Nat}

theorem engine_commitsTo_withInstance (layer : Layer) (n : Nat) (hpath : QuoteFree path) (hname : QuoteFree name)
    (hkey : QuoteFree key) (hvalue : QuoteFree value) (hnst : QuoteFree nst) (hroom : r.Roomy 1)
    (hservice : r.selectService name = some svcId) :
    CommitsTo (program (engine affinity)) (fun db => db) layer.1 path
      ⟨name, [], [.string key (AddSys.withInstance value n nst)]⟩ r
      (r.withInstance (affinity path) layer svcId n key value nst) := by
  have hinstances : (r.replaceBundle (affinity path) layer).instances = r.instances := r.dropOldBundle_instances _
  have hproperties : (r.replaceBundle (affinity path) layer).properties.seq = r.properties.seq :=
    r.dropOldBundle_properties_seq _
  obtain ⟨s', hcommits, hrepo⟩ :=
    (engine_understands affinity).acts.commits_script (s := ⟨r, [], 0⟩) rfl hpath hname hroom
    hservice (fun s₁ hs₁ => by
      obtain ⟨s₂, hexec, hrepo, hrowid⟩ := texts_exec_withInstance affinity r.bundles.nextId n hkey hvalue hnst s₁
      rw [hs₁, hinstances] at hrowid
      rw [hs₁] at hrepo
      exact ⟨s₂, hexec, hrepo, hrowid⟩)
    (Nat.lt_of_le_of_lt (Nat.le_refl _) hroom.instances)
    (by simp only [Table.nextId, hproperties]; exact Nat.lt_trans hroom.properties (by decide)) rfl
  exact ⟨_, s', rfl, hcommits, hrepo⟩

end AddSys.Conn

end ServiceManager
