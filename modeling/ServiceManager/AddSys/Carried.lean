import ServiceManager.AddSys.Connected

namespace ServiceManager

open Sql Machine

namespace AddSys

/-- A C string that stands between the quotes of a statement as it is. -/
structure QuoteFree (s : String) : Prop where
  quote : '\'' ∉ s.toList
  null : '\x00' ∉ s.toList

theorem quoteFree_ofList {cs : List Char} (h : cs.all (fun c => c != '\'' && c != '\x00') = true) :
    QuoteFree (.ofList cs) := by
  have hall : ∀ c ∈ cs, c ≠ '\'' ∧ c ≠ '\x00' := by simpa using h
  constructor <;> rw [String.toList_ofList]
  · exact fun hmem => (hall _ hmem).1 rfl
  · exact fun hmem => (hall _ hmem).2 rfl

/-- What the import of a class brings arrives in the repository as it is: its strings in the
texts of the statements, and the keys in variables of type `int`. -/
structure Carried (affinity : String → SqlValue) (r : Repository) (path : String) (klass : Class) : Prop where
  path_quoteFree : QuoteFree path
  strings_quoteFree : ∀ x ∈ klass.strings, QuoteFree x
  ids : IdsFit affinity r path klass

theorem null_not_mem_decimal (n : Int) : '\x00' ∉ decimal n := by
  have hnat : ∀ n : Nat, '\x00' ∉ n.repr.toList := by
    intro n hmem
    have hdigit := Nat.isDigit_of_mem_toDigits (by decide) (by decide)
        (show '\x00' ∈ Nat.toDigits 10 n by simpa [Nat.repr] using hmem)
    exact absurd hdigit (by decide)
  cases n with
  | ofNat n => exact hnat n
  | negSucc n => simpa [decimal, Int.repr] using hnat (n + 1)

theorem null_not_mem_cString (s : String) : '\x00' ∉ cString s := by
  intro hmem
  simpa using List.mem_takeWhile_imp hmem

theorem null_not_mem_vasprintf (q : Query) : '\x00' ∉ vasprintf q.format := by
  have htext : ∀ conversion ∈ q.format, ∀ s, conversion = .text s → '\x00' ∉ s.toList := by
    cases q <;>
      simp only [Query.format, List.forall_mem_cons, List.not_mem_nil, false_implies, implies_true, and_true,
        Conversion.text.injEq, reduceCtorEq, forall_eq', true_and, -String.reduceToList] <;>
      and_intros <;> exact not_mem_toList (by decide)
  intro hmem
  obtain ⟨conversion, hconversion, hmem⟩ := List.mem_flatMap.mp hmem
  cases conversion with
  | text s => exact htext _ hconversion s rfl hmem
  | str s => exact null_not_mem_cString s hmem
  | int n => exact null_not_mem_decimal n hmem

namespace Conn

section Texts

variable {σ : Type}

/-- The connection of the program: each statement is written as a text. -/
def texts (sqlite : Connection (List Char) σ) : Connection Query σ :=
  sqlite.comap fun q => vasprintf q.format

/-- What is relied on in SQLite, where the states of the connection are those of an open database
with the tables of the schema: a text whose tokens are those of a statement as it is meant does to
the repository what the statement says, while there are keys left. -/
structure Understands (affinity : String → SqlValue) (sqlite : Connection (List Char) σ) (db : σ → Db) : Prop where
  exec : ∀ q text s, q.Named → '\x00' ∉ text → Token.tokenize .nothing text = q.statement.meant →
    q.HasRoom (db s).repo →
    (sqlite.exec text s).1 = ((repository affinity).exec q (db s)).1 ∧
      db (sqlite.exec text s).2 = ((repository affinity).exec q (db s)).2
  prepare : ∀ q text s, q.Named → '\x00' ∉ text → Token.tokenize .nothing text = q.statement.meant →
    (sqlite.prepare text s).1 = ((repository affinity).prepare q (db s)).1 ∧
      db (sqlite.prepare text s).2 = ((repository affinity).prepare q (db s)).2
  step : ∀ q text s, q.Named → '\x00' ∉ text → Token.tokenize .nothing text = q.statement.meant →
    (sqlite.step text s).1 = ((repository affinity).step q (db s)).1 ∧
      db (sqlite.step text s).2 = ((repository affinity).step q (db s)).2
  finalize : ∀ q text s, q.Named → '\x00' ∉ text → Token.tokenize .nothing text = q.statement.meant →
    db (sqlite.finalize text s) = (repository affinity).finalize q (db s)
  rowid : ∀ s, sqlite.lastInsertRowid s = (repository affinity).lastInsertRowid (db s)

variable {affinity : String → SqlValue} {sqlite : Connection (List Char) σ} {db : σ → Db}

/-- Statements with plain strings are read as they are meant. -/
theorem Understands.acts (h : Understands affinity sqlite db) : Acts affinity (texts sqlite) db QuoteFree := by
  have hmeant : ∀ q : Query, (∀ x ∈ q.strings, QuoteFree x) →
      Token.tokenize .nothing (vasprintf q.format) = q.statement.meant := by
    intro q hplain
    exact (format_intact_iff q fun x hx => (hplain x hx).2).mpr fun x hx => (hplain x hx).1
  constructor
  · exact fun q s hq hplain hroom => h.exec q _ s hq (null_not_mem_vasprintf q) (hmeant q hplain) hroom
  · exact fun q s hq hplain => h.prepare q _ s hq (null_not_mem_vasprintf q) (hmeant q hplain)
  · exact fun q s hq hplain => h.step q _ s hq (null_not_mem_vasprintf q) (hmeant q hplain)
  · exact fun q s hq hplain => h.finalize q _ s hq (null_not_mem_vasprintf q) (hmeant q hplain)
  · exact h.rowid

end Texts

section Turns

variable {σ : Type} (conn : Connection Query σ)

/-- More turns make no difference to a loop that ends. -/
theorem deleteValues_extends (turns more : Nat) (bundleID : Int) :
    Script.Extends (deleteValues conn turns bundleID) (deleteValues conn (turns + more) bundleID) := by
  induction turns with
  | zero => exact fun s hturns => absurd rfl hturns
  | succ turns ih =>
    rw [Nat.add_right_comm]
    simp only [deleteValues]
    refine (Script.Extends.refl _).bind fun res => ?_
    cases res with
    | done => exact .refl _
    | row rowID second => exact (Script.Extends.refl _).bind fun _ => (Script.Extends.refl _).bind fun _ => ih
    | error code => exact ih

theorem importClass_extends (turns more : Nat) (layer : Int) (path : String) (klass : Class) :
    Script.Extends (importClass conn turns layer path klass) (importClass conn (turns + more) layer path klass) := by
  have hdelete : ∀ bundleID, Script.Extends (deleteBundle conn turns bundleID)
      (deleteBundle conn (turns + more) bundleID) :=
    fun bundleID => (Script.Extends.refl _).bind fun _ =>
      (deleteValues_extends conn turns more bundleID).bind fun _ => .refl _
  have hold : Script.Extends (deleteOldBundle conn turns path) (deleteOldBundle conn (turns + more) path) := by
    refine (Script.Extends.refl _).bind fun res => ?_
    cases res with
    | row bundleID rcOldBundle =>
      simp only
      split
      · exact hdelete bundleID
      · exact .refl _
    | done => exact .refl _
    | error code => exact .refl _
  exact (Script.Extends.refl _).bind fun _ => hold.bind fun _ => .refl _

end Turns

section Outcomes

variable {σ : Type}

/-- Import runs to its end, with what the connection is then at. -/
def Commits (conn : Connection Query σ) (layer : Int) (path : String) (klass : Class) (s s' : σ) : Prop :=
  ∃ turns made, importClass conn turns layer path klass s = ⟨.ok (), s', made⟩

/-- Import dies. -/
def Dies (conn : Connection Query σ) (layer : Int) (path : String) (klass : Class) (s : σ) : Prop :=
  ∃ turns msg, DiesWith (importClass conn turns layer path klass) s msg

variable {affinity : String → SqlValue} {conn : Connection Query σ} {db : σ → Db} {P : String → Prop}
  (h : Acts affinity conn db P) {s s' : σ} {layer : Int} {path : String} {klass : Class} (hpath : P path)
  (hP : ∀ x ∈ klass.strings, P x) (hfits : IdsFit affinity (db s).repo path klass)

include h hpath hP hfits

theorem Commits.commit (hcommits : Commits conn.ints layer path klass s s') :
    AddSys.commit affinity layer path klass (db s).repo = .ok (db s').repo := by
  obtain ⟨turns, made, hrun⟩ := hcommits
  have hmore : importClass conn.ints (turns + ((db s).repo.propertyValues.rows.length + 1)) layer path klass s =
      ⟨.ok (), s', made⟩ := by
    rw [importClass_extends conn.ints turns _ layer path klass s (by simp [hrun]), hrun]
  have hgives := importClass_gives h (turns + ((db s).repo.propertyValues.rows.length + 1)) layer hpath hP hfits
      (by omega)
  cases hcommit : AddSys.commit affinity layer path klass (db s).repo with
  | error msg =>
    obtain ⟨s'', made', hdies⟩ := hgives.2 msg hcommit
    rw [hmore] at hdies
    cases hdies
  | ok r' =>
    obtain ⟨s'', made', hok, hrepo⟩ := hgives.1 r' hcommit
    rw [hmore] at hok
    cases hok
    rw [← hrepo]

theorem Dies.commit (hdies : Dies conn.ints layer path klass s) :
    ∃ msg, AddSys.commit affinity layer path klass (db s).repo = .error msg := by
  obtain ⟨turns, msg, s', made, hrun⟩ := hdies
  have hmore : importClass conn.ints (turns + ((db s).repo.propertyValues.rows.length + 1)) layer path klass s =
      ⟨.error (.died msg), s', made⟩ := by
    rw [importClass_extends conn.ints turns _ layer path klass s (by simp [hrun]), hrun]
  have hgives := importClass_gives h (turns + ((db s).repo.propertyValues.rows.length + 1)) layer hpath hP hfits
      (by omega)
  cases hcommit : AddSys.commit affinity layer path klass (db s).repo with
  | error msg => exact ⟨msg, rfl⟩
  | ok r' =>
    obtain ⟨s'', made', hok, hrepo⟩ := hgives.1 r' hcommit
    rw [hmore] at hok
    cases hok

/-- Import commits what `commit` gives. -/
theorem exists_commits {r' : Repository} (hcommit : AddSys.commit affinity layer path klass (db s).repo = .ok r') :
    ∃ s', Commits conn.ints layer path klass s s' ∧ (db s').repo = r' := by
  obtain ⟨s', made, hrun, hrepo⟩ := (importClass_gives h _ layer hpath hP hfits (Nat.lt_succ_self _)).1 r' hcommit
  exact ⟨s', ⟨_, made, hrun⟩, hrepo⟩

/-- It dies where `commit` does. -/
theorem dies_of_error {msg : String} (hcommit : AddSys.commit affinity layer path klass (db s).repo = .error msg) :
    Dies conn.ints layer path klass s :=
  ⟨_, msg, (importClass_gives h _ layer hpath hP hfits (Nat.lt_succ_self _)).2 msg hcommit⟩

end Outcomes

section Repositories

variable {σ : Type}

/-- The connection as the program uses it: a statement goes out as a text, and what comes back is
kept in variables of type `int`. -/
def program (sqlite : Connection (List Char) σ) : Connection Query σ :=
  (texts sqlite).ints

/-- Import, begun on a connection to the first repository, commits and leaves the second. -/
def CommitsTo (conn : Connection Query σ) (db : σ → Db) (layer : Int) (path : String) (klass : Class)
    (r r' : Repository) : Prop :=
  ∃ s s', (db s).repo = r ∧ Commits conn layer path klass s s' ∧ (db s').repo = r'

/-- A run of the program: import commits, or it dies and its transaction is rolled back. -/
def RunsTo (conn : Connection Query σ) (db : σ → Db) (layer : Int) (path : String) (klass : Class)
    (r r' : Repository) : Prop :=
  CommitsTo conn db layer path klass r r' ∨ (∃ s, (db s).repo = r ∧ Dies conn layer path klass s) ∧ r' = r

variable {affinity : String → SqlValue} {sqlite : Connection (List Char) σ} {db : σ → Db} {layer : Int} {path : String}
  {klass : Class} {r r' : Repository}

theorem CommitsTo.of_acts {conn : Connection Query σ} {P : String → Prop} (h : Acts affinity conn db P) (hpath : P path)
    (hP : ∀ x ∈ klass.strings, P x) (hfits : IdsFit affinity r path klass)
    (hcommits : CommitsTo conn.ints db layer path klass r r') : AddSys.commit affinity layer path klass r = .ok r' := by
  obtain ⟨s, s', rfl, hcommits, rfl⟩ := hcommits
  exact hcommits.commit h hpath hP hfits

theorem exists_commitsTo_of_acts {conn : Connection Query σ} {P : String → Prop} (h : Acts affinity conn db P) {s : σ}
    (hpath : P path) (hP : ∀ x ∈ klass.strings, P x) (hfits : IdsFit affinity (db s).repo path klass)
    (hcommit : AddSys.commit affinity layer path klass (db s).repo = .ok r') :
    ∃ s', (db s').repo = r' ∧ CommitsTo conn.ints db layer path klass (db s).repo r' := by
  obtain ⟨s', hcommits, hrepo⟩ := exists_commits h hpath hP hfits hcommit
  exact ⟨s', hrepo, s, s', rfl, hcommits, hrepo⟩

section Carried

variable (h : Understands affinity sqlite db) (hcarried : Carried affinity r path klass)

include h hcarried

/-- Where all that it brings is carried, the program commits what `commit` gives. -/
theorem CommitsTo.commit (hcommits : CommitsTo (program sqlite) db layer path klass r r') :
    AddSys.commit affinity layer path klass r = .ok r' :=
  hcommits.of_acts h.acts hcarried.path_quoteFree hcarried.strings_quoteFree hcarried.ids

theorem RunsTo.commit (hruns : RunsTo (program sqlite) db layer path klass r r') :
    AddSys.commit affinity layer path klass r = .ok r' ∨
      (∃ msg, AddSys.commit affinity layer path klass r = .error msg) ∧ r' = r := by
  obtain hcommits | ⟨⟨s, rfl, hdies⟩, rfl⟩ := hruns
  · exact .inl (hcommits.commit h hcarried)
  · exact .inr ⟨hdies.commit h.acts hcarried.path_quoteFree hcarried.strings_quoteFree hcarried.ids, rfl⟩

/-- It leaves what `runImport` gives. -/
theorem RunsTo.runImport (hruns : RunsTo (program sqlite) db layer path klass r r') :
    r' = AddSys.runImport affinity layer path klass r := by
  obtain hcommit | ⟨⟨msg, hcommit⟩, rfl⟩ := hruns.commit h hcarried
  · exact (runImport_of_ok hcommit).symm
  · exact (runImport_of_error (by simp [hcommit])).symm

omit hcarried in
theorem exists_commitsTo {s : σ} (hcarried : Carried affinity (db s).repo path klass)
    (hcommit : AddSys.commit affinity layer path klass (db s).repo = .ok r') :
    ∃ s', (db s').repo = r' ∧ CommitsTo (program sqlite) db layer path klass (db s).repo r' :=
  exists_commitsTo_of_acts h.acts hcarried.path_quoteFree hcarried.strings_quoteFree hcarried.ids hcommit

omit hcarried in
/-- The program gets through: it commits or it dies. -/
theorem exists_runsTo (s : σ) (hcarried : Carried affinity (db s).repo path klass) :
    ∃ s', RunsTo (program sqlite) db layer path klass (db s).repo (db s').repo := by
  cases hcommit : AddSys.commit affinity layer path klass (db s).repo with
  | ok r' =>
    obtain ⟨s', rfl, hcommits⟩ := exists_commitsTo h hcarried hcommit
    exact ⟨s', .inl hcommits⟩
  | error msg =>
    have hdies := dies_of_error h.acts hcarried.path_quoteFree hcarried.strings_quoteFree hcarried.ids hcommit
    exact ⟨s, .inr ⟨⟨s, rfl, hdies⟩, rfl⟩⟩

end Carried

end Repositories

end Conn

end AddSys

end ServiceManager
