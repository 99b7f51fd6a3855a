import ServiceManager.AddSys.Engine
import ServiceManager.AddSys.Room
import ServiceManager.Sql.Connection
import ServiceManager.Sql.Token

namespace ServiceManager.Backend

open Sql AddSys

structure InstanceName where
  type : String
  svc : String
  nst : String

section Lookup

-- What a select comes to if it is prepared and stepped once.
variable (sqlite : String → Repository → StepResult)

/-- There is no space between the pieces of a statement, where the source ends one line
and begins the next. The columns are read into variables of type `int`. What is not found is
`-ENOENT`. -/
def persistentInstanceLookup (name : InstanceName) (r : Repository) : Int :=
  match (sqlite ("SELECT ServiceID FROM Services" ++ "WHERE Type = '" ++ name.type ++ "' AND Name = '" ++ name.svc ++
      "';") r).ints with
  | .row svcId _ =>
    match (sqlite ("SELECT InstanceID FROM Instances" ++ "WHERE FK_Parent_ServiceID = " ++ toString svcId ++
        "AND Name = '" ++ name.nst ++ "';") r).ints with
    | .row instId _ => instId
    | _ => -2
  | _ => -2

/-- In the grammar of a select, what follows a table in the FROM clause may be its alias.
A comparison is no continuation of that. -/
def RejectsComparison : Prop :=
  ∀ (statement : String) (column table word : List Char) (rest : List Token) (r : Repository),
    tokens statement = .word "SELECT".toList :: .word column :: .word "FROM".toList :: .word table :: .word word ::
      .punct '=' :: rest →
    ∃ code, sqlite statement r = .error code

variable {sqlite}

/-- `WHERE` is read as the end of the table's name, and `Type` as an alias. -/
theorem tokens_select_service (type svc : String) :
    ∃ rest, tokens ("SELECT ServiceID FROM Services" ++ "WHERE Type = '" ++ type ++ "' AND Name = '" ++ svc ++ "';") =
      .word "SELECT".toList :: .word "ServiceID".toList :: .word "FROM".toList :: .word "ServicesWHERE".toList ::
        .word "Type".toList :: .punct '=' :: rest := by
  simp only [tokens, String.toList_append, List.append_assoc]
  exact ⟨_, rfl⟩

theorem persistentInstanceLookup_eq (hsqlite : RejectsComparison sqlite) (name : InstanceName) (r : Repository) :
    persistentInstanceLookup sqlite name r = -2 := by
  obtain ⟨rest, htokens⟩ := tokens_select_service name.type name.svc
  obtain ⟨code, herror⟩ := hsqlite _ _ _ _ rest r htokens
  rw [persistentInstanceLookup, herror]
  rfl

end Lookup

/-- The name of a class: `type$svc`, or `svc`. -/
structure ClassName where
  type : Option String
  svc : String

namespace ClassName

variable (name : ClassName)

def text : String :=
  match name.type with
  | some type => type ++ "$" ++ name.svc
  | none => name.svc

/-- The type is, if unspecified, "none". -/
def instanceName (nst : String) : InstanceName :=
  ⟨name.type.getD "none", name.svc, nst⟩

end ClassName

section Agreement

variable {σ : Type} (conn : Connection Query σ) (db : σ → Conn.Db) (sqlite : String → Repository → StepResult)
  (layer : Layer) (path : String)

/-- Import commits, and each instance of the class is then found by its name, under the
key of its row, and no other is. -/
def Agrees (name : ClassName) (klass : AddSys.Class) (r : Repository) : Prop :=
  ∃ r' svcId, Conn.CommitsTo conn db layer.1 path klass r r' ∧ r'.selectService klass.name = some svcId ∧
    (∀ inst ∈ klass.instances, ∃ id : Nat, r'.instances.lookup InstanceKey.hit ⟨svcId, inst.name⟩ = some id ∧
      persistentInstanceLookup sqlite (name.instanceName inst.name) r' = id) ∧
    ∀ nst, r'.instances.lookup InstanceKey.hit ⟨svcId, nst⟩ = none →
      persistentInstanceLookup sqlite (name.instanceName nst) r' = -2

variable {conn db sqlite} {affinity : String → SqlValue} {insert : Connection (List Char) σ}

/-- Whatever import does, they do not agree on an instance. -/
theorem Agrees.instances_eq_nil (hsqlite : RejectsComparison sqlite) {name : ClassName} {klass : AddSys.Class}
    {r : Repository} (h : Agrees conn db sqlite layer path name klass r) : klass.instances = [] := by
  obtain ⟨r', svcId, -, -, hfound, -⟩ := h
  cases hinsts : klass.instances with
  | nil => rfl
  | cons inst rest =>
    obtain ⟨id, _, hlookup⟩ := hfound inst (hinsts ▸ List.mem_cons_self)
    rw [persistentInstanceLookup_eq hsqlite] at hlookup
    omega

end Agreement

def words (ws : List String) : List (List Char) :=
  ws.map String.toList

/-- What SQLite makes of the two selects of the lookup where they are spelt as they are
meant. It stands for an SQLite that knows no other statement. -/
def lookupSelects (statement : String) (r : Repository) : StepResult :=
  match tokens statement with
  | [.word w₁, .word w₂, .word w₃, .word w₄, .word w₅, .word w₆, .punct '=', .text type, .word w₇, .word w₈,
      .punct '=', .text name, .punct ';'] =>
    if [w₁, w₂, w₃, w₄, w₅, w₆, w₇, w₈] =
        words ["SELECT", "ServiceID", "FROM", "Services", "WHERE", "Type", "AND", "Name"] then
      match r.services.first fun row => row.type.toList = type ∧ row.name.toList = name with
      | some row => .row row.1 0
      | none => .done
    else .error 1
  | [.word w₁, .word w₂, .word w₃, .word w₄, .word w₅, .word w₆, .punct '=', .number svcId, .word w₇, .word w₈,
      .punct '=', .text name, .punct ';'] =>
    if [w₁, w₂, w₃, w₄, w₅, w₆, w₇, w₈] =
        words ["SELECT", "InstanceID", "FROM", "Instances", "WHERE", "FK_Parent_ServiceID", "AND", "Name"] then
      match r.instances.first fun row => (toString row.fkParentServiceID).toList = svcId ∧ row.name.toList = name with
      | some row => .row row.1 0
      | none => .done
    else .error 1
  | _ => .error 1

theorem lookupSelects_rejectsComparison : RejectsComparison lookupSelects := by
  intro statement column table word rest r htokens
  refine ⟨1, ?_⟩
  rw [lookupSelects, htokens]

end ServiceManager.Backend
