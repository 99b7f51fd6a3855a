import Mathlib.Data.List.TakeWhile
import ServiceManager.AddSys.Transaction
import ServiceManager.Sql.Statement

namespace ServiceManager

open Sql

namespace AddSys

/-- A format string in pieces: its own text, and the arguments of `%s` and `%d` in their
places. -/
inductive Conversion where
  | text (s : String)
  | str (s : String)
  | int (n : Int)

/-- A C string, as it is read up to its first NUL. -/
def cString (s : String) : List Char :=
  s.toList.takeWhile (· ≠ '\x00')

def decimal (n : Int) : List Char :=
  n.repr.toList

def Conversion.chars : Conversion → List Char
  | .text s => s.toList
  | .str s => cString s
  | .int n => decimal n

/-- `eciVASPrintF`. -/
def vasprintf (format : List Conversion) : List Char :=
  format.flatMap Conversion.chars

/-- `parentKey` with `parentID`. -/
def GroupColumn.column : GroupColumn → String × Int
  | .group id => ("FK_Parent_PropertyGroupID", id)
  | .service id => ("FK_Parent_ServiceID", id)

/-- `propParentKey` with `propParentID`. -/
def PropertyColumn.column : PropertyColumn → String × Int
  | .group id => ("FK_Parent_PropertyGroupID", id)
  | .nst id => ("FK_Parent_InstanceID", id)
  | .service id => ("FK_Parent_ServiceID", id)

namespace Query

def format : Query → List Conversion
  | .begin => [.text "BEGIN TRANSACTION;"]
  | .commit => [.text "COMMIT;"]
  | .selectBundle filename =>
    [.text "SELECT BundleID, RefCount FROM Bundles WHERE Filename = '", .str filename, .text "';"]
  | .selectValues bundleID => [.text "SELECT rowid FROM PropertyValues WHERE FK_BundleID = ", .int bundleID, .text ";"]
  | .deleteValue rowID => [.text "DELETE FROM PropertyValues WHERE rowid = ", .int rowID, .text ";"]
  | .deletePropertiesOf rowID => [.text "DELETE FROM Properties WHERE FK_PropertyValueID = ", .int rowID, .text ";"]
  | .deleteBundle bundleID => [.text "DELETE FROM Bundles WHERE BundleID = ", .int bundleID, .text ";"]
  | .insertBundle filename layer =>
    [.text "INSERT INTO Bundles(Filename, MD5Sum, Layer) VALUES('", .str filename, .text "', 0, ", .int layer,
      .text ");"]
  | .selectService name => [.text "SELECT ServiceID FROM Services WHERE Name = '", .str name, .text "';"]
  | .insertService name => [.text "INSERT INTO Services(Name) VALUES ('", .str name, .text "');"]
  | .selectInstance svcId name =>
    [.text "SELECT InstanceID FROM Instances WHERE FK_Parent_ServiceID = ", .int svcId, .text " AND Name = '",
      .str name,
      .text "';"]
  | .insertInstance svcId name =>
    [.text "INSERT INTO Instances(FK_Parent_ServiceID, Name) VALUES (", .int svcId, .text ", '", .str name, .text "');"]
  | .selectGroup parent name =>
    [.text "SELECT PropertyGroupID FROM PropertyGroups WHERE ", .str parent.column.1, .text " = ", .int parent.column.2,
      .text " AND Name = '", .str name, .text "';"]
  | .insertGroup parent name =>
    [.text "INSERT INTO PropertyGroups(Name, ", .str parent.column.1, .text ") VALUES ('", .str name, .text "', ",
      .int parent.column.2, .text ");"]
  | .insertString bundleID key value =>
    [.text "INSERT INTO PropertyValues(FK_BundleID, Type, PropertyKey, StringValue)VALUES(", .int bundleID,
      .text ", 'String', '", .str key, .text "', '", .str value, .text "');"]
  | .insertPage bundleID key pageID =>
    [.text "INSERT INTO PropertyValues (FK_BundleID, Type, PropertyKey, FK_PageValue_PropertyGroupID) VALUES(",
      .int bundleID, .text ", 'Page', '", .str key, .text "', '", .int pageID, .text "');"]
  | .insertProperty parent propValId =>
    [.text "INSERT INTO Properties(", .str parent.column.1, .text ", FK_PropertyValueID) VALUES (",
      .int parent.column.2,
      .text ", ", .int propValId, .text ");"]

/-- The strings that a bundle brings to a statement. -/
def strings : Query → List String
  | .selectBundle filename => [filename]
  | .insertBundle filename _ => [filename]
  | .selectService name => [name]
  | .insertService name => [name]
  | .selectInstance _ name => [name]
  | .insertInstance _ name => [name]
  | .selectGroup _ name => [name]
  | .insertGroup _ name => [name]
  | .insertString _ key value => [key, value]
  | .insertPage _ key _ => [key]
  | _ => []

/-- The statement that is meant. -/
def statement : Query → Statement
  | .begin => .ofStrings "BEGIN TRANSACTION;" []
  | .commit => .ofStrings "COMMIT;" []
  | .selectBundle filename => .ofStrings "SELECT BundleID, RefCount FROM Bundles WHERE Filename = " [(filename, ";")]
  | .selectValues bundleID =>
      .ofStrings ("SELECT rowid FROM PropertyValues WHERE FK_BundleID = " ++ bundleID.repr ++ ";") []
  | .deleteValue rowID => .ofStrings ("DELETE FROM PropertyValues WHERE rowid = " ++ rowID.repr ++ ";") []
  | .deletePropertiesOf rowID =>
      .ofStrings ("DELETE FROM Properties WHERE FK_PropertyValueID = " ++ rowID.repr ++ ";") []
  | .deleteBundle bundleID => .ofStrings ("DELETE FROM Bundles WHERE BundleID = " ++ bundleID.repr ++ ";") []
  | .insertBundle filename layer =>
    .ofStrings "INSERT INTO Bundles(Filename, MD5Sum, Layer) VALUES(" [(filename, ", 0, " ++ layer.repr ++ ");")]
  | .selectService name => .ofStrings "SELECT ServiceID FROM Services WHERE Name = " [(name, ";")]
  | .insertService name => .ofStrings "INSERT INTO Services(Name) VALUES (" [(name, ");")]
  | .selectInstance svcId name =>
    .ofStrings ("SELECT InstanceID FROM Instances WHERE FK_Parent_ServiceID = " ++ svcId.repr ++ " AND Name = ")
      [(name, ";")]
  | .insertInstance svcId name =>
    .ofStrings ("INSERT INTO Instances(FK_Parent_ServiceID, Name) VALUES (" ++ svcId.repr ++ ", ") [(name, ");")]
  | .selectGroup parent name =>
    .ofStrings
      ("SELECT PropertyGroupID FROM PropertyGroups WHERE " ++ parent.column.1 ++ " = " ++ parent.column.2.repr ++
        " AND Name = ")
      [(name, ";")]
  | .insertGroup parent name =>
    .ofStrings ("INSERT INTO PropertyGroups(Name, " ++ parent.column.1 ++ ") VALUES (")
      [(name, ", " ++ parent.column.2.repr ++ ");")]
  | .insertString bundleID key value =>
    .ofStrings ("INSERT INTO PropertyValues(FK_BundleID, Type, PropertyKey, StringValue)VALUES(" ++
      bundleID.repr ++ ", ")
      [("String", ", "), (key, ", "), (value, ");")]
  | .insertPage bundleID key pageID =>
    .ofStrings
      ("INSERT INTO PropertyValues (FK_BundleID, Type, PropertyKey, FK_PageValue_PropertyGroupID) VALUES(" ++
        bundleID.repr ++ ", ")
      [("Page", ", "), (key, ", "), (pageID.repr, ");")]
  | .insertProperty parent propValId =>
    .ofStrings ("INSERT INTO Properties(" ++ parent.column.1 ++ ", FK_PropertyValueID) VALUES (" ++
      parent.column.2.repr ++ ", " ++ propValId.repr ++ ");") []

end Query

theorem quote_not_mem_decimal (n : Int) : '\'' ∉ decimal n := by
  have hnat : ∀ n : Nat, '\'' ∉ n.repr.toList := by
    intro n hmem
    have hdigit := Nat.isDigit_of_mem_toDigits (by decide) (by decide)
        (show '\'' ∈ Nat.toDigits 10 n by simpa [Nat.repr] using hmem)
    exact absurd hdigit (by decide)
  cases n with
  | ofNat n => exact hnat n
  | negSucc n => simpa [decimal, Int.repr] using hnat (n + 1)

theorem cString_eq {s : String} (h : '\x00' ∉ s.toList) : cString s = s.toList := by
  rw [cString, List.takeWhile_eq_self_iff]
  intro c hc
  simpa using fun heq : c = '\x00' => h (heq ▸ hc)

section Columns

theorem GroupColumn.column_cString (parent : GroupColumn) : cString parent.column.1 = parent.column.1.toList := by
  cases parent <;> exact cString_eq (by simp [GroupColumn.column])

theorem GroupColumn.column_plain (parent : GroupColumn) : '\'' ∉ parent.column.1.toList := by
  cases parent <;> simp [GroupColumn.column]

theorem PropertyColumn.column_cString (parent : PropertyColumn) : cString parent.column.1 = parent.column.1.toList := by
  cases parent <;> exact cString_eq (by simp [PropertyColumn.column])

theorem PropertyColumn.column_plain (parent : PropertyColumn) : '\'' ∉ parent.column.1.toList := by
  cases parent <;> simp [PropertyColumn.column]

end Columns

/-- What is written is the statement that is meant, with its texts put in quotes as they are. -/
theorem format_statement (q : Query) (h : ∀ s ∈ q.strings, '\x00' ∉ s.toList) :
    vasprintf q.format = q.statement.quoted := by
  have hstrings : ∀ s ∈ q.strings, cString s = s.toList := fun s hs => cString_eq (h s hs)
  clear h
  cases q <;> simp only [Query.strings, List.forall_mem_cons] at hstrings <;>
    simp only [Query.format, Query.statement, vasprintf, Conversion.chars, Statement.quoted, decimal,
      Statement.start_ofStrings,
      Statement.rest_ofStrings, GroupColumn.column_cString, PropertyColumn.column_cString, hstrings, List.flatMap_cons,
      List.flatMap_nil, List.map_cons, List.map_nil, String.toList_append, List.append_assoc, List.cons_append,
        List.append_nil,
      List.append_cancel_left_eq, -String.reduceToList]
  -- a quote is at the end of one piece of the format, or at the beginning of the next
  all_goals simp

/-- The characters of a literal. -/
theorem not_mem_toList {c : Char} {cs : List Char} (h : c ∉ cs) : c ∉ (String.ofList cs).toList := by
  rwa [String.toList_ofList]

theorem statement_plain (q : Query) : q.statement.Plain := by
  have hdecimal : ∀ n : Int, '\'' ∉ n.repr.toList := quote_not_mem_decimal
  constructor
  · cases q <;>
      simp only [Query.statement, Statement.start_ofStrings, String.toList_append, List.mem_append, hdecimal,
        GroupColumn.column_plain, PropertyColumn.column_plain, not_or, not_false_eq_true, and_true,
        -String.reduceToList] <;>
      and_intros <;> exact not_mem_toList (by decide)
  · cases q <;> simp [Query.statement, hdecimal]

/-- The texts of a statement are the strings of the bundle, the kinds of values, and a
number. -/
theorem statement_texts (q : Query) :
    (∀ p ∈ q.statement.rest, '\'' ∉ p.1) ↔ ∀ s ∈ q.strings, '\'' ∉ s.toList := by
  have hdecimal : ∀ n : Int, '\'' ∉ n.repr.toList := quote_not_mem_decimal
  cases q <;> simp [Query.statement, Query.strings, hdecimal]

/-- A statement of an import is the one that is meant, with each text denoting the string it
was made from, exactly if no string has a quote in it. -/
theorem format_intact_iff (q : Query) (h : ∀ s ∈ q.strings, '\x00' ∉ s.toList) :
    Token.tokenize .nothing (vasprintf q.format) = q.statement.meant ↔ ∀ s ∈ q.strings, '\'' ∉ s.toList := by
  rw [format_statement q h, Statement.tokenize_quoted_iff (statement_plain q), statement_texts]

/-- The name of a service. -/
theorem format_intact_sshd :
    Token.tokenize .nothing (vasprintf (Query.selectService "sshd").format) =
      [.word "SELECT".toList, .word "ServiceID".toList, .word "FROM".toList, .word "Services".toList,
        .word "WHERE".toList, .word "Name".toList, .punct '=', .text "sshd".toList, .punct ';'] :=
  ((format_intact_iff (.selectService "sshd") (by simp [Query.strings])).mpr (by simp [Query.strings])).trans rfl

/-- The value `it's` of a property. -/
theorem format_not_intact :
    Token.tokenize .nothing (vasprintf (Query.insertString 1 "motd" "it's").format) ≠
      (Query.insertString 1 "motd" "it's").statement.meant := by
  rw [format_statement _ (by simp [Query.strings]), ne_eq, Statement.tokenize_quoted_iff (statement_plain _),
    statement_texts]
  simp [Query.strings]

end AddSys

end ServiceManager
