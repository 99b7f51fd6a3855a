import ServiceManager.AddSys.Carried
import ServiceManager.Sql.Literal

namespace ServiceManager

open Sql Token

namespace AddSys

namespace Query

/-- The statement with blank literals. -/
def sample : Query → Query
  | .begin => .begin
  | .commit => .commit
  | .selectBundle _ => .selectBundle ""
  | .selectValues _ => .selectValues 0
  | .deleteValue _ => .deleteValue 0
  | .deletePropertiesOf _ => .deletePropertiesOf 0
  | .deleteBundle _ => .deleteBundle 0
  | .insertBundle _ (.ofNat _) => .insertBundle "" 0
  | .insertBundle _ (.negSucc _) => .insertBundle "" (.negSucc 0)
  | .selectService _ => .selectService ""
  | .insertService _ => .insertService ""
  | .selectInstance _ _ => .selectInstance 0 ""
  | .insertInstance _ _ => .insertInstance 0 ""
  | .selectGroup (.service _) _ => .selectGroup (.service 0) ""
  | .selectGroup (.group _) _ => .selectGroup (.group 0) ""
  | .insertGroup (.service _) _ => .insertGroup (.service 0) ""
  | .insertGroup (.group _) _ => .insertGroup (.group 0) ""
  | .insertString _ _ _ => .insertString 0 "" ""
  | .insertPage _ _ _ => .insertPage 0 "" 0
  | .insertProperty (.service _) _ => .insertProperty (.service 0) 0
  | .insertProperty (.nst _) _ => .insertProperty (.nst 0) 0
  | .insertProperty (.group _) _ => .insertProperty (.group 0) 0

/-- The statement like a sample that has the given literals. -/
def build : Query → List Nat → List (List Char) → Option Query
  | .begin, _, _ => some .begin
  | .commit, _, _ => some .commit
  | .selectBundle _, [], [filename] => some (.selectBundle (.ofList filename))
  | .selectValues _, [bundleID], [] => some (.selectValues bundleID)
  | .deleteValue _, [rowID], [] => some (.deleteValue rowID)
  | .deletePropertiesOf _, [rowID], [] => some (.deletePropertiesOf rowID)
  | .deleteBundle _, [bundleID], [] => some (.deleteBundle bundleID)
  | .insertBundle _ (.ofNat _), [0, layer], [filename] => some (.insertBundle (.ofList filename) layer)
  | .insertBundle _ (.negSucc _), [0, layer], [filename] => some (.insertBundle (.ofList filename) (-layer))
  | .selectService _, [], [name] => some (.selectService (.ofList name))
  | .insertService _, [], [name] => some (.insertService (.ofList name))
  | .selectInstance _ _, [svcId], [name] => some (.selectInstance svcId (.ofList name))
  | .insertInstance _ _, [svcId], [name] => some (.insertInstance svcId (.ofList name))
  | .selectGroup (.service _) _, [id], [name] => some (.selectGroup (.service id) (.ofList name))
  | .selectGroup (.group _) _, [id], [name] => some (.selectGroup (.group id) (.ofList name))
  | .insertGroup (.service _) _, [id], [name] => some (.insertGroup (.service id) (.ofList name))
  | .insertGroup (.group _) _, [id], [name] => some (.insertGroup (.group id) (.ofList name))
  | .insertString _ _ _, [bundleID], [type, key, value] =>
    if type = "String".toList then some (.insertString bundleID (.ofList key) (.ofList value)) else none
  | .insertPage _ _ _, [bundleID], [type, key, pageID] =>
    if type = "Page".toList then
      some (.insertPage bundleID (.ofList key) (Nat.ofDigitChars 10 pageID 0 : Nat)) else none
  | .insertProperty (.service _) _, [id, propValId], [] => some (.insertProperty (.service id) propValId)
  | .insertProperty (.nst _) _, [id, propValId], [] => some (.insertProperty (.nst id) propValId)
  | .insertProperty (.group _) _, [id, propValId], [] => some (.insertProperty (.group id) propValId)
  | _, _, _ => none

def shape (q : Query) : List Token :=
  q.statement.meant.map Token.shape

/-- Some characters of a statement, which tell it from all others. -/
def mark : Query → String
  | .begin => "BN;"
  | .commit => "C;"
  | .selectBundle _ => "SB,RFBWF=;"
  | .selectValues _ => "SrFlWD=;"
  | .deleteValue _ => "DFlWr=;"
  | .deletePropertiesOf _ => "DFPWy=;"
  | .deleteBundle _ => "DFBWB=;"
  | .insertBundle _ (.ofNat _) => "IIB(F,M,L)V(,,);"
  | .insertBundle _ (.negSucc _) => "IIB(F,M,L)V(,,-);"
  | .selectService _ => "SSFSWN=;"
  | .insertService _ => "IIS(N)V();"
  | .selectInstance _ _ => "SIFIWS=AN=;"
  | .insertInstance _ _ => "III(S,N)V(,);"
  | .selectGroup (.service _) _ => "SoFoWS=AN=;"
  | .selectGroup (.group _) _ => "SoFoWP=AN=;"
  | .insertGroup (.service _) _ => "IIo(N,S)V(,);"
  | .insertGroup (.group _) _ => "IIo(N,P)V(,);"
  | .insertString _ _ _ => "IIl(D,T,y,e)V(,,,);"
  | .insertPage _ _ _ => "IIl(D,T,y,u)V(,,,);"
  | .insertProperty (.service _) _ => "IIP(S,y)V(,);"
  | .insertProperty (.nst _) _ => "IIP(I,y)V(,);"
  | .insertProperty (.group _) _ => "IIP(P,y)V(,);"

end Query

/-- The statements of the program. -/
def samples : List Query :=
  [.begin, .commit, .selectBundle "", .selectValues 0, .deleteValue 0, .deletePropertiesOf 0, .deleteBundle 0,
    .insertBundle "" 0, .insertBundle "" (.negSucc 0), .selectService "", .insertService "", .selectInstance 0 "",
    .insertInstance 0 "", .selectGroup (.service 0) "", .selectGroup (.group 0) "", .insertGroup (.service 0) "",
    .insertGroup (.group 0) "", .insertString 0 "" "", .insertPage 0 "" 0, .insertProperty (.service 0) 0,
    .insertProperty (.nst 0) 0, .insertProperty (.group 0) 0]

/-- The statement that the tokens are. -/
def parse (tokens : List Token) : Option Query :=
  (samples.find? fun sample => sample.shape = tokens.map Token.shape).bind fun sample =>
    sample.build (numbers tokens) (texts tokens)

/-- A character of each word, and the punctuation. -/
def mark (tokens : List Token) : String :=
  .ofList <| tokens.filterMap fun
    | .word cs => some (cs.getD 10 (cs.headD ' '))
    | .punct c => some c
    | _ => none

/-- How a statement is read: it has the mark and the shape of its sample, and the literals. -/
structure Query.Reads (q : Query) (ns : List Nat) (ts : List (List Char)) : Prop where
  mark : AddSys.mark q.statement.meant = q.mark
  shape : q.shape = q.sample.shape
  numbers : numbers q.statement.meant = ns
  texts : texts q.statement.meant = ts
  ends : endsOnce q.statement.meant = true

section Reads

open Statement

set_option maxRecDepth 4000

variable {q : Query} {tokens tokens' us us' : List Token} {n m : Nat} {cs : List Char} {ns : List Nat}
    {ts : List (List Char)}

theorem Query.Reads.of_number (hq : q.statement.meant = tokens ++ .number n.repr.toList :: us)
    (hsample : q.sample.statement.meant = tokens' ++ .number m.repr.toList :: us')
    (hbefore : tokens.map Token.shape = tokens'.map Token.shape) (hshape : us.map Token.shape = us'.map Token.shape)
    (hmark : AddSys.mark (tokens ++ .number n.repr.toList :: us) = q.mark)
    (hnumbers : Token.numbers tokens ++ n :: Token.numbers us = ns)
    (htexts : Token.texts (tokens ++ .number n.repr.toList :: us) = ts)
    (hends : endsOnce (tokens ++ .number n.repr.toList :: us) = true) : q.Reads ns ts where
  mark := by rw [hq, hmark]
  shape := by rw [Query.shape, Query.shape, hq, hsample, shape_number hbefore hshape]
  numbers := by rw [hq, numbers_number, hnumbers]
  texts := by rw [hq, htexts]
  ends := by rw [hq, hends]

theorem Query.Reads.of_text (hq : q.statement.meant = tokens ++ .text cs :: us)
    (hsample : q.sample.statement.meant = tokens ++ .text [] :: us') (hshape : us.map Token.shape = us'.map Token.shape)
    (hmark : AddSys.mark (tokens ++ .text cs :: us) = q.mark) (hnumbers : Token.numbers (tokens ++ .text cs :: us) = ns)
    (htexts : Token.texts (tokens ++ .text cs :: us) = ts) (hends : endsOnce (tokens ++ .text cs :: us) = true) :
    q.Reads ns ts where
  mark := by rw [hq, hmark]
  shape := by rw [Query.shape, Query.shape, hq, hsample, shape_text hshape]
  numbers := by rw [hq, hnumbers]
  texts := by rw [hq, htexts]
  ends := by rw [hq, hends]

/-- A key as it is written. -/
theorem repr_natCast (n : Nat) : (n : Int).repr = n.repr := rfl

/-- Code that does not begin with a digit. -/
theorem not_digit {c : Char} {cs : List Char} {after : String} (hc : c.isDigit = false) :
    ∀ c', (String.ofList (c :: cs) ++ after).toList.head? = some c' → c'.isDigit = false := by
  intro c' h
  rw [String.toList_append, String.toList_ofList] at h
  obtain rfl := Option.some.inj h
  exact hc

theorem append_empty (code : List Char) : String.ofList code = String.ofList code ++ "" := by simp

theorem ofList_append₃ (as bs cs : List Char) :
    String.ofList as ++ String.ofList bs ++ String.ofList cs = .ofList (as ++ bs ++ cs) := by
  rw [String.ofList_append, String.ofList_append]

section Code

variable {start : String} {before : List Char} {c : Char} {cs code : List Char}

/-- A statement with a number between code. -/
theorem meant_number_code (n : Nat) (hstart : start = .ofList before ++ n.repr ++ .ofList (c :: cs))
    (hbefore : (feed .nothing before).2 = .nothing) (hc : c.isDigit = false) :
    (ofStrings start []).meant = (feed .nothing before).1 ++ .number n.repr.toList :: tokenize .nothing (c :: cs) := by
  rw [meant_number n hstart hbefore (append_empty _ ▸ not_digit hc), meant_code rfl]

/-- A statement with a number between code, and then a text. -/
theorem meant_number_text (n : Nat) (hstart : start = .ofList before ++ n.repr ++ .ofList (c :: cs))
    (hbefore : (feed .nothing before).2 = .nothing) (hc : c.isDigit = false) (s : String) (after : List Char) :
    (ofStrings start [(s, .ofList after)]).meant = (feed .nothing before).1 ++
      .number n.repr.toList :: (tokenize .nothing (c :: cs) ++ .text s.toList :: tokenize .nothing after) := by
  rw [meant_number n hstart hbefore (append_empty _ ▸ not_digit hc), meant_text rfl, meant_code rfl]

/-- A statement with a number between code, and then texts. -/
theorem meant_number_texts (n : Nat) (hstart : start = .ofList before ++ n.repr ++ .ofList (c :: cs))
    (hbefore : (feed .nothing before).2 = .nothing) (hc : c.isDigit = false) (s : String) (as : List Char) (t : String)
    (bs : List Char) (u : String) (after : List Char) :
    (ofStrings start [(s, .ofList as), (t, .ofList bs), (u, .ofList after)]).meant = (feed .nothing before).1 ++
      .number n.repr.toList :: (tokenize .nothing (c :: cs) ++ .text s.toList :: (tokenize .nothing as ++
        .text t.toList :: (tokenize .nothing bs ++ .text u.toList :: tokenize .nothing after))) := by
  rw [meant_number n hstart hbefore (append_empty _ ▸ not_digit hc), meant_text rfl, meant_text rfl, meant_text rfl,
    meant_code rfl]

/-- A statement with two numbers between code. -/
theorem meant_numbers {c' : Char} {cs' : List Char} (n m : Nat)
    (hstart : start = .ofList before ++ n.repr ++ .ofList (c :: cs) ++ m.repr ++ .ofList (c' :: cs'))
    (hbefore : (feed .nothing before).2 = .nothing) (hc : c.isDigit = false)
    (hbetween : (feed .nothing (c :: cs)).2 = .nothing) (hc' : c'.isDigit = false) :
    (ofStrings start []).meant = (feed .nothing before).1 ++ .number n.repr.toList ::
      ((feed .nothing (c :: cs)).1 ++ .number m.repr.toList :: tokenize .nothing (c' :: cs')) := by
  have hstart' : start = .ofList before ++ n.repr ++ (.ofList (c :: cs) ++ (m.repr ++ .ofList (c' :: cs'))) := by
    rw [hstart, String.append_assoc, String.append_assoc]
  rw [meant_number n hstart' hbefore (not_digit hc), meant_number_code m (String.append_assoc ..).symm hbetween hc']

/-- A statement with a text between code. -/
theorem meant_text_code (hstart : start = .ofList code) (s : String) (after : List Char) :
    (ofStrings start [(s, .ofList after)]).meant = tokenize .nothing code ++ .text s.toList ::
      tokenize .nothing after := by
  rw [meant_text hstart, meant_code rfl]

/-- A statement with a text between code, and then a number. -/
theorem meant_text_number (hstart : start = .ofList code) (s : String) (n : Nat) {t : String}
    (ht : t = .ofList before ++ n.repr ++ .ofList (c :: cs)) (hbefore : (feed .nothing before).2 = .nothing)
    (hc : c.isDigit = false) :
    (ofStrings start [(s, t)]).meant = (tokenize .nothing code ++ .text s.toList :: (feed .nothing before).1) ++
      .number n.repr.toList :: tokenize .nothing (c :: cs) := by
  rw [meant_text hstart, meant_number_code n ht hbefore hc]
  simp

end Code

theorem reads_begin : Query.begin.Reads [] [] := by
  have hmeant : Query.begin.statement.meant = _ := meant_code rfl
  exact ⟨by rw [hmeant]; rfl, rfl, by rw [hmeant]; rfl, by rw [hmeant]; rfl, by rw [hmeant]; rfl⟩

theorem reads_commit : Query.commit.Reads [] [] := by
  have hmeant : Query.commit.statement.meant = _ := meant_code rfl
  exact ⟨by rw [hmeant]; rfl, rfl, by rw [hmeant]; rfl, by rw [hmeant]; rfl, by rw [hmeant]; rfl⟩

theorem reads_selectBundle (filename : String) : (Query.selectBundle filename).Reads [] [filename.toList] :=
  .of_text (meant_text_code rfl _ _) (meant_text_code rfl _ _) rfl rfl rfl rfl rfl

theorem reads_selectValues (n : Nat) : (Query.selectValues n).Reads [n] [] :=
  .of_number (meant_number_code n rfl rfl rfl) (meant_number_code 0 rfl rfl rfl) rfl rfl rfl rfl rfl rfl

theorem reads_deleteValue (n : Nat) : (Query.deleteValue n).Reads [n] [] :=
  .of_number (meant_number_code n rfl rfl rfl) (meant_number_code 0 rfl rfl rfl) rfl rfl rfl rfl rfl rfl

theorem reads_deletePropertiesOf (n : Nat) : (Query.deletePropertiesOf n).Reads [n] [] :=
  .of_number (meant_number_code n rfl rfl rfl) (meant_number_code 0 rfl rfl rfl) rfl rfl rfl rfl rfl rfl

theorem reads_deleteBundle (n : Nat) : (Query.deleteBundle n).Reads [n] [] :=
  .of_number (meant_number_code n rfl rfl rfl) (meant_number_code 0 rfl rfl rfl) rfl rfl rfl rfl rfl rfl

theorem reads_insertBundle (filename : String) (n : Nat) :
    (Query.insertBundle filename (.ofNat n)).Reads [0, n] [filename.toList] :=
  .of_number (meant_text_number rfl _ n rfl rfl rfl) (meant_text_number rfl _ 0 rfl rfl rfl) rfl rfl rfl rfl rfl rfl

theorem reads_insertBundle_neg (filename : String) (n : Nat) :
    (Query.insertBundle filename (.negSucc n)).Reads [0, n + 1] [filename.toList] := by
  have hlayer : ∀ n : Nat, ", 0, " ++ (Int.negSucc n).repr ++ ");" =
      .ofList ([',', ' ', '0', ',', ' '] ++ ['-']) ++ (n + 1).repr ++ ");" := by
    intro n
    have hrepr : (Int.negSucc n).repr = "-" ++ (n + 1).repr := rfl
    rw [hrepr, ← String.append_assoc, String.ofList_append]
  exact .of_number (meant_text_number rfl _ (n + 1) (hlayer n) rfl rfl) (meant_text_number rfl _ 1 (hlayer 0) rfl rfl)
    rfl rfl rfl rfl rfl rfl

theorem reads_selectService (name : String) : (Query.selectService name).Reads [] [name.toList] :=
  .of_text (meant_text_code rfl _ _) (meant_text_code rfl _ _) rfl rfl rfl rfl rfl

theorem reads_insertService (name : String) : (Query.insertService name).Reads [] [name.toList] :=
  .of_text (meant_text_code rfl _ _) (meant_text_code rfl _ _) rfl rfl rfl rfl rfl

theorem reads_selectInstance (n : Nat) (name : String) : (Query.selectInstance n name).Reads [n] [name.toList] :=
  .of_number (meant_number_text n rfl rfl rfl _ _) (meant_number_text 0 rfl rfl rfl _ _) rfl rfl rfl rfl rfl rfl

theorem reads_insertInstance (n : Nat) (name : String) : (Query.insertInstance n name).Reads [n] [name.toList] :=
  .of_number (meant_number_text n rfl rfl rfl _ _) (meant_number_text 0 rfl rfl rfl _ _) rfl rfl rfl rfl rfl rfl

theorem reads_selectGroup_service (n : Nat) (name : String) :
    (Query.selectGroup (.service n) name).Reads [n] [name.toList] := by
  have hstart : ∀ n : Nat, "SELECT PropertyGroupID FROM PropertyGroups WHERE " ++ "FK_Parent_ServiceID" ++
      " = " ++ n.repr ++
      " AND Name = " = _ := fun n => congrArg (· ++ n.repr ++ _) (ofList_append₃ _ _ _)
  exact .of_number (meant_number_text n (hstart n) rfl rfl _ _)
    (meant_number_text 0 (hstart 0) rfl rfl _ _) rfl rfl rfl rfl rfl rfl

theorem reads_selectGroup_group (n : Nat) (name : String) :
    (Query.selectGroup (.group n) name).Reads [n] [name.toList] := by
  have hstart : ∀ n : Nat, "SELECT PropertyGroupID FROM PropertyGroups WHERE " ++
      "FK_Parent_PropertyGroupID" ++ " = " ++
      n.repr ++ " AND Name = " = _ := fun n => congrArg (· ++ n.repr ++ _) (ofList_append₃ _ _ _)
  exact .of_number (meant_number_text n (hstart n) rfl rfl _ _)
    (meant_number_text 0 (hstart 0) rfl rfl _ _) rfl rfl rfl rfl rfl rfl

theorem reads_insertGroup_service (n : Nat) (name : String) :
    (Query.insertGroup (.service n) name).Reads [n] [name.toList] :=
  .of_number (meant_text_number (ofList_append₃ _ _ _) _ n rfl rfl rfl)
    (meant_text_number (ofList_append₃ _ _ _) _ 0 rfl rfl rfl)
    rfl rfl rfl rfl rfl rfl

theorem reads_insertGroup_group (n : Nat) (name : String) :
    (Query.insertGroup (.group n) name).Reads [n] [name.toList] :=
  .of_number (meant_text_number (ofList_append₃ _ _ _) _ n rfl rfl rfl)
    (meant_text_number (ofList_append₃ _ _ _) _ 0 rfl rfl rfl)
    rfl rfl rfl rfl rfl rfl

theorem reads_insertString (n : Nat) (key value : String) :
    (Query.insertString n key value).Reads [n] ["String".toList, key.toList, value.toList] := by
  have hmeant : ∀ (n : Nat) key value, (Query.insertString n key value).statement.meant = _ := fun n key value =>
    meant_number_texts n rfl rfl rfl "String" _ key _ value _
  exact .of_number (hmeant n key value) (hmeant 0 "" "") rfl rfl rfl rfl rfl rfl

theorem reads_insertPage (n m : Nat) (key : String) :
    (Query.insertPage n key m).Reads [n] ["Page".toList, key.toList, m.repr.toList] := by
  have hmeant : ∀ (n m : Nat) key, (Query.insertPage n key m).statement.meant = _ := fun n m key =>
    meant_number_texts n rfl rfl rfl "Page" _ key _ m.repr _
  exact .of_number (hmeant n m key) (hmeant 0 0 "") rfl rfl rfl rfl rfl rfl

theorem reads_insertProperty_service (n m : Nat) : (Query.insertProperty (.service n) m).Reads [n, m] [] := by
  have hstart : ∀ n m : Nat, "INSERT INTO Properties(" ++ "FK_Parent_ServiceID" ++ ", FK_PropertyValueID) VALUES (" ++
      n.repr ++ ", " ++ m.repr ++ ");" = _ :=
      fun n m => congrArg (· ++ n.repr ++ _ ++ m.repr ++ _) (ofList_append₃ _ _ _)
  exact .of_number (meant_numbers n m (hstart n m) rfl rfl rfl rfl) (meant_numbers 0 0 (hstart 0 0) rfl rfl rfl rfl) rfl
    (shape_number rfl rfl) rfl (by rw [numbers_number]; rfl) rfl rfl

theorem reads_insertProperty_nst (n m : Nat) : (Query.insertProperty (.nst n) m).Reads [n, m] [] := by
  have hstart : ∀ n m : Nat, "INSERT INTO Properties(" ++ "FK_Parent_InstanceID" ++ ", FK_PropertyValueID) VALUES (" ++
      n.repr ++ ", " ++ m.repr ++ ");" = _ :=
      fun n m => congrArg (· ++ n.repr ++ _ ++ m.repr ++ _) (ofList_append₃ _ _ _)
  exact .of_number (meant_numbers n m (hstart n m) rfl rfl rfl rfl) (meant_numbers 0 0 (hstart 0 0) rfl rfl rfl rfl) rfl
    (shape_number rfl rfl) rfl (by rw [numbers_number]; rfl) rfl rfl

theorem reads_insertProperty_group (n m : Nat) : (Query.insertProperty (.group n) m).Reads [n, m] [] := by
  have hstart : ∀ n m : Nat, "INSERT INTO Properties(" ++ "FK_Parent_PropertyGroupID" ++
      ", FK_PropertyValueID) VALUES (" ++
      n.repr ++ ", " ++ m.repr ++ ");" = _ :=
      fun n m => congrArg (· ++ n.repr ++ _ ++ m.repr ++ _) (ofList_append₃ _ _ _)
  exact .of_number (meant_numbers n m (hstart n m) rfl rfl rfl rfl) (meant_numbers 0 0 (hstart 0 0) rfl rfl rfl rfl) rfl
    (shape_number rfl rfl) rfl (by rw [numbers_number]; rfl) rfl rfl

/-- Every statement of the program is read by its shape and its literals. -/
theorem exists_reads (q : Query) (hq : q.Named) : ∃ ns ts, q.Reads ns ts ∧ q.sample.build ns ts = some q := by
  cases q with
  | begin => exact ⟨_, _, reads_begin, rfl⟩
  | commit => exact ⟨_, _, reads_commit, rfl⟩
  | selectBundle filename => exact ⟨_, _, reads_selectBundle filename, by simp [Query.sample, Query.build]⟩
  | selectValues bundleID =>
    obtain ⟨n, rfl⟩ := Int.eq_ofNat_of_zero_le (hq _ List.mem_cons_self)
    exact ⟨_, _, reads_selectValues n, rfl⟩
  | deleteValue rowID =>
    obtain ⟨n, rfl⟩ := Int.eq_ofNat_of_zero_le (hq _ List.mem_cons_self)
    exact ⟨_, _, reads_deleteValue n, rfl⟩
  | deletePropertiesOf rowID =>
    obtain ⟨n, rfl⟩ := Int.eq_ofNat_of_zero_le (hq _ List.mem_cons_self)
    exact ⟨_, _, reads_deletePropertiesOf n, rfl⟩
  | deleteBundle bundleID =>
    obtain ⟨n, rfl⟩ := Int.eq_ofNat_of_zero_le (hq _ List.mem_cons_self)
    exact ⟨_, _, reads_deleteBundle n, rfl⟩
  | insertBundle filename layer =>
    cases layer with
    | ofNat n =>
      have hfilename : some (Query.insertBundle (.ofList filename.toList) (.ofNat n)) =
          some (.insertBundle filename (.ofNat n)) := by
        rw [String.ofList_toList]
      exact ⟨_, _, reads_insertBundle filename n, hfilename⟩
    | negSucc n =>
      have hfilename : some (Query.insertBundle (.ofList filename.toList) (.negSucc n)) =
          some (.insertBundle filename (.negSucc n)) := by rw [String.ofList_toList]
      exact ⟨_, _, reads_insertBundle_neg filename n, hfilename⟩
  | selectService name => exact ⟨_, _, reads_selectService name, by simp [Query.sample, Query.build]⟩
  | insertService name => exact ⟨_, _, reads_insertService name, by simp [Query.sample, Query.build]⟩
  | selectInstance svcId name =>
    obtain ⟨n, rfl⟩ := Int.eq_ofNat_of_zero_le (hq _ List.mem_cons_self)
    exact ⟨_, _, reads_selectInstance n name, by simp [Query.sample, Query.build]⟩
  | insertInstance svcId name =>
    obtain ⟨n, rfl⟩ := Int.eq_ofNat_of_zero_le (hq _ List.mem_cons_self)
    exact ⟨_, _, reads_insertInstance n name, by simp [Query.sample, Query.build]⟩
  | selectGroup parent name =>
    cases parent with
    | service id =>
      obtain ⟨n, rfl⟩ := Int.eq_ofNat_of_zero_le (hq _ List.mem_cons_self)
      exact ⟨_, _, reads_selectGroup_service n name, by simp [Query.sample, Query.build]⟩
    | group id =>
      obtain ⟨n, rfl⟩ := Int.eq_ofNat_of_zero_le (hq _ List.mem_cons_self)
      exact ⟨_, _, reads_selectGroup_group n name, by simp [Query.sample, Query.build]⟩
  | insertGroup parent name =>
    cases parent with
    | service id =>
      obtain ⟨n, rfl⟩ := Int.eq_ofNat_of_zero_le (hq _ List.mem_cons_self)
      exact ⟨_, _, reads_insertGroup_service n name, by simp [Query.sample, Query.build]⟩
    | group id =>
      obtain ⟨n, rfl⟩ := Int.eq_ofNat_of_zero_le (hq _ List.mem_cons_self)
      exact ⟨_, _, reads_insertGroup_group n name, by simp [Query.sample, Query.build]⟩
  | insertString bundleID key value =>
    obtain ⟨n, rfl⟩ := Int.eq_ofNat_of_zero_le (hq _ List.mem_cons_self)
    exact ⟨_, _, reads_insertString n key value, by simp [Query.sample, Query.build]⟩
  | insertPage bundleID key pageID =>
    obtain ⟨hbundle, hpage⟩ := List.forall_mem_cons.mp hq
    obtain ⟨n, rfl⟩ := Int.eq_ofNat_of_zero_le hbundle
    obtain ⟨m, rfl⟩ := Int.eq_ofNat_of_zero_le (hpage _ List.mem_cons_self)
    exact ⟨_, _, reads_insertPage n m key, by simp [Query.sample, Query.build]⟩
  | insertProperty parent propValId =>
    obtain ⟨hparent, hvalue⟩ := List.forall_mem_cons.mp hq
    obtain ⟨m, rfl⟩ := Int.eq_ofNat_of_zero_le (hvalue _ List.mem_cons_self)
    cases parent with
    | service id =>
      obtain ⟨n, rfl⟩ := Int.eq_ofNat_of_zero_le hparent
      exact ⟨_, _, reads_insertProperty_service n m, rfl⟩
    | nst id =>
      obtain ⟨n, rfl⟩ := Int.eq_ofNat_of_zero_le hparent
      exact ⟨_, _, reads_insertProperty_nst n m, rfl⟩
    | group id =>
      obtain ⟨n, rfl⟩ := Int.eq_ofNat_of_zero_le hparent
      exact ⟨_, _, reads_insertProperty_group n m, rfl⟩

end Reads

theorem mark_shape (tokens : List Token) : mark (tokens.map Token.shape) = mark tokens := by
  unfold mark
  rw [List.filterMap_map]
  congr 2
  funext t
  cases t <;> rfl

theorem sample_mem (q : Query) : q.sample ∈ samples := by
  cases q with
  | insertBundle filename layer => cases layer <;> simp [samples, Query.sample, -Int.reduceNegSucc]
  | selectGroup parent name => cases parent <;> simp [samples, Query.sample]
  | insertGroup parent name => cases parent <;> simp [samples, Query.sample]
  | insertProperty parent propValId => cases parent <;> simp [samples, Query.sample]
  | _ => simp [samples, Query.sample]

theorem samples_mark : (samples.map Query.mark).Nodup := by
  decide +kernel

theorem samples_named : ∀ q ∈ samples, q.Named := by
  unfold Query.Named
  decide +kernel

/-- Samples have a shape each. -/
theorem samples_shape {q q' : Query} (hq : q ∈ samples) (hq' : q' ∈ samples) (hshape : q.shape = q'.shape) :
    q = q' := by
  obtain ⟨_, _, hreads, -⟩ := exists_reads q (samples_named q hq)
  obtain ⟨_, _, hreads', -⟩ := exists_reads q' (samples_named q' hq')
  have hmark : q.mark = q'.mark := by
    rw [← hreads.mark, ← hreads'.mark, ← mark_shape, ← mark_shape q'.statement.meant]
    exact congrArg mark hshape
  exact List.inj_on_of_nodup_map samples_mark hq hq' hmark

/-- A statement of the program is read as itself. -/
theorem parse_meant {q : Query} (hq : q.Named) : parse q.statement.meant = some q := by
  obtain ⟨ns, ts, hreads, hbuild⟩ := exists_reads q hq
  have hfind : samples.find? (fun sample => sample.shape = q.statement.meant.map Token.shape) = some q.sample := by
    have hsample : q.sample.shape = q.statement.meant.map Token.shape := hreads.shape.symm
    cases hfind : samples.find? (fun sample => sample.shape = q.statement.meant.map Token.shape) with
    | none =>
      have hmiss := List.find?_eq_none.mp hfind q.sample (sample_mem q)
      simp [hsample] at hmiss
    | some sample =>
      have hshape : sample.shape = q.statement.meant.map Token.shape := by simpa using List.find?_some hfind
      rw [samples_shape (List.mem_of_find?_eq_some hfind) (sample_mem q) (hshape.trans hsample.symm)]
  rw [parse, hfind, Option.bind_some, hreads.numbers, hreads.texts, hbuild]

theorem statements_meant {q : Query} (hq : q.Named) (tokens : List Token) :
    statements [] (q.statement.meant ++ tokens) = q.statement.meant :: statements [] tokens := by
  obtain ⟨_, _, hreads, -⟩ := exists_reads q hq
  exact statements_append hreads.ends [] tokens

namespace Conn

section Engine

variable (affinity : String → SqlValue)

/-- Executing the statements of a script one after the other, up to the first that fails. -/
def execAll : List (List Token) → Db → Option Int × Db
  | [], db => (none, db)
  | tokens :: rest, db =>
    match parse tokens with
    | none => (some 1, db)
    | some q =>
      match (repository affinity).exec q db with
      | (none, db) => execAll rest db
      | failed => failed

/-- A database that knows the statements of the program and nothing else, which is an error. -/
def engine : Connection (List Char) Db where
  exec text db := execAll affinity (statements [] (tokenize .nothing text)) db
  prepare text db :=
    match (statements [] (tokenize .nothing text)).head?.bind parse with
    | none => (some 1, db)
    | some q => (repository affinity).prepare q db
  step _ db := (repository affinity).step .begin db
  finalize _ db := (repository affinity).finalize .begin db
  lastInsertRowid db := db.rowid

theorem engine_understands : Understands affinity (engine affinity) fun db => db := by
  constructor
  · intro q text db hq _ hmeant _
    have hsplit := statements_meant hq []
    rw [List.append_nil, statements] at hsplit
    change (execAll affinity (statements [] (tokenize .nothing text)) db).1 = _ ∧
      (execAll affinity (statements [] (tokenize .nothing text)) db).2 = _
    rw [hmeant, hsplit]
    simp only [execAll, parse_meant hq]
    rcases (repository affinity).exec q db with ⟨_ | code, db'⟩
    · exact ⟨rfl, rfl⟩
    · exact ⟨rfl, rfl⟩
  · intro q text db hq _ hmeant
    have hsplit := statements_meant hq []
    rw [List.append_nil, statements] at hsplit
    simp [engine, hmeant, hsplit, parse_meant hq]
  · exact fun q text db _ _ _ => ⟨rfl, rfl⟩
  · exact fun q text db _ _ _ => rfl
  · exact fun db => rfl

end Engine

end Conn

end AddSys

end ServiceManager
