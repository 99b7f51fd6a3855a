import Mathlib.Data.Set.Finite.Lattice
import ServiceManager.Lemon
import ServiceManager.Traversal

namespace ServiceManager.Wsrpcgen

open Lemon

/-- The parser that lemon makes of `wsrpcgen.y` when the program is built. Of its tokens and
rules, only those of imports have a name here. -/
structure GeneratedParser (S T N R : Type) extends Lemon.Parser S T N R where
  IMPORT : T
  importRule : R

/-- What the scanner matches in a file. Values of other tokens than imports decide nothing. -/
inductive Lexeme (T : Type)
  /-- A line that begins with `#import `, whole. -/
  | importLine (yytext : String)
  /-- A comment, a blank or a `%` line: the parser is sent nothing. -/
  | skipped
  | token (major : T)
deriving DecidableEq

/-- The name in an import line, without the quotes around it. A line too short for two
quotes has none, and ends the program. -/
def importName (yytext : String) : Option String :=
  let name := yytext.toList.drop 9
  if name.isEmpty then none else some (String.ofList name.dropLast)

/-- The files that can be opened, by their paths, and the directories given with `-I`. -/
structure Sources (T : Type) where
  files : String → Option (List (Lexeme T))
  includeDirs : List String

/-- How a call of `parseFile` ends: it returns a unit, it throws for want of the file, or
the program ends. -/
inductive Parse
  | parsed
  | unopened
  | aborted
deriving DecidableEq

/-- The importing file is read on after the call. -/
def Parse.goesOn : Parse → Bool
  | .aborted => false
  | _ => true

/-- Reading a file: it may go on without end, or be left before the end of the file. -/
abbrev Reading := ExceptT Parse Option

def Reading.result {α : Type} : Reading α → Option Parse
  | none => none
  | some (.ok _) => some .parsed
  | some (.error r) => some r

namespace Sources

section Import

variable (parse : String → Option Parse)

/-- The loop over `includeDirs`. It goes on after a directory that has the file. -/
def inDirs (name : String) : Bool → List String → Option Parse
  | succeeded, [] => some (if succeeded then .parsed else .aborted)
  | succeeded, dir :: dirs =>
    match parse (dir ++ name) with
    | some .parsed => inDirs name true dirs
    | some .unopened => inDirs name succeeded dirs
    | r => r

/-- The action of the rule `import`. -/
def importFile (dirs : List String) (name : String) : Option Parse :=
  match parse name with
  | some .unopened => inDirs parse name false dirs
  | r => r

/-- An action that calls `parseFile` leaves the file with whatever it throws. -/
def importAction (dirs : List String) (name : String) : Reading Unit :=
  match importFile parse dirs name with
  | none => ExceptT.mk none
  | some .parsed => pure ()
  | some r => throw r

end Import

section Files

variable {S T N R : Type} [DecidableEq T] [DecidableEq R] (p : GeneratedParser S T N R) (s : Sources T)

/-- The action of a rule. Those of the other rules only make their values. -/
def action (parse : String → Option Parse) (dirs : List String) (rule : R) (minors : List String) : Reading Unit :=
  if rule = p.importRule then importAction parse dirs (minors.headD "") else pure ()

/-- The rest of a file, with the stack that there is so far. -/
def scan (parse : String → Option Parse) (dirs : List String) :
    Stack S R String → List (Lexeme T) → Reading (Stack S R String)
  | stack, [] => p.parse (action p parse dirs) p.endOfInput "" stack
  | stack, .skipped :: rest => scan parse dirs stack rest
  | stack, .token major :: rest => do
    let stack ← p.parse (action p parse dirs) major "" stack
    scan parse dirs stack rest
  | stack, .importLine yytext :: rest =>
    match importName yytext with
    | none => throw .aborted
    | some name => do
      let stack ← p.parse (action p parse dirs) p.IMPORT name stack
      scan parse dirs stack rest

/-- `MVST_Parser::parseFile`, for a depth of calls. -/
def parseFile : Nat → String → Option Parse
  | 0, _ => none
  | n + 1, path =>
    match s.files path with
    | none => some .unopened
    | some text => (scan p (parseFile n) s.includeDirs [] text).result

def Terminates (path : String) : Prop :=
  ∃ n r, s.parseFile p n path = some r

end Files

section Calls

variable {S T N R : Type} [DecidableEq T] [DecidableEq R] (p : GeneratedParser S T N R) (s : Sources T)

/-- The import that a reduction reads in. -/
def importOf (reduction : R × List String) : Option String :=
  if reduction.1 = p.importRule then some (reduction.2.headD "") else none

/-- The imports that are read in on a token. -/
def importsOn (token : T) (minor : String) (stack : Stack S R String) : List String :=
  (p.reductions token minor stack).1.filterMap (importOf p)

def stackAfter (token : T) (minor : String) (stack : Stack S R String) : Stack S R String :=
  (p.reductions token minor stack).2

/-- The imports that are read in from here on, if each of them is, and whether a line without
a name ends the program after them. -/
def taken : Stack S R String → List (Lexeme T) → List String × Bool
  | stack, [] => (importsOn p p.endOfInput "" stack, false)
  | stack, .skipped :: rest => taken stack rest
  | stack, .token major :: rest =>
    let after := taken (stackAfter p major "" stack) rest
    (importsOn p major "" stack ++ after.1, after.2)
  | stack, .importLine yytext :: rest =>
    match importName yytext with
    | none => ([], true)
    | some name =>
      let after := taken (stackAfter p p.IMPORT name stack) rest
      (importsOn p p.IMPORT name stack ++ after.1, after.2)

def opens (path : String) : Bool :=
  (s.files path).isSome

/-- The paths that are tried for an import. -/
def targets (name : String) : List String :=
  name :: if s.opens name then [] else s.includeDirs.map (· ++ name)

/-- One of the paths that are tried is that of a file. -/
def found (name : String) : Bool :=
  s.opens name || s.includeDirs.any fun dir => s.opens (dir ++ name)

/-- The paths that are tried for imports, up to the first import that is not found. -/
def tries : List String → List String
  | [] => []
  | name :: names => s.targets name ++ if s.found name then tries names else []

/-- The calls of `parseFile` from the call for a path. -/
def calls (path : String) : List String :=
  match s.files path with
  | none => []
  | some text => s.tries (taken p [] text).1

/-- The program ends after these calls: an import is found nowhere, or has no name. -/
def stops (path : String) : Bool :=
  match s.files path with
  | none => false
  | some text => (taken p [] text).2 || !(taken p [] text).1.all s.found

/-- The file of one path leads `parseFile` to another path, all before it being read in. -/
def Enters : String → String → Prop :=
  Traversal.Enters (s.calls p) (s.stops p)

end Calls

section Search

open Traversal

variable {T : Type} {s : Sources T} {parse : String → Option Parse} {visits : String → Option Bool}

/-- A parser for the paths of some files, and what a traversal sees of it. -/
structure Follows (s : Sources T) (parse : String → Option Parse) (visits : String → Option Bool) : Prop where
  visits_eq : ∀ path, visits path = (parse path).map Parse.goesOn
  opens_iff : ∀ path r, parse path = some r → (s.opens path = false ↔ r = .unopened)

theorem Follows.inDirs_eq (h : s.Follows parse visits) (name : String) (succeeded : Bool) (dirs : List String) :
    visitAll visits (succeeded || dirs.any fun dir => s.opens (dir ++ name)) (dirs.map (· ++ name)) =
      (inDirs parse name succeeded dirs).map Parse.goesOn := by
  induction dirs generalizing succeeded with
  | nil => cases succeeded <;> simp [visitAll, inDirs, Parse.goesOn]
  | cons dir dirs ih =>
    rw [List.map_cons, visitAll, inDirs, h.visits_eq]
    cases hparse : parse (dir ++ name) with
    | none => rfl
    | some r =>
      have hopens := h.opens_iff _ r hparse
      cases r with
      | aborted => rfl
      | unopened =>
        have hclosed : s.opens (dir ++ name) = false := by simpa using hopens
        simpa [Parse.goesOn, hclosed] using ih succeeded
      | parsed =>
        have hopen : s.opens (dir ++ name) = true := by simpa using hopens
        simpa [Parse.goesOn, hopen] using ih true

theorem Follows.importFile_eq (h : s.Follows parse visits) (name : String) :
    visitAll visits (s.found name) (s.targets name) = (importFile parse s.includeDirs name).map Parse.goesOn := by
  rw [targets, found, visitAll, importFile, h.visits_eq]
  cases hparse : parse name with
  | none => rfl
  | some r =>
    have hopens := h.opens_iff _ r hparse
    cases r with
    | aborted => rfl
    | unopened =>
      have hclosed : s.opens name = false := by simpa using hopens
      simpa [Parse.goesOn, hclosed] using h.inDirs_eq name false s.includeDirs
    | parsed =>
      have hopen : s.opens name = true := by simpa using hopens
      simp [Parse.goesOn, hopen, visitAll]

theorem inDirs_ne_unopened (name : String) (succeeded : Bool) (dirs : List String) :
    inDirs parse name succeeded dirs ≠ some .unopened := by
  induction dirs generalizing succeeded with
  | nil => cases succeeded <;> simp [inDirs]
  | cons dir dirs ih =>
    have hdirs := ih succeeded
    rw [inDirs]
    split <;> simp_all

theorem importFile_ne_unopened (dirs : List String) (name : String) :
    importFile parse dirs name ≠ some .unopened := by
  rw [importFile]
  split
  · exact inDirs_ne_unopened name false dirs
  · simp_all

/-- Imports one after the other. -/
def importAll (parse : String → Option Parse) (dirs : List String) : List String → Option Parse
  | [] => some .parsed
  | name :: names =>
    match importFile parse dirs name with
    | some .parsed => importAll parse dirs names
    | r => r

/-- The imports that are tried one after the other, each as far as its file can be read. -/
theorem Follows.importAll_eq (h : s.Follows parse visits) (names rest : List String) (last : Bool) :
    visitAll visits (last && (names ++ rest).all s.found) (s.tries (names ++ rest)) =
      match importAll parse s.includeDirs names with
      | some .parsed => visitAll visits (last && rest.all s.found) (s.tries rest)
      | r => r.map Parse.goesOn := by
  induction names with
  | nil => rfl
  | cons name names ih =>
    have heq := h.importFile_eq name
    have hne : importFile parse s.includeDirs name ≠ some .unopened := importFile_ne_unopened _ _
    simp only [List.cons_append, tries, List.all_cons, importAll]
    cases hfound : s.found name with
    | true =>
      rw [hfound] at heq
      rw [if_pos rfl, Bool.true_and, visitAll_append, heq]
      cases himport : importFile parse s.includeDirs name with
      | none => rfl
      | some r =>
        cases r with
        | unopened => exact absurd himport hne
        | aborted => rfl
        | parsed => exact ih
    | false =>
      rw [hfound] at heq
      rw [if_neg Bool.false_ne_true, List.append_nil, Bool.false_and, Bool.and_false, heq]
      cases himport : importFile parse s.includeDirs name with
      | none => rfl
      | some r =>
        cases r with
        | aborted => rfl
        | unopened => exact absurd himport hne
        | parsed =>
          rw [himport] at heq
          exact absurd (visitAll_true heq).1 Bool.false_ne_true

theorem importAll_ne_unopened (dirs names : List String) : importAll parse dirs names ≠ some .unopened := by
  induction names with
  | nil => simp [importAll]
  | cons name names ih =>
    have hne : importFile parse dirs name ≠ some .unopened := importFile_ne_unopened dirs name
    rw [importAll]
    split <;> simp_all

end Search

section Actions

variable {S T N R : Type} [DecidableEq R] {parse : String → Option Parse}

theorem result_importAction_bind {α : Type} (dirs : List String) (name : String) (k : Unit → Reading α) :
    (importAction parse dirs name >>= k).result =
      match importFile parse dirs name with
      | some .parsed => (k ()).result
      | r => r := by
  rw [importAction]
  cases importFile parse dirs name with
  | none => rfl
  | some r => cases r <;> rfl

/-- Reading goes on after the actions if all imports have been read in. -/
theorem result_actions_bind {α : Type} (p : GeneratedParser S T N R) (dirs : List String)
    (reductions : List (R × List String)) (k : Reading α) :
    ((reductions.forM fun x => action p parse dirs x.1 x.2) >>= fun _ => k).result =
      match importAll parse dirs (reductions.filterMap (importOf p)) with
      | some .parsed => k.result
      | r => r := by
  induction reductions with
  | nil => rfl
  | cons x reductions ih =>
    obtain ⟨rule, minors⟩ := x
    simp only [List.forM_eq_forM, List.forM_cons, bind_assoc] at ih ⊢
    by_cases hrule : rule = p.importRule
    · have haction : action p parse dirs rule minors = importAction parse dirs (minors.headD "") := if_pos hrule
      have himport : importOf p (rule, minors) = some (minors.headD "") := if_pos hrule
      rw [haction, result_importAction_bind, List.filterMap_cons_some himport, importAll]
      cases importFile parse dirs (minors.headD "") with
      | none => rfl
      | some r =>
        cases r with
        | parsed => exact ih
        | unopened => rfl
        | aborted => rfl
    · have haction : action p parse dirs rule minors = pure () := if_neg hrule
      have himport : importOf p (rule, minors) = none := if_neg hrule
      rw [haction, pure_bind, List.filterMap_cons_none himport]
      exact ih

end Actions

section Correspondence

open Traversal

variable {S T N R : Type} [DecidableEq T] [DecidableEq R] (p : GeneratedParser S T N R) {s : Sources T}
  {parse : String → Option Parse} {visits : String → Option Bool}

theorem result_parse_bind {α : Type} (dirs : List String) (token : T) (minor : String) (stack : Stack S R String)
    (k : Stack S R String → Reading α) :
    (p.parse (action p parse dirs) token minor stack >>= k).result =
      match importAll parse dirs (importsOn p token minor stack) with
      | some .parsed => (k (stackAfter p token minor stack)).result
      | r => r := by
  rw [p.parse_eq, bind_assoc]
  simp only [pure_bind]
  exact result_actions_bind p dirs _ _

theorem result_parse (dirs : List String) (token : T) (minor : String) (stack : Stack S R String) :
    (p.parse (action p parse dirs) token minor stack).result =
      importAll parse dirs (importsOn p token minor stack) := by
  rw [← bind_pure (p.parse (action p parse dirs) token minor stack), result_parse_bind]
  split
  next hparsed => exact hparsed.symm
  next => rfl

/-- What the parser does with a file is to try its imports in their order, by induction on the
tokens. -/
theorem Follows.scan_eq (h : s.Follows parse visits) (stack : Stack S R String) (text : List (Lexeme T)) :
    visitAll visits (!(taken p stack text).2 && (taken p stack text).1.all s.found) (s.tries (taken p stack text).1) =
      (scan p parse s.includeDirs stack text).result.map Parse.goesOn := by
  induction text generalizing stack with
  | nil =>
    have heq := h.importAll_eq (importsOn p p.endOfInput "" stack) [] true
    rw [List.append_nil] at heq
    rw [taken, scan, result_parse]
    refine heq.trans ?_
    split
    next hparsed => rw [hparsed]; rfl
    next => rfl
  | cons lexeme rest ih =>
    cases lexeme with
    | skipped => exact ih stack
    | token major =>
      rw [taken, scan, result_parse_bind, h.importAll_eq, ih]
      split <;> simp_all
    | importLine yytext =>
      rw [taken, scan]
      cases importName yytext with
      | none => rfl
      | some name =>
        simp only
        rw [result_parse_bind, h.importAll_eq, ih]
        split <;> simp_all

/-- A file that is being scanned was opened. -/
theorem scan_ne_unopened (dirs : List String) (stack : Stack S R String) (text : List (Lexeme T)) :
    (scan p parse dirs stack text).result ≠ some .unopened := by
  induction text generalizing stack with
  | nil =>
    rw [scan, result_parse]
    exact importAll_ne_unopened dirs _
  | cons lexeme rest ih =>
    cases lexeme with
    | skipped => exact ih stack
    | token major =>
      have hne : importAll parse dirs (importsOn p major "" stack) ≠ some .unopened := importAll_ne_unopened dirs _
      rw [scan, result_parse_bind]
      split
      · exact ih _
      · exact hne
    | importLine yytext =>
      rw [scan]
      cases importName yytext with
      | none => exact nofun
      | some name =>
        have hne : importAll parse dirs (importsOn p p.IMPORT name stack) ≠ some .unopened :=
          importAll_ne_unopened dirs _
        simp only
        rw [result_parse_bind]
        split
        · exact ih _
        · exact hne

/-- `parseFile` traverses the paths as `calls` and `stops` say. -/
theorem parseFile_follows (n : Nat) : s.Follows (s.parseFile p n) (visit (s.calls p) (s.stops p) n) := by
  induction n with
  | zero => exact ⟨fun _ => rfl, fun _ _ h => by cases h⟩
  | succ n ih =>
    refine ⟨fun path => ?_, fun path r h => ?_⟩
    · rw [visit, parseFile, calls, stops]
      cases s.files path with
      | none => rfl
      | some text =>
        have heq := ih.scan_eq p [] text
        rw [← heq]
        simp
    · rw [parseFile] at h
      rw [opens]
      cases hfile : s.files path with
      | none =>
        rw [hfile] at h
        simpa using h.symm
      | some text =>
        rw [hfile] at h
        have hne : (scan p (s.parseFile p n) s.includeDirs [] text).result ≠ some .unopened := scan_ne_unopened p _ _ _
        simp only at h
        rw [h] at hne
        simpa using hne

end Correspondence

section Terminates

variable {S T N R : Type} [DecidableEq T] [DecidableEq R] (p : GeneratedParser S T N R) (s : Sources T)

/-- The paths that the text of a file can lead to. -/
def mentions (text : Option (List (Lexeme T))) : List String :=
  match text with
  | none => []
  | some text => (taken p [] text).1.flatMap fun name => name :: s.includeDirs.map (· ++ name)

theorem mem_mentions_of_enters {path path' : String} (h : s.Enters p path path') :
    path' ∈ s.mentions p (s.files path) := by
  obtain ⟨before, after, hcalls, -⟩ := h
  have hmem : path' ∈ s.calls p path := by simp [hcalls]
  have htries : ∀ names, path' ∈ s.tries names →
      path' ∈ names.flatMap fun name => name :: s.includeDirs.map (· ++ name) := by
    intro names
    induction names with
    | nil => simp [tries]
    | cons name names ih =>
      rw [tries, targets]
      split <;> split <;> simp <;> grind
  rw [calls] at hmem
  cases hfile : s.files path with
  | none => simp [hfile] at hmem
  | some text =>
    rw [hfile] at hmem
    exact htries _ hmem

theorem finite_reached (hfinite : (Set.range s.files).Finite) (path : String) :
    {path' | Relation.ReflTransGen (s.Enters p) path path'}.Finite := by
  have hmentions : (⋃ text ∈ Set.range s.files, {path' | path' ∈ s.mentions p text}).Finite :=
    hfinite.biUnion fun text _ => List.finite_toSet (s.mentions p text)
  refine (hmentions.insert path).subset fun path' hreach => ?_
  obtain rfl | ⟨last, -, hlast⟩ := Relation.ReflTransGen.cases_tail hreach
  · exact Set.mem_insert _ _
  · refine Set.mem_insert_of_mem _ (Set.mem_biUnion ⟨last, rfl⟩ ?_)
    exact s.mem_mentions_of_enters p hlast

/-- Reading a file ends exactly if no path that it leads to leads back to itself. -/
theorem parseFile_terminates_iff (hfinite : (Set.range s.files).Finite) (path : String) :
    s.Terminates p path ↔
      ∀ path', Relation.ReflTransGen (s.Enters p) path path' → ¬Relation.TransGen (s.Enters p) path' path' := by
  rw [← Traversal.acc_iff_no_cycle (s.finite_reached p hfinite path)]
  refine Iff.trans ?_ (Traversal.exists_visit_iff_acc (s.calls p) (s.stops p) path)
  refine exists_congr fun n => ?_
  rw [(s.parseFile_follows p n).visits_eq]
  cases s.parseFile p n path with
  | none => simp
  | some r => simp

end Terminates

section Instance

/-- The states in which the parser waits for an import or the end of the file. -/
inductive ImportState
  | file
  | imports
  | optimports
  | optdefs
deriving DecidableEq

inductive ImportToken
  | endOfInput
  | IMPORT
deriving DecidableEq

inductive ImportSymbol
  | file
  | trlunit
  | optimports
  | imports
  | import_
  | optdefs
  | optprograms
deriving DecidableEq

/-- The rules with which files of imports only are reduced. -/
inductive ImportRule
  | file
  | trlunit
  | noImports
  | optimports
  | firstImport
  | furtherImport
  | import_
  | noDefs
  | noPrograms
deriving DecidableEq

/-- What the tables have for such files. -/
def importTables : Lemon.Tables ImportState ImportToken ImportSymbol ImportRule where
  start := .file
  endOfInput := .endOfInput
  action
    | .file, .IMPORT => .shiftReduce .import_
    | .imports, .IMPORT => .shiftReduce .import_
    | .file, .endOfInput => .reduce .noImports
    | .imports, .endOfInput => .reduce .optimports
    | .optimports, _ => .reduce .noDefs
    | .optdefs, _ => .reduce .noPrograms
  goto
    | .shift .file, .import_ => .reduce .firstImport
    | .shift .imports, .import_ => .reduce .furtherImport
    | .shift .file, .imports => .shift .imports
    | .shift .file, .optimports => .shift .optimports
    | .shift .optimports, .optdefs => .shift .optdefs
    | .shift .optdefs, .optprograms => .reduce .trlunit
    | .shift .file, .trlunit => .reduce .file
    | .shift .file, .file => .accept
    | _, _ => .error
  lhs
    | .file => .file
    | .trlunit => .trlunit
    | .noImports => .optimports
    | .optimports => .optimports
    | .firstImport => .imports
    | .furtherImport => .imports
    | .import_ => .import_
    | .noDefs => .optdefs
    | .noPrograms => .optprograms
  nrhs
    | .file => 1
    | .trlunit => 3
    | .noImports => 0
    | .optimports => 1
    | .firstImport => 1
    | .furtherImport => 2
    | .import_ => 1
    | .noDefs => 0
    | .noPrograms => 0

/-- How many reductions can follow one by the rule on the same token. -/
def ImportRule.rank : ImportRule → Nat
  | .file => 0
  | .trlunit => 1
  | .noPrograms => 2
  | .noDefs => 3
  | .noImports => 4
  | .optimports => 4
  | .firstImport => 5
  | .furtherImport => 5
  | .import_ => 6

/-- How many reductions can follow where this is on top. -/
def importRank (token : ImportToken) (stateno : Action ImportState ImportRule) : Nat :=
  match importTables.findShiftAction stateno token with
  | .reduce rule => rule.rank + 1
  | _ => 0

theorem importRank_goto_lt (token : ImportToken) (rule : ImportRule) (stateno : Action ImportState ImportRule) :
    importRank token (importTables.goto stateno (importTables.lhs rule)) < rule.rank + 1 := by
  cases stateno with
  | shift state => cases state <;> cases rule <;> cases token <;> decide
  | shiftReduce | error | accept | reduce => exact Nat.succ_pos _

/-- The parser, for such files. -/
def importParser : GeneratedParser ImportState ImportToken ImportSymbol ImportRule where
  toTables := importTables
  rank token states := importRank token (importTables.top states)
  rank_reduceStates := by
    intro token rule states haction
    have hrank : importRank token (importTables.top states) = rule.rank + 1 := by
      rw [importRank, haction]
    rw [hrank]
    exact importRank_goto_lt token rule _
  IMPORT := .IMPORT
  importRule := .import_

/-- Files given one by one. -/
def ofList {T : Type} (files : List (String × List (Lexeme T))) (includeDirs : List String) : Sources T :=
  { files := fun path => files.lookup path, includeDirs }

theorem finite_files_ofList {T : Type} (files : List (String × List (Lexeme T))) (includeDirs : List String) :
    (Set.range (ofList files includeDirs).files).Finite := by
  have htexts : {text | text ∈ none :: files.map (some ·.2)}.Finite := List.finite_toSet _
  refine htexts.subset (Set.range_subset_iff.mpr fun path => ?_)
  change files.lookup path ∈ none :: files.map (some ·.2)
  clear htexts
  induction files with
  | nil => exact List.mem_cons_self
  | cons file files ih =>
    obtain ⟨name, text⟩ := file
    rw [List.lookup_cons]
    split
    · simp
    · simp only [List.map_cons, List.mem_cons] at ih ⊢
      exact ih.imp_right Or.inr

/-- Two files import a third from an include directory, and one imports both. -/
def diamond : Sources ImportToken :=
  ofList
    [("a.x", [.importLine "#import \"b.x\"", .importLine "#import \"c.x\""]),
      ("b.x", [.importLine "#import \"d.x\""]),
      ("c.x", [.skipped, .importLine "#import \"d.x\""]),
      ("idl/d.x", [.skipped])]
    ["idl/"]

theorem parseFile_terminates_diamond : diamond.Terminates importParser "a.x" ∧ ∀ path',
    Relation.ReflTransGen (diamond.Enters importParser) "a.x" path' →
      ¬Relation.TransGen (diamond.Enters importParser) path' path' := by
  have hends : diamond.Terminates importParser "a.x" := ⟨3, .parsed, by decide +kernel⟩
  exact ⟨hends, (diamond.parseFile_terminates_iff importParser (finite_files_ofList _ _) "a.x").mp hends⟩

/-- A file that imports itself. -/
def selfImport : Sources ImportToken :=
  ofList [("a.x", [.importLine "#import \"a.x\""])] []

/-- The calls for it go on for ever. -/
theorem parseFile_not_terminates :
    (Set.range selfImport.files).Finite ∧ ¬selfImport.Terminates importParser "a.x" := by
  refine ⟨finite_files_ofList _ _, fun ⟨n, r, h⟩ => ?_⟩
  have hnone : ∀ n, selfImport.parseFile importParser n "a.x" = none := by
    intro n
    induction n with
    | zero => rfl
    | succ n ih =>
      have hname : importName "#import \"a.x\"" = some "a.x" := by decide
      have hfile : selfImport.files "a.x" = some [.importLine "#import \"a.x\""] := by decide
      have hshifted : importsOn importParser importParser.IMPORT "a.x" [] = [] := by decide +kernel
      have hread : importsOn importParser importParser.endOfInput ""
          (stackAfter importParser importParser.IMPORT "a.x" []) = ["a.x"] := by
        decide +kernel
      have himport : importAll (selfImport.parseFile importParser n) selfImport.includeDirs ["a.x"] = none := by
        rw [importAll, importFile, ih]
      rw [parseFile, hfile]
      simp only [scan, hname]
      rw [result_parse_bind, hshifted, importAll, result_parse, hread, himport]
  rw [hnone n] at h
  cases h

end Instance

end Sources

end ServiceManager.Wsrpcgen
