import ServiceManager.Machine
import ServiceManager.Wsrpc.Request

namespace ServiceManager.Wsrpcgen

open Wsrpc

/-- A use of a type. `scope` is the qualified prefix of its definition, if the IDL
defines it. -/
structure TypeRef where
  type : String
  list : Bool := false
  scope : Option String := none
deriving DecidableEq

structure Decl where
  type : TypeRef
  id : String
deriving DecidableEq

structure Method where
  retType : TypeRef
  name : String
  args : List Decl
deriving DecidableEq

structure Version where
  num : Nat
  methods : List Method
  methods_ne_nil : methods ≠ []

structure Program where
  versions : List Version
  versions_ne_nil : versions ≠ []

namespace TypeRef

variable (t : TypeRef)

def isVoid : Bool :=
  t.type = "void"

def canonicalName : String :=
  t.type.map fun c => if c = ':' then '_' else c

/-- The function that deserialises a value, of a list each of its elements. -/
def deserialiser : String :=
  match t.scope with
  | none => "wsRPCDeserialise" ++ t.canonicalName
  | some scope => scope ++ "deserialise"

/-- The function that serialises a value, of a list each of its elements. -/
def serialiser : String :=
  match t.scope with
  | none => "wsRPCSerialise" ++ t.canonicalName
  | some scope => scope ++ "serialise"

end TypeRef

/-- The version number goes through an `int`. -/
def Method.implFunName (m : Method) (ver : Nat) : String :=
  m.name ++ "_v" ++ toString (Machine.int32 ver)

/-- A statement of a generated case, with the names it was generated from. -/
inductive Stmt where
  /-- `const ucl_object_t * id;` -/
  | declareObj (id : String)
  /-- `type id;` -/
  | declare (type : TypeRef) (id : String)
  /-- `if (!(dst = ucl_object_lookup(req->params, "key"))) { req->err = ..; goto end; }` -/
  | lookup (dst key : String)
  /-- `suc = fn(uIn, &out);` -/
  | deserialise (suc fn uIn out : String)
  /-- A loop over the elements of `uIn`, which sets `suc` only where one is refused. -/
  | deserialiseEach (suc fn uIn out : String)
  /-- `if (!suc) { req->err = ..; goto end; }` -/
  | check (suc : String)
  /-- `suc = vt->fn(req, &rval, std::move(arg), ..);` -/
  | callImpl (suc fn : String) (rval : Option String) (args : List Decl)
  /-- `if (suc && !(req->result)) { req->result = ..; }` -/
  | serialise (suc : String) (type : TypeRef) (rval : String)
  /-- `goto end;` -/
  | gotoEnd

/-- The parts of the body of `handleReq`. -/
inductive Clause where
  /-- `if (req->method_name == "name") { body }` -/
  | case (name : String) (body : List Stmt)
  /-- `else { return -1; }` -/
  | elseReturn

/-- The names of the elements in a list of a type that the IDL does not define are
those of another caller: its flag is `suc`. -/
def TypeRef.genDeserialiseInto (t : TypeRef) (suc uIn out : String) : Stmt :=
  if t.list then
    match t.scope with
    | none => .deserialiseEach "suc" t.deserialiser uIn out
    | some _ => .deserialiseEach suc (t.type ++ "::deserialise") uIn out
  else .deserialise suc t.deserialiser uIn out

namespace Method

variable (m : Method)

/-- The variables of a case. -/
def genDeclarations : List Stmt :=
  (m.args.flatMap fun arg => [.declareObj (arg.id ++ "_obj"), .declare arg.type arg.id]) ++
    if m.retType.isVoid then [] else [.declare m.retType "rval"]

def genArgument (arg : Decl) : List Stmt :=
  [.lookup (arg.id ++ "_obj") arg.id,
   arg.type.genDeserialiseInto "succeeded" (arg.id ++ "_obj") arg.id,
   .check "succeeded"]

/-- The call of the implementation, and what becomes of its result. -/
def genCall (ver : Nat) : List Stmt :=
  if m.retType.isVoid then [.callImpl "succeeded" (m.implFunName ver) none m.args]
  else [.callImpl "succeeded" (m.implFunName ver) (some "rval") m.args, .serialise "succeeded" m.retType "rval"]

def genBody (ver : Nat) : List Stmt :=
  m.genDeclarations ++ (m.args.flatMap genArgument ++ (m.genCall ver ++ [.gotoEnd]))

def genServerImplCase (ver : Nat) : Clause :=
  .case (m.implFunName ver) (m.genBody ver)

end Method

def Version.genServerImplCases (v : Version) : List Clause :=
  v.methods.map (·.genServerImplCase v.num) ++ [.elseReturn]

def Program.genServer (p : Program) : List Clause :=
  p.versions.flatMap Version.genServerImplCases

/-- What a local variable holds. A flag is what a `bool` was assigned to, whatever the
type of the variable. -/
inductive Cell (V : Type) where
  | unset
  | obj (o : Ucl)
  | value (v : V)
  | values (vs : List V)
  | flag (b : Bool)

/-- A call of an implementation, which its name and the declarations of its arguments
identify. -/
structure Invocation (V : Type) where
  fn : String
  args : List Decl
  values : List (Cell V)

/-- What an implementation leaves. -/
structure Returned (V : Type) where
  succeeded : Bool
  rval : Cell V
  req : Req

/-- The functions that the generated code is linked with. -/
structure Linked (V : Type) where
  deserialise : String → Ucl → Option V
  serialise : String → V → Ucl
  impl : Invocation V → Req → Returned V

/-- A run of `handleReq` within a case. `vars` are the variables declared in the case,
`succeeded` is the one declared before it. -/
structure Frame (V : Type) where
  req : Req
  succeeded : Bool := false
  vars : String → Option (Cell V) := fun _ => none
  calls : List (Invocation V) := []

/-- What follows a statement: the next one, or the code at `end`. -/
inductive Step (V : Type) where
  | next (f : Frame V)
  | goto (f : Frame V)

def Step.frame {V : Type} : Step V → Frame V
  | .next f => f
  | .goto f => f

section Run

variable {V : Type} (link : Linked V)

namespace Frame

variable (f : Frame V)

def set (name : String) (cell : Cell V) : Frame V :=
  { f with vars := fun x => if x = name then some cell else f.vars x }

/-- Assignment to a flag. A variable of the case hides one of the function. -/
def setFlag (name : String) (b : Bool) : Frame V :=
  if (f.vars name).isSome then f.set name (.flag b)
  else if name = "succeeded" then { f with succeeded := b }
  else f

def flag (name : String) : Bool :=
  match f.vars name with
  | some (.flag b) => b
  | some _ => false
  | none => f.succeeded

@[simp] theorem calls_set (name : String) (cell : Cell V) : (f.set name cell).calls = f.calls :=
  rfl

@[simp] theorem calls_setFlag (name : String) (b : Bool) : (f.setFlag name b).calls = f.calls := by
  unfold setFlag
  split
  · rfl
  · split <;> rfl

def obj (name : String) : Option Ucl :=
  match f.vars name with
  | some (.obj o) => some o
  | _ => none

def invalidParams : Frame V :=
  { f with req := { f.req with err := Error.invalidParams } }

end Frame

/-- The loop over the elements of a list: those before the first that is refused, and
whether none was. -/
def deserialiseAll (fn : String) : List Ucl → List V × Bool
  | [] => ([], true)
  | el :: rest =>
    match link.deserialise fn el with
    | none => ([], false)
    | some v => (v :: (deserialiseAll fn rest).1, (deserialiseAll fn rest).2)

def serialiseCell (t : TypeRef) : Cell V → Option Ucl
  | .value v => some (link.serialise t.serialiser v)
  | .values vs => some (.array (vs.map (link.serialise t.serialiser)))
  | _ => none

def Stmt.exec (f : Frame V) : Stmt → Step V
  | .declareObj id => .next (f.set id .unset)
  | .declare type id => .next (f.set id (if type.list then .values [] else .unset))
  | .lookup dst key =>
    match f.req.params.bind (·.lookup key) with
    | none => .goto f.invalidParams
    | some o => .next (f.set dst (.obj o))
  | .deserialise suc fn uIn out =>
    match (f.obj uIn).bind (link.deserialise fn) with
    | none => .next (f.setFlag suc false)
    | some v => .next ((f.set out (.value v)).setFlag suc true)
  | .deserialiseEach suc fn uIn out =>
    let (vs, accepted) := deserialiseAll link fn (((f.obj uIn).getD .null).iterate none |>.map Prod.snd)
    if accepted then .next (f.set out (.values vs)) else .next ((f.set out (.values vs)).setFlag suc false)
  | .check suc => if f.flag suc then .next f else .goto f.invalidParams
  | .callImpl suc fn rval args =>
    let call := { fn, args, values := args.map fun arg => (f.vars arg.id).getD .unset }
    let returned := link.impl call f.req
    let f := { f with req := returned.req, calls := f.calls ++ [call] }
    .next ((rval.elim f (f.set · returned.rval)).setFlag suc returned.succeeded)
  | .serialise suc type rval =>
    if f.flag suc && f.req.result.isNone then
      .next { f with req.result := serialiseCell link type ((f.vars rval).getD .unset) }
    else .next f
  | .gotoEnd => .goto f

def run : List Stmt → Frame V → Step V
  | [], f => .next f
  | stmt :: rest, f =>
    match stmt.exec link f with
    | .next f' => run rest f'
    | .goto f' => .goto f'

/-- The run up to `end`; nothing if -1 is returned before. An `else` belongs to the
case right before it. -/
def dispatch : List Clause → Frame V → Option (Frame V)
  | [], f => some f
  | .case name body :: rest, f =>
    if f.req.methodName = name then
      match run link body f with
      | .goto f' => some f'
      | .next f' => dispatch rest { f' with vars := fun _ => none }
    else
      match rest with
      | .elseReturn :: _ => none
      | _ => dispatch rest f
  | .elseReturn :: rest, f => dispatch rest f

/-- The return value of `handleReq`, the request it leaves and the calls it made. -/
structure Handled (V : Type) where
  code : Int
  req : Req
  calls : List (Invocation V)

def handleReq (p : Program) (req : Req) : Handled V :=
  match dispatch link p.genServer { req } with
  | none => { code := -1, req, calls := [] }
  | some f => { code := if f.succeeded then 0 else 1, req := f.req, calls := f.calls }

end Run

end ServiceManager.Wsrpcgen
