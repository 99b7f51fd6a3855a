import ServiceManager.Wsrpcgen.Dispatch

namespace ServiceManager.Wsrpcgen

/-- A name that generated code takes from around its function, and what is meant by it: the
type of the IDL with this qualified prefix, or else what the header declares by the name.
What stands before `::` has it in the name. Members named through another value, keywords
and macros need not be declared. -/
abbrev Needed := String × Option String

/-- A function, a type or a constant that the header has from elsewhere. -/
def ofHeader (name : String) : Needed :=
  (name, none)

/-- A use of such a name, and the names that are declared before it inside the function and
its class. -/
structure Borrow where
  name : String
  scope : Option String
  before : List String
deriving DecidableEq

def borrow (before : List String) (needed : List Needed) : List Borrow :=
  needed.map fun n => { name := n.1, scope := n.2, before }

/-- Declarations one after another, each with the names that it takes. -/
def declarationBorrows (before : List String) : List (List Needed × String) → List Borrow
  | [] => []
  | (needed, name) :: rest => borrow before needed ++ declarationBorrows (name :: before) rest

/-- The names declared after them. -/
def declaredAfter (before : List String) (declarations : List (List Needed × String)) : List String :=
  (declarations.map Prod.snd).reverse ++ before

theorem declaredAfter_declaredAfter (before : List String) (first rest : List (List Needed × String)) :
    declaredAfter (declaredAfter before first) rest = declaredAfter before (first ++ rest) := by
  simp [declaredAfter]

theorem declarationBorrows_append (before : List String) (first rest : List (List Needed × String)) :
    declarationBorrows before (first ++ rest) =
      declarationBorrows before first ++ declarationBorrows (declaredAfter before first) rest := by
  induction first generalizing before with
  | nil => rfl
  | cons d first ih =>
    obtain ⟨needed, name⟩ := d
    have hafter : declaredAfter before ((needed, name) :: first) = declaredAfter (name :: before) first := by
      simp [declaredAfter]
    simp only [List.cons_append, declarationBorrows, ih, hafter, List.append_assoc]

namespace TypeRef

variable (t : TypeRef)

/-- The names in what `makeDecl` makes. -/
def declNeeds : List Needed :=
  (if t.list then [ofHeader "std::"] else []) ++ [if t.type = "string" then ofHeader "std::" else (t.type, t.scope)]

def serialiserNeeds : List Needed :=
  match t.scope with
  | none => [ofHeader t.serialiser]
  | some _ => []

def deserialiserNeeds : List Needed :=
  match t.scope with
  | none => [ofHeader t.deserialiser]
  | some scope => [(scope, some scope)]

/-- The type of `outEl`. Where the IDL does not define it, a string has another name here than
in `makeDecl`. -/
def elementNeeds : List Needed :=
  match t.scope with
  | none => [ofHeader t.canonicalName]
  | some scope => [(t.type, some scope)]

def eachDeserialiserNeeds : List Needed :=
  match t.scope with
  | none => [ofHeader t.deserialiser]
  | some scope => [(t.type ++ "::", some scope)]

/-- The names that stay declared after `genDeserialiseInto`. -/
def loopNames : List String :=
  if t.list then ["uEl", "it"] else []

/-- What the code of `genSerialiseInto` takes. -/
def serialiseBorrows (before : List String) (uIn : String) : List Borrow :=
  if t.list then
    borrow before [ofHeader "ucl_object_typed_new", ofHeader "UCL_ARRAY"] ++
      borrow (uIn :: before) (ofHeader "ucl_array_append" :: t.serialiserNeeds)
  else borrow before t.serialiserNeeds

/-- What the code of `genDeserialiseInto` takes. -/
def deserialiseBorrows (before : List String) : List Borrow :=
  if t.list then
    borrow before [ofHeader "ucl_object_iter_t"] ++ (borrow ("it" :: before) [ofHeader "ucl_object_t"] ++
      (borrow ("uEl" :: "it" :: before) (ofHeader "ucl_iterate_object" :: t.elementNeeds) ++
        borrow ("outEl" :: "uEl" :: "it" :: before) (t.eachDeserialiserNeeds ++ [ofHeader "std::"])))
  else borrow before t.deserialiserNeeds

end TypeRef

/-- What is taken where values are deserialised one after another, with the names that stand
before and behind the code of `genDeserialiseInto`. -/
def readBorrows (front behind : List Needed) (before : List String) : List TypeRef → List Borrow
  | [] => []
  | t :: rest =>
    borrow before front ++ (t.deserialiseBorrows before ++
      (borrow (t.loopNames ++ before) behind ++ readBorrows front behind (t.loopNames ++ before) rest))

def declaredAfterReads (before : List String) (types : List TypeRef) : List String :=
  types.foldl (fun before t => t.loopNames ++ before) before

/-- The variables for the objects of members or arguments. -/
def objectDeclarations (decls : List Decl) : List (List Needed × String) :=
  decls.map fun decl => ([ofHeader "ucl_object_t"], "u" ++ decl.id)

/-- What is taken where an object `out` is made of members or arguments. -/
def encodeBorrows (out : String) (before : List String) (decls : List Decl) : List Borrow :=
  let after := declaredAfter (out :: before) (objectDeclarations decls)
  borrow before [ofHeader "ucl_object_t"] ++
    (borrow (out :: before) [ofHeader "ucl_object_typed_new", ofHeader "UCL_OBJECT"] ++
      (declarationBorrows (out :: before) (objectDeclarations decls) ++
        ((decls.flatMap fun decl => decl.type.serialiseBorrows after decl.id) ++
          decls.flatMap fun _ => borrow after [ofHeader "ucl_object_insert_key"])))

namespace Method

variable (m : Method)

def returnedDeclaration (rval : String) : List (List Needed × String) :=
  if m.retType.isVoid then [] else [(m.retType.declNeeds, rval)]

def argumentDeclarations : List (List Needed × String) :=
  m.args.map fun arg => (arg.type.declNeeds, arg.id)

/-- What is taken in the block for a result. -/
def resultBorrows (before : List String) : List Borrow :=
  if m.retType.isVoid then []
  else
    m.retType.deserialiseBorrows ("suc" :: before) ++
      borrow (m.retType.loopNames ++ "suc" :: before) [ofHeader "WSRPCError::"]

/-- The parameters and the first variables of the synchronous call. -/
def callDeclarations : List (List Needed × String) :=
  ([ofHeader "WSRPCTransport"], "xprt") :: (m.returnedDeclaration "rval" ++ (m.argumentDeclarations ++
    [([ofHeader "WSRPCError"], "werr"), ([ofHeader "WSRPCCompletion"], "comp")]))

/-- What the code of `genClientCallImpl` takes. -/
def callBorrows : List Borrow :=
  declarationBorrows [] m.callDeclarations ++
    (encodeBorrows "params" (declaredAfter [] m.callDeclarations) m.args ++
      m.resultBorrows (declaredAfter ("params" :: declaredAfter [] m.callDeclarations) (objectDeclarations m.args)))

/-- The parameters and the first variable of the asynchronous call. The class of the delegate
is the program's own. -/
def asynchDeclarations : List (List Needed × String) :=
  ([ofHeader "WSRPCTransport"], "xprt") :: ([], "delegate") :: (m.argumentDeclarations ++
    [([ofHeader "WSRPCCompletion"], "comp")])

/-- What the code of `genClientCallAsynchImpl` takes. -/
def asynchBorrows : List Borrow :=
  declarationBorrows [] m.asynchDeclarations ++
    encodeBorrows "params" (declaredAfter [] m.asynchDeclarations) m.args

/-- What the code of `genClientDelegateImpl` takes. -/
def delegateBorrows : List Borrow :=
  let declarations := ([ofHeader "WSRPCError"], "err") :: m.returnedDeclaration "retVal"
  declarationBorrows [] declarations ++ borrow (declaredAfter [] declarations) [ofHeader "fprintf"]

/-- What the code of `genClientDelegateDispatcherImpl` takes. -/
def dispatcherBorrows : List Borrow :=
  let declarations := ([], "_delegate") :: ([ofHeader "WSRPCCompletion"], "comp") :: ([], "delegate") ::
    m.returnedDeclaration "rval"
  declarationBorrows [] declarations ++ m.resultBorrows (declaredAfter [] declarations)

/-- The parameters and the variables of `handleReq`. -/
def handleReqDeclarations : List (List Needed × String) :=
  [([ofHeader "WSRPCReq"], "req"), ([ofHeader "WSRPCVTable"], "baseVt"), ([], "succeeded"), ([], "vt")]

def caseDeclarations : List (List Needed × String) :=
  (m.args.flatMap fun arg => [([ofHeader "ucl_object_t"], arg.id ++ "_obj"), (arg.type.declNeeds, arg.id)]) ++
    m.returnedDeclaration "rval"

/-- What the code of `genServerImplCase` takes, and the parameters of `handleReq`. -/
def caseBorrows : List Borrow :=
  let outer := declaredAfter [] handleReqDeclarations
  let before := declaredAfter outer m.caseDeclarations
  let after := declaredAfterReads before (m.args.map Decl.type)
  declarationBorrows outer m.caseDeclarations ++
    (readBorrows [ofHeader "ucl_object_lookup", ofHeader "WSRPCError::"] [ofHeader "WSRPCError::"] before
        (m.args.map Decl.type) ++
      ((m.args.flatMap fun _ => borrow after [ofHeader "std::"]) ++
        if m.retType.isVoid then [] else m.retType.serialiseBorrows after "rval"))

end Method

/-- What is declared around the functions of the client, of its delegate and of the server: a
name, and the type of the IDL that it stands for where it is one. -/
structure Header where
  client : Needed → Bool
  delegate : Needed → Bool
  server : Needed → Bool

/-- The name is declared around the function, and nothing inside hides it. -/
def Borrow.Met (known : Needed → Bool) (x : Borrow) : Prop :=
  x.name ∉ x.before ∧ known (x.name, x.scope) = true

instance (known : Needed → Bool) (x : Borrow) : Decidable (x.Met known) :=
  inferInstanceAs (Decidable (_ ∧ _))

/-- Whatever the code of the method takes from the header, on both sides, it finds there. -/
structure Method.Supplied (header : Header) (m : Method) : Prop where
  client : ∀ x ∈ m.callBorrows ++ m.asynchBorrows, x.Met header.client
  delegate : ∀ x ∈ m.delegateBorrows ++ m.dispatcherBorrows, x.Met header.delegate
  server : ∀ x ∈ declarationBorrows [] Method.handleReqDeclarations ++ m.caseBorrows, x.Met header.server

instance (header : Header) (m : Method) : Decidable (m.Supplied header) :=
  decidable_of_iff ((∀ x ∈ m.callBorrows ++ m.asynchBorrows, x.Met header.client) ∧
      (∀ x ∈ m.delegateBorrows ++ m.dispatcherBorrows, x.Met header.delegate) ∧
        ∀ x ∈ declarationBorrows [] Method.handleReqDeclarations ++ m.caseBorrows, x.Met header.server)
    ⟨fun ⟨hclient, hdelegate, hserver⟩ => ⟨hclient, hdelegate, hserver⟩, fun h => ⟨h.client, h.delegate, h.server⟩⟩

end ServiceManager.Wsrpcgen
