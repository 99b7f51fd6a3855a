import ServiceManager.Scoping.Foreign
import ServiceManager.Wsrpcgen.Borrow
import ServiceManager.Wsrpcgen.Enum
import ServiceManager.Wsrpcgen.Scope

namespace ServiceManager.Wsrpcgen.Idl

open Scoping

/-- What the generator means by a name. -/
inductive Entity where
  /-- A parameter or a local variable that it calls so itself. -/
  | variable (name : String)
  /-- A member of a class that it calls so itself. -/
  | member (name : String)
  /-- A member, an entry or an argument of the IDL. -/
  | named (id : String)
  /-- The object for a member or an argument. -/
  | object (id : String)
  /-- The string for an entry. -/
  | text (id : String)
  /-- What a loop over a list calls an element. -/
  | element (id : String)
  /-- The type of the IDL with this qualified prefix. -/
  | type (scope : String)
  /-- What the header has from elsewhere by the name. -/
  | header (name : String)
  /-- What else is declared around a class. The generator never means it. -/
  | other
deriving DecidableEq

/-- The entity comes from around the class of a function. -/
def Entity.foreign : Entity → Bool
  | .type _ => true
  | .header _ => true
  | .other => true
  | _ => false

/-- A name, and what is meant by it. -/
abbrev Meant := String × Entity

def ofVariable (name : String) : Meant :=
  (name, .variable name)

def ofMember (name : String) : Meant :=
  (name, .member name)

def ofNamed (id : String) : Meant :=
  (id, .named id)

/-- The object that is made of a member or an argument. -/
def ofObject (id : String) : Meant :=
  ("u" ++ id, .object id)

/-- The object that an argument is read from. -/
def ofObj (id : String) : Meant :=
  (id ++ "_obj", .object id)

def ofText (id : String) : Meant :=
  (id ++ "PSz", .text id)

/-- What is taken from around the class. -/
def ofNeeded (n : Needed) : Meant :=
  (n.1, n.2.elim (.header n.1) .type)

def needs (needed : List Needed) : List (Item String Entity) :=
  uses (needed.map ofNeeded)

/-- Declarations one after another, each with the names that it takes. -/
def declarations (ds : List (List Needed × Meant)) : List (Item String Entity) :=
  ds.flatMap fun d => needs d.1 ++ declares [d.2]

section Templates

variable (t : TypeRef)

/-- The code that `genSerialiseInto` makes. The variable of the loop has the name of the
list that it goes over, which is looked up before. Of blocks, only those that declare
something are kept. -/
def genSerialiseInto (uIn out : Meant) : List (Item String Entity) :=
  uses [out] ++
    if t.list then
      needs [ofHeader "ucl_object_typed_new", ofHeader "UCL_ARRAY"] ++ (uses [uIn] ++
        .enter :: (declares [(uIn.1, .element uIn.1)] ++ (needs (ofHeader "ucl_array_append" :: t.serialiserNeeds) ++
          (uses [out, (uIn.1, .element uIn.1)] ++ [.leave]))))
    else needs t.serialiserNeeds ++ uses [uIn]

/-- The flag that the loop over a list sets, by the name it is given there. -/
def loopFlag (suc : Meant) : Meant :=
  match t.scope with
  | none => ("suc", suc.2)
  | some _ => suc

/-- What the loop over a list declares in the block around it. -/
def loopNames : List Meant :=
  [ofVariable "it", ofVariable "uEl"]

/-- The code that `genDeserialiseInto` makes. -/
def genDeserialiseInto (suc uIn out : Meant) : List (Item String Entity) :=
  if t.list then
    declarations [([ofHeader "ucl_object_iter_t"], ofVariable "it"), ([ofHeader "ucl_object_t"], ofVariable "uEl")] ++
      (uses [ofVariable "uEl"] ++ (needs [ofHeader "ucl_iterate_object"] ++ (uses [uIn, ofVariable "it"] ++
        .enter :: (declarations [(t.elementNeeds, ofVariable "outEl")] ++ (needs t.eachDeserialiserNeeds ++
          (uses [ofVariable "uEl", ofVariable "outEl", loopFlag t suc, out] ++ (needs [ofHeader "std::"] ++
            (uses [ofVariable "outEl"] ++ [.leave]))))))))
  else uses [suc] ++ (needs t.deserialiserNeeds ++ uses [uIn, out])

/-- The code that makes an object of the members of a struct, or of the arguments of a call. -/
def encode (out : Meant) (decls : List Decl) : List (Item String Entity) :=
  declarations [([ofHeader "ucl_object_t"], out)] ++
    (needs [ofHeader "ucl_object_typed_new", ofHeader "UCL_OBJECT"] ++
      (declarations (decls.map fun decl => ([ofHeader "ucl_object_t"], ofObject decl.id)) ++
        ((decls.flatMap fun decl => genSerialiseInto decl.type (ofNamed decl.id) (ofObject decl.id)) ++
          decls.flatMap fun decl => needs [ofHeader "ucl_object_insert_key"] ++ uses [out, ofObject decl.id])))

end Templates

section Classes

/-- The types that the class of a type has inside. Enumerations have none. -/
def TypeDef.inner : TypeDef → List TypeDef
  | .mk _ _ (.enum _) => []
  | .mk _ types _ => types

/-- The members that the class of a type declares besides its types. -/
def TypeDef.memberNames : TypeDef → List String
  | .mk _ _ (.struct decls) => decls.map Decl.id ++ ["serialise", "deserialise"]
  | .mk _ _ (.union _ _) => ["type", "value", "serialise", "deserialise"]
  | .mk name _ (.enum entries) => Enumeration.declaredNames ⟨name, entries⟩

/-- The names stand for something that the generator does not mean. -/
def namesBlock (names : List String) : Block String Entity :=
  fun name => if name ∈ names then some .other else none

/-- The type that is reached from one with this qualifier through types that are each right
inside the one before, by its qualified prefix. -/
def TypeDef.follow (qualifier : String) (d : TypeDef) : List String → Option String
  | [] => some (qualifier ++ d.name ++ "::")
  | part :: rest => (d.inner.find? fun d' => d'.name = part).bind fun d' => d'.follow (qualifier ++ d.name ++ "::") rest

/-- The types right inside a scope. What is written for a type may go on inside one of them. -/
def typesBlock (qualifier : String) (types : List TypeDef) : Block String Entity := fun text =>
  match parts text with
  | [] => none
  | part :: rest =>
    (types.find? fun d => d.name = part).map fun d => (d.follow qualifier rest).elim .other .type

/-- What the libraries and the `%` lines of the file declare. -/
def headerBlock (outside : String → Bool) : Block String Entity := fun name =>
  if outside name then some (.header name) else none

/-- Where a class stands: the qualified prefix of what is around it, and what that declares,
from the inside out. -/
structure Site where
  qualifier : String
  outer : List (Block String Entity)

namespace Site

variable (s : Site) (d : TypeDef)

def prefixOf : String :=
  s.qualifier ++ d.name ++ "::"

/-- What a function of a class sees besides the members: the types in the class, the class
itself, and what is around it. -/
def around : List (Block String Entity) :=
  typesBlock (s.prefixOf d) d.inner :: typesBlock s.qualifier [d] :: s.outer

/-- Where the types in a class stand. -/
def inside : Site where
  qualifier := s.prefixOf d
  outer := namesBlock d.memberNames :: s.around d

end Site

end Classes

section Structs

variable (s : Site) (d : TypeDef) (decls : List Decl)

def structMembers : List Meant :=
  decls.map (fun decl => ofNamed decl.id) ++ [ofMember "serialise", ofMember "deserialise"]

def structSerialise : Body String Entity where
  members := structMembers decls
  items := encode (ofVariable "out") decls ++ uses [ofVariable "out"]
  outer := s.around d

/-- The parameters of `deserialise`. -/
def deserialiseParameters : List (List Needed × Meant) :=
  [([ofHeader "ucl_object_t"], ofVariable "obj"), ([(d.name, some (s.prefixOf d))], ofVariable "out")]

/-- The members of the struct that `out` points to are named through it. -/
def structDeserialise : Body String Entity where
  members := structMembers decls
  items :=
    declarations (deserialiseParameters s d ++ ([], ofVariable "suc") ::
        decls.map fun decl => ([ofHeader "ucl_object_t"], ofObject decl.id)) ++
      (needs [ofHeader "ucl_object_type", ofHeader "UCL_OBJECT"] ++ (uses [ofVariable "obj"] ++
        ((decls.flatMap fun decl => uses [ofObject decl.id] ++ (needs [ofHeader "ucl_object_lookup"] ++
            uses [ofVariable "obj"])) ++
          decls.flatMap fun decl =>
            genDeserialiseInto decl.type (ofVariable "suc") (ofObject decl.id) (ofVariable "out") ++
              uses [ofVariable "suc"])))
  outer := s.around d

end Structs

section Unions

variable (s : Site) (d : TypeDef)

def unionMembers : List Meant :=
  [ofMember "type", ofMember "value", ofMember "serialise", ofMember "deserialise"]

/-- The function for unions is empty. -/
def unionSerialise : Body String Entity where
  members := unionMembers
  items := []
  outer := s.around d

def unionDeserialise (enumType : TypeRef) (cases : List (String × List Decl)) : Body String Entity where
  members := unionMembers
  items :=
    declarations (deserialiseParameters s d ++ [([], ofVariable "suc"),
      ([ofHeader "ucl_object_t"], ofVariable "uclType"),
        (enumType.declNeeds, ofVariable "type")]) ++
      (uses [ofVariable "uclType"] ++ (needs [ofHeader "ucl_object_lookup"] ++ (uses [ofVariable "obj"] ++
        (genDeserialiseInto enumType (ofVariable "suc") (ofVariable "uclType") (ofVariable "type") ++
          (uses [ofVariable "suc"] ++
            cases.flatMap fun _ => uses [ofVariable "type"] ++
              needs [(enumType.canonicalName ++ "::", enumType.scope)])))))
  outer := s.around d

end Unions

namespace Enumeration

variable (outer : List (Block String Entity)) (e : Enumeration)

def members : List Meant :=
  [ofMember e.name, ofMember ("_E" ++ e.name)] ++ (e.entries.map (fun entry => ofNamed entry.id) ++ [ofMember "kMax"] ++
    e.entries.map (fun entry => ofText entry.id) ++
      [ofMember "value", ofMember "toPSz", ofMember "serialise", ofMember "fromPSz", ofMember "deserialise"])

def toPSzBody : Body String Entity where
  members := e.members
  items := uses (e.entries.flatMap fun entry => [ofMember "value", ofNamed entry.id, ofText entry.id])
  outer

def serialiseBody : Body String Entity where
  members := e.members
  items := needs [ofHeader "ucl_object_fromstring"] ++ uses [ofMember "toPSz"]
  outer

def fromPSzBody : Body String Entity where
  members := e.members
  items :=
    declares [ofVariable "pSz"] ++
      ((e.entries.flatMap fun entry => needs [ofHeader "strcmp"] ++
          uses [ofVariable "pSz", ofText entry.id, ofNamed entry.id]) ++ uses [ofMember "kMax"])
  outer

/-- The class has a constructor, and its own name is that of a member. The member `value` is
named through what `fromPSz` returns. -/
def deserialiseBody : Body String Entity where
  members := e.members
  items :=
    declarations [([ofHeader "ucl_object_t"], ofVariable "obj")] ++ (uses [ofMember e.name] ++
      (declares [ofVariable "out", ofVariable "txt"] ++ (uses [ofMember ("_E" ++ e.name)] ++
        (declares [ofVariable "value"] ++ (needs [ofHeader "ucl_object_tostring_safe"] ++
          uses [ofVariable "obj", ofVariable "txt", ofVariable "out", ofMember "fromPSz", ofVariable "txt",
            ofMember "kMax"])))))
  outer

end Enumeration

namespace TypeDef

/-- What `genSerImpl` makes for a type itself. -/
def serBodies (s : Site) : TypeDef → List (Body String Entity)
  | .mk name types (.struct decls) => [structSerialise s (.mk name types (.struct decls)) decls]
  | .mk name types (.union enumType cases) => [unionSerialise s (.mk name types (.union enumType cases))]
  | .mk name types (.enum entries) =>
    let outer := s.around (.mk name types (.enum entries))
    [Enumeration.toPSzBody outer ⟨name, entries⟩, Enumeration.serialiseBody outer ⟨name, entries⟩]

/-- What `genDeserImpl` makes for a type itself. -/
def deserBodies (s : Site) : TypeDef → List (Body String Entity)
  | .mk name types (.struct decls) => [structDeserialise s (.mk name types (.struct decls)) decls]
  | .mk name types (.union enumType cases) =>
    [unionDeserialise s (.mk name types (.union enumType cases)) enumType cases]
  | .mk name types (.enum entries) =>
    let outer := s.around (.mk name types (.enum entries))
    [Enumeration.fromPSzBody outer ⟨name, entries⟩, Enumeration.deserialiseBody outer ⟨name, entries⟩]

mutual

/-- A type after those inside it, in the order in which their code is made. -/
def withNested : TypeDef → List TypeDef
  | .mk name types body =>
    (match body with
      | .enum _ => []
      | _ => allNested types) ++ [.mk name types body]

def allNested : List TypeDef → List TypeDef
  | [] => []
  | d :: types => withNested d ++ allNested types

end

mutual

/-- The same with where each of them stands. -/
def placed (s : Site) : TypeDef → List (Site × TypeDef)
  | .mk name types body =>
    (match body with
      | .enum _ => []
      | _ => allPlaced (s.inside (.mk name types body)) types) ++ [(s, .mk name types body)]

def allPlaced (s : Site) : List TypeDef → List (Site × TypeDef)
  | [] => []
  | d :: types => placed s d ++ allPlaced s types

end

def bodies (s : Site) (d : TypeDef) : List (Body String Entity) :=
  ((d.placed s).flatMap fun x => x.2.serBodies x.1) ++ (d.placed s).flatMap fun x => x.2.deserBodies x.1

end TypeDef

section Methods

variable (m : Method)

/-- The variable for what a method returns. -/
def returned (rval : String) : List (List Needed × Meant) :=
  if m.retType.isVoid then [] else [(m.retType.declNeeds, ofVariable rval)]

def arguments : List (List Needed × Meant) :=
  m.args.map fun arg => (arg.type.declNeeds, ofNamed arg.id)

def caseDeclared : List (List Needed × Meant) :=
  (m.args.flatMap fun arg => [([ofHeader "ucl_object_t"], ofObj arg.id), (arg.type.declNeeds, ofNamed arg.id)]) ++
    returned m "rval"

/-- What `genServerImplCase` makes of an argument. -/
def caseArgument (arg : Decl) : List (Item String Entity) :=
  uses [ofObj arg.id] ++ (needs [ofHeader "ucl_object_lookup", ofHeader "WSRPCError::"] ++
    (uses [ofVariable "req", ofVariable "req"] ++
      (genDeserialiseInto arg.type (ofVariable "succeeded") (ofObj arg.id) (ofNamed arg.id) ++
        (needs [ofHeader "WSRPCError::"] ++ uses [ofVariable "succeeded", ofVariable "req"]))))

/-- The call of the implementation, and what becomes of its result. -/
def caseCall : List (Item String Entity) :=
  uses ([ofVariable "succeeded", ofVariable "vt", ofVariable "req"] ++ (returned m "rval").map Prod.snd) ++
    ((m.args.flatMap fun arg => needs [ofHeader "std::"] ++ uses [ofNamed arg.id]) ++
      if m.retType.isVoid then []
      else uses [ofVariable "succeeded", ofVariable "req"] ++ genSerialiseInto m.retType (ofVariable "rval")
        (ofVariable "req"))

/-- What `genServerImplCase` makes of a method. -/
def serverCase : List (Item String Entity) :=
  uses [ofVariable "req"] ++
    .enter :: (declarations (caseDeclared m) ++ (m.args.flatMap caseArgument ++ (caseCall m ++ [.leave])))

/-- What becomes of a result where one has come. -/
def clientResult (err : String) : List (Item String Entity) :=
  .enter :: (declares [ofVariable "suc"] ++
    (genDeserialiseInto m.retType (ofVariable "suc") (ofVariable "comp") (ofVariable "rval") ++
      (needs [ofHeader "WSRPCError::"] ++ (uses [ofVariable "suc", ofVariable err, ofVariable err] ++ [.leave]))))

/-- The parameters and the first variables of the synchronous call. -/
def callDeclared : List (List Needed × Meant) :=
  ([ofHeader "WSRPCTransport"], ofVariable "xprt") :: (returned m "rval" ++ (arguments m ++
    [([ofHeader "WSRPCError"], ofVariable "werr"), ([ofHeader "WSRPCCompletion"], ofVariable "comp")]))

/-- What `genClientCallImpl` makes. -/
def clientCallBody (outer : List (Block String Entity)) : Body String Entity where
  members := []
  items :=
    declarations (callDeclared m) ++ (encode (ofVariable "params") m.args ++
      (uses [ofVariable "comp", ofVariable "xprt", ofVariable "params", ofVariable "comp"] ++
        ((if m.retType.isVoid then [] else uses [ofVariable "comp", ofVariable "rval"] ++ clientResult m "werr") ++
          uses [ofVariable "werr", ofVariable "comp", ofVariable "comp", ofVariable "werr"])))
  outer

/-- The parameters and the first variable of the asynchronous call. The program's own classes
are left out: nothing declared in a function has such a name. -/
def asynchDeclared : List (List Needed × Meant) :=
  ([ofHeader "WSRPCTransport"], ofVariable "xprt") :: ([], ofVariable "delegate") :: (arguments m ++
    [([ofHeader "WSRPCCompletion"], ofVariable "comp")])

/-- What `genClientCallAsynchImpl` makes. -/
def clientCallAsynchBody (outer : List (Block String Entity)) : Body String Entity where
  members := []
  items :=
    declarations (asynchDeclared m) ++ (encode (ofVariable "params") m.args ++
      uses [ofVariable "comp", ofVariable "xprt", ofVariable "params", ofVariable "delegate", ofVariable "comp"])
  outer

/-- What `genClientDelegateImpl` makes. -/
def clientDelegateBody (outer : List (Block String Entity)) : Body String Entity where
  members := []
  items := declarations (([ofHeader "WSRPCError"], ofVariable "err") :: returned m "retVal") ++
    needs [ofHeader "fprintf"]
  outer

/-- What `genClientDelegateDispatcherImpl` makes. -/
def clientDelegateDispatcherBody (outer : List (Block String Entity)) : Body String Entity where
  members := []
  items :=
    declarations [([], ofVariable "_delegate"), ([ofHeader "WSRPCCompletion"], ofVariable "comp"),
        ([], ofVariable "delegate")] ++
      (uses [ofVariable "_delegate"] ++ (declarations (returned m "rval") ++
        ((if m.retType.isVoid then [] else uses [ofVariable "comp"] ++ clientResult m "comp") ++
          uses ([ofVariable "delegate", ofVariable "comp"] ++ (returned m "rval").map Prod.snd))))
  outer

end Methods

/-- The parameters and the variables of `handleReq`. -/
def handleReqDeclared : List (List Needed × Meant) :=
  [([ofHeader "WSRPCReq"], ofVariable "req"), ([ofHeader "WSRPCVTable"], ofVariable "baseVt"),
    ([], ofVariable "succeeded"), ([], ofVariable "vt")]

namespace Program

variable (p : Program)

def methods : List Method :=
  p.versions.flatMap Version.methods

/-- The names of the functions that the classes have for the methods, without what is put
behind them. -/
def functionNames : List String :=
  p.versions.flatMap fun v => v.methods.map (·.implFunName v.num)

/-- What is around the functions of the class for servers: its own functions and types, and
those of the class that it is made from. -/
def serverSite (unit : Site) : Site where
  qualifier := p.name ++ "::"
  outer := namesBlock ("handleReq" :: (p.functionNames ++ if p.types.isEmpty then [] else ["deserialise"])) ::
    typesBlock (p.name ++ "::") p.types :: namesBlock ["FnReqHandler", "invalidParams"] :: unit.outer

/-- What is around the functions of the class for clients. -/
def clientOuter (unit : Site) : List (Block String Entity) :=
  namesBlock (p.functionNames ++ p.functionNames.map (· ++ "_async")) :: unit.outer

/-- What is around the functions of the class of delegates. -/
def delegateOuter (unit : Site) : List (Block String Entity) :=
  namesBlock (p.functionNames.map (· ++ "_didReply") ++ p.functionNames.map (· ++ "_didReplyDispatch")) :: unit.outer

/-- What `genServer` makes. -/
def handleReqBody (unit : Site) : Body String Entity where
  members := []
  items :=
    declarations handleReqDeclared ++
      (Scoping.uses [ofVariable "baseVt"] ++ (p.methods.flatMap serverCase ++ Scoping.uses [ofVariable "succeeded"]))
  outer := (p.serverSite unit).outer

def clientBodies (unit : Site) : List (Body String Entity) :=
  (p.methods.flatMap fun m => [clientCallBody m (p.clientOuter unit), clientCallAsynchBody m (p.clientOuter unit)]) ++
    p.methods.flatMap fun m =>
      [clientDelegateBody m (p.delegateOuter unit), clientDelegateDispatcherBody m (p.delegateOuter unit)]

end Program

namespace TrlUnit

mutual

/-- The types of a file's header, after which come those of the headers that it includes. -/
def headerTypes : TrlUnit → List TypeDef
  | .mk imports types _ => types ++ importedTypes imports

def importedTypes : List TrlUnit → List TypeDef
  | [] => []
  | u :: imports => headerTypes u ++ importedTypes imports

end

variable (outside : String → Bool) (u : TrlUnit)

/-- Where the file's own classes stand. -/
def site : Site where
  qualifier := ""
  outer := [typesBlock "" u.headerTypes, headerBlock outside]

/-- The types of a file, those of its programs and the nested ones included. -/
def allTypes : List TypeDef :=
  (u.types ++ u.programs.flatMap Program.types).flatMap TypeDef.withNested

/-- The same with where each of them stands. -/
def placedTypes : List (Site × TypeDef) :=
  u.types.flatMap (TypeDef.placed (u.site outside)) ++
    u.programs.flatMap fun p => p.types.flatMap (TypeDef.placed (p.serverSite (u.site outside)))

/-- The bodies that `genSerialise`, `genServer` and `genClient` make for a file. Files that
it imports are only included. -/
def bodies : List (Body String Entity) :=
  u.types.flatMap (TypeDef.bodies (u.site outside)) ++
    (u.programs.flatMap fun p => p.types.flatMap (TypeDef.bodies (p.serverSite (u.site outside)))) ++
      u.programs.map (Program.handleReqBody · (u.site outside)) ++
        u.programs.flatMap (Program.clientBodies · (u.site outside))

end TrlUnit

end ServiceManager.Wsrpcgen.Idl
