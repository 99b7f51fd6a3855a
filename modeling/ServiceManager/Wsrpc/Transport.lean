import ServiceManager.Wsrpc.Framing
import ServiceManager.Wsrpc.Request

namespace ServiceManager.Wsrpc

/-- What libucl makes of an object, of a text, and of a string that is given to
`ucl_object_fromstring`. -/
structure Libucl where
  emit : Ucl → Message
  parse : Message → Option Ucl
  fromString : String → String

/-- libucl reads the object back from the text that it writes for it. -/
def Intact (lib : Libucl) (obj : Ucl) : Prop :=
  lib.parse (lib.emit obj) = some obj

/-- Is the object a valid request? -/
def uclObjIsRequest (obj : Ucl) : Bool :=
  match obj with
  | .object _ =>
    match obj.lookup "method", obj.lookup "params" with
    | some (.string _), none => true
    | some (.string _), some (.object _) => true
    | _, _ => false
  | _ => false

/-- The id that the object is a response for, 0 if it is none. The id goes through an
`int`. -/
def uclObjIsResponseForId (obj : Ucl) : Int32 :=
  match obj.lookup "id", obj.lookup "error", obj.lookup "result" with
  | some (.int id), some _, none => Int32.ofInt id
  | some (.int id), none, some _ => Int32.ofInt id
  | _, _, _ => 0

/-- The message is what `ucl_object_fromstring` makes of it. -/
def makeError (lib : Libucl) (err : Error) : Ucl :=
  .object [("code", .int err.errcode.toInt), ("message", .string (lib.fromString err.errmsg))]

/-- The error that an object describes. A message that is not a string makes a string
from NULL. -/
def uclToError (error : Option Ucl) : Option Error :=
  let code := (error.bind (·.lookup "code")).elim 0 Ucl.toInt
  match error.bind (·.lookup "message") with
  | none => some { errcode := Int32.ofInt code }
  | some message => message.toString?.map fun errmsg => { errcode := Int32.ofInt code, errmsg }

/-- What a poll of the descriptor finds: an error, nothing in time, a hangup, a part of
a message, or what completes one. -/
inductive Event where
  | failed
  | timeout
  | hangup
  | part
  | text (m : Message)

/-- `delegated` says whether a delegate is to be notified, and `notified` how often it
was. -/
structure Completion where
  id : Int32
  delegated : Bool := false
  err : Error := {}
  result : Option Ucl := none
  notified : Nat := 0

/-- A transport with the completions in memory, those it has yet to complete by their
addresses, the values of `rand` to come, what was written to its descriptor and what its
polls will find. After the last event there is nothing in time. -/
structure Transport where
  heap : Nat → Completion
  next : Nat
  completions : List Nat := []
  received : List Ucl := []
  rand : Nat → Int32
  written : List Message := []
  events : List Event := []

/-- Why a run has no result. -/
inductive Stuck where
  | undefined
  | outOfFuel

namespace Transport

variable (lib : Libucl) (t : Transport)

def setErr (comp : Nat) (err : Error) : Transport :=
  { t with heap := fun a => if a = comp then { t.heap a with err } else t.heap a }

/-- After a poll: the reply is late until it is there. -/
def poll (comp : Nat) : Transport :=
  { t.setErr comp Error.replyTimeout with events := t.events.tail }

def writeObj (obj : Ucl) : Transport :=
  { t with written := t.written ++ [lib.emit obj] }

/-- What `completeWith` makes of the completion. -/
def completed (comp : Completion) (obj : Ucl) : Option Completion :=
  let notified := comp.notified + comp.delegated.toNat
  match obj.lookup "result" with
  | some result => some { comp with err := {}, result := some result, notified }
  | none => (uclToError (obj.lookup "error")).map fun err => { comp with err, notified }

def completeWith (comp : Nat) (obj : Ucl) : Except Stuck Transport :=
  match completed (t.heap comp) obj with
  | none => .error .undefined
  | some c => .ok { t with heap := fun a => if a = comp then c else t.heap a }

def sendError (id : Int32) (err : Error) : Transport :=
  if id = 0 then t
  else t.writeObj lib
    (.object [("jsonrpc", .string (lib.fromString "2.0")), ("error", makeError lib err), ("id", .int id.toInt)])

def sendReply (id : Int32) (obj : Option Ucl) : Transport :=
  t.writeObj lib
    (.object [("jsonrpc", .string (lib.fromString "2.0")), ("result", obj.getD .null), ("id", .int id.toInt)])

/-- A call of a method, with the address of its completion. -/
def sendMessage (method : String) (params : Option Ucl) (delegated : Bool) : Nat × Transport :=
  let id := t.rand 0
  let params := (params.map fun params => ("params", params)).toList
  let msg := [("jsonrpc", .string (lib.fromString "2.0")), ("method", .string (lib.fromString method))] ++ params ++
    [("id", .int id.toInt)]
  (t.next, { t.writeObj lib (.object msg) with
    heap := fun a => if a = t.next then { id, delegated } else t.heap a
    next := t.next + 1
    rand := fun i => t.rand (i + 1)
    completions := if delegated then t.completions ++ [t.next] else t.completions })

end Transport

/-- What a handler leaves in a request, and its code. -/
structure Answer where
  code : Int
  result : Option Ucl
  err : Error

/-- A run of a handler. It may call methods of the peer, with or without waiting for the
reply. -/
inductive Handler where
  | answer (a : Answer)
  | call (method : String) (params : Option Ucl) (next : Bool → Error → Option Ucl → Handler)
  | send (method : String) (params : Option Ucl) (next : Handler)

/-- A service provider. What its handler does may depend on anything that went before. -/
abbrev Provider :=
  Transport → Req → Handler

section Process

/- `await` stands for `awaitReply`, which handlers enter again. -/
variable (lib : Libucl) (await : Nat → Transport → Except Stuck (Bool × Transport))

def Handler.run : Handler → Transport → Except Stuck (Answer × Transport)
  | .answer a, t => .ok (a, t)
  | .call method params next, t =>
    let (comp, t) := t.sendMessage lib method params false
    await comp t >>= fun (ret, t) => (next ret (t.heap comp).err (t.heap comp).result).run t
  | .send method params next, t => next.run (t.sendMessage lib method params true).2

/-- The loop over the providers, with the error if none of them has the method. -/
def handleRequest : List Provider → Req → Transport → Except Stuck Transport
  | [], req, t => .ok (t.sendError lib req.id Error.methodNotFound)
  | svc :: svcs, req, t =>
    (svc t req).run lib await t >>= fun (a, t) =>
      if a.code = -1 then handleRequest svcs { req with result := a.result, err := a.err } t
      else if a.code = 1 then .ok (t.sendError lib req.id a.err)
      else if req.id ≠ 0 then .ok (t.sendReply lib req.id a.result)
      else .ok t

/-- The request that an object describes. -/
def requestOf (obj : Ucl) : Req where
  id := Int32.ofInt ((obj.lookup "id").elim 0 Ucl.toInt)
  methodName := ((obj.lookup "method").bind Ucl.toString?).getD ""
  params := obj.lookup "params"

/-- Dispatches a received message. Malformed ones are only reported. -/
def processMessageWith (svcs : List Provider) (t : Transport) (obj : Ucl) : Except Stuck Transport :=
  let resp := uclObjIsResponseForId obj
  if resp ≠ 0 then
    match t.completions.find? fun comp => (t.heap comp).id = resp with
    | some comp => t.completeWith comp obj
    | none => .ok { t with received := t.received ++ [obj] }
  else if uclObjIsRequest obj then
    match obj.lookup "id" with
    | none | some (.int _) => handleRequest lib await svcs (requestOf obj) t
    | some _ => .ok t
  else .ok t

end Process

/-- Waits for the reply to a completion, for as many polls as there is fuel. A malformed
text ends the wait with -1, which is true. A reply that is found among those received
meanwhile is removed from the list while it is being iterated, and used after that. -/
def awaitReply (lib : Libucl) (svcs : List Provider) : Nat → Nat → Transport → Except Stuck (Bool × Transport)
  | 0, _, _ => .error .outOfFuel
  | fuel + 1, comp, t =>
    match t.events.head? with
    | none | some .failed | some .timeout | some .hangup => .ok (false, t.poll comp)
    | some .part => awaitReply lib svcs fuel comp (t.poll comp)
    | some (.text m) =>
      match lib.parse m with
      | none => .ok (true, t.poll comp)
      | some obj =>
        if uclObjIsResponseForId obj = (t.heap comp).id then
          ((t.poll comp).completeWith comp obj).map fun t => (true, t)
        else
          processMessageWith lib (awaitReply lib svcs fuel) svcs (t.poll comp) obj >>= fun t =>
            if t.received.any fun obj => uclObjIsResponseForId obj = (t.heap comp).id then .error .undefined
            else awaitReply lib svcs fuel comp t

/-- `processMessage`, with fuel for all that can be read. -/
def processMessage (lib : Libucl) (svcs : List Provider) (t : Transport) (obj : Ucl) : Except Stuck Transport :=
  processMessageWith lib (awaitReply lib svcs (t.events.length + 1)) svcs t obj

/-- `readyForRead`, once `doRecv` holds a message. -/
def readyForRead (lib : Libucl) (svcs : List Provider) (t : Transport) (m : Message) : Except Stuck Transport :=
  match lib.parse m with
  | none => .ok t
  | some obj => processMessage lib svcs t obj

end ServiceManager.Wsrpc
