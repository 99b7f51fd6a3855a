import ServiceManager.Machine

namespace ServiceManager.Wsrpc

open Machine

theorem bind_eq_ok {ε α β : Type} {x : Except ε α} {f : α → Except ε β} {b : β} (h : x >>= f = .ok b) :
    ∃ a, x = .ok a ∧ f a = .ok b := by
  cases x with
  | error e => cases h
  | ok a => exact ⟨a, rfl, h⟩

/-- What a call of `recv` that returns yields: bytes, none of them at the end of the
stream, or an error. -/
inductive Received where
  | data (bytes : List UInt8)
  | failed

/-- The calls that `doRecv` makes, over the state of the descriptor. `recv` yields
nothing while it blocks. -/
structure System (σ : Type) where
  recv : Nat → σ → Option (Received × σ)
  /-- What fresh memory holds. -/
  heap : σ → Nat → UInt8
  recv_le : ∀ {asked s bytes s'}, recv asked s = some (.data bytes, s') → bytes.length ≤ asked

/-- The fields of a transport that hold the message being received. -/
structure Reception where
  curMsgLen : Int := 0
  curMsgOff : Int := 0
  curMsgBuf : Option (List UInt8) := none

/-- Why a call does not return. -/
inductive Stop where
  | blocked
  | assertFailed
deriving DecidableEq

section Receive

variable {σ : Type} (sys : System σ)

/-- A negative size is more than there is memory for. -/
def malloc (len : Int) (s : σ) : Option (List UInt8) :=
  if len < 0 then none else some ((List.range len.toNat).map (sys.heap s))

/-- The first part of `doRecv`: the length that every message begins with. -/
def recvHeader (t : Reception) (s : σ) : Except Stop (Reception × σ) :=
  if t.curMsgLen = 0 then
    match sys.recv 4 s with
    | none => .error .blocked
    | some (.data bytes, s') =>
      if bytes.length = 4 then
        .ok ({ curMsgLen := ofHostBytes bytes, curMsgOff := 0, curMsgBuf := malloc sys (ofHostBytes bytes) s' }, s')
      else .error .assertFailed
    | some (.failed, _) => .error .assertFailed
  else .ok (t, s)

/-- The second part of `doRecv`. What arrives goes to the start of the buffer, whatever
the offset is. There is no memory at a null pointer to receive into. -/
def recvBody (t : Reception) (s : σ) : Except Stop (Reception × σ) :=
  match t.curMsgBuf with
  | none => .ok ({ t with curMsgOff := int32 (t.curMsgOff - 1) }, s)
  | some buf =>
    match sys.recv (size (int32 (t.curMsgLen - t.curMsgOff))) s with
    | none => .error .blocked
    | some (.data bytes, s') =>
      .ok ({ t with
        curMsgOff := int32 (t.curMsgOff + bytes.length)
        curMsgBuf := some (bytes ++ buf.drop bytes.length) }, s')
    | some (.failed, s') => .ok ({ t with curMsgOff := int32 (t.curMsgOff - 1) }, s')

/-- Receives some data; true once the message is complete. -/
def doRecv (t : Reception) (s : σ) : Except Stop (Bool × Reception × σ) := do
  let (t, s) ← recvHeader sys t s
  let (t, s) ← recvBody sys t s
  if t.curMsgLen ≠ 0 ∧ t.curMsgOff = t.curMsgLen then .ok (true, { t with curMsgLen := 0 }, s)
  else .ok (false, t, s)

variable {sys} {t t' t'' : Reception} {s s' s'' : σ} {stop : Stop}

theorem recvHeader_of_ne_zero (hlen : t.curMsgLen ≠ 0) : recvHeader sys t s = .ok (t, s) :=
  if_neg hlen

theorem doRecv_of_error (hheader : recvHeader sys t s = .error stop) : doRecv sys t s = .error stop := by
  simp [doRecv, hheader, bind, Except.bind]

/-- After its header, the rest of a message is received as by a call of its own. -/
theorem doRecv_of_header (hheader : recvHeader sys t s = .ok (t', s')) (hlen : t'.curMsgLen ≠ 0) :
    doRecv sys t s = doRecv sys t' s' := by
  simp only [doRecv, hheader, recvHeader_of_ne_zero hlen]

theorem doRecv_of_body (hlen : t.curMsgLen ≠ 0) (hbody : recvBody sys t s = .ok (t', s')) :
    doRecv sys t s =
      if t'.curMsgLen ≠ 0 ∧ t'.curMsgOff = t'.curMsgLen then .ok (true, { t' with curMsgLen := 0 }, s')
      else .ok (false, t', s') := by
  simp [doRecv, recvHeader_of_ne_zero hlen, hbody, bind, Except.bind]

variable (sys)

/-- The buffers that `n` successive calls of `doRecv` leave where they return true, and
why the last call did not return if one did not. -/
def doRecvs : Nat → Reception → σ → List (Option (List UInt8)) × Option Stop
  | 0, _, _ => ([], none)
  | n + 1, t, s =>
    match doRecv sys t s with
    | .ok (true, t', s') => (t'.curMsgBuf :: (doRecvs n t' s').1, (doRecvs n t' s').2)
    | .ok (false, t', s') => doRecvs n t' s'
    | .error stop => ([], some stop)

variable {sys}

theorem doRecvs_of_true (h : doRecv sys t s = .ok (true, t', s')) (n : Nat) :
    doRecvs sys (n + 1) t s = (t'.curMsgBuf :: (doRecvs sys n t' s').1, (doRecvs sys n t' s').2) := by
  simp [doRecvs, h]

theorem doRecvs_of_false (h : doRecv sys t s = .ok (false, t', s')) (n : Nat) :
    doRecvs sys (n + 1) t s = doRecvs sys n t' s' := by
  simp [doRecvs, h]

theorem doRecvs_of_error (h : doRecv sys t s = .error stop) (n : Nat) :
    doRecvs sys (n + 1) t s = ([], some stop) := by
  simp [doRecvs, h]

end Receive

/-- The text of an emitted object. -/
structure Message where
  text : List UInt8
  nul_free : 0 ∉ text

namespace Message

variable (m : Message)

/-- The text with its NUL. -/
def framed : List UInt8 :=
  m.text ++ [0]

/-- The size of the text with its NUL, as a 32-bit `int`. -/
def len : Int :=
  int32 m.framed.length

end Message

/-- The bytes that `writeObj` writes for a message. A write of a negative size fails,
which changes nothing for the length that went before it. -/
def writeObj (m : Message) : List UInt8 :=
  hostBytes m.len ++ if m.len < 0 then [] else m.framed.take m.len.toNat

/-- The bytes in flight, and the number of calls of `recv` so far. -/
structure Socket where
  stream : List UInt8
  recvs : Nat := 0

/-- A way for a byte stream to arrive: the most that each call of `recv` delivers, and
what the memory allocated after it holds. -/
structure Delivery where
  chunk : Nat → Nat
  chunk_pos : ∀ i, 0 < chunk i
  heap : Nat → Nat → UInt8

namespace Delivery

variable (d : Delivery)

/-- A call of `recv` delivers some of the bytes in flight, at most those asked for. -/
def recv (asked : Nat) (s : Socket) : Option (Received × Socket) :=
  if asked = 0 then some (.data [], { s with recvs := s.recvs + 1 })
  else if s.stream = [] then none
  else
    let n := min (d.chunk s.recvs) asked
    some (.data (s.stream.take n), { stream := s.stream.drop n, recvs := s.recvs + 1 })

def system : System Socket where
  recv := d.recv
  heap s := d.heap s.recvs
  recv_le {asked s bytes s'} h := by
    unfold recv at h
    split at h
    · cases h
      exact Nat.zero_le _
    · split at h
      · cases h
      · cases h
        exact Nat.le_trans (List.length_take_le _ _) (Nat.min_le_right _ _)

end Delivery

end ServiceManager.Wsrpc
