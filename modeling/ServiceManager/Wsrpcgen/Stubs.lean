import ServiceManager.Wsrpcgen.Validation
import ServiceManager.Wsrpc.Reply

namespace ServiceManager.Wsrpcgen

open Wsrpc

namespace TypeRef

variable {V : Type} (link : Linked V) (t : TypeRef)

/-- The function that deserialises an element where the type is that of a list. -/
def eachDeserialiser : String :=
  match t.scope with
  | none => t.deserialiser
  | some _ => t.type ++ "::deserialise"

/-- A variable of the type as it is declared. -/
def fresh : Cell V :=
  if t.list then .values [] else .unset

/-- The code that `genDeserialiseInto` makes, on what the flag and the target hold before
it. Where the type is that of a list, the elements are appended to the target, and the
flag is only set where one is refused. -/
def deserialiseInto (suc : Bool) (out : Cell V) (obj : Ucl) : Bool × Cell V :=
  if t.list then
    let old := match out with
      | .values vs => vs
      | _ => []
    let (vs, accepted) := deserialiseAll link t.eachDeserialiser (obj.iterate none |>.map Prod.snd)
    (suc && accepted, .values (old ++ vs))
  else
    match link.deserialise t.deserialiser obj with
    | none => (false, out)
    | some v => (true, .value v)

/-- The deserialisers that the code uses accept the object. -/
def Decodes (obj : Ucl) : Prop :=
  (if t.list then (deserialiseAll link t.eachDeserialiser (obj.iterate none |>.map Prod.snd)).2
    else (link.deserialise t.deserialiser obj).isSome) = true

instance (obj : Ucl) : Decidable (t.Decodes link obj) :=
  inferInstanceAs (Decidable (_ = true))

variable {link t}

theorem deserialiseInto_rejected {suc : Bool} {out : Cell V} {obj : Ucl} (h : ¬t.Decodes link obj) :
    (t.deserialiseInto link suc out obj).1 = false := by
  unfold Decodes at h
  unfold deserialiseInto
  split
  · rename_i hlist
    rw [if_pos hlist, Bool.not_eq_true] at h
    simp [h]
  · rename_i hlist
    rw [if_neg hlist, Option.not_isSome_iff_eq_none] at h
    simp [h]

/-- A list that is accepted leaves the flag as it was. -/
theorem deserialiseInto_list {suc : Bool} {out : Cell V} {obj : Ucl} (hlist : t.list = true) :
    (t.deserialiseInto link suc out obj).1 = (suc && decide (t.Decodes link obj)) := by
  simp [deserialiseInto, Decodes, hlist]

theorem deserialiseInto_decodes {suc : Bool} {out : Cell V} {obj : Ucl} (hlist : t.list = false)
    (h : t.Decodes link obj) : ∃ v, t.deserialiseInto link suc out obj = (true, .value v) ∧
      link.deserialise t.deserialiser obj = some v := by
  have hsome : (link.deserialise t.deserialiser obj).isSome := by simpa [Decodes, hlist] using h
  obtain ⟨v, hv⟩ := Option.isSome_iff_exists.mp hsome
  exact ⟨v, by simp [deserialiseInto, hlist, hv], hv⟩

end TypeRef

/-- The error for a result that does not deserialise. -/
def localDeserialisationFailure : Error where
  errcode := Error.kLocalDeserialisationFailure
  errmsg := "Local deserialisation failure."

section Stubs

variable {V : Type} (link : Linked V) (retType : TypeRef)

/-- What the synchronous call returns once `wait` has returned true, and what it leaves
in the caller's variable. The flag is not initialised, and the error that it leads to is
overwritten by that of the completion. -/
def clientCall (suc : Bool) (rval : Cell V) (comp : Completion) : Error × Cell V :=
  let (_werr, rval) :=
    match comp.result with
    | some obj =>
      if retType.isVoid then (({} : Error), rval)
      else
        let (suc, rval) := retType.deserialiseInto link suc rval obj
        (if suc then {} else localDeserialisationFailure, rval)
    | none => ({}, rval)
  let werr := comp.err
  (werr, rval)

/-- What `didReplyDispatch` passes to the delegate. The flag is not initialised. -/
def clientDelegateDispatcher (suc : Bool) (comp : Completion) : Error × Cell V :=
  match comp.result with
  | some obj =>
    if retType.isVoid then (comp.err, .unset)
    else
      let (suc, rval) := retType.deserialiseInto link suc retType.fresh obj
      (if suc then comp.err else localDeserialisationFailure, rval)
  | none => (comp.err, retType.fresh)

/-- The two stubs report a reply alike, whatever was in the memory of their flags and in
the variable of the caller: the same error, and where it is none the same value. A result
that does not deserialise is reported as such by both. -/
structure Agree (reply : Reply) : Prop where
  err : ∀ comp suc suc' rval, (clientCall link retType suc rval (reply.complete comp)).1 =
    (clientDelegateDispatcher link retType suc' (reply.complete comp)).1
  rval : ∀ comp suc suc' rval obj, reply = .result obj →
    (clientCall link retType suc rval (reply.complete comp)).1.errcode = Error.kSuccess →
      (clientCall link retType suc rval (reply.complete comp)).2 =
        (clientDelegateDispatcher link retType suc' (reply.complete comp)).2
  rejected : ∀ comp suc suc' rval obj, reply = .result obj → ¬retType.Decodes link obj →
    (clientCall link retType suc rval (reply.complete comp)).1.errcode = Error.kLocalDeserialisationFailure ∧
      (clientDelegateDispatcher link retType suc' (reply.complete comp)).1.errcode =
        Error.kLocalDeserialisationFailure

variable {link retType} {obj : Ucl} {comp : Completion} {suc : Bool} {rval : Cell V}

/-- The synchronous stub has no error of its own. -/
theorem clientCall_err : (clientCall link retType suc rval comp).1 = comp.err :=
  rfl

theorem clientCall_rval (hvoid : retType.isVoid = false) (hresult : comp.result = some obj) :
    (clientCall link retType suc rval comp).2 = (retType.deserialiseInto link suc rval obj).2 := by
  simp [clientCall, hresult, hvoid]

theorem clientDelegateDispatcher_eq (hvoid : retType.isVoid = false) (hresult : comp.result = some obj) :
    clientDelegateDispatcher link retType suc comp =
      (if (retType.deserialiseInto link suc retType.fresh obj).1 then comp.err else localDeserialisationFailure,
        (retType.deserialiseInto link suc retType.fresh obj).2) := by
  simp [clientDelegateDispatcher, hresult, hvoid]

/-- The stubs disagree on a result where the flag is down. -/
theorem not_agree_of_flag (hvoid : retType.isVoid = false)
    (hflag : (retType.deserialiseInto link false retType.fresh obj).1 = false) :
    ¬Agree link retType (.result obj) := by
  intro h
  have herr := h.err { id := 0 } false false .unset
  rw [clientCall_err, clientDelegateDispatcher_eq hvoid rfl, hflag] at herr
  change ({} : Error) = localDeserialisationFailure at herr
  exact absurd herr (by decide)

/-- The stubs report a reply alike exactly if it is an error, or a result that
deserialises and is not a list. -/
theorem stubs_agree_iff (link : Linked V) (retType : TypeRef) (reply : Reply) (hvoid : retType.isVoid = false) :
    Agree link retType reply ↔
      ∀ obj, reply = .result obj → retType.list = false ∧ retType.Decodes link obj := by
  cases reply with
  | error err => exact iff_of_true ⟨fun _ _ _ _ => rfl, by simp, by simp⟩ (by simp)
  | result obj =>
    constructor
    · rintro h obj' heq
      obtain rfl := Reply.result.inj heq
      by_cases hlist : retType.list = true
      · exact absurd h (not_agree_of_flag hvoid (by simp [TypeRef.deserialiseInto_list hlist]))
      · by_cases hdecodes : retType.Decodes link obj
        · exact ⟨by simpa using hlist, hdecodes⟩
        · exact absurd h (not_agree_of_flag hvoid (TypeRef.deserialiseInto_rejected hdecodes))
    · intro h
      obtain ⟨hlist, hdecodes⟩ := h obj rfl
      have hinto : ∀ suc (out : Cell V), ∃ v, retType.deserialiseInto link suc out obj = (true, .value v) ∧
          link.deserialise retType.deserialiser obj = some v :=
        fun suc out => TypeRef.deserialiseInto_decodes hlist hdecodes
      constructor
      · intro comp suc suc' rval
        obtain ⟨v, hv, _⟩ := hinto suc' retType.fresh
        rw [clientCall_err, clientDelegateDispatcher_eq hvoid rfl, hv]
        rfl
      · intro comp suc suc' rval obj' _ _
        obtain ⟨v, hv, hsome⟩ := hinto suc rval
        obtain ⟨v', hv', hsome'⟩ := hinto suc' retType.fresh
        obtain rfl := Option.some_inj.mp (hsome.symm.trans hsome')
        rw [clientCall_rval hvoid rfl, clientDelegateDispatcher_eq hvoid rfl, hv, hv']
      · intro comp suc suc' rval obj' heq hrejected
        obtain rfl := Reply.result.inj heq
        exact absurd hdecodes hrejected

end Stubs

theorem stubs_agree_int : Agree builtin { type := "int" } (.result (.int 3)) :=
  (stubs_agree_iff builtin { type := "int" } (.result (.int 3)) (by decide)).mpr fun obj heq => by
    obtain rfl := Reply.result.inj heq
    exact ⟨rfl, by decide +kernel⟩

theorem stubs_not_agree : ¬Agree builtin { type := "int" } (.result (.string "three")) :=
  not_agree_of_flag (by decide) (by decide +kernel)

end ServiceManager.Wsrpcgen
