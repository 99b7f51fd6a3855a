import ServiceManager.Trace
import ServiceManager.Wsrpc.Effect

namespace ServiceManager.Wsrpc

open Trace

/-- What `processMessage` does with a response. -/
def Transport.processResponse (t : Transport) (obj : Ucl) : Except Stuck Transport :=
  match t.completions.find? fun comp => (t.heap comp).id = uclObjIsResponseForId obj with
  | some comp => t.completeWith comp obj
  | none => .ok { t with received := t.received ++ [obj] }

/-- A step of a transport. A message comes with the call that the peer produced it for,
which the transport does not see. -/
inductive Label where
  /-- A call, with or without a delegate. -/
  | sent
  /-- Something is written, or a poll is over. -/
  | quiet
  /-- A response is given to `processMessage`. -/
  | dispatched (obj : Ucl) (origin : Option Nat)
  /-- A message is taken by the wait for a completion. -/
  | awaited (comp : Nat) (obj : Ucl) (origin : Option Nat)
  /-- The wait finds a response for its completion among those received. -/
  | scanned (comp : Nat) (obj : Ucl) (origin : Option Nat)

/-- The steps of a transport: calls, waits and messages in any order. What a completion
gets from among those received is undefined, so it is any object. -/
inductive Step (lib : Libucl) : Transport → Label → Transport → Prop
  | send (t method params delegated) : Step lib t .sent (t.sendMessage lib method params delegated).2
  | write (t obj) : Step lib t .quiet (t.writeObj lib obj)
  | poll (t comp) : Step lib t .quiet (t.poll comp)
  | dispatched {t obj t'} (origin) : uclObjIsResponseForId obj ≠ 0 → t.processResponse obj = .ok t' →
      Step lib t (.dispatched obj origin) t'
  | awaited {t comp obj t'} (origin) : comp < t.next → uclObjIsResponseForId obj = (t.heap comp).id →
      t.completeWith comp obj = .ok t' → Step lib t (.awaited comp obj origin) t'
  | scanned {t comp obj t'} (origin) : comp < t.next →
      (∃ found ∈ t.received, uclObjIsResponseForId found = (t.heap comp).id) → t.completeWith comp obj = .ok t' →
      Step lib t (.scanned comp obj origin) t'

/-- The completion that a step completes. -/
def Label.completes (t : Transport) : Label → Option Nat
  | .dispatched obj _ => t.completions.find? fun comp => (t.heap comp).id = uclObjIsResponseForId obj
  | .awaited comp _ _ => some comp
  | .scanned comp _ _ => some comp
  | _ => none

/-- A transport that nothing was sent on yet. -/
structure Start (t : Transport) : Prop where
  next_eq : t.next = 0
  completions_eq : t.completions = []
  received_eq : t.received = []

section Refinement

/- The code takes these steps and no others, whatever its handlers do and however deep
its waits are nested. -/
variable {lib : Libucl}

def Reaches (lib : Libucl) (t t' : Transport) : Prop :=
  ∃ trace, Run (Step lib) t trace t'

theorem Reaches.refl (t : Transport) : Reaches lib t t :=
  ⟨[], .nil t⟩

theorem Reaches.trans {t t' t'' : Transport} (h : Reaches lib t t') (h' : Reaches lib t' t'') : Reaches lib t t'' := by
  obtain ⟨trace, h⟩ := h
  obtain ⟨trace', h'⟩ := h'
  exact ⟨trace ++ trace', h.append h'⟩

theorem Reaches.step {t t' : Transport} {l : Label} (h : Step lib t l t') : Reaches lib t t' :=
  ⟨[(t, l)], .single h⟩

theorem sendError_reaches (t : Transport) (id : Int32) (err : Error) : Reaches lib t (t.sendError lib id err) := by
  unfold Transport.sendError
  split
  · exact .refl t
  · exact .step (.write t _)

section Process

variable {await : Nat → Transport → Except Stuck (Bool × Transport)}
  (hwaits : ∀ comp t ret t', comp < t.next → await comp t = .ok (ret, t') → Reaches lib t t')

include hwaits

theorem Handler.run_reaches (h : Handler) {t t' : Transport} {a : Answer} (hrun : h.run lib await t = .ok (a, t')) :
    Reaches lib t t' := by
  induction h generalizing t with
  | answer a' =>
    obtain ⟨rfl, rfl⟩ := Prod.mk.inj (Except.ok.inj hrun)
    exact .refl t
  | call method params next ih =>
    obtain ⟨⟨ret, t₂⟩, hawait, hnext⟩ := bind_eq_ok hrun
    have hsend : Reaches lib t (t.sendMessage lib method params false).2 := .step (.send t method params false)
    have hwait := hwaits _ _ _ _ (Nat.lt_succ_self _) hawait
    exact (hsend.trans hwait).trans (ih _ _ _ hnext)
  | send method params next ih => exact (Reaches.step (.send t method params true)).trans (ih hrun)

/-- By induction on the providers. -/
theorem handleRequest_reaches {svcs : List Provider} {req : Req} {t t' : Transport}
    (h : handleRequest lib await svcs req t = .ok t') : Reaches lib t t' := by
  induction svcs generalizing req t with
  | nil =>
    obtain rfl := Except.ok.inj h
    exact sendError_reaches t _ _
  | cons svc svcs ih =>
    obtain ⟨⟨a, t₁⟩, hrun, hrest⟩ := bind_eq_ok h
    have hhandler := Handler.run_reaches hwaits _ hrun
    simp only at hrest
    split at hrest
    · exact hhandler.trans (ih hrest)
    · split at hrest
      · obtain rfl := Except.ok.inj hrest
        exact hhandler.trans (sendError_reaches t₁ _ _)
      · split at hrest
        · obtain rfl := Except.ok.inj hrest
          exact hhandler.trans (.step (.write t₁ _))
        · obtain rfl := Except.ok.inj hrest
          exact hhandler

theorem processMessageWith_reaches {svcs : List Provider} {obj : Ucl} {t t' : Transport}
    (h : processMessageWith lib await svcs t obj = .ok t') : Reaches lib t t' := by
  simp only [processMessageWith] at h
  split at h
  · rename_i hresp
    exact .step (.dispatched none hresp h)
  · split at h
    · split at h
      · exact handleRequest_reaches hwaits h
      · exact handleRequest_reaches hwaits h
      · obtain rfl := Except.ok.inj h
        exact .refl t
    · obtain rfl := Except.ok.inj h
      exact .refl t

end Process

/-- By induction on the fuel. -/
theorem awaitReply_reaches (svcs : List Provider) (fuel : Nat) :
    ∀ comp t ret t', comp < t.next → awaitReply lib svcs fuel comp t = .ok (ret, t') → Reaches lib t t' := by
  induction fuel with
  | zero =>
    intro comp t ret t' _ h
    cases h
  | succ fuel ih =>
    intro comp t ret t' hlive h
    have hpoll : Reaches lib t (t.poll comp) := .step (.poll t comp)
    cases awaitReply_turn lib svcs fuel comp t with
    | nothing _ hx | malformed _ _ _ hx =>
      obtain ⟨-, rfl⟩ := Prod.mk.inj (Except.ok.inj (h.symm.trans hx))
      exact hpoll
    | part _ hx => exact hpoll.trans (ih _ _ _ _ hlive (hx.symm.trans h))
    | response _ _ _ _ hid hx =>
      obtain ⟨t₁, hcomplete, heq⟩ := map_eq_ok (hx.symm.trans h)
      obtain ⟨-, rfl⟩ := Prod.mk.inj heq
      have hid' := hid.trans ((Takes.poll t comp).id_eq comp hlive).symm
      exact hpoll.trans (.step (.awaited none hlive hid' hcomplete))
    | other _ _ _ _ _ hx =>
      obtain ⟨t₁, hprocess, h⟩ := bind_eq_ok (hx.symm.trans h)
      obtain ⟨during, htakes⟩ := processMessageWith_takes (awaitReply_waits lib svcs fuel) hprocess
      split at h
      · cases h
      · have hrest := ih _ _ _ _ (Nat.lt_of_lt_of_le hlive htakes.next_le) h
        exact (hpoll.trans (processMessageWith_reaches ih hprocess)).trans hrest

/-- A message that the event loop reads. -/
theorem readyForRead_reaches {svcs : List Provider} {t t' : Transport} {m : Message}
    (h : readyForRead lib svcs t m = .ok t') : Reaches lib t t' := by
  unfold readyForRead at h
  split at h
  · obtain rfl := Except.ok.inj h
    exact .refl t
  · exact processMessageWith_reaches (awaitReply_reaches svcs _) h

end Refinement

end ServiceManager.Wsrpc
