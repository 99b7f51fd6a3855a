import ServiceManager.Wsrpc.Protocol
import ServiceManager.Wsrpc.Reply

namespace ServiceManager.Wsrpc

open Trace

/-- The object is a response: it has an id, and either a result or an error. -/
def IsResponse (obj : Ucl) : Prop :=
  (∃ id, obj.lookup "id" = some (.int id)) ∧ ((obj.lookup "result").isSome ↔ ¬(obj.lookup "error").isSome)

theorem isResponse_of_responseFor {obj : Ucl} (h : uclObjIsResponseForId obj ≠ 0) : IsResponse obj := by
  unfold uclObjIsResponseForId at h
  split at h
  · rename_i id err hid herror hresult
    exact ⟨⟨id, hid⟩, by simp [herror, hresult]⟩
  · rename_i id result hid herror hresult
    exact ⟨⟨id, hid⟩, by simp [herror, hresult]⟩
  · exact absurd rfl h

/-- A peer's message as it can come in: one that was produced for a call carries its id,
and one that was produced for none is no response. -/
def Produced (t : Transport) (obj : Ucl) : Option Nat → Prop
  | some a => a < t.next ∧ obj.lookup "id" = some (.int (t.heap a).id.toInt)
  | none => uclObjIsResponseForId obj = 0

/-- The messages of the run are those of a peer that answers what it was asked. -/
def Label.Fair (t : Transport) : Label → Prop
  | .dispatched obj origin => Produced t obj origin
  | .awaited _ obj origin => Produced t obj origin
  | _ => True

/-- A call draws an id that is not 0 and that no call before it has, and no wait finds a
response among those received. -/
def Label.Careful (t : Transport) : Label → Prop
  | .sent => t.rand 0 ≠ 0 ∧ ∀ a < t.next, (t.heap a).id ≠ t.rand 0
  | .scanned .. => False
  | _ => True

/-- Where the step completes a completion, it does so with a response that was produced
for its call. -/
def Label.Right (t : Transport) (l : Label) : Prop :=
  ∀ comp, l.completes t = some comp →
    match l with
    | .dispatched obj origin => IsResponse obj ∧ origin = some comp
    | .awaited _ obj origin => IsResponse obj ∧ origin = some comp
    | .scanned _ obj origin => IsResponse obj ∧ origin = some comp
    | _ => True

/-- The ids of the calls tell them apart. -/
structure Told (t : Transport) : Prop where
  ne_zero : ∀ a < t.next, (t.heap a).id ≠ 0
  inj : ∀ a < t.next, ∀ b < t.next, (t.heap a).id = (t.heap b).id → a = b
  pending : ∀ a ∈ t.completions, a < t.next

/-- A transport with the same calls as before, of which one was completed. -/
structure Keeps (completed : Option Nat) (t t' : Transport) : Prop where
  next_eq : t'.next = t.next
  completions_eq : t'.completions = t.completions
  id_eq : ∀ a, (t'.heap a).id = (t.heap a).id
  delegated_eq : ∀ a, (t'.heap a).delegated = (t.heap a).delegated
  notified_eq : ∀ a, (t'.heap a).notified =
    (t.heap a).notified + if completed = some a then (t.heap a).delegated.toNat else 0

section Step

variable {lib : Libucl} {t t' : Transport} {l : Label}

theorem Keeps.poll (t : Transport) (comp : Nat) : Keeps none t (t.poll comp) where
  next_eq := rfl
  completions_eq := rfl
  id_eq a := by by_cases ha : a = comp <;> simp [Transport.poll, Transport.setErr, ha]
  delegated_eq a := by by_cases ha : a = comp <;> simp [Transport.poll, Transport.setErr, ha]
  notified_eq a := by by_cases ha : a = comp <;> simp [Transport.poll, Transport.setErr, ha]

theorem completed_keeps {comp c : Completion} {obj : Ucl} (h : Transport.completed comp obj = some c) :
    c.id = comp.id ∧ c.delegated = comp.delegated ∧ c.notified = comp.notified + comp.delegated.toNat := by
  unfold Transport.completed at h
  split at h
  · obtain rfl := Option.some_inj.mp h
    exact ⟨rfl, rfl, rfl⟩
  · obtain ⟨err, _, rfl⟩ := Option.map_eq_some_iff.mp h
    exact ⟨rfl, rfl, rfl⟩

theorem Keeps.completeWith {comp : Nat} {obj : Ucl} (h : t.completeWith comp obj = .ok t') :
    Keeps (some comp) t t' := by
  unfold Transport.completeWith at h
  split at h
  · cases h
  · rename_i c hcompleted
    obtain rfl := Except.ok.inj h
    obtain ⟨hid, hdelegated, hnotified⟩ := completed_keeps hcompleted
    refine ⟨rfl, rfl, fun a => ?_, fun a => ?_, fun a => ?_⟩
    · by_cases ha : a = comp <;> simp [ha, hid]
    · by_cases ha : a = comp <;> simp [ha, hdelegated]
    · by_cases ha : a = comp
      · simp [ha, hnotified]
      · simp [ha, Ne.symm ha]

/-- All that a step can do. -/
theorem step_cases (h : Step lib t l t') :
    (∃ method params delegated, l = .sent ∧ t' = (t.sendMessage lib method params delegated).2) ∨
      (l ≠ .sent ∧ Keeps (l.completes t) t t') := by
  cases h with
  | send method params delegated => exact Or.inl ⟨method, params, delegated, rfl, rfl⟩
  | write obj => exact Or.inr ⟨by simp, by constructor <;> simp [Transport.writeObj, Label.completes]⟩
  | poll comp => exact Or.inr ⟨by simp, Keeps.poll t comp⟩
  | dispatched origin hresp hprocess =>
    refine Or.inr ⟨by simp, ?_⟩
    unfold Transport.processResponse at hprocess
    simp only [Label.completes]
    split at hprocess
    · rename_i comp hfind
      rw [hfind]
      exact Keeps.completeWith hprocess
    · rename_i hfind
      obtain rfl := Except.ok.inj hprocess
      rw [hfind]
      constructor <;> simp
  | awaited origin _ _ hcomplete => exact Or.inr ⟨by simp, Keeps.completeWith hcomplete⟩
  | scanned origin _ _ hcomplete => exact Or.inr ⟨by simp, Keeps.completeWith hcomplete⟩

/-- A completion that a step completes belongs to a call that was made. -/
theorem completes_lt (h : Step lib t l t') (hpending : ∀ a ∈ t.completions, a < t.next) {comp : Nat}
    (hcomp : l.completes t = some comp) : comp < t.next := by
  cases h with
  | send | write | poll => cases hcomp
  | dispatched => exact hpending comp (List.mem_of_find?_eq_some hcomp)
  | awaited _ hlt =>
    obtain rfl := Option.some_inj.mp hcomp
    exact hlt
  | scanned _ hlt =>
    obtain rfl := Option.some_inj.mp hcomp
    exact hlt

section Send

variable (t) (method : String) (params : Option Ucl) (delegated : Bool) {a : Nat}

theorem heap_sendMessage_of_lt (ha : a < t.next) :
    (t.sendMessage lib method params delegated).2.heap a = t.heap a :=
  if_neg (Nat.ne_of_lt ha)

theorem heap_sendMessage_next :
    (t.sendMessage lib method params delegated).2.heap t.next = { id := t.rand 0, delegated } :=
  if_pos rfl

theorem completions_sendMessage : (t.sendMessage lib method params delegated).2.completions =
    if delegated then t.completions ++ [t.next] else t.completions :=
  rfl

end Send

/-- Careful steps leave the ids telling the calls apart. -/
theorem told_step (ht : Told t) (hcareful : l.Careful t) (h : Step lib t l t') : Told t' := by
  rcases step_cases h with ⟨method, params, delegated, rfl, rfl⟩ | ⟨_, hkeeps⟩
  · obtain ⟨hzero, hnew⟩ := hcareful
    have hcall : ∀ a < t.next + 1, a < t.next ∨ a = t.next := fun a ha => by omega
    refine ⟨fun a ha => ?_, fun a ha b hb => ?_, fun a ha => ?_⟩
    · rcases hcall a ha with hlt | rfl
      · rw [heap_sendMessage_of_lt t _ _ _ hlt]
        exact ht.ne_zero a hlt
      · rw [heap_sendMessage_next]
        exact hzero
    · rcases hcall a ha with hlt | rfl <;> rcases hcall b hb with hlt' | rfl
      · rw [heap_sendMessage_of_lt t _ _ _ hlt, heap_sendMessage_of_lt t _ _ _ hlt']
        exact ht.inj a hlt b hlt'
      · rw [heap_sendMessage_of_lt t _ _ _ hlt, heap_sendMessage_next]
        exact fun heq => absurd heq (hnew a hlt)
      · rw [heap_sendMessage_of_lt t _ _ _ hlt', heap_sendMessage_next]
        exact fun heq => absurd heq.symm (hnew b hlt')
      · exact fun _ => rfl
    · rw [completions_sendMessage] at ha
      change a < t.next + 1
      split at ha
      · rcases List.mem_append.mp ha with ha | ha
        · exact Nat.lt_succ_of_lt (ht.pending a ha)
        · rw [List.mem_singleton.mp ha]
          exact Nat.lt_succ_self _
      · exact Nat.lt_succ_of_lt (ht.pending a ha)
  · refine ⟨fun a ha => ?_, fun a ha b hb => ?_, fun a ha => ?_⟩
    · rw [hkeeps.id_eq]
      exact ht.ne_zero a (hkeeps.next_eq ▸ ha)
    · rw [hkeeps.id_eq, hkeeps.id_eq]
      exact ht.inj a (hkeeps.next_eq ▸ ha) b (hkeeps.next_eq ▸ hb)
    · rw [hkeeps.next_eq]
      exact ht.pending a (hkeeps.completions_eq ▸ ha)

/-- A message with the id of a call was produced for it. -/
theorem origin_eq {obj : Ucl} {origin : Option Nat} {comp : Nat} (ht : Told t) (hcomp : comp < t.next)
    (hproduced : Produced t obj origin) (hid : uclObjIsResponseForId obj = (t.heap comp).id) :
    IsResponse obj ∧ origin = some comp := by
  have hne : uclObjIsResponseForId obj ≠ 0 := hid ▸ ht.ne_zero comp hcomp
  refine ⟨isResponse_of_responseFor hne, ?_⟩
  cases origin with
  | none => exact absurd hproduced hne
  | some a =>
    obtain ⟨ha, hlookup⟩ := hproduced
    have hresp : uclObjIsResponseForId obj = (t.heap a).id := by
      unfold uclObjIsResponseForId at hne ⊢
      split at hne <;> simp_all
    rw [ht.inj a ha comp hcomp (hresp.symm.trans hid)]

/-- Where the ids tell the calls apart, a step completes what it should. -/
theorem right_of_told (ht : Told t) (hfair : l.Fair t) (hcareful : l.Careful t) (h : Step lib t l t') : l.Right t := by
  intro comp hcomp
  have hlt := completes_lt h ht.pending hcomp
  cases h with
  | send | write | poll => trivial
  | @dispatched obj _ origin _ _ =>
    have hid : (t.heap comp).id = uclObjIsResponseForId obj := by simpa using List.find?_some hcomp
    exact origin_eq ht hlt hfair hid.symm
  | awaited origin _ hid _ =>
    obtain rfl := Option.some_inj.mp hcomp
    exact origin_eq ht hlt hfair hid
  | scanned => exact hcareful.elim

end Step

/-- In a run of careful steps, with a peer that answers what it was asked, each message
that completes a call is a response that was produced for it. -/
theorem run_right (lib : Libucl) (t t' : Transport) (trace : List (Transport × Label)) (hstart : Start t)
    (hrun : Run (Step lib) t trace t') (hfair : ∀ e ∈ trace, e.2.Fair e.1) (hcareful : ∀ e ∈ trace, e.2.Careful e.1) :
    ∀ e ∈ trace, e.2.Right e.1 := by
  have htold : Told t := by
    refine ⟨fun a ha => ?_, fun a ha => ?_, fun a ha => ?_⟩
    · exact absurd ha (by simp [hstart.next_eq])
    · exact absurd ha (by simp [hstart.next_eq])
    · simp [hstart.completions_eq] at ha
  intro e he
  have htold' := hrun.invariant_before (fun _ _ _ hs hok hstep => told_step hs hok hstep) htold hcareful e he
  obtain ⟨t'', hstep⟩ := hrun.exists_step e he
  exact right_of_told htold' (hfair e he) (hcareful e he) hstep

/-- A transport whose calls are to draw the given ids. -/
def caller (rand : Nat → Int32) : Transport where
  heap _ := { id := 0 }
  next := 0
  rand

theorem caller_start (rand : Nat → Int32) : Start (caller rand) :=
  ⟨rfl, rfl, rfl⟩

/-- After an asynchronous call. -/
def Transport.ping (t : Transport) : Transport :=
  (t.sendMessage pongLib "ping_v1" none true).2

/-- After the response to the call whose completion is at the given address. -/
def Transport.ponged (t : Transport) (comp : Nat) : Transport :=
  { t with heap := fun a => if a = comp then pong.complete (t.heap comp) else t.heap a }

/-- Two calls, and the response to the second. -/
def twoCalls (rand : Nat → Int32) (id : Int) : List (Transport × Label) :=
  [(caller rand, .sent), ((caller rand).ping, .sent),
    ((caller rand).ping.ping, .dispatched (pong.response pongLib id) (some 1))]

theorem run_right_two_calls :
    Run (Step pongLib) (caller fun i => if i = 0 then 7 else 8) (twoCalls (fun i => if i = 0 then 7 else 8) 8)
        ((caller fun i => if i = 0 then 7 else 8).ping.ping.ponged 1) ∧
      ∀ e ∈ twoCalls (fun i => if i = 0 then 7 else 8) 8, e.2.Right e.1 := by
  have hrun : Run (Step pongLib) (caller fun i => if i = 0 then 7 else 8) (twoCalls (fun i => if i = 0 then 7 else 8) 8)
      ((caller fun i => if i = 0 then 7 else 8).ping.ping.ponged 1) :=
    .cons (.send _ _ _ _) (.cons (.send _ _ _ _) (.single (.dispatched _ (by decide) rfl)))
  refine ⟨hrun, run_right pongLib _ _ _ (caller_start _) hrun ?_ ?_⟩
  · simp only [twoCalls, List.forall_mem_cons]
    exact ⟨trivial, trivial, ⟨by decide, rfl⟩, by simp⟩
  · simp only [twoCalls, List.forall_mem_cons]
    exact ⟨⟨by decide, by decide⟩, ⟨by decide, by decide⟩, trivial, by simp⟩

theorem run_not_right :
    Run (Step pongLib) (caller fun _ => 7) (twoCalls (fun _ => 7) 7) ((caller fun _ => 7).ping.ping.ponged 0) ∧
      (∀ e ∈ twoCalls (fun _ => 7) 7, e.2.Fair e.1) ∧ ¬∀ e ∈ twoCalls (fun _ => 7) 7, e.2.Right e.1 := by
  refine ⟨?_, ?_, fun h => ?_⟩
  · exact .cons (.send _ _ _ _) (.cons (.send _ _ _ _) (.single (.dispatched _ (by decide) rfl)))
  · simp only [twoCalls, List.forall_mem_cons]
    exact ⟨trivial, trivial, ⟨by decide, rfl⟩, by simp⟩
  · have hright := h ((caller fun _ => 7).ping.ping, .dispatched (pong.response pongLib 7) (some 1))
        (by simp [twoCalls])
    exact absurd (hright 0 rfl).2 (by decide)

/-- Each delegate was invoked at most once, and a completion that was completed is no
longer pending. -/
def CompletesOnce (t : Transport) : Prop :=
  ∀ a < t.next, (t.heap a).delegated = true →
    (t.heap a).notified ≤ 1 ∧ (0 < (t.heap a).notified → a ∉ t.completions)

/-- The step brings no response for an asynchronous call. -/
def Label.Spares (t : Transport) : Label → Prop
  | .dispatched obj _ => ∀ a ∈ t.completions, (t.heap a).id ≠ uclObjIsResponseForId obj
  | .awaited comp _ _ => (t.heap comp).delegated = false
  | .scanned comp _ _ => (t.heap comp).delegated = false
  | _ => True

/-- The pending completions are those of all the asynchronous calls there were. -/
def Listed (t : Transport) : Prop :=
  ∀ a, a ∈ t.completions ↔ a < t.next ∧ (t.heap a).delegated = true

/-- No delegate was invoked yet. -/
def Silent (t : Transport) : Prop :=
  ∀ a < t.next, (t.heap a).delegated = true → (t.heap a).notified = 0

section Once

variable {lib : Libucl} {t t' : Transport} {l : Label} {trace : List (Transport × Label)}

theorem completesOnce_iff_silent (hlisted : Listed t) : CompletesOnce t ↔ Silent t := by
  constructor
  · intro h a ha hdelegated
    by_contra hne
    exact (h a ha hdelegated).2 (Nat.pos_of_ne_zero hne) ((hlisted a).mpr ⟨ha, hdelegated⟩)
  · intro h a ha hdelegated
    have hzero := h a ha hdelegated
    exact ⟨by omega, by omega⟩

theorem spares_iff (hlisted : Listed t) (h : Step lib t l t') :
    l.Spares t ↔ ∀ comp, l.completes t = some comp → (t.heap comp).delegated = false := by
  cases h with
  | send | write | poll => simp [Label.Spares, Label.completes]
  | awaited | scanned => simp [Label.Spares, Label.completes]
  | @dispatched obj _ origin _ _ =>
    simp only [Label.Spares, Label.completes]
    constructor
    · intro hnone comp hfind
      have hid : (t.heap comp).id = uclObjIsResponseForId obj := by simpa using List.find?_some hfind
      exact absurd hid (hnone comp (List.mem_of_find?_eq_some hfind))
    · intro hall a ha hid
      obtain ⟨comp, hfind⟩ : ∃ comp, (t.completions.find? fun comp =>
          (t.heap comp).id = uclObjIsResponseForId obj) = some comp := by
        rw [← Option.isSome_iff_exists, List.find?_isSome]
        exact ⟨a, ha, by simpa using hid⟩
      have hdelegated := ((hlisted comp).mp (List.mem_of_find?_eq_some hfind)).2
      exact absurd (hall comp hfind) (by simp [hdelegated])

theorem listed_step (hlisted : Listed t) (h : Step lib t l t') : Listed t' := by
  rcases step_cases h with ⟨method, params, delegated, rfl, rfl⟩ | ⟨_, hkeeps⟩
  · intro a
    rw [completions_sendMessage]
    change _ ↔ a < t.next + 1 ∧ _
    rcases Nat.lt_trichotomy a t.next with hlt | rfl | hgt
    · rw [heap_sendMessage_of_lt t _ _ _ hlt]
      cases delegated <;> simp [hlisted a, hlt, Nat.lt_succ_of_lt hlt, Nat.ne_of_lt hlt]
    · have hnew : t.next ∉ t.completions := fun hmem => absurd ((hlisted _).mp hmem).1 (Nat.lt_irrefl _)
      rw [heap_sendMessage_next]
      cases delegated <;> simp [hnew]
    · have hnot : ¬a < t.next := by omega
      have hnot' : ¬a < t.next + 1 := by omega
      have hne : a ≠ t.next := by omega
      cases delegated <;> simp [hlisted a, hnot, hnot', hne]
  · intro a
    rw [hkeeps.completions_eq, hkeeps.next_eq, hkeeps.delegated_eq]
    exact hlisted a

theorem silent_step (hlisted : Listed t) (h : Step lib t l t') : Silent t' ↔ Silent t ∧ l.Spares t := by
  rcases step_cases h with ⟨method, params, delegated, rfl, rfl⟩ | ⟨_, hkeeps⟩
  · rw [and_iff_left (show Label.Spares t .sent from trivial)]
    constructor
    · intro hsilent a ha hdelegated
      have hnotified := hsilent a (Nat.lt_succ_of_lt ha)
      rw [heap_sendMessage_of_lt t _ _ _ ha] at hnotified
      exact hnotified hdelegated
    · intro hsilent a ha
      rcases Nat.lt_succ_iff_lt_or_eq.mp ha with hlt | rfl
      · rw [heap_sendMessage_of_lt t _ _ _ hlt]
        exact hsilent a hlt
      · rw [heap_sendMessage_next]
        exact fun _ => rfl
  · rw [spares_iff hlisted h]
    constructor
    · intro hsilent
      refine ⟨fun a ha hdelegated => ?_, fun comp hcomp => ?_⟩
      · have hnotified := hsilent a (hkeeps.next_eq ▸ ha) ((hkeeps.delegated_eq a).trans hdelegated)
        rw [hkeeps.notified_eq] at hnotified
        omega
      · have hlt := completes_lt h (fun a ha => ((hlisted a).mp ha).1) hcomp
        by_contra hdelegated
        rw [Bool.not_eq_false] at hdelegated
        have hnotified := hsilent comp (hkeeps.next_eq ▸ hlt) ((hkeeps.delegated_eq comp).trans hdelegated)
        rw [hkeeps.notified_eq, if_pos hcomp, hdelegated] at hnotified
        exact absurd hnotified (by simp)
    · rintro ⟨hsilent, hspares⟩ a ha hdelegated
      rw [hkeeps.next_eq] at ha
      rw [hkeeps.delegated_eq] at hdelegated
      rw [hkeeps.notified_eq, hsilent a ha hdelegated]
      split
      · rename_i hcomp
        exact absurd (hspares a hcomp) (by simp [hdelegated])
      · rfl

theorem silent_run (hrun : Run (Step lib) t trace t') (hlisted : Listed t) :
    Listed t' ∧ (Silent t' ↔ Silent t ∧ ∀ e ∈ trace, e.2.Spares e.1) := by
  induction hrun with
  | nil => exact ⟨hlisted, by simp⟩
  | cons hstep _ ih =>
    obtain ⟨hlisted', hiff⟩ := ih (listed_step hlisted hstep)
    refine ⟨hlisted', ?_⟩
    rw [hiff, silent_step hlisted hstep, List.forall_mem_cons, and_assoc]

end Once

/-- A run completes each asynchronous call at most once, and takes it off the list, exactly
if none is completed in it. -/
theorem run_completesOnce_iff (lib : Libucl) (t t' : Transport) (trace : List (Transport × Label)) (hstart : Start t)
    (hrun : Run (Step lib) t trace t') : CompletesOnce t' ↔ ∀ e ∈ trace, e.2.Spares e.1 := by
  have hlisted : Listed t := by
    intro a
    simp [hstart.completions_eq, hstart.next_eq]
  have hsilent : Silent t := by
    intro a ha
    simp [hstart.next_eq] at ha
  obtain ⟨hlisted', hiff⟩ := silent_run hrun hlisted
  rw [completesOnce_iff_silent hlisted', hiff, and_iff_right hsilent]

/-- A call, and a response that nobody asked for. -/
theorem run_completesOnce_unsolicited :
    CompletesOnce { (caller fun _ => 7).ping with received := [pong.response pongLib 9] } := by
  refine (run_completesOnce_iff pongLib (caller fun _ => 7) _
    [(caller fun _ => 7, .sent), ((caller fun _ => 7).ping, .dispatched (pong.response pongLib 9) none)]
    (caller_start _) ?_).mpr ?_
  · exact .cons (.send _ _ _ _) (.single (.dispatched _ (by decide) rfl))
  · have hspares : ∀ a ∈ (caller fun _ => 7).ping.completions,
        ((caller fun _ => 7).ping.heap a).id ≠ uclObjIsResponseForId (pong.response pongLib 9) := by decide
    exact List.forall_mem_cons.mpr ⟨trivial, List.forall_mem_singleton.mpr hspares⟩

/-- The response to a call comes twice. -/
theorem run_completes_twice :
    ∃ trace, Run (Step pongLib) (caller fun _ => 7) trace (((caller fun _ => 7).ping.ponged 0).ponged 0) ∧
      ((((caller fun _ => 7).ping.ponged 0).ponged 0).heap 0).notified = 2 ∧
      ¬CompletesOnce (((caller fun _ => 7).ping.ponged 0).ponged 0) := by
  have honce : Step pongLib (caller fun _ => 7).ping (.dispatched (pong.response pongLib 7) (some 0))
      ((caller fun _ => 7).ping.ponged 0) := .dispatched _ (by decide) rfl
  have htwice : Step pongLib ((caller fun _ => 7).ping.ponged 0) (.dispatched (pong.response pongLib 7) (some 0))
      (((caller fun _ => 7).ping.ponged 0).ponged 0) := .dispatched _ (by decide) rfl
  refine ⟨_, .cons (.send _ _ _ _) (.cons honce (.single htwice)), rfl, fun h => ?_⟩
  exact absurd (h 0 (by decide) rfl).1 (by decide)

end ServiceManager.Wsrpc
