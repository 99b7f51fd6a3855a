import ServiceManager.Wsrpc.Effect
import ServiceManager.Wsrpc.Reply

namespace ServiceManager.Wsrpc

/-- Waits with fewer events to come than `n` do not run out of fuel. -/
def Enough (await : Nat → Transport → Except Stuck (Bool × Transport)) (n : Nat) : Prop :=
  ∀ comp t, t.events.length < n → await comp t ≠ .error .outOfFuel

theorem completeWith_ne_outOfFuel (t : Transport) (comp : Nat) (obj : Ucl) :
    t.completeWith comp obj ≠ .error .outOfFuel := by
  unfold Transport.completeWith
  split <;> simp

section Enough

variable {lib : Libucl} {await : Nat → Transport → Except Stuck (Bool × Transport)} {n : Nat}
  (hwaits : Waits await) (henough : Enough await n)

include hwaits henough

theorem Handler.run_enough (h : Handler) {t : Transport} (ht : t.events.length < n) :
    h.run lib await t ≠ .error .outOfFuel := by
  induction h generalizing t with
  | answer a => exact fun h => nomatch h
  | call method params next ih =>
    intro h
    rcases bind_eq_error h with h | ⟨⟨ret, t₂⟩, hawait, h⟩
    · exact henough _ (t.sendMessage lib method params false).2 ht h
    · obtain ⟨during, hwait⟩ := hwaits _ _ _ _ hawait
      exact ih _ _ _ (Nat.lt_of_le_of_lt hwait.events_length_le ht) h
  | send method params next ih => exact ih ht

theorem handleRequest_enough {svcs : List Provider} {req : Req} {t : Transport} (ht : t.events.length < n) :
    handleRequest lib await svcs req t ≠ .error .outOfFuel := by
  induction svcs generalizing req t with
  | nil => exact fun h => nomatch h
  | cons svc svcs ih =>
    intro h
    rcases bind_eq_error h with h | ⟨⟨a, t₁⟩, hrun, h⟩
    · exact Handler.run_enough hwaits henough _ ht h
    · obtain ⟨during, htakes⟩ := Handler.run_takes hwaits _ hrun
      simp only at h
      split at h
      · exact ih (Nat.lt_of_le_of_lt htakes.events_length_le ht) h
      · split at h
        · cases h
        · split at h <;> cases h

theorem processMessageWith_enough {svcs : List Provider} {obj : Ucl} {t : Transport} (ht : t.events.length < n) :
    processMessageWith lib await svcs t obj ≠ .error .outOfFuel := by
  intro h
  simp only [processMessageWith] at h
  split at h
  · split at h
    · exact completeWith_ne_outOfFuel _ _ _ h
    · cases h
  · split at h
    · split at h
      · exact handleRequest_enough hwaits henough ht h
      · exact handleRequest_enough hwaits henough ht h
      · cases h
    · cases h

end Enough

theorem poll_events_lt {t : Transport} {e : Event} {n : Nat} (comp : Nat) (hhead : t.events.head? = some e)
    (ht : t.events.length < n + 1) : (t.poll comp).events.length < n := by
  obtain ⟨events, hevents⟩ := List.head?_eq_some_iff.mp hhead
  simpa [Transport.poll, hevents] using ht

/-- Each poll takes an event, so the waits end. -/
theorem awaitReply_enough (lib : Libucl) (svcs : List Provider) (n : Nat) : Enough (awaitReply lib svcs n) n := by
  induction n with
  | zero => exact fun comp t ht => absurd ht (Nat.not_lt_zero _)
  | succ n ih =>
    intro comp t ht h
    cases awaitReply_turn lib svcs n comp t with
    | nothing _ hx | malformed _ _ _ hx => cases hx.symm.trans h
    | part hhead hx => exact ih _ _ (poll_events_lt comp hhead ht) (hx.symm.trans h)
    | response _ obj _ _ _ hx =>
      rw [hx] at h
      cases hcomplete : (t.poll comp).completeWith comp obj with
      | ok t₁ =>
        rw [hcomplete] at h
        cases h
      | error stuck =>
        rw [hcomplete] at h
        cases h
        exact completeWith_ne_outOfFuel _ _ _ hcomplete
    | other _ obj hhead _ _ hx =>
      have hlt := poll_events_lt comp hhead ht
      rcases bind_eq_error (hx.symm.trans h) with h | ⟨t₁, hprocess, h⟩
      · exact processMessageWith_enough (awaitReply_waits lib svcs n) ih hlt h
      · obtain ⟨during, htakes⟩ := processMessageWith_takes (awaitReply_waits lib svcs n) hprocess
        split at h
        · cases h
        · exact ih _ _ (Nat.lt_of_le_of_lt htakes.events_length_le hlt) h

/-- The waits with fewer events to come than `n` are the same. -/
def Agree (await await' : Nat → Transport → Except Stuck (Bool × Transport)) (n : Nat) : Prop :=
  ∀ comp t, t.events.length < n → await comp t = await' comp t

theorem bind_congr_ok {ε α β : Type} {x : Except ε α} {f g : α → Except ε β} (h : ∀ a, x = .ok a → f a = g a) :
    x >>= f = x >>= g := by
  cases x with
  | error e => rfl
  | ok a => exact h a rfl

theorem Handler.run_call (lib : Libucl) (await : Nat → Transport → Except Stuck (Bool × Transport)) (method : String)
    (params : Option Ucl) (next : Bool → Error → Option Ucl → Handler) (t : Transport) :
    (Handler.call method params next).run lib await t =
      (await (t.sendMessage lib method params false).1 (t.sendMessage lib method params false).2 >>= fun r =>
        (next r.1 (r.2.heap t.next).err (r.2.heap t.next).result).run lib await r.2) :=
  rfl

section Agree

variable {lib : Libucl} {await await' : Nat → Transport → Except Stuck (Bool × Transport)} {n : Nat}
  (hwaits : Waits await') (hagree : Agree await await' n)

include hwaits hagree

theorem Handler.run_agree (h : Handler) {t : Transport} (ht : t.events.length < n) :
    h.run lib await t = h.run lib await' t := by
  induction h generalizing t with
  | answer a => rfl
  | call method params next ih =>
    rw [Handler.run_call, Handler.run_call, hagree _ (t.sendMessage lib method params false).2 ht]
    apply bind_congr_ok
    rintro ⟨ret, t₂⟩ hawait
    obtain ⟨during, hwait⟩ := hwaits _ _ _ _ hawait
    exact ih ret _ _ (Nat.lt_of_le_of_lt hwait.events_length_le ht)
  | send method params next ih => exact ih ht

theorem handleRequest_agree {svcs : List Provider} {req : Req} {t : Transport} (ht : t.events.length < n) :
    handleRequest lib await svcs req t = handleRequest lib await' svcs req t := by
  induction svcs generalizing req t with
  | nil => rfl
  | cons svc svcs ih =>
    rw [handleRequest, handleRequest, Handler.run_agree hwaits hagree _ ht]
    apply bind_congr_ok
    rintro ⟨a, t₁⟩ hrun
    obtain ⟨during, htakes⟩ := Handler.run_takes hwaits _ hrun
    simp only [ih (Nat.lt_of_le_of_lt htakes.events_length_le ht)]

theorem processMessageWith_agree {svcs : List Provider} {obj : Ucl} {t : Transport} (ht : t.events.length < n) :
    processMessageWith lib await svcs t obj = processMessageWith lib await' svcs t obj := by
  unfold processMessageWith
  rw [handleRequest_agree hwaits hagree ht]

end Agree

/-- How much fuel there is makes no difference, if it is enough. -/
theorem awaitReply_agree (lib : Libucl) (svcs : List Provider) {n m : Nat} (hle : n ≤ m) :
    Agree (awaitReply lib svcs n) (awaitReply lib svcs m) n := by
  induction n generalizing m with
  | zero => exact fun comp t ht => absurd ht (Nat.not_lt_zero _)
  | succ n ih =>
    intro comp t ht
    obtain ⟨m, rfl⟩ : ∃ k, m = k + 1 := ⟨m - 1, by omega⟩
    have hagree := ih (m := m) (by omega)
    have hwaits := awaitReply_waits lib svcs m
    cases hhead : t.events.head? with
    | none => simp only [awaitReply, hhead]
    | some e =>
      have hlt := poll_events_lt comp hhead ht
      cases e with
      | failed | timeout | hangup => simp only [awaitReply, hhead]
      | part => simpa only [awaitReply, hhead] using hagree comp _ hlt
      | text text =>
        cases hparse : lib.parse text with
        | none => simp only [awaitReply, hhead, hparse]
        | some obj =>
          simp only [awaitReply, hhead, hparse, processMessageWith_agree hwaits hagree hlt]
          split
          · rfl
          · apply bind_congr_ok
            intro t₁ hprocess
            obtain ⟨during, htakes⟩ := processMessageWith_takes hwaits hprocess
            simp only [hagree comp t₁ (Nat.lt_of_le_of_lt htakes.events_length_le hlt)]

/-- The event is a response for the id. -/
def Responds (lib : Libucl) (id : Int32) (e : Event) : Prop :=
  ∃ m obj, e = .text m ∧ lib.parse m = some obj ∧ uclObjIsResponseForId obj = id

/-- The completion holds what the response says. -/
def Carries (comp : Completion) (obj : Ucl) : Prop :=
  match obj.lookup "result" with
  | some result => comp.err = {} ∧ comp.result = some result
  | none => uclToError (obj.lookup "error") = some comp.err ∧ comp.result = none

/-- The wait returns, with true exactly if it or a wait within it took a response for the
completion, and then the completion holds that response. -/
def TellsTruth (lib : Libucl) (svcs : List Provider) (fuel comp : Nat) (t : Transport) : Prop :=
  ∃ ret t' during, awaitReply lib svcs fuel comp t = .ok (ret, t') ∧ t.events = during ++ t'.events ∧
    (ret = true ↔ ∃ e ∈ during, Responds lib (t.heap comp).id e) ∧
    ∀ m obj, .text m ∈ during → lib.parse m = some obj → uclObjIsResponseForId obj = (t.heap comp).id →
      Carries (t'.heap comp) obj

/-- No wrong branch is taken: the wait itself reads no malformed text, an error it is sent
has a string for its message and finds no earlier result, and while it handles another
message no wait within it takes a response for its completion or does something
undefined, nor is there one among those received. -/
def Undisturbed (lib : Libucl) (svcs : List Provider) : Nat → Nat → Transport → Prop
  | 0, _, _ => True
  | fuel + 1, comp, t =>
    match t.events.head? with
    | some .part => Undisturbed lib svcs fuel comp (t.poll comp)
    | some (.text m) =>
      match lib.parse m with
      | none => False
      | some obj =>
        if uclObjIsResponseForId obj = (t.heap comp).id then
          obj.lookup "result" = none →
            uclToError (obj.lookup "error") ≠ none ∧ (t.heap comp).result = none
        else
          let handled := processMessageWith lib (awaitReply lib svcs fuel) svcs (t.poll comp) obj
          handled ≠ .error .undefined ∧ ∀ t', handled = .ok t' →
            (∀ during, (t.poll comp).events = during ++ t'.events → ∀ e ∈ during, ¬Responds lib (t.heap comp).id e) ∧
              (∀ obj ∈ t'.received, uclObjIsResponseForId obj ≠ (t.heap comp).id) ∧
              Undisturbed lib svcs fuel comp t'
    | _ => True

/-- A response that is well-formed completes, with what it says. -/
theorem exists_completed {comp : Completion} {obj : Ucl}
    (h : obj.lookup "result" = none → uclToError (obj.lookup "error") ≠ none ∧ comp.result = none) :
    ∃ c, Transport.completed comp obj = some c ∧ Carries c obj := by
  cases hlookup : obj.lookup "result" with
  | some result =>
    have hcompleted : Transport.completed comp obj =
        some { comp with err := {}, result := some result, notified := comp.notified + comp.delegated.toNat } := by
      simp only [Transport.completed, hlookup]
    exact ⟨_, hcompleted, by simp [Carries, hlookup]⟩
  | none =>
    obtain ⟨herr, hresult⟩ := h hlookup
    obtain ⟨err, herr⟩ := Option.ne_none_iff_exists'.mp herr
    have hcompleted : Transport.completed comp obj =
        some { comp with err, notified := comp.notified + comp.delegated.toNat } := by
      simp only [Transport.completed, hlookup, herr, Option.map_some]
    exact ⟨_, hcompleted, by simp [Carries, hlookup, herr, hresult]⟩

section Truth

variable {lib : Libucl} {svcs : List Provider} {fuel comp : Nat} {t t' : Transport}

theorem poll_heap (t : Transport) (comp : Nat) :
    (t.poll comp).heap comp = { t.heap comp with err := Error.replyTimeout } := by
  simp [Transport.poll, Transport.setErr]

theorem completed_poll (t : Transport) (comp : Nat) (obj : Ucl) :
    Transport.completed ((t.poll comp).heap comp) obj = Transport.completed (t.heap comp) obj := by
  rw [poll_heap]
  unfold Transport.completed
  split <;> rfl

/-- A wait that ends with false, its poll having found no message. -/
theorem TellsTruth.of_false (hawait : awaitReply lib svcs fuel comp t = .ok (false, t.poll comp))
    (hquiet : ∀ e ∈ t.events.head?, ¬Responds lib (t.heap comp).id e) : TellsTruth lib svcs fuel comp t := by
  have hquiet' : ∀ e ∈ t.events.head?.toList, ¬Responds lib (t.heap comp).id e :=
    fun e he => hquiet e (Option.mem_toList.mp he)
  refine ⟨false, t.poll comp, t.events.head?.toList, hawait, (Takes.poll t comp).events_eq, ?_,
    fun m obj hm hparse hid => ?_⟩
  · simpa using hquiet'
  · exact absurd ⟨m, obj, rfl, hparse, hid⟩ (hquiet' _ hm)

/-- A wait goes on from a later state; what it took before is no response for it. -/
theorem TellsTruth.prepend {before : List Event} (h : TellsTruth lib svcs fuel comp t')
    (hawait : awaitReply lib svcs (fuel + 1) comp t = awaitReply lib svcs fuel comp t')
    (hevents : t.events = before ++ t'.events) (hid : (t'.heap comp).id = (t.heap comp).id)
    (hquiet : ∀ e ∈ before, ¬Responds lib (t.heap comp).id e) : TellsTruth lib svcs (fuel + 1) comp t := by
  obtain ⟨ret, t'', during, hrest, hevents', hiff, hcarries⟩ := h
  rw [hid] at hiff hcarries
  refine ⟨ret, t'', before ++ during, hawait.trans hrest, ?_, hiff.trans ?_, fun m obj hm hparse hresp => ?_⟩
  · rw [hevents, hevents', List.append_assoc]
  · constructor
    · rintro ⟨e, he, hresponds⟩
      exact ⟨e, List.mem_append_right _ he, hresponds⟩
    · rintro ⟨e, he, hresponds⟩
      rcases List.mem_append.mp he with he | he
      · exact absurd hresponds (hquiet e he)
      · exact ⟨e, he, hresponds⟩
  · rcases List.mem_append.mp hm with hm | hm
    · exact absurd ⟨m, obj, rfl, hparse, hresp⟩ (hquiet _ hm)
    · exact hcarries m obj hm hparse hresp

theorem TellsTruth.of_response {m : Message} {obj : Ucl} {c : Completion} (hhead : t.events.head? = some (.text m))
    (hparse : lib.parse m = some obj) (hid : uclObjIsResponseForId obj = (t.heap comp).id)
    (hawait : awaitReply lib svcs fuel comp t = ((t.poll comp).completeWith comp obj).map fun t => (true, t))
    (hcompleted : Transport.completed (t.heap comp) obj = some c) (hcarries : Carries c obj) :
    TellsTruth lib svcs fuel comp t := by
  let completed : Transport := { t.poll comp with heap := fun a => if a = comp then c else (t.poll comp).heap a }
  have hcomplete : (t.poll comp).completeWith comp obj = .ok completed := by
    simp only [Transport.completeWith, completed_poll, hcompleted, completed]
  have hevents := (Takes.poll t comp).events_eq
  rw [hhead] at hevents
  refine ⟨true, completed, [.text m], ?_, hevents, ?_, fun m' obj' hm hparse' _ => ?_⟩
  · rw [hawait, hcomplete]
    rfl
  · exact ⟨fun _ => ⟨.text m, List.mem_cons_self, m, obj, rfl, hparse, hid⟩, fun _ => rfl⟩
  · obtain rfl : m' = m := by simpa using hm
    obtain rfl : obj = obj' := Option.some_inj.mp (hparse.symm.trans hparse')
    have hheap : completed.heap comp = c := by simp [completed]
    rwa [hheap]

end Truth

/-- Handling another message leaves the wait where it was, further on in the events. -/
theorem awaitReply_other {lib : Libucl} {svcs : List Provider} {fuel comp : Nat} {t t' : Transport} {m : Message}
    {obj : Ucl} (hlive : comp < t.next) (hhead : t.events.head? = some (.text m))
    (hparse : lib.parse m = some obj) (hid : uclObjIsResponseForId obj ≠ (t.heap comp).id)
    (hawait : awaitReply lib svcs (fuel + 1) comp t =
      processMessageWith lib (awaitReply lib svcs fuel) svcs (t.poll comp) obj >>= fun t =>
        if t.received.any fun obj => uclObjIsResponseForId obj = (t.heap comp).id then .error .undefined
        else awaitReply lib svcs fuel comp t)
    (hprocess : processMessageWith lib (awaitReply lib svcs fuel) svcs (t.poll comp) obj = .ok t')
    (hnested : ∀ during, (t.poll comp).events = during ++ t'.events →
      ∀ e ∈ during, ¬Responds lib (t.heap comp).id e)
    (hreceived : ∀ obj ∈ t'.received, uclObjIsResponseForId obj ≠ (t.heap comp).id) :
    ∃ during, t.events = during ++ t'.events ∧ (∀ e ∈ during, ¬Responds lib (t.heap comp).id e) ∧
      0 < during.length ∧ comp < t'.next ∧ (t'.heap comp).id = (t.heap comp).id ∧
      awaitReply lib svcs (fuel + 1) comp t = awaitReply lib svcs fuel comp t' := by
  obtain ⟨during, htakes⟩ := processMessageWith_takes (awaitReply_waits lib svcs fuel) hprocess
  have hevents := ((Takes.poll t comp).trans htakes).events_eq
  rw [hhead] at hevents
  have hquiet : ∀ e ∈ .text m :: during, ¬Responds lib (t.heap comp).id e := by
    refine List.forall_mem_cons.mpr ⟨?_, hnested during htakes.events_eq⟩
    rintro ⟨m', obj', hm, hparse', hid'⟩
    obtain rfl := Event.text.inj hm
    obtain rfl : obj = obj' := Option.some_inj.mp (hparse.symm.trans hparse')
    exact hid hid'
  have hid' := ((Takes.poll t comp).trans htakes).id_eq comp hlive
  refine ⟨_, hevents, hquiet, Nat.zero_lt_succ _, Nat.lt_of_lt_of_le hlive htakes.next_le, hid', ?_⟩
  have hscan : ¬(t'.received.any fun obj => uclObjIsResponseForId obj = (t'.heap comp).id) = true := by
    simpa [hid'] using hreceived
  rw [hawait, hprocess]
  exact if_neg hscan

/-- A wait that nothing disturbs tells the truth. -/
theorem awaitReply_tellsTruth (lib : Libucl) (svcs : List Provider) (fuel comp : Nat) (t : Transport)
    (hfuel : t.events.length < fuel) (hlive : comp < t.next) (h : Undisturbed lib svcs fuel comp t) :
    TellsTruth lib svcs fuel comp t := by
  induction fuel generalizing t with
  | zero => exact absurd hfuel (Nat.not_lt_zero _)
  | succ fuel ih =>
    cases awaitReply_turn lib svcs fuel comp t with
    | nothing hhead hx =>
      refine TellsTruth.of_false hx ?_
      rintro e he ⟨m, obj, rfl, _⟩
      exact (hhead _ he).2 m rfl
    | part hhead hx =>
      simp only [Undisturbed, hhead] at h
      refine (ih (t.poll comp) (poll_events_lt comp hhead hfuel) hlive h).prepend hx (Takes.poll t comp).events_eq ?_ ?_
      · rw [poll_heap]
      · simp [hhead, Responds]
    | malformed m hhead hparse _ => simp [Undisturbed, hhead, hparse] at h
    | response m obj hhead hparse hid hx =>
      simp only [Undisturbed, hhead, hparse, if_pos hid] at h
      obtain ⟨c, hcompleted, hcarries⟩ := exists_completed h
      exact TellsTruth.of_response hhead hparse hid hx hcompleted hcarries
    | other m obj hhead hparse hid hx =>
      simp only [Undisturbed, hhead, hparse, if_neg hid] at h
      obtain ⟨hdefined, hnext⟩ := h
      cases hprocess : processMessageWith lib (awaitReply lib svcs fuel) svcs (t.poll comp) obj with
      | error stuck =>
        cases stuck with
        | undefined => exact absurd hprocess hdefined
        | outOfFuel =>
          exact absurd hprocess (processMessageWith_enough (awaitReply_waits lib svcs fuel)
            (awaitReply_enough lib svcs fuel) (poll_events_lt comp hhead hfuel))
      | ok t' =>
        obtain ⟨hnested, hreceived, hrest⟩ := hnext t' hprocess
        obtain ⟨during, hevents', hquiet, hpos, hlive', hid', hawait⟩ :=
          awaitReply_other hlive hhead hparse hid hx hprocess hnested hreceived
        have hlength := congrArg List.length hevents'
        rw [List.length_append] at hlength
        exact (ih t' (by omega) hlive' hrest).prepend hawait hevents' hid' hquiet

/-- A malformed text is taken for the reply. -/
theorem not_tellsTruth_of_malformed {lib : Libucl} (svcs : List Provider) (fuel : Nat) {comp : Nat} {t : Transport}
    {m : Message} (hhead : t.events.head? = some (.text m)) (hparse : lib.parse m = none) :
    ¬TellsTruth lib svcs (fuel + 1) comp t := by
  rintro ⟨ret, t', during, hawait, hevents, hiff, _⟩
  simp only [awaitReply, hhead, hparse, Except.ok.injEq, Prod.mk.injEq] at hawait
  obtain ⟨rfl, rfl⟩ := hawait
  obtain ⟨e, he, m', obj, rfl, hparse', _⟩ := hiff.mp rfl
  have hduring : during = [.text m] := by
    rw [(Takes.poll t comp).events_eq, hhead] at hevents
    exact (List.append_cancel_right hevents).symm
  rw [hduring, List.mem_singleton] at he
  rw [Event.text.inj he, hparse] at hparse'
  cases hparse'

/-- A call under way to whom a request of the peer comes in before the response. -/
def called : Transport :=
  { pinger with events := [.text pingText, .text pongText] }

theorem undisturbed_called : Undisturbed pingPongLib [pongProvider] 3 0 called := by
  have hne : pongText.text ≠ pingText.text := by decide +kernel
  have hping : pingPongLib.parse pingText = some pingRequest := congrArg some (if_pos rfl)
  have hpong : pingPongLib.parse pongText = some (pong.response pingPongLib 7) := congrArg some (if_neg hne)
  -- the request is answered, and the response is all there is to come
  let answered := (called.poll 0).writeObj pingPongLib (pong.response pingPongLib 7)
  have hanswered : ∀ await, processMessageWith pingPongLib await [pongProvider]
      (called.poll 0) pingRequest = .ok answered :=
    fun _ => rfl
  have hrest : Undisturbed pingPongLib [pongProvider] 2 0 answered := by
    have hhead : answered.events.head? = some (.text pongText) := rfl
    have hid : uclObjIsResponseForId (pong.response pingPongLib 7) = (answered.heap 0).id := rfl
    simp only [Undisturbed, hhead, hpong, if_pos hid]
    intro hresult
    cases hresult
  have hhead : called.events.head? = some (.text pingText) := rfl
  have hid : uclObjIsResponseForId pingRequest ≠ (called.heap 0).id := by decide
  rw [Undisturbed]
  simp only [hhead, hping, if_neg hid, hanswered]
  refine ⟨nofun, fun t' ht' => ?_⟩
  obtain rfl := Except.ok.inj ht'
  refine ⟨fun during hevents e he => ?_, nofun, hrest⟩
  have hnone : during = [] := List.append_left_eq_self.mp hevents.symm
  rw [hnone] at he
  cases he

theorem awaitReply_tellsTruth_called : TellsTruth pingPongLib [pongProvider] 3 0 called :=
  awaitReply_tellsTruth pingPongLib [pongProvider] 3 0 called (by decide) (by decide) undisturbed_called

/-- The text of a lone opening brace, which ends before the object does. -/
def malformedText : Message where
  text := [123]
  nul_free := by decide

def malformedLib : Libucl where
  emit _ := pongText
  parse m := if m.text = malformedText.text then none else
    some (.object [("jsonrpc", .string "2.0"), ("result", .string "pong"), ("id", .int 7)])
  fromString s := s

theorem awaitReply_malformed : ¬TellsTruth malformedLib [] 2 0 { pinger with events := [.text malformedText] } :=
  not_tellsTruth_of_malformed [] 1 rfl rfl

end ServiceManager.Wsrpc
