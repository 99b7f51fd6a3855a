import ServiceManager.Wsrpc.Transport

namespace ServiceManager.Wsrpc

theorem bind_eq_error {ε α β : Type} {x : Except ε α} {f : α → Except ε β} {e : ε} (h : x >>= f = .error e) :
    x = .error e ∨ ∃ a, x = .ok a ∧ f a = .error e := by
  cases x with
  | error e' =>
    cases h
    exact Or.inl rfl
  | ok a => exact Or.inr ⟨a, rfl, h⟩

theorem map_eq_ok {ε α β : Type} {x : Except ε α} {f : α → β} {b : β} (h : x.map f = .ok b) :
    ∃ a, x = .ok a ∧ f a = b := by
  cases x with
  | error e => cases h
  | ok a => exact ⟨a, rfl, Except.ok.inj h⟩

/-- A transport that has taken the events `during`. The completions there were keep their
ids and their places in memory. -/
structure Takes (during : List Event) (t t' : Transport) : Prop where
  events_eq : t.events = during ++ t'.events
  next_le : t.next ≤ t'.next
  id_eq : ∀ c < t.next, (t'.heap c).id = (t.heap c).id

namespace Takes

variable {during during' : List Event} {t t' t'' : Transport}

theorem refl (t : Transport) : Takes [] t t where
  events_eq := rfl
  next_le := Nat.le_refl _
  id_eq _ _ := rfl

theorem trans (h : Takes during t t') (h' : Takes during' t' t'') : Takes (during ++ during') t t'' where
  events_eq := by rw [h.events_eq, h'.events_eq, List.append_assoc]
  next_le := Nat.le_trans h.next_le h'.next_le
  id_eq c hlt := (h'.id_eq c (Nat.lt_of_lt_of_le hlt h.next_le)).trans (h.id_eq c hlt)

theorem events_length_le (h : Takes during t t') : t'.events.length ≤ t.events.length := by
  rw [h.events_eq, List.length_append]
  exact Nat.le_add_left _ _

theorem writeObj (lib : Libucl) (t : Transport) (obj : Ucl) : Takes [] t (t.writeObj lib obj) where
  events_eq := rfl
  next_le := Nat.le_refl _
  id_eq _ _ := rfl

theorem sendError (lib : Libucl) (t : Transport) (id : Int32) (err : Error) :
    Takes [] t (t.sendError lib id err) := by
  unfold Transport.sendError
  split
  · exact refl t
  · exact writeObj lib t _

theorem sendMessage (lib : Libucl) (t : Transport) (method : String) (params : Option Ucl) (delegated : Bool) :
    Takes [] t (t.sendMessage lib method params delegated).2 where
  events_eq := rfl
  next_le := Nat.le_succ _
  id_eq c hlt := by simp [Transport.sendMessage, Nat.ne_of_lt hlt]

theorem poll (t : Transport) (comp : Nat) : Takes t.events.head?.toList t (t.poll comp) where
  events_eq := by cases h : t.events <;> simp [Transport.poll, h]
  next_le := Nat.le_refl _
  id_eq c _ := by
    by_cases hc : c = comp <;> simp [Transport.poll, Transport.setErr, hc]

theorem completeWith {comp : Nat} {obj : Ucl} (h : t.completeWith comp obj = .ok t') : Takes [] t t' := by
  unfold Transport.completeWith at h
  split at h
  · cases h
  · rename_i c hcompleted
    obtain rfl := Except.ok.inj h
    have hid : c.id = (t.heap comp).id := by
      unfold Transport.completed at hcompleted
      split at hcompleted
      · obtain rfl := Option.some_inj.mp hcompleted
        rfl
      · obtain ⟨err, _, rfl⟩ := Option.map_eq_some_iff.mp hcompleted
        rfl
    refine ⟨rfl, Nat.le_refl _, fun a _ => ?_⟩
    by_cases ha : a = comp
    · subst ha
      simpa using hid
    · simp [ha]

end Takes

/-- Whatever is waited for, the transport only takes events. -/
def Waits (await : Nat → Transport → Except Stuck (Bool × Transport)) : Prop :=
  ∀ comp t ret t', await comp t = .ok (ret, t') → ∃ during, Takes during t t'

section Process

variable {lib : Libucl} {await : Nat → Transport → Except Stuck (Bool × Transport)} (hwaits : Waits await)

include hwaits

theorem Handler.run_takes (h : Handler) {t t' : Transport} {a : Answer} (hrun : h.run lib await t = .ok (a, t')) :
    ∃ during, Takes during t t' := by
  induction h generalizing t with
  | answer a' =>
    obtain ⟨rfl, rfl⟩ := Prod.mk.inj (Except.ok.inj hrun)
    exact ⟨[], Takes.refl t⟩
  | call method params next ih =>
    obtain ⟨⟨ret, t₂⟩, hawait, hnext⟩ := bind_eq_ok hrun
    obtain ⟨during, hwait⟩ := hwaits _ _ _ _ hawait
    obtain ⟨during', hrest⟩ := ih _ _ _ hnext
    exact ⟨_, ((Takes.sendMessage lib t method params false).trans hwait).trans hrest⟩
  | send method params next ih =>
    obtain ⟨during, hrest⟩ := ih hrun
    exact ⟨_, (Takes.sendMessage lib t method params true).trans hrest⟩

/-- By induction on the providers. -/
theorem handleRequest_takes {svcs : List Provider} {req : Req} {t t' : Transport}
    (h : handleRequest lib await svcs req t = .ok t') : ∃ during, Takes during t t' := by
  induction svcs generalizing req t with
  | nil =>
    obtain rfl := Except.ok.inj h
    exact ⟨[], Takes.sendError lib t _ _⟩
  | cons svc svcs ih =>
    obtain ⟨⟨a, t₁⟩, hrun, hrest⟩ := bind_eq_ok h
    obtain ⟨during, htakes⟩ := Handler.run_takes hwaits _ hrun
    simp only at hrest
    split at hrest
    · obtain ⟨during', htakes'⟩ := ih hrest
      exact ⟨_, htakes.trans htakes'⟩
    · split at hrest
      · obtain rfl := Except.ok.inj hrest
        exact ⟨_, htakes.trans (Takes.sendError lib t₁ _ _)⟩
      · split at hrest
        · obtain rfl := Except.ok.inj hrest
          exact ⟨_, htakes.trans (Takes.writeObj lib t₁ _)⟩
        · obtain rfl := Except.ok.inj hrest
          exact ⟨_, htakes⟩

theorem processMessageWith_takes {svcs : List Provider} {obj : Ucl} {t t' : Transport}
    (h : processMessageWith lib await svcs t obj = .ok t') : ∃ during, Takes during t t' := by
  simp only [processMessageWith] at h
  split at h
  · split at h
    · exact ⟨[], Takes.completeWith h⟩
    · obtain rfl := Except.ok.inj h
      exact ⟨[], rfl, Nat.le_refl _, fun _ _ => rfl⟩
  · split at h
    · split at h
      · exact handleRequest_takes hwaits h
      · exact handleRequest_takes hwaits h
      · obtain rfl := Except.ok.inj h
        exact ⟨[], Takes.refl t⟩
    · obtain rfl := Except.ok.inj h
      exact ⟨[], Takes.refl t⟩

end Process

/-- What a turn of the loop in `awaitReply` comes to: `x` is what the wait returns. -/
inductive Turn (lib : Libucl) (svcs : List Provider) (fuel comp : Nat) (t : Transport)
    (x : Except Stuck (Bool × Transport)) : Prop
  | nothing (hhead : ∀ e ∈ t.events.head?, e ≠ .part ∧ ∀ m, e ≠ .text m) (hx : x = .ok (false, t.poll comp))
  | part (hhead : t.events.head? = some .part) (hx : x = awaitReply lib svcs fuel comp (t.poll comp))
  | malformed (m : Message) (hhead : t.events.head? = some (.text m)) (hparse : lib.parse m = none)
    (hx : x = .ok (true, t.poll comp))
  | response (m : Message) (obj : Ucl) (hhead : t.events.head? = some (.text m)) (hparse : lib.parse m = some obj)
    (hid : uclObjIsResponseForId obj = (t.heap comp).id)
    (hx : x = ((t.poll comp).completeWith comp obj).map fun t => (true, t))
  | other (m : Message) (obj : Ucl) (hhead : t.events.head? = some (.text m)) (hparse : lib.parse m = some obj)
    (hid : uclObjIsResponseForId obj ≠ (t.heap comp).id)
    (hx : x = processMessageWith lib (awaitReply lib svcs fuel) svcs (t.poll comp) obj >>= fun t =>
      if t.received.any fun obj => uclObjIsResponseForId obj = (t.heap comp).id then .error .undefined
      else awaitReply lib svcs fuel comp t)

theorem awaitReply_turn (lib : Libucl) (svcs : List Provider) (fuel comp : Nat) (t : Transport) :
    Turn lib svcs fuel comp t (awaitReply lib svcs (fuel + 1) comp t) := by
  cases hhead : t.events.head? with
  | none => exact .nothing (by simp [hhead]) (by simp only [awaitReply, hhead])
  | some e =>
    cases e with
    | failed | timeout | hangup => exact .nothing (by simp [hhead]) (by simp only [awaitReply, hhead])
    | part => exact .part hhead (by simp only [awaitReply, hhead])
    | text m =>
      cases hparse : lib.parse m with
      | none => exact .malformed m hhead hparse (by simp only [awaitReply, hhead, hparse])
      | some obj =>
        by_cases hid : uclObjIsResponseForId obj = (t.heap comp).id
        · exact .response m obj hhead hparse hid (by simp only [awaitReply, hhead, hparse, if_pos hid])
        · exact .other m obj hhead hparse hid (by simp only [awaitReply, hhead, hparse, if_neg hid])

/-- By induction on the fuel, which bounds the waits that are nested too. -/
theorem awaitReply_waits (lib : Libucl) (svcs : List Provider) (fuel : Nat) : Waits (awaitReply lib svcs fuel) := by
  induction fuel with
  | zero =>
    intro comp t ret t' h
    cases h
  | succ fuel ih =>
    intro comp t ret t' h
    have hpoll := Takes.poll t comp
    cases awaitReply_turn lib svcs fuel comp t with
    | nothing _ hx | malformed _ _ _ hx =>
      obtain ⟨-, rfl⟩ := Prod.mk.inj (Except.ok.inj (h.symm.trans hx))
      exact ⟨_, hpoll⟩
    | part _ hx =>
      obtain ⟨during, hrest⟩ := ih _ _ _ _ (hx.symm.trans h)
      exact ⟨_, hpoll.trans hrest⟩
    | response _ _ _ _ _ hx =>
      obtain ⟨t₁, hcomplete, heq⟩ := map_eq_ok (hx.symm.trans h)
      obtain ⟨-, rfl⟩ := Prod.mk.inj heq
      exact ⟨_, hpoll.trans (Takes.completeWith hcomplete)⟩
    | other _ _ _ _ _ hx =>
      obtain ⟨t₁, hprocess, h⟩ := bind_eq_ok (hx.symm.trans h)
      obtain ⟨during, htakes⟩ := processMessageWith_takes ih hprocess
      split at h
      · cases h
      · obtain ⟨during', hrest⟩ := ih _ _ _ _ h
        exact ⟨_, (hpoll.trans htakes).trans hrest⟩

end ServiceManager.Wsrpc
