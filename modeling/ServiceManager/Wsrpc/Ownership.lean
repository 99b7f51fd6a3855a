import ServiceManager.Refs
import ServiceManager.Wsrpc.Await

namespace ServiceManager.Wsrpc

section Taken

variable (lib : Libucl) (await : Nat → Transport → Except Stuck (Bool × Transport))

/-- Does one of the providers take the request? The next is asked after -1. -/
def takes : List Provider → Req → Transport → Bool
  | [], _, _ => false
  | svc :: svcs, req, t =>
    match (svc t req).run lib await t with
    | .error _ => false
    | .ok (a, t) => if a.code = -1 then takes svcs { req with result := a.result, err := a.err } t else true

def takenWith (svcs : List Provider) (t : Transport) (obj : Ucl) : Bool :=
  if uclObjIsResponseForId obj ≠ 0 then false
  else if uclObjIsRequest obj then
    match obj.lookup "id" with
    | none | some (.int _) => takes lib await svcs (requestOf obj) t
    | some _ => false
  else false

end Taken

/-- Is the message a request that a provider takes? -/
def taken (lib : Libucl) (svcs : List Provider) (t : Transport) (obj : Ucl) : Bool :=
  takenWith lib (awaitReply lib svcs (t.events.length + 1)) svcs t obj

section Agree

variable {lib : Libucl} {await await' : Nat → Transport → Except Stuck (Bool × Transport)} {n : Nat}
  (hwaits : Waits await') (hagree : Agree await await' n)

include hwaits hagree

theorem takes_agree {svcs : List Provider} {req : Req} {t : Transport} (ht : t.events.length < n) :
    takes lib await svcs req t = takes lib await' svcs req t := by
  induction svcs generalizing req t with
  | nil => rfl
  | cons svc svcs ih =>
    rw [takes, takes, Handler.run_agree hwaits hagree _ ht]
    cases hrun : (svc t req).run lib await' t with
    | error stuck => rfl
    | ok result =>
      obtain ⟨a, t₁⟩ := result
      obtain ⟨during, htakes⟩ := Handler.run_takes hwaits _ hrun
      simp only [ih (Nat.lt_of_le_of_lt htakes.events_length_le ht)]

theorem takenWith_agree {svcs : List Provider} {t : Transport} {obj : Ucl} (ht : t.events.length < n) :
    takenWith lib await svcs t obj = takenWith lib await' svcs t obj := by
  unfold takenWith
  rw [takes_agree hwaits hagree ht]

end Agree

theorem takenWith_eq_taken {lib : Libucl} {svcs : List Provider} {t : Transport} {obj : Ucl} {fuel : Nat}
    (hfuel : t.events.length < fuel) : takenWith lib (awaitReply lib svcs fuel) svcs t obj = taken lib svcs t obj :=
  (takenWith_agree (awaitReply_waits lib svcs fuel) (awaitReply_agree lib svcs hfuel) (Nat.lt_succ_self _)).symm

/-- A transport with the counts of the message objects. `received` has the addresses of those
that the transport has received, and `calls` what `processMessage` was given so far and when. -/
structure Counted where
  transport : Transport
  refs : Refs := {}
  received : List Nat := []
  calls : List (Transport × Ucl) := []

namespace Counted

section Process

/- A message is given with its address. The rest is as without the counts. -/
variable (lib : Libucl) (await : Nat → Counted → Except Stuck (Bool × Counted))

def completeWith (c : Counted) (comp addr : Nat) (obj : Ucl) : Except Stuck Counted :=
  (c.transport.completeWith comp obj).map fun t => { c with transport := t, refs := c.refs.unref addr }

def run : Handler → Counted → Except Stuck (Answer × Counted)
  | .answer a, c => .ok (a, c)
  | .call method params next, c =>
    let (comp, t) := c.transport.sendMessage lib method params false
    await comp { c with transport := t } >>= fun (ret, c) =>
      run (next ret (c.transport.heap comp).err (c.transport.heap comp).result) c
  | .send method params next, c => run next { c with transport := (c.transport.sendMessage lib method params true).2 }

/-- A request that a provider takes is not released: the loop over them returns. -/
def handleRequest (addr : Nat) : List Provider → Req → Counted → Except Stuck Counted
  | [], req, c =>
    .ok { c with transport := c.transport.sendError lib req.id Error.methodNotFound, refs := c.refs.unref addr }
  | svc :: svcs, req, c =>
    run lib await (svc c.transport req) c >>= fun (a, c) =>
      if a.code = -1 then handleRequest addr svcs { req with result := a.result, err := a.err } c
      else if a.code = 1 then .ok { c with transport := c.transport.sendError lib req.id a.err }
      else if req.id ≠ 0 then .ok { c with transport := c.transport.sendReply lib req.id a.result }
      else .ok c

def processMessageWith (svcs : List Provider) (c : Counted) (addr : Nat) (obj : Ucl) : Except Stuck Counted :=
  let c := { c with calls := c.calls ++ [(c.transport, obj)] }
  let t := c.transport
  let resp := uclObjIsResponseForId obj
  if resp ≠ 0 then
    match t.completions.find? fun comp => (t.heap comp).id = resp with
    | some comp => c.completeWith comp addr obj
    | none => .ok { c with transport := { t with received := t.received ++ [obj] }, received := c.received ++ [addr] }
  else if uclObjIsRequest obj then
    match obj.lookup "id" with
    | none | some (.int _) => handleRequest lib await addr svcs (requestOf obj) c
    | some _ => .ok { c with refs := c.refs.unref addr }
  else .ok { c with refs := c.refs.unref addr }

end Process

/-- A text that is read becomes an object with one reference. -/
def awaitReply (lib : Libucl) (svcs : List Provider) : Nat → Nat → Counted → Except Stuck (Bool × Counted)
  | 0, _, _ => .error .outOfFuel
  | fuel + 1, comp, c =>
    let polled := { c with transport := c.transport.poll comp }
    match c.transport.events.head? with
    | none | some .failed | some .timeout | some .hangup => .ok (false, polled)
    | some .part => awaitReply lib svcs fuel comp polled
    | some (.text m) =>
      match lib.parse m with
      | none => .ok (true, polled)
      | some obj =>
        let parsed := { polled with refs := c.refs.alloc }
        if uclObjIsResponseForId obj = (c.transport.heap comp).id then
          (parsed.completeWith comp c.refs.next obj).map fun c => (true, c)
        else
          processMessageWith lib (awaitReply lib svcs fuel) svcs parsed c.refs.next obj >>= fun c =>
            if c.transport.received.any fun obj => uclObjIsResponseForId obj = (c.transport.heap comp).id then
              .error .undefined
            else awaitReply lib svcs fuel comp c

def processMessage (lib : Libucl) (svcs : List Provider) (c : Counted) (addr : Nat) (obj : Ucl) :
    Except Stuck Counted :=
  processMessageWith lib (awaitReply lib svcs (c.transport.events.length + 1)) svcs c addr obj

def readyForRead (lib : Libucl) (svcs : List Provider) (c : Counted) (m : Message) : Except Stuck Counted :=
  match lib.parse m with
  | none => .ok c
  | some obj => processMessage lib svcs { c with refs := c.refs.alloc } c.refs.next obj

section Forget

/-- Both waits do the same but for the counts. -/
def Forgets (await : Nat → Transport → Except Stuck (Bool × Transport))
    (await' : Nat → Counted → Except Stuck (Bool × Counted)) : Prop :=
  ∀ comp c, (await' comp c).map (fun r => (r.1, r.2.transport)) = await comp c.transport

theorem map_bind_eq {ε α β γ δ : Type} {x : Except ε α} {y : Except ε β} {p : α → β} {f : α → Except ε γ}
    {g : β → Except ε δ} {q : γ → δ} (hx : x.map p = y) (hfg : ∀ a, (f a).map q = g (p a)) :
    (x >>= f).map q = y >>= g := by
  subst hx
  cases x with
  | error e => rfl
  | ok a => exact hfg a

theorem eq_ok_of_map {ε α β : Type} {x : Except ε α} {y : Except ε β} {f : α → β} {a : α} (hx : x = .ok a)
    (hmap : x.map f = y) : y = .ok (f a) := by
  subst hx
  exact hmap.symm

theorem Forgets.ok {await : Nat → Transport → Except Stuck (Bool × Transport)}
    {await' : Nat → Counted → Except Stuck (Bool × Counted)} (hforgets : Forgets await await') {comp : Nat}
    {c c' : Counted} {ret : Bool} (h : await' comp c = .ok (ret, c')) :
    await comp c.transport = .ok (ret, c'.transport) := by
  rw [← hforgets comp c, h]
  rfl

theorem completeWith_forgets (c : Counted) (comp addr : Nat) (obj : Ucl) :
    (c.completeWith comp addr obj).map transport = c.transport.completeWith comp obj := by
  unfold completeWith
  cases c.transport.completeWith comp obj <;> rfl

variable {lib : Libucl} {await : Nat → Transport → Except Stuck (Bool × Transport)}
  {await' : Nat → Counted → Except Stuck (Bool × Counted)} (hforgets : Forgets await await')

include hforgets

theorem run_forgets (h : Handler) (c : Counted) :
    (run lib await' h c).map (fun r => (r.1, r.2.transport)) = h.run lib await c.transport := by
  induction h generalizing c with
  | answer a => rfl
  | call method params next ih => exact map_bind_eq (hforgets _ _) fun r => ih _ _ _ r.2
  | send method params next ih => exact ih _

theorem handleRequest_forgets (addr : Nat) (svcs : List Provider) (req : Req) (c : Counted) :
    (handleRequest lib await' addr svcs req c).map transport = Wsrpc.handleRequest lib await svcs req c.transport := by
  induction svcs generalizing req c with
  | nil => rfl
  | cons svc svcs ih =>
    apply map_bind_eq (run_forgets hforgets _ c)
    rintro ⟨a, c₁⟩
    simp only
    split
    · exact ih _ c₁
    · split
      · rfl
      · split <;> rfl

theorem processMessageWith_forgets (svcs : List Provider) (c : Counted) (addr : Nat) (obj : Ucl) :
    (processMessageWith lib await' svcs c addr obj).map transport =
      Wsrpc.processMessageWith lib await svcs c.transport obj := by
  have hrequest (c : Counted) : (handleRequest lib await' addr svcs (requestOf obj) c).map transport =
      Wsrpc.handleRequest lib await svcs (requestOf obj) c.transport :=
    handleRequest_forgets hforgets addr svcs (requestOf obj) c
  simp only [processMessageWith, Wsrpc.processMessageWith]
  split
  · cases c.transport.completions.find? fun comp => (c.transport.heap comp).id = uclObjIsResponseForId obj with
    | none => rfl
    | some comp => exact completeWith_forgets _ comp addr obj
  · split
    · cases obj.lookup "id" with
      | none => exact hrequest _
      | some id => cases id <;> first | exact hrequest _ | rfl
    · rfl

end Forget

theorem awaitReply_forgets (lib : Libucl) (svcs : List Provider) (fuel : Nat) :
    Forgets (Wsrpc.awaitReply lib svcs fuel) (awaitReply lib svcs fuel) := by
  induction fuel with
  | zero => exact fun _ _ => rfl
  | succ fuel ih =>
    intro comp c
    cases hhead : c.transport.events.head? with
    | none => simp only [awaitReply, Wsrpc.awaitReply, hhead, Except.map]
    | some e =>
      cases e with
      | failed | timeout | hangup => simp only [awaitReply, Wsrpc.awaitReply, hhead, Except.map]
      | part => simpa only [awaitReply, Wsrpc.awaitReply, hhead] using ih comp _
      | text m =>
        cases hparse : lib.parse m with
        | none => simp only [awaitReply, Wsrpc.awaitReply, hhead, hparse, Except.map]
        | some obj =>
          simp only [awaitReply, Wsrpc.awaitReply, hhead, hparse]
          split
          · rw [← completeWith_forgets { c with transport := c.transport.poll comp, refs := c.refs.alloc } comp
              c.refs.next obj]
            cases completeWith _ comp c.refs.next obj <;> rfl
          · apply map_bind_eq (processMessageWith_forgets ih svcs _ _ obj)
            intro c₁
            split
            · rfl
            · exact ih comp c₁

/-- The transport is what it is without the counts. -/
theorem processMessage_forgets (lib : Libucl) (svcs : List Provider) (c : Counted) (addr : Nat) (obj : Ucl) :
    (processMessage lib svcs c addr obj).map transport = Wsrpc.processMessage lib svcs c.transport obj :=
  processMessageWith_forgets (awaitReply_forgets lib svcs _) svcs c addr obj

/-- How many of the requests were taken. -/
def takenCalls (lib : Libucl) (svcs : List Provider) (c : Counted) : Nat :=
  c.calls.countP fun call => taken lib svcs call.1 call.2

/-- What happens to a transport while no message is handled, or between the beginning and the end of that: objects
that there were keep their references, and of new ones those are left that are received or were taken. -/
structure Balanced (lib : Libucl) (svcs : List Provider) (c c' : Counted) : Prop where
  next_le : c.refs.next ≤ c'.refs.next
  count_eq : ∀ a < c.refs.next, c'.refs.count a = c.refs.count a
  received_eq : ∃ new, c'.received = c.received ++ new ∧ ∀ a ∈ new, c.refs.next ≤ a
  parallel : c'.received.length + c.transport.received.length = c.received.length + c'.transport.received.length
  balance : c'.refs.live.card + c.received.length + c.takenCalls lib svcs =
    c.refs.live.card + c'.received.length + c'.takenCalls lib svcs

namespace Balanced

variable {lib : Libucl} {svcs : List Provider} {c c' c'' : Counted}

/-- Only the transport changed, but not what it has received. -/
theorem of_transport (lib : Libucl) (svcs : List Provider) (c : Counted) {t : Transport}
    (h : t.received = c.transport.received) :
    Balanced lib svcs c { c with transport := t } where
  next_le := Nat.le_refl _
  count_eq _ _ := rfl
  received_eq := ⟨[], (List.append_nil _).symm, fun _ hmem => nomatch hmem⟩
  parallel := by rw [h]
  balance := rfl

theorem refl (c : Counted) : Balanced lib svcs c c :=
  of_transport lib svcs c rfl

theorem trans (h : Balanced lib svcs c c') (h' : Balanced lib svcs c' c'') : Balanced lib svcs c c'' where
  next_le := Nat.le_trans h.next_le h'.next_le
  count_eq a ha := (h'.count_eq a (Nat.lt_of_lt_of_le ha h.next_le)).trans (h.count_eq a ha)
  received_eq := by
    obtain ⟨new, hnew, hge⟩ := h.received_eq
    obtain ⟨new', hnew', hge'⟩ := h'.received_eq
    refine ⟨new ++ new', by rw [hnew', hnew, List.append_assoc], fun a hmem => ?_⟩
    obtain hmem | hmem := List.mem_append.mp hmem
    · exact hge a hmem
    · exact Nat.le_trans h.next_le (hge' a hmem)
  parallel := by
    have hfirst := h.parallel
    have hsecond := h'.parallel
    omega
  balance := by
    have hfirst := h.balance
    have hsecond := h'.balance
    omega

end Balanced

/-- What `processMessage` does last with the object: it is released, received, or left where it is. -/
inductive Outcome (c : Counted) (addr : Nat) : Bool → Counted → Prop
  | released (t : Transport) (h : t.received = c.transport.received) :
      Outcome c addr false { c with transport := t, refs := c.refs.unref addr }
  | received (obj : Ucl) :
      Outcome c addr false { c with
        transport := { c.transport with received := c.transport.received ++ [obj] }, received := c.received ++ [addr] }
  | left (t : Transport) (h : t.received = c.transport.received) : Outcome c addr true { c with transport := t }

theorem completeWith_received {t t' : Transport} {comp : Nat} {obj : Ucl} (h : t.completeWith comp obj = .ok t') :
    t'.received = t.received := by
  unfold Transport.completeWith at h
  split at h
  · cases h
  · obtain rfl := Except.ok.inj h
    rfl

theorem sendError_received (lib : Libucl) (t : Transport) (id : Int32) (err : Error) :
    (t.sendError lib id err).received = t.received := by
  unfold Transport.sendError
  split <;> rfl

theorem completeWith_outcome {c c' : Counted} {comp addr : Nat} {obj : Ucl}
    (h : c.completeWith comp addr obj = .ok c') :
    Outcome c addr false c' := by
  obtain ⟨t, hcomplete, rfl⟩ := map_eq_ok h
  exact .released t (completeWith_received hcomplete)

section Process

variable {lib : Libucl} {svcs : List Provider} {await : Nat → Transport → Except Stuck (Bool × Transport)}
  {await' : Nat → Counted → Except Stuck (Bool × Counted)} {n : Nat} (hforgets : Forgets await await')
  (hwaits : Waits await)
  (hbalanced : ∀ comp c ret c', c.transport.events.length < n → await' comp c = .ok (ret, c') → Balanced lib svcs c c')

include hforgets hwaits hbalanced

/-- A handler leaves the balance, and runs as it does without the counts. -/
theorem run_balanced (h : Handler) {c c' : Counted} {a : Answer} (ht : c.transport.events.length < n)
    (hrun : run lib await' h c = .ok (a, c')) : Balanced lib svcs c c' := by
  induction h generalizing c with
  | answer a' =>
    obtain ⟨rfl, rfl⟩ := Prod.mk.inj (Except.ok.inj hrun)
    exact .refl c
  | call method params next ih =>
    obtain ⟨⟨ret, c₁⟩, hawait, hnext⟩ := bind_eq_ok hrun
    have hsent := Balanced.of_transport lib svcs c
      (t := (c.transport.sendMessage lib method params false).2) rfl
    have hwait := hbalanced _ { c with transport := (c.transport.sendMessage lib method params false).2 } ret
        c₁ ht hawait
    obtain ⟨during, htakes⟩ := hwaits _ _ _ _ (hforgets.ok hawait)
    exact (hsent.trans hwait).trans (ih _ _ _ (Nat.lt_of_le_of_lt htakes.events_length_le ht) hnext)
  | send method params next ih =>
    have hsent := Balanced.of_transport lib svcs c
      (t := (c.transport.sendMessage lib method params true).2) rfl
    exact hsent.trans (ih ht hrun)

theorem handleRequest_outcome {addr : Nat} {asked : List Provider} {req : Req} {c c' : Counted}
    (ht : c.transport.events.length < n) (h : handleRequest lib await' addr asked req c = .ok c') :
    ∃ c₁, Balanced lib svcs c c₁ ∧ Outcome c₁ addr (takes lib await asked req c.transport) c' := by
  induction asked generalizing req c with
  | nil =>
    obtain rfl := Except.ok.inj h
    exact ⟨c, .refl c, .released _ (sendError_received lib c.transport _ _)⟩
  | cons svc asked ih =>
    obtain ⟨⟨a, c₁⟩, hrun, hrest⟩ := bind_eq_ok h
    have hforget := eq_ok_of_map hrun (run_forgets hforgets _ c)
    obtain ⟨during, htakes⟩ := Handler.run_takes hwaits _ hforget
    have hrunBalanced := run_balanced hforgets hwaits hbalanced _ ht hrun
    rw [takes, hforget]
    simp only at hrest ⊢
    split at hrest
    · rename_i hcode
      obtain ⟨c₂, hbalance, houtcome⟩ := ih (Nat.lt_of_le_of_lt htakes.events_length_le ht) hrest
      rw [if_pos hcode]
      exact ⟨c₂, hrunBalanced.trans hbalance, houtcome⟩
    · rename_i hcode
      rw [if_neg hcode]
      refine ⟨c₁, hrunBalanced, ?_⟩
      split at hrest
      · obtain rfl := Except.ok.inj hrest
        exact .left _ (sendError_received lib c₁.transport _ _)
      · split at hrest
        · obtain rfl := Except.ok.inj hrest
          exact .left _ rfl
        · obtain rfl := Except.ok.inj hrest
          exact .left _ rfl

theorem processMessageWith_outcome {c c' : Counted} {addr : Nat} {obj : Ucl} (ht : c.transport.events.length < n)
    (h : processMessageWith lib await' svcs c addr obj = .ok c') :
    ∃ c₁, Balanced lib svcs { c with calls := c.calls ++ [(c.transport, obj)] } c₁ ∧
      Outcome c₁ addr (takenWith lib await svcs c.transport obj) c' := by
  let called := { c with calls := c.calls ++ [(c.transport, obj)] }
  simp only [processMessageWith] at h
  unfold takenWith
  split at h
  · rename_i hresp
    rw [if_pos hresp]
    refine ⟨_, .refl _, ?_⟩
    split at h
    · exact completeWith_outcome h
    · obtain rfl := Except.ok.inj h
      exact .received obj
  · rename_i hresp
    rw [if_neg hresp]
    split at h
    · rename_i hreq
      rw [if_pos hreq]
      have hrequest : handleRequest lib await' addr svcs (requestOf obj) called = .ok c' →
          ∃ c₁, Balanced lib svcs called c₁ ∧ Outcome c₁ addr (takes lib await svcs (requestOf obj) c.transport) c' :=
        handleRequest_outcome hforgets hwaits hbalanced ht
      cases hid : obj.lookup "id" with
      | none =>
        rw [hid] at h
        exact hrequest h
      | some id =>
        rw [hid] at h
        cases id with
        | int id => exact hrequest h
        | null | boolean | float | string | array | object =>
          obtain rfl := Except.ok.inj h
          exact ⟨_, .refl _, .released _ rfl⟩
    · rename_i hreq
      rw [if_neg hreq]
      obtain rfl := Except.ok.inj h
      exact ⟨_, .refl _, .released _ rfl⟩

end Process

section Handled

variable {lib : Libucl} {svcs : List Provider} {c c₁ c' : Counted} {addr : Nat} {b : Bool}

theorem takenCalls_append (lib : Libucl) (svcs : List Provider) (c : Counted) (t : Transport) (obj : Ucl) :
    ({ c with calls := c.calls ++ [(t, obj)] } : Counted).takenCalls lib svcs =
      c.takenCalls lib svcs + (taken lib svcs t obj).toNat := by
  unfold takenCalls
  rw [List.countP_append, List.countP_singleton]
  cases taken lib svcs t obj <;> rfl

/-- The object is handled from its first reference to its end. -/
theorem Outcome.balanced {called : Counted} (h : Balanced lib svcs called c₁) (houtcome : Outcome c₁ c.refs.next b c')
    (hrefs : called.refs = c.refs.alloc) (hreceived : called.received = c.received)
    (htransport : called.transport.received = c.transport.received)
    (htaken : called.takenCalls lib svcs = c.takenCalls lib svcs + b.toNat) : Balanced lib svcs c c' := by
  have hnext : c.refs.next + 1 ≤ c₁.refs.next := by
    have hle := h.next_le
    rwa [hrefs] at hle
  have hcount : ∀ a < c.refs.next, c₁.refs.count a = c.refs.count a := by
    intro a ha
    rw [h.count_eq a (by rw [hrefs]; exact Nat.lt_succ_of_lt ha), hrefs, Refs.count_alloc ha]
  have hone : c₁.refs.count c.refs.next = 1 := by
    rw [h.count_eq c.refs.next (by rw [hrefs]; exact Nat.lt_succ_self _), hrefs, Refs.count_alloc_next]
  obtain ⟨new, hnew, hge⟩ := h.received_eq
  have hgeNext : ∀ a ∈ new, c.refs.next ≤ a := by
    intro a hmem
    have hle := hge a hmem
    rw [hrefs] at hle
    exact Nat.le_of_succ_le hle
  rw [hreceived] at hnew
  have hparallel := h.parallel
  rw [htransport, hreceived] at hparallel
  have hbalance := h.balance
  rw [hrefs, hreceived, htaken, Refs.card_live_alloc] at hbalance
  cases houtcome with
  | released t ht =>
    have hcard := Refs.card_live_unref (by omega) hone
    refine ⟨?_, ?_, ⟨new, hnew, hgeNext⟩, ?_, ?_⟩
    · exact Nat.le_of_succ_le hnext
    · intro a ha
      exact (Refs.count_unref (Nat.ne_of_lt ha)).trans (hcount a ha)
    · rw [ht]
      exact hparallel
    · change (c₁.refs.unref c.refs.next).live.card + _ + _ = _ + c₁.received.length + c₁.takenCalls lib svcs
      simp only [Bool.toNat_false] at hbalance
      omega
  | received obj =>
    refine ⟨Nat.le_of_succ_le hnext, hcount, ⟨new ++ [c.refs.next], ?_, ?_⟩, ?_, ?_⟩
    · rw [hnew, List.append_assoc]
    · intro a hmem
      obtain hmem | hmem := List.mem_append.mp hmem
      · exact hgeNext a hmem
      · exact Nat.le_of_eq (List.mem_singleton.mp hmem).symm
    · simp only [List.length_append, List.length_singleton]
      omega
    · change c₁.refs.live.card + _ + _ = _ + (c₁.received ++ [c.refs.next]).length + c₁.takenCalls lib svcs
      simp only [List.length_append, List.length_singleton, Bool.toNat_false] at hbalance ⊢
      omega
  | left t ht =>
    refine ⟨Nat.le_of_succ_le hnext, hcount, ⟨new, hnew, hgeNext⟩, ?_, ?_⟩
    · rw [ht]
      exact hparallel
    · change c₁.refs.live.card + _ + _ = _ + c₁.received.length + c₁.takenCalls lib svcs
      simp only [Bool.toNat_true] at hbalance
      omega

end Handled

/-- What a turn of the loop in `awaitReply` comes to: `x` is what the wait returns. -/
inductive Turn (lib : Libucl) (svcs : List Provider) (fuel comp : Nat) (c : Counted)
    (x : Except Stuck (Bool × Counted)) : Prop
  | nothing (ret : Bool) (hx : x = .ok (ret, { c with transport := c.transport.poll comp }))
  | part (e : Event) (hhead : c.transport.events.head? = some e)
    (hx : x = awaitReply lib svcs fuel comp { c with transport := c.transport.poll comp })
  | response (obj : Ucl)
    (hx : x = ({ c with transport := c.transport.poll comp, refs := c.refs.alloc }.completeWith comp
      c.refs.next obj).map
      fun c => (true, c))
  | other (e : Event) (obj : Ucl) (hhead : c.transport.events.head? = some e)
    (hx : x = processMessageWith lib (awaitReply lib svcs fuel) svcs
        { c with transport := c.transport.poll comp, refs := c.refs.alloc } c.refs.next obj >>= fun c =>
      if c.transport.received.any fun obj => uclObjIsResponseForId obj = (c.transport.heap comp).id then
        .error .undefined
      else awaitReply lib svcs fuel comp c)

theorem awaitReply_turn (lib : Libucl) (svcs : List Provider) (fuel comp : Nat) (c : Counted) :
    Turn lib svcs fuel comp c (awaitReply lib svcs (fuel + 1) comp c) := by
  cases hhead : c.transport.events.head? with
  | none => exact .nothing false (by simp only [awaitReply, hhead])
  | some e =>
    cases e with
    | failed | timeout | hangup => exact .nothing false (by simp only [awaitReply, hhead])
    | part => exact .part _ hhead (by simp only [awaitReply, hhead])
    | text m =>
      cases hparse : lib.parse m with
      | none => exact .nothing true (by simp only [awaitReply, hhead, hparse])
      | some obj =>
        by_cases hid : uclObjIsResponseForId obj = (c.transport.heap comp).id
        · exact .response obj (by simp only [awaitReply, hhead, hparse, if_pos hid])
        · exact .other _ obj hhead (by simp only [awaitReply, hhead, hparse, if_neg hid])

/-- Whatever the wait reads is handled from its first reference to its end. -/
theorem awaitReply_balanced (lib : Libucl) (svcs : List Provider) (fuel : Nat) : ∀ comp c ret c',
    c.transport.events.length < fuel → awaitReply lib svcs fuel comp c = .ok (ret, c') → Balanced lib svcs c c' := by
  induction fuel with
  | zero => exact fun _ _ _ _ ht => absurd ht (Nat.not_lt_zero _)
  | succ fuel ih =>
    intro comp c ret c' ht h
    have hpoll := Balanced.of_transport lib svcs c (t := c.transport.poll comp) rfl
    let parsed : Counted := { c with transport := c.transport.poll comp, refs := c.refs.alloc }
    cases awaitReply_turn lib svcs fuel comp c with
    | nothing _ hx =>
      obtain ⟨-, rfl⟩ := Prod.mk.inj (Except.ok.inj (h.symm.trans hx))
      exact hpoll
    | part _ hhead hx => exact hpoll.trans (ih comp _ ret c' (poll_events_lt comp hhead ht) (hx.symm.trans h))
    | response obj hx =>
      obtain ⟨c₁, hcomplete, heq⟩ := map_eq_ok (hx.symm.trans h)
      obtain ⟨-, rfl⟩ := Prod.mk.inj heq
      exact Outcome.balanced (.refl parsed) (completeWith_outcome hcomplete) rfl rfl rfl rfl
    | other _ obj hhead hx =>
      have hlt := poll_events_lt comp hhead ht
      have hforgets := awaitReply_forgets lib svcs fuel
      have hwaits := awaitReply_waits lib svcs fuel
      obtain ⟨c₂, hprocess, hrest⟩ := bind_eq_ok (hx.symm.trans h)
      obtain ⟨c₁, hbalanced, houtcome⟩ := processMessageWith_outcome hforgets hwaits ih hlt hprocess
      rw [takenWith_eq_taken hlt] at houtcome
      have hhandled : Balanced lib svcs c c₂ :=
        Outcome.balanced hbalanced houtcome rfl rfl rfl (takenCalls_append lib svcs parsed _ obj)
      split at hrest
      · cases hrest
      · have hforget := eq_ok_of_map hprocess (processMessageWith_forgets hforgets svcs parsed c.refs.next obj)
        obtain ⟨during, htakes⟩ := processMessageWith_takes hwaits hforget
        exact hhandled.trans (ih comp c₂ ret c' (Nat.lt_of_le_of_lt htakes.events_length_le hlt) hrest)

theorem processMessage_outcome {lib : Libucl} {svcs : List Provider} {c c' : Counted} {addr : Nat} {obj : Ucl}
    (h : processMessage lib svcs c addr obj = .ok c') :
    ∃ c₁, Balanced lib svcs { c with calls := c.calls ++ [(c.transport, obj)] } c₁ ∧
      Outcome c₁ addr (taken lib svcs c.transport obj) c' :=
  processMessageWith_outcome (awaitReply_forgets lib svcs _) (awaitReply_waits lib svcs _)
    (awaitReply_balanced lib svcs _) (Nat.lt_succ_self _) h

theorem readyForRead_balanced {lib : Libucl} {svcs : List Provider} {c c' : Counted} {m : Message}
    (h : readyForRead lib svcs c m = .ok c') : Balanced lib svcs c c' := by
  unfold readyForRead at h
  split at h
  · obtain rfl := Except.ok.inj h
    exact .refl c
  · rename_i obj _
    obtain ⟨c₁, hbalanced, houtcome⟩ := processMessage_outcome h
    exact Outcome.balanced hbalanced houtcome rfl rfl rfl
      (takenCalls_append lib svcs { c with refs := c.refs.alloc } _ obj)

/-- The object is received with its reference, or its reference was released once. -/
def Accounted (c : Counted) (addr : Nat) : Prop :=
  addr ∈ c.received ∧ c.refs.count addr = 1 ∨ addr ∉ c.received ∧ c.refs.count addr = 0

/-- An object that is handed over with one reference is accounted for, unless a provider takes the request. -/
theorem processMessage_accounted_iff {lib : Libucl} {svcs : List Provider} {c c' : Counted} {addr : Nat} {obj : Ucl}
    (hlt : addr < c.refs.next) (hone : c.refs.count addr = 1) (hnew : addr ∉ c.received)
    (h : processMessage lib svcs c addr obj = .ok c') :
    c'.Accounted addr ↔ taken lib svcs c.transport obj = false := by
  obtain ⟨c₁, hbalanced, houtcome⟩ := processMessage_outcome h
  have hcount : c₁.refs.count addr = 1 := (hbalanced.count_eq addr hlt).trans hone
  have hnot : addr ∉ c₁.received := by
    obtain ⟨new, hreceived, hge⟩ := hbalanced.received_eq
    rw [hreceived, List.mem_append]
    rintro (hmem | hmem)
    · exact hnew hmem
    · exact absurd (hge addr hmem) (Nat.not_le_of_lt hlt)
  generalize taken lib svcs c.transport obj = b at houtcome
  cases houtcome with
  | released t ht =>
    have hzero : (c₁.refs.unref addr).count addr = 0 := by
      rw [Refs.count_unref_self, hcount]
      rfl
    exact iff_of_true (.inr ⟨hnot, hzero⟩) rfl
  | received obj => exact iff_of_true (.inl ⟨List.mem_append_right _ List.mem_cons_self, hcount⟩) rfl
  | left t ht =>
    apply iff_of_false
    · rintro (⟨hmem, -⟩ | ⟨-, hzero⟩)
      · exact hnot hmem
      · exact absurd (hcount.symm.trans hzero) (by decide)
    · exact Bool.noConfusion

/-- What is done with a transport from outside: a message is read, or a method of the peer is called, with or without
waiting for the reply. `events` is what the polls find meanwhile. -/
inductive Op where
  | message (m : Message) (events : List Event)
  | call (method : String) (params : Option Ucl) (events : List Event)
  | send (method : String) (params : Option Ucl)

def step (lib : Libucl) (svcs : List Provider) (c : Counted) : Op → Except Stuck Counted
  | .message m events => readyForRead lib svcs { c with transport := { c.transport with events } } m
  | .call method params events =>
    let (comp, t) := { c.transport with events }.sendMessage lib method params false
    (awaitReply lib svcs (events.length + 1) comp { c with transport := t }).map Prod.snd
  | .send method params => .ok { c with transport := (c.transport.sendMessage lib method params true).2 }

def runs (lib : Libucl) (svcs : List Provider) (ops : List Op) (c : Counted) : Except Stuck Counted :=
  ops.foldlM (step lib svcs) c

theorem step_balanced {lib : Libucl} {svcs : List Provider} {c c' : Counted} {op : Op}
    (h : step lib svcs c op = .ok c') : Balanced lib svcs c c' := by
  cases op with
  | message m events =>
    have hevents := Balanced.of_transport lib svcs c (t := { c.transport with events }) rfl
    exact hevents.trans (readyForRead_balanced h)
  | call method params events =>
    obtain ⟨⟨ret, c₁⟩, hawait, rfl⟩ := map_eq_ok h
    have hsent := Balanced.of_transport lib svcs c
      (t := ({ c.transport with events }.sendMessage lib method params false).2) rfl
    exact hsent.trans (awaitReply_balanced lib svcs _ _ _ _ _ (Nat.lt_succ_self _) hawait)
  | send method params =>
    obtain rfl := Except.ok.inj h
    exact .of_transport lib svcs c rfl

theorem runs_balanced {lib : Libucl} {svcs : List Provider} {ops : List Op} {c c' : Counted}
    (h : runs lib svcs ops c = .ok c') : Balanced lib svcs c c' := by
  induction ops generalizing c with
  | nil =>
    obtain rfl := Except.ok.inj h
    exact .refl c
  | cons op ops ih =>
    obtain ⟨c₁, hstep, hrest⟩ := bind_eq_ok h
    exact (step_balanced hstep).trans (ih hrest)

/-- The objects that live are those received, and one for each request that a provider took. -/
theorem runs_live {lib : Libucl} {svcs : List Provider} {ops : List Op} {t : Transport} {c : Counted}
    (ht : t.received = []) (h : runs lib svcs ops { transport := t } = .ok c) :
    c.refs.live.card = c.transport.received.length + c.takenCalls lib svcs := by
  have hrun := runs_balanced h
  have hparallel := hrun.parallel
  have hbalance := hrun.balance
  have hlive : (Refs.mk (fun _ => 0) 0).live.card = 0 := rfl
  have htaken : ({ transport := t } : Counted).takenCalls lib svcs = 0 := rfl
  simp only [ht, List.length_nil, hlive, htaken] at hparallel hbalance
  omega

/-- Each object is accounted for, and the live ones are those received, exactly if no provider takes a request. -/
theorem received_accounted_iff (lib : Libucl) (svcs : List Provider) :
    (∀ c addr obj c', addr < c.refs.next → c.refs.count addr = 1 → addr ∉ c.received →
      processMessage lib svcs c addr obj = .ok c' → (c'.Accounted addr ↔ taken lib svcs c.transport obj = false)) ∧
    ∀ t ops c, t.received = [] → runs lib svcs ops { transport := t } = .ok c →
      (c.refs.live.card = c.transport.received.length ↔
        ∀ call ∈ c.calls, taken lib svcs call.1 call.2 = false) := by
  constructor
  · intro c addr obj c' hlt hone hnew h
    exact processMessage_accounted_iff hlt hone hnew h
  · intro t ops c ht h
    rw [runs_live ht h, Nat.add_eq_left, takenCalls, List.countP_eq_zero]
    simp only [Bool.not_eq_true]

/-- A transport that is handed an object with one reference. -/
def handed : Counted :=
  { transport := pinger, refs := ({} : Refs).alloc }

theorem received_accounted_iff_ping :
    (∃ c', processMessage pongLib [] handed 0 pingRequest = .ok c' ∧
      (c'.Accounted 0 ↔ taken pongLib [] handed.transport pingRequest = false)) ∧
    ∃ c, runs pongLib [] [.message pongText []] { transport := pinger } = .ok c ∧
      (c.refs.live.card = c.transport.received.length ↔ ∀ call ∈ c.calls, taken pongLib [] call.1 call.2 = false) :=
  ⟨⟨_, rfl, (received_accounted_iff pongLib []).1 handed 0 pingRequest _ (Nat.zero_lt_one) rfl List.not_mem_nil rfl⟩,
    ⟨_, rfl, (received_accounted_iff pongLib []).2 pinger [.message pongText []] _ rfl rfl⟩⟩

/-- A request that a provider answers stays in memory. -/
theorem request_leaks :
    ∃ c', processMessage pongLib [pongProvider] handed 0 pingRequest = .ok c' ∧ ¬c'.Accounted 0 ∧
      c'.refs.live.card = 1 ∧ c'.transport.received = [] := by
  refine ⟨_, rfl, ?_, rfl, rfl⟩
  rintro (⟨hmem, -⟩ | ⟨-, hzero⟩)
  · exact List.not_mem_nil hmem
  · exact absurd hzero (by decide)

end Counted

end ServiceManager.Wsrpc
