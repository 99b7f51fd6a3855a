import ServiceManager.Wsrpc.Await
import ServiceManager.Wsrpc.Session

namespace ServiceManager.Wsrpc

/-- What may come in before the reply to a call: a part of a message, or another message.
If that is a response, it has a result or a well-formed error. -/
def Meanwhile (lib : Libucl) (id : Int32) (e : Event) : Prop :=
  e = .part ∨ ∃ m obj, e = .text m ∧ lib.parse m = some obj ∧ uclObjIsResponseForId obj ≠ id ∧
    (uclObjIsResponseForId obj ≠ 0 → obj.lookup "result" = none → uclToError (obj.lookup "error") ≠ none)

/-- A call waits for its reply, and nothing came in for it yet. -/
structure Waiting (t : Transport) (comp : Nat) (id : Int32) : Prop where
  id_eq : (t.heap comp).id = id
  result_eq : (t.heap comp).result = none
  alone : comp ∉ t.completions
  received : ∀ obj ∈ t.received, uclObjIsResponseForId obj ≠ id

/-- A call can be made with an id that no response received so far has. -/
structure CanCall (t : Transport) (id : Int32) : Prop where
  rand_eq : t.rand 0 = id
  pending : ∀ a ∈ t.completions, a < t.next
  received : ∀ obj ∈ t.received, uclObjIsResponseForId obj ≠ id

section Waiting

variable {lib : Libucl} {svcs : List Provider} {t t' : Transport} {comp fuel : Nat} {id : Int32} {obj : Ucl}

theorem Waiting.poll (h : Waiting t comp id) : Waiting (t.poll comp) comp id := by
  refine ⟨?_, ?_, h.alone, h.received⟩
  · rw [poll_heap]
    exact h.id_eq
  · rw [poll_heap]
    exact h.result_eq

/-- The call that was just made waits. -/
theorem CanCall.waiting (h : CanCall t id) (lib : Libucl) (method : String) (params : Option Ucl) :
    Waiting (t.sendMessage lib method params false).2 t.next id := by
  refine ⟨?_, ?_, fun hmem => Nat.lt_irrefl _ (h.pending _ hmem), h.received⟩
  · simp [Transport.sendMessage, h.rand_eq]
  · simp [Transport.sendMessage]

theorem exists_completeWith (t : Transport) (c : Nat)
    (h : obj.lookup "result" = none → uclToError (obj.lookup "error") ≠ none) :
    ∃ c', t.completeWith c obj = .ok { t with heap := fun a => if a = c then c' else t.heap a } := by
  unfold Transport.completeWith Transport.completed
  cases hlookup : obj.lookup "result" with
  | some result => exact ⟨_, rfl⟩
  | none =>
    obtain ⟨err, herr⟩ := Option.ne_none_iff_exists'.mp (h hlookup)
    simp only [herr, Option.map_some]
    exact ⟨_, rfl⟩

/-- Another message is handled without the call noticing. -/
theorem processMessageWith_meanwhile (hprompt : Prompt svcs) (await : Nat → Transport → Except Stuck (Bool × Transport))
    (h : Waiting t comp id) (hid : uclObjIsResponseForId obj ≠ id)
    (herror : uclObjIsResponseForId obj ≠ 0 → obj.lookup "result" = none → uclToError (obj.lookup "error") ≠ none) :
    ∃ t', processMessageWith lib await svcs t obj = .ok t' ∧ Waiting t' comp id ∧ t'.events = t.events ∧
      t.written <+: t'.written := by
  have hrequest : ∃ t', handleRequest lib await svcs (requestOf obj) t = .ok t' ∧ Waiting t' comp id ∧
      t'.events = t.events ∧ t.written <+: t'.written := by
    obtain ⟨reply, hanswers⟩ := hprompt.answers lib await (requestOf obj) t
    refine ⟨_, handleRequest_of_answers hanswers, ?_⟩
    split
    · exact ⟨h, rfl, List.prefix_rfl⟩
    · exact ⟨⟨h.id_eq, h.result_eq, h.alone, h.received⟩, rfl, List.prefix_append _ _⟩
  unfold processMessageWith
  by_cases hresp : uclObjIsResponseForId obj = 0
  · simp only [hresp, ne_eq, not_true_eq_false, if_false]
    split
    · split
      · exact hrequest
      · exact hrequest
      · exact ⟨t, rfl, h, rfl, List.prefix_rfl⟩
    · exact ⟨t, rfl, h, rfl, List.prefix_rfl⟩
  · simp only [ne_eq, hresp, not_false_eq_true, if_true]
    split
    · rename_i c hfind
      -- the completion is another one: that of the call is not among those
      have hne : comp ≠ c := fun heq => h.alone (heq ▸ List.mem_of_find?_eq_some hfind)
      obtain ⟨c', hcomplete⟩ := exists_completeWith t c (herror hresp)
      refine ⟨_, hcomplete, ⟨?_, ?_, h.alone, h.received⟩, rfl, List.prefix_rfl⟩
      · simp [hne, h.id_eq]
      · simp [hne, h.result_eq]
    · refine ⟨_, rfl, ⟨h.id_eq, h.result_eq, h.alone, ?_⟩, rfl, List.prefix_rfl⟩
      intro obj' hobj'
      rcases List.mem_append.mp hobj' with hold | hnew
      · exact h.received obj' hold
      · rw [List.mem_singleton.mp hnew]
        exact hid

variable {before after : List Event} {reply : Reply}

/-- The wait returns with the reply, whatever comes in before it. -/
theorem awaitReply_returns (hprompt : Prompt svcs) (hintact : Intact lib (reply.response lib id.toInt))
    (hbefore : ∀ e ∈ before, Meanwhile lib id e) (h : Waiting t comp id)
    (hevents : t.events = before ++ .text (lib.emit (reply.response lib id.toInt)) :: after)
    (hfuel : before.length < fuel) :
    ∃ t' c, awaitReply lib svcs fuel comp t = .ok (true, t') ∧ t'.heap comp = (reply.arrived lib).complete c ∧
      t'.events = after ∧
      t.written <+: t'.written := by
  obtain ⟨fuel, rfl⟩ : ∃ n, fuel = n + 1 := ⟨fuel - 1, by omega⟩
  induction before generalizing t fuel with
  | nil =>
    have hhead : t.events.head? = some (.text (lib.emit (reply.response lib id.toInt))) := by rw [hevents]; rfl
    have hparse : lib.parse (lib.emit (reply.response lib id.toInt)) = some (reply.response lib id.toInt) := hintact
    have hcomplete := Reply.completed_response lib reply id.toInt h.poll.result_eq
    let polled := t.poll comp
    let t' :=
      { polled with
        heap := fun a => if a = comp then (reply.arrived lib).complete (polled.heap comp) else polled.heap a }
    refine ⟨t', polled.heap comp, ?_, if_pos rfl, ?_, List.prefix_rfl⟩
    · simp only [awaitReply, hhead, hparse, Reply.responseFor_response, h.id_eq, if_true, Transport.completeWith,
        hcomplete]
      rfl
    · simp [t', polled, Transport.poll, hevents]
  | cons e before ih =>
    obtain ⟨he, hlater⟩ := List.forall_mem_cons.mp hbefore
    have hhead : t.events.head? = some e := by rw [hevents]; rfl
    have hpolled : (t.poll comp).events = before ++ .text (lib.emit (reply.response lib id.toInt)) :: after := by
      simp [Transport.poll, hevents]
    rw [List.length_cons] at hfuel
    obtain ⟨fuel, rfl⟩ : ∃ n, fuel = n + 1 := ⟨fuel - 1, by omega⟩
    rcases he with rfl | ⟨m, obj, rfl, hparse, hid, herror⟩
    · have hturn : awaitReply lib svcs (fuel + 1 + 1) comp t = awaitReply lib svcs (fuel + 1) comp (t.poll comp) := by
        rw [awaitReply, hhead]
      rw [hturn]
      exact ih hlater h.poll hpolled fuel (by omega)
    · obtain ⟨t', hprocess, hwaiting, hevents', hwritten⟩ :=
        processMessageWith_meanwhile hprompt (awaitReply lib svcs (fuel + 1)) h.poll hid herror
      obtain ⟨t'', c, hrest, hheap, hafter, hwritten'⟩ := ih hlater hwaiting (hevents'.trans hpolled) fuel (by omega)
      have hne : uclObjIsResponseForId obj ≠ (t.heap comp).id := by rwa [h.id_eq]
      have hscan : ¬(t'.received.any fun obj => uclObjIsResponseForId obj = (t'.heap comp).id) = true := by
        simpa [hwaiting.id_eq] using hwaiting.received
      have hturn : awaitReply lib svcs (fuel + 1 + 1) comp t = awaitReply lib svcs (fuel + 1) comp t' := by
        rw [awaitReply, hhead]
        simp only [hparse, if_neg hne]
        rw [hprocess]
        exact if_neg hscan
      exact ⟨t'', c, hturn.trans hrest, hheap, hafter, hwritten.trans hwritten'⟩

end Waiting

end ServiceManager.Wsrpc
