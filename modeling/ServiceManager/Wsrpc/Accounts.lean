import ServiceManager.Wsrpc.Session

namespace ServiceManager.Wsrpc

open Trace

/-- The calls of one end are accounted for. `out` is what its peer has not read yet,
`back` what it has not read itself, and `answered` what the peer answered. Of each call
there is the request, the response or the completion, once, and all of them are about
what was asked. -/
structure Accounted (lib : Libucl) (t : Transport) (asked : List Ucl) (answered : List (Ucl × Reply))
    (out back : List Message) : Prop where
  told : Told t
  listed : ∀ a, a ∈ t.completions ↔ a < t.next
  length_eq : asked.length = t.next
  call : ∀ (c : Nat) obj, asked[c]? = some obj →
    ∃ method params, obj = callObject lib method (Option.map Ucl.object params) (t.heap c).id
  request : ∀ m ∈ out, ∀ obj, lib.parse m = some obj → uclObjIsResponseForId obj = 0 → ∃ c : Nat, asked[c]? = some obj
  response : ∀ m ∈ back, ∀ obj, lib.parse m = some obj → uclObjIsResponseForId obj ≠ 0 →
    ∃ (c : Nat) (obj₀ : Ucl) (reply : Reply), asked[c]? = some obj₀ ∧ (obj₀, reply) ∈ answered ∧
      obj = reply.response lib (t.heap c).id.toInt
  answered_asked : ∀ e ∈ answered, ∃ c : Nat, asked[c]? = some e.1
  once : ∀ c < t.next, out.countP (Asks lib (t.heap c).id) + back.countP (Replies lib (t.heap c).id) +
    (t.heap c).notified = 1
  handled : ∀ c < t.next, answered.countP (fun e => (requestOf e.1).id = (t.heap c).id) =
    back.countP (Replies lib (t.heap c).id) + (t.heap c).notified
  waiting : ∀ c < t.next, (t.heap c).notified = 0 → t.heap c = { id := (t.heap c).id, delegated := true }
  completed : ∀ c < t.next, (t.heap c).notified ≠ 0 → ∃ obj reply, asked[c]? = some obj ∧ (obj, reply) ∈ answered ∧
    t.heap c = (reply.arrived lib).complete { id := (t.heap c).id, delegated := true }

theorem asks_of_parse {lib : Libucl} {m : Message} {obj : Ucl} (h : lib.parse m = some obj) (id : Int32) :
    Asks lib id m = decide (uclObjIsResponseForId obj = 0 ∧ (requestOf obj).id = id) := by
  simp [Asks, h]

theorem replies_of_parse {lib : Libucl} {m : Message} {obj : Ucl} (h : lib.parse m = some obj) (id : Int32) :
    Replies lib id m = decide (uclObjIsResponseForId obj = id) := by
  simp [Replies, h]

/-- What a reply leaves of the completion of an asynchronous call. -/
theorem complete_asynchronous (reply : Reply) (id : Int32) :
    (reply.complete { id, delegated := true }).id = id ∧ (reply.complete { id, delegated := true }).notified = 1 := by
  cases reply <;> exact ⟨rfl, rfl⟩

namespace Accounted

variable {lib : Libucl} {t t' : Transport} {asked : List Ucl} {answered : List (Ucl × Reply)}
  {out back rest : List Message} {m : Message} {obj : Ucl} {reply : Reply}
  (h : Accounted lib t asked answered out back)

include h

theorem lt_of_asked {c : Nat} (hc : asked[c]? = some obj) : c < t.next := by
  rw [← h.length_eq]
  exact (List.getElem?_eq_some_iff.mp hc).1

theorem requestOf_asked {c : Nat} (hc : asked[c]? = some obj) : (requestOf obj).id = (t.heap c).id := by
  obtain ⟨method, params, rfl⟩ := h.call c obj hc
  exact requestOf_callObject _ _ _ _

/-- What is not a request may go out. -/
theorem out_append (hparse : lib.parse m = some obj) (hresp : uclObjIsResponseForId obj ≠ 0) :
    Accounted lib t asked answered (out ++ [m]) back := by
  have hnot : ∀ id, Asks lib id m = false := by
    intro id
    rw [asks_of_parse hparse]
    simp [hresp]
  refine { h with request := ?_, once := ?_ }
  · intro m' hm' obj' hparse' hzero
    rcases List.mem_append.mp hm' with hold | hnew
    · exact h.request m' hold obj' hparse' hzero
    · obtain rfl := List.mem_singleton.mp hnew
      obtain rfl : obj = obj' := Option.some.inj (hparse.symm.trans hparse')
      exact absurd hzero hresp
  · intro c hc
    rw [List.countP_append, List.countP_singleton, hnot]
    exact h.once c hc

/-- What is not a request may be read by the peer. -/
theorem out_tail (hout : out = m :: rest) (hparse : lib.parse m = some obj) (hresp : uclObjIsResponseForId obj ≠ 0) :
    Accounted lib t asked answered rest back := by
  have hnot : ∀ id, Asks lib id m = false := by
    intro id
    rw [asks_of_parse hparse]
    simp [hresp]
  subst hout
  refine { h with request := ?_, once := ?_ }
  · exact fun m' hm' => h.request m' (List.mem_cons_of_mem _ hm')
  · intro c hc
    have honce := h.once c hc
    rwa [List.countP_cons_of_neg (by simp [hnot])] at honce

/-- What is no response may come in. -/
theorem back_append (hparse : lib.parse m = some obj) (hresp : uclObjIsResponseForId obj = 0) :
    Accounted lib t asked answered out (back ++ [m]) := by
  have hnot : ∀ c < t.next, Replies lib (t.heap c).id m = false := by
    intro c hc
    rw [replies_of_parse hparse, hresp]
    exact decide_eq_false fun hzero => h.told.ne_zero c hc hzero.symm
  refine { h with response := ?_, once := ?_, handled := ?_ }
  · intro m' hm' obj' hparse' hne
    rcases List.mem_append.mp hm' with hold | hnew
    · exact h.response m' hold obj' hparse' hne
    · obtain rfl := List.mem_singleton.mp hnew
      obtain rfl : obj = obj' := Option.some.inj (hparse.symm.trans hparse')
      exact absurd hresp hne
  · intro c hc
    rw [List.countP_append, List.countP_singleton, hnot c hc]
    exact h.once c hc
  · intro c hc
    rw [List.countP_append, List.countP_singleton, hnot c hc]
    exact h.handled c hc

/-- What is no response may be read. -/
theorem back_tail (hback : back = m :: rest) (hparse : lib.parse m = some obj) (hresp : uclObjIsResponseForId obj = 0) :
    Accounted lib t asked answered out rest := by
  have hnot : ∀ c < t.next, Replies lib (t.heap c).id m = false := by
    intro c hc
    rw [replies_of_parse hparse, hresp]
    exact decide_eq_false fun hzero => h.told.ne_zero c hc hzero.symm
  subst hback
  refine { h with response := ?_, once := ?_, handled := ?_ }
  · exact fun m' hm' => h.response m' (List.mem_cons_of_mem _ hm')
  · intro c hc
    have honce := h.once c hc
    rwa [List.countP_cons_of_neg (by simp [hnot c hc])] at honce
  · intro c hc
    have hhandled := h.handled c hc
    rwa [List.countP_cons_of_neg (by simp [hnot c hc])] at hhandled

/-- What the end writes itself has nothing to do with its calls. -/
theorem writeObj (obj : Ucl) : Accounted lib (t.writeObj lib obj) asked answered out back :=
  { h with
    told := ⟨h.told.ne_zero, h.told.inj, h.told.pending⟩ }

/-- Nothing is about an id that no call has. -/
theorem unused {id : Int32} (hid : id ≠ 0) (hfresh : ∀ a < t.next, (t.heap a).id ≠ id)
    (hlegible : ∀ m ∈ out ++ back, ∃ obj, lib.parse m = some obj) :
    out.countP (Asks lib id) = 0 ∧ back.countP (Replies lib id) = 0 ∧
      answered.countP (fun e => (requestOf e.1).id = id) = 0 := by
  simp only [List.countP_eq_zero]
  refine ⟨?_, ?_, ?_⟩
  · intro m hm
    obtain ⟨obj, hparse⟩ := hlegible m (List.mem_append_left _ hm)
    rw [asks_of_parse hparse, decide_eq_true_eq]
    rintro ⟨hzero, rfl⟩
    obtain ⟨c, hc⟩ := h.request m hm obj hparse hzero
    exact hfresh c (h.lt_of_asked hc) (h.requestOf_asked hc).symm
  · intro m hm
    obtain ⟨obj, hparse⟩ := hlegible m (List.mem_append_right _ hm)
    rw [replies_of_parse hparse, decide_eq_true_eq]
    rintro rfl
    obtain ⟨c, obj₀, reply, hc, -, rfl⟩ := h.response m hm obj hparse hid
    rw [Reply.responseFor_response] at hfresh
    exact hfresh c (h.lt_of_asked hc) rfl
  · intro e he
    rw [decide_eq_true_eq]
    rintro rfl
    obtain ⟨c, hc⟩ := h.answered_asked e he
    exact hfresh c (h.lt_of_asked hc) (h.requestOf_asked hc).symm

/-- A call sends its request. -/
theorem sendMessage (method : String) (params : Option (List (String × Ucl)))
    (hfresh : t.rand 0 ≠ 0 ∧ ∀ a < t.next, (t.heap a).id ≠ t.rand 0)
    (hlegible : ∀ m ∈ out ++ back, ∃ obj, lib.parse m = some obj)
    (hintact : Intact lib (callObject lib method (params.map .object) (t.rand 0))) :
    Accounted lib (t.sendMessage lib method (params.map .object) true).2
      (asked ++ [callObject lib method (params.map .object) (t.rand 0)]) answered
      (out ++ [lib.emit (callObject lib method (params.map .object) (t.rand 0))]) back := by
  obtain ⟨hzero, hnew⟩ := hfresh
  obtain ⟨hout, hback, hanswered⟩ := h.unused hzero hnew hlegible
  have hstep : Step lib t .sent (t.sendMessage lib method (params.map .object) true).2 := .send t method _ true
  have hcareful : Label.Careful t .sent := ⟨hzero, hnew⟩
  have hold : ∀ c < t.next, (t.sendMessage lib method (params.map .object) true).2.heap c = t.heap c :=
    fun c hc => heap_sendMessage_of_lt t _ _ _ hc
  have hown : (t.sendMessage lib method (params.map .object) true).2.heap t.next =
      { id := t.rand 0, delegated := true } :=
    heap_sendMessage_next t _ _ _
  have hcalls : ∀ c < t.next + 1, c < t.next ∨ c = t.next := fun c hc => by omega
  have hasked : ∀ (c : Nat) obj, asked[c]? = some obj →
      (asked ++ [callObject lib method (params.map .object) (t.rand 0)])[c]? =
      some obj := by
    intro c obj hc
    rw [List.getElem?_append_left (List.getElem?_eq_some_iff.mp hc).1, hc]
  have hasks : ∀ id, Asks lib id (lib.emit (callObject lib method (params.map .object) (t.rand 0))) =
      decide (t.rand 0 = id) := by
    intro id
    rw [asks_of_parse hintact, responseFor_callObject, requestOf_callObject]
    simp
  refine ⟨told_step h.told hcareful hstep, ?_, ?_, ?_, ?_, ?_, ?_, ?_, ?_, ?_, ?_⟩
  · intro a
    rw [completions_sendMessage, if_pos rfl, List.mem_append, h.listed, List.mem_singleton]
    exact Nat.lt_succ_iff_lt_or_eq.symm
  · rw [List.length_append, h.length_eq]
    rfl
  · intro c obj hc
    rcases Nat.lt_or_ge c asked.length with hlt | hge
    · rw [List.getElem?_append_left hlt] at hc
      rw [hold c (h.lt_of_asked hc)]
      exact h.call c obj hc
    · rw [List.getElem?_append_right hge, List.getElem?_singleton] at hc
      split at hc
      next hzero' =>
        obtain rfl := Option.some.inj hc
        obtain rfl : c = t.next := by
          rw [h.length_eq] at hge hzero'
          omega
        rw [hown]
        exact ⟨method, params, rfl⟩
      next => cases hc
  · intro m hm obj hparse hresp
    rcases List.mem_append.mp hm with hm | hm
    · obtain ⟨c, hc⟩ := h.request m hm obj hparse hresp
      exact ⟨c, hasked c obj hc⟩
    · obtain rfl := List.mem_singleton.mp hm
      obtain rfl := Option.some.inj (hparse.symm.trans hintact)
      refine ⟨asked.length, ?_⟩
      rw [List.getElem?_append_right (Nat.le_refl _), Nat.sub_self]
      rfl
  · intro m hm obj hparse hresp
    obtain ⟨c, obj₀, reply, hc, hanswer, rfl⟩ := h.response m hm obj hparse hresp
    exact ⟨c, obj₀, reply, hasked c obj₀ hc, hanswer, by rw [hold c (h.lt_of_asked hc)]⟩
  · intro e he
    obtain ⟨c, hc⟩ := h.answered_asked e he
    exact ⟨c, hasked c _ hc⟩
  · intro c hc
    rw [List.countP_append, List.countP_singleton, hasks]
    rcases hcalls c hc with hlt | rfl
    · rw [hold c hlt, decide_eq_false (hnew c hlt ∘ Eq.symm)]
      exact h.once c hlt
    · rw [hown, hout, hback, decide_eq_true rfl]
      rfl
  · intro c hc
    rcases hcalls c hc with hlt | rfl
    · rw [hold c hlt]
      exact h.handled c hlt
    · rw [hown, hback, hanswered]
      rfl
  · intro c hc hsilent
    rcases hcalls c hc with hlt | rfl
    · rw [hold c hlt] at hsilent ⊢
      exact h.waiting c hlt hsilent
    · rw [hown]
  · intro c hc hnotified
    rcases hcalls c hc with hlt | rfl
    · rw [hold c hlt] at hnotified ⊢
      obtain ⟨obj, reply, hc, hrest⟩ := h.completed c hlt hnotified
      exact ⟨obj, reply, hasked c obj hc, hrest⟩
    · rw [hown] at hnotified
      exact absurd rfl hnotified

/-- The peer reads a request and answers it. -/
theorem answer (hout : out = m :: rest) (hparse : lib.parse m = some obj) (hresp : uclObjIsResponseForId obj = 0)
    (hintact : Intact lib (reply.response lib (requestOf obj).id.toInt)) :
    Accounted lib t asked (answered ++ [(obj, reply)]) rest
      (back ++ [lib.emit (reply.response lib (requestOf obj).id.toInt)]) := by
  subst hout
  obtain ⟨c, hc⟩ := h.request m List.mem_cons_self obj hparse hresp
  have hlt := h.lt_of_asked hc
  have hid := h.requestOf_asked hc
  have hasks : ∀ id, Asks lib id m = decide ((t.heap c).id = id) := by
    intro id
    rw [asks_of_parse hparse, hid]
    simp [hresp]
  have hreplies : ∀ id, Replies lib id (lib.emit (reply.response lib (requestOf obj).id.toInt)) =
      decide ((t.heap c).id = id) := by
    intro id
    rw [replies_of_parse hintact, Reply.responseFor_response, hid]
  refine { h with request := ?_, response := ?_, answered_asked := ?_, once := ?_, handled := ?_, completed := ?_ }
  · exact fun m' hm' => h.request m' (List.mem_cons_of_mem _ hm')
  · intro m' hm' obj' hparse' hne
    rcases List.mem_append.mp hm' with hm' | hm'
    · obtain ⟨c', obj₀, reply', hc', hanswer, hobj⟩ := h.response m' hm' obj' hparse' hne
      exact ⟨c', obj₀, reply', hc', List.mem_append_left _ hanswer, hobj⟩
    · obtain rfl := List.mem_singleton.mp hm'
      obtain rfl := Option.some.inj (hparse'.symm.trans hintact)
      exact ⟨c, obj, reply, hc, List.mem_append_right _ (List.mem_singleton_self _), by rw [hid]⟩
  · intro e he
    rcases List.mem_append.mp he with he | he
    · exact h.answered_asked e he
    · obtain rfl := List.mem_singleton.mp he
      exact ⟨c, hc⟩
  · intro c' hc'
    have honce := h.once c' hc'
    rw [List.countP_cons, hasks] at honce
    rw [List.countP_append, List.countP_singleton, hreplies]
    omega
  · intro c' hc'
    have hhandled := h.handled c' hc'
    rw [List.countP_append, List.countP_append, List.countP_singleton, List.countP_singleton, hreplies]
    simp only [hid]
    omega
  · intro c' hc' hnotified
    obtain ⟨obj', reply', hasked, hanswer, hheap⟩ := h.completed c' hc' hnotified
    exact ⟨obj', reply', hasked, List.mem_append_left _ hanswer, hheap⟩

/-- The end reads a response, which completes the call it is for. -/
theorem complete (svcs : List Provider) (hback : back = m :: rest) (hparse : lib.parse m = some obj)
    (hresp : uclObjIsResponseForId obj ≠ 0) : ∃ t', readyForRead lib svcs t m = .ok t' ∧ t'.written = t.written ∧
      Accounted lib t' asked answered out rest := by
  subst hback
  obtain ⟨c, obj₀, reply, hc, hanswer, rfl⟩ := h.response m List.mem_cons_self obj hparse hresp
  have hlt := h.lt_of_asked hc
  rw [Reply.responseFor_response] at hresp
  have hreplies : ∀ id, Replies lib id m = decide ((t.heap c).id = id) := by
    intro id
    rw [replies_of_parse hparse, Reply.responseFor_response]
  -- the one response there is for the call
  have hsilent : (t.heap c).notified = 0 := by
    have honce := h.once c hlt
    rw [List.countP_cons, hreplies, decide_eq_true rfl] at honce
    simp only [if_true] at honce
    omega
  have hwaiting := h.waiting c hlt hsilent
  have hpending : Pending t c (t.heap c).id := by
    refine ⟨(h.listed c).mpr hlt, rfl, by rw [hwaiting], ?_⟩
    intro a ha hid
    exact h.told.inj a ((h.listed a).mp ha) c hlt hid
  refine ⟨_, readyForRead_reply svcs hresp hparse hpending, rfl, ?_⟩
  have hcompleted : (reply.arrived lib).complete (t.heap c) =
      (reply.arrived lib).complete { id := (t.heap c).id, delegated := true } := by
    conv_lhs => rw [hwaiting]
  obtain ⟨hid, hnotified⟩ := complete_asynchronous (reply.arrived lib) (t.heap c).id
  rw [← hcompleted] at hid hnotified
  have hids : ∀ a, (if a = c then (reply.arrived lib).complete (t.heap c) else t.heap a).id = (t.heap a).id := by
    intro a
    by_cases ha : a = c <;> simp [ha, hid]
  have hcount : ∀ a, (if a = c then (reply.arrived lib).complete (t.heap c) else t.heap a).notified =
      (t.heap a).notified + if a = c then 1 else 0 := by
    intro a
    by_cases ha : a = c <;> simp [ha, hnotified, hsilent]
  have hsame : ∀ a < t.next, ((t.heap c).id = (t.heap a).id) = (a = c) := by
    intro a ha
    rw [eq_iff_iff]
    exact ⟨fun hid => h.told.inj a ha c hlt hid.symm, fun ha => by rw [ha]⟩
  refine ⟨⟨?_, ?_, h.told.pending⟩, h.listed, h.length_eq, ?_, h.request, ?_, h.answered_asked, ?_, ?_, ?_, ?_⟩
  · intro a ha
    rw [hids]
    exact h.told.ne_zero a ha
  · intro a ha b hb
    rw [hids, hids]
    exact h.told.inj a ha b hb
  · intro c' obj' hc'
    rw [hids]
    exact h.call c' obj' hc'
  · intro m' hm' obj' hparse' hne
    obtain ⟨c', obj₀', reply', hc', hanswer', rfl⟩ := h.response m' (List.mem_cons_of_mem _ hm') obj' hparse' hne
    exact ⟨c', obj₀', reply', hc', hanswer', by rw [hids]⟩
  · intro a ha
    have honce := h.once a ha
    rw [List.countP_cons, hreplies] at honce
    simp only [hsame a ha, decide_eq_true_eq] at honce
    rw [hids, hcount]
    omega
  · intro a ha
    have hhandled := h.handled a ha
    rw [List.countP_cons, hreplies] at hhandled
    simp only [hsame a ha, decide_eq_true_eq] at hhandled
    rw [hids, hcount, hhandled]
    omega
  · intro a ha hzero
    have hne : a ≠ c := by
      rintro rfl
      rw [hcount, if_pos rfl] at hzero
      omega
    simp only [if_neg hne] at hzero ⊢
    exact h.waiting a ha hzero
  · intro a ha hnotified
    rw [hids]
    by_cases hac : a = c
    · subst hac
      exact ⟨obj₀, reply, hc, hanswer, (if_pos rfl).trans hcompleted⟩
    · simp only [if_neg hac] at hnotified ⊢
      exact h.completed a ha hnotified

end Accounted

end ServiceManager.Wsrpc
