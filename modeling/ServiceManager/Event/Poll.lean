import Mathlib.Data.List.NodupEquivFin
import Mathlib.Order.WellFounded
import ServiceManager.Trace

namespace ServiceManager.Event

open Trace

/-- An element of the array that `poll` works on. `reg` counts the registrations, which
the source does not; it tells a descriptor that was deleted and added again. -/
structure PollFD where
  fd : Int
  revents : Nat
  reg : Nat
deriving DecidableEq

/-- A call of `fdEvent`. -/
structure Call where
  reg : Nat
  fd : Int
  revents : Nat
deriving DecidableEq

/-- A loop with the calls it has made of its handlers. The self-pipe is the first of
`pFDs`, and has no source. -/
structure EventLoop where
  pFDs : List PollFD
  fdSources : List Int
  regs : Nat
  calls : List Call := []

namespace EventLoop

variable (l : EventLoop)

def addFD (fd : Int) : Int × EventLoop :=
  (0, { l with
    pFDs := l.pFDs ++ [{ fd, revents := 0, reg := l.regs }]
    fdSources := l.fdSources ++ [fd]
    regs := l.regs + 1 })

/-- The elements after the one that is removed move up. What is copied from beyond the
array is never looked at. -/
def delFD (fd : Int) : Int × EventLoop :=
  (if l.pFDs.any fun p => p.fd = fd then 0 else -2,
   { l with pFDs := l.pFDs.eraseP fun p => p.fd = fd, fdSources := l.fdSources.erase fd })

end EventLoop

/-- What a handler does to the loop. -/
inductive Op where
  | add (fd : Int)
  | del (fd : Int)
deriving DecidableEq

namespace EventLoop

variable (l : EventLoop)

def apply : Op → EventLoop
  | .add fd => (l.addFD fd).2
  | .del fd => (l.delFD fd).2

def applyAll (ops : List Op) : EventLoop :=
  ops.foldl apply l

/-- The self-pipe alone. -/
def init (pipe : Int) : EventLoop :=
  { pFDs := [{ fd := pipe, revents := 0, reg := 0 }], fdSources := [], regs := 1 }

/-- What `poll` reports for each index. That of the self-pipe is cleared at once. -/
def poll (revents : Nat → Nat) : EventLoop :=
  { l with pFDs := l.pFDs.mapIdx fun i p => { p with revents := if i = 0 then 0 else revents i }, calls := [] }

/-- `pFDs[i].revents = 0`, whatever is there. -/
def clear (i : Nat) : EventLoop :=
  { l with pFDs := l.pFDs.modify i fun p => { p with revents := 0 } }

def call (p : PollFD) : EventLoop :=
  { l with calls := l.calls ++ [⟨p.reg, p.fd, p.revents⟩] }

end EventLoop

/-- Where `loop` is after `poll`: before it looks at index `i`. -/
structure Pass where
  i : Nat
  loop : EventLoop

inductive Label where
  /-- The index is passed over. -/
  | skip
  /-- A handler is called, and does this. -/
  | callback (ops : List Op)
  /-- A signal fired during a pass: its handlers do this, and there is another pass. -/
  | signals (ops : List Op)

/-- The steps after `poll`. An element is passed over if it was not reported, or has no
source. -/
inductive Step : Pass → Label → Pass → Prop
  | skip {i l p} : l.pFDs[i]? = some p → p.revents = 0 → Step ⟨i, l⟩ .skip ⟨i + 1, l⟩
  | unknown {i l p} : l.pFDs[i]? = some p → p.revents ≠ 0 → p.fd ∉ l.fdSources → Step ⟨i, l⟩ .skip ⟨i + 1, l.clear i⟩
  | callback {i l p} (ops) : l.pFDs[i]? = some p → p.revents ≠ 0 → p.fd ∈ l.fdSources →
      Step ⟨i, l⟩ (.callback ops) ⟨i + 1, ((l.call p).applyAll ops).clear i⟩
  | signals {i l} (ops) : l.pFDs.length ≤ i → Step ⟨i, l⟩ (.signals ops) ⟨1, l.applyAll ops⟩

/-- An array with the self-pipe in front and a source for each other element. -/
structure Shape (pipe : Int) (l : EventLoop) : Prop where
  pFDs_eq : ∃ p rest, l.pFDs = p :: rest ∧ p.fd = pipe ∧ p.revents = 0 ∧ l.fdSources = rest.map PollFD.fd
  nodup : (l.pFDs.map PollFD.reg).Nodup
  regs_lt : ∀ p ∈ l.pFDs, p.reg < l.regs

/-- The flags that a registration's handler was called with. -/
def EventLoop.callsOf (l : EventLoop) (reg : Nat) : List Nat :=
  (l.calls.filter fun c => c.reg = reg).map Call.revents

/-- Of the descriptors that are still registered at the end, each that was reported ready
has had its handler called once, with those flags; and no other handler was called. -/
structure DispatchesOnce (start l : EventLoop) : Prop where
  once : ∀ p ∈ l.pFDs, ∀ q ∈ start.pFDs, q.reg = p.reg → q.revents ≠ 0 → l.callsOf p.reg = [q.revents]
  only : ∀ c ∈ l.calls, c.revents ≠ 0 ∧ ⟨c.fd, c.revents, c.reg⟩ ∈ start.pFDs

section Ops

variable {pipe : Int} {l l' l'' : EventLoop}

/-- What handlers can do to a loop: elements are removed, and others appended. -/
structure Evolves (l l' : EventLoop) : Prop where
  calls_eq : l'.calls = l.calls
  regs_le : l.regs ≤ l'.regs
  parts : ∃ kept added, l'.pFDs = kept ++ added ∧ kept.Sublist l.pFDs ∧ ∀ p ∈ added, p.revents = 0 ∧ l.regs ≤ p.reg

theorem Evolves.refl (l : EventLoop) : Evolves l l :=
  ⟨rfl, Nat.le_refl _, l.pFDs, [], by simp, List.Sublist.refl _, by simp⟩

theorem Evolves.trans (h : Evolves l l') (h' : Evolves l' l'') : Evolves l l'' := by
  obtain ⟨kept, added, hpFDs, hkept, hadded⟩ := h.parts
  obtain ⟨kept', added', hpFDs', hkept', hadded'⟩ := h'.parts
  rw [hpFDs] at hkept'
  obtain ⟨kept₁, kept₂, rfl, hkept₁, hkept₂⟩ := List.sublist_append_iff.mp hkept'
  refine ⟨h'.calls_eq.trans h.calls_eq, Nat.le_trans h.regs_le h'.regs_le, kept₁, kept₂ ++ added', ?_,
    hkept₁.trans hkept, ?_⟩
  · rw [hpFDs', List.append_assoc]
  · intro p hp
    rcases List.mem_append.mp hp with hp | hp
    · exact hadded p (hkept₂.subset hp)
    · exact ⟨(hadded' p hp).1, Nat.le_trans h.regs_le (hadded' p hp).2⟩

theorem Evolves.apply (l : EventLoop) (op : Op) : Evolves l (l.apply op) := by
  cases op with
  | add fd =>
    exact ⟨rfl, Nat.le_succ _, l.pFDs, [{ fd, revents := 0, reg := l.regs }], rfl, List.Sublist.refl _, by simp⟩
  | del fd => exact ⟨rfl, Nat.le_refl _, l.pFDs.eraseP fun p => p.fd = fd, [], (List.append_nil _).symm,
      List.eraseP_sublist, by simp⟩

theorem Evolves.applyAll (l : EventLoop) (ops : List Op) : Evolves l (l.applyAll ops) := by
  induction ops generalizing l with
  | nil => exact .refl l
  | cons op ops ih => exact (Evolves.apply l op).trans (ih (l.apply op))

/-- By the operations; none of them may remove the self-pipe. -/
theorem Shape.apply (h : Shape pipe l) {op : Op} (hop : op ≠ .del pipe) : Shape pipe (l.apply op) := by
  obtain ⟨p, rest, hpFDs, hpipe, hrevents, hsources⟩ := h.pFDs_eq
  cases op with
  | add fd =>
    refine ⟨⟨p, rest ++ [{ fd, revents := 0, reg := l.regs }], ?_, hpipe, hrevents, ?_⟩, ?_, ?_⟩
    · simp [EventLoop.apply, EventLoop.addFD, hpFDs]
    · simp [EventLoop.apply, EventLoop.addFD, hsources]
    · have hnew : l.regs ∉ l.pFDs.map PollFD.reg := by
        intro hmem
        obtain ⟨q, hq, hreg⟩ := List.mem_map.mp hmem
        exact absurd (h.regs_lt q hq) (by omega)
      simpa [EventLoop.apply, EventLoop.addFD, List.nodup_append, h.nodup] using fun q hq heq =>
        hnew (List.mem_map.mpr ⟨q, hq, heq⟩)
    · intro q hq
      rcases List.mem_append.mp hq with hq | hq
      · exact Nat.lt_succ_of_lt (h.regs_lt q hq)
      · rw [List.mem_singleton.mp hq]
        exact Nat.lt_succ_self _
  | del fd =>
    have hne : p.fd ≠ fd := by
      rintro rfl
      exact hop (by rw [hpipe])
    have herase : (l.pFDs.eraseP fun p => p.fd = fd) = p :: rest.eraseP fun p => p.fd = fd := by
      rw [hpFDs, List.eraseP_cons_of_neg (by simpa using hne)]
    refine ⟨⟨p, rest.eraseP fun p => p.fd = fd, herase, hpipe, hrevents, ?_⟩, ?_, ?_⟩
    · change l.fdSources.erase fd = _
      rw [hsources, List.erase_eq_eraseP', List.eraseP_map]
      rfl
    · exact h.nodup.sublist (List.eraseP_sublist.map _)
    · exact fun q hq => h.regs_lt q (List.mem_of_mem_eraseP hq)

theorem Shape.applyAll (h : Shape pipe l) {ops : List Op} (hops : ∀ op ∈ ops, op ≠ .del pipe) :
    Shape pipe (l.applyAll ops) := by
  induction ops generalizing l with
  | nil => exact h
  | cons op ops ih =>
    obtain ⟨hop, hops⟩ := List.forall_mem_cons.mp hops
    exact ih (h.apply hop) hops

theorem Shape.init (pipe : Int) : Shape pipe (.init pipe) :=
  ⟨⟨_, [], rfl, rfl, rfl, rfl⟩, by simp [EventLoop.init], by simp [EventLoop.init]⟩

theorem Shape.call (h : Shape pipe l) (p : PollFD) : Shape pipe (l.call p) :=
  ⟨h.pFDs_eq, h.nodup, h.regs_lt⟩

/-- The flags do not matter, but for that of the self-pipe. -/
theorem Shape.congr (h : Shape pipe l) (hids : l'.pFDs.map (fun p => (p.fd, p.reg)) = l.pFDs.map fun p => (p.fd, p.reg))
    (hfirst : ∀ p, l'.pFDs.head? = some p → p.revents = 0) (hsources : l'.fdSources = l.fdSources)
    (hregs : l'.regs = l.regs) : Shape pipe l' := by
  have hreg : l'.pFDs.map PollFD.reg = l.pFDs.map PollFD.reg := by
    have h := congrArg (List.map Prod.snd) hids
    rw [List.map_map, List.map_map] at h
    exact h
  have hfd : l'.pFDs.map PollFD.fd = l.pFDs.map PollFD.fd := by
    have h := congrArg (List.map Prod.fst) hids
    rw [List.map_map, List.map_map] at h
    exact h
  refine ⟨?_, by rw [hreg]; exact h.nodup, fun q hq => ?_⟩
  · obtain ⟨p, rest, hpFDs, hpipe, _, hrest⟩ := h.pFDs_eq
    rw [hpFDs, List.map_cons] at hfd
    obtain ⟨p', rest', hpFDs', hp', hrest'⟩ := List.map_eq_cons_iff.mp hfd
    refine ⟨p', rest', hpFDs', hp'.trans hpipe, hfirst p' (by rw [hpFDs', List.head?_cons]), ?_⟩
    rw [hsources, hrest, hrest']
  · have hmem : q.reg ∈ l'.pFDs.map PollFD.reg := List.mem_map_of_mem hq
    rw [hreg] at hmem
    obtain ⟨q', hq', heq⟩ := List.mem_map.mp hmem
    rw [← heq, hregs]
    exact h.regs_lt q' hq'

theorem Shape.head_revents (h : Shape pipe l) {p : PollFD} (hp : l.pFDs.head? = some p) : p.revents = 0 := by
  obtain ⟨first, rest, hpFDs, _, hrevents, _⟩ := h.pFDs_eq
  rw [hpFDs, List.head?_cons] at hp
  rw [← Option.some.inj hp, hrevents]

theorem Shape.poll (h : Shape pipe l) (revents : Nat → Nat) : Shape pipe (l.poll revents) := by
  refine h.congr ?_ ?_ rfl rfl
  · apply List.ext_getElem?
    intro j
    rw [List.getElem?_map, List.getElem?_map, EventLoop.poll, List.getElem?_mapIdx, Option.map_map]
    rfl
  · intro p hp
    rw [List.head?_eq_getElem?, EventLoop.poll, List.getElem?_mapIdx] at hp
    obtain ⟨q, _, rfl⟩ := Option.map_eq_some_iff.mp hp
    rfl

theorem Shape.clear (h : Shape pipe l) (i : Nat) : Shape pipe (l.clear i) := by
  refine h.congr ?_ ?_ rfl rfl
  · apply List.ext_getElem?
    intro j
    rw [List.getElem?_map, List.getElem?_map, EventLoop.clear, List.getElem?_modify]
    cases l.pFDs[j]? with
    | none => rfl
    | some p => split <;> rfl
  · intro p hp
    rw [List.head?_eq_getElem?, EventLoop.clear, List.getElem?_modify] at hp
    obtain ⟨q, hq, rfl⟩ := Option.map_eq_some_iff.mp hp
    split
    · rfl
    · exact h.head_revents (by rw [List.head?_eq_getElem?, hq])

end Ops

section Frame

variable {l l' : EventLoop} {p q : PollFD} {i j k : Nat}

@[simp] theorem EventLoop.call_pFDs : (l.call p).pFDs = l.pFDs := rfl

@[simp] theorem EventLoop.clear_calls : (l.clear i).calls = l.calls := rfl

theorem EventLoop.call_applyAll (l : EventLoop) (p : PollFD) (ops : List Op) :
    (l.call p).applyAll ops = (l.applyAll ops).call p := by
  induction ops generalizing l with
  | nil => rfl
  | cons op ops ih =>
    have hop : (l.call p).apply op = (l.apply op).call p := by
      cases op <;> rfl
    change ((l.call p).apply op).applyAll ops = _
    rw [hop]
    exact ih (l.apply op)

theorem EventLoop.callsOf_congr (h : l'.calls = l.calls) (reg : Nat) : l'.callsOf reg = l.callsOf reg := by
  rw [EventLoop.callsOf, EventLoop.callsOf, h]

theorem EventLoop.callsOf_call (l : EventLoop) (p : PollFD) :
    (l.call p).callsOf p.reg = l.callsOf p.reg ++ [p.revents] := by
  simp [EventLoop.callsOf, EventLoop.call]

theorem EventLoop.callsOf_call_of_ne {reg : Nat} (h : p.reg ≠ reg) : (l.call p).callsOf reg = l.callsOf reg := by
  simp [EventLoop.callsOf, EventLoop.call, h]

/-- What stands at an index after the flag at `i` was cleared. -/
theorem EventLoop.getElem?_clear (h : (l.clear i).pFDs[j]? = some p) :
    ∃ q, l.pFDs[j]? = some q ∧ p = if i = j then { q with revents := 0 } else q := by
  rw [EventLoop.clear, List.getElem?_modify] at h
  obtain ⟨q, hq, hp⟩ := Option.map_eq_some_iff.mp h
  refine ⟨q, hq, ?_⟩
  rw [← hp]

/-- What was not added has not moved down. -/
theorem Evolves.origin (h : Evolves l l') (hp : l'.pFDs[j]? = some p) (hreg : p.reg < l.regs) :
    ∃ k, j ≤ k ∧ l.pFDs[k]? = some p := by
  obtain ⟨kept, added, hpFDs, hkept, hadded⟩ := h.parts
  have hj : j < kept.length := by
    by_contra hj
    rw [hpFDs, List.getElem?_append_right (Nat.le_of_not_lt hj)] at hp
    exact absurd (hadded p (List.mem_of_getElem? hp)).2 (Nat.not_le_of_lt hreg)
  rw [hpFDs, List.getElem?_append_left hj] at hp
  obtain ⟨f, hf⟩ := List.sublist_iff_exists_orderEmbedding_getElem?_eq.mp hkept
  exact ⟨f j, StrictMono.le_apply f.strictMono, by rw [← hf, hp]⟩

/-- A registration stands at one index. -/
theorem Shape.unique {pipe : Int} (h : Shape pipe l) (hp : l.pFDs[j]? = some p) (hq : l.pFDs[k]? = some q)
    (hreg : p.reg = q.reg) : j = k ∧ p = q := by
  have hj : j < (l.pFDs.map PollFD.reg).length := by
    rw [List.length_map]
    exact (List.getElem?_eq_some_iff.mp hp).1
  have hjk : j = k := by
    apply (List.getElem?_inj hj h.nodup).mp
    rw [List.getElem?_map, List.getElem?_map, hp, hq, Option.map_some, Option.map_some, hreg]
  subst hjk
  rw [hp] at hq
  exact ⟨rfl, Option.some.inj hq⟩

/-- Each element but the self-pipe has a source. -/
theorem Shape.source {pipe : Int} (h : Shape pipe l) (hp : l.pFDs[j]? = some p) (hj : 0 < j) : p.fd ∈ l.fdSources := by
  obtain ⟨first, rest, hpFDs, _, _, hsources⟩ := h.pFDs_eq
  obtain ⟨j, rfl⟩ := Nat.exists_eq_add_one.mpr hj
  rw [hpFDs, List.getElem?_cons_succ] at hp
  rw [hsources]
  exact List.mem_map_of_mem (List.mem_of_getElem? hp)

end Frame

section Conditions

variable (s : Pass) (q : PollFD)

/-- A descriptor that is yet to be looked at gets to the index that the callback is for,
or before it. -/
def Label.Slides : Label → Prop
  | .callback ops => ∃ j j', s.i < j ∧ s.loop.pFDs[j]? = some q ∧ j' ≤ s.i ∧ (s.loop.applyAll ops).pFDs[j']? = some q
  | _ => False

/-- The descriptor that the callback is for gets to another index. -/
def Label.Moves : Label → Prop
  | .callback ops => s.loop.pFDs[s.i]? = some q ∧ ∃ j', j' ≠ s.i ∧ (s.loop.applyAll ops).pFDs[j']? = some q
  | _ => False

end Conditions

def Label.isSignals : Label → Bool
  | .signals _ => true
  | _ => false

/-- Handlers do not delete the loop's own pipe, which they do not know. -/
def Label.SparesPipe (pipe : Int) : Label → Prop
  | .callback ops => ∀ op ∈ ops, op ≠ .del pipe
  | .signals ops => ∀ op ∈ ops, op ≠ .del pipe
  | .skip => True

/-- What holds in each state of a run, whatever the handlers do. -/
structure Valid (start : EventLoop) (pipe : Int) (s : Pass) : Prop where
  shape : Shape pipe s.loop
  pos : 0 < s.i
  regs_le : start.regs ≤ s.loop.regs
  ready : ∀ p ∈ s.loop.pFDs, p.revents ≠ 0 → p ∈ start.pFDs
  only : ∀ c ∈ s.loop.calls, c.revents ≠ 0 ∧ ⟨c.fd, c.revents, c.reg⟩ ∈ start.pFDs

section Valid

variable {start : EventLoop} {pipe : Int} {l l' : EventLoop} {i : Nat} {p : PollFD} {s s' : Pass} {a : Label}

theorem Evolves.ready (h : Evolves l l') (hp : p ∈ l'.pFDs) (hrevents : p.revents ≠ 0) : p ∈ l.pFDs := by
  obtain ⟨kept, added, hpFDs, hkept, hadded⟩ := h.parts
  rw [hpFDs] at hp
  rcases List.mem_append.mp hp with hp | hp
  · exact hkept.subset hp
  · exact absurd (hadded p hp).1 hrevents

theorem EventLoop.clear_ready (hp : p ∈ (l.clear i).pFDs) (hrevents : p.revents ≠ 0) : p ∈ l.pFDs := by
  obtain ⟨j, hj⟩ := List.mem_iff_getElem?.mp hp
  obtain ⟨q, hq, rfl⟩ := EventLoop.getElem?_clear hj
  split at hrevents
  · exact absurd rfl hrevents
  · rename_i hne
    rw [if_neg hne]
    exact List.mem_of_getElem? hq

/-- A pass keeps its index within the table. -/
theorem Valid.step (h : Valid start pipe s) (hpipe : a.SparesPipe pipe) (hstep : Step s a s') :
    Valid start pipe s' := by
  cases hstep with
  | skip hp hrevents => exact ⟨h.shape, Nat.succ_pos _, h.regs_le, h.ready, h.only⟩
  | unknown hp hrevents hsource =>
    exact absurd (h.shape.source hp h.pos) hsource
  | @callback i l p ops hp hrevents hsource =>
    have hevolves := Evolves.applyAll (l.call p) ops
    refine ⟨?_, Nat.succ_pos _, Nat.le_trans h.regs_le hevolves.regs_le, ?_, ?_⟩
    · rw [EventLoop.call_applyAll]
      exact ((h.shape.applyAll hpipe).call p).clear i
    · intro p' hp' hrevents'
      exact h.ready p' (hevolves.ready (EventLoop.clear_ready hp' hrevents') hrevents') hrevents'
    · intro c hc
      rw [EventLoop.clear_calls, hevolves.calls_eq] at hc
      rcases List.mem_append.mp hc with hc | hc
      · exact h.only c hc
      · rw [List.mem_singleton.mp hc]
        exact ⟨hrevents, h.ready p (List.mem_of_getElem? hp) hrevents⟩
  | @signals i l ops hi =>
    have hevolves := Evolves.applyAll l ops
    refine ⟨h.shape.applyAll hpipe, Nat.one_pos, Nat.le_trans h.regs_le hevolves.regs_le, ?_, ?_⟩
    · intro p hp hrevents
      exact h.ready p (hevolves.ready hp hrevents) hrevents
    · rw [hevolves.calls_eq]
      exact h.only

end Valid

end ServiceManager.Event
