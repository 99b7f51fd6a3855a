import Mathlib.Algebra.Group.Nat.Defs
import ServiceManager.Event.Tables

namespace ServiceManager.Event

open Memory

/-- A descriptor with the events it was added with. -/
structure Registration where
  handler : Nat
  fd : Int
  events : BitVec 32
deriving DecidableEq

namespace Registration

variable (r : Registration)

def source : FDSource :=
  { handler := r.handler, fd := r.fd }

/-- The events are those that `struct pollfd` has room for. -/
def pollfd : Pollfd :=
  { fd := r.fd, events := r.events.setWidth 16, revents := 0 }

/-- Nothing is lost of events that `poll` knows. -/
theorem events_pollfd {r : Registration} (h : r.events.toNat < 2 ^ 16) : r.pollfd.events.setWidth 32 = r.events := by
  apply BitVec.eq_of_toNat_eq
  have hlt : r.events.toNat < 2 ^ 32 := r.events.isLt
  rw [pollfd, BitVec.toNat_setWidth, BitVec.toNat_setWidth, Nat.mod_eq_of_lt h, Nat.mod_eq_of_lt hlt]

end Registration

/-- A call of `addFD` or of `delFD`, with the block that `realloc` returns. -/
inductive WatchOp where
  | add (r : Registration) (newPFDs : Block)
  | del (fd : Int)

def WatchOp.fd : WatchOp → Int
  | .add r _ => r.fd
  | .del fd => fd

/-- What a call does to the list of what is registered: the earliest registration of a
descriptor is deleted. -/
def register (regs : List Registration) : WatchOp → List Registration
  | .add r _ => regs ++ [r]
  | .del fd => regs.eraseP fun r => r.fd = fd

/-- The self-pipe's element. -/
def pipePollfd (pipe : Int) : Pollfd :=
  { fd := pipe, events := BitVec.ofNat 16 POLLIN, revents := 0 }

namespace PollLoop

/-- Memory does not run out. -/
def watch (s : PollLoop) : WatchOp → Int × PollLoop
  | .add r newPFDs => s.addFD r.handler r.fd r.events (.ok newPFDs) true
  | .del fd => s.delFD fd

/-- Both tables are those of a list of registrations; the array has the self-pipe in front. -/
structure Corresponds (pipe : Int) (s : PollLoop) (regs : List Registration) : Prop where
  nPFDs : s.nPFDs = regs.length + 1
  entries : s.entries = (pipePollfd pipe :: regs.map Registration.pollfd).map some
  fdSources : s.fdSources = regs.map Registration.source

section Calls

variable {pipe fd : Int} {s : PollLoop} {regs : List Registration} {r : Registration} {b : Block}

theorem entries_addFD (h : 0 ≤ s.nPFDs) :
    (s.addFD r.handler r.fd r.events (.ok b) true).2.entries = s.entries ++ [some r.pollfd] := by
  have hsucc : (s.nPFDs + 1).toNat = s.nPFDs.toNat + 1 := by omega
  have hkept : contents (b.contents s.nPFDs.toNat s.pFDs) s.nPFDs.toNat = s.entries :=
    contents_congr fun i hi => if_pos hi
  change contents (Function.update _ s.nPFDs.toNat (some r.pollfd)) (s.nPFDs + 1).toNat = _
  rw [hsucc, contents_succ_update, hkept]

/-- The element that is found goes, from the array as from a list. -/
theorem entries_delFD : (s.delFD fd).2.entries = s.entries.eraseP fun p => p.any fun p => p.fd = fd := by
  rw [List.eraseP_eq_eraseIdx, ← findFD, delFD]
  cases hfind : s.findFD fd with
  | none => rfl
  | some i =>
    obtain ⟨hi, _⟩ := List.findIdx?_eq_some_iff_getElem.mp hfind
    rw [entries, length_contents] at hi
    have hpred : (s.nPFDs - 1).toNat = s.nPFDs.toNat - 1 := by omega
    change contents _ (s.nPFDs - 1).toNat = _
    rw [hpred, contents_memmove hi, entries]

theorem fdSources_delFD : (s.delFD fd).2.fdSources = s.fdSources.eraseP fun src => src.fd = fd := by
  unfold delFD
  split <;> rfl

namespace Corresponds

theorem add (h : s.Corresponds pipe regs) (r : Registration) (b : Block) :
    (s.watch (.add r b)).2.Corresponds pipe (register regs (.add r b)) where
  nPFDs := by
    change s.nPFDs + 1 = _
    rw [h.nPFDs, register, List.length_append, List.length_singleton]
    rfl
  entries := by
    have hnonneg : 0 ≤ s.nPFDs := by
      rw [h.nPFDs]
      omega
    rw [watch, entries_addFD hnonneg, h.entries, register]
    simp
  fdSources := by
    change s.fdSources ++ [r.source] = _
    rw [h.fdSources, register, List.map_append, List.map_singleton]

variable (h : s.Corresponds pipe regs) (hpipe : fd ≠ pipe)

include h hpipe

/-- An element of the array is found if there is a registration. -/
theorem findFD_isSome_iff : (s.findFD fd).isSome ↔ ∃ r ∈ regs, r.fd = fd := by
  have hself : pipe ≠ fd := Ne.symm hpipe
  rw [findFD, List.findIdx?_isSome, h.entries]
  simp [pipePollfd, Registration.pollfd, hself]

theorem erased : (s.entries.eraseP fun p => p.any fun p => p.fd = fd) =
    (pipePollfd pipe :: (regs.eraseP fun r => r.fd = fd).map Registration.pollfd).map some := by
  have hself : ¬((some (pipePollfd pipe)).any fun p => p.fd = fd) = true := by simpa [pipePollfd] using Ne.symm hpipe
  rw [h.entries, List.map_cons, List.eraseP_cons_of_neg hself, List.map_map, List.eraseP_map, List.map_cons,
    List.map_map]
  rfl

theorem del (hreg : ∃ r ∈ regs, r.fd = fd) :
    (s.delFD fd).1 = 0 ∧ (s.delFD fd).2.Corresponds pipe (regs.eraseP fun r => r.fd = fd) := by
  obtain ⟨i, hfind⟩ := Option.isSome_iff_exists.mp ((h.findFD_isSome_iff hpipe).mpr hreg)
  have hresult : (s.delFD fd).1 = 0 := by
    rw [delFD, hfind]
  have hcount : (s.delFD fd).2.nPFDs = s.nPFDs - 1 := by
    rw [delFD, hfind]
  have hlength : (regs.eraseP fun r => r.fd = fd).length = regs.length - 1 := by
    obtain ⟨r, hr, hfd⟩ := hreg
    exact List.length_eraseP_of_mem hr (decide_eq_true hfd)
  refine ⟨hresult, ⟨?_, ?_, ?_⟩⟩
  · obtain ⟨r, hr, _⟩ := hreg
    have hpos : 0 < regs.length := List.length_pos_of_mem hr
    rw [hcount, h.nPFDs, hlength]
    omega
  · rw [entries_delFD, h.erased hpipe]
  · rw [fdSources_delFD, h.fdSources, List.eraseP_map]
    rfl

theorem del_none (hreg : ¬∃ r ∈ regs, r.fd = fd) :
    (s.delFD fd).1 = -ENOENT ∧ (s.delFD fd).2.toSources = s.toSources ∧ (s.delFD fd).2.nPFDs = s.nPFDs ∧
      (s.delFD fd).2.pFDs = s.pFDs := by
  have hfind : s.findFD fd = none := by
    rw [← Option.not_isSome_iff_eq_none, h.findFD_isSome_iff hpipe]
    exact hreg
  have hnone : (regs.eraseP fun r => r.fd = fd) = regs := by
    refine List.eraseP_of_forall_not fun r hr hfd => hreg ⟨r, hr, of_decide_eq_true hfd⟩
  have hsources : (s.fdSources.eraseP fun src => src.fd = fd) = s.fdSources := by
    rw [h.fdSources, List.eraseP_map]
    exact congrArg _ hnone
  rw [delFD, hfind]
  refine ⟨rfl, ?_, rfl, rfl⟩
  simp only [touch, hsources]

theorem watch_del : (s.watch (.del fd)).2.Corresponds pipe (register regs (.del fd)) := by
  by_cases hreg : ∃ r ∈ regs, r.fd = fd
  · exact (h.del hpipe hreg).2
  · obtain ⟨_, hsources, hnPFDs, hpFDs⟩ := h.del_none hpipe hreg
    have hnone : (regs.eraseP fun r => r.fd = fd) = regs := by
      refine List.eraseP_of_forall_not fun r hr hfd => hreg ⟨r, hr, of_decide_eq_true hfd⟩
    rw [register, hnone]
    refine ⟨hnPFDs.trans h.nPFDs, ?_, (congrArg Sources.fdSources hsources).trans h.fdSources⟩
    change contents (s.delFD fd).2.pFDs (s.delFD fd).2.nPFDs.toNat = _
    rw [hnPFDs, hpFDs]
    exact h.entries

end Corresponds

theorem Corresponds.step (h : s.Corresponds pipe regs) {op : WatchOp} (hpipe : op.fd ≠ pipe) :
    (s.watch op).2.Corresponds pipe (register regs op) := by
  cases op with
  | add r b => exact h.add r b
  | del fd => exact h.watch_del hpipe

theorem Corresponds.run (h : s.Corresponds pipe regs) (ops : List WatchOp) (hpipe : ∀ op ∈ ops, op.fd ≠ pipe) :
    (ops.foldl (fun s op => (s.watch op).2) s).Corresponds pipe (ops.foldl register regs) := by
  induction ops generalizing s regs with
  | nil => exact h
  | cons op ops ih =>
    obtain ⟨hop, hops⟩ := List.forall_mem_cons.mp hpipe
    exact ih (h.step hop) hops

end Calls

/-- A loop that `init` has just set up, where nothing fails. -/
def initialised (pipe nPFDs : Int) (pFDs : Nat → Option Pollfd) (block : Block) : PollLoop :=
  ((new nPFDs pFDs).init (.ok pipe) true (.ok ()) (.ok block)).2

theorem corresponds_initialised (pipe nPFDs : Int) (pFDs : Nat → Option Pollfd) (block : Block) :
    (initialised pipe nPFDs pFDs block).Corresponds pipe [] where
  nPFDs := rfl
  entries := rfl
  fdSources := rfl

/-- After any calls of `addFD` and `delFD` that are not for the self-pipe, the array and the
list are those of the registrations, in order and with their events. `delFD` returns 0 and
deletes the earliest registration of its descriptor from both; where there is none it returns
`-ENOENT` and changes neither. -/
theorem watch_corresponds (pipe nPFDs : Int) (pFDs : Nat → Option Pollfd) (block : Block) (ops : List WatchOp)
    (hpipe : ∀ op ∈ ops, op.fd ≠ pipe) :
    ∃ s regs, s = ops.foldl (fun s op => (s.watch op).2) (initialised pipe nPFDs pFDs block) ∧
      regs = ops.foldl register [] ∧
      s.Corresponds pipe regs ∧
      (∀ r ∈ regs, r.events.toNat < 2 ^ 16 → r.pollfd.events.setWidth 32 = r.events) ∧
      ∀ fd, fd ≠ pipe →
        ((∃ r ∈ regs, r.fd = fd) →
          (s.delFD fd).1 = 0 ∧ (s.delFD fd).2.Corresponds pipe (regs.eraseP fun r => r.fd = fd)) ∧
        ((¬∃ r ∈ regs, r.fd = fd) →
          (s.delFD fd).1 = -ENOENT ∧ (s.delFD fd).2.toSources = s.toSources ∧ (s.delFD fd).2.nPFDs = s.nPFDs ∧
            (s.delFD fd).2.pFDs = s.pFDs) := by
  have hrun := (corresponds_initialised pipe nPFDs pFDs block).run ops hpipe
  refine ⟨_, _, rfl, rfl, hrun, fun r _ hfits => Registration.events_pollfd hfits, fun fd hfd => ⟨?_, ?_⟩⟩
  · exact hrun.del hfd
  · exact hrun.del_none hfd

/-- A descriptor is added twice, and deleted. -/
theorem watch_corresponds_twice :
    ∃ s : PollLoop, s.Corresponds 3 [⟨7, 5, 1⟩, ⟨8, 6, 4⟩, ⟨9, 5, 4⟩] ∧ (s.delFD 5).1 = 0 ∧
      (s.delFD 5).2.Corresponds 3 [⟨8, 6, 4⟩, ⟨9, 5, 4⟩] := by
  let block : Block := { moved := false, beyond := fun _ => none }
  obtain ⟨s, regs, _, rfl, hs, _, hdel⟩ := watch_corresponds 3 0 (fun _ => none) block
    [.add ⟨7, 5, 1⟩ block, .add ⟨8, 6, 4⟩ block, .add ⟨9, 5, 4⟩ block] (by decide)
  obtain ⟨hresult, hdeleted⟩ := (hdel 5 (by decide)).1 ⟨⟨7, 5, 1⟩, by decide, rfl⟩
  exact ⟨s, hs, hresult, hdeleted⟩

/-- A mask that does not fit `short events` is not the one that is stored. -/
theorem watch_mask_cut : ∃ (s : PollLoop) (p : Pollfd),
    s = ((initialised 3 0 (fun _ => none) { moved := false, beyond := fun _ => none }).watch
      (.add ⟨7, 5, 0x10001⟩ { moved := false, beyond := fun _ => none })).2 ∧
    s.pFDs 1 = some p ∧ p.fd = 5 ∧ p.events = 1 ∧ p.events.setWidth 32 ≠ 0x10001#32 :=
  ⟨_, _, rfl, rfl, rfl, rfl, by decide⟩

end PollLoop

end ServiceManager.Event
