import Mathlib.Data.List.Nodup
import ServiceManager.Event.KQueue

namespace ServiceManager.Event

open Trace

/-- The timers that are yet to expire are the same in both drivers, after `n` were added.
The sources of the Poll driver are `srcs`, with entries of their own. Those of the KQueue
driver are `ksrcs`; several may have drawn the same number, of which the kernel knows the
last. -/
structure SameTimers (n : Nat) (srcs : List TimerSource) (timers : Nat → TimerEntry) (running : Nat → Option Nat)
    (ksrcs : List TimerSource) (ktimers idents : Nat → Option Nat) : Prop where
  regs_eq : ksrcs.map TimerSource.handler = srcs.map TimerSource.handler
  regs : (srcs.map TimerSource.handler).Nodup
  regs_lt : ∀ src ∈ srcs, src.handler < n
  ids : (srcs.map TimerSource.id).Nodup
  ids_lt : ∀ src ∈ srcs, src.id < 255
  valid : ∀ id, (timers id).valid = true ↔ ∃ src ∈ srcs, src.id = id
  idle : ∀ id, (timers id).valid = true → (timers id).fired = false
  running_iff : ∀ reg id, running reg = some id ↔ { handler := reg, id } ∈ srcs
  ktimers_eq : ∀ id, ktimers id = (ksrcs.filter fun src => src.id = id).getLast?.map TimerSource.handler
  idents_eq : ∀ src ∈ ksrcs, idents src.handler = some src.id

/-- The two drivers have the same sources, and what the kernel has of them agrees. -/
structure Related (s : Drivers) : Prop where
  quiet : s.poll.sig.Quiet
  fdSources : s.kqueue.fdSources = s.poll.fdSources
  polled : ∀ p ∈ s.poll.pFDs, ∃ src ∈ s.poll.fdSources, src.fd = p.fd
  reads : ∀ fd, fd ∈ s.kqueue.reads ↔ ∃ p ∈ s.poll.pFDs, p.Reads fd
  sigSources : s.kqueue.sigSources = s.poll.sig.sigSources
  signals : ∀ n, n ∈ s.kqueue.signals ↔ ∃ src ∈ s.poll.sig.sigSources, src.sigNum = n
  timers : SameTimers s.handlers.length s.poll.sig.timerSources s.poll.sig.timers s.poll.running
    s.kqueue.timerSources s.kqueue.timers s.kqueue.idents

section Callbacks

variable {s : Drivers}

/-- A callback without any number. -/
def Callback.bare : Callback → Callback
  | .timer reg _ => .timer reg 0
  | callback => callback

theorem named_eq_iff {handlers : List Nat} {l l' : List Callback} :
    l.map (Callback.named handlers) = l'.map (Callback.named handlers) ↔
    l.map Callback.bare = l'.map Callback.bare := by
  have hnamed : Callback.named handlers = Callback.named handlers ∘ Callback.bare := by
    funext callback
    cases callback <;> rfl
  have hbare : ∃ f, Callback.bare = f ∘ Callback.named handlers := by
    refine ⟨fun | .timer _ reg => .timer reg 0 | callback => callback, ?_⟩
    funext callback
    cases callback <;> rfl
  constructor
  · intro h
    obtain ⟨f, hf⟩ := hbare
    rw [hf, ← List.map_map, ← List.map_map, h]
  · intro h
    rw [hnamed, ← List.map_map, ← List.map_map, h]

/-- Drivers that have agreed so far agree if they make the same callbacks now. -/
theorem agree_append_iff {s' : Drivers} (made made' : List Callback) (h : s.Agree)
    (hpoll : s'.poll.sig.callbacks = s.poll.sig.callbacks ++ made)
    (hkqueue : s'.kqueue.callbacks = s.kqueue.callbacks ++ made') (halive : s'.killed = s.killed) :
    s'.Agree ↔ made.map Callback.bare = made'.map Callback.bare := by
  have hold := named_eq_iff.mp h.callbacks
  have hnew : s'.poll.sig.callbacks.map (Callback.named s'.handlers) =
      s'.kqueue.callbacks.map (Callback.named s'.handlers) ↔
      made.map Callback.bare = made'.map Callback.bare := by
    rw [named_eq_iff, hpoll, hkqueue, List.map_append, List.map_append, hold]
    exact List.append_right_inj _
  exact ⟨fun hagree => hnew.mp hagree.callbacks, fun hmade => ⟨hnew.mpr hmade, halive.trans h.alive⟩⟩

theorem agree_same {s' : Drivers} (h : s.Agree) (hpoll : s'.poll.sig.callbacks = s.poll.sig.callbacks)
    (hkqueue : s'.kqueue.callbacks = s.kqueue.callbacks) (halive : s'.killed = s.killed) : s'.Agree :=
  (agree_append_iff [] [] h (by rw [hpoll, List.append_nil]) (by rw [hkqueue, List.append_nil]) halive).mpr rfl

end Callbacks

/-- All of a list is its first element. -/
theorem map_eq_head_iff {α β : Type} (l : List α) (f : α → β) : l.map f = l.head?.toList.map f ↔ l.length ≤ 1 := by
  cases l with
  | nil => simp
  | cons a rest =>
    cases rest with
    | nil => simp
    | cons => simp

/-- Each element of a list gives the same, and there is one. -/
theorem flatMap_eq_single_iff {α β γ : Type} {l : List α} (hl : l ≠ []) (b : β) (f : β → γ) :
    (l.flatMap fun _ => [b]).map f = [b].map f ↔ l.length ≤ 1 := by
  have hconst : (l.flatMap fun _ => [b]) = l.map fun _ => b := List.map_eq_flatMap.symm
  obtain ⟨a, hhead⟩ := Option.isSome_iff_exists.mp (List.isSome_head?.mpr hl)
  have hfirst : [b].map f = l.head?.toList.map fun _ => f b := by
    rw [hhead]
    rfl
  rw [hconst, hfirst, List.map_map]
  exact map_eq_head_iff l fun _ => f b

section Sources

variable {srcs : List TimerSource} {src : TimerSource}

theorem source_unique (hregs : (srcs.map TimerSource.handler).Nodup) {src' : TimerSource} (hsrc : src ∈ srcs)
    (hsrc' : src' ∈ srcs)
    (heq : src'.handler = src.handler) : src' = src :=
  List.inj_on_of_nodup_map hregs hsrc' hsrc heq

/-- The first source of an identifier is taken out, which is the only one. -/
theorem eraseP_eq_filter (hregs : (srcs.map TimerSource.handler).Nodup) (hsrc : src ∈ srcs)
    (halone : ∀ src' ∈ srcs, src'.id = src.id → src' = src) :
    (srcs.eraseP fun src' => src'.id = src.id) = srcs.filter fun src' => src'.handler ≠ src.handler := by
  induction srcs with
  | nil => cases hsrc
  | cons a srcs ih =>
    obtain ⟨hnew, hnodup⟩ := List.nodup_cons.mp hregs
    by_cases hid : a.id = src.id
    · obtain rfl := halone a List.mem_cons_self hid
      have hrest : ∀ src' ∈ srcs, src'.handler ≠ a.handler :=
        fun src' hsrc' heq => hnew (heq ▸ List.mem_map_of_mem hsrc')
      have hkept : srcs.filter (fun src' => src'.handler ≠ a.handler) = srcs := by
        rw [List.filter_eq_self]
        intro src' hsrc'
        exact decide_eq_true (hrest src' hsrc')
      rw [List.eraseP_cons_of_pos (by simp), List.filter_cons_of_neg (by simp), hkept]
    · have hne : a ≠ src := fun heq => hid (congrArg TimerSource.id heq)
      have hmem : src ∈ srcs := (List.mem_cons.mp hsrc).resolve_left (Ne.symm hne)
      have hhandler : a.handler ≠ src.handler := fun heq => hnew (heq ▸ List.mem_map_of_mem hmem)
      rw [List.eraseP_cons_of_neg (by simpa using hid), List.filter_cons_of_pos (by simpa using hhandler),
        ih hnodup hmem fun src' hsrc' => halone src' (List.mem_cons_of_mem _ hsrc')]

theorem find?_alone (hsrc : src ∈ srcs) (halone : ∀ src' ∈ srcs, src'.id = src.id → src' = src) :
    (srcs.find? fun src' => src'.id = src.id) = some src := by
  cases hfind : srcs.find? fun src' => src'.id = src.id with
  | none => exact absurd (decide_eq_true rfl) (List.find?_eq_none.mp hfind src hsrc)
  | some src' =>
    have hid : src'.id = src.id := by simpa using List.find?_some hfind
    rw [halone src' (List.mem_of_find?_eq_some hfind) hid]

theorem nodup_map_append {f : TimerSource → Nat} (hnodup : (srcs.map f).Nodup) (hnew : ∀ src' ∈ srcs, f src' ≠ f src) :
    ((srcs ++ [src]).map f).Nodup := by
  rw [List.map_append, List.nodup_append']
  refine ⟨hnodup, by simp, fun a ha hmem => ?_⟩
  obtain ⟨src', hsrc', rfl⟩ := List.mem_map.mp ha
  exact hnew src' hsrc' (by simpa using hmem)

/-- What comes last of several is not what comes first. -/
theorem head_ne_getLast {a : TimerSource} {rest : List TimerSource}
    (hregs : ((a :: rest).map TimerSource.handler).Nodup)
    (hrest : rest ≠ []) : (a :: rest).getLast?.map TimerSource.handler ≠ some a.handler := by
  intro heq
  obtain ⟨hnew, _⟩ := List.nodup_cons.mp hregs
  rw [List.getLast?_eq_some_getLast (by simp), List.getLast_cons hrest] at heq
  exact hnew (Option.some_inj.mp heq ▸ List.mem_map_of_mem (List.getLast_mem hrest))

end Sources

namespace SameTimers

variable {n : Nat} {srcs ksrcs : List TimerSource} {timers : Nat → TimerEntry}
    {running ktimers idents : Nat → Option Nat}
  (h : SameTimers n srcs timers running ksrcs ktimers idents)

include h

theorem kregs : (ksrcs.map TimerSource.handler).Nodup :=
  h.regs_eq ▸ h.regs

theorem exists_kqueue {reg id : Nat} (hsrc : { handler := reg, id } ∈ srcs) :
    ∃ drawn, { handler := reg, id := drawn } ∈ ksrcs := by
  have hmem : reg ∈ ksrcs.map TimerSource.handler := h.regs_eq ▸ List.mem_map_of_mem hsrc
  obtain ⟨src, hfound, rfl⟩ := List.mem_map.mp hmem
  exact ⟨src.id, hfound⟩

theorem exists_poll {reg drawn : Nat} (hsrc : { handler := reg, id := drawn } ∈ ksrcs) :
    ∃ id, { handler := reg, id } ∈ srcs := by
  have hmem : reg ∈ srcs.map TimerSource.handler := h.regs_eq ▸ List.mem_map_of_mem hsrc
  obtain ⟨src, hfound, rfl⟩ := List.mem_map.mp hmem
  exact ⟨src.id, hfound⟩

theorem reg_ne {src : TimerSource} (hsrc : src ∈ srcs) : src.handler ≠ n :=
  Nat.ne_of_lt (h.regs_lt src hsrc)

/-- A timer is added to both, with an entry that is free. -/
theorem add {entryId : Nat} (drawn : Nat) (hlt : entryId < 255) (hfree : (timers entryId).valid = false) :
    SameTimers (n + 1) (srcs ++ [{ handler := n, id := entryId }])
      (Function.update timers entryId { valid := true, fired := false }) (Function.update running n (some entryId))
      (ksrcs ++ [{ handler := n, id := drawn }]) (Function.update ktimers drawn (some n))
      (Function.update idents n (some drawn)) := by
  have hid : ∀ src ∈ srcs, src.id ≠ entryId := by
    intro src hsrc heq
    rw [(h.valid entryId).mpr ⟨src, hsrc, heq⟩] at hfree
    cases hfree
  constructor
  · simp [h.regs_eq]
  · exact nodup_map_append h.regs fun src hsrc => h.reg_ne hsrc
  · intro src hsrc
    rcases List.mem_append.mp hsrc with hsrc | hsrc
    · have hold := h.regs_lt src hsrc
      omega
    · simp [List.mem_singleton.mp hsrc]
  · exact nodup_map_append h.ids hid
  · intro src hsrc
    rcases List.mem_append.mp hsrc with hsrc | hsrc
    · exact h.ids_lt src hsrc
    · rw [List.mem_singleton.mp hsrc]
      exact hlt
  · intro id
    by_cases heq : id = entryId
    · simp [heq]
    · simp [Function.update_of_ne heq, h.valid, Ne.symm heq]
  · intro id
    by_cases heq : id = entryId
    · simp [heq]
    · simpa [Function.update_of_ne heq] using h.idle id
  · intro reg id
    by_cases heq : reg = n
    · have hnot : { handler := n, id } ∉ srcs := fun hsrc => h.reg_ne hsrc rfl
      simp [heq, hnot, eq_comm]
    · simp [h.running_iff, heq]
  · intro id
    by_cases heq : id = drawn
    · simp [heq]
    · simp [Function.update_of_ne heq, h.ktimers_eq, Ne.symm heq]
  · intro src hsrc
    rcases List.mem_append.mp hsrc with hsrc | hsrc
    · obtain ⟨id, hpoll⟩ := h.exists_poll hsrc
      exact (Function.update_of_ne (h.reg_ne hpoll) _ _).trans (h.idents_eq src hsrc)
    · rw [List.mem_singleton.mp hsrc]
      exact Function.update_self _ _ _

/-- The source of a timer in the Poll driver is the only one with its entry. -/
theorem poll_alone {src : TimerSource} (hsrc : src ∈ srcs) : ∀ src' ∈ srcs, src'.id = src.id → src' = src :=
  fun _ hsrc' heq => List.inj_on_of_nodup_map h.ids hsrc' hsrc heq

section Expire

variable {reg drawn : Nat} (hksrc : { handler := reg, id := drawn } ∈ ksrcs)

include hksrc

/-- The kernel has the filter of the timer, and it is the first source that is found. -/
theorem ktimers_alone (halone : ∀ src' ∈ ksrcs, src'.id = drawn → src' = { handler := reg, id := drawn }) :
    ktimers drawn = some reg := by
  have hmem : { handler := reg, id := drawn } ∈ ksrcs.filter fun src => src.id = drawn := by simpa using hksrc
  rw [h.ktimers_eq, List.getLast?_eq_some_getLast (List.ne_nil_of_mem hmem), Option.map_some]
  have hlast := List.mem_filter.mp (List.getLast_mem (List.ne_nil_of_mem hmem))
  rw [halone _ hlast.1 (of_decide_eq_true hlast.2)]

/-- A timer that shares its number is not found, whether the kernel has its filter or not. -/
theorem find?_shared {src' : TimerSource} (hsrc' : src' ∈ ksrcs) (hid : src'.id = drawn)
    (hne : src' ≠ { handler := reg, id := drawn }) (hfilter : ktimers drawn = some reg) :
    ∃ src, (ksrcs.find? fun src => src.id = drawn) = some src ∧ src.handler ≠ reg := by
  have hmem : { handler := reg, id := drawn } ∈ ksrcs.filter fun src => src.id = drawn := by simpa using hksrc
  have hmem' : src' ∈ ksrcs.filter fun src => src.id = drawn := by simpa [hid] using hsrc'
  have hregs : ((ksrcs.filter fun src => src.id = drawn).map TimerSource.handler).Nodup :=
    h.kregs.sublist (List.filter_sublist.map _)
  rw [h.ktimers_eq] at hfilter
  rw [← List.head?_filter]
  cases hcases : ksrcs.filter fun src => src.id = drawn with
  | nil =>
    rw [hcases] at hmem
    cases hmem
  | cons a rest =>
    rw [hcases] at hmem hmem' hregs hfilter
    refine ⟨a, rfl, fun hreg => ?_⟩
    by_cases hrest : rest = []
    · rw [hrest, List.mem_singleton] at hmem hmem'
      exact hne (hmem'.trans hmem.symm)
    · exact head_ne_getLast hregs hrest (hreg ▸ hfilter)

/-- A timer that has drawn a number of its own expires. -/
theorem expire {id : Nat} (hsrc : { handler := reg, id } ∈ srcs)
    (halone : ∀ src' ∈ ksrcs, src'.id = drawn → src' = { handler := reg, id := drawn }) :
    SameTimers n (srcs.eraseP fun src => src.id = id) (Function.update timers id {}) (Function.update running reg none)
      (ksrcs.eraseP fun src => src.id = drawn) (Function.update ktimers drawn none) idents := by
  have hpoll : (srcs.eraseP fun src => src.id = id) = srcs.filter fun src => src.handler ≠ reg :=
    eraseP_eq_filter h.regs hsrc (h.poll_alone hsrc)
  have hkqueue : (ksrcs.eraseP fun src => src.id = drawn) = ksrcs.filter fun src => src.handler ≠ reg :=
    eraseP_eq_filter h.kregs hksrc halone
  have hsub : ∀ src ∈ srcs.filter fun src => src.handler ≠ reg, src ∈ srcs :=
    fun src hmem => List.mem_of_mem_filter hmem
  rw [hpoll, hkqueue]
  constructor
  · have hmap : ∀ srcs : List TimerSource, (srcs.filter fun src => src.handler ≠ reg).map TimerSource.handler =
        (srcs.map TimerSource.handler).filter fun reg' => reg' ≠ reg := by
      intro srcs
      rw [List.filter_map]
      rfl
    rw [hmap, hmap, h.regs_eq]
  · exact h.regs.sublist (List.filter_sublist.map _)
  · exact fun src hmem => h.regs_lt src (hsub src hmem)
  · exact h.ids.sublist (List.filter_sublist.map _)
  · exact fun src hmem => h.ids_lt src (hsub src hmem)
  · intro id'
    by_cases heq : id' = id
    · subst heq
      have hnone : ¬∃ src ∈ srcs.filter fun src => src.handler ≠ reg, src.id = id' := by
        intro ⟨src, hmem, hid⟩
        have hkept := of_decide_eq_true (List.mem_filter.mp hmem).2
        exact hkept (congrArg TimerSource.handler (h.poll_alone hsrc src (hsub src hmem) hid))
      simpa using hnone
    · rw [Function.update_of_ne heq, h.valid]
      constructor
      · intro ⟨src, hmem, hid⟩
        refine ⟨src, List.mem_filter.mpr ⟨hmem, decide_eq_true fun hreg => heq ?_⟩, hid⟩
        rw [← hid, source_unique h.regs hsrc hmem hreg]
      · intro ⟨src, hmem, hid⟩
        exact ⟨src, hsub src hmem, hid⟩
  · intro id'
    by_cases heq : id' = id
    · simp [heq]
    · simpa [Function.update_of_ne heq] using h.idle id'
  · intro reg' id'
    by_cases heq : reg' = reg
    · simp [heq]
    · simp [h.running_iff, heq]
  · intro id'
    rw [List.filter_filter]
    by_cases heq : id' = drawn
    · have hnone : (ksrcs.filter fun src => decide (src.id = id') && decide (src.handler ≠ reg)) = [] := by
        rw [List.filter_eq_nil_iff]
        intro src hmem hkept
        obtain ⟨hid, hreg⟩ := Bool.and_eq_true_iff.mp hkept
        have hself := halone src hmem (heq ▸ of_decide_eq_true hid)
        exact of_decide_eq_true hreg (congrArg TimerSource.handler hself)
      rw [hnone, heq]
      simp
    · have hsame : (ksrcs.filter fun src => decide (src.id = id') && decide (src.handler ≠ reg)) =
          ksrcs.filter fun src => src.id = id' := by
        refine List.filter_congr fun src hmem => ?_
        by_cases hid : src.id = id'
        · have hreg : src.handler ≠ reg := fun hreg => heq (by rw [← hid, source_unique h.kregs hksrc hmem hreg])
          simp [hid, hreg]
        · simp [hid]
      rw [Function.update_of_ne heq, h.ktimers_eq, hsame]
  · intro src hmem
    exact h.idents_eq src (List.mem_of_mem_filter hmem)

end Expire

end SameTimers

section Step

variable {nsig : Nat} {s s' : Drivers} {reg id drawn : Nat}

namespace Related

variable (h : Related s)

include h

/-- A timer that is not there expires in neither driver. -/
theorem loop_expire_none (hrunning : s.poll.running reg = none) :
    (∀ src ∈ s.kqueue.timerSources, src.handler ≠ reg) ∧
      s.happen nsig (.expire reg) = some s := by
  have hgone : ∀ src ∈ s.kqueue.timerSources, src.handler ≠ reg := by
    rintro ⟨_, drawn⟩ hsrc rfl
    obtain ⟨id, hpoll⟩ := h.timers.exists_poll hsrc
    rw [(h.timers.running_iff _ id).mpr hpoll] at hrunning
    cases hrunning
  refine ⟨hgone, ?_⟩
  have hkqueue : (s.kqueue.expire reg).2.loop (s.kqueue.expire reg).1 = s.kqueue := by
    refine KQueue.loop_expire_gone fun drawn _ htimer => ?_
    rw [h.timers.ktimers_eq, Option.map_eq_some_iff] at htimer
    obtain ⟨src, hlast, hreg⟩ := htimer
    exact hgone src (List.mem_of_mem_filter (List.mem_of_getLast? hlast)) hreg
  rw [Drivers.happen, PollDriver.loop_expire_none h.quiet hrunning, hkqueue]

/-- What the Poll driver does about a timer. -/
theorem poll_loop_expire (hnsig : SIGALRM < nsig) (hsrc : { handler := reg, id } ∈ s.poll.sig.timerSources) :
    (s.poll.expire reg).loop nsig none =
      { s.poll with
        sig.timers := Function.update s.poll.sig.timers id {}
        sig.callbacks := s.poll.sig.callbacks ++ [.timer reg id]
        sig.timerSources := s.poll.sig.timerSources.eraseP fun src => src.id = id
        running := Function.update s.poll.running reg none } := by
  have hfind := find?_alone hsrc (h.timers.poll_alone hsrc)
  rw [PollDriver.loop_expire h.quiet hnsig ((h.timers.running_iff reg id).mpr hsrc),
    foldl_timerEvent_of_valid h.timers.idle (h.timers.ids_lt _ hsrc) ((h.timers.valid id).mpr ⟨_, hsrc, rfl⟩)]
  simp only at hfind
  rw [hfind]
  rfl

section Expire

variable (hnsig : SIGALRM < nsig) (hsrc : { handler := reg, id } ∈ s.poll.sig.timerSources)
  (hksrc : { handler := reg, id := drawn } ∈ s.kqueue.timerSources)
  (hstep : s.happen nsig (.expire reg) = some s')

include hnsig hsrc hksrc hstep

/-- A timer with a number of its own. -/
theorem expire_alone (hagree : s.Agree)
    (halone : ∀ src' ∈ s.kqueue.timerSources, src'.id = drawn → src' = { handler := reg, id := drawn }) :
    Related s' ∧ s'.Agree := by
  have hkqueue := KQueue.loop_expire (h.timers.idents_eq _ hksrc) (h.timers.ktimers_alone hksrc halone)
  have hfind := find?_alone hksrc halone
  simp only at hfind
  rw [hfind] at hkqueue
  rw [Drivers.happen, h.poll_loop_expire hnsig hsrc, hkqueue] at hstep
  obtain rfl := Option.some_inj.mp hstep
  refine ⟨?_, (agree_append_iff [.timer reg id] [.timer reg drawn] hagree rfl rfl (by rfl)).mpr rfl⟩
  exact ⟨⟨h.quiet.fired, h.quiet.signals⟩, h.fdSources, h.polled, h.reads, h.sigSources, h.signals,
    h.timers.expire hksrc hsrc halone⟩

/-- A timer that shares its number. -/
theorem expire_shared (hagree : s.Agree) {src' : TimerSource} (hsrc' : src' ∈ s.kqueue.timerSources)
    (hid : src'.id = drawn) (hne : src' ≠ { handler := reg, id := drawn }) : ¬s'.Agree := by
  rw [Drivers.happen, h.poll_loop_expire hnsig hsrc] at hstep
  by_cases hfilter : s.kqueue.timers drawn = some reg
  · obtain ⟨src, hfind, hother⟩ := h.timers.find?_shared hksrc hsrc' hid hne hfilter
    rw [KQueue.loop_expire (h.timers.idents_eq _ hksrc) hfilter, hfind] at hstep
    obtain rfl := Option.some_inj.mp hstep
    refine mt (agree_append_iff [.timer reg id] [.timer src.handler drawn] hagree rfl rfl (by rfl)).mp ?_
    simpa [Callback.bare] using Ne.symm hother
  · have hgone : ∀ id, s.kqueue.idents reg = some id → s.kqueue.timers id ≠ some reg := by
      intro id hident
      rw [h.timers.idents_eq _ hksrc] at hident
      exact Option.some_inj.mp hident ▸ hfilter
    rw [KQueue.loop_expire_gone hgone] at hstep
    have hpoll : s'.poll.sig.callbacks = s.poll.sig.callbacks ++ [.timer reg id] := by
      rw [← Option.some_inj.mp hstep]
    have hkqueue : s'.kqueue.callbacks = s.kqueue.callbacks ++ [] := by
      rw [← Option.some_inj.mp hstep, List.append_nil]
    have halive : s'.killed = s.killed := by
      rw [← Option.some_inj.mp hstep]
    rw [agree_append_iff _ _ hagree hpoll hkqueue halive]
    simp

end Expire

/-- Timers agree exactly if the one that expires shares its number with none. -/
theorem expire (hnsig : SIGALRM < nsig) (hagree : s.Agree) (hstep : s.happen nsig (.expire reg) = some s') :
    (s'.Agree ↔ s.Meets (.expire reg)) ∧ (s.Meets (.expire reg) → Related s') := by
  cases hrunning : s.poll.running reg with
  | none =>
    obtain ⟨hgone, hsame⟩ := h.loop_expire_none hrunning
    obtain rfl := Option.some_inj.mp (hsame.symm.trans hstep)
    have hmeets : s.Meets (.expire reg) := fun src hsrc _ _ hreg => absurd hreg (hgone src hsrc)
    exact ⟨iff_of_true hagree hmeets, fun _ => h⟩
  | some id =>
    have hsrc := (h.timers.running_iff reg id).mp hrunning
    obtain ⟨drawn, hksrc⟩ := h.timers.exists_kqueue hsrc
    by_cases halone : ∀ src' ∈ s.kqueue.timerSources, src'.id = drawn → src' = { handler := reg, id := drawn }
    · have hmeets : s.Meets (.expire reg) := by
        intro src hmem src' hmem' hreg hid
        obtain rfl := source_unique h.timers.kregs hksrc hmem hreg
        exact halone src' hmem' hid
      obtain ⟨hrelated, hagree'⟩ := h.expire_alone hnsig hsrc hksrc hstep hagree halone
      exact ⟨iff_of_true hagree' hmeets, fun _ => hrelated⟩
    · have hnot : ¬s.Meets (.expire reg) := by
        intro hmeets
        exact halone fun src' hmem' hid => hmeets _ hksrc src' hmem' rfl hid
      push Not at halone
      obtain ⟨src', hmem', hid, hne⟩ := halone
      exact ⟨iff_of_false (h.expire_shared hnsig hsrc hksrc hstep hagree hmem' hid hne) hnot,
        fun hmeets => absurd hmeets hnot⟩

/-- Callbacks alone do not matter to what happens later. -/
theorem callbacks (made made' : List Callback) (killed : Bool) :
    Related { s with poll.sig.callbacks := made, kqueue.callbacks := made', killed } :=
  ⟨⟨h.quiet.fired, h.quiet.signals⟩, h.fdSources, h.polled, h.reads, h.sigSources, h.signals, h.timers⟩

/-- Several handlers of a signal are all called by one driver, and the first by the other. -/
theorem signal {signum value : Nat} (hne : signum ≠ SIGALRM) (hagree : s.Agree)
    (hstep : s.happen nsig (.signal signum value) = some s') :
    (s'.Agree ↔ s.Meets (.signal signum value)) ∧ Related s' := by
  rw [Drivers.happen] at hstep
  split at hstep
  · rename_i hsignum
    rw [PollDriver.loop_raise h.quiet value hsignum hne, KQueue.loop_raise (h.sigSources ▸ h.signals signum)] at hstep
    obtain rfl := Option.some_inj.mp hstep
    refine ⟨?_, h.callbacks _ _ _⟩
    have halive : decide (signum = SIGALRM ∧ signum ∉ s.kqueue.signals) = s.killed :=
      (decide_eq_false fun hdies => hne hdies.1).trans hagree.alive.symm
    refine (agree_append_iff _ _ hagree rfl rfl halive).trans ?_
    rw [Drivers.Meets, and_iff_right hne, h.sigSources, ← List.head?_filter, List.map_map, List.map_map]
    exact map_eq_head_iff _ _
  · cases hstep

/-- The signal of timers is not dispatched as a signal by one driver; the process of the other
dies of it, unless it was added, and is dispatched then. -/
theorem alarm {value : Nat} (hagree : s.Agree) (hstep : s.happen nsig (.signal SIGALRM value) = some s') :
    ¬s'.Agree := by
  rw [Drivers.happen] at hstep
  split at hstep
  · rename_i hnsig
    rw [PollDriver.loop_raise_alarm h.quiet value hnsig, KQueue.loop_raise (h.sigSources ▸ h.signals SIGALRM)] at hstep
    cases hvalid : (s.poll.sig.timers value).valid with
    | true =>
      obtain ⟨src, hsrc, rfl⟩ := (h.timers.valid value).mp hvalid
      rw [foldl_timerEvent_of_valid h.timers.idle (h.timers.ids_lt src hsrc) hvalid,
        find?_alone hsrc (h.timers.poll_alone hsrc)] at hstep
      obtain rfl := Option.some_inj.mp hstep
      intro hagree'
      have hmade := (agree_append_iff [.timer src.handler src.id] _ hagree rfl rfl
        (hagree'.alive.trans hagree.alive.symm)).mp hagree'
      cases hfind : s.kqueue.sigSources.find? fun src => src.sigNum = SIGALRM <;> simp [hfind, Callback.bare] at hmade
    | false =>
      rw [foldl_timerEvent_of_invalid h.timers.idle hvalid] at hstep
      have hpoll : s'.poll.sig.callbacks = s.poll.sig.callbacks ++ [] := by
        rw [← Option.some_inj.mp hstep, List.append_nil]
        rfl
      obtain rfl := Option.some_inj.mp hstep
      intro hagree'
      have hmade := (agree_append_iff [] _ hagree hpoll rfl (hagree'.alive.trans hagree.alive.symm)).mp hagree'
      have hadded : SIGALRM ∈ s.kqueue.signals := by simpa using hagree'.alive
      obtain ⟨src, hsrc, hnum⟩ := (h.signals SIGALRM).mp hadded
      rw [← h.sigSources] at hsrc
      cases hfind : s.kqueue.sigSources.find? fun src => src.sigNum = SIGALRM with
      | none => exact absurd (decide_eq_true hnum) (List.find?_eq_none.mp hfind src hsrc)
      | some first => simp [hfind] at hmade
  · cases hstep

/-- Several registrations of a descriptor are all called for by one driver, and one by the
other. -/
theorem readable {fd : Int} (hagree : s.Agree) (hstep : s.happen nsig (.readable fd) = some s') :
    (s'.Agree ↔ s.Meets (.readable fd)) ∧ Related s' := by
  rw [Drivers.happen, PollDriver.loop_readable h.quiet fd, KQueue.readable] at hstep
  split at hstep
  · rename_i hread
    obtain ⟨p, hp, hreads⟩ := (h.reads fd).mp hread
    obtain ⟨src, hsrc, hfd⟩ := h.polled p hp
    have hfound : ∃ src, (s.poll.fdSources.find? fun src => src.fd = fd) = some src := by
      rw [← Option.isSome_iff_exists, List.find?_isSome]
      exact ⟨src, hsrc, by simp [hfd, hreads.1]⟩
    obtain ⟨first, hfirst⟩ := hfound
    have hkqueue : s.kqueue.loop (some (.read fd)) =
        { s.kqueue with callbacks := s.kqueue.callbacks ++ [.fd first.handler fd] } := by
      rw [KQueue.loop, h.fdSources, hfirst, ← h.fdSources]
      rfl
    rw [hkqueue, hfirst] at hstep
    obtain rfl := Option.some_inj.mp hstep
    refine ⟨?_, h.callbacks _ _ _⟩
    have hmem : p ∈ s.poll.pFDs.filter fun p => p.Reads fd := List.mem_filter.mpr ⟨hp, decide_eq_true hreads⟩
    refine (agree_append_iff _ _ hagree rfl rfl (by rfl)).trans ?_
    rw [Drivers.Meets]
    exact flatMap_eq_single_iff (List.ne_nil_of_mem hmem) _ _
  · rename_i hread
    have hnone : s.poll.pFDs.filter (fun p => p.Reads fd) = [] := by
      rw [List.filter_eq_nil_iff]
      intro p hp hreads
      exact hread ((h.reads fd).mpr ⟨p, hp, of_decide_eq_true hreads⟩)
    have hmeets : s.Meets (.readable fd) := by
      rw [Drivers.Meets, hnone]
      exact Nat.zero_le 1
    rw [hnone, List.flatMap_nil, List.append_nil] at hstep
    obtain rfl := Option.some_inj.mp hstep
    exact ⟨iff_of_true hagree hmeets, h⟩

/-- Both drivers take a descriptor in the same way. -/
theorem addFD {handler events : Nat} {fd : Int} (hagree : s.Agree)
    (hstep : s.happen nsig (.addFD handler fd events) = some s') :
    Related s' ∧ s'.Agree := by
  obtain rfl := Option.some_inj.mp hstep
  refine ⟨⟨⟨h.quiet.fired, h.quiet.signals⟩, ?_, ?_, ?_, h.sigSources, h.signals, h.timers⟩,
    agree_same hagree rfl rfl (by rfl)⟩
  · simp [KQueue.addFD, PollDriver.addFD, h.fdSources]
  · intro p hp
    rcases List.mem_append.mp hp with hp | hp
    · obtain ⟨src, hsrc, hfd⟩ := h.polled p hp
      exact ⟨src, List.mem_append_left _ hsrc, hfd⟩
    · rw [List.mem_singleton.mp hp]
      exact ⟨_, List.mem_append_right _ (List.mem_singleton_self _), rfl⟩
  · intro fd'
    have hold := h.reads fd'
    by_cases hread : events &&& POLLIN ≠ 0
    · simp only [KQueue.addFD, PollDriver.addFD, if_pos hread, List.mem_cons, hold, List.mem_append, or_and_right,
        exists_or]
      simp [PollEntry.Reads, hread, or_comm, eq_comm]
    · simp only [KQueue.addFD, PollDriver.addFD, if_neg hread, hold, List.mem_append, or_and_right, exists_or]
      simp [PollEntry.Reads, hread]

theorem addSignal {handler signum : Nat} (hagree : s.Agree)
    (hstep : s.happen nsig (.addSignal handler signum) = some s') :
    Related s' ∧ s'.Agree := by
  rw [Drivers.happen] at hstep
  split at hstep
  · obtain rfl := Option.some_inj.mp hstep
    refine ⟨⟨⟨h.quiet.fired, h.quiet.signals⟩, h.fdSources, h.polled, h.reads, ?_, ?_, h.timers⟩,
      agree_same hagree rfl rfl (by rfl)⟩
    · simp [KQueue.addSignal, PollDriver.addSignal, h.sigSources]
    · intro n
      simp only [KQueue.addSignal, PollDriver.addSignal, List.mem_cons, h.signals n, List.mem_append, or_and_right,
        exists_or]
      simp [or_comm, eq_comm]
  · cases hstep

theorem addTimer {handler drawn : Nat} (hagree : s.Agree) (hstep : s.happen nsig (.addTimer handler drawn) = some s') :
    Related s' ∧ s'.Agree := by
  rw [Drivers.happen, Option.map_eq_some_iff] at hstep
  obtain ⟨poll, hpoll, rfl⟩ := hstep
  rw [PollDriver.addTimer, Signals.addTimer, Option.map_map, Option.map_eq_some_iff] at hpoll
  obtain ⟨entryId, hfind, rfl⟩ := hpoll
  have hlt : entryId < 255 := List.mem_range.mp (List.mem_of_find?_eq_some hfind)
  have hfree : (s.poll.sig.timers entryId).valid = false := by simpa using List.find?_some hfind
  have htimers := h.timers.add drawn hlt hfree
  have hlength : (s.handlers ++ [handler]).length = s.handlers.length + 1 := List.length_append
  rw [← hlength] at htimers
  exact ⟨⟨⟨h.quiet.fired, h.quiet.signals⟩, h.fdSources, h.polled, h.reads, h.sigSources, h.signals, htimers⟩,
    agree_same hagree rfl rfl (by rfl)⟩

/-- Whatever happens, drivers that are related dispatch it alike exactly under its
condition, and are related after it then. -/
theorem happen {a : Happening} (hnsig : SIGALRM < nsig) (hagree : s.Agree) (hstep : s.happen nsig a = some s') :
    (s'.Agree ↔ s.Meets a) ∧ (s.Meets a → Related s') := by
  cases a with
  | addFD handler fd events =>
    obtain ⟨hrelated, hagree'⟩ := h.addFD hagree hstep
    exact ⟨iff_of_true hagree' trivial, fun _ => hrelated⟩
  | addSignal handler signum =>
    obtain ⟨hrelated, hagree'⟩ := h.addSignal hagree hstep
    exact ⟨iff_of_true hagree' trivial, fun _ => hrelated⟩
  | addTimer handler drawn =>
    obtain ⟨hrelated, hagree'⟩ := h.addTimer hagree hstep
    exact ⟨iff_of_true hagree' trivial, fun _ => hrelated⟩
  | signal signum value =>
    by_cases halrm : signum = SIGALRM
    · subst halrm
      have hnot : ¬s.Meets (.signal SIGALRM value) := fun hmeets => hmeets.1 rfl
      exact ⟨iff_of_false (h.alarm hagree hstep) hnot, fun hmeets => absurd hmeets hnot⟩
    · obtain ⟨hiff, hrelated⟩ := h.signal halrm hagree hstep
      exact ⟨hiff, fun _ => hrelated⟩
  | expire reg => exact h.expire hnsig hagree hstep
  | readable fd =>
    obtain ⟨hiff, hrelated⟩ := h.readable hagree hstep
    exact ⟨hiff, fun _ => hrelated⟩

theorem step {a : Happening} (hnsig : SIGALRM < nsig) (hagree : s.Agree) (hstep : s.step nsig a = some s') :
    (s'.Agree ↔ s.Meets a) ∧ (s.Meets a → Related s') := by
  rw [Drivers.step, if_neg (by simp [hagree.alive])] at hstep
  exact h.happen hnsig hagree hstep

end Related

end Step

/-- Before any call, both drivers have nothing. -/
theorem related_init : Related {} where
  quiet := ⟨rfl, fun _ => rfl⟩
  fdSources := rfl
  polled := by simp
  reads := by simp
  sigSources := rfl
  signals := by simp
  timers := by
    constructor <;> simp

/-- The drivers make the same callbacks all along a run exactly if each of its steps is
taken where it is dispatched alike. -/
theorem run_agree_iff (nsig : Nat) (hnsig : SIGALRM < nsig) (trace : List (Drivers × Happening)) (s' : Drivers)
    (hrun : Run (fun s a s' => s.step nsig a = some s') {} trace s') :
    (∀ t ∈ visited trace s', t.Agree) ↔ ∀ e ∈ trace, e.1.Meets e.2 := by
  refine hrun.forall_visited_iff ?_ related_init ⟨rfl, rfl⟩
  intro s a s' hrelated hagree hstep
  exact hrelated.step hnsig hagree hstep

theorem step_signal {nsig signum : Nat} (s : Drivers) (value : Nat) (hsignum : signum < nsig) (hne : signum ≠ SIGALRM)
    (halive : s.killed = false) : s.step nsig (.signal signum value) =
      some { s with
        poll := (s.poll.raise signum value).loop nsig none
        kqueue := s.kqueue.loop (s.kqueue.raise signum) } := by
  simp [Drivers.step, Drivers.happen, hsignum, hne, halive]

/-- A handler for `SIGTERM` and one for a timer, which are called in turn. -/
theorem run_agree_signal_timer :
    ∃ trace s', Run (fun s a s' => Drivers.step 65 s a = some s') {} trace s' ∧
      trace.map Prod.snd = [.addSignal 0 15, .addTimer 1 1804289383, .signal 15 0, .expire 0] ∧
      ∀ t ∈ visited trace s', t.Agree := by
  let s₁ : Drivers := { poll := ({} : PollDriver).addSignal 0 15, kqueue := ({} : KQueue).addSignal 0 15 }
  have hfree : ((List.range 255).find? fun i => !(s₁.poll.sig.timers i).valid) = some 0 := by decide
  obtain ⟨poll, hpoll, hsources⟩ : ∃ poll, s₁.poll.addTimer 0 = some poll ∧
    poll.sig.sigSources = s₁.poll.sig.sigSources := by
    rw [PollDriver.addTimer, Signals.addTimer, hfree]
    exact ⟨_, rfl, rfl⟩
  let s₂ : Drivers := { poll, kqueue := s₁.kqueue.addTimer 0 1804289383, handlers := [1] }
  have hsecond : s₁.step 65 (.addTimer 1 1804289383) = some s₂ := by
    rw [Drivers.step, if_neg nofun, Drivers.happen, show s₁.handlers.length = 0 from rfl, hpoll]
    rfl
  have hfirst : ({} : Drivers).step 65 (.addSignal 0 15) = some s₁ := rfl
  have hthird := step_signal s₂ 0 (show 15 < 65 by decide) (by decide) rfl
  have hrun : Run (fun s a s' => Drivers.step 65 s a = some s') {} _ _ :=
    .cons hfirst (.cons hsecond (.cons hthird (.single (l := .expire 0) rfl)))
  refine ⟨_, _, hrun, rfl, (run_agree_iff 65 (by decide) _ _ hrun).mpr ?_⟩
  have hsignal : s₂.Meets (.signal 15 0) := by
    rw [Drivers.Meets, hsources]
    decide
  have hsources : (s₂.kqueue.loop (s₂.kqueue.raise 15)).timerSources = [{ handler := 0, id := 1804289383 }] := rfl
  simp only [List.forall_mem_cons]
  refine ⟨trivial, trivial, hsignal, ?_, by simp⟩
  simp [Drivers.Meets, hsources]

/-- Two handlers for `SIGTERM`. -/
theorem run_two_handlers :
    ∃ trace s', Run (fun s a s' => Drivers.step 65 s a = some s') {} trace s' ∧
      trace.map Prod.snd = [.addSignal 0 15, .addSignal 1 15, .signal 15 0] ∧
      s'.poll.sig.callbacks.map (Callback.named s'.handlers) ≠
        s'.kqueue.callbacks.map (Callback.named s'.handlers) := by
  let s₁ : Drivers := { poll := ({} : PollDriver).addSignal 0 15, kqueue := ({} : KQueue).addSignal 0 15 }
  let s₂ : Drivers := { poll := s₁.poll.addSignal 1 15, kqueue := s₁.kqueue.addSignal 1 15 }
  have hfirst : ({} : Drivers).step 65 (.addSignal 0 15) = some s₁ := rfl
  have hsecond : s₁.step 65 (.addSignal 1 15) = some s₂ := rfl
  have hsignal := step_signal s₂ 0 (show 15 < 65 by decide) (by decide) rfl
  have hstart : Drivers.Agree {} := ⟨rfl, rfl⟩
  obtain ⟨hrelated, hagree⟩ :=
    related_init.addSignal hstart (show Drivers.happen 65 {} (.addSignal 0 15) = some s₁ from rfl)
  obtain ⟨hrelated', hagree'⟩ := hrelated.addSignal hagree (show s₁.happen 65 (.addSignal 1 15) = some s₂ from rfl)
  refine ⟨_, _, .cons hfirst (.cons hsecond (.single hsignal)), rfl, fun hsame => ?_⟩
  have hmeets := (hrelated'.step (by decide) hagree' hsignal).1.mp ⟨hsame, rfl⟩
  revert hmeets
  rw [Drivers.Meets]
  decide

end ServiceManager.Event
