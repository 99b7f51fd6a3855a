import ServiceManager.Trace
import ServiceManager.Wsrpc.Framing

namespace ServiceManager.Wsrpc

open Machine Trace

/-- `strlen`, if the text ends within the memory. -/
def strlen (buf : List UInt8) : Option Nat :=
  buf.findIdx? (· = 0)

namespace Reception

variable (t : Reception)

/-- What the `recv` of a body asks for. -/
def asked : Nat :=
  size (int32 (t.curMsgLen - t.curMsgOff))

/-- The memory there is for the message. -/
def allocated : Nat :=
  t.curMsgBuf.elim 0 List.length

end Reception

section Bounds

variable {σ : Type} (sys : System σ) (t : Reception) (s : σ)

/-- A call of `doRecv` stays inside the buffer, and what it completes ends there. -/
structure Bounded : Prop where
  asks : ∀ t₁ s₁, recvHeader sys t s = .ok (t₁, s₁) → t₁.asked ≤ t₁.allocated
  offset : ∀ t' s', doRecv sys t s = .ok (false, t', s') → 0 ≤ t'.curMsgOff ∧ t'.curMsgOff ≤ t'.curMsgLen
  ends : ∀ t₁ s₁ t' s', recvHeader sys t s = .ok (t₁, s₁) → doRecv sys t s = .ok (true, t', s') →
    ∃ n, t'.curMsgBuf.bind strlen = some n ∧ n < t₁.curMsgLen

/-- What a call is given: no length below zero, no error before a byte of the body is
counted, and a NUL in what completes the message or in what the buffer holds beyond it. -/
structure Sane : Prop where
  length : ∀ t₁ s₁, recvHeader sys t s = .ok (t₁, s₁) → 0 ≤ t₁.curMsgLen
  arrives : ∀ t₁ s₁ s', recvHeader sys t s = .ok (t₁, s₁) → sys.recv t₁.asked s₁ = some (.failed, s') → 0 < t₁.curMsgOff
  ended : ∀ t₁ s₁ bytes s', recvHeader sys t s = .ok (t₁, s₁) → sys.recv t₁.asked s₁ = some (.data bytes, s') →
    0 < t₁.asked → bytes.length = t₁.asked → 0 ∈ bytes ++ (t₁.curMsgBuf.getD []).drop bytes.length

/-- Calls of `doRecv`, each with what it returns. The callers free the buffer of a message
that is complete. -/
inductive Receive : Reception × σ → Bool → Reception × σ → Prop
  | part {t s t' s'} : doRecv sys t s = .ok (false, t', s') → Receive (t, s) false (t', s')
  | message {t s t' s'} : doRecv sys t s = .ok (true, t', s') → Receive (t, s) true ({ t' with curMsgBuf := none }, s')

end Bounds

/-- Between calls: nothing is being received, or a part of a message whose buffer has the
declared length. -/
def Reception.Steady (t : Reception) : Prop :=
  t.curMsgLen = 0 ∨ 0 ≤ t.curMsgOff ∧ t.curMsgOff < t.curMsgLen ∧ t.curMsgLen < 2 ^ 31 ∧
    ∃ buf, t.curMsgBuf = some buf ∧ buf.length = t.curMsgLen.toNat

/-- After the header. The memory for a negative length is not to be had. -/
structure Reception.Begun (t : Reception) : Prop where
  low : -2 ^ 31 ≤ t.curMsgLen
  high : t.curMsgLen < 2 ^ 31
  memory : 0 ≤ t.curMsgLen → ∃ buf, t.curMsgBuf = some buf ∧ buf.length = t.curMsgLen.toNat
  offset : 0 ≤ t.curMsgOff ∧ (t.curMsgOff < t.curMsgLen ∨ t.curMsgOff = 0)
  none : t.curMsgLen < 0 → t.curMsgBuf = none

section Step

variable {σ : Type} {sys : System σ} {t t₁ t' : Reception} {s s₁ s' : σ} {buf bytes : List UInt8}

theorem strlen_lt_iff {len : Int} (hlen : buf.length = len.toNat) :
    (∃ n, strlen buf = some n ∧ n < len) ↔ 0 ∈ buf := by
  unfold strlen
  constructor
  · rintro ⟨n, hn, _⟩
    obtain ⟨hlt, heq, _⟩ := List.findIdx?_eq_some_iff_getElem.mp hn
    rw [← of_decide_eq_true heq]
    exact List.getElem_mem hlt
  · intro hmem
    have hsome : (buf.findIdx? (· = 0)).isSome = true := by
      rw [List.findIdx?_isSome, List.any_eq_true]
      exact ⟨0, hmem, by simp⟩
    obtain ⟨n, hn⟩ := Option.isSome_iff_exists.mp hsome
    obtain ⟨hlt, _⟩ := List.findIdx?_eq_some_iff_getElem.mp hn
    exact ⟨n, hn, by omega⟩

theorem begun_malloc {len : Int} (hlow : -2 ^ 31 ≤ len) (hhigh : len < 2 ^ 31) (s : σ) :
    Reception.Begun { curMsgLen := len, curMsgOff := 0, curMsgBuf := malloc sys len s } where
  low := hlow
  high := hhigh
  memory hpos := ⟨_, if_neg (Int.not_lt.mpr hpos), by simp⟩
  offset := ⟨Int.le_refl 0, Or.inr rfl⟩
  none hneg := if_pos hneg

theorem Reception.Steady.begun (h : t.Steady) (hheader : recvHeader sys t s = .ok (t₁, s₁)) : t₁.Begun := by
  unfold recvHeader at hheader
  split at hheader
  · split at hheader
    · cases hheader
    · split at hheader
      · rename_i bytes _ _ _
        obtain ⟨rfl, rfl⟩ := Prod.mk.inj (Except.ok.inj hheader)
        exact begun_malloc (le_ofHostBytes bytes) (ofHostBytes_lt bytes) _
      · cases hheader
    · cases hheader
  · rename_i hne
    cases hheader
    obtain ⟨hlow, hlt, hhigh, hbuf⟩ := h.resolve_left hne
    exact ⟨by omega, hhigh, fun _ => hbuf, ⟨hlow, Or.inl hlt⟩, fun hneg => absurd hneg (by omega)⟩

theorem Reception.Begun.asked_eq (h : t.Begun) (hpos : 0 ≤ t.curMsgLen) :
    (t.asked : Int) = t.curMsgLen - t.curMsgOff := by
  obtain ⟨hoff, hle⟩ := h.offset
  have hhigh := h.high
  unfold Reception.asked
  rw [int32_eq_self (by omega) (by omega), size_of_nonneg (by omega) (by omega)]
  omega

/-- A body never asks for too much, unless the declared length is negative. -/
theorem Reception.Begun.asked_le_iff (h : t.Begun) : t.asked ≤ t.allocated ↔ 0 ≤ t.curMsgLen := by
  constructor
  · intro hle
    by_contra hneg
    have hlow := h.low
    obtain ⟨hoff, hzero⟩ := h.offset
    have hnone := h.none (by omega)
    have hasked : t.asked = 0 := by simpa [Reception.allocated, hnone] using hle
    unfold Reception.asked size at hasked
    rw [int32_eq_self (by omega) (by omega)] at hasked
    omega
  · intro hpos
    obtain ⟨buf, hbuf, hlength⟩ := h.memory hpos
    have hasked := h.asked_eq hpos
    obtain ⟨hoff, _⟩ := h.offset
    simp only [Reception.allocated, hbuf, Option.elim_some, hlength]
    omega

theorem recvBody_failed (hbuf : t.curMsgBuf = some buf) (hrecv : sys.recv t.asked s = some (.failed, s')) :
    recvBody sys t s = .ok ({ t with curMsgOff := int32 (t.curMsgOff - 1) }, s') := by
  unfold Reception.asked at hrecv
  simp only [recvBody, hbuf, hrecv]

theorem recvBody_data (hbuf : t.curMsgBuf = some buf) (hrecv : sys.recv t.asked s = some (.data bytes, s')) :
    recvBody sys t s = .ok ({ t with
      curMsgOff := int32 (t.curMsgOff + bytes.length)
      curMsgBuf := some (bytes ++ buf.drop bytes.length) }, s') := by
  unfold Reception.asked at hrecv
  simp only [recvBody, hbuf, hrecv]

theorem recvBody_blocked (hbuf : t.curMsgBuf = some buf) (hrecv : sys.recv t.asked s = none) :
    recvBody sys t s = .error .blocked := by
  unfold Reception.asked at hrecv
  simp only [recvBody, hbuf, hrecv]

theorem doRecv_eq (hheader : recvHeader sys t s = .ok (t₁, s₁)) (hbody : recvBody sys t₁ s₁ = .ok (t', s')) :
    doRecv sys t s =
      if t'.curMsgLen ≠ 0 ∧ t'.curMsgOff = t'.curMsgLen then .ok (true, { t' with curMsgLen := 0 }, s')
      else .ok (false, t', s') := by
  simp [doRecv, hheader, hbody, bind, Except.bind]

/-- What a call does after a header whose length is not negative. -/
inductive Reads (sys : System σ) (t : Reception) (s : σ) (t₁ : Reception) (s₁ : σ) : Prop
  | blocked : sys.recv t₁.asked s₁ = none → (∀ b t' s', doRecv sys t s ≠ .ok (b, t', s')) → Reads sys t s t₁ s₁
  | failed {s' : σ} : sys.recv t₁.asked s₁ = some (.failed, s') →
      doRecv sys t s = .ok (false, { t₁ with curMsgOff := t₁.curMsgOff - 1 }, s') → Reads sys t s t₁ s₁
  | part {bytes buf : List UInt8} {s' : σ} : sys.recv t₁.asked s₁ = some (.data bytes, s') →
      (0 < t₁.asked → bytes.length < t₁.asked) →
      buf.length = t₁.curMsgLen.toNat →
      doRecv sys t s = .ok (false,
        { t₁ with curMsgOff := t₁.curMsgOff + bytes.length, curMsgBuf := some buf }, s') →
      Reads sys t s t₁ s₁
  | message {bytes buf : List UInt8} {s' : σ} : sys.recv t₁.asked s₁ = some (.data bytes, s') → 0 < t₁.asked →
      bytes.length = t₁.asked →
      buf = bytes ++ (t₁.curMsgBuf.getD []).drop bytes.length → buf.length = t₁.curMsgLen.toNat →
      doRecv sys t s = .ok (true, { curMsgLen := 0, curMsgOff := t₁.curMsgLen, curMsgBuf := some buf }, s') →
      Reads sys t s t₁ s₁

/-- By what `recv` gives: nothing, a part, or the rest of the message. -/
theorem Reception.Begun.reads (h : t₁.Begun) (hheader : recvHeader sys t s = .ok (t₁, s₁)) (hpos : 0 ≤ t₁.curMsgLen) :
    Reads sys t s t₁ s₁ := by
  obtain ⟨buf, hbuf, hlength⟩ := h.memory hpos
  obtain ⟨hoff, hle⟩ := h.offset
  have hhigh := h.high
  have hasked := h.asked_eq hpos
  cases hrecv : sys.recv t₁.asked s₁ with
  | none =>
    refine .blocked hrecv fun b t' s' hdone => ?_
    have hbody := recvBody_blocked hbuf hrecv
    simp [doRecv, hheader, hbody, bind, Except.bind] at hdone
  | some received =>
    obtain ⟨received, s'⟩ := received
    cases received with
    | failed =>
      have hbody := recvBody_failed hbuf hrecv
      have hdone := doRecv_eq hheader hbody
      rw [int32_eq_self (by omega) (by omega), if_neg (by simp only; omega)] at hdone
      exact .failed hrecv hdone
    | data bytes =>
      have hbytes := sys.recv_le hrecv
      have hbody := recvBody_data hbuf hrecv
      have hdone := doRecv_eq hheader hbody
      have hsize : (bytes ++ buf.drop bytes.length).length = t₁.curMsgLen.toNat := by
        rw [List.length_append, List.length_drop]
        omega
      rw [int32_eq_self (by omega) (by omega)] at hdone
      by_cases hall : 0 < t₁.asked ∧ bytes.length = t₁.asked
      · rw [if_pos (by simp only; omega)] at hdone
        have hend : t₁.curMsgOff + bytes.length = t₁.curMsgLen := by omega
        rw [hend] at hdone
        exact .message hrecv hall.1 hall.2 (by rw [hbuf, Option.getD_some]) hsize hdone
      · rw [if_neg (by simp only; omega)] at hdone
        exact .part hrecv (by omega) hsize hdone

/-- A call that stays in bounds was given nothing else. -/
theorem Reception.Steady.sane (h : t.Steady) (hbounded : Bounded sys t s) : Sane sys t s := by
  cases hheader : recvHeader sys t s with
  | error stop => constructor <;> simp [hheader]
  | ok after =>
    obtain ⟨t₁, s₁⟩ := after
    have hbegun := h.begun hheader
    have hpos := hbegun.asked_le_iff.mp (hbounded.asks t₁ s₁ hheader)
    have hreads := hbegun.reads hheader hpos
    refine ⟨fun t₂ s₂ heq => ?_, fun t₂ s₂ s' heq hrecv => ?_, fun t₂ s₂ bytes s' heq hrecv hasked hall => ?_⟩ <;>
      (obtain ⟨rfl, rfl⟩ := Prod.mk.inj (Except.ok.inj (hheader.symm.trans heq)))
    · exact hpos
    · cases hreads with
      | failed hrecv' hdone =>
        have hoff := (hbounded.offset _ _ hdone).1
        simp only at hoff
        omega
      | blocked hrecv' | part hrecv' | message hrecv' => simp [hrecv'] at hrecv
    · cases hreads with
      | @message bytes' buf s₂ hrecv' _ _ hbuf hlength hdone =>
        obtain ⟨rfl, rfl⟩ : bytes' = bytes ∧ s₂ = s' := by simpa [hrecv'] using hrecv
        have hends := hbounded.ends _ _ _ _ hheader hdone
        rw [Option.bind_some, strlen_lt_iff hlength] at hends
        rw [← hbuf]
        exact hends
      | @part bytes' buf s₂ hrecv' hshort =>
        obtain ⟨rfl, rfl⟩ : bytes' = bytes ∧ s₂ = s' := by simpa [hrecv'] using hrecv
        exact absurd hall (Nat.ne_of_lt (hshort hasked))
      | blocked hrecv' | failed hrecv' => simp [hrecv'] at hrecv

/-- A call that does not complete a message leaves a part of it. -/
theorem Reception.Steady.part (h : t.Steady) (hsane : Sane sys t s) (hdone : doRecv sys t s = .ok (false, t', s')) :
    t'.Steady ∧ 0 ≤ t'.curMsgOff ∧ t'.curMsgOff ≤ t'.curMsgLen := by
  obtain ⟨⟨t₁, s₁⟩, hheader, _⟩ := bind_eq_ok hdone
  have hbegun := h.begun hheader
  have hpos := hsane.length t₁ s₁ hheader
  have hasked := hbegun.asked_eq hpos
  have hhigh := hbegun.high
  obtain ⟨hoff, hle⟩ := hbegun.offset
  obtain ⟨buf, hbuf, hlength⟩ := hbegun.memory hpos
  cases hbegun.reads hheader hpos with
  | blocked _ hnone => exact absurd hdone (hnone _ _ _)
  | message _ _ _ _ _ hdone' => simp [hdone'] at hdone
  | failed hrecv hdone' =>
    obtain ⟨rfl, rfl⟩ : _ = t' ∧ _ = s' := by simpa [hdone'] using hdone
    have hcounted := hsane.arrives t₁ s₁ _ hheader hrecv
    have hlow : 0 ≤ t₁.curMsgOff - 1 := by omega
    have hlt : t₁.curMsgOff - 1 < t₁.curMsgLen := by omega
    exact ⟨Or.inr ⟨hlow, hlt, hhigh, buf, hbuf, hlength⟩, hlow, Int.le_of_lt hlt⟩
  | @part bytes buf' s₂ hrecv hshort hlength' hdone' =>
    obtain ⟨rfl, rfl⟩ : _ = t' ∧ _ = s' := by simpa [hdone'] using hdone
    have hbytes := sys.recv_le hrecv
    have hlow : 0 ≤ t₁.curMsgOff + bytes.length := by omega
    refine ⟨?_, hlow, by simp only; omega⟩
    by_cases hzero : t₁.curMsgLen = 0
    · exact Or.inl hzero
    · have hless := hshort (by omega)
      exact Or.inr ⟨hlow, by simp only; omega, hhigh, buf', rfl, hlength'⟩

theorem Reception.Steady.bounded (h : t.Steady) (hsane : Sane sys t s) : Bounded sys t s := by
  refine ⟨fun t₁ s₁ hheader => ?_, fun t' s' hdone => (h.part hsane hdone).2, fun t₁ s₁ t' s' hheader hdone => ?_⟩
  · exact (h.begun hheader).asked_le_iff.mpr (hsane.length t₁ s₁ hheader)
  · have hpos := hsane.length t₁ s₁ hheader
    cases (h.begun hheader).reads hheader hpos with
    | blocked _ hnone => exact absurd hdone (hnone _ _ _)
    | failed _ hdone' | part _ _ _ hdone' => simp [hdone'] at hdone
    | message hrecv hasked hall hbuf hlength hdone' =>
      obtain ⟨rfl, rfl⟩ : _ = t' ∧ _ = s' := by simpa [hdone'] using hdone
      have hnul := hsane.ended _ _ _ _ hheader hrecv hasked hall
      rw [← hbuf] at hnul
      rw [Option.bind_some, strlen_lt_iff hlength]
      exact hnul

theorem Reception.Steady.receive {b : Bool} (h : t.Steady) (hsane : Sane sys t s)
    (hreceive : Receive sys (t, s) b (t', s')) : t'.Steady := by
  cases hreceive with
  | part hdone => exact (h.part hsane hdone).1
  | message hdone =>
    left
    obtain ⟨⟨t₁, s₁⟩, hheader, _⟩ := bind_eq_ok hdone
    cases (h.begun hheader).reads hheader (hsane.length t₁ s₁ hheader) with
    | blocked _ hnone => exact absurd hdone (hnone _ _ _)
    | failed _ hdone' | part _ _ _ hdone' => simp [hdone'] at hdone
    | message _ _ _ _ _ hdone' =>
      rw [hdone'] at hdone
      cases hdone
      rfl

end Step

section Run

variable {σ : Type} {sys : System σ} {c c' : Reception × σ} {trace : List ((Reception × σ) × Bool)}

theorem run_bounded_iff (hrun : Run (Receive sys) c trace c') (h : c.1.Steady) :
    (∀ x ∈ visited trace c', Bounded sys x.1 x.2) ↔ ∀ x ∈ visited trace c', Sane sys x.1 x.2 := by
  induction hrun with
  | nil c =>
    rw [visited, List.map_nil, List.nil_append, List.forall_mem_singleton, List.forall_mem_singleton]
    exact ⟨h.sane, h.bounded⟩
  | @cons c c₁ c' b trace hreceive _ ih =>
    rw [visited, List.map_cons, List.cons_append, List.forall_mem_cons, List.forall_mem_cons]
    constructor
    · rintro ⟨hbounded, hrest⟩
      have hsane := h.sane hbounded
      exact ⟨hsane, (ih (h.receive hsane hreceive)).mp hrest⟩
    · rintro ⟨hsane, hrest⟩
      exact ⟨h.bounded hsane, (ih (h.receive hsane hreceive)).mpr hrest⟩

/-- The calls of `doRecv` on a new transport stay in bounds exactly if no header declares a
negative length, no `recv` of a body fails before a byte of it is counted, and each message
has a NUL where it ends. -/
theorem doRecv_bounded_iff (sys : System σ) (s : σ) (hrun : Run (Receive sys) ({}, s) trace c') :
    (∀ x ∈ visited trace c', Bounded sys x.1 x.2) ↔ ∀ x ∈ visited trace c', Sane sys x.1 x.2 :=
  run_bounded_iff hrun (Or.inl rfl)

end Run

/-- A descriptor whose `recv` yields what is listed, of bytes at most what is asked for. -/
def listed : System (List Received) where
  recv asked
    | [] => none
    | .data bytes :: rest => some (.data (bytes.take asked), rest)
    | .failed :: rest => some (.failed, rest)
  heap _ _ := 0
  recv_le {asked s bytes s'} h := by
    match s with
    | [] => cases h
    | .failed :: _ => cases h
    | .data bytes' :: rest =>
      cases h
      exact List.length_take_le _ _

theorem sane_of_header {σ : Type} {sys : System σ} {t t₁ : Reception} {s s₁ : σ}
    (hheader : recvHeader sys t s = .ok (t₁, s₁))
    (hlen : 0 ≤ t₁.curMsgLen) (harrives : ∀ s', sys.recv t₁.asked s₁ = some (.failed, s') → 0 < t₁.curMsgOff)
    (hended : ∀ bytes s', sys.recv t₁.asked s₁ = some (.data bytes, s') →
      0 ∈ bytes ++ (t₁.curMsgBuf.getD []).drop bytes.length) : Sane sys t s := by
  refine ⟨fun t₂ s₂ heq => ?_, fun t₂ s₂ s' heq => ?_, fun t₂ s₂ bytes s' heq hrecv _ _ => ?_⟩ <;>
    (obtain ⟨rfl, rfl⟩ := Prod.mk.inj (Except.ok.inj (hheader.symm.trans heq)))
  · exact hlen
  · exact harrives s'
  · exact hended bytes s' hrecv

/-- A message of two bytes, the second of them a NUL. -/
def shortMessage : List Received :=
  [.data [2, 0, 0, 0], .data [0x31, 0]]

theorem recvHeader_listed (bytes : List UInt8) (len : Int) (hfour : bytes.length = 4) (hlen : ofHostBytes bytes = len)
    (rest : List Received) : recvHeader listed {} (.data bytes :: rest) =
      .ok ({ curMsgLen := len, curMsgOff := 0, curMsgBuf := malloc listed len rest }, rest) := by
  have hrecv : listed.recv 4 (.data bytes :: rest) = some (.data bytes, rest) := by
    simp [listed, List.take_of_length_le (Nat.le_of_eq hfour)]
  simp only [recvHeader, if_true, hrecv, hfour, hlen]

theorem doRecv_bounded_short : Bounded listed {} shortMessage := by
  have hheader := recvHeader_listed [2, 0, 0, 0] 2 rfl (by decide +kernel) [.data [0x31, 0]]
  have hasked : size (int32 2) = 2 := by decide +kernel
  have hsane : Sane listed {} shortMessage := by
    refine sane_of_header hheader (by decide) (by simp [listed]) fun bytes s' hrecv => ?_
    obtain ⟨rfl, rfl⟩ : [0x31, 0] = bytes ∧ [] = s' := by simpa [listed, Reception.asked, hasked] using hrecv
    simp
  have hrun : Run (Receive listed) ({}, shortMessage) [] ({}, shortMessage) := .nil _
  exact (doRecv_bounded_iff listed shortMessage hrun).mpr (List.forall_mem_singleton.mpr hsane) _
    (List.mem_singleton_self _)

/-- A message of three bytes is announced, and the `recv` of its body fails. -/
theorem doRecv_not_bounded : ¬Bounded listed {} [.data [3, 0, 0, 0], .failed] := by
  intro h
  have hsteady : Reception.Steady {} := Or.inl rfl
  have hheader := recvHeader_listed [3, 0, 0, 0] 3 rfl (by decide +kernel) [.failed]
  have hcounted := (hsteady.sane h).arrives _ _ [] hheader rfl
  exact absurd hcounted (Int.lt_irrefl 0)

end ServiceManager.Wsrpc
