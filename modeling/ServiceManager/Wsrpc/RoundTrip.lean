import ServiceManager.Wsrpc.Framing

namespace ServiceManager.Wsrpc

open Machine

variable {d : Delivery} {m : Message} {msgs : List Message} {t : Reception} {s : Socket} {rest : List UInt8}

namespace Message

/-- A message whose size a 32-bit `int` holds. -/
def Fits (m : Message) : Prop :=
  m.framed.length < 2 ^ 31

instance (m : Message) : Decidable m.Fits :=
  inferInstanceAs (Decidable (_ < _))

theorem length_framed (m : Message) : m.framed.length = m.text.length + 1 := by
  simp [framed]

theorem framed_length_pos (m : Message) : 0 < m.framed.length := by
  simp [framed]

theorem len_of_fits (h : m.Fits) : m.len = m.framed.length :=
  int32_natCast h

theorem framed_getLast (m : Message) : m.framed[m.framed.length - 1]? = some 0 := by
  simp [framed]

/-- Only the last byte of a framed message is NUL. -/
theorem framed_get_eq_zero {i : Nat} (h : m.framed[i]? = some 0) : i + 1 = m.framed.length := by
  have hi : i < m.framed.length := (List.getElem?_eq_some_iff.mp h).1
  by_contra hlast
  rw [length_framed] at hi hlast
  have htext : i < m.text.length := by omega
  rw [framed, List.getElem?_append_left htext] at h
  exact m.nul_free (List.mem_of_getElem? h)

end Message

theorem writeObj_of_fits (h : m.Fits) : writeObj m = hostBytes m.framed.length ++ m.framed := by
  have hsize : ¬(m.framed.length : Int) < 0 := Int.not_lt.mpr (Int.natCast_nonneg _)
  unfold writeObj
  rw [Message.len_of_fits h, if_neg hsize, Int.toNat_natCast, List.take_length]

theorem writeObj_ne_nil (m : Message) : writeObj m ≠ [] :=
  List.append_ne_nil_of_left_ne_nil (hostBytes_ne_nil _) _

theorem malloc_natCast {σ : Type} (sys : System σ) (n : Nat) (s : σ) :
    malloc sys n s = some ((List.range n).map (sys.heap s)) := by
  have hsize : ¬(n : Int) < 0 := Int.not_lt.mpr (Int.natCast_nonneg _)
  unfold malloc
  rw [if_neg hsize, Int.toNat_natCast]

theorem length_of_mem_malloc {σ : Type} {sys : System σ} {len : Int} {s : σ} {buf : List UInt8}
    (h : buf ∈ malloc sys len s) : (buf.length : Int) = len := by
  by_cases hlen : len < 0
  · rw [malloc, if_pos hlen] at h
    cases h
  · rw [malloc, if_neg hlen] at h
    rw [← Option.some_inj.mp h, List.length_map, List.length_range, Int.toNat_of_nonneg (Int.not_lt.mp hlen)]

namespace Delivery

theorem recv_of_ne_nil {asked : Nat} (hasked : 0 < asked) (hstream : s.stream ≠ []) :
    d.system.recv asked s = some (.data (s.stream.take (min (d.chunk s.recvs) asked)),
      { stream := s.stream.drop (min (d.chunk s.recvs) asked), recvs := s.recvs + 1 }) := by
  simp [system, recv, hstream, Nat.pos_iff_ne_zero.mp hasked]

/-- `recv` delivers all it is asked for from a stream that holds it. -/
theorem recv_whole {asked : List UInt8} (hasked : asked ≠ []) (hstream : s.stream = asked ++ rest)
    (hchunk : asked.length ≤ d.chunk s.recvs) :
    d.system.recv asked.length s = some (.data asked, { stream := rest, recvs := s.recvs + 1 }) := by
  rw [recv_of_ne_nil (List.length_pos_iff.mpr hasked) (by simp [hstream, hasked]), Nat.min_eq_right hchunk]
  simp [hstream]

theorem recv_ne_failed {asked : Nat} {s' : Socket} : d.system.recv asked s ≠ some (.failed, s') := by
  intro h
  simp only [system, recv] at h
  split at h
  · cases h
  · split at h <;> cases h

end Delivery

/-- `off` bytes of the message have arrived, and the others are the next in flight. -/
structure Filling (m : Message) (off : Nat) (rest : List UInt8) (t : Reception) (s : Socket) : Prop where
  fits : m.Fits
  off_lt : off < m.framed.length
  len_eq : t.curMsgLen = m.framed.length
  off_eq : t.curMsgOff = off
  buf_eq : ∃ buf, t.curMsgBuf = some buf ∧ buf.length = m.framed.length
  stream_eq : s.stream = m.framed.drop off ++ rest

section Header

variable (hidle : t.curMsgLen = 0)

include hidle

theorem recvHeader_split (hstream : s.stream = writeObj m ++ rest) (hchunk : d.chunk s.recvs < 4) :
    recvHeader d.system t s = .error .assertFailed := by
  have hne : s.stream ≠ [] := by
    rw [hstream]
    exact List.append_ne_nil_of_left_ne_nil (writeObj_ne_nil m) rest
  have hshort : (s.stream.take (min (d.chunk s.recvs) 4)).length ≠ 4 := by
    have := List.length_take_le (min (d.chunk s.recvs) 4) s.stream
    omega
  simp only [recvHeader, hidle, if_true, Delivery.recv_of_ne_nil (by decide : 0 < 4) hne, if_neg hshort]

theorem recvHeader_whole (hfits : m.Fits) (hstream : s.stream = writeObj m ++ rest) (hchunk : 4 ≤ d.chunk s.recvs) :
    ∃ t' s', recvHeader d.system t s = .ok (t', s') ∧ s'.recvs = s.recvs + 1 ∧ Filling m 0 rest t' s' := by
  rw [writeObj_of_fits hfits, List.append_assoc] at hstream
  have hrecv := Delivery.recv_whole (hostBytes_ne_nil _) hstream hchunk
  rw [length_hostBytes] at hrecv
  have hlen : ofHostBytes (hostBytes m.framed.length) = m.framed.length := by
    rw [ofHostBytes_hostBytes, int32_natCast hfits]
  have hheader : recvHeader d.system t s =
      .ok ({ curMsgLen := m.framed.length, curMsgOff := 0,
             curMsgBuf := some ((List.range m.framed.length).map (d.heap (s.recvs + 1))) },
        { stream := m.framed ++ rest, recvs := s.recvs + 1 }) := by
    simp only [recvHeader, hidle, if_true, hrecv, length_hostBytes, hlen, malloc_natCast]
    rfl
  exact ⟨_, _, hheader, rfl, hfits, m.framed_length_pos, rfl, rfl, ⟨_, rfl, by simp⟩, rfl⟩

end Header

namespace Filling

variable {off : Nat} (hfill : Filling m off rest t s)

include hfill

theorem curMsgLen_ne_zero : t.curMsgLen ≠ 0 := by
  have hlen := hfill.len_eq
  have hpos := m.framed_length_pos
  omega

/-- The `n` bytes that the next call of `recv` delivers go to the start of the buffer. -/
theorem recvBody_eq {n : Nat} (hn : min (d.chunk s.recvs) (m.framed.length - off) = n) :
    ∃ buf : List UInt8, buf.length = m.framed.length ∧ recvBody d.system t s =
      .ok ({ curMsgLen := m.framed.length, curMsgOff := (off + n : Nat),
             curMsgBuf := some ((m.framed.drop off).take n ++ buf.drop n) },
        { stream := m.framed.drop (off + n) ++ rest, recvs := s.recvs + 1 }) := by
  obtain ⟨buf, hbuf, hlength⟩ := hfill.buf_eq
  have hfits : m.framed.length < 2 ^ 31 := hfill.fits
  have hoff := hfill.off_lt
  have hasked : size (int32 (t.curMsgLen - t.curMsgOff)) = m.framed.length - off := by
    rw [hfill.len_eq, hfill.off_eq, int32_eq_self (by omega) (by omega), size_of_nonneg (by omega) (by omega)]
    omega
  have hleft : (m.framed.drop off).length = m.framed.length - off := List.length_drop
  have hle : n ≤ (m.framed.drop off).length := by omega
  have hne : s.stream ≠ [] := by
    rw [hfill.stream_eq]
    exact List.append_ne_nil_of_left_ne_nil (List.ne_nil_of_length_pos (by omega)) rest
  have hrecv := Delivery.recv_of_ne_nil (d := d) (by omega : 0 < m.framed.length - off) hne
  rw [hn, hfill.stream_eq, List.take_append_of_le_length hle, List.drop_append_of_le_length hle,
    List.drop_drop] at hrecv
  have hcount : ((m.framed.drop off).take n).length = n := by
    rw [List.length_take, Nat.min_eq_left hle]
  have hoff' : int32 (t.curMsgOff + n) = (off + n : Nat) := by
    rw [hfill.off_eq, int32_eq_self (by omega) (by omega)]
    omega
  refine ⟨buf, hlength, ?_⟩
  simp only [recvBody, hbuf, hasked, hrecv, hcount, hoff']
  rw [hfill.len_eq]

/-- The bytes that complete a message. Those before them are gone: what follows them in
the buffer is not of the message's making. -/
theorem doRecv_completes (hchunk : m.framed.length - off ≤ d.chunk s.recvs) :
    ∃ tail : List UInt8, tail.length = off ∧ doRecv d.system t s =
      .ok (true, { curMsgLen := 0, curMsgOff := m.framed.length, curMsgBuf := some (m.framed.drop off ++ tail) },
        { stream := rest, recvs := s.recvs + 1 }) := by
  have hoff := hfill.off_lt
  obtain ⟨buf, hlength, hbody⟩ := hfill.recvBody_eq (Nat.min_eq_right hchunk)
  have hend : off + (m.framed.length - off) = m.framed.length := by omega
  have hdrop : (m.framed.drop off).take (m.framed.length - off) = m.framed.drop off :=
    List.take_of_length_le (by simp)
  rw [hend, hdrop, List.drop_length, List.nil_append] at hbody
  have hpos := m.framed_length_pos
  refine ⟨buf.drop (m.framed.length - off), by simp; omega, ?_⟩
  have hne : (m.framed.length : Int) ≠ 0 := by omega
  rw [doRecv_of_body hfill.curMsgLen_ne_zero hbody, if_pos ⟨hne, rfl⟩]

theorem doRecv_continues (hchunk : d.chunk s.recvs < m.framed.length - off) :
    ∃ t' s', doRecv d.system t s = .ok (false, t', s') ∧ Filling m (off + d.chunk s.recvs) rest t' s' := by
  have hoff := hfill.off_lt
  obtain ⟨buf, hlength, hbody⟩ := hfill.recvBody_eq (Nat.min_eq_left (Nat.le_of_lt hchunk))
  have hrecv : doRecv d.system t s = .ok (false,
      { curMsgLen := m.framed.length, curMsgOff := (off + d.chunk s.recvs : Nat),
        curMsgBuf := some ((m.framed.drop off).take (d.chunk s.recvs) ++ buf.drop (d.chunk s.recvs)) },
      { stream := m.framed.drop (off + d.chunk s.recvs) ++ rest, recvs := s.recvs + 1 }) := by
    have hne : ((off + d.chunk s.recvs : Nat) : Int) ≠ m.framed.length := by omega
    rw [doRecv_of_body hfill.curMsgLen_ne_zero hbody, if_neg fun hend => hne hend.2]
  refine ⟨_, _, hrecv, hfill.fits, by omega, rfl, rfl, ⟨_, rfl, ?_⟩, rfl⟩
  simp
  omega

/-- A message whose bytes have begun to arrive without all arriving is never the next
that is held: the NUL that completes it comes too early in the buffer. -/
theorem not_delivered (hoff : 0 < off) (n : Nat) (bufs : List (Option (List UInt8))) :
    (doRecvs d.system n t s).1 ≠ some m.framed :: bufs := by
  induction n generalizing off t s with
  | zero => exact List.cons_ne_nil _ _ ∘ Eq.symm
  | succ n ih =>
    by_cases hchunk : m.framed.length - off ≤ d.chunk s.recvs
    · obtain ⟨tail, htail, hrecv⟩ := hfill.doRecv_completes hchunk
      rw [doRecvs_of_true hrecv]
      intro hbufs
      have hbuf : m.framed.drop off ++ tail = m.framed :=
        Option.some_inj.mp (List.head_eq_of_cons_eq hbufs)
      have hlt := hfill.off_lt
      have hlast : m.framed.length - off - 1 < (m.framed.drop off).length := by
        rw [List.length_drop]
        omega
      have hnul : (m.framed.drop off ++ tail)[m.framed.length - off - 1]? = some 0 := by
        rw [List.getElem?_append_left hlast, List.getElem?_drop, ← m.framed_getLast]
        congr 1
        omega
      rw [hbuf] at hnul
      have hend := Message.framed_get_eq_zero hnul
      omega
    · obtain ⟨t', s', hrecv, hfill'⟩ := hfill.doRecv_continues (Nat.lt_of_not_le hchunk)
      rw [doRecvs_of_false hrecv]
      exact ih hfill' (by omega)

end Filling

/-- The message being received is within its buffer, which an `int` measures. -/
def Within (t : Reception) : Prop :=
  ∀ buf ∈ t.curMsgBuf, 0 ≤ t.curMsgOff ∧ t.curMsgOff ≤ t.curMsgLen ∧ t.curMsgLen < 2 ^ 31 ∧
    (buf.length : Int) = t.curMsgLen

/-- The header gives the buffer its length. -/
theorem recvHeader_within {t' : Reception} {s' : Socket} (hwithin : t.curMsgLen ≠ 0 → Within t)
    (h : recvHeader d.system t s = .ok (t', s')) : Within t' := by
  unfold recvHeader at h
  split at h
  · split at h
    · cases h
    · rename_i bytes s'' hrecv
      split at h
      · obtain ⟨rfl, rfl⟩ := Prod.mk.inj (Except.ok.inj h)
        intro buf hbuf
        simp only at hbuf
        have hlength := length_of_mem_malloc hbuf
        have hsmall := ofHostBytes_lt bytes
        simp only
        omega
      · cases h
    · cases h
  · rename_i hlen
    cases h
    exact hwithin hlen

/-- What is received goes into the buffer, up to its end. -/
theorem recvBody_within {t' : Reception} {s' : Socket} (hwithin : Within t)
    (h : recvBody d.system t s = .ok (t', s')) : Within t' := by
  unfold recvBody at h
  split at h
  · cases h
    intro buf hbuf
    simp_all
  · rename_i buf hbuf
    obtain ⟨hlow, hhigh, hsmall, hlength⟩ := hwithin buf hbuf
    have hasked : size (int32 (t.curMsgLen - t.curMsgOff)) = (t.curMsgLen - t.curMsgOff).toNat := by
      rw [int32_eq_self (by omega) (by omega), size_of_nonneg (by omega) (by omega)]
    rw [hasked] at h
    split at h
    · cases h
    · rename_i bytes s'' hrecv
      have hle := d.system.recv_le hrecv
      cases h
      rintro buf' ⟨⟩
      have hoff : int32 (t.curMsgOff + bytes.length) = t.curMsgOff + bytes.length :=
        int32_eq_self (by omega) (by omega)
      simp only [hoff]
      exact ⟨by omega, by omega, hsmall, by simp; omega⟩
    · rename_i s'' hrecv
      exact absurd hrecv Delivery.recv_ne_failed

/-- No call goes past the end of the buffer. -/
theorem doRecv_within {b : Bool} {t' : Reception} {s' : Socket} (hwithin : t.curMsgLen ≠ 0 → Within t)
    (h : doRecv d.system t s = .ok (b, t', s')) :
    (t'.curMsgLen ≠ 0 → Within t') ∧ (b = true → ∀ buf ∈ t'.curMsgBuf, buf.length < 2 ^ 31) := by
  cases hheader : recvHeader d.system t s with
  | error stop => simp [doRecv_of_error hheader] at h
  | ok result =>
    obtain ⟨t₁, s₁⟩ := result
    have hwithin₁ := recvHeader_within hwithin hheader
    cases hbody : recvBody d.system t₁ s₁ with
    | error stop => simp [doRecv, hheader, hbody, bind, Except.bind] at h
    | ok result =>
      obtain ⟨t₂, s₂⟩ := result
      have hwithin₂ := recvBody_within hwithin₁ hbody
      simp only [doRecv, hheader, hbody, bind, Except.bind] at h
      split at h
      · obtain ⟨rfl, rfl, rfl⟩ := by simpa using h
        refine ⟨fun hlen => absurd rfl hlen, fun _ buf hbuf => ?_⟩
        obtain ⟨_, _, hsmall, hlength⟩ := hwithin₂ buf hbuf
        omega
      · obtain ⟨rfl, rfl, rfl⟩ := by simpa using h
        exact ⟨fun _ => hwithin₂, fun hfalse => absurd hfalse Bool.false_ne_true⟩

/-- No buffer is larger than an `int` can say, whatever is sent. -/
theorem doRecvs_small (hwithin : t.curMsgLen ≠ 0 → Within t) (n : Nat) :
    ∀ buf, some buf ∈ (doRecvs d.system n t s).1 → buf.length < 2 ^ 31 := by
  induction n generalizing t s with
  | zero => simp [doRecvs]
  | succ n ih =>
    intro buf hbuf
    cases hrecv : doRecv d.system t s with
    | error stop => simp [doRecvs_of_error hrecv] at hbuf
    | ok result =>
      obtain ⟨b, t', s'⟩ := result
      obtain ⟨hwithin', hsmall⟩ := doRecv_within hwithin hrecv
      cases b with
      | false =>
        rw [doRecvs_of_false hrecv] at hbuf
        exact ih hwithin' buf hbuf
      | true =>
        rw [doRecvs_of_true hrecv] at hbuf
        rcases List.mem_cons.mp hbuf with heq | hmem
        · exact hsmall rfl buf heq.symm
        · exact ih hwithin' buf hmem

/-- Calling `doRecv` again and again holds every message, once and in order, until
nothing is in flight; the assertion on the header does not fail. -/
def Arrives (d : Delivery) (msgs : List Message) (t : Reception) (s : Socket) : Prop :=
  (∃ n, doRecvs d.system n t s = (msgs.map fun m => some m.framed, some .blocked)) ∧
    ∀ n, (doRecvs d.system n t s).2 ≠ some .assertFailed

/-- Messages sent one after the other to an idle transport arrive. -/
def RoundTrip (d : Delivery) (msgs : List Message) : Prop :=
  Arrives d msgs {} { stream := msgs.flatMap writeObj }

section Sent

variable {k : Nat} (hidle : t.curMsgLen = 0)

include hidle

theorem arrives_nil : Arrives d [] t { stream := [], recvs := k } := by
  have hblocked : doRecv d.system t { stream := [], recvs := k } = .error .blocked :=
    doRecv_of_error (by simp [recvHeader, hidle, Delivery.system, Delivery.recv])
  refine ⟨⟨1, by simp [doRecvs_of_error hblocked]⟩, fun n => ?_⟩
  cases n with
  | zero => simp [doRecvs]
  | succ n => simp [doRecvs_of_error hblocked]

theorem not_arrives_of_split_header {stream : List UInt8} (hstream : stream = writeObj m ++ rest)
    (hchunk : d.chunk k < 4) : ¬Arrives d msgs t { stream, recvs := k } := by
  intro harrives
  have herror : doRecv d.system t { stream, recvs := k } = .error .assertFailed :=
    doRecv_of_error (recvHeader_split hidle hstream hchunk)
  exact harrives.2 1 (by simp [doRecvs_of_error herror])

variable (hfits : m.Fits) (hhead : 4 ≤ d.chunk k)

include hfits hhead

theorem not_arrives_of_split_body {stream : List UInt8} (hstream : stream = writeObj m ++ rest)
    (hchunk : d.chunk (k + 1) < m.framed.length) : ¬Arrives d (m :: msgs) t { stream, recvs := k } := by
  obtain ⟨t₁, s₁, hheader, hrecvs, hfill⟩ :=
    recvHeader_whole (s := { stream, recvs := k }) hidle hfits hstream hhead
  have hcall := doRecv_of_header hheader hfill.curMsgLen_ne_zero
  obtain ⟨t₂, s₂, hrecv, hfill₂⟩ := hfill.doRecv_continues (by simpa [hrecvs] using hchunk)
  have hpos := d.chunk_pos s₁.recvs
  rintro ⟨⟨n, hn⟩, _⟩
  cases n with
  | zero => simp [doRecvs] at hn
  | succ n =>
    rw [doRecvs_of_false (hcall.trans hrecv)] at hn
    exact hfill₂.not_delivered (by omega) n _ (congrArg Prod.fst hn)

/-- A call of `doRecv` takes a message whose header and body arrive whole. -/
theorem doRecv_whole {stream : List UInt8} (hstream : stream = writeObj m ++ rest)
    (hchunk : m.framed.length ≤ d.chunk (k + 1)) :
    doRecv d.system t { stream, recvs := k } =
      .ok (true, { curMsgLen := 0, curMsgOff := m.framed.length, curMsgBuf := some m.framed },
        { stream := rest, recvs := k + 2 }) := by
  obtain ⟨t₁, s₁, hheader, hrecvs, hfill⟩ :=
    recvHeader_whole (s := { stream, recvs := k }) hidle hfits hstream hhead
  have hcall := doRecv_of_header hheader hfill.curMsgLen_ne_zero
  obtain ⟨tail, htail, hrecv⟩ := hfill.doRecv_completes (by simpa [hrecvs] using hchunk)
  obtain rfl := List.length_eq_zero_iff.mp htail
  rw [List.drop_zero, List.append_nil, hrecvs] at hrecv
  exact hcall.trans hrecv

/-- One message takes two reads, after which the rest is to arrive. -/
theorem arrives_cons {stream : List UInt8} (hstream : stream = writeObj m ++ rest)
    (hchunk : m.framed.length ≤ d.chunk (k + 1)) : ∃ t' : Reception, t'.curMsgLen = 0 ∧
    (Arrives d (m :: msgs) t { stream, recvs := k } ↔ Arrives d msgs t' { stream := rest, recvs := k + 2 }) := by
  have hstep := doRecvs_of_true (doRecv_whole hidle hfits hhead hstream hchunk)
  refine ⟨{ curMsgLen := 0, curMsgOff := m.framed.length, curMsgBuf := some m.framed }, rfl, ?_, ?_⟩
  · rintro ⟨⟨n, hn⟩, hassert⟩
    refine ⟨?_, fun n => ?_⟩
    · cases n with
      | zero => simp [doRecvs] at hn
      | succ n =>
        rw [hstep] at hn
        obtain ⟨hbufs, hstop⟩ := Prod.mk.inj hn
        exact ⟨n, Prod.ext (List.tail_eq_of_cons_eq hbufs) hstop⟩
    · have := hassert (n + 1)
      rwa [hstep] at this
  · rintro ⟨⟨n, hn⟩, hassert⟩
    refine ⟨⟨n + 1, by rw [hstep, hn]; rfl⟩, fun n => ?_⟩
    cases n with
    | zero => simp [doRecvs]
    | succ n =>
      rw [hstep]
      exact hassert n

end Sent

/-- Every header and every body is there at once for the call of `recv` that wants it,
when `k` calls were made before. -/
def Unsplit (d : Delivery) (k : Nat) (msgs : List Message) : Prop :=
  ∀ i m, msgs[i]? = some m → 4 ≤ d.chunk (k + 2 * i) ∧ m.framed.length ≤ d.chunk (k + 2 * i + 1)

theorem unsplit_cons {k : Nat} : Unsplit d k (m :: msgs) ↔
    (4 ≤ d.chunk k ∧ m.framed.length ≤ d.chunk (k + 1)) ∧ Unsplit d (k + 2) msgs := by
  constructor
  · intro h
    refine ⟨h 0 m rfl, fun i m' hi => ?_⟩
    have hnext := h (i + 1) m' (by simpa using hi)
    rwa [show k + 2 * (i + 1) = k + 2 + 2 * i by omega] at hnext
  · rintro ⟨hfirst, hrest⟩ i m' hi
    cases i with
    | zero =>
      obtain rfl : m = m' := by simpa using hi
      exact hfirst
    | succ i =>
      have hnext := hrest i m' (by simpa using hi)
      rwa [show k + 2 + 2 * i = k + 2 * (i + 1) by omega] at hnext

/-- An idle transport is as good as a new one. -/
theorem arrives_iff_unsplit {k : Nat} (hidle : t.curMsgLen = 0) (hfits : ∀ m ∈ msgs, m.Fits) :
    Arrives d msgs t { stream := msgs.flatMap writeObj, recvs := k } ↔ Unsplit d k msgs := by
  induction msgs generalizing t k with
  | nil => exact ⟨fun _ i m hi => by simp at hi, fun _ => arrives_nil hidle⟩
  | cons m msgs ih =>
    obtain ⟨hm, hmsgs⟩ := List.forall_mem_cons.mp hfits
    have hstream : (m :: msgs).flatMap writeObj = writeObj m ++ msgs.flatMap writeObj := List.flatMap_cons
    rw [unsplit_cons]
    by_cases hhead : 4 ≤ d.chunk k
    · by_cases hbody : m.framed.length ≤ d.chunk (k + 1)
      · obtain ⟨t', hidle', hiff⟩ := arrives_cons hidle hm hhead hstream hbody
        rw [hiff, ih hidle' hmsgs]
        exact ⟨fun h => ⟨⟨hhead, hbody⟩, h⟩, And.right⟩
      · refine iff_of_false ?_ fun h => hbody h.1.2
        exact not_arrives_of_split_body hidle hm hhead hstream (Nat.lt_of_not_le hbody)
    · refine iff_of_false ?_ fun h => hhead h.1.1
      exact not_arrives_of_split_header hidle hstream (Nat.lt_of_not_le hhead)

theorem RoundTrip.fits (h : RoundTrip d msgs) : ∀ m ∈ msgs, m.Fits := by
  intro m hm
  obtain ⟨⟨n, hn⟩, _⟩ := h
  have hsmall := doRecvs_small (d := d) (t := {}) (s := { stream := msgs.flatMap writeObj })
    (fun hlen => absurd rfl hlen) n
  rw [hn] at hsmall
  exact hsmall m.framed (List.mem_map_of_mem hm)

/-- Messages survive the framing exactly if the size of each fits in an `int` and no
header or body arrives in parts. -/
theorem roundTrip_iff (d : Delivery) (msgs : List Message) :
    RoundTrip d msgs ↔ (∀ m ∈ msgs, m.Fits) ∧
      ∀ i m, msgs[i]? = some m → 4 ≤ d.chunk (2 * i) ∧ m.framed.length ≤ d.chunk (2 * i + 1) := by
  have hunsplit : Unsplit d 0 msgs ↔
      ∀ i m, msgs[i]? = some m → 4 ≤ d.chunk (2 * i) ∧ m.framed.length ≤ d.chunk (2 * i + 1) := by
    simp only [Unsplit, Nat.zero_add]
  constructor
  · intro h
    exact ⟨h.fits, hunsplit.mp ((arrives_iff_unsplit rfl h.fits).mp h)⟩
  · rintro ⟨hfits, hwhole⟩
    exact (arrives_iff_unsplit rfl hfits).mpr (hunsplit.mpr hwhole)

/-- Calls of `recv` that deliver four bytes at most. -/
def fourBytes : Delivery where
  chunk _ := 4
  chunk_pos _ := by decide
  heap _ _ := 0

def ping : Message where
  text := [112, 105, 110, 103]
  nul_free := by decide

/-- The last byte of `ping` overwrites its first. -/
example : (doRecvs fourBytes.system 2 {} { stream := writeObj ping }).1 = [some [0, 105, 110, 103, 0]] := by
  decide

theorem not_roundTrip_ping : ¬RoundTrip fourBytes [ping] :=
  not_arrives_of_split_body rfl (by decide) (by decide) List.flatMap_cons (by decide)

end ServiceManager.Wsrpc
