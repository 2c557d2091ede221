import Chdkptp.ByteMemory
import Chdkptp.ByteStream
import Chdkptp.BoundedLoop

/-!
# The packet buffer

Control packets are read through a 512-byte buffer, which keeps what the
transport delivered beyond the packet; data is taken from the buffer first and
then read into the caller's memory. USB data ends with a read into the buffer,
TCP data does not. The bytes that a function writes to `dst` are returned in
order. The functions compute with `int`; a `memcpy` whose count is negative has
no result.
-/

namespace PtpBuffer

open ByteMemory ByteStream BoundedLoop

abbrev ptpRcOk : UInt16 := 0x2001
abbrev ptpErrorIo : UInt16 := 0x02FF
abbrev ptpErrorBadparam : UInt16 := 0x02FC

theorem io_error : ptpErrorIo ≠ ptpRcOk := by decide

theorem badparam_error : ptpErrorBadparam ≠ ptpRcOk := by decide

/-- `PTP_PACKET_BUFFER_SIZE`, which is `PTP_USB_BULK_HS_MAX_PACKET_LEN`. -/
abbrev ptpPacketBufferSize : Nat := 512

structure PTPPacketBuffer where
  data : Memory
  pos : Int
  len : Int

/-- The fields used here; `transport` is what `read_func` is going to return. -/
structure PTPParams where
  pktBuf : PTPPacketBuffer
  transport : Transport
  sessionId : UInt32

/-- The conversion to `int`. -/
def toInt (n : Int) : Int := n.bmod (2 ^ 32)

def ptpTransportReadFromBuffer (b : PTPPacketBuffer) (maxSize : Int) :
    Option (List UInt8 × PTPPacketBuffer) :=
  if b.len = 0 then some ([], b)
  else
    let len := if b.len > maxSize then maxSize else b.len
    if len < 0 then none
    else
      let left := b.len - len
      some (slice b.data b.pos.toNat len.toNat,
        { b with len := left, pos := if left = 0 then 0 else b.pos + len })

/-- The local variables of `ptp_transport_read_to_buffer`; the loop is only
entered again while there is room in the buffer. -/
structure Refill where
  data : Memory
  total : Nat
  transport : Transport
  room : total < ptpPacketBufferSize

/-- The `do … while(total < min_size)` loop, for a `min_size` that has been checked. -/
def refillLoop (minSize : Int) (hmin : minSize ≤ ptpPacketBufferSize) :
    Loop Refill (UInt16 × Memory × Nat × Transport) where
  step s :=
    match read s.transport (ptpPacketBufferSize - s.total) with
    | (none, t) => .inr (ptpErrorIo, s.data, s.total, t)
    | (some bytes, t) =>
      if h : ((s.total + bytes.length : Nat) : Int) < minSize then
        .inl ⟨blit s.data s.total bytes, s.total + bytes.length, t, by omega⟩
      else .inr (ptpRcOk, blit s.data s.total bytes, s.total + bytes.length, t)
  measure s := work s.transport
  decreases s s' hs := by
    split at hs
    · cases hs
    · rename_i bytes t hread
      split at hs
      · cases hs
        have := s.room
        exact (read_some hread).work (by omega)
      · cases hs

/-- The buffer must be empty. After a failed read `len` stays 0. -/
def ptpTransportReadToBuffer (params : PTPParams) (minSize : Int) : UInt16 × PTPParams :=
  let b := params.pktBuf
  if h : b.len ≠ 0 ∨ b.pos ≠ 0 ∨ minSize > ptpPacketBufferSize then (ptpErrorBadparam, params)
  else
    let r := (refillLoop minSize (by omega)).run ⟨b.data, 0, params.transport, by decide⟩
    (r.1, { params with
      pktBuf := { b with data := r.2.1, len := if r.1 = ptpRcOk then r.2.2.1 else b.len },
      transport := r.2.2.2 })

/-- The return code of a read, the bytes written to `dst`, the state after it. -/
structure Reply where
  ret : UInt16
  bytes : List UInt8
  params : PTPParams

def ptpControlReadBuffered (params : PTPParams) (size : Int) : Option Reply := do
  let (got, b) ← ptpTransportReadFromBuffer params.pktBuf size
  let params := { params with pktBuf := b }
  let bcount : Int := got.length
  if bcount < size then
    let (ret, params) := ptpTransportReadToBuffer params (size - bcount)
    if ret ≠ ptpRcOk then some ⟨ret, got, params⟩
    else
      let (more, b) ← ptpTransportReadFromBuffer params.pktBuf (size - bcount)
      let params := { params with pktBuf := b }
      if (more.length : Int) ≠ size - bcount then some ⟨ptpErrorBadparam, got ++ more, params⟩
      else some ⟨ptpRcOk, got ++ more, params⟩
  else some ⟨ptpRcOk, got, params⟩

/-- `while(rtotal < limit)`: read the missing bytes directly to `dst`. -/
def directLoop (limit : Int) : Loop (List UInt8 × Transport) (UInt16 × List UInt8 × Transport) where
  step s :=
    if (s.1.length : Int) < limit then
      match read s.2 (limit - s.1.length).toNat with
      | (none, t) => .inr (ptpErrorIo, s.1, t)
      | (some bytes, t) => .inl (s.1 ++ bytes, t)
    else .inr (ptpRcOk, s.1, s.2)
  measure s := work s.2
  decreases s s' hs := by
    split at hs
    · rename_i hlt
      split at hs
      · cases hs
      · rename_i bytes t hread
        cases hs
        exact (read_some hread).work (by omega)
    · cases hs

def ptpTcpReadData (params : PTPParams) (size : UInt32) : Option Reply := do
  let (got, b) ← ptpTransportReadFromBuffer params.pktBuf (toInt size.toNat)
  let r := (directLoop size.toNat).run (got, params.transport)
  some ⟨r.1, r.2.1, { params with pktBuf := b, transport := r.2.2 }⟩

/-- The bytes up to the last whole packet go to `dst`, then the rest comes
through the buffer, with a read even if there is no rest. -/
def ptpUsbReadData (params : PTPParams) (size : UInt32) : Option Reply := do
  let (got, b) ← ptpTransportReadFromBuffer params.pktBuf (toInt size.toNat)
  let params := { params with pktBuf := b }
  if got.length < size.toNat then
    let toread := toInt ((size.toNat : Int) - got.length)
    let rest := toread.tmod ptpPacketBufferSize
    let bulktotal := toInt ((size.toNat : Int) - rest)
    let r := (directLoop bulktotal).run (got, params.transport)
    let params := { params with transport := r.2.2 }
    if r.1 ≠ ptpRcOk then some ⟨r.1, r.2.1, params⟩
    else
      let (ret, params) := ptpTransportReadToBuffer params rest
      if ret ≠ ptpRcOk then some ⟨ret, r.2.1, params⟩
      else
        let (more, b) ← ptpTransportReadFromBuffer params.pktBuf rest
        let params := { params with pktBuf := b }
        let bytes := r.2.1 ++ more
        if bytes.length ≠ size.toNat then some ⟨ptpErrorIo, bytes, params⟩
        else some ⟨ptpRcOk, bytes, params⟩
  else some ⟨ptpRcOk, got, params⟩

/-! ## The buffer and the stream -/

/-- The invariant of the buffer between calls. -/
structure Valid (b : PTPPacketBuffer) : Prop where
  pos : 0 ≤ b.pos
  len : 0 ≤ b.len
  bound : b.pos + b.len ≤ ptpPacketBufferSize
  empty : b.len = 0 → b.pos = 0

/-- The bytes held in the buffer. -/
def contents (b : PTPPacketBuffer) : List UInt8 := slice b.data b.pos.toNat b.len.toNat

/-- The incoming bytes that have not been delivered. -/
def stream (params : PTPParams) : List UInt8 := contents params.pktBuf ++ pending params.transport

theorem contents_empty {b : PTPPacketBuffer} (h : b.len = 0) : contents b = [] := by
  simp [contents, h]

/-- What a read from the buffer takes and leaves. -/
structure Taken (b : PTPPacketBuffer) (maxSize : Int) (got : List UInt8)
    (b' : PTPPacketBuffer) : Prop where
  valid : Valid b'
  contents : got ++ contents b' = contents b
  length : (got.length : Int) = min maxSize b.len
  left : b'.len = b.len - got.length

theorem readFromBuffer_spec {b : PTPPacketBuffer} (hv : Valid b) (maxSize : Int)
    (hsize : 0 ≤ maxSize) :
    ∃ got b', ptpTransportReadFromBuffer b maxSize = some (got, b') ∧ Taken b maxSize got b' := by
  obtain ⟨hpos, hlen, hbound, hempty⟩ := hv
  by_cases hzero : b.len = 0
  · refine ⟨[], b, by simp [ptpTransportReadFromBuffer, hzero], ⟨hpos, hlen, hbound, hempty⟩,
      rfl, ?_, ?_⟩
    · simp only [List.length_nil, hzero]
      omega
    · simp
  · have hmin : (if b.len > maxSize then maxSize else b.len) = min maxSize b.len := by
      split <;> omega
    have hnonneg : ¬min maxSize b.len < 0 := by omega
    refine ⟨slice b.data b.pos.toNat (min maxSize b.len).toNat,
      { b with
        len := b.len - min maxSize b.len,
        pos := if b.len - min maxSize b.len = 0 then 0 else b.pos + min maxSize b.len }, ?_, ?_⟩
    · simp only [ptpTransportReadFromBuffer, if_neg hzero, hmin, if_neg hnonneg]
    · refine ⟨⟨?_, ?_, ?_, ?_⟩, ?_, ?_, ?_⟩
      · simp only
        split <;> omega
      · simp only
        omega
      · simp only
        split <;> omega
      · intro h
        simp only at h ⊢
        rw [if_pos h]
      · -- the bytes behind the copied ones stay where they are, or there are none
        have hsplit : b.len.toNat = (min maxSize b.len).toNat +
            (b.len - min maxSize b.len).toNat := by omega
        simp only [contents]
        rw [hsplit, slice_append]
        congr 1
        by_cases hleft : b.len - min maxSize b.len = 0
        · simp [hleft]
        · rw [if_neg hleft]
          have hadd : (b.pos + min maxSize b.len).toNat =
              b.pos.toNat + (min maxSize b.len).toNat := by omega
          rw [hadd]
      · simp only [slice_length]
        omega
      · simp only [slice_length]
        omega

/-! ## The loops -/

/-- What the direct loop has done when it returns OK. -/
structure Direct (limit : Int) (got : List UInt8) (t : Transport) (bytes : List UInt8)
    (t' : Transport) : Prop where
  stream : bytes ++ pending t' = got ++ pending t
  length : (bytes.length : Int) = max limit got.length
  reliable : Reliable t → Reliable t'

/-- The direct loop gets all missing bytes or fails; on a reliable transport it
fails only for want of bytes. -/
theorem directLoop_spec (limit : Int) (got : List UInt8) (t : Transport) :
    let r := (directLoop limit).run (got, t)
    (r.1 = ptpRcOk ∧ Direct limit got t r.2.1 r.2.2) ∨
      (r.1 = ptpErrorIo ∧ (Reliable t → ((got ++ pending t).length : Int) < limit)) := by
  refine (directLoop limit).run_invariant
    (fun s => s.1 ++ pending s.2 = got ++ pending t ∧ (Reliable t → Reliable s.2) ∧
      got.length ≤ s.1.length ∧ (s.1.length : Int) ≤ max limit got.length)
    (fun r => (r.1 = ptpRcOk ∧ Direct limit got t r.2.1 r.2.2) ∨
      (r.1 = ptpErrorIo ∧ (Reliable t → ((got ++ pending t).length : Int) < limit)))
    ?_ ?_ ⟨rfl, id, Nat.le_refl _, by simp only; omega⟩
  · rintro s s' ⟨hstream, hreliable, hlow, hhigh⟩ hstep
    simp only [directLoop] at hstep
    split at hstep
    · rename_i hlt
      split at hstep
      · cases hstep
      · rename_i bytes t' hread
        cases hstep
        have hr := read_some hread
        have hlen := hr.length
        refine ⟨?_, fun h => hr.reliable (hreliable h), ?_, ?_⟩
        · simp only [List.append_assoc, hr.stream, hstream]
        · simp only [List.length_append]
          omega
        · simp only [List.length_append]
          omega
    · cases hstep
  · rintro s r ⟨hstream, hreliable, hlow, hhigh⟩ hstep
    simp only [directLoop] at hstep
    split at hstep
    · rename_i hlt
      split at hstep
      · rename_i t' hread
        cases hstep
        refine .inr ⟨rfl, fun h => ?_⟩
        rw [← hstream, read_none hread (hreliable h), List.append_nil]
        exact hlt
      · cases hstep
    · rename_i hge
      cases hstep
      exact .inl ⟨rfl, hstream, by simp only; omega, hreliable⟩

/-- The direct loop loses nothing, and when it fails on a reliable transport it has got all. -/
theorem directLoop_bytes (limit : Int) (got : List UInt8) (t : Transport) :
    let r := (directLoop limit).run (got, t)
    r.2.1 ++ pending r.2.2 = got ++ pending t ∧ (r.2.1.length : Int) ≤ max limit got.length ∧
      (r.1 ≠ ptpRcOk → Reliable t → pending r.2.2 = []) := by
  refine (directLoop limit).run_invariant
    (fun s => s.1 ++ pending s.2 = got ++ pending t ∧ (Reliable t → Reliable s.2) ∧
      (s.1.length : Int) ≤ max limit got.length)
    (fun r => r.2.1 ++ pending r.2.2 = got ++ pending t ∧
      (r.2.1.length : Int) ≤ max limit got.length ∧
      (r.1 ≠ ptpRcOk → Reliable t → pending r.2.2 = []))
    ?_ ?_ ⟨rfl, id, by simp only; omega⟩
  · rintro s s' ⟨hstream, hreliable, hhigh⟩ hstep
    simp only [directLoop] at hstep
    split at hstep
    · split at hstep
      · cases hstep
      · rename_i bytes t' hread
        cases hstep
        have hr := read_some hread
        have hlen := hr.length
        refine ⟨?_, fun h => hr.reliable (hreliable h), ?_⟩
        · simp only [List.append_assoc, hr.stream, hstream]
        · simp only [List.length_append]
          omega
    · cases hstep
  · rintro s r ⟨hstream, hreliable, hhigh⟩ hstep
    simp only [directLoop] at hstep
    split at hstep
    · split at hstep
      · rename_i t' hread
        cases hstep
        have hpending : pending t' = pending s.2 := read_none_pending hread
        simp only [hpending]
        exact ⟨hstream, hhigh, fun _ h => read_none hread (hreliable h)⟩
      · cases hstep
    · cases hstep
      exact ⟨hstream, hhigh, fun h => absurd rfl h⟩

/-- What a refill has done when it returns OK. -/
structure Refilled (minSize : Int) (t : Transport) (data : Memory) (total : Nat)
    (t' : Transport) : Prop where
  stream : slice data 0 total ++ pending t' = pending t
  low : minSize ≤ total
  high : total ≤ ptpPacketBufferSize
  reliable : Reliable t → Reliable t'

theorem refillLoop_spec (minSize : Int) (hmin : minSize ≤ ptpPacketBufferSize) (data : Memory)
    (t : Transport) :
    let r := (refillLoop minSize hmin).run ⟨data, 0, t, by decide⟩
    (r.1 = ptpRcOk ∧ Refilled minSize t r.2.1 r.2.2.1 r.2.2.2) ∨
      (r.1 = ptpErrorIo ∧ (Reliable t → ((pending t).length : Int) < max minSize 1)) := by
  refine (refillLoop minSize hmin).run_invariant
    (fun s => slice s.data 0 s.total ++ pending s.transport = pending t ∧
      (Reliable t → Reliable s.transport) ∧ (s.total : Int) < max minSize 1)
    (fun r => (r.1 = ptpRcOk ∧ Refilled minSize t r.2.1 r.2.2.1 r.2.2.2) ∨
      (r.1 = ptpErrorIo ∧ (Reliable t → ((pending t).length : Int) < max minSize 1)))
    ?_ ?_ ⟨by simp, id, by simp only; omega⟩
  · rintro s s' ⟨hstream, hreliable, hlow⟩ hstep
    simp only [refillLoop] at hstep
    split at hstep
    · cases hstep
    · rename_i bytes t' hread
      split at hstep
      · rename_i hlt
        cases hstep
        have hr := read_some hread
        have hext := slice_blit_extend s.data 0 s.total bytes
        rw [Nat.zero_add] at hext
        refine ⟨?_, fun h => hr.reliable (hreliable h), by simp only; omega⟩
        simp only [hext, List.append_assoc, hr.stream, hstream]
      · cases hstep
  · rintro s r ⟨hstream, hreliable, hlow⟩ hstep
    simp only [refillLoop] at hstep
    split at hstep
    · rename_i t' hread
      cases hstep
      refine .inr ⟨rfl, fun h => ?_⟩
      rw [← hstream, read_none hread (hreliable h), List.append_nil, slice_length]
      exact hlow
    · rename_i bytes t' hread
      split at hstep
      · cases hstep
      · rename_i hge
        cases hstep
        have hr := read_some hread
        have hlen := hr.length
        have hroom := s.room
        have hext := slice_blit_extend s.data 0 s.total bytes
        rw [Nat.zero_add] at hext
        refine .inl ⟨rfl, ?_, by simp only; omega, by simp only; omega,
          fun h => hr.reliable (hreliable h)⟩
        simp only [hext, List.append_assoc, hr.stream, hstream]

/-! ## The read functions -/

/-- A read of `size` bytes that returned OK: it delivered the next `size` bytes. -/
structure Served (params : PTPParams) (size : Nat) (r : Reply) : Prop where
  ret : r.ret = ptpRcOk
  valid : Valid r.params.pktBuf
  stream : r.bytes ++ stream r.params = stream params
  length : r.bytes.length = size
  reliable : Reliable params.transport → Reliable r.params.transport
  session : r.params.sessionId = params.sessionId

/-- A read that returned something else; on a reliable transport for want of bytes. -/
structure Refused (params : PTPParams) (needed : Nat) (r : Reply) : Prop where
  ret : r.ret ≠ ptpRcOk
  short : Reliable params.transport → (stream params).length < needed

theorem readToBuffer_spec (params : PTPParams) (minSize : Int) (hpos : params.pktBuf.pos = 0)
    (hlen : params.pktBuf.len = 0) (hmin : minSize ≤ ptpPacketBufferSize) :
    let r := ptpTransportReadToBuffer params minSize
    (r.1 = ptpRcOk ∧ Valid r.2.pktBuf ∧ stream r.2 = pending params.transport ∧
        minSize ≤ r.2.pktBuf.len ∧ r.2.sessionId = params.sessionId ∧
        (Reliable params.transport → Reliable r.2.transport)) ∨
      (r.1 ≠ ptpRcOk ∧ (Reliable params.transport →
        ((pending params.transport).length : Int) < max minSize 1)) := by
  have hgo : ¬(params.pktBuf.len ≠ 0 ∨ params.pktBuf.pos ≠ 0 ∨ minSize > ptpPacketBufferSize) := by
    omega
  simp only [ptpTransportReadToBuffer, dif_neg hgo]
  rcases refillLoop_spec minSize hmin params.pktBuf.data params.transport with
    ⟨hret, hr⟩ | ⟨hret, hshort⟩
  · left
    have hhigh := hr.high
    have hlow := hr.low
    refine ⟨hret, ⟨?_, ?_, ?_, ?_⟩, ?_, ?_, trivial, hr.reliable⟩
    · simp only [hpos]
      omega
    · simp only [hret, if_true]
      omega
    · simp only [hret, if_true, hpos]
      omega
    · intro _
      exact hpos
    · simp only [stream, contents, hret, if_true, hpos, Int.toNat_zero, Int.toNat_natCast]
      exact hr.stream
    · simp only [hret, if_true]
      exact hlow
  · right
    refine ⟨?_, hshort⟩
    rw [hret]
    decide

/-- After a read from the buffer that was not enough the buffer is empty. -/
theorem Taken.drained {b b' : PTPPacketBuffer} {maxSize : Int} {got : List UInt8}
    (h : Taken b maxSize got b') (hlt : (got.length : Int) < maxSize) :
    b'.len = 0 ∧ b'.pos = 0 ∧ got = PtpBuffer.contents b := by
  have hlength := h.length
  have hleft := h.left
  have hzero : b'.len = 0 := by omega
  refine ⟨hzero, h.valid.empty hzero, ?_⟩
  have hcontents := h.contents
  rwa [contents_empty hzero, List.append_nil] at hcontents

/-- More than the buffer can hold is not read into it. -/
theorem readToBuffer_big (params : PTPParams) {minSize : Int}
    (hbig : (ptpPacketBufferSize : Int) < minSize) :
    ptpTransportReadToBuffer params minSize = (ptpErrorBadparam, params) := by
  rw [ptpTransportReadToBuffer]
  exact dif_pos (.inr (.inr hbig))

/-- What a control read of any size does, whatever it returns: it copies next bytes of
the stream, at least what the buffer holds of them and never more than asked for. -/
structure Copied (params : PTPParams) (size : Nat) (r : Reply) : Prop where
  served : r.ret = ptpRcOk → Served params size r
  short : r.ret ≠ ptpRcOk → size ≤ ptpPacketBufferSize → Reliable params.transport →
    (stream params).length < size
  copied : r.bytes <+: stream params
  most : r.bytes.length ≤ size
  least : min size params.pktBuf.len.toNat ≤ r.bytes.length

theorem controlRead_any {params : PTPParams} (size : Nat) (hv : Valid params.pktBuf) :
    ∃ r, ptpControlReadBuffered params size = some r ∧ Copied params size r := by
  obtain ⟨got, b, hread, ht⟩ := readFromBuffer_spec hv size (by omega)
  have hlength := ht.length
  have hlen := hv.len
  have hprefix : got <+: stream params :=
    ⟨PtpBuffer.contents b ++ pending params.transport, by
      rw [← List.append_assoc, ht.contents, stream]⟩
  simp only [ptpControlReadBuffered, hread, bind, Option.bind]
  by_cases hlt : (got.length : Int) < size
  · obtain ⟨hzero, hpos, hgot⟩ := ht.drained hlt
    rw [if_pos hlt]
    by_cases hbig : (ptpPacketBufferSize : Int) < size - got.length
    · rw [readToBuffer_big _ hbig, if_pos badparam_error]
      refine ⟨_, rfl, fun h => absurd h badparam_error, ?_, hprefix, by simp only; omega,
        by simp only; omega⟩
      intro _ hsmall
      omega
    · have hrefill := readToBuffer_spec { params with pktBuf := b } (size - got.length) hpos hzero
        (Int.not_lt.mp hbig)
      generalize ptpTransportReadToBuffer { params with pktBuf := b } (size - got.length) = q
        at hrefill ⊢
      obtain ⟨ret, params'⟩ := q
      simp only at hrefill
      rcases hrefill with ⟨hret, hv', hstream, hmin, hsession, hreliable⟩ | ⟨hret, hshort⟩
      · obtain ⟨more, b', hread', ht'⟩ := readFromBuffer_spec hv' (size - got.length) (by omega)
        have hlength' := ht'.length
        have hmore : ¬((more.length : Int) ≠ size - got.length) := by omega
        have htotal : (got ++ more).length = size := by
          rw [List.length_append]
          omega
        have hconserve : (got ++ more) ++ stream { params' with pktBuf := b' } = stream params := by
          rw [List.append_assoc]
          simp only [stream, ← hgot, ← hstream]
          rw [← List.append_assoc more, ht'.contents]
        simp only [hret, ne_eq, not_true_eq_false, if_false, hread', hmore]
        refine ⟨_, rfl, fun _ => ⟨rfl, ht'.valid, hconserve, htotal, hreliable, hsession⟩,
          fun h => absurd rfl h, ⟨_, hconserve⟩, by simp only; omega, by simp only; omega⟩
      · simp only [ne_eq, hret, not_false_eq_true, if_true]
        refine ⟨_, rfl, fun h => absurd h hret, fun _ _ hr => ?_, hprefix, by simp only; omega,
          by simp only; omega⟩
        have := hshort hr
        simp only [stream, ← hgot, List.length_append]
        omega
  · rw [if_neg hlt]
    have hconserve : got ++ stream { params with pktBuf := b } = stream params := by
      simp only [stream, ← List.append_assoc, ht.contents]
    refine ⟨_, rfl, fun _ => ⟨rfl, ht.valid, hconserve, by simp only; omega, id, rfl⟩,
      fun h => absurd rfl h, hprefix, by simp only; omega, by simp only; omega⟩

theorem controlReadBuffered_spec {params : PTPParams} {size : Nat} (hv : Valid params.pktBuf)
    (hsize : size ≤ ptpPacketBufferSize) :
    ∃ r, ptpControlReadBuffered params size = some r ∧
      (Served params size r ∨ Refused params size r) := by
  obtain ⟨r, hr, hc⟩ := controlRead_any size hv
  by_cases hret : r.ret = ptpRcOk
  · exact ⟨r, hr, .inl (hc.served hret)⟩
  · exact ⟨r, hr, .inr ⟨hret, hc.short hret hsize⟩⟩

/-- A negative size asks for nothing; what is in the buffer cannot be copied then. -/
theorem controlRead_negative (params : PTPParams) {size : Int} (hsize : size < 0) :
    (params.pktBuf.len = 0 → ptpControlReadBuffered params size = some ⟨ptpRcOk, [], params⟩) ∧
      (0 < params.pktBuf.len → ptpControlReadBuffered params size = none) := by
  constructor
  · intro hlen
    have hread : ptpTransportReadFromBuffer params.pktBuf size = some ([], params.pktBuf) := by
      rw [ptpTransportReadFromBuffer, if_pos hlen]
    simp only [ptpControlReadBuffered, hread, bind, Option.bind, List.length_nil]
    rw [if_neg (by omega)]
  · intro hlen
    have hread : ptpTransportReadFromBuffer params.pktBuf size = none := by
      rw [ptpTransportReadFromBuffer, if_neg (by omega)]
      simp only
      rw [if_pos (show params.pktBuf.len > size by omega), if_pos hsize]
    simp only [ptpControlReadBuffered, hread, bind, Option.bind]

theorem toInt_of_lt {n : Int} (hlow : 0 ≤ n) (hhigh : n < 2 ^ 31) : toInt n = n := by
  simp only [toInt, Int.bmod]
  omega

/-- What is left of a length behind its header. -/
theorem toInt_sub {length header : Nat} (hle : header ≤ length)
    (hsmall : length < 2 ^ 31 + header) :
    toInt ((length : Int) - header) = (length - header : Nat) := by
  rw [toInt_of_lt (by omega) (by omega)]
  omega

/-- What `ptp_tcp_read_data` does in every case: the bytes copied are the next of the
stream, and if it fails on a reliable transport they are the last. -/
structure Fetched (params : PTPParams) (size : Nat) (r : Reply) : Prop where
  served : r.ret = ptpRcOk → Served params size r
  copied : r.bytes ++ stream r.params = stream params
  most : r.bytes.length ≤ size
  drained : r.ret ≠ ptpRcOk → Reliable params.transport →
    stream r.params = [] ∧ (stream params).length < size

/-- A size beyond `int` is only noticed by a buffer that holds something. -/
theorem tcpRead_any {params : PTPParams} (size : UInt32) (hv : Valid params.pktBuf)
    (hsize : size.toNat < 2 ^ 31 ∨ params.pktBuf.len = 0) :
    ∃ r, ptpTcpReadData params size = some r ∧ Fetched params size.toNat r := by
  have htake : ∃ got b, ptpTransportReadFromBuffer params.pktBuf (toInt size.toNat) =
      some (got, b) ∧ Taken params.pktBuf size.toNat got b := by
    rcases hsize with hsize | hzero
    · rw [toInt_of_lt (by omega) (by omega)]
      exact readFromBuffer_spec hv size.toNat (by omega)
    · refine ⟨[], params.pktBuf, ?_, hv, rfl, ?_, ?_⟩
      · rw [ptpTransportReadFromBuffer, if_pos hzero]
      · simp only [List.length_nil, hzero]
        omega
      · simp
  obtain ⟨got, b, hread, ht⟩ := htake
  have hlength := ht.length
  have hcontents := ht.contents
  simp only [ptpTcpReadData, hread, bind, Option.bind]
  obtain ⟨hconserve, hmost, hdrained⟩ := directLoop_bytes size.toNat got params.transport
  -- bytes are only missing when the buffer is empty
  have hempty : (got.length : Int) < size.toNat → contents b = [] := by
    intro hlt
    exact contents_empty (ht.drained hlt).1
  have hcopied : ((directLoop size.toNat).run (got, params.transport)).2.1 ++ (contents b ++
      pending ((directLoop size.toNat).run (got, params.transport)).2.2) = stream params := by
    by_cases hlt : (got.length : Int) < size.toNat
    · rw [hempty hlt, List.append_nil] at hcontents
      rw [hempty hlt, List.nil_append, hconserve, hcontents, stream]
    · -- the loop has read nothing
      have hdirect : (directLoop size.toNat).run (got, params.transport) =
          (ptpRcOk, got, params.transport) := by
        apply Loop.run_inr
        simp only [directLoop]
        rw [if_neg hlt]
      rw [hdirect, ← List.append_assoc, hcontents, stream]
  refine ⟨_, rfl, ?_, hcopied, by simp only; omega, ?_⟩
  · intro hok
    rcases directLoop_spec size.toNat got params.transport with ⟨_, hd⟩ | ⟨hret, _⟩
    · have := hd.length
      exact ⟨hok, ht.valid, hcopied, by simp only; omega, hd.reliable, rfl⟩
    · rw [hret] at hok
      exact absurd hok io_error
  · intro hret hr
    rcases directLoop_spec size.toNat got params.transport with ⟨hok, _⟩ | ⟨_, hshort⟩
    · exact absurd hok hret
    · have hfew := hshort hr
      rw [List.length_append] at hfew
      have hgot := (ht.drained (by omega)).2.2
      constructor
      · simp only [stream]
        rw [hempty (by omega), hdrained hret hr]
        rfl
      · simp only [stream, List.length_append, ← hgot]
        omega

theorem tcpReadData_spec {params : PTPParams} {size : UInt32} (hv : Valid params.pktBuf)
    (hsize : size.toNat < 2 ^ 31) :
    ∃ r, ptpTcpReadData params size = some r ∧
      (Served params size.toNat r ∨ Refused params size.toNat r) := by
  obtain ⟨r, hr, hf⟩ := tcpRead_any size hv (.inl hsize)
  by_cases hret : r.ret = ptpRcOk
  · exact ⟨r, hr, .inl (hf.served hret)⟩
  · exact ⟨r, hr, .inr ⟨hret, fun h => (hf.drained hret h).2⟩⟩

/-- There is no result when the buffer would have to copy a negative number of bytes. -/
theorem tcpRead_result {params : PTPParams} {size : UInt32} {r : Reply}
    (hv : Valid params.pktBuf) (h : ptpTcpReadData params size = some r) :
    size.toNat < 2 ^ 31 ∨ params.pktBuf.len = 0 := by
  by_contra hno
  have hlen := hv.len
  have hsize := size.toNat_lt
  have hneg : toInt size.toNat < 0 := by
    simp only [toInt, Int.bmod]
    omega
  have hread : ptpTransportReadFromBuffer params.pktBuf (toInt size.toNat) = none := by
    rw [ptpTransportReadFromBuffer, if_neg (by omega)]
    simp only
    rw [if_pos (show params.pktBuf.len > toInt size.toNat by omega), if_pos hneg]
  simp only [ptpTcpReadData, hread, bind, Option.bind, reduceCtorEq] at h

/-- Whole packets and a rest: what `ptp_usb_read_data` reads directly and through the buffer. -/
theorem bulk_split {size got : Nat} (hlt : got < size) (hsize : size < 2 ^ 31) :
    ∃ rest : Nat, (toInt ((size : Int) - got)).tmod ptpPacketBufferSize = rest ∧
      rest < ptpPacketBufferSize ∧ got + rest ≤ size ∧
      toInt ((size : Int) - rest) = ((size - rest : Nat) : Int) := by
  refine ⟨(size - got) % ptpPacketBufferSize, ?_, Nat.mod_lt _ (by decide), ?_, ?_⟩
  · rw [toInt_of_lt (by omega) (by omega), ← Int.ofNat_sub (Nat.le_of_lt hlt)]
    rfl
  · have := Nat.mod_le (size - got) ptpPacketBufferSize
    omega
  · have := Nat.mod_le (size - got) ptpPacketBufferSize
    rw [toInt_of_lt (by omega) (by omega)]
    omega

/-- The final read is made even when there is no rest, so one byte beyond the data
has to be there. -/
theorem usbReadData_spec {params : PTPParams} {size : UInt32} (hv : Valid params.pktBuf)
    (hsize : size.toNat < 2 ^ 31) :
    ∃ r, ptpUsbReadData params size = some r ∧
      (Served params size.toNat r ∨ Refused params (size.toNat + 1) r) := by
  obtain ⟨got, b, hread, ht⟩ := readFromBuffer_spec hv size.toNat (by omega)
  have hlength := ht.length
  have hint : toInt size.toNat = size.toNat := toInt_of_lt (by omega) (by omega)
  simp only [ptpUsbReadData, hint, hread, bind, Option.bind]
  by_cases hlt : got.length < size.toNat
  · obtain ⟨hlen, hpos, hgot⟩ := ht.drained (by omega)
    obtain ⟨rest, hrest, hsmall, hfits, hbulk⟩ := bulk_split hlt hsize
    have hdirect := directLoop_spec (size.toNat - rest : Nat) got params.transport
    simp only [if_pos hlt, hrest, hbulk]
    generalize (directLoop (size.toNat - rest : Nat)).run (got, params.transport) = d at hdirect
    obtain ⟨ret, bytes, t⟩ := d
    simp only at hdirect
    rcases hdirect with ⟨rfl, hd⟩ | ⟨rfl, hshort⟩
    · have hbytes := hd.length
      have hrefill := readToBuffer_spec { params with pktBuf := b, transport := t } rest hpos hlen
        (by omega)
      generalize ptpTransportReadToBuffer { params with pktBuf := b, transport := t } rest = q
        at hrefill ⊢
      obtain ⟨ret, params'⟩ := q
      simp only at hrefill
      rcases hrefill with ⟨rfl, hv', hstream, hmin, hsession, hreliable⟩ | ⟨hret, hshort⟩
      · obtain ⟨more, b', hread', ht'⟩ := readFromBuffer_spec hv' rest (by omega)
        have hmore := ht'.length
        have htotal : ¬((bytes ++ more).length ≠ size.toNat) := by
          rw [List.length_append]
          omega
        simp only [ne_eq, not_true_eq_false, if_false, hread', htotal]
        refine ⟨_, rfl, .inl ⟨rfl, ht'.valid, ?_, Classical.not_not.mp htotal,
          fun h => hreliable (hd.reliable h), hsession⟩⟩
        calc (bytes ++ more) ++ (contents b' ++ pending params'.transport)
            = bytes ++ ((more ++ contents b') ++ pending params'.transport) := by
              simp only [List.append_assoc]
          _ = bytes ++ stream params' := by rw [ht'.contents, stream]
          _ = contents params.pktBuf ++ pending params.transport := by
              rw [hstream, hd.stream, hgot]
      · simp only [ne_eq, not_true_eq_false, if_false, hret, not_false_eq_true, if_true]
        refine ⟨_, rfl, .inr ⟨hret, fun hr => ?_⟩⟩
        have hfew := hshort (hd.reliable hr)
        have htotal := congrArg List.length hd.stream
        simp only [List.length_append] at htotal
        simp only [stream, List.length_append, ← hgot]
        omega
    · have hio : ptpErrorIo ≠ ptpRcOk := by decide
      simp only [ne_eq, hio, not_false_eq_true, if_true]
      refine ⟨_, rfl, .inr ⟨hio, fun hr => ?_⟩⟩
      have hfew := hshort hr
      simp only [stream, ← hgot]
      omega
  · rw [if_neg hlt]
    refine ⟨_, rfl, .inl ⟨rfl, ht.valid, ?_, ?_, id, rfl⟩⟩
    · simp only [stream, ← List.append_assoc, ht.contents]
    · simp only
      omega

/-! ## Runs -/

/-- Which data reader shares the buffer. -/
inductive Link where
  | usb | tcp
  deriving DecidableEq, Repr

inductive Call where
  | control (size : Nat)
  | data (size : UInt32)
  deriving DecidableEq, Repr

/-- The sizes for which the functions are meant. -/
def Call.InRange : Call → Prop
  | .control size => size ≤ ptpPacketBufferSize
  | .data size => size.toNat < 2 ^ 31

instance : (call : Call) → Decidable call.InRange
  | .control size => inferInstanceAs (Decidable (size ≤ ptpPacketBufferSize))
  | .data size => inferInstanceAs (Decidable (size.toNat < 2 ^ 31))

def Call.size : Call → Nat
  | .control size => size
  | .data size => size.toNat

def perform (link : Link) (params : PTPParams) : Call → Option Reply
  | .control size => ptpControlReadBuffered params size
  | .data size =>
    match link with
    | .usb => ptpUsbReadData params size
    | .tcp => ptpTcpReadData params size

/-- A sequence of calls that all return OK, with their replies. -/
inductive Run (link : Link) : PTPParams → List Call → List Reply → Prop where
  | nil (params : PTPParams) : Run link params [] []
  | cons {params : PTPParams} {call : Call} {reply : Reply} {calls : List Call}
      {replies : List Reply} (hcall : perform link params call = some reply)
      (hok : reply.ret = ptpRcOk) (hrest : Run link reply.params calls replies) :
      Run link params (call :: calls) (reply :: replies)

/-- The bytes that the calls have delivered. -/
def delivered (replies : List Reply) : List UInt8 := replies.flatMap Reply.bytes

/-- The state after the calls. -/
def final (params : PTPParams) : List Reply → PTPParams
  | [] => params
  | reply :: replies => final reply.params replies

/-- One call: it always has a result, and if that is OK the call delivered the
next bytes of the stream and left a valid buffer. -/
theorem perform_spec (link : Link) {params : PTPParams} {call : Call}
    (hv : Valid params.pktBuf) (hrange : call.InRange) :
    ∃ reply, perform link params call = some reply ∧
      (Served params call.size reply ∨ Refused params (call.size + 1) reply) := by
  cases call with
  | control size =>
    obtain ⟨r, hr, h | h⟩ := controlReadBuffered_spec hv hrange
    · exact ⟨r, hr, .inl h⟩
    · exact ⟨r, hr, .inr ⟨h.ret, fun hrel => Nat.lt_succ_of_lt (h.short hrel)⟩⟩
  | data size =>
    cases link with
    | usb => exact usbReadData_spec hv hrange
    | tcp =>
      obtain ⟨r, hr, h | h⟩ := tcpReadData_spec hv hrange
      · exact ⟨r, hr, .inl h⟩
      · exact ⟨r, hr, .inr ⟨h.ret, fun hrel => Nat.lt_succ_of_lt (h.short hrel)⟩⟩

theorem perform_ok {link : Link} {params : PTPParams} {call : Call} {reply : Reply}
    (hv : Valid params.pktBuf) (hrange : call.InRange)
    (hcall : perform link params call = some reply) (hok : reply.ret = ptpRcOk) :
    Served params call.size reply := by
  obtain ⟨r, hr, h | h⟩ := perform_spec link hv hrange
  · rw [hcall] at hr
    cases hr
    exact h
  · rw [hcall] at hr
    cases hr
    exact absurd hok h.ret

/-- Delivered and undelivered bytes are the stream, after every call. -/
theorem run_conserves {link : Link} {params : PTPParams} {calls : List Call}
    {replies : List Reply} (h : Run link params calls replies) (hv : Valid params.pktBuf)
    (hrange : ∀ call ∈ calls, call.InRange) :
    delivered replies ++ stream (final params replies) = stream params ∧
      (∀ reply ∈ replies, Valid reply.params.pktBuf) ∧
      replies.map (fun reply => reply.bytes.length) = calls.map Call.size := by
  induction h with
  | nil params => exact ⟨rfl, fun _ hmem => absurd hmem List.not_mem_nil, rfl⟩
  | @cons params call reply calls replies hcall hok hrest ih =>
    have hs := perform_ok hv (hrange call List.mem_cons_self) hcall hok
    obtain ⟨hstream, hvalid, hsizes⟩ :=
      ih hs.valid (fun c hc => hrange c (List.mem_cons_of_mem _ hc))
    refine ⟨?_, ?_, ?_⟩
    · rw [delivered, List.flatMap_cons, List.append_assoc, final, ← delivered, hstream, hs.stream]
    · intro r hr
      rcases List.mem_cons.mp hr with rfl | hr
      · exact hs.valid
      · exact hvalid r hr
    · rw [List.map_cons, List.map_cons, hs.length, hsizes]

/-- Whatever the transport does, calls that return OK deliver a prefix of the
incoming stream, each as many bytes as asked for, and leave the buffer valid. -/
theorem delivered_prefix (link : Link) (params : PTPParams) (calls : List Call)
    (replies : List Reply) (hv : Valid params.pktBuf) (hrange : ∀ call ∈ calls, call.InRange)
    (h : Run link params calls replies) :
    delivered replies <+: stream params ∧
      (∀ reply ∈ replies, Valid reply.params.pktBuf) ∧
      replies.map (fun reply => reply.bytes.length) = calls.map Call.size := by
  obtain ⟨hstream, hvalid, hsizes⟩ := run_conserves h hv hrange
  exact ⟨⟨_, hstream⟩, hvalid, hsizes⟩

/-- An empty buffer before a stream of five bytes in two pieces. -/
def freshParams : PTPParams where
  pktBuf := ⟨fun _ => 0, 0, 0⟩
  transport := [.recv [1, 2, 3], .recv [], .recv [4, 5]]
  sessionId := 1

theorem delivered_prefix_witness : ∃ replies,
    Run .usb freshParams [.control 2, .data 2] replies ∧
      (delivered replies <+: stream freshParams ∧
        (∀ reply ∈ replies, Valid reply.params.pktBuf) ∧
        replies.map (fun reply => reply.bytes.length) = [2, 2]) := by
  have hrun : Run .usb freshParams [.control 2, .data 2] [_, _] :=
    .cons rfl rfl (.cons rfl rfl (.nil _))
  exact ⟨_, hrun, delivered_prefix .usb freshParams _ _
    ⟨by decide, by decide, by decide, fun _ => rfl⟩ (by decide) hrun⟩

end PtpBuffer
