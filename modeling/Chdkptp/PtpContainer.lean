import Chdkptp.PtpIpRead

/-!
# Containers and their sizes

A packet that is read whole goes to the caller's container with the size that the
device has put in its header. The packet buffer limits one refill, not what is
copied, so a packet can be longer than the container. `Bounded` describes the
streams for which no byte is written behind the container.
-/

namespace PtpContainer

open ByteMemory ByteStream BoundedLoop PtpBuffer PtpUsb PtpIp PtpIpRead

/-- `sizeof(PTPIPContainer)`. -/
abbrev ptpipContainerSize : Nat := ptpipHeaderLen + ptpipCmdPayloadLen

/-- `sizeof(PTPUSBBulkContainer)`. -/
abbrev ptpUsbBulkContainerSize : Nat := 512

/-- `ptp_usb_read_control` with any container. -/
def ptpUsbReadControlTo (params : PTPParams) (dst : PTPUSBBulkContainer) : Option Packet := do
  let r ← ptpControlReadBuffered params ptpUsbBulkHdrLen
  let pkt : PTPUSBBulkContainer := blit dst 0 r.bytes
  if r.ret ≠ ptpRcOk then some ⟨r.ret, pkt, r.params⟩
  else if pkt.type = ptpUsbContainerResponse then
    if pkt.length.toNat > ptpUsbBulkHdrLen then
      let more ← ptpControlReadBuffered r.params
        (toInt ((pkt.length.toNat : Int) - ptpUsbBulkHdrLen))
      some ⟨more.ret, blit pkt ptpUsbBulkHdrLen more.bytes, more.params⟩
    else some ⟨ptpRcOk, pkt, r.params⟩
  else if pkt.type = ptpUsbContainerData then some ⟨ptpRcOk, pkt, r.params⟩
  else some ⟨ptpErrorBadparam, pkt, r.params⟩

/-- The callers clear their containers first. -/
theorem usbReadControl_eq (params : PTPParams) :
    ptpUsbReadControl params = ptpUsbReadControlTo params (fun _ => 0) := rfl

/-- A stream whose packet stays within `limit` bytes: it holds no more than a header,
its packet is not read whole, the packet or the stream ends in time. -/
def Bounded (header limit : Nat) (whole : Prop) (length : UInt32) (S : List UInt8) : Prop :=
  S.length ≤ header ∨ ¬whole ∨ length.toNat ≤ limit ∨
    (length.toNat < 2 ^ 31 + header ∧ S.length ≤ limit)

/-- Nothing is written from `limit` on. -/
def Within (limit : Nat) (dst pkt : Memory) : Prop := ∀ o, limit ≤ o → pkt o = dst o

theorem within_blit {limit : Nat} {dst : Memory} {o : Nat} {bytes : List UInt8}
    (h : o + bytes.length ≤ limit) : Within limit dst (blit dst o bytes) := by
  intro i hi
  exact blit_outside dst o bytes i (.inr (by omega))

theorem Within.trans {limit : Nat} {a b c : Memory} (h : Within limit a b) (h' : Within limit b c) :
    Within limit a c := fun o ho => (h' o ho).trans (h o ho)

/-! ## What follows the header -/

/-- A size within the limit, or a stream that ends before it, stays within the container. -/
theorem rest_within {params : PTPParams} {header limit length : Nat} (dst : Memory)
    (hv : Valid params.pktBuf) (hlow : header < length) (hhigh : length < 2 ^ 32)
    (hlimit : limit < 2 ^ 31) (hheader : header ≤ limit)
    (h : (stream params).length = 0 ∨ length ≤ limit ∨
      (length < 2 ^ 31 + header ∧ header + (stream params).length ≤ limit)) :
    ∃ r, ptpControlReadBuffered params (toInt ((length : Int) - header)) = some r ∧
      Within limit dst (blit dst header r.bytes) := by
  by_cases hsmall : length < 2 ^ 31 + header
  · have hint := toInt_sub (by omega : header ≤ length) hsmall
    obtain ⟨r, hr, hc⟩ := controlRead_any (length - header) hv
    rw [hint]
    refine ⟨r, hr, within_blit ?_⟩
    have hmost := hc.most
    have hcopied := hc.copied.length_le
    omega
  · -- nothing is buffered, and nothing is read
    have hneg : toInt ((length : Int) - header) < 0 := by
      simp only [toInt, Int.bmod]
      omega
    have hempty : (stream params).length = 0 := by omega
    have hlen := hv.len
    have hzero : params.pktBuf.len = 0 := by
      rw [stream, List.length_append, contents, slice_length] at hempty
      omega
    refine ⟨_, (controlRead_negative params hneg).1 hzero, within_blit ?_⟩
    exact hheader

/-- With enough in the buffer a longer packet is written past the limit, and a
negative size makes the copy undefined. -/
theorem rest_beyond {params : PTPParams} {header limit length : Nat} (hv : Valid params.pktBuf)
    (hhigh : length < 2 ^ 32) (hheader : header ≤ limit) (hlength : limit < length)
    (hbuf : 0 < params.pktBuf.len)
    (h : 2 ^ 31 + header ≤ length ∨ (limit : Int) < header + params.pktBuf.len) :
    ∃ dst : Memory, ∀ m r,
      ptpControlReadBuffered params (toInt ((length : Int) - header)) = some r →
      ¬Within limit dst (blit m header r.bytes) := by
  by_cases hsmall : length < 2 ^ 31 + header
  · have hint := toInt_sub (by omega : header ≤ length) hsmall
    obtain ⟨r, hr, hc⟩ := controlRead_any (length - header) hv
    have hleast := hc.least
    have hlong : limit - header < r.bytes.length := by omega
    rw [hint]
    refine ⟨fun _ => r.bytes.getD (limit - header) 0 + 1, fun m r' hr' hwithin => ?_⟩
    rw [hr] at hr'
    cases hr'
    have hwritten := hwithin limit (Nat.le_refl _)
    have hinside := blit_inside m header r.bytes (limit - header) hlong
    rw [Nat.add_sub_cancel' hheader, hwritten] at hinside
    exact absurd hinside (by simp)
  · have hneg : toInt ((length : Int) - header) < 0 := by
      simp only [toInt, Int.bmod]
      omega
    refine ⟨fun _ => 0, fun m r hr => ?_⟩
    rw [(controlRead_negative params hneg).2 hbuf] at hr
    cases hr

/-! ## A header in two pieces -/

/-- One byte of the stream is buffered, the rest comes at once. -/
def straddled (S : List UInt8) : PTPParams :=
  ⟨⟨container S, 0, 1⟩, [.recv S.tail], 0⟩

theorem straddled_stream {S : List UInt8} (h : S ≠ []) : stream (straddled S) = S := by
  cases S with
  | nil => exact absurd rfl h
  | cons b S =>
    simp [stream, straddled, contents, slice, container, blit, pending]

theorem straddled_valid (S : List UInt8) : Valid (straddled S).pktBuf := by
  refine ⟨Int.le_refl 0, Int.zero_le_ofNat 1, ?_, fun h => by cases h⟩
  simp only [straddled]
  decide

/-- A refill from one piece takes what fits. -/
theorem refill_piece (data : Memory) (bytes : List UInt8) {minSize : Int}
    (hmin : minSize ≤ ptpPacketBufferSize)
    (hbytes : minSize ≤ (min ptpPacketBufferSize bytes.length : Nat)) :
    ∃ m t, (refillLoop minSize hmin).run ⟨data, 0, [.recv bytes], by decide⟩ =
      (ptpRcOk, m, min ptpPacketBufferSize bytes.length, t) := by
  by_cases hfits : bytes.length ≤ ptpPacketBufferSize
  · rw [Nat.min_eq_right hfits] at hbytes ⊢
    refine ⟨blit data 0 bytes, [], (refillLoop minSize hmin).run_inr ?_⟩
    simp only [refillLoop, ByteStream.read, Nat.sub_zero, if_pos hfits, Nat.zero_add,
      Int.not_lt.mpr hbytes, dite_false]
  · rw [Nat.min_eq_left (by omega)] at hbytes ⊢
    have htake : (bytes.take ptpPacketBufferSize).length = ptpPacketBufferSize := by
      rw [List.length_take]
      omega
    refine ⟨blit data 0 (bytes.take ptpPacketBufferSize), [.recv (bytes.drop ptpPacketBufferSize)],
      (refillLoop minSize hmin).run_inr ?_⟩
    simp only [refillLoop, ByteStream.read, Nat.sub_zero, if_neg hfits, Nat.zero_add, htake,
      Int.not_lt.mpr hbytes, dite_false]

/-- The header is read, and the buffer holds what came with it. -/
theorem straddled_header {S : List UInt8} {n : Nat} (hn : 1 < n) (hsize : n ≤ ptpPacketBufferSize)
    (hS : n ≤ S.length) :
    ∃ r, ptpControlReadBuffered (straddled S) n = some r ∧ Served (straddled S) n r ∧
      r.params.pktBuf.len = (min ptpPacketBufferSize (S.length - 1) - (n - 1) : Nat) := by
  have hne : S ≠ [] := by
    rintro rfl
    exact absurd hS (by simp only [List.length_nil]; omega)
  have htail : S.tail.length = S.length - 1 := List.length_tail
  obtain ⟨r, hr, hc⟩ := controlRead_any n (straddled_valid S)
  have hok : r.ret = ptpRcOk := by
    by_contra hno
    have hshort := hc.short hno hsize (by simp [straddled, Reliable])
    rw [straddled_stream hne] at hshort
    omega
  refine ⟨r, hr, hc.served hok, ?_⟩
  have hgot : ptpTransportReadFromBuffer (straddled S).pktBuf n =
      some (slice (container S) 0 1, ⟨container S, 0, 0⟩) := by
    have hnot : ¬((1 : Int) > n) := by omega
    simp [ptpTransportReadFromBuffer, straddled, hnot]
  have hgo : ¬((0 : Int) ≠ 0 ∨ (0 : Int) ≠ 0 ∨ (n : Int) - 1 > ptpPacketBufferSize) := by omega
  obtain ⟨m, t, hrefill⟩ := refill_piece (container S) S.tail (show (n : Int) - 1 ≤ _ by omega)
    (by omega)
  rw [htail] at hrefill
  have hbuffer : ptpTransportReadToBuffer ⟨⟨container S, 0, 0⟩, [.recv S.tail], 0⟩ ((n : Int) - 1) =
      (ptpRcOk, ⟨⟨m, 0, (min ptpPacketBufferSize (S.length - 1) : Nat)⟩, t, 0⟩) := by
    simp only [ptpTransportReadToBuffer, dif_neg hgo, hrefill, if_true]
  have hvalid : Valid ⟨m, 0, (min ptpPacketBufferSize (S.length - 1) : Nat)⟩ :=
    ⟨Int.le_refl 0, by simp only; omega, by simp only; omega, fun _ => rfl⟩
  obtain ⟨got, b, hread, ht⟩ := readFromBuffer_spec hvalid ((n : Int) - 1) (by omega)
  have hlt : (1 : Int) < n := by omega
  have hlen := ht.length
  have hleft := ht.left
  simp only at hlen hleft
  have hfull : ¬((got.length : Int) ≠ (n : Int) - 1) := by omega
  have hdef : ptpControlReadBuffered (straddled S) n =
      some ⟨ptpRcOk, slice (container S) 0 1 ++ got, ⟨b, t, 0⟩⟩ := by
    simp only [ptpControlReadBuffered, hgot, bind, Option.bind, slice_length, Int.natCast_one,
      if_pos hlt]
    simp only [straddled, hbuffer, ne_eq, not_true_eq_false, if_false, hread, if_neg hfull]
  rw [hdef] at hr
  cases hr
  simp only
  omega

/-! ## PTP/IP -/

theorem tcp_within {params : PTPParams} (dst : PTPIPContainer) (hv : Valid params.pktBuf)
    (h : Bounded ptpipHeaderLen ptpipContainerSize (WholePacket (headType (stream params)))
      (headLength (stream params)) (stream params)) :
    ∃ p, ptpTcpReadControl params dst = some p ∧ Within ptpipContainerSize dst p.pkt := by
  have hheaderLen : ptpipHeaderLen = 8 := rfl
  have hcontainer : ptpipContainerSize = 264 := rfl
  obtain ⟨r, hr, hc⟩ := controlRead_any ptpipHeaderLen hv
  have hmost := hc.most
  have hfirst : Within ptpipContainerSize dst (blit dst 0 r.bytes) := within_blit (by omega)
  simp only [ptpTcpReadControl, hr, bind, Option.bind]
  by_cases hret : r.ret = ptpRcOk
  · have hs := hc.served hret
    have hheader : ptpipHeaderLen ≤ r.bytes.length := Nat.le_of_eq hs.length.symm
    have hlen := congrArg List.length hs.stream
    rw [List.length_append, hs.length] at hlen
    simp only [hret, ne_eq, not_true_eq_false, if_false, type_blit dst hc.copied hheader,
      length_blit dst hc.copied hheader]
    have hlt := (headLength (stream params)).toNat_lt
    by_cases hwhole : WholePacket (headType (stream params))
    · rw [if_pos hwhole]
      by_cases hmore : (headLength (stream params)).toNat > ptpipHeaderLen
      · rw [if_pos hmore]
        obtain ⟨r', hr', hwithin⟩ := rest_within (blit dst 0 r.bytes) hs.valid hmore hlt
          (show ptpipContainerSize < 2 ^ 31 by decide) (by decide) (by
            rcases h with h | h | h | h
            · exact .inl (by omega)
            · exact absurd hwhole h
            · exact .inr (.inl h)
            · exact .inr (.inr ⟨h.1, by omega⟩))
        simp only [hr']
        exact ⟨_, rfl, hfirst.trans hwithin⟩
      · rw [if_neg hmore]
        exact ⟨_, rfl, hfirst⟩
    · rw [if_neg hwhole]
      by_cases hdata : DataPacket (headType (stream params))
      · rw [if_pos hdata]
        obtain ⟨r', hr', hc'⟩ := controlRead_any 4 hs.valid
        have hr'' : ptpControlReadBuffered r.params 4 = some r' := hr'
        have hmost' := hc'.most
        simp only [hr'']
        refine ⟨_, rfl, hfirst.trans (within_blit ?_)⟩
        omega
      · rw [if_neg hdata]
        exact ⟨_, rfl, hfirst⟩
  · simp only [hret, ne_eq, not_false_eq_true, if_true]
    exact ⟨_, rfl, hfirst⟩

theorem tcp_beyond {S : List UInt8} (h : ¬Bounded ptpipHeaderLen ptpipContainerSize
      (WholePacket (headType S)) (headLength S) S) :
    ∃ dst, ¬∃ p, ptpTcpReadControl (straddled S) dst = some p ∧
      Within ptpipContainerSize dst p.pkt := by
  simp only [Bounded, not_or, not_and, Nat.not_le, Decidable.not_not] at h
  obtain ⟨hlong, hwhole, hlength, hend⟩ := h
  have hheaderLen : ptpipHeaderLen = 8 := rfl
  have hcontainer : ptpipContainerSize = 264 := rfl
  have hbuffer : ptpPacketBufferSize = 512 := rfl
  have hne : S ≠ [] := by
    rintro rfl
    exact absurd hlong (by decide)
  obtain ⟨r, hr, hs, hbuf⟩ := straddled_header (S := S) (n := ptpipHeaderLen) (by decide)
    (by decide) (by omega)
  have hcopied : r.bytes <+: S := by
    rw [← straddled_stream hne]
    exact ⟨_, hs.stream⟩
  have hheader : ptpipHeaderLen ≤ r.bytes.length := Nat.le_of_eq hs.length.symm
  have hmore : (headLength S).toNat > ptpipHeaderLen := by omega
  obtain ⟨dst, hbad⟩ := rest_beyond hs.valid (headLength S).toNat_lt
    (show ptpipHeaderLen ≤ ptpipContainerSize by decide) hlength (by omega) (by omega)
  refine ⟨dst, ?_⟩
  rintro ⟨p, hp, hwithin⟩
  simp only [ptpTcpReadControl, hr, bind, Option.bind, hs.ret, ne_eq, not_true_eq_false, if_false,
    type_blit dst hcopied hheader, length_blit dst hcopied hheader, if_pos hwhole,
    if_pos hmore] at hp
  cases hrest : ptpControlReadBuffered r.params
      (toInt (((headLength S).toNat : Int) - ptpipHeaderLen)) with
  | none => simp only [hrest, reduceCtorEq] at hp
  | some r' =>
    simp only [hrest] at hp
    cases hp
    exact hbad _ r' hrest hwithin

/-! ## USB -/

theorem usbType_blit (dst : Memory) {bytes S : List UInt8} (h : bytes <+: S)
    (hlen : ptpUsbBulkHdrLen ≤ bytes.length) :
    PTPUSBBulkContainer.type (blit dst 0 bytes) = (container S).type := by
  have hheaderLen : ptpUsbBulkHdrLen = 12 := rfl
  simp only [PTPUSBBulkContainer.type, dtoh16]
  rw [blit_within dst h (by omega), blit_within dst h (by omega)]

theorem usbLength_blit (dst : Memory) {bytes S : List UInt8} (h : bytes <+: S)
    (hlen : ptpUsbBulkHdrLen ≤ bytes.length) :
    PTPUSBBulkContainer.length (blit dst 0 bytes) = (container S).length :=
  dtoh32_blit dst h (Nat.le_trans (by decide) hlen)

theorem usb_within {params : PTPParams} (dst : PTPUSBBulkContainer) (hv : Valid params.pktBuf)
    (h : Bounded ptpUsbBulkHdrLen ptpUsbBulkContainerSize
      ((container (stream params)).type = ptpUsbContainerResponse)
      (container (stream params)).length (stream params)) :
    ∃ p, ptpUsbReadControlTo params dst = some p ∧ Within ptpUsbBulkContainerSize dst p.pkt := by
  have hheaderLen : ptpUsbBulkHdrLen = 12 := rfl
  have hcontainer : ptpUsbBulkContainerSize = 512 := rfl
  obtain ⟨r, hr, hc⟩ := controlRead_any ptpUsbBulkHdrLen hv
  have hmost := hc.most
  have hfirst : Within ptpUsbBulkContainerSize dst (blit dst 0 r.bytes) := within_blit (by omega)
  simp only [ptpUsbReadControlTo, hr, bind, Option.bind]
  by_cases hret : r.ret = ptpRcOk
  · have hs := hc.served hret
    have hheader : ptpUsbBulkHdrLen ≤ r.bytes.length := Nat.le_of_eq hs.length.symm
    have hlen := congrArg List.length hs.stream
    rw [List.length_append, hs.length] at hlen
    simp only [hret, ne_eq, not_true_eq_false, if_false, usbType_blit dst hc.copied hheader,
      usbLength_blit dst hc.copied hheader]
    have hlt := (container (stream params)).length.toNat_lt
    by_cases hwhole : (container (stream params)).type = ptpUsbContainerResponse
    · rw [if_pos hwhole]
      by_cases hmore : (container (stream params)).length.toNat > ptpUsbBulkHdrLen
      · rw [if_pos hmore]
        obtain ⟨r', hr', hwithin⟩ := rest_within (blit dst 0 r.bytes) hs.valid hmore hlt
          (show ptpUsbBulkContainerSize < 2 ^ 31 by decide) (by decide) (by
            rcases h with h | h | h | h
            · exact .inl (by omega)
            · exact absurd hwhole h
            · exact .inr (.inl h)
            · exact .inr (.inr ⟨h.1, by omega⟩))
        simp only [hr']
        exact ⟨_, rfl, hfirst.trans hwithin⟩
      · rw [if_neg hmore]
        exact ⟨_, rfl, hfirst⟩
    · rw [if_neg hwhole]
      split <;> exact ⟨_, rfl, hfirst⟩
  · simp only [hret, ne_eq, not_false_eq_true, if_true]
    exact ⟨_, rfl, hfirst⟩

theorem usb_beyond {S : List UInt8} (h : ¬Bounded ptpUsbBulkHdrLen ptpUsbBulkContainerSize
      ((container S).type = ptpUsbContainerResponse) (container S).length S) :
    ∃ dst, ¬∃ p, ptpUsbReadControlTo (straddled S) dst = some p ∧
      Within ptpUsbBulkContainerSize dst p.pkt := by
  simp only [Bounded, not_or, not_and, Nat.not_le, Decidable.not_not] at h
  obtain ⟨hlong, hwhole, hlength, hend⟩ := h
  have hheaderLen : ptpUsbBulkHdrLen = 12 := rfl
  have hcontainer : ptpUsbBulkContainerSize = 512 := rfl
  have hbuffer : ptpPacketBufferSize = 512 := rfl
  have hne : S ≠ [] := by
    rintro rfl
    exact absurd hlong (by decide)
  obtain ⟨r, hr, hs, hbuf⟩ := straddled_header (S := S) (n := ptpUsbBulkHdrLen) (by decide)
    (by decide) (by omega)
  have hcopied : r.bytes <+: S := by
    rw [← straddled_stream hne]
    exact ⟨_, hs.stream⟩
  have hheader : ptpUsbBulkHdrLen ≤ r.bytes.length := Nat.le_of_eq hs.length.symm
  have hmore : (container S).length.toNat > ptpUsbBulkHdrLen := by omega
  -- the header takes the buffered byte and eleven of the others
  obtain ⟨dst, hbad⟩ := rest_beyond hs.valid (container S).length.toNat_lt
    (show ptpUsbBulkHdrLen ≤ ptpUsbBulkContainerSize by decide) hlength (by omega) (by omega)
  refine ⟨dst, ?_⟩
  rintro ⟨p, hp, hwithin⟩
  simp only [ptpUsbReadControlTo, hr, bind, Option.bind, hs.ret, ne_eq, not_true_eq_false,
    if_false, usbType_blit dst hcopied hheader, usbLength_blit dst hcopied hheader, if_pos hwhole,
    if_pos hmore] at hp
  cases hrest : ptpControlReadBuffered r.params
      (toInt (((container S).length.toNat : Int) - ptpUsbBulkHdrLen)) with
  | none => simp only [hrest, reduceCtorEq] at hp
  | some r' =>
    simp only [hrest] at hp
    cases hp
    exact hbad _ r' hrest hwithin

/-! ## Both transports -/

/-- Exactly the bounded streams are read into the containers however they arrive,
without a write behind them and without a copy of a negative size. -/
theorem container_bounds_iff (S : List UInt8) :
    ((∀ params dst, Valid params.pktBuf → stream params = S →
        ∃ p, ptpTcpReadControl params dst = some p ∧ Within ptpipContainerSize dst p.pkt) ↔
      Bounded ptpipHeaderLen ptpipContainerSize (WholePacket (headType S)) (headLength S) S) ∧
    ((∀ params dst, Valid params.pktBuf → stream params = S →
        ∃ p, ptpUsbReadControlTo params dst = some p ∧
          Within ptpUsbBulkContainerSize dst p.pkt) ↔
      Bounded ptpUsbBulkHdrLen ptpUsbBulkContainerSize
        ((container S).type = ptpUsbContainerResponse) (container S).length S) := by
  refine ⟨⟨fun h => ?_, ?_⟩, ⟨fun h => ?_, ?_⟩⟩
  · by_contra hno
    have hne : S ≠ [] := by
      rintro rfl
      exact hno (.inl (by decide))
    obtain ⟨dst, hbad⟩ := tcp_beyond hno
    exact hbad (h _ dst (straddled_valid S) (straddled_stream hne))
  · rintro h params dst hv rfl
    exact tcp_within dst hv h
  · by_contra hno
    have hne : S ≠ [] := by
      rintro rfl
      exact hno (.inl (by decide))
    obtain ⟨dst, hbad⟩ := usb_beyond hno
    exact hbad (h _ dst (straddled_valid S) (straddled_stream hne))
  · rintro h params dst hv rfl
    exact usb_within dst hv h

/-- A response of 265 bytes, one more than the container has; it arrives at once. -/
def longResponse : PTPParams where
  pktBuf := ⟨fun _ => 0, 0, 0⟩
  transport := [.recv ([9, 1, 0, 0, 7, 0, 0, 0] ++ List.replicate 257 1)]
  sessionId := 1

theorem long_response_beyond :
    ∃ p, ptpTcpReadControl longResponse (fun _ => 0) = some p ∧ p.ret = ptpRcOk ∧
      ¬Within ptpipContainerSize (fun _ => 0) p.pkt := by
  have hrun : (ptpTcpReadControl longResponse (fun _ => 0)).map
      (fun p => (p.ret, p.pkt ptpipContainerSize)) = some (ptpRcOk, 1) := by
    decide +kernel
  obtain ⟨p, hp, hfields⟩ := Option.map_eq_some_iff.mp hrun
  simp only [Prod.mk.injEq] at hfields
  refine ⟨p, hp, hfields.1, fun hwithin => ?_⟩
  have hbyte := hwithin _ (Nat.le_refl _)
  rw [hfields.2] at hbyte
  exact absurd hbyte (by decide)

end PtpContainer
