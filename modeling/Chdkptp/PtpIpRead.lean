import Chdkptp.PtpIp

/-!
# Reading PTP/IP packets from a stream

What a control read and the reading of a payload do, stated on the stream: they
consume the packet at its head, whatever the pieces are in which it comes.
-/

namespace PtpIpRead

open ByteMemory ByteStream BoundedLoop PtpBuffer PtpUsb PtpIp

/-! ## Headers -/

/-- The type of the packet at the head of a stream. -/
def headType (S : List UInt8) : UInt32 := PTPIPContainer.type (container S)

/-- Its length field. -/
def headLength (S : List UInt8) : UInt32 := PTPIPContainer.length (container S)

theorem blit_within (dst : Memory) {bytes S : List UInt8} (h : bytes <+: S) {o : Nat}
    (ho : o < bytes.length) : blit dst 0 bytes o = container S o := by
  obtain ⟨rest, rfl⟩ := h
  have hS : o < (bytes ++ rest).length := by
    rw [List.length_append]
    omega
  simp only [container, blit, Nat.zero_le, true_and, Nat.zero_add, Nat.sub_zero, if_pos ho,
    if_pos hS, List.getD_eq_getElem?_getD, List.getElem?_append_left ho]

theorem dtoh32_blit (dst : Memory) {bytes S : List UInt8} (h : bytes <+: S) {o : Nat}
    (ho : o + 4 ≤ bytes.length) : dtoh32 (blit dst 0 bytes) o = dtoh32 (container S) o := by
  simp only [dtoh32]
  rw [blit_within dst h (by omega), blit_within dst h (by omega), blit_within dst h (by omega),
    blit_within dst h (by omega)]

theorem type_blit (dst : Memory) {bytes S : List UInt8} (h : bytes <+: S)
    (hlen : ptpipHeaderLen ≤ bytes.length) :
    PTPIPContainer.type (blit dst 0 bytes) = headType S := dtoh32_blit dst h hlen

theorem length_blit (dst : Memory) {bytes S : List UInt8} (h : bytes <+: S)
    (hlen : ptpipHeaderLen ≤ bytes.length) :
    PTPIPContainer.length (blit dst 0 bytes) = headLength S :=
  dtoh32_blit dst h (Nat.le_trans (by decide) hlen)

theorem whole_not_data {type : UInt32} (h : WholePacket type) : ¬DataPacket type := by
  rintro (rfl | rfl) <;> revert h <;> decide

/-! ## Control reads -/

/-- A control read that returned OK has consumed `c`. -/
structure ControlRead (params : PTPParams) (dst : PTPIPContainer) (p : TcpPacket)
    (c : List UInt8) : Prop where
  consumed : c ++ stream p.params = stream params
  pkt : p.pkt = blit dst 0 c
  header : ptpipHeaderLen ≤ c.length
  known : WholePacket (headType (stream params)) ∨
    DataPacket (headType (stream params))
  data : DataPacket (headType (stream params)) → c.length = 12
  whole : WholePacket (headType (stream params)) →
    ptpipHeaderLen ≤ (headLength (stream params)).toNat →
    (headLength (stream params)).toNat < 2 ^ 31 + ptpipHeaderLen →
    c.length = (headLength (stream params)).toNat
  valid : Valid p.params.pktBuf
  reliable : Reliable params.transport → Reliable p.params.transport
  session : p.params.sessionId = params.sessionId

theorem ControlRead.type {params : PTPParams} {dst : PTPIPContainer} {p : TcpPacket}
    {c : List UInt8} (h : ControlRead params dst p c) :
    p.pkt.type = headType (stream params) := by
  rw [h.pkt]
  exact type_blit dst ⟨_, h.consumed⟩ h.header

theorem ControlRead.length {params : PTPParams} {dst : PTPIPContainer} {p : TcpPacket}
    {c : List UInt8} (h : ControlRead params dst p c) :
    p.pkt.length = headLength (stream params) := by
  rw [h.pkt]
  exact length_blit dst ⟨_, h.consumed⟩ h.header

/-- The two parts of a control read. -/
theorem ControlRead.of_parts {params : PTPParams} {dst : PTPIPContainer} {r r' : Reply} {n : Nat}
    (h : Served params ptpipHeaderLen r) (h' : Served r.params n r')
    (hknown : WholePacket (headType (stream params)) ∨ DataPacket (headType (stream params)))
    (hdata : DataPacket (headType (stream params)) → n = 4)
    (hwhole : WholePacket (headType (stream params)) →
      ptpipHeaderLen ≤ (headLength (stream params)).toNat →
      (headLength (stream params)).toNat < 2 ^ 31 + ptpipHeaderLen →
      n = (headLength (stream params)).toNat - ptpipHeaderLen) :
    ControlRead params dst ⟨ptpRcOk, blit (blit dst 0 r.bytes) ptpipHeaderLen r'.bytes, r'.params⟩
      (r.bytes ++ r'.bytes) := by
  have hlen : (r.bytes ++ r'.bytes).length = ptpipHeaderLen + n := by
    rw [List.length_append, h.length, h'.length]
  have hpkt := blit_append dst 0 r.bytes r'.bytes
  rw [h.length, Nat.zero_add] at hpkt
  refine ⟨?_, hpkt, by omega, hknown, ?_, ?_, h'.valid, fun hr => h'.reliable (h.reliable hr),
    h'.session.trans h.session⟩
  · rw [List.append_assoc, h'.stream, h.stream]
  · intro hd
    rw [hlen, hdata hd]
  · intro hw hlow hhigh
    have := hwhole hw hlow hhigh
    omega

/-- Nothing but a header has been read. -/
theorem ControlRead.of_header {params : PTPParams} {dst : PTPIPContainer} {r : Reply}
    (h : Served params ptpipHeaderLen r) (hwhole : WholePacket (headType (stream params)))
    (hlength : ptpipHeaderLen ≤ (headLength (stream params)).toNat →
      (headLength (stream params)).toNat < 2 ^ 31 + ptpipHeaderLen →
      (headLength (stream params)).toNat = ptpipHeaderLen) :
    ControlRead params dst ⟨ptpRcOk, blit dst 0 r.bytes, r.params⟩ r.bytes := by
  refine ⟨h.stream, rfl, Nat.le_of_eq h.length.symm, .inl hwhole, ?_, ?_, h.valid, h.reliable,
    h.session⟩
  · intro hd
    exact absurd hd (whole_not_data hwhole)
  · intro _ hlow hhigh
    rw [h.length, hlength hlow hhigh]

theorem toInt_negative {n : Int} (hlow : 2 ^ 31 ≤ n) (hhigh : n < 2 ^ 32) : toInt n < 0 := by
  simp only [toInt, Int.bmod]
  omega

/-- A control read goes on behind a header that it got, by the type and the length there. -/
theorem readControl_header {params : PTPParams} (dst : PTPIPContainer) {r : Reply}
    (hr : ptpControlReadBuffered params ptpipHeaderLen = some r)
    (hc : Copied params ptpipHeaderLen r) (hret : r.ret = ptpRcOk) :
    ptpTcpReadControl params dst =
      if WholePacket (headType (stream params)) then
        if (headLength (stream params)).toNat > ptpipHeaderLen then
          (ptpControlReadBuffered r.params
            (toInt (((headLength (stream params)).toNat : Int) - ptpipHeaderLen))).bind
            fun more => some (⟨more.ret, blit (blit dst 0 r.bytes) ptpipHeaderLen more.bytes,
              more.params⟩ : TcpPacket)
        else some ⟨ptpRcOk, blit dst 0 r.bytes, r.params⟩
      else if DataPacket (headType (stream params)) then
        (ptpControlReadBuffered r.params 4).bind fun more =>
          some ⟨more.ret, blit (blit dst 0 r.bytes) ptpipHeaderLen more.bytes, more.params⟩
      else some ⟨ptpErrorBadparam, blit dst 0 r.bytes, r.params⟩ := by
  have hheader : ptpipHeaderLen ≤ r.bytes.length := Nat.le_of_eq (hc.served hret).length.symm
  simp only [ptpTcpReadControl, hr, bind, Option.bind, hret, ne_eq, not_true_eq_false,
    if_false, type_blit dst hc.copied hheader, length_blit dst hc.copied hheader]

theorem readControl_ok {params : PTPParams} {dst : PTPIPContainer} {p : TcpPacket}
    (hv : Valid params.pktBuf) (h : ptpTcpReadControl params dst = some p)
    (hok : p.ret = ptpRcOk) : ∃ c, ControlRead params dst p c := by
  obtain ⟨r, hr, hc⟩ := controlRead_any ptpipHeaderLen hv
  by_cases hret : r.ret = ptpRcOk
  · have hs := hc.served hret
    have hlengthlt := (headLength (stream params)).toNat_lt
    rw [readControl_header dst hr hc hret] at h
    by_cases hwhole : WholePacket (headType (stream params))
    · rw [if_pos hwhole] at h
      by_cases hmore : (headLength (stream params)).toNat > ptpipHeaderLen
      · rw [if_pos hmore] at h
        by_cases hsmall : (headLength (stream params)).toNat < 2 ^ 31 + ptpipHeaderLen
        · obtain ⟨r', hr', hc'⟩ :=
            controlRead_any ((headLength (stream params)).toNat - ptpipHeaderLen) hs.valid
          rw [toInt_sub (Nat.le_of_lt hmore) hsmall, hr', Option.bind_some] at h
          cases h
          have hs' := hc'.served hok
          simp only at hok
          rw [hok]
          exact ⟨_, ControlRead.of_parts hs hs' (.inl hwhole)
            (fun hd => absurd hd (whole_not_data hwhole)) (fun _ _ _ => rfl)⟩
        · -- the size is negative: nothing more is read
          have hneg : toInt (((headLength (stream params)).toNat : Int) - ptpipHeaderLen) < 0 :=
            toInt_negative (by omega) (by omega)
          obtain ⟨hzero, hpositive⟩ := controlRead_negative r.params hneg
          have hlen := hs.valid.len
          by_cases hbuf : r.params.pktBuf.len = 0
          · rw [hzero hbuf, Option.bind_some] at h
            cases h
            have hblit : blit (blit dst 0 r.bytes) ptpipHeaderLen [] = blit dst 0 r.bytes := by
              have happend := blit_append dst 0 r.bytes []
              rwa [hs.length, Nat.zero_add, List.append_nil] at happend
            rw [hblit]
            exact ⟨_, ControlRead.of_header hs hwhole (fun _ hhigh => absurd hhigh hsmall)⟩
          · rw [hpositive (by omega)] at h
            cases h
      · rw [if_neg hmore] at h
        cases h
        exact ⟨_, ControlRead.of_header hs hwhole (fun hlow _ => by omega)⟩
    · rw [if_neg hwhole] at h
      by_cases hdata : DataPacket (headType (stream params))
      · rw [if_pos hdata] at h
        obtain ⟨r', hr', hc'⟩ := controlRead_any 4 hs.valid
        have hfour : ((4 : Nat) : Int) = 4 := rfl
        rw [hfour] at hr'
        rw [hr', Option.bind_some] at h
        cases h
        have hs' := hc'.served hok
        simp only at hok
        rw [hok]
        exact ⟨_, ControlRead.of_parts hs hs' (.inr hdata) (fun _ => rfl)
          (fun hw => absurd hw hwhole)⟩
      · rw [if_neg hdata] at h
        cases h
        exact absurd hok badparam_error
  · simp only [ptpTcpReadControl, hr, bind, Option.bind, ne_eq, hret, not_false_eq_true,
      if_true] at h
    cases h
    exact absurd hok hret

/-! ## Byte by byte -/

/-- Nothing is buffered and the bytes come one at a time: then no call takes more
than it asks for. -/
structure Trickle (params : PTPParams) : Prop where
  len : params.pktBuf.len = 0
  pos : params.pktBuf.pos = 0
  single : ∀ e ∈ params.transport, ∃ b, e = Event.recv [b]

theorem Trickle.valid {params : PTPParams} (h : Trickle params) : Valid params.pktBuf :=
  ⟨Int.le_of_eq h.pos.symm, Int.le_of_eq h.len.symm, by rw [h.pos, h.len]; decide, fun _ => h.pos⟩

theorem Trickle.reliable {params : PTPParams} (h : Trickle params) :
    Reliable params.transport := by
  intro hmem
  obtain ⟨b, hb⟩ := h.single _ hmem
  cases hb

/-- The bytes one by one. -/
def singles (bytes : List UInt8) : Transport := bytes.map fun b => .recv [b]

theorem pending_singles (bytes : List UInt8) : pending (singles bytes) = bytes := by
  induction bytes with
  | nil => rfl
  | cons b bytes ih => exact congrArg (b :: ·) ih

theorem singles_trickle (bytes : List UInt8) (sessionId : UInt32) :
    Trickle ⟨⟨fun _ => 0, 0, 0⟩, singles bytes, sessionId⟩ := by
  refine ⟨rfl, rfl, fun e he => ?_⟩
  obtain ⟨b, _, hb⟩ := List.mem_map.mp he
  exact ⟨b, hb.symm⟩

theorem single_read {t t' : Transport} {size : Nat} {got : List UInt8}
    (hsingle : ∀ e ∈ t, ∃ b, e = Event.recv [b]) (hsize : 0 < size)
    (h : read t size = (some got, t')) :
    got.length = 1 ∧ ∀ e ∈ t', ∃ b, e = Event.recv [b] := by
  cases t with
  | nil => cases h
  | cons e t =>
    obtain ⟨b, rfl⟩ := hsingle e List.mem_cons_self
    have hle : [b].length ≤ size := hsize
    rw [ByteStream.read, if_pos hle] at h
    cases h
    exact ⟨rfl, fun e he => hsingle e (List.mem_cons_of_mem _ he)⟩

/-- A refill stops as soon as it has the bytes it needs. -/
theorem refillLoop_trickle (minSize : Nat) (hmin : (minSize : Int) ≤ ptpPacketBufferSize)
    (data : Memory) {t : Transport} (hpos : 0 < minSize)
    (hsingle : ∀ e ∈ t, ∃ b, e = Event.recv [b]) :
    let r := (refillLoop minSize hmin).run ⟨data, 0, t, by decide⟩
    r.1 = ptpRcOk → r.2.2.1 = minSize ∧ ∀ e ∈ r.2.2.2, ∃ b, e = Event.recv [b] := by
  refine (refillLoop minSize hmin).run_invariant
    (fun s => s.total < minSize ∧ ∀ e ∈ s.transport, ∃ b, e = Event.recv [b])
    (fun r => r.1 = ptpRcOk → r.2.2.1 = minSize ∧ ∀ e ∈ r.2.2.2, ∃ b, e = Event.recv [b])
    ?_ ?_ ⟨hpos, hsingle⟩
  · rintro s s' ⟨hlow, hevents⟩ hstep
    simp only [refillLoop] at hstep
    split at hstep
    · cases hstep
    · rename_i bytes t' hread
      have hone := single_read hevents (Nat.sub_pos_of_lt s.room) hread
      split at hstep
      · rename_i hlt
        cases hstep
        exact ⟨by simp only; omega, hone.2⟩
      · cases hstep
  · rintro s r ⟨hlow, hevents⟩ hstep
    simp only [refillLoop] at hstep
    split at hstep
    · cases hstep
      exact fun hok => absurd hok io_error
    · rename_i bytes t' hread
      have hone := single_read hevents (Nat.sub_pos_of_lt s.room) hread
      split at hstep
      · cases hstep
      · rename_i hge
        cases hstep
        exact fun _ => ⟨by simp only; omega, hone.2⟩

theorem controlRead_trickle {params : PTPParams} {size : Nat} {r : Reply} (ht : Trickle params)
    (h : ptpControlReadBuffered params size = some r) (hok : r.ret = ptpRcOk) :
    Trickle r.params := by
  have hread : ∀ n, ptpTransportReadFromBuffer params.pktBuf n = some ([], params.pktBuf) := by
    intro n
    rw [ptpTransportReadFromBuffer, if_pos ht.len]
  simp only [ptpControlReadBuffered, hread, bind, Option.bind, List.length_nil, Int.natCast_zero,
    Int.sub_zero] at h
  by_cases hpos : (0 : Int) < size
  · rw [if_pos hpos] at h
    by_cases hbig : (ptpPacketBufferSize : Int) < size
    · rw [readToBuffer_big _ hbig, if_pos badparam_error] at h
      cases h
      exact absurd hok badparam_error
    · have hgo : ¬(params.pktBuf.len ≠ 0 ∨ params.pktBuf.pos ≠ 0 ∨
          (size : Int) > ptpPacketBufferSize) := by
        have := ht.len
        have := ht.pos
        omega
      have hrefill := refillLoop_trickle size (by omega) params.pktBuf.data (by omega) ht.single
      simp only [ptpTransportReadToBuffer, dif_neg hgo] at h
      split at h
      · rename_i hret
        cases h
        exact absurd hok hret
      · rename_i hret
        have hret := Classical.not_not.mp hret
        obtain ⟨htotal, hsingle⟩ := hrefill hret
        have hne : ¬((size : Int) = 0) := by omega
        simp only [hret, if_true, htotal, ptpTransportReadFromBuffer, if_neg hne, gt_iff_lt,
          Int.lt_irrefl, if_false, Int.not_lt.mpr (Int.le_of_lt hpos), Int.sub_self] at h
        split at h
        · cases h
          exact absurd hok badparam_error
        · cases h
          exact ⟨rfl, rfl, hsingle⟩
  · rw [if_neg hpos] at h
    cases h
    exact ht

theorem tcpRead_trickle {params : PTPParams} {size : UInt32} {r : Reply} (ht : Trickle params)
    (h : ptpTcpReadData params size = some r) : Trickle r.params := by
  have hread : ptpTransportReadFromBuffer params.pktBuf (toInt size.toNat) =
      some ([], params.pktBuf) := by
    rw [ptpTransportReadFromBuffer, if_pos ht.len]
  simp only [ptpTcpReadData, hread, bind, Option.bind, Option.some.injEq] at h
  rw [← h]
  refine ⟨ht.len, ht.pos, ?_⟩
  refine (directLoop size.toNat).run_invariant (fun s => ∀ e ∈ s.2, ∃ b, e = Event.recv [b])
    (fun r => ∀ e ∈ r.2.2, ∃ b, e = Event.recv [b]) ?_ ?_ ht.single
  · rintro s s' hsingle hstep
    simp only [directLoop] at hstep
    split at hstep
    · rename_i hlt
      split at hstep
      · cases hstep
      · rename_i bytes t' hread
        cases hstep
        exact (single_read hsingle (by omega) hread).2
    · cases hstep
  · rintro s r hsingle hstep
    simp only [directLoop] at hstep
    split at hstep
    · split at hstep
      · rename_i t' hread
        cases hstep
        -- only an empty transport fails
        have hnil : s.2 = [] := by
          cases hs : s.2 with
          | nil => rfl
          | cons e t =>
            obtain ⟨b, rfl⟩ := hsingle e (by rw [hs]; exact List.mem_cons_self)
            rw [hs, ByteStream.read] at hread
            split at hread <;> cases hread
        rw [hnil] at hread
        cases hread
        intro e he
        exact absurd he List.not_mem_nil
      · cases hstep
    · cases hstep
      exact hsingle

/-- The remaining size of a packet that is read whole is negative as an `int`. -/
def Negative (S : List UInt8) : Prop :=
  WholePacket (headType S) ∧ 2 ^ 31 + ptpipHeaderLen ≤ (headLength S).toNat

/-- The bytes that a control read needs. -/
structure Enough (S : List UInt8) : Prop where
  header : ptpipHeaderLen ≤ S.length
  known : WholePacket (headType S) ∨ DataPacket (headType S)
  data : DataPacket (headType S) → 12 ≤ S.length
  whole : WholePacket (headType S) → ptpipHeaderLen < (headLength S).toNat → ¬Negative S →
    (headLength S).toNat ≤ ptpipHeaderLen + ptpPacketBufferSize ∧ (headLength S).toNat ≤ S.length

/-- A control read has a result unless a negative size meets a buffer that holds
something; on a reliable transport it returns OK if the bytes are there. -/
theorem readControl_some {params : PTPParams} (dst : PTPIPContainer) (hv : Valid params.pktBuf) :
    ((ptpipHeaderLen ≤ (stream params).length → ¬Negative (stream params)) ∨ Trickle params →
      ∃ p, ptpTcpReadControl params dst = some p) ∧
    ∀ p, ptpTcpReadControl params dst = some p →
      (Trickle params → p.ret = ptpRcOk → Trickle p.params) ∧
      (Reliable params.transport → Enough (stream params) → p.ret = ptpRcOk) := by
  obtain ⟨r, hr, hc⟩ := controlRead_any ptpipHeaderLen hv
  -- it is enough to know the result, when there is one
  have hknown : ∀ q : TcpPacket, ptpTcpReadControl params dst = some q →
      ((Trickle params → q.ret = ptpRcOk → Trickle q.params) ∧
        (Reliable params.transport → Enough (stream params) → q.ret = ptpRcOk)) →
      (((ptpipHeaderLen ≤ (stream params).length → ¬Negative (stream params)) ∨ Trickle params →
          ∃ p, ptpTcpReadControl params dst = some p) ∧
        ∀ p, ptpTcpReadControl params dst = some p →
          (Trickle params → p.ret = ptpRcOk → Trickle p.params) ∧
          (Reliable params.transport → Enough (stream params) → p.ret = ptpRcOk)) := by
    intro q hq hspec
    refine ⟨fun _ => ⟨q, hq⟩, fun p hp => ?_⟩
    rw [hq] at hp
    cases hp
    exact hspec
  by_cases hret : r.ret = ptpRcOk
  · have hs := hc.served hret
    have hheader : ptpipHeaderLen ≤ r.bytes.length := Nat.le_of_eq hs.length.symm
    have htrickle : Trickle params → Trickle r.params := fun ht => controlRead_trickle ht hr hret
    have hrest := congrArg List.length hs.stream
    rw [List.length_append, hs.length] at hrest
    have hlengthlt := (headLength (stream params)).toNat_lt
    have hread := readControl_header dst hr hc hret
    by_cases hwhole : WholePacket (headType (stream params))
    · by_cases hmore : (headLength (stream params)).toNat > ptpipHeaderLen
      · by_cases hneg : Negative (stream params)
        · have hint : toInt (((headLength (stream params)).toNat : Int) - ptpipHeaderLen) < 0 :=
            toInt_negative (by have := hneg.2; omega) (by omega)
          obtain ⟨hzero, hpositive⟩ := controlRead_negative r.params hint
          have hlen := hs.valid.len
          by_cases hbuf : r.params.pktBuf.len = 0
          · refine hknown _ (by rw [hread, if_pos hwhole, if_pos hmore, hzero hbuf]; rfl) ?_
            exact ⟨fun ht _ => htrickle ht, fun _ _ => rfl⟩
          · -- a trickle leaves nothing in the buffer
            have hnone : ptpTcpReadControl params dst = none := by
              rw [hread, if_pos hwhole, if_pos hmore, hpositive (by omega)]
              rfl
            constructor
            · rintro (hno | ht)
              · exact absurd hneg (hno (by omega))
              · exact absurd (htrickle ht).len hbuf
            · intro p hp
              rw [hnone] at hp
              cases hp
        · have hsmall : (headLength (stream params)).toNat < 2 ^ 31 + ptpipHeaderLen :=
            Nat.lt_of_not_le (fun h => hneg ⟨hwhole, h⟩)
          obtain ⟨r', hr', hc'⟩ :=
            controlRead_any ((headLength (stream params)).toNat - ptpipHeaderLen) hs.valid
          refine hknown _
            (by rw [hread, if_pos hwhole, if_pos hmore, toInt_sub (Nat.le_of_lt hmore) hsmall, hr']; rfl) ?_
          refine ⟨fun ht hok => controlRead_trickle (htrickle ht) hr' hok, ?_⟩
          intro hreliable he
          by_contra hno
          have hfew := hc'.short hno (by have := (he.whole hwhole hmore hneg).1; omega)
            (hs.reliable hreliable)
          have := (he.whole hwhole hmore hneg).2
          omega
      · refine hknown _ (by rw [hread, if_pos hwhole, if_neg hmore]) ?_
        exact ⟨fun ht _ => htrickle ht, fun _ _ => rfl⟩
    · by_cases hdata : DataPacket (headType (stream params))
      · obtain ⟨r', hr', hc'⟩ := controlRead_any 4 hs.valid
        have hr'' : ptpControlReadBuffered r.params 4 = some r' := hr'
        refine hknown _ (by rw [hread, if_neg hwhole, if_pos hdata, hr'']; rfl) ?_
        refine ⟨fun ht hok => controlRead_trickle (htrickle ht) hr' hok, ?_⟩
        intro hreliable he
        by_contra hno
        have hfew := hc'.short hno (by decide) (hs.reliable hreliable)
        have : ptpipHeaderLen = 8 := rfl
        have := he.data hdata
        omega
      · refine hknown _ (by rw [hread, if_neg hwhole, if_neg hdata]) ?_
        refine ⟨fun _ hok => absurd hok badparam_error, fun _ he => ?_⟩
        exact absurd he.known (not_or.mpr ⟨hwhole, hdata⟩)
  · refine hknown ⟨r.ret, blit dst 0 r.bytes, r.params⟩ ?_ ?_
    · simp only [ptpTcpReadControl, hr, bind, Option.bind, ne_eq, hret, not_false_eq_true, if_true]
    · refine ⟨fun _ hok => absurd hok hret, fun hreliable he => ?_⟩
      have hfew := hc.short hret (by decide) hreliable
      exact absurd he.header (by omega)

/-! ## Blocks -/

/-- Full blocks are determined by the bytes they are cut from. -/
theorem blocks_prefix {n : Nat} {xs ys : List (List UInt8)} {r r' : List UInt8}
    (hxs : ∀ b ∈ xs, b.length = n) (hys : ∀ b ∈ ys, b.length = n)
    (h : xs.flatten ++ r = ys.flatten ++ r') (hr : r'.length < n) : ∃ zs, ys = xs ++ zs := by
  induction xs generalizing ys with
  | nil => exact ⟨ys, rfl⟩
  | cons x xs ih =>
    have hx := hxs x List.mem_cons_self
    cases ys with
    | nil =>
      have hlen := congrArg List.length h
      rw [List.flatten_cons, List.append_assoc, List.length_append, List.flatten_nil,
        List.nil_append] at hlen
      omega
    | cons y ys =>
      have hy := hys y List.mem_cons_self
      rw [List.flatten_cons, List.flatten_cons, List.append_assoc, List.append_assoc] at h
      obtain ⟨rfl, hrest⟩ := List.append_inj h (hx.trans hy.symm)
      obtain ⟨zs, rfl⟩ := ih (fun b hb => hxs b (List.mem_cons_of_mem _ hb))
        (fun b hb => hys b (List.mem_cons_of_mem _ hb)) hrest
      exact ⟨zs, rfl⟩

/-- The handler refuses one of the full blocks that the data is cut into. -/
def Refused (handler : Handler) (blockSize : UInt32) (data : List UInt8) : Prop :=
  ∃ before block after, blockSize ≠ 0 ∧ (∀ b ∈ before, b.length = blockSize.toNat) ∧
    block.length = blockSize.toNat ∧ data = before.flatten ++ (block ++ after) ∧
    handler before block ≠ ptpRcOk

theorem Refused.append {handler : Handler} {blockSize : UInt32} {data : List UInt8}
    (h : Refused handler blockSize data) (more : List UInt8) :
    Refused handler blockSize (data ++ more) := by
  obtain ⟨before, block, after, hsize, hfull, hblock, rfl, hret⟩ := h
  exact ⟨before, block, after ++ more, hsize, hfull, hblock, by simp, hret⟩

/-- The data so far is cut into blocks that the handler has accepted, and a rest. -/
structure Kept (handler : Handler) {blockSize : UInt32} (d : DataPhase blockSize) : Prop where
  valid : Valid d.params.pktBuf
  full : ∀ b ∈ d.blocks, b.length = blockSize.toNat
  rest : blockSize ≠ 0 → d.bytes.length = d.blockRead.toNat
  memory : blockSize = 0 → d.blocks = [] ∧ d.blockRead = 0
  accepted : ∀ before block after, d.blocks = before ++ block :: after →
    handler before block = ptpRcOk
  total : d.totalRead = UInt64.ofNat d.received.length

theorem Kept.rest_lt {handler : Handler} {blockSize : UInt32} {d : DataPhase blockSize}
    (h : Kept handler d) (hsize : blockSize ≠ 0) : d.bytes.length < blockSize.toNat := by
  rw [h.rest hsize]
  exact UInt32.lt_iff_toNat_lt.mp (d.room hsize)

theorem Kept.not_refused {handler : Handler} {blockSize : UInt32} {d : DataPhase blockSize}
    (h : Kept handler d) : ¬Refused handler blockSize d.received := by
  rintro ⟨before, block, after, hsize, hfull, hblock, hdata, hret⟩
  have hcut : (before ++ [block]).flatten ++ after = d.blocks.flatten ++ d.bytes := by
    rw [List.flatten_append, List.flatten_singleton, List.append_assoc, ← hdata]
    rfl
  have hall : ∀ b ∈ before ++ [block], b.length = blockSize.toNat := by
    intro b hb
    rcases List.mem_append.mp hb with hb | hb
    · exact hfull b hb
    · rw [List.mem_singleton.mp hb, hblock]
  obtain ⟨zs, hzs⟩ := blocks_prefix hall h.full hcut (h.rest_lt hsize)
  exact hret (h.accepted before block zs (by rw [hzs, List.append_assoc]; rfl))

/-- From `d` to `d'` the bytes `p` have been read. -/
structure Fed {blockSize : UInt32} (d : DataPhase blockSize) (p : List UInt8)
    (d' : DataPhase blockSize) : Prop where
  consumed : p ++ stream d'.params = stream d.params
  received : d'.received = d.received ++ p
  reliable : Reliable d.params.transport → Reliable d'.params.transport
  trickle : Trickle d.params → Trickle d'.params
  session : d'.params.sessionId = d.params.sessionId

theorem Fed.refl {blockSize : UInt32} (d : DataPhase blockSize) : Fed d [] d :=
  ⟨rfl, (List.append_nil _).symm, id, id, rfl⟩

theorem Fed.trans {blockSize : UInt32} {d d' d'' : DataPhase blockSize} {p q : List UInt8}
    (h : Fed d p d') (h' : Fed d' q d'') : Fed d (p ++ q) d'' := by
  refine ⟨?_, ?_, fun hr => h'.reliable (h.reliable hr), fun ht => h'.trickle (h.trickle ht),
    h'.session.trans h.session⟩
  · rw [List.append_assoc, h'.consumed, h.consumed]
  · rw [h'.received, h.received, List.append_assoc]

/-- A read of `size` bytes within the data phase. -/
theorem Fed.of_read {blockSize : UInt32} {d d' : DataPhase blockSize} {size : UInt32} {r : Reply}
    (hread : ptpTcpReadData d.params size = some r) (hs : Served d.params size.toNat r)
    (hparams : d'.params = r.params) (hreceived : d'.received = d.received ++ r.bytes) :
    Fed d r.bytes d' := by
  refine ⟨?_, hreceived, ?_, ?_, ?_⟩
  · rw [hparams, hs.stream]
  · rw [hparams]
    exact hs.reliable
  · rw [hparams]
    exact fun ht => tcpRead_trickle ht hread
  · rw [hparams, hs.session]

/-- What reading a payload of `n` bytes does. -/
structure PayloadRead (handler : Handler) {blockSize : UInt32} (d : DataPhase blockSize) (n : Nat)
    (result : Option (UInt16 × DataPhase blockSize)) : Prop where
  exists_of : n < 2 ^ 31 ∨ (blockSize ≠ 0 ∧ blockSize.toNat < 2 ^ 31) ∨ Trickle d.params →
    result ≠ none
  ok : ∀ d', result = some (ptpRcOk, d') → Kept handler d' ∧ ∃ p, Fed d p d' ∧ p.length = n
  error : ∀ ret d', result = some (ret, d') → ret ≠ ptpRcOk → ∃ p, p.length ≤ n ∧
    p <+: stream d.params ∧ d'.received = d.received ++ p ∧
    (blockSize = 0 → d'.blocks = []) ∧
    (Reliable d.params.transport →
      (p = stream d.params ∧ p.length < n) ∨ Refused handler blockSize (d.received ++ p))

theorem ofNat_add (a : Nat) (b : UInt32) :
    UInt64.ofNat a + b.toUInt64 = UInt64.ofNat (a + b.toNat) := by
  apply UInt64.toNat_inj.mp
  rw [UInt64.toNat_add, UInt64.toNat_ofNat', UInt64.toNat_ofNat', UInt32.toNat_toUInt64]
  omega

/-- One pass of the inner loop that goes on. -/
theorem Kept.step {handler : Handler} {blockSize pktLen : UInt32} (hsize : blockSize ≠ 0)
    {s s' : DataPhase blockSize × UInt32} (hk : Kept handler s.1)
    (hstep : (packetLoop handler blockSize hsize pktLen).step s = .inl s') :
    Kept handler s'.1 ∧ s'.2 ≤ pktLen ∧ ∃ p, Fed s.1 p s'.1 ∧ s'.2.toNat = s.2.toNat + p.length := by
  simp only [packetLoop] at hstep
  split at hstep
  · rename_i hleft
    have hspec := readSize_spec (s.1.room hsize) hleft
    split at hstep
    · cases hstep
    · rename_i r hread
      split at hstep
      · cases hstep
      · rename_i hret
        have hret := Classical.not_not.mp hret
        obtain ⟨r', hr', hf⟩ := tcpRead_any _ hk.valid (tcpRead_result hk.valid hread)
        rw [hread] at hr'
        cases hr'
        have hs := hf.served hret
        have hlen : (s.1.bytes ++ r.bytes).length =
            s.1.blockRead.toNat + (readSize blockSize s.1.blockRead pktLen s.2).toNat := by
          rw [List.length_append, hk.rest hsize, hs.length]
        have htotal : s.1.totalRead + (readSize blockSize s.1.blockRead pktLen s.2).toUInt64 =
            UInt64.ofNat (s.1.received ++ r.bytes).length := by
          rw [hk.total, ofNat_add, List.length_append, hs.length]
        split at hstep
        · rename_i hfull
          have hblock : (s.1.bytes ++ r.bytes).length = blockSize.toNat := by
            rw [hlen, ← hspec.2.1, hfull]
          split at hstep
          · cases hstep
          · rename_i haccept
            cases hstep
            have hreceived : (s.1.blocks ++ [s.1.bytes ++ r.bytes]).flatten ++ [] =
                s.1.received ++ r.bytes := by
              simp [DataPhase.received]
            refine ⟨⟨hs.valid, ?_, fun _ => rfl, fun h => absurd h hsize, ?_, ?_⟩, ?_, r.bytes,
              ?_, ?_⟩
            · intro b hb
              rcases List.mem_append.mp hb with hb | hb
              · exact hk.full b hb
              · rw [List.mem_singleton.mp hb, hblock]
            · intro before block after hcut
              rcases List.eq_nil_or_concat after with rfl | ⟨after', last, rfl⟩
              · obtain ⟨hbefore, hlast⟩ := List.append_inj' hcut rfl
                cases hlast
                rw [← hbefore]
                exact Classical.not_not.mp haccept
              · rw [List.concat_eq_append, ← List.cons_append, ← List.append_assoc] at hcut
                exact hk.accepted before block after' (List.append_inj' hcut rfl).1
            · rw [htotal]
              simp only [DataPhase.received, hreceived]
            · exact UInt32.le_iff_toNat_le.mpr (by simp only; omega)
            · exact Fed.of_read hread hs rfl hreceived
            · rw [hs.length]
              exact hspec.2.2.1
        · cases hstep
          have hreceived : s.1.blocks.flatten ++ (s.1.bytes ++ r.bytes) =
              s.1.received ++ r.bytes := by
            simp [DataPhase.received]
          refine ⟨⟨hs.valid, hk.full, fun _ => ?_, fun h => absurd h hsize, hk.accepted, ?_⟩,
            ?_, r.bytes, ?_, ?_⟩
          · rw [hlen, hspec.2.1]
          · rw [htotal]
            simp only [DataPhase.received, hreceived]
          · exact UInt32.le_iff_toNat_le.mpr (by simp only; omega)
          · exact Fed.of_read hread hs rfl hreceived
          · rw [hs.length]
            exact hspec.2.2.1
  · cases hstep

/-- A pass of the inner loop that leaves it. -/
theorem Kept.leave {handler : Handler} {blockSize pktLen : UInt32} (hsize : blockSize ≠ 0)
    {s : DataPhase blockSize × UInt32} {result : Option (UInt16 × DataPhase blockSize)}
    (hk : Kept handler s.1) (hle : s.2 ≤ pktLen)
    (hstep : (packetLoop handler blockSize hsize pktLen).step s = .inr result) :
    (result = some (ptpRcOk, s.1) ∧ s.2 = pktLen) ∨
      (result = none ∧
        ¬(pktLen.toNat < 2 ^ 31 ∨ (blockSize ≠ 0 ∧ blockSize.toNat < 2 ^ 31) ∨
          Trickle s.1.params)) ∨
      ∃ ret d' p, result = some (ret, d') ∧ ret ≠ ptpRcOk ∧ s.2.toNat + p.length ≤ pktLen.toNat ∧
        p <+: stream s.1.params ∧ d'.received = s.1.received ++ p ∧
        (Reliable s.1.params.transport →
          (p = stream s.1.params ∧ s.2.toNat + p.length < pktLen.toNat) ∨
            Refused handler blockSize (s.1.received ++ p)) := by
  simp only [packetLoop] at hstep
  split at hstep
  · rename_i hleft
    have hspec := readSize_spec (s.1.room hsize) hleft
    split at hstep
    · rename_i hread
      cases hstep
      refine .inr (.inl ⟨rfl, ?_⟩)
      intro hrange
      -- no read asks for more than the packet or the block has
      have hcount : (readSize blockSize s.1.blockRead pktLen s.2).toNat < 2 ^ 31 ∨
          s.1.params.pktBuf.len = 0 := by
        rcases hrange with hsmall | ⟨_, hsmall⟩ | ht
        · exact .inl (by omega)
        · exact .inl (by omega)
        · exact .inr ht.len
      obtain ⟨r, hr, _⟩ :=
        tcpRead_any (readSize blockSize s.1.blockRead pktLen s.2) hk.valid hcount
      rw [hread] at hr
      cases hr
    · rename_i r hread
      obtain ⟨r', hr', hf⟩ := tcpRead_any _ hk.valid (tcpRead_result hk.valid hread)
      rw [hread] at hr'
      cases hr'
      have hmost := hf.most
      split at hstep
      · rename_i hret
        cases hstep
        refine .inr (.inr ⟨_, _, r.bytes, rfl, hret, by omega, ⟨_, hf.copied⟩, ?_, ?_⟩)
        · simp [DataPhase.received]
        · intro hr
          obtain ⟨hempty, hshort⟩ := hf.drained hret hr
          have hall := hf.copied
          rw [hempty, List.append_nil] at hall
          rw [← hall] at hshort
          exact .inl ⟨hall, by omega⟩
      · rename_i hret
        have hs := hf.served (Classical.not_not.mp hret)
        split at hstep
        · rename_i hfull
          split at hstep
          · rename_i hrefuse
            cases hstep
            have hblock : (s.1.bytes ++ r.bytes).length = blockSize.toNat := by
              rw [List.length_append, hk.rest hsize, hs.length, ← hspec.2.1, hfull]
            refine .inr (.inr ⟨_, _, r.bytes, rfl, hrefuse, by omega, ⟨_, hf.copied⟩, ?_, ?_⟩)
            · simp [DataPhase.received]
            · intro _
              refine .inr ⟨s.1.blocks, s.1.bytes ++ r.bytes, [], hsize, hk.full, hblock, ?_, hrefuse⟩
              simp [DataPhase.received]
          · cases hstep
        · cases hstep
  · rename_i hdone
    cases hstep
    exact .inl ⟨rfl, UInt32.le_antisymm hle (UInt32.not_lt.mp hdone)⟩

/-- The inner loop reads the payload or fails. -/
theorem packetLoop_spec {handler : Handler} {blockSize : UInt32} (hsize : blockSize ≠ 0)
    {d : DataPhase blockSize} (pktLen : UInt32) (hk : Kept handler d) :
    PayloadRead handler d pktLen.toNat
      ((packetLoop handler blockSize hsize pktLen).run (d, 0)) := by
  refine (packetLoop handler blockSize hsize pktLen).run_invariant
    (fun s => Kept handler s.1 ∧ s.2 ≤ pktLen ∧ ∃ p, Fed d p s.1 ∧ s.2.toNat = p.length)
    (fun r => PayloadRead handler d pktLen.toNat r) ?_ ?_
    ⟨hk, UInt32.zero_le, [], Fed.refl d, rfl⟩
  · rintro s s' ⟨hk, _, p, hfed, hp⟩ hstep
    obtain ⟨hk', hle', q, hfed', hq⟩ := hk.step hsize hstep
    refine ⟨hk', hle', p ++ q, hfed.trans hfed', ?_⟩
    rw [hq, hp, List.length_append]
  · rintro s result ⟨hk, hle, p, hfed, hp⟩ hstep
    rcases hk.leave hsize hle hstep with
      ⟨rfl, hdone⟩ | ⟨rfl, hno⟩ | ⟨ret, d', q, rfl, hret, hq, hbegin, hreceived, hwhy⟩
    · refine ⟨fun _ h => (by cases h), ?_, ?_⟩
      · intro d' h
        cases h
        exact ⟨hk, p, hfed, by rw [← hp, hdone]⟩
      · intro ret d' h hret
        cases h
        exact absurd rfl hret
    · refine ⟨fun h _ => hno (h.imp_right (Or.imp_right hfed.trickle)), ?_, ?_⟩
      · intro d' h
        cases h
      · intro ret d' h
        cases h
    · refine ⟨fun _ h => (by cases h), ?_, ?_⟩
      · intro d'' h
        cases h
        exact absurd rfl hret
      · intro ret' d'' h hret'
        cases h
        refine ⟨p ++ q, ?_, ?_, ?_, fun h => absurd h hsize, ?_⟩
        · rw [List.length_append]
          omega
        · rw [← hfed.consumed]
          exact (List.prefix_append_right_inj p).mpr hbegin
        · rw [hreceived, hfed.received, List.append_assoc]
        · intro hr
          rw [hfed.received, List.append_assoc] at hwhy
          rcases hwhy (hfed.reliable hr) with ⟨rfl, hshort⟩ | hrefused
          · refine .inl ⟨hfed.consumed, ?_⟩
            rw [List.length_append]
            omega
          · exact .inr hrefused

theorem readPayload_spec {handler : Handler} {blockSize : UInt32} {d : DataPhase blockSize}
    (pktLen : UInt32) (hk : Kept handler d) :
    PayloadRead handler d pktLen.toNat (readPayload handler blockSize d pktLen) := by
  unfold readPayload
  by_cases hsize : blockSize ≠ 0
  · rw [dif_pos hsize]
    exact packetLoop_spec hsize pktLen hk
  · rw [dif_neg hsize]
    have hzero := Classical.not_not.mp hsize
    obtain ⟨hblocks, hblockRead⟩ := hk.memory hzero
    simp only [bind, Option.bind]
    cases hread : ptpTcpReadData d.params pktLen with
    | none =>
      refine ⟨?_, fun _ h => (by cases h), fun _ _ h => (by cases h)⟩
      intro hrange
      have hcount : pktLen.toNat < 2 ^ 31 ∨ d.params.pktBuf.len = 0 := by
        rcases hrange with hsmall | ⟨hno, _⟩ | ht
        · exact .inl hsmall
        · exact absurd hno hsize
        · exact .inr ht.len
      obtain ⟨r, hr, _⟩ := tcpRead_any pktLen hk.valid hcount
      rw [hread] at hr
      cases hr
    | some r =>
      obtain ⟨r', hr', hf⟩ := tcpRead_any _ hk.valid (tcpRead_result hk.valid hread)
      rw [hread] at hr'
      cases hr'
      simp only
      by_cases hret : r.ret = ptpRcOk
      · rw [if_neg (not_not.mpr hret)]
        have hs := hf.served hret
        refine ⟨fun _ h => (by cases h), ?_, fun ret d' h hno => (by cases h; exact absurd rfl hno)⟩
        intro d' h
        cases h
        have hreceived : d.blocks.flatten ++ (d.bytes ++ r.bytes) = d.received ++ r.bytes := by
          simp [DataPhase.received]
        refine ⟨⟨hs.valid, hk.full, fun h => absurd h hsize, fun _ => ⟨hblocks, hblockRead⟩,
          hk.accepted, ?_⟩, r.bytes, Fed.of_read hread hs rfl hreceived, hs.length⟩
        simp only [DataPhase.received, hreceived]
        rw [hk.total, ofNat_add, List.length_append, hs.length]
        rfl
      · rw [if_pos hret]
        refine ⟨fun _ h => (by cases h), fun d' h => ?_, fun ret d' h _ => ?_⟩
        · simp only [Option.some.injEq, Prod.mk.injEq] at h
          exact absurd h.1 hret
        · cases h
          refine ⟨r.bytes, hf.most, ⟨_, hf.copied⟩, ?_, fun _ => hblocks, ?_⟩
          · simp [DataPhase.received]
          · intro hr
            obtain ⟨hempty, hshort⟩ := hf.drained hret hr
            have hall := hf.copied
            rw [hempty, List.append_nil] at hall
            rw [← hall] at hshort
            exact .inl ⟨hall, hshort⟩

end PtpIpRead
