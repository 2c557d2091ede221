import Chdkptp.PtpIpRead

/-!
# The PTP/IP data phase

What one pass of the packet loop does to the stream, what a well-formed data
phase delivers, and exactly which packet sequences keep the phase within the
announced size.
-/

namespace PtpIpData

open ByteMemory ByteStream BoundedLoop PtpBuffer PtpUsb PtpIp PtpIpRead

theorem nomem_error : ptpErrorNomem ≠ ptpRcOk := by decide

theorem dataExpected_error : ptpErrorDataExpected ≠ ptpRcOk := by decide

/-! ## One packet -/

/-- `pkt_len` of the data packet at the head of a stream. -/
def payloadSize (S : List UInt8) : Nat := (headLength S - 12).toNat

/-- As much of its payload as there is. -/
def payload (S : List UInt8) : List UInt8 := (S.drop 12).take (payloadSize S)

/-- What follows it. -/
def behind (S : List UInt8) : List UInt8 := (S.drop 12).drop (payloadSize S)

/-- The packet at the head of a stream is END_DATA. -/
def isEnd (S : List UInt8) : Bool := decide (headType S = ptpipTypeEndData)

theorem payload_behind_eq {S p rest : List UInt8} (hp : p.length = payloadSize S)
    (h : p ++ rest = S.drop 12) : p = payload S ∧ rest = behind S := by
  rw [payload, behind, ← h, ← hp]
  exact ⟨(List.take_left).symm, (List.drop_left).symm⟩

/-- What has been read of a payload and no more. -/
theorem payload_isPrefix {S p : List UInt8} (hmost : p.length ≤ payloadSize S)
    (h : p <+: S.drop 12) : p <+: payload S := by
  obtain ⟨more, hmore⟩ := h
  refine ⟨more.take (payloadSize S - p.length), ?_⟩
  rw [payload, ← hmore, List.take_append, List.take_of_length_le hmost]

/-- A stream that ends in its payload. -/
theorem payload_short {S p : List UInt8} (hmost : p.length ≤ payloadSize S)
    (h : p = S.drop 12) : p = payload S := by
  rw [payload, ← h]
  exact (List.take_of_length_le hmost).symm

/-- A data packet's header takes twelve bytes from the stream. -/
theorem data_header {params : PTPParams} {dst : PTPIPContainer} {p : TcpPacket} {c : List UInt8}
    (hc : ControlRead params dst p c) (hdata : DataPacket (headType (stream params))) :
    stream p.params = (stream params).drop 12 ∧ 12 ≤ (stream params).length := by
  have hlen := hc.data hdata
  constructor
  · rw [← hc.consumed, ← hlen, List.drop_left]
  · rw [← hc.consumed, List.length_append]
    omega

/-- The size that the code computes for what follows a header. Without a handler the
size of a payload is handed to a read as an `int`, with one it is counted down in
`uint32_t`, which wraps if there is less than a header. -/
def payloadLength (blockSize type length : UInt32) : Int :=
  if DataPacket type then
    if blockSize = 0 then toInt (length - 12).toNat else (length.toNat : Int) - 12
  else if ptpipHeaderLen < length.toNat then toInt ((length.toNat : Int) - ptpipHeaderLen)
  else 0

/-- No packet that can be read at the head of the stream has a negative size. -/
def Measured (blockSize : UInt32) (S : List UInt8) : Prop :=
  Enough S → 0 ≤ payloadLength blockSize (headType S) (headLength S)

/-- No read that a pass of the packet loop asks for has a negative size. -/
structure Countable (blockSize : UInt32) (S : List UInt8) : Prop where
  control : ptpipHeaderLen ≤ S.length → ¬Negative S
  payload : DataPacket (headType S) → 12 ≤ S.length →
    payloadSize S < 2 ^ 31 ∨ (blockSize ≠ 0 ∧ blockSize.toNat < 2 ^ 31)

theorem toInt_nonneg {n : Nat} (hn : n < 2 ^ 32) (h : 0 ≤ toInt n) : n < 2 ^ 31 := by
  by_contra hno
  have := toInt_negative (n := n) (by omega) (by omega)
  omega

theorem Measured.not_negative {blockSize : UInt32} {S : List UInt8} (hm : Measured blockSize S)
    (h8 : ptpipHeaderLen ≤ S.length) :
    ¬Negative S := by
  intro hneg
  have hdata := whole_not_data hneg.1
  have hlt := (headLength S).toNat_lt
  have henough : Enough S :=
    ⟨h8, .inl hneg.1, fun h => absurd h hdata, fun _ _ h => absurd hneg h⟩
  have hsize := hm henough
  have hmore : ptpipHeaderLen < (headLength S).toNat := Nat.lt_of_lt_of_le (by decide) hneg.2
  rw [payloadLength, if_neg hdata, if_pos hmore] at hsize
  have hlow := hneg.2
  have := toInt_negative (n := ((headLength S).toNat : Int) - ptpipHeaderLen) (by omega) (by omega)
  omega

theorem enough_data {S : List UInt8} (hd : DataPacket (headType S)) (h12 : 12 ≤ S.length) :
    Enough S :=
  ⟨Nat.le_trans (by decide) h12, .inr hd, fun _ => h12, fun hw => absurd hd (whole_not_data hw)⟩

theorem Measured.countable {blockSize : UInt32} {S : List UInt8} (hm : Measured blockSize S)
    (hsmall : blockSize.toNat < 2 ^ 31) : Countable blockSize S := by
  refine ⟨hm.not_negative, fun hd h12 => ?_⟩
  by_cases hzero : blockSize = 0
  · have hsize := hm (enough_data hd h12)
    rw [payloadLength, if_pos hd, if_pos hzero] at hsize
    exact .inl (toInt_nonneg (headLength S - 12).toNat_lt hsize)
  · exact .inr ⟨hzero, hsmall⟩

section Step

variable {handler : Handler} {blockSize : UInt32}

/-- A whole data packet has been read. -/
structure Advanced (handler : Handler) (s s' : PhaseState blockSize) : Prop where
  data : DataPacket (headType (stream s.data.params))
  long : 12 ≤ (stream s.data.params).length
  whole : (payload (stream s.data.params)).length = payloadSize (stream s.data.params)
  kept : Kept handler s'.data
  rest : stream s'.data.params = behind (stream s.data.params)
  received : s'.data.received = s.data.received ++ payload (stream s.data.params)
  reliable : Reliable s.data.params.transport → Reliable s'.data.params.transport
  trickle : Trickle s.data.params → Trickle s'.data.params
  session : s'.data.params.sessionId = s.data.params.sessionId
  gotEnd : s'.gotEnd = (s.gotEnd || isEnd (stream s.data.params))
  headers : s'.headers =
    s.headers ++ [(headType (stream s.data.params), headLength (stream s.data.params))]
  endAt : s'.endAt = if isEnd (stream s.data.params) && !s.gotEnd then
    some s'.data.received.length else s.endAt

/-- The loop has been left with an error: the control read failed, the type was
wrong, or the payload could not be read or was refused. -/
inductive Failed (handler : Handler) (s s' : PhaseState blockSize) : Prop where
  | control (hreceived : s'.data.received = s.data.received)
      (hblocks : blockSize = 0 → s'.data.blocks = []) (hheaders : s'.headers = s.headers)
      (hwhy : Reliable s.data.params.transport → ¬Enough (stream s.data.params))
  | type (hreceived : s'.data.received = s.data.received)
      (hblocks : blockSize = 0 → s'.data.blocks = [])
      (hheaders : s'.headers =
        s.headers ++ [(headType (stream s.data.params), headLength (stream s.data.params))])
      (hheader : ptpipHeaderLen ≤ (stream s.data.params).length)
      (hwhole : WholePacket (headType (stream s.data.params)))
  | payload (hdata : DataPacket (headType (stream s.data.params)))
      (hlong : 12 ≤ (stream s.data.params).length) (p : List UInt8)
      (hbegin : p <+: PtpIpData.payload (stream s.data.params))
      (hreceived : s'.data.received = s.data.received ++ p)
      (hblocks : blockSize = 0 → s'.data.blocks = [])
      (hheaders : s'.headers =
        s.headers ++ [(headType (stream s.data.params), headLength (stream s.data.params))])
      (hwhy : Reliable s.data.params.transport →
        (p = PtpIpData.payload (stream s.data.params) ∧
          p.length < payloadSize (stream s.data.params)) ∨
          Refused handler blockSize (s.data.received ++ p))

/-- The payload behind a header has been read whole. -/
theorem advanced_of_fed {s s' : PhaseState blockSize} {p : TcpPacket} {c bytes : List UInt8}
    (hc : ControlRead s.data.params s.pkt p c)
    (hdata : DataPacket (headType (stream s.data.params)))
    (htrickle : Trickle s.data.params → Trickle p.params)
    (hfed : Fed { s.data with params := p.params } bytes s'.data)
    (hlen : bytes.length = payloadSize (stream s.data.params)) (hkept : Kept handler s'.data)
    (hgot : s'.gotEnd = (s.gotEnd || isEnd (stream s.data.params)))
    (hheaders : s'.headers =
      s.headers ++ [(headType (stream s.data.params), headLength (stream s.data.params))])
    (hend : s'.endAt = if isEnd (stream s.data.params) && !s.gotEnd then
      some s'.data.received.length else s.endAt) : Advanced handler s s' := by
  obtain ⟨hdrop, hlong⟩ := data_header hc hdata
  have hsplit := hfed.consumed
  simp only [hdrop] at hsplit
  obtain ⟨hbytes, hrest⟩ := payload_behind_eq hlen hsplit
  refine ⟨hdata, hlong, ?_, hkept, hrest, ?_, ?_, ?_, ?_, hgot, hheaders, hend⟩
  · rw [← hbytes, hlen]
  · rw [hfed.received, hbytes]
    rfl
  · exact fun hr => hfed.reliable (hc.reliable hr)
  · exact fun ht => hfed.trickle (htrickle ht)
  · rw [hfed.session]
    exact hc.session

/-- What a pass of the packet loop does. -/
theorem phase_step (totalLen : UInt64) {s : PhaseState blockSize} (hk : Kept handler s.data) :
    (∃ s', (phaseLoop handler blockSize totalLen).step s = .inl s' ∧ Advanced handler s s' ∧
      s'.data.totalRead < totalLen) ∨
    (∃ s', (phaseLoop handler blockSize totalLen).step s = .inr (some (ptpRcOk, s')) ∧
      Advanced handler s s' ∧ ¬s'.data.totalRead < totalLen) ∨
    (∃ ret s', (phaseLoop handler blockSize totalLen).step s = .inr (some (ret, s')) ∧
      ret ≠ ptpRcOk ∧ Failed handler s s') ∨
    ((phaseLoop handler blockSize totalLen).step s = .inr none ∧
      ¬(Countable blockSize (stream s.data.params) ∨ Trickle s.data.params)) := by
  simp only [phaseLoop]
  cases hread : ptpTcpReadControl s.data.params s.pkt with
  | none =>
    refine .inr (.inr (.inr ⟨rfl, ?_⟩))
    intro hrange
    obtain ⟨p, hp⟩ := (readControl_some s.pkt hk.valid).1
      (hrange.imp_left Countable.control)
    rw [hread] at hp
    cases hp
  | some p =>
    by_cases hret : p.ret = ptpRcOk
    · simp only [hret, ne_eq, not_true_eq_false, if_false]
      obtain ⟨c, hc⟩ := readControl_ok hk.valid hread hret
      have htype := hc.type
      rw [htype, hc.length]
      by_cases hdata : DataPacket (headType (stream s.data.params))
      · simp only [hdata, not_true_eq_false, if_false]
        obtain ⟨hdrop, hlong⟩ := data_header hc hdata
        have hkept : Kept handler { s.data with params := p.params } :=
          ⟨hc.valid, hk.full, hk.rest, hk.memory, hk.accepted, hk.total⟩
        have hpayload := readPayload_spec (headLength (stream s.data.params) - 12) hkept
        cases hresult : readPayload handler blockSize { s.data with params := p.params }
            (headLength (stream s.data.params) - 12) with
        | none =>
          refine .inr (.inr (.inr ⟨rfl, ?_⟩))
          intro hrange
          refine hpayload.exists_of ?_ hresult
          rcases hrange with hcount | ht
          · exact (hcount.payload hdata hlong).imp_right .inl
          · exact .inr (.inr (((readControl_some s.pkt hk.valid).2 p hread).1 ht hret))
        | some q =>
          obtain ⟨ret, d⟩ := q
          simp only
          by_cases hok : ret = ptpRcOk
          · subst hok
            obtain ⟨hkept', bytes, hfed, hlen⟩ := hpayload.ok d hresult
            have htrickle : Trickle s.data.params → Trickle p.params :=
              fun ht => ((readControl_some s.pkt hk.valid).2 p hread).1 ht hret
            simp only [not_true_eq_false, if_false]
            by_cases hmore : d.totalRead < totalLen
            · rw [if_pos hmore]
              exact .inl ⟨_, rfl,
                advanced_of_fed hc hdata htrickle hfed hlen hkept' rfl rfl rfl, hmore⟩
            · rw [if_neg hmore]
              exact .inr (.inl ⟨_, rfl,
                advanced_of_fed hc hdata htrickle hfed hlen hkept' rfl rfl rfl, hmore⟩)
          · rw [if_pos hok]
            obtain ⟨bytes, hmost, hbegin, hreceived, hblocks, hwhy⟩ :=
              hpayload.error ret d hresult hok
            simp only [hdrop] at hbegin hwhy
            refine .inr (.inr (.inl ⟨_, _, rfl, hok, .payload hdata hlong bytes
              (payload_isPrefix hmost hbegin) hreceived hblocks rfl ?_⟩))
            intro hr
            refine (hwhy (hc.reliable hr)).imp_left ?_
            rintro ⟨hall, hshort⟩
            exact ⟨payload_short hmost hall, hshort⟩
      · simp only [hdata, not_false_eq_true, if_true]
        have hheader : ptpipHeaderLen ≤ (stream s.data.params).length := by
          rw [← hc.consumed, List.length_append]
          exact Nat.le_trans hc.header (Nat.le_add_right _ _)
        exact .inr (.inr (.inl ⟨_, _, rfl, by decide, .type rfl (fun h => (hk.memory h).1) rfl
          hheader (hc.known.resolve_right hdata)⟩))
    · simp only [ne_eq, hret, not_false_eq_true, if_true]
      refine .inr (.inr (.inl ⟨_, _, rfl, hret, .control rfl (fun h => (hk.memory h).1) rfl ?_⟩))
      exact fun hr henough =>
        hret (((readControl_some s.pkt hk.valid).2 p hread).2 hr henough)

end Step

/-! ## A well-formed data phase -/

/-- A data packet with the given payload. -/
structure PacketOf (type : UInt32) (data bytes : List UInt8) : Prop where
  header : 12 ≤ bytes.length
  type : headType bytes = type
  length : (headLength bytes).toNat = bytes.length
  data : bytes.drop 12 = data

/-- DATA packets with payloads, ended by an END_DATA packet, which may have one. -/
inductive Packets : List UInt8 → List UInt8 → Prop where
  | last {data bytes : List UInt8} (h : PacketOf ptpipTypeEndData data bytes) : Packets data bytes
  | more {data bytes data' bytes' : List UInt8} (h : PacketOf ptpipTypeData data bytes)
      (hne : data ≠ []) (hrest : Packets data' bytes') : Packets (data ++ data') (bytes ++ bytes')

/-- The packet sequences that are read to their end: as above, and an empty DATA
packet may stand anywhere but behind the last byte, unless there is no byte at all. -/
inductive PacketRun : List UInt8 → List UInt8 → Prop where
  | last {data bytes : List UInt8} (h : PacketOf ptpipTypeEndData data bytes) : PacketRun data bytes
  | closing {data bytes bytes' : List UInt8} (h : PacketOf ptpipTypeData data bytes)
      (hlast : PacketOf ptpipTypeEndData [] bytes') : PacketRun data (bytes ++ bytes')
  | more {data bytes data' bytes' : List UInt8} (h : PacketOf ptpipTypeData data bytes)
      (hne : data' ≠ []) (hrest : PacketRun data' bytes') :
      PacketRun (data ++ data') (bytes ++ bytes')

theorem Packets.run {data bytes : List UInt8} (h : Packets data bytes) : PacketRun data bytes := by
  induction h with
  | last h => exact .last h
  | @more data bytes data' bytes' h hne hrest ih =>
    by_cases hnil : data' = []
    · -- nothing but the END_DATA packet can follow
      subst hnil
      rw [List.append_nil]
      generalize hempty : ([] : List UInt8) = empty at hrest
      cases hrest with
      | last hlast => exact .closing h (hempty ▸ hlast)
      | more _ hne' _ => exact absurd (List.append_eq_nil_iff.mp hempty.symm).1 hne'
    · exact .more h hnil ih

/-- A START_DATA packet. -/
structure StartData (total : Nat) (bytes : List UInt8) : Prop where
  size : bytes.length = 20
  type : headType bytes = ptpipTypeStartData
  length : (headLength bytes).toNat = 20
  total : (PTPIPContainer.dataLength (container bytes)).toNat = total

theorem head_append {bytes : List UInt8} (rest : List UInt8) (h : ptpipHeaderLen ≤ bytes.length) :
    headType (bytes ++ rest) = headType bytes ∧ headLength (bytes ++ rest) = headLength bytes :=
  ⟨(type_blit (fun _ => 0) (List.prefix_append bytes rest) h).symm,
    (length_blit (fun _ => 0) (List.prefix_append bytes rest) h).symm⟩

/-- The packet at the head of a stream that begins with it. -/
theorem PacketOf.head {type : UInt32} {data bytes : List UInt8} (h : PacketOf type data bytes)
    (rest : List UInt8) :
    headType (bytes ++ rest) = type ∧ 12 ≤ (bytes ++ rest).length ∧
      payloadSize (bytes ++ rest) = data.length ∧ payload (bytes ++ rest) = data ∧
      behind (bytes ++ rest) = rest := by
  have hheader := h.header
  obtain ⟨htype, hlength⟩ := head_append rest (Nat.le_trans (by decide) hheader)
  have hsize : payloadSize (bytes ++ rest) = data.length := by
    have htwelve : (12 : UInt32).toNat = 12 := rfl
    have hle : (12 : UInt32) ≤ headLength bytes := by
      rw [UInt32.le_iff_toNat_le, h.length, htwelve]
      exact hheader
    rw [payloadSize, hlength, UInt32.toNat_sub_of_le _ _ hle, h.length, ← h.data,
      List.length_drop, htwelve]
  have hdrop : data ++ rest = (bytes ++ rest).drop 12 := by
    rw [List.drop_append_of_le_length hheader, h.data]
  obtain ⟨hpayload, hbehind⟩ := payload_behind_eq hsize.symm hdrop
  refine ⟨htype.trans h.type, ?_, hsize, hpayload.symm, hbehind.symm⟩
  rw [List.length_append]
  omega

theorem data_packet : DataPacket ptpipTypeData ∧ DataPacket ptpipTypeEndData := by decide

section Phase

variable {handler : Handler} {blockSize : UInt32} {totalLen : UInt64}

/-! Below, `R` stands for the assumption that nothing fails: neither a call of the
transport nor the handler nor `malloc`. With it there is a result, without it a
result that is OK is the same one. -/

/-- The packets left and the payload received make up the data. -/
structure Arriving (R : Prop) (handler : Handler) (data after : List UInt8) (sessionId : UInt32)
    (s : PhaseState blockSize) (data' bytes' : List UInt8) : Prop where
  kept : Kept handler s.data
  reliable : R → Reliable s.data.params.transport
  session : s.data.params.sessionId = sessionId
  fits : R → data.length < 2 ^ 31 ∨ Trickle s.data.params
  packets : PacketRun data' bytes'
  incoming : stream s.data.params = bytes' ++ after
  data : s.data.received ++ data' = data
  running : s.gotEnd = false

/-- The phase is over, but for an END_DATA packet that may still be to come. -/
structure Arrived (R : Prop) (handler : Handler) (data after : List UInt8) (sessionId : UInt32)
    (s : PhaseState blockSize) : Prop where
  kept : Kept handler s.data
  reliable : R → Reliable s.data.params.transport
  session : s.data.params.sessionId = sessionId
  data : s.data.received = data
  tail : (s.gotEnd = true ∧ stream s.data.params = after) ∨
    (s.gotEnd = false ∧ ∃ bytes, PacketOf ptpipTypeEndData [] bytes ∧
      stream s.data.params = bytes ++ after)

/-- No result, or one with an error. -/
def NotOk {α : Type} (r : Option (UInt16 × α)) : Prop := ∀ a, r ≠ some (ptpRcOk, a)

/-- The packet at the head of the stream is read whole, or something fails. -/
theorem Arriving.advance (totalLen : UInt64) {R : Prop} {data after data' bytes' : List UInt8}
    {sessionId : UInt32} {s : PhaseState blockSize}
    (h : Arriving R handler data after sessionId s data' bytes')
    (haccepts : R → ∀ before block, handler before block = ptpRcOk)
    {type : UInt32} {d bytes rest : List UInt8} (hp : PacketOf type d bytes)
    (htype : DataPacket type) (hbytes : bytes' = bytes ++ rest) (hpart : d.length ≤ data.length) :
    (∃ s', Advanced handler s s' ∧
      (((phaseLoop handler blockSize totalLen).step s = .inl s' ∧ s'.data.totalRead < totalLen) ∨
        ((phaseLoop handler blockSize totalLen).step s = .inr (some (ptpRcOk, s')) ∧
          ¬s'.data.totalRead < totalLen))) ∨
    (¬R ∧ ∃ r, (phaseLoop handler blockSize totalLen).step s = .inr r ∧ NotOk r) := by
  have hstream := h.incoming
  rw [hbytes, List.append_assoc] at hstream
  obtain ⟨hhead, hlong, hsize, hpayload, _⟩ := hp.head (rest ++ after)
  rw [← hstream] at hhead hlong hsize hpayload
  have hdata : DataPacket (headType (stream s.data.params)) := by
    rw [hhead]
    exact htype
  have henough := enough_data hdata hlong
  rcases phase_step totalLen h.kept with
    ⟨s', hstep, hadv, hlt⟩ | ⟨s', hstep, hadv, hge⟩ | ⟨ret, s', hstep, hret, hfail⟩ |
    ⟨hstep, hno⟩
  · exact .inl ⟨s', hadv, .inl ⟨hstep, hlt⟩⟩
  · exact .inl ⟨s', hadv, .inr ⟨hstep, hge⟩⟩
  · refine .inr ⟨fun hR => ?_, _, hstep, fun a ha => ?_⟩
    · cases hfail with
      | control _ _ _ hwhy => exact absurd henough (hwhy (h.reliable hR))
      | type _ _ _ _ hwhole => exact absurd hdata (whole_not_data hwhole)
      | payload _ _ p _ _ _ _ hwhy =>
        rcases hwhy (h.reliable hR) with ⟨hall, hshort⟩ | ⟨before, block, _, _, _, _, _, hrefused⟩
        · rw [hall, hpayload, hsize] at hshort
          exact absurd hshort (Nat.lt_irrefl _)
        · exact absurd (haccepts hR before block) hrefused
    · cases ha
      exact hret rfl
  · refine .inr ⟨fun hR => hno ((h.fits hR).imp_left fun hsmall => ?_), _, hstep,
      fun a ha => by cases ha⟩
    refine ⟨fun _ hneg => whole_not_data hneg.1 hdata, fun _ _ => ?_⟩
    rw [hsize]
    exact .inl (by omega)

theorem totalRead_toNat {d : DataPhase blockSize} (h : Kept handler d)
    (hsmall : d.received.length < 2 ^ 64) : d.totalRead.toNat = d.received.length := by
  rw [h.total]
  exact UInt64.toNat_ofNat_of_lt' hsmall

/-- A pass of the loop in a well-formed phase: the next packet, or the end of the data. -/
theorem Arriving.step {R : Prop} {data after data' bytes' : List UInt8} {sessionId : UInt32}
    {s : PhaseState blockSize} (h : Arriving R handler data after sessionId s data' bytes')
    (haccepts : R → ∀ before block, handler before block = ptpRcOk)
    (htotal : data.length = totalLen.toNat) :
    (∃ s' data'' bytes'', (phaseLoop handler blockSize totalLen).step s = .inl s' ∧
      Arriving R handler data after sessionId s' data'' bytes'') ∨
    (∃ s', (phaseLoop handler blockSize totalLen).step s = .inr (some (ptpRcOk, s')) ∧
      Arrived R handler data after sessionId s') ∨
    (¬R ∧ ∃ r, (phaseLoop handler blockSize totalLen).step s = .inr r ∧ NotOk r) := by
  have hdata := h.data
  have hlen := congrArg List.length hdata
  rw [List.length_append] at hlen
  have htotallt := totalLen.toNat_lt
  -- the state after the packet at the head
  have hafter : ∀ {type d bytes rest s'}, PacketOf type d bytes → bytes' = bytes ++ rest →
      Advanced handler s s' → s'.data.received = s.data.received ++ d ∧
        stream s'.data.params = rest ++ after ∧
        s'.gotEnd = decide (type = ptpipTypeEndData) := by
    intro type d bytes rest s' hp hbytes hadv
    have hstream := h.incoming
    rw [hbytes, List.append_assoc] at hstream
    obtain ⟨hhead, _, _, hpayload, hbehind⟩ := hp.head (rest ++ after)
    rw [← hstream] at hhead hpayload hbehind
    refine ⟨?_, ?_, ?_⟩
    · rw [hadv.received, hpayload]
    · rw [hadv.rest, hbehind]
    · rw [hadv.gotEnd, h.running, isEnd, hhead, Bool.false_or]
  -- the last packet brings all of the data
  have hlast : ∀ {s' : PhaseState blockSize}, Advanced handler s s' → s'.data.received = data →
      ¬s'.data.totalRead < totalLen := by
    intro s' hadv hreceived hlt
    have hread := totalRead_toNat hadv.kept (by rw [hreceived]; omega)
    have := UInt64.lt_iff_toNat_lt.mp hlt
    rw [hread, hreceived] at this
    omega
  cases h.packets with
  | last hp =>
    have hbytes : bytes' = bytes' ++ [] := (List.append_nil _).symm
    rcases h.advance totalLen haccepts hp data_packet.2 hbytes (by omega) with
      ⟨s', hadv, hstep⟩ | hfail
    · obtain ⟨hreceived, hstream, hend⟩ := hafter hp hbytes hadv
      rw [hdata] at hreceived
      rcases hstep with ⟨_, hlt⟩ | ⟨hstep, _⟩
      · exact absurd hlt (hlast hadv hreceived)
      · exact .inr (.inl ⟨s', hstep, hadv.kept, fun hR => hadv.reliable (h.reliable hR),
          hadv.session.trans h.session, hreceived, .inl ⟨hend, hstream⟩⟩)
    · exact .inr (.inr hfail)
  | @closing _ bytes bytes'' hp hclose =>
    rcases h.advance totalLen haccepts hp data_packet.1 rfl (by omega) with
      ⟨s', hadv, hstep⟩ | hfail
    · obtain ⟨hreceived, hstream, hend⟩ := hafter hp rfl hadv
      rw [hdata] at hreceived
      rcases hstep with ⟨_, hlt⟩ | ⟨hstep, _⟩
      · exact absurd hlt (hlast hadv hreceived)
      · exact .inr (.inl ⟨s', hstep, hadv.kept, fun hR => hadv.reliable (h.reliable hR),
          hadv.session.trans h.session, hreceived, .inr ⟨hend, bytes'', hclose, hstream⟩⟩)
    · exact .inr (.inr hfail)
  | @more d bytes data'' bytes'' hp hne hrest =>
    rw [List.length_append] at hlen
    rcases h.advance totalLen haccepts hp data_packet.1 rfl (by omega) with
      ⟨s', hadv, hstep⟩ | hfail
    · obtain ⟨hreceived, hstream, hend⟩ := hafter hp rfl hadv
      have hdata' : s'.data.received ++ data'' = data := by
        rw [hreceived, List.append_assoc, hdata]
      have hlen' := congrArg List.length hdata'
      rw [List.length_append] at hlen'
      have hread := totalRead_toNat hadv.kept (by omega)
      rcases hstep with ⟨hstep, _⟩ | ⟨_, hge⟩
      · exact .inl ⟨s', data'', bytes'', hstep, hadv.kept, fun hR => hadv.reliable (h.reliable hR),
          hadv.session.trans h.session, fun hR => (h.fits hR).imp_right hadv.trickle, hrest,
          hstream, hdata', hend⟩
      · have hge' := UInt64.le_iff_toNat_le.mp (UInt64.not_lt.mp hge)
        exact absurd (List.length_eq_zero_iff.mp (by omega)) hne
    · exact .inr (.inr hfail)

theorem phase_run (totalLen : UInt64) {R : Prop} {data after data' bytes' : List UInt8} {sessionId : UInt32}
    {s : PhaseState blockSize} (h : Arriving R handler data after sessionId s data' bytes')
    (haccepts : R → ∀ before block, handler before block = ptpRcOk)
    (htotal : data.length = totalLen.toNat) :
    (∃ s', (phaseLoop handler blockSize totalLen).run s = some (ptpRcOk, s') ∧
      Arrived R handler data after sessionId s') ∨
    (¬R ∧ NotOk ((phaseLoop handler blockSize totalLen).run s)) := by
  refine (phaseLoop handler blockSize totalLen).run_invariant
    (fun s => ∃ data' bytes', Arriving R handler data after sessionId s data' bytes')
    (fun r => (∃ s', r = some (ptpRcOk, s') ∧ Arrived R handler data after sessionId s') ∨
      (¬R ∧ NotOk r)) ?_ ?_ ⟨data', bytes', h⟩
  · rintro s s' ⟨data', bytes', h⟩ hstep
    rcases h.step haccepts htotal with
      ⟨t, data'', bytes'', ht, h'⟩ | ⟨t, ht, _⟩ | ⟨_, r, ht, _⟩ <;> rw [hstep] at ht <;> cases ht
    exact ⟨data'', bytes'', h'⟩
  · rintro s r ⟨data', bytes', h⟩ hstep
    rcases h.step haccepts htotal with
      ⟨t, data'', bytes'', ht, _⟩ | ⟨t, ht, h'⟩ | ⟨hR, r', ht, hno⟩ <;>
      rw [hstep] at ht <;> cases ht
    · exact .inl ⟨t, rfl, h'⟩
    · exact .inr ⟨hR, hno⟩

/-- What the flush hands over: with it the handler has got everything. -/
theorem flush_spec {d : DataPhase blockSize} (hk : Kept handler d) (hsize : blockSize ≠ 0) :
    ((∀ before block, handler before block = ptpRcOk) →
      (flush handler blockSize ptpRcOk d).1 = ptpRcOk) ∧
    (flush handler blockSize ptpRcOk d).2.flatten = d.received ∧
    ∀ block ∈ (flush handler blockSize ptpRcOk d).2, block.length ≤ blockSize.toNat := by
  have hrest := hk.rest hsize
  by_cases hread : d.blockRead = 0
  · have hempty : d.bytes = [] := by
      rw [hread] at hrest
      exact List.length_eq_zero_iff.mp hrest
    simp only [flush, hsize, hread, ne_eq, not_true_eq_false, and_false, if_false]
    refine ⟨fun _ => trivial, ?_, fun block hb => Nat.le_of_eq (hk.full block hb)⟩
    rw [DataPhase.received, hempty, List.append_nil]
  · simp only [flush, hsize, hread, ne_eq, not_false_eq_true, true_and, if_true]
    refine ⟨fun haccepts => haccepts _ _, ?_, ?_⟩
    · simp [DataPhase.received]
    · intro block hb
      rcases List.mem_append.mp hb with hb | hb
      · exact Nat.le_of_eq (hk.full block hb)
      · rw [List.mem_singleton.mp hb]
        exact Nat.le_of_lt (hk.rest_lt hsize)

end Phase

/-- The data a receiver got: the handler's blocks, or the memory. -/
def received (r : TcpGetdata) : List UInt8 :=
  match r.retData with
  | some bytes => bytes
  | none => r.blocks.flatten

/-- The state before the first packet. -/
def firstState (blockSize : UInt32) (params : PTPParams) (pkt : PTPIPContainer) :
    PhaseState blockSize :=
  ⟨pkt, false, ⟨params, [], [], 0, 0, room_zero⟩, [], none⟩

theorem firstState_kept (handler : Handler) (blockSize : UInt32) {params : PTPParams}
    (pkt : PTPIPContainer) (hv : Valid params.pktBuf) :
    Kept handler (firstState blockSize params pkt).data := by
  refine ⟨hv, fun b hb => absurd hb List.not_mem_nil, fun _ => rfl, fun _ => ⟨rfl, rfl⟩, ?_, rfl⟩
  intro before block after h
  exact absurd h (List.append_ne_nil_of_right_ne_nil _ (List.cons_ne_nil _ _)).symm

/-- The final END_DATA packet of a phase whose data has come before. -/
theorem read_last {params : PTPParams} {bytes after : List UInt8} (dst : PTPIPContainer)
    (hv : Valid params.pktBuf) (hp : PacketOf ptpipTypeEndData [] bytes)
    (hs : stream params = bytes ++ after) :
    ∃ p, ptpTcpReadControl params dst = some p ∧ (Reliable params.transport → p.ret = ptpRcOk) ∧
      (p.ret = ptpRcOk → p.pkt.type = ptpipTypeEndData ∧ Valid p.params.pktBuf ∧
        stream p.params = after ∧ (Reliable params.transport → Reliable p.params.transport) ∧
        p.params.sessionId = params.sessionId) := by
  obtain ⟨hhead, hlong, _, _, _⟩ := hp.head after
  rw [← hs] at hhead hlong
  have hdata : DataPacket (headType (stream params)) := by
    rw [hhead]
    exact data_packet.2
  obtain ⟨hexists, hspec⟩ := readControl_some dst hv
  obtain ⟨p, hread⟩ := hexists (.inl fun _ hneg => whole_not_data hneg.1 hdata)
  refine ⟨p, hread, fun hr => (hspec p hread).2 hr (enough_data hdata hlong), fun hok => ?_⟩
  obtain ⟨c, hc⟩ := readControl_ok hv hread hok
  have htwelve : bytes.length = 12 := by
    have hnil := congrArg List.length hp.data
    rw [List.length_drop, List.length_nil] at hnil
    have := hp.header
    omega
  have hcut := hc.consumed
  rw [hs] at hcut
  refine ⟨hc.type.trans hhead, hc.valid, ?_, hc.reliable, hc.session⟩
  exact (List.append_inj hcut (by rw [hc.data hdata, htwelve])).2

/-- How the caller receives the data, with a handler that accepts everything and
memory that can be had. -/
structure TcpReceiver (malloc : UInt64 → Bool) (gdparams : PTPGetdataParams) (n : Nat) : Prop where
  accepts : ∀ handler, gdparams.handler = some handler →
    ∀ before block, handler before block = ptpRcOk
  whole : gdparams.handler = none → gdparams.retData = true ∨ malloc (UInt64.ofNat n) = true

/-- What a data phase that went well leaves. -/
structure Delivered (R : Prop) (data after : List UInt8) (sessionId : UInt32) (r : TcpGetdata) :
    Prop where
  ret : r.ret = ptpRcOk
  received : received r = data
  valid : Valid r.params.pktBuf
  stream : stream r.params = after
  reliable : R → Reliable r.params.transport
  session : r.params.sessionId = sessionId

/-- What the receiver has behind the loop, whatever is left to read. -/
theorem flush_received {handler : Handler} {blockSize : UInt32} {d : DataPhase blockSize}
    {data : List UInt8} (hk : Kept handler d) (hdata : d.received = data) {r : TcpGetdata}
    (hblocks : r.blocks = (flush handler blockSize ptpRcOk d).2)
    (hret : r.retData = if blockSize ≠ 0 then none else some d.bytes) :
    received r = data ∧
      (blockSize ≠ 0 → r.retData = none ∧ ∀ block ∈ r.blocks, block.length ≤ blockSize.toNat) ∧
      (blockSize = 0 → r.retData = some data) := by
  by_cases hsize : blockSize ≠ 0
  · obtain ⟨_, hflat, hall⟩ := flush_spec hk hsize
    rw [if_pos hsize] at hret
    refine ⟨?_, fun _ => ⟨hret, by rw [hblocks]; exact hall⟩, fun h => absurd h hsize⟩
    simp only [received, hret, hblocks, hflat, hdata]
  · rw [if_neg hsize] at hret
    have hbytes : d.bytes = data := by
      rwa [DataPhase.received, (hk.memory (Classical.not_not.mp hsize)).1, List.flatten_nil,
        List.nil_append] at hdata
    rw [hbytes] at hret
    exact ⟨by simp only [received, hret], fun h => absurd h hsize, fun _ => hret⟩

/-- A handler that accepts everything accepts the last block. -/
theorem flush_accepted {handler : Handler} {blockSize : UInt32} {d : DataPhase blockSize}
    (hk : Kept handler d) (haccepts : ∀ before block, handler before block = ptpRcOk) :
    (flush handler blockSize ptpRcOk d).1 = ptpRcOk := by
  by_cases hsize : blockSize ≠ 0
  · exact (flush_spec hk hsize).1 haccepts
  · rw [flush, if_neg (fun h => hsize h.1)]

theorem readPackets_spec {R : Prop} {handler : Handler} (blockSize : UInt32) {totalLen : UInt64}
    {params : PTPParams} {data packets after : List UInt8} (pkt : PTPIPContainer)
    (haccepts : R → ∀ before block, handler before block = ptpRcOk)
    (hv : Valid params.pktBuf) (hr : R → Reliable params.transport)
    (hs : stream params = packets ++ after) (hp : PacketRun data packets)
    (htotal : data.length = totalLen.toNat)
    (hfits : R → data.length < 2 ^ 31 ∨ Trickle params) :
    (∃ r, readPackets handler blockSize totalLen params pkt = some r ∧
      Delivered R data after params.sessionId r ∧ r.totalSize = some totalLen ∧
      (blockSize ≠ 0 → r.retData = none ∧ ∀ block ∈ r.blocks, block.length ≤ blockSize.toNat) ∧
      (blockSize = 0 → r.retData = some data)) ∨
    (¬R ∧ ∀ r, readPackets handler blockSize totalLen params pkt = some r → r.ret ≠ ptpRcOk) := by
  have hfirst : Arriving R handler data after params.sessionId (firstState blockSize params pkt)
      data packets := ⟨firstState_kept handler blockSize pkt hv, hr, rfl, hfits, hp, hs, rfl, rfl⟩
  rcases phase_run totalLen hfirst haccepts htotal with ⟨s, hrun, ha⟩ | ⟨hR, hno⟩
  · rw [firstState] at hrun
    simp only [readPackets, hrun, bind, Option.bind]
    by_cases hok : (flush handler blockSize ptpRcOk s.data).1 = ptpRcOk
    · simp only [hok, ne_eq, not_true_eq_false, if_false]
      rcases ha.tail with ⟨hend, hstream⟩ | ⟨hend, bytes, hlast, hstream⟩
      · rw [hend, if_pos rfl]
        obtain ⟨hreceived, hblocks, hmemory⟩ := @flush_received _ _ _ _ ha.kept ha.data
          ⟨ptpRcOk, totalLen, (flush handler blockSize ptpRcOk s.data).2,
            if blockSize ≠ 0 then none else some s.data.bytes, s.data.params, s.headers, s.endAt⟩
          rfl rfl
        exact .inl ⟨_, rfl, ⟨rfl, hreceived, ha.kept.valid, hstream, ha.reliable, ha.session⟩,
          rfl, hblocks, hmemory⟩
      · obtain ⟨p, hread, hpok, hpspec⟩ := read_last s.pkt ha.kept.valid hlast hstream
        simp only [hend, Bool.false_eq_true, if_false, hread]
        by_cases hret : p.ret = ptpRcOk
        · obtain ⟨htype, hvalid, hrest, hreliable, hsession⟩ := hpspec hret
          obtain ⟨hreceived, hblocks, hmemory⟩ := @flush_received _ _ _ _ ha.kept ha.data
            ⟨ptpRcOk, totalLen, (flush handler blockSize ptpRcOk s.data).2,
              if blockSize ≠ 0 then none else some s.data.bytes, p.params,
              s.headers ++ [(ptpipTypeEndData, p.pkt.length)], some s.data.received.length⟩
            rfl rfl
          simp only [hret, htype, not_true_eq_false, if_false]
          exact .inl ⟨_, rfl, ⟨rfl, hreceived, hvalid, hrest, fun hR => hreliable (ha.reliable hR),
            hsession.trans ha.session⟩, rfl, hblocks, hmemory⟩
        · simp only [hret, not_false_eq_true, if_true]
          refine .inr ⟨fun hR => hret (hpok (ha.reliable hR)), fun r h => ?_⟩
          cases h
          exact hret
    · simp only [ne_eq, hok, not_false_eq_true, if_true]
      refine .inr ⟨fun hR => hok (flush_accepted ha.kept (haccepts hR)), fun r h => ?_⟩
      cases h
      exact hok
  · refine .inr ⟨hR, fun r h => ?_⟩
    rw [firstState] at hno
    simp only [readPackets, bind, Option.bind] at h
    split at h
    · cases h
    · rename_i q hrun
      have hret : q.1 ≠ ptpRcOk := by
        intro hok
        refine hno q.2 (hrun.trans ?_)
        rw [← hok]
      have hflush : flush handler blockSize q.1 q.2.data = (q.1, q.2.data.blocks) := by
        rw [flush, if_neg (fun h => hret h.2.1)]
      simp only [hflush, ne_eq, hret, not_false_eq_true, if_true] at h
      cases h
      exact hret

/-! ## The whole data phase -/

/-- A packet that is read whole. -/
structure WholeAhead (packet : List UInt8) : Prop where
  header : ptpipHeaderLen ≤ packet.length
  length : (headLength packet).toNat = packet.length
  fits : packet.length ≤ ptpipHeaderLen + ptpPacketBufferSize
  type : WholePacket (headType packet)

theorem readControl_whole {params : PTPParams} {packet rest : List UInt8} (dst : PTPIPContainer)
    (hv : Valid params.pktBuf) (h : WholeAhead packet) (hs : stream params = packet ++ rest) :
    ∃ p, ptpTcpReadControl params dst = some p ∧ (Reliable params.transport → p.ret = ptpRcOk) ∧
      (p.ret = ptpRcOk → p.pkt = blit dst 0 packet ∧ Valid p.params.pktBuf ∧
        stream p.params = rest ∧ (Reliable params.transport → Reliable p.params.transport) ∧
        p.params.sessionId = params.sessionId) := by
  have hheader := h.header
  have hfits := h.fits
  have hbuffer : ptpPacketBufferSize = 512 := rfl
  have hlen : (stream params).length = packet.length + rest.length := by
    rw [hs, List.length_append]
  obtain ⟨htype, hlength⟩ := head_append rest hheader
  rw [← hs] at htype hlength
  have hsize : (headLength (stream params)).toNat = packet.length := by
    rw [hlength, h.length]
  have hwhole : WholePacket (headType (stream params)) := by
    rw [htype]
    exact h.type
  have hnegative : ¬Negative (stream params) := fun hn => by
    have hlow := hn.2
    omega
  obtain ⟨hexists, hspec⟩ := readControl_some dst hv
  obtain ⟨p, hread⟩ := hexists (.inl fun _ => hnegative)
  refine ⟨p, hread, fun hr => (hspec p hread).2 hr
    ⟨by omega, .inl hwhole, fun hd => absurd hd (whole_not_data hwhole), fun _ _ _ => by omega⟩,
    fun hok => ?_⟩
  obtain ⟨c, hc⟩ := readControl_ok hv hread hok
  have hcut := hc.consumed
  rw [hs] at hcut
  have hclen := hc.whole hwhole (by omega) (by omega)
  obtain ⟨hpacket, hrest⟩ := List.append_inj hcut (by omega)
  exact ⟨by rw [hc.pkt, hpacket], hc.valid, hrest, hc.reliable, hc.session⟩

/-- The packet that announces the size. -/
theorem readControl_start {params : PTPParams} {n : Nat} {start rest : List UInt8}
    (dst : PTPIPContainer) (hv : Valid params.pktBuf) (h : StartData n start)
    (hs : stream params = start ++ rest) :
    ∃ p, ptpTcpReadControl params dst = some p ∧ (Reliable params.transport → p.ret = ptpRcOk) ∧
      (p.ret = ptpRcOk → p.pkt.type = ptpipTypeStartData ∧ p.pkt.dataLength.toNat = n ∧
        Valid p.params.pktBuf ∧ stream p.params = rest ∧
        (Reliable params.transport → Reliable p.params.transport) ∧
        p.params.sessionId = params.sessionId) := by
  have hsize := h.size
  have hwhole : WholeAhead start := by
    refine ⟨?_, by rw [h.length, hsize], ?_, by rw [h.type]; decide⟩ <;> rw [hsize] <;> decide
  obtain ⟨p, hread, hpok, hpspec⟩ := readControl_whole dst hv hwhole hs
  refine ⟨p, hread, hpok, fun hok => ?_⟩
  obtain ⟨hpkt, hvalid, hrest, hreliable, hsession⟩ := hpspec hok
  refine ⟨?_, ?_, hvalid, hrest, hreliable, hsession⟩
  · rw [hpkt, type_blit dst (List.prefix_refl start) hwhole.header]
    exact h.type
  · rw [hpkt, PTPIPContainer.dataLength, get64,
      dtoh32_blit dst (List.prefix_refl _) (by omega), dtoh32_blit dst (List.prefix_refl _) (by omega)]
    exact h.total

/-- The blocks that the handler was called with, or the memory. -/
structure Placed (gdparams : PTPGetdataParams) (data : List UInt8) (r : TcpGetdata) : Prop where
  blocks : gdparams.handler ≠ none → r.retData = none ∧ r.blocks.flatten = data ∧
    ∀ block ∈ r.blocks, block.length ≤ (usedBlockSize gdparams.blockSize).toNat
  memory : gdparams.handler = none → r.retData = some data

theorem getdata_run {R : Prop} {malloc : UInt64 → Bool} {params : PTPParams}
    {gdparams : PTPGetdataParams} {start data packets after : List UInt8} (pkt : PTPIPContainer)
    (hv : Valid params.pktBuf) (hr : R → Reliable params.transport)
    (hs : stream params = start ++ (packets ++ after)) (hstart : StartData data.length start)
    (hp : PacketRun data packets) (htotal : data.length < 2 ^ 64)
    (hfits : R → data.length < 2 ^ 31 ∨ Trickle params)
    (hg : R → TcpReceiver malloc gdparams data.length) :
    (∃ r, ptpTcpGetdata malloc params pkt gdparams = some r ∧
      Delivered R data after params.sessionId r ∧
      r.totalSize = some (UInt64.ofNat data.length) ∧ Placed gdparams data r) ∨
    (¬R ∧ ∀ r, ptpTcpGetdata malloc params pkt gdparams = some r → r.ret ≠ ptpRcOk) := by
  obtain ⟨p, hread, hpok, hpspec⟩ := readControl_start pkt hv hstart hs
  simp only [ptpTcpGetdata, hread, bind, Option.bind]
  by_cases hok : p.ret = ptpRcOk
  · obtain ⟨htype, hsize, hvalid, hstream, hreliable, hsession⟩ := hpspec hok
    have htotal' : p.pkt.dataLength = UInt64.ofNat data.length := by
      apply UInt64.toNat_inj.mp
      rw [hsize, UInt64.toNat_ofNat_of_lt' htotal]
    have hfits' : R → data.length < 2 ^ 31 ∨ Trickle p.params := fun hR =>
      (hfits hR).imp_right fun ht => ((readControl_some pkt hv).2 p hread).1 ht hok
    simp only [hok, htype, ne_eq, not_true_eq_false, if_false]
    rw [← hsession]
    cases hhandler : gdparams.handler with
    | some handler =>
      rcases readPackets_spec (usedBlockSize gdparams.blockSize) p.pkt
        (fun hR => (hg hR).accepts handler hhandler) hvalid (fun hR => hreliable (hr hR)) hstream hp
        hsize.symm hfits' with ⟨r, hrun, hdelivered, htotalSize, hblocks, _⟩ | hfail
      · have hpos : usedBlockSize gdparams.blockSize ≠ 0 := by
          intro hzero
          have := usedBlockSize_pos gdparams.blockSize
          rw [hzero] at this
          exact absurd this (by decide)
        obtain ⟨hnone, hall⟩ := hblocks hpos
        refine .inl ⟨r, hrun, hdelivered, by rw [htotalSize, htotal'], fun _ => ⟨hnone, ?_, hall⟩,
          fun h => by rw [hhandler] at h; cases h⟩
        have hgot := hdelivered.received
        simpa only [received, hnone] using hgot
      · exact .inr hfail
    | none =>
      by_cases hmemory : ¬gdparams.retData = true ∧ ¬malloc p.pkt.dataLength = true
      · simp only [if_pos hmemory]
        refine .inr ⟨fun hR => ?_, fun r h => ?_⟩
        · rw [htotal'] at hmemory
          exact ((hg hR).whole hhandler).elim hmemory.1 hmemory.2
        · cases h
          exact nomem_error
      · simp only [if_neg hmemory]
        rcases readPackets_spec 0 p.pkt (fun _ _ _ => rfl) hvalid (fun hR => hreliable (hr hR))
          hstream hp hsize.symm hfits' with ⟨r, hrun, hdelivered, htotalSize, _, hret⟩ | hfail
        · exact .inl ⟨r, hrun, hdelivered, by rw [htotalSize, htotal'], fun h => absurd hhandler h,
            fun _ => hret rfl⟩
        · exact .inr hfail
  · simp only [hok, ne_eq, not_false_eq_true, if_true]
    refine .inr ⟨fun hR => hok (hpok (hr hR)), fun r h => ?_⟩
    cases h
    exact hok

/-- A well-formed data phase is delivered, and nothing behind it is read. -/
theorem getdata_phase (malloc : UInt64 → Bool) (params : PTPParams) (pkt : PTPIPContainer)
    (gdparams : PTPGetdataParams) (start data packets after : List UInt8)
    (hv : Valid params.pktBuf) (hr : Reliable params.transport)
    (hs : stream params = start ++ (packets ++ after)) (hstart : StartData data.length start)
    (hp : Packets data packets) (hsmall : data.length < 2 ^ 31)
    (hg : TcpReceiver malloc gdparams data.length) :
    ∃ r, ptpTcpGetdata malloc params pkt gdparams = some r ∧ r.ret = ptpRcOk ∧
      Placed gdparams data r ∧ stream r.params = after ∧ Valid r.params.pktBuf := by
  rcases getdata_run (R := True) pkt hv (fun _ => hr) hs hstart hp.run (by omega)
    (fun _ => .inl hsmall) (fun _ => hg) with
    ⟨r, hget, hdelivered, _, hplaced⟩ | ⟨hno, _⟩
  · exact ⟨r, hget, hdelivered.ret, hplaced, hdelivered.stream, hdelivered.valid⟩
  · exact absurd trivial hno

/-- Five bytes of data in two packets; the pieces of the stream end inside the
announced size, the first payload and the second header. The response follows. -/
def tcpParams : PTPParams where
  pktBuf := ⟨fun _ => 0, 0, 0⟩
  transport := [
    .recv [20, 0, 0, 0, 9, 0, 0, 0, 1, 0, 0, 0, 5, 0],
    .recv [0, 0, 0, 0, 0, 0, 15, 0, 0, 0, 10, 0, 0, 0, 1, 0, 0, 0, 1],
    .recv [2, 3, 14, 0, 0, 0],
    .recv [12, 0, 0, 0, 1, 0, 0, 0, 4, 5, 14, 0, 0, 0, 7, 0, 0, 0, 1, 0x20, 1, 0, 0, 0]]
  sessionId := 1

theorem getdata_phase_witness :
    ∃ r, ptpTcpGetdata (fun _ => true) tcpParams (fun _ => 0)
        ⟨some (fun _ _ => ptpRcOk), 0, false⟩ = some r ∧ r.ret = ptpRcOk ∧
      Placed ⟨some (fun _ _ => ptpRcOk), 0, false⟩ [1, 2, 3, 4, 5] r ∧
      stream r.params = [14, 0, 0, 0, 7, 0, 0, 0, 1, 0x20, 1, 0, 0, 0] ∧ Valid r.params.pktBuf :=
  getdata_phase (fun _ => true) tcpParams (fun _ => 0) ⟨some (fun _ _ => ptpRcOk), 0, false⟩
    [20, 0, 0, 0, 9, 0, 0, 0, 1, 0, 0, 0, 5, 0, 0, 0, 0, 0, 0, 0] [1, 2, 3, 4, 5]
    ([15, 0, 0, 0, 10, 0, 0, 0, 1, 0, 0, 0, 1, 2, 3] ++
      [14, 0, 0, 0, 12, 0, 0, 0, 1, 0, 0, 0, 4, 5])
    [14, 0, 0, 0, 7, 0, 0, 0, 1, 0x20, 1, 0, 0, 0]
    ⟨by decide, by decide, by decide, fun _ => rfl⟩ (by decide) (by decide)
    ⟨by decide, by decide, by decide, by decide⟩
    (@Packets.more [1, 2, 3] _ [4, 5] _ ⟨by decide, by decide, by decide, by decide⟩
      (by decide) (.last ⟨by decide, by decide, by decide, by decide⟩))
    (by decide) ⟨fun handler h before block => by cases h; rfl, fun h => by cases h⟩

end PtpIpData
