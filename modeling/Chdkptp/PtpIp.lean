import Chdkptp.PtpUsb

/-!
# PTP/IP packets

A control packet is read whole, of a data packet only the header and the
transaction id: the payload follows through `ptp_tcp_read_data`. The data phase
is a START_DATA packet, which announces the size of the data, and DATA packets,
the last of which is an END_DATA packet. The container on the stack of the data
phase is not cleared before it is read into.
-/

namespace PtpIp

open ByteMemory ByteStream BoundedLoop PtpBuffer PtpUsb

/-- `PTPIP_HEADER_LEN`: length and type. -/
abbrev ptpipHeaderLen : Nat := 8

/-- `PTPIP_CMD_PAYLOAD_LEN`. -/
abbrev ptpipCmdPayloadLen : Nat := 256

abbrev ptpipTypeInitCmdAck : UInt32 := 0x2
abbrev ptpipTypeInitFail : UInt32 := 0x5
abbrev ptpipTypeResp : UInt32 := 0x7
abbrev ptpipTypeStartData : UInt32 := 0x9
abbrev ptpipTypeData : UInt32 := 0xa
abbrev ptpipTypeEndData : UInt32 := 0xC

/-! ## The container -/

/-- A 64-bit field, low word first. -/
def get64 (m : Memory) (o : Nat) : UInt64 :=
  UInt64.ofNat ((dtoh32 m o).toNat + 2 ^ 32 * (dtoh32 m (o + 4)).toNat)

/-- `PTPIPContainer` as it lies in memory. -/
abbrev PTPIPContainer := Memory

namespace PTPIPContainer

def length (pkt : PTPIPContainer) : UInt32 := dtoh32 pkt 0

def type (pkt : PTPIPContainer) : UInt32 := dtoh32 pkt 4

/-- `datactl.data_length`. -/
def dataLength (pkt : PTPIPContainer) : UInt64 := get64 pkt 12

end PTPIPContainer

/-- The return code, the container, the state. -/
structure TcpPacket where
  ret : UInt16
  pkt : PTPIPContainer
  params : PTPParams

/-- The packets that `ptp_tcp_read_control` reads whole. -/
def WholePacket (type : UInt32) : Prop :=
  type = ptpipTypeInitCmdAck ∨ type = ptpipTypeInitFail ∨ type = ptpipTypeResp ∨
    type = ptpipTypeStartData

instance (type : UInt32) : Decidable (WholePacket type) :=
  inferInstanceAs (Decidable (_ ∨ _ ∨ _ ∨ _))

/-- The packets with a payload. -/
def DataPacket (type : UInt32) : Prop := type = ptpipTypeData ∨ type = ptpipTypeEndData

instance (type : UInt32) : Decidable (DataPacket type) := inferInstanceAs (Decidable (_ ∨ _))

def ptpTcpReadControl (params : PTPParams) (dst : PTPIPContainer) : Option TcpPacket := do
  let r ← ptpControlReadBuffered params ptpipHeaderLen
  let pkt : PTPIPContainer := blit dst 0 r.bytes
  if r.ret ≠ ptpRcOk then some ⟨r.ret, pkt, r.params⟩
  else if WholePacket pkt.type then
    if pkt.length.toNat > ptpipHeaderLen then
      let more ← ptpControlReadBuffered r.params
        (toInt ((pkt.length.toNat : Int) - ptpipHeaderLen))
      some ⟨more.ret, blit pkt ptpipHeaderLen more.bytes, more.params⟩
    else some ⟨ptpRcOk, pkt, r.params⟩
  else if DataPacket pkt.type then
    -- the transaction id
    let more ← ptpControlReadBuffered r.params 4
    some ⟨more.ret, blit pkt ptpipHeaderLen more.bytes, more.params⟩
  else some ⟨ptpErrorBadparam, pkt, r.params⟩

/-! ## The data phase -/

/-- The variables of the data phase. Without a handler `block_size` is 0 and `p`
runs through the returned memory, with one it runs through a block. -/
structure DataPhase (blockSize : UInt32) where
  params : PTPParams
  /-- The blocks handed to the handler so far. -/
  blocks : List (List UInt8)
  /-- The bytes in front of `p`. -/
  bytes : List UInt8
  blockRead : UInt32
  totalRead : UInt64
  room : blockSize ≠ 0 → blockRead < blockSize

/-- `read_size` of a pass of the inner loop. -/
def readSize (blockSize blockRead pktLen pktRead : UInt32) : UInt32 :=
  if blockSize - blockRead < pktLen - pktRead then blockSize - blockRead else pktLen - pktRead

theorem readSize_spec {blockSize blockRead pktLen pktRead : UInt32} (hroom : blockRead < blockSize)
    (hleft : pktRead < pktLen) :
    0 < (readSize blockSize blockRead pktLen pktRead).toNat ∧
      (blockRead + readSize blockSize blockRead pktLen pktRead).toNat =
        blockRead.toNat + (readSize blockSize blockRead pktLen pktRead).toNat ∧
      (pktRead + readSize blockSize blockRead pktLen pktRead).toNat =
        pktRead.toNat + (readSize blockSize blockRead pktLen pktRead).toNat ∧
      blockRead.toNat + (readSize blockSize blockRead pktLen pktRead).toNat ≤ blockSize.toNat ∧
      pktRead.toNat + (readSize blockSize blockRead pktLen pktRead).toNat ≤ pktLen.toNat := by
  have hroom' := UInt32.lt_iff_toNat_lt.mp hroom
  have hleft' := UInt32.lt_iff_toNat_lt.mp hleft
  have hblock := UInt32.toNat_sub_of_le _ _ (UInt32.le_of_lt hroom)
  have hpkt := UInt32.toNat_sub_of_le _ _ (UInt32.le_of_lt hleft)
  have hb := blockSize.toNat_lt
  have hp := pktLen.toNat_lt
  unfold readSize
  split
  · rename_i hlt
    have hlt' := UInt32.lt_iff_toNat_lt.mp hlt
    rw [UInt32.toNat_add, UInt32.toNat_add, hblock]
    omega
  · rename_i hge
    have hge' := UInt32.le_iff_toNat_le.mp (UInt32.not_lt.mp hge)
    rw [UInt32.toNat_add, UInt32.toNat_add, hpkt]
    omega

theorem room_zero {blockSize : UInt32} (h : blockSize ≠ 0) : 0 < blockSize :=
  UInt32.pos_iff_ne_zero.mpr h

/-- A block that is not full yet has room. -/
theorem blockRead_lt {blockSize blockRead pktLen pktRead : UInt32} (hroom : blockRead < blockSize)
    (hleft : pktRead < pktLen)
    (hfull : blockRead + readSize blockSize blockRead pktLen pktRead ≠ blockSize) :
    blockRead + readSize blockSize blockRead pktLen pktRead < blockSize := by
  have hspec := readSize_spec hroom hleft
  apply UInt32.lt_iff_toNat_lt.mpr
  apply Nat.lt_of_le_of_ne
  · omega
  · exact fun h => hfull (UInt32.toNat_inj.mp h)

/-- `while(pkt_read < pkt_len)`: the state of the data phase and `pkt_read`. -/
def packetLoop (handler : Handler) (blockSize : UInt32) (hsize : blockSize ≠ 0) (pktLen : UInt32) :
    Loop (DataPhase blockSize × UInt32) (Option (UInt16 × DataPhase blockSize)) where
  step s :=
    if hleft : s.2 < pktLen then
      let size := readSize blockSize s.1.blockRead pktLen s.2
      match ptpTcpReadData s.1.params size with
      | none => .inr none
      | some r =>
        let bytes := s.1.bytes ++ r.bytes
        if r.ret ≠ ptpRcOk then .inr (some (r.ret, { s.1 with params := r.params, bytes := bytes }))
        else
          let totalRead := s.1.totalRead + size.toUInt64
          -- a full block goes to the handler
          if hfull : s.1.blockRead + size = blockSize then
            let d : DataPhase blockSize :=
              ⟨r.params, s.1.blocks ++ [bytes], [], 0, totalRead, room_zero⟩
            let ret := handler s.1.blocks bytes
            if ret ≠ ptpRcOk then .inr (some (ret, d)) else .inl (d, s.2 + size)
          else
            .inl (⟨r.params, s.1.blocks, bytes, s.1.blockRead + size, totalRead, fun _ =>
              blockRead_lt (s.1.room hsize) hleft hfull⟩, s.2 + size)
    else .inr (some (ptpRcOk, s.1))
  measure s := pktLen.toNat - s.2.toNat
  decreases s s' hs := by
    split at hs
    · rename_i hleft
      have hspec := readSize_spec (s.1.room hsize) hleft
      have hleft' := UInt32.lt_iff_toNat_lt.mp hleft
      have hdone : s'.2 = s.2 + readSize blockSize s.1.blockRead pktLen s.2 := by
        simp only at hs
        split at hs
        · cases hs
        · split at hs
          · cases hs
          · split at hs
            · split at hs
              · cases hs
              · cases hs
                rfl
            · cases hs
              rfl
      rw [hdone, hspec.2.2.1]
      exact Nat.sub_lt_sub_left hleft' (Nat.lt_add_of_pos_right hspec.1)
    · cases hs

/-- The payload of a packet: block by block to the handler, or to `p` at once. -/
def readPayload (handler : Handler) (blockSize : UInt32) (d : DataPhase blockSize)
    (pktLen : UInt32) : Option (UInt16 × DataPhase blockSize) :=
  if hsize : blockSize ≠ 0 then (packetLoop handler blockSize hsize pktLen).run (d, 0)
  else do
    let r ← ptpTcpReadData d.params pktLen
    let bytes := d.bytes ++ r.bytes
    if r.ret ≠ ptpRcOk then some (r.ret, { d with params := r.params, bytes := bytes })
    else some (ptpRcOk,
      { d with
        params := r.params
        bytes := bytes
        totalRead := d.totalRead + pktLen.toUInt64 })

/-- The payload that has arrived. -/
def DataPhase.received {blockSize : UInt32} (d : DataPhase blockSize) : List UInt8 :=
  d.blocks.flatten ++ d.bytes

/-! ## What is left to read -/

/-- Decreases with everything that is read. -/
def remaining (params : PTPParams) : Nat := params.pktBuf.len.toNat + work params.transport

theorem readFromBuffer_left {b b' : PTPPacketBuffer} {maxSize : Int} {got : List UInt8}
    (h : ptpTransportReadFromBuffer b maxSize = some (got, b')) :
    b'.len.toNat + got.length = b.len.toNat ∧ (got.length : Int) ≤ max maxSize 0 := by
  unfold ptpTransportReadFromBuffer at h
  split at h
  · cases h
    simp only [List.length_nil]
    omega
  · simp only at h
    generalize hlen : (if b.len > maxSize then maxSize else b.len) = len at h
    split at h
    · cases h
    · cases h
      simp only [slice_length]
      split at hlen <;> omega

theorem refillLoop_work (minSize : Int) (hmin : minSize ≤ ptpPacketBufferSize) (s : Refill) :
    ((refillLoop minSize hmin).run s).2.2.1 + work ((refillLoop minSize hmin).run s).2.2.2 ≤
      s.total + work s.transport ∨ ((refillLoop minSize hmin).run s).1 ≠ ptpRcOk := by
  refine (refillLoop minSize hmin).run_related
    (fun s r => r.2.2.1 + work r.2.2.2 ≤ s.total + work s.transport ∨ r.1 ≠ ptpRcOk) ?_ ?_ s
  · intro s r hstep
    simp only [refillLoop] at hstep
    split at hstep
    · cases hstep
      exact .inr io_error
    · rename_i bytes t hread
      split at hstep
      · cases hstep
      · cases hstep
        have := read_work hread
        left
        simp only
        omega
  · intro s s' r hstep ih
    simp only [refillLoop] at hstep
    split at hstep
    · cases hstep
    · rename_i bytes t hread
      split at hstep
      · cases hstep
        have := read_work hread
        simp only at ih
        rcases ih with ih | ih
        · exact .inl (by omega)
        · exact .inr ih
      · cases hstep

theorem readToBuffer_left {params : PTPParams} {minSize : Int}
    (h : (ptpTransportReadToBuffer params minSize).1 = ptpRcOk) :
    remaining (ptpTransportReadToBuffer params minSize).2 ≤ remaining params := by
  simp only [ptpTransportReadToBuffer] at h ⊢
  split
  · exact Nat.le_refl _
  · rename_i hgo
    rw [dif_neg hgo] at h
    simp only at h
    have hwork := refillLoop_work minSize (by omega)
      ⟨params.pktBuf.data, 0, params.transport, by decide⟩
    simp only [remaining, h, if_true]
    rcases hwork with hwork | hwork
    · simp only at hwork
      omega
    · exact absurd h hwork

/-- A control read that returns OK has read what was asked for. -/
theorem controlRead_left {params : PTPParams} {size : Int} {r : Reply}
    (h : ptpControlReadBuffered params size = some r) (hok : r.ret = ptpRcOk) :
    remaining r.params + size.toNat ≤ remaining params := by
  simp only [ptpControlReadBuffered, bind, Option.bind] at h
  split at h
  · cases h
  · rename_i q hread
    obtain ⟨got, b⟩ := q
    have hleft := readFromBuffer_left hread
    simp only at h
    split at h
    · rename_i hlt
      split at h
      · rename_i hret
        cases h
        exact absurd hok hret
      · rename_i hret
        have hret := Classical.not_not.mp hret
        have hrefill := readToBuffer_left hret
        split at h
        · cases h
        · rename_i q' hread'
          obtain ⟨more, b'⟩ := q'
          have hleft' := readFromBuffer_left hread'
          simp only at h
          split at h
          · cases h
            exact absurd hok badparam_error
          · rename_i hmore
            cases h
            simp only [remaining] at hrefill ⊢
            omega
    · rename_i hge
      cases h
      simp only [remaining]
      omega

theorem directLoop_work (limit : Int) (s : List UInt8 × Transport) :
    work ((directLoop limit).run s).2.2 ≤ work s.2 ∨ ((directLoop limit).run s).1 ≠ ptpRcOk := by
  refine (directLoop limit).run_related
    (fun s r => work r.2.2 ≤ work s.2 ∨ r.1 ≠ ptpRcOk) ?_ ?_ s
  · intro s r hstep
    simp only [directLoop] at hstep
    split at hstep
    · split at hstep
      · cases hstep
        exact .inr io_error
      · cases hstep
    · cases hstep
      exact .inl (Nat.le_refl _)
  · intro s s' r hstep ih
    simp only [directLoop] at hstep
    split at hstep
    · split at hstep
      · cases hstep
      · rename_i bytes t hread
        cases hstep
        have := read_work hread
        simp only at ih
        rcases ih with ih | ih
        · exact .inl (by omega)
        · exact .inr ih
    · cases hstep

theorem tcpRead_left {params : PTPParams} {size : UInt32} {r : Reply}
    (h : ptpTcpReadData params size = some r) (hok : r.ret = ptpRcOk) :
    remaining r.params ≤ remaining params := by
  simp only [ptpTcpReadData, bind, Option.bind] at h
  split at h
  · cases h
  · rename_i q hread
    obtain ⟨got, b⟩ := q
    have hleft := readFromBuffer_left hread
    cases h
    have hwork := directLoop_work size.toNat (got, params.transport)
    rcases hwork with hwork | hwork
    · simp only [remaining]
      simp only at hwork
      omega
    · exact absurd hok hwork

theorem readControl_left {params : PTPParams} {dst : PTPIPContainer} {p : TcpPacket}
    (h : ptpTcpReadControl params dst = some p) (hok : p.ret = ptpRcOk) :
    remaining p.params < remaining params := by
  simp only [ptpTcpReadControl, bind, Option.bind] at h
  cases hread : ptpControlReadBuffered params ptpipHeaderLen with
  | none => simp only [hread, reduceCtorEq] at h
  | some r =>
    simp only [hread] at h
    split at h
    · rename_i hret
      cases h
      exact absurd hok hret
    · rename_i hret
      have hheader : remaining r.params + 8 ≤ remaining params :=
        controlRead_left hread (Classical.not_not.mp hret)
      -- what follows the header only takes more
      have hmore : ∀ {size : Int} {r' : Reply}, ptpControlReadBuffered r.params size = some r' →
          r'.ret = ptpRcOk → remaining r'.params < remaining params := by
        intro size r' hread' hok'
        have := controlRead_left hread' hok'
        omega
      split at h
      · split at h
        · split at h
          · cases h
          · rename_i more hread'
            cases h
            exact hmore hread' hok
        · cases h
          simp only
          omega
      · split at h
        · split at h
          · cases h
          · rename_i more hread'
            cases h
            exact hmore hread' hok
        · cases h
          exact absurd hok badparam_error

theorem packetLoop_left (handler : Handler) {blockSize : UInt32} (hsize : blockSize ≠ 0)
    (pktLen : UInt32) (s : DataPhase blockSize × UInt32) (d : DataPhase blockSize)
    (h : (packetLoop handler blockSize hsize pktLen).run s = some (ptpRcOk, d)) :
    remaining d.params ≤ remaining s.1.params := by
  revert h
  refine (packetLoop handler blockSize hsize pktLen).run_related
    (fun s r => r = some (ptpRcOk, d) → remaining d.params ≤ remaining s.1.params) ?_ ?_ s
  · rintro s r hstep rfl
    simp only [packetLoop] at hstep
    split at hstep
    · split at hstep
      · cases hstep
      · split at hstep
        · rename_i hret
          simp only [Sum.inr.injEq, Option.some.injEq, Prod.mk.injEq] at hstep
          exact absurd hstep.1 hret
        · split at hstep
          · split at hstep
            · rename_i hret
              simp only [Sum.inr.injEq, Option.some.injEq, Prod.mk.injEq] at hstep
              exact absurd hstep.1 hret
            · cases hstep
          · cases hstep
    · cases hstep
      exact Nat.le_refl _
  · intro s s' r hstep ih hr
    have hrest := ih hr
    simp only [packetLoop] at hstep
    split at hstep
    · split at hstep
      · cases hstep
      · rename_i r' hread
        split at hstep
        · cases hstep
        · rename_i hret
          have hleft := tcpRead_left hread (Classical.not_not.mp hret)
          split at hstep
          · split at hstep
            · cases hstep
            · cases hstep
              exact Nat.le_trans hrest hleft
          · cases hstep
            exact Nat.le_trans hrest hleft
    · cases hstep

theorem readPayload_left {handler : Handler} {blockSize : UInt32} {d d' : DataPhase blockSize}
    {pktLen : UInt32} (h : readPayload handler blockSize d pktLen = some (ptpRcOk, d')) :
    remaining d'.params ≤ remaining d.params := by
  unfold readPayload at h
  split at h
  · rename_i hsize
    exact packetLoop_left handler hsize pktLen (d, 0) d' h
  · simp only [bind, Option.bind] at h
    cases hread : ptpTcpReadData d.params pktLen with
    | none => simp only [hread, reduceCtorEq] at h
    | some r =>
      simp only [hread] at h
      split at h
      · rename_i hret
        simp only [Option.some.injEq, Prod.mk.injEq] at h
        exact absurd h.1 hret
      · rename_i hret
        cases h
        exact tcpRead_left hread (Classical.not_not.mp hret)

/-! ## The packets of the phase -/

/-- The variables of the packet loop; `headers` and `endAt` are kept for the
statements only: type and length of the packets read, and the size of the payload
with the first END_DATA packet. -/
structure PhaseState (blockSize : UInt32) where
  pkt : PTPIPContainer
  gotEnd : Bool
  data : DataPhase blockSize
  headers : List (UInt32 × UInt32)
  endAt : Option Nat

/-- `do … while(total_read < total_len)`. -/
def phaseLoop (handler : Handler) (blockSize : UInt32) (totalLen : UInt64) :
    Loop (PhaseState blockSize) (Option (UInt16 × PhaseState blockSize)) where
  step s :=
    match ptpTcpReadControl s.data.params s.pkt with
    | none => .inr none
    | some p =>
      let data := { s.data with params := p.params }
      if p.ret ≠ ptpRcOk then .inr (some (p.ret, { s with pkt := p.pkt, data := data }))
      else
        let headers := s.headers ++ [(p.pkt.type, p.pkt.length)]
        let s' := { s with pkt := p.pkt, data := data, headers := headers }
        if ¬DataPacket p.pkt.type then .inr (some (ptpErrorDataExpected, s'))
        else
          let isEnd := decide (p.pkt.type = ptpipTypeEndData)
          match readPayload handler blockSize data (p.pkt.length - 12) with
          | none => .inr none
          | some (ret, d) =>
            let s'' : PhaseState blockSize :=
              ⟨p.pkt, s.gotEnd || isEnd, d, headers,
                if isEnd && !s.gotEnd then some d.received.length else s.endAt⟩
            if ret ≠ ptpRcOk then .inr (some (ret, s''))
            else if d.totalRead < totalLen then .inl s''
            else .inr (some (ptpRcOk, s''))
  measure s := remaining s.data.params
  decreases s s' hs := by
    split at hs
    · cases hs
    · rename_i p hread
      split at hs
      · cases hs
      · rename_i hret
        have hcontrol := readControl_left hread (Classical.not_not.mp hret)
        split at hs
        · cases hs
        · simp only at hs
          split at hs
          · cases hs
          · rename_i ret d hpayload
            split at hs
            · cases hs
            · rename_i hok
              rw [Classical.not_not.mp hok] at hpayload
              have hleft := readPayload_left hpayload
              split at hs
              · cases hs
                exact Nat.lt_of_le_of_lt hleft hcontrol
              · cases hs

/-- The return code, `total_size` if it has been set, the data that the handler
or `ret_data` got, the state; then `headers` and `endAt`. -/
structure TcpGetdata where
  ret : UInt16
  totalSize : Option UInt64
  blocks : List (List UInt8)
  retData : Option (List UInt8)
  params : PTPParams
  headers : List (UInt32 × UInt32)
  endAt : Option Nat

/-- The last, partial block goes to the handler. -/
def flush (handler : Handler) (blockSize : UInt32) (ret : UInt16) (d : DataPhase blockSize) :
    UInt16 × List (List UInt8) :=
  if blockSize ≠ 0 ∧ ret = ptpRcOk ∧ d.blockRead ≠ 0 then
    (handler d.blocks d.bytes, d.blocks ++ [d.bytes])
  else (ret, d.blocks)

/-- The packets after START_DATA. -/
def readPackets (handler : Handler) (blockSize : UInt32) (totalLen : UInt64) (params : PTPParams)
    (pkt : PTPIPContainer) : Option TcpGetdata := do
  let (ret, s) ← (phaseLoop handler blockSize totalLen).run
    ⟨pkt, false, ⟨params, [], [], 0, 0, room_zero⟩, [], none⟩
  let (ret, blocks) := flush handler blockSize ret s.data
  let retData := if blockSize ≠ 0 then none else some s.data.bytes
  if ret ≠ ptpRcOk then
    some ⟨ret, totalLen, blocks, retData, s.data.params, s.headers, s.endAt⟩
  else if s.gotEnd then
    some ⟨ptpRcOk, totalLen, blocks, retData, s.data.params, s.headers, s.endAt⟩
  else
    let p ← ptpTcpReadControl s.data.params s.pkt
    if p.ret ≠ ptpRcOk then some ⟨p.ret, totalLen, blocks, retData, p.params, s.headers, s.endAt⟩
    else
      let headers := s.headers ++ [(p.pkt.type, p.pkt.length)]
      if p.pkt.type ≠ ptpipTypeEndData then
        some ⟨ptpErrorDataExpected, totalLen, blocks, retData, p.params, headers, s.endAt⟩
      else
        some ⟨ptpRcOk, totalLen, blocks, retData, p.params, headers, some s.data.received.length⟩

/-- A block that `malloc` does not give is not noticed, so blocks are taken to be given. -/
def ptpTcpGetdata (malloc : UInt64 → Bool) (params : PTPParams) (pkt : PTPIPContainer)
    (gdparams : PTPGetdataParams) : Option TcpGetdata := do
  let p ← ptpTcpReadControl params pkt
  if p.ret ≠ ptpRcOk then some ⟨p.ret, none, [], none, p.params, [], none⟩
  else if p.pkt.type ≠ ptpipTypeStartData then
    some ⟨ptpErrorDataExpected, none, [], none, p.params, [], none⟩
  else
    let totalLen := p.pkt.dataLength
    match gdparams.handler with
    | some handler =>
      readPackets handler (usedBlockSize gdparams.blockSize) totalLen p.params p.pkt
    | none =>
      if ¬gdparams.retData ∧ ¬malloc totalLen then
        some ⟨ptpErrorNomem, none, [], none, p.params, [], none⟩
      else readPackets (fun _ _ => ptpRcOk) 0 totalLen p.params p.pkt

end PtpIp
