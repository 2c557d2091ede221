import Chdkptp.PtpTransaction
import Mathlib.Data.Nat.Prime.Basic

/-!
# The data phase to the camera

What the functions that send data return when some of their writes fail, and which
transaction id the packets of PTP/IP carry.
-/

namespace PtpDataOut

open ByteMemory ByteStream PtpBuffer PtpUsb PtpIp PtpIpRead PtpIpData PtpSend PtpTransaction

/-! ## The status -/

/-- What the `i`-th write is going to return. -/
def writeResult (l : Sender) (i : Nat) : Int := l.results.getD i (-1)

/-- The four writes of `ptp_tcp_senddata`: the START_DATA packet, the header of the DATA
packet, the payload, the END_DATA packet. -/
def TcpWritesSucceed (l : Sender) : Prop := ∀ i < 4, writeResult l i ≠ socketError

/-- The packets would end with a full one. -/
def EmptyPacketDue (maxPacketSize size : UInt32) : Prop := (12 + size) &&& (maxPacketSize - 1) = 0

instance (maxPacketSize size : UInt32) : Decidable (EmptyPacketDue maxPacketSize size) :=
  inferInstanceAs (Decidable (_ = _))

/-- The writes of `ptp_usb_senddata` before the empty packet. -/
def usbDataWrites (size : UInt32) : Nat := if size.toNat > ptpUsbBulkPayloadLen then 2 else 1

def usbWrites (maxPacketSize size : UInt32) : Nat :=
  usbDataWrites size + if EmptyPacketDue maxPacketSize size then 1 else 0

def UsbWritesSucceed (maxPacketSize : UInt32) (l : Sender) (size : UInt32) : Prop :=
  ∀ i < usbWrites maxPacketSize size, 0 ≤ writeResult l i

theorem headD_tail (l : List Int) : l.headD (-1) = l.getD 0 (-1) ∧
    l.tail.headD (-1) = l.getD 1 (-1) ∧ l.tail.tail.tail.headD (-1) = l.getD 3 (-1) := by
  match l with
  | [] => exact ⟨rfl, rfl, rfl⟩
  | [_] => exact ⟨rfl, rfl, rfl⟩
  | [_, _] => exact ⟨rfl, rfl, rfl⟩
  | [_, _, _] => exact ⟨rfl, rfl, rfl⟩
  | _ :: _ :: _ :: _ :: _ => exact ⟨rfl, rfl, rfl⟩

theorem tcpSenddata_ok_iff (l : Sender) (ptp : PTPContainer) (data : Memory) (size : UInt32) :
    (ptpTcpSenddata l ptp data size).1 = ptpRcOk ↔ writeResult l 3 ≠ socketError := by
  rw [tcpSenddata_eq, (headD_tail l.results).2.2, writeResult]
  by_cases herror : l.results.getD 3 (-1) = socketError
  · simp only [herror, if_true, io_error, ne_eq, not_true_eq_false]
  · simp only [herror, if_false, ne_eq, not_false_eq_true]

theorem usbFails_iff (l : Sender) (size : UInt32) :
    UsbFails l.results size ↔ ∃ i < usbDataWrites size, writeResult l i < 0 := by
  obtain ⟨hfirst, hsecond, -⟩ := headD_tail l.results
  rw [UsbFails, hfirst, hsecond, usbDataWrites]
  constructor
  · rintro (hneg | ⟨hlong, hneg⟩)
    · refine ⟨0, ?_, hneg⟩
      split <;> decide
    · exact ⟨1, by rw [if_pos hlong]; decide, hneg⟩
  · rintro ⟨i, hi, hneg⟩
    split at hi
    · rename_i hlong
      obtain rfl | rfl : i = 0 ∨ i = 1 := by omega
      · exact .inl hneg
      · exact .inr ⟨hlong, hneg⟩
    · obtain rfl : i = 0 := by omega
      exact .inl hneg

theorem usbSenddata_ok_iff (maxPacketSize : UInt32) (l : Sender) (ptp : PTPContainer)
    (data : Memory) (size : UInt32) :
    (ptpUsbSenddata maxPacketSize l ptp data size).1 = ptpRcOk ↔
      ∀ i < usbDataWrites size, 0 ≤ writeResult l i := by
  obtain ⟨hfails, hok⟩ := usbSenddata_spec maxPacketSize l ptp data size
  rw [usbFails_iff] at hfails hok
  by_cases hall : ∀ i < usbDataWrites size, 0 ≤ writeResult l i
  · have hnone : ¬∃ i < usbDataWrites size, writeResult l i < 0 := by
      rintro ⟨i, hi, hneg⟩
      have := hall i hi
      omega
    exact ⟨fun _ => hall, fun _ => (hok hnone).1⟩
  · have hsome : ∃ i < usbDataWrites size, writeResult l i < 0 := by
      simpa only [not_forall, Int.not_le, exists_prop] using hall
    exact ⟨fun h => absurd h (hfails hsome), fun h => absurd h hall⟩

/-- The status tells of every failed write exactly where the last write of PTP/IP fails
or the others succeed, and where no empty packet of USB fails alone. -/
theorem senddata_status_iff (maxPacketSize : UInt32) (l : Sender) (ptp : PTPContainer)
    (data : Memory) (size : UInt32) :
    (((ptpTcpSenddata l ptp data size).1 = ptpRcOk ↔ TcpWritesSucceed l) ↔
      writeResult l 3 = socketError ∨ ∀ i < 3, writeResult l i ≠ socketError) ∧
    (((ptpUsbSenddata maxPacketSize l ptp data size).1 = ptpRcOk ↔
        UsbWritesSucceed maxPacketSize l size) ↔
      ¬EmptyPacketDue maxPacketSize size ∨ (∃ i < usbDataWrites size, writeResult l i < 0) ∨
        0 ≤ writeResult l (usbDataWrites size)) := by
  refine ⟨?_, ?_⟩
  · rw [tcpSenddata_ok_iff, TcpWritesSucceed]
    constructor
    · intro h
      by_cases hlast : writeResult l 3 = socketError
      · exact .inl hlast
      · exact .inr fun i hi => h.mp hlast i (by omega)
    · rintro (hlast | hothers)
      · exact ⟨fun h => absurd hlast h, fun h => h 3 (by decide)⟩
      · refine ⟨fun hlast i hi => ?_, fun h => h 3 (by decide)⟩
        by_cases hi3 : i = 3
        · rwa [hi3]
        · exact hothers i (by omega)
  · rw [usbSenddata_ok_iff, UsbWritesSucceed, usbWrites]
    by_cases hdue : EmptyPacketDue maxPacketSize size
    · rw [if_pos hdue]
      constructor
      · intro h
        by_cases hall : ∀ i < usbDataWrites size, 0 ≤ writeResult l i
        · exact .inr (.inr (h.mp hall _ (Nat.lt_succ_self _)))
        · simp only [not_forall, Int.not_le, exists_prop] at hall
          exact .inr (.inl hall)
      · rintro (hnot | ⟨i, hi, hneg⟩ | hempty)
        · exact absurd hdue hnot
        · refine ⟨fun h => ?_, fun h i hi => h i (by omega)⟩
          have := h i hi
          omega
        · refine ⟨fun h i hi => ?_, fun h i hi => h i (by omega)⟩
          by_cases hlast : i = usbDataWrites size
          · rwa [hlast]
          · exact h i (by omega)
    · rw [if_neg hdue, Nat.add_zero]
      exact ⟨fun _ => .inl hdue, fun _ => Iff.rfl⟩

/-- START_DATA does not get out; the empty packet after 52 bytes does not either. -/
theorem failed_writes_unreported :
    (ptpTcpSenddata ⟨[-1, 12, 1, 12], []⟩ operation (fun _ => 7) 1).1 = ptpRcOk ∧
      ¬TcpWritesSucceed ⟨[-1, 12, 1, 12], []⟩ ∧
      (ptpUsbSenddata 64 ⟨[64, -1], []⟩ operation (fun _ => 7) 52).1 = ptpRcOk ∧
      ¬UsbWritesSucceed 64 ⟨[64, -1], []⟩ 52 := by
  refine ⟨by decide, fun h => ?_, by decide, fun h => ?_⟩
  · exact h 0 (by decide) rfl
  · exact absurd (h 1 (by decide)) (by decide)

/-! ## The transaction id -/

/-- The packet that `ptp_tcp_sendreq` writes. -/
def requestPacket (ptp : PTPContainer) : List UInt8 :=
  slice (putParams (put32 (put16 (put32 (put32 (fun _ => 0) 0
    (UInt32.ofNat (tcpRequestLength ptp.nparam))) 4 ptpipTypeReq) 12 ptp.code) 14 ptp.transactionId)
    18 ptp) 0 (tcpRequestLength ptp.nparam)

theorem ptpTcpSendreq_eq (l : Sender) (ptp : PTPContainer) :
    ptpTcpSendreq l ptp = checked (ptpTcpWriteFunc l (requestPacket ptp)) := rfl

/-- The DATA packet: its header is one write and the payload another. -/
def dataPacket (data : Memory) (size : UInt32) : List UInt8 :=
  slice (datactl (12 + size) ptpipTypeData 0) 0 12 ++ slice data 0 size.toNat

/-- What a transaction with a data phase to the camera emits: the data phase is only
begun when the request could be written, and then it goes on to its end. -/
def emitted (l : Sender) (ptp : PTPContainer) (data : Memory) (size : UInt32) :
    List (List UInt8) :=
  requestPacket ptp ::
    if writeResult l 0 = socketError then []
    else [slice (startData ptp.transactionId size.toUInt64) 0 20, dataPacket data size,
      slice (datactl 12 ptpipTypeEndData ptp.transactionId) 0 12]

/-- The writes that these packets are given to. -/
def emittedPieces (l : Sender) (ptp : PTPContainer) (data : Memory) (size : UInt32) :
    List (List UInt8) :=
  requestPacket ptp ::
    if writeResult l 0 = socketError then [] else tcpPieces ptp.transactionId data size

theorem emitted_flatten (l : Sender) (ptp : PTPContainer) (data : Memory) (size : UInt32) :
    (emitted l ptp data size).flatten = (emittedPieces l ptp data size).flatten := by
  rw [emitted, emittedPieces]
  split
  · rfl
  · simp [tcpPieces, dataPacket]

/-- The request of a transaction. -/
def numbered (c : Connection) (ptp : PTPContainer) : PTPContainer :=
  { ptp with transactionId := c.transactionId, sessionId := c.params.sessionId }

theorem respond_keeps {bus : Bus} {c : Connection} {ptp : PTPContainer}
    {retData : Option (List UInt8)} {t : Transacted} (h : respond bus c ptp retData = some t) :
    t.id = ptp.transactionId ∧ t.conn.sender = c.sender := by
  obtain ⟨q, -, hq⟩ := Option.bind_eq_some_iff.mp h
  cases hq
  exact ⟨rfl, rfl⟩

/-- The camera gets these packets, as far as the writes take them. -/
theorem transaction_emits {host : Host} {c : Connection} {ptp : PTPContainer} {data : Memory}
    {size : UInt32} {t : Transacted}
    (h : ptpTransaction .tcp host c ptp (.sendData data size) = some t) :
    t.id = c.transactionId ∧ t.conn.sender.peer = c.sender.peer ++
      accepted c.sender.results (emittedPieces c.sender (numbered c ptp) data size) := by
  obtain ⟨hfirst, -, -⟩ := headD_tail c.sender.results
  simp only [ptpTransaction, transact, sendreqFunc, ptpTcpSendreq_eq, checked, tcpWrite_eq, hfirst] at h
  rw [emittedPieces, accepted, hfirst, writeResult]
  by_cases herror : c.sender.results.getD 0 (-1) = socketError
  · simp only [herror, if_true, io_error, ne_eq, not_false_eq_true, Option.some.injEq] at h
    subst h
    rw [if_pos herror, herror]
    exact ⟨rfl, rfl⟩
  · simp only [herror, if_false, ne_eq, not_true_eq_false, senddataFunc, tcpSenddata_eq] at h
    rw [if_neg herror, ← List.append_assoc]
    split at h
    · cases h
      exact ⟨rfl, rfl⟩
    · obtain ⟨hid, hsender⟩ := respond_keeps h
      rw [hsender]
      exact ⟨hid, rfl⟩

/-- The transaction id of a packet of the host: behind the header, in a request behind the
data phase and the code. -/
def packetTransId (p : List UInt8) : UInt32 :=
  if headType p = ptpipTypeReq then dtoh32 (container p) 14 else dtoh32 (container p) 8

theorem dtoh32_slice_append (m : Memory) (rest : List UInt8) {o n : Nat} (h : o + 4 ≤ n) :
    dtoh32 (container (slice m 0 n ++ rest)) o = dtoh32 m o := by
  rw [← dtoh32_slice m h]
  apply dtoh32_congr
  intro i hi
  have hlt : o + i < (slice m 0 n).length := by
    rw [slice_length]
    omega
  exact (blit_within (fun _ => 0) (List.prefix_append _ rest) hlt).symm

theorem dtoh32_put16_other (m : Memory) {o o' : Nat} (v : UInt16) (h : o' + 4 ≤ o ∨ o + 2 ≤ o') :
    dtoh32 (put16 m o v) o' = dtoh32 m o' := by
  apply dtoh32_congr
  intro i hi
  rw [put16, blit_outside]
  simp only [List.length_cons, List.length_nil]
  omega

theorem dtoh32_putParams_before (m : Memory) {o o' : Nat} (ptp : PTPContainer) (h : o' + 4 ≤ o) :
    dtoh32 (putParams m o ptp) o' = dtoh32 m o' := by
  rw [putParams, dtoh32_put32_other _ _ (by omega), dtoh32_put32_other _ _ (by omega),
    dtoh32_put32_other _ _ (by omega), dtoh32_put32_other _ _ (by omega),
    dtoh32_put32_other _ _ (by omega)]

theorem request_transId (ptp : PTPContainer) :
    packetTransId (requestPacket ptp) = ptp.transactionId := by
  have hlength : 18 ≤ tcpRequestLength ptp.nparam := by
    rw [tcpRequestLength]
    omega
  have htype : headType (requestPacket ptp) = ptpipTypeReq := by
    rw [headType, PTPIPContainer.type, requestPacket, dtoh32_slice _ (by omega),
      dtoh32_putParams_before _ _ (by omega), dtoh32_put32_other _ _ (by omega),
      dtoh32_put16_other _ _ (by omega), dtoh32_put32]
  rw [packetTransId, if_pos htype, requestPacket, dtoh32_slice _ (by omega),
    dtoh32_putParams_before _ _ (by omega), dtoh32_put32]

/-- A packet of the data phase has its id where the header ends. -/
theorem datactl_transId {length type transId : UInt32} (rest : List UInt8)
    (htype : type ≠ ptpipTypeReq) :
    packetTransId (slice (datactl length type transId) 0 12 ++ rest) = transId := by
  have hhead : headType (slice (datactl length type transId) 0 12 ++ rest) = type := by
    rw [headType, PTPIPContainer.type, dtoh32_slice_append _ _ (by decide),
      (datactl_fields length type transId).2]
  rw [packetTransId, hhead, if_neg htype, dtoh32_slice_append _ _ (by decide), datactl, dtoh32_put32]

theorem startData_transId (transId : UInt32) (total : UInt64) :
    packetTransId (slice (startData transId total) 0 20) = transId := by
  have hhead : headType (slice (startData transId total) 0 20) = ptpipTypeStartData := by
    rw [headType, PTPIPContainer.type, dtoh32_slice _ (by decide), (startData_fields transId total).2.1]
  rw [packetTransId, hhead, if_neg (by decide), dtoh32_slice _ (by decide), startData, put64,
    dtoh32_put32_other _ _ (by omega), dtoh32_put32_other _ _ (by omega), datactl, dtoh32_put32]

/-- All packets that a transaction emits carry its id exactly when it ends with the request
or its id is the 0 that the DATA packet has. -/
theorem emitted_transId_iff (host : Host) (c : Connection) (ptp : PTPContainer) (data : Memory)
    (size : UInt32) (t : Transacted)
    (h : ptpTransaction .tcp host c ptp (.sendData data size) = some t) :
    t.conn.sender.peer = c.sender.peer ++
        accepted c.sender.results (emittedPieces c.sender (numbered c ptp) data size) ∧
      (emitted c.sender (numbered c ptp) data size).flatten =
        (emittedPieces c.sender (numbered c ptp) data size).flatten ∧
      ((∀ p ∈ emitted c.sender (numbered c ptp) data size, packetTransId p = t.id) ↔
        writeResult c.sender 0 = socketError ∨ c.transactionId = 0) := by
  obtain ⟨hid, hpeer⟩ := transaction_emits h
  refine ⟨hpeer, emitted_flatten _ _ _ _, ?_⟩
  have hrequest : packetTransId (requestPacket (numbered c ptp)) = c.transactionId :=
    request_transId _
  rw [hid, emitted]
  by_cases herror : writeResult c.sender 0 = socketError
  · simp [herror, hrequest]
  · have hstart := startData_transId (numbered c ptp).transactionId size.toUInt64
    have hdata : packetTransId (dataPacket data size) = 0 := datactl_transId _ (by decide)
    have hend : packetTransId (slice (datactl 12 ptpipTypeEndData (numbered c ptp).transactionId) 0 12) =
        (numbered c ptp).transactionId := by
      rw [← List.append_nil (slice _ 0 12)]
      exact datactl_transId [] (by decide)
    rw [if_neg herror, or_iff_right herror]
    simp only [List.forall_mem_cons, hrequest, hstart, hdata, hend]
    simp [numbered, eq_comm]

/-- A camera that takes everything and answers request 1 with OK. -/
def sendingConnection : Connection where
  params := ⟨⟨fun _ => 0, 0, 0⟩, [.recv [14, 0, 0, 0, 7, 0, 0, 0, 1, 0x20, 1, 0, 0, 0]], 1⟩
  transactionId := 1
  sender := ⟨[18, 20, 12, 1, 12], []⟩
  maxPacketSize := 512

theorem sending_succeeds : ∃ t, ptpTransaction .tcp roomyHost sendingConnection operation
    (.sendData (fun _ => 7) 1) = some t ∧ t.id = 1 := by
  have hrun : (ptpTransaction .tcp roomyHost sendingConnection operation
      (.sendData (fun _ => 7) 1)).map (fun t => t.id) = some 1 := by
    decide +kernel
  exact Option.map_eq_some_iff.mp hrun

theorem data_packet_unnumbered : ∃ t, ptpTransaction .tcp roomyHost sendingConnection operation
      (.sendData (fun _ => 7) 1) = some t ∧ t.id = 1 ∧
    dataPacket (fun _ => 7) 1 ∈
      emitted sendingConnection.sender (numbered sendingConnection operation) (fun _ => 7) 1 ∧
    packetTransId (dataPacket (fun _ => 7) 1) = 0 := by
  obtain ⟨t, ht, hid⟩ := sending_succeeds
  exact ⟨t, ht, hid, by decide, by decide⟩

theorem emitted_transId_witness : ∃ t, ptpTransaction .tcp roomyHost sendingConnection operation
      (.sendData (fun _ => 7) 1) = some t ∧
    ((∀ p ∈ emitted sendingConnection.sender (numbered sendingConnection operation) (fun _ => 7) 1,
        packetTransId p = t.id) ↔
      writeResult sendingConnection.sender 0 = socketError ∨ sendingConnection.transactionId = 0) := by
  obtain ⟨t, ht, -⟩ := sending_succeeds
  exact ⟨t, ht, (emitted_transId_iff roomyHost sendingConnection operation (fun _ => 7) 1 t ht).2.2⟩

/-! ## The transfer on the pipe

The writes of `ptp_usb_senddata` as the calls it makes: a USB transfer is over when a
packet is short, so their lengths matter and not the bytes alone. -/

/-- A call of `write_func`. -/
structure WriteCall where
  bytes : List UInt8
  ret : UInt16

section

variable {σ : Type} (write : σ → List UInt8 → UInt16 × σ)

/-- `write_func` with a record of its calls. -/
def recordWrite (s : σ × List WriteCall) (bytes : List UInt8) : UInt16 × (σ × List WriteCall) :=
  let r := write s.1 bytes
  (r.1, r.2, s.2 ++ [⟨bytes, r.1⟩])

/-- `ptp_usb_senddata` with the `write_func` of its parameters. -/
def usbSenddataVia (maxPacketSize : UInt32) (s : σ) (ptp : PTPContainer) (data : Memory)
    (size : UInt32) : UInt16 × σ :=
  let (ret, s) := write s (firstPart ptp data size)
  if ret ≠ ptpRcOk then (ptpErrorIo, s)
  else if size.toNat > ptpUsbBulkPayloadLen then
    let (ret, s) := write s (secondPart data size)
    if ret ≠ ptpRcOk then (ptpErrorIo, s)
    else (ret, if EmptyPacketDue maxPacketSize size then (write s []).2 else s)
  else (ret, if EmptyPacketDue maxPacketSize size then (write s []).2 else s)

end

theorem ptpUsbSenddata_via (maxPacketSize : UInt32) (l : Sender) (ptp : PTPContainer)
    (data : Memory) (size : UInt32) : ptpUsbSenddata maxPacketSize l ptp data size =
      usbSenddataVia ptpUsbWriteFunc maxPacketSize l ptp data size := rfl

/-- The calls that `ptp_usb_senddata` makes, in order. -/
def usbCalls (maxPacketSize : UInt32) (l : Sender) (ptp : PTPContainer) (data : Memory)
    (size : UInt32) : List WriteCall :=
  (usbSenddataVia (recordWrite ptpUsbWriteFunc) maxPacketSize (l, []) ptp data size).2.2

/-- A transfer of a header and data in packets of a given size, as a list of writes. -/
structure Transfer (maxPacketSize : Nat) (ptp : PTPContainer) (data : List UInt8)
    (writes : List (List UInt8)) : Prop where
  bytes : ∃ header, writes.flatten = header ++ data ∧ DataHeader ptp.code data.length header ∧
    (container header).transId = ptp.transactionId
  whole : ∀ before w after, writes = before ++ w :: after → (∃ v ∈ after, v ≠ []) →
    maxPacketSize ∣ w.length
  ending : ∃ sent, (∀ w ∈ sent, w ≠ []) ∧
    writes = sent ++ if maxPacketSize ∣ ptpUsbBulkHdrLen + data.length then [[]] else []

/-- The mask of a packet size that divides 512 is the remainder. -/
theorem emptyPacketDue_iff {maxPacketSize size : UInt32} (hsize : 12 + size.toNat < 2 ^ 32)
    (hmax : maxPacketSize.toNat ∣ 512) :
    EmptyPacketDue maxPacketSize size ↔ maxPacketSize.toNat ∣ 12 + size.toNat := by
  have hnine : maxPacketSize.toNat ∣ 2 ^ 9 := hmax
  obtain ⟨k, hk, hpow⟩ := (Nat.dvd_prime_pow Nat.prime_two).mp hnine
  have hpos : 1 ≤ maxPacketSize.toNat := by
    rw [hpow]
    exact Nat.one_le_two_pow
  have hone : (1 : UInt32) ≤ maxPacketSize := UInt32.le_iff_toNat_le.mpr hpos
  have htotal : (12 + size).toNat = 12 + size.toNat := by
    rw [UInt32.toNat_add]
    exact Nat.mod_eq_of_lt hsize
  rw [EmptyPacketDue, ← UInt32.toNat_inj, UInt32.toNat_and, UInt32.toNat_sub_of_le _ _ hone, htotal,
    hpow, UInt32.toNat_one, Nat.and_two_pow_sub_one_eq_mod, UInt32.toNat_zero]
  exact (Nat.dvd_iff_mod_eq_zero).symm

/-! ### The fields of the header -/

theorem container_slice (m : Memory) {o n : Nat} (h : o < n) : container (slice m 0 n) o = m o := by
  have hlt : o < (slice m 0 n).length := by rwa [slice_length]
  have hinside := blit_inside (fun _ => 0) 0 (slice m 0 n) o hlt
  rw [Nat.zero_add] at hinside
  rw [container, hinside, List.getD_eq_getElem?_getD, List.getElem?_eq_getElem hlt,
    Option.getD_some]
  simp [slice]

theorem dtoh16_slice (m : Memory) {o n : Nat} (h : o + 2 ≤ n) :
    dtoh16 (container (slice m 0 n)) o = dtoh16 m o := by
  rw [dtoh16, dtoh16, container_slice _ (by omega), container_slice _ (by omega)]

theorem dtoh16_put16 (m : Memory) (o : Nat) (v : UInt16) : dtoh16 (put16 m o v) o = v := by
  have h0 : put16 m o v o = UInt8.ofNat v.toNat :=
    blit_inside m o [UInt8.ofNat v.toNat, UInt8.ofNat (v.toNat / 2 ^ 8)] 0 Nat.zero_lt_two
  have h1 : put16 m o v (o + 1) = UInt8.ofNat (v.toNat / 2 ^ 8) :=
    blit_inside m o [UInt8.ofNat v.toNat, UInt8.ofNat (v.toNat / 2 ^ 8)] 1 Nat.one_lt_two
  have hv := v.toNat_lt
  apply UInt16.toNat_inj.mp
  rw [dtoh16, h0, h1]
  simp only [UInt8.toNat_ofNat', UInt16.toNat_ofNat']
  omega

theorem dtoh16_put32_other (m : Memory) {o o' : Nat} (v : UInt32) (h : o' + 2 ≤ o ∨ o + 4 ≤ o') :
    dtoh16 (put32 m o v) o' = dtoh16 m o' := by
  have hlen : [UInt8.ofNat v.toNat, UInt8.ofNat (v.toNat / 2 ^ 8), UInt8.ofNat (v.toNat / 2 ^ 16),
    UInt8.ofNat (v.toNat / 2 ^ 24)].length = 4 := rfl
  rw [dtoh16, dtoh16, put32, blit_outside _ _ _ _ (by omega), blit_outside _ _ _ _ (by omega)]

theorem dtoh16_put16_other (m : Memory) {o o' : Nat} (v : UInt16) (h : o' + 2 ≤ o ∨ o + 2 ≤ o') :
    dtoh16 (put16 m o v) o' = dtoh16 m o' := by
  have hlen : [UInt8.ofNat v.toNat, UInt8.ofNat (v.toNat / 2 ^ 8)].length = 2 := rfl
  rw [dtoh16, dtoh16, put16, blit_outside _ _ _ _ (by omega), blit_outside _ _ _ _ (by omega)]

/-- The header carries the length of the whole transfer. -/
theorem dataHeader_fields (code : UInt16) (transId size : UInt32) {n : Nat} (hn : n = size.toNat)
    (hsize : 12 + size.toNat < 2 ^ 32) :
    DataHeader code n (slice (dataHeader code transId size) 0 ptpUsbBulkHdrLen) ∧
      (container (slice (dataHeader code transId size) 0 ptpUsbBulkHdrLen)).transId = transId := by
  subst hn
  refine ⟨⟨slice_length _ _ _, ?_, ?_, ?_⟩, ?_⟩
  · rw [PTPUSBBulkContainer.length, dtoh32_slice _ (by decide), dataHeader,
      dtoh32_put32_other _ _ (by omega), dtoh32_put16_other _ _ (by omega),
      dtoh32_put16_other _ _ (by omega), dtoh32_put32, UInt32.toNat_add]
    exact Nat.mod_eq_of_lt hsize
  · rw [PTPUSBBulkContainer.type, dtoh16_slice _ (by decide), dataHeader,
      dtoh16_put32_other _ _ (by omega), dtoh16_put16_other _ _ (by omega), dtoh16_put16]
  · rw [PTPUSBBulkContainer.code, dtoh16_slice _ (by decide), dataHeader,
      dtoh16_put32_other _ _ (by omega), dtoh16_put16]
  · rw [PTPUSBBulkContainer.transId, dtoh32_slice _ (by decide), dataHeader, dtoh32_put32]

/-! ### The writes -/

theorem firstPart_eq (ptp : PTPContainer) (data : Memory) (size : UInt32) :
    firstPart ptp data size =
      slice (dataHeader ptp.code ptp.transactionId size) 0 ptpUsbBulkHdrLen ++
        slice data 0 (min size.toNat ptpUsbBulkPayloadLen) := by
  have h := slice_blit_extend (dataHeader ptp.code ptp.transactionId size) 0 ptpUsbBulkHdrLen
    (slice data 0 (min size.toNat ptpUsbBulkPayloadLen))
  rw [Nat.zero_add, slice_length] at h
  exact h

theorem firstPart_length (ptp : PTPContainer) (data : Memory) (size : UInt32) :
    (firstPart ptp data size).length = ptpUsbBulkHdrLen + min size.toNat ptpUsbBulkPayloadLen :=
  slice_length _ _ _

theorem usbPieces_flatten (ptp : PTPContainer) (data : Memory) (size : UInt32) :
    (usbPieces ptp data size).flatten =
      slice (dataHeader ptp.code ptp.transactionId size) 0 ptpUsbBulkHdrLen ++
        slice data 0 size.toNat := by
  rw [usbPieces, List.flatten_cons, firstPart_eq, List.append_assoc]
  congr 1
  by_cases hlong : size.toNat > ptpUsbBulkPayloadLen
  · have hsum : size.toNat = ptpUsbBulkPayloadLen + (size.toNat - ptpUsbBulkPayloadLen) := by omega
    rw [if_pos hlong, Nat.min_eq_right (by omega), hsum, slice_append, Nat.zero_add, secondPart,
      List.flatten_singleton]
  · rw [if_neg hlong, Nat.min_eq_left (by omega), List.flatten_nil, List.append_nil]

/-- Where all calls succeed, the first one has, and the second one if it is made. -/
theorem writes_ok {maxPacketSize : UInt32} {l : Sender} {ptp : PTPContainer} {data : Memory}
    {size : UInt32} (hok : ∀ c ∈ usbCalls maxPacketSize l ptp data size, c.ret = ptpRcOk) :
    (ptpUsbWriteFunc l (firstPart ptp data size)).1 = ptpRcOk ∧
      (size.toNat > ptpUsbBulkPayloadLen →
        (ptpUsbWriteFunc (ptpUsbWriteFunc l (firstPart ptp data size)).2
          (secondPart data size)).1 = ptpRcOk) := by
  by_cases hfirst : (ptpUsbWriteFunc l (firstPart ptp data size)).1 = ptpRcOk
  · refine ⟨hfirst, fun hlong => ?_⟩
    by_contra hsecond
    simp only [usbCalls, usbSenddataVia, recordWrite, hfirst, hlong, hsecond, ne_eq,
      not_true_eq_false, not_false_eq_true, if_false, if_true, List.nil_append,
      List.cons_append, List.forall_mem_cons] at hok
    exact hok.2.1.elim
  · simp only [usbCalls, usbSenddataVia, recordWrite, hfirst, ne_eq, not_false_eq_true, if_true,
      List.nil_append, List.forall_mem_cons] at hok
    exact hok.1.elim

/-- The pieces are written then, and an empty packet if one is due. -/
theorem usbCalls_eq {maxPacketSize : UInt32} {l : Sender} {ptp : PTPContainer} {data : Memory}
    {size : UInt32} (hok : ∀ c ∈ usbCalls maxPacketSize l ptp data size, c.ret = ptpRcOk) :
    (usbCalls maxPacketSize l ptp data size).map WriteCall.bytes =
        usbPieces ptp data size ++ (if EmptyPacketDue maxPacketSize size then [[]] else []) ∧
      (ptpUsbSenddata maxPacketSize l ptp data size).1 = ptpRcOk := by
  obtain ⟨hfirst, hsecond⟩ := writes_ok hok
  rw [ptpUsbSenddata_via]
  by_cases hlong : size.toNat > ptpUsbBulkPayloadLen
  · have hsecond := hsecond hlong
    by_cases hdue : EmptyPacketDue maxPacketSize size
    · simp only [usbCalls, usbSenddataVia, recordWrite, usbPieces, hfirst, hlong, hsecond, hdue,
        ne_eq, not_true_eq_false, if_false, if_true, List.nil_append, List.map_cons, List.map_nil,
        List.cons_append, and_self]
    · simp only [usbCalls, usbSenddataVia, recordWrite, usbPieces, hfirst, hlong, hsecond, hdue,
        ne_eq, not_true_eq_false, if_false, if_true, List.nil_append, List.map_cons, List.map_nil,
        List.cons_append, List.append_nil, and_self]
  · by_cases hdue : EmptyPacketDue maxPacketSize size
    · simp only [usbCalls, usbSenddataVia, recordWrite, usbPieces, hfirst, hlong, hdue, ne_eq,
        not_true_eq_false, if_false, if_true, List.nil_append, List.map_cons, List.map_nil,
        List.cons_append, and_self]
    · simp only [usbCalls, usbSenddataVia, recordWrite, usbPieces, hfirst, hlong, hdue, ne_eq,
        not_true_eq_false, if_false, List.nil_append, List.map_cons, List.map_nil,
        List.append_nil, and_self]

/-- What has something behind it in a list that ends with empty entries is not the last
of the others. -/
theorem mem_dropLast_of_followed {α : Type} {pieces empty before after : List (List α)}
    {w : List α} (hempty : ∀ v ∈ empty, v = []) (h : pieces ++ empty = before ++ w :: after)
    (hafter : ∃ v ∈ after, v ≠ []) : w ∈ pieces.dropLast := by
  obtain ⟨v, hv, hne⟩ := hafter
  induction before generalizing pieces with
  | nil =>
    cases pieces with
    | nil =>
      rw [List.nil_append, List.nil_append] at h
      have hmem : v ∈ empty := h ▸ List.mem_cons_of_mem _ hv
      exact absurd (hempty v hmem) hne
    | cons p ps =>
      simp only [List.cons_append, List.nil_append, List.cons.injEq] at h
      obtain ⟨rfl, rfl⟩ := h
      rcases List.mem_append.mp hv with hps | hemp
      · rw [List.dropLast_cons_of_ne_nil (List.ne_nil_of_mem hps)]
        exact List.mem_cons_self
      · exact absurd (hempty v hemp) hne
  | cons b before ih =>
    cases pieces with
    | nil =>
      rw [List.nil_append] at h
      have hmem : v ∈ empty := h ▸ List.mem_append_right _ (List.mem_cons_of_mem _ hv)
      exact absurd (hempty v hmem) hne
    | cons p ps =>
      simp only [List.cons_append, List.cons.injEq] at h
      have hw := ih h.2
      have hps : ps ≠ [] := by
        rintro rfl
        cases hw
      rw [List.dropLast_cons_of_ne_nil hps]
      exact List.mem_cons_of_mem _ hw

/-- Only the first of two pieces has something behind it, and it fills a packet. -/
theorem pieces_whole {ptp : PTPContainer} {data : Memory} {size : UInt32} {w : List UInt8}
    (h : w ∈ (usbPieces ptp data size).dropLast) : w.length = 512 := by
  rw [usbPieces] at h
  by_cases hlong : size.toNat > ptpUsbBulkPayloadLen
  · rw [if_pos hlong, List.dropLast_cons_cons, List.dropLast_singleton] at h
    rw [List.mem_singleton.mp h, firstPart_length, Nat.min_eq_right (Nat.le_of_lt hlong)]
    rfl
  · rw [if_neg hlong, List.dropLast_singleton] at h
    cases h

theorem pieces_ne_nil {ptp : PTPContainer} {data : Memory} {size : UInt32} :
    ∀ w ∈ usbPieces ptp data size, w ≠ [] := by
  intro w hw
  apply List.ne_nil_of_length_pos
  rcases List.mem_cons.mp hw with he | hrest
  · rw [he, firstPart_length]
    exact Nat.add_pos_left (by decide) _
  · split at hrest
    · rw [List.mem_singleton.mp hrest, secondPart, slice_length]
      omega
    · cases hrest

/-- When all writes succeed: what they carry, where packets are cut short, when an empty
packet ends the transfer, and that the other end gets it if each write takes all it is given. -/
theorem usb_senddata_transfer (maxPacketSize : UInt32) (l : Sender) (ptp : PTPContainer)
    (data : Memory) (size : UInt32) (hsize : 12 + size.toNat < 2 ^ 32)
    (hmax : maxPacketSize.toNat ∣ 512)
    (hok : ∀ c ∈ usbCalls maxPacketSize l ptp data size, c.ret = ptpRcOk) :
    Transfer maxPacketSize.toNat ptp (slice data 0 size.toNat)
        ((usbCalls maxPacketSize l ptp data size).map WriteCall.bytes) ∧
      (ptpUsbSenddata maxPacketSize l ptp data size).1 = ptpRcOk ∧
      (AllTaken l.results (usbPieces ptp data size) →
        (ptpUsbSenddata maxPacketSize l ptp data size).2.peer =
          l.peer ++ ((usbCalls maxPacketSize l ptp data size).map WriteCall.bytes).flatten) := by
  obtain ⟨hcalls, hret⟩ := usbCalls_eq hok
  have hdue := emptyPacketDue_iff hsize hmax
  have hempty : ∀ v ∈ (if EmptyPacketDue maxPacketSize size then [[]] else [] : List (List UInt8)),
      v = [] := by
    intro v hv
    split at hv
    · exact List.mem_singleton.mp hv
    · cases hv
  have hflat : ((usbCalls maxPacketSize l ptp data size).map WriteCall.bytes).flatten =
      (usbPieces ptp data size).flatten := by
    rw [hcalls, List.flatten_append, List.flatten_eq_nil_iff.mpr hempty, List.append_nil]
  obtain ⟨hheader, hid⟩ := dataHeader_fields ptp.code ptp.transactionId size
    (slice_length data 0 size.toNat) hsize
  refine ⟨⟨⟨_, hflat.trans (usbPieces_flatten ptp data size), hheader, hid⟩, ?_, ?_⟩, hret, ?_⟩
  · intro before w after h hafter
    rw [hcalls] at h
    rw [pieces_whole (mem_dropLast_of_followed hempty h hafter)]
    exact hmax
  · refine ⟨usbPieces ptp data size, pieces_ne_nil, ?_⟩
    rw [hcalls, slice_length]
    simp only [hdue]
  · intro htaken
    obtain ⟨hfails, hpeer⟩ := usbSenddata_spec maxPacketSize l ptp data size
    have hnot : ¬UsbFails l.results size := fun hf => hfails hf hret
    rw [(hpeer hnot).2, hflat, (accepted_eq_iff _ _).mpr htaken]

/-- 500 bytes fill the first packet, so that an empty one has to follow. -/
theorem usb_senddata_transfer_witness :
    Transfer 512 operation (slice (fun _ => 7) 0 500)
        ((usbCalls 512 ⟨[512, 0], []⟩ operation (fun _ => 7) 500).map WriteCall.bytes) ∧
      (ptpUsbSenddata 512 ⟨[512, 0], []⟩ operation (fun _ => 7) 500).1 = ptpRcOk :=
  have h := usb_senddata_transfer 512 ⟨[512, 0], []⟩ operation (fun _ => 7) 500 (by decide)
    (by decide) (by decide +kernel)
  ⟨h.1, h.2.1⟩

end PtpDataOut
