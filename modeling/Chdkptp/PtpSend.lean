import Chdkptp.PtpIpData

/-!
# Sending requests and data

What the host writes is a sequence of calls of `send` or `usb_bulk_write`, each
of which returns an error or the number of bytes it took. The write functions
look at the error only. The containers are built on the host's side in the byte
order of the wire.
-/

namespace PtpSend

open ByteMemory ByteStream PtpBuffer PtpUsb PtpIp PtpIpRead PtpIpData

/-! ## Fields -/

def put16 (m : Memory) (o : Nat) (v : UInt16) : Memory :=
  blit m o [UInt8.ofNat v.toNat, UInt8.ofNat (v.toNat / 2 ^ 8)]

def put32 (m : Memory) (o : Nat) (v : UInt32) : Memory :=
  blit m o [UInt8.ofNat v.toNat, UInt8.ofNat (v.toNat / 2 ^ 8), UInt8.ofNat (v.toNat / 2 ^ 16),
    UInt8.ofNat (v.toNat / 2 ^ 24)]

/-- A 64-bit field, low word first. -/
def put64 (m : Memory) (o : Nat) (v : UInt64) : Memory :=
  put32 (put32 m o v.toUInt32) (o + 4) (UInt32.ofNat (v.toNat / 2 ^ 32))

theorem dtoh32_congr {m m' : Memory} {o : Nat} (h : ∀ i, i < 4 → m (o + i) = m' (o + i)) :
    dtoh32 m o = dtoh32 m' o := by
  have h0 := h 0 (by decide)
  rw [Nat.add_zero] at h0
  rw [dtoh32, dtoh32, h0, h 1 (by decide), h 2 (by decide), h 3 (by decide)]

/-- A field that has been put is read back. -/
theorem dtoh32_put32 (m : Memory) (o : Nat) (v : UInt32) : dtoh32 (put32 m o v) o = v := by
  have hbyte : ∀ i, i < 4 → put32 m o v (o + i) = UInt8.ofNat (v.toNat / 2 ^ (8 * i)) := by
    intro i hi
    rw [put32, blit_inside _ _ _ _ (by simpa using hi)]
    match i, hi with
    | 0, _ => simp
    | 1, _ => rfl
    | 2, _ => rfl
    | 3, _ => rfl
  have h0 := hbyte 0 (by decide)
  rw [Nat.add_zero] at h0
  have hv := v.toNat_lt
  apply UInt32.toNat_inj.mp
  rw [dtoh32, h0, hbyte 1 (by decide), hbyte 2 (by decide), hbyte 3 (by decide)]
  simp only [UInt8.toNat_ofNat', UInt32.toNat_ofNat']
  omega

/-- The other fields stay. -/
theorem dtoh32_put32_other (m : Memory) {o o' : Nat} (v : UInt32) (h : o' + 4 ≤ o ∨ o + 4 ≤ o') :
    dtoh32 (put32 m o v) o' = dtoh32 m o' := by
  apply dtoh32_congr
  intro i hi
  rw [put32, blit_outside]
  simp only [List.length_cons, List.length_nil]
  omega

theorem get64_put64 (m : Memory) (o : Nat) (v : UInt64) : get64 (put64 m o v) o = v := by
  have hv := v.toNat_lt
  apply UInt64.toNat_inj.mp
  rw [get64, put64, dtoh32_put32_other _ _ (by omega), dtoh32_put32, dtoh32_put32,
    UInt64.toNat_ofNat', UInt64.toNat_toUInt32, UInt32.toNat_ofNat']
  omega

/-- Fields within a slice are read from its bytes. -/
theorem dtoh32_slice (m : Memory) {o n : Nat} (h : o + 4 ≤ n) :
    dtoh32 (container (slice m 0 n)) o = dtoh32 m o := by
  apply dtoh32_congr
  intro i hi
  have hlt : o + i < (slice m 0 n).length := by
    rw [slice_length]
    omega
  have hinside := blit_inside (fun _ => 0) 0 (slice m 0 n) (o + i) hlt
  rw [Nat.zero_add] at hinside
  rw [container, hinside, List.getD_eq_getElem?_getD, List.getElem?_eq_getElem hlt,
    Option.getD_some]
  simp [slice]

/-! ## Writing -/

/-- The host's end of a connection: what the calls are going to return, a negative
number for an error, and what the other end has received. -/
structure Sender where
  results : List Int
  peer : List UInt8

/-- One call; with no result left the connection is gone. -/
def Sender.call (l : Sender) (bytes : List UInt8) : Int × Sender :=
  let result := l.results.headD (-1)
  (result, ⟨l.results.tail, l.peer ++ bytes.take result.toNat⟩)

/-- `SOCKET_ERROR`. -/
abbrev socketError : Int := -1

def ptpUsbWriteFunc (l : Sender) (bytes : List UInt8) : UInt16 × Sender :=
  let (result, l) := l.call bytes
  if result ≥ 0 then (ptpRcOk, l) else (ptpErrorIo, l)

def ptpTcpWriteFunc (l : Sender) (bytes : List UInt8) : UInt16 × Sender :=
  let (result, l) := l.call bytes
  if result = socketError then (ptpErrorIo, l) else (ptpRcOk, l)

/-- The check that follows every `write_func`. -/
def checked (r : UInt16 × Sender) : UInt16 × Sender := (if r.1 ≠ ptpRcOk then ptpErrorIo else r.1, r.2)

/-! ## The data phase of PTP/IP -/

abbrev ptpipTypeReq : UInt32 := 0x6

/-- A packet with a transaction id behind its header. -/
def datactl (length type transId : UInt32) : PTPIPContainer :=
  put32 (put32 (put32 (fun _ => 0) 0 length) 4 type) 8 transId

/-- The START_DATA packet. -/
def startData (transId : UInt32) (total : UInt64) : PTPIPContainer :=
  put64 (datactl 20 ptpipTypeStartData transId) 12 total

/-- What is written in turn; the DATA packet has no transaction id. -/
def tcpPieces (transId : UInt32) (data : Memory) (size : UInt32) : List (List UInt8) :=
  [slice (startData transId size.toUInt64) 0 20,
    slice (datactl (12 + size) ptpipTypeData 0) 0 12,
    slice data 0 size.toNat,
    slice (datactl 12 ptpipTypeEndData transId) 0 12]

def ptpTcpSenddata (l : Sender) (ptp : PTPContainer) (data : Memory) (size : UInt32) :
    UInt16 × Sender :=
  let (_, l) := checked
    (ptpTcpWriteFunc l (slice (startData ptp.transactionId size.toUInt64) 0 20))
  let (_, l) := checked (ptpTcpWriteFunc l (slice (datactl (12 + size) ptpipTypeData 0) 0 12))
  let (_, l) := checked (ptpTcpWriteFunc l (slice data 0 size.toNat))
  -- what the writes before returned is lost
  checked (ptpTcpWriteFunc l (slice (datactl 12 ptpipTypeEndData ptp.transactionId) 0 12))

/-! ## The data phase of USB -/

/-- `PTP_USB_BULK_PAYLOAD_LEN`. -/
abbrev ptpUsbBulkPayloadLen : Nat := 500

/-- The header of the data container. -/
def dataHeader (code : UInt16) (transId size : UInt32) : PTPUSBBulkContainer :=
  put32 (put16 (put16 (put32 (fun _ => 0) 0 (12 + size)) 4 ptpUsbContainerData) 6 code) 8 transId

/-- The header goes with the first part of the data. -/
def firstPart (ptp : PTPContainer) (data : Memory) (size : UInt32) : List UInt8 :=
  slice (blit (dataHeader ptp.code ptp.transactionId size) ptpUsbBulkHdrLen
      (slice data 0 (min size.toNat ptpUsbBulkPayloadLen))) 0
    (ptpUsbBulkHdrLen + min size.toNat ptpUsbBulkPayloadLen)

/-- `data+PTP_USB_BULK_PAYLOAD_LEN`. -/
def secondPart (data : Memory) (size : UInt32) : List UInt8 :=
  slice data ptpUsbBulkPayloadLen (size.toNat - ptpUsbBulkPayloadLen)

/-- An empty packet ends a transfer that fills its last packet. -/
def endTransfer (maxPacketSize : UInt32) (size : UInt32) (l : Sender) : Sender :=
  if (12 + size) &&& (maxPacketSize - 1) = 0 then (ptpUsbWriteFunc l []).2 else l

def ptpUsbSenddata (maxPacketSize : UInt32) (l : Sender) (ptp : PTPContainer) (data : Memory)
    (size : UInt32) : UInt16 × Sender :=
  let (ret, l) := ptpUsbWriteFunc l (firstPart ptp data size)
  if ret ≠ ptpRcOk then (ptpErrorIo, l)
  else if size.toNat > ptpUsbBulkPayloadLen then
    let (ret, l) := ptpUsbWriteFunc l (secondPart data size)
    if ret ≠ ptpRcOk then (ptpErrorIo, l)
    else (ret, endTransfer maxPacketSize size l)
  else (ret, endTransfer maxPacketSize size l)

/-! ## What the other end gets -/

/-- What successive calls take of the pieces they are given. -/
def accepted : List Int → List (List UInt8) → List UInt8
  | _, [] => []
  | results, p :: ps => p.take (results.headD (-1)).toNat ++ accepted results.tail ps

/-- Every call takes its piece whole. -/
def AllTaken : List Int → List (List UInt8) → Prop
  | _, [] => True
  | results, p :: ps => p.length ≤ (results.headD (-1)).toNat ∧ AllTaken results.tail ps

theorem accepted_length_le (results : List Int) (pieces : List (List UInt8)) :
    (accepted results pieces).length ≤ pieces.flatten.length := by
  induction pieces generalizing results with
  | nil => exact Nat.le_refl _
  | cons p ps ih =>
    rw [accepted, List.flatten_cons, List.length_append, List.length_append]
    exact Nat.add_le_add (List.length_take_le' _ _) (ih _)

/-- A cut cannot be made up for by shorter pieces behind it. -/
theorem take_append_eq_iff {p x y : List UInt8} {i : Nat} (h : x.length ≤ y.length) :
    p.take i ++ x = p ++ y ↔ p.length ≤ i ∧ x = y := by
  constructor
  · intro heq
    have hlen := congrArg List.length heq
    rw [List.length_append, List.length_append, List.length_take] at hlen
    have hle : p.length ≤ i := by omega
    rw [List.take_of_length_le hle] at heq
    exact ⟨hle, List.append_cancel_left heq⟩
  · rintro ⟨hle, rfl⟩
    rw [List.take_of_length_le hle]

/-- The other end has everything if and only if every call took its piece whole. -/
theorem accepted_eq_iff (results : List Int) (pieces : List (List UInt8)) :
    accepted results pieces = pieces.flatten ↔ AllTaken results pieces := by
  induction pieces generalizing results with
  | nil => exact ⟨fun _ => trivial, fun _ => rfl⟩
  | cons p ps ih =>
    rw [accepted, List.flatten_cons, take_append_eq_iff (accepted_length_le _ _), AllTaken, ih]

theorem usbWrite_eq (l : Sender) (bytes : List UInt8) :
    ptpUsbWriteFunc l bytes = (if l.results.headD (-1) ≥ 0 then ptpRcOk else ptpErrorIo,
      ⟨l.results.tail, l.peer ++ bytes.take (l.results.headD (-1)).toNat⟩) := by
  by_cases hok : l.results.headD (-1) ≥ 0
  · rw [if_pos hok]
    exact if_pos hok
  · rw [if_neg hok]
    exact if_neg hok

theorem tcpWrite_eq (l : Sender) (bytes : List UInt8) :
    ptpTcpWriteFunc l bytes =
      (if l.results.headD (-1) = socketError then ptpErrorIo else ptpRcOk,
        ⟨l.results.tail, l.peer ++ bytes.take (l.results.headD (-1)).toNat⟩) := by
  by_cases herror : l.results.headD (-1) = socketError
  · rw [if_pos herror]
    exact if_pos herror
  · rw [if_neg herror]
    exact if_neg herror

/-- Only the last write decides what is returned. -/
theorem tcpSenddata_eq (l : Sender) (ptp : PTPContainer) (data : Memory) (size : UInt32) :
    ptpTcpSenddata l ptp data size =
      (if l.results.tail.tail.tail.headD (-1) = socketError then ptpErrorIo else ptpRcOk,
        ⟨l.results.tail.tail.tail.tail,
          l.peer ++ accepted l.results (tcpPieces ptp.transactionId data size)⟩) := by
  simp only [ptpTcpSenddata, checked, tcpWrite_eq, tcpPieces, accepted, List.append_assoc,
    List.append_nil]
  split <;> rfl

/-- The pieces that `ptp_usb_senddata` writes. -/
def usbPieces (ptp : PTPContainer) (data : Memory) (size : UInt32) : List (List UInt8) :=
  firstPart ptp data size ::
    if size.toNat > ptpUsbBulkPayloadLen then [secondPart data size] else []

theorem endTransfer_peer (maxPacketSize size : UInt32) (l : Sender) :
    (endTransfer maxPacketSize size l).peer = l.peer := by
  unfold endTransfer
  split
  · simp only [usbWrite_eq, List.take_nil, List.append_nil]
  · rfl

/-- One of the writes of `ptp_usb_senddata` fails. -/
def UsbFails (results : List Int) (size : UInt32) : Prop :=
  results.headD (-1) < 0 ∨ (size.toNat > ptpUsbBulkPayloadLen ∧ results.tail.headD (-1) < 0)

theorem usbSenddata_spec (maxPacketSize : UInt32) (l : Sender) (ptp : PTPContainer) (data : Memory)
    (size : UInt32) :
    (UsbFails l.results size → (ptpUsbSenddata maxPacketSize l ptp data size).1 ≠ ptpRcOk) ∧
      (¬UsbFails l.results size →
        (ptpUsbSenddata maxPacketSize l ptp data size).1 = ptpRcOk ∧
        (ptpUsbSenddata maxPacketSize l ptp data size).2.peer =
          l.peer ++ accepted l.results (usbPieces ptp data size)) := by
  simp only [UsbFails, ptpUsbSenddata, usbWrite_eq, usbPieces]
  by_cases hfirst : l.results.headD (-1) ≥ 0
  · have hnot : ¬l.results.headD (-1) < 0 := Int.not_lt.mpr hfirst
    by_cases hlong : size.toNat > ptpUsbBulkPayloadLen
    · by_cases hsecond : l.results.tail.headD (-1) ≥ 0
      · have hnot' : ¬l.results.tail.headD (-1) < 0 := Int.not_lt.mpr hsecond
        simp only [hfirst, hlong, hsecond, hnot, hnot', if_true, ne_eq, not_true_eq_false, if_false,
          and_false, or_self, false_implies, not_false_eq_true, true_implies, true_and,
          endTransfer_peer, accepted, List.append_nil, List.append_assoc]
      · have hneg : l.results.tail.headD (-1) < 0 := Int.not_le.mp hsecond
        simp only [hfirst, hlong, hsecond, hnot, hneg, if_true, if_false, ne_eq, not_true_eq_false,
          io_error, not_false_eq_true, and_self, or_true, true_implies, false_implies]
    · simp only [hfirst, hlong, hnot, if_true, ne_eq, not_true_eq_false, if_false, false_and,
        or_self, false_implies, not_false_eq_true, true_implies, true_and, endTransfer_peer,
        accepted, List.append_nil]
  · have hneg : l.results.headD (-1) < 0 := Int.not_le.mp hfirst
    simp only [hfirst, hneg, if_false, ne_eq, io_error, not_false_eq_true, if_true, true_or,
      true_implies, not_true_eq_false, false_implies, and_self]

/-- When the functions that report success have written everything. -/
theorem success_delivers_iff (maxPacketSize : UInt32) (l : Sender) (ptp : PTPContainer)
    (bytes : List UInt8) (data : Memory) (size : UInt32) :
    (((ptpUsbWriteFunc l bytes).1 = ptpRcOk →
        (ptpUsbWriteFunc l bytes).2.peer = l.peer ++ bytes) ↔
      l.results.headD (-1) < 0 ∨ bytes.length ≤ (l.results.headD (-1)).toNat) ∧
    (((ptpTcpWriteFunc l bytes).1 = ptpRcOk →
        (ptpTcpWriteFunc l bytes).2.peer = l.peer ++ bytes) ↔
      l.results.headD (-1) = socketError ∨ bytes.length ≤ (l.results.headD (-1)).toNat) ∧
    (((ptpUsbSenddata maxPacketSize l ptp data size).1 = ptpRcOk →
        (ptpUsbSenddata maxPacketSize l ptp data size).2.peer =
          l.peer ++ (usbPieces ptp data size).flatten) ↔
      UsbFails l.results size ∨ AllTaken l.results (usbPieces ptp data size)) ∧
    (((ptpTcpSenddata l ptp data size).1 = ptpRcOk →
        (ptpTcpSenddata l ptp data size).2.peer =
          l.peer ++ (tcpPieces ptp.transactionId data size).flatten) ↔
      l.results.tail.tail.tail.headD (-1) = socketError ∨
        AllTaken l.results (tcpPieces ptp.transactionId data size)) := by
  have hwhole : ∀ i, l.peer ++ bytes.take i = l.peer ++ bytes ↔ bytes.length ≤ i := by
    intro i
    rw [List.append_cancel_left_eq]
    exact ⟨fun h => by have := congrArg List.length h; rw [List.length_take] at this; omega,
      List.take_of_length_le⟩
  refine ⟨?_, ?_, ?_, ?_⟩
  · rw [usbWrite_eq]
    by_cases hok : l.results.headD (-1) ≥ 0
    · simp only [hok, if_true, true_implies, hwhole, Int.not_lt.mpr hok, false_or]
    · simp only [hok, if_false, io_error, false_implies, Int.not_le.mp hok, true_or]
  · rw [tcpWrite_eq]
    by_cases herror : l.results.headD (-1) = socketError
    · simp only [herror, if_true, io_error, false_implies, true_or]
    · simp only [herror, if_false, true_implies, hwhole, false_or]
  · obtain ⟨hfails, hok⟩ := usbSenddata_spec maxPacketSize l ptp data size
    by_cases hf : UsbFails l.results size
    · exact ⟨fun _ => .inl hf, fun _ h => absurd h (hfails hf)⟩
    · obtain ⟨hret, hpeer⟩ := hok hf
      simp only [hret, true_implies, hpeer, List.append_cancel_left_eq, accepted_eq_iff, hf,
        false_or]
  · rw [tcpSenddata_eq]
    by_cases herror : l.results.tail.tail.tail.headD (-1) = socketError
    · simp only [herror, if_true, io_error, false_implies, true_or]
    · simp only [herror, if_false, true_implies, List.append_cancel_left_eq, accepted_eq_iff,
        false_or]

/-- The last call takes 11 of its 12 bytes. -/
theorem short_write_succeeds :
    (ptpTcpSenddata ⟨[20, 12, 1, 11], []⟩ operation (fun _ => 7) 1).1 = ptpRcOk ∧
      (ptpTcpSenddata ⟨[20, 12, 1, 11], []⟩ operation (fun _ => 7) 1).2.peer =
        (tcpPieces operation.transactionId (fun _ => 7) 1).flatten.take 44 ∧
      (tcpPieces operation.transactionId (fun _ => 7) 1).flatten.length = 45 := by
  decide

/-! ## Encoding and decoding -/

theorem datactl_fields (length type transId : UInt32) :
    dtoh32 (datactl length type transId) 0 = length ∧ dtoh32 (datactl length type transId) 4 = type := by
  simp only [datactl]
  rw [dtoh32_put32_other _ _ (by omega), dtoh32_put32_other _ _ (by omega), dtoh32_put32,
    dtoh32_put32_other _ _ (by omega), dtoh32_put32]
  exact ⟨rfl, rfl⟩

theorem startData_fields (transId : UInt32) (total : UInt64) :
    dtoh32 (startData transId total) 0 = 20 ∧
      dtoh32 (startData transId total) 4 = ptpipTypeStartData ∧
      get64 (startData transId total) 12 = total := by
  obtain ⟨hlength, htype⟩ := datactl_fields 20 ptpipTypeStartData transId
  refine ⟨?_, ?_, get64_put64 _ _ _⟩
  · rw [startData, put64, dtoh32_put32_other _ _ (by omega), dtoh32_put32_other _ _ (by omega),
      hlength]
  · rw [startData, put64, dtoh32_put32_other _ _ (by omega), dtoh32_put32_other _ _ (by omega),
      htype]

theorem startData_announces (transId : UInt32) (total : UInt64) :
    StartData total.toNat (slice (startData transId total) 0 20) := by
  obtain ⟨hlength, htype, htotal⟩ := startData_fields transId total
  refine ⟨slice_length _ _ _, ?_, ?_, ?_⟩
  · rw [headType, PTPIPContainer.type, dtoh32_slice _ (by decide), htype]
  · rw [headLength, PTPIPContainer.length, dtoh32_slice _ (by decide), hlength]
    rfl
  · rw [PTPIPContainer.dataLength, get64, dtoh32_slice _ (by decide), dtoh32_slice _ (by decide),
      ← get64, htotal]

/-- A header and a payload make a packet. -/
theorem datactl_packet (type transId : UInt32) {length : UInt32} {payload : List UInt8}
    (h : length.toNat = 12 + payload.length) :
    PacketOf type payload (slice (datactl length type transId) 0 12 ++ payload) := by
  obtain ⟨hlength, htype⟩ := datactl_fields length type transId
  have hsize := slice_length (datactl length type transId) 0 12
  obtain ⟨hheadType, hheadLength⟩ := head_append payload
    (show ptpipHeaderLen ≤ (slice (datactl length type transId) 0 12).length by
      rw [hsize]
      decide)
  refine ⟨?_, ?_, ?_, ?_⟩
  · rw [List.length_append, hsize]
    omega
  · rw [hheadType, headType, PTPIPContainer.type, dtoh32_slice _ (by decide), htype]
  · rw [hheadLength, headLength, PTPIPContainer.length, dtoh32_slice _ (by decide), hlength,
      List.length_append, hsize, h]
  · rw [List.drop_left' hsize]

/-- What `ptp_tcp_senddata` writes, when every write takes its piece whole, is read
back by `ptp_tcp_getdata`. -/
theorem senddata_getdata (malloc : UInt64 → Bool) (l : Sender) (ptp : PTPContainer) (data : Memory)
    (size : UInt32) (params : PTPParams) (pkt : PTPIPContainer) (gdparams : PTPGetdataParams)
    (after : List UInt8) (hsize : size.toNat < 2 ^ 31 - 12) (hpeer : l.peer = [])
    (htaken : AllTaken l.results (tcpPieces ptp.transactionId data size))
    (hv : Valid params.pktBuf) (hr : Reliable params.transport)
    (hs : stream params = (ptpTcpSenddata l ptp data size).2.peer ++ after)
    (hg : TcpReceiver malloc gdparams size.toNat) :
    ∃ r, ptpTcpGetdata malloc params pkt gdparams = some r ∧ r.ret = ptpRcOk ∧
      Placed gdparams (slice data 0 size.toNat) r ∧ stream r.params = after ∧
      Valid r.params.pktBuf := by
  have hlen := slice_length data 0 size.toNat
  have htwelve : (12 + size).toNat = 12 + (slice data 0 size.toNat).length := by
    rw [UInt32.toNat_add, hlen]
    have : (12 : UInt32).toNat = 12 := rfl
    omega
  have hend : PacketOf ptpipTypeEndData []
      (slice (datactl 12 ptpipTypeEndData ptp.transactionId) 0 12) := by
    have h := datactl_packet ptpipTypeEndData ptp.transactionId (show (12 : UInt32).toNat = 12 + [].length from rfl)
    rwa [List.append_nil] at h
  have hrun := PacketRun.closing
    (datactl_packet ptpipTypeData 0 htwelve) hend
  rw [tcpSenddata_eq, (accepted_eq_iff _ _).mpr htaken, hpeer] at hs
  simp only [tcpPieces, List.flatten_cons, List.flatten_nil, List.nil_append, List.append_nil,
    List.append_assoc] at hs
  rw [← hlen] at hg
  have hs' : stream params = slice (startData ptp.transactionId size.toUInt64) 0 20 ++
      (slice (datactl (12 + size) ptpipTypeData 0) 0 12 ++ slice data 0 size.toNat ++
        slice (datactl 12 ptpipTypeEndData ptp.transactionId) 0 12 ++ after) := by
    simp only [hs, List.append_assoc]
  have hstart := startData_announces ptp.transactionId size.toUInt64
  rw [UInt32.toNat_toUInt64, ← hlen] at hstart
  rcases getdata_run (R := True) pkt hv (fun _ => hr) hs' hstart hrun (by omega)
    (fun _ => .inl (by omega)) (fun _ => hg) with
    ⟨r, hget, hdelivered, _, hplaced⟩ | ⟨hno, _⟩
  · exact ⟨r, hget, hdelivered.ret, hplaced, hdelivered.stream, hdelivered.valid⟩
  · exact absurd trivial hno

/-- Two bytes of data, received in three pieces. -/
def echoParams : PTPParams where
  pktBuf := ⟨fun _ => 0, 0, 0⟩
  transport := [
    .recv [20, 0, 0, 0, 9, 0, 0, 0, 1, 0, 0, 0, 2, 0, 0, 0, 0, 0, 0, 0, 14],
    .recv [0, 0, 0, 10, 0, 0, 0, 0, 0, 0, 0, 7],
    .recv [7, 12, 0, 0, 0, 12, 0, 0, 0, 1, 0, 0, 0]]
  sessionId := 1

theorem senddata_getdata_witness :
    ∃ r, ptpTcpGetdata (fun _ => true) echoParams (fun _ => 0) ⟨none, 0, false⟩ = some r ∧
      r.ret = ptpRcOk ∧ Placed ⟨none, 0, false⟩ (slice (fun _ => 7) 0 2) r ∧
      stream r.params = [] ∧ Valid r.params.pktBuf :=
  senddata_getdata (fun _ => true) ⟨[20, 12, 2, 12], []⟩ operation (fun _ => 7) 2 echoParams
    (fun _ => 0) ⟨none, 0, false⟩ [] (by decide) rfl
    ⟨by decide, by decide, by decide, by decide, trivial⟩
    ⟨by decide, by decide, by decide, fun _ => rfl⟩ (by decide) (by decide)
    ⟨(fun _ h => by cases h), (fun _ => Or.inr rfl)⟩

end PtpSend
