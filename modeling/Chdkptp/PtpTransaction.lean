import Chdkptp.PtpSend

/-!
# Transactions

A transaction sends its request, has a data phase in either direction or none and
reads one response. Requests are numbered, and the responder puts the number of
the request into its response; the host never compares the two. Whether a
response belongs to the request that waits for it depends on what earlier
transactions have left in the stream.
-/

namespace PtpTransaction

open ByteMemory ByteStream BoundedLoop PtpBuffer PtpUsb PtpIp PtpIpRead PtpIpData PtpSend

/-! ## Requests -/

abbrev ptpUsbContainerCommand : UInt16 := 1

/-- The five parameters from `o` on. -/
def putParams (m : Memory) (o : Nat) (ptp : PTPContainer) : Memory :=
  put32 (put32 (put32 (put32 (put32 m o ptp.param1) (o + 4) ptp.param2) (o + 8) ptp.param3)
    (o + 12) ptp.param4) (o + 16) ptp.param5

/-- The length of the command container: a parameter that is not there takes no room. -/
def usbRequestLength (nparam : UInt8) : Nat := ptpUsbBulkHdrLen + 20 - 4 * (5 - nparam.toNat)

def ptpUsbSendreq (l : Sender) (req : PTPContainer) : UInt16 × Sender :=
  let length := usbRequestLength req.nparam
  let usbreq := putParams (put32 (put16 (put16 (put32 (fun _ => 0) 0 (UInt32.ofNat length)) 4
    ptpUsbContainerCommand) 6 req.code) 8 req.transactionId) ptpUsbBulkHdrLen req
  checked (ptpUsbWriteFunc l (slice usbreq 0 length))

/-- The length of the request packet; its fields take 30 bytes. -/
def tcpRequestLength (nparam : UInt8) : Nat := 30 + 8 - 4 * (5 - nparam.toNat)

def ptpTcpSendreq (l : Sender) (ptp : PTPContainer) : UInt16 × Sender :=
  let length := tcpRequestLength ptp.nparam
  let pkt := putParams (put32 (put16 (put32 (put32 (fun _ => 0) 0 (UInt32.ofNat length)) 4
    ptpipTypeReq) 12 ptp.code) 14 ptp.transactionId) 18 ptp
  checked (ptpTcpWriteFunc l (slice pkt 0 length))

/-! ## The response of PTP/IP -/

/-- `resp.code`, which lies behind the header. -/
def respCode (pkt : PTPIPContainer) : UInt16 := dtoh16 pkt 8

def respTransId (pkt : PTPIPContainer) : UInt32 := dtoh32 pkt 10

/-- `resp.param1` to `resp.param5`, counted from 1. -/
def respParam (pkt : PTPIPContainer) (i : Nat) : UInt32 := dtoh32 pkt (14 + 4 * (i - 1))

def unpackTcpResponse (sessionId : UInt32) (pkt : PTPIPContainer) : PTPContainer where
  code := respCode pkt
  sessionId := sessionId
  transactionId := respTransId pkt
  param1 := respParam pkt 1
  param2 := respParam pkt 2
  param3 := respParam pkt 3
  param4 := respParam pkt 4
  param5 := respParam pkt 5
  nparam := UInt8.ofNat ((pkt.length - 14) / 4).toNat

/-- Unlike over USB the container is filled whatever the response is. -/
def ptpTcpGetresp (params : PTPParams) (resp : PTPContainer) : Option Getresp := do
  let p ← ptpTcpReadControl params (fun _ => 0)
  if p.ret ≠ ptpRcOk then some ⟨p.ret, resp, p.params⟩
  else
    let ret :=
      -- only the low half of the type is looked at
      if p.pkt.type.toUInt16 ≠ ptpipTypeResp.toUInt16 then ptpErrorRespExpected
      else if respCode p.pkt ≠ resp.code then respCode p.pkt
      else ptpRcOk
    some ⟨ret, unpackTcpResponse p.params.sessionId p.pkt, p.params⟩

/-! ## The functions of a connection -/

inductive Bus where
  | usb
  | tcp
  deriving DecidableEq, Repr

/-- What the stream and the writes are going to do, and the number of the next request. -/
structure Connection where
  params : PTPParams
  transactionId : UInt32
  sender : Sender
  maxPacketSize : UInt32

/-- The state of the machine that a transaction meets: which sizes `malloc` has memory
for, and what lies in the container on the stack. -/
structure Host where
  malloc : Nat → Bool
  stack : PTPIPContainer

/-- The return code, what the caller got, the state. -/
structure Received where
  ret : UInt16
  blocks : List (List UInt8)
  retData : Option (List UInt8)
  params : PTPParams

def sendreqFunc (bus : Bus) (c : Connection) (ptp : PTPContainer) : UInt16 × Sender :=
  match bus with
  | .usb => ptpUsbSendreq c.sender ptp
  | .tcp => ptpTcpSendreq c.sender ptp

def senddataFunc (bus : Bus) (c : Connection) (ptp : PTPContainer) (data : Memory)
    (size : UInt32) : UInt16 × Sender :=
  match bus with
  | .usb => ptpUsbSenddata c.maxPacketSize c.sender ptp data size
  | .tcp => ptpTcpSenddata c.sender ptp data size

def getdataFunc (bus : Bus) (host : Host) (params : PTPParams) (ptp : PTPContainer)
    (gdparams : PTPGetdataParams) : Option Received :=
  match bus with
  | .usb => (ptpUsbGetdata (fun n => host.malloc n.toNat) params ptp gdparams).map
      fun r => ⟨r.ret, r.blocks, r.retData, r.params⟩
  | .tcp => (ptpTcpGetdata (fun n => host.malloc n.toNat) params host.stack gdparams).map
      fun r => ⟨r.ret, r.blocks, r.retData, r.params⟩

def getrespFunc (bus : Bus) (params : PTPParams) (resp : PTPContainer) : Option Getresp :=
  match bus with
  | .usb => ptpUsbGetresp params resp
  | .tcp => ptpTcpGetresp params resp

/-! ## The transaction -/

/-- The data phase. -/
inductive Phase where
  | noData
  | sendData (data : Memory) (size : UInt32)
  | getData (gdparams : PTPGetdataParams)
  /-- No phase that there is. -/
  | other

/-- The next packet is a response, and it can be read. -/
def responseAhead (bus : Bus) (dst : PTPIPContainer) (params : PTPParams) : Bool :=
  match bus with
  | .usb =>
    match ptpUsbReadControl params with
    | some p => p.ret = ptpRcOk && p.pkt.type = ptpUsbContainerResponse
    | none => false
  | .tcp =>
    match ptpTcpReadControl params dst with
    | some p => p.ret = ptpRcOk && p.pkt.type = ptpipTypeResp
    | none => false

/-- The return code, `*ptp`, the data that was received, the state. The last three
are kept for the statements: the number of the request, whether all was written,
and whether a response was read. -/
structure Transacted where
  ret : UInt16
  ptp : PTPContainer
  retData : Option (List UInt8)
  conn : Connection
  id : UInt32
  sent : Bool
  answered : Bool

/-- The response, the last step of every transaction. -/
def respond (bus : Bus) (c : Connection) (ptp : PTPContainer)
    (retData : Option (List UInt8)) : Option Transacted := do
  let q ← getrespFunc bus c.params ptp
  some ⟨q.ret, q.resp, retData, { c with params := q.params }, ptp.transactionId, true,
    responseAhead bus (fun _ => 0) c.params⟩

/-- The steps that `ptp_transaction` and `ptp_getdata_transaction` share. -/
def transact (bus : Bus) (host : Host) (c : Connection) (ptp : PTPContainer) (phase : Phase) :
    Option Transacted :=
  let ptp := { ptp with transactionId := c.transactionId, sessionId := c.params.sessionId }
  let c := { c with transactionId := c.transactionId + 1 }
  let (ret, sender) := sendreqFunc bus c ptp
  let c := { c with sender := sender }
  if ret ≠ ptpRcOk then some ⟨ret, ptp, none, c, ptp.transactionId, false, false⟩
  else
    match phase with
    | .noData => respond bus c ptp none
    | .sendData data size =>
      let (ret, sender) := senddataFunc bus c ptp data size
      let c := { c with sender := sender }
      if ret ≠ ptpRcOk then some ⟨ret, ptp, none, c, ptp.transactionId, false, false⟩
      else respond bus c ptp none
    | .getData gdparams => do
      let r ← getdataFunc bus host c.params ptp gdparams
      let c' := { c with params := r.params }
      if r.ret ≠ ptpRcOk then
        some ⟨r.ret, ptp, r.retData, c', ptp.transactionId, true,
          responseAhead bus host.stack c.params⟩
      else respond bus c' ptp r.retData
    | .other => some ⟨ptpErrorBadparam, ptp, none, c, ptp.transactionId, true, false⟩

/-- `flags`, with the data that goes with them. -/
inductive Flags where
  | noData
  | sendData (data : Memory) (sendlen : UInt32)
  /-- Whether the caller supplies the memory. -/
  | getData (retData : Bool)
  | other

def ptpTransaction (bus : Bus) (host : Host) (c : Connection) (ptp : PTPContainer)
    (flags : Flags) : Option Transacted :=
  match flags with
  | .noData => transact bus host c ptp .noData
  | .sendData data sendlen => transact bus host c ptp (.sendData data sendlen)
  -- `block_size` is not set, and not used without a handler
  | .getData retData => transact bus host c ptp (.getData ⟨none, 0, retData⟩)
  | .other => transact bus host c ptp .other

def ptpGetdataTransaction (bus : Bus) (host : Host) (c : Connection) (ptp : PTPContainer)
    (gdparams : PTPGetdataParams) : Option Transacted :=
  transact bus host c ptp (.getData gdparams)

/-- A call of one of the two. -/
inductive Operation where
  | transaction (flags : Flags)
  | getdataTransaction (gdparams : PTPGetdataParams)

def perform (bus : Bus) (host : Host) (c : Connection) (ptp : PTPContainer) :
    Operation → Option Transacted
  | .transaction flags => ptpTransaction bus host c ptp flags
  | .getdataTransaction gdparams => ptpGetdataTransaction bus host c ptp gdparams

def Flags.phase : Flags → Phase
  | .noData => .noData
  | .sendData data sendlen => .sendData data sendlen
  | .getData retData => .getData ⟨none, 0, retData⟩
  | .other => .other

def Operation.phase : Operation → Phase
  | .transaction flags => flags.phase
  | .getdataTransaction gdparams => .getData gdparams

theorem perform_eq (bus : Bus) (host : Host) (c : Connection) (ptp : PTPContainer)
    (op : Operation) : perform bus host c ptp op = transact bus host c ptp op.phase := by
  cases op with
  | transaction flags => cases flags <;> rfl
  | getdataTransaction gdparams => rfl

/-! ## What a call leaves in the stream -/

/-- The buffer is valid and `rest` is still to come. -/
structure Left (params : PTPParams) (rest : List UInt8) : Prop where
  valid : Valid params.pktBuf
  stream : stream params = rest

theorem Served.left {params : PTPParams} {a b : List UInt8} {r : Reply}
    (h : Served params a.length r) (hp : Left params (a ++ b)) : r.bytes = a ∧ Left r.params b := by
  have hstream := h.stream
  rw [hp.stream] at hstream
  obtain ⟨hbytes, hrest⟩ := List.append_inj hstream h.length
  exact ⟨hbytes, h.valid, hrest⟩

theorem control_left {params : PTPParams} {a b : List UInt8} {r : Reply}
    (hp : Left params (a ++ b)) (ha : a.length ≤ ptpPacketBufferSize)
    (h : ptpControlReadBuffered params a.length = some r) (hok : r.ret = ptpRcOk) :
    r.bytes = a ∧ Left r.params b := by
  obtain ⟨r', hr', hspec⟩ := controlReadBuffered_spec hp.valid ha
  rw [h] at hr'
  cases hr'
  rcases hspec with hs | hno
  · exact Served.left hs hp
  · exact absurd hok hno.ret

/-- The rest and the whole packets of a size that is negative as an `int`. -/
theorem bulk_negative {size : Nat} (hlow : 2 ^ 31 ≤ size) (hhigh : size < 2 ^ 32) :
    (toInt ((size : Int) - (0 : Nat))).tmod ptpPacketBufferSize ≤ 0 ∧
      toInt ((size : Int) - (toInt ((size : Int) - (0 : Nat))).tmod ptpPacketBufferSize) ≤ 0 := by
  have hread : toInt ((size : Int) - (0 : Nat)) = -((2 ^ 32 - size : Nat) : Int) := by
    simp only [toInt, Int.bmod]
    omega
  have hmod := Nat.mod_le (2 ^ 32 - size) ptpPacketBufferSize
  have hrest : (toInt ((size : Int) - (0 : Nat))).tmod ptpPacketBufferSize =
      -(((2 ^ 32 - size) % ptpPacketBufferSize : Nat) : Int) := by
    rw [hread, Int.neg_tmod]
    rfl
  rw [hrest]
  refine ⟨by omega, ?_⟩
  simp only [toInt, Int.bmod]
  omega

/-- A size that is no `int` is never read: nothing is read directly, and the last read
does not find what it asks for. -/
theorem usbReadData_big {params : PTPParams} {size : UInt32} {r : Reply}
    (hsize : 2 ^ 31 ≤ size.toNat) (h : ptpUsbReadData params size = some r) :
    r.ret ≠ ptpRcOk := by
  have hlt := size.toNat_lt
  have hneg : toInt size.toNat < 0 := toInt_negative (by omega) (by omega)
  cases hread : ptpTransportReadFromBuffer params.pktBuf (toInt size.toNat) with
  | none => simp only [ptpUsbReadData, hread, bind, Option.bind, reduceCtorEq] at h
  | some q =>
    obtain ⟨got, b⟩ := q
    have hleft := readFromBuffer_left hread
    have hnil : got.length = 0 := by omega
    obtain ⟨hrest, hbulk⟩ := bulk_negative hsize hlt
    have hpos : 0 < size.toNat := by omega
    simp only [ptpUsbReadData, hread, bind, Option.bind, hnil, if_pos hpos] at h
    generalize (toInt ((size.toNat : Int) - (0 : Nat))).tmod ptpPacketBufferSize = rest
      at h hrest hbulk
    generalize toInt ((size.toNat : Int) - rest) = bulk at h hbulk
    have hbytes := (directLoop_bytes bulk got params.transport).2.1
    generalize (directLoop bulk).run (got, params.transport) = d at h hbytes
    obtain ⟨ret, bytes, t⟩ := d
    simp only at h hbytes
    split at h
    · rename_i hret
      cases h
      exact hret
    · generalize ptpTransportReadToBuffer { params with pktBuf := b, transport := t } rest = e at h
      obtain ⟨ret', params'⟩ := e
      simp only at h
      split at h
      · rename_i hret
        cases h
        exact hret
      · split at h
        · cases h
        · rename_i q' hread'
          have hmore := (readFromBuffer_left hread').2
          have hshort : (bytes ++ q'.1).length ≠ size.toNat := by
            rw [List.length_append]
            omega
          simp only [hshort, ne_eq, not_false_eq_true, if_true] at h
          cases h
          exact io_error

theorem usbReadData_left {params : PTPParams} {size : UInt32} {a b : List UInt8} {r : Reply}
    (hp : Left params (a ++ b)) (ha : a.length = size.toNat)
    (h : ptpUsbReadData params size = some r) (hok : r.ret = ptpRcOk) :
    r.bytes = a ∧ Left r.params b := by
  by_cases hsize : size.toNat < 2 ^ 31
  · obtain ⟨r', hr', hspec⟩ := usbReadData_spec hp.valid hsize
    rw [h] at hr'
    cases hr'
    rcases hspec with hs | hno
    · rw [← ha] at hs
      exact Served.left hs hp
    · exact absurd hok hno.ret
  · exact absurd hok (usbReadData_big (by omega) h)

/-! ## Responses and data phases -/

/-- A response of PTP/IP with up to five parameters. -/
structure TcpResponse (response : List UInt8) : Prop where
  low : 14 ≤ response.length
  high : response.length ≤ 34
  length : (headLength response).toNat = response.length
  type : headType response = ptpipTypeResp

/-- The response to request `id`. -/
def Response (bus : Bus) (id : UInt32) (response : List UInt8) : Prop :=
  match bus with
  | .usb => ResponseContainer response ∧ PTPUSBBulkContainer.transId (container response) = id
  | .tcp => TcpResponse response ∧ respTransId (container response) = id

/-- What a response is unpacked into. -/
def unpack (bus : Bus) (sessionId : UInt32) (response : List UInt8) : PTPContainer :=
  match bus with
  | .usb => unpackResponse sessionId (container response)
  | .tcp => unpackTcpResponse sessionId (container response)

/-- `resp` is the response to an operation; besides OK the code of the operation will do. -/
structure Accepted (bus : Bus) (code : UInt16) (response : List UInt8) (resp : PTPContainer) :
    Prop where
  code : (unpack bus 0 response).code = code ∨ (unpack bus 0 response).code = ptpRcOk
  fields : ∃ sessionId, resp = unpack bus sessionId response

theorem Accepted.transId {bus : Bus} {code : UInt16} {id : UInt32} {response : List UInt8}
    {resp : PTPContainer} (h : Accepted bus code response resp) (hh : Response bus id response) :
    resp.transactionId = id := by
  obtain ⟨sessionId, hresp⟩ := h.fields
  rw [hresp]
  cases bus with
  | usb => exact hh.2
  | tcp => exact hh.2

/-- A data phase for an operation, with the data that it transfers. -/
inductive DataPhaseOf (code : UInt16) (data : List UInt8) : Bus → List UInt8 → Prop where
  | usb {header : List UInt8} (hh : DataHeader code data.length header) :
      DataPhaseOf code data .usb (header ++ data)
  | tcp {start packets : List UInt8} (hstart : StartData data.length start)
      (hp : Packets data packets) : DataPhaseOf code data .tcp (start ++ packets)

theorem usbControl_data {params : PTPParams} {code : UInt16} {n : Nat} {header rest : List UInt8}
    {p : Packet} (hp : Left params (header ++ rest)) (hh : DataHeader code n header)
    (h : ptpUsbReadControl params = some p) (hok : p.ret = ptpRcOk) :
    p.pkt = container header ∧ Left p.params rest := by
  have hfits : header.length ≤ ptpPacketBufferSize := by
    rw [hh.size]
    decide
  obtain ⟨r, hr, _⟩ := controlReadBuffered_spec hp.valid hfits
  have hkind : ptpUsbContainerData ≠ ptpUsbContainerResponse := by decide
  have hcontrol := hr
  rw [hh.size] at hcontrol
  simp only [ptpUsbReadControl, hcontrol, bind, Option.bind] at h
  by_cases hret : r.ret = ptpRcOk
  · obtain ⟨hbytes, hleft⟩ := control_left hp hfits hr hret
    simp only [hret, hbytes, hh.type, hkind, ne_eq, not_true_eq_false, if_false, if_true] at h
    cases h
    exact ⟨rfl, hleft⟩
  · simp only [hret, ne_eq, not_false_eq_true, if_true] at h
    cases h
    exact absurd hok hret

theorem usbControl_response {params : PTPParams} {response rest : List UInt8} {p : Packet}
    (hp : Left params (response ++ rest)) (hh : ResponseContainer response)
    (h : ptpUsbReadControl params = some p) (hok : p.ret = ptpRcOk) :
    p.pkt = container response ∧ Left p.params rest := by
  have hsplit := List.take_append_drop ptpUsbBulkHdrLen response
  have hlow := hh.low
  have hhigh := hh.high
  have hbuffer : ptpPacketBufferSize = 512 := rfl
  have htake : (response.take ptpUsbBulkHdrLen).length = ptpUsbBulkHdrLen := by
    rw [List.length_take]
    omega
  have hdrop : (response.drop ptpUsbBulkHdrLen).length = response.length - ptpUsbBulkHdrLen :=
    List.length_drop
  rw [← hsplit, List.append_assoc] at hp
  obtain ⟨r, hr, _⟩ := controlReadBuffered_spec hp.valid
    (show ptpUsbBulkHdrLen ≤ ptpPacketBufferSize by decide)
  simp only [ptpUsbReadControl, hr, bind, Option.bind] at h
  by_cases hret : r.ret = ptpRcOk
  · obtain ⟨hbytes, hleft⟩ := control_left hp (by rw [htake]; decide) (by rw [htake]; exact hr) hret
    have hlength : (container (response.take ptpUsbBulkHdrLen)).length.toNat = response.length := by
      rw [length_take, hh.length]
    have htype : (container (response.take ptpUsbBulkHdrLen)).type = ptpUsbContainerResponse := by
      rw [type_take, hh.type]
    simp only [hret, hbytes, htype, hlength, ne_eq, not_true_eq_false, if_false, if_true] at h
    by_cases hmore : response.length > ptpUsbBulkHdrLen
    · have hcount : toInt ((response.length : Int) - ptpUsbBulkHdrLen) =
          (response.drop ptpUsbBulkHdrLen).length := by
        rw [toInt_of_lt (by omega) (by omega), hdrop]
        omega
      have hsize : (response.drop ptpUsbBulkHdrLen).length ≤ ptpPacketBufferSize := by omega
      obtain ⟨r', hr', _⟩ := controlReadBuffered_spec hleft.valid hsize
      simp only [if_pos hmore, hcount, hr'] at h
      cases h
      obtain ⟨hbytes', hleft'⟩ := control_left hleft hsize hr' hok
      have happend := blit_append (fun _ => 0) 0 (response.take ptpUsbBulkHdrLen)
        (response.drop ptpUsbBulkHdrLen)
      rw [htake, Nat.zero_add, hsplit] at happend
      refine ⟨?_, hleft'⟩
      rw [hbytes']
      exact happend
    · rw [if_neg hmore] at h
      cases h
      have hnone : response.drop ptpUsbBulkHdrLen = [] := List.drop_eq_nil_of_le (by omega)
      rw [hnone, List.append_nil] at hsplit
      rw [hnone, List.nil_append] at hleft
      exact ⟨by rw [hsplit], hleft⟩
  · simp only [hret, ne_eq, not_false_eq_true, if_true] at h
    cases h
    exact absurd hok hret

theorem TcpResponse.whole {response : List UInt8} (h : TcpResponse response) :
    WholeAhead response := by
  have hheader : ptpipHeaderLen = 8 := rfl
  have hbuffer : ptpPacketBufferSize = 512 := rfl
  have hlow := h.low
  have hhigh := h.high
  exact ⟨by omega, h.length, by omega, by rw [h.type]; decide⟩

theorem TcpResponse.type_blit {response : List UInt8} (h : TcpResponse response)
    (dst : PTPIPContainer) : PTPIPContainer.type (blit dst 0 response) = ptpipTypeResp := by
  rw [PtpIpRead.type_blit dst (List.prefix_refl response) h.whole.header]
  exact h.type

theorem tcpControl_response {params : PTPParams} {response rest : List UInt8} {p : TcpPacket}
    (dst : PTPIPContainer) (hp : Left params (response ++ rest)) (hh : TcpResponse response)
    (h : ptpTcpReadControl params dst = some p) (hok : p.ret = ptpRcOk) :
    p.pkt = blit dst 0 response ∧ Left p.params rest := by
  obtain ⟨p', hread, _, hpspec⟩ := readControl_whole dst hp.valid hh.whole hp.stream
  rw [h] at hread
  cases hread
  obtain ⟨hpkt, hvalid, hrest, _, _⟩ := hpspec hok
  exact ⟨hpkt, hvalid, hrest⟩

/-! ## The functions and the stream -/

theorem usbGetresp_left {params : PTPParams} {id : UInt32} {response rest : List UInt8}
    {resp : PTPContainer} {q : Getresp} (hp : Left params (response ++ rest))
    (hh : Response .usb id response) (h : ptpUsbGetresp params resp = some q) :
    (responseAhead .usb (fun _ => 0) params = true → Left q.params rest) ∧
      (q.ret = ptpRcOk → Accepted .usb resp.code response q.resp) := by
  cases hread : ptpUsbReadControl params with
  | none => simp only [ptpUsbGetresp, hread, bind, Option.bind, reduceCtorEq] at h
  | some p =>
    simp only [ptpUsbGetresp, hread, bind, Option.bind] at h
    simp only [responseAhead, hread, Bool.and_eq_true, decide_eq_true_eq]
    by_cases hret : p.ret = ptpRcOk
    · obtain ⟨hpkt, hleft⟩ := usbControl_response hp hh.1 hread hret
      simp only [hret, hpkt, hh.1.type, ne_eq, not_true_eq_false, if_false] at h
      by_cases hcode : (container response).code = resp.code
      · simp only [hcode, not_true_eq_false, if_false] at h
        cases h
        exact ⟨fun _ => hleft, fun _ => ⟨.inl hcode, _, rfl⟩⟩
      · simp only [hcode, not_false_eq_true, if_true] at h
        by_cases hok : (container response).code = ptpRcOk
        · simp only [hok, not_true_eq_false, if_false] at h
          cases h
          exact ⟨fun _ => hleft, fun _ => ⟨.inr hok, _, rfl⟩⟩
        · simp only [hok, not_false_eq_true, if_true] at h
          cases h
          exact ⟨fun _ => hleft, fun h => absurd h hok⟩
    · simp only [hret, ne_eq, not_false_eq_true, if_true] at h
      cases h
      exact ⟨fun hahead => absurd hahead.1 hret, fun hok => absurd hok hret⟩

theorem tcpGetresp_left {params : PTPParams} {id : UInt32} {response rest : List UInt8}
    {resp : PTPContainer} {q : Getresp} (hp : Left params (response ++ rest))
    (hh : Response .tcp id response) (h : ptpTcpGetresp params resp = some q) :
    (responseAhead .tcp (fun _ => 0) params = true → Left q.params rest) ∧
      (q.ret = ptpRcOk → Accepted .tcp resp.code response q.resp) := by
  cases hread : ptpTcpReadControl params (fun _ => 0) with
  | none => simp only [ptpTcpGetresp, hread, bind, Option.bind, reduceCtorEq] at h
  | some p =>
    simp only [ptpTcpGetresp, hread, bind, Option.bind] at h
    simp only [responseAhead, hread, Bool.and_eq_true, decide_eq_true_eq]
    by_cases hret : p.ret = ptpRcOk
    · obtain ⟨hpkt, hleft⟩ := tcpControl_response (fun _ => 0) hp hh.1 hread hret
      have htype : p.pkt.type = ptpipTypeResp := by
        rw [hpkt]
        exact hh.1.type_blit _
      simp only [hret, htype, ne_eq, not_true_eq_false, if_false] at h
      cases h
      rw [hpkt]
      refine ⟨fun _ => hleft, fun hok => ⟨?_, _, rfl⟩⟩
      by_cases hcode : respCode (container response) = resp.code
      · exact .inl hcode
      · right
        rw [container] at hcode
        simp only [if_pos hcode] at hok
        exact hok
    · simp only [hret, ne_eq, not_false_eq_true, if_true] at h
      cases h
      exact ⟨fun hahead => absurd hahead.1 hret, fun hok => absurd hok hret⟩

theorem getresp_left {bus : Bus} {params : PTPParams} {id : UInt32} {response rest : List UInt8}
    {resp : PTPContainer} {q : Getresp} (hp : Left params (response ++ rest))
    (hh : Response bus id response) (h : getrespFunc bus params resp = some q) :
    (responseAhead bus (fun _ => 0) params = true → Left q.params rest) ∧
      (q.ret = ptpRcOk → Accepted bus resp.code response q.resp) := by
  cases bus with
  | usb => exact usbGetresp_left hp hh h
  | tcp => exact tcpGetresp_left hp hh h

/-- A response in the place of the data is read, and not accepted. -/
theorem getdata_refused {bus : Bus} {host : Host} {params : PTPParams} {id : UInt32}
    {response rest : List UInt8} {ptp : PTPContainer} {gdparams : PTPGetdataParams} {r : Received}
    (hp : Left params (response ++ rest)) (hh : Response bus id response)
    (h : getdataFunc bus host params ptp gdparams = some r) :
    r.ret ≠ ptpRcOk ∧ (responseAhead bus host.stack params = true → Left r.params rest) := by
  cases bus with
  | usb =>
    obtain ⟨g, hget, hr⟩ := Option.map_eq_some_iff.mp h
    subst hr
    cases hread : ptpUsbReadControl params with
    | none => simp only [ptpUsbGetdata, hread, bind, Option.bind, reduceCtorEq] at hget
    | some p =>
      simp only [ptpUsbGetdata, hread, bind, Option.bind] at hget
      simp only [responseAhead, hread, Bool.and_eq_true, decide_eq_true_eq]
      by_cases hret : p.ret = ptpRcOk
      · obtain ⟨hpkt, hleft⟩ := usbControl_response hp hh.1 hread hret
        have hkind : ptpUsbContainerResponse ≠ ptpUsbContainerData := by decide
        simp only [hret, hpkt, hh.1.type, hkind, ne_eq, not_true_eq_false, not_false_eq_true,
          if_false, if_true] at hget
        cases hget
        exact ⟨dataExpected_error, fun _ => hleft⟩
      · simp only [hret, ne_eq, not_false_eq_true, if_true] at hget
        cases hget
        exact ⟨hret, fun hahead => absurd hahead.1 hret⟩
  | tcp =>
    obtain ⟨g, hget, hr⟩ := Option.map_eq_some_iff.mp h
    subst hr
    cases hread : ptpTcpReadControl params host.stack with
    | none => simp only [ptpTcpGetdata, hread, bind, Option.bind, reduceCtorEq] at hget
    | some p =>
      simp only [ptpTcpGetdata, hread, bind, Option.bind] at hget
      simp only [responseAhead, hread, Bool.and_eq_true, decide_eq_true_eq]
      by_cases hret : p.ret = ptpRcOk
      · obtain ⟨hpkt, hleft⟩ := tcpControl_response host.stack hp hh.1 hread hret
        have htype : p.pkt.type = ptpipTypeResp := by
          rw [hpkt]
          exact hh.1.type_blit _
        have hkind : ptpipTypeResp ≠ ptpipTypeStartData := by decide
        simp only [hret, htype, hkind, ne_eq, not_true_eq_false, not_false_eq_true,
          if_false, if_true] at hget
        cases hget
        exact ⟨dataExpected_error, fun _ => hleft⟩
      · simp only [hret, ne_eq, not_false_eq_true, if_true] at hget
        cases hget
        exact ⟨hret, fun hahead => absurd hahead.1 hret⟩

/-- The blocks so far and what is left of the data make up the data, whatever the
handler says. -/
structure Streaming (data after : List UInt8) (s : Blocks) (rest : List UInt8) : Prop where
  data : s.blocks.flatten ++ rest = data
  left : s.toRead.toNat = rest.length
  stream : Left s.params (rest ++ after)

theorem Streaming.next {handler : Handler} {blockSize : UInt32} (hpos : 0 < blockSize.toNat)
    {data after rest : List UInt8} {s s' : Blocks} (h : Streaming data after s rest)
    (hstep : (blockLoop handler blockSize hpos).step s = .inl s') :
    ∃ rest', Streaming data after s' rest' := by
  by_cases hread : 0 < s.toRead
  · simp only [blockLoop, if_pos hread] at hstep
    generalize hcount : (if s.toRead > blockSize then blockSize else s.toRead) = readSize at hstep
    have hle : readSize ≤ s.toRead := by
      rw [← hcount]
      split
      · rename_i hgt
        exact UInt32.le_of_lt hgt
      · exact UInt32.le_refl _
    have hrest := UInt32.le_iff_toNat_le.mp hle
    have hleft := h.left
    have htake : (rest.take readSize.toNat).length = readSize.toNat := by
      rw [List.length_take]
      omega
    have hsplit := List.take_append_drop readSize.toNat rest
    have hstream := h.stream
    rw [← hsplit, List.append_assoc] at hstream
    cases hr : ptpUsbReadData s.params readSize with
    | none => simp only [hr, reduceCtorEq] at hstep
    | some r =>
      simp only [hr] at hstep
      by_cases hret : r.ret = ptpRcOk
      · obtain ⟨hbytes, hnext⟩ := usbReadData_left hstream htake hr hret
        by_cases haccepts : handler s.blocks r.bytes = ptpRcOk
        · simp only [hret, haccepts, ne_eq, not_true_eq_false, if_false] at hstep
          cases hstep
          refine ⟨rest.drop readSize.toNat, ?_, ?_, hnext⟩
          · rw [List.flatten_append, List.flatten_singleton, hbytes, List.append_assoc, hsplit,
              h.data]
          · simp only
            rw [UInt32.toNat_sub_of_le _ _ hle, List.length_drop, hleft]
        · simp only [hret, haccepts, ne_eq, not_true_eq_false, not_false_eq_true, if_false, if_true,
            reduceCtorEq] at hstep
      · simp only [hret, ne_eq, not_false_eq_true, if_true, reduceCtorEq] at hstep
  · simp only [blockLoop, if_neg hread, reduceCtorEq] at hstep

/-- The loop ends with OK only when all has been read. -/
theorem Streaming.last {handler : Handler} {blockSize : UInt32} (hpos : 0 < blockSize.toNat)
    {data after rest : List UInt8} {s s' : Blocks} (h : Streaming data after s rest)
    (hstep : (blockLoop handler blockSize hpos).step s = .inr (some (ptpRcOk, s'))) :
    Streaming data after s' [] := by
  by_cases hread : 0 < s.toRead
  · simp only [blockLoop, if_pos hread] at hstep
    generalize (if s.toRead > blockSize then blockSize else s.toRead) = readSize at hstep
    cases hr : ptpUsbReadData s.params readSize with
    | none => simp only [hr, reduceCtorEq, Sum.inr.injEq] at hstep
    | some r =>
      simp only [hr] at hstep
      by_cases hret : r.ret = ptpRcOk
      · by_cases haccepts : handler s.blocks r.bytes = ptpRcOk
        · simp only [hret, haccepts, ne_eq, not_true_eq_false, if_false, reduceCtorEq] at hstep
        · simp only [hret, haccepts, ne_eq, not_true_eq_false, not_false_eq_true, if_false,
            if_true, Sum.inr.injEq, Option.some.injEq, Prod.mk.injEq] at hstep
          exact hstep.1.elim
      · simp only [hret, ne_eq, not_false_eq_true, if_true, Sum.inr.injEq, Option.some.injEq,
          Prod.mk.injEq] at hstep
        exact hstep.1.elim
  · simp only [blockLoop, if_neg hread] at hstep
    cases hstep
    obtain rfl := rest_eq_nil h.left hread
    exact h

theorem blockLoop_left {handler : Handler} {blockSize : UInt32} (hpos : 0 < blockSize.toNat)
    {params : PTPParams} {total : UInt32} {data after : List UInt8} {ret : UInt16} {s : Blocks}
    (hp : Left params (data ++ after)) (htotal : total.toNat = data.length)
    (h : (blockLoop handler blockSize hpos).run ⟨total, params, []⟩ = some (ret, s))
    (hok : ret = ptpRcOk) : Left s.params after := by
  refine (blockLoop handler blockSize hpos).run_invariant
    (fun s => ∃ rest, Streaming data after s rest)
    (fun r => ∀ s, r = some (ptpRcOk, s) → Left s.params after) ?_ ?_
    ⟨data, rfl, htotal, hp⟩ s (by rw [h, hok])
  · rintro s s' ⟨rest, hs⟩ hstep
    exact hs.next hpos hstep
  · rintro s r ⟨rest, hs⟩ hstep s' rfl
    exact (hs.last hpos hstep).stream

theorem usbGetdata_left {malloc : UInt32 → Bool} {params : PTPParams} {ptp : PTPContainer}
    {gdparams : PTPGetdataParams} {header data after : List UInt8} {r : Getdata}
    (hp : Left params (header ++ (data ++ after))) (hh : DataHeader ptp.code data.length header)
    (h : ptpUsbGetdata malloc params ptp gdparams = some r) :
    (∀ dst, responseAhead .usb dst params = false) ∧
      (r.ret = ptpRcOk → Left r.params after ∧
        (gdparams.handler = none → r.retData = some data ∧ data.length < 2 ^ 31)) := by
  cases hread : ptpUsbReadControl params with
  | none => simp only [ptpUsbGetdata, hread, bind, Option.bind, reduceCtorEq] at h
  | some p =>
    simp only [ptpUsbGetdata, hread, bind, Option.bind] at h
    simp only [responseAhead, hread, decide_eq_false_iff_not, Bool.and_eq_false_iff]
    by_cases hret : p.ret = ptpRcOk
    · obtain ⟨hpkt, hleft⟩ := usbControl_data hp hh hread hret
      have hkind : ptpUsbContainerData ≠ ptpUsbContainerResponse := by decide
      refine ⟨fun _ => .inr (by rw [hpkt, hh.type]; exact hkind), ?_⟩
      simp only [hret, hpkt, hh.type, hh.code, ne_eq, not_true_eq_false, if_false] at h
      have htotal : ((container header).length - UInt32.ofNat ptpUsbBulkHdrLen).toNat =
          data.length := by
        have hhdr : (UInt32.ofNat ptpUsbBulkHdrLen).toNat = ptpUsbBulkHdrLen := rfl
        have hlength := hh.length
        rw [UInt32.toNat_sub_of_le _ _ (by rw [UInt32.le_iff_toNat_le]; omega)]
        omega
      generalize (container header).length - UInt32.ofNat ptpUsbBulkHdrLen = total at h htotal
      cases hhandler : gdparams.handler with
      | some handler =>
        simp only [hhandler] at h
        by_cases hmalloc : malloc (usedBlockSize gdparams.blockSize) = true
        · cases hrun : (blockLoop handler (usedBlockSize gdparams.blockSize)
              (usedBlockSize_pos _)).run ⟨total, p.params, []⟩ with
          | none => simp only [hmalloc, hrun, not_true_eq_false, if_false, reduceCtorEq] at h
          | some q =>
            obtain ⟨ret, s⟩ := q
            simp only [hmalloc, hrun, not_true_eq_false, if_false] at h
            cases h
            exact fun hok => ⟨blockLoop_left _ hleft htotal hrun hok, fun hno => by cases hno⟩
        · rw [if_pos hmalloc] at h
          cases h
          exact fun hok => absurd hok nomem_error
      | none =>
        simp only [hhandler] at h
        split at h
        · cases h
          exact fun hok => absurd hok nomem_error
        · cases hr : ptpUsbReadData p.params total with
          | none => simp only [hr, reduceCtorEq] at h
          | some q =>
            simp only [hr] at h
            cases h
            intro hok
            obtain ⟨hbytes, hnext⟩ := usbReadData_left hleft htotal.symm hr hok
            refine ⟨hnext, fun _ => ⟨by rw [hbytes], ?_⟩⟩
            by_contra hbig
            exact usbReadData_big (by omega) hr hok
    · simp only [hret, ne_eq, not_false_eq_true, if_true] at h
      cases h
      exact ⟨fun _ => .inl hret, fun hok => absurd hok hret⟩

theorem tcpGetdata_left {malloc : UInt64 → Bool} {params : PTPParams}
    {gdparams : PTPGetdataParams} {start data packets after : List UInt8} {pkt : PTPIPContainer}
    {r : TcpGetdata} (hp : Left params (start ++ (packets ++ after)))
    (hstart : StartData data.length start) (hpackets : Packets data packets)
    (h : ptpTcpGetdata malloc params pkt gdparams = some r) :
    (∀ dst, responseAhead .tcp dst params = false) ∧
      (r.ret = ptpRcOk → Left r.params after ∧ (gdparams.handler = none → r.retData = some data)) := by
  constructor
  · intro dst
    obtain ⟨p, hread, _, hpspec⟩ := readControl_start dst hp.valid hstart hp.stream
    simp only [responseAhead, hread, decide_eq_false_iff_not, Bool.and_eq_false_iff]
    by_cases hret : p.ret = ptpRcOk
    · have hkind : ptpipTypeStartData ≠ ptpipTypeResp := by decide
      exact .inr (by rw [(hpspec hret).1]; exact hkind)
    · exact .inl hret
  · intro hok
    have htotal : data.length < 2 ^ 64 := by
      rw [← hstart.total]
      exact UInt64.toNat_lt _
    rcases getdata_run (R := False) pkt hp.valid False.elim hp.stream hstart hpackets.run htotal
      False.elim False.elim with ⟨r', hr', hdelivered, _, hplaced⟩ | ⟨_, hno⟩
    · rw [h] at hr'
      cases hr'
      exact ⟨⟨hdelivered.valid, hdelivered.stream⟩, hplaced.memory⟩
    · exact absurd hok (hno r h)

/-- A data phase that goes well ends where the response begins. -/
theorem getdata_left {bus : Bus} {host : Host} {params : PTPParams} {ptp : PTPContainer}
    {gdparams : PTPGetdataParams} {data bytes after : List UInt8} {r : Received}
    (hp : Left params (bytes ++ after)) (hd : DataPhaseOf ptp.code data bus bytes)
    (h : getdataFunc bus host params ptp gdparams = some r) :
    responseAhead bus host.stack params = false ∧
      (r.ret = ptpRcOk → Left r.params after ∧ (gdparams.handler = none →
        r.retData = some data ∧ (bus = .usb → data.length < 2 ^ 31))) := by
  cases hd with
  | usb hh =>
    obtain ⟨g, hget, hr⟩ := Option.map_eq_some_iff.mp h
    subst hr
    rw [List.append_assoc] at hp
    obtain ⟨hahead, hleft⟩ := usbGetdata_left hp hh hget
    refine ⟨hahead _, fun hok => ⟨(hleft hok).1, fun hhandler => ?_⟩⟩
    exact ⟨((hleft hok).2 hhandler).1, fun _ => ((hleft hok).2 hhandler).2⟩
  | tcp hstart hpackets =>
    obtain ⟨g, hget, hr⟩ := Option.map_eq_some_iff.mp h
    subst hr
    rw [List.append_assoc] at hp
    obtain ⟨hahead, hleft⟩ := tcpGetdata_left hp hstart hpackets hget
    refine ⟨hahead _, fun hok => ⟨(hleft hok).1, fun hhandler => ?_⟩⟩
    exact ⟨(hleft hok).2 hhandler, fun hbus => by cases hbus⟩

/-! ## Transactions in step -/

/-- What a device answers to request `id`: a response, and before it the data if
there is a phase for it and nothing has gone wrong. -/
inductive Answer (bus : Bus) (code : UInt16) (id : UInt32) : Phase → List UInt8 → Prop where
  | response {phase : Phase} {response : List UInt8} (h : Response bus id response) :
      Answer bus code id phase response
  | data {gdparams : PTPGetdataParams} {data bytes response : List UInt8}
      (hd : DataPhaseOf code data bus bytes) (h : Response bus id response) :
      Answer bus code id (.getData gdparams) (bytes ++ response)

theorem respond_left {bus : Bus} {c : Connection} {ptp : PTPContainer} {id : UInt32}
    {retData : Option (List UInt8)} {response rest : List UInt8} {r : Transacted}
    (h : respond bus c ptp retData = some r) (hp : Left c.params (response ++ rest))
    (hh : Response bus id response) :
    (r.ret = ptpRcOk → Accepted bus ptp.code response r.ptp ∧ r.retData = retData) ∧
      (r.answered = true → Left r.conn.params rest) := by
  cases hget : getrespFunc bus c.params ptp with
  | none => simp only [respond, hget, bind, Option.bind, reduceCtorEq] at h
  | some q =>
    simp only [respond, hget, bind, Option.bind] at h
    cases h
    obtain ⟨hleft, haccepted⟩ := getresp_left hp hh hget
    exact ⟨fun hok => ⟨haccepted hok, rfl⟩, hleft⟩

/-- What a transaction does: it stops before it reads anything, reads a response, or reads a
data phase and, if that went well, a response. -/
theorem transact_cases {bus : Bus} {host : Host} {c : Connection} {ptp : PTPContainer}
    {phase : Phase} {r : Transacted} (h : transact bus host c ptp phase = some r) :
    (r.ret ≠ ptpRcOk ∧ r.answered = false ∧ (r.sent = false → r.conn.params = c.params)) ∨
    (∃ c', c'.params = c.params ∧ (∀ gdparams, phase ≠ .getData gdparams) ∧
      respond bus c' { ptp with
        transactionId := c.transactionId, sessionId := c.params.sessionId } none = some r) ∨
    ∃ gdparams d c', phase = .getData gdparams ∧
      getdataFunc bus host c.params { ptp with
        transactionId := c.transactionId, sessionId := c.params.sessionId } gdparams = some d ∧
      (d.ret ≠ ptpRcOk ∧ r.ret = d.ret ∧ r.sent = true ∧ r.conn.params = d.params ∧
          r.answered = responseAhead bus host.stack c.params ∨
        d.ret = ptpRcOk ∧ c'.params = d.params ∧
          respond bus c' { ptp with
            transactionId := c.transactionId, sessionId := c.params.sessionId } d.retData =
            some r) := by
  simp only [transact] at h
  generalize sendreqFunc bus _ _ = q at h
  obtain ⟨ret, sender⟩ := q
  simp only at h
  split at h
  · rename_i hret
    cases h
    exact .inl ⟨hret, rfl, fun _ => rfl⟩
  · cases phase with
    | noData =>
      simp only at h
      refine .inr (.inl ⟨_, ?_, by simp, h⟩)
      rfl
    | sendData data size =>
      simp only at h
      generalize senddataFunc bus _ _ data size = q at h
      obtain ⟨ret, sender⟩ := q
      simp only at h
      split at h
      · rename_i hret
        cases h
        exact .inl ⟨hret, rfl, fun _ => rfl⟩
      · refine .inr (.inl ⟨_, ?_, by simp, h⟩)
        rfl
    | getData gdparams =>
      obtain ⟨d, hget, hrest⟩ := Option.bind_eq_some_iff.mp h
      split at hrest
      · rename_i hret
        cases hrest
        exact .inr (.inr ⟨gdparams, d, c, rfl, hget, .inl ⟨hret, rfl, rfl, rfl, rfl⟩⟩)
      · rename_i hret
        refine .inr (.inr ⟨gdparams, d, _, rfl, hget,
          .inr ⟨Classical.not_not.mp hret, ?_, hrest⟩⟩)
        rfl
    | other =>
      cases h
      exact .inl ⟨badparam_error, rfl, fun hsent => by cases hsent⟩

/-- A transaction that meets a data phase and a response. -/
theorem transact_data {bus : Bus} {host : Host} {c : Connection} {ptp : PTPContainer} {id : UInt32}
    {gdparams : PTPGetdataParams} {data bytes response rest : List UInt8} {r : Transacted}
    (hp : Left c.params (bytes ++ (response ++ rest))) (hd : DataPhaseOf ptp.code data bus bytes)
    (hh : Response bus id response) (h : transact bus host c ptp (.getData gdparams) = some r) :
    (r.ret = ptpRcOk → Accepted bus ptp.code response r.ptp ∧ (gdparams.handler = none →
        r.retData = some data ∧ (bus = .usb → data.length < 2 ^ 31))) ∧
      (r.answered = true → Left r.conn.params rest) := by
  obtain ⟨hret, hno, -⟩ | ⟨c', -, hphase, -⟩ | ⟨gd, d, c', hphase, hget, hd'⟩ := transact_cases h
  · exact ⟨fun hok => absurd hok hret, fun hyes => by rw [hno] at hyes; cases hyes⟩
  · exact absurd rfl (hphase gdparams)
  · cases hphase
    obtain ⟨hahead, hleft⟩ := getdata_left hp hd hget
    obtain ⟨hret, hr, -, -, hanswered⟩ | ⟨hok, hc, hrespond⟩ := hd'
    · rw [hr, hanswered, hahead]
      exact ⟨fun hok => absurd hok hret, fun hyes => by cases hyes⟩
    · obtain ⟨hnext, hdata⟩ := hleft hok
      rw [← hc] at hnext
      obtain ⟨haccepted, hrest⟩ := respond_left hrespond hnext hh
      refine ⟨fun hok => ⟨(haccepted hok).1, fun hhandler => ?_⟩, hrest⟩
      rw [(haccepted hok).2]
      exact hdata hhandler

/-- A transaction that meets a response alone. -/
theorem transact_response {bus : Bus} {host : Host} {c : Connection} {ptp : PTPContainer}
    {id : UInt32} {phase : Phase} {response rest : List UInt8} {r : Transacted}
    (hp : Left c.params (response ++ rest)) (hh : Response bus id response)
    (h : transact bus host c ptp phase = some r) :
    (r.ret = ptpRcOk → Accepted bus ptp.code response r.ptp) ∧
      (r.answered = true → Left r.conn.params rest) := by
  obtain ⟨hret, hno, -⟩ | ⟨c', hc, -, hrespond⟩ | ⟨gd, d, c', -, hget, hd⟩ := transact_cases h
  · exact ⟨fun hok => absurd hok hret, fun hyes => by rw [hno] at hyes; cases hyes⟩
  · rw [← hc] at hp
    obtain ⟨haccepted, hrest⟩ := respond_left hrespond hp hh
    exact ⟨fun hok => (haccepted hok).1, hrest⟩
  · obtain ⟨hrefused, hleft⟩ := getdata_refused hp hh hget
    obtain ⟨hret, hr, -, hparams, hanswered⟩ | ⟨hok, -⟩ := hd
    · rw [hr, hanswered, hparams]
      exact ⟨fun hok => absurd hok hret, hleft⟩
    · exact absurd hok hrefused

/-- When the answer to its request is next, a transaction that returns OK has accepted
it, and one that reads a response leaves what follows the answer. -/
theorem transact_left {bus : Bus} {host : Host} {c : Connection} {ptp : PTPContainer}
    {phase : Phase} {answer rest : List UInt8} {r : Transacted}
    (hp : Left c.params (answer ++ rest)) (ha : Answer bus ptp.code c.transactionId phase answer)
    (h : transact bus host c ptp phase = some r) :
    (r.ret = ptpRcOk → r.ptp.transactionId = c.transactionId) ∧
      (r.answered = true → Left r.conn.params rest) := by
  cases ha with
  | response hh =>
    obtain ⟨haccepted, hleft⟩ := transact_response hp hh h
    exact ⟨fun hok => (haccepted hok).transId hh, hleft⟩
  | data hd hh =>
    rw [List.append_assoc] at hp
    obtain ⟨haccepted, hleft⟩ := transact_data hp hd hh h
    exact ⟨fun hok => (haccepted hok).1.transId hh, hleft⟩

/-- A transaction that has not written everything has not read anything. -/
theorem transact_unsent {bus : Bus} {host : Host} {c : Connection} {ptp : PTPContainer}
    {phase : Phase} {r : Transacted} (h : transact bus host c ptp phase = some r)
    (hsent : r.sent = false) : r.conn.params = c.params := by
  have hno : ∀ {c' ptp' retData}, respond bus c' ptp' retData = some r → r.sent = true := by
    intro c' ptp' retData hrun
    obtain ⟨q, -, hr⟩ := Option.bind_eq_some_iff.mp hrun
    cases hr
    rfl
  obtain ⟨-, -, hparams⟩ | ⟨c', -, -, hrespond⟩ | ⟨gd, d, c', -, -, hd⟩ := transact_cases h
  · exact hparams hsent
  · rw [hno hrespond] at hsent
    cases hsent
  · obtain ⟨-, -, hyes, -⟩ | ⟨-, -, hrespond⟩ := hd
    · rw [hyes] at hsent
      cases hsent
    · rw [hno hrespond] at hsent
      cases hsent

/-- Calls one after the other, with the bytes that answer them. A request that has
not been written is not answered; every other call has read a response. In between
`ptp_opensession` may have set both numbers. -/
inductive Session (bus : Bus) (c : Connection) : List UInt8 → Connection → Prop where
  | start : Session bus c [] c
  | renumbered {bytes : List UInt8} {c' : Connection} (h : Session bus c bytes c')
      (sessionId transactionId : UInt32) :
      Session bus c bytes { c' with
        params := { c'.params with sessionId := sessionId }, transactionId := transactionId }
  | unsent {bytes : List UInt8} {c' : Connection} {host : Host} {ptp : PTPContainer}
      {op : Operation} {r : Transacted} (h : Session bus c bytes c')
      (hrun : perform bus host c' ptp op = some r) (hsent : r.sent = false) :
      Session bus c bytes r.conn
  | answered {bytes answer : List UInt8} {c' : Connection} {host : Host} {ptp : PTPContainer}
      {op : Operation} {r : Transacted} (h : Session bus c bytes c')
      (hrun : perform bus host c' ptp op = some r)
      (ha : Answer bus ptp.code c'.transactionId op.phase answer) (hread : r.answered = true) :
      Session bus c (bytes ++ answer) r.conn

theorem Session.left {bus : Bus} {c c' : Connection} {bytes : List UInt8}
    (h : Session bus c bytes c') :
    ∀ rest, Left c.params (bytes ++ rest) → Left c'.params rest := by
  induction h with
  | start => exact fun rest hp => hp
  | renumbered h sessionId transactionId ih =>
    intro rest hp
    have hleft := ih rest hp
    exact ⟨hleft.valid, hleft.stream⟩
  | unsent h hrun hsent ih =>
    intro rest hp
    rw [perform_eq] at hrun
    rw [transact_unsent hrun hsent]
    exact ih rest hp
  | answered h hrun ha hread ih =>
    intro rest hp
    rw [List.append_assoc] at hp
    rw [perform_eq] at hrun
    exact (transact_left (ih _ hp) ha hrun).2 hread

/-- As long as every transaction has read its response, the one that returns OK has
accepted its own. -/
theorem own_response (bus : Bus) (c c' : Connection) (bytes answer rest : List UInt8) (host : Host)
    (ptp : PTPContainer) (op : Operation) (r : Transacted) (hv : Valid c.params.pktBuf)
    (hs : stream c.params = bytes ++ (answer ++ rest)) (h : Session bus c bytes c')
    (ha : Answer bus ptp.code c'.transactionId op.phase answer)
    (hrun : perform bus host c' ptp op = some r) (hok : r.ret = ptpRcOk) :
    r.ptp.transactionId = c'.transactionId := by
  have hleft := h.left _ ⟨hv, hs⟩
  rw [perform_eq] at hrun
  exact (transact_left hleft ha hrun).1 hok

def roomyHost : Host := ⟨fun _ => true, fun _ => 0⟩

/-- Request 0 is refused, request 1 is answered with a byte of data and a response. -/
def steadyConnection : Connection where
  params := ⟨⟨fun _ => 0, 0, 0⟩, [.recv [12, 0, 0, 0, 3, 0, 2, 0x20, 0, 0, 0, 0, 13, 0],
    .recv [0, 0, 2, 0, 0x99, 0x99, 1, 0, 0, 0, 7, 12, 0, 0, 0, 3, 0, 1, 0x20, 1, 0, 0, 0]], 1⟩
  transactionId := 0
  sender := ⟨[12, 12], []⟩
  maxPacketSize := 512

theorem own_response_witness :
    ∃ r r', perform .usb roomyHost steadyConnection operation (.transaction (.getData true)) = some r ∧
      perform .usb roomyHost r.conn operation (.transaction (.getData true)) = some r' ∧
      r'.ret = ptpRcOk ∧ r'.ptp.transactionId = r.conn.transactionId := by
  have hrun : ((perform .usb roomyHost steadyConnection operation
      (.transaction (.getData true))).bind fun r =>
        (perform .usb roomyHost r.conn operation (.transaction (.getData true))).map fun r' =>
          (r.answered, r.conn.transactionId, r'.ret)) = some (true, 1, ptpRcOk) := by
    decide +kernel
  obtain ⟨r, hr, hrest⟩ := Option.bind_eq_some_iff.mp hrun
  obtain ⟨r', hr', hfields⟩ := Option.map_eq_some_iff.mp hrest
  simp only [Prod.mk.injEq] at hfields
  obtain ⟨hread, hid, hok⟩ := hfields
  have hfirst : Answer .usb operation.code 0 (.getData ⟨none, 0, true⟩)
      [12, 0, 0, 0, 3, 0, 2, 0x20, 0, 0, 0, 0] :=
    .response ⟨⟨by decide, by decide, by decide, by decide⟩, by decide⟩
  have hsecond : Answer .usb operation.code 1 (.getData ⟨none, 0, true⟩)
      (([13, 0, 0, 0, 2, 0, 0x99, 0x99, 1, 0, 0, 0] ++ [7]) ++
        [12, 0, 0, 0, 3, 0, 1, 0x20, 1, 0, 0, 0]) :=
    .data (.usb ⟨by decide, by decide, by decide, by decide⟩)
      ⟨⟨by decide, by decide, by decide, by decide⟩, by decide⟩
  rw [← hid] at hsecond
  exact ⟨r, r', hr, hr', hok, own_response .usb steadyConnection r.conn _ _ [] roomyHost operation
    (.transaction (.getData true)) r' ⟨by decide, by decide, by decide, fun _ => rfl⟩ (by decide)
    (.answered .start hr hfirst hread) hsecond hr' hok⟩

/-- One byte of data and the response to request 0, then the response to request 1. -/
def abortedConnection : Connection where
  params := ⟨⟨fun _ => 0, 0, 0⟩, [.recv [13, 0, 0, 0, 2, 0, 0x99, 0x99, 0, 0, 0, 0, 7],
    .recv [12, 0, 0, 0, 3, 0, 1, 0x20, 0, 0, 0, 0], .recv [12, 0, 0, 0, 3, 0, 1, 0x20, 1, 0, 0, 0]], 1⟩
  transactionId := 0
  sender := ⟨[12, 12], []⟩
  maxPacketSize := 512

/-- The handler refuses the byte; the next transaction accepts the response that the
first one has left. -/
theorem stale_response_accepted :
    ∃ r r', perform .usb roomyHost abortedConnection operation
        (.getdataTransaction ⟨some (fun _ _ => ptpErrorIo), 0, false⟩) = some r ∧
      r.ret = ptpErrorIo ∧
      perform .usb roomyHost r.conn operation (.transaction .noData) = some r' ∧
      r'.ret = ptpRcOk ∧ r.conn.transactionId = 1 ∧ r'.ptp.transactionId = 0 := by
  have hrun : ((perform .usb roomyHost abortedConnection operation
      (.getdataTransaction ⟨some (fun _ _ => ptpErrorIo), 0, false⟩)).bind fun r =>
        (perform .usb roomyHost r.conn operation (.transaction .noData)).map fun r' =>
          (r.ret, r'.ret, r.conn.transactionId, r'.ptp.transactionId)) =
      some (ptpErrorIo, ptpRcOk, 1, 0) := by
    decide +kernel
  obtain ⟨r, hr, hrest⟩ := Option.bind_eq_some_iff.mp hrun
  obtain ⟨r', hr', hfields⟩ := Option.map_eq_some_iff.mp hrest
  simp only [Prod.mk.injEq] at hfields
  obtain ⟨hret, hret', hid, hresp⟩ := hfields
  exact ⟨r, r', hr, hret, hr', hret', hid, hresp⟩

end PtpTransaction
