import Chdkptp.PtpTransaction

/-!
# CHDK operations that receive data

The data phase says how much memory is allocated, the response how much of it is
used, and for `getmem` the caller says it. Nothing compares the two.
-/

namespace PtpChdk

open ByteMemory ByteStream PtpBuffer PtpUsb PtpIp PtpIpRead PtpIpData PtpSend PtpTransaction

/-! ## The operations -/

abbrev ptpOcChdk : UInt16 := 0x9999

namespace PtpChdkCommand

abbrev getMemory : UInt32 := 1
abbrev readScriptMsg : UInt32 := 10
abbrev getDisplayData : UInt32 := 12
abbrev remoteCaptureGetData : UInt32 := 14

end PtpChdkCommand

def chdkRequest (nparam : UInt8) (param1 param2 param3 param4 : UInt32) : PTPContainer :=
  ⟨ptpOcChdk, 0, 0, param1, param2, param3, param4, 0, nparam⟩

/-- `ptp_chdk_script_msg`; of `data` the memory that it is copied from. -/
structure ScriptMsg where
  size : UInt32
  scriptId : UInt32
  type : UInt32
  subtype : UInt32
  data : Option (List UInt8)

def ptpChdkReadScriptMsg (bus : Bus) (host : Host) (c : Connection) :
    Option (UInt16 × Option ScriptMsg × Connection) := do
  let r ← ptpTransaction bus host c (chdkRequest 1 PtpChdkCommand.readScriptMsg 0 0 0) (.getData false)
  if r.ret ≠ ptpRcOk then some (r.ret, none, r.conn)
  else
    some (r.ret, some ⟨r.ptp.param4, r.ptp.param3, r.ptp.param1, r.ptp.param2, r.retData⟩, r.conn)

/-- `ptp_chdk_rc_chunk`. -/
structure RcChunk where
  size : UInt32
  last : Bool
  offset : UInt32
  data : Option (List UInt8)

/-- The chunk is filled from the container whatever has been returned. -/
def ptpChdkRcgetchunk (bus : Bus) (host : Host) (c : Connection) (fmt : UInt32) :
    Option (UInt16 × RcChunk × Connection) := do
  let r ← ptpTransaction bus host c (chdkRequest 2 PtpChdkCommand.remoteCaptureGetData fmt 0 0)
    (.getData false)
  some (r.ret, ⟨r.ptp.param1, r.ptp.param2 = 0, r.ptp.param3, r.retData⟩, r.conn)

/-- The return code, `*data` and `*data_size`. -/
def ptpChdkGetLiveData (bus : Bus) (host : Host) (c : Connection) (flags : UInt32) :
    Option (UInt16 × Option (List UInt8) × UInt32 × Connection) := do
  let r ← ptpTransaction bus host c (chdkRequest 2 PtpChdkCommand.getDisplayData flags 0 0)
    (.getData false)
  if r.ret ≠ ptpRcOk then some (r.ret, none, 0, r.conn)
  else some (r.ret, r.retData, r.ptp.param1, r.conn)

/-- The return code and `*buf`. -/
def ptpChdkGetMemory (bus : Bus) (host : Host) (c : Connection) (start num flags : UInt32) :
    Option (UInt16 × Option (List UInt8) × Connection) := do
  let r ← ptpTransaction bus host c (chdkRequest 4 PtpChdkCommand.getMemory start num flags)
    (.getData false)
  some (r.ret, r.retData, r.conn)

/-! ## The Lua functions -/

inductive Thrown where
  | ptp (code : UInt16)
  | critical (etype msg : String)
  deriving DecidableEq, Repr

/-- Memory of which `size` bytes are copied or handed to an lbuf. -/
structure Exposed where
  size : Nat
  data : Option (List UInt8)

/-- The bytes that are used have been received. -/
def Exposed.Contained (e : Exposed) : Prop := e.size ≤ (e.data.getD []).length

/-- What the `memcpy` of `ptp_chdk_read_script_msg` copies for `chdk_read_msg`. -/
def chdkReadMsg (bus : Bus) (host : Host) (c : Connection) : Option (Except Thrown Exposed) := do
  let (ret, msg, _) ← ptpChdkReadScriptMsg bus host c
  match msg with
  | none => some (.error (.ptp ret))
  | some msg => some (.ok ⟨msg.size.toNat, msg.data⟩)

def chdkCaptureGetChunk (bus : Bus) (host : Host) (c : Connection) (fmt : UInt32) :
    Option (Except Thrown Exposed) := do
  let (ret, chunk, _) ← ptpChdkRcgetchunk bus host c fmt
  if ret ≠ ptpRcOk then some (.error (.ptp ret))
  else some (.ok ⟨chunk.size.toNat, chunk.data⟩)

def chdkGetLiveData (bus : Bus) (host : Host) (c : Connection) (flags : UInt32) :
    Option (Except Thrown Exposed) := do
  let (ret, data, dataSize, _) ← ptpChdkGetLiveData bus host c flags
  if ret ≠ ptpRcOk then some (.error (.ptp ret))
  else if data.isNone then some (.error (.critical "internal_error" "no data"))
  else if dataSize = 0 then some (.error (.critical "internal_error" "zero data size"))
  else some (.ok ⟨dataSize.toNat, data⟩)

inductive Dest where
  | string
  | number
  | lbuf
  /-- Any other text. -/
  | other
  deriving DecidableEq, Repr

/-- How much of the memory `chdk_getmem` looks at; a number is an `unsigned`. -/
def Dest.size (count : UInt32) : Dest → Nat
  | .string => count.toNat
  | .number => 4
  | .lbuf => count.toNat
  | .other => 0

def chdkGetmem (bus : Bus) (host : Host) (c : Connection) (addr count : UInt32) (dest : Dest)
    (flags : UInt32) : Option (Except Thrown Exposed) := do
  let (ret, buf, _) ← ptpChdkGetMemory bus host c addr count flags
  if ret ≠ ptpRcOk then some (.error (.ptp ret))
  else some (.ok ⟨dest.size count, buf⟩)

/-! ## Sizes -/

inductive Command where
  | readMsg
  | captureGetChunk (fmt : UInt32)
  | getLiveData (flags : UInt32)
  | getmem (addr count : UInt32) (dest : Dest) (flags : UInt32)
  deriving DecidableEq, Repr

def Command.run (bus : Bus) (host : Host) (c : Connection) :
    Command → Option (Except Thrown Exposed)
  | .readMsg => chdkReadMsg bus host c
  | .captureGetChunk fmt => chdkCaptureGetChunk bus host c fmt
  | .getLiveData flags => chdkGetLiveData bus host c flags
  | .getmem addr count dest flags => chdkGetmem bus host c addr count dest flags

def Command.request : Command → PTPContainer
  | .readMsg => chdkRequest 1 PtpChdkCommand.readScriptMsg 0 0 0
  | .captureGetChunk fmt => chdkRequest 2 PtpChdkCommand.remoteCaptureGetData fmt 0 0
  | .getLiveData flags => chdkRequest 2 PtpChdkCommand.getDisplayData flags 0 0
  | .getmem addr count _ flags => chdkRequest 4 PtpChdkCommand.getMemory addr count flags

/-- The size that is used with a response. -/
def Command.size (resp : PTPContainer) : Command → Nat
  | .readMsg => resp.param4.toNat
  | .captureGetChunk _ => resp.param1.toNat
  | .getLiveData _ => resp.param1.toNat
  | .getmem _ count dest _ => dest.size count

/-- What a command makes of its transaction. -/
def Command.result (command : Command) (r : Transacted) : Except Thrown Exposed :=
  if r.ret ≠ ptpRcOk then .error (.ptp r.ret)
  else
    match command with
    | .getLiveData _ =>
      if r.retData.isNone then .error (.critical "internal_error" "no data")
      else if r.ptp.param1 = 0 then .error (.critical "internal_error" "zero data size")
      else .ok ⟨command.size r.ptp, r.retData⟩
    | _ => .ok ⟨command.size r.ptp, r.retData⟩

theorem Command.run_eq (bus : Bus) (host : Host) (c : Connection) (command : Command) :
    command.run bus host c =
      (ptpTransaction bus host c command.request (.getData false)).map command.result := by
  cases command with
  | readMsg =>
    simp only [Command.run, Command.request, chdkReadMsg, ptpChdkReadScriptMsg]
    generalize ptpTransaction bus host c _ _ = q
    cases q with
    | none => rfl
    | some r =>
      by_cases hok : r.ret = ptpRcOk <;>
        simp only [bind, Option.bind, Option.map, Command.result, Command.size, hok, ne_eq,
          not_true_eq_false, not_false_eq_true, if_true, if_false]
  | captureGetChunk fmt =>
    simp only [Command.run, Command.request, chdkCaptureGetChunk, ptpChdkRcgetchunk]
    generalize ptpTransaction bus host c _ _ = q
    cases q with
    | none => rfl
    | some r =>
      by_cases hok : r.ret = ptpRcOk <;>
        simp only [bind, Option.bind, Option.map, Command.result, Command.size, hok, ne_eq,
          not_true_eq_false, not_false_eq_true, if_true, if_false]
  | getLiveData flags =>
    simp only [Command.run, Command.request, chdkGetLiveData, ptpChdkGetLiveData]
    generalize ptpTransaction bus host c _ _ = q
    cases q with
    | none => rfl
    | some r =>
      by_cases hok : r.ret = ptpRcOk
      · simp only [bind, Option.bind, Option.map, Command.result, Command.size, hok, ne_eq,
          not_true_eq_false, if_false]
        split
        · rfl
        · split <;> rfl
      · simp only [bind, Option.bind, Option.map, Command.result, hok, ne_eq, not_false_eq_true,
          if_true]
  | getmem addr count dest flags =>
    simp only [Command.run, Command.request, chdkGetmem, ptpChdkGetMemory]
    generalize ptpTransaction bus host c _ _ = q
    cases q with
    | none => rfl
    | some r =>
      by_cases hok : r.ret = ptpRcOk <;>
        simp only [bind, Option.bind, Option.map, Command.result, Command.size, hok, ne_eq,
          not_true_eq_false, not_false_eq_true, if_true, if_false]

theorem Command.result_ok {command : Command} {r : Transacted} {e : Exposed}
    (h : command.result r = .ok e) : r.ret = ptpRcOk ∧ e = ⟨command.size r.ptp, r.retData⟩ := by
  by_cases hok : r.ret = ptpRcOk
  · refine ⟨hok, ?_⟩
    simp only [Command.result, hok, ne_eq, not_true_eq_false, if_false] at h
    cases command with
    | getLiveData flags =>
      simp only at h
      split at h
      · cases h
      · split at h
        · cases h
        · cases h
          rfl
    | readMsg =>
      cases h
      rfl
    | captureGetChunk fmt =>
      cases h
      rfl
    | getmem addr count dest flags =>
      cases h
      rfl
  · simp only [Command.result, hok, ne_eq, not_false_eq_true, if_true, reduceCtorEq] at h

/-- A transaction that succeeds with data is exposed, unless the size is zero. -/
theorem Command.ok_result {command : Command} {r : Transacted} {data : List UInt8}
    (hok : r.ret = ptpRcOk) (hdata : r.retData = some data) (hsize : 0 < command.size r.ptp) :
    command.result r = .ok ⟨command.size r.ptp, r.retData⟩ := by
  simp only [Command.result, hok, ne_eq, not_true_eq_false, if_false]
  cases command with
  | getLiveData flags =>
    have hparam : r.ptp.param1 ≠ 0 := by
      intro hzero
      rw [Command.size, hzero] at hsize
      exact absurd hsize (by decide)
    simp only [hdata, Option.isNone_some, Bool.false_eq_true, if_false, hparam]
  | readMsg => rfl
  | captureGetChunk fmt => rfl
  | getmem addr count dest flags => rfl

/-! ## Transactions that succeed -/

theorem sendreq_ok (bus : Bus) {c : Connection} (ptp : PTPContainer) (h : c.sender.results = [0]) :
    (sendreqFunc bus c ptp).1 = ptpRcOk := by
  cases bus with
  | usb => simp [sendreqFunc, ptpUsbSendreq, checked, ptpUsbWriteFunc, Sender.call, h]
  | tcp => simp [sendreqFunc, ptpTcpSendreq, checked, ptpTcpWriteFunc, Sender.call, h]

theorem getdata_supplied {bus : Bus} {params : PTPParams} {sessionId : UInt32} {ptp : PTPContainer}
    {data bytes after : List UInt8} (hp : Ready params sessionId (bytes ++ after))
    (ht : Trickle params) (hd : DataPhaseOf ptp.code data bus bytes)
    (hsmall : bus = .usb → data.length < 2 ^ 31) (hafter : after ≠ []) :
    ∃ r, getdataFunc bus roomyHost params ptp ⟨none, 0, false⟩ = some r ∧ r.ret = ptpRcOk ∧
      Ready r.params sessionId after := by
  cases hd with
  | usb hh =>
    rw [List.append_assoc] at hp
    have hg : Receiver (fun n => roomyHost.malloc n.toNat) ⟨none, 0, false⟩ data.length :=
      ⟨(fun handler h => by cases h), (fun h => absurd rfl h), (fun _ => Or.inr rfl)⟩
    obtain ⟨r, hr, hret, _, _, hready⟩ := getdata_spec hp hh (hsmall rfl) hafter hg
    exact ⟨_, by rw [getdataFunc, hr]; rfl, hret, hready⟩
  | tcp hstart hpackets =>
    rw [List.append_assoc] at hp
    have htotal : data.length < 2 ^ 64 := by
      rw [← hstart.total]
      exact UInt64.toNat_lt _
    have hg : TcpReceiver (fun n => roomyHost.malloc n.toNat) ⟨none, 0, false⟩ data.length :=
      ⟨(fun handler h => by cases h), (fun _ => Or.inr rfl)⟩
    rcases getdata_run (R := True) roomyHost.stack hp.valid (fun _ => hp.reliable) hp.stream hstart
      hpackets.run htotal (fun _ => .inr ht) (fun _ => hg) with
      ⟨r, hr, hdelivered, _, _⟩ | ⟨hno, _⟩
    · exact ⟨_, by rw [getdataFunc, hr]; rfl, hdelivered.ret, hdelivered.valid,
        hdelivered.reliable trivial, hdelivered.stream, hdelivered.session.trans hp.session⟩
    · exact absurd trivial hno

theorem getresp_supplied {bus : Bus} {params : PTPParams} {sessionId id : UInt32}
    {resp : PTPContainer} {response rest : List UInt8}
    (hp : Ready params sessionId (response ++ rest)) (hh : Response bus id response)
    (hcode : (unpack bus 0 response).code = resp.code ∨ (unpack bus 0 response).code = ptpRcOk) :
    ∃ q, getrespFunc bus params resp = some q ∧ q.ret = ptpRcOk := by
  cases bus with
  | usb =>
    obtain ⟨q, hq, hresult, _⟩ := getresp_spec resp hp hh.1
    refine ⟨q, hq, ?_⟩
    have haccepted : responseResult sessionId resp response =
        (ptpRcOk, unpackResponse sessionId (container response)) := if_pos hcode
    rw [haccepted] at hresult
    exact congrArg Prod.fst hresult
  | tcp =>
    obtain ⟨p, hread, hpok, hpspec⟩ :=
      readControl_whole (fun _ => 0) hp.valid hh.1.whole hp.stream
    have hret := hpok hp.reliable
    have hpkt := (hpspec hret).1
    have hkind : p.pkt.type = ptpipTypeResp := by
      rw [hpkt]
      exact hh.1.type_blit _
    have hresp : respCode p.pkt = (unpack .tcp 0 response).code := by
      rw [hpkt]
      rfl
    simp only [getrespFunc, ptpTcpGetresp, hread, bind, Option.bind, hret, hkind, hresp, ne_eq,
      not_true_eq_false, if_false]
    refine ⟨_, rfl, ?_⟩
    by_cases hsame : (unpack .tcp 0 response).code = resp.code
    · simp only [hsame, not_true_eq_false, if_false]
    · simp only [hsame, not_false_eq_true, if_true]
      exact hcode.resolve_left hsame

/-- A connection to a device that sends byte by byte. -/
def supply (S : List UInt8) : Connection :=
  ⟨⟨⟨fun _ => 0, 0, 0⟩, singles S, 1⟩, 0, ⟨[0], []⟩, 512⟩

theorem supply_ready (S : List UInt8) : Ready (supply S).params 1 S := by
  have ht := singles_trickle S 1
  exact ⟨ht.valid, ht.reliable, pending_singles S, rfl⟩

theorem Response.ne_nil {bus : Bus} {id : UInt32} {response : List UInt8}
    (h : Response bus id response) : response ≠ [] := by
  rintro rfl
  cases bus with
  | usb => exact absurd h.1.low (by decide)
  | tcp => exact absurd h.1.low (by decide)

/-- The response makes a request of CHDK succeed. -/
def Succeeds (bus : Bus) (response : List UInt8) : Prop :=
  (unpack bus 0 response).code = ptpOcChdk ∨ (unpack bus 0 response).code = ptpRcOk

theorem transaction_supplied {bus : Bus} {id : UInt32} {ptp : PTPContainer}
    {data bytes response : List UInt8} (rest : List UInt8) (hcode : ptp.code = ptpOcChdk)
    (hd : DataPhaseOf ptpOcChdk data bus bytes) (hh : Response bus id response)
    (hok : Succeeds bus response) (hsmall : bus = .usb → data.length < 2 ^ 31) :
    ∃ r, ptpTransaction bus roomyHost (supply (bytes ++ (response ++ rest))) ptp (.getData false) =
      some r ∧ r.ret = ptpRcOk := by
  rw [← hcode] at hd
  have hafter : response ++ rest ≠ [] := by
    intro h
    exact Response.ne_nil hh (List.append_eq_nil_iff.mp h).1
  have hphase : DataPhaseOf ({ ptp with transactionId := 0, sessionId := 1 } : PTPContainer).code
      data bus bytes := hd
  have hready := supply_ready (bytes ++ (response ++ rest))
  obtain ⟨d, hget, hret, hready'⟩ := getdata_supplied hready (singles_trickle _ 1) hphase hsmall hafter
  have haccepted : (unpack bus 0 response).code = ptp.code ∨
      (unpack bus 0 response).code = ptpRcOk := by
    rw [hcode]
    exact hok
  obtain ⟨q, hresp, hqret⟩ : ∃ q, getrespFunc bus d.params
      { ptp with transactionId := 0, sessionId := 1 } = some q ∧ q.ret = ptpRcOk :=
    getresp_supplied hready' hh haccepted
  simp only [ptpTransaction, transact]
  generalize hsend : sendreqFunc bus _ _ = sent
  obtain ⟨ret, sender⟩ := sent
  have hsent : ret = ptpRcOk := by
    have h := congrArg Prod.fst hsend
    rwa [sendreq_ok bus _ rfl, eq_comm] at h
  subst hsent
  have hsession : (supply (bytes ++ (response ++ rest))).params.sessionId = 1 := rfl
  have hid : (supply (bytes ++ (response ++ rest))).transactionId = 0 := rfl
  simp only [hsession, hid, hget, hret, respond, hresp, bind, Option.bind, ne_eq,
    not_true_eq_false, if_false]
  exact ⟨_, rfl, hqret⟩

/-- The sizes are within what has been received, whatever the device, the connection and
the machine do, exactly if the response says so. -/
theorem sizes_received_iff (bus : Bus) (command : Command) (id : UInt32)
    (data bytes response rest : List UInt8) (hd : DataPhaseOf ptpOcChdk data bus bytes)
    (hh : Response bus id response) :
    (∀ host c e, Valid c.params.pktBuf → stream c.params = bytes ++ (response ++ rest) →
      command.run bus host c = some (.ok e) → e.Contained) ↔
    (Succeeds bus response → (bus = .usb → data.length < 2 ^ 31) →
      command.size (unpack bus 0 response) ≤ data.length) := by
  have hcode : command.request.code = ptpOcChdk := by
    cases command <;> rfl
  have hphase := hd
  rw [← hcode] at hphase
  -- what an OK transaction has received
  have hreceived : ∀ host c r, Left c.params (bytes ++ (response ++ rest)) →
      ptpTransaction bus host c command.request (.getData false) = some r → r.ret = ptpRcOk →
      (r.retData = some data ∧ (bus = .usb → data.length < 2 ^ 31)) ∧ Succeeds bus response ∧
        command.size r.ptp = command.size (unpack bus 0 response) := by
    intro host c r hp hrun hok
    obtain ⟨haccepted, hdata⟩ := (transact_data hp hphase hh hrun).1 hok
    refine ⟨hdata rfl, ?_, ?_⟩
    · have hresponse := haccepted.code
      rwa [hcode] at hresponse
    · obtain ⟨sessionId, hfields⟩ := haccepted.fields
      rw [hfields]
      cases bus <;> cases command <;> rfl
  constructor
  · intro h hok hsmall
    by_contra hgt
    obtain ⟨r, hrun, hret⟩ := transaction_supplied rest hcode hd hh hok hsmall
    have hready := supply_ready (bytes ++ (response ++ rest))
    obtain ⟨⟨hdata, _⟩, _, hsize⟩ := hreceived _ _ r ⟨hready.valid, hready.stream⟩ hrun hret
    have hpos : 0 < command.size r.ptp := by omega
    have hresult := Command.ok_result hret hdata hpos
    have hcontained := h roomyHost _ _ hready.valid hready.stream
      (by rw [Command.run_eq, hrun, Option.map_some, hresult])
    rw [Exposed.Contained, hdata, hsize] at hcontained
    exact hgt hcontained
  · intro h host c e hv hs hrun
    rw [Command.run_eq] at hrun
    obtain ⟨r, hr, hresult⟩ := Option.map_eq_some_iff.mp hrun
    obtain ⟨hok, he⟩ := Command.result_ok hresult
    obtain ⟨⟨hdata, hsmall⟩, hsucceeds, hsize⟩ := hreceived host c r ⟨hv, hs⟩ hr hok
    rw [he, Exposed.Contained, hdata, hsize]
    exact h hsucceeds hsmall

/-- A message of 16 bytes is announced by the response, and one byte has come. -/
def shortMessage : List UInt8 := [13, 0, 0, 0, 2, 0, 0x99, 0x99, 0, 0, 0, 0, 7]

def longSize : List UInt8 :=
  [28, 0, 0, 0, 3, 0, 1, 0x20, 0, 0, 0, 0, 3, 0, 0, 0, 4, 0, 0, 0, 1, 0, 0, 0, 16, 0, 0, 0]

theorem sizes_received_iff_witness :
    (∀ host c e, Valid c.params.pktBuf → stream c.params = shortMessage ++ (longSize ++ []) →
      Command.readMsg.run .usb host c = some (.ok e) → e.Contained) ↔
    (Succeeds .usb longSize → (Bus.usb = .usb → [(7 : UInt8)].length < 2 ^ 31) →
      Command.readMsg.size (unpack .usb 0 longSize) ≤ [(7 : UInt8)].length) :=
  sizes_received_iff .usb .readMsg 0 [7] shortMessage longSize []
    (@DataPhaseOf.usb ptpOcChdk [7] [13, 0, 0, 0, 2, 0, 0x99, 0x99, 0, 0, 0, 0]
      ⟨by decide, by decide, by decide, by decide⟩)
    ⟨⟨by decide, by decide, by decide, by decide⟩, by decide⟩

def messageConnection : Connection where
  params := ⟨⟨fun _ => 0, 0, 0⟩, [.recv shortMessage, .recv longSize], 1⟩
  transactionId := 0
  sender := ⟨[16], []⟩
  maxPacketSize := 512

theorem long_size_used :
    ∃ e, Command.readMsg.run .usb roomyHost messageConnection = some (.ok e) ∧ e.size = 16 ∧
      e.data = some [7] ∧ ¬e.Contained := by
  have hrun : (chdkReadMsg .usb roomyHost messageConnection).map
      (fun q => q.toOption.map fun e => (e.size, e.data)) = some (some (16, some [7])) := by
    decide +kernel
  obtain ⟨q, hq, hfields⟩ := Option.map_eq_some_iff.mp hrun
  cases q with
  | error t => cases hfields
  | ok e =>
    simp only [Except.toOption, Option.map_some, Option.some.injEq, Prod.mk.injEq] at hfields
    refine ⟨e, hq, hfields.1, hfields.2, ?_⟩
    rw [Exposed.Contained, hfields.1, hfields.2]
    decide

end PtpChdk
