import Chdkptp.ActionSystem
import Chdkptp.LuaText
import Chdkptp.ResourceTrace

/-!
# Connections to cameras

The connection objects of `chdkptp.c` with their list, and what each call on one opens, uses
and closes. What libusb, the network and the camera answer is part of the call.
-/

namespace Connections

open ActionSystem LuaValue LuaText ResourceTrace

def PTP_RC_OK : UInt16 := 0x2001

/-- A libusb handle, a socket, the result of `getaddrinfo`. -/
inductive Res where
  | handle (h : Nat)
  | sock (s : Nat)
  | addrinfo (a : Nat)
  deriving DecidableEq

abbrev Trace := List (Event Res)

/-- What `api_throw_error` and `luaL_error` throw; the latter has no `etype`. -/
structure ApiError where
  etype : Option String
  msg : String
  deriving DecidableEq

def luaLError (msg : String) : ApiError := ⟨none, msg⟩

def apiThrowError (etype msg : String) : ApiError := ⟨some etype, msg⟩

/-! ## The devices on the busses -/

structure UsbEndpoint where
  bEndpointAddress : UInt8
  bmAttributes : UInt8
  wMaxPacketSize : UInt16
  deriving DecidableEq

/-- The first interface of a configuration. -/
structure UsbConfig where
  bNumInterfaces : UInt8
  bInterfaceClass : UInt8
  endpoint : List UsbEndpoint
  deriving DecidableEq

structure UsbDevice where
  filename : LuaString
  config : Option UsbConfig
  deriving DecidableEq

structure UsbBus where
  dirname : LuaString
  devices : List UsbDevice
  deriving DecidableEq

def USB_CLASS_PTP : UInt8 := 6
def USB_ENDPOINT_TYPE_BULK : UInt8 := 2
def USB_ENDPOINT_TYPE_INTERRUPT : UInt8 := 3
def USB_ENDPOINT_DIR_MASK : UInt8 := 0x80

/-- `USB_IS_PTP` -/
def usbIsPtp (dev : UsbDevice) : Bool :=
  match dev.config with
  | some config => 0 < config.bNumInterfaces && config.bInterfaceClass == USB_CLASS_PTP
  | none => false

def findDeviceByPath (busses : List UsbBus) (findBus findDev : LuaString) : Option UsbDevice :=
  busses.findSome? fun bus =>
    if findBus = bus.dirname then
      bus.devices.find? fun dev => usbIsPtp dev && findDev == dev.filename
    else none

/-! ## The state of a connection -/

/-- `PTP_USB`, with the packet size of `PTPParams`; NULL is `none`. -/
structure PtpUsb where
  bus : LuaString
  dev : LuaString
  handle : Option Nat := none
  inep : UInt8 := 0
  outep : UInt8 := 0
  intep : UInt8 := 0
  maxPacketSize : UInt16 := 0
  deriving DecidableEq

/-- `INVALID_SOCKET` is `none`. -/
structure PtpTcp where
  host : LuaString
  port : LuaString
  cmdSock : Option Nat := none
  eventSock : Option Nat := none
  ai : Option Nat := none
  connectionId : UInt32 := 0
  camGuid : List UInt8 := List.replicate 16 0
  deriving DecidableEq

def PtpUsb.device (usb : PtpUsb) : Option Res := usb.handle.map .handle

def PtpTcp.command (tcp : PtpTcp) : Option Res := tcp.cmdSock.map .sock

def PtpTcp.event (tcp : PtpTcp) : Option Res := tcp.eventSock.map .sock

def PtpTcp.addrinfo (tcp : PtpTcp) : Option Res := tcp.ai.map .addrinfo

inductive Transport where
  | usb (usb : PtpUsb)
  | tcp (tcp : PtpTcp)
  deriving DecidableEq

structure PtpConState where
  transport : Transport
  connected : Bool := false
  deriving DecidableEq

/-! ## USB -/

def findEndpoints (dev : UsbDevice) (usb : PtpUsb) : PtpUsb :=
  (dev.config.elim [] UsbConfig.endpoint).foldl (fun usb ep =>
    if ep.bmAttributes = USB_ENDPOINT_TYPE_BULK then
      if ep.bEndpointAddress &&& USB_ENDPOINT_DIR_MASK = USB_ENDPOINT_DIR_MASK then
        { usb with inep := ep.bEndpointAddress }
      else { usb with outep := ep.bEndpointAddress }
    else if ep.bmAttributes = USB_ENDPOINT_TYPE_INTERRUPT ∧
        ep.bEndpointAddress &&& USB_ENDPOINT_DIR_MASK = USB_ENDPOINT_DIR_MASK then
      { usb with intep := ep.bEndpointAddress }
    else usb) usb

/-- What one call of a method meets on USB: the devices, what `usb_open` returns and the codes
of the operations, and the devices when it closes the camera. -/
structure UsbAnswers where
  busses : List UsbBus := []
  usbOpen : Option Nat := none
  opensession : UInt16 := 0
  usbOpen2 : Option Nat := none
  opensession2 : UInt16 := 0
  getdeviceinfo : UInt16 := 0
  bussesClose : List UsbBus := []

/-- The packet size of the first endpoint. -/
def maxPacketSizeOf (dev : UsbDevice) : UInt16 :=
  let size := (dev.config.bind fun config => config.endpoint.head?).elim 0 UsbEndpoint.wMaxPacketSize
  if size = 0 then 512 else size

/-- `usb_set_configuration` and `usb_claim_interface` may fail unnoticed. -/
def initPtpUsb (usbOpen : Option Nat) (dev : UsbDevice) (usb : PtpUsb) : Bool × PtpUsb × Trace :=
  match usbOpen with
  | none => (false, usb, [])
  | some h =>
    (true, { usb with handle := some h, maxPacketSize := maxPacketSizeOf dev },
      [.opened (.handle h), .used (some (.handle h)), .used (some (.handle h))])

/-- With `usb_reset_on_close` the device is reset between. -/
def closeUsb (usbResetOnClose : Bool) (usb : PtpUsb) : Trace :=
  .used usb.device ::
    ((if usbResetOnClose then [.used usb.device] else []) ++
      [.closed usb.device])

/-- What `ptp_closesession` returns is only printed. -/
def closeCameraUsb (usbResetOnClose : Bool) (busses : List UsbBus) (usb : PtpUsb) : Trace :=
  match findDeviceByPath busses usb.bus usb.dev with
  | none => []
  | some _ => .used usb.device :: closeUsb usbResetOnClose usb

/-- `open_camera_dev_usb` from the failure of the first `ptp_opensession`: reset the device,
close it and start again. -/
def reopenCameraDevUsb (usbResetOnClose : Bool) (a : UsbAnswers) (dev : UsbDevice)
    (usb : PtpUsb) : Bool × PtpUsb × Trace :=
  let closing : Trace := .used usb.device :: .used usb.device ::
    closeUsb usbResetOnClose usb
  match initPtpUsb a.usbOpen2 dev (findEndpoints dev usb) with
  | (false, usb, opening) => (false, usb, closing ++ opening)
  | (true, usb, opening) =>
    (a.opensession2 = PTP_RC_OK, usb, closing ++ (opening ++ [.used usb.device]))

/-- `open_camera_dev_usb` once a session is open. -/
def startCameraDevUsb (usbResetOnClose : Bool) (a : UsbAnswers) (usb : PtpUsb) : Bool × Trace :=
  if a.getdeviceinfo = PTP_RC_OK then (true, [.used usb.device])
  else
    (false, .used usb.device :: closeCameraUsb usbResetOnClose a.bussesClose usb)

def openCameraDevUsb (usbResetOnClose : Bool) (a : UsbAnswers) (dev : UsbDevice)
    (usb : PtpUsb) : Bool × PtpUsb × Trace :=
  match initPtpUsb a.usbOpen dev (findEndpoints dev usb) with
  | (false, usb, opening) => (false, usb, opening)
  | (true, usb, opening) =>
    let session :=
      if a.opensession = PTP_RC_OK then (true, usb, [])
      else reopenCameraDevUsb usbResetOnClose a dev usb
    let trace := opening ++ .used usb.device :: session.2.2
    if session.1 then
      let start := startCameraDevUsb usbResetOnClose a session.2.1
      (start.1, session.2.1, trace ++ start.2)
    else (false, session.2.1, trace)

def connectCamUsb (usbResetOnClose : Bool) (a : UsbAnswers) (usb : PtpUsb) :
    Except ApiError Unit × PtpConState × Trace :=
  match findDeviceByPath a.busses usb.bus usb.dev with
  | none =>
    (.error (apiThrowError "connect_no_dev" "no matching device"), { transport := .usb usb }, [])
  | some dev =>
    let (ok, usb, trace) := openCameraDevUsb usbResetOnClose a dev usb
    (if ok then .ok () else .error (apiThrowError "connect_fail" "connection failed"),
      { transport := .usb usb, connected := ok }, trace)

/-! ## TCP -/

/-- What `socket` and `connect` answer for one address. -/
inductive Attempt where
  | noSocket
  | refused (s : Nat)
  | accepted (s : Nat)
  deriving DecidableEq

/-- The fields that are read of the camera's packet. -/
structure InitReply where
  length : UInt32
  type : UInt32
  connectionId : UInt32
  camGuid : List UInt8
  deriving DecidableEq

/-- What one call of a method meets on TCP; of a packet on the event channel `recv` gives the
count of bytes. -/
structure TcpAnswers where
  getaddrinfo : Option (Nat × List Attempt) := none
  sendInit : Bool := false
  recvInit : Option InitReply := none
  eventSocket : Option Nat := none
  eventConnect : Bool := false
  eventSend : Bool := false
  eventRecv : Int × UInt32 × UInt32 := (0, 0, 0)
  opensession : UInt16 := 0
  getdeviceinfo : UInt16 := 0

def PTPIP_TYPE_INIT_CMD_ACK : UInt32 := 0x2
def PTPIP_TYPE_INIT_EVENT_ACK : UInt32 := 0x4

/-- The loop over the addresses; it returns without a result where `socket` fails. -/
def tryAddresses : List Attempt → Option (Option Nat) × Trace
  | [] => (some none, [])
  | .noSocket :: _ => (none, [])
  | .refused s :: rest =>
    ((tryAddresses rest).1,
      .opened (.sock s) :: .used (some (.sock s)) :: .closed (some (.sock s)) ::
        (tryAddresses rest).2)
  | .accepted s :: _ => (some (some s), [.opened (.sock s), .used (some (.sock s))])

/-- A socket that could not be had is still connected, which fails; one that could not connect
is not kept. -/
def initEventChannelTcp (a : TcpAnswers) (tcp : PtpTcp) : Bool × PtpTcp × Trace :=
  let sock : Option Res := a.eventSocket.map .sock
  let opening : Trace := (sock.elim [] fun s => [.opened s]) ++ [.used sock]
  if a.eventSocket.isSome ∧ a.eventConnect then
    let tcp := { tcp with eventSock := a.eventSocket }
    if a.eventSend then
      let (r, length, type) := a.eventRecv
      (8 ≤ r ∧ (length.toNat : Int) = r ∧ type = PTPIP_TYPE_INIT_EVENT_ACK, tcp,
        opening ++ [.used sock, .used sock])
    else (false, tcp, opening ++ [.used sock])
  else (false, tcp, opening)

/-- `init_ptp_tcp` once the command channel and the event channel are there; the flag says
whether `connected` is set. -/
def startSessionTcp (a : TcpAnswers) (tcp : PtpTcp) : Bool × Bool × Trace :=
  if a.opensession = PTP_RC_OK then
    (a.getdeviceinfo = PTP_RC_OK, true, [.used tcp.command, .used tcp.command])
  else (false, false, [.used tcp.command])

/-- The packet is long enough and an acknowledgement. -/
def InitReply.acknowledges (reply : InitReply) : Bool :=
  34 ≤ reply.length && reply.type == PTPIP_TYPE_INIT_CMD_ACK

/-- What `init_ptp_tcp` returns, and what it leaves of the connection. -/
structure TcpInit where
  ok : Bool
  tcp : PtpTcp
  connected : Bool := false
  trace : Trace

/-- `init_ptp_tcp` with the command socket, which may be invalid: then `send` fails. -/
def initCommandChannelTcp (a : TcpAnswers) (tcp : PtpTcp) : TcpInit :=
  let command : Event Res := .used tcp.command
  if tcp.cmdSock.isSome ∧ a.sendInit then
    match a.recvInit with
    | none => { ok := false, tcp, trace := [command, command] }
    | some reply =>
      if reply.acknowledges then
        let tcp := { tcp with connectionId := reply.connectionId, camGuid := reply.camGuid }
        let event := initEventChannelTcp a tcp
        if event.1 then
          let session := startSessionTcp a event.2.1
          { ok := session.1, tcp := event.2.1, connected := session.2.1,
            trace := command :: command :: (event.2.2 ++ session.2.2) }
        else { ok := false, tcp := event.2.1, trace := command :: command :: event.2.2 }
      else { ok := false, tcp, trace := [command, command] }
  else { ok := false, tcp, trace := [command] }

def initPtpTcp (a : TcpAnswers) (tcp : PtpTcp) : TcpInit :=
  match a.getaddrinfo with
  | none => { ok := false, tcp, trace := [] }
  | some (ai, attempts) =>
    let trace := .opened (.addrinfo ai) :: (tryAddresses attempts).2
    match (tryAddresses attempts).1 with
    | none => { ok := false, tcp, trace := trace ++ [.closed (some (.addrinfo ai))] }
    | some sock =>
      let command := initCommandChannelTcp a { tcp with ai := some ai, cmdSock := sock }
      { command with trace := trace ++ command.trace }

def closeCameraTcp (connected : Bool) (tcp : PtpTcp) : PtpTcp × Trace :=
  ({ tcp with cmdSock := none, eventSock := none, ai := none },
    (if connected then [.used tcp.command] else []) ++
      (if tcp.cmdSock.isSome then [.closed tcp.command] else []) ++
      (if tcp.eventSock.isSome then [.closed tcp.event] else []) ++
      (if tcp.ai.isSome then [.closed tcp.addrinfo] else []))

/-! ## The methods -/

def closeCamera (usbResetOnClose : Bool) (busses : List UsbBus) (cs : PtpConState) :
    PtpConState × Trace :=
  match cs.transport with
  | .usb usb => (cs, closeCameraUsb usbResetOnClose busses usb)
  | .tcp tcp =>
    ({ cs with transport := .tcp (closeCameraTcp cs.connected tcp).1 },
      (closeCameraTcp cs.connected tcp).2)

def connectCamTcp (a : TcpAnswers) (tcp : PtpTcp) : Except ApiError Unit × PtpConState × Trace :=
  let r := initPtpTcp a tcp
  if r.ok then (.ok (), { transport := .tcp r.tcp, connected := r.connected }, r.trace)
  else
    let closed := closeCameraTcp r.connected r.tcp
    (.error (apiThrowError "connect_fail" "connection failed"), { transport := .tcp closed.1 },
      r.trace ++ closed.2)

/-- What a call meets on the transport of its connection. -/
structure Answers where
  usb : UsbAnswers := {}
  tcp : TcpAnswers := {}

def chdkConnect (usbResetOnClose : Bool) (a : Answers) (cs : PtpConState) :
    Except ApiError Unit × PtpConState × Trace :=
  if cs.connected then
    (.error (apiThrowError "connect_connected" "connection already connected"), cs, [])
  else
    match cs.transport with
    | .usb usb => connectCamUsb usbResetOnClose a.usb usb
    | .tcp tcp => connectCamTcp a.tcp tcp

/-- `close_connection`, which is `chdk_disconnect`. -/
def closeConnection (usbResetOnClose : Bool) (busses : List UsbBus) (cs : PtpConState) :
    PtpConState × Trace :=
  if cs.connected then
    let closed := closeCamera usbResetOnClose busses cs
    ({ closed.1 with connected := false }, closed.2)
  else (cs, [])

/-- The second word of the device status, where the request was answered. -/
def checkConnectionStatusUsb (devstatus : Option UInt16) : Bool := devstatus == some 0x2001

def chdkIsConnected (devstatus : Option UInt16) (cs : PtpConState) : PtpConState × Trace :=
  if cs.connected then
    match cs.transport with
    | .usb usb =>
      ({ cs with connected := checkConnectionStatusUsb devstatus }, [.used usb.device])
    | .tcp _ => (cs, [])
  else (cs, [])

/-- What goes to the camera of a connection: over USB to its handle, over TCP to its command
socket. -/
def Transport.channel : Transport → Option Res
  | .usb c => c.device
  | .tcp c => c.command

/-- A method with `CHDK_ENSURE_CONNECTED` that makes `n` transfers. -/
def ensureConnected (n : Nat) (cs : PtpConState) : Except ApiError Unit × Trace :=
  if cs.connected then (.ok (), List.replicate n (.used cs.transport.channel))
  else (.error (apiThrowError "ptp" "not connected"), [])

/-- `chdk_dev_status` asks for no connection; over TCP what it takes for a handle is none. -/
def chdkDevStatus (cs : PtpConState) : Trace :=
  match cs.transport with
  | .usb usb => [.used usb.device]
  | .tcp _ => [.used none]

/-- `chdk_connection_gc` -/
def chdkConnectionGc (usbResetOnClose : Bool) (busses : List UsbBus) (cs : PtpConState) : Trace :=
  if cs.connected then (closeCamera usbResetOnClose busses cs).2 else []

/-- `reset_device` with a local connection; `stalls` of the pipes are reset. -/
def resetDevice (usbResetOnClose : Bool) (usbOpen : Option Nat) (stalls : Nat) (dev : UsbDevice) :
    Trace :=
  match initPtpUsb usbOpen dev (findEndpoints dev { bus := [], dev := [] }) with
  | (false, _, opening) => opening
  | (true, usb, opening) =>
    opening ++ (List.replicate (7 + stalls) (.used usb.device) ++
      closeUsb usbResetOnClose usb)

/-! ## The list of connections -/

/-- The argument table of `chdk.connection`, its fields as `lua_tostring` gives them. -/
structure DevSpec where
  bus : Option LuaString := none
  dev : Option LuaString := none
  host : Option LuaString := none
  port : Option LuaString := none
  deriving DecidableEq

/-- What C sees of a Lua string. -/
def cstr (s : LuaString) : LuaString := s.takeWhile (· ≠ 0)

def getLuaDevspecUsb (spec : DevSpec) : Option (LuaString × LuaString) :=
  match spec.bus, spec.dev with
  | some bus, some dev => some (bus, dev)
  | _, _ => none

/-- Where a camera is. -/
inductive Address where
  | usb (bus dev : LuaString)
  | tcp (host port : LuaString)
  deriving DecidableEq

def dummy : LuaString := bytes "dummy".toList

def PTPIP_PORT_STR : LuaString := bytes "15740".toList

/-- `chdk_connection` up to the key; the size of the names is `LIBUSB_PATH_MAX`. -/
def devAddress (pathMax : Nat) : Option DevSpec → Except ApiError Address
  | none => usbAddress (some (dummy, dummy))
  | some spec =>
    if spec.host.isSome ∨ spec.port.isSome then
      if (getLuaDevspecUsb spec).isSome then
        .error (luaLError "cannot specify dev or bus with PTP/IP")
      else
        match spec.host with
        | none => .error (luaLError "missing host")
        | some host =>
          let port := spec.port.getD PTPIP_PORT_STR
          if pathMax ≤ (cstr host).length ∨ pathMax ≤ (cstr port).length then
            .error (luaLError "invalid PTP/IP spec")
          else .ok (.tcp (cstr host) (cstr port))
    else usbAddress (getLuaDevspecUsb spec)
where
  usbAddress : Option (LuaString × LuaString) → Except ApiError Address
    | none => .error (luaLError "invalid device spec")
    | some (bus, dev) =>
      if pathMax ≤ (cstr dev).length ∨ pathMax ≤ (cstr bus).length then
        .error (luaLError "invalid device spec")
      else .ok (.usb (cstr bus) (cstr dev))

/-- `con_key` -/
def conKey : Address → LuaString
  | .usb bus dev => bytes "usb:".toList ++ bus ++ byte '/' :: dev
  | .tcp host port => bytes "tcp:".toList ++ host ++ byte ':' :: port

/-- The bytes of `con_key`. -/
def conKeySize (pathMax : Nat) : Nat := pathMax * 2 + 4

/-- A new connection object. -/
def newConState : Address → PtpConState
  | .usb bus dev => { transport := .usb { bus, dev } }
  | .tcp host port => { transport := .tcp { host, port } }

def PtpConState.address (cs : PtpConState) : Address :=
  match cs.transport with
  | .usb usb => .usb usb.bus usb.dev
  | .tcp tcp => .tcp tcp.host tcp.port

end Connections
