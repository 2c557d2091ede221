import Chdkptp.FsUtil
import Chdkptp.LuaSerialize
import Chdkptp.LuaUtil
import Chdkptp.RequestProgram

/-!
# Remote capture

`con:capture_get_data` waits until the camera has data and calls a handler for each type
of data, which fetches it in chunks. The connection of the methods is `self`; the wait
goes through the global `con`.
-/

namespace RemoteCapture

open LuaValue LuaText LuaSerialize LuaUtil RequestProgram

/-! ## Cameras and the host -/

inductive CamError where
  | ptp (rc : Nat)
  | notConnected
  deriving DecidableEq, Repr

/-- What `con:script_status` returns. -/
structure ScriptStatus where
  run : Bool
  msg : Bool
  deriving DecidableEq, Repr

/-- What `con:capture_get_chunk` returns; `imgnum` is added by `rc_handler_store`. -/
structure Chunk where
  size : Nat
  offset : Option Nat
  last : Bool
  data : List UInt8
  imgnum : Option Int
  deriving DecidableEq, Repr

inductive Request where
  | scriptStatus
  | captureReady
  | captureGetChunk (fmt : Nat)
  deriving DecidableEq, Repr

def Reply : Request → Type
  | .scriptStatus => Except CamError ScriptStatus
  | .captureReady => Except CamError (Int × Int)
  | .captureGetChunk _ => Except CamError Chunk

inductive LuaError where
  | camera (e : CamError)
  | text (msg : LuaString)
  | thrown (etype msg : LuaString)
  deriving DecidableEq, Repr

/-- Why a call does not return. -/
inductive Stop where
  | error (e : LuaError)
  /-- The run is looked at no further. -/
  | unfinished
  deriving DecidableEq, Repr

/-- What a connection knows of its camera. -/
structure ConInfo where
  apiver : Option (Int × Int)
  serialNumber : Option LuaString
  productId : Nat
  deriving DecidableEq, Repr

/-- `con:is_ver_compatible`. -/
def isVerCompatible (self : ConInfo) (major minor : Int) : Bool :=
  match self.apiver with
  | none => false
  | some (MAJOR, MINOR) => !(MAJOR ≠ major ∨ MINOR < minor)

/-- `con:capture_is_api_compatible`. -/
def captureIsApiCompatible (self : ConInfo) : Bool := isVerCompatible self 2 5

/-- The state for substitutions in file names. -/
structure SubstState where
  serial : LuaString
  pid : Nat
  ldate : Int
  /-- The clock that `lts` and `lms` are computed from. -/
  now : Int × Nat
  shotseq : Int
  imgfmt : LuaString
  ext : LuaString
  imgpfx : LuaString
  imgnum : LuaString
  basename : LuaString
  name : LuaString
  deriving DecidableEq, Repr

def newSubstState : SubstState :=
  ⟨[], 0, 0, (0, 0), 0, [], [], [], [], [], []⟩

/-- `con:set_subst_con_state`. -/
def setSubstConState (self : ConInfo) (state : SubstState) : SubstState :=
  { state with serial := self.serialNumber.getD [], pid := self.productId }

/-- What is stored in `rets`: a value, or a table with that value. -/
inductive Ret where
  | value (v : Chunk)
  | table (v : Chunk)
  deriving DecidableEq, Repr

abbrev Rets := Fields Nat Ret

/-- What a call works on: the host, the substitution state and the values to return. -/
structure Machine (σ : Type) where
  host : σ
  subst : Option SubstState
  rets : Rets

/-- What the host does with its own state. -/
structure HostOps (σ : Type) where
  windows : Bool
  sleep : Int → σ → σ
  /-- `os.time()` and `ustime.new()`. -/
  time : σ → Int × (Int × Nat)
  /-- `fsutil.mkdir_parent` and `fsutil.open_e`. -/
  openFile : LuaString → σ → Except LuaError Unit × σ
  seek : Nat → σ → σ
  fwrite : List UInt8 → σ → Except LuaError Unit × σ
  close : σ → σ
  /-- Whether `dng_info.hdr` is set. -/
  dngHdr : σ → Bool
  /-- `chdku.rc_process_dng`, and what is written to the file then. -/
  processDng : Chunk → σ → Except LuaError (List UInt8) × σ
  /-- `subst:run`. -/
  substRun : SubstState → LuaString → Except LuaError LuaString
  /-- The border that `#rets` returns. -/
  border : Rets → Nat

variable {σ : Type}

/-- A method of a connection: requests to its camera. -/
abbrev Method (σ : Type) (α : Type) := Action (Machine σ) Stop Request Reply α

namespace Method

def error {α : Type} (e : LuaError) : Method σ α := Action.throw (.error e)

def request {α : Type} (r : Except CamError α) : Method σ α :=
  match r with
  | .ok a => pure a
  | .error e => error (.camera e)

def scriptStatus : Method σ ScriptStatus := do
  let r ← Action.ask Request.scriptStatus
  request r

def captureReady : Method σ (Int × Int) := do
  let r ← Action.ask Request.captureReady
  request r

def captureGetChunk (fmt : Nat) : Method σ Chunk := do
  let r ← Action.ask (Request.captureGetChunk fmt)
  request r

def onHost (f : σ → σ) : Method σ Unit := Action.modify fun m => { m with host := f m.host }

/-- Something that the host does and that may fail. -/
def tryHost {α : Type} (f : σ → Except LuaError α × σ) : Method σ α :=
  Action.local_ fun m =>
    match f m.host with
    | (.ok a, host) => (.ok a, { m with host })
    | (.error e, host) => (.error (.error e), { m with host })

def pcall {α : Type} (x : Method σ α) : Method σ (Except LuaError α) := do
  match ← Action.attempt x with
  | .ok a => pure (.ok a)
  | .error (.error e) => pure (.error e)
  | .error .unfinished => Action.throw .unfinished

end Method

open Method

/-! ## Waiting -/

structure WaitOpts where
  msg : Option Bool
  run : Option Bool
  rsdata : Bool
  timeout : Option Int
  timeoutError : Bool
  poll : Option Int
  /-- `some none` when it is set to false. -/
  pollstart : Option (Option Int)
  initwait : Option Int
  deriving DecidableEq, Repr

structure WaitStatus where
  run : Bool
  msg : Bool
  rsdata : Option Int
  rsimgnum : Option Int
  timeout : Bool
  deriving DecidableEq, Repr

def noRemoteCapture : LuaError := .text (bytes "camera does not support remote capture".toList)

def timedOut : LuaError := .thrown (bytes "timeout".toList) (bytes "timed out".toList)

/-- The loop of `con:wait_status`, looked at for so many polls; `pollstart` is whether
the interval grows. -/
def waitLoop (host : HostOps σ) (opts : WaitOpts) (poll : Int) (pollstart : Bool) :
    Nat → (timeleft sleeptime : Int) → Method σ WaitStatus
  | 0, _, _ => Action.throw .unfinished
  | polls + 1, timeleft, sleeptime => do
    let status ← scriptStatus
    let (rsdata, imgnum) ← if opts.rsdata then captureReady else pure (0, 0)
    if rsdata ≠ 0 then
      pure ⟨status.run, status.msg, some rsdata, some imgnum, false⟩
    else
      let status : WaitStatus :=
        ⟨status.run, status.msg, if opts.rsdata then some rsdata else none, none, false⟩
      if some status.run = opts.run ∨ some status.msg = opts.msg then pure status
      else if timeleft > 0 then
        let sleeptime :=
          if pollstart ∧ sleeptime < poll then
            if sleeptime * 2 > poll then poll else sleeptime * 2
          else sleeptime
        let sleeptime := if timeleft < sleeptime then timeleft else sleeptime
        onHost (host.sleep sleeptime)
        waitLoop host opts poll pollstart polls (timeleft - sleeptime) sleeptime
      else if opts.timeoutError then error timedOut
      else pure { status with timeout := true }

/-- `opts.poll`, which is at least 50. -/
def WaitOpts.interval (opts : WaitOpts) : Int := max (opts.poll.getD 250) 50

/-- `opts.pollstart`, none when it is false. -/
def WaitOpts.first (opts : WaitOpts) : Option Int := opts.pollstart.getD (some 4)

/-- `con:wait_status`. -/
def waitStatus (host : HostOps σ) (self : ConInfo) (opts : WaitOpts) (polls : Nat) :
    Method σ WaitStatus := do
  onHost ((opts.initwait.map host.sleep).getD id)
  if opts.rsdata ∧ ¬captureIsApiCompatible self then error noRemoteCapture
  else
    waitLoop host opts opts.interval opts.first.isSome polls
      (opts.timeout.getD 86400000 - opts.initwait.getD 0) (opts.first.getD opts.interval)

/-! ## Handlers -/

/-- The entry of `chdku.remotecap_dtypes`, the image number and the type. -/
structure HData where
  type : Nat
  ext : LuaString
  id : Nat
  maxChunks : Nat
  imgnum : Int
  deriving DecidableEq, Repr

/-- `f(lcon,hdata)`, which asks the camera of the connection that it is given. -/
abbrev Handler (σ : Type) := HData → Method σ Unit

/-- `hdata.store_return`. -/
def storeReturn (host : HostOps σ) (hdata : HData) (val : Chunk) : Method σ Unit :=
  Action.modify fun m =>
    if (m.rets.lookup hdata.type).isSome then
      { m with rets := m.rets.insert (host.border m.rets + 1) (.value val) }
    else { m with rets := m.rets.insert hdata.type (.table val) }

/-- `repeat ... until chunk.last or n_chunks > hdata.max_chunks`, from which `left` passes
remain; the number of chunks. -/
def chunkLoop (hdata : HData) (each : Chunk → Method σ Unit) :
    (left nChunks : Nat) → Method σ Nat
  | 0, nChunks => pure nChunks
  | left + 1, nChunks => do
    let chunk ← captureGetChunk hdata.id
    each chunk
    if chunk.last then pure (nChunks + 1) else chunkLoop hdata each left (nChunks + 1)

def exceededMaxChunks : LuaError :=
  .thrown (bytes "protocol".toList) (bytes "rc_handler_store: exceeded max_chunks".toList)

/-- `chdku.rc_handler_store`, with a function to store with or without. -/
def rcHandlerStore (host : HostOps σ) (store : Option (Chunk → Method σ Unit)) : Handler σ :=
  fun hdata => do
    let storeFn := store.getD (storeReturn host hdata)
    let nChunks ← chunkLoop hdata
      (fun chunk => storeFn { chunk with imgnum := some hdata.imgnum }) (hdata.maxChunks + 1) 0
    if nChunks > hdata.maxChunks then error exceededMaxChunks else pure ()

/-- The options of the handlers that write files. -/
structure HOpts where
  dst : Option LuaString
  dstDir : Option LuaString
  ext : Option LuaString
  fmt : Option LuaString
  deriving DecidableEq, Repr

/-- `string.format('%04d', n)`. -/
def format04d (n : Int) : LuaString :=
  if n < 0 then byte '-' :: (numeralText 10 n.natAbs).leftpad 3 (byte '0')
  else (numeralText 10 n.natAbs).leftpad 4 (byte '0')

/-- `string.upper`. -/
def upper (s : LuaString) : LuaString := s.map fun c => if 97 ≤ c ∧ c ≤ 122 then c - 32 else c

/-- `chdku.rc_set_subst_state`. -/
def rcSetSubstState (state : SubstState) (hdata : HData) (opts : HOpts) : SubstState :=
  let ext := byte '.' :: opts.ext.getD hdata.ext
  let imgpfx := bytes "IMG".toList
  let imgnum := format04d hdata.imgnum
  let basename := imgpfx ++ byte '_' :: imgnum
  { state with
    imgfmt := opts.fmt.getD (upper hdata.ext), ext, imgpfx, imgnum, basename
    name := basename ++ ext }

/-- `chdku.rc_build_path`. -/
def rcBuildPath (host : HostOps σ) (hdata : HData) (opts : HOpts) : Method σ LuaString :=
  Action.local_ fun m =>
    match opts.dst, m.subst with
    | some filename, some state =>
      let state := rcSetSubstState state hdata opts
      match host.substRun state filename with
      | .ok path => (.ok path, { m with subst := some state })
      | .error e => (.error (.error e), { m with subst := some state })
    | _, _ =>
      let filename := opts.dst.getD (bytes "IMG_".toList ++ format04d hdata.imgnum)
      let filename := filename ++ byte '.' :: opts.ext.getD hdata.ext
      match opts.dstDir with
      | some dir => (.ok (FsUtil.joinpath host.windows dir [filename]), m)
      | none => (.ok filename, m)

/-- `chdku.rc_handler_file`. -/
def rcHandlerFile (host : HostOps σ) (hopts : HOpts) : Handler σ := fun hdata => do
  let filename ← rcBuildPath host hdata hopts
  tryHost (host.openFile filename)
  let status ← pcall <| chunkLoop hdata (fun chunk => do
    if let some offset := chunk.offset then onHost (host.seek offset)
    if chunk.size ≠ 0 then tryHost (host.fwrite chunk.data) else pure ())
    (hdata.maxChunks + 1) 0
  onHost host.close
  match status with
  | .error e => error e
  | .ok nChunks => if nChunks > hdata.maxChunks then error exceededMaxChunks else pure ()

def missingHdr : LuaError :=
  .thrown (bytes "bad_arg".toList)
    (bytes "rc_handler_raw_dng_file: missing dng_info.hdr".toList)

/-- `chdku.rc_handler_raw_dng_file` with a `dng_info`. -/
def rcHandlerRawDngFile (host : HostOps σ) (hopts : HOpts) : Handler σ := fun hdata => do
  let filename ← rcBuildPath host hdata hopts
  let m ← Action.state
  if ¬host.dngHdr m.host then error missingHdr
  else
    let raw ← captureGetChunk hdata.id
    let dng ← tryHost (host.processDng raw)
    tryHost (host.openFile filename)
    tryHost (host.fwrite dng)
    onHost host.close

/-! ## Getting the data -/

structure CaptureOpts (σ : Type) where
  timeout : Option Int
  initwait : Option Int
  poll : Option Int
  pollstart : Option (Option Int)
  jpg : Option (Handler σ)
  raw : Option (Handler σ)
  dngHdr : Option (Handler σ)
  craw : Option (Handler σ)
  doSubst : Bool
  shotseq : Option Int

/-- `handlers[i]`. -/
def handlers (opts : CaptureOpts σ) : Nat → Option (Handler σ)
  | 0 => opts.jpg
  | 1 => opts.raw
  | 2 => opts.dngHdr
  | 3 => opts.craw
  | _ => none

/-- `chdku.remotecap_dtypes`, with the type and an image number. -/
def remotecapDtypes (i : Nat) (imgnum : Int) : HData :=
  match i with
  | 0 => ⟨0, bytes "jpg".toList, 1, 100, imgnum⟩
  | 1 => ⟨1, bytes "raw".toList, 2, 1, imgnum⟩
  | 2 => ⟨2, bytes "dng_hdr".toList, 4, 1, imgnum⟩
  | _ => ⟨i, bytes "cr2".toList, 8, 100, imgnum⟩

/-- `util.bit_unpack(n)[i]`. -/
def bitUnpack (n : Int) : Nat → Int
  | 0 => n % 2
  | i + 1 => bitUnpack (n / 2) i

def waitOpts (opts : CaptureOpts σ) : WaitOpts where
  msg := none
  run := none
  rsdata := true
  timeout := some (opts.timeout.getD 20000)
  timeoutError := true
  poll := opts.poll
  pollstart := opts.pollstart
  initwait := opts.initwait

def remoteShootError : LuaError := .text (bytes "remote shoot error".toList)

def unexpectedType (i : Nat) : LuaError :=
  .text (bytes "unexpected type ".toList ++ numeralText 10 i)

variable {ι : Type}

/-- A method that calls methods of several connections. -/
abbrev Global (σ ι : Type) (α : Type) :=
  Action (Machine σ) Stop (ι × Request) (fun cq => Reply cq.2) α

/-- `for i=0,3 do ... end`: which types are still to get, and how many of them. -/
def eachType (lcon : ι) (opts : CaptureOpts σ) (rsdata imgnum : Int) :
    List Nat → (toget : Nat → Bool) → (nToget : Nat) → Global σ ι ((Nat → Bool) × Nat)
  | [], toget, nToget => pure (toget, nToget)
  | i :: types, toget, nToget =>
    if bitUnpack rsdata i = 1 then
      match toget i, handlers opts i with
      | true, some handler => do
        Action.on lcon (handler (remotecapDtypes i imgnum))
        eachType lcon opts rsdata imgnum types (Function.update toget i false) nToget
      | _, _ => Action.throw (.error (unexpectedType i))
    else eachType lcon opts rsdata imgnum types toget (if toget i then nToget + 1 else nToget)

/-- The substitution state, made when the first data is there. -/
def initSubst (host : HostOps σ) (self : ConInfo) (opts : CaptureOpts σ) (m : Machine σ) :
    Machine σ :=
  if opts.doSubst ∧ m.subst.isNone then
    let state := setSubstConState self newSubstState
    let (ldate, now) := host.time m.host
    { m with subst := some { state with ldate, now, shotseq := opts.shotseq.getD 1 } }
  else m

inductive CaptureResult where
  | rets (rets : Rets)
  | true_

/-- `while not done do ... end`, looked at for so many passes and so many polls in each. -/
def captureLoop (host : HostOps σ) (cams : ι → ConInfo) (con lcon : ι) (opts : CaptureOpts σ)
    (polls : Nat) : (passes : Nat) → (toget : Nat → Bool) → Global σ ι CaptureResult
  | 0, _ => Action.throw .unfinished
  | passes + 1, toget => do
    let status ← Action.on con (waitStatus host (cams con) (waitOpts opts) polls)
    let rsdata := status.rsdata.getD 0
    if rsdata = 0x10000000 then Action.throw (.error remoteShootError)
    else
      Action.modify (initSubst host (cams lcon) opts)
      let (toget, nToget) ← eachType lcon opts rsdata (status.rsimgnum.getD 0) [0, 1, 2, 3] toget 0
      if nToget = 0 then
        Action.local_ fun m =>
          (.ok (if host.border m.rets > 0 then .rets m.rets else .true_), m)
      else captureLoop host cams con lcon opts polls passes toget

/-- `lcon:capture_get_data(opts)` while `con` is the selected connection. -/
def captureGetData (host : HostOps σ) (cams : ι → ConInfo) (con lcon : ι) (opts : CaptureOpts σ)
    (passes polls : Nat) : Global σ ι CaptureResult :=
  if ¬captureIsApiCompatible (cams lcon) then Action.throw (.error noRemoteCapture)
  else do
    Action.modify fun m => { m with subst := none, rets := ∅ }
    captureLoop host cams con lcon opts polls passes fun i => (handlers opts i).isSome

/-! ## Isolation -/

/-- A call on `lcon` asks only `lcon`, and ends as it would if `lcon` were selected, the
other cameras being whatever they are. -/
def Isolated [DecidableEq ι] (host : HostOps σ) (cams : ι → ConInfo) (con lcon : ι)
    (opts : CaptureOpts σ) (m : Machine σ) : Prop :=
  ∀ (passes polls : Nat) (world : World ι Request Reply) (asked : ι → List Request),
    (∀ e ∈ (run world asked (captureGetData host cams con lcon opts passes polls m)).2,
      e.1 = lcon) ∧
    ∀ (cams' : ι → ConInfo) (world' : World ι Request Reply) (asked' : ι → List Request),
      cams' lcon = cams lcon → world' lcon = world lcon → asked' lcon = asked lcon →
        (run world asked (captureGetData host cams con lcon opts passes polls m)).1 =
          (run world' asked' (captureGetData host cams' lcon lcon opts passes polls m)).1

theorem only_eachType (lcon : ι) (opts : CaptureOpts σ) (rsdata imgnum : Int) (types : List Nat)
    (toget : Nat → Bool) (nToget : Nat) :
    Action.Only lcon (eachType lcon opts rsdata imgnum types toget nToget) := by
  induction types generalizing toget nToget with
  | nil => exact Action.only_pure lcon _
  | cons i types ih =>
    rw [eachType]
    split
    · split
      · exact (Action.only_on lcon _).bind fun _ => ih _ _
      · exact Action.only_throw lcon _
    · exact ih _ _

theorem only_captureLoop (host : HostOps σ) (cams : ι → ConInfo) (lcon : ι) (opts : CaptureOpts σ)
    (polls passes : Nat) (toget : Nat → Bool) :
    Action.Only lcon (captureLoop host cams lcon lcon opts polls passes toget) := by
  induction passes generalizing toget with
  | zero => exact Action.only_throw lcon _
  | succ passes ih =>
    refine (Action.only_on lcon _).bind fun status => ?_
    dsimp only
    split
    · exact Action.only_throw lcon _
    · refine (Action.only_local lcon _).bind fun _ => ?_
      refine (only_eachType lcon opts _ _ _ _ _).bind fun r => ?_
      split
      · exact Action.only_local lcon _
      · exact ih _

/-- While its own connection is selected a call asks nothing else. -/
theorem only_captureGetData (host : HostOps σ) (cams : ι → ConInfo) (lcon : ι)
    (opts : CaptureOpts σ) (passes polls : Nat) :
    Action.Only lcon (captureGetData host cams lcon lcon opts passes polls) := by
  unfold captureGetData
  split
  · exact Action.only_throw lcon _
  · exact (Action.only_local lcon _).bind fun _ => only_captureLoop host cams lcon opts polls passes _

theorem captureLoop_cams (host : HostOps σ) {cams cams' : ι → ConInfo} {lcon : ι}
    (h : cams' lcon = cams lcon) (opts : CaptureOpts σ) (polls passes : Nat) (toget : Nat → Bool) :
    captureLoop host cams' lcon lcon opts polls passes toget =
      captureLoop host cams lcon lcon opts polls passes toget := by
  induction passes generalizing toget with
  | zero => rfl
  | succ passes ih =>
    simp only [captureLoop, h, ih]

theorem captureGetData_cams (host : HostOps σ) {cams cams' : ι → ConInfo} {lcon : ι}
    (h : cams' lcon = cams lcon) (opts : CaptureOpts σ) (passes polls : Nat) :
    captureGetData host cams' lcon lcon opts passes polls =
      captureGetData host cams lcon lcon opts passes polls := by
  simp only [captureGetData, h, captureLoop_cams host h]

theorem waitStatus_loop (host : HostOps σ) {self : ConInfo} (opts : CaptureOpts σ) (polls : Nat)
    (hself : captureIsApiCompatible self = true) (m : Machine σ) :
    ∃ m', waitStatus host self (waitOpts opts) polls m =
      waitLoop host (waitOpts opts) (waitOpts opts).interval (waitOpts opts).first.isSome polls
        (opts.timeout.getD 20000 - opts.initwait.getD 0)
        ((waitOpts opts).first.getD (waitOpts opts).interval) m' := by
  refine ⟨{ m with host := ((opts.initwait.map host.sleep).getD id) m.host }, ?_⟩
  rw [waitStatus, if_neg (by simp [hself])]
  rfl

/-- The first poll, and what a status for a failed shot makes of it. -/
theorem waitStatus_first (host : HostOps σ) {self : ConInfo} (opts : CaptureOpts σ) (polls : Nat)
    (hself : captureIsApiCompatible self = true) (m : Machine σ) :
    ∃ m' next next', waitStatus host self (waitOpts opts) (polls + 1) m =
        .ask .scriptStatus next ∧
      next (.ok ⟨false, false⟩) = .ask .captureReady next' ∧
      next' (.ok (0x10000000, 0)) =
        .done (.ok ⟨false, false, some 0x10000000, some 0, false⟩, m') := by
  obtain ⟨m', hloop⟩ := waitStatus_loop host opts (polls + 1) hself m
  rw [hloop]
  exact ⟨m', _, _, rfl, rfl, rfl⟩

theorem waitStatus_incompatible (host : HostOps σ) {self : ConInfo} (opts : CaptureOpts σ)
    (polls : Nat) (hself : captureIsApiCompatible self = false) (m : Machine σ) :
    ∃ m', waitStatus host self (waitOpts opts) polls m =
      .done (.error (.error noRemoteCapture), m') := by
  refine ⟨{ m with host := ((opts.initwait.map host.sleep).getD id) m.host }, ?_⟩
  rw [waitStatus, if_pos ⟨rfl, by simp [hself]⟩]
  rfl

/-- A camera whose shot has failed. -/
def failedShot : (q : Request) → Reply q
  | .scriptStatus => .ok ⟨false, false⟩
  | .captureReady => .ok (0x10000000, 0)
  | .captureGetChunk _ => .error .notConnected

/-- A call waits first, and an error of the wait is its own. -/
theorem captureGetData_wait (host : HostOps σ) {cams : ι → ConInfo} (con : ι) {lcon : ι}
    (hlcon : captureIsApiCompatible (cams lcon) = true) (opts : CaptureOpts σ)
    (passes polls : Nat) (m : Machine σ) :
    ∃ m' k, captureGetData host cams con lcon opts (passes + 1) polls m =
        ((waitStatus host (cams con) (waitOpts opts) polls m').on con).bind k ∧
      (∀ e m'', k (.error e, m'') = .done (.error e, m'')) ∧
      ∀ run msg imgnum m'', k (.ok ⟨run, msg, some 0x10000000, imgnum, false⟩, m'') =
        .done (.error (.error remoteShootError), m'') := by
  rw [captureGetData, if_neg (by simp [hlcon])]
  exact ⟨{ m with subst := none, rets := ∅ }, _, rfl, fun e m'' => rfl, fun _ _ _ m'' => rfl⟩

variable [DecidableEq ι]

/-- The result when the shot of the selected camera has failed. -/
theorem captureGetData_failedShot (host : HostOps σ) {cams : ι → ConInfo} {lcon : ι}
    (hlcon : captureIsApiCompatible (cams lcon) = true) (opts : CaptureOpts σ)
    (asked : ι → List Request) (m : Machine σ) :
    (run (fun _ _ q => failedShot q) asked
      (captureGetData host cams lcon lcon opts 1 1 m)).1.1 = .error (.error remoteShootError) := by
  obtain ⟨m', k, hcall, -, hshot⟩ := captureGetData_wait host lcon hlcon opts 0 1 m
  obtain ⟨m'', next, next', hwait, hnext, hnext'⟩ := waitStatus_first host opts 0 hlcon m'
  rw [hcall, hwait]
  simp only [Prog.on, Prog.ask_bind, run, failedShot, hnext, hnext', Prog.done_bind, hshot]

theorem not_isolated (host : HostOps σ) {cams : ι → ConInfo} {con lcon : ι} (hcon : con ≠ lcon)
    (hlcon : captureIsApiCompatible (cams lcon) = true) (opts : CaptureOpts σ) (m : Machine σ) :
    ¬Isolated host cams con lcon opts m := by
  intro h
  obtain ⟨honly, hsame⟩ := h 1 1 (fun _ _ q => failedShot q) fun _ => []
  obtain ⟨m', k, hcall, herror, -⟩ := captureGetData_wait host con hlcon opts 0 1 m
  cases hcompatible : captureIsApiCompatible (cams con) with
  | true =>
    -- the status of the selected camera is polled
    obtain ⟨m'', next, next', hwait, -, -⟩ := waitStatus_first host opts 0 hcompatible m'
    rw [hcall, hwait] at honly
    exact hcon (honly (con, .scriptStatus) List.mem_cons_self)
  | false =>
    -- the call fails although its own camera can capture
    obtain ⟨m'', hwait⟩ := waitStatus_incompatible host opts 1 hcompatible m'
    have hresult := congrArg Prod.fst
      (hsame cams (fun _ _ q => failedShot q) (fun _ => []) rfl rfl rfl)
    rw [captureGetData_failedShot host hlcon, hcall, hwait] at hresult
    simp only [Prog.on, Prog.done_bind, herror, run, Except.error.injEq, Stop.error.injEq] at hresult
    exact absurd hresult (by decide)

theorem isolated_selected (host : HostOps σ) (cams : ι → ConInfo) (lcon : ι)
    (opts : CaptureOpts σ) (m : Machine σ) : Isolated host cams lcon lcon opts m := by
  intro passes polls world asked
  have hcall : RequestProgram.Only lcon (captureGetData host cams lcon lcon opts passes polls m) :=
    only_captureGetData host cams lcon opts passes polls m
  refine ⟨hcall.requests world asked, ?_⟩
  intro cams' world' asked' hcams hworld hasked
  rw [captureGetData_cams host hcams]
  exact congrArg Prod.fst (hcall.run_eq world world' asked asked' hworld.symm hasked.symm)

theorem isolated_incompatible (host : HostOps σ) {cams : ι → ConInfo} (con : ι) {lcon : ι}
    (hlcon : captureIsApiCompatible (cams lcon) = false) (opts : CaptureOpts σ) (m : Machine σ) :
    Isolated host cams con lcon opts m := by
  intro passes polls world asked
  have hfails : ∀ (cams' : ι → ConInfo) (con' : ι), cams' lcon = cams lcon →
      captureGetData host cams' con' lcon opts passes polls m =
        .done (.error (.error noRemoteCapture), m) := by
    intro cams' con' hcams
    rw [captureGetData, if_pos (by simp [hcams, hlcon])]
    rfl
  constructor
  · rw [hfails cams con rfl]
    intro e he
    cases he
  · intro cams' world' asked' hcams hworld hasked
    rw [hfails cams con rfl, hfails cams' lcon hcams]
    rfl

/-- A call is isolated exactly when its connection is the selected one or cannot capture. -/
theorem isolated_iff (host : HostOps σ) (cams : ι → ConInfo) (con lcon : ι)
    (opts : CaptureOpts σ) (m : Machine σ) :
    Isolated host cams con lcon opts m ↔
      con = lcon ∨ captureIsApiCompatible (cams lcon) = false := by
  constructor
  · intro h
    by_contra hnot
    rw [not_or, Bool.not_eq_false] at hnot
    exact not_isolated host hnot.1 hnot.2 opts m h
  · rintro (rfl | hlcon)
    · exact isolated_selected host cams con opts m
    · exact isolated_incompatible host con hlcon opts m

/-- A host that keeps no state. -/
def idleHost : HostOps Unit where
  windows := false
  sleep _ := id
  time _ := (0, 0, 0)
  openFile _ s := (.ok (), s)
  seek _ := id
  fwrite _ s := (.ok (), s)
  close := id
  dngHdr _ := false
  processDng raw s := (.ok raw.data, s)
  substRun _ filename := .ok filename
  border _ := 0

/-- Getting a JPEG from one of two cameras while the other one is selected. -/
theorem other_camera_polled :
    ¬Isolated idleHost (fun _ : Bool => ⟨some (2, 5), none, 0⟩) false true
      ⟨none, none, none, none, some (rcHandlerStore idleHost none), none, none, none, false, none⟩
      ⟨(), none, ∅⟩ :=
  not_isolated idleHost Bool.false_ne_true rfl _ _

end RemoteCapture
