import Chdkptp.LuaSerialize
import Chdkptp.McProtocol
import Chdkptp.Scripts

/-!
# The script of multicam

`mc.run` on the camera: messages are read one after the other, and each names a command. The calls
that the script makes are its log; what the camera answers depends in any way on the calls before.
-/

namespace McScript

open LuaValue LuaText LuaSerialize Fuelled Scripts McProtocol

/-! ## Calls -/

inductive Key where
  | shootHalf
  | shootFull
  | shootFullOnly
  deriving DecidableEq

/-- `hook_shoot` and `hook_raw` -/
inductive Hook where
  | shoot
  | raw
  deriving DecidableEq

/-- A field of a status; a table is its text. -/
inductive Payload where
  | nil
  | bool (b : Bool)
  | int (n : Int)
  | str (s : LuaString)
  | table (text : LuaString)
  deriving DecidableEq

/-- The fields of a table for `set_clock`. -/
structure Clock where
  year : Int
  month : Int
  day : Int
  hour : Int
  min : Int
  sec : Int
  deriving DecidableEq

/-- The options of a burst that are given. -/
structure BurstIn where
  shots : Option Int := none
  interval : Option Int := none
  releaseHalf : Bool := false
  remoteOnWait : Option Int := none
  shootHookTimeout : Option Int := none
  rawHookTimeout : Option Int := none
  shootHookReadyTimeout : Option Int := none
  rawHookReadyTimeout : Option Int := none

inductive Call where
  | readUsbMsg (timeout : Int)
  | writeUsbMsg (cmd : Value) (status msg : Payload)
  | getMode
  | switchModeUsb (mode : Int)
  | getShooting
  | getTickCount
  | sleep (ms : Int)
  | press (key : Key)
  | release (key : Key)
  | hookSet (hook : Hook) (ms : Int)
  | hookIsReady (hook : Hook)
  | hookWaitReady (hook : Hook) (ms : Int)
  | hookContinue (hook : Hook)
  /-- `rlib_get_drive_mode_info().is_cont` -/
  | isCont
  | usbForceActive
  | usbSyncWait (on : Bool)
  | getUsbPower
  | setClock (t : Clock)
  | osTime
  /-- `draw_id`, which may clear the screen before. -/
  | drawId
  /-- The path of the last image. -/
  | lastImage
  | loadstring (code : LuaString)
  /-- A function that `loadstring` has returned. -/
  | runCode (code : LuaString)
  | ffImglist (args : LuaString)
  deriving DecidableEq

/-- What the calls return; foreign code may raise an error. -/
abbrev Reply : Call → Type
  | .readUsbMsg _ => Option LuaString
  | .getMode | .getShooting | .hookIsReady _ | .hookWaitReady .. | .isCont => Bool
  | .getTickCount | .getUsbPower | .osTime => Int
  | .lastImage => LuaString
  | .loadstring _ => Except LuaString PUnit
  | .runCode _ => Except LuaString Payload
  -- an error that is returned
  | .ffImglist _ => Except LuaString (Except LuaString PUnit)
  | _ => PUnit

/-- A call and what it returned. -/
abbrev Done := (q : Call) × Reply q

/-- What the camera answers, and what the library makes of texts. `hookShoot` is whether
`hook_shoot` is a table. -/
structure Rig where
  answer : List Done → (q : Call) → Reply q
  hookShoot : Bool
  tonumber : LuaString → Option Int
  unserialize : LuaString → Except LuaString BurstIn
  unserializeClock : LuaString → Except LuaString Clock
  /-- Whether it is a table of options of `ff_imglist`. -/
  unserializeArgs : LuaString → Except LuaString PUnit

/-- The table `mc`, as far as `mc.run` leaves it alone. -/
structure Settings where
  modeSwTimeout : Int := 2500
  preshootTimeout : Int := 5000
  shootCompleteTimeout : Int := 5000
  msgTimeout : Int := 100
  shootHold : Int := 10
  shootHookTimeout : Int := 5000
  rawHookTimeout : Int := 5000
  shootHookReadyTimeout : Int := 10000
  rawHookReadyTimeout : Int := 10000

/-- The calls so far, and the rest of the table `mc`. -/
structure St where
  log : List Done := []
  id : Option Int := none
  showId : Bool := false
  finished : Bool := false

abbrev CamScript (α : Type) := Script LuaString St α

section Commands

variable (rig : Rig) (mc : Settings)

def ask (q : Call) : CamScript (Reply q) := act fun s =>
  (rig.answer s.log q, { s with log := s.log ++ [⟨q, rig.answer s.log q⟩] })

def text (s : String) : LuaString := bytes s.toList

def failed (msg : LuaString) : Payload × Payload := (.bool false, .str msg)

def succeeded : Payload × Payload := (.bool true, .nil)

/-- `write_status` -/
def writeStatus (cmd : Value) (status : Payload × Payload) : CamScript PUnit :=
  ask rig (.writeUsbMsg cmd status.1 status.2)

def unserializeFailed (err : LuaString) : Payload × Payload :=
  failed (text "unserialize failed " ++ err)

/-- `wait_timeout_write_status`, whose function returns a boolean. -/
def waitTimeoutWriteStatus (cmd : Value) (func : CamScript Bool) (value : Bool) (wait timeout : Int)
    (msg : LuaString) : CamScript Bool :=
  loop (fun timeout => do
    let now ← func
    if now = value then
      writeStatus rig cmd succeeded
      pure (.inr true)
    else
      ask rig (.sleep wait)
      if timeout - wait ≤ 0 then
        writeStatus rig cmd (failed msg)
        pure (.inr false)
      else pure (.inl (timeout - wait))) timeout

def getMode : CamScript Bool := ask rig .getMode

def getShooting : CamScript Bool := ask rig .getShooting

/-- `wait_tick` -/
def waitTick (synctick : Option Int) : CamScript PUnit :=
  match synctick with
  | none => pure ⟨⟩
  | some synctick => do
    let now : Int ← ask rig .getTickCount
    whenever (synctick - now ≥ 10) (ask rig (.sleep (synctick - now)))

section Cmds

variable (cmd : Value) (args : LuaString)

/-- `cmds.id` -/
def cmdId : CamScript PUnit := do
  let shown ← act fun s => ((s.id, !s.showId), { s with showId := !s.showId })
  ask rig .drawId
  let id := match shown.1 with
    | some id => text "id=" ++ decimal id ++ text ","
    | none => []
  writeStatus rig cmd
    (.table (id ++ text "show=" ++ if shown.2 then text "true" else text "false"), .nil)

/-- `cmds.setid`; `string.format` fails without numbers. -/
def cmdSetid : CamScript PUnit := do
  let ids ← act fun s => ((s.id, rig.tonumber args), { s with id := rig.tonumber args })
  match ids with
  | (some oldId, some newId) =>
    writeStatus rig cmd (.bool true, .str (decimal oldId ++ text "=>" ++ decimal newId))
  | _ => fail (text "bad argument to 'format'")

/-- `cmds.rec` and `cmds.play`, which switch to a mode. -/
def switchMode (mode : Bool) : CamScript PUnit := do
  let now ← getMode rig
  whenever (now ≠ mode) (ask rig (.switchModeUsb (if mode then 1 else 0)))
  let _ ← waitTimeoutWriteStatus rig cmd (getMode rig) mode 100 mc.modeSwTimeout (text "timeout")

def cmdRec : CamScript PUnit := switchMode rig mc cmd true

def cmdPlay : CamScript PUnit := switchMode rig mc cmd false

/-- `cmds.preshoot` -/
def cmdPreshoot : CamScript PUnit := do
  ask rig (.press .shootHalf)
  let status ← waitTimeoutWriteStatus rig cmd (getShooting rig) true 10 mc.preshootTimeout
    (text "timeout")
  whenever (status = false) (ask rig (.release .shootHalf))

/-- What `cmds.shoot` and `cmds.shoot_hook_sync` wait for in the end. -/
def waitShot : CamScript PUnit := do
  let _ ← waitTimeoutWriteStatus rig cmd (getShooting rig) false 100 mc.shootCompleteTimeout
    (text "get_shooting timeout")

/-- `cmds.shoot` -/
def cmdShoot : CamScript PUnit := do
  waitTick rig (rig.tonumber args)
  ask rig (.press .shootFull)
  ask rig (.sleep mc.shootHold)
  ask rig (.release .shootFull)
  waitShot rig mc cmd

/-- The loop that waits for the hook; whether it became ready. -/
def hookReady : CamScript Bool :=
  loop (fun waitTime => do
    let ready : Bool ← ask rig (.hookIsReady .shoot)
    if ready then pure (.inr true)
    else if waitTime > mc.shootHookReadyTimeout then pure (.inr false)
    else
      ask rig (.sleep 10)
      pure (.inl (waitTime + 10))) (0 : Int)

/-- `cmds.shoot_hook_sync` -/
def cmdShootHookSync : CamScript PUnit :=
  if rig.hookShoot then do
    ask rig (.hookSet .shoot mc.shootHookTimeout)
    ask rig (.press .shootFull)
    let ready ← hookReady rig mc
    if ready then
      waitTick rig (rig.tonumber args)
      ask rig (.hookContinue .shoot)
      ask rig (.sleep mc.shootHold)
      ask rig (.release .shootFull)
      ask rig (.hookSet .shoot 0)
      waitShot rig mc cmd
    else
      ask rig (.hookSet .shoot 0)
      ask rig (.release .shootFull)
      writeStatus rig cmd (failed (text "hook_shoot ready timeout"))
  else writeStatus rig cmd (failed (text "build does not support shoot hook"))

/-! ### Bursts -/

structure Burst where
  shots : Int
  interval : Int
  releaseHalf : Bool
  remoteOnWait : Option Int
  shootHookTimeout : Int
  rawHookTimeout : Int
  shootHookReadyTimeout : Int
  rawHookReadyTimeout : Int

/-- `extend_table` with the defaults. -/
def withDefaults (opts : BurstIn) : Burst where
  shots := opts.shots.getD 1
  interval := opts.interval.getD 2000
  releaseHalf := opts.releaseHalf
  remoteOnWait := opts.remoteOnWait
  shootHookTimeout := opts.shootHookTimeout.getD mc.shootHookTimeout
  rawHookTimeout := opts.rawHookTimeout.getD mc.rawHookTimeout
  shootHookReadyTimeout := opts.shootHookReadyTimeout.getD mc.shootHookReadyTimeout
  rawHookReadyTimeout := opts.rawHookReadyTimeout.getD mc.rawHookReadyTimeout

/-- The options in a text; none if it is empty. -/
def burstOpts (rest : LuaString) : Except LuaString Burst :=
  if rest = [] then .ok (withDefaults mc {}) else (rig.unserialize rest).map (withDefaults mc)

/-- `hook_shoot.set(0)` and `hook_raw.set(0)` -/
def hooksOff : CamScript PUnit := do
  ask rig (.hookSet .shoot 0)
  ask rig (.hookSet .raw 0)

def hooksOn (opts : Burst) : CamScript PUnit := do
  ask rig (.hookSet .shoot opts.shootHookTimeout)
  ask rig (.hookSet .raw opts.rawHookTimeout)

/-- `table.concat(r,', ')` -/
def concat (r : List LuaString) : LuaString := (r.intersperse (text ", ")).flatten

/-- The variables of the loop over the shots. -/
structure ShotVars where
  i : Int := 1
  synctick : Option Int := none
  lastShotTick : Option Int := none
  r : List LuaString := []

def shotOf (i w int : Int) : LuaString :=
  decimal i ++ text " w:" ++ decimal w ++ text " i=" ++ decimal int

/-- A burst is left when the button has been released. -/
def giveUp (msg : LuaString) : CamScript (ShotVars ⊕ Option (List LuaString)) := do
  hooksOff rig
  writeStatus rig cmd (failed msg)
  pure (.inr none)

/-- A pass of the loop in `cmds.shoot_burst`; no shots are returned if it has been left. -/
def burstPass (opts : Burst) (cont : Bool) (v : ShotVars) : CamScript (ShotVars ⊕ Option (List LuaString)) :=
  if v.i > opts.shots then pure (.inr (some v.r))
  else do
    whenever (cont = false) (ask rig (.press .shootFullOnly))
    let ready : Bool ← ask rig (.hookWaitReady .shoot opts.shootHookReadyTimeout)
    if ready then
      let readyTick : Int ← ask rig .getTickCount
      waitTick rig v.synctick
      ask rig (.hookContinue .shoot)
      let shotTick : Int ← ask rig .getTickCount
      match v.synctick with
      | none => fail (text "attempt to perform arithmetic on local 'synctick' (a nil value)")
      | some synctick =>
        whenever (cont = false) (ask rig (.release .shootFullOnly))
        let done : Bool ← ask rig (.hookWaitReady .raw opts.rawHookReadyTimeout)
        if done then
          ask rig (.hookContinue .raw)
          let shotInt := match v.lastShotTick with
            | some last => shotTick - last
            | none => 0
          pure (.inl {
            i := v.i + 1
            synctick := some (synctick + opts.interval)
            lastShotTick := some shotTick
            r := v.r ++ [shotOf v.i (synctick - readyTick) shotInt] })
        else
          ask rig (.release .shootFull)
          giveUp rig cmd (text "hook_raw ready timeout")
    else
      ask rig (.release .shootFull)
      giveUp rig cmd (text "hook_shoot ready timeout")

/-- What is done behind the loop of a burst. -/
def burstEnd (opts : Burst) (cont : Bool) (shots : Option (List LuaString)) : CamScript PUnit :=
  match shots with
  | none => pure ⟨⟩
  | some r => do
    whenever (cont = true) (ask rig (.release .shootFullOnly))
    whenever (opts.releaseHalf = true) (ask rig (.release .shootHalf))
    hooksOff rig
    writeStatus rig cmd (.bool true, .str (concat r))

/-- The tick count and the rest of the arguments of a burst. -/
def burstArgs : Option (Option Int × LuaString) :=
  let word := args.takeWhile isWord
  if word = [] then none
  else some (rig.tonumber word, (args.dropWhile isWord).dropWhile isSpace)

/-- `cmds.shoot_burst` -/
def cmdShootBurst : CamScript PUnit :=
  if rig.hookShoot then
    match burstArgs rig args with
    | none => fail (text "bad argument #1 to 'len'")
    | some (synctick, rest) =>
      match burstOpts rig mc rest with
      | .error err => writeStatus rig cmd (unserializeFailed err)
      | .ok opts => do
        let cont : Bool ← ask rig .isCont
        hooksOn rig opts
        whenever (cont = true) (ask rig (.press .shootFullOnly))
        let shots ← loop (burstPass rig cmd opts cont) { synctick }
        burstEnd rig cmd opts cont shots
  else writeStatus rig cmd (failed (text "build does not support shoot hook"))

/-- The loop that waits until the remote is on. -/
def remoteOn (remoteOnWait : Int) : CamScript PUnit := do
  let now : Int ← ask rig .getTickCount
  loop (fun (_ : PUnit) => do
    let power : Int ← ask rig .getUsbPower
    if power = 1 then pure (.inr ⟨⟩)
    else
      let tick : Int ← ask rig .getTickCount
      if now + remoteOnWait > tick then
        ask rig (.sleep 10)
        pure (.inl ⟨⟩)
      else pure (.inr ⟨⟩)) ⟨⟩

/-- `if opts.remote_on_wait then` -/
def remoteOnIf (remoteOnWait : Option Int) : CamScript PUnit :=
  match remoteOnWait with
  | some remoteOnWait => remoteOn rig remoteOnWait
  | none => pure ⟨⟩

/-- A pass of the loop in `cmds.shoot_burst_usb_pwr`. -/
def usbPass (opts : Burst) (cont : Bool) (v : ShotVars) : CamScript (ShotVars ⊕ Option (List LuaString)) :=
  if v.i > opts.shots then pure (.inr (some v.r))
  else do
    ask rig (.usbSyncWait true)
    whenever (cont = false) (ask rig (.press .shootFullOnly))
    let ready : Bool ← ask rig (.hookWaitReady .shoot opts.shootHookReadyTimeout)
    if ready then
      remoteOnIf rig opts.remoteOnWait
      ask rig (.hookContinue .shoot)
      whenever (cont = false) (ask rig (.release .shootFullOnly))
      let done : Bool ← ask rig (.hookWaitReady .raw opts.rawHookReadyTimeout)
      if done then
        let tick : Int ← ask rig .getTickCount
        ask rig (.hookContinue .raw)
        pure (.inl { v with
          i := v.i + 1
          r := v.r ++ [decimal v.i ++ text " r:" ++ decimal tick] })
      else
        ask rig (.release .shootFull)
        ask rig (.usbSyncWait false)
        giveUp rig cmd (text "hook_raw ready timeout")
    else
      ask rig (.usbSyncWait false)
      ask rig (.release .shootFull)
      giveUp rig cmd (text "hook_shoot ready timeout")

/-- The hook waits at least as long as for the remote. -/
def atLeast (opts : Burst) : Burst :=
  match opts.remoteOnWait with
  | some remoteOnWait => { opts with shootHookTimeout := max opts.shootHookTimeout remoteOnWait }
  | none => opts

/-- `cmds.shoot_burst_usb_pwr` -/
def cmdShootBurstUsbPwr : CamScript PUnit :=
  if rig.hookShoot then
    match (burstOpts rig mc args).map atLeast with
    | .error err => writeStatus rig cmd (unserializeFailed err)
    | .ok opts => do
      let cont : Bool ← ask rig .isCont
      ask rig .usbForceActive
      hooksOn rig opts
      whenever (cont = true) (ask rig (.press .shootFullOnly))
      let shots ← loop (usbPass rig cmd opts cont) {}
      burstEnd rig cmd opts cont shots
  else writeStatus rig cmd (failed (text "build does not support shoot hook"))

/-! ### The rest -/

/-- `cmds.tick` -/
def cmdTick : CamScript PUnit := do
  let tick : Int ← ask rig .getTickCount
  writeStatus rig cmd (.int tick, .nil)

/-- `cmds.synctick` -/
def cmdSynctick : CamScript PUnit := do
  let t : Int ← ask rig .getTickCount
  waitTick rig (rig.tonumber args)
  let tick : Int ← ask rig .getTickCount
  writeStatus rig cmd (.int tick, .str (text "start " ++ decimal t))

def isXDigit (c : UInt8) : Bool := isDigit c || (97 ≤ c ∧ c ≤ 102) || (65 ≤ c ∧ c ≤ 70)

/-- `cmds.setclock` -/
def cmdSetclock : CamScript PUnit :=
  let word := args.takeWhile isXDigit
  if word = [] then fail (text "attempt to concatenate local 's' (a nil value)")
  else
    match rig.unserializeClock ((args.dropWhile isXDigit).dropWhile isSpace) with
    | .error err => writeStatus rig cmd (unserializeFailed err)
    | .ok t => do
      waitTick rig (rig.tonumber word)
      ask rig (.setClock t)
      let time : Int ← ask rig .osTime
      writeStatus rig cmd (.int time, .nil)

/-- `cmds.exit` -/
def cmdExit : CamScript PUnit := do
  act fun s => (⟨⟩, { s with finished := true })
  writeStatus rig cmd succeeded

/-- `cmds.call` -/
def cmdCall : CamScript PUnit := do
  let loaded : Except LuaString PUnit ← ask rig (.loadstring args)
  match loaded with
  | .error err => writeStatus rig cmd (failed err)
  | .ok _ =>
    let values : Except LuaString Payload ← ask rig (.runCode args)
    match values with
    | .error err => fail err
    | .ok values => writeStatus rig cmd (values, .nil)

/-- `cmds.pcall` -/
def cmdPcall : CamScript PUnit := do
  let loaded : Except LuaString PUnit ← ask rig (.loadstring args)
  match loaded with
  | .error err => writeStatus rig cmd (failed err)
  | .ok _ =>
    let values : Except LuaString Payload ← ask rig (.runCode args)
    match values with
    | .error err => writeStatus rig cmd (.bool false, .table err)
    | .ok values => writeStatus rig cmd (.bool true, values)

/-- `cmds.getlastimg` -/
def cmdGetlastimg : CamScript PUnit := do
  let path : LuaString ← ask rig .lastImage
  writeStatus rig cmd (.bool true, .str path)

/-- `cmds.imglist` -/
def cmdImglist : CamScript PUnit :=
  match rig.unserializeArgs args with
  | .error err => writeStatus rig cmd (unserializeFailed err)
  | .ok _ => do
    let listed : Except LuaString (Except LuaString PUnit) ← ask rig (.ffImglist args)
    match listed with
    | .error err => fail err
    | .ok (.error err) => writeStatus rig cmd (failed err)
    | .ok (.ok _) => writeStatus rig cmd (.bool true, .str (text "done"))

end Cmds

/-- The table `cmds`. -/
def cmds : List (LuaString × (Value → LuaString → CamScript PUnit)) :=
  [(text "id", fun cmd _ => cmdId rig cmd),
    (text "setid", fun cmd args => cmdSetid rig cmd args),
    (text "rec", fun cmd _ => cmdRec rig mc cmd),
    (text "play", fun cmd _ => cmdPlay rig mc cmd),
    (text "preshoot", fun cmd _ => cmdPreshoot rig mc cmd),
    (text "shoot", fun cmd args => cmdShoot rig mc cmd args),
    (text "shoot_hook_sync", fun cmd args => cmdShootHookSync rig mc cmd args),
    (text "shoot_burst", fun cmd args => cmdShootBurst rig mc cmd args),
    (text "shoot_burst_usb_pwr", fun cmd args => cmdShootBurstUsbPwr rig mc cmd args),
    (text "tick", fun cmd _ => cmdTick rig cmd),
    (text "synctick", fun cmd args => cmdSynctick rig cmd args),
    (text "setclock", fun cmd args => cmdSetclock rig cmd args),
    (text "exit", fun cmd _ => cmdExit rig cmd),
    (text "call", fun cmd args => cmdCall rig cmd args),
    (text "pcall", fun cmd args => cmdPcall rig cmd args),
    (text "getlastimg", fun cmd _ => cmdGetlastimg rig cmd),
    (text "imglist", fun cmd args => cmdImglist rig cmd args)]

/-- A message is a name, space, and the arguments. -/
def argsOf (msg : LuaString) : LuaString := (msg.dropWhile isWord).dropWhile isSpace

/-- What is done about a message. -/
def perform (msg : LuaString) : CamScript PUnit :=
  match (cmds rig mc).lookup (msg.takeWhile isWord) with
  | some command => command (cmdName msg) (argsOf msg)
  | none => writeStatus rig (cmdName msg) (failed (text "unknown"))

/-- `draw_id` in `mc.idle`, which draws only if the id is shown. -/
def idle : CamScript PUnit := do
  let shown ← act fun s => (s.showId, s)
  whenever (shown = true) (ask rig .drawId)

/-- A pass of the loop in `mc.run`. -/
def runPass (_ : PUnit) : CamScript (PUnit ⊕ PUnit) := do
  let msg : Option LuaString ← ask rig (.readUsbMsg mc.msgTimeout)
  match msg with
  | some msg => perform rig mc msg
  | none => idle rig
  act fun s => (if s.finished then .inr ⟨⟩ else .inl ⟨⟩, s)

/-- `mc.run` -/
def run : CamScript PUnit := loop (runPass rig mc) ⟨⟩

end Commands

/-! ## What can be seen in the log -/

/-- The messages read and the names of the statuses written, whether the button is pressed
fully, whether the hooks are set, and whether the script is to end. -/
structure View where
  messages : List LuaString := []
  statuses : List Value := []
  full : Bool := false
  shootSet : Bool := false
  rawSet : Bool := false
  finished : Bool := false

/-- What a call changes. -/
def View.see (v : View) : Done → View
  | ⟨.readUsbMsg _, r⟩ => { v with messages := v.messages ++ r.toList }
  | ⟨.writeUsbMsg cmd _ _, _⟩ => { v with statuses := v.statuses ++ [cmd] }
  | ⟨.press .shootFull, _⟩ | ⟨.press .shootFullOnly, _⟩ => { v with full := true }
  | ⟨.release .shootFull, _⟩ | ⟨.release .shootFullOnly, _⟩ => { v with full := false }
  | ⟨.hookSet .shoot ms, _⟩ => { v with shootSet := ms ≠ 0 }
  | ⟨.hookSet .raw ms, _⟩ => { v with rawSet := ms ≠ 0 }
  | _ => v

def view (s : St) : View := s.log.foldl View.see { finished := s.finished }

theorem view_concat (s : St) (d : Done) :
    view { s with log := s.log ++ [d] } = (view s).see d := by
  rw [view, view, List.foldl_append]
  rfl

/-- No call ends the script. -/
theorem see_finished (v : View) (d : Done) (f : Bool) :
    { v with finished := f }.see d = { v.see d with finished := f } := by
  obtain ⟨q, r⟩ := d
  cases q with
  | press key => cases key <;> rfl
  | release key => cases key <;> rfl
  | hookSet hook ms => cases hook <;> rfl
  | _ => rfl

theorem view_finished (s : St) (f : Bool) :
    view { s with finished := f } = { view s with finished := f } := by
  have hfold : ∀ (log : List Done) (v : View),
      log.foldl View.see { v with finished := f } =
        { log.foldl View.see v with finished := f } := by
    intro log
    induction log with
    | nil => exact fun v => rfl
    | cons d log ih =>
      intro v
      rw [List.foldl_cons, List.foldl_cons, see_finished, ih]
  exact hfold s.log { finished := s.finished }

/-- Nothing is left pressed or set. -/
def View.Rest (v : View) : Prop := v.full = false ∧ v.shootSet = false ∧ v.rawSet = false

/-- The time that the tick count shows goes on, and with every wait. -/
structure Ticks (rig : Rig) (time : List Done → Int) : Prop where
  tick : ∀ log, rig.answer log .getTickCount = time log
  mono : ∀ log d, time log ≤ time (log ++ [d])
  sleep : ∀ log ms r, 0 < ms → time log < time (log ++ [⟨.sleep ms, r⟩])

/-! ## Calls -/

section Calls

variable {rig : Rig} {E : St → Prop}

def Looks (v : View) (s : St) : Prop := view s = v

theorem total_ask {q : Call} {v : View} :
    Total (Looks v) (ask rig q) (fun r => Looks (v.see ⟨q, r⟩)) E := by
  apply total_act
  intro s hs
  exact (view_concat s _).trans (congrArg (View.see · _) hs)

/-- A call that is not seen. -/
theorem total_ask_plain {q : Call} {v : View} (h : ∀ r, v.see ⟨q, r⟩ = v) :
    Total (Looks v) (ask rig q) (fun _ => Looks v) E := by
  apply total_ask.weaken
  intro r s hs
  rw [h] at hs
  exact hs

/-- What is done without a call. -/
theorem total_act_plain {α : Type} {f : St → α × St} {v : View} (h : ∀ s, view (f s).2 = view s) :
    Total (Looks v) (act f : CamScript α) (fun _ => Looks v) E := by
  apply total_act
  intro s hs
  rw [Looks, h]
  exact hs

/-- The status of a command. -/
theorem total_writeStatus {cmd : Value} {status : Payload × Payload} {v : View} :
    Total (Looks v) (writeStatus rig cmd status)
      (fun _ => Looks { v with statuses := v.statuses ++ [cmd] }) E :=
  total_ask

theorem total_whenever_plain {c : Prop} [Decidable c] {v : View} {x : CamScript PUnit}
    (hx : Total (Looks v) x (fun _ => Looks v) E) :
    Total (Looks v) (whenever c x) (fun _ => Looks v) E :=
  total_whenever (fun _ => hx) fun _ _ hs => hs

theorem total_waitTick {synctick : Option Int} {v : View} :
    Total (Looks v) (waitTick rig synctick) (fun _ => Looks v) E := by
  cases synctick with
  | none => exact total_pure fun s hs => hs
  | some synctick =>
    apply (total_ask_plain fun _ => rfl).bind
    intro now
    exact total_whenever_plain (total_ask_plain fun _ => rfl)

/-- What a status adds. -/
def View.answered (v : View) (cmd : Value) : View := { v with statuses := v.statuses ++ [cmd] }

/-- A wait with a timeout writes one status. -/
theorem total_waitTimeout {cmd : Value} {func : CamScript Bool} {value : Bool} {wait : Int}
    {msg : LuaString} {v : View} (hfunc : Total (Looks v) func (fun _ => Looks v) E)
    (hwait : 0 < wait) (timeout : Int) :
    Total (Looks v) (waitTimeoutWriteStatus rig cmd func value wait timeout msg)
      (fun _ => Looks (v.answered cmd)) E := by
  apply total_loop (fun _ => Looks v) (fun timeout _ => timeout.toNat)
  intro timeout m
  apply Total.assume
  intro hm
  apply hfunc.bind
  intro now
  split
  · apply total_writeStatus.bind
    exact fun _ => total_pure fun s hs => hs
  · apply (total_ask_plain fun _ => rfl).bind
    intro _
    split
    · apply total_writeStatus.bind
      exact fun _ => total_pure fun s hs => hs
    · have hless : (timeout - wait).toNat < m := by omega
      exact total_pure fun s hs => ⟨hs, hless⟩

end Calls

/-! ## Commands -/

/-- The command ends; it has written its status and leaves nothing pressed or set, or it has
failed before its status. -/
def Answers (x : CamScript PUnit) (cmd : Value) : Prop :=
  ∀ v : View, v.Rest → Total (Looks v) x (fun _ => Looks (v.answered cmd))
    fun s => (view s).messages = v.messages ∧ (view s).statuses = v.statuses

section Commands

variable {rig : Rig} {mc : Settings} {cmd : Value} {args : LuaString} {v : View}

/-- What is known where a command has failed. -/
abbrev Unanswered (v : View) (s : St) : Prop :=
  (view s).messages = v.messages ∧ (view s).statuses = v.statuses

theorem total_fail_answer {α : Type} {e : LuaString} {w : View} {Q : α → St → Prop}
    (hmessages : w.messages = v.messages) (hstatuses : w.statuses = v.statuses) :
    Total (Looks w) (fail e : CamScript α) Q (Unanswered v) := by
  apply total_fail
  rintro s rfl
  exact ⟨hmessages, hstatuses⟩

theorem answers_id : Answers (cmdId rig cmd) cmd := by
  intro v _
  apply (total_act_plain fun _ => rfl).bind
  intro shown
  apply (total_ask_plain fun _ => rfl).bind
  exact fun _ => total_writeStatus

theorem answers_setid : Answers (cmdSetid rig cmd args) cmd := by
  intro v _
  apply (total_act_plain fun _ => rfl).bind
  intro ids
  split
  · exact total_writeStatus
  · exact total_fail_answer rfl rfl

theorem answers_switchMode {mode : Bool} : Answers (switchMode rig mc cmd mode) cmd := by
  intro v _
  apply (total_ask_plain fun _ => rfl).bind
  intro now
  apply (total_whenever_plain (total_ask_plain fun _ => rfl)).bind
  intro _
  apply (total_waitTimeout (total_ask_plain fun _ => rfl) (by decide) _).bind
  exact fun _ => total_pure fun s hs => hs

theorem answers_preshoot : Answers (cmdPreshoot rig mc cmd) cmd := by
  intro v _
  apply (total_ask_plain fun _ => rfl).bind
  intro _
  apply (total_waitTimeout (total_ask_plain fun _ => rfl) (by decide) _).bind
  intro status
  exact total_whenever_plain (total_ask_plain fun _ => rfl)

theorem answers_waitShot (v : View) :
    Total (Looks v) (waitShot rig mc cmd) (fun _ => Looks (v.answered cmd)) (Unanswered v) := by
  apply (total_waitTimeout (total_ask_plain fun _ => rfl) (by decide) _).bind
  exact fun _ => total_pure fun s hs => hs

theorem answers_shoot : Answers (cmdShoot rig mc cmd args) cmd := by
  intro v hrest
  apply total_waitTick.bind
  intro _
  apply total_ask.bind
  intro _
  apply (total_ask_plain fun _ => rfl).bind
  intro _
  apply total_ask.bind
  intro _
  have hback : { v with full := false } = v := by
    obtain ⟨messages, statuses, full, shootSet, rawSet, finished⟩ := v
    obtain ⟨rfl, -, -⟩ := hrest
    rfl
  change Total (Looks { v with full := false }) _ _ _
  rw [hback]
  exact answers_waitShot v

theorem total_hookReady {w : View} {E : St → Prop} :
    Total (Looks w) (hookReady rig mc) (fun _ => Looks w) E := by
  apply total_loop (fun _ => Looks w)
    fun waitTime _ => (mc.shootHookReadyTimeout + 1 - waitTime).toNat
  intro waitTime m
  apply Total.assume
  intro hm
  apply (total_ask_plain fun _ => rfl).bind
  intro ready
  split
  · exact total_pure fun s hs => hs
  · split
    · exact total_pure fun s hs => hs
    · apply (total_ask_plain fun _ => rfl).bind
      intro _
      have hless : (mc.shootHookReadyTimeout + 1 - (waitTime + 10)).toNat < m := by omega
      exact total_pure fun s hs => ⟨hs, hless⟩

theorem answers_shootHookSync : Answers (cmdShootHookSync rig mc cmd args) cmd := by
  intro v hrest
  rw [cmdShootHookSync]
  split
  · obtain ⟨messages, statuses, full, shootSet, rawSet, finished⟩ := v
    obtain ⟨hfull, hshoot, hraw⟩ := hrest
    dsimp only at hfull hshoot hraw
    subst hfull hshoot hraw
    apply total_ask.bind
    intro _
    apply total_ask.bind
    intro _
    apply total_hookReady.bind
    intro ready
    split
    · apply total_waitTick.bind
      intro _
      apply (total_ask_plain fun _ => rfl).bind
      intro _
      apply (total_ask_plain fun _ => rfl).bind
      intro _
      apply total_ask.bind
      intro _
      apply total_ask.bind
      exact fun _ => answers_waitShot _
    · apply total_ask.bind
      intro _
      apply total_ask.bind
      exact fun _ => total_writeStatus
  · exact total_writeStatus

/-! ## Bursts -/

section Bursts

variable {messages : List LuaString} {statuses : List Value} {opts : Burst} {cont : Bool}
  {a b f : Bool} {E : St → Prop}

/-- The button is held through a burst in continuous mode only. -/
theorem total_pressOnce {c : Bool} :
    Total (Looks ⟨messages, statuses, c, a, b, f⟩)
      (whenever (c = false) (ask rig (.press .shootFullOnly)))
      (fun _ => Looks ⟨messages, statuses, true, a, b, f⟩) E := by
  apply total_whenever
  · exact fun _ => total_ask
  · intro hc s hs
    rw [Bool.not_eq_false] at hc
    rw [← hc]
    exact hs

theorem total_pressCont :
    Total (Looks ⟨messages, statuses, false, a, b, f⟩)
      (whenever (cont = true) (ask rig (.press .shootFullOnly)))
      (fun _ => Looks ⟨messages, statuses, cont, a, b, f⟩) E := by
  apply total_whenever
  · intro hc
    rw [hc]
    exact total_ask
  · intro hc s hs
    rw [Bool.not_eq_true] at hc
    rw [hc]
    exact hs

theorem total_releaseOnce :
    Total (Looks ⟨messages, statuses, true, a, b, f⟩)
      (whenever (cont = false) (ask rig (.release .shootFullOnly)))
      (fun _ => Looks ⟨messages, statuses, cont, a, b, f⟩) E := by
  apply total_whenever
  · intro hc
    rw [hc]
    exact total_ask
  · intro hc s hs
    rw [Bool.not_eq_false] at hc
    rw [hc]
    exact hs

theorem total_releaseCont :
    Total (Looks ⟨messages, statuses, cont, a, b, f⟩)
      (whenever (cont = true) (ask rig (.release .shootFullOnly)))
      (fun _ => Looks ⟨messages, statuses, false, a, b, f⟩) E := by
  apply total_whenever
  · exact fun _ => total_ask
  · intro hc s hs
    rw [Bool.not_eq_true] at hc
    rw [← hc]
    exact hs

theorem total_hooksOff {c : Bool} :
    Total (Looks ⟨messages, statuses, c, a, b, f⟩) (hooksOff rig)
      (fun _ => Looks ⟨messages, statuses, c, false, false, f⟩) E := by
  apply total_ask.bind
  exact fun _ => total_ask

theorem total_hooksOn {c : Bool} :
    Total (Looks ⟨messages, statuses, c, a, b, f⟩) (hooksOn rig opts)
      (fun _ => Looks ⟨messages, statuses, c, opts.shootHookTimeout ≠ 0,
        opts.rawHookTimeout ≠ 0, f⟩) E := by
  apply total_ask.bind
  exact fun _ => total_ask

/-- What is known when a burst is left. -/
def BurstPost (messages : List LuaString) (statuses : List Value) (cmd : Value) (cont a b f : Bool) :
    Option (List LuaString) → St → Prop
  | none => Looks ⟨messages, statuses ++ [cmd], false, false, false, f⟩
  | some _ => Looks ⟨messages, statuses, cont, a, b, f⟩

theorem total_giveUp {msg : LuaString} {m : Nat} {Inv : ShotVars → St → Prop}
    {measure : ShotVars → St → Nat} :
    Total (Looks ⟨messages, statuses, false, a, b, f⟩) (giveUp rig cmd msg)
      (Next Inv measure m (BurstPost messages statuses cmd cont a b f)) E := by
  apply total_hooksOff.bind
  intro _
  apply total_writeStatus.bind
  exact fun _ => total_pure fun s hs => hs

theorem total_burst (v : ShotVars) :
    Total (Looks ⟨messages, statuses, cont, a, b, f⟩) (loop (burstPass rig cmd opts cont) v)
      (BurstPost messages statuses cmd cont a b f)
      (Unanswered ⟨messages, statuses, false, false, false, f⟩) := by
  apply total_loop (fun _ => Looks ⟨messages, statuses, cont, a, b, f⟩)
    fun v _ => (opts.shots + 1 - v.i).toNat
  intro v m
  apply Total.assume
  intro hm
  rw [burstPass]
  split
  · exact total_pure fun s hs => hs
  · next hmore =>
    apply total_pressOnce.bind
    intro _
    apply (total_ask_plain fun _ => rfl).bind
    intro ready
    split
    · apply (total_ask_plain fun _ => rfl).bind
      intro readyTick
      apply total_waitTick.bind
      intro _
      apply (total_ask_plain fun _ => rfl).bind
      intro _
      apply (total_ask_plain fun _ => rfl).bind
      intro shotTick
      split
      · exact total_fail_answer rfl rfl
      · apply total_releaseOnce.bind
        intro _
        apply (total_ask_plain fun _ => rfl).bind
        intro done
        split
        · apply (total_ask_plain fun _ => rfl).bind
          intro _
          have hless : (opts.shots + 1 - (v.i + 1)).toNat < m := by omega
          exact total_pure fun s hs => ⟨hs, hless⟩
        · apply total_ask.bind
          exact fun _ => total_giveUp
    · apply total_ask.bind
      exact fun _ => total_giveUp

theorem total_burstEnd (shots : Option (List LuaString)) :
    Total (BurstPost messages statuses cmd cont a b f shots) (burstEnd rig cmd opts cont shots)
      (fun _ => Looks ⟨messages, statuses ++ [cmd], false, false, false, f⟩) E := by
  cases shots with
  | none => exact total_pure fun s hs => hs
  | some r =>
    apply total_releaseCont.bind
    intro _
    apply (total_whenever_plain (total_ask_plain fun _ => rfl)).bind
    intro _
    apply total_hooksOff.bind
    exact fun _ => total_writeStatus

theorem answers_shootBurst : Answers (cmdShootBurst rig mc cmd args) cmd := by
  intro v hrest
  rw [cmdShootBurst]
  split
  · obtain ⟨messages, statuses, full, shootSet, rawSet, finished⟩ := v
    obtain ⟨hfull, hshoot, hraw⟩ := hrest
    dsimp only at hfull hshoot hraw
    subst hfull hshoot hraw
    split
    · exact total_fail_answer rfl rfl
    · split
      · exact total_writeStatus
      · apply (total_ask_plain fun _ => rfl).bind
        intro cont
        apply total_hooksOn.bind
        intro _
        apply total_pressCont.bind
        intro _
        apply (total_burst _).bind
        exact fun shots => total_burstEnd shots
  · exact total_writeStatus

/-- The remote is waited for as long as the time goes on. -/
theorem total_remoteOn {time : List Done → Int} (hticks : Ticks rig time) {w : View}
    (remoteOnWait : Int) :
    Total (Looks w) (remoteOn rig remoteOnWait) (fun _ => Looks w) E := by
  apply (total_ask_plain fun _ => rfl).bind
  intro (now : Int)
  apply total_loop (fun _ => Looks w) fun _ s => (now + remoteOnWait - time s.log).toNat
  intro _ m
  apply total_from
  rintro s₀ ⟨hs₀, hm⟩
  have hpower : Total (fun t => t = s₀) (ask rig .getUsbPower)
      (fun _ s => Looks w s ∧ time s₀.log ≤ time s.log) E := by
    apply total_act
    rintro s rfl
    constructor
    · exact (view_concat s _).trans (congrArg (View.see · _) hs₀)
    · exact hticks.mono _ _
  apply hpower.bind
  intro power
  split
  · exact total_pure fun s hs => hs.1
  · have htick : Total (fun s => Looks w s ∧ time s₀.log ≤ time s.log) (ask rig .getTickCount)
        (fun tick s => Looks w s ∧ time s₀.log ≤ tick ∧ tick ≤ time s.log) E := by
      apply total_act
      rintro s ⟨hs, htime⟩
      refine ⟨?_, ?_, ?_⟩
      · exact (view_concat s _).trans (congrArg (View.see · _) hs)
      · change time s₀.log ≤ rig.answer s.log .getTickCount
        rw [hticks.tick]
        exact htime
      · change rig.answer s.log .getTickCount ≤ _
        rw [hticks.tick]
        exact hticks.mono _ _
    apply htick.bind
    intro (tick : Int)
    split
    · next hearly =>
      have hsleep : Total (fun s => Looks w s ∧ time s₀.log ≤ tick ∧ tick ≤ time s.log)
          (ask rig (.sleep 10)) (fun _ s => Looks w s ∧ time s₀.log ≤ tick ∧ tick < time s.log) E := by
        apply total_act
        rintro s ⟨hs, hlow, hhigh⟩
        refine ⟨?_, hlow, ?_⟩
        · exact (view_concat s _).trans (congrArg (View.see · _) hs)
        · exact lt_of_le_of_lt hhigh (hticks.sleep _ _ _ (by decide))
      apply hsleep.bind
      intro _
      apply total_pure
      rintro s ⟨hs, hlow, hhigh⟩
      have hless : (now + remoteOnWait - time s.log).toNat < m := by omega
      exact ⟨hs, hless⟩
    · exact total_pure fun s hs => hs.1

theorem total_remoteOnIf {time : List Done → Int} (hticks : Ticks rig time) {w : View}
    {remoteOnWait : Option Int} :
    Total (Looks w) (remoteOnIf rig remoteOnWait) (fun _ => Looks w) E := by
  cases remoteOnWait with
  | none => exact total_pure fun s hs => hs
  | some remoteOnWait => exact total_remoteOn hticks remoteOnWait

theorem total_usb {time : List Done → Int} (hticks : Ticks rig time) (v : ShotVars) :
    Total (Looks ⟨messages, statuses, cont, a, b, f⟩) (loop (usbPass rig cmd opts cont) v)
      (BurstPost messages statuses cmd cont a b f) E := by
  apply total_loop (fun _ => Looks ⟨messages, statuses, cont, a, b, f⟩)
    fun v _ => (opts.shots + 1 - v.i).toNat
  intro v m
  apply Total.assume
  intro hm
  rw [usbPass]
  split
  · exact total_pure fun s hs => hs
  · next hmore =>
    apply (total_ask_plain fun _ => rfl).bind
    intro _
    apply total_pressOnce.bind
    intro _
    apply (total_ask_plain fun _ => rfl).bind
    intro ready
    split
    · apply (total_remoteOnIf hticks).bind
      intro _
      apply (total_ask_plain fun _ => rfl).bind
      intro _
      apply total_releaseOnce.bind
      intro _
      apply (total_ask_plain fun _ => rfl).bind
      intro done
      split
      · apply (total_ask_plain fun _ => rfl).bind
        intro tick
        apply (total_ask_plain fun _ => rfl).bind
        intro _
        have hless : (opts.shots + 1 - (v.i + 1)).toNat < m := by omega
        exact total_pure fun s hs => ⟨hs, hless⟩
      · apply total_ask.bind
        intro _
        apply (total_ask_plain fun _ => rfl).bind
        exact fun _ => total_giveUp
    · apply (total_ask_plain fun _ => rfl).bind
      intro _
      apply total_ask.bind
      exact fun _ => total_giveUp

theorem answers_shootBurstUsbPwr {time : List Done → Int} (hticks : Ticks rig time) :
    Answers (cmdShootBurstUsbPwr rig mc cmd args) cmd := by
  intro v hrest
  rw [cmdShootBurstUsbPwr]
  split
  · obtain ⟨messages, statuses, full, shootSet, rawSet, finished⟩ := v
    obtain ⟨hfull, hshoot, hraw⟩ := hrest
    dsimp only at hfull hshoot hraw
    subst hfull hshoot hraw
    split
    · exact total_writeStatus
    · apply (total_ask_plain fun _ => rfl).bind
      intro cont
      apply (total_ask_plain fun _ => rfl).bind
      intro _
      apply total_hooksOn.bind
      intro _
      apply total_pressCont.bind
      intro _
      apply (total_usb hticks _).bind
      exact fun shots => total_burstEnd shots
  · exact total_writeStatus

end Bursts

/-! ## The other commands -/

theorem answers_tick : Answers (cmdTick rig cmd) cmd := by
  intro v _
  apply (total_ask_plain fun _ => rfl).bind
  exact fun _ => total_writeStatus

theorem answers_synctick : Answers (cmdSynctick rig cmd args) cmd := by
  intro v _
  apply (total_ask_plain fun _ => rfl).bind
  intro t
  apply total_waitTick.bind
  intro _
  apply (total_ask_plain fun _ => rfl).bind
  exact fun _ => total_writeStatus

theorem answers_setclock : Answers (cmdSetclock rig cmd args) cmd := by
  intro v _
  rw [cmdSetclock]
  split
  · exact total_fail_answer rfl rfl
  · split
    · exact total_writeStatus
    · apply total_waitTick.bind
      intro _
      apply (total_ask_plain fun _ => rfl).bind
      intro _
      apply (total_ask_plain fun _ => rfl).bind
      exact fun _ => total_writeStatus

/-- The script ends after `exit`. -/
theorem total_exit (v : View) :
    Total (Looks v) (cmdExit rig cmd)
      (fun _ => Looks { v.answered cmd with finished := true }) (Unanswered v) := by
  have hset : Total (Looks v)
      (act fun s => ((⟨⟩ : PUnit), { s with finished := true }) : CamScript PUnit)
      (fun _ => Looks { v with finished := true }) (Unanswered v) := by
    apply total_act
    intro s hs
    exact (view_finished s true).trans (congrArg (fun v : View => { v with finished := true }) hs)
  apply Total.bind hset
  exact fun _ => total_writeStatus

theorem answers_call : Answers (cmdCall rig cmd args) cmd := by
  intro v _
  apply (total_ask_plain fun _ => rfl).bind
  intro loaded
  split
  · exact total_writeStatus
  · apply (total_ask_plain fun _ => rfl).bind
    intro values
    split
    · exact total_fail_answer rfl rfl
    · exact total_writeStatus

theorem answers_pcall : Answers (cmdPcall rig cmd args) cmd := by
  intro v _
  apply (total_ask_plain fun _ => rfl).bind
  intro loaded
  split
  · exact total_writeStatus
  · apply (total_ask_plain fun _ => rfl).bind
    intro values
    split
    · exact total_writeStatus
    · exact total_writeStatus

theorem answers_getlastimg : Answers (cmdGetlastimg rig cmd) cmd := by
  intro v _
  apply (total_ask_plain fun _ => rfl).bind
  exact fun _ => total_writeStatus

theorem answers_imglist : Answers (cmdImglist rig cmd args) cmd := by
  intro v _
  rw [cmdImglist]
  split
  · exact total_writeStatus
  · apply (total_ask_plain fun _ => rfl).bind
    intro listed
    split
    · exact total_fail_answer rfl rfl
    · exact total_writeStatus
    · exact total_writeStatus

/-- What is known behind a message: it has been answered once, and ends the script if it is
`exit`. -/
def Performed (v : View) (msg : LuaString) (s : St) : Prop :=
  Looks { v.answered (cmdName msg) with finished := msg.takeWhile isWord = text "exit" } s

theorem Answers.performed {x : CamScript PUnit} {msg : LuaString} (hx : Answers x (cmdName msg))
    (hv : v.Rest) (hfinished : v.finished = false) (hexit : msg.takeWhile isWord ≠ text "exit") :
    Total (Looks v) x (fun _ => Performed v msg) (Unanswered v) := by
  apply (hx v hv).weaken
  intro _ s hs
  have hsame : { v.answered (cmdName msg) with
      finished := decide (msg.takeWhile isWord = text "exit") } = v.answered (cmdName msg) := by
    rw [decide_eq_false hexit, ← hfinished]
    rfl
  rw [Performed, hsame]
  exact hs

/-- Each command but `exit` answers and goes on. -/
theorem answers_cmds {time : List Done → Int} (hticks : Ticks rig time) {name : LuaString}
    {command : Value → LuaString → CamScript PUnit} (hmem : (name, command) ∈ cmds rig mc) :
    name = text "exit" ∧ command = (fun cmd _ => cmdExit rig cmd) ∨
      name ≠ text "exit" ∧ ∀ cmd args, Answers (command cmd args) cmd := by
  have hother : ∀ {name : LuaString} {command : Value → LuaString → CamScript PUnit},
      name ≠ text "exit" → (∀ cmd args, Answers (command cmd args) cmd) →
      name = text "exit" ∧ command = (fun cmd _ => cmdExit rig cmd) ∨
        name ≠ text "exit" ∧ ∀ cmd args, Answers (command cmd args) cmd :=
    fun hname hanswers => .inr ⟨hname, hanswers⟩
  simp only [cmds, List.mem_cons, List.not_mem_nil, or_false, Prod.mk.injEq] at hmem
  obtain ⟨rfl, rfl⟩ | ⟨rfl, rfl⟩ | ⟨rfl, rfl⟩ | ⟨rfl, rfl⟩ | ⟨rfl, rfl⟩ | ⟨rfl, rfl⟩ | ⟨rfl, rfl⟩ |
    ⟨rfl, rfl⟩ | ⟨rfl, rfl⟩ | ⟨rfl, rfl⟩ | ⟨rfl, rfl⟩ | ⟨rfl, rfl⟩ | ⟨rfl, rfl⟩ | ⟨rfl, rfl⟩ |
    ⟨rfl, rfl⟩ | ⟨rfl, rfl⟩ | ⟨rfl, rfl⟩ := hmem
  · exact hother (by decide) fun _ _ => answers_id
  · exact hother (by decide) fun _ _ => answers_setid
  · exact hother (by decide) fun _ _ => answers_switchMode
  · exact hother (by decide) fun _ _ => answers_switchMode
  · exact hother (by decide) fun _ _ => answers_preshoot
  · exact hother (by decide) fun _ _ => answers_shoot
  · exact hother (by decide) fun _ _ => answers_shootHookSync
  · exact hother (by decide) fun _ _ => answers_shootBurst
  · exact hother (by decide) fun _ _ => answers_shootBurstUsbPwr hticks
  · exact hother (by decide) fun _ _ => answers_tick
  · exact hother (by decide) fun _ _ => answers_synctick
  · exact hother (by decide) fun _ _ => answers_setclock
  · exact .inl ⟨rfl, rfl⟩
  · exact hother (by decide) fun _ _ => answers_call
  · exact hother (by decide) fun _ _ => answers_pcall
  · exact hother (by decide) fun _ _ => answers_getlastimg
  · exact hother (by decide) fun _ _ => answers_imglist

/-- Whatever the message, it is answered once. -/
theorem total_perform {time : List Done → Int} (hticks : Ticks rig time) (msg : LuaString)
    (hv : v.Rest) (hfinished : v.finished = false) :
    Total (Looks v) (perform rig mc msg) (fun _ => Performed v msg) (Unanswered v) := by
  rw [perform]
  split
  · next command hcommand =>
    obtain ⟨before, rest, hsplit, -⟩ := List.lookup_eq_some_iff.mp hcommand
    have hmem : (msg.takeWhile isWord, command) ∈ cmds rig mc := by
      rw [hsplit]
      exact List.mem_append_right _ List.mem_cons_self
    obtain ⟨hexit, hcmd⟩ | ⟨hexit, hanswers⟩ := answers_cmds hticks hmem
    · rw [hcmd]
      apply (total_exit v).weaken
      intro _ s hs
      rw [Performed, hexit, decide_eq_true rfl]
      exact hs
    · exact (hanswers _ _).performed hv hfinished hexit
  · next hnone =>
    have hexit : msg.takeWhile isWord ≠ text "exit" := by
      intro hexit
      rw [hexit] at hnone
      have hsome : ((cmds rig mc).lookup (text "exit")).isSome = true := rfl
      rw [hnone] at hsome
      cases hsome
    have hunknown : Answers (writeStatus rig (cmdName msg) (failed (text "unknown")))
        (cmdName msg) := fun v _ => total_writeStatus
    exact hunknown.performed hv hfinished hexit

end Commands

/-! ## The whole run -/

section Run

variable {rig : Rig} {mc : Settings} {time : List Done → Int}

/-- Each message that was read has been answered, in order and with its name, and nothing is left
pressed or set. -/
def Answered (s : St) : Prop :=
  (view s).statuses = (view s).messages.map cmdName ∧ (view s).Rest

/-- The last message has not been answered, and all before it have. -/
def Broken (s : St) : Prop :=
  ∃ before msg, (view s).messages = before ++ [msg] ∧ (view s).statuses = before.map cmdName

/-- The last message was `exit`. -/
def Exited (s : St) : Prop :=
  ∃ before msg, (view s).messages = before ++ [msg] ∧ msg.takeWhile isWord = text "exit"

/-- One pass. -/
theorem total_runPass (hticks : Ticks rig time) (u : PUnit) :
    Total (fun s => Answered s ∧ (view s).finished = false) (runPass rig mc u)
      (First (fun _ s => Answered s ∧ (view s).finished = false) fun _ s => Answered s ∧ Exited s)
      Broken := by
  apply total_from
  rintro s₀ ⟨⟨hstatuses, hrest⟩, hgoing⟩
  have hstart : Total (fun s => s = s₀) (ask rig (.readUsbMsg mc.msgTimeout))
      (fun r => Looks ((view s₀).see ⟨.readUsbMsg mc.msgTimeout, r⟩)) Broken := by
    apply total_ask.conseq _ (fun _ _ hs => hs) fun _ hs => hs
    rintro s rfl
    rfl
  have hend : ∀ w : View, Total (Looks w)
      (act fun s => (if s.finished then .inr ⟨⟩ else .inl ⟨⟩, s) : CamScript (PUnit ⊕ PUnit))
      (fun out s => Looks w s ∧ out = if w.finished then .inr ⟨⟩ else .inl ⟨⟩) Broken := by
    intro w
    apply total_act
    rintro s rfl
    refine ⟨rfl, ?_⟩
    have hsame : (view s).finished = s.finished := by
      have hset := view_finished s s.finished
      rw [hset]
    rw [hsame]
  apply hstart.bind
  intro msg
  cases msg with
  | none =>
    have hsee : (view s₀).see ⟨.readUsbMsg mc.msgTimeout, none⟩ = view s₀ := by
      change { view s₀ with messages := (view s₀).messages ++ [] } = view s₀
      rw [List.append_nil]
    rw [hsee]
    have hidle : Total (Looks (view s₀)) (idle rig) (fun _ => Looks (view s₀)) Broken := by
      apply (total_act_plain fun _ => rfl).bind
      exact fun _ => total_whenever_plain (total_ask_plain fun _ => rfl)
    apply hidle.bind
    intro _
    apply (hend _).weaken
    rintro out s ⟨hs, rfl⟩
    rw [hgoing]
    change Answered s ∧ (view s).finished = false
    rw [Answered, hs]
    exact ⟨⟨hstatuses, hrest⟩, hgoing⟩
  | some msg =>
    have hbroken : Total (Looks { view s₀ with messages := (view s₀).messages ++ [msg] })
        (perform rig mc msg)
        (fun _ => Performed { view s₀ with messages := (view s₀).messages ++ [msg] } msg)
        Broken := by
      have hperform : Total (Looks { view s₀ with messages := (view s₀).messages ++ [msg] })
          (perform rig mc msg) _ _ := total_perform hticks msg hrest hgoing
      apply hperform.conseq (fun _ hs => hs) fun _ _ hs => hs
      rintro s ⟨hmessages, hunanswered⟩
      exact ⟨_, msg, hmessages, hunanswered.trans hstatuses⟩
    apply hbroken.bind
    intro _
    apply (hend _).weaken
    rintro out s ⟨hs, rfl⟩
    have hanswered : Answered s := by
      rw [Answered, hs]
      refine ⟨?_, hrest⟩
      change (view s₀).statuses ++ [cmdName msg] = ((view s₀).messages ++ [msg]).map cmdName
      rw [hstatuses, List.map_append]
      rfl
    by_cases hexit : msg.takeWhile isWord = text "exit"
    · rw [decide_eq_true hexit]
      refine ⟨hanswered, (view s₀).messages, msg, ?_, hexit⟩
      rw [hs]
      rfl
    · rw [decide_eq_false hexit]
      refine ⟨hanswered, ?_⟩
      rw [hs]
      exact decide_eq_false hexit

/-- A camera that is asked for the tick count and then told to end, and never says no. -/
def calm : Rig where
  answer log q :=
    match q with
    | .readUsbMsg _ => if log = [] then some (text "tick") else some (text "exit")
    | .getMode | .getShooting | .hookIsReady _ | .hookWaitReady .. | .isCont => true
    | .getTickCount => (log.length : Int)
    | .getUsbPower | .osTime => (1 : Int)
    | .lastImage => text "A/DCIM/100CANON/IMG_0001.JPG"
    | .loadstring _ => .ok ⟨⟩
    | .runCode _ => .ok .nil
    | .ffImglist _ => .ok (.ok ⟨⟩)
    | .writeUsbMsg .. | .switchModeUsb _ | .sleep _ | .press _ | .release _ | .hookSet ..
    | .hookContinue _ | .usbForceActive | .usbSyncWait _ | .setClock _ | .drawId => ⟨⟩
  hookShoot := true
  tonumber _ := none
  unserialize _ := .ok {}
  unserializeClock _ := .error []
  unserializeArgs _ := .ok ⟨⟩

theorem calm_ticks : Ticks calm fun log => log.length where
  tick _ := rfl
  mono log d := by
    rw [List.length_append]
    omega
  sleep log ms r _ := by
    rw [List.length_append, List.length_singleton]
    omega

end Run

end McScript
