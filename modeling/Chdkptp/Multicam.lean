import Chdkptp.ActionSystem
import Chdkptp.LuaValue
import Mathlib.Algebra.Order.Ring.Rat
import Mathlib.Data.List.Sort

/-!
# Several cameras

`multicam`: connections to cameras with ids. A connection is a new object each time, here a
number; its id is a field of the object. Any call of a camera may throw.
-/

namespace Multicam

open ActionSystem LuaValue

/-- `mc`, and the fields of the connections. `bySerial` is whether there is a table
`cams_by_serial`. -/
structure Mc where
  cams : List Nat
  selected : List Nat
  maxId : Rat
  bySerial : Bool
  mcId : Nat → Rat
  /-- The bus and the device. -/
  condev : Nat → LuaString × LuaString
  /-- The number of the next connection. -/
  next : Nat

def start : Mc := ⟨[], [], 0, false, fun _ => 0, fun _ => ([], []), 0⟩

/-- `mc:find_dev`. -/
def findDev (s : Mc) (devspec : LuaString × LuaString) : Option Nat :=
  s.cams.find? fun c => s.condev c = devspec

/-- `mc:find_id`. -/
def findId (s : Mc) (id : Rat) : Option Nat := s.cams.find? fun c => s.mcId c = id

/-- `mc:sel('all')`. -/
def selAll (s : Mc) : Mc :=
  { s with selected := s.cams.mergeSort fun a b => s.mcId a ≤ s.mcId b }

/-! ## Connecting -/

/-- A device of the list: whether there is a connection to it in the end, whether it matches,
and whether disconnecting it throws; an error is a call that throws before this is known. -/
structure Device where
  condev : LuaString × LuaString
  connected : Except Unit Bool
  serial : Option LuaString
  matched : Except Unit Bool
  disconnectThrows : Bool

/-- A camera is put on the list with a new id. -/
def addCam (s : Mc) (lcon : Nat) : Mc :=
  { s with
    cams := s.cams ++ [lcon]
    maxId := s.maxId + 1
    mcId := Function.update s.mcId lcon (s.maxId + 1) }

/-- The loop of `mc:connect` for one device, and whether it throws. -/
def visit (closeTempcons : Bool) (s : Mc) (d : Device) : Mc × Bool :=
  let lcon := s.next
  let s := { s with next := s.next + 1, condev := Function.update s.condev lcon d.condev }
  match d.connected with
  | .error _ => (s, true)
  | .ok false => (s, false)
  | .ok true =>
    if (findDev s d.condev).isSome then (s, false)
    else
      match d.matched with
      | .error _ => (s, true)
      | .ok true =>
        -- without the table of serials it cannot be indexed
        (addCam s lcon, d.serial.isSome && !s.bySerial)
      -- disconnect temporary connections
      | .ok false => (s, closeTempcons && d.disconnectThrows)

def visits (closeTempcons : Bool) (s : Mc) : List Device → Mc × Bool
  | [] => (s, false)
  | d :: devices =>
    match visit closeTempcons s d with
    | (s, true) => (s, true)
    | (s, false) => visits closeTempcons s devices

/-- `mc:connect` without a list; there are no devices where `chdk.list_usb_devices` throws. -/
def connect (s : Mc) (add closeTempcons : Bool) (devices : Option (List Device)) : Mc × Bool :=
  let s := if add then s else { s with cams := [], bySerial := true, maxId := 0 }
  match devices with
  | none => (s, true)
  | some devices =>
    match visits closeTempcons s devices with
    | (s, true) => (s, true)
    | (s, false) => (selAll s, false)

/-! ## Setting ids -/

/-- What the camera does in `mc:set_id_cam`: asking for its script throws; or no script runs;
or `mc:cmdwait` returns; or it throws. -/
inductive Sent where
  | statusThrows
  | idle
  | done
  | cmdThrows
  deriving DecidableEq

/-- `mc:set_id_cam`. -/
def setIdCam (s : Mc) (lcon : Nat) (id : Rat) (sent : Sent) : Mc × Bool :=
  let s := { s with mcId := Function.update s.mcId lcon id }
  match sent with
  | .statusThrows => (s, true)
  | .idle => (s, false)
  | .done =>
    let savedSel := s.selected
    let s := { s with selected := [lcon] }
    ({ s with selected := savedSel }, false)
  | .cmdThrows => ({ s with selected := [lcon] }, true)

/-- The argument `conflicts`; another one than these is an error too. -/
inductive Conflicts where
  | swap
  | error
  | other
  deriving DecidableEq

/-- The end of `mc:set_id`. -/
def setIdLast (s : Mc) (lcon : Nat) (newId : Rat) (sent : Sent) : Mc × Bool :=
  match setIdCam s lcon newId sent with
  | (s, true) => (s, true)
  | (s, false) =>
    -- update max_id if needed
    let s := if newId > s.maxId then { s with maxId := newId } else s
    (selAll s, false)

/-- `mc:set_id`; `sent` and `sent'` are what the camera with the new id and the other one do. -/
def setId (s : Mc) (oldId newId : Rat) (conflicts : Conflicts) (sent sent' : Sent) : Mc × Bool :=
  match findId s oldId with
  | none => (s, true)
  | some lcon =>
    match findId s newId with
    | none => setIdLast s lcon newId sent'
    | some conflictCon =>
      match conflicts with
      | .swap =>
        match setIdCam s conflictCon oldId sent with
        | (s, true) => (s, true)
        | (s, false) => setIdLast s lcon newId sent'
      | _ => (s, true)

inductive Op where
  | connect (add closeTempcons : Bool) (devices : Option (List Device))
  | setId (oldId newId : Rat) (conflicts : Conflicts) (sent sent' : Sent)

def step (s : Mc) : Op → Mc × Bool
  | .connect add closeTempcons devices => connect s add closeTempcons devices
  | .setId oldId newId conflicts sent sent' => setId s oldId newId conflicts sent sent'

def system : System Mc Op := ⟨fun s op => some (step s op).1⟩

end Multicam
