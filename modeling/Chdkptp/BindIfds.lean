import Chdkptp.DngEntry
import Chdkptp.Fuelled

/-!
# Binding the header of a DNG

`bind_header` and `bind_ifds` of `dng.lua`. The IFDs of a chain are bound in a loop that goes
on until an offset is zero; the chains that `SubIFDs` and `ExifIFD` lead to are bound by
recursive calls, for which there is only so much of the Lua stack.
-/

namespace BindIfds

open ByteMemory Lbuf LittleEndian LbufValues DngEntry

inductive BindError where
  | dng (e : DngError)
  | raised (msg : String)
  | stackOverflow
  deriving DecidableEq, Repr

def toBind {α : Type} : Except DngError α → Except BindError α
  | .ok a => .ok a
  | .error e => .error (.dng e)

/-! ## Bound fields -/

/-- `bind_seek` with an offset from a position. -/
def bindSeek (len pos offset : Nat) : Except BindError Nat :=
  if len < pos + offset then .error (.raised "invalid pos") else .ok (pos + offset)

/-- Fields of these sizes bound one after the other, with the position behind them. -/
def bindFields (len : Nat) : List Nat → Nat → Except BindError Nat
  | [], pos => .ok pos
  | size :: sizes, pos =>
    if len < pos + size then .error (.raised "illegal offset")
    else bindFields len sizes (pos + size)

def bindTiffHeader (lb : LBuf) : Except BindError Nat := bindFields lb.len.toNat [2, 2, 4] 0

/-- An entry whose place is known: behind the count of entries, twelve bytes each. -/
def entryAt (ifdOff i : Nat) : Entry := ⟨ifdOff + 2 + i * 12⟩

def bindIfdEntry (lb : LBuf) (ifdOff i : Nat) : Except BindError Entry := do
  let pos ← bindSeek lb.len.toNat 0 (entryAt ifdOff i).off
  let _ ← bindFields lb.len.toNat [2, 2, 4, 4] pos
  return entryAt ifdOff i

/-! ## IFDs -/

structure Ifd where
  index : Nat
  off : Nat
  nEntries : Nat
  entries : List Entry := []
  /-- the entries by their tags, the last one first -/
  bytag : List (Nat × Entry) := []
  sub : Option (List Ifd) := none
  exif : Option (List Ifd) := none
  isExif : Bool := false

def tagSubIfds : Nat := 0x14a

def tagExifIfd : Nat := 0x8769

/-- `e:type().elsize`, nil for an unknown type. -/
def elsize (lb : LBuf) (e : Entry) : Except BindError Nat := do
  match ← toBind (e.type lb) with
  | some t => .ok t.elsize
  | none => .error (.dng .nilValue)

/-- `ifd.exif[1].is_exif=true` -/
def markExif : List Ifd → Except BindError (List Ifd)
  | [] => .error (.dng .nilValue)
  | ifd :: ifds => .ok ({ ifd with isExif := true } :: ifds)

section Bind

variable (lb : LBuf) (bind : Nat → List Ifd → Fuelled BindError (List Ifd))

/-- One pass of the loop over the chains of a `SubIFDs` entry. -/
def bindSubAt (e : Entry) (sub : List Ifd) (i : Nat) : Fuelled BindError (List Ifd) := do
  let valoff ← toBind (e.valoff lb)
  bind (valoff + i * (← elsize lb e)) sub

/-- The chains are appended to one list. -/
def bindSub (e : Entry) : Fuelled BindError (List Ifd) := do
  (List.range (← toBind (e.count lb))).foldlM (bindSubAt lb bind e) []

/-- One exif IFD is bound; for any other count there is a warning. -/
def bindExif (e : Entry) : Fuelled BindError (List Ifd) := do
  if (← toBind (e.count lb)) = 1 then
    markExif (← bind (← toBind (e.valoff lb)) [])
  else return []

def bindEntry (ifd : Ifd) (i : Nat) : Fuelled BindError Ifd := do
  let e ← bindIfdEntry lb ifd.off i
  let tag ← toBind (e.tag lb)
  let ifd := { ifd with entries := ifd.entries ++ [e], bytag := (tag, e) :: ifd.bytag }
  if tag = tagSubIfds then
    return { ifd with sub := some (← bindSub lb bind e) }
  else if tag = tagExifIfd then
    return { ifd with exif := some (← bindExif lb bind e) }
  else return ifd

def inside (off : Nat) : Except BindError Unit :=
  if lb.len.toNat ≤ off then .error (.raised "ifd outside of data") else .ok ()

/-- One pass of the loop: an IFD and the offset of the next one. -/
def bindIfd (index off : Nat) : Fuelled BindError (Ifd × Nat) := do
  inside lb off
  let nEntries ← toBind (Entry.field lb .u16 off)
  let ifd ← (List.range nEntries).foldlM (bindEntry lb bind)
    ⟨index, off, nEntries, [], [], none, none, false⟩
  let next ← toBind (Entry.field lb .u32 (off + (nEntries * 12 + 2)))
  return (ifd, next)

end Bind

/-- `bind_ifds` where the Lua stack has room for so many calls; the list is appended to. -/
def bindIfds (lb : LBuf) : (calls : Nat) → (off : Nat) → List Ifd → Fuelled BindError (List Ifd)
  | 0, _, _ => Fuelled.ofExcept (.error .stackOverflow)
  | calls + 1, off, ifds =>
    Fuelled.repeatUntil (fun (off, ifds) => do
      let (ifd, next) ← bindIfd lb (bindIfds lb calls) ifds.length off
      return if next = 0 then .inr (ifds ++ [ifd]) else .inl (next, ifds ++ [ifd])) (off, ifds)

/-! ## The header -/

inductive PathPart where
  | ifd (index : Nat)
  | exif
  | other

/-- The loop of `get_ifd` with the current list and the current IFD. -/
def followPath : List PathPart → Option (List Ifd) → Option Ifd → Except BindError (Option Ifd)
  | [], _, cur => .ok cur
  | _ :: _, none, _ => .ok none
  | .ifd index :: path, some curList, _ =>
    match curList[index]? with
    | none => .ok none
    | some cur => followPath path cur.sub (some cur)
  | .exif :: _, some _, none => .error (.dng .nilValue)
  | .exif :: path, some _, some cur =>
    match cur.exif with
    | none => .ok none
    | some exif => followPath path none exif[0]?
  | .other :: _, some _, _ => .error (.raised "invalid path")

def getIfd (ifds : List Ifd) (path : List PathPart) : Except BindError (Option Ifd) :=
  followPath path (some ifds) none

structure Dng where
  ifds : List Ifd
  mainIfd : Option Ifd
  rawIfd : Option Ifd
  exifIfd : Option Ifd

def hex (n : Nat) : String := String.ofList (Nat.toDigits 16 n)

/-- `bind_header`, which returns the header or false with a message. -/
def bindHeader (lb : LBuf) (calls : Nat) : Fuelled BindError (Except String Dng) := do
  let _ ← bindTiffHeader lb
  let byteOrder ← toBind (Entry.field lb .u16 0)
  if byteOrder ≠ 0x4949 then
    if byteOrder = 0x4d4d then return .error "big endian unsupported"
    return .error ("invalid byte order 0x" ++ hex byteOrder)
  let id ← toBind (Entry.field lb .u16 2)
  if id ≠ 42 then return .error ("invalid id " ++ toString id ++ ", expected 42")
  let ifds ← bindIfds lb calls (← toBind (Entry.field lb .u32 4)) []
  let mainIfd ← getIfd ifds [.ifd 0]
  let rawIfd ← getIfd ifds [.ifd 0, .ifd 0]
  let exifIfd ← getIfd ifds [.ifd 0, .exif]
  return .ok ⟨ifds, mainIfd, rawIfd, exifIfd⟩

end BindIfds
