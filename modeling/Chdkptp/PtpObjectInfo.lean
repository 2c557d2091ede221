import Mathlib.Data.List.TakeWhile
import Chdkptp.PtpDataset

/-!
# Object information

`ptp_pack_OI` and `ptp_unpack_OI`. What is packed has a file name and no dates; what a device
sends may have dates, which are taken apart by their places and go through `mktime`.
-/

namespace PtpObjectInfo

open ByteMemory TracedRead ByteLayout PtpDataset

/-- `Keywords` is not touched. The file name is the block that the pointer leads to. -/
structure PTPObjectInfo where
  storageID : UInt32
  objectFormat : UInt16
  protectionStatus : UInt16
  objectCompressedSize : UInt32
  thumbFormat : UInt16
  thumbCompressedSize : UInt32
  thumbPixWidth : UInt32
  thumbPixHeight : UInt32
  imagePixWidth : UInt32
  imagePixHeight : UInt32
  imageBitDepth : UInt32
  parentObject : UInt32
  associationType : UInt16
  associationDesc : UInt32
  sequenceNumber : UInt32
  filename : Option (List UInt8)
  captureDate : Int
  modificationDate : Int
  deriving DecidableEq

/-! ## Packing -/

/-- What `ptp_pack_OI` leaves: how much it has allocated, the memory around, and the size. -/
structure Packed where
  alloc : Nat
  data : Memory
  size : Nat

/-- `ptp_pack_OI`, if there is a file name. The block is cleared first. -/
def ptpPackOI (byteorder : UInt8) (heap : Memory) (oi : PTPObjectInfo) : Option Packed := do
  let filename ← oi.filename
  let alloc := 53 + (strlen filename + 1) * 2 + 4
  let oidata := blit heap 0 (List.replicate alloc 0)
  let oidata := htod32a byteorder oidata 0 oi.storageID
  let oidata := htod16a byteorder oidata 4 oi.objectFormat
  let oidata := htod16a byteorder oidata 6 oi.protectionStatus
  let oidata := htod32a byteorder oidata 8 oi.objectCompressedSize
  let oidata := htod16a byteorder oidata 12 oi.thumbFormat
  let oidata := htod32a byteorder oidata 14 oi.thumbCompressedSize
  let oidata := htod32a byteorder oidata 18 oi.thumbPixWidth
  let oidata := htod32a byteorder oidata 22 oi.thumbPixHeight
  let oidata := htod32a byteorder oidata 26 oi.imagePixWidth
  let oidata := htod32a byteorder oidata 30 oi.imagePixHeight
  let oidata := htod32a byteorder oidata 34 oi.imageBitDepth
  let oidata := htod32a byteorder oidata 38 oi.parentObject
  let oidata := htod16a byteorder oidata 42 oi.associationType
  let oidata := htod32a byteorder oidata 44 oi.associationDesc
  let oidata := htod32a byteorder oidata 48 oi.sequenceNumber
  let (oidata, filenamelen) := ptpPackString byteorder filename oidata 52
  return { alloc, data := oidata, size := 53 + (filenamelen.toNat + 1) * 2 + 1 * 4 }

/-! ## Unpacking -/

/-- `struct tm` -/
structure Tm where
  sec : Int := 0
  min : Int := 0
  hour : Int := 0
  mday : Int := 0
  mon : Int := 0
  year : Int := 0
  wday : Int := 0
  yday : Int := 0
  isdst : Int := 0
  deriving DecidableEq

/-- `mktime`, which also changes the structure it is given. -/
abbrev Mktime := Tm → Int × Tm

def isSpace (c : UInt8) : Bool := c = 32 ∨ (9 ≤ c ∧ c ≤ 13)

def isDigit (c : UInt8) : Bool := 48 ≤ c ∧ c ≤ 57

def digitsOf (s : List UInt8) : Int :=
  (s.takeWhile isDigit).foldl (fun n c => n * 10 + (c.toNat - 48)) 0

/-- `atoi` of a string that is too short to overflow. -/
def atoi (s : List UInt8) : Int :=
  match s.dropWhile isSpace with
  | 45 :: s => -digitsOf s
  | 43 :: s => digitsOf s
  | s => digitsOf s

/-- `strncpy (tmp, date + start, n)`, `tmp[n] = 0` and `atoi (tmp)`. -/
def atoiAt (date : List UInt8) (start n : Nat) : Int := atoi (cstring ((date.drop start).take n))

/-- The date of a block with at least 16 bytes. -/
def setTm (tm : Tm) (date : List UInt8) : Tm :=
  { tm with
    year := atoiAt date 0 4 - 1900
    mon := atoiAt date 4 2 - 1
    mday := atoiAt date 6 2
    hour := atoiAt date 9 2
    min := atoiAt date 11 2
    sec := atoiAt date 13 2 }

/-- A date that is kept if the string is too short. -/
def dateOf (mktime : Mktime) (tm : Tm) (date : Option (List UInt8) × UInt8) (kept : Int) :
    Int × Tm :=
  if date.2 > 15 then mktime (setTm tm (date.1.getD [])) else (kept, tm)

/-- The first part of `ptp_unpack_OI`. -/
def ptpUnpackOINumbers (byteorder : UInt8) (oi : PTPObjectInfo) : Read PTPObjectInfo := do
  let storageID ← dtoh32a byteorder 0
  let objectFormat ← dtoh16a byteorder 4
  let protectionStatus ← dtoh16a byteorder 6
  let objectCompressedSize ← dtoh32a byteorder 8
  let thumbFormat ← dtoh16a byteorder 12
  let thumbCompressedSize ← dtoh32a byteorder 14
  let thumbPixWidth ← dtoh32a byteorder 18
  let thumbPixHeight ← dtoh32a byteorder 22
  let imagePixWidth ← dtoh32a byteorder 26
  let imagePixHeight ← dtoh32a byteorder 30
  let imageBitDepth ← dtoh32a byteorder 34
  let parentObject ← dtoh32a byteorder 38
  let associationType ← dtoh16a byteorder 42
  let associationDesc ← dtoh32a byteorder 44
  let sequenceNumber ← dtoh32a byteorder 48
  return { oi with
    storageID, objectFormat, protectionStatus, objectCompressedSize, thumbFormat,
    thumbCompressedSize, thumbPixWidth, thumbPixHeight, imagePixWidth, imagePixHeight,
    imageBitDepth, parentObject, associationType, associationDesc, sequenceNumber }

/-- `ptp_unpack_OI`, into a structure that may hold anything. -/
def ptpUnpackOI (byteorder : UInt8) (mktime : Mktime) (oi : PTPObjectInfo) :
    Read PTPObjectInfo := do
  let oi ← ptpUnpackOINumbers byteorder oi
  let (filename, filenamelen) ← ptpUnpackString byteorder 52
  let first ← ptpUnpackString byteorder (UInt16.ofNat (52 + filenamelen.toNat * 2 + 1))
  let (captureDate, tm) := dateOf mktime {} first oi.captureDate
  let second ← ptpUnpackString byteorder
    (UInt16.ofNat (52 + filenamelen.toNat * 2 + first.2.toNat * 2 + 2))
  let (modificationDate, _) := dateOf mktime tm second oi.modificationDate
  return { oi with filename, captureDate, modificationDate }

/-! ## The bytes -/

/-- The numbers of an object information, one after the other. -/
def numbers (order : ByteOrder) (oi : PTPObjectInfo) : List UInt8 :=
  toBytes order 4 oi.storageID.toNat ++ toBytes order 2 oi.objectFormat.toNat ++
    toBytes order 2 oi.protectionStatus.toNat ++ toBytes order 4 oi.objectCompressedSize.toNat ++
    toBytes order 2 oi.thumbFormat.toNat ++ toBytes order 4 oi.thumbCompressedSize.toNat ++
    toBytes order 4 oi.thumbPixWidth.toNat ++ toBytes order 4 oi.thumbPixHeight.toNat ++
    toBytes order 4 oi.imagePixWidth.toNat ++ toBytes order 4 oi.imagePixHeight.toNat ++
    toBytes order 4 oi.imageBitDepth.toNat ++ toBytes order 4 oi.parentObject.toNat ++
    toBytes order 2 oi.associationType.toNat ++ toBytes order 4 oi.associationDesc.toNat ++
    toBytes order 4 oi.sequenceNumber.toNat

@[simp] theorem numbers_length (order : ByteOrder) (oi : PTPObjectInfo) :
    (numbers order oi).length = 52 := by
  simp [numbers]

/-- The numbers of one with the rest of another. -/
def withNumbers (into oi : PTPObjectInfo) : PTPObjectInfo :=
  { oi with
    filename := into.filename
    captureDate := into.captureDate
    modificationDate := into.modificationDate }

section Reading

variable {byteorder : UInt8} {m : Bytes} {hi : Nat}

theorem yields_numbers (into oi : PTPObjectInfo)
    (h : Holds m 0 (numbers (orderOf byteorder) oi)) (hhi : 52 ≤ hi) :
    Yields (ptpUnpackOINumbers byteorder into) m 0 hi (withNumbers into oi) := by
  simp only [numbers, holds_append, List.length_append, toBytes_length, Nat.reduceAdd] at h
  obtain ⟨⟨⟨⟨⟨⟨⟨⟨⟨⟨⟨⟨⟨⟨h1, h2⟩, h3⟩, h4⟩, h5⟩, h6⟩, h7⟩, h8⟩, h9⟩, h10⟩, h11⟩, h12⟩, h13⟩, h14⟩, h15⟩ := h
  refine (yields_dtoh32a h1 (by omega) (by omega)).bind ?_
  refine (yields_dtoh16a h2 (by omega) (by omega)).bind ?_
  refine (yields_dtoh16a h3 (by omega) (by omega)).bind ?_
  refine (yields_dtoh32a h4 (by omega) (by omega)).bind ?_
  refine (yields_dtoh16a h5 (by omega) (by omega)).bind ?_
  refine (yields_dtoh32a h6 (by omega) (by omega)).bind ?_
  refine (yields_dtoh32a h7 (by omega) (by omega)).bind ?_
  refine (yields_dtoh32a h8 (by omega) (by omega)).bind ?_
  refine (yields_dtoh32a h9 (by omega) (by omega)).bind ?_
  refine (yields_dtoh32a h10 (by omega) (by omega)).bind ?_
  refine (yields_dtoh32a h11 (by omega) (by omega)).bind ?_
  refine (yields_dtoh32a h12 (by omega) (by omega)).bind ?_
  refine (yields_dtoh16a h13 (by omega) (by omega)).bind ?_
  refine (yields_dtoh32a h14 (by omega) (by omega)).bind ?_
  refine (yields_dtoh32a h15 (by omega) (by omega)).bind ?_
  exact Yields.pure _

end Reading

/-! ## What is packed -/

/-- Bytes that are written just behind others. -/
theorem blit_next {m : Memory} {as bs : List UInt8} {o : Nat} (h : as.length = o) :
    blit (blit m 0 as) o bs = blit m 0 (as ++ bs) := by
  rw [← h, ← blit_append, Nat.zero_add]

/-- A loop that writes one 16-bit number after the other. -/
theorem foldl_htod16a (byteorder : UInt8) (data : Memory) (o : Nat) (f : Nat → UInt16) (n : Nat) :
    (List.range n).foldl (fun data i => htod16a byteorder data (o + i * 2 + 1) (f i)) data =
      blit data (o + 1) (wide (orderOf byteorder) ((List.range n).map f)) := by
  induction n with
  | zero => exact (blit_nil data _).symm
  | succ n ih =>
    have hlen : (wide (orderOf byteorder) ((List.range n).map f)).length = n * 2 := by
      rw [wide_length, List.length_map, List.length_range, Nat.mul_comm]
    have hplace : o + n * 2 + 1 = o + 1 + n * 2 := by omega
    rw [List.range_succ, List.foldl_append, ih, List.map_append, wide_append, ← blit_append, hlen,
      List.foldl_cons, List.foldl_nil, htod16a, hplace]
    simp [wide]

theorem strlen_eq {name : List UInt8} (h : 0 ∉ name) : strlen (name ++ [0]) = name.length := by
  have hall : ∀ c ∈ name, decide (c ≠ 0) = true := by
    intro c hc
    rw [decide_eq_true_iff]
    rintro rfl
    exact h hc
  rw [strlen, cstring, List.takeWhile_append_of_pos hall]
  simp

/-- `ptp_pack_string` writes the count and as many characters. -/
theorem packString_eq (byteorder : UInt8) {name : List UInt8} (h : 0 ∉ name) (data : Memory)
    (offset : UInt16) :
    ptpPackString byteorder (name ++ [0]) data offset =
      (blit data offset.toNat ((UInt8.ofNat name.length + 1) ::
        wide (orderOf byteorder) ((name.take (name.length % 256)).map wideChar)),
        UInt8.ofNat name.length) := by
  have hcount : (UInt8.ofNat name.length).toNat = name.length % 256 := UInt8.toNat_ofNat'
  have hmost : name.length % 256 ≤ ptpMaxstrlen := by
    change name.length % 256 ≤ 255
    omega
  have hle : name.length % 256 ≤ name.length := Nat.mod_le _ _
  have hchars : (List.range (name.length % 256)).map (fun i => wideChar ((name ++ [0]).getD i 0)) =
      (name.take (name.length % 256)).map wideChar := by
    apply List.ext_getElem
    · simp [Nat.min_eq_left hle]
    · intro i hi hi'
      rw [List.length_map, List.length_range] at hi
      rw [List.getElem_map, List.getElem_range, List.getElem_map, List.getElem_take,
        List.getD_eq_getElem _ _ (by rw [List.length_append]; omega),
        List.getElem_append_left (by omega)]
  have hloop := foldl_htod16a byteorder (htod8a data offset.toNat (UInt8.ofNat name.length + 1))
    offset.toNat (fun i => wideChar ((name ++ [0]).getD i 0)) (name.length % 256)
  rw [ptpPackString, strlen_eq h, hcount, Nat.min_eq_left hmost, hloop, hchars]
  exact congrArg (·, UInt8.ofNat name.length) (blit_append data offset.toNat [_] _)

/-- What `ptp_pack_OI` writes, before what has only been cleared. -/
def written (order : ByteOrder) (oi : PTPObjectInfo) (name : List UInt8) : List UInt8 :=
  numbers order oi ++ (UInt8.ofNat name.length + 1) ::
    wide order ((name.take (name.length % 256)).map wideChar)

theorem packOI_eq (byteorder : UInt8) (heap : Memory) {oi : PTPObjectInfo} {name : List UInt8}
    (hname : 0 ∉ name) (hfile : oi.filename = some (name ++ [0])) :
    ptpPackOI byteorder heap oi = some {
      alloc := 59 + 2 * name.length
      data := blit (blit heap 0 (List.replicate (59 + 2 * name.length) 0)) 0
        (written (orderOf byteorder) oi name)
      size := 59 + 2 * (name.length % 256) } := by
  have hcount : (UInt8.ofNat name.length).toNat = name.length % 256 := UInt8.toNat_ofNat'
  have halloc : 53 + (name.length + 1) * 2 + 4 = 59 + 2 * name.length := by omega
  have hsize : 53 + (name.length % 256 + 1) * 2 + 1 * 4 = 59 + 2 * (name.length % 256) := by omega
  have hplace : (52 : UInt16).toNat = 52 := rfl
  simp only [ptpPackOI, hfile, Option.bind_eq_bind, Option.bind_some, strlen_eq hname, halloc,
    packString_eq byteorder hname, hcount, hsize, hplace, Option.pure_def]
  simp only [htod32a, htod16a, blit_next, List.length_append, toBytes_length, Nat.reduceAdd]
  rfl

theorem written_length (order : ByteOrder) (oi : PTPObjectInfo) (name : List UInt8) :
    (written order oi name).length = 53 + 2 * (name.length % 256) := by
  have hle : name.length % 256 ≤ name.length := Nat.mod_le _ _
  rw [written, List.length_append, numbers_length, List.length_cons, wide_length, List.length_map,
    List.length_take, Nat.min_eq_left hle]
  omega

/-- What is behind the written bytes has been cleared. -/
theorem blit_cleared {m : Memory} {n : Nat} {bs : List UInt8} (h : bs.length ≤ n) :
    blit (blit m 0 (List.replicate n 0)) 0 bs =
      blit m 0 (bs ++ List.replicate (n - bs.length) 0) := by
  funext o
  by_cases hlow : o < bs.length
  · have hin := blit_inside (blit m 0 (List.replicate n 0)) 0 bs o hlow
    have hin' := blit_inside m 0 (bs ++ List.replicate (n - bs.length) 0) o
      (by rw [List.length_append]; omega)
    rw [Nat.zero_add] at hin hin'
    rw [hin, hin', List.getD_append _ _ _ _ hlow]
  · rw [blit_outside _ 0 bs o (by omega)]
    by_cases hhigh : o < n
    · have hin := blit_inside m 0 (List.replicate n (0 : UInt8)) o (by simpa using hhigh)
      have hin' := blit_inside m 0 (bs ++ List.replicate (n - bs.length) 0) o
        (by rw [List.length_append, List.length_replicate]; omega)
      rw [Nat.zero_add] at hin hin'
      rw [hin, hin', List.getD_append_right _ _ _ _ (Nat.not_lt.mp hlow), List.getD_replicate,
        List.getD_replicate]
      · omega
      · exact hhigh
    · rw [blit_outside _ 0 _ o (by rw [List.length_replicate]; omega),
        blit_outside _ 0 _ o (by rw [List.length_append, List.length_replicate]; omega)]

theorem toUInt8_wideChar (c : UInt8) : (wideChar c).toUInt8 = c := by
  have hc : c.toNat < 256 := c.toNat_lt
  apply UInt8.toNat_inj.mp
  rw [wideChar, UInt16.toNat_toUInt8, UInt16.toNat_ofNat']
  split <;> omega

/-! ## There and back -/

section RoundTrip

variable {byteorder : UInt8} (mktime : Mktime)

/-- The file name is the block that was read. -/
theorem unpackOI_filename {mktime : Mktime} {into got : PTPObjectInfo} {m : Bytes} {reads : List Int}
    (h : ptpUnpackOI byteorder mktime into m = (.ok got, reads)) :
    ∃ len reads', ptpUnpackString byteorder 52 m = (.ok (got.filename, len), reads') := by
  rw [ptpUnpackOI] at h
  obtain ⟨oi, _, _, -, h, -⟩ := Traced.of_bind_ok h
  obtain ⟨⟨filename, len⟩, reads', _, hfile, h, -⟩ := Traced.of_bind_ok h
  obtain ⟨first, _, _, -, h, -⟩ := Traced.of_bind_ok h
  obtain ⟨second, _, _, -, h, -⟩ := Traced.of_bind_ok h
  cases h
  exact ⟨len, reads', hfile⟩

/-- A string that is counted. -/
def counted (order : ByteOrder) (units : List UInt16) : List UInt8 :=
  UInt8.ofNat units.length :: wide order units

@[simp] theorem counted_length (order : ByteOrder) (units : List UInt16) :
    (counted order units).length = 1 + 2 * units.length := by
  rw [counted, List.length_cons, wide_length, Nat.add_comm]

/-- What is made of a counted string for a date. -/
def dateBlock (units : List UInt16) : Option (List UInt8) × UInt8 :=
  (blockOf units, UInt8.ofNat units.length)

/-- The numbers, the file name and two dates, wherever the strings come from. -/
theorem yields_unpackOI (into oi : PTPObjectInfo) {name capture modification : List UInt16}
    {m : Bytes} {hi : Nat} (hname : name.length < 256) (hcapture : capture.length < 256)
    (hmodification : modification.length < 256)
    (hdata : Holds m 0 (numbers (orderOf byteorder) oi ++ counted (orderOf byteorder) name ++
      counted (orderOf byteorder) capture ++ counted (orderOf byteorder) modification))
    (hhi : 55 + 2 * name.length + 2 * capture.length + 2 * modification.length ≤ hi) :
    Yields (ptpUnpackOI byteorder mktime into) m 0 hi
      { withNumbers into oi with
        filename := blockOf name
        captureDate := (dateOf mktime {} (dateBlock capture) into.captureDate).1
        modificationDate := (dateOf mktime
          (dateOf mktime {} (dateBlock capture) into.captureDate).2
          (dateBlock modification) into.modificationDate).1 } := by
  simp only [holds_append, List.length_append, numbers_length, counted_length, Nat.zero_add]
    at hdata
  obtain ⟨⟨⟨hnumbers, hfile⟩, hfirst⟩, hsecond⟩ := hdata
  have hcount : ∀ {units : List UInt16}, units.length < 256 →
      (UInt8.ofNat units.length).toNat = units.length := by
    intro units h
    rw [UInt8.toNat_ofNat', Nat.mod_eq_of_lt h]
  have hstring : ∀ {units : List UInt16} (o : Nat), units.length < 256 → o < 2 ^ 16 →
      Holds m o (counted (orderOf byteorder) units) → o + 1 + 2 * units.length ≤ hi →
      Yields (ptpUnpackString byteorder (UInt16.ofNat o)) m 0 hi (dateBlock units) := by
    intro units o hshort hsmall hheld hbound
    have hplace : (UInt16.ofNat o).toNat = o := by
      rw [UInt16.toNat_ofNat', Nat.mod_eq_of_lt hsmall]
    rw [← hplace] at hheld hbound
    exact yields_unpackString hshort hheld (Nat.zero_le _) hbound
  refine (yields_numbers into oi hnumbers (by omega)).bind ?_
  refine (hstring 52 hname (by decide) hfile (by omega)).bind ?_
  dsimp only [dateBlock]
  rw [hcount hname]
  have hplace : 52 + name.length * 2 + 1 = 52 + (1 + 2 * name.length) := by omega
  rw [hplace]
  refine (hstring _ hcapture (by omega) hfirst (by omega)).bind ?_
  dsimp only [dateBlock]
  rw [hcount hcapture]
  have hplace : 52 + name.length * 2 + capture.length * 2 + 2 =
      52 + (1 + 2 * name.length) + (1 + 2 * capture.length) := by omega
  rw [hplace]
  refine (hstring _ hmodification (by omega) hsecond (by omega)).bind ?_
  exact Yields.pure _

/-- The bytes of a string and what is cleared behind them: it is counted with what ends it. -/
theorem packed_string (order : ByteOrder) {name : List UInt8} (hshort : name.length < 255) :
    (UInt8.ofNat name.length + 1) :: wide order ((name.take (name.length % 256)).map wideChar) ++
      [0, 0] = counted order (name.map wideChar ++ [0]) := by
  have hmod : name.length % 256 = name.length := Nat.mod_eq_of_lt (by omega)
  have hcount : UInt8.ofNat name.length + 1 = UInt8.ofNat (name.length + 1) :=
    (UInt8.ofNat_add name.length 1).symm
  have htwo : wide order [0] = [0, 0] := by
    rw [wide, List.flatMap_singleton]
    exact toBytes_zero order 2
  rw [hmod, List.take_length, counted, wide_append, htwo, hcount, List.length_append,
    List.length_map]
  rfl

/-- Such a string is read as the block it was. -/
theorem blockOf_packed (name : List UInt8) :
    blockOf (name.map wideChar ++ [0]) = some (name ++ [0]) := by
  simp [blockOf, Function.comp_def, toUInt8_wideChar]

/-- The written bytes with what is cleared behind them: the name and two empty dates. -/
theorem written_eq (order : ByteOrder) (oi : PTPObjectInfo) {name : List UInt8}
    (hshort : name.length < 255) :
    written order oi name ++ List.replicate 6 0 =
      numbers order oi ++ counted order (name.map wideChar ++ [0]) ++ counted order [] ++
        counted order [] ++ [0, 0] := by
  have hempty : counted order [] = [0] := rfl
  rw [← packed_string order hshort, written, hempty]
  simp [List.replicate]

theorem dateOf_nil (mktime : Mktime) (tm : Tm) (kept : Int) :
    dateOf mktime tm (dateBlock []) kept = (kept, tm) := rfl

/-- What is packed and sent is unpacked as it was, except for the dates, which are kept, exactly
when the name has less than 255 characters; nothing is ever written outside the block. -/
theorem object_info_round_trip_iff (byteorder : UInt8) (mktime : Mktime) (heap : Memory)
    (into oi : PTPObjectInfo) (name : List UInt8) (hname : 0 ∉ name)
    (hfile : oi.filename = some (name ++ [0])) :
    ∃ packed, ptpPackOI byteorder heap oi = some packed ∧ packed.size ≤ packed.alloc ∧
      (∀ o, packed.alloc ≤ o → packed.data o = heap o) ∧
      (Yields (ptpUnpackOI byteorder mktime into) (readable packed.data) 0 packed.size
          { oi with
            captureDate := into.captureDate
            modificationDate := into.modificationDate } ↔ name.length < 255) := by
  have hlen := written_length (orderOf byteorder) oi name
  have hle : name.length % 256 ≤ name.length := Nat.mod_le _ _
  refine ⟨_, packOI_eq byteorder heap hname hfile, ?_, ?_, ?_⟩
  · change 59 + 2 * (name.length % 256) ≤ 59 + 2 * name.length
    omega
  · intro o ho
    change 59 + 2 * name.length ≤ o at ho
    dsimp only
    rw [blit_outside _ 0 _ o (by omega),
      blit_outside _ 0 _ o (by rw [List.length_replicate]; omega)]
  · constructor
    · intro h
      obtain ⟨len, reads, hread⟩ := unpackOI_filename h.apply
      dsimp only at hread
      rw [hfile] at hread
      have hblock := unpackString_length hread
      have hsmall := len.toNat_lt
      rw [List.length_append, List.length_singleton] at hblock
      omega
    · intro hshort
      have hmod : name.length % 256 = name.length := Nat.mod_eq_of_lt (by omega)
      rw [hmod] at hlen ⊢
      dsimp only
      rw [blit_cleared (by omega), hlen]
      have hsix : 59 + 2 * name.length - (53 + 2 * name.length) = 6 := by omega
      rw [hsix]
      have hdata : Holds (readable (blit heap 0
          (written (orderOf byteorder) oi name ++ List.replicate 6 0))) 0
          (written (orderOf byteorder) oi name ++ List.replicate 6 0) :=
        holds_readable (slice_blit_same heap 0 _)
      generalize readable (blit heap 0 (written (orderOf byteorder) oi name ++
        List.replicate 6 0)) = m at hdata ⊢
      rw [written_eq _ _ hshort] at hdata
      have hunits : (name.map wideChar ++ [0]).length = name.length + 1 := by simp
      have hbound : 55 + 2 * (name.map wideChar ++ [0]).length + 2 * ([] : List UInt16).length +
          2 * ([] : List UInt16).length ≤ 59 + 2 * name.length := by
        rw [hunits, List.length_nil]
        omega
      have hread := yields_unpackOI mktime into oi (by omega) (by decide) (by decide)
        (holds_append.mp hdata).1 hbound
      rw [blockOf_packed, ← hfile] at hread
      exact hread

/-- A picture with a short name. -/
def picture : PTPObjectInfo where
  storageID := 65537
  objectFormat := 14337
  protectionStatus := 0
  objectCompressedSize := 4096
  thumbFormat := 0
  thumbCompressedSize := 0
  thumbPixWidth := 0
  thumbPixHeight := 0
  imagePixWidth := 4000
  imagePixHeight := 3000
  imageBitDepth := 24
  parentObject := 0
  associationType := 0
  associationDesc := 0
  sequenceNumber := 1
  filename := some [65, 0]
  captureDate := 5
  modificationDate := 6

theorem picture_round_trip :
    ∃ packed, ptpPackOI PTP_DL_LE (fun _ => 7) picture = some packed ∧
      Yields (ptpUnpackOI PTP_DL_LE (fun tm => (0, tm)) picture) (readable packed.data) 0
        packed.size picture := by
  obtain ⟨packed, hpack, -, -, hread⟩ := object_info_round_trip_iff PTP_DL_LE (fun tm => (0, tm))
    (fun _ => 7) picture picture [65] (by decide) rfl
  exact ⟨packed, hpack, hread.mpr (by decide)⟩

end RoundTrip

/-! ## Dates of a device -/

/-- A decimal digit as a character. -/
def digitByte (d : Nat) : UInt8 := UInt8.ofNat (48 + d)

theorem isDigit_digitByte {d : Nat} (h : d < 10) : isDigit (digitByte d) = true := by
  have hall : ∀ d < 10, isDigit (digitByte d) = true := by decide
  exact hall d h

theorem digitByte_toNat {d : Nat} (h : d < 10) : (digitByte d).toNat = 48 + d := by
  have hall : ∀ d < 10, (digitByte d).toNat = 48 + d := by decide
  exact hall d h

theorem digitByte_first {d : Nat} (h : d < 10) :
    isSpace (digitByte d) = false ∧ digitByte d ≠ 45 ∧ digitByte d ≠ 43 ∧ digitByte d ≠ 0 := by
  have hall : ∀ d < 10, isSpace (digitByte d) = false ∧ digitByte d ≠ 45 ∧ digitByte d ≠ 43 ∧
      digitByte d ≠ 0 := by decide
  exact hall d h

/-- The number that decimal digits stand for. -/
def valueOf (ds : List Nat) : Int := ds.foldl (fun (n : Int) (d : Nat) => n * 10 + d) 0

theorem digitsOf_digits {ds : List Nat} (h : ∀ d ∈ ds, d < 10) :
    digitsOf (ds.map digitByte) = valueOf ds := by
  have htake : (ds.map digitByte).takeWhile isDigit = ds.map digitByte := by
    have hall : ∀ c ∈ ds.map digitByte, isDigit c = true := by
      intro c hc
      obtain ⟨d, hd, rfl⟩ := List.mem_map.mp hc
      exact isDigit_digitByte (h d hd)
    exact List.takeWhile_eq_self_iff.mpr hall
  rw [digitsOf, htake, valueOf, List.foldl_map]
  apply List.foldl_ext
  intro n d hd
  rw [digitByte_toNat (h d hd)]
  push_cast
  omega

/-- Digits at a known place of a text are the number that is read there. -/
theorem atoiAt_digits {before date : List UInt8} {ds : List Nat} {start n : Nat}
    (h : ∀ d ∈ ds, d < 10) (hne : ds ≠ []) (hdate : before ++ ds.map digitByte <+: date)
    (hstart : before.length = start) (hn : ds.length = n) : atoiAt date start n = valueOf ds := by
  obtain ⟨after, rfl⟩ := hdate
  subst hstart hn
  have hpart : ((before ++ ds.map digitByte ++ after).drop before.length).take ds.length =
      ds.map digitByte := by
    rw [List.append_assoc, List.drop_left, ← List.length_map digitByte, List.take_left]
  have hstring : cstring (ds.map digitByte) = ds.map digitByte := by
    have hall : ∀ c ∈ ds.map digitByte, decide (c ≠ 0) = true := by
      intro c hc
      obtain ⟨d, hd, rfl⟩ := List.mem_map.mp hc
      exact decide_eq_true (digitByte_first (h d hd)).2.2.2
    exact List.takeWhile_eq_self_iff.mpr hall
  rw [atoiAt, hpart, hstring, ← digitsOf_digits h]
  cases ds with
  | nil => exact absurd rfl hne
  | cons d ds =>
    obtain ⟨hspace, hminus, hplus, -⟩ := digitByte_first (h d List.mem_cons_self)
    rw [List.map_cons, atoi, List.dropWhile_cons_of_neg (by simp [hspace])]
    split
    · next heq => exact absurd (List.cons.inj heq).1 hminus
    · next heq => exact absurd (List.cons.inj heq).1 hplus
    · rfl

def two (n : Nat) : List Nat := [n / 10, n % 10]

def four (n : Nat) : List Nat := two (n / 100) ++ two (n % 100)

theorem two_lt {n : Nat} (h : n < 100) : ∀ d ∈ two n, d < 10 := by
  intro d hd
  obtain rfl | rfl : d = n / 10 ∨ d = n % 10 := by simpa [two] using hd
  · omega
  · omega

theorem four_lt {n : Nat} (h : n < 10000) : ∀ d ∈ four n, d < 10 := by
  intro d hd
  obtain hd | hd := List.mem_append.mp hd
  · exact two_lt (by omega) d hd
  · exact two_lt (by omega) d hd

theorem valueOf_two (n : Nat) : valueOf (two n) = n := by
  simp only [valueOf, two, List.foldl_cons, List.foldl_nil]
  omega

theorem valueOf_four (n : Nat) : valueOf (four n) = n := by
  simp only [valueOf, four, two, List.cons_append, List.nil_append, List.foldl_cons,
    List.foldl_nil]
  omega

/-- A date and a time as a device writes them, with a fraction or a time zone behind. -/
structure DateTime where
  year : Nat
  month : Nat
  day : Nat
  hour : Nat
  minute : Nat
  second : Nat
  rest : List UInt16
  year_lt : year < 10000
  month_lt : month < 100
  day_lt : day < 100
  hour_lt : hour < 100
  minute_lt : minute < 100
  second_lt : second < 100
  short : rest.length < 240

namespace DateTime

variable (d : DateTime)

/-- The stamp up to the year, the month, and so on. -/
def upToYear : List UInt8 := [] ++ (four d.year).map digitByte

def upToMonth : List UInt8 := d.upToYear ++ (two d.month).map digitByte

def upToDay : List UInt8 := d.upToMonth ++ (two d.day).map digitByte

def upToHour : List UInt8 := d.upToDay ++ [84] ++ (two d.hour).map digitByte

def upToMinute : List UInt8 := d.upToHour ++ (two d.minute).map digitByte

/-- `YYYYMMDDThhmmss` -/
def stamp : List UInt8 := d.upToMinute ++ (two d.second).map digitByte

theorem upToYear_length : d.upToYear.length = 4 := rfl

theorem upToMonth_length : d.upToMonth.length = 6 := rfl

theorem upToHour_length : d.upToHour.length = 11 := rfl

theorem upToMinute_length : d.upToMinute.length = 13 := rfl

theorem stamp_length : d.stamp.length = 15 := rfl

/-- The string for it, whose end is not looked at. -/
def string : PTPString where
  units := d.stamp.map UInt8.toUInt16 ++ d.rest
  short := by
    have hshort := d.short
    rw [List.length_append, List.length_map, stamp_length]
    exact Nat.add_lt_add_left hshort 15

/-- The fields that `mktime` is given. -/
def fields (tm : Tm) : Tm :=
  { tm with
    year := d.year - 1900, mon := d.month - 1, mday := d.day, hour := d.hour, min := d.minute,
    sec := d.second }

theorem host_string :
    d.string.host = some (d.stamp ++ (d.rest.map UInt16.toUInt8 ++ [0])) := by
  have hne : d.string.units ≠ [] := by
    intro hnil
    have hzero := congrArg List.length hnil
    rw [string, List.length_append, List.length_map, stamp_length, List.length_nil] at hzero
    omega
  have hsame : (UInt16.toUInt8 ∘ UInt8.toUInt16) = id := by
    funext c
    exact UInt8.toUInt8_toUInt16 c
  rw [PTPString.host, if_neg hne, string, List.map_append, List.map_map, hsame, List.map_id,
    List.append_assoc]

/-- Each of the fields is taken from its place, whatever follows. -/
theorem setTm_stamp (tm : Tm) (after : List UInt8) : setTm tm (d.stamp ++ after) = d.fields tm := by
  have hstamp : d.stamp <+: d.stamp ++ after := List.prefix_append _ _
  have hminutes : d.upToMinute <+: d.stamp ++ after := (List.prefix_append _ _).trans hstamp
  have hhours : d.upToHour <+: d.stamp ++ after := (List.prefix_append _ _).trans hminutes
  have hdays : d.upToDay <+: d.stamp ++ after :=
    ((List.prefix_append _ _).trans (List.prefix_append _ _)).trans hhours
  have hmonths : d.upToMonth <+: d.stamp ++ after := (List.prefix_append _ _).trans hdays
  have hyears : d.upToYear <+: d.stamp ++ after := (List.prefix_append _ _).trans hmonths
  have hne : ∀ n, two n ≠ [] := fun n => List.cons_ne_nil _ _
  have hsplit : (d.upToDay ++ [84]).length = 9 := rfl
  have hyear : atoiAt (d.stamp ++ after) 0 4 = d.year := by
    rw [← valueOf_four d.year]
    exact atoiAt_digits (four_lt d.year_lt) (List.cons_ne_nil _ _) hyears rfl rfl
  have hmonth : atoiAt (d.stamp ++ after) 4 2 = d.month := by
    rw [← valueOf_two d.month]
    exact atoiAt_digits (two_lt d.month_lt) (hne _) hmonths d.upToYear_length rfl
  have hday : atoiAt (d.stamp ++ after) 6 2 = d.day := by
    rw [← valueOf_two d.day]
    exact atoiAt_digits (two_lt d.day_lt) (hne _) hdays d.upToMonth_length rfl
  have hhour : atoiAt (d.stamp ++ after) 9 2 = d.hour := by
    rw [← valueOf_two d.hour]
    exact atoiAt_digits (two_lt d.hour_lt) (hne _) hhours hsplit rfl
  have hminute : atoiAt (d.stamp ++ after) 11 2 = d.minute := by
    rw [← valueOf_two d.minute]
    exact atoiAt_digits (two_lt d.minute_lt) (hne _) hminutes d.upToHour_length rfl
  have hsecond : atoiAt (d.stamp ++ after) 13 2 = d.second := by
    rw [← valueOf_two d.second]
    exact atoiAt_digits (two_lt d.second_lt) (hne _) hstamp d.upToMinute_length rfl
  rw [setTm, hyear, hmonth, hday, hhour, hminute, hsecond, fields]

end DateTime

/-- A date that may be missing; then an empty string is sent. -/
def dateString : Option DateTime → PTPString
  | none => ⟨[], PTPString.nil_short⟩
  | some d => d.string

/-- A date goes through `mktime`, which also sees what it has left the last time; without one the
field is kept. -/
def hostDate (mktime : Mktime) (tm : Tm) (date : Option DateTime) (kept : Int) : Int × Tm :=
  match date with
  | none => (kept, tm)
  | some d => mktime (d.fields tm)

theorem dateOf_dateString (mktime : Mktime) (tm : Tm) (date : Option DateTime) (kept : Int) :
    dateOf mktime tm (dateBlock (dateString date).sent) kept = hostDate mktime tm date kept := by
  cases date with
  | none => rfl
  | some d =>
    have hsent := d.string.sent_length
    have hblock : dateBlock (dateString (some d)).sent =
        (d.string.host, UInt8.ofNat d.string.sent.length) := by
      rw [dateBlock, PTPString.blockOf_sent]
      rfl
    have hlong : 15 < d.string.sent.length := by
      have hne : d.string.units ≠ [] := by
        intro hnil
        have hhost := d.host_string
        rw [PTPString.host, if_pos hnil] at hhost
        cases hhost
      rw [PTPString.sent, if_neg hne, DateTime.string, List.length_append, List.length_append,
        List.length_map, d.stamp_length, List.length_singleton]
      omega
    have hcount : UInt8.ofNat d.string.sent.length > 15 := by
      change (15 : UInt8) < UInt8.ofNat d.string.sent.length
      rw [UInt8.lt_iff_toNat_lt, UInt8.toNat_ofNat', Nat.mod_eq_of_lt hsent]
      exact hlong
    rw [hblock, dateOf, if_pos hcount, d.host_string, Option.getD_some, d.setTm_stamp]
    rfl

section Device

variable (order : ByteOrder) (oi : PTPObjectInfo) (name : PTPString)
  (capture modification : Option DateTime)

/-- The object information of a device. -/
def encode : List UInt8 :=
  numbers order oi ++ name.encode order ++ (dateString capture).encode order ++
    (dateString modification).encode order

/-- What becomes of it on the host. -/
def host (mktime : Mktime) (into : PTPObjectInfo) : PTPObjectInfo :=
  let first := hostDate mktime {} capture into.captureDate
  let second := hostDate mktime first.2 modification into.modificationDate
  { oi with filename := name.host, captureDate := first.1, modificationDate := second.1 }

end Device

/-- Numbers, name and dates of a device are understood in either byte order, and nothing behind
them is read. -/
theorem object_info_decoded (byteorder : UInt8) (mktime : Mktime) (into oi : PTPObjectInfo)
    (name : PTPString) (capture modification : Option DateTime) (m : Bytes)
    (hdata : Holds m 0 (encode (orderOf byteorder) oi name capture modification)) :
    Yields (ptpUnpackOI byteorder mktime into) m 0
      (encode (orderOf byteorder) oi name capture modification).length
      (host oi name capture modification mktime into) := by
  have hbound : 55 + 2 * name.sent.length + 2 * (dateString capture).sent.length +
      2 * (dateString modification).sent.length ≤
      (encode (orderOf byteorder) oi name capture modification).length := by
    simp only [encode, List.length_append, numbers_length, PTPString.encode_length]
    omega
  have hread := yields_unpackOI mktime into oi name.sent_length (dateString capture).sent_length
    (dateString modification).sent_length hdata hbound
  rw [PTPString.blockOf_sent, dateOf_dateString, dateOf_dateString] at hread
  exact hread

/-- Noon of a day, with a tenth of a second behind. -/
def noon : DateTime where
  year := 2012
  month := 11
  day := 8
  hour := 12
  minute := 0
  second := 0
  rest := [46, 48]
  year_lt := by decide
  month_lt := by decide
  day_lt := by decide
  hour_lt := by decide
  minute_lt := by decide
  second_lt := by decide
  short := by decide

theorem picture_decoded :
    Yields (ptpUnpackOI PTP_DL_BE (fun tm => (tm.year, { tm with isdst := 1 })) picture)
      (ofList (encode (orderOf PTP_DL_BE) picture ⟨[65], by decide⟩ (some noon) none)) 0
      (encode (orderOf PTP_DL_BE) picture ⟨[65], by decide⟩ (some noon) none).length
      (host picture ⟨[65], by decide⟩ (some noon) none
        (fun tm => (tm.year, { tm with isdst := 1 })) picture) :=
  object_info_decoded PTP_DL_BE _ picture picture _ _ _ _ (holds_ofList _)

example : (host picture ⟨[65], by decide⟩ (some noon) none
    (fun tm => (tm.year, { tm with isdst := 1 })) picture).captureDate = 112 := by decide

end PtpObjectInfo
