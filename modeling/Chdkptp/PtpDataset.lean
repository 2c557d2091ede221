import Chdkptp.ByteLayout

/-!
# Datasets

The datasets of PTP as `ptp-pack.c` reads and writes them: numbers in the byte order of the data
layer, strings with a count in front, arrays with a count in front, and the device information.
Nothing that is read says how long the data is.
-/

namespace PtpDataset

open ByteMemory TracedRead ByteLayout

/-- Reads of a dataset; there are no errors. -/
abbrev Read (α : Type) := Traced Empty α

abbrev PTP_DL_BE : UInt8 := 0xF0

abbrev PTP_DL_LE : UInt8 := 0x0F

/-- What is not little endian is taken to be big endian. -/
def orderOf (byteorder : UInt8) : ByteOrder := if byteorder = PTP_DL_LE then .little else .big

section Pack

variable (byteorder : UInt8)

/-! ## Numbers -/

def dtoh8a (a : Nat) : Read UInt8 := Traced.byteAt a

def dtoh16a (a : Nat) : Read UInt16 := do
  let n ← numberAt (orderOf byteorder) 2 a
  return UInt16.ofNat n

def dtoh32a (a : Nat) : Read UInt32 := do
  let n ← numberAt (orderOf byteorder) 4 a
  return UInt32.ofNat n

def htod8a (data : Memory) (a : Nat) (x : UInt8) : Memory := blit data a [x]

def htod16a (data : Memory) (a : Nat) (x : UInt16) : Memory :=
  blit data a (toBytes (orderOf byteorder) 2 x.toNat)

def htod32a (data : Memory) (a : Nat) (x : UInt32) : Memory :=
  blit data a (toBytes (orderOf byteorder) 4 x.toNat)

/-! ## Strings and arrays -/

/-- `PTP_MAXSTRLEN` -/
abbrev ptpMaxstrlen : Nat := 255

/-- The string that a block of memory holds. -/
def cstring (block : List UInt8) : List UInt8 := block.takeWhile fun c => c ≠ 0

def strlen (block : List UInt8) : Nat := (cstring block).length

/-- A `char` as a `uint16_t`; it is signed. -/
def wideChar (c : UInt8) : UInt16 :=
  UInt16.ofNat (if c.toNat < 2 ^ 7 then c.toNat else 2 ^ 16 - 2 ^ 8 + c.toNat)

/-- `ptp_unpack_string`: the block that is allocated, if there is one, and the count. -/
def ptpUnpackString (offset : UInt16) : Read (Option (List UInt8) × UInt8) := do
  let len ← dtoh8a offset.toNat
  if len = 0 then return (none, len)
  else
    let chars ← Traced.each (List.range (min len.toNat ptpMaxstrlen)) fun i => do
      let c ← dtoh16a byteorder (offset.toNat + i * 2 + 1)
      return c.toUInt8
    let string := chars ++ List.replicate (len.toNat - chars.length) 0
    return (some (string.set (len.toNat - 1) 0), len)

/-- `ptp_pack_string`: the memory afterwards, and the count without what ends the string. -/
def ptpPackString (string : List UInt8) (data : Memory) (offset : UInt16) : Memory × UInt8 :=
  let len := UInt8.ofNat (strlen string)
  let data := htod8a data offset.toNat (len + 1)
  let data := (List.range (min len.toNat ptpMaxstrlen)).foldl (fun data i =>
    htod16a byteorder data (offset.toNat + i * 2 + 1) (wideChar (string.getD i 0))) data
  (data, len)

/-- `ptp_unpack_uint32_t_array`; the index is a `uint32_t`. -/
def ptpUnpackUint32Array (offset : UInt16) : Read (List UInt32) := do
  let n ← dtoh32a byteorder offset.toNat
  Traced.each (List.range n.toNat) fun i =>
    dtoh32a byteorder (offset.toNat + 4 * ((i + 1) % 2 ^ 32))

/-- `ptp_unpack_uint16_t_array` -/
def ptpUnpackUint16Array (offset : UInt16) : Read (List UInt16) := do
  let n ← dtoh32a byteorder offset.toNat
  Traced.each (List.range n.toNat) fun i =>
    dtoh16a byteorder (offset.toNat + 2 * ((i + 2) % 2 ^ 32))

/-- `ptp_unpack_OH` and `ptp_unpack_SIDs`, whose arrays are at the start. -/
def ptpUnpackOH : Read (List UInt32) := ptpUnpackUint32Array byteorder 0

/-! ## Storage information -/

/-- Of the capacities only the one in images is read. -/
structure PTPStorageInfo where
  storageType : UInt16
  filesystemType : UInt16
  accessCapability : UInt16
  freeSpaceInImages : UInt32
  storageDescription : Option (List UInt8)
  volumeLabel : Option (List UInt8)
  deriving DecidableEq

/-- `ptp_unpack_SI` -/
def ptpUnpackSI : Read PTPStorageInfo := do
  let storageType ← dtoh16a byteorder 0
  let filesystemType ← dtoh16a byteorder 2
  let accessCapability ← dtoh16a byteorder 4
  let freeSpaceInImages ← dtoh32a byteorder 22
  let (storageDescription, len) ← ptpUnpackString byteorder 26
  let (volumeLabel, _) ← ptpUnpackString byteorder (UInt16.ofNat (26 + len.toNat * 2 + 1))
  return { storageType, filesystemType, accessCapability, freeSpaceInImages,
           storageDescription, volumeLabel }

/-! ## Device information -/

/-- The arrays stand for themselves and their `_len`. -/
structure PTPDeviceInfo where
  standardVersion : UInt16
  vendorExtensionID : UInt32
  vendorExtensionVersion : UInt16
  vendorExtensionDesc : Option (List UInt8)
  functionalMode : UInt16
  operationsSupported : List UInt16
  eventsSupported : List UInt16
  devicePropertiesSupported : List UInt16
  captureFormats : List UInt16
  imageFormats : List UInt16
  manufacturer : Option (List UInt8)
  model : Option (List UInt8)
  deviceVersion : Option (List UInt8)
  serialNumber : Option (List UInt8)
  deriving DecidableEq

/-- What a sum is when it is kept in `totallen`, an `unsigned int`. -/
def unsigned (n : Nat) : Nat := n % 2 ^ 32

/-- `PTP_di_OperationsSupported+totallen` as the `uint16_t` that the functions take. -/
def behind (totallen : Nat) : UInt16 := UInt16.ofNat (10 + totallen)

/-- An array of the device information, and `totallen` behind it. -/
def diArray (totallen : Nat) : Read (List UInt16 × Nat) := do
  let array ← ptpUnpackUint16Array byteorder (behind totallen)
  return (array, unsigned (totallen + array.length * 2 + 4))

/-- A string at its end. -/
def diString (totallen : Nat) : Read (Option (List UInt8) × Nat) := do
  let (string, len) ← ptpUnpackString byteorder (behind totallen)
  return (string, unsigned (totallen + (len.toNat * 2 + 1)))

/-- `ptp_unpack_DI` -/
def ptpUnpackDI : Read PTPDeviceInfo := do
  let standardVersion ← dtoh16a byteorder 0
  let vendorExtensionID ← dtoh32a byteorder 2
  let vendorExtensionVersion ← dtoh16a byteorder 6
  let (vendorExtensionDesc, len) ← ptpUnpackString byteorder 8
  let totallen := len.toNat * 2 + 1
  let functionalMode ← dtoh16a byteorder (8 + totallen)
  let (operationsSupported, totallen) ← diArray byteorder totallen
  let (eventsSupported, totallen) ← diArray byteorder totallen
  let (devicePropertiesSupported, totallen) ← diArray byteorder totallen
  let (captureFormats, totallen) ← diArray byteorder totallen
  let (imageFormats, totallen) ← diArray byteorder totallen
  let (manufacturer, totallen) ← diString byteorder totallen
  let (model, totallen) ← diString byteorder totallen
  let (deviceVersion, totallen) ← diString byteorder totallen
  let (serialNumber, _) ← diString byteorder totallen
  return { standardVersion, vendorExtensionID, vendorExtensionVersion, vendorExtensionDesc,
           functionalMode, operationsSupported, eventsSupported, devicePropertiesSupported,
           captureFormats, imageFormats, manufacturer, model, deviceVersion, serialNumber }

end Pack

/-! ## What a device sends -/

/-- A string of PTP: 16-bit characters, few enough that they can be counted with what ends
them. -/
structure PTPString where
  units : List UInt16
  short : units.length < ptpMaxstrlen

/-- Characters one after the other. -/
def wide (order : ByteOrder) (units : List UInt16) : List UInt8 :=
  units.flatMap fun u => toBytes order 2 u.toNat

namespace PTPString

theorem nil_short : ([] : List UInt16).length < ptpMaxstrlen := by decide

/-- The characters that are sent; an empty string has none, not even what ends it. -/
def sent (s : PTPString) : List UInt16 := if s.units = [] then [] else s.units ++ [0]

def encode (order : ByteOrder) (s : PTPString) : List UInt8 :=
  UInt8.ofNat s.sent.length :: wide order s.sent

/-- The string for the host, whose characters have 8 bits. -/
def host (s : PTPString) : Option (List UInt8) :=
  if s.units = [] then none else some (s.units.map UInt16.toUInt8 ++ [0])

end PTPString

def array16 (order : ByteOrder) (l : List UInt16) : List UInt8 :=
  toBytes order 4 l.length ++ wide order l

/-- The storage information of a device; the capacities are numbers of 64 bits. -/
structure StorageInfo where
  storageType : UInt16
  filesystemType : UInt16
  accessCapability : UInt16
  maxCapability : UInt64
  freeSpaceInBytes : UInt64
  freeSpaceInImages : UInt32
  storageDescription : PTPString
  volumeLabel : PTPString

namespace StorageInfo

def encode (order : ByteOrder) (si : StorageInfo) : List UInt8 :=
  toBytes order 2 si.storageType.toNat ++ toBytes order 2 si.filesystemType.toNat ++
    toBytes order 2 si.accessCapability.toNat ++ toBytes order 8 si.maxCapability.toNat ++
    toBytes order 8 si.freeSpaceInBytes.toNat ++ toBytes order 4 si.freeSpaceInImages.toNat ++
    si.storageDescription.encode order ++ si.volumeLabel.encode order

def host (si : StorageInfo) : PTPStorageInfo where
  storageType := si.storageType
  filesystemType := si.filesystemType
  accessCapability := si.accessCapability
  freeSpaceInImages := si.freeSpaceInImages
  storageDescription := si.storageDescription.host
  volumeLabel := si.volumeLabel.host

end StorageInfo

def array32 (order : ByteOrder) (l : List UInt32) : List UInt8 :=
  toBytes order 4 l.length ++ l.flatMap fun u => toBytes order 4 u.toNat

/-- The device information of a device. -/
structure DeviceInfo where
  standardVersion : UInt16
  vendorExtensionID : UInt32
  vendorExtensionVersion : UInt16
  vendorExtensionDesc : PTPString
  functionalMode : UInt16
  operationsSupported : List UInt16
  eventsSupported : List UInt16
  devicePropertiesSupported : List UInt16
  captureFormats : List UInt16
  imageFormats : List UInt16
  manufacturer : PTPString
  model : PTPString
  deviceVersion : PTPString
  serialNumber : PTPString

namespace DeviceInfo

variable (order : ByteOrder) (d : DeviceInfo)

def encode : List UInt8 :=
  toBytes order 2 d.standardVersion.toNat ++ toBytes order 4 d.vendorExtensionID.toNat ++
    toBytes order 2 d.vendorExtensionVersion.toNat ++ d.vendorExtensionDesc.encode order ++
    toBytes order 2 d.functionalMode.toNat ++ array16 order d.operationsSupported ++
    array16 order d.eventsSupported ++ array16 order d.devicePropertiesSupported ++
    array16 order d.captureFormats ++ array16 order d.imageFormats ++
    d.manufacturer.encode order ++ d.model.encode order ++ d.deviceVersion.encode order ++
    d.serialNumber.encode order

/-- What the host makes of it. -/
def host : PTPDeviceInfo where
  standardVersion := d.standardVersion
  vendorExtensionID := d.vendorExtensionID
  vendorExtensionVersion := d.vendorExtensionVersion
  vendorExtensionDesc := d.vendorExtensionDesc.host
  functionalMode := d.functionalMode
  operationsSupported := d.operationsSupported
  eventsSupported := d.eventsSupported
  devicePropertiesSupported := d.devicePropertiesSupported
  captureFormats := d.captureFormats
  imageFormats := d.imageFormats
  manufacturer := d.manufacturer.host
  model := d.model.host
  deviceVersion := d.deviceVersion.host
  serialNumber := d.serialNumber.host

end DeviceInfo

/-! ## Reading what is there -/

section Reading

variable {byteorder : UInt8} {m : Bytes} {lo hi o : Nat}

theorem yields_dtoh8a {x : UInt8} (h : m o = x) (hlo : lo ≤ o) (hhi : o < hi) :
    Yields (dtoh8a o) m lo hi x := by
  rw [← h]
  exact Yields.byteAt hlo hhi

theorem yields_dtoh16a {x : UInt16} (h : Holds m o (toBytes (orderOf byteorder) 2 x.toNat))
    (hlo : lo ≤ o) (hhi : o + 2 ≤ hi) : Yields (dtoh16a byteorder o) m lo hi x := by
  refine (yields_numberAt h x.toNat_lt hlo hhi).bind ?_
  rw [UInt16.ofNat_toNat]
  exact Yields.pure x

theorem yields_dtoh32a {x : UInt32} (h : Holds m o (toBytes (orderOf byteorder) 4 x.toNat))
    (hlo : lo ≤ o) (hhi : o + 4 ≤ hi) : Yields (dtoh32a byteorder o) m lo hi x := by
  refine (yields_numberAt h x.toNat_lt hlo hhi).bind ?_
  rw [UInt32.ofNat_toNat]
  exact Yields.pure x

@[simp] theorem wide_length (order : ByteOrder) (units : List UInt16) :
    (wide order units).length = 2 * units.length := by
  induction units with
  | nil => rfl
  | cons u units ih =>
    rw [wide, List.flatMap_cons, List.length_append, toBytes_length, ← wide, ih,
      List.length_cons]
    omega

theorem wide_append (order : ByteOrder) (a b : List UInt16) :
    wide order (a ++ b) = wide order a ++ wide order b := by
  rw [wide, List.flatMap_append]
  rfl

/-- Each of the characters is where it belongs. -/
theorem holds_wide {order : ByteOrder} {units : List UInt16} (h : Holds m o (wide order units))
    (i : Nat) (hi : i < units.length) :
    Holds m (o + 2 * i) (toBytes order 2 (units[i]).toNat) := by
  induction units generalizing o i with
  | nil => cases hi
  | cons u units ih =>
    rw [wide, List.flatMap_cons, holds_append, toBytes_length] at h
    cases i with
    | zero => exact h.1
    | succ i =>
      have hrest := ih h.2 i (by simpa using hi)
      rw [Nat.mul_succ, Nat.add_comm (2 * i), ← Nat.add_assoc]
      exact hrest

/-- Reading item after item gives the list. -/
theorem yields_items {α : Type} {read : Nat → Read α} (l : List α)
    (h : ∀ i, (hi' : i < l.length) → Yields (read i) m lo hi l[i]) :
    Yields (Traced.each (List.range l.length) read) m lo hi l := by
  cases l with
  | nil => exact Yields.pure _
  | cons a l =>
    have heach := Yields.each (fun i => (a :: l).getD i a) (List.range (a :: l).length)
      fun i hi' => by
        have hlt := List.mem_range.mp hi'
        have hread := h i hlt
        rw [← List.getD_eq_getElem _ a hlt] at hread
        exact hread
    have hmap : (List.range (a :: l).length).map (fun i => (a :: l).getD i a) = a :: l := by
      apply List.ext_getElem
      · simp
      · intro i hi hi'
        rw [List.getElem_map, List.getElem_range, List.getD_eq_getElem _ a hi']
    rw [hmap] at heach
    exact heach

/-- What becomes of characters that have been counted. -/
def blockOf (units : List UInt16) : Option (List UInt8) :=
  if units = [] then none else some ((units.map UInt16.toUInt8).set (units.length - 1) 0)

theorem yields_unpackString {offset : UInt16} {units : List UInt16} (hshort : units.length < 256)
    (h : Holds m offset.toNat (UInt8.ofNat units.length :: wide (orderOf byteorder) units))
    (hlo : lo ≤ offset.toNat) (hhi : offset.toNat + 1 + 2 * units.length ≤ hi) :
    Yields (ptpUnpackString byteorder offset) m lo hi
      (blockOf units, UInt8.ofNat units.length) := by
  obtain ⟨hlen, hunits⟩ := holds_cons.mp h
  have hcount : (UInt8.ofNat units.length).toNat = units.length := by
    rw [UInt8.toNat_ofNat', Nat.mod_eq_of_lt hshort]
  refine (yields_dtoh8a hlen hlo (by omega)).bind ?_
  by_cases hnil : units = []
  · subst hnil
    exact Yields.pure _
  · have hpos : 0 < units.length := List.length_pos_iff.mpr hnil
    have hne : UInt8.ofNat units.length ≠ 0 := by
      intro hzero
      rw [← UInt8.toNat_inj, hcount] at hzero
      exact absurd hzero (Nat.ne_of_gt hpos)
    have hmost : units.length ≤ ptpMaxstrlen := Nat.le_of_lt_succ hshort
    rw [if_neg hne, hcount, Nat.min_eq_left hmost]
    have hchars : Yields (Traced.each (List.range units.length) fun i => do
        let c ← dtoh16a byteorder (offset.toNat + i * 2 + 1)
        return c.toUInt8) m lo hi (units.map UInt16.toUInt8) := by
      rw [← List.length_map UInt16.toUInt8]
      refine yields_items _ fun i hi' => ?_
      rw [List.length_map] at hi'
      have hchar := holds_wide hunits i hi'
      have hplace : offset.toNat + 1 + 2 * i = offset.toNat + i * 2 + 1 := by omega
      rw [hplace] at hchar
      refine (yields_dtoh16a hchar (by omega) (by omega)).bind ?_
      rw [List.getElem_map]
      exact Yields.pure _
    refine hchars.bind ?_
    rw [List.length_map, Nat.sub_self, List.replicate_zero, List.append_nil, blockOf, if_neg hnil]
    exact Yields.pure _

/-- A block has as many bytes as the count says. -/
theorem unpackString_length {offset : UInt16} {block : List UInt8} {len : UInt8}
    {reads : List Int}
    (h : ptpUnpackString byteorder offset m = (.ok (some block, len), reads)) :
    block.length = len.toNat := by
  rw [ptpUnpackString] at h
  obtain ⟨len', _, _, _, h, _⟩ := Traced.of_bind_ok h
  split at h
  · cases h
  · obtain ⟨chars, _, _, hchars, h, _⟩ := Traced.of_bind_ok h
    cases h
    have hmost : chars.length ≤ len.toNat := by
      have hlength : ∀ (l : List Nat) (reads : List Int) (chars : List UInt8),
          Traced.each l (fun i => do
            let c ← dtoh16a byteorder (offset.toNat + i * 2 + 1)
            return c.toUInt8) m = (.ok chars, reads) → chars.length = l.length := by
        intro l
        induction l with
        | nil =>
          intro reads chars h
          cases h
          rfl
        | cons i l ih =>
          intro reads chars h
          rw [Traced.each] at h
          obtain ⟨c, _, _, _, h, _⟩ := Traced.of_bind_ok h
          obtain ⟨cs, _, _, hcs, h, _⟩ := Traced.of_bind_ok h
          cases h
          rw [List.length_cons, List.length_cons, ih _ _ hcs]
      rw [hlength _ _ _ hchars, List.length_range]
      exact Nat.min_le_left _ _
    rw [List.length_set, List.length_append, List.length_replicate]
    omega

theorem PTPString.sent_length (s : PTPString) : s.sent.length < 256 := by
  have hshort := s.short
  rw [PTPString.sent]
  split
  · exact Nat.zero_lt_succ _
  · rw [List.length_append]
    exact Nat.succ_lt_succ hshort

@[simp] theorem PTPString.encode_length (order : ByteOrder) (s : PTPString) :
    (s.encode order).length = 1 + 2 * s.sent.length := by
  rw [PTPString.encode, List.length_cons, wide_length, Nat.add_comm]

theorem PTPString.blockOf_sent (s : PTPString) : blockOf s.sent = s.host := by
  rw [blockOf, PTPString.sent, PTPString.host]
  by_cases hnil : s.units = []
  · simp [hnil]
  · simp [hnil]

/-- A string of a device. -/
theorem yields_string {offset : UInt16} {s : PTPString}
    (h : Holds m offset.toNat (s.encode (orderOf byteorder))) (hlo : lo ≤ offset.toNat)
    (hhi : offset.toNat + (s.encode (orderOf byteorder)).length ≤ hi) :
    Yields (ptpUnpackString byteorder offset) m lo hi (s.host, UInt8.ofNat s.sent.length) := by
  rw [PTPString.encode_length] at hhi
  rw [← s.blockOf_sent]
  exact yields_unpackString s.sent_length h hlo (by omega)

@[simp] theorem array16_length (order : ByteOrder) (l : List UInt16) :
    (array16 order l).length = 4 + 2 * l.length := by
  simp [array16]

/-- An array whose count is a `uint32_t`. -/
theorem yields_array16 {offset : UInt16} {l : List UInt16} (hsize : l.length < 2 ^ 31)
    (h : Holds m offset.toNat (array16 (orderOf byteorder) l)) (hlo : lo ≤ offset.toNat)
    (hhi : offset.toNat + (array16 (orderOf byteorder) l).length ≤ hi) :
    Yields (ptpUnpackUint16Array byteorder offset) m lo hi l := by
  rw [array16_length] at hhi
  obtain ⟨hcount, hitems⟩ := holds_append.mp h
  rw [toBytes_length] at hitems
  have hnat : (UInt32.ofNat l.length).toNat = l.length := by
    rw [UInt32.toNat_ofNat', Nat.mod_eq_of_lt (by omega)]
  rw [← hnat] at hcount
  refine (yields_dtoh32a hcount hlo (by omega)).bind ?_
  rw [hnat]
  refine yields_items l fun i hi' => ?_
  have hitem := holds_wide hitems i hi'
  have hplace : offset.toNat + 4 + 2 * i = offset.toNat + 2 * ((i + 2) % 2 ^ 32) := by
    rw [Nat.mod_eq_of_lt (by omega)]
    omega
  rw [hplace] at hitem
  exact yields_dtoh16a hitem (by omega) (by omega)

@[simp] theorem array32_length (order : ByteOrder) (l : List UInt32) :
    (array32 order l).length = 4 + 4 * l.length := by
  have hitems : (l.flatMap fun u => toBytes order 4 u.toNat).length = 4 * l.length := by
    induction l with
    | nil => rfl
    | cons u l ih =>
      rw [List.flatMap_cons, List.length_append, toBytes_length, ih, List.length_cons]
      omega
  rw [array32, List.length_append, toBytes_length, hitems]

theorem holds_words {order : ByteOrder} {l : List UInt32}
    (h : Holds m o (l.flatMap fun u => toBytes order 4 u.toNat)) (i : Nat) (hi : i < l.length) :
    Holds m (o + 4 * i) (toBytes order 4 (l[i]).toNat) := by
  induction l generalizing o i with
  | nil => cases hi
  | cons u l ih =>
    rw [List.flatMap_cons, holds_append, toBytes_length] at h
    cases i with
    | zero => exact h.1
    | succ i =>
      have hrest := ih h.2 i (by simpa using hi)
      rw [Nat.mul_succ, Nat.add_comm (4 * i), ← Nat.add_assoc]
      exact hrest

/-- Handles of objects or storages, as many as can be counted. -/
theorem handles_decoded (byteorder : UInt8) (m : Bytes) (l : List UInt32)
    (hsize : l.length < 2 ^ 32) (hdata : Holds m 0 (array32 (orderOf byteorder) l)) :
    Yields (ptpUnpackOH byteorder) m 0 (array32 (orderOf byteorder) l).length l := by
  obtain ⟨hcount, hitems⟩ := holds_append.mp hdata
  rw [toBytes_length] at hitems
  rw [array32_length]
  rw [← UInt32.toNat_ofNat_of_lt' hsize] at hcount
  refine (yields_dtoh32a hcount (Nat.zero_le _) ?_).bind ?_
  · omega
  rw [UInt32.toNat_ofNat_of_lt' hsize]
  refine yields_items l fun i hi' => ?_
  have hitem := holds_words hitems i hi'
  have hplace : 0 + 4 + 4 * i = (0 : UInt16).toNat + 4 * ((i + 1) % 2 ^ 32) := by
    rw [Nat.mod_eq_of_lt (by omega)]
    change 0 + 4 + 4 * i = 0 + 4 * (i + 1)
    omega
  rw [hplace] at hitem
  refine yields_dtoh32a hitem (Nat.zero_le _) ?_
  rw [← hplace]
  omega

end Reading

/-- Storage information, of which the capacities are passed over. -/
theorem storage_info_decoded (byteorder : UInt8) (m : Bytes) (si : StorageInfo)
    (hdata : Holds m 0 (si.encode (orderOf byteorder))) :
    Yields (ptpUnpackSI byteorder) m 0 (si.encode (orderOf byteorder)).length si.host := by
  simp only [StorageInfo.encode, holds_append, List.length_append, toBytes_length,
    PTPString.encode_length, Nat.zero_add, Nat.reduceAdd] at hdata ⊢
  obtain ⟨⟨⟨⟨⟨⟨⟨h1, h2⟩, h3⟩, -⟩, -⟩, h6⟩, h7⟩, h8⟩ := hdata
  have hcount : (UInt8.ofNat si.storageDescription.sent.length).toNat =
      si.storageDescription.sent.length := by
    rw [UInt8.toNat_ofNat', Nat.mod_eq_of_lt si.storageDescription.sent_length]
  have hsent := si.storageDescription.sent_length
  have hplace : (UInt16.ofNat (26 + si.storageDescription.sent.length * 2 + 1)).toNat =
      26 + (1 + 2 * si.storageDescription.sent.length) := by
    rw [UInt16.toNat_ofNat', Nat.mod_eq_of_lt (by omega)]
    omega
  have hdesc : Yields (ptpUnpackString byteorder 26) m 0
      (26 + (1 + 2 * si.storageDescription.sent.length) + (1 + 2 * si.volumeLabel.sent.length))
      (si.storageDescription.host, UInt8.ofNat si.storageDescription.sent.length) := by
    apply yields_string h7 (Nat.zero_le _)
    rw [PTPString.encode_length]
    change 26 + _ ≤ _
    omega
  refine (yields_dtoh16a h1 (by omega) (by omega)).bind ?_
  refine (yields_dtoh16a h2 (by omega) (by omega)).bind ?_
  refine (yields_dtoh16a h3 (by omega) (by omega)).bind ?_
  refine (yields_dtoh32a h6 (by omega) (by omega)).bind ?_
  refine hdesc.bind ?_
  dsimp only
  rw [hcount]
  rw [← hplace] at h8
  refine (yields_string h8 (Nat.zero_le _) ?_).bind (Yields.pure _)
  rw [PTPString.encode_length, hplace]

/-! ## The device information -/

section DeviceInfo

variable {byteorder : UInt8} {m : Bytes} {hi totallen : Nat}

theorem behind_toNat (h : 10 + totallen < 2 ^ 16) : (behind totallen).toNat = 10 + totallen := by
  rw [behind, UInt16.toNat_ofNat', Nat.mod_eq_of_lt h]

theorem yields_diArray {l : List UInt16} {o : Nat} (ho : 10 + totallen = o)
    (h : Holds m o (array16 (orderOf byteorder) l)) (hhi : o + (4 + 2 * l.length) ≤ hi)
    (hsmall : hi ≤ 2 ^ 16) :
    Yields (diArray byteorder totallen) m 0 hi (l, totallen + (4 + 2 * l.length)) := by
  subst ho
  have hplace : (behind totallen).toNat = 10 + totallen := behind_toNat (by omega)
  rw [← hplace] at h
  have hread : Yields (ptpUnpackUint16Array byteorder (behind totallen)) m 0 hi l :=
    yields_array16 (by omega) h (Nat.zero_le _) (by rw [array16_length, hplace]; exact hhi)
  refine hread.bind ?_
  have hsum : unsigned (totallen + l.length * 2 + 4) = totallen + (4 + 2 * l.length) := by
    rw [unsigned, Nat.mod_eq_of_lt (by omega)]
    omega
  rw [hsum]
  exact Yields.pure _

theorem yields_diString {s : PTPString} {o : Nat} (ho : 10 + totallen = o)
    (h : Holds m o (s.encode (orderOf byteorder))) (hhi : o + (1 + 2 * s.sent.length) ≤ hi)
    (hsmall : hi ≤ 2 ^ 16) :
    Yields (diString byteorder totallen) m 0 hi (s.host, totallen + (1 + 2 * s.sent.length)) := by
  subst ho
  have hplace : (behind totallen).toNat = 10 + totallen := behind_toNat (by omega)
  rw [← hplace] at h
  have hread : Yields (ptpUnpackString byteorder (behind totallen)) m 0 hi
      (s.host, UInt8.ofNat s.sent.length) :=
    yields_string h (Nat.zero_le _) (by rw [PTPString.encode_length, hplace]; exact hhi)
  have hcount : (UInt8.ofNat s.sent.length).toNat = s.sent.length := by
    rw [UInt8.toNat_ofNat', Nat.mod_eq_of_lt s.sent_length]
  refine hread.bind ?_
  have hsum : unsigned (totallen + ((UInt8.ofNat s.sent.length).toNat * 2 + 1)) =
      totallen + (1 + 2 * s.sent.length) := by
    rw [hcount, unsigned, Nat.mod_eq_of_lt (by omega)]
    omega
  dsimp only
  rw [hsum]
  exact Yields.pure _

/-- The device information that a device sends is what the host gets, in either byte order, and
nothing behind it is read, as long as it fits the offsets. -/
theorem device_info_decoded (byteorder : UInt8) (m : Bytes) (d : DeviceInfo)
    (hsize : (d.encode (orderOf byteorder)).length ≤ 2 ^ 16)
    (hdata : Holds m 0 (d.encode (orderOf byteorder))) :
    Yields (ptpUnpackDI byteorder) m 0 (d.encode (orderOf byteorder)).length d.host := by
  obtain ⟨hi, hhi⟩ : ∃ hi, hi = (d.encode (orderOf byteorder)).length := ⟨_, rfl⟩
  rw [← hhi] at hsize ⊢
  simp only [DeviceInfo.encode, holds_append, List.length_append, toBytes_length,
    PTPString.encode_length, array16_length, Nat.zero_add, Nat.reduceAdd] at hdata hhi
  obtain ⟨⟨⟨⟨⟨⟨⟨⟨⟨⟨⟨⟨⟨h1, h2⟩, h3⟩, h4⟩, h5⟩, h6⟩, h7⟩, h8⟩, h9⟩, h10⟩, h11⟩, h12⟩, h13⟩, h14⟩ :=
    hdata
  have hcount : (UInt8.ofNat d.vendorExtensionDesc.sent.length).toNat =
      d.vendorExtensionDesc.sent.length := by
    rw [UInt8.toNat_ofNat', Nat.mod_eq_of_lt d.vendorExtensionDesc.sent_length]
  have hdesc : Yields (ptpUnpackString byteorder 8) m 0 hi
      (d.vendorExtensionDesc.host, UInt8.ofNat d.vendorExtensionDesc.sent.length) := by
    apply yields_string h4 (Nat.zero_le _)
    rw [PTPString.encode_length]
    change 8 + _ ≤ hi
    omega
  refine (yields_dtoh16a h1 (by omega) (by omega)).bind ?_
  refine (yields_dtoh32a h2 (by omega) (by omega)).bind ?_
  refine (yields_dtoh16a h3 (by omega) (by omega)).bind ?_
  refine hdesc.bind ?_
  dsimp only
  -- what `totallen` is on the way
  rw [hcount, Nat.add_comm (d.vendorExtensionDesc.sent.length * 2), Nat.mul_comm _ 2]
  refine (yields_dtoh16a h5 (by omega) (by omega)).bind ?_
  refine (yields_diArray (by omega) h6 (by omega) hsize).bind ?_
  refine (yields_diArray (by omega) h7 (by omega) hsize).bind ?_
  refine (yields_diArray (by omega) h8 (by omega) hsize).bind ?_
  refine (yields_diArray (by omega) h9 (by omega) hsize).bind ?_
  refine (yields_diArray (by omega) h10 (by omega) hsize).bind ?_
  refine (yields_diString (by omega) h11 (by omega) hsize).bind ?_
  refine (yields_diString (by omega) h12 (by omega) hsize).bind ?_
  refine (yields_diString (by omega) h13 (by omega) hsize).bind ?_
  refine (yields_diString (by omega) h14 (by omega) hsize).bind ?_
  exact Yields.pure _

/-- A device that says little. -/
def quiet : DeviceInfo where
  standardVersion := 100
  vendorExtensionID := 11
  vendorExtensionVersion := 100
  vendorExtensionDesc := ⟨[], by decide⟩
  functionalMode := 0
  operationsSupported := [4097, 39321]
  eventsSupported := []
  devicePropertiesSupported := []
  captureFormats := []
  imageFormats := [14337]
  manufacturer := ⟨[67], by decide⟩
  model := ⟨[65, 49], by decide⟩
  deviceVersion := ⟨[], by decide⟩
  serialNumber := ⟨[], by decide⟩

theorem quiet_decoded :
    Yields (ptpUnpackDI PTP_DL_LE) (ofList (quiet.encode (orderOf PTP_DL_LE))) 0
      (quiet.encode (orderOf PTP_DL_LE)).length quiet.host :=
  device_info_decoded PTP_DL_LE _ quiet (by decide) (holds_ofList _)

end DeviceInfo

end PtpDataset
