import Chdkptp.PtpObjectInfo

/-!
# Device properties

`ptp_unpack_DPV`, `ptp_pack_DPV` and `ptp_unpack_DPD`: values of a property, whose type has to be
known, and the description of a property with what its values may be.
-/

namespace PtpPropDesc

open ByteMemory TracedRead ByteLayout PtpDataset PtpObjectInfo

/-! ## Types -/

inductive IntType where
  | int8
  | uint8
  | int16
  | uint16
  | int32
  | uint32
  deriving DecidableEq, Repr

/-- The types that are implemented. -/
inductive DataType where
  | int (t : IntType)
  | str
  deriving DecidableEq, Repr

namespace IntType

def size : IntType → Nat
  | int8 | uint8 => 1
  | int16 | uint16 => 2
  | int32 | uint32 => 4

def signed : IntType → Bool
  | int8 | int16 | int32 => true
  | uint8 | uint16 | uint32 => false

/-- The number that is in a variable of the type when these bits are assigned to it. -/
def value (t : IntType) (n : Nat) : Int :=
  if t.signed ∧ 2 ^ (8 * t.size - 1) ≤ n then (n : Int) - 2 ^ (8 * t.size) else n

/-- The numbers that such a variable may hold. -/
def InRange (t : IntType) (n : Int) : Prop :=
  if t.signed then -2 ^ (8 * t.size - 1) ≤ n ∧ n < 2 ^ (8 * t.size - 1)
  else 0 ≤ n ∧ n < 2 ^ (8 * t.size)

end IntType

/-- The `PTP_DTC_` codes. -/
def DataType.ofCode : UInt16 → Option DataType
  | 0x0001 => some (.int .int8)
  | 0x0002 => some (.int .uint8)
  | 0x0003 => some (.int .int16)
  | 0x0004 => some (.int .uint16)
  | 0x0005 => some (.int .int32)
  | 0x0006 => some (.int .uint32)
  | 0xFFFF => some .str
  | _ => none

/-- What a `void *` of a property leads to. -/
inductive Value where
  | int (n : Int)
  | str (s : Option (List UInt8))
  deriving DecidableEq

/-! ## Values -/

section Values

variable (byteorder : UInt8)

/-- `dtoh8a`, `dtoh16a` or `dtoh32a`, into a variable of the type. -/
def readInt (t : IntType) (a : Nat) : Read Int :=
  match t with
  | .int8 | .uint8 => do
    let x ← dtoh8a a
    return t.value x.toNat
  | .int16 | .uint16 => do
    let x ← dtoh16a byteorder a
    return t.value x.toNat
  | .int32 | .uint32 => do
    let x ← dtoh32a byteorder a
    return t.value x.toNat

/-- `ptp_unpack_DPV`; the pointer may be left as it is. -/
def ptpUnpackDPV (datatype : UInt16) : Read (Option Value) :=
  match DataType.ofCode datatype with
  | none => return none
  | some (.int t) => do
    let n ← readInt byteorder t 0
    return some (.int n)
  | some .str => do
    let (s, _) ← ptpUnpackString byteorder 0
    return some (.str s)

/-- `htod8a`, `htod16a` or `htod32a` of what is in a variable of the type. -/
def writeInt (t : IntType) (data : Memory) (n : Int) : Memory :=
  match t with
  | .int8 | .uint8 => htod8a data 0 (UInt8.ofNat (n % 2 ^ 8).toNat)
  | .int16 | .uint16 => htod16a byteorder data 0 (UInt16.ofNat (n % 2 ^ 16).toNat)
  | .int32 | .uint32 => htod32a byteorder data 0 (UInt32.ofNat (n % 2 ^ 32).toNat)

/-- `ptp_pack_DPV` with a value that the type has; nothing is allocated for another type. The size
is a `uint32_t`. -/
def ptpPackDPV (heap : Memory) (value : Value) (datatype : UInt16) : Option Packed :=
  match DataType.ofCode datatype, value with
  | some (.int t), .int n =>
    some { alloc := t.size, data := writeInt byteorder t heap n, size := t.size }
  | some .str, .str (some s) =>
    let size := (strlen s * 2 + 3) % 2 ^ 32
    let (dpv, _) := ptpPackString byteorder s (blit heap 0 (List.replicate size 0)) 0
    some { alloc := size, data := dpv, size := size }
  | _, _ => none

end Values

/-! ## Descriptions -/

/-- The range of strings is left as it is. -/
inductive Form where
  | untouched
  | range (minimum maximum step : Value)
  | enumeration (supported : List Value)
  deriving DecidableEq

/-- Pointers are set to `NULL` or to a value. -/
structure PTPDevicePropDesc where
  devicePropertyCode : UInt16
  dataType : UInt16
  getSet : UInt8
  factoryDefaultValue : Option Value
  currentValue : Option Value
  formFlag : UInt8
  form : Form
  deriving DecidableEq

section Descriptions

variable (byteorder : UInt8)

/-- `CTVA`, or a string: the value at `PTP_dpd_FactoryDefaultValue+totallen`, and `totallen` behind
it. -/
def item (t : DataType) (totallen : Nat) : Read (Value × Nat) :=
  match t with
  | .int t => do
    let n ← readInt byteorder t (5 + totallen)
    return (.int n, totallen + t.size)
  | .str => do
    let (s, len) ← ptpUnpackString byteorder (UInt16.ofNat (5 + totallen))
    return (.str s, totallen + (len.toNat * 2 + 1))

/-- `MCTVA`, or the loop over strings. -/
def items (t : DataType) : Nat → Nat → Read (List Value)
  | 0, _ => return []
  | n + 1, totallen => do
    let (value, totallen) ← item byteorder t totallen
    let rest ← items t n totallen
    return value :: rest

/-- `PTP_DPFF_Range`; there is no case for strings. -/
def rangeForm (t : DataType) (totallen : Nat) : Read Form :=
  match t with
  | .int _ => do
    let (minimum, totallen) ← item byteorder t totallen
    let (maximum, totallen) ← item byteorder t totallen
    let (step, _) ← item byteorder t totallen
    return .range minimum maximum step
  | .str => return .untouched

/-- `PTP_DPFF_Enumeration` -/
def enumerationForm (t : DataType) (totallen : Nat) : Read Form := do
  let n ← dtoh16a byteorder (5 + totallen)
  let supported ← items byteorder t n.toNat (totallen + 2)
  return .enumeration supported

/-- The form, if `FormFlag` is known. -/
def formOf (t : DataType) (formFlag : UInt8) (totallen : Nat) : Read Form :=
  match formFlag with
  | 0x01 => rangeForm byteorder t totallen
  | 0x02 => enumerationForm byteorder t totallen
  | _ => return .untouched

/-- `ptp_unpack_DPD` -/
def ptpUnpackDPD : Read PTPDevicePropDesc := do
  let devicePropertyCode ← dtoh16a byteorder 0
  let dataType ← dtoh16a byteorder 2
  let getSet ← dtoh8a 4
  match DataType.ofCode dataType with
  | none =>
    return { devicePropertyCode, dataType, getSet, factoryDefaultValue := none
             currentValue := none, formFlag := 0, form := .untouched }
  | some t =>
    -- both values take some room, so that `totallen` is not 0 behind them
    let (factoryDefaultValue, totallen) ← item byteorder t 0
    let (currentValue, totallen) ← item byteorder t totallen
    let formFlag ← dtoh8a (5 + totallen)
    let form ← formOf byteorder t formFlag (totallen + 1)
    return { devicePropertyCode, dataType, getSet
             factoryDefaultValue := some factoryDefaultValue, currentValue := some currentValue
             formFlag, form }

end Descriptions

/-! ## What a device sends -/

/-- A value of a type, as its bits or as a string. -/
inductive Sent : DataType → Type where
  | int (t : IntType) (n : Fin (256 ^ t.size)) : Sent (.int t)
  | str (s : PTPString) : Sent .str

namespace Sent

variable {t : DataType}

def encode (order : ByteOrder) : {t : DataType} → Sent t → List UInt8
  | _, .int t n => toBytes order t.size n
  | _, .str s => s.encode order

def host : {t : DataType} → Sent t → Value
  | _, .int t n => .int (t.value n)
  | _, .str s => .str s.host

end Sent

/-- Which values a property may have. -/
inductive SentForm (t : DataType) where
  | none
  | range (minimum maximum step : Sent t)
  | enumeration (supported : List (Sent t)) (short : supported.length < 2 ^ 16)

namespace SentForm

variable {t : DataType}

def flag : SentForm t → UInt8
  | none => 0
  | range .. => 1
  | enumeration .. => 2

def encode (order : ByteOrder) : SentForm t → List UInt8
  | none => []
  | range minimum maximum step => minimum.encode order ++ maximum.encode order ++ step.encode order
  | enumeration supported _ =>
    toBytes order 2 supported.length ++ supported.flatMap fun v => v.encode order

/-- A range of strings is lost. -/
def host : SentForm t → Form
  | none => .untouched
  | range minimum maximum step =>
    match t with
    | .int _ => .range minimum.host maximum.host step.host
    | .str => .untouched
  | enumeration supported _ => .enumeration (supported.map Sent.host)

end SentForm

/-- The description of a property by a device, in a type that is implemented. -/
structure PropDesc where
  devicePropertyCode : UInt16
  dataType : UInt16
  type : DataType
  known : DataType.ofCode dataType = some type
  getSet : UInt8
  factoryDefaultValue : Sent type
  currentValue : Sent type
  form : SentForm type

namespace PropDesc

def encode (order : ByteOrder) (d : PropDesc) : List UInt8 :=
  toBytes order 2 d.devicePropertyCode.toNat ++ toBytes order 2 d.dataType.toNat ++ [d.getSet] ++
    d.factoryDefaultValue.encode order ++ d.currentValue.encode order ++ [d.form.flag] ++
    d.form.encode order

def host (d : PropDesc) : PTPDevicePropDesc where
  devicePropertyCode := d.devicePropertyCode
  dataType := d.dataType
  getSet := d.getSet
  factoryDefaultValue := some d.factoryDefaultValue.host
  currentValue := some d.currentValue.host
  formFlag := d.form.flag
  form := d.form.host

end PropDesc

/-! ## Reading values -/

section Reading

variable {byteorder : UInt8} {m : Bytes} {hi totallen : Nat} {t : DataType}

theorem IntType.size_pos (t : IntType) : 0 < t.size := by
  cases t <;> decide

theorem yields_readInt {t : IntType} {n o : Nat} (hn : n < 256 ^ t.size)
    (h : Holds m o (toBytes (orderOf byteorder) t.size n)) (hhi : o + t.size ≤ hi) :
    Yields (readInt byteorder t o) m 0 hi (t.value n) := by
  have hbyte : ∀ {n : Nat}, n < 256 ^ 1 → Holds m o (toBytes (orderOf byteorder) 1 n) →
      o + 1 ≤ hi → Yields (dtoh8a o) m 0 hi (UInt8.ofNat n) := by
    intro n hn h hhi
    have hone : toBytes (orderOf byteorder) 1 n = [UInt8.ofNat n] := by
      cases PtpDataset.orderOf byteorder <;> rfl
    rw [hone] at h
    exact yields_dtoh8a (holds_cons.mp h).1 (Nat.zero_le _) hhi
  have hshort : ∀ {n : Nat}, n < 256 ^ 2 → Holds m o (toBytes (orderOf byteorder) 2 n) →
      o + 2 ≤ hi → Yields (dtoh16a byteorder o) m 0 hi (UInt16.ofNat n) := by
    intro n hn h hhi
    rw [← UInt16.toNat_ofNat_of_lt' hn] at h
    exact yields_dtoh16a h (Nat.zero_le _) hhi
  have hlong : ∀ {n : Nat}, n < 256 ^ 4 → Holds m o (toBytes (orderOf byteorder) 4 n) →
      o + 4 ≤ hi → Yields (dtoh32a byteorder o) m 0 hi (UInt32.ofNat n) := by
    intro n hn h hhi
    rw [← UInt32.toNat_ofNat_of_lt' hn] at h
    exact yields_dtoh32a h (Nat.zero_le _) hhi
  cases t with
  | int8 | uint8 =>
    refine (hbyte hn h hhi).bind ?_
    rw [UInt8.toNat_ofNat_of_lt' hn]
    exact Yields.pure _
  | int16 | uint16 =>
    refine (hshort hn h hhi).bind ?_
    rw [UInt16.toNat_ofNat_of_lt' hn]
    exact Yields.pure _
  | int32 | uint32 =>
    refine (hlong hn h hhi).bind ?_
    rw [UInt32.toNat_ofNat_of_lt' hn]
    exact Yields.pure _

/-- Only the places of strings have to fit 16 bits. -/
def Reachable (t : DataType) (hi : Nat) : Prop := t = .str → hi ≤ 2 ^ 16

theorem yields_item {v : Sent t} {o : Nat} (ho : 5 + totallen = o) (hreach : Reachable t hi)
    (h : Holds m o (v.encode (orderOf byteorder)))
    (hhi : o + (v.encode (orderOf byteorder)).length ≤ hi) :
    Yields (item byteorder t totallen) m 0 hi
      (v.host, totallen + (v.encode (orderOf byteorder)).length) := by
  subst ho
  cases v with
  | int t n =>
    rw [Sent.encode, toBytes_length] at hhi
    refine (yields_readInt n.isLt h hhi).bind ?_
    rw [Sent.encode, toBytes_length]
    exact Yields.pure _
  | str s =>
    have hsmall := hreach rfl
    rw [Sent.encode] at h hhi
    have hplace : (UInt16.ofNat (5 + totallen)).toNat = 5 + totallen := by
      rw [PTPString.encode_length] at hhi
      rw [UInt16.toNat_ofNat', Nat.mod_eq_of_lt (by omega)]
    rw [← hplace] at h hhi
    have hcount : (UInt8.ofNat s.sent.length).toNat = s.sent.length := by
      rw [UInt8.toNat_ofNat', Nat.mod_eq_of_lt s.sent_length]
    refine (yields_string h (Nat.zero_le _) hhi).bind ?_
    rw [Sent.encode, PTPString.encode_length, Nat.add_comm 1, Nat.mul_comm 2]
    dsimp only
    rw [hcount]
    exact Yields.pure _

theorem yields_items (vs : List (Sent t)) {o : Nat} (ho : 5 + totallen = o)
    (hreach : Reachable t hi)
    (h : Holds m o (vs.flatMap fun v => v.encode (orderOf byteorder)))
    (hhi : o + (vs.flatMap fun v => v.encode (orderOf byteorder)).length ≤ hi) :
    Yields (items byteorder t vs.length totallen) m 0 hi (vs.map Sent.host) := by
  induction vs generalizing totallen o with
  | nil => exact Yields.pure _
  | cons v vs ih =>
    rw [List.flatMap_cons, holds_append] at h
    rw [List.flatMap_cons, List.length_append] at hhi
    refine (yields_item ho hreach h.1 (by omega)).bind ?_
    refine Yields.bind (ih (by omega) h.2 (by omega)) ?_
    exact Yields.pure _

theorem yields_rangeForm {minimum maximum step : Sent t} {o : Nat} (ho : 5 + totallen = o)
    (hreach : Reachable t hi)
    (h : Holds m o ((SentForm.range minimum maximum step).encode (orderOf byteorder)))
    (hhi : o + ((SentForm.range minimum maximum step).encode (orderOf byteorder)).length ≤ hi) :
    Yields (rangeForm byteorder t totallen) m 0 hi (SentForm.range minimum maximum step).host := by
  simp only [SentForm.encode, holds_append, List.length_append] at h hhi
  obtain ⟨⟨h1, h2⟩, h3⟩ := h
  cases t with
  | int t =>
    refine (yields_item ho hreach h1 (by omega)).bind ?_
    refine (yields_item (by omega) hreach h2 (by omega)).bind ?_
    refine (yields_item (by omega) hreach h3 (by omega)).bind ?_
    exact Yields.pure _
  | str => exact Yields.pure _

theorem yields_enumerationForm {supported : List (Sent t)} (short : supported.length < 2 ^ 16)
    {o : Nat} (ho : 5 + totallen = o) (hreach : Reachable t hi)
    (h : Holds m o ((SentForm.enumeration supported short).encode (orderOf byteorder)))
    (hhi : o + ((SentForm.enumeration supported short).encode (orderOf byteorder)).length ≤ hi) :
    Yields (enumerationForm byteorder t totallen) m 0 hi
      (SentForm.enumeration supported short).host := by
  simp only [SentForm.encode, holds_append, List.length_append, toBytes_length] at h hhi
  obtain ⟨hcount, hvalues⟩ := h
  rw [← UInt16.toNat_ofNat_of_lt' short, ← ho] at hcount
  refine (yields_dtoh16a hcount (Nat.zero_le _) (by omega)).bind ?_
  rw [UInt16.toNat_ofNat_of_lt' short]
  refine Yields.bind (yields_items supported (by omega) hreach hvalues (by omega)) ?_
  exact Yields.pure _

/-- The description that a device sends of a property is what the host gets, in either byte order
and for every type that is implemented, except that a range of strings is lost. -/
theorem property_description_decoded (byteorder : UInt8) (m : Bytes) (d : PropDesc)
    (hsize : d.type = .str → (d.encode (orderOf byteorder)).length ≤ 2 ^ 16)
    (hdata : Holds m 0 (d.encode (orderOf byteorder))) :
    Yields (ptpUnpackDPD byteorder) m 0 (d.encode (orderOf byteorder)).length d.host := by
  obtain ⟨hi, hhi⟩ : ∃ hi, hi = (d.encode (orderOf byteorder)).length := ⟨_, rfl⟩
  rw [← hhi] at hsize ⊢
  simp only [PropDesc.encode, holds_append, List.length_append, toBytes_length,
    List.length_singleton, Nat.zero_add, Nat.reduceAdd] at hdata hhi
  obtain ⟨⟨⟨⟨⟨⟨h1, h2⟩, h3⟩, h4⟩, h5⟩, h6⟩, h7⟩ := hdata
  refine (yields_dtoh16a h1 (by omega) (by omega)).bind ?_
  refine (yields_dtoh16a h2 (by omega) (by omega)).bind ?_
  refine (yields_dtoh8a (holds_cons.mp h3).1 (by omega) (by omega)).bind ?_
  rw [d.known]
  refine (yields_item (by omega) hsize h4 (by omega)).bind ?_
  refine (yields_item (by omega) hsize h5 (by omega)).bind ?_
  have hflag : Yields (dtoh8a (5 + (0 + (d.factoryDefaultValue.encode (orderOf byteorder)).length +
      (d.currentValue.encode (orderOf byteorder)).length))) m 0 hi d.form.flag := by
    apply yields_dtoh8a _ (Nat.zero_le _) (by omega)
    rw [← (holds_cons.mp h6).1]
    congr 1
    omega
  refine hflag.bind ?_
  have hform : Yields (formOf byteorder d.type d.form.flag
      (0 + (d.factoryDefaultValue.encode (orderOf byteorder)).length +
        (d.currentValue.encode (orderOf byteorder)).length + 1)) m 0 hi d.form.host := by
    cases hf : d.form with
    | none => exact Yields.pure _
    | range minimum maximum step =>
      rw [hf] at h7 hhi
      exact yields_rangeForm (by omega) hsize h7 (by omega)
    | enumeration supported short =>
      rw [hf] at h7 hhi
      exact yields_enumerationForm short (by omega) hsize h7 (by omega)
  refine hform.bind ?_
  exact Yields.pure _

/-- A property with three values to choose from. -/
def choice : PropDesc where
  devicePropertyCode := 0x5005
  dataType := 0x0003
  type := .int .int16
  known := rfl
  getSet := 1
  factoryDefaultValue := .int .int16 0
  currentValue := .int .int16 65535
  form := .enumeration [.int .int16 0, .int .int16 1, .int .int16 65535] (by decide)

theorem choice_decoded :
    Yields (ptpUnpackDPD PTP_DL_LE) (ofList (choice.encode (orderOf PTP_DL_LE))) 0
      (choice.encode (orderOf PTP_DL_LE)).length choice.host :=
  property_description_decoded PTP_DL_LE _ choice (fun h => by cases h) (holds_ofList _)

example : choice.host.currentValue = some (.int (-1)) := by decide

end Reading

/-! ## There and back -/

section RoundTrip

variable {byteorder : UInt8}

/-- What a pointer may lead to when a value of this type is packed. -/
inductive Suits : DataType → Value → Prop where
  | int (t : IntType) (n : Int) (h : t.InRange n) : Suits (.int t) (.int n)
  | str (s : List UInt8) (h : 0 ∉ s) : Suits .str (.str (some (s ++ [0])))

/-- The bits of a number as they are sent. -/
def IntType.bits (t : IntType) (n : Int) : Nat := (n % 2 ^ (8 * t.size)).toNat

theorem IntType.bits_lt (t : IntType) (n : Int) : t.bits n < 256 ^ t.size := by
  cases t <;> simp only [IntType.bits, IntType.size] <;> omega

theorem IntType.value_bits {t : IntType} {n : Int} (h : t.InRange n) :
    t.value (t.bits n) = n := by
  cases t <;>
    simp only [IntType.InRange, IntType.value, IntType.bits, IntType.size, IntType.signed] at h ⊢ <;>
    simp only [Bool.false_eq_true, false_and, true_and, if_false, if_true] at h ⊢ <;> omega

theorem writeInt_eq (t : IntType) (data : Memory) (n : Int) :
    writeInt byteorder t data n =
      blit data 0 (toBytes (orderOf byteorder) t.size (t.bits n)) := by
  have hlt := t.bits_lt n
  cases t with
  | int8 | uint8 =>
    rw [writeInt, htod8a]
    cases PtpDataset.orderOf byteorder <;> rfl
  | int16 | uint16 =>
    have hsame : (UInt16.ofNat (n % 2 ^ 16).toNat).toNat = (n % 2 ^ 16).toNat :=
      UInt16.toNat_ofNat_of_lt' hlt
    rw [writeInt, htod16a, hsame]
    rfl
  | int32 | uint32 =>
    have hsame : (UInt32.ofNat (n % 2 ^ 32).toNat).toNat = (n % 2 ^ 32).toNat :=
      UInt32.toNat_ofNat_of_lt' hlt
    rw [writeInt, htod32a, hsame]
    rfl

end RoundTrip

end PtpPropDesc
