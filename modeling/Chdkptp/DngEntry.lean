import Chdkptp.LbufCoherence

/-!
# Entries of an image file directory

The methods of an IFD entry of `dng.lua`. An entry is bound to twelve bytes of a buffer; its
tag, type, count and offset are read from there whenever they are used, so that they change
when something is written over them.
-/

namespace DngEntry

open ByteMemory Lbuf LittleEndian LbufValues LbufCoherence TracedRead

/-! ## Types -/

structure TagType where
  name : String
  size : Nat
  elsize : Nat := size
  signed : Bool := false
  rational : Bool := false
  float : Bool := false
  string : Bool := false
  deriving DecidableEq, Repr

/-- `m.tag_types`, whose first type has the id 1. -/
def tagTypes : List TagType := [
  { name := "BYTE", size := 1 },
  { name := "ASCII", size := 1, string := true },
  { name := "SHORT", size := 2 },
  { name := "LONG", size := 4 },
  { name := "RATIONAL", size := 8, elsize := 4, rational := true },
  { name := "SBYTE", size := 1, signed := true },
  { name := "UNDEFINED", size := 1 },
  { name := "SSHORT", size := 2, signed := true },
  { name := "SSLONG", size := 4, signed := true },
  { name := "SRATIONAL", size := 8, elsize := 4, signed := true, rational := true },
  { name := "FLOAT", size := 4, float := true },
  { name := "DOUBLE", size := 8, float := true }]

/-- The accessors of the type, where the buffer has some. -/
def TagType.elem (t : TagType) : Option Elem :=
  if t.signed then
    match t.elsize with
    | 1 => some .i8
    | 2 => some .i16
    | 4 => some .i32
    | _ => none
  else if t.float then none
  else
    match t.elsize with
    | 1 => some .u8
    | 2 => some .u16
    | 4 => some .u32
    | _ => none

/-! ## Values and errors -/

/-- Values of Lua as far as elements are made of them. -/
inductive Val where
  | number (v : Int)
  | table (vals : List Val)
  | other

def Val.tonumber : Val → Option Int
  | .number v => some v
  | _ => none

inductive DngError where
  | lbuf (e : LbufError)
  /-- an operation on nil -/
  | nilValue
  /-- `table.insert` without a value -/
  | insertArguments
  | badArg (msg : String)
  deriving DecidableEq, Repr

/-- `LUA_MINSTACK`: what is free of the Lua stack in each call. -/
def minStack : Stack := ⟨20, by decide⟩

/-- The values that a getter returns. -/
def lbGet (el : Elem) (buf : LBuf) (off count : Int) : Except DngError (List Int) :=
  match (getVals minStack el buf (some off) (some count) (contentsAt buf)).1 with
  | .ok vals => .ok vals
  | .error e => .error (.lbuf e)

/-- The arguments of a call with one value. -/
def oneValue (v : Int) : Values := ⟨[v], (by decide : 1 ≤ luaiMaxstack)⟩

/-- A setter called with one value. -/
def lbSet (el : Elem) (buf : LBuf) (off v : Int) : Except DngError LBuf :=
  match setVals el buf (.given (some off) (oneValue v)) with
  | .ok (buf, _) => .ok buf
  | .error e => .error (.lbuf e)

/-- The end of `getel`: a number, or an array of two for a rational type. -/
def getAt (t : TagType) (el : Elem) (buf : LBuf) (vOff : Nat) :
    Except DngError (List (Option Val)) := do
  if t.rational then return [some (.table ((← lbGet el buf vOff 2).map .number))]
  else return (← lbGet el buf vOff 1).map fun v => some (.number v)

/-- The end of `setel`, with the buffer that it leaves. -/
def setAt (t : TagType) (el : Elem) (buf : LBuf) (vOff : Nat) (val : Val) :
    Except DngError LBuf := do
  if t.rational then
    match val with
    | .table [val1, val2] =>
      match val1.tonumber, val2.tonumber with
      | some v1, some v2 =>
        let buf ← lbSet el buf vOff v1
        lbSet el buf (vOff + t.elsize : Nat) v2
      | _, _ => throw (.badArg "setel: expected numbers")
    | .table _ => throw (.badArg "setel: expected exactly 2 elements for rational")
    | _ => throw (.badArg "setel: expected table for rational")
  else
    match val.tonumber with
    | some v => lbSet el buf vOff v
    | none => throw (.badArg "setel: expected number")

/-! ## Entries -/

structure Entry where
  off : Nat
  deriving DecidableEq, Repr

namespace Entry

variable (e : Entry) (buf : LBuf)

/-- The getter of a bound field. -/
def field (el : Elem) (off : Nat) : Except DngError Nat := do
  match ← lbGet el buf off 1 with
  | [] => .error .nilValue
  | v :: _ => .ok v.toNat

def tag : Except DngError Nat := field buf .u16 e.off

def typeId : Except DngError Nat := field buf .u16 (e.off + 2)

def count : Except DngError Nat := field buf .u32 (e.off + 4)

def valoff : Except DngError Nat := field buf .u32 (e.off + 8)

/-- The type of an id, none for an unknown one. -/
def typeOfId (id : Nat) : Option TagType := if id = 0 then none else tagTypes[id - 1]?

def type : Except DngError (Option TagType) := do
  return typeOfId (← e.typeId buf)

/-- The size of an unknown type is taken for 0. -/
def isInline : Except DngError Bool := do
  let count ← e.count buf
  let t ← e.type buf
  return decide (count * ((t.map TagType.size).getD 0) ≤ 4)

/-- An inline value stands behind the short tag, the short type and the long count. -/
def getDataOff : Except DngError Nat := do
  if ← e.isInline buf then return e.off + 8 else e.valoff buf

/-- `getel` with the values that it returns: a number or an array of two, nil, or none. -/
def getel (index : Nat) : Except DngError (List (Option Val)) := do
  if (← e.count buf) ≤ index then return [none]
  match ← e.type buf with
  | none => return [none]
  | some t =>
    let vOff := (← e.getDataOff buf) + t.size * index
    match t.elem with
    | none => return [none]
    | some el => getAt t el buf vOff

def setel (val : Val) (index : Nat) : Except DngError LBuf := do
  if (← e.count buf) ≤ index then throw (.badArg ("setel: invalid index " ++ toString index))
  match ← e.type buf with
  | none => throw (.badArg "setel: cannot set unk value")
  | some t =>
    match t.elem with
    | none => throw (.badArg "setel: no setter for this type")
    | some el => setAt t el buf ((← e.getDataOff buf) + t.size * index) val

/-- The loop of `getel_array`: each element is inserted at the end; nil changes nothing. -/
def insertEls : List Nat → Except DngError (List Val)
  | [] => return []
  | i :: is => do
    match ← e.getel buf i with
    | [none] => insertEls is
    | [some val] => return val :: (← insertEls is)
    | _ => throw .insertArguments

/-- A start that is given is not below the count. -/
def startOutside (start : Option Nat) : Except DngError Bool :=
  match start with
  | none => return false
  | some start => return decide ((← e.count buf) ≤ start)

def getelArray (start count : Option Nat) : Except DngError (List Val) := do
  if ← e.startOutside buf start then return []
  let start := start.getD 0
  let entryCount ← e.count buf
  let count := match count with
    | none => entryCount
    | some count => if entryCount < count then entryCount else count
  -- for i = start,count
  e.insertEls buf (List.range' start (count + 1 - start))

/-- The loop of `setel_array`. -/
def setEls (buf : LBuf) : List Val → Nat → Except DngError LBuf
  | [], _ => return buf
  | val :: vals, index => do setEls (← e.setel buf val index) vals (index + 1)

def setelArray (vals : Val) (start : Option Nat) : Except DngError LBuf := do
  if ← e.startOutside buf start then
    throw (.badArg ("setel_array: invalid start index " ++ toString (start.getD 0)))
  let start := start.getD 0
  match vals with
  | .table vals =>
    if (← e.count buf) < start + vals.length then
      throw (.badArg "setel_array: too many elements")
    e.setEls buf vals start
  | _ => throw (.badArg "setel_array: expected array")

end Entry

/-! ## Sequences of steps that may fail -/

section Bind

variable {ε α β : Type} {x : Except ε α}

theorem ok_bind {a : α} (h : x = .ok a) (f : α → Except ε β) : (x >>= f) = f a := by
  rw [h]
  rfl

theorem error_bind {err : ε} (h : x = .error err) (f : α → Except ε β) :
    (x >>= f) = .error err := by
  rw [h]
  rfl

end Bind

/-! ## Reading and writing in the buffer -/

section Results

variable {el : Elem} {buf buf' : LBuf} {off count v n : Int} {vals reads : List Int} {e : LbufError}

theorem lbGet_ok
    (h : getVals minStack el buf (some off) (some count) (contentsAt buf) = (.ok vals, reads)) :
    lbGet el buf off count = .ok vals := by
  unfold lbGet
  rw [h]

theorem lbGet_error
    (h : getVals minStack el buf (some off) (some count) (contentsAt buf) = (.error e, reads)) :
    lbGet el buf off count = .error (.lbuf e) := by
  unfold lbGet
  rw [h]

theorem lbSet_ok (h : setVals el buf (.given (some off) (oneValue v)) = .ok (buf', n)) :
    lbSet el buf off v = .ok buf' := by
  unfold lbSet
  rw [h]

theorem lbSet_error (h : setVals el buf (.given (some off) (oneValue v)) = .error e) :
    lbSet el buf off v = .error (.lbuf e) := by
  unfold lbSet
  rw [h]

end Results

section Access

variable {el : Elem} {buf : LBuf} {off : Nat}

theorem lbGet_fitting {count : Nat} (hpos : 0 < count) (hfew : count ≤ 20)
    (h : off + count * el.size ≤ buf.len.toNat) :
    lbGet el buf off count =
      if off < 2 ^ 31 then .ok (elements el buf.bytes off count)
      else .error (.lbuf .negativeOffset) := by
  have hlen := buf.len.toNat_lt
  have hsize : el.size ≤ count * el.size := Nat.le_mul_of_pos_left _ hpos
  by_cases hoff : off < 2 ^ 31
  · have hget := getVals_fitting minStack el buf (by omega) hoff (by omega) h
    rw [if_pos (show count ≤ minStack.free from hfew)] at hget
    rw [if_pos hoff, lbGet_ok hget]
  · have hget := getVals_negative minStack el buf off (some (count : Int)) (by omega)
    rw [if_neg hoff, lbGet_error hget]

theorem lbSet_fitting (v : Int) (h : off + el.size ≤ buf.len.toNat) :
    lbSet el buf off v =
      if off < 2 ^ 31 then .ok ⟨buf.len, blit buf.bytes off (encode el.size v)⟩
      else .error (.lbuf .negativeOffset) := by
  have hlen := buf.len.toNat_lt
  by_cases hoff : off < 2 ^ 31
  · have hone : (oneValue v).list.length * el.size = el.size := Nat.one_mul _
    have hset := @setVals_all el buf off (oneValue v) (by rw [hone]; exact h) hoff
    have hbytes : encodeAll el (oneValue v).list = encode el.size v := List.append_nil _
    rw [hbytes] at hset
    rw [if_pos hoff, lbSet_ok hset]
  · have hplace : (Option.getD (some (off : Int)) 0).toNat = off := rfl
    have hset := setVals_negative el buf (some (off : Int)) (oneValue v)
      (Int.natCast_nonneg off) (by rw [hplace]; omega)
    rw [if_neg hoff, lbSet_error hset]

/-- A field of the entry. -/
theorem field_fitting (hunsigned : el.signed = false) (h : off + el.size ≤ buf.len.toNat) :
    Entry.field buf el off =
      if off < 2 ^ 31 then .ok (natOf (slice buf.bytes off el.size))
      else .error (.lbuf .negativeOffset) := by
  have hget := @lbGet_fitting el buf off 1 Nat.one_pos (by decide) (by omega)
  unfold Entry.field
  rw [Nat.cast_one] at hget
  rw [hget]
  by_cases hoff : off < 2 ^ 31
  · rw [if_pos hoff, if_pos hoff]
    simp [elements, decode, hunsigned, bind, Except.bind]
  · rw [if_neg hoff, if_neg hoff]
    rfl

/-- Behind the last place of a field nothing is read. -/
theorem field_past (hsize : el.size ≤ buf.len.toNat) (hoff : off < 2 ^ 31)
    (h : buf.len.toNat < off + el.size) : Entry.field buf el off = .error .nilValue := by
  have hget := getVals_outcome minStack el buf off 1 (by omega) (by decide) (by decide)
  rw [Nat.mod_eq_of_lt (by omega), outcome_past hsize h] at hget
  unfold Entry.field
  rw [ok_bind (lbGet_ok hget)]
  rfl

theorem field_high (hhigh : ¬off % 2 ^ 32 < 2 ^ 31) :
    Entry.field buf el off = .error (.lbuf .negativeOffset) := by
  have hget := getVals_negative minStack el buf off (some 1) hhigh
  unfold Entry.field
  rw [error_bind (lbGet_error hget)]

end Access

/-! ## What an entry stands for -/

/-- What the bytes of an entry hold. -/
structure Header where
  typeId : Nat
  count : Nat
  valoff : Nat

def headerAt (m : Memory) (off : Nat) : Header :=
  ⟨natOf (slice m (off + 2) 2), natOf (slice m (off + 4) 4), natOf (slice m (off + 8) 4)⟩

/-- Where the first element stands. -/
def Header.place (h : Header) (off : Nat) (t : TagType) : Nat :=
  if h.count * t.size ≤ 4 then off + 8 else h.valoff

/-- What stands at a place; two numbers for a rational type. -/
def valueAt (t : TagType) (el : Elem) (m : Memory) (p : Nat) : Val :=
  if t.rational then .table ((elements el m p 2).map .number)
  else .number (decode el.signed (slice m p el.size))

/-- One element of the data that stand at a place. -/
def elementAt (t : TagType) (el : Elem) (m : Memory) (place index : Nat) : Val :=
  valueAt t el m (place + t.size * index)

/-- An entry of a type that has accessors, with its data inside the buffer. -/
structure Located (buf : LBuf) (e : Entry) (t : TagType) (el : Elem) : Prop where
  bound : e.off + 12 ≤ buf.len.toNat
  type : Entry.typeOfId (headerAt buf.bytes e.off).typeId = some t
  elem : t.elem = some el
  inside : (headerAt buf.bytes e.off).place e.off t + t.size * (headerAt buf.bytes e.off).count ≤
    buf.len.toNat

theorem tagTypes_elem : ∀ t ∈ tagTypes, ∀ el ∈ t.elem,
    el.size = t.elsize ∧ t.size = (if t.rational then 2 * el.size else el.size) := by decide

theorem mem_of_typeOfId {id : Nat} {t : TagType} (h : Entry.typeOfId id = some t) :
    t ∈ tagTypes := by
  unfold Entry.typeOfId at h
  split_ifs at h
  exact List.mem_of_getElem? h

theorem size_of_elem {id : Nat} {t : TagType} {el : Elem} (h : Entry.typeOfId id = some t)
    (hel : t.elem = some el) :
    el.size = t.elsize ∧ t.size = (if t.rational then 2 * el.size else el.size) :=
  tagTypes_elem t (mem_of_typeOfId h) el hel

section Fields

variable {buf : LBuf} {e : Entry} (hbound : e.off + 12 ≤ buf.len.toNat)

include hbound

theorem count_eq :
    e.count buf = if e.off + 4 < 2 ^ 31 then .ok (headerAt buf.bytes e.off).count
      else .error (.lbuf .negativeOffset) :=
  @field_fitting .u32 buf (e.off + 4) rfl (by dsimp only [Elem.size]; omega)

theorem type_eq :
    e.type buf = if e.off + 2 < 2 ^ 31 then .ok (Entry.typeOfId (headerAt buf.bytes e.off).typeId)
      else .error (.lbuf .negativeOffset) := by
  have hid := @field_fitting .u16 buf (e.off + 2) rfl (by dsimp only [Elem.size]; omega)
  unfold Entry.type Entry.typeId
  rw [hid]
  split_ifs <;> rfl

theorem getDataOff_eq {t : TagType}
    (htype : Entry.typeOfId (headerAt buf.bytes e.off).typeId = some t)
    (hoff : e.off + 8 < 2 ^ 31) :
    e.getDataOff buf = .ok ((headerAt buf.bytes e.off).place e.off t) := by
  have hvaloff := @field_fitting .u32 buf (e.off + 8) rfl (by dsimp only [Elem.size]; omega)
  rw [if_pos hoff] at hvaloff
  unfold Entry.getDataOff Entry.isInline Entry.valoff Header.place
  rw [count_eq hbound, type_eq hbound, if_pos (by omega), if_pos (by omega), htype, hvaloff]
  by_cases hinline : (headerAt buf.bytes e.off).count * t.size ≤ 4
  · simp [bind, Except.bind, pure, Except.pure, hinline]
  · simp [bind, Except.bind, pure, Except.pure, hinline]
    rfl

/-- The end of an entry that is too far behind for an `int`. -/
theorem getDataOff_high {t : TagType}
    (htype : Entry.typeOfId (headerAt buf.bytes e.off).typeId = some t)
    (hoff : ¬e.off + 8 < 2 ^ 31) :
    e.getDataOff buf = .error (.lbuf .negativeOffset) ∨
      e.getDataOff buf = .ok ((headerAt buf.bytes e.off).place e.off t) ∧
        2 ^ 31 ≤ (headerAt buf.bytes e.off).place e.off t := by
  have hvaloff := @field_fitting .u32 buf (e.off + 8) rfl (by dsimp only [Elem.size]; omega)
  rw [if_neg hoff] at hvaloff
  unfold Entry.getDataOff Entry.isInline Entry.valoff Header.place
  rw [count_eq hbound, type_eq hbound, htype, hvaloff]
  by_cases hcount : e.off + 4 < 2 ^ 31
  · rw [if_pos hcount, if_pos (by omega)]
    by_cases hinline : (headerAt buf.bytes e.off).count * t.size ≤ 4
    · right
      refine ⟨?_, by rw [if_pos hinline]; omega⟩
      simp [bind, Except.bind, pure, Except.pure, hinline]
    · left
      simp [bind, Except.bind, pure, Except.pure, hinline]
  · rw [if_neg hcount]
    left
    rfl

end Fields

/-! ## One element -/

section Element

variable {buf : LBuf} {e : Entry} {t : TagType} {el : Elem} {index : Nat}

/-- An element of a located entry lies in the buffer. -/
theorem Located.element (h : Located buf e t el)
    (hindex : index < (headerAt buf.bytes e.off).count) :
    (headerAt buf.bytes e.off).place e.off t + t.size * (index + 1) ≤ buf.len.toNat := by
  have hinside := h.inside
  have hmul : t.size * (index + 1) ≤ t.size * (headerAt buf.bytes e.off).count :=
    Nat.mul_le_mul_left _ hindex
  omega

theorem getAt_fitting {p : Nat} (hsize : t.size = (if t.rational then 2 * el.size else el.size))
    (hend : p + t.size ≤ buf.len.toNat) :
    getAt t el buf p =
      if p < 2 ^ 31 then .ok [some (valueAt t el buf.bytes p)]
      else .error (.lbuf .negativeOffset) := by
  unfold getAt valueAt
  cases hrational : t.rational with
  | true =>
    rw [hrational, if_pos rfl] at hsize
    have hget := @lbGet_fitting el buf p 2 (by decide) (by decide) (by omega)
    rw [Nat.cast_ofNat] at hget
    rw [if_pos rfl, if_pos rfl, hget]
    by_cases hlow : p < 2 ^ 31
    · rw [if_pos hlow, if_pos hlow]
      rfl
    · rw [if_neg hlow, if_neg hlow]
      rfl
  | false =>
    rw [hrational, if_neg Bool.false_ne_true] at hsize
    have hget := @lbGet_fitting el buf p 1 (by decide) (by decide) (by omega)
    rw [Nat.cast_one] at hget
    rw [if_neg Bool.false_ne_true, if_neg Bool.false_ne_true, hget]
    by_cases hlow : p < 2 ^ 31
    · rw [if_pos hlow, if_pos hlow]
      simp [elements, bind, Except.bind, pure, Except.pure]
    · rw [if_neg hlow, if_neg hlow]
      rfl

/-- What is read first of an entry that an `int` leads to. -/
theorem fields_low (h : Located buf e t el) (hlow : e.off + 8 < 2 ^ 31) :
    e.count buf = .ok (headerAt buf.bytes e.off).count ∧ e.type buf = .ok (some t) ∧
      e.getDataOff buf = .ok ((headerAt buf.bytes e.off).place e.off t) := by
  have hcount := count_eq h.bound
  have htype := type_eq h.bound
  rw [h.type] at htype
  rw [if_pos (by omega)] at hcount htype
  exact ⟨hcount, htype, getDataOff_eq h.bound h.type hlow⟩

/-- Of any other entry something cannot be read. -/
theorem fields_high (h : Located buf e t el) (hhigh : ¬e.off + 8 < 2 ^ 31) :
    e.count buf = .error (.lbuf .negativeOffset) ∨
      e.count buf = .ok (headerAt buf.bytes e.off).count ∧ e.type buf = .ok (some t) ∧
        (e.getDataOff buf = .error (.lbuf .negativeOffset) ∨
          e.getDataOff buf = .ok ((headerAt buf.bytes e.off).place e.off t) ∧
            2 ^ 31 ≤ (headerAt buf.bytes e.off).place e.off t) := by
  have hcount := count_eq h.bound
  have htype := type_eq h.bound
  rw [h.type] at htype
  by_cases hoff : e.off + 4 < 2 ^ 31
  · rw [if_pos (by omega)] at hcount htype
    exact Or.inr ⟨hcount, htype, getDataOff_high h.bound h.type hhigh⟩
  · rw [if_neg hoff] at hcount
    exact Or.inl hcount

theorem getel_inside (h : Located buf e t el)
    (hindex : index < (headerAt buf.bytes e.off).count) :
    e.getel buf index =
      if e.off + 8 < 2 ^ 31 ∧
          (headerAt buf.bytes e.off).place e.off t + t.size * index < 2 ^ 31 then
        .ok [some (elementAt t el buf.bytes ((headerAt buf.bytes e.off).place e.off t) index)]
      else .error (.lbuf .negativeOffset) := by
  have hend := h.element hindex
  rw [Nat.mul_add, Nat.mul_one, ← Nat.add_assoc] at hend
  have hget := getAt_fitting (size_of_elem h.type h.elem).2 hend
  unfold Entry.getel elementAt
  by_cases hlow : e.off + 8 < 2 ^ 31
  · obtain ⟨hcount, htype, hdata⟩ := fields_low h hlow
    rw [ok_bind hcount, if_neg (by omega), ok_bind htype]
    dsimp only
    rw [ok_bind hdata, h.elem]
    dsimp only
    rw [hget]
    by_cases hplace : (headerAt buf.bytes e.off).place e.off t + t.size * index < 2 ^ 31
    · rw [if_pos hplace, if_pos ⟨hlow, hplace⟩]
    · rw [if_neg hplace, if_neg fun hand => hplace hand.2]
  · rw [if_neg fun hand => hlow hand.1]
    obtain hcount | ⟨hcount, htype, hdata⟩ := fields_high h hlow
    · rw [error_bind hcount]
    · rw [ok_bind hcount, if_neg (by omega), ok_bind htype]
      dsimp only
      obtain hdata | ⟨hdata, hplace⟩ := hdata
      · rw [error_bind hdata]
      · rw [ok_bind hdata, h.elem]
        dsimp only
        rw [hget, if_neg (by omega)]

/-- Behind the last element there is nil. -/
theorem getel_past (hbound : e.off + 12 ≤ buf.len.toNat)
    (hindex : (headerAt buf.bytes e.off).count ≤ index) (hlow : e.off + 4 < 2 ^ 31) :
    e.getel buf index = .ok [none] := by
  have hcount := count_eq hbound
  rw [if_pos hlow] at hcount
  unfold Entry.getel
  rw [ok_bind hcount, if_pos hindex]
  rfl

end Element

end DngEntry
