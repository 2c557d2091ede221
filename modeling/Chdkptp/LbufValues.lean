import Chdkptp.Lbuf
import Chdkptp.LittleEndian
import Chdkptp.TracedRead

/-!
# Integers in Lua buffers

`get_vals` and `set_vals`, behind which are the accessors for integers of one, two and
four bytes. Offsets and counts are `int`, the length is `unsigned`, and what is computed
from both is `unsigned` too.
-/

namespace LbufValues

open ByteMemory BoundedLoop Lbuf LittleEndian TracedRead TracedRead.Traced

inductive LbufError where
  | negativeOffset
  | stackSpace
  deriving DecidableEq, Repr

/-- The types that there are accessors for. -/
inductive Elem where
  | i32
  | u32
  | i16
  | u16
  | i8
  | u8
  deriving DecidableEq, Repr

def Elem.size : Elem → Nat
  | .i32 | .u32 => 4
  | .i16 | .u16 => 2
  | .i8 | .u8 => 1

def Elem.signed : Elem → Bool
  | .i32 | .i16 | .i8 => true
  | .u32 | .u16 | .u8 => false

/-- `LUAI_MAXSTACK`. -/
abbrev luaiMaxstack : Nat := 1000000

/-- What is left of the Lua stack. -/
structure Stack where
  free : Nat
  bound : free ≤ luaiMaxstack

/-- `luaL_optint`. -/
def optInt (arg : Option Int) (default : Int) : Int := (arg.getD default).bmod (2 ^ 32)

/-! ## Reading -/

/-- `get_vals_int32` and so on. -/
def getElem (t : Elem) (p : Int) : Traced LbufError Int := do
  let bs ← each (List.range t.size) fun i => byteAt (p + i)
  return decode t.signed bs

/-- The number of elements to read, as it is stored in an `int`. -/
def getCount (len size : Nat) (off count : Int) : Int :=
  if count < 0 ∨ (len : Int) < (off + count * size) % 2 ^ 32 then
    (((len : Int) - off) % 2 ^ 32 / size).bmod (2 ^ 32)
  else count

/-- `get_vals`. Lua takes a negative number of results for none. -/
def getVals (stack : Stack) (t : Elem) (buf : LBuf) (off count : Option Int) :
    Traced LbufError (List Int) :=
  let off := optInt off 0
  let count := optInt count 1
  if off < 0 then throw .negativeOffset
  else if ((buf.len.toNat : Int) - t.size) % 2 ^ 32 < off then return []
  else
    let count := getCount buf.len.toNat t.size off count
    if stack.free < count then throw .stackSpace
    else each (List.range count.toNat) fun i => getElem t (off + i * t.size)

section Getters

variable (stack : Stack) (buf : LBuf) (off count : Option Int)

def lbufGetI32 : Traced LbufError (List Int) := getVals stack .i32 buf off count

def lbufGetU32 : Traced LbufError (List Int) := getVals stack .u32 buf off count

def lbufGetI16 : Traced LbufError (List Int) := getVals stack .i16 buf off count

def lbufGetU16 : Traced LbufError (List Int) := getVals stack .u16 buf off count

def lbufGetI8 : Traced LbufError (List Int) := getVals stack .i8 buf off count

def lbufGetU8 : Traced LbufError (List Int) := getVals stack .u8 buf off count

end Getters

/-- The bytes that a pointer into the buffer leads to. -/
def contentsAt (buf : LBuf) : Bytes := fun o => buf.bytes o.toNat

/-- The elements from an offset on. -/
def elements (t : Elem) (m : Memory) (off count : Nat) : List Int :=
  (List.range count).map fun i => decode t.signed (slice m (off + i * t.size) t.size)

/-- The offsets of their bytes. -/
def elementReads (t : Elem) (off count : Nat) : List Int :=
  (List.range count).flatMap fun i : Nat => (List.range t.size).map fun j : Nat => (off + i * t.size : Int) + j

theorem getElem_apply (t : Elem) (buf : LBuf) (p : Nat) :
    getElem t p (contentsAt buf) =
      (.ok (decode t.signed (slice buf.bytes p t.size)),
        (List.range t.size).map fun j : Nat => (p : Int) + j) := by
  have hbyte : ∀ i ∈ List.range t.size,
      (byteAt ((p : Int) + i) : Traced LbufError UInt8) (contentsAt buf) =
        (.ok (buf.bytes (p + i)), [(p : Int) + i]) := fun i _ => rfl
  have hbytes := each_eq (fun i : Nat => buf.bytes (p + i)) (fun i => [(p : Int) + i]) _ hbyte
  unfold getElem
  rw [bind_ok hbytes]
  simp [slice, List.map_eq_flatMap]

/-- The loop reads the elements. -/
theorem getElems_apply (t : Elem) (buf : LBuf) (off count : Nat) :
    each (List.range count) (fun i => getElem t ((off : Int) + i * t.size)) (contentsAt buf) =
      (.ok (elements t buf.bytes off count), elementReads t off count) := by
  refine each_eq _ _ (List.range count) fun i _ => ?_
  exact_mod_cast getElem_apply t buf (off + i * t.size)

@[simp] theorem elements_length (t : Elem) (m : Memory) (off count : Nat) :
    (elements t m off count).length = count := by
  simp [elements]

theorem elementReads_inside (t : Elem) {off count len : Nat} (h : off + count * t.size ≤ len) :
    Inside 0 len (elementReads t off count) := by
  intro o ho
  obtain ⟨i, hi, ho⟩ := List.mem_flatMap.mp ho
  obtain ⟨j, hj, rfl⟩ := List.mem_map.mp ho
  have hi := List.mem_range.mp hi
  have hj := List.mem_range.mp hj
  have hmul : (i + 1) * t.size ≤ count * t.size := Nat.mul_le_mul_right _ hi
  rw [Nat.add_mul] at hmul
  constructor
  · omega
  · have hlt : off + i * t.size + j < len := by omega
    exact_mod_cast hlt

/-! ## What is to be read -/

/-- The elements that lie wholly between the offset and the end. -/
def whole (len size off : Nat) : Nat := (len - off) / size

/-- How many elements are asked for; a negative count means all. -/
def wanted (len size off : Nat) (count : Int) : Nat :=
  if count < 0 then whole len size off else min count.toNat (whole len size off)

/-- The elements are returned, if the Lua stack has room for them, and nothing outside the
buffer is read. -/
structure Serves (stack : Stack) (t : Elem) (buf : LBuf) (off : Nat) (count : Int) : Prop where
  result : (getVals stack t buf (some off) (some count) (contentsAt buf)).1 =
    if wanted buf.len.toNat t.size off count ≤ stack.free then
      .ok (elements t buf.bytes off (wanted buf.len.toNat t.size off count))
    else .error .stackSpace
  inside : Inside 0 buf.len.toNat (getVals stack t buf (some off) (some count) (contentsAt buf)).2

/-- How many elements `get_vals` reads from an offset on, or none when it raises an error. -/
def outcome (free len size off : Nat) (count : Int) : Option Nat :=
  if ((len : Int) - size) % 2 ^ 32 < off then some 0
  else if free < getCount len size off count then none
  else some (getCount len size off count).toNat

theorem optInt_count {count : Int} (hlow : -2 ^ 31 ≤ count) (hhigh : count < 2 ^ 31)
    (default : Int) : optInt (some count) default = count := by
  unfold optInt
  exact Int.bmod_eq_of_le (by simpa using hlow) (by simpa using hhigh)

/-- An `int` of a number. -/
theorem bmod_natCast (n : Nat) :
    (n : Int).bmod (2 ^ 32) = if n % 2 ^ 32 < 2 ^ 31 then ((n % 2 ^ 32 : Nat) : Int)
      else ((n % 2 ^ 32 : Nat) : Int) - 2 ^ 32 := by
  dsimp only [Int.bmod]
  split_ifs <;> omega

theorem optInt_offset (off : Nat) (default : Int) :
    optInt (some (off : Int)) default =
      if off % 2 ^ 32 < 2 ^ 31 then ((off % 2 ^ 32 : Nat) : Int)
      else ((off % 2 ^ 32 : Nat) : Int) - 2 ^ 32 := bmod_natCast off

theorem getVals_negative (stack : Stack) (t : Elem) (buf : LBuf) (off : Nat) (count : Option Int)
    (h : ¬off % 2 ^ 32 < 2 ^ 31) :
    getVals stack t buf (some off) count (contentsAt buf) = (.error .negativeOffset, []) := by
  have hoff := optInt_offset off 0
  rw [if_neg h] at hoff
  unfold getVals
  simp only [hoff]
  rw [if_pos (by omega)]
  rfl

theorem getVals_outcome (stack : Stack) (t : Elem) (buf : LBuf) (off : Nat) (count : Int)
    (h : off % 2 ^ 32 < 2 ^ 31) (hlow : -2 ^ 31 ≤ count) (hhigh : count < 2 ^ 31) :
    getVals stack t buf (some off) (some count) (contentsAt buf) =
      match outcome stack.free buf.len.toNat t.size (off % 2 ^ 32) count with
      | none => (.error .stackSpace, [])
      | some c => (.ok (elements t buf.bytes (off % 2 ^ 32) c), elementReads t (off % 2 ^ 32) c) := by
  have hoff := optInt_offset off 0
  rw [if_pos h] at hoff
  unfold getVals outcome
  simp only [hoff, optInt_count hlow hhigh]
  rw [if_neg (by omega)]
  split_ifs
  · rfl
  · rfl
  · exact getElems_apply t buf _ _

/-! ## When the elements are returned -/

/-- The count is replaced by what is left of the buffer. -/
def Clamped (len size off : Nat) (count : Int) : Prop :=
  count < 0 ∨ (len : Int) < (off + count * size) % 2 ^ 32

instance (len size off : Nat) (count : Int) : Decidable (Clamped len size off count) :=
  inferInstanceAs (Decidable (_ ∨ _))

/-- The end of the elements wraps to a place in the buffer. -/
def Wraps (len size off : Nat) (count : Int) : Prop :=
  ¬Clamped len size off count ∧ 2 ^ 32 ≤ off + count * size

instance (len size off : Nat) (count : Int) : Decidable (Wraps len size off count) :=
  inferInstanceAs (Decidable (_ ∧ _))

/-- The condition under which the elements are returned. The offset is taken modulo `2 ^ 32`. -/
structure Served (free len size off : Nat) (count : Int) : Prop where
  offset : off % 2 ^ 32 < 2 ^ 31
  behind : len < size → len < off % 2 ^ 32 → size = 1
  short : len < size → off % 2 ^ 32 ≤ len → ¬Wraps len size (off % 2 ^ 32) count
  same : off % 2 ^ 32 + size ≤ len → off < 2 ^ 32 →
    (Clamped len size off count → whole len size off < 2 ^ 31) ∧
      (Wraps len size off count → free < whole len size off)
  other : off % 2 ^ 32 + size ≤ len → 2 ^ 32 ≤ off →
    count = 0 ∨ Clamped len size (off % 2 ^ 32) count ∧ 2 ^ 31 ≤ whole len size (off % 2 ^ 32)

theorem Elem.size_cases (t : Elem) : t.size = 1 ∨ t.size = 2 ∨ t.size = 4 := by
  cases t <;> decide

section Outcome

variable {free len size p : Nat} {count : Int}

theorem outcome_past (hfits : size ≤ len) (h : len < p + size) :
    outcome free len size p count = some 0 := by
  have hroom : ((len : Int) - size) % 2 ^ 32 < p := by omega
  exact if_pos hroom

theorem getCount_clamped (h : Clamped len size p count) :
    getCount len size p count = (((len : Int) - p) % 2 ^ 32 / size).bmod (2 ^ 32) := if_pos h

theorem getCount_unclamped (h : ¬Clamped len size p count) : getCount len size p count = count :=
  if_neg h

theorem whole_cast (hsize : size = 1 ∨ size = 2 ∨ size = 4) (hlen : len < 2 ^ 32) (h : p ≤ len) :
    ((len : Int) - p) % 2 ^ 32 / size = whole len size p := by
  unfold whole
  rcases hsize with rfl | rfl | rfl <;> omega

theorem outcome_inside (hsize : size = 1 ∨ size = 2 ∨ size = 4) (hlen : len < 2 ^ 32)
    (h : p + size ≤ len) :
    outcome free len size p count =
      if Clamped len size p count then
        if 2 ^ 31 ≤ whole len size p then some 0
        else if free < whole len size p then none else some (whole len size p)
      else if free < count then none else some count.toNat := by
  have hwhole : whole len size p < 2 ^ 32 := Nat.lt_of_le_of_lt (Nat.div_le_self _ _) (by omega)
  have hbmod := bmod_natCast (whole len size p)
  rw [Nat.mod_eq_of_lt hwhole] at hbmod
  unfold outcome
  rw [if_neg (by omega)]
  by_cases hclamped : Clamped len size p count
  · rw [if_pos hclamped, getCount_clamped hclamped, whole_cast hsize hlen (by omega), hbmod]
    by_cases hbig : 2 ^ 31 ≤ whole len size p
    · have hnegative : (whole len size p : Int) - 2 ^ 32 ≤ 0 := by omega
      rw [if_pos hbig, if_neg (by omega : ¬whole len size p < 2 ^ 31), if_neg (by omega),
        Int.toNat_of_nonpos hnegative]
    · rw [if_neg hbig, if_pos (by omega : whole len size p < 2 ^ 31)]
      split_ifs <;> first | rfl | omega
  · rw [if_neg hclamped, getCount_unclamped hclamped]

theorem outcome_short (hsize : size = 1 ∨ size = 2 ∨ size = 4) (hhigh : count < 2 ^ 31)
    (hfree : free ≤ luaiMaxstack) (hp : p < 2 ^ 31) (hshort : len < size) (h : p ≤ len) :
    outcome free len size p count = if Wraps len size p count then none else some 0 := by
  have hzero : whole len size p = 0 := Nat.div_eq_of_lt (by omega)
  have hcast := whole_cast (p := p) hsize (by omega) h
  unfold outcome
  rw [if_neg (by omega)]
  by_cases hclamped : Clamped len size p count
  · have hnot : ¬Wraps len size p count := fun hw => hw.1 hclamped
    rw [getCount_clamped hclamped, hcast, hzero, if_neg hnot]
    simp
  · have hcount : 0 ≤ count ∧ (p + count * size) % 2 ^ 32 ≤ len := by
      unfold Clamped at hclamped
      omega
    have hroom : free ≤ 1000000 := hfree
    rw [getCount_unclamped hclamped]
    by_cases hwraps : (2 : Int) ^ 32 ≤ p + count * size
    · have hlarge : (free : Int) < count := by
        rcases hsize with rfl | rfl | rfl <;> omega
      have hw : Wraps len size p count := ⟨hclamped, hwraps⟩
      rw [if_pos hlarge, if_pos hw]
    · have hnone : count = 0 := by
        rcases hsize with rfl | rfl | rfl <;> omega
      have hnot : ¬Wraps len size p count := fun hw => hwraps hw.2
      rw [if_neg hnot, hnone]
      simp

theorem outcome_behind (hsize : size = 1 ∨ size = 2 ∨ size = 4) (hhigh : count < 2 ^ 31)
    (hfree : free ≤ luaiMaxstack) (hp : p < 2 ^ 31) (hshort : len < size) (h : len < p) :
    outcome free len size p count = if size = 1 then some 0 else none := by
  have hroom : free ≤ 1000000 := hfree
  unfold outcome
  rw [if_neg (by omega)]
  by_cases hclamped : Clamped len size p count
  · have hwrap : ((len : Int) - p) % 2 ^ 32 = (2 ^ 32 + len - p : Nat) := by omega
    have hdiv : ((2 ^ 32 + len - p : Nat) : Int) / size = ((2 ^ 32 + len - p) / size : Nat) := by
      norm_cast
    rw [getCount_clamped hclamped, hwrap, hdiv, bmod_natCast]
    rcases hsize with rfl | rfl | rfl
    · rw [if_neg (by omega : ¬(2 ^ 32 + len - p) / 1 % 2 ^ 32 < 2 ^ 31), if_neg (by omega),
        if_pos rfl, Int.toNat_of_nonpos (by omega)]
    · rw [if_pos (by omega : (2 ^ 32 + len - p) / 2 % 2 ^ 32 < 2 ^ 31), if_pos (by omega),
        if_neg (by decide)]
    · rw [if_pos (by omega : (2 ^ 32 + len - p) / 4 % 2 ^ 32 < 2 ^ 31), if_pos (by omega),
        if_neg (by decide)]
  · have hcount : 0 ≤ count ∧ (p + count * size) % 2 ^ 32 ≤ len := by
      unfold Clamped at hclamped
      omega
    rw [getCount_unclamped hclamped]
    rcases hsize with rfl | rfl | rfl
    · omega
    · rw [if_pos (by omega), if_neg (by decide)]
    · rw [if_pos (by omega), if_neg (by decide)]

theorem whole_eq_zero (hsize : size = 1 ∨ size = 2 ∨ size = 4) (h : len < p + size) :
    whole len size p = 0 := Nat.div_eq_of_lt (by omega)

theorem wanted_eq_zero (hsize : size = 1 ∨ size = 2 ∨ size = 4) (h : len < p + size) :
    wanted len size p count = 0 := by
  unfold wanted
  rw [whole_eq_zero hsize h]
  simp

/-- Clamping gives the number that is asked for, and so does a count that is not clamped,
unless the end of its elements wraps. -/
theorem wanted_inside (hsize : size = 1 ∨ size = 2 ∨ size = 4) (hlen : len < 2 ^ 32)
    (h : p + size ≤ len) :
    (Clamped len size p count → wanted len size p count = whole len size p) ∧
      (Wraps len size p count → wanted len size p count = whole len size p) ∧
      (¬Clamped len size p count → ¬Wraps len size p count →
        wanted len size p count = count.toNat) := by
  have hmore : ∀ c : Nat, len < p + c * size → whole len size p ≤ c := by
    intro c hc
    unfold whole
    rcases hsize with rfl | rfl | rfl <;> omega
  refine ⟨?_, ?_, ?_⟩
  · intro hclamped
    unfold wanted
    split_ifs with hneg
    · rfl
    · refine Nat.min_eq_right (hmore count.toNat ?_)
      unfold Clamped at hclamped
      rcases hsize with rfl | rfl | rfl <;> omega
  · rintro ⟨hclamped, hwraps⟩
    unfold Clamped at hclamped
    unfold wanted
    rw [if_neg fun hneg => hclamped (Or.inl hneg)]
    refine Nat.min_eq_right (hmore count.toNat ?_)
    rcases hsize with rfl | rfl | rfl <;> omega
  · intro hclamped hwraps
    have hfew : ¬(2 : Int) ^ 32 ≤ p + count * size := fun h => hwraps ⟨hclamped, h⟩
    unfold Clamped at hclamped
    unfold wanted whole
    rw [if_neg fun hneg => hclamped (Or.inl hneg)]
    rcases hsize with rfl | rfl | rfl <;> omega

/-- What is returned from an offset inside the buffer. -/
theorem outcome_inside_iff (hsize : size = 1 ∨ size = 2 ∨ size = 4) (hlen : len < 2 ^ 32)
    (hhigh : count < 2 ^ 31) (hfree : free ≤ luaiMaxstack) (hp : p < 2 ^ 31) (h : p + size ≤ len) :
    (outcome free len size p count =
      if wanted len size p count ≤ free then some (wanted len size p count) else none) ↔
      (Clamped len size p count → whole len size p < 2 ^ 31) ∧
        (Wraps len size p count → free < whole len size p) := by
  obtain ⟨hclamp, hwrap, hplain⟩ := @wanted_inside _ _ _ count hsize hlen h
  have hroom : free ≤ 1000000 := hfree
  rw [outcome_inside hsize hlen h]
  by_cases hclamped : Clamped len size p count
  · have hnot : ¬Wraps len size p count := fun hw => hw.1 hclamped
    simp only [hclamped, if_true, hclamp hclamped, hnot, forall_const, IsEmpty.forall_iff, and_true]
    by_cases hbig : 2 ^ 31 ≤ whole len size p
    · rw [if_pos hbig, if_neg (by omega)]
      exact iff_of_false (by simp) (by omega)
    · rw [if_neg hbig]
      refine iff_of_true ?_ (by omega)
      split_ifs <;> first | rfl | omega
  · rw [if_neg hclamped]
    by_cases hwraps : Wraps len size p count
    · have hlarge : (free : Int) < count := by
        obtain ⟨-, hend⟩ := hwraps
        rcases hsize with rfl | rfl | rfl <;> omega
      simp only [hclamped, hwraps, hwrap hwraps, hlarge, if_true, forall_const,
        IsEmpty.forall_iff, true_and]
      split_ifs <;> simp <;> omega
    · have hcount : 0 ≤ count := by
        unfold Clamped at hclamped
        omega
      simp only [hclamped, hwraps, hplain hclamped hwraps, IsEmpty.forall_iff, and_self, iff_true]
      split_ifs <;> first | rfl | omega

/-- Nothing is returned from an offset inside the buffer. -/
theorem outcome_nothing_iff (hsize : size = 1 ∨ size = 2 ∨ size = 4) (hlen : len < 2 ^ 32)
    (hhigh : count < 2 ^ 31) (hfree : free ≤ luaiMaxstack) (h : p + size ≤ len) :
    outcome free len size p count = some 0 ↔
      count = 0 ∨ Clamped len size p count ∧ 2 ^ 31 ≤ whole len size p := by
  have hpos : 0 < whole len size p := Nat.div_pos (by omega) (by omega)
  have hroom : free ≤ 1000000 := hfree
  have hzero : count = 0 → ¬Clamped len size p count := by
    rintro rfl
    unfold Clamped
    omega
  rw [outcome_inside hsize hlen h]
  by_cases hclamped : Clamped len size p count
  · have hne : count ≠ 0 := fun h0 => hzero h0 hclamped
    rw [if_pos hclamped]
    split_ifs with hbig hfew
    · exact iff_of_true rfl (Or.inr ⟨hclamped, hbig⟩)
    · exact iff_of_false (by simp) (by tauto)
    · refine iff_of_false (fun h0 => ?_) (by tauto)
      rw [Option.some.injEq] at h0
      omega
  · have hcount : 0 ≤ count := by
      unfold Clamped at hclamped
      omega
    rw [if_neg hclamped]
    simp only [hclamped, false_and, or_false]
    split_ifs with hfew
    · exact iff_of_false (by simp) (by omega)
    · rw [Option.some.injEq]
      omega

/-- The elements are returned under the condition, and only then. -/
theorem outcome_iff {off : Nat} (hsize : size = 1 ∨ size = 2 ∨ size = 4) (hlen : len < 2 ^ 32)
    (hhigh : count < 2 ^ 31) (hfree : free ≤ luaiMaxstack) (hp : off % 2 ^ 32 < 2 ^ 31) :
    (outcome free len size (off % 2 ^ 32) count =
      if wanted len size off count ≤ free then some (wanted len size off count) else none) ↔
      Served free len size off count := by
  have hexpect : wanted len size off count = 0 →
      (if wanted len size off count ≤ free then some (wanted len size off count) else none) =
        some 0 := by
    intro hzero
    rw [hzero, if_pos (Nat.zero_le _)]
  by_cases hin : off % 2 ^ 32 + size ≤ len
  · have hlong : ¬len < size := by omega
    by_cases hoff : off < 2 ^ 32
    · have hsame : off % 2 ^ 32 = off := Nat.mod_eq_of_lt hoff
      rw [hsame] at hin hp ⊢
      rw [outcome_inside_iff hsize hlen hhigh hfree hp hin]
      constructor
      · intro h
        exact ⟨by rwa [hsame], fun hs => absurd hs hlong, fun hs => absurd hs hlong, fun _ _ => h,
          fun _ ho => by omega⟩
      · intro h
        exact h.same (by rwa [hsame]) hoff
    · rw [hexpect (wanted_eq_zero hsize (by omega)),
        outcome_nothing_iff hsize hlen hhigh hfree hin]
      constructor
      · intro h
        exact ⟨hp, fun hs => absurd hs hlong, fun hs => absurd hs hlong, fun _ ho => by omega,
          fun _ _ => h⟩
      · intro h
        exact h.other hin (by omega)
  · have hpast : off % 2 ^ 32 ≤ off := Nat.mod_le _ _
    rw [hexpect (wanted_eq_zero hsize (by omega))]
    by_cases hshort : len < size
    · by_cases hend : off % 2 ^ 32 ≤ len
      · rw [outcome_short hsize hhigh hfree hp hshort hend]
        constructor
        · intro h
          refine ⟨hp, fun _ hb => by omega, fun _ _ hw => ?_, fun hi => absurd hi hin,
            fun hi => absurd hi hin⟩
          rw [if_pos hw] at h
          cases h
        · intro h
          rw [if_neg (h.short hshort hend)]
      · rw [outcome_behind hsize hhigh hfree hp hshort (by omega)]
        constructor
        · intro h
          refine ⟨hp, fun _ _ => ?_, fun _ hb => absurd hb hend, fun hi => absurd hi hin,
            fun hi => absurd hi hin⟩
          by_contra hne
          rw [if_neg hne] at h
          cases h
        · intro h
          rw [if_pos (h.behind hshort (by omega))]
    · rw [outcome_past (by omega) (by omega)]
      refine iff_of_true rfl ⟨hp, fun hs => absurd hs hshort, fun hs => absurd hs hshort,
        fun hi => absurd hi hin, fun hi => absurd hi hin⟩

end Outcome

/-- The last element that is asked for ends in the buffer. -/
theorem wanted_le (t : Elem) {len off : Nat} (count : Int) (h : 0 < wanted len t.size off count) :
    off + wanted len t.size off count * t.size ≤ len := by
  have hle : wanted len t.size off count ≤ whole len t.size off := by
    unfold wanted
    split_ifs
    · exact Nat.le_refl _
    · exact Nat.min_le_right _ _
  have hmul : wanted len t.size off count * t.size ≤ whole len t.size off * t.size :=
    Nat.mul_le_mul_right _ hle
  have hwhole : whole len t.size off * t.size ≤ len - off := Nat.div_mul_le_self _ _
  have hsize : 0 < wanted len t.size off count * t.size :=
    Nat.mul_pos h (by rcases t.size_cases with hs | hs | hs <;> omega)
  omega

/-- For every buffer, offset and count: the elements are returned if and only if the
offset fits an `int` and neither the end of the buffer nor that of the elements wraps. -/
theorem serves_iff (stack : Stack) (t : Elem) (buf : LBuf) (off : Nat) (count : Int32) :
    Serves stack t buf off count.toInt ↔
      Served stack.free buf.len.toNat t.size off count.toInt := by
  have hlow : -2 ^ 31 ≤ count.toInt := count.le_toInt
  have hhigh : count.toInt < 2 ^ 31 := count.toInt_lt
  by_cases hp : off % 2 ^ 32 < 2 ^ 31
  · have heq := getVals_outcome stack t buf off count.toInt hp hlow hhigh
    have hiff := outcome_iff t.size_cases buf.len.toNat_lt hhigh stack.bound hp
    have hplace : ∀ c, 0 < c → c = wanted buf.len.toNat t.size off count.toInt →
        off % 2 ^ 32 = off := by
      rintro c hc rfl
      have hend := wanted_le t count.toInt hc
      have hlen := buf.len.toNat_lt
      exact Nat.mod_eq_of_lt (by omega)
    rw [← hiff]
    constructor
    · intro h
      have hresult := h.result
      rw [heq] at hresult
      split at hresult <;> rename_i hc <;> rw [hc]
      · split_ifs at hresult ⊢
        rfl
      · split_ifs at hresult ⊢
        have hlength := congrArg List.length (Except.ok.inj hresult)
        rw [elements_length, elements_length] at hlength
        rw [hlength]
    · intro h
      rw [h] at heq
      split_ifs at heq with hroom
      · generalize hw : wanted buf.len.toNat t.size off count.toInt = w at heq hroom
        refine ⟨?_, ?_⟩
        · rw [heq, hw, if_pos hroom]
          rcases Nat.eq_zero_or_pos w with rfl | hpos
          · rfl
          · rw [hplace w hpos hw.symm]
        · rw [heq]
          rcases Nat.eq_zero_or_pos w with rfl | hpos
          · exact inside_nil _ _
          · rw [hplace w hpos hw.symm]
            refine elementReads_inside t ?_
            subst hw
            exact wanted_le t count.toInt hpos
      · exact ⟨by rw [heq, if_neg hroom], by rw [heq]; exact inside_nil _ _⟩
  · have heq := getVals_negative stack t buf off (some count.toInt) hp
    refine iff_of_false (fun h => ?_) fun h => hp h.offset
    have hresult := h.result
    rw [heq] at hresult
    split_ifs at hresult
    cases hresult

/-- The Lua stack of a call with nothing else on it. -/
def wholeStack : Stack := ⟨luaiMaxstack, Nat.le_refl _⟩

/-- The error is raised though there is room for what is asked for. -/
theorem not_serves {stack : Stack} {t : Elem} {buf : LBuf} {off : Nat} {count : Int}
    (hp : off % 2 ^ 32 < 2 ^ 31) (hlow : -2 ^ 31 ≤ count) (hhigh : count < 2 ^ 31)
    (hout : outcome stack.free buf.len.toNat t.size (off % 2 ^ 32) count = none)
    (hroom : wanted buf.len.toNat t.size off count ≤ stack.free) :
    ¬Serves stack t buf off count := by
  intro h
  have hresult := h.result
  rw [getVals_outcome stack t buf off count hp hlow hhigh, hout, if_pos hroom] at hresult
  cases hresult

/-- An offset behind the end of a buffer that is shorter than an element, and a count
whose elements end where the buffer begins: both raise an error. -/
theorem not_served :
    ¬Serves wholeStack .u16 ⟨1, fun _ => 0⟩ 2 1 ∧
      ¬Serves wholeStack .u32 ⟨8, fun _ => 0⟩ 0 0x40000000 :=
  ⟨not_serves (by decide) (by decide) (by decide) (by decide) (by decide),
    not_serves (by decide) (by decide) (by decide) (by decide) (by decide)⟩

/-! ## Writing -/

/-- Values on the Lua stack. -/
structure Values where
  list : List Int
  bound : list.length ≤ luaiMaxstack

/-- What stands behind the buffer: nothing, or an offset (which may be nil) and values. -/
inductive SetArgs where
  | nothing
  | given (off : Option Int) (vals : Values)

def SetArgs.off : SetArgs → Option Int
  | .nothing => none
  | .given off _ => off

def SetArgs.vals : SetArgs → List Int
  | .nothing => []
  | .given _ vals => vals.list

/-- `lua_gettop(L) - 2`. -/
def SetArgs.count : SetArgs → Int
  | .nothing => -1
  | .given _ vals => vals.list.length

/-- The number of elements to write, as it is stored in an `int`. -/
def setCount (len size : Nat) (off count : Int) : Int :=
  if ((len : Int) - off) % 2 ^ 32 < count * size % 2 ^ 32 then
    (((len : Int) - off) % 2 ^ 32 / size).bmod (2 ^ 32)
  else count

/-- `set_vals`; a value that is not there is 0. No code makes a buffer read-only. -/
def setVals (t : Elem) (buf : LBuf) (args : SetArgs) : Except LbufError (LBuf × Int) :=
  let off := optInt args.off 0
  if off < 0 then .error .negativeOffset
  else if ((buf.len.toNat : Int) - t.size) % 2 ^ 32 < off then .ok (buf, 0)
  else
    let count := setCount buf.len.toNat t.size off args.count
    .ok ({ buf with
      bytes := forUp (fun i m => blit m (off.toNat + i * t.size) (encode t.size (args.vals.getD i 0)))
        count.toNat buf.bytes }, count)

section Setters

variable (buf : LBuf) (args : SetArgs)

def lbufSetI32 : Except LbufError (LBuf × Int) := setVals .i32 buf args

def lbufSetU32 : Except LbufError (LBuf × Int) := setVals .u32 buf args

def lbufSetI16 : Except LbufError (LBuf × Int) := setVals .i16 buf args

def lbufSetU16 : Except LbufError (LBuf × Int) := setVals .u16 buf args

def lbufSetI8 : Except LbufError (LBuf × Int) := setVals .i8 buf args

def lbufSetU8 : Except LbufError (LBuf × Int) := setVals .u8 buf args

end Setters

/-- The elements one after the other. -/
def encodeAll (t : Elem) (vals : List Int) : List UInt8 := vals.flatMap (encode t.size)

@[simp] theorem encodeAll_length (t : Elem) (vals : List Int) :
    (encodeAll t vals).length = vals.length * t.size := by
  induction vals with
  | nil => simp [encodeAll]
  | cons v vals ih =>
    have hcons : encodeAll t (v :: vals) = encode t.size v ++ encodeAll t vals := rfl
    rw [hcons, List.length_append, ih, encode_length, List.length_cons, Nat.add_mul]
    omega

/-- The loop writes the elements one after the other. -/
theorem forUp_blit (t : Elem) (m : Memory) (off count : Nat) (vals : List Int)
    (h : count ≤ vals.length) :
    forUp (fun i m => blit m (off + i * t.size) (encode t.size (vals.getD i 0))) count m =
      blit m off (encodeAll t (vals.take count)) := by
  induction count with
  | zero => exact (blit_nil m off).symm
  | succ count ih =>
    have hlast : vals.take (count + 1) = vals.take count ++ [vals.getD count 0] := by
      rw [List.take_add_one, List.getD_eq_getElem?_getD, List.getElem?_eq_getElem (by omega)]
      rfl
    have hlength : (encodeAll t (vals.take count)).length = count * t.size := by
      rw [encodeAll_length, List.length_take_of_le (by omega)]
    rw [forUp_succ, ih (by omega), ← hlength, blit_append, hlast]
    simp [encodeAll]

/-- The offset, where it is not negative. -/
def SetArgs.place (args : SetArgs) : Nat := (args.off.getD 0).toNat

/-- How many of the values fit. -/
def SetArgs.fitting (args : SetArgs) (len size : Nat) : Nat :=
  min args.vals.length (whole len size args.place)

/-- The values that fit are written and counted, and nothing outside the buffer changes. -/
structure Sets (t : Elem) (buf : LBuf) (args : SetArgs) (bytes : Memory) : Prop where
  result : setVals t buf args =
    .ok ({ buf with bytes := bytes }, (args.fitting buf.len.toNat t.size : Int))
  written : bytes =
    blit buf.bytes args.place (encodeAll t (args.vals.take (args.fitting buf.len.toNat t.size)))
  outside : ∀ o, buf.len.toNat ≤ o → bytes o = buf.bytes o

/-- The condition under which they are. The offset is taken modulo `2 ^ 32`. -/
def Settable (len size : Nat) : SetArgs → Prop
  | .nothing => len < size
  | .given off vals =>
    let off := (off.getD 0).toNat
    off % 2 ^ 32 < 2 ^ 31 ∧
      (vals.list = [] ∨ off < 2 ^ 32 ∧ (size ≤ len ∨ off ≤ len) ∨
        2 ^ 32 ≤ off ∧ len < off % 2 ^ 32 + size ∧ (size ≤ len ∨ off % 2 ^ 32 ≤ len))

/-- How many elements `set_vals` writes from an offset on. -/
def written (len size off : Nat) (count : Int) : Int :=
  if ((len : Int) - size) % 2 ^ 32 < off then 0 else setCount len size off count

section Written

variable {len size p n : Nat} (hsize : size = 1 ∨ size = 2 ∨ size = 4) (hlen : len < 2 ^ 32)
  (hp : p < 2 ^ 31) (hn : n ≤ luaiMaxstack)

include hsize hlen hp hn

theorem written_eq :
    written len size p n =
      if len < size ∧ len < p then (n : Int) else (min n (whole len size p) : Nat) := by
  have hstack : n ≤ 1000000 := hn
  by_cases hpast : ((len : Int) - size) % 2 ^ 32 < p
  · have hzero : whole len size p = 0 := whole_eq_zero hsize (by omega)
    unfold written
    rw [if_pos hpast, if_neg (by omega), hzero]
    simp
  · unfold written setCount
    rw [if_neg hpast]
    by_cases hend : p ≤ len
    · have hcast := whole_cast hsize hlen hend
      have hmod : ((len : Int) - p) % 2 ^ 32 = len - p := by omega
      rw [hcast, bmod_natCast, hmod, if_neg (by omega : ¬(len < size ∧ len < p))]
      have hproduct : ((n : Int) * size) % 2 ^ 32 = n * size := by
        rcases hsize with rfl | rfl | rfl <;> omega
      have hdiv : whole len size p = (len - p) / size := rfl
      rw [hproduct]
      by_cases hmore : (len : Int) - p < n * size
      · have hle : whole len size p ≤ n := by
          rw [hdiv]
          rcases hsize with rfl | rfl | rfl <;> omega
        have hmodulo : whole len size p % 2 ^ 32 = whole len size p := Nat.mod_eq_of_lt (by omega)
        rw [if_pos hmore, hmodulo, if_pos (by omega), Nat.min_eq_right hle]
      · have hle : n ≤ whole len size p := by
          rw [hdiv]
          rcases hsize with rfl | rfl | rfl <;> omega
        rw [if_neg hmore, Nat.min_eq_left hle]
    · have hless : ¬((len : Int) - p) % 2 ^ 32 < (n : Int) * size % 2 ^ 32 := by
        rcases hsize with rfl | rfl | rfl <;> omega
      rw [if_neg hless, if_pos (by omega)]

end Written

section Setting

variable (t : Elem) (buf : LBuf) (off : Option Int) (vals : Values) (hoff : 0 ≤ off.getD 0)

theorem optInt_place {off : Option Int} (hoff : 0 ≤ off.getD 0) :
    optInt off 0 = optInt (some ((off.getD 0).toNat : Int)) 0 := by
  unfold optInt
  rw [Option.getD_some, Int.toNat_of_nonneg hoff]

include hoff in
theorem setVals_negative (h : ¬(off.getD 0).toNat % 2 ^ 32 < 2 ^ 31) :
    setVals t buf (.given off vals) = .error .negativeOffset := by
  have hplace := optInt_offset (off.getD 0).toNat 0
  rw [← optInt_place hoff, if_neg h] at hplace
  unfold setVals
  simp only [SetArgs.off, hplace]
  rw [if_pos (by omega)]

include hoff in
/-- As many elements as fit are written behind each other. -/
theorem setVals_given (h : (off.getD 0).toNat % 2 ^ 32 < 2 ^ 31) (c : Nat)
    (hc : written buf.len.toNat t.size ((off.getD 0).toNat % 2 ^ 32) vals.list.length = c)
    (hle : c ≤ vals.list.length) :
    setVals t buf (.given off vals) =
      .ok (⟨buf.len, blit buf.bytes ((off.getD 0).toNat % 2 ^ 32)
        (encodeAll t (vals.list.take c))⟩, (c : Int)) := by
  have hplace := optInt_offset (off.getD 0).toNat 0
  rw [← optInt_place hoff, if_pos h] at hplace
  unfold written at hc
  unfold setVals
  simp only [SetArgs.off, SetArgs.count, SetArgs.vals, hplace]
  rw [if_neg (by omega)]
  split_ifs at hc ⊢ with hpast
  · have hzero : c = 0 := by omega
    subst hzero
    have hnone : encodeAll t (vals.list.take 0) = [] := rfl
    rw [hnone, blit_nil]
    rfl
  · rw [hc, Int.toNat_natCast, Int.toNat_natCast, forUp_blit t _ _ _ _ hle]

end Setting

/-- The whole elements end in the buffer. -/
theorem whole_le {len size off : Nat} (h : off ≤ len) : off + whole len size off * size ≤ len := by
  have hle : whole len size off * size ≤ len - off := Nat.div_mul_le_self _ _
  omega

theorem setVals_nothing (t : Elem) (buf : LBuf) :
    setVals t buf .nothing =
      .ok (⟨buf.len, forUp (fun i m => blit m (i * t.size) (encode t.size 0))
        (setCount buf.len.toNat t.size 0 (-1)).toNat buf.bytes⟩,
          setCount buf.len.toNat t.size 0 (-1)) := by
  have hzero : optInt SetArgs.nothing.off 0 = 0 := by decide
  have hroom : ¬((buf.len.toNat : Int) - t.size) % 2 ^ 32 < 0 := by omega
  unfold setVals
  simp only [hzero]
  rw [if_neg (by omega), if_neg hroom]
  simp [SetArgs.count, SetArgs.vals]

theorem setCount_nothing {len size : Nat} (hsize : size = 1 ∨ size = 2 ∨ size = 4)
    (hlen : len < 2 ^ 32) : setCount len size 0 (-1) = 0 ↔ len < size := by
  have hcast := whole_cast (p := 0) hsize hlen (Nat.zero_le _)
  have hwhole : whole len size 0 = len / size := rfl
  have hlength : ((len : Int) - (0 : Int)) % 2 ^ 32 = len := by omega
  rw [Nat.cast_zero, hlength] at hcast
  have hmod : len / size % 2 ^ 32 = len / size :=
    Nat.mod_eq_of_lt (Nat.lt_of_le_of_lt (Nat.div_le_self _ _) hlen)
  have hminus : (-1 : Int) * size % 2 ^ 32 = 2 ^ 32 - size := by
    rcases hsize with rfl | rfl | rfl <;> decide
  unfold setCount
  rw [hlength, hcast, bmod_natCast, hwhole, hmod, hminus]
  by_cases hless : (len : Int) < 2 ^ 32 - size
  · rw [if_pos hless]
    rcases hsize with rfl | rfl | rfl <;> split_ifs <;> omega
  · rw [if_neg hless]
    omega

/-- Nothing is written when no value fits. -/
theorem sets_none {t : Elem} {buf : LBuf} {args : SetArgs}
    (hfit : args.fitting buf.len.toNat t.size = 0) :
    (∃ bytes, Sets t buf args bytes) ↔ setVals t buf args = .ok (buf, 0) := by
  have hblit : blit buf.bytes args.place
      (encodeAll t (args.vals.take (args.fitting buf.len.toNat t.size))) = buf.bytes := by
    rw [hfit]
    exact blit_nil _ _
  constructor
  · rintro ⟨bytes, h⟩
    have hwritten := h.written
    have hresult := h.result
    rw [hwritten, hblit, hfit] at hresult
    exact hresult
  · intro h
    exact ⟨buf.bytes, by rw [h, hfit]; rfl, hblit.symm, fun _ _ => rfl⟩

theorem sets_nothing_iff (t : Elem) (buf : LBuf) :
    (∃ bytes, Sets t buf .nothing bytes) ↔ buf.len.toNat < t.size := by
  have hcount := setCount_nothing t.size_cases buf.len.toNat_lt
  rw [sets_none (Nat.zero_min _), setVals_nothing, ← hcount]
  constructor
  · intro h
    exact (Prod.mk.inj (Except.ok.inj h)).2
  · intro h
    rw [h]
    rfl

section Given

variable {t : Elem} {buf : LBuf} {off : Option Int} {vals : Values} (hoff : 0 ≤ off.getD 0)
  (hp : (off.getD 0).toNat % 2 ^ 32 < 2 ^ 31)

include hoff hp

/-- Behind the end of a buffer that is shorter than an element the values are written. -/
theorem sets_behind_iff (hshort : buf.len.toNat < t.size)
    (hend : buf.len.toNat < (off.getD 0).toNat % 2 ^ 32) :
    (∃ bytes, Sets t buf (.given off vals) bytes) ↔ vals.list = [] := by
  have hpast : (off.getD 0).toNat % 2 ^ 32 ≤ (off.getD 0).toNat := Nat.mod_le _ _
  have hfit : SetArgs.fitting (.given off vals) buf.len.toNat t.size = 0 := by
    have hzero : whole buf.len.toNat t.size (off.getD 0).toNat = 0 :=
      whole_eq_zero t.size_cases (by omega)
    exact (congrArg _ hzero).trans (Nat.min_zero _)
  have hwritten := written_eq t.size_cases buf.len.toNat_lt hp vals.bound
  rw [if_pos ⟨hshort, hend⟩] at hwritten
  rw [sets_none hfit, setVals_given t buf off vals hoff hp vals.list.length hwritten (Nat.le_refl _)]
  constructor
  · intro h
    have hcount := (Prod.mk.inj (Except.ok.inj h)).2
    exact List.length_eq_zero_iff.mp (by omega)
  · intro h
    rw [h]
    have hnone : encodeAll t (List.take (List.length ([] : List Int)) []) = [] := rfl
    rw [hnone, blit_nil]
    rfl

theorem setVals_fitting (vals : Values)
    (h : ¬(buf.len.toNat < t.size ∧ buf.len.toNat < (off.getD 0).toNat % 2 ^ 32)) :
    setVals t buf (.given off vals) =
      .ok (⟨buf.len, blit buf.bytes ((off.getD 0).toNat % 2 ^ 32) (encodeAll t (vals.list.take
        (min vals.list.length (whole buf.len.toNat t.size ((off.getD 0).toNat % 2 ^ 32)))))⟩,
          (min vals.list.length (whole buf.len.toNat t.size ((off.getD 0).toNat % 2 ^ 32)) : Nat)) := by
  have hwritten := written_eq t.size_cases buf.len.toNat_lt hp vals.bound
  rw [if_neg h] at hwritten
  exact setVals_given t buf off vals hoff hp _ hwritten (Nat.min_le_left _ _)

/-- Elsewhere the values that fit are written. -/
theorem sets_same (h : ¬(buf.len.toNat < t.size ∧ buf.len.toNat < (off.getD 0).toNat % 2 ^ 32))
    (hsmall : (off.getD 0).toNat < 2 ^ 32) : ∃ bytes, Sets t buf (.given off vals) bytes := by
  have hset := setVals_fitting hoff hp vals h
  have hsame : (off.getD 0).toNat % 2 ^ 32 = (off.getD 0).toNat := Nat.mod_eq_of_lt hsmall
  rw [hsame] at hset
  refine ⟨_, hset, rfl, fun o ho => ?_⟩
  by_cases hend : (off.getD 0).toNat ≤ buf.len.toNat
  · refine blit_outside _ _ _ _ (Or.inr (Nat.le_trans ?_ ho))
    have hfit : min vals.list.length (whole buf.len.toNat t.size (off.getD 0).toNat) * t.size ≤
        whole buf.len.toNat t.size (off.getD 0).toNat * t.size :=
      Nat.mul_le_mul_right _ (Nat.min_le_right _ _)
    have hwhole := @whole_le _ t.size _ hend
    rw [encodeAll_length, List.length_take_of_le (Nat.min_le_left _ _)]
    omega
  · have hzero : whole buf.len.toNat t.size (off.getD 0).toNat = 0 :=
      whole_eq_zero t.size_cases (by omega)
    have hnone : encodeAll t (vals.list.take 0) = [] := rfl
    rw [hzero, Nat.min_zero, hnone, blit_nil]

/-- An offset that is too large for an `int` must lead where nothing fits. -/
theorem sets_other_iff (h : ¬(buf.len.toNat < t.size ∧ buf.len.toNat < (off.getD 0).toNat % 2 ^ 32))
    (hlarge : 2 ^ 32 ≤ (off.getD 0).toNat) :
    (∃ bytes, Sets t buf (.given off vals) bytes) ↔
      vals.list = [] ∨ buf.len.toNat < (off.getD 0).toNat % 2 ^ 32 + t.size := by
  have hlen := buf.len.toNat_lt
  have hfit : SetArgs.fitting (.given off vals) buf.len.toNat t.size = 0 := by
    have hzero : whole buf.len.toNat t.size (off.getD 0).toNat = 0 :=
      whole_eq_zero t.size_cases (by omega)
    exact (congrArg _ hzero).trans (Nat.min_zero _)
  rw [sets_none hfit, setVals_fitting hoff hp vals h]
  constructor
  · intro hset
    have hcount := (Prod.mk.inj (Except.ok.inj hset)).2
    by_cases hnil : vals.list = []
    · exact Or.inl hnil
    · have hpos : 0 < vals.list.length := List.length_pos_iff.mpr hnil
      have hwhole : (buf.len.toNat - (off.getD 0).toNat % 2 ^ 32) / t.size = 0 := by
        unfold whole at hcount
        omega
      rcases t.size_cases with hs | hs | hs <;> rw [hs] at hwhole ⊢ <;> omega
  · intro hfits
    have hcount : min vals.list.length
        (whole buf.len.toNat t.size ((off.getD 0).toNat % 2 ^ 32)) = 0 := by
      rcases hfits with hnil | hpast
      · rw [hnil, List.length_nil, Nat.zero_min]
      · rw [whole_eq_zero t.size_cases hpast, Nat.min_zero]
    have hnone : encodeAll t (vals.list.take 0) = [] := rfl
    rw [hcount, hnone, blit_nil]
    rfl

end Given

end LbufValues
