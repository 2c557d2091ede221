import Mathlib.Data.Nat.Bitwise

/-!
# Byte-addressed memory

A memory is a total function from offsets to bytes, so an accessor that is
handed a bare pointer can be written down without knowing how long the buffer
behind it is. Bounds are stated where a buffer with a length enters. Besides
bytes, a memory is read as a set of addressed bits: bit `j` of the byte at
offset `o` has the address `(o, j)`.
-/

namespace ByteMemory

/-- The bytes seen from a pointer on. -/
abbrev Memory := Nat → UInt8

def put (m : Memory) (o : Nat) (b : UInt8) : Memory := fun i => if i = o then b else m i

@[simp] theorem put_same (m : Memory) (o : Nat) (b : UInt8) : put m o b o = b := by simp [put]

@[simp] theorem put_other (m : Memory) (o i : Nat) (b : UInt8) (h : i ≠ o) :
    put m o b i = m i := by simp [put, h]

/-- The same bytes seen from `base` on. -/
def view (m : Memory) (base : Nat) : Memory := fun i => m (base + i)

@[simp] theorem view_apply (m : Memory) (base i : Nat) : view m base i = m (base + i) := rfl

/-- The `n` bytes from offset `o` on. -/
def slice (m : Memory) (o n : Nat) : List UInt8 := (List.range n).map (fun i => m (o + i))

@[simp] theorem slice_zero (m : Memory) (o : Nat) : slice m o 0 = [] := rfl

@[simp] theorem slice_length (m : Memory) (o n : Nat) : (slice m o n).length = n := by
  simp [slice]

theorem slice_append (m : Memory) (o a b : Nat) :
    slice m o (a + b) = slice m o a ++ slice m (o + a) b := by
  simp [slice, List.range_add, Function.comp_def, Nat.add_assoc]

theorem slice_congr {m m' : Memory} {o n : Nat} (h : ∀ i, i < n → m (o + i) = m' (o + i)) :
    slice m o n = slice m' o n := by
  apply List.map_congr_left
  intro i hi
  exact h i (List.mem_range.mp hi)

/-- Copy a list of bytes to offset `o`. -/
def blit (m : Memory) (o : Nat) (bs : List UInt8) : Memory :=
  fun i => if o ≤ i ∧ i < o + bs.length then bs.getD (i - o) 0 else m i

theorem blit_inside (m : Memory) (o : Nat) (bs : List UInt8) (i : Nat) (h : i < bs.length) :
    blit m o bs (o + i) = bs.getD i 0 := by
  simp [blit, h]

theorem blit_outside (m : Memory) (o : Nat) (bs : List UInt8) (i : Nat)
    (h : i < o ∨ o + bs.length ≤ i) : blit m o bs i = m i := by
  simp only [blit]
  split
  · omega
  · rfl

@[simp] theorem blit_nil (m : Memory) (o : Nat) : blit m o [] = m :=
  funext fun i => blit_outside m o [] i (by simp; omega)

/-- What was copied is read back. -/
theorem slice_blit_same (m : Memory) (o : Nat) (bs : List UInt8) :
    slice (blit m o bs) o bs.length = bs := by
  apply List.ext_getElem
  · simp
  · intro i hi hi'
    simp [slice, blit_inside m o bs i hi', hi']

/-- A slice that ends before the copied bytes does not see them. -/
theorem slice_blit_before (m : Memory) (o p n : Nat) (bs : List UInt8) (h : o + n ≤ p) :
    slice (blit m p bs) o n = slice m o n :=
  slice_congr (fun i hi => blit_outside m p bs (o + i) (by omega))

/-- Copying just behind a slice extends it. -/
theorem slice_blit_extend (m : Memory) (o n : Nat) (bs : List UInt8) :
    slice (blit m (o + n) bs) o (n + bs.length) = slice m o n ++ bs := by
  rw [slice_append, slice_blit_before _ _ _ _ _ (Nat.le_refl _), slice_blit_same]

/-- Copying in two pieces is copying both at once. -/
theorem blit_append (m : Memory) (o : Nat) (as bs : List UInt8) :
    blit (blit m o as) (o + as.length) bs = blit m o (as ++ bs) := by
  funext i
  simp only [blit, List.length_append, List.getD_eq_getElem?_getD]
  by_cases hlow : o ≤ i ∧ i < o + as.length
  · rw [if_neg (by omega), if_pos hlow, if_pos (by omega), List.getElem?_append_left (by omega)]
  · by_cases hhigh : o + as.length ≤ i ∧ i < o + as.length + bs.length
    · rw [if_pos hhigh, if_pos (by omega), List.getElem?_append_right (by omega)]
      congr 2
      omega
    · rw [if_neg hhigh, if_neg hlow, if_neg (by omega)]

/-- The other byte of the same 16-bit word. -/
def mate (o : Nat) : Nat := if o % 2 = 0 then o + 1 else o - 1

theorem mate_mate (o : Nat) : mate (mate o) = o := by
  unfold mate
  split <;> split <;> omega

theorem mate_add_even (a o : Nat) (h : a % 2 = 0) : mate (a + o) = a + mate o := by
  unfold mate
  split <;> split <;> omega

/-- The first `len` bytes with the two bytes of every complete pair exchanged. -/
def swapPairs (len : Nat) (m : Memory) : Memory :=
  fun o => if o < len ∧ mate o < len then m (mate o) else m o

/-- Bit `a.2` of the byte at offset `a.1`. -/
def bit (m : Memory) (a : Nat × Nat) : Bool := (m a.1).toNat.testBit a.2

theorem bit_high (m : Memory) (a : Nat × Nat) (h : 8 ≤ a.2) : bit m a = false := by
  have hb : (m a.1).toNat < 2 ^ 8 := (m a.1).toNat_lt
  exact Nat.testBit_lt_two_pow (Nat.lt_of_lt_of_le hb (Nat.pow_le_pow_right (by decide) h))

theorem bit_congr {m m' : Memory} {a : Nat × Nat} (h : m a.1 = m' a.1) :
    bit m a = bit m' a := by simp [bit, h]

/-- Two bytes with the same eight bits are the same byte. -/
theorem byte_eq_of_bits {m m' : Memory} {o : Nat} (h : ∀ j, j < 8 → bit m (o, j) = bit m' (o, j)) :
    m o = m' o := by
  apply UInt8.toNat_inj.mp
  apply Nat.eq_of_testBit_eq
  intro j
  by_cases hj : j < 8
  · exact h j hj
  · have hhigh : 8 ≤ j := Nat.not_lt.mp hj
    exact (bit_high m (o, j) hhigh).trans (bit_high m' (o, j) hhigh).symm

end ByteMemory
