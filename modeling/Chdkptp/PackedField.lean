import Chdkptp.ByteMemory
import Mathlib.Data.Nat.Bitwise

/-!
# Packed bit fields

A field of width `n` is a placement: it sends value bit `i` to a bit address.
Reading collects the bits. Writing is described by its effect on every bit of
the memory, so that the laws below hold for any code with that effect. Code
that writes an unmasked value may also or the value's excess bits into
addresses next to the field; `Overlaid` has a second width `w` for these.
-/

namespace PackedField

open ByteMemory

/-- Where the bits of a value live. -/
abbrev Placement := Nat → Nat × Nat

/-- The value of the `n`-bit field at `place`. -/
def read (m : Memory) (n : Nat) (place : Placement) : Nat :=
  Nat.ofBits (fun i : Fin n => bit m (place i))

theorem testBit_read (m : Memory) (n : Nat) (place : Placement) (i : Nat) :
    (read m n place).testBit i = (decide (i < n) && bit m (place i)) := by
  by_cases h : i < n
  · simp [read, Nat.testBit_ofBits_lt _ i h, h]
  · have hz := Nat.testBit_ofBits_ge (fun i : Fin n => bit m (place i)) i (by omega)
    simp [read, hz, h]

theorem read_lt (m : Memory) (n : Nat) (place : Placement) : read m n place < 2 ^ n :=
  Nat.ofBits_lt_two_pow _

/-- The field holds the low `n` bits of `v` exactly when each of its bits does. -/
theorem read_eq_mod_iff (m : Memory) (n : Nat) (place : Placement) (v : Nat) :
    read m n place = v % 2 ^ n ↔ ∀ i, i < n → bit m (place i) = v.testBit i := by
  constructor
  · intro h i hi
    have hb := congrArg (fun u => Nat.testBit u i) h
    simpa [testBit_read, Nat.testBit_mod_two_pow, hi] using hb
  · intro h
    apply Nat.eq_of_testBit_eq
    intro i
    rw [testBit_read, Nat.testBit_mod_two_pow]
    by_cases hi : i < n
    · simp [hi, h i hi]
    · simp [hi]

theorem read_congr {m m' : Memory} {n : Nat} {place place' : Placement}
    (h : ∀ i, i < n → bit m (place i) = bit m' (place' i)) :
    read m n place = read m' n place' := by
  apply Nat.eq_of_testBit_eq
  intro i
  rw [testBit_read, testBit_read]
  by_cases hi : i < n
  · simp [hi, h i hi]
  · simp [hi]

theorem bit_of_read_eq {m m' : Memory} {n : Nat} {place place' : Placement}
    (h : read m n place = read m' n place') {i : Nat} (hi : i < n) :
    bit m (place i) = bit m' (place' i) := by
  have hb := congrArg (fun u => Nat.testBit u i) h
  simpa [testBit_read, hi] using hb

/-- The effect of writing `v` into an `n`-bit field: the field's bits are
replaced, excess bits up to `w` are or-ed in, every other bit is kept. -/
structure Overlaid (m m' : Memory) (n w : Nat) (place : Placement) (v : Nat) : Prop where
  field : ∀ i, i < n → bit m' (place i) = v.testBit i
  spill : ∀ i, n ≤ i → i < w → bit m' (place i) = (bit m (place i) || v.testBit i)
  frame : ∀ a, (∀ i, i < w → a ≠ place i) → bit m' a = bit m a

theorem Overlaid.read_self {m m' : Memory} {n w : Nat} {place : Placement} {v : Nat}
    (h : Overlaid m m' n w place v) : read m' n place = v % 2 ^ n :=
  (read_eq_mod_iff m' n place v).mpr h.field

/-- A value that fits the field changes no bit outside it. -/
theorem Overlaid.frame_of_lt {m m' : Memory} {n w : Nat} {place : Placement} {v : Nat}
    (h : Overlaid m m' n w place v) (hv : v < 2 ^ n) (a : Nat × Nat)
    (ha : ∀ i, i < n → a ≠ place i) : bit m' a = bit m a := by
  by_cases hw : ∃ i, i < w ∧ a = place i
  · obtain ⟨i, hiw, rfl⟩ := hw
    have hni : n ≤ i := by
      by_contra hlt
      exact ha i (by omega) rfl
    have hz : v.testBit i = false :=
      Nat.testBit_lt_two_pow (Nat.lt_of_lt_of_le hv (Nat.pow_le_pow_right (by decide) hni))
    rw [h.spill i hni hiw, hz, Bool.or_false]
  · exact h.frame a (fun i hi he => hw ⟨i, hi, he⟩)

/-- Another field that shares no bit with the written one reads as before. -/
theorem Overlaid.read_other {m m' : Memory} {n w k : Nat} {place other : Placement} {v : Nat}
    (h : Overlaid m m' n w place v) (hv : v < 2 ^ n)
    (hd : ∀ i j, i < n → j < k → other j ≠ place i) : read m' k other = read m k other :=
  read_congr (fun j hj => h.frame_of_lt hv _ (fun i hi => hd i j hi hj))

/-- A field that the excess bits run into: they are or-ed into its low bits. -/
theorem Overlaid.read_spilled {m m' : Memory} {n w k : Nat} {place other : Placement} {v : Nat}
    (h : Overlaid m m' n w place v) (hk : w - n ≤ k)
    (hspill : ∀ j, n + j < w → other j = place (n + j))
    (honly : ∀ i j, i < w → j < k → other j = place i → i = n + j) :
    read m' k other = read m k other ||| v >>> n % 2 ^ (w - n) := by
  apply Nat.eq_of_testBit_eq
  intro j
  rw [Nat.testBit_or, testBit_read, testBit_read, Nat.testBit_mod_two_pow, Nat.testBit_shiftRight]
  by_cases hj : j < k
  · by_cases hw : n + j < w
    · have hin : j < w - n := by omega
      rw [hspill j hw, h.spill (n + j) (by omega) hw]
      simp [hj, hin]
    · have hout : ¬j < w - n := by omega
      have hkeep : bit m' (other j) = bit m (other j) := by
        apply h.frame
        intro i hi he
        have := honly i j hi hj he
        omega
      rw [hkeep]
      simp [hout]
  · have hout : ¬j < w - n := by omega
    simp [hj, hout]

/-- A field out of reach reads as before, whatever the value. -/
theorem Overlaid.read_far {m m' : Memory} {n w k : Nat} {place other : Placement} {v : Nat}
    (h : Overlaid m m' n w place v) (hd : ∀ i j, i < w → j < k → other j ≠ place i) :
    read m' k other = read m k other :=
  read_congr (fun j hj => h.frame _ (fun i hi => hd i j hi hj))

/-- What a write of `v` would leave as it is: the field already holds the low
bits, and the addresses next to it every excess bit that is set. -/
def Holds (m : Memory) (n w : Nat) (place : Placement) (v : Nat) : Prop :=
  ∀ i, i < w → bit m (place i) = v.testBit i ∨ (n ≤ i ∧ bit m (place i) = true)

instance (m : Memory) (n w : Nat) (place : Placement) (v : Nat) :
    Decidable (Holds m n w place v) := by
  unfold Holds; infer_instance

/-- A write leaves the whole memory as it is exactly when there is nothing to change. -/
theorem Overlaid.same_iff {m m' : Memory} {n w : Nat} {place : Placement} {v : Nat}
    (h : Overlaid m m' n w place v) : m' = m ↔ Holds m n w place v := by
  constructor
  · rintro rfl i hi
    by_cases hn : i < n
    · exact .inl (h.field i hn)
    · have hs := h.spill i (by omega) hi
      cases hv : v.testBit i
      · cases hb : bit m' (place i)
        · exact .inl rfl
        · exact .inr ⟨by omega, rfl⟩
      · rw [hv, Bool.or_true] at hs
        exact .inl hs
  · intro hh
    funext o
    apply byte_eq_of_bits
    intro j _
    by_cases hw : ∃ i, i < w ∧ (o, j) = place i
    · obtain ⟨i, hi, he⟩ := hw
      rw [he]
      by_cases hn : i < n
      · rw [h.field i hn]
        rcases hh i hi with hb | ⟨hle, -⟩
        · exact hb.symm
        · omega
      · rw [h.spill i (by omega) hi]
        rcases hh i hi with hb | ⟨-, hb⟩
        · rw [hb, Bool.or_self]
        · rw [hb, Bool.true_or]
    · exact h.frame _ (fun i hi he => hw ⟨i, hi, he⟩)

end PackedField
