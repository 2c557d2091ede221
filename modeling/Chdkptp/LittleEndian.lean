import Mathlib.Algebra.Group.Nat.Defs
import Mathlib.Algebra.Ring.Int.Defs

/-!
# Little endian numbers

The bytes of a natural number, the lowest first, and of an integer in two's
complement. Both are lists of a fixed length, so that concatenated numbers are read
back from slices.
-/

namespace LittleEndian

def bytesOf : (size n : Nat) → List UInt8
  | 0, _ => []
  | size + 1, n => UInt8.ofNat n :: bytesOf size (n / 256)

def natOf : List UInt8 → Nat
  | [] => 0
  | b :: bs => b.toNat + 256 * natOf bs

@[simp] theorem bytesOf_length (size n : Nat) : (bytesOf size n).length = size := by
  induction size generalizing n with
  | zero => rfl
  | succ size ih => simp [bytesOf, ih]

theorem natOf_lt (bs : List UInt8) : natOf bs < 256 ^ bs.length := by
  induction bs with
  | nil => decide
  | cons b bs ih =>
    have hb : b.toNat < 256 := b.toNat_lt
    rw [natOf, List.length_cons, Nat.pow_succ]
    omega

theorem natOf_bytesOf (size n : Nat) : natOf (bytesOf size n) = n % 256 ^ size := by
  induction size generalizing n with
  | zero => simp [bytesOf, natOf, Nat.mod_one]
  | succ size ih =>
    have hbyte : (UInt8.ofNat n).toNat = n % 256 := rfl
    rw [bytesOf, natOf, ih, hbyte, Nat.pow_succ, Nat.mul_comm (256 ^ size), Nat.mod_mul]

/-- Bytes are the bytes of the number that they are read as. -/
theorem bytesOf_natOf (bs : List UInt8) : bytesOf bs.length (natOf bs) = bs := by
  induction bs with
  | nil => rfl
  | cons b bs ih =>
    have hb : b.toNat < 256 := b.toNat_lt
    have hrest : (b.toNat + 256 * natOf bs) / 256 = natOf bs := by omega
    have hbyte : UInt8.ofNat (b.toNat + 256 * natOf bs) = b := by
      apply UInt8.toNat_inj.mp
      rw [UInt8.toNat_ofNat']
      omega
    rw [natOf, List.length_cons, bytesOf, hrest, ih, hbyte]

/-! ## Two's complement -/

def encode (size : Nat) (v : Int) : List UInt8 := bytesOf size (v % (256 ^ size : Nat)).toNat

def decode (signed : Bool) (bs : List UInt8) : Int :=
  if signed then (natOf bs : Int).bmod (256 ^ bs.length) else natOf bs

/-- The integers that so many bytes can hold. -/
def InRange (signed : Bool) (size : Nat) (v : Int) : Prop :=
  if signed then -(256 ^ size : Nat) ≤ v * 2 ∧ v * 2 < (256 ^ size : Nat)
  else 0 ≤ v ∧ v < (256 ^ size : Nat)

@[simp] theorem encode_length (size : Nat) (v : Int) : (encode size v).length = size :=
  bytesOf_length _ _

theorem natOf_encode (size : Nat) (v : Int) :
    (natOf (encode size v) : Int) = v % (256 ^ size : Nat) := by
  have hpos : (0 : Int) < (256 ^ size : Nat) := by exact_mod_cast Nat.pow_pos (by decide)
  have hnonneg := Int.emod_nonneg v (Int.ne_of_gt hpos)
  have hlt := Int.emod_lt_of_pos v hpos
  rw [encode, natOf_bytesOf, Nat.mod_eq_of_lt (by omega), Int.toNat_of_nonneg hnonneg]

/-- What is encoded is decoded, if it is in range. -/
theorem decode_encode {signed : Bool} {size : Nat} {v : Int} (h : InRange signed size v) :
    decode signed (encode size v) = v := by
  unfold decode
  rw [natOf_encode, encode_length]
  cases signed with
  | false =>
    obtain ⟨hnonneg, hlt⟩ : 0 ≤ v ∧ v < (256 ^ size : Nat) := h
    simpa using Int.emod_eq_of_lt hnonneg hlt
  | true =>
    obtain ⟨hlow, hhigh⟩ : -(256 ^ size : Nat) ≤ v * 2 ∧ v * 2 < (256 ^ size : Nat) := h
    rw [if_pos rfl, Int.emod_bmod]
    exact Int.bmod_eq_of_le_mul_two hlow hhigh

/-- What is decoded is encoded, as anything else. -/
theorem encode_decode (signed : Bool) (bs : List UInt8) :
    encode bs.length (decode signed bs) = bs := by
  have hlt := natOf_lt bs
  have hmod : decode signed bs % (256 ^ bs.length : Nat) = natOf bs := by
    have hsame : (natOf bs : Int) % (256 ^ bs.length : Nat) = natOf bs := by
      exact_mod_cast Nat.mod_eq_of_lt hlt
    unfold decode
    cases signed with
    | false => exact hsame
    | true => rw [if_pos rfl, Int.bmod_emod, hsame]
  rw [encode, hmod, Int.toNat_natCast, bytesOf_natOf]

end LittleEndian
