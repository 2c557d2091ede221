import Chdkptp.RawConvertPixel

/-!
# The black level of a converted image

`img:convert` shifts the black level with the count that it has computed for the
pixels, but without looking at its sign.
-/

namespace RawBlackLevel

open ByteMemory RawAccess RawLayout RawPixel Lbuf Rawimg RawConvert RawConvertPixel

/-! ## Shifting by a signed count -/

/-- The operands of a rotation: what is left of a value below `p * q`, and what falls out. -/
theorem fallen_eq_left_iff {p q b : Nat} (hb : b < p * q) :
    b / q = p * b % (p * q) ↔ b = 0 := by
  have hfallen : b / q < p := Nat.div_lt_of_lt_mul (by rwa [Nat.mul_comm])
  constructor
  · intro h
    rw [Nat.mul_mod_mul_left] at h
    have hsplit := Nat.div_add_mod b q
    cases hleft : b % q with
    | zero =>
      rw [hleft, Nat.mul_zero] at h
      rw [h, hleft, Nat.mul_zero] at hsplit
      exact hsplit.symm
    | succ r =>
      rw [hleft, Nat.mul_succ] at h
      omega
  · rintro rfl
    simp

theorem ofInt_count (n : Int) : (UInt32.ofInt n).toNat = (n % 2 ^ 32).toNat := by
  rw [UInt32.ofInt, UInt32.toNat_ofNat']
  have hlow := Int.emod_nonneg n (show (2 ^ 32 : Int) ≠ 0 by decide)
  have hhigh := Int.emod_lt_of_pos n (show (0 : Int) < 2 ^ 32 by decide)
  exact Nat.mod_eq_of_lt (by omega)

theorem shifted_of_nonneg {shift : Int} (h : 0 ≤ shift) (hlt : shift < 32) (b : UInt32) :
    (b >>> UInt32.ofInt shift).toNat = shifted shift b.toNat := by
  have hcount : (UInt32.ofInt shift).toNat % 32 = shift.toNat := by
    rw [ofInt_count]
    omega
  rw [shifted, if_neg (by omega), UInt32.toNat_shiftRight, hcount]

/-- The count is taken modulo 32. -/
theorem fallen_of_neg {shift : Int} (h : shift < 0) (hlt : -32 < shift) (b : UInt32) :
    (b >>> UInt32.ofInt shift).toNat = b.toNat / 2 ^ (32 - (-shift).toNat) := by
  have hcount : (UInt32.ofInt shift).toNat % 32 = 32 - (-shift).toNat := by
    rw [ofInt_count]
    omega
  rw [UInt32.toNat_shiftRight, hcount, Nat.shiftRight_eq_div_pow]

theorem shifted_of_neg {shift : Int} (h : shift < 0) (v : Nat) :
    shifted shift v = 2 ^ (-shift).toNat * v % 2 ^ 32 := by
  rw [shifted, if_pos h, Nat.shiftLeft_eq, Nat.mul_comm]

/-! ## Conversions -/

theorem format_bits (f : RawFormat) : 8 ≤ f.bpp ∧ f.bpp ≤ 16 := by cases f <;> decide

theorem convert_blackLevel {malloc : UInt32 → Option Memory} {img new : RawImage}
    {spec : ConvertSpec} {written : List (Nat × Nat)}
    (h : rawimgLuaConvert malloc img spec = .ok (new, written)) :
    new.blackLevel = img.blackLevel >>> UInt32.ofInt (specShift img spec) := by
  obtain ⟨_, up, down, lb, hendian, hup, hdown, hfmt, hlb, -⟩ := convert_ok h
  simp only [rawimgLuaConvert, bind, Except.bind, hendian, hup, hdown, hfmt, hlb] at h
  have hnew := congrArg (fun r => r.1.blackLevel) (Except.ok.inj h)
  rw [specShift, ← chosen_eq hup, ← chosen_eq hdown]
  exact hnew.symm

/-- Only bits for the values can be added, and only when the options say so. -/
theorem specShift_nonneg_iff (img : RawImage) (spec : ConvertSpec) :
    0 ≤ specShift img spec ↔ spec.bpp.toNat ≤ img.fmt.bpp ∨ chosen spec.valupmod .no = .no := by
  rw [specShift, shiftCount]
  cases chosen spec.valupmod .no <;> cases chosen spec.valdownmod .shift <;> simp <;> split <;> omega

section Converted

variable {malloc : UInt32 → Option Memory} {img new : RawImage} {spec : ConvertSpec}
  {written : List (Nat × Nat)}

theorem specShift_range (h : rawimgLuaConvert malloc img spec = .ok (new, written)) :
    -8 ≤ specShift img spec ∧ specShift img spec ≤ 8 := by
  obtain ⟨_, _, _, _, _, _, _, hfmt, -⟩ := convert_ok h
  have hbpp := rawimgFindFormat_bpp hfmt
  have hsource := format_bits img.fmt
  have htarget := format_bits new.fmt
  rw [specShift, shiftCount]
  split <;> split <;> omega

/-- The new black level is what the loops make of a pixel with the value of the old one. -/
def BlackLevelFollows (img new : RawImage) (shift : Int) : Prop :=
  new.blackLevel.toNat = shifted shift img.blackLevel.toNat

theorem follows_iff (h : rawimgLuaConvert malloc img spec = .ok (new, written)) :
    BlackLevelFollows img new (specShift img spec) ↔
      0 ≤ specShift img spec ∨ img.blackLevel = 0 := by
  obtain ⟨hlow, hhigh⟩ := specShift_range h
  have hb := img.blackLevel.toNat_lt
  rw [BlackLevelFollows, convert_blackLevel h]
  by_cases hsign : 0 ≤ specShift img spec
  · exact ⟨fun _ => .inl hsign, fun _ => shifted_of_nonneg hsign (by omega) _⟩
  · have hpow : 2 ^ (-specShift img spec).toNat * 2 ^ (32 - (-specShift img spec).toNat) = 2 ^ 32 := by
      rw [← Nat.pow_add]
      congr 1
      omega
    rw [fallen_of_neg (by omega) (by omega), shifted_of_neg (by omega), ← hpow,
      fallen_eq_left_iff (by rwa [hpow]), or_iff_right hsign, ← UInt32.toNat_inj, UInt32.toNat_zero]

/-- A shift to the left fills the bits that the target format has more. -/
theorem shifted_fits (h : rawimgLuaConvert malloc img spec = .ok (new, written))
    (hsign : specShift img spec < 0) {v : Nat} (hv : v < 2 ^ img.fmt.bpp) :
    shifted (specShift img spec) v < 2 ^ new.fmt.bpp := by
  obtain ⟨_, _, _, _, _, _, _, hfmt, -⟩ := convert_ok h
  have hbpp := rawimgFindFormat_bpp hfmt
  have hshift : specShift img spec < 0 →
      specShift img spec = (img.fmt.bpp : Int) - spec.bpp.toNat := by
    rw [specShift, shiftCount]
    split <;> split <;> omega
  have hcount : (-specShift img spec).toNat + img.fmt.bpp = new.fmt.bpp := by
    have hdiff := hshift hsign
    omega
  rw [shifted_of_neg hsign, ← hcount, Nat.pow_add]
  exact Nat.lt_of_le_of_lt (Nat.mod_le _ _) (Nat.mul_lt_mul_of_pos_left hv (Nat.two_pow_pos _))

/-- In the destination the value is stored in the bits of its format. -/
theorem stored_iff (h : rawimgLuaConvert malloc img spec = .ok (new, written))
    (hpixel : img.blackLevel.toNat < 2 ^ img.fmt.bpp) :
    new.blackLevel.toNat =
        shifted (specShift img spec) img.blackLevel.toNat % 2 ^ new.fmt.bpp ↔
      BlackLevelFollows img new (specShift img spec) ∧
        shifted (specShift img spec) img.blackLevel.toNat < 2 ^ new.fmt.bpp := by
  have hpos := Nat.two_pow_pos new.fmt.bpp
  by_cases hsign : 0 ≤ specShift img spec
  · have hfollows := (follows_iff h).mpr (.inl hsign)
    rw [and_iff_right hfollows]
    rw [BlackLevelFollows] at hfollows
    rw [hfollows]
    exact ⟨fun heq => heq ▸ Nat.mod_lt _ hpos, fun hlt => (Nat.mod_eq_of_lt hlt).symm⟩
  · have hfits := shifted_fits h (Int.not_le.mp hsign) hpixel
    rw [Nat.mod_eq_of_lt hfits, BlackLevelFollows, and_iff_left hfits]

end Converted

/-- The black level goes with the pixels exactly where they are not shifted to the left. -/
theorem convert_black_level_iff (malloc : UInt32 → Option Memory) (img new : RawImage)
    (spec : ConvertSpec) (written : List (Nat × Nat))
    (h : rawimgLuaConvert malloc img spec = .ok (new, written)) :
    (BlackLevelFollows img new (specShift img spec) ↔
      spec.bpp.toNat ≤ img.fmt.bpp ∨ chosen spec.valupmod .no = .no ∨ img.blackLevel = 0) ∧
    (img.blackLevel.toNat < 2 ^ img.fmt.bpp →
      (new.blackLevel.toNat =
          shifted (specShift img spec) img.blackLevel.toNat % 2 ^ new.fmt.bpp ↔
        BlackLevelFollows img new (specShift img spec) ∧
          shifted (specShift img spec) img.blackLevel.toNat < 2 ^ new.fmt.bpp)) := by
  refine ⟨?_, stored_iff h⟩
  rw [follows_iff h, specShift_nonneg_iff, or_assoc]

/-- An 8-bit image with black level 16. -/
def darkSpec : ImgSpec := { onePixelSpec with blackLevel := some 16 }

def shiftedToTenBits : ConvertSpec := { toTenBits with valupmod := .given .shift }

/-- A pixel of 16 becomes 64, the black level 0. -/
theorem black_level_lost : ∃ img new written, rawimgLuaBindLbuf darkSpec = .ok img ∧
    rawimgLuaConvert (fun _ => some (fun _ => 0)) img shiftedToTenBits = .ok (new, written) ∧
    shifted (specShift img shiftedToTenBits) 16 = 64 ∧ img.blackLevel = 16 ∧ new.blackLevel = 0 ∧
    ¬BlackLevelFollows img new (specShift img shiftedToTenBits) := by
  refine ⟨_, _, _, rfl, rfl, by decide, by decide, by decide, ?_⟩
  rw [BlackLevelFollows]
  decide

theorem convert_black_level_witness : ∃ img new written, rawimgLuaBindLbuf darkSpec = .ok img ∧
    rawimgLuaConvert (fun _ => some (fun _ => 0)) img shiftedToTenBits = .ok (new, written) ∧
    (BlackLevelFollows img new (specShift img shiftedToTenBits) ↔
      shiftedToTenBits.bpp.toNat ≤ img.fmt.bpp ∨ chosen shiftedToTenBits.valupmod .no = .no ∨
        img.blackLevel = 0) :=
  ⟨_, _, _, rfl, rfl, (convert_black_level_iff (fun _ => some (fun _ => 0)) _ _ shiftedToTenBits _
    rfl).1⟩

end RawBlackLevel
