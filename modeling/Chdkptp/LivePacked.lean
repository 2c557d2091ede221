import Chdkptp.Lbuf
import Chdkptp.LivePlanes

/-!
# Packed images

`pimg:to_lbuf_packed_rgb` and `pimg:to_lbuf_packed_rgba` put the samples of the planes
together pixel by pixel, from the last row of the buffer up. A buffer that has the right
length is used again.
-/

namespace LivePacked

open ByteMemory LivePixel LiveImage LivePlanes Lbuf

/-- `*p++` for the samples that the planes have at one place. -/
def packedPixel (im : Pimg) (alpha : Bool) (k : Nat) : Pixel :=
  [im.data k, im.data (im.size + k), im.data (2 * im.size + k)] ++
    if alpha then [if im.alpha then im.data (3 * im.size + k) else 255] else []

/-- The offset of the row that `y`, which counts down to 1, stands for. -/
def packedRow (im : Pimg) (alpha : Bool) (y : Nat) : Nat :=
  (y - 1) * im.width * planesOf alpha % 2 ^ 32

/-- What the loops of `pimg_to_packed` store. -/
def packStores (im : Pimg) (alpha : Bool) : List (Nat × UInt8) :=
  (List.range im.height).flatMap fun i => (List.range im.width).flatMap fun x =>
    pixelStores 1 (packedRow im alpha (im.height - i) + x * planesOf alpha)
      (packedPixel im alpha (i * im.width + x))

/-- `data_size` -/
def packedSize (im : Pimg) (alpha : Bool) : Nat := im.width * im.height * planesOf alpha % 2 ^ 32

/-- `pimg_to_packed` -/
def pimgToPacked (malloc : Nat → Option Memory) (im : Pimg) (buf : Option LBuf) (alpha : Bool) :
    Option LBuf :=
  let target :=
    match buf.filter fun b => b.len.toNat = packedSize im alpha with
    | some buf => some buf
    | none => (malloc (packedSize im alpha)).map fun bytes =>
        { len := UInt32.ofNat (packedSize im alpha), bytes }
  target.map fun buf => { buf with bytes := store (packStores im alpha) buf.bytes }

theorem packedSize_lt (im : Pimg) (alpha : Bool) : packedSize im alpha < 2 ^ 32 :=
  Nat.mod_lt _ (by decide)

/-- The length is that of the image, whether the buffer is new or not. -/
theorem pimgToPacked_len {malloc : Nat → Option Memory} {im : Pimg} {buf : Option LBuf} {alpha : Bool}
    {packed : LBuf} (h : pimgToPacked malloc im buf alpha = some packed) :
    packed.len.toNat = packedSize im alpha := by
  obtain ⟨target, htarget, rfl⟩ := Option.map_eq_some_iff.mp h
  split at htarget
  · rename_i old hold
    obtain rfl := Option.some.inj htarget
    exact of_decide_eq_true (Option.filter_eq_some_iff.mp hold).2
  · obtain ⟨bytes, -, rfl⟩ := Option.map_eq_some_iff.mp htarget
    exact UInt32.toNat_ofNat_of_lt' (packedSize_lt im alpha)

/-! ## The bytes of a pixel -/

theorem packedPixel_length (im : Pimg) (alpha : Bool) (k : Nat) :
    (packedPixel im alpha k).length = planesOf alpha := by
  cases alpha <;> rfl

theorem packedPixel_getD {im : Pimg} {alpha : Bool} (halpha : alpha = true → im.alpha = true) {c : Nat}
    (hc : c < planesOf alpha) (k : Nat) : (packedPixel im alpha k).getD c 0 = im.data (c * im.size + k) := by
  have hcases : c = 0 ∨ c = 1 ∨ c = 2 ∨ alpha = true ∧ c = 3 := by
    cases alpha with
    | false =>
      have hthree : c < 3 := hc
      omega
    | true =>
      have hfour : c < 4 := hc
      rw [and_iff_right rfl]
      omega
  rcases hcases with rfl | rfl | rfl | ⟨rfl, rfl⟩
  · simp [packedPixel]
  · simp [packedPixel]
  · simp [packedPixel]
  · simp [packedPixel, halpha rfl]

/-- A place in rows of a fixed length. -/
theorem grid_inj {d a b j c : Nat} (hj : j < d) (hc : c < d) (h : a * d + j = b * d + c) :
    a = b ∧ j = c := by
  have hrow : (a * d + j) / d = (b * d + c) / d := by rw [h]
  have hcolumn : (a * d + j) % d = (b * d + c) % d := by rw [h]
  rw [Nat.add_comm (a * d), Nat.add_comm (b * d)] at hrow hcolumn
  rw [Nat.add_mul_div_right _ _ (by omega), Nat.add_mul_div_right _ _ (by omega),
    Nat.div_eq_of_lt hj, Nat.div_eq_of_lt hc] at hrow
  rw [Nat.add_mul_mod_self_right, Nat.add_mul_mod_self_right, Nat.mod_eq_of_lt hj,
    Nat.mod_eq_of_lt hc] at hcolumn
  omega

/-- Rows of a size that does not wrap are where they should be. -/
theorem packedRow_eq {im : Pimg} {alpha : Bool} (hfit : im.width * im.height * planesOf alpha < 2 ^ 32)
    {i : Nat} (hi : i < im.height) :
    packedRow im alpha (im.height - i) = (im.height - 1 - i) * im.width * planesOf alpha := by
  have hle : (im.height - 1 - i) * im.width ≤ im.width * im.height := by
    rw [Nat.mul_comm]
    exact Nat.mul_le_mul_left _ (by omega)
  have hlt := (Nat.mul_le_mul_right (planesOf alpha) hle).trans_lt hfit
  rw [packedRow, Nat.sub_right_comm, Nat.mod_eq_of_lt hlt]

theorem mem_packStores {im : Pimg} {alpha : Bool}
    (hfit : im.width * im.height * planesOf alpha < 2 ^ 32) {s : Nat × UInt8} :
    s ∈ packStores im alpha ↔ ∃ i < im.height, ∃ x < im.width, ∃ c < planesOf alpha,
      s = (((im.height - 1 - i) * im.width + x) * planesOf alpha + c,
        (packedPixel im alpha (i * im.width + x)).getD c 0) := by
  simp only [packStores, List.mem_flatMap, List.mem_range, mem_pixelStores, packedPixel_length,
    Nat.mul_one]
  refine exists_congr fun i => and_congr_right fun hi => exists_congr fun x =>
    and_congr_right fun hx => ?_
  rw [packedRow_eq hfit hi, ← Nat.add_mul]
  constructor
  · rintro ⟨c, hc, rfl⟩
    refine ⟨c, hc, ?_⟩
    rw [List.getD_eq_getElem _ _ (by rwa [packedPixel_length])]
  · rintro ⟨c, hc, rfl⟩
    refine ⟨c, hc, ?_⟩
    rw [List.getD_eq_getElem _ _ (by rwa [packedPixel_length])]

/-- The bytes of a pixel, counted from the top, come from the planes, which are filled from
the bottom. -/
theorem packed_byte {malloc : Nat → Option Memory} {im : Pimg} {buf : Option LBuf} {alpha : Bool}
    {packed : LBuf} (h : pimgToPacked malloc im buf alpha = some packed)
    (hfit : im.width * im.height * planesOf alpha < 2 ^ 32) {x y c : Nat} (hx : x < im.width)
    (hy : y < im.height) (hc : c < planesOf alpha) :
    packed.bytes ((y * im.width + x) * planesOf alpha + c) =
      (packedPixel im alpha ((im.height - 1 - y) * im.width + x)).getD c 0 := by
  obtain ⟨target, -, rfl⟩ := Option.map_eq_some_iff.mp h
  refine store_unique ((mem_packStores hfit).mpr
    ⟨im.height - 1 - y, by omega, x, hx, c, hc, ?_⟩) (fun s hs heq => ?_) _
  · rw [Nat.sub_sub_self (by omega)]
  · obtain ⟨i, hi, x', hx', c', hc', rfl⟩ := (mem_packStores hfit).mp hs
    obtain ⟨hplace, rfl⟩ := grid_inj hc' hc heq
    obtain ⟨hrow, rfl⟩ := grid_inj hx' hx hplace
    rw [← hrow, Nat.sub_sub_self (by omega)]

end LivePacked
