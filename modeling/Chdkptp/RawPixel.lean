import Chdkptp.RawLayout
import Chdkptp.Lbuf

/-!
# Pixels of an image in a buffer

The accessors of one format on the pixels of one image: what a setter stores is
what the getter returns, other pixels and other blocks are left alone, and the
two byte orders of a depth are the same layout up to the byte order of 16-bit
words. An image occupies rows of `rowBytes` bytes at the start of `len` bytes.
-/

namespace RawPixel

open ByteMemory PackedField RawAccess RawLayout

/-! ## Geometry -/

/-- Pixel `(x, y)` lies in a row of `rowBytes` bytes inside the first `len` bytes. -/
structure InImage (f : RawFormat) (rowBytes len x y : Nat) : Prop where
  column : x * f.bpp < rowBytes * 8
  row : (y + 1) * rowBytes ≤ len

/-- The bytes of the block that holds pixel `(x, y)`. -/
def InBlock (f : RawFormat) (rowBytes x y o : Nat) : Prop :=
  y * rowBytes + x / f.blockPixels * f.blockBytes ≤ o ∧
    o < y * rowBytes + x / f.blockPixels * f.blockBytes + f.blockBytes

/-- The block of an in-image column ends inside the row. -/
theorem block_in_row (f : RawFormat) {rowBytes x : Nat} (hblock : f.blockBytes ∣ rowBytes)
    (hx : x * f.bpp < rowBytes * 8) :
    x / f.blockPixels * f.blockBytes + f.blockBytes ≤ rowBytes := by
  obtain ⟨c, rfl⟩ := hblock
  cases f <;> simp only [RawFormat.blockPixels, RawFormat.blockBytes, RawFormat.bpp] at hx ⊢ <;>
    omega

/-- In an image shorter than `2^32` bytes no address computation wraps. -/
theorem addr_eq (f : RawFormat) {rowBytes len x y i : Nat} (hblock : f.blockBytes ∣ rowBytes)
    (hlen : len < 2 ^ 32) (hin : InImage f rowBytes len x y) (hi : i < f.blockBytes) :
    f.addr rowBytes x y i = y * rowBytes + x / f.blockPixels * f.blockBytes + i := by
  have hb := block_in_row f hblock hin.column
  have hrow := hin.row
  rw [Nat.succ_mul] at hrow
  cases f <;> simp only [RawFormat.addr, blockAddr, indexAddr, RawFormat.blockPixels,
    RawFormat.blockBytes, RawFormat.bpp] at hb hi ⊢ <;> omega

/-- Positions counted in the row are positions counted in the block, displaced. -/
theorem position_eq (f : RawFormat) (x i : Nat) (hi : i < reach f x) :
    position f x i = x / f.blockPixels * f.blockBytes * 8 + position f (phase f x) i ∧
      position f (phase f x) i < f.blockBytes * 8 := by
  cases f <;> simp only [reach, spare, position, phase, RawFormat.blockPixels,
    RawFormat.blockBytes, RawFormat.bpp] at hi ⊢ <;> omega

theorem cell_add_blocks (f : RawFormat) (q s : Nat) :
    cell f (q * f.blockBytes * 8 + s) = (q * f.blockBytes + (cell f s).1, (cell f s).2) := by
  have hdiv : (q * f.blockBytes * 8 + s) / 8 = q * f.blockBytes + s / 8 := by omega
  have hmod : (q * f.blockBytes * 8 + s) % 8 = s % 8 := by omega
  simp only [cell, hdiv, hmod, streamByte]
  by_cases hw : wordSwapped f
  · have heven : q * f.blockBytes % 2 = 0 := by
      cases f <;> simp [wordSwapped, RawFormat.blockBytes] at hw ⊢ <;> omega
    simp [hw, mate_add_even _ _ heven]
  · simp [hw]

/-- A row is a whole number of words wherever words are swapped. -/
theorem row_even (f : RawFormat) {rowBytes : Nat} (hblock : f.blockBytes ∣ rowBytes)
    (hw : wordSwapped f = true) : rowBytes % 2 = 0 := by
  obtain ⟨c, rfl⟩ := hblock
  cases f <;> simp [wordSwapped, RawFormat.blockBytes] at hw ⊢ <;> omega

theorem cell_in_row (f : RawFormat) {rowBytes s : Nat} (hblock : f.blockBytes ∣ rowBytes)
    (hs : s < rowBytes * 8) : (cell f s).1 < rowBytes := by
  simp only [cell, streamByte]
  by_cases hw : wordSwapped f
  · have heven := row_even f hblock hw
    simp only [hw, if_true, mate]
    split <;> omega
  · simp only [hw]
    simp
    omega

/-- The bytes an accessor touches for an in-image pixel lie in the pixel's block. -/
theorem touched_in_block (f : RawFormat) {rowBytes len x y o : Nat}
    (hblock : f.blockBytes ∣ rowBytes) (hlen : len < 2 ^ 32) (hin : InImage f rowBytes len x y)
    (ho : o ∈ readOffsets f rowBytes x y ++ writeOffsets f rowBytes x y) :
    InBlock f rowBytes x y o := by
  have hbyte : ∃ b, b < f.blockBytes ∧ f.addr rowBytes x y b = o := by
    rcases List.mem_append.mp ho with h | h
    · obtain ⟨t, ht, rfl⟩ := List.mem_map.mp h
      exact ⟨t.byte, loads_byte_lt f x t ht, rfl⟩
    · obtain ⟨t, ht, rfl⟩ := List.mem_map.mp h
      exact ⟨t.byte, stores_byte_lt f x t ht, rfl⟩
  obtain ⟨b, hb, rfl⟩ := hbyte
  rw [addr_eq f hblock hlen hin hb]
  exact ⟨by omega, by omega⟩

/-- A block of an in-image pixel lies in its row, hence in the image. -/
theorem block_in_image (f : RawFormat) {rowBytes len x y o : Nat}
    (hblock : f.blockBytes ∣ rowBytes) (hin : InImage f rowBytes len x y)
    (ho : InBlock f rowBytes x y o) : y * rowBytes ≤ o ∧ o < (y + 1) * rowBytes ∧ o < len := by
  have hb := block_in_row f hblock hin.column
  have hrow := hin.row
  obtain ⟨hlo, hhi⟩ := ho
  rw [Nat.succ_mul] at hrow ⊢
  exact ⟨by omega, by omega, by omega⟩

/-- Inside an image the bits of a pixel are the cells of its stretch of the row. -/
theorem place_eq (f : RawFormat) {rowBytes len x y i : Nat} (hblock : f.blockBytes ∣ rowBytes)
    (hlen : len < 2 ^ 32) (hin : InImage f rowBytes len x y) (hi : i < reach f x) :
    place f rowBytes x y i =
      (y * rowBytes + (cell f (position f x i)).1, (cell f (position f x i)).2) := by
  obtain ⟨hpos, hlt⟩ := position_eq f x i hi
  have hc := cell_in_row f (Nat.dvd_refl f.blockBytes) hlt
  simp only [place, hpos, cell_add_blocks, addr_eq f hblock hlen hin hc, Nat.add_assoc]

theorem reach_ge (f : RawFormat) (x : Nat) : f.bpp ≤ reach f x := Nat.le_add_right _ _

theorem cell_inj (f : RawFormat) {s t : Nat} (h : cell f s = cell f t) : s = t := by
  simp only [cell, Prod.mk.injEq] at h
  have hb := congrArg (streamByte f) h.1
  rw [streamByte_streamByte, streamByte_streamByte] at hb
  omega

/-- A row's cells, over all rows, have different addresses. -/
theorem cell_row_inj (f : RawFormat) {rowBytes s t y y' : Nat}
    (hblock : f.blockBytes ∣ rowBytes) (hs : s < rowBytes * 8) (ht : t < rowBytes * 8)
    (h : (y * rowBytes + (cell f s).1, (cell f s).2) =
      (y' * rowBytes + (cell f t).1, (cell f t).2)) : y = y' ∧ s = t := by
  simp only [Prod.mk.injEq] at h
  have hcs := cell_in_row f hblock hs
  have hct := cell_in_row f hblock ht
  have hpos : 0 < rowBytes := by omega
  have hy := congrArg (· / rowBytes) h.1
  simp only [Nat.mul_comm _ rowBytes, Nat.mul_add_div hpos, Nat.div_eq_of_lt hcs,
    Nat.div_eq_of_lt hct, Nat.add_zero] at hy
  subst hy
  refine ⟨rfl, cell_inj f ?_⟩
  exact Prod.ext (by omega) h.2

theorem position_in_row (f : RawFormat) {rowBytes x i : Nat} (hblock : f.blockBytes ∣ rowBytes)
    (hx : x * f.bpp < rowBytes * 8) : position f x i < rowBytes * 8 := by
  have hb := block_in_row f hblock hx
  cases f <;> simp only [position, RawFormat.blockPixels, RawFormat.blockBytes,
    RawFormat.bpp] at hb hx ⊢ <;> omega

theorem position_inj (f : RawFormat) {x x' i j : Nat} (hi : i < f.bpp) (hj : j < f.bpp)
    (h : position f x i = position f x' j) : x = x' ∧ i = j := by
  cases f <;> simp only [position, RawFormat.bpp] at hi hj h <;> omega

/-- Different bits of in-image pixels have different addresses. -/
theorem place_inj (f : RawFormat) {rowBytes len x y x' y' i j : Nat}
    (hblock : f.blockBytes ∣ rowBytes) (hlen : len < 2 ^ 32)
    (hin : InImage f rowBytes len x y) (hin' : InImage f rowBytes len x' y')
    (hi : i < f.bpp) (hj : j < f.bpp)
    (h : place f rowBytes x y i = place f rowBytes x' y' j) : (x = x' ∧ y = y') ∧ i = j := by
  rw [place_eq f hblock hlen hin (Nat.lt_of_lt_of_le hi (reach_ge f x)),
    place_eq f hblock hlen hin' (Nat.lt_of_lt_of_le hj (reach_ge f x'))] at h
  obtain ⟨hy, hpos⟩ := cell_row_inj f hblock (position_in_row f hblock hin.column)
    (position_in_row f hblock hin'.column) h
  obtain ⟨hx, hij⟩ := position_inj f hi hj hpos
  exact ⟨⟨hx, hy⟩, hij⟩

/-! ## Reading back what was written -/

/-- What a getter returns after a setter: the low bits of the value where the
setter has a case, the old pixel elsewhere. -/
theorem getPixel_setPixel (f : RawFormat) (p : Memory) (rowBytes x y v : Nat) :
    f.getPixel (f.setPixel p rowBytes x y v) rowBytes x y =
      if HasCase f x then v % 2 ^ f.bpp else f.getPixel p rowBytes x y := by
  by_cases h : HasCase f x
  · rw [if_pos h, getPixel_read]
    exact (setPixel_overlaid f p rowBytes x y v h).read_self
  · rw [if_neg h, setPixel_no_case f p rowBytes x y v h]

/-- The value stored at a pixel, as the layout defines it. -/
def stored (f : RawFormat) (p : Memory) (rowBytes x y : Nat) : Nat :=
  read p f.bpp (place f rowBytes x y)

/-- Reading back returns the written value exactly when the setter has a case
for the column or the pixel already held the value. -/
theorem set_get_iff (f : RawFormat) (p : Memory) (rowBytes x y v : Nat) (hv : v < 2 ^ f.bpp) :
    f.getPixel (f.setPixel p rowBytes x y v) rowBytes x y = v ↔
      f ≠ .raw14b ∨ x % 8 < 4 ∨ stored f p rowBytes x y = v := by
  rw [getPixel_setPixel, getPixel_read, stored]
  by_cases h : HasCase f x
  · have hc : f ≠ .raw14b ∨ x % 8 < 4 := by
      by_cases hf : f = .raw14b
      · exact .inr (h hf)
      · exact .inl hf
    rw [if_pos h, Nat.mod_eq_of_lt hv]
    constructor
    · intro _
      rcases hc with hc | hc
      · exact .inl hc
      · exact .inr (.inl hc)
    · intro _
      rfl
  · have hf : f = .raw14b ∧ ¬x % 8 < 4 := by
      simpa only [HasCase, Classical.not_imp] using h
    rw [if_neg h]
    simp [hf.1, hf.2]

/-- An in-range write of 1 at the fifth pixel of a zeroed row, at 14 bits big endian. -/
theorem set_get_lost : RawFormat.raw14b.getPixel
    (RawFormat.raw14b.setPixel (fun _ => 0) 14 4 0 1) 14 4 0 ≠ 1 := by decide

theorem set_get_witness : RawFormat.raw10l.getPixel
    (RawFormat.raw10l.setPixel (fun _ => 255) 10 5 0 3) 10 5 0 = 3 :=
  (set_get_iff .raw10l (fun _ => 255) 10 5 0 3 (by decide)).mpr (.inl (by decide))

/-! ## What a setter leaves alone -/

/-- A setter assigns bytes of its block only. -/
theorem setPixel_outside_block (f : RawFormat) (p : Memory) {rowBytes len x y : Nat} (v o : Nat)
    (hblock : f.blockBytes ∣ rowBytes) (hlen : len < 2 ^ 32) (hin : InImage f rowBytes len x y)
    (ho : ¬InBlock f rowBytes x y o) : f.setPixel p rowBytes x y v o = p o := by
  by_cases h : HasCase f x
  · apply byte_eq_of_bits
    intro j _
    apply (setPixel_overlaid f p rowBytes x y v h).frame
    intro i hi he
    obtain ⟨_, hlt⟩ := position_eq f x i hi
    have hc := cell_in_row f (Nat.dvd_refl f.blockBytes) hlt
    have hoff := congrArg Prod.fst he
    simp only [place, addr_eq f hblock hlen hin hc] at hoff
    exact ho ⟨by omega, by omega⟩
  · rw [setPixel_no_case f p rowBytes x y v h]

/-- Setting a pixel to an in-range value changes no other pixel of the image. -/
theorem getPixel_setPixel_other (f : RawFormat) (p : Memory) {rowBytes len x y x' y' v : Nat}
    (hblock : f.blockBytes ∣ rowBytes) (hlen : len < 2 ^ 32) (hin : InImage f rowBytes len x y)
    (hin' : InImage f rowBytes len x' y') (hv : v < 2 ^ f.bpp) (hne : (x', y') ≠ (x, y)) :
    f.getPixel (f.setPixel p rowBytes x y v) rowBytes x' y' = f.getPixel p rowBytes x' y' := by
  by_cases h : HasCase f x
  · rw [getPixel_read, getPixel_read]
    apply (setPixel_overlaid f p rowBytes x y v h).read_other hv
    intro i j hi hj he
    obtain ⟨⟨hx, hy⟩, _⟩ := place_inj f hblock hlen hin' hin hj hi he
    exact hne (Prod.ext hx hy)
  · rw [setPixel_no_case f p rowBytes x y v h]

/-- The frame of every setter, in pixels and in bytes. -/
theorem set_pixel_frame (f : RawFormat) (p : Memory) (rowBytes x y v : Nat) (len : UInt32)
    (hblock : f.blockBytes ∣ rowBytes) (hin : InImage f rowBytes len.toNat x y)
    (hv : v < 2 ^ f.bpp) :
    (∀ x' y', InImage f rowBytes len.toNat x' y' → (x', y') ≠ (x, y) →
      f.getPixel (f.setPixel p rowBytes x y v) rowBytes x' y' = f.getPixel p rowBytes x' y') ∧
    ∀ o, ¬InBlock f rowBytes x y o → f.setPixel p rowBytes x y v o = p o := by
  have hlen : len.toNat < 2 ^ 32 := len.toNat_lt
  constructor
  · intro x' y' hin' hne
    exact getPixel_setPixel_other f p hblock hlen hin hin' hv hne
  · intro o ho
    exact setPixel_outside_block f p v o hblock hlen hin ho

theorem set_pixel_frame_witness :
    (∀ x' y', InImage .raw10l 10 20 x' y' → (x', y') ≠ (3, 1) →
      RawFormat.raw10l.getPixel (RawFormat.raw10l.setPixel (fun _ => 255) 10 3 1 512) 10 x' y' =
        RawFormat.raw10l.getPixel (fun _ => 255) 10 x' y') ∧
    ∀ o, ¬InBlock .raw10l 10 3 1 o →
      RawFormat.raw10l.setPixel (fun _ => 255) 10 3 1 512 o = 255 :=
  set_pixel_frame .raw10l (fun _ => 255) 10 3 1 512 20 (by decide)
    ⟨by decide, by decide⟩ (by decide)

/-! ## Byte order -/

/-- The bit at a swapped offset is the original bit at the offset's mate. -/
theorem bit_swapPairs {len o : Nat} (m : Memory) (j : Nat) (ho : o < len) (hm : mate o < len) :
    bit (swapPairs len m) (mate o, j) = bit m (o, j) := by
  simp [bit, swapPairs, ho, hm, mate_mate]

/-- A big endian image whose byte pairs are exchanged reads as little endian. -/
theorem getPixel_swapPairs (little big : RawFormat) (hw : wordSwapped little = true)
    (hb : wordSwapped big = false) (hbpp : little.bpp = big.bpp) (m : Memory)
    {rowBytes len x y : Nat} (hlittle : little.blockBytes ∣ rowBytes)
    (hbig : big.blockBytes ∣ rowBytes) (hlen : len < 2 ^ 32) (heven : len % 2 = 0)
    (hin : InImage little rowBytes len x y) :
    little.getPixel (swapPairs len m) rowBytes x y = big.getPixel m rowBytes x y := by
  have hin' : InImage big rowBytes len x y := ⟨hbpp ▸ hin.column, hin.row⟩
  have hrow := hin.row
  rw [Nat.succ_mul] at hrow
  rw [getPixel_read, getPixel_read, hbpp]
  apply read_congr
  intro i hi
  have hs : position big x i < rowBytes * 8 := position_in_row big hbig hin'.column
  have hpos : position little x i = position big x i := by simp only [position, hbpp]
  have hy : y * rowBytes % 2 = 0 := by
    rw [Nat.mul_mod, row_even little hlittle hw, Nat.mul_zero, Nat.zero_mod]
  have hreach : i < reach little x := Nat.lt_of_lt_of_le (hbpp ▸ hi) (reach_ge little x)
  have hreach' : i < reach big x := Nat.lt_of_lt_of_le hi (reach_ge big x)
  rw [place_eq little hlittle hlen hin hreach, place_eq big hbig hlen hin' hreach', hpos]
  simp only [cell, streamByte, hw, hb, if_true, ← mate_add_even _ _ hy]
  have ho : y * rowBytes + position big x i / 8 < len := by omega
  apply bit_swapPairs m _ ho
  unfold mate
  split <;> omega

end RawPixel
