import Chdkptp.BoundedLoop
import Chdkptp.LiveReuse

/-!
# The orientation of live view images

The conversions put the last row of a frame first, and packing puts the last row of an image
first. Behind both, the rows are in the order of the frame again, and each pixel has the
colour of its place, if the sizes do not wrap.
-/

namespace LiveOrientation

open ByteMemory TracedRead LiveFrame LivePixel LoopPasses LiveImage LiveLoops LivePalette LiveFormats
  LiveCalls LiveReads LivePlanes LivePacked LiveWrites LiveReuse LiveImageDump BoundedLoop Lbuf

variable {α : Type} {m : Bytes} {desc vp bm bmo : FbDesc} {limit len : Nat}

/-! ## The pixels of a frame -/

/-- The first byte of a row, counted from the top. -/
def rowStart (desc : FbDesc) (bits : Nat) (y : Nat) : Int :=
  desc.dataStart + y * (desc.bufferWidth * bits / 8)

/-- A pixel of the 12-bit format: four pixels in six bytes have one chroma. -/
def yuvPixel (m : Bytes) (row : Int) (x : Nat) : Pixel :=
  let p := row + (x / 4 : Nat) * 6
  let luma : Int :=
    match x % 4 with
    | 0 => 1
    | 1 => 3
    | 2 => 4
    | _ => 5
  yuvToRgb (m (p + luma)) (int8 (m p)) (int8 (m (p + 2)))

/-- A pixel of the 16-bit formats: two pixels in four bytes have one chroma. -/
def uyvyPixel (bias : UInt8) (m : Bytes) (row : Int) (x : Nat) : Pixel :=
  let p := row + (x / 2 : Nat) * 4
  let luma : Int := if x % 2 = 0 then 1 else 3
  yuvToRgb (m (p + luma)) (int8 (m p - bias)) (int8 (m (p + 2) - bias))

/-- The bits of a pixel of a viewport. -/
def viewportBits (fbType : Int) : Nat := if fbType = LV_FB_YUV8 then 12 else 16

/-- The colour of a viewport's pixel in a column and a row, counted from the top. -/
def viewportPixel (m : Bytes) (vp : FbDesc) (x y : Nat) : Pixel :=
  let row := rowStart vp (viewportBits vp.fbType) y
  if vp.fbType = LV_FB_YUV8 then yuvPixel m row x
  else if vp.fbType = LV_FB_YUV8B then uyvyPixel 0x80 m row x
  else uyvyPixel 0 m row x

/-- The colour of a bitmap's pixel with its alpha, which is the opacity if there is one. -/
def bitmapPixel (m : Bytes) (bm : FbDesc) (bmo : Option FbDesc) (x y : Nat) : Pixel :=
  match bmo with
  | some bmo =>
    let row := rowStart bm 16 y
    uyvyPixel 0x80 m row x ++
      [if bmo.dataStart ≠ 0 then m (rowStart bmo 8 y + x) else wordAlpha m (row + (x / 2 : Nat) * 4)]
  | none => palettePixel m (sourceOf m) (m (rowStart bm 8 y + x))

/-- The offset of the last row does not wrap, nor the size of a row, which is computed in
bits unless a pixel has 8. -/
def Unwrapped (desc : FbDesc) (bits : Nat) : Prop :=
  desc.visibleHeight = 1 ∨ (bits ≠ 8 → desc.bufferWidth * bits < 2 ^ 32) ∧
    (desc.visibleHeight - 1) * (desc.bufferWidth * bits / 8) < 2 ^ 32

/-- The same for a bitmap and its opacity; offsets in a paletted bitmap are signed. -/
def BitmapUnwrapped (bm : FbDesc) : Option FbDesc → Prop
  | some bmo => Unwrapped bm 16 ∧ (bmo.dataStart ≠ 0 → Unwrapped bmo 8)
  | none => (bm.visibleHeight - 1) * bm.bufferWidth < 2 ^ 31

/-! ## The pixels that the loops make -/

theorem yuvSamples_get (m : Bytes) (row : Int) (x : Nat) :
    (yuvSamples false m (row + (x / 4 : Nat) * 6))[x % 4]? = some (yuvPixel m row x) := by
  have hcases : x % 4 = 0 ∨ x % 4 = 1 ∨ x % 4 = 2 ∨ x % 4 = 3 := by omega
  unfold yuvPixel
  rcases hcases with h | h | h | h <;> rw [h] <;> rfl

theorem uyvySamples_get (bias : UInt8) (m : Bytes) (row : Int) (x : Nat) :
    (uyvySamples bias false m (row + (x / 2 : Nat) * 4))[x % 2]? = some (uyvyPixel bias m row x) := by
  have hcases : x % 2 = 0 ∨ x % 2 = 1 := by omega
  unfold uyvyPixel
  rcases hcases with h | h <;> rw [h] <;> rfl

/-- When the size of a row is computed right. -/
structure Places (f : Format α) (bits : Nat) : Prop where
  rowInc_iff : ∀ b, f.rowInc b = b * bits / 8 ↔ (bits ≠ 8 → b * bits < 2 ^ 32)

theorem yuv_places (skip : Bool) : Places (yuv skip) 12 :=
  ⟨fun b => by
    rw [imp_iff_right (by decide)]
    change b * 12 % 2 ^ 32 / 8 = b * 12 / 8 ↔ b * 12 < 2 ^ 32
    omega⟩

theorem rowInc16_iff (b : Nat) : b * 16 % 2 ^ 32 / 8 = b * 16 / 8 ↔ (16 ≠ 8 → b * 16 < 2 ^ 32) := by
  rw [imp_iff_right (by decide)]
  omega

theorem uyvy_places (bias : UInt8) (skip : Bool) : Places (uyvy bias skip) 16 := ⟨rowInc16_iff⟩

theorem uyvyAlpha_places (skip : Bool) : Places (uyvyAlpha skip) 16 := ⟨rowInc16_iff⟩

theorem opacity_places (skip : Bool) : Places (opacity skip) 8 :=
  ⟨fun b => iff_of_true (Nat.mul_div_cancel b (by decide)).symm fun hbits => absurd rfl hbits⟩

/-- Where the loops begin a row, which is counted from the top. -/
def rowPointer (f : Format α) (desc : FbDesc) (y : Nat) : Int :=
  let rowInc := f.rowInc (uint32 desc.bufferWidth)
  lastRow desc.dataStart (uint32 desc.visibleHeight) rowInc -
    (uint32 desc.visibleHeight - 1 - y : Nat) * rowInc

/-- Each row is taken from its place. -/
def RowsInPlace (f : Format α) (desc : FbDesc) (bits : Nat) : Prop :=
  ∀ y < uint32 desc.visibleHeight, rowPointer f desc y = rowStart desc bits y

/-- The sizes of a framebuffer that has rows. -/
structure Sized (desc : FbDesc) : Prop where
  buffer : 0 ≤ desc.bufferWidth ∧ desc.bufferWidth < 2 ^ 31
  height : 0 < desc.visibleHeight ∧ desc.visibleHeight < 2 ^ 31

theorem Sized.rows (h : Sized desc) : (uint32 desc.visibleHeight : Int) = desc.visibleHeight := by
  have hheight := h.height
  rw [uint32]
  omega

theorem Sized.columns (h : Sized desc) : (uint32 desc.bufferWidth : Int) = desc.bufferWidth := by
  have hbuffer := h.buffer
  rw [uint32]
  omega

theorem Sized.row (h : Sized desc) (bits : Nat) :
    desc.bufferWidth * bits / 8 = (uint32 desc.bufferWidth * bits / 8 : Nat) := by
  push_cast
  rw [h.columns]

theorem Sized.rowStart_eq (h : Sized desc) (bits y : Nat) :
    rowStart desc bits y = desc.dataStart + (y * (uint32 desc.bufferWidth * bits / 8) : Nat) := by
  rw [rowStart, h.row, Int.natCast_mul]

/-- The condition in unsigned numbers. -/
theorem Sized.unwrapped_iff (h : Sized desc) (bits : Nat) :
    Unwrapped desc bits ↔ uint32 desc.visibleHeight = 1 ∨
      (bits ≠ 8 → uint32 desc.bufferWidth * bits < 2 ^ 32) ∧
        (uint32 desc.visibleHeight - 1) * (uint32 desc.bufferWidth * bits / 8) < 2 ^ 32 := by
  have hrows := h.rows
  have hheight := h.height
  have hcast : desc.visibleHeight - 1 = (uint32 desc.visibleHeight - 1 : Nat) := by omega
  have hcolumns : desc.bufferWidth * bits = (uint32 desc.bufferWidth * bits : Nat) := by
    push_cast
    rw [h.columns]
  rw [Unwrapped, h.row, hcolumns, hcast]
  refine or_congr (by omega) (and_congr (imp_congr_right fun _ => ?_) ?_)
  · exact_mod_cast Iff.rfl
  · exact_mod_cast Iff.rfl

/-- The rows are taken from their places exactly when the sizes do not wrap. -/
theorem rowsInPlace_iff {f : Format α} {bits : Nat} (hplaces : Places f bits) (h : Sized desc) :
    RowsInPlace f desc bits ↔ Unwrapped desc bits := by
  have hrows := h.rows
  have hheight := h.height
  have hinc := hplaces.rowInc_iff (uint32 desc.bufferWidth)
  have hpointer : ∀ y, rowPointer f desc y = desc.dataStart +
      ((uint32 desc.visibleHeight - 1) * f.rowInc (uint32 desc.bufferWidth) % 2 ^ 32 : Nat) -
        ((uint32 desc.visibleHeight - 1 - y) * f.rowInc (uint32 desc.bufferWidth) : Nat) := by
    intro y
    rw [rowPointer, lastRow_eq _ (by omega)]
    push_cast
    rfl
  rw [h.unwrapped_iff]
  constructor
  · intro hall
    by_cases hone : uint32 desc.visibleHeight = 1
    · exact .inl hone
    · have hfirst := hall 0 (by omega)
      have hlast := hall (uint32 desc.visibleHeight - 1) (by omega)
      rw [hpointer, h.rowStart_eq, Nat.sub_zero, Nat.zero_mul] at hfirst
      rw [hpointer, h.rowStart_eq, Nat.sub_self, Nat.zero_mul] at hlast
      have hmod : (uint32 desc.visibleHeight - 1) * f.rowInc (uint32 desc.bufferWidth) % 2 ^ 32 =
          (uint32 desc.visibleHeight - 1) * f.rowInc (uint32 desc.bufferWidth) := by omega
      have hsame : (uint32 desc.visibleHeight - 1) * f.rowInc (uint32 desc.bufferWidth) =
          (uint32 desc.visibleHeight - 1) * (uint32 desc.bufferWidth * bits / 8) := by omega
      refine .inr ⟨hinc.mp (Nat.eq_of_mul_eq_mul_left (by omega) hsame), ?_⟩
      rw [← hsame, ← hmod]
      exact Nat.mod_lt _ (by decide)
  · rintro hfit y hy
    rw [hpointer, h.rowStart_eq]
    rcases hfit with hone | ⟨hrow, hlast⟩
    · obtain ⟨rfl, hone⟩ : y = 0 ∧ uint32 desc.visibleHeight = 1 := by omega
      rw [hone]
      simp
    · rw [hinc.mpr hrow, Nat.mod_eq_of_lt hlast]
      have hsplit : (uint32 desc.visibleHeight - 1) * (uint32 desc.bufferWidth * bits / 8) =
          (uint32 desc.visibleHeight - 1 - y) * (uint32 desc.bufferWidth * bits / 8) +
            y * (uint32 desc.bufferWidth * bits / 8) := by
        rw [← Nat.add_mul]
        congr 1
        omega
      omega

/-- A valid framebuffer whose groups divide its width. -/
structure Grouped (desc : FbDesc) (step : Nat) : Prop extends Valid desc where
  buffer : desc.visibleWidth ≤ desc.bufferWidth
  range : desc.bufferWidth < 2 ^ 31 ∧ desc.visibleHeight < 2 ^ 31
  dvd : (step : Int) ∣ desc.visibleWidth

theorem Grouped.columns {f : Format α} (hf : Halved f false) (h : Grouped desc f.step) :
    groups f desc * f.step = uint32 desc.visibleWidth := by
  have hdvd : f.step ∣ uint32 desc.visibleWidth := by
    have huint : (uint32 desc.visibleWidth : Int) = desc.visibleWidth := by
      have hwidth := h.width
      have hbuffer := h.buffer
      have hrange := h.range
      rw [uint32]
      omega
    rw [← Int.natCast_dvd_natCast, huint]
    exact h.dvd
  have hpar : (par false).toNat = 1 := rfl
  have hexact := (row_exact_iff hf desc).mpr hdvd
  rwa [hpar, Nat.div_one, Nat.div_one] at hexact

/-- The samples of a group; rows are counted in the order of the loops. -/
def groupAt (f : Format α) (m : Bytes) (desc : FbDesc) (row k : Nat) : List α :=
  f.samples m (lastRow desc.dataStart (uint32 desc.visibleHeight) (f.rowInc (uint32 desc.bufferWidth)) -
    row * f.rowInc (uint32 desc.bufferWidth) + k * f.inc)

theorem groupAt_length {f : Format α} (hf : Halved f false) (m : Bytes) (desc : FbDesc) (row k : Nat) :
    (groupAt f m desc row k).length = f.step := by
  have hpar : (par false).toNat = 1 := rfl
  rw [groupAt, hf.count, hpar, Nat.div_one]

/-- What the loops make is a grid of groups. -/
theorem made_grid {f : Format α} (hheight : uint32 desc.visibleHeight ≠ 0)
    (hwrap : groups f desc * f.step < 2 ^ 32) (h : (f.pointers desc limit).2 = true) :
    f.made m desc limit = (List.range (uint32 desc.visibleHeight)).flatMap fun row =>
      (List.range (groups f desc)).flatMap (groupAt f m desc row) := by
  obtain ⟨hrows, hcolumns⟩ := groupPointers_ended f.step_pos hheight (uint32_lt _) hwrap h
  rw [Format.made, Format.pointers, groupPointers_end f.step_pos f.inc _ (uint32_lt _) hwrap hrows
    hcolumns, List.flatMap_assoc]
  simp only [List.flatMap_map]
  rfl

/-- The sample of a column and a row counted from the top. -/
theorem made_get {f : Format α} (hf : Halved f false) {bits : Nat} (hgroups : Grouped desc f.step)
    (hplace : RowsInPlace f desc bits) (h : (f.pointers desc limit).2 = true) {x y : Nat}
    (hx : x < uint32 desc.visibleWidth) (hy : y < uint32 desc.visibleHeight) :
    (f.made m desc limit)[(uint32 desc.visibleHeight - 1 - y) * uint32 desc.visibleWidth + x]? =
      (f.samples m (rowStart desc bits y + (x / f.step : Nat) * f.inc))[x % f.step]? := by
  have hcolumns := hgroups.columns hf
  have hwrap : groups f desc * f.step < 2 ^ 32 := by
    rw [hcolumns]
    exact uint32_lt _
  have hindex : (uint32 desc.visibleHeight - 1 - y) * uint32 desc.visibleWidth + x =
      ((uint32 desc.visibleHeight - 1 - y) * groups f desc + x / f.step) * f.step + x % f.step := by
    rw [Nat.add_mul, Nat.mul_assoc, hcolumns, Nat.add_assoc, Nat.div_add_mod']
  have hgroup : x / f.step < groups f desc := by
    rw [Nat.div_lt_iff_lt_mul f.step_pos, hcolumns]
    exact hx
  have hgroupAt : groupAt f m desc (uint32 desc.visibleHeight - 1 - y) (x / f.step) =
      f.samples m (rowStart desc bits y + (x / f.step : Nat) * f.inc) := by
    rw [← hplace y hy]
    rfl
  rw [made_grid (by omega) hwrap h, hindex, getElem?_grid (groupAt f m desc) (groupAt_length hf m desc)
    hgroup (by omega) (Nat.mod_lt _ f.step_pos), hgroupAt]

theorem made_count {f : Format α} (hf : Halved f false) (hgroups : Grouped desc f.step)
    (hheight : uint32 desc.visibleHeight ≠ 0) (h : (f.pointers desc limit).2 = true) :
    (f.made m desc limit).length = uint32 desc.visibleWidth * uint32 desc.visibleHeight := by
  have hcolumns := hgroups.columns hf
  have hpar : (par false).toNat = 1 := rfl
  have hwrap : groups f desc * f.step < 2 ^ 32 := by
    rw [hcolumns]
    exact uint32_lt _
  rw [made_length hf, pointers_ended hheight hwrap h, hpar, Nat.div_one, Nat.mul_assoc, hcolumns,
    Nat.mul_comm]

theorem viewport_get (hgroups : Grouped vp (viewport vp.fbType false).step)
    (hplace : RowsInPlace (viewport vp.fbType false) vp (viewportBits vp.fbType))
    (h : ((viewport vp.fbType false).pointers vp limit).2 = true) {x y : Nat}
    (hx : x < uint32 vp.visibleWidth) (hy : y < uint32 vp.visibleHeight) :
    ((viewport vp.fbType false).made m vp limit)[
        (uint32 vp.visibleHeight - 1 - y) * uint32 vp.visibleWidth + x]? =
      some (viewportPixel m vp x y) := by
  by_cases h12 : vp.fbType = LV_FB_YUV8
  · simp only [viewport, viewportBits, viewportPixel, if_pos h12] at hgroups hplace h ⊢
    rw [made_get (yuv_halved false) hgroups hplace h hx hy]
    exact yuvSamples_get m _ x
  · by_cases hbiased : vp.fbType = LV_FB_YUV8B
    · simp only [viewport, viewportBits, viewportPixel, if_neg h12, if_pos hbiased] at hgroups hplace h ⊢
      rw [made_get (uyvy_halved 0x80 false) hgroups hplace h hx hy]
      exact uyvySamples_get 0x80 m _ x
    · simp only [viewport, viewportBits, viewportPixel, if_neg h12, if_neg hbiased] at hgroups hplace h ⊢
      rw [made_get (uyvy_halved 0 false) hgroups hplace h hx hy]
      exact uyvySamples_get 0 m _ x

theorem uyvyAlpha_get (hgroups : Grouped bm 2) (hplace : RowsInPlace (uyvyAlpha false) bm 16)
    (h : ((uyvyAlpha false).pointers bm limit).2 = true) {x y : Nat}
    (hx : x < uint32 bm.visibleWidth) (hy : y < uint32 bm.visibleHeight) :
    ((uyvyAlpha false).made m bm limit)[
        (uint32 bm.visibleHeight - 1 - y) * uint32 bm.visibleWidth + x]? =
      some (uyvyPixel 0x80 m (rowStart bm 16 y) x ++
        [wordAlpha m (rowStart bm 16 y + (x / 2 : Nat) * 4)]) := by
  rw [made_get (uyvyAlpha_halved false) hgroups hplace h hx hy]
  have hpixel := uyvySamples_get 0x80 m (rowStart bm 16 y) x
  change ((uyvySamples 0x80 false m (rowStart bm 16 y + (x / 2 : Nat) * 4)).map fun px =>
    px ++ [wordAlpha m (rowStart bm 16 y + (x / 2 : Nat) * 4)])[x % 2]? = _
  rw [List.getElem?_map, hpixel]
  rfl

theorem opacity_get (hgroups : Grouped bmo 2) (hplace : RowsInPlace (opacity false) bmo 8)
    (h : ((opacity false).pointers bmo limit).2 = true) {x y : Nat}
    (hx : x < uint32 bmo.visibleWidth) (hy : y < uint32 bmo.visibleHeight) :
    ((opacity false).made m bmo limit)[
        (uint32 bmo.visibleHeight - 1 - y) * uint32 bmo.visibleWidth + x]? =
      some (m (rowStart bmo 8 y + x)) := by
  rw [made_get (opacity_halved false) hgroups hplace h hx hy]
  have hcases : x % 2 = 0 ∨ x % 2 = 1 := by omega
  change ([m (rowStart bmo 8 y + (x / 2 : Nat) * 2), m (rowStart bmo 8 y + (x / 2 : Nat) * 2 + 1)])[x % 2]? = _
  rcases hcases with heven | hodd
  · rw [heven]
    change some (m _) = some (m _)
    congr 2
    omega
  · rw [hodd]
    change some (m _) = some (m _)
    congr 2
    omega

/-- A row of a paletted bitmap is as long as it is visible. -/
theorem palCount_eq (bm : FbDesc) : palCount bm false = bm.visibleWidth.toNat := passCount_one _

/-- Each row of a paletted bitmap is taken from its place. -/
def PalRowsInPlace (bm : FbDesc) : Prop :=
  ∀ y < bm.visibleHeight.toNat,
    lastPalRow bm - (bm.visibleHeight.toNat - 1 - y : Nat) * bm.bufferWidth = rowStart bm 8 y

theorem palRowsInPlace_iff (h : Sized bm) :
    PalRowsInPlace bm ↔ (bm.visibleHeight - 1) * bm.bufferWidth < 2 ^ 31 := by
  have hheight := h.height
  have hbuffer := h.buffer
  have hrows : int32 (bm.visibleHeight - 1) = bm.visibleHeight - 1 := int32_eq (by omega) (by omega)
  have hnonneg : 0 ≤ (bm.visibleHeight - 1) * bm.bufferWidth := Int.mul_nonneg (by omega) hbuffer.1
  have hrow : bm.bufferWidth * (8 : Nat) / 8 = bm.bufferWidth := Int.mul_ediv_cancel _ (by decide)
  constructor
  · intro hall
    have hlast := hall (bm.visibleHeight.toNat - 1) (by omega)
    have hcast : ((bm.visibleHeight.toNat - 1 : Nat) : Int) = bm.visibleHeight - 1 := by omega
    rw [lastPalRow, hrows, rowStart, hrow, hcast, Nat.sub_self, Int.natCast_zero, Int.zero_mul] at hlast
    have hrange := (int32_range ((bm.visibleHeight - 1) * bm.bufferWidth)).2
    omega
  · intro hfit y hy
    have hcast : ((bm.visibleHeight.toNat - 1 - y : Nat) : Int) = bm.visibleHeight - 1 - y := by omega
    rw [lastPalRow, hrows, int32_eq (by omega) hfit, rowStart, hrow, hcast, Int.sub_mul _ (y : Int)]
    omega

theorem palPointers_grid (hheight : 0 < bm.visibleHeight)
    (hrange : bm.visibleHeight < 2 ^ 31) (hwidth : bm.visibleWidth < 2 ^ 31)
    (h : (bitmapPointers bm false limit).2 = true) :
    (bitmapPointers bm false limit).1 = (List.range bm.visibleHeight.toNat).flatMap fun row : Nat =>
      (List.range bm.visibleWidth.toNat).flatMap fun x : Nat =>
        [lastPalRow bm - row * bm.bufferWidth + x] := by
  have hfit : palCount bm false * (par false).toNat < 2 ^ 31 :=
    palCount_fits hwidth fun hend => Bool.false_ne_true hend.1
  have hpar : par false = 1 := rfl
  obtain ⟨hrows, hcolumns⟩ := bitmapPointers_ended hheight hrange hfit h
  rw [bitmapPointers_end hrange hfit hrows hcolumns, palCount_eq, hpar]
  simp only [Int.mul_one, List.map_eq_flatMap]

theorem palMade_get (hgroups : Grouped bm 1) (hplace : PalRowsInPlace bm)
    (h : (bitmapPointers bm false limit).2 = true) {x y : Nat} (hx : x < bm.visibleWidth.toNat)
    (hy : y < bm.visibleHeight.toNat) :
    (palMade m bm false limit)[(bm.visibleHeight.toNat - 1 - y) * bm.visibleWidth.toNat + x]? =
      some (palettePixel m (sourceOf m) (m (rowStart bm 8 y + x))) := by
  have hrange := hgroups.range
  have hwidth := hgroups.width
  have hbuffer := hgroups.buffer
  have hentry := getElem?_grid (fun row x : Nat => [lastPalRow bm - row * bm.bufferWidth + x])
    (fun _ _ => List.length_singleton) hx
    (show bm.visibleHeight.toNat - 1 - y < bm.visibleHeight.toNat by omega) Nat.one_pos
  rw [Nat.mul_one, Nat.add_zero] at hentry
  rw [palMade, List.getElem?_map, palPointers_grid (by omega) hrange.2 (by omega) h, hentry, hplace y hy]
  rfl

theorem palMade_count (hgroups : Grouped bm 1) (hheight : 0 < bm.visibleHeight)
    (h : (bitmapPointers bm false limit).2 = true) :
    (palMade m bm false limit).length = bm.visibleWidth.toNat * bm.visibleHeight.toNat := by
  have hrange := hgroups.range
  have hbuffer := hgroups.buffer
  rw [palMade, List.length_map, palPointers_grid hheight hrange.2 (by omega) h]
  simp only [List.length_flatMap, List.length_singleton, List.map_const', List.length_range,
    List.sum_replicate_nat, Nat.mul_one, Nat.mul_comm]

/-- Each row of a bitmap and of its opacity is taken from its place. -/
def BitmapInPlace (bm : FbDesc) : Option FbDesc → Prop
  | some bmo => RowsInPlace (uyvyAlpha false) bm 16 ∧
      (bmo.dataStart ≠ 0 → RowsInPlace (opacity false) bmo 8)
  | none => PalRowsInPlace bm

/-! ## Images that show a frame -/

/-- The image holds a picture, the rows of which are counted from the top, from its last row up. -/
structure Shows (im : Pimg) (width height : Nat) (px : Nat → Nat → Pixel) : Prop where
  width_eq : im.width = width
  height_eq : im.height = height
  sample : ∀ x < width, ∀ y < height, ∀ j < planesOf im.alpha,
    sample im j ((height - 1 - y) * width + x) = (px x y).getD j 0

/-- The packed bytes show the picture from the top. -/
theorem Shows.packed {im : Pimg} {width height : Nat} {px : Nat → Nat → Pixel}
    (h : Shows im width height px) {malloc : Nat → Option Memory} {buf : Option LBuf} {alpha : Bool}
    {packed : LBuf} (halpha : alpha = true → im.alpha = true)
    (hfit : width * height * planesOf alpha < 2 ^ 32)
    (hpacked : pimgToPacked malloc im buf alpha = some packed) :
    packed.len.toNat = width * height * planesOf alpha ∧
      ∀ x < width, ∀ y < height, ∀ c < planesOf alpha,
        packed.bytes ((y * width + x) * planesOf alpha + c) = (px x y).getD c 0 := by
  obtain ⟨rfl, rfl, hsample⟩ := h
  refine ⟨(pimgToPacked_len hpacked).trans (Nat.mod_eq_of_lt hfit), fun x hx y hy c hc => ?_⟩
  have hplane : c < planesOf im.alpha := by
    cases halpha' : im.alpha with
    | true => exact hc.trans_le (by cases alpha <;> decide)
    | false =>
      have hnone : alpha = false := Bool.eq_false_iff.mpr fun hsome =>
        Bool.false_ne_true (halpha'.symm.trans (halpha hsome))
      rwa [hnone] at hc
  rw [packed_byte hpacked hfit hx hy hc, packedPixel_getD halpha hc]
  exact hsample x hx y hy c hplane

/-- A plane holds the samples in their order, if they fit. -/
theorem fill_sample {target image : Pimg} {pixels : List Pixel} {ended : Bool} {written : Nat}
    {written' : Option Nat} (h : fill target pixels none ended = .image image written written')
    (hsize : pixels.length ≤ target.size) {i : Nat} {px : Pixel} (hpx : pixels[i]? = some px) {j : Nat}
    (hj : j < px.length) : sample image j i = px.getD j 0 := by
  obtain ⟨hi, rfl⟩ := List.getElem?_eq_some_iff.mp hpx
  unfold fill at h
  split at h
  · cases h
  · split at h
    · cases h
      have hstored := store_imageStores hsize 0 target.data hi hj
      rw [Nat.zero_add, Nat.add_comm] at hstored
      rw [sample, List.getD_eq_getElem _ _ hj]
      exact hstored
    · cases h

/-- The last plane holds what has been stored again. -/
theorem fill_sample_again {target image : Pimg} {pixels : List Pixel} {alpha : List UInt8} {ended : Bool}
    {written : Nat} {written' : Option Nat}
    (h : fill target pixels (some alpha) ended = .image image written written')
    (hsize : pixels.length ≤ target.size) (hsize' : alpha.length ≤ target.size) {i : Nat} {px : Pixel}
    (hpx : pixels[i]? = some px) {a : UInt8} (ha : alpha[i]? = some a) {j : Nat} (hj : j < 4)
    (hlength : 3 ≤ px.length) : sample image j i = (px.take 3 ++ [a]).getD j 0 := by
  obtain ⟨hi, rfl⟩ := List.getElem?_eq_some_iff.mp hpx
  obtain ⟨hi', rfl⟩ := List.getElem?_eq_some_iff.mp ha
  unfold fill at h
  split at h
  · cases h
  · split at h
    · cases h
      have hthree : (pixels[i].take 3).length = 3 := List.length_take_of_le hlength
      by_cases hlast : j = 3
      · subst hlast
        have hcount : (alpha.map fun a => [a]).length ≤ target.size := by rwa [List.length_map]
        have hplace : i < (alpha.map fun a => [a]).length := by rwa [List.length_map]
        have hone : 0 < (alpha.map fun a => [a])[i].length := by
          rw [List.getElem_map]
          exact Nat.one_pos
        have hstored := store_imageStores hcount (3 * target.size)
          (store (imageStores target.size 0 pixels) target.data) hplace hone
        rw [Nat.zero_mul, Nat.add_zero] at hstored
        rw [List.getD_append_right _ _ _ _ (by omega), hthree, sample]
        simpa using hstored
      · have hstored := store_imageStores hsize 0 target.data hi (show j < pixels[i].length by omega)
        rw [Nat.zero_add, Nat.add_comm] at hstored
        rw [List.getD_append _ _ _ _ (by omega), List.getD_eq_getElem _ _ (by omega), List.getElem_take,
          ← hstored]
        refine store_other (fun s hs heq => ?_) _
        obtain ⟨i', hi', j', hj', rfl⟩ := mem_imageStores.mp hs
        have hplace : 3 * target.size + i' + j' * target.size = j * target.size + i := heq
        have hle : (j + 1) * target.size ≤ 3 * target.size := Nat.mul_le_mul_right _ (by omega)
        rw [Nat.add_mul, Nat.one_mul] at hle
        omega
    · cases h

/-! ## Calls -/

variable {malloc : Nat → Option Memory} {im : Option Pimg} {image target : Pimg} {written : Nat}
  {again : Option Nat} {start : Int} {reads : List Int}

theorem grouped_of (haccepted : Accepted m (int32 len) start desc reads) (hvalid : Valid desc) {step : Nat}
    (hdvd : (step : Int) ∣ desc.visibleWidth) : Grouped desc step where
  toValid := hvalid
  buffer := haccepted.width_le
  range := by
    refine ⟨?_, haccepted.height_range.2⟩
    simp only [haccepted.desc_eq, fbDescOf]
    exact (intOf_range m (start + 8)).2
  dvd := hdvd

theorem Grouped.toNat {step : Nat} (h : Grouped desc step) :
    uint32 desc.visibleWidth = desc.visibleWidth.toNat ∧
      uint32 desc.visibleHeight = desc.visibleHeight.toNat := by
  have hwidth := h.width
  have hheight := h.height
  have hbuffer := h.buffer
  have hrange := h.range
  rw [uint32, uint32]
  omega

theorem Grouped.vwidth {step : Nat} (h : Grouped desc step) :
    vwidthOf desc false = desc.visibleWidth.toNat := by
  have hbuffer := h.buffer
  have hrange := h.range
  have hpar : (par false).toNat = 1 := rfl
  rw [vwidthOf_nonneg h.width (by omega), hpar, Nat.div_one, h.toNat.1]

/-- The planes have a place for each pixel. -/
theorem Grouped.dispsize {step : Nat} (h : Grouped desc step)
    (hfit : desc.visibleWidth.toNat * desc.visibleHeight.toNat < 2 ^ 32) :
    dispsizeOf desc false = desc.visibleWidth.toNat * desc.visibleHeight.toNat := by
  rw [dispsizeOf, h.vwidth, h.toNat.2, Nat.mod_eq_of_lt hfit]

theorem viewport_shows (him : ∀ i, im = some i → VpReturned i)
    (hvp : (getVpDesc (int32 len) m).1 = .ok vp) (hvalid : Valid vp)
    (hdvd : ((viewport vp.fbType false).step : Int) ∣ vp.visibleWidth)
    (hplace : RowsInPlace (viewport vp.fbType false) vp (viewportBits vp.fbType))
    (hfit : vp.visibleWidth.toNat * vp.visibleHeight.toNat < 2 ^ 32)
    (h : (getViewportPimg malloc limit im len false m).1 = .ok (.image image written again)) :
    image.alpha = false ∧
      Shows image vp.visibleWidth.toNat vp.visibleHeight.toNat (viewportPixel m vp) := by
  obtain ⟨vp', target, hconverts, hfill⟩ := getViewportPimg_image h
  obtain rfl : vp' = vp := Except.ok.inj (hconverts.desc.symm.trans hvp)
  obtain ⟨hmade, hwidth, hheight⟩ := vpTarget_made (fun i hi => (him i hi).made) hconverts.target
  obtain ⟨reads, hdesc⟩ := Traced.eq_of_fst hconverts.desc
  have haccepted := getVpDesc_accepted hdesc
  have hgroups := grouped_of haccepted hvalid hdvd
  have hrows := (haccepted.dims hconverts.size).2
  have hended := fill_ended hfill
  have hcount := made_count (m := m) (viewport_halved vp'.fbType false) hgroups hrows hended
  have hsize : target.size = vp'.visibleWidth.toNat * vp'.visibleHeight.toNat := by
    rw [hmade.size_eq, hwidth, hheight, ← hgroups.dispsize hfit]
    rfl
  obtain ⟨data, rfl⟩ := fill_image hfill
  rw [hgroups.toNat.1, hgroups.toNat.2] at hcount
  refine ⟨hmade.alpha_eq, hwidth.trans hgroups.vwidth, hheight.trans hgroups.toNat.2, ?_⟩
  intro x hx y hy j hj
  have hget := viewport_get (m := m) hgroups hplace hended (x := x) (y := y)
    (by rwa [hgroups.toNat.1]) (by rwa [hgroups.toNat.2])
  rw [hgroups.toNat.1, hgroups.toNat.2] at hget
  have hlength := viewport_length vp'.fbType false m vp' limit _ (List.mem_of_getElem? hget)
  refine fill_sample hfill (hcount.trans_le hsize.ge) hget ?_
  rw [hlength]
  have halpha : target.alpha = false := hmade.alpha_eq
  have hplanes : j < planesOf target.alpha := hj
  rwa [halpha] at hplanes

/-- An image that a bitmap has filled with what its pixels are. -/
theorem filled_shows {step : Nat} (hgroups : Grouped bm step) {px : Nat → Nat → Pixel}
    (halpha : image.alpha = true)
    (hshape : image.width = vwidthOf bm false ∧ image.height = uint32 bm.visibleHeight)
    (hsample : ∀ x < bm.visibleWidth.toNat, ∀ y < bm.visibleHeight.toNat, ∀ j < 4,
      sample image j ((bm.visibleHeight.toNat - 1 - y) * bm.visibleWidth.toNat + x) =
        (px x y).getD j 0) :
    Shows image bm.visibleWidth.toNat bm.visibleHeight.toNat px where
  width_eq := hshape.1.trans hgroups.vwidth
  height_eq := hshape.2.trans hgroups.toNat.2
  sample x hx y hy j hj := by
    rw [halpha] at hj
    exact hsample x hx y hy j hj

theorem palBitmap_sample {ended : Bool} (hgroups : Grouped bm 1)
    (hplace : PalRowsInPlace bm) (hheight : 0 < bm.visibleHeight)
    (hsize : target.size = bm.visibleWidth.toNat * bm.visibleHeight.toNat)
    (hended : (bitmapPointers bm false limit).2 = true)
    (h : fill target (palMade m bm false limit) none ended = .image image written again) {x y j : Nat}
    (hx : x < bm.visibleWidth.toNat) (hy : y < bm.visibleHeight.toNat) (hj : j < 4) :
    sample image j ((bm.visibleHeight.toNat - 1 - y) * bm.visibleWidth.toNat + x) =
      (bitmapPixel m bm none x y).getD j 0 := by
  have hget := palMade_get (m := m) hgroups hplace hended hx hy
  have hcount := palMade_count (m := m) hgroups hheight hended
  refine fill_sample h (hcount.trans_le hsize.ge) hget ?_
  rw [palettePixel_length]
  exact hj

theorem yuvBitmap_sample {bmo : FbDesc} {ended : Bool}
    (hgroups : Grouped bm 2) (hgroups' : Grouped bmo 2) (hwidths : bm.visibleWidth = bmo.visibleWidth)
    (hheights : bm.visibleHeight = bmo.visibleHeight) (hrows : uint32 bm.visibleHeight ≠ 0)
    (hplace : BitmapInPlace bm (some bmo))
    (hsize : target.size = bm.visibleWidth.toNat * bm.visibleHeight.toNat)
    (hended : (unpackBitmap limit bm (some bmo) false m).ended = true)
    (hfill : fill target (unpackBitmap limit bm (some bmo) false m).pixels
      (unpackBitmap limit bm (some bmo) false m).again ended = .image image written again)
    {x y j : Nat} (hx : x < bm.visibleWidth.toNat) (hy : y < bm.visibleHeight.toNat) (hj : j < 4) :
    sample image j ((bm.visibleHeight.toNat - 1 - y) * bm.visibleWidth.toNat + x) =
      (bitmapPixel m bm (some bmo) x y).getD j 0 := by
  have hx' : x < uint32 bm.visibleWidth := by rwa [hgroups.toNat.1]
  have hy' : y < uint32 bm.visibleHeight := by rwa [hgroups.toNat.2]
  have hpixels : ((uyvyAlpha false).pointers bm limit).2 = true →
      ((uyvyAlpha false).made m bm limit).length ≤ target.size ∧
      ((uyvyAlpha false).made m bm limit)[
          (bm.visibleHeight.toNat - 1 - y) * bm.visibleWidth.toNat + x]? =
        some (uyvyPixel 0x80 m (rowStart bm 16 y) x ++
          [wordAlpha m (rowStart bm 16 y + (x / 2 : Nat) * 4)]) := by
    intro hpointers
    have hcount := made_count (m := m) (uyvyAlpha_halved false) hgroups hrows hpointers
    have hget := uyvyAlpha_get (m := m) hgroups hplace.1 hpointers hx' hy'
    rw [hgroups.toNat.1, hgroups.toNat.2] at hcount hget
    exact ⟨hcount.trans_le hsize.ge, hget⟩
  unfold unpackBitmap at hended hfill
  simp only at hended hfill
  split at hended
  · rename_i hopacity
    rw [if_pos hopacity] at hfill
    obtain ⟨hcount, hget⟩ := hpixels hopacity.2
    have hcount' := made_count (m := m) (opacity_halved false) hgroups' (hheights ▸ hrows) hended
    have hget' := opacity_get (m := m) hgroups' (hplace.2 hopacity.1) hended
      (by rwa [← hwidths]) (by rwa [← hheights])
    rw [← hwidths, ← hheights, hgroups.toNat.1, hgroups.toNat.2] at hcount' hget'
    rw [fill_sample_again hfill hcount (hcount'.trans_le hsize.ge) hget hget' hj
      (by rw [List.length_append]; exact Nat.le_add_right 3 1), bitmapPixel, if_pos hopacity.1]
    rfl
  · rename_i hopacity
    rw [if_neg hopacity] at hfill
    obtain ⟨hcount, hget⟩ := hpixels hended
    have hnone : bmo.dataStart = 0 := by
      by_contra hne
      exact hopacity ⟨hne, hended⟩
    rw [fill_sample hfill hcount hget hj, bitmapPixel, if_neg fun hne => hne hnone]

theorem bitmap_shows (him : ∀ i, im = some i → BmReturned i ∧ Fitting i bm false)
    (hbm : (getBmDesc (int32 len) m).1 = .ok bm) {bmo : Option FbDesc}
    (hcheck : (checkBitmap len bm m).1 = .ok bmo) (hvalid : Valid bm)
    (hdvd : bitmapGroup false bmo ∣ bm.visibleWidth) (hplace : BitmapInPlace bm bmo)
    (hfit : bm.visibleWidth.toNat * bm.visibleHeight.toNat < 2 ^ 32)
    (h : (getBitmapPimg malloc limit im len false m).1 = .ok (.image image written again)) :
    image.alpha = true ∧
      Shows image bm.visibleWidth.toNat bm.visibleHeight.toNat (bitmapPixel m bm bmo) := by
  obtain ⟨bm', bmo', target, hconverts, -, hfill⟩ := getBitmapPimg_image h
  obtain rfl : bm' = bm := Except.ok.inj (hconverts.desc.symm.trans hbm)
  obtain rfl : bmo' = bmo := Except.ok.inj (hconverts.check.symm.trans hcheck)
  obtain ⟨hmade, hsize⟩ := bmTarget_made (fun i hi => (him i hi).1.made) hconverts.target
  have hshape := (bmTarget_shape hconverts.target).mpr fun old hold =>
    (him old (reusable_eq_some hold).1).2 (reusable_eq_some hold).2
  obtain ⟨reads, hdesc⟩ := Traced.eq_of_fst hconverts.desc
  have haccepted := getBmDesc_accepted hdesc
  have hrows := (haccepted.dims hconverts.size).2
  have hended := fill_ended hfill
  obtain ⟨data, himage⟩ := fill_image hfill
  have halpha : image.alpha = true := by
    rw [himage]
    exact hmade.alpha_eq
  have hshape' : image.width = vwidthOf bm' false ∧ image.height = uint32 bm'.visibleHeight := by
    rw [himage]
    exact hshape
  refine ⟨halpha, ?_⟩
  cases bmo' with
  | some bmo =>
    have hgroups : Grouped bm' 2 := grouped_of haccepted hvalid hdvd
    obtain ⟨checked, hcheck'⟩ := Traced.eq_of_fst hconverts.check
    obtain ⟨hbmo, hwidths, hheights⟩ := checkBitmap_some hcheck'
    have hgroups' : Grouped bmo 2 :=
      grouped_of hbmo ⟨hwidths ▸ hvalid.width, hheights ▸ hvalid.height⟩ (hwidths ▸ hdvd)
    exact filled_shows hgroups halpha hshape' fun x hx y hy j hj =>
      yuvBitmap_sample hgroups hgroups' hwidths hheights hrows hplace
        (hsize.trans (hgroups.dispsize hfit)) hended hfill hx hy hj
  | none =>
    have hgroups : Grouped bm' 1 := grouped_of haccepted hvalid (one_dvd _)
    have hpos : 0 < bm'.visibleHeight := by
      have hnonneg := hvalid.height
      rw [hgroups.toNat.2] at hrows
      omega
    exact filled_shows hgroups halpha hshape' fun x hx y hy j hj =>
      palBitmap_sample hgroups hplace hpos (hsize.trans (hgroups.dispsize hfit)) hended hfill
        hx hy hj

/-! ## Orientation -/

/-- A valid framebuffer with pixels, the width of which is a multiple of `group`. -/
structure Convertible (desc : FbDesc) (group : Int) : Prop extends Valid desc where
  size : dispsizeOf desc false ≠ 0
  dvd : group ∣ desc.visibleWidth

theorem sized_of (haccepted : Accepted m (int32 len) start desc reads) {group : Int}
    (h : Convertible desc group) : Sized desc where
  buffer := ⟨Int.le_trans h.width haccepted.width_le, (grouped_of haccepted h.toValid (one_dvd _)).range.1⟩
  height := by
    have hheight := h.height
    refine ⟨?_, haccepted.height_range.2⟩
    have hrows := (area_factors h.size).2
    rw [uint32] at hrows
    omega

theorem viewport_places (fbType : Int) (skip : Bool) :
    Places (viewport fbType skip) (viewportBits fbType) := by
  unfold viewport viewportBits
  split
  · exact yuv_places skip
  · split
    · exact uyvy_places 0x80 skip
    · exact uyvy_places 0 skip

theorem bitmapInPlace_iff (hsized : Sized bm) {bmo : Option FbDesc}
    (hsized' : ∀ desc, bmo = some desc → Sized desc) : BitmapInPlace bm bmo ↔ BitmapUnwrapped bm bmo := by
  cases bmo with
  | some bmo =>
    exact and_congr (rowsInPlace_iff (uyvyAlpha_places false) hsized)
      (imp_congr_right fun _ => rowsInPlace_iff (opacity_places false) (hsized' bmo rfl))
  | none => exact palRowsInPlace_iff hsized

/-- The opacity has the height of its bitmap. -/
theorem opacity_sized {bmo : Option FbDesc} (hcheck : (checkBitmap len bm m).1 = .ok bmo) {group : Int}
    (h : Convertible bm group) : ∀ desc, bmo = some desc → Sized desc := by
  rintro desc rfl
  obtain ⟨checked, hcheck'⟩ := Traced.eq_of_fst hcheck
  obtain ⟨hbmo, hwidths, hheights⟩ := checkBitmap_some hcheck'
  have hsize : dispsizeOf desc false ≠ 0 := by
    have hsize := h.size
    rwa [dispsizeOf, vwidthOf, hwidths, hheights] at hsize
  have hconv : Convertible desc group :=
    ⟨⟨hwidths ▸ h.width, hheights ▸ h.height⟩, hsize, hwidths ▸ h.dvd⟩
  exact sized_of hbmo hconv

/-- The bytes of a packed image, three or four for each pixel, show a picture from the top. -/
def PackedShows (image : Pimg) (alpha : Bool) (width height : Nat) (px : Nat → Nat → Pixel) : Prop :=
  ∀ malloc buf packed, pimgToPacked malloc image buf alpha = some packed →
    packed.len.toNat = width * height * planesOf alpha ∧
      ∀ x < width, ∀ y < height, ∀ c < planesOf alpha,
        packed.bytes ((y * width + x) * planesOf alpha + c) = (px x y).getD c 0

theorem area_lt {alpha : Bool} {n : Nat} (h : n * planesOf alpha < 2 ^ 32) : n < 2 ^ 32 := by
  have hpos : 0 < planesOf alpha := by cases alpha <;> decide
  exact (Nat.le_mul_of_pos_right n hpos).trans_lt h

/-- Each row is taken from its place exactly when the sizes of the frame do not wrap, and then
a packed image whose size does not wrap either shows the frame. -/
theorem packed_oriented (len : Nat) (m : Bytes) :
    (∀ vp, (getVpDesc (int32 len) m).1 = .ok vp → Convertible vp (viewport vp.fbType false).step →
      (RowsInPlace (viewport vp.fbType false) vp (viewportBits vp.fbType) ↔
        Unwrapped vp (viewportBits vp.fbType)) ∧
      (Unwrapped vp (viewportBits vp.fbType) →
        vp.visibleWidth.toNat * vp.visibleHeight.toNat * planesOf false < 2 ^ 32 →
        ∀ malloc limit im image written again, (∀ i, im = some i → VpReturned i) →
          (getViewportPimg malloc limit im len false m).1 = .ok (.image image written again) →
          PackedShows image false vp.visibleWidth.toNat vp.visibleHeight.toNat
            (viewportPixel m vp))) ∧
    ∀ bm bmo, (getBmDesc (int32 len) m).1 = .ok bm → (checkBitmap len bm m).1 = .ok bmo →
      Convertible bm (bitmapGroup false bmo) →
      (BitmapInPlace bm bmo ↔ BitmapUnwrapped bm bmo) ∧
      (BitmapUnwrapped bm bmo →
        ∀ alpha, bm.visibleWidth.toNat * bm.visibleHeight.toNat * planesOf alpha < 2 ^ 32 →
        ∀ malloc limit im image written again, (∀ i, im = some i → BmReturned i ∧ Fitting i bm false) →
          (getBitmapPimg malloc limit im len false m).1 = .ok (.image image written again) →
          PackedShows image alpha bm.visibleWidth.toNat bm.visibleHeight.toNat
            (bitmapPixel m bm bmo)) := by
  refine ⟨fun vp hvp hconv => ?_, fun bm bmo hbm hcheck hconv => ?_⟩
  · obtain ⟨reads, hdesc⟩ := Traced.eq_of_fst hvp
    have hplace := rowsInPlace_iff (viewport_places vp.fbType false)
      (sized_of (getVpDesc_accepted hdesc) hconv)
    refine ⟨hplace, ?_⟩
    intro hunwrapped hfit malloc limit im image written again him h malloc' buf packed hpacked
    obtain ⟨-, hshows⟩ := viewport_shows him hvp hconv.toValid hconv.dvd (hplace.mpr hunwrapped)
      (area_lt hfit) h
    exact hshows.packed (fun halpha => by cases halpha) hfit hpacked
  · obtain ⟨reads, hdesc⟩ := Traced.eq_of_fst hbm
    have hplace := bitmapInPlace_iff (sized_of (getBmDesc_accepted hdesc) hconv)
      (opacity_sized hcheck hconv)
    refine ⟨hplace, ?_⟩
    intro hunwrapped alpha hfit malloc limit im image written again him h malloc' buf packed hpacked
    obtain ⟨halpha, hshows⟩ := bitmap_shows him hbm hcheck hconv.toValid hconv.dvd
      (hplace.mpr hunwrapped) (area_lt hfit) h
    exact hshows.packed (fun _ => halpha) hfit hpacked

/-! ### Frames -/

theorem packed_oriented_witness :
    (∃ image written again, (getViewportPimg newMemory 8 none 74 false (fourPixels [68, 0, 0, 0])).1 =
        .ok (.image image written again) ∧
      PackedShows image false 4 1 (viewportPixel (fourPixels [68, 0, 0, 0]) ⟨0, 68, 4, 4, 1⟩)) ∧
    ∃ image written again, (getBitmapPimg newMemory 8 none 70 false (twoPal8 2 1)).1 =
        .ok (.image image written again) ∧
      PackedShows image true 2 1 (bitmapPixel (twoPal8 2 1) ⟨1, 68, 2, 2, 1⟩ none) := by
  constructor
  · obtain ⟨image, written, again, himage, -, -⟩ := exists_image
      (r := (getViewportPimg newMemory 8 none 74 false (fourPixels [68, 0, 0, 0])).1) 4 1
      (by decide +kernel)
    have hdesc : (getVpDesc (int32 74) (fourPixels [68, 0, 0, 0])).1 = .ok ⟨0, 68, 4, 4, 1⟩ := by
      decide +kernel
    exact ⟨image, written, again, himage, ((packed_oriented 74 (fourPixels [68, 0, 0, 0])).1 _ hdesc
      ⟨⟨by decide, by decide⟩, by decide, by decide⟩).2 (.inl rfl) (by decide) _ _ none _ _ _
      (fun i hi => by cases hi) himage⟩
  · obtain ⟨image, written, again, himage, -, -⟩ := exists_image
      (r := (getBitmapPimg newMemory 8 none 70 false (twoPal8 2 1)).1) 2 1 (by decide +kernel)
    have hdesc : (getBmDesc (int32 70) (twoPal8 2 1)).1 = .ok ⟨1, 68, 2, 2, 1⟩ := by
      decide +kernel
    have hcheck : (checkBitmap 70 ⟨1, 68, 2, 2, 1⟩ (twoPal8 2 1)).1 = .ok none := by
      decide +kernel
    have hunwrapped : BitmapUnwrapped ⟨1, 68, 2, 2, 1⟩ none := by
      change (1 - 1) * 2 < (2 ^ 31 : Int)
      decide
    exact ⟨image, written, again, himage, ((packed_oriented 70 (twoPal8 2 1)).2 _ none hdesc hcheck
      ⟨⟨by decide, by decide⟩, by decide, by decide⟩).2 hunwrapped true (by decide) _ _ none _ _ _
      (fun i hi => by cases hi) himage⟩

/-- A frame of two rows of 536870916 bytes, the size of which wraps to 4. -/
def wideRows : Bytes :=
  around ([2, 0, 0, 0, 2, 0, 0, 0, 0, 0, 0, 0, 0, 0, 0, 0, 0, 0, 0, 0, 32, 0, 0, 0] ++
    [0, 0, 0, 0, 0, 0, 0, 0] ++
    [0, 0, 0, 0, 68, 0, 0, 0, 88, 85, 85, 21, 4, 0, 0, 0, 2, 0, 0, 0] ++
    [0, 0, 0, 0, 0, 0, 0, 0, 0, 0, 0, 0, 0, 0, 0, 0] ++ [0, 1, 0, 2, 0, 4])

/-- The byte of the packed image of a call. -/
def packedAt (r : Except String Outcome) (o : Nat) : Option UInt8 :=
  match r with
  | .ok (.image im _ _) => (pimgToPacked newMemory im none false).map fun packed => packed.bytes o
  | _ => none

/-- The last row is taken from the first one. -/
theorem row_displaced : Convertible ⟨0, 68, 357913944, 4, 2⟩ 4 ∧
    (getVpDesc (int32 1073741900) wideRows).1 = .ok ⟨0, 68, 357913944, 4, 2⟩ ∧
    ∃ image written again, (getViewportPimg newMemory 8 none 1073741900 false wideRows).1 =
        .ok (.image image written again) ∧
      ¬PackedShows image false 4 2 (viewportPixel wideRows ⟨0, 68, 357913944, 4, 2⟩) := by
  obtain ⟨image, written, again, himage, -, -⟩ := exists_image
    (r := (getViewportPimg newMemory 8 none 1073741900 false wideRows).1) 4 2 (by decide +kernel)
  have hbyte : packedAt (getViewportPimg newMemory 8 none 1073741900 false wideRows).1 12 = some 4 := by
    decide +kernel
  refine ⟨⟨⟨by decide, by decide⟩, by decide, by decide⟩, by decide +kernel, image, written, again, himage,
    fun hshows => ?_⟩
  rw [himage, packedAt] at hbyte
  obtain ⟨packed, hpacked, hfour⟩ := Option.map_eq_some_iff.mp hbyte
  have hzero := (hshows _ _ packed hpacked).2 0 (by decide) 1 (by decide) 0 (by decide)
  have hpixel : (viewportPixel wideRows ⟨0, 68, 357913944, 4, 2⟩ 0 1).getD 0 0 = 0 := by
    decide +kernel
  rw [hpixel] at hzero
  exact absurd (hfour.symm.trans hzero) (by decide)

end LiveOrientation
