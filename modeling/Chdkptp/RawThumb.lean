import Chdkptp.RawActive

/-!
# The colours of a thumbnail

`make_rgb_thumb` samples a red, a green and a blue pixel for every pixel of the
thumbnail. What it should sample is stated over the Bayer pattern: one pixel of
each colour from the 2x2 block that the scaled coordinates fall in. The column
of the blue pixel is computed from the wrong variable, so that this holds for
blocks at the left edge of the image only.
-/

namespace RawThumb

open ByteMemory BoundedLoop RawAccess RawLayout Rawimg RawActive

/-! ## Bayer patterns -/

/-- The pattern with its red and its blue cell at the given places. -/
def bayer (r b : Fin 4) : Fin 4 → UInt8 := fun i =>
  if i = r then cfaRed else if i = b then cfaBlue else cfaGreen

/-- One red cell, one blue cell and two green ones. -/
def Bayer (cfa : Fin 4 → UInt8) : Prop := ∃ r b, r ≠ b ∧ cfa = bayer r b

/-- The colour of a pixel. -/
def colorAt (cfa : Fin 4 → UInt8) (p : Nat × Nat) : UInt8 :=
  cfa ⟨p.1 % 2 + p.2 % 2 * 2, by omega⟩

theorem cfaColor_eq (img : RawImage) (x y : UInt32) :
    cfaColor img x y = colorAt img.cfaPattern (x.toNat, y.toNat) := rfl

/-- Colours repeat with period 2 in both directions. -/
theorem colorAt_period (cfa : Fin 4 → UInt8) (a b d e : Nat) :
    colorAt cfa (a * 2 + d, b * 2 + e) = colorAt cfa (d, e) := by
  have hx : (a * 2 + d) % 2 = d % 2 := by omega
  have hy : (b * 2 + e) % 2 = e % 2 := by omega
  simp only [colorAt, hx, hy]

/-- The offset found for a colour has that colour. -/
theorem colorAt_position {cfa : Fin 4 → UInt8} (h : Bayer cfa) :
    colorAt cfa (cfaPosition cfa cfaRed) = cfaRed ∧
    colorAt cfa (cfaPosition cfa cfaGreen) = cfaGreen ∧
    colorAt cfa (cfaPosition cfa cfaBlue) = cfaBlue := by
  obtain ⟨r, b, hne, rfl⟩ := h
  revert r b
  decide

/-- A blue pixel is in the columns of the blue cell. -/
theorem blue_column {cfa : Fin 4 → UInt8} (h : Bayer cfa) {p : Nat × Nat}
    (hp : colorAt cfa p = cfaBlue) : p.1 % 2 = (cfaPosition cfa cfaBlue).1 := by
  obtain ⟨r, b, hne, rfl⟩ := h
  have hall : ∀ r b : Fin 4, r ≠ b → ∀ d e : Fin 2,
      bayer r b ⟨d.val + e.val * 2, by omega⟩ = cfaBlue →
        d.val = (cfaPosition (bayer r b) cfaBlue).1 := by
    decide
  exact hall r b hne ⟨p.1 % 2, by omega⟩ ⟨p.2 % 2, by omega⟩ hp

/-! ## What the thumbnail should hold -/

/-- The top 8 bits of a pixel. -/
def top8 (img : RawImage) (p : Nat × Nat) : UInt8 :=
  UInt8.ofNat (img.fmt.getPixel img.data img.rowBytes.toNat p.1 p.2 >>> (img.fmt.bpp - 8))

/-- The number of the block that a scaled coordinate falls in. -/
def blockOf (start extent size t : Nat) : Nat := (start + t * extent / size) / 2

/-- The block of the image for a pixel of the thumbnail. -/
def thumbBlock (img : RawImage) (width height : UInt32) (tx ty : Nat) : Nat × Nat :=
  (blockOf img.activeLeft.toNat (img.activeRight.toNat - img.activeLeft.toNat) width.toNat tx,
    blockOf img.activeTop.toNat (img.activeBottom.toNat - img.activeTop.toNat) height.toNat ty)

/-- A pixel of the given colour and block, in the image. -/
structure Samples (img : RawImage) (color : UInt8) (block p : Nat × Nat) : Prop where
  color : colorAt img.cfaPattern p = color
  column : p.1 / 2 = block.1
  row : p.2 / 2 = block.2
  inside : Inside img p

/-- The three entries of a thumbnail pixel. -/
def entries {α : Type} (log : List α) (width tx ty : Nat) : List α :=
  (log.drop ((ty * width + tx) * 3)).take 3

/-- A pixel of the thumbnail is in its buffer and holds what its block looks like. -/
structure SampledAt (img : RawImage) (width height : UInt32) (thumb : Thumb)
    (tx ty : Nat) : Prop where
  room : (ty * width.toNat + tx) * 3 + 3 ≤ thumb.size.toNat
  pixels : ∃ r g b, entries thumb.touched width.toNat tx ty = [r, g, b] ∧
    entries thumb.bytes width.toNat tx ty = [top8 img r, top8 img g, top8 img b] ∧
    Samples img cfaRed (thumbBlock img width height tx ty) r ∧
    Samples img cfaGreen (thumbBlock img width height tx ty) g ∧
    Samples img cfaBlue (thumbBlock img width height tx ty) b

def ThumbSampled (img : RawImage) (width height : UInt32) (thumb : Thumb) : Prop :=
  ∀ tx ty, tx < width.toNat → ty < height.toNat → SampledAt img width height thumb tx ty

/-- An active area in the image with even edges. -/
structure EvenArea (img : RawImage) : Prop extends AreaInvariant img where
  evenTop : img.activeTop.toNat % 2 = 0
  evenLeft : img.activeLeft.toNat % 2 = 0
  evenBottom : img.activeBottom.toNat % 2 = 0
  evenRight : img.activeRight.toNat % 2 = 0

/-- The last green cell is in the left column, all blocks are in the first two
columns of the image, and no scaled row wraps. -/
structure BlueReached (img : RawImage) (width height : UInt32) : Prop where
  green : (cfaPosition img.cfaPattern cfaGreen).1 = 0
  left : img.activeLeft = 0
  columns : width = 1 ∨ img.activeRight = 2
  rows : (height.toNat - 1) * (img.activeBottom.toNat - img.activeTop.toNat) < 2 ^ 32

/-! ## The buffer -/

/-- What a finished thumbnail consists of. -/
structure ThumbParts (img : RawImage) (width height : UInt32) (thumb : Thumb) : Prop where
  fits : width ≤ img.activeRight - img.activeLeft ∧ height ≤ img.activeBottom - img.activeTop
  positive : 0 < width.toNat ∧ 0 < height.toNat
  size : thumb.size.toNat = width.toNat * height.toNat * 3 % 2 ^ 32
  touched : ∀ tx ty, tx < width.toNat → ty < height.toNat →
    entries thumb.touched width.toNat tx ty =
      (thumbPixels img width height (UInt32.ofNat tx) (UInt32.ofNat ty)).map
        (fun p => (p.1.toNat, p.2.toNat))
  bytes : ∀ tx ty, tx < width.toNat → ty < height.toNat →
    entries thumb.bytes width.toNat tx ty =
      (thumbPixels img width height (UInt32.ofNat tx) (UInt32.ofNat ty)).map
        (fun p => top8 img (p.1.toNat, p.2.toNat))

theorem toNat_pos {n : UInt32} (h : n ≠ 0) : 0 < n.toNat := by
  apply Nat.pos_of_ne_zero
  intro hz
  exact h (UInt32.toNat_inj.mp hz)

theorem thumb_parts {malloc : UInt32 → Bool} {img : RawImage} {width height : UInt32}
    {thumb : Thumb} (h : rawimgLuaMakeRgbThumb malloc img width height = .ok thumb) :
    ThumbParts img width height thumb := by
  simp only [rawimgLuaMakeRgbThumb] at h
  split at h
  · cases h
  · rename_i hsize
    split at h
    · cases h
    · rename_i hzero
      split at h
      · cases h
      · cases h
        obtain ⟨hw, hh⟩ := not_or.mp hzero
        constructor
        · exact thumb_size_iff.mp hsize
        · exact ⟨toNat_pos hw, toNat_pos hh⟩
        · have hkept := forUp_invariant _ (fun _ (s : Thumb) => s.size = width * height * 3)
            height.toNat (⟨width * height * 3, [], []⟩ : Thumb) rfl
            (fun ty s _ hs => forUp_invariant
              (fun tx s => thumbStep img width height (UInt32.ofNat tx) (UInt32.ofNat ty) s)
              (fun _ (s : Thumb) => s.size = width * height * 3) width.toNat s hs
              (fun _ _ _ ht => ht))
          rw [hkept]
          simp [UInt32.toNat_mul]
        · intro tx ty htx hty
          rw [forUp_log _ Thumb.touched _ (fun ty s => forUp_log _ Thumb.touched _
            (fun tx s => rfl) width.toNat s), List.nil_append]
          exact window_grid _ 3 _ _ _ _ (fun _ _ => rfl) htx hty
        · intro tx ty htx hty
          rw [forUp_log _ Thumb.bytes _ (fun ty s => forUp_log _ Thumb.bytes _
            (fun tx s => rfl) width.toNat s), List.nil_append]
          exact window_grid _ 3 _ _ _ _ (fun _ _ => rfl) htx hty

/-! ## Scaled coordinates -/

theorem ofNat_small {d : Nat} (h : d ≤ 1) : (UInt32.ofNat d).toNat = d := ofNat_toNat (by omega)

/-- A cell has an even coordinate, so a pixel of its block does not wrap. -/
theorem cell_add {start extent size t : UInt32} {d : Nat} (h : d ≤ 1) :
    (thumbCell start extent size t + UInt32.ofNat d).toNat =
      (start.toNat + t.toNat * extent.toNat % 2 ^ 32 / size.toNat) % 2 ^ 32 / 2 * 2 + d := by
  rw [UInt32.toNat_add, thumbCell_toNat, ofNat_small h]
  omega

/-- A cell whose product does not wrap is the block in exact arithmetic, and inside the area. -/
theorem cell_exact {lo hi size t : UInt32} (hlo : lo < hi) (ht : t < size)
    (hprod : t.toNat * (hi.toNat - lo.toNat) < 2 ^ 32) :
    (lo.toNat + t.toNat * (hi - lo).toNat % 2 ^ 32 / size.toNat) % 2 ^ 32 / 2 =
        blockOf lo.toNat (hi.toNat - lo.toNat) size.toNat t.toNat ∧
      lo.toNat + t.toNat * (hi.toNat - lo.toNat) / size.toNat < hi.toNat := by
  have hlt := UInt32.lt_iff_toNat_lt.mp hlo
  have hts := UInt32.lt_iff_toNat_lt.mp ht
  have hmax := hi.toNat_lt
  have hq := scaled_lt hts (show 0 < hi.toNat - lo.toNat by omega)
  rw [Nat.mod_eq_of_lt hprod] at hq
  have hin : lo.toNat + t.toNat * (hi.toNat - lo.toNat) / size.toNat < hi.toNat := by omega
  rw [sub_toNat hlo, Nat.mod_eq_of_lt hprod, Nat.mod_eq_of_lt (by omega)]
  exact ⟨rfl, hin⟩

/-- If every cell is where exact arithmetic puts it, the last product fits. -/
theorem fits_of_cells {lo extent size : Nat} (heven : lo % 2 = 0) (hpos : 0 < size)
    (hsize : size ≤ extent) (hmax : lo + extent < 2 ^ 32)
    (h : ∀ t, t < size →
      (lo + t * extent % 2 ^ 32 / size) % 2 ^ 32 / 2 = blockOf lo extent size t) :
    (size - 1) * extent < 2 ^ 32 := by
  by_contra hwrap
  by_cases hbig : 2 ^ 31 < size
  · -- the third coordinate is already wrong
    have h2 := h 2 (by omega)
    have hq : 2 ≤ 2 * extent / size := (Nat.le_div_iff_mul_le hpos).mpr (by omega)
    have hmod : 2 * extent % 2 ^ 32 = 2 * extent - 2 ^ 32 := by omega
    have hw : (2 * extent - 2 ^ 32) / size < 2 := by
      rw [Nat.div_lt_iff_lt_mul hpos]
      omega
    rw [hmod, blockOf] at h2
    generalize 2 * extent / size = q at hq h2
    generalize (2 * extent - 2 ^ 32) / size = w at hw h2
    omega
  · -- the first product that wraps loses at least two blocks' worth
    have hex : ∃ t, 2 ^ 32 ≤ t * extent := ⟨size - 1, by omega⟩
    have hfirst := Nat.find_spec hex
    have hmin : ¬2 ^ 32 ≤ (Nat.find hex - 1) * extent := by
      apply Nat.find_min hex
      have hne : Nat.find hex ≠ 0 := by
        intro hz
        rw [hz] at hfirst
        omega
      omega
    have hle : Nat.find hex ≤ size - 1 := Nat.find_min' hex (by omega)
    have ht := h (Nat.find hex) (by omega)
    generalize Nat.find hex = t at hfirst hmin hle ht
    obtain ⟨r, hr⟩ := Nat.le.dest hfirst
    have hrlt : r < extent := by
      obtain ⟨k, rfl⟩ : ∃ k, t = k + 1 := ⟨t - 1, by
        have : t ≠ 0 := by
          rintro rfl
          omega
        omega⟩
      rw [Nat.add_sub_cancel] at hmin
      rw [Nat.succ_mul] at hr
      omega
    have hmod : t * extent % 2 ^ 32 = r := by omega
    have hq : r / size + 2 ≤ t * extent / size := by
      rw [← Nat.add_mul_div_right r 2 hpos]
      exact Nat.div_le_div_right (by omega)
    have hrs : r / size ≤ r := Nat.div_le_self r size
    rw [hmod, blockOf, Nat.mod_eq_of_lt (by omega)] at ht
    omega

/-! ## When every pixel samples its own block -/

/-- A cell below the bound `hi` of an even area leaves room for its upper neighbour. -/
theorem block_inside {start hi d n : Nat} (h : start < hi) (heven : hi % 2 = 0) (hd : d ≤ 1)
    (hn : hi ≤ n) : start / 2 * 2 + d < n := by
  omega

theorem block_column {b d : Nat} (h : d ≤ 1) : (b * 2 + d) / 2 = b := by omega

/-- A pixel at an offset inside the block of a cell. -/
theorem samples_of_cell {img : RawImage} {color : UInt8} {block : Nat × Nat} {d : Nat × Nat}
    (hd : d.1 ≤ 1 ∧ d.2 ≤ 1) (hcolor : colorAt img.cfaPattern d = color)
    (hin : Inside img (block.1 * 2 + d.1, block.2 * 2 + d.2)) :
    Samples img color block (block.1 * 2 + d.1, block.2 * 2 + d.2) := by
  constructor
  · rw [colorAt_period]
    exact hcolor
  · exact block_column hd.1
  · exact block_column hd.2
  · exact hin

/-- All blocks of the thumbnail are in the first two columns. -/
theorem columns_first {img : RawImage} {width height : UInt32} {tx : Nat}
    (h : BlueReached img width height) (hleft : img.activeLeft < img.activeRight)
    (hwidth : width ≤ img.activeRight - img.activeLeft) (htx : tx < width.toNat) :
    tx * (img.activeRight.toNat - img.activeLeft.toNat) < 2 ^ 32 ∧
      blockOf img.activeLeft.toNat (img.activeRight.toNat - img.activeLeft.toNat) width.toNat tx
        = 0 := by
  have hle := UInt32.le_iff_toNat_le.mp hwidth
  rw [sub_toNat hleft] at hle
  have hl : img.activeLeft.toNat = 0 := by rw [h.left, UInt32.toNat_zero]
  rw [hl, Nat.sub_zero] at hle ⊢
  rcases h.columns with hone | htwo
  · have hw : width.toNat = 1 := by rw [hone, UInt32.toNat_one]
    have hz : tx = 0 := by omega
    rw [hz, blockOf, Nat.zero_mul, Nat.zero_div]
    omega
  · have hr : img.activeRight.toNat = 2 := by rw [htwo]; rfl
    rw [hr] at hle ⊢
    have hq : tx * 2 / width.toNat < 2 := by
      rw [Nat.div_lt_iff_lt_mul (by omega)]
      omega
    rw [blockOf, Nat.zero_add]
    exact ⟨by omega, Nat.div_eq_of_lt hq⟩

/-- The thumbnail's own size does not wrap then. -/
theorem size_fits {img : RawImage} {width height : UInt32} (h : BlueReached img width height)
    (hleft : img.activeLeft < img.activeRight) (htop : img.activeTop < img.activeBottom)
    (hfits : width ≤ img.activeRight - img.activeLeft ∧ height ≤ img.activeBottom - img.activeTop) :
    width.toNat * height.toNat * 3 < 2 ^ 32 := by
  have hle := UInt32.le_iff_toNat_le.mp hfits.1
  have hhe := UInt32.le_iff_toNat_le.mp hfits.2
  have hl : img.activeLeft.toNat = 0 := by rw [h.left, UInt32.toNat_zero]
  rw [sub_toNat hleft, hl, Nat.sub_zero] at hle
  rw [sub_toNat htop] at hhe
  have hw : width.toNat ≤ 2 := by
    rcases h.columns with hone | htwo
    · rw [hone, UInt32.toNat_one]
      omega
    · rw [htwo] at hle
      exact hle
  have hh : height.toNat ≤ 65536 := by
    by_contra hbig
    have hmul : 65536 * 65537 ≤
        (height.toNat - 1) * (img.activeBottom.toNat - img.activeTop.toNat) :=
      Nat.mul_le_mul (by omega) (by omega)
    have := h.rows
    omega
  have hmul : width.toNat * height.toNat ≤ 2 * 65536 := Nat.mul_le_mul hw hh
  omega

theorem entries_fit {width height tx ty : Nat} (htx : tx < width) (hty : ty < height) :
    (ty * width + tx) * 3 + 3 ≤ width * height * 3 := by
  have hrow : (ty + 1) * width ≤ height * width := Nat.mul_le_mul_right width hty
  rw [Nat.succ_mul] at hrow
  rw [Nat.mul_comm width height]
  omega

theorem sampled_of_reached {img : RawImage} {width height : UInt32} {thumb : Thumb}
    (hbayer : Bayer img.cfaPattern) (ha : EvenArea img) (hp : ThumbParts img width height thumb)
    (h : BlueReached img width height) : ThumbSampled img width height thumb := by
  intro tx ty htx hty
  have hsmallx := ofNat_toNat (Nat.lt_trans htx width.toNat_lt)
  have hsmally := ofNat_toNat (Nat.lt_trans hty height.toNat_lt)
  have htx' : UInt32.ofNat tx < width := by rwa [UInt32.lt_iff_toNat_lt, hsmallx]
  have hty' : UInt32.ofNat ty < height := by rwa [UInt32.lt_iff_toNat_lt, hsmally]
  -- both coordinates of the cell are exact
  obtain ⟨hxprod, hxzero⟩ := columns_first h ha.left hp.fits.1 htx
  have hyprod : ty * (img.activeBottom.toNat - img.activeTop.toNat) < 2 ^ 32 :=
    Nat.lt_of_le_of_lt (Nat.mul_le_mul_right _ (by omega)) h.rows
  obtain ⟨hx, hxin⟩ := cell_exact ha.left htx' (by rwa [hsmallx])
  obtain ⟨hy, hyin⟩ := cell_exact ha.top hty' (by rwa [hsmally])
  rw [hsmallx] at hx hxin
  rw [hsmally] at hy hyin
  have hleft := UInt32.le_iff_toNat_le.mp ha.right
  have hbottom := UInt32.le_iff_toNat_le.mp ha.bottom
  have hcell : ∀ d : Nat × Nat, d.1 ≤ 1 → d.2 ≤ 1 →
      ((thumbCell img.activeLeft (img.activeRight - img.activeLeft) width (UInt32.ofNat tx) +
          UInt32.ofNat d.1).toNat,
        (thumbCell img.activeTop (img.activeBottom - img.activeTop) height (UInt32.ofNat ty) +
          UInt32.ofNat d.2).toNat) =
      ((thumbBlock img width height tx ty).1 * 2 + d.1,
        (thumbBlock img width height tx ty).2 * 2 + d.2) := by
    intro d h1 h2
    rw [cell_add h1, cell_add h2, hsmallx, hsmally, hx, hy]
    rfl
  have hin : ∀ d : Nat × Nat, d.1 ≤ 1 → d.2 ≤ 1 →
      Inside img ((thumbBlock img width height tx ty).1 * 2 + d.1,
        (thumbBlock img width height tx ty).2 * 2 + d.2) := by
    intro d h1 h2
    exact ⟨block_inside hxin ha.evenRight h1 hleft, block_inside hyin ha.evenBottom h2 hbottom⟩
  obtain ⟨hred, hgreen, hblue⟩ := colorAt_position hbayer
  obtain ⟨hr1, hr2⟩ := cfaPosition_le img.cfaPattern cfaRed
  obtain ⟨hg1, hg2⟩ := cfaPosition_le img.cfaPattern cfaGreen
  obtain ⟨hb1, hb2⟩ := cfaPosition_le img.cfaPattern cfaBlue
  -- the blue column is right because the block is the first one and green is on the left
  have hbluecell : ((UInt32.ofNat ((cfaPosition img.cfaPattern cfaBlue).1 +
        (cfaPosition img.cfaPattern cfaGreen).1)).toNat,
      (thumbCell img.activeTop (img.activeBottom - img.activeTop) height (UInt32.ofNat ty) +
        UInt32.ofNat (cfaPosition img.cfaPattern cfaBlue).2).toNat) =
      ((thumbBlock img width height tx ty).1 * 2 + (cfaPosition img.cfaPattern cfaBlue).1,
        (thumbBlock img width height tx ty).2 * 2 + (cfaPosition img.cfaPattern cfaBlue).2) := by
    rw [← hcell _ hb1 hb2, cell_add hb1, hsmallx, hx, hxzero, h.green, Nat.add_zero,
      ofNat_small hb1, Nat.zero_mul, Nat.zero_add]
  have hsize := size_fits h ha.left ha.top hp.fits
  have hroom := entries_fit htx hty
  constructor
  · rw [hp.size, Nat.mod_eq_of_lt hsize]
    exact hroom
  · refine ⟨_, _, _, ?_, ?_, samples_of_cell ⟨hr1, hr2⟩ hred (hin _ hr1 hr2),
      samples_of_cell ⟨hg1, hg2⟩ hgreen (hin _ hg1 hg2),
      samples_of_cell ⟨hb1, hb2⟩ hblue (hin _ hb1 hb2)⟩
    · rw [hp.touched tx ty htx hty]
      simp only [thumbPixels, List.map_cons, List.map_nil, hcell _ hr1 hr2, hcell _ hg1 hg2,
        hbluecell]
    · rw [hp.bytes tx ty htx hty]
      simp only [thumbPixels, List.map_cons, List.map_nil, hcell _ hr1 hr2, hcell _ hg1 hg2,
        hbluecell]

/-- Pixels at the ends of the thumbnail say where its blocks are. -/
theorem reached_of_sampled {img : RawImage} {width height : UInt32} {thumb : Thumb}
    (hbayer : Bayer img.cfaPattern) (ha : EvenArea img) (hp : ThumbParts img width height thumb)
    (h : ThumbSampled img width height thumb) : BlueReached img width height := by
  have hlt := UInt32.lt_iff_toNat_lt.mp ha.left
  have htop := UInt32.lt_iff_toNat_lt.mp ha.top
  have hw := UInt32.le_iff_toNat_le.mp hp.fits.1
  have hh := UInt32.le_iff_toNat_le.mp hp.fits.2
  rw [sub_toNat ha.left] at hw
  rw [sub_toNat ha.top] at hh
  have hbmax := img.activeBottom.toNat_lt
  obtain ⟨hwpos, hhpos⟩ := hp.positive
  obtain ⟨hr1, hr2⟩ := cfaPosition_le img.cfaPattern cfaRed
  obtain ⟨hg1, hg2⟩ := cfaPosition_le img.cfaPattern cfaGreen
  obtain ⟨hb1, hb2⟩ := cfaPosition_le img.cfaPattern cfaBlue
  have hsum : (UInt32.ofNat ((cfaPosition img.cfaPattern cfaBlue).1 +
      (cfaPosition img.cfaPattern cfaGreen).1)).toNat =
        (cfaPosition img.cfaPattern cfaBlue).1 + (cfaPosition img.cfaPattern cfaGreen).1 :=
    ofNat_toNat (by omega)
  -- the columns of the blue pixels
  have hblue : (cfaPosition img.cfaPattern cfaGreen).1 = 0 ∧ ∀ tx, tx < width.toNat →
      blockOf img.activeLeft.toNat (img.activeRight.toNat - img.activeLeft.toNat)
        width.toNat tx = 0 := by
    have hcolumn : ∀ tx, tx < width.toNat →
        ((cfaPosition img.cfaPattern cfaBlue).1 + (cfaPosition img.cfaPattern cfaGreen).1) % 2 =
            (cfaPosition img.cfaPattern cfaBlue).1 ∧
          ((cfaPosition img.cfaPattern cfaBlue).1 + (cfaPosition img.cfaPattern cfaGreen).1) / 2 =
            blockOf img.activeLeft.toNat (img.activeRight.toNat - img.activeLeft.toNat)
              width.toNat tx := by
      intro tx htx
      obtain ⟨r, g, b, htouched, _, _, _, hb⟩ := (h tx 0 htx hhpos).pixels
      rw [hp.touched tx 0 htx hhpos] at htouched
      simp only [thumbPixels, List.map_cons, List.map_nil, List.cons.injEq, and_true,
        hsum] at htouched
      obtain ⟨-, -, rfl⟩ := htouched
      exact ⟨blue_column hbayer hb.color, hb.column⟩
    have hzero := hcolumn 0 hwpos
    have hgreen : (cfaPosition img.cfaPattern cfaGreen).1 = 0 := by omega
    refine ⟨hgreen, fun tx htx => ?_⟩
    rw [← (hcolumn tx htx).2, hgreen]
    omega
  have hl : img.activeLeft.toNat = 0 := by
    have hzero := hblue.2 0 hwpos
    rw [blockOf, Nat.zero_mul, Nat.zero_div] at hzero
    have := ha.evenLeft
    omega
  constructor
  · exact hblue.1
  · exact UInt32.toNat_inj.mp hl
  · have hlast := hblue.2 (width.toNat - 1) (by omega)
    rw [hl, Nat.sub_zero, blockOf, Nat.zero_add] at hlast
    rw [hl, Nat.sub_zero] at hw
    have hq : (width.toNat - 1) * img.activeRight.toNat < 2 * width.toNat := by
      rw [← Nat.div_lt_iff_lt_mul hwpos]
      omega
    have heven := ha.evenRight
    by_cases hone : width.toNat = 1
    · left
      exact UInt32.toNat_inj.mp (by rw [hone, UInt32.toNat_one])
    · right
      have hr : img.activeRight.toNat = 2 := by
        by_contra hne
        have hmul : (width.toNat - 1) * 4 ≤ (width.toNat - 1) * img.activeRight.toNat :=
          Nat.mul_le_mul_left _ (by omega)
        omega
      exact UInt32.toNat_inj.mp (by rw [hr]; rfl)
  · -- the rows of the red pixels
    apply fits_of_cells ha.evenTop hhpos hh (by omega)
    intro ty hty
    obtain ⟨r, g, b, htouched, _, hr, _, _⟩ := (h 0 ty hwpos hty).pixels
    rw [hp.touched 0 ty hwpos hty] at htouched
    simp only [thumbPixels, List.map_cons, List.map_nil, List.cons.injEq, and_true,
      cell_add hr2, ofNat_toNat (Nat.lt_trans hty height.toNat_lt), sub_toNat ha.top] at htouched
    obtain ⟨rfl, -, -⟩ := htouched
    have hrow := hr.row
    rwa [block_column hr2] at hrow

/-- A thumbnail samples all three colours from the blocks it is made of exactly when
the wrong column of the blue pixels is the right one and no scaled row wraps. -/
theorem thumb_sampled_iff (malloc : UInt32 → Bool) (img : RawImage) (width height : UInt32)
    (thumb : Thumb) (hbayer : Bayer img.cfaPattern) (ha : EvenArea img)
    (h : rawimgLuaMakeRgbThumb malloc img width height = .ok thumb) :
    ThumbSampled img width height thumb ↔ BlueReached img width height :=
  ⟨reached_of_sampled hbayer ha (thumb_parts h), sampled_of_reached hbayer ha (thumb_parts h)⟩

/-- Two blocks of 8-bit pixels side by side, every byte different. -/
def twoBlocks : ImgSpec where
  data := ⟨8, fun i => UInt8.ofNat (i + 1)⟩
  dataOffset := none
  width := 4
  height := 2
  bpp := 8
  endian := .given .little
  blackLevel := none
  cfaPattern := some [0, 1, 1, 2]
  activeArea := none

theorem thumb_sampled_witness : ∃ img thumb, rawimgLuaBindLbuf twoBlocks = .ok img ∧
    rawimgLuaMakeRgbThumb (fun _ => true) img 1 1 = .ok thumb ∧
    (ThumbSampled img 1 1 thumb ↔ BlueReached img 1 1) :=
  ⟨_, _, rfl, rfl, thumb_sampled_iff (fun _ => true) _ 1 1 _
    ⟨0, 3, by decide, funext (by decide)⟩
    ⟨⟨by decide, by decide, by decide, by decide⟩, by decide, by decide, by decide, by decide⟩ rfl⟩

/-- The blue byte of the second pixel is that of the first block, 6 and not 8. -/
theorem blue_of_wrong_block : ∃ img thumb, rawimgLuaBindLbuf twoBlocks = .ok img ∧
    Bayer img.cfaPattern ∧ EvenArea img ∧
    rawimgLuaMakeRgbThumb (fun _ => true) img 2 1 = .ok thumb ∧
    entries thumb.bytes 2 1 0 = [3, 7, 6] ∧ top8 img (3, 1) = 8 ∧
    ¬ThumbSampled img 2 1 thumb := by
  refine ⟨_, _, rfl, ⟨0, 3, by decide, funext (by decide)⟩,
    ⟨⟨by decide, by decide, by decide, by decide⟩, by decide, by decide, by decide, by decide⟩,
    rfl, by decide, by decide, ?_⟩
  intro h
  obtain ⟨r, g, b, htouched, _, _, _, hb⟩ := (h 1 0 (by decide) (by decide)).pixels
  have hlast : b = (1, 1) := by
    have hmem := congrArg (fun l => l.getD 2 (0, 0)) htouched
    exact hmem.symm
  have hcolumn := hb.column
  rw [hlast] at hcolumn
  revert hcolumn
  decide

end RawThumb
