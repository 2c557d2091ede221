import Chdkptp.LiveLoops
import Chdkptp.LivePalette

/-!
# The formats of live view frames

The loops of `liveimg.c` differ in the size of their groups, the bytes that a pass reads of
one and the samples that it makes of them. The conversions are loops of these formats.
-/

namespace LiveFormats

open TracedRead LiveFrame LivePixel LoopPasses LiveImage LiveLoops LivePalette

variable {α : Type}

/-- The loops over the groups of a format. The last three fields say that a counter that
wraps takes the pointer out of every frame. -/
structure Format (α : Type) where
  /-- The pixels of a group. -/
  step : Nat
  /-- The bytes of a group. -/
  inc : Int
  rowInc : Nat → Nat
  /-- The bytes of a group up to the last one that is read. -/
  touch : Int
  samples : Bytes → Int → List α
  step_pos : 0 < step
  step_dvd : step ∣ 2 ^ 32
  inc_pos : 0 < inc
  touch_nonneg : 0 ≤ touch
  span : 2 ^ 32 ≤ (2 ^ 32 / step - 1 : Nat) * inc + touch + 1

/-- The 12-bit format. -/
def yuv (skip : Bool) : Format Pixel where
  step := 4
  inc := 6
  rowInc bufWidth := bufWidth * 12 % 2 ^ 32 / 8
  touch := if skip then 4 else 6
  samples := yuvSamples skip
  step_pos := by decide
  step_dvd := by decide
  inc_pos := by decide
  touch_nonneg := by cases skip <;> decide
  span := by cases skip <;> decide

/-- The 16-bit formats of viewports. -/
def uyvy (bias : UInt8) (skip : Bool) : Format Pixel where
  step := 2
  inc := 4
  rowInc bufWidth := bufWidth * 16 % 2 ^ 32 / 8
  touch := if skip then 3 else 4
  samples := uyvySamples bias skip
  step_pos := by decide
  step_dvd := by decide
  inc_pos := by decide
  touch_nonneg := by cases skip <;> decide
  span := by cases skip <;> decide

/-- The 16-bit format of bitmaps. -/
def uyvyAlpha (skip : Bool) : Format Pixel where
  step := 2
  inc := 4
  rowInc bufWidth := bufWidth * 16 % 2 ^ 32 / 8
  touch := 4
  samples := yuvbAlphaSamples skip
  step_pos := by decide
  step_dvd := by decide
  inc_pos := by decide
  touch_nonneg := by decide
  span := by decide

def opacity (skip : Bool) : Format UInt8 where
  step := 2
  inc := 2
  rowInc bufWidth := bufWidth
  touch := if skip then 1 else 2
  samples := opacitySamples skip
  step_pos := by decide
  step_dvd := by decide
  inc_pos := by decide
  touch_nonneg := by cases skip <;> decide
  span := by cases skip <;> decide

/-- The format of a viewport type. -/
def viewport (fbType : Int) (skip : Bool) : Format Pixel :=
  if fbType = LV_FB_YUV8 then yuv skip
  else if fbType = LV_FB_YUV8B then uyvy 0x80 skip
  else uyvy 0 skip

namespace Format

/-- The pointers to the groups of a framebuffer, in the order of the loops. -/
def pointers (f : Format α) (desc : FbDesc) (limit : Nat) : List Int × Bool :=
  groupPointers f.step (uint32 desc.visibleWidth) f.inc (uint32 desc.visibleHeight)
    (f.rowInc (uint32 desc.bufferWidth)) limit desc.dataStart

/-- What the loops make of a framebuffer. -/
def made (f : Format α) (m : Bytes) (desc : FbDesc) (limit : Nat) : List α :=
  (f.pointers desc limit).1.flatMap (f.samples m)

/-- The groups of the first and of the last row lie in the frame. -/
def Fits (f : Format α) (desc : FbDesc) (len : Nat) : Prop :=
  RowsFit f.step f.inc (f.rowInc (uint32 desc.bufferWidth)) f.touch desc.dataStart
    (uint32 desc.visibleWidth) (uint32 desc.visibleHeight) len

/-- All groups lie in the frame, as far as they are read. -/
def Inside (f : Format α) (desc : FbDesc) (limit len : Nat) : Prop :=
  ∀ p ∈ (f.pointers desc limit).1, 0 ≤ p ∧ p + f.touch ≤ len

theorem inside_iff (f : Format α) {desc : FbDesc} {len : Nat} (hlen : len < 2 ^ 32)
    (hstart : desc.dataStart ≠ 0) (hwidth : uint32 desc.visibleWidth ≠ 0)
    (hheight : uint32 desc.visibleHeight ≠ 0) (least : Nat) :
    (∀ limit ≥ least, f.Inside desc limit len) ↔ f.Fits desc len := by
  have hheight' : uint32 desc.visibleHeight < 2 ^ 32 := by
    rw [uint32]
    omega
  exact groupPointers_inside_iff f.step_pos f.step_dvd f.inc_pos f.touch_nonneg f.span hstart
    hwidth hheight hheight' hlen least

/-- Loops over a framebuffer that fits end. -/
theorem ended_of_fits (f : Format α) {desc : FbDesc} {len : Nat} (hlen : len < 2 ^ 32)
    (hstart : desc.dataStart ≠ 0) (hheight : uint32 desc.visibleHeight ≠ 0)
    (h : f.Fits desc len) : ∃ least, ∀ limit ≥ least, (f.pointers desc limit).2 = true := by
  have hheight' : uint32 desc.visibleHeight < 2 ^ 32 := by
    rw [uint32]
    omega
  have hwrap : passCount f.step (uint32 desc.visibleWidth) * f.step < 2 ^ 32 := by
    rw [← Nat.not_le]
    exact fun hle => not_rowsFit f.inc_pos f.span hstart hheight hlen hle h
  refine ⟨uint32 desc.visibleHeight + passCount f.step (uint32 desc.visibleWidth) + 1,
    fun limit hlimit => ?_⟩
  rw [pointers, groupPointers_end f.step_pos f.inc _ hheight' hwrap (by omega) (by omega)]

/-- The loops of `body` are those of a format. -/
theorem loops_apply (f : Format α) {body : Int → Read (List α)}
    (hbody : ReadsGroup body f.samples f.touch) (desc : FbDesc) (limit : Nat) (m : Bytes) :
    ∃ reads, liveLoops f.step f.inc (f.rowInc (uint32 desc.bufferWidth)) limit body desc.dataStart
        (uint32 desc.visibleWidth) (uint32 desc.visibleHeight) m =
        (.ok (f.made m desc limit, (f.pointers desc limit).2), reads) ∧
      ∀ len : Nat, Traced.Inside 0 len reads ↔ f.Inside desc limit len := by
  obtain ⟨reads, happly, hinside⟩ := liveLoops_apply hbody f.step f.inc
    (f.rowInc (uint32 desc.bufferWidth)) limit desc.dataStart (uint32 desc.visibleWidth)
    (uint32 desc.visibleHeight) m
  exact ⟨reads, happly, fun len => hinside 0 len⟩

end Format

/-! ## The conversions -/

/-- The loops of a format, and then the image. -/
theorem fill_apply {loops : Read (List Pixel × Bool)} {pixels : List Pixel} {ended : Bool}
    {reads : List Int} {m : Bytes} (h : loops m = (.ok (pixels, ended), reads)) (im : Pimg) :
    (do let r ← loops; return fill im r.1 none r.2) m = (.ok (fill im pixels none ended), reads) := by
  have hfill := Traced.bind_apply (f := fun r : List Pixel × Bool =>
    (return fill im r.1 none r.2 : Read Outcome)) h rfl
  rwa [List.append_nil] at hfill

/-- The image has a plane for each sample. -/
theorem no_null_plane {im : Pimg} {pixels : List Pixel}
    (h : im.alpha = true ∨ ∀ px ∈ pixels, px.length = 3) :
    ¬(!im.alpha && pixels.any fun px => 3 < px.length) = true := by
  rcases h with h | h
  · simp [h]
  · simp only [Bool.and_eq_true, List.any_eq_true, decide_eq_true_eq, not_and, not_exists]
    rintro - px hpx hlong
    rw [h px hpx] at hlong
    omega

theorem convertViewport_apply (limit : Nat) (vp : FbDesc) (skip : Bool) (im : Pimg) (m : Bytes) :
    let f := viewport vp.fbType skip
    ∃ reads, convertViewport limit vp skip im m =
        (.ok (fill im (f.made m vp limit) none (f.pointers vp limit).2), reads) ∧
      ∀ len : Nat, Traced.Inside 0 len reads ↔ f.Inside vp limit len := by
  intro f
  by_cases h12 : vp.fbType = LV_FB_YUV8
  · obtain ⟨reads, happly, hinside⟩ := (yuv skip).loops_apply (yuvGroup_reads skip) vp limit m
    simp only [f, convertViewport, viewport, if_pos h12]
    exact ⟨reads, fill_apply happly im, hinside⟩
  · by_cases hbiased : vp.fbType = LV_FB_YUV8B
    · obtain ⟨reads, happly, hinside⟩ :=
        (uyvy 0x80 skip).loops_apply (uyvyGroup_reads 0x80 skip) vp limit m
      simp only [f, convertViewport, viewport, if_neg h12, if_pos hbiased]
      exact ⟨reads, fill_apply happly im, hinside⟩
    · obtain ⟨reads, happly, hinside⟩ :=
        (uyvy 0 skip).loops_apply (uyvyGroup_reads 0 skip) vp limit m
      simp only [f, convertViewport, viewport, if_neg h12, if_neg hbiased]
      exact ⟨reads, fill_apply happly im, hinside⟩

/-- A YUV bitmap with its opacity, which is converted after the bitmap. -/
theorem convertYuvBitmap_apply (limit : Nat) (bm bmo : FbDesc) (skip : Bool) (im : Pimg) (m : Bytes) :
    let f := uyvyAlpha skip
    let g := opacity skip
    ∃ reads, convertYuvBitmap limit bm bmo skip im m =
        (.ok (if bmo.dataStart ≠ 0 ∧ (f.pointers bm limit).2 then
          fill im (f.made m bm limit) (some (g.made m bmo limit)) (g.pointers bmo limit).2
        else fill im (f.made m bm limit) none (f.pointers bm limit).2), reads) ∧
      ∀ len : Nat, Traced.Inside 0 len reads ↔ f.Inside bm limit len ∧
        (bmo.dataStart ≠ 0 ∧ (f.pointers bm limit).2 → g.Inside bmo limit len) := by
  intro f g
  obtain ⟨reads, happly, hinside⟩ := f.loops_apply (yuvbAlphaGroup_reads skip) bm limit m
  by_cases hopacity : bmo.dataStart ≠ 0 ∧ (f.pointers bm limit).2 = true
  · obtain ⟨reads', happly', hinside'⟩ := g.loops_apply (opacityGroup_reads skip) bmo limit m
    refine ⟨reads ++ (reads' ++ []), Traced.bind_apply happly ?_, fun len => ?_⟩
    · simp only [if_pos hopacity]
      exact Traced.bind_apply happly' rfl
    · rw [List.append_nil, Traced.inside_append, hinside, hinside']
      exact and_congr_right fun _ => ⟨fun h _ => h, fun h => h hopacity⟩
  · refine ⟨reads ++ [], Traced.bind_apply happly ?_, fun len => ?_⟩
    · simp only [if_neg hopacity]
      rfl
    · rw [List.append_nil, hinside]
      exact ⟨fun h => ⟨h, fun ho => absurd ho hopacity⟩, fun h => h.1⟩

/-- The pixels of a paletted bitmap. -/
def palMade (m : Bytes) (bm : FbDesc) (skip : Bool) (limit : Nat) : List Pixel :=
  (bitmapPointers bm skip limit).1.map fun p => palettePixel m (sourceOf m) (m p)

theorem convertPalBitmap_null (h : sourceOf m = .null) (limit : Nat) (bm : FbDesc) (skip : Bool)
    (im : Pimg) : ∃ reads, convertPalBitmap limit bm skip im m = (.ok .crash, reads) := by
  obtain ⟨reads, hpalette, -⟩ := convertPalette_apply m
  rw [h] at hpalette
  exact ⟨_, Traced.bind_apply hpalette rfl⟩

theorem convertPalBitmap_apply (h : sourceOf m ≠ .null) (limit : Nat) (bm : FbDesc) (skip : Bool)
    (im : Pimg) :
    ∃ reads, convertPalBitmap limit bm skip im m =
        (.ok (fill im (palMade m bm skip limit) none (bitmapPointers bm skip limit).2), reads) ∧
      ∀ len : Nat, 20 ≤ len → (Traced.Inside 0 len reads ↔ PaletteFits len (sourceOf m) ∧
        ∀ p ∈ (bitmapPointers bm skip limit).1, 0 ≤ p ∧ p < len) := by
  obtain ⟨reads, hpalette, hinside⟩ := convertPalette_apply m
  have hmade : madePalette m (sourceOf m) = some (allBytes.map (palettePixel m (sourceOf m))) := by
    cases hsource : sourceOf m with
    | frame type start => rfl
    | default => rfl
    | null => exact absurd hsource h
  have hpixels : Traced.each (bitmapPointers bm skip limit).1 (fun p => (do
      let b ← Traced.byteAt p
      return (allBytes.map (palettePixel m (sourceOf m))).getD b.toNat [] : Read Pixel)) m =
        (.ok (palMade m bm skip limit), (bitmapPointers bm skip limit).1.flatMap fun p => [p]) := by
    refine Traced.each_eq (fun p => palettePixel m (sourceOf m) (m p)) (fun p => [p]) _ fun p _ => ?_
    rw [Traced.byteAt_bind_apply, getD_allBytes]
    rfl
  rw [hmade] at hpalette
  refine ⟨_, Traced.bind_apply hpalette (Traced.bind_apply hpixels rfl), fun len hlen => ?_⟩
  have hfields : Traced.Inside 0 len paletteFields := by
    simp only [paletteFields, Traced.inside_cons, Traced.inside_nil, and_true]
    omega
  rw [List.append_nil, List.flatMap_singleton', Traced.inside_append, Traced.inside_append,
    hinside h, and_iff_right hfields]
  exact Iff.rfl

/-- What the loops make of a bitmap, and whether they have ended. -/
structure Unpacked where
  pixels : List Pixel
  again : Option (List UInt8)
  ended : Bool

def unpackBitmap (limit : Nat) (bm : FbDesc) (bmo : Option FbDesc) (skip : Bool) (m : Bytes) : Unpacked :=
  match bmo with
  | some bmo =>
    if bmo.dataStart ≠ 0 ∧ ((uyvyAlpha skip).pointers bm limit).2 then
      { pixels := (uyvyAlpha skip).made m bm limit
        again := some ((opacity skip).made m bmo limit)
        ended := ((opacity skip).pointers bmo limit).2 }
    else
      { pixels := (uyvyAlpha skip).made m bm limit
        again := none
        ended := ((uyvyAlpha skip).pointers bm limit).2 }
  | none =>
    { pixels := palMade m bm skip limit, again := none, ended := (bitmapPointers bm skip limit).2 }

/-- Any image is filled with the same. -/
theorem convertBitmap_unpacked {m : Bytes} {bmo : Option FbDesc} (h : bmo = none → sourceOf m ≠ .null)
    (limit : Nat) (bm : FbDesc) (skip : Bool) (im : Pimg) :
    ∃ reads, convertBitmap limit bm bmo skip im m =
      (.ok (fill im (unpackBitmap limit bm bmo skip m).pixels
        (unpackBitmap limit bm bmo skip m).again (unpackBitmap limit bm bmo skip m).ended), reads) := by
  cases bmo with
  | some bmo =>
    obtain ⟨reads, hconvert, -⟩ := convertYuvBitmap_apply limit bm bmo skip im m
    refine ⟨reads, hconvert.trans ?_⟩
    rw [unpackBitmap]
    split <;> rfl
  | none =>
    obtain ⟨reads, hconvert, -⟩ := convertPalBitmap_apply (h rfl) limit bm skip im
    exact ⟨reads, hconvert⟩

/-- A bitmap fills an image, unless its palette has no function. -/
theorem convertBitmap_fill {limit : Nat} {skip : Bool} {m : Bytes} {bm : FbDesc} {bmo : Option FbDesc}
    {target : Pimg} {r : Except String Outcome} {reads : List Int}
    (h : convertBitmap limit bm bmo skip target m = (r, reads)) :
    bmo = none ∧ sourceOf m = .null ∧ r = .ok .crash ∨
      r = .ok (fill target (unpackBitmap limit bm bmo skip m).pixels
        (unpackBitmap limit bm bmo skip m).again (unpackBitmap limit bm bmo skip m).ended) := by
  by_cases hsource : bmo = none → sourceOf m ≠ .null
  · obtain ⟨reads', hconvert⟩ := convertBitmap_unpacked hsource limit bm skip target
    obtain ⟨rfl, -⟩ := Prod.mk.inj (hconvert.symm.trans h)
    exact .inr rfl
  · obtain ⟨rfl, hnull⟩ := Classical.not_imp.mp hsource
    obtain ⟨reads', hconvert⟩ := convertPalBitmap_null (not_not.mp hnull) limit bm skip target
    obtain ⟨rfl, -⟩ := Prod.mk.inj (hconvert.symm.trans h)
    exact .inl ⟨rfl, not_not.mp hnull, rfl⟩

end LiveFormats
