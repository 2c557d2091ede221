import Chdkptp.LivePlanes

/-!
# Writes inside the planes

A plane has a place for each pixel of half or all of the visible width, while the loops go
over whole groups of pixels. They fill the planes exactly when the groups divide the width;
and the planes are where they should be only if their sizes do not wrap.
-/

namespace LiveWrites

open ByteMemory TracedRead LiveFrame LivePixel LoopPasses LiveImage LiveLoops LivePalette LiveFormats
  LiveCalls LiveReads LivePlanes

variable {α : Type} {malloc : Nat → Option Memory} {im : Option Pimg} {len : Nat} {skip : Bool} {m : Bytes}
  {desc : FbDesc}

/-! ## Sizes -/

/-- The pixels that the image should have. -/
def area (desc : FbDesc) (skip : Bool) : Nat := vwidthOf desc skip * uint32 desc.visibleHeight

theorem dispsizeOf_eq (desc : FbDesc) (skip : Bool) : dispsizeOf desc skip = area desc skip % 2 ^ 32 :=
  rfl

/-- The image has `area` pixels in each plane, written once, and the planes lie in its block. -/
def Exact (desc : FbDesc) (skip : Bool) : Except String Outcome → Prop
  | .ok (.image image written again) =>
    written = area desc skip ∧ (∀ n, again = some n → n = written) ∧
      written ≤ image.size ∧ planesOf image.alpha * image.size ≤ image.block
  | _ => False

/-- Sizes of planes that do not wrap. -/
theorem planes_fit_iff (alpha : Bool) (n : Nat) :
    (n ≤ n % 2 ^ 32 ∧ planesOf alpha * (n % 2 ^ 32) ≤ n % 2 ^ 32 * planesOf alpha % 2 ^ 32) ↔
      planesOf alpha * n < 2 ^ 32 := by
  cases alpha <;> simp only [planesOf, if_true, if_false, Bool.false_eq_true] <;> omega

theorem fill_exact_iff {alpha : Bool} {target : Pimg} {pixels : List Pixel}
    (hmade : Made alpha target) (hsize : target.size = dispsizeOf desc skip)
    (hplanes : alpha = true ∨ ∀ px ∈ pixels, px.length = 3) (again : Option (List UInt8))
    (ended : Bool) :
    Exact desc skip (.ok (fill target pixels again ended)) ↔
      (ended = true ∧ pixels.length = area desc skip ∧
        (∀ l, again = some l → l.length = pixels.length)) ∧
      planesOf alpha * area desc skip < 2 ^ 32 := by
  have hcrash := no_null_plane (hmade.alpha_eq.symm ▸ hplanes)
  have hblock := hmade.block_eq
  rw [hsize, dispsizeOf_eq] at hblock
  have hfit := planes_fit_iff alpha (area desc skip)
  unfold fill
  rw [if_neg hcrash]
  cases ended with
  | false => simp [Exact]
  | true =>
    cases again with
    | none =>
      simp only [if_true, Exact, hmade.alpha_eq, hsize, hblock, dispsizeOf_eq]
      constructor
      · rintro ⟨hcount, -, hle, hplanes⟩
        rw [hcount] at hle
        exact ⟨⟨trivial, hcount, fun l hl => (by cases hl)⟩, hfit.mp ⟨hle, hplanes⟩⟩
      · rintro ⟨⟨-, hcount, -⟩, hsmall⟩
        obtain ⟨hle, hplanes⟩ := hfit.mpr hsmall
        exact ⟨hcount, fun n hn => (by cases hn), hcount.symm ▸ hle, hplanes⟩
    | some l =>
      simp only [if_true, Exact, hmade.alpha_eq, hsize, hblock, dispsizeOf_eq, Option.some.injEq,
        forall_eq']
      constructor
      · rintro ⟨hcount, hagain, hle, hplanes⟩
        rw [hcount] at hle
        exact ⟨⟨trivial, hcount, hagain⟩, hfit.mp ⟨hle, hplanes⟩⟩
      · rintro ⟨⟨-, hcount, hagain⟩, hsmall⟩
        obtain ⟨hle, hplanes⟩ := hfit.mpr hsmall
        exact ⟨hcount, hagain, hcount.symm ▸ hle, hplanes⟩

/-! ## Counts -/

theorem par_cases (skip : Bool) :
    par skip = 1 ∧ (par skip).toNat = 1 ∨ par skip = 2 ∧ (par skip).toNat = 2 := by
  cases skip <;> simp [par]

/-- Half of the samples of a group are left out when every other pixel is skipped. -/
structure Halved (f : Format α) (skip : Bool) : Prop where
  step : f.step = 2 ∨ f.step = 4
  count : ∀ m p, (f.samples m p).length = f.step / (par skip).toNat

theorem yuv_halved (skip : Bool) : Halved (yuv skip) skip :=
  ⟨.inr rfl, fun m p => by cases skip <;> simp [yuv, yuvSamples, par]⟩

theorem uyvy_halved (bias : UInt8) (skip : Bool) : Halved (uyvy bias skip) skip :=
  ⟨.inl rfl, fun m p => by cases skip <;> simp [uyvy, uyvySamples, par]⟩

theorem viewport_halved (fbType : Int) (skip : Bool) : Halved (viewport fbType skip) skip := by
  unfold viewport
  split
  · exact yuv_halved skip
  · split
    · exact uyvy_halved 0x80 skip
    · exact uyvy_halved 0 skip

theorem uyvyAlpha_halved (skip : Bool) : Halved (uyvyAlpha skip) skip :=
  ⟨.inl rfl, fun m p => by cases skip <;> simp [uyvyAlpha, yuvbAlphaSamples, uyvySamples, par]⟩

theorem opacity_halved (skip : Bool) : Halved (opacity skip) skip :=
  ⟨.inl rfl, fun m p => by cases skip <;> simp [opacity, opacitySamples, par]⟩

/-- The groups of a row. -/
def groups (f : Format α) (desc : FbDesc) : Nat := passCount f.step (uint32 desc.visibleWidth)

theorem groups_mul_lt (f : Format α) (desc : FbDesc) :
    groups f desc * f.step < uint32 desc.visibleWidth + f.step := by
  have hpos := f.step_pos
  have hle := Nat.div_mul_le_self (uint32 desc.visibleWidth + f.step - 1) f.step
  rw [groups, passCount]
  omega

theorem uint32_lt (n : Int) : uint32 n < 2 ^ 32 := by
  rw [uint32]
  omega

/-- Loops that end have gone over all groups of all rows. -/
theorem pointers_end {f : Format α} (hwrap : groups f desc * f.step < 2 ^ 32) {limit : Nat}
    (hlimit : uint32 desc.visibleHeight + groups f desc < limit) :
    (f.pointers desc limit).2 = true ∧
      (f.pointers desc limit).1.length = uint32 desc.visibleHeight * groups f desc := by
  rw [groups] at hlimit
  rw [Format.pointers, groupPointers_end f.step_pos f.inc _ (uint32_lt _) hwrap (by omega) (by omega)]
  refine ⟨rfl, ?_⟩
  simp only [List.length_flatMap, List.length_map, List.length_range, List.map_const',
    List.sum_replicate_nat]
  rfl

theorem made_length {f : Format α} (hf : Halved f skip) (m : Bytes) (desc : FbDesc) (limit : Nat) :
    (f.made m desc limit).length = (f.pointers desc limit).1.length * (f.step / (par skip).toNat) := by
  rw [Format.made]
  induction (f.pointers desc limit).1 with
  | nil => simp
  | cons p l ih =>
    rw [List.flatMap_cons, List.length_append, ih, hf.count, List.length_cons, Nat.add_mul,
      Nat.one_mul, Nat.add_comm]

/-- What a row makes, and what the image has a place for. -/
theorem row_exact_iff {f : Format α} (hf : Halved f skip) (desc : FbDesc) :
    groups f desc * (f.step / (par skip).toNat) = uint32 desc.visibleWidth / (par skip).toNat ↔
      f.step ∣ uint32 desc.visibleWidth := by
  rw [groups, passCount]
  rcases hf.step with hstep | hstep <;> rcases par_cases skip with ⟨-, hpar⟩ | ⟨-, hpar⟩ <;>
    rw [hstep, hpar] <;> omega

/-- The width of the image when the visible width is not negative. -/
theorem vwidthOf_nonneg (hwidth : 0 ≤ desc.visibleWidth) (hrange : desc.visibleWidth < 2 ^ 31) :
    vwidthOf desc skip = uint32 desc.visibleWidth / (par skip).toNat := by
  rw [vwidthOf, Int.tdiv_eq_ediv_of_nonneg hwidth]
  rcases par_cases skip with ⟨hpar, hpar'⟩ | ⟨hpar, hpar'⟩ <;> rw [hpar', hpar, uint32, uint32] <;>
    omega

/-- A negative visible width counts as a huge one. -/
theorem vwidthOf_neg (hwidth : desc.visibleWidth < 0) (hrange : -2 ^ 31 ≤ desc.visibleWidth) :
    vwidthOf desc skip = 0 ∨ 2 ^ 31 ≤ vwidthOf desc skip := by
  have hone : (1 : Int).sign = 1 := rfl
  have htwo : (2 : Int).sign = 1 := rfl
  rw [vwidthOf, Int.tdiv_eq_ediv]
  rcases par_cases skip with ⟨hpar, -⟩ | ⟨hpar, -⟩ <;> rw [hpar, uint32] <;> split <;> omega

theorem area_factors (hsize : dispsizeOf desc skip ≠ 0) :
    vwidthOf desc skip ≠ 0 ∧ uint32 desc.visibleHeight ≠ 0 := by
  constructor <;> intro h <;> rw [dispsizeOf, h] at hsize <;> simp at hsize

/-- An accepted framebuffer with sizes that do not wrap has no negative width. -/
theorem width_nonneg (hrange : -2 ^ 31 ≤ desc.visibleWidth) (hsize : dispsizeOf desc skip ≠ 0)
    (hsmall : area desc skip < 2 ^ 31) : 0 ≤ desc.visibleWidth := by
  obtain ⟨hcolumns, hrows⟩ := area_factors hsize
  rw [area] at hsmall
  by_contra hneg
  rcases vwidthOf_neg (Int.not_le.mp hneg) hrange with hzero | hhuge
  · exact hcolumns hzero
  · have hle := Nat.mul_le_mul hhuge (Nat.pos_of_ne_zero hrows)
    omega

theorem groups_wrap {f : Format α} (hf : Halved f skip) (hwidth : 0 ≤ desc.visibleWidth)
    (hrange : desc.visibleWidth < 2 ^ 31) : groups f desc * f.step < 2 ^ 32 := by
  have hlt := groups_mul_lt f desc
  have huint : uint32 desc.visibleWidth < 2 ^ 31 := by
    rw [uint32]
    omega
  rcases hf.step with hstep | hstep <;> omega

/-- Loops that are looked at long enough make a sample for each pixel exactly when the groups
divide the width. -/
theorem made_exact_iff {f : Format α} (hf : Halved f skip) (hwidth : 0 ≤ desc.visibleWidth)
    (hrange : desc.visibleWidth < 2 ^ 31) (hheight : uint32 desc.visibleHeight ≠ 0) (m : Bytes)
    {limit : Nat} (hlimit : uint32 desc.visibleHeight + groups f desc < limit) :
    (f.made m desc limit).length = area desc skip ↔ (f.step : Int) ∣ desc.visibleWidth := by
  have huint : (uint32 desc.visibleWidth : Int) = desc.visibleWidth := by
    rw [uint32]
    omega
  rw [made_length hf, (pointers_end (groups_wrap hf hwidth hrange) hlimit).2, Nat.mul_assoc, area,
    vwidthOf_nonneg hwidth hrange, Nat.mul_comm (_ / _), Nat.mul_right_inj hheight, row_exact_iff hf,
    ← Int.natCast_dvd_natCast, huint]

/-- What holds in the end. -/
theorem eventually_iff {P : Nat → Prop} {Q : Prop} {bound : Nat}
    (h : ∀ limit, bound < limit → (P limit ↔ Q)) : (∃ least, ∀ limit ≥ least, P limit) ↔ Q := by
  constructor
  · rintro ⟨least, hall⟩
    exact (h (least + bound + 1) (by omega)).mp (hall _ (by omega))
  · intro hq
    exact ⟨bound + 1, fun limit hlimit => (h limit hlimit).mpr hq⟩

/-! ## Viewports -/

theorem area_small (alpha : Bool) (h : planesOf alpha * area desc skip < 2 ^ 32) :
    area desc skip < 2 ^ 31 := by
  cases alpha <;> simp only [planesOf, if_true, if_false, Bool.false_eq_true] at h <;> omega

theorem viewport_exact_iff (him : ∀ i, im = some i → Made false i) {vp : FbDesc} {target : Pimg}
    (h : VpConverts malloc im len skip m vp target) :
    (∃ least, ∀ limit ≥ least, Exact vp skip (getViewportPimg malloc limit im len skip m).1) ↔
      ((viewport vp.fbType skip).step : Int) ∣ vp.visibleWidth ∧ planesOf false * area vp skip < 2 ^ 32 := by
  obtain ⟨reads, hdesc⟩ := Traced.eq_of_fst h.desc
  have haccepted := getVpDesc_accepted hdesc
  obtain ⟨-, hheight⟩ := haccepted.dims h.size
  obtain ⟨hmade, hwidth', hheight'⟩ := vpTarget_made him h.target
  have hsize : target.size = dispsizeOf vp skip := by
    rw [hmade.size_eq, hwidth', hheight']
    rfl
  have hf := viewport_halved vp.fbType skip
  have hcall : ∀ limit, Exact vp skip (getViewportPimg malloc limit im len skip m).1 ↔
      (((viewport vp.fbType skip).pointers vp limit).2 = true ∧
        ((viewport vp.fbType skip).made m vp limit).length = area vp skip) ∧
      planesOf false * area vp skip < 2 ^ 32 := by
    intro limit
    obtain ⟨reads', hconvert, -⟩ := convertViewport_apply limit vp skip target m
    rw [getViewportPimg_converts h hdesc hconvert, fill_exact_iff hmade hsize
      (.inr (viewport_length vp.fbType skip m vp limit))]
    simp
  refine eventually_iff fun limit
    (hlimit : uint32 vp.visibleHeight + groups (viewport vp.fbType skip) vp < limit) => ?_
  rw [hcall]
  refine and_congr_left fun hsmall => ?_
  have hwidth := width_nonneg haccepted.width_range.1 h.size (area_small false hsmall)
  have hrange := haccepted.width_range.2
  rw [and_iff_right (pointers_end (groups_wrap hf hwidth hrange) hlimit).1]
  exact made_exact_iff hf hwidth hrange hheight m hlimit

/-! ## Bitmaps -/

theorem area_congr {desc' : FbDesc} (hwidth : desc.visibleWidth = desc'.visibleWidth)
    (hheight : desc.visibleHeight = desc'.visibleHeight) : area desc' skip = area desc skip := by
  rw [area, area, vwidthOf, vwidthOf, hwidth, hheight]

theorem groups_congr {β : Type} (f : Format α) (g : Format β) {desc' : FbDesc}
    (hstep : f.step = g.step) (hwidth : desc.visibleWidth = desc'.visibleWidth) :
    groups g desc' = groups f desc := by
  rw [groups, groups, hstep, hwidth]

/-- The opacity fills the last plane once more. -/
theorem yuvBitmap_exact_iff {bm bmo : FbDesc} {target : Pimg} (hmade : Made true target)
    (hsize : target.size = dispsizeOf bm skip) {start : Int} {reads : List Int}
    (haccepted : Accepted m (int32 len) start bm reads) (hsome : dispsizeOf bm skip ≠ 0)
    (hwidths : bm.visibleWidth = bmo.visibleWidth) (hheights : bm.visibleHeight = bmo.visibleHeight)
    {limit : Nat} (hlimit : uint32 bm.visibleHeight + groups (uyvyAlpha skip) bm < limit) :
    Exact bm skip (.ok (if bmo.dataStart ≠ 0 ∧ ((uyvyAlpha skip).pointers bm limit).2 then
        fill target ((uyvyAlpha skip).made m bm limit) (some ((opacity skip).made m bmo limit))
          ((opacity skip).pointers bmo limit).2
      else fill target ((uyvyAlpha skip).made m bm limit) none
        ((uyvyAlpha skip).pointers bm limit).2)) ↔
      (2 : Int) ∣ bm.visibleWidth ∧ planesOf true * area bm skip < 2 ^ 32 := by
  have hheight := (haccepted.dims hsome).2
  have hf := uyvyAlpha_halved skip
  have hg := opacity_halved skip
  have hlimit' : uint32 bmo.visibleHeight + groups (opacity skip) bmo < limit := by
    rwa [groups_congr (uyvyAlpha skip) (opacity skip) rfl hwidths, ← hheights]
  have hfacts : planesOf true * area bm skip < 2 ^ 32 →
      ((uyvyAlpha skip).pointers bm limit).2 = true ∧ ((opacity skip).pointers bmo limit).2 = true ∧
        (((uyvyAlpha skip).made m bm limit).length = area bm skip ↔ (2 : Int) ∣ bm.visibleWidth) ∧
        (((opacity skip).made m bmo limit).length = area bm skip ↔ (2 : Int) ∣ bm.visibleWidth) := by
    intro hsmall
    have hwidth := width_nonneg haccepted.width_range.1 hsome (area_small true hsmall)
    have hrange := haccepted.width_range.2
    refine ⟨(pointers_end (groups_wrap hf hwidth hrange) hlimit).1,
      (pointers_end (groups_wrap hg (hwidths ▸ hwidth) (hwidths ▸ hrange)) hlimit').1,
      made_exact_iff hf hwidth hrange hheight m hlimit, ?_⟩
    rw [← area_congr hwidths hheights, hwidths]
    exact made_exact_iff hg (hwidths ▸ hwidth) (hwidths ▸ hrange) (hheights ▸ hheight) m hlimit'
  split
  · rw [fill_exact_iff hmade hsize (.inl rfl)]
    refine and_congr_left fun hsmall => ?_
    obtain ⟨hended, hended', hcount, hcount'⟩ := hfacts hsmall
    simp only [hended', true_and, Option.some.injEq, forall_eq']
    exact ⟨fun h => hcount.mp h.1, fun h => ⟨hcount.mpr h, by rw [hcount'.mpr h, hcount.mpr h]⟩⟩
  · rw [fill_exact_iff hmade hsize (.inl rfl)]
    refine and_congr_left fun hsmall => ?_
    obtain ⟨hended, -, hcount, -⟩ := hfacts hsmall
    simp only [hended, true_and, reduceCtorEq, false_imp_iff, implies_true, and_true]
    exact hcount

theorem palBitmap_exact_iff {bm : FbDesc} {target : Pimg} (hmade : Made true target)
    (hsize : target.size = dispsizeOf bm skip) {start : Int} {reads : List Int}
    (haccepted : Accepted m (int32 len) start bm reads) (hsome : dispsizeOf bm skip ≠ 0)
    {limit : Nat} (hlimit : bm.visibleHeight.toNat + palCount bm skip < limit) :
    Exact bm skip (.ok (fill target (palMade m bm skip limit) none (bitmapPointers bm skip limit).2)) ↔
      par skip ∣ bm.visibleWidth ∧ planesOf true * area bm skip < 2 ^ 32 := by
  rw [fill_exact_iff hmade hsize (.inl rfl)]
  refine and_congr_left fun hsmall => ?_
  have hwidth := width_nonneg haccepted.width_range.1 hsome (area_small true hsmall)
  have hrange := haccepted.width_range.2
  obtain ⟨hcolumns, hrows⟩ := area_factors hsome
  have hheight : (uint32 bm.visibleHeight : Int) = bm.visibleHeight := by
    have hle : uint32 bm.visibleHeight ≤ area bm skip :=
      Nat.le_mul_of_pos_left _ (Nat.pos_of_ne_zero hcolumns)
    have hlt : uint32 bm.visibleHeight < 2 ^ 31 := hle.trans_lt (area_small true hsmall)
    have hbounds := haccepted.height_range
    rw [uint32] at hlt ⊢
    omega
  have huint : (uint32 bm.visibleWidth : Int) = bm.visibleWidth := by
    rw [uint32]
    omega
  have hlength : (palMade m bm skip limit).length = (bitmapPointers bm skip limit).1.length :=
    List.length_map _
  simp only [reduceCtorEq, false_imp_iff, implies_true, and_true]
  by_cases hend : PalEndless bm skip
  · obtain ⟨limit, rfl⟩ := Nat.exists_eq_add_of_lt hlimit
    rw [bitmapPointers_endless hend (by omega)]
    refine iff_of_false (fun h => Bool.false_ne_true h.1) ?_
    obtain ⟨rfl, hodd⟩ := hend
    rw [hodd]
    decide
  · have hrow : palCount bm skip = uint32 bm.visibleWidth / (par skip).toNat ↔
        par skip ∣ bm.visibleWidth := by
      have htoNat : bm.visibleWidth.toNat = uint32 bm.visibleWidth := by omega
      rw [palCount, passCount, htoNat]
      rcases par_cases skip with ⟨hpar, hpar'⟩ | ⟨hpar, hpar'⟩ <;> rw [hpar', hpar] <;> omega
    rw [hlength, bitmapPointers_end haccepted.height_range.2 (palCount_fits hrange hend) (by omega)
      (by omega), and_iff_right rfl, ← hrow]
    simp only [List.length_flatMap, List.length_map, List.length_range, List.map_const',
      List.sum_replicate_nat]
    have htoNat : bm.visibleHeight.toNat = uint32 bm.visibleHeight := by omega
    rw [area, vwidthOf_nonneg hwidth hrange, Nat.mul_comm (_ / _), htoNat, Nat.mul_right_inj hrows]

/-- The pixels of a bitmap that are taken together, in the loop for its format. -/
def bitmapGroup (skip : Bool) : Option FbDesc → Int
  | some _ => 2
  | none => par skip

theorem bitmap_exact_iff (him : ∀ i, im = some i → Made true i) {bm : FbDesc} {bmo : Option FbDesc}
    {target : Pimg} (h : BmConverts malloc im len skip m bm bmo target) :
    (∃ least, ∀ limit ≥ least, Exact bm skip (getBitmapPimg malloc limit im len skip m).1) ↔
      (bmo = none → sourceOf m ≠ .null) ∧ bitmapGroup skip bmo ∣ bm.visibleWidth ∧
        planesOf true * area bm skip < 2 ^ 32 := by
  obtain ⟨reads, hdesc⟩ := Traced.eq_of_fst h.desc
  obtain ⟨checked, hcheck⟩ := Traced.eq_of_fst h.check
  have haccepted := getBmDesc_accepted hdesc
  obtain ⟨hmade, hsize⟩ := bmTarget_made him h.target
  have hcall : ∀ limit r reads', convertBitmap limit bm bmo skip target m = (r, reads') →
      (getBitmapPimg malloc limit im len skip m).1 = r := by
    intro limit r reads' hconvert
    rw [getBitmapPimg_converts h hdesc hcheck hconvert]
  cases bmo with
  | some bmo =>
    obtain ⟨-, hwidths, hheights⟩ := checkBitmap_some hcheck
    simp only [reduceCtorEq, false_imp_iff, true_and]
    refine eventually_iff fun limit
      (hlimit : uint32 bm.visibleHeight + groups (uyvyAlpha skip) bm < limit) => ?_
    obtain ⟨reads', hconvert, -⟩ := convertYuvBitmap_apply limit bm bmo skip target m
    rw [hcall limit _ reads' hconvert]
    exact yuvBitmap_exact_iff hmade hsize haccepted h.size hwidths hheights hlimit
  | none =>
    by_cases hnull : sourceOf m = .null
    · have hnever : ∀ limit, ¬Exact bm skip (getBitmapPimg malloc limit im len skip m).1 := by
        intro limit
        obtain ⟨reads', hconvert⟩ := convertPalBitmap_null hnull limit bm skip target
        rw [hcall limit _ reads' hconvert]
        exact id
      refine (eventually_iff fun limit (_ : 0 < limit) => iff_of_false (hnever limit) id).trans ?_
      exact iff_of_false id fun hfine => hfine.1 rfl hnull
    · rw [and_iff_right fun _ => hnull]
      refine eventually_iff fun limit (hlimit : bm.visibleHeight.toNat + palCount bm skip < limit) => ?_
      obtain ⟨reads', hconvert, -⟩ := convertPalBitmap_apply hnull limit bm skip target
      rw [hcall limit _ reads' hconvert]
      exact palBitmap_exact_iff hmade hsize haccepted h.size hlimit

/-- The conversions fill the planes and nothing else exactly when the groups divide the width
and no size wraps. -/
theorem writes_exact_iff (malloc : Nat → Option Memory) (len : Nat) (skip : Bool) (m : Bytes) :
    (∀ im, (∀ i, im = some i → VpReturned i) → ∀ vp target,
      VpConverts malloc im len skip m vp target →
        ((∃ least, ∀ limit ≥ least, Exact vp skip (getViewportPimg malloc limit im len skip m).1) ↔
          ((viewport vp.fbType skip).step : Int) ∣ vp.visibleWidth ∧
            planesOf false * area vp skip < 2 ^ 32)) ∧
    ∀ im, (∀ i, im = some i → BmReturned i) → ∀ bm bmo target,
      BmConverts malloc im len skip m bm bmo target →
        ((∃ least, ∀ limit ≥ least, Exact bm skip (getBitmapPimg malloc limit im len skip m).1) ↔
          (bmo = none → sourceOf m ≠ .null) ∧ bitmapGroup skip bmo ∣ bm.visibleWidth ∧
            planesOf true * area bm skip < 2 ^ 32) :=
  ⟨fun _ him _ _ h => viewport_exact_iff (fun i hi => (him i hi).made) h,
    fun _ him _ _ _ h => bitmap_exact_iff (fun i hi => (him i hi).made) h⟩

/-! ## Frames -/

theorem fourPixels_converts : VpConverts newMemory none 74 false (fourPixels [68, 0, 0, 0])
    ⟨0, 68, 4, 4, 1⟩ ⟨4, 1, false, 4, 12, fun _ => 0⟩ where
  desc := by decide +kernel
  start := by decide
  size := by decide
  target := rfl

theorem writes_exact_witness : ∃ least, ∀ limit ≥ least, Exact ⟨0, 68, 4, 4, 1⟩ false
    (getViewportPimg newMemory limit none 74 false (fourPixels [68, 0, 0, 0])).1 :=
  ((writes_exact_iff newMemory 74 false (fourPixels [68, 0, 0, 0])).1 none
    (fun _ hi => (by cases hi)) _ _ fourPixels_converts).mpr ⟨by decide, by decide⟩

/-- The same frame with half of the columns visible. -/
def twoPixels : Bytes :=
  around ([2, 0, 0, 0, 2, 0, 0, 0, 0, 0, 0, 0, 0, 0, 0, 0, 0, 0, 0, 0, 32, 0, 0, 0] ++
    [0, 0, 0, 0, 0, 0, 0, 0] ++
    [0, 0, 0, 0, 68, 0, 0, 0, 4, 0, 0, 0, 2, 0, 0, 0, 1, 0, 0, 0] ++
    [0, 0, 0, 0, 0, 0, 0, 0, 0, 0, 0, 0, 0, 0, 0, 0] ++ [0, 1, 0, 2, 3, 4])

/-- A group of four pixels does not fit into planes of two. -/
theorem group_overruns : ¬∃ least, ∀ limit ≥ least, Exact ⟨0, 68, 4, 2, 1⟩ false
    (getViewportPimg newMemory limit none 74 false twoPixels).1 := by
  have hconverts : VpConverts newMemory none 74 false twoPixels ⟨0, 68, 4, 2, 1⟩
      ⟨2, 1, false, 2, 6, fun _ => 0⟩ :=
    ⟨by decide +kernel, by decide, by decide, rfl⟩
  rw [viewport_exact_iff (fun _ hi => (by cases hi)) hconverts]
  decide

end LiveWrites
