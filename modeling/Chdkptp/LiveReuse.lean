import Chdkptp.LiveImageDump
import Chdkptp.LiveWrites

/-!
# Images that are used again

An image that was passed in is used again when it has as many pixels as the frame needs. The
loops cover its planes, so that nothing of the earlier frame is left in them. A viewport is
given its width and height as well; a bitmap keeps those of the earlier frame.
-/

namespace LiveReuse

open ByteMemory TracedRead LiveFrame LivePixel LoopPasses LiveImage LiveLoops LivePalette LiveFormats
  LiveCalls LiveReads LivePlanes LiveWrites LiveImageDump

variable {α : Type} {malloc malloc' : Nat → Option Memory} {len limit : Nat} {skip : Bool} {m : Bytes}
  {desc bm : FbDesc}

/-! ## Planes that are covered -/

/-- What was there before is left or stored over. -/
theorem store_agree {stores : List (Nat × UInt8)} {o : Nat} {data data' : Memory}
    (h : data o = data' o) : store stores data o = store stores data' o := by
  by_cases hstored : ∃ s ∈ stores, s.1 = o
  · exact store_congr hstored data data'
  · have hother : ∀ s ∈ stores, s.1 ≠ o := fun s hs heq => hstored ⟨s, hs, heq⟩
    rw [store_other hother, store_other hother, h]

/-- Sample `i` of plane `j`. -/
def sample (im : Pimg) (j i : Nat) : UInt8 := im.data (j * im.size + i)

/-- The same planes. -/
structure SamePlanes (a b : Pimg) : Prop where
  alpha : a.alpha = b.alpha
  size : a.size = b.size
  sample : ∀ j < planesOf a.alpha, ∀ i < a.size, sample a j i = sample b j i

/-- The same image. -/
structure Same (a b : Pimg) : Prop extends SamePlanes a b where
  width : a.width = b.width
  height : a.height = b.height

theorem plane_lt {planes size j i : Nat} (hj : j < planes) (hi : i < size) :
    j * size + i < planes * size := by
  have hle : (j + 1) * size ≤ planes * size := Nat.mul_le_mul_right size hj
  rw [Nat.add_mul, Nat.one_mul] at hle
  omega

/-- Two images with the same places are filled with the same, if the pixels cover them. -/
theorem fill_same {target target' image' : Pimg} {pixels : List Pixel}
    {again : Option (List UInt8)} {ended : Bool} {written : Nat} {written' : Option Nat}
    (halpha : target.alpha = target'.alpha) (hsize : target.size = target'.size)
    (hcovers : target'.size ≤ pixels.length)
    (hplanes : ∀ px ∈ pixels, px.length = planesOf target'.alpha)
    (h : fill target' pixels again ended = .image image' written written') :
    ∃ image, fill target pixels again ended = .image image written written' ∧
      SamePlanes image image' := by
  have hstored : ∀ j < planesOf target'.alpha, ∀ i < target'.size,
      store (imageStores target'.size 0 pixels) target.data (j * target'.size + i) =
        store (imageStores target'.size 0 pixels) target'.data (j * target'.size + i) :=
    fun j hj i hi => store_congr (stored_of_covered hcovers hplanes (plane_lt hj hi)) _ _
  unfold fill at h ⊢
  rw [halpha, hsize]
  split at h
  · cases h
  · rename_i hcrash
    rw [if_neg hcrash]
    cases ended with
    | false => cases h
    | true =>
      cases again with
      | none =>
        cases h
        refine ⟨_, rfl, rfl, rfl, fun j hj i hi => ?_⟩
        exact hstored j hj i hi
      | some alpha =>
        cases h
        refine ⟨_, rfl, rfl, rfl, fun j hj i hi => ?_⟩
        exact store_agree (hstored j hj i hi)

theorem fill_ended {target image : Pimg} {pixels : List Pixel} {again : Option (List UInt8)}
    {ended : Bool} {written : Nat} {written' : Option Nat}
    (h : fill target pixels again ended = .image image written written') : ended = true := by
  unfold fill at h
  split at h
  · cases h
  · split at h
    · assumption
    · cases h

/-! ## Loops that cover -/

/-- The sizes of a valid framebuffer are not negative. -/
structure Valid (desc : FbDesc) : Prop where
  width : 0 ≤ desc.visibleWidth
  height : 0 ≤ desc.visibleHeight

theorem pointers_ended {f : Format α} (hheight : uint32 desc.visibleHeight ≠ 0)
    (hwrap : groups f desc * f.step < 2 ^ 32) (h : (f.pointers desc limit).2 = true) :
    (f.pointers desc limit).1.length = uint32 desc.visibleHeight * groups f desc := by
  obtain ⟨hrows, hcolumns⟩ := groupPointers_ended f.step_pos hheight (uint32_lt _) hwrap h
  rw [Format.pointers, groupPointers_end f.step_pos f.inc _ (uint32_lt _) hwrap hrows hcolumns]
  simp only [List.length_flatMap, List.length_map, List.length_range, List.map_const',
    List.sum_replicate_nat]
  rfl

theorem row_covers {f : Format α} (hf : Halved f skip) (desc : FbDesc) :
    uint32 desc.visibleWidth / (par skip).toNat ≤ groups f desc * (f.step / (par skip).toNat) := by
  rw [groups, passCount]
  rcases hf.step with hstep | hstep <;> rcases par_cases skip with ⟨-, hpar⟩ | ⟨-, hpar⟩ <;>
    rw [hstep, hpar] <;> omega

theorem dispsizeOf_le (desc : FbDesc) (skip : Bool) : dispsizeOf desc skip ≤ area desc skip := by
  rw [dispsizeOf_eq]
  exact Nat.mod_le _ _

/-- Loops that have ended have made a sample for every pixel. -/
theorem made_covers {f : Format α} (hf : Halved f skip) (hwidth : 0 ≤ desc.visibleWidth)
    (hrange : desc.visibleWidth < 2 ^ 31) (hheight : uint32 desc.visibleHeight ≠ 0) (m : Bytes)
    (h : (f.pointers desc limit).2 = true) : dispsizeOf desc skip ≤ (f.made m desc limit).length := by
  refine (dispsizeOf_le desc skip).trans ?_
  rw [made_length hf, pointers_ended hheight (groups_wrap hf hwidth hrange) h, area,
    vwidthOf_nonneg hwidth hrange, Nat.mul_comm (_ / _), Nat.mul_assoc]
  exact Nat.mul_le_mul_left _ (row_covers hf desc)

theorem uyvyAlpha_length (skip : Bool) (m : Bytes) (bm : FbDesc) (limit : Nat) :
    ∀ px ∈ (uyvyAlpha skip).made m bm limit, px.length = 4 := by
  intro px hpx
  obtain ⟨p, -, hpx⟩ := List.mem_flatMap.mp hpx
  obtain ⟨rgb, hrgb, rfl⟩ := List.mem_map.mp hpx
  rw [List.length_append, uyvySamples_length 0x80 skip m p rgb hrgb]
  rfl

theorem palettePixel_length (m : Bytes) (source : Source) (b : UInt8) :
    (palettePixel m source b).length = 4 := by
  unfold palettePixel
  split
  · exact typePixel_length ..
  · exact typePixel_length ..

theorem palMade_length (m : Bytes) (bm : FbDesc) (skip : Bool) (limit : Nat) :
    ∀ px ∈ palMade m bm skip limit, px.length = 4 := by
  intro px hpx
  obtain ⟨p, -, rfl⟩ := List.mem_map.mp hpx
  exact palettePixel_length m (sourceOf m) (m p)

theorem palRow_covers (hwidth : 0 ≤ bm.visibleWidth) (hrange : bm.visibleWidth < 2 ^ 31) :
    uint32 bm.visibleWidth / (par skip).toNat ≤ palCount bm skip := by
  have huint : uint32 bm.visibleWidth = bm.visibleWidth.toNat := by
    rw [uint32]
    omega
  rw [palCount, passCount, huint]
  rcases par_cases skip with ⟨-, hpar⟩ | ⟨-, hpar⟩ <;> rw [hpar] <;> omega

theorem palMade_covers {start : Int} {reads : List Int} (hvalid : Valid bm)
    (haccepted : Accepted m (int32 len) start bm reads) (hsize : dispsizeOf bm skip ≠ 0)
    (h : (bitmapPointers bm skip limit).2 = true) :
    dispsizeOf bm skip ≤ (palMade m bm skip limit).length := by
  have hwidths := haccepted.width_range
  have hheights := haccepted.height_range
  have huint : uint32 bm.visibleHeight = bm.visibleHeight.toNat := by
    have hnonneg := hvalid.height
    rw [uint32]
    omega
  have hrows := (area_factors hsize).2
  have hend : ¬PalEndless bm skip := by
    intro hend
    cases limit with
    | zero => cases h
    | succ limit =>
      rw [bitmapPointers_endless hend (by omega)] at h
      cases h
  have hfit := palCount_fits hwidths.2 hend
  obtain ⟨hlimit, hlimit'⟩ := bitmapPointers_ended (by omega) hheights.2 hfit h
  have hlength : (palMade m bm skip limit).length = bm.visibleHeight.toNat * palCount bm skip := by
    rw [palMade, List.length_map, bitmapPointers_end hheights.2 hfit hlimit hlimit']
    simp only [List.length_flatMap, List.length_map, List.length_range, List.map_const',
      List.sum_replicate_nat]
  refine (dispsizeOf_le bm skip).trans ?_
  rw [hlength, area, vwidthOf_nonneg hvalid.width hwidths.2, huint, Nat.mul_comm (_ / _)]
  exact Nat.mul_le_mul_left _ (palRow_covers hvalid.width hwidths.2)

theorem unpackBitmap_length (limit : Nat) (bm : FbDesc) (bmo : Option FbDesc) (skip : Bool) (m : Bytes) :
    ∀ px ∈ (unpackBitmap limit bm bmo skip m).pixels, px.length = 4 := by
  unfold unpackBitmap
  split
  · split
    · exact uyvyAlpha_length skip m bm limit
    · exact uyvyAlpha_length skip m bm limit
  · exact palMade_length m bm skip limit

theorem unpackBitmap_covers {bmo : Option FbDesc} {start : Int} {reads : List Int} (hvalid : Valid bm)
    (haccepted : Accepted m (int32 len) start bm reads) (hsize : dispsizeOf bm skip ≠ 0)
    (h : (unpackBitmap limit bm bmo skip m).ended = true) :
    dispsizeOf bm skip ≤ (unpackBitmap limit bm bmo skip m).pixels.length := by
  have hyuv : ((uyvyAlpha skip).pointers bm limit).2 = true →
      dispsizeOf bm skip ≤ ((uyvyAlpha skip).made m bm limit).length :=
    made_covers (uyvyAlpha_halved skip) hvalid.width haccepted.width_range.2
      (haccepted.dims hsize).2 m
  unfold unpackBitmap at h ⊢
  split at h
  · split at h
    · rename_i hopacity
      rw [if_pos hopacity]
      exact hyuv hopacity.2
    · rename_i hopacity
      rw [if_neg hopacity]
      exact hyuv h
  · exact palMade_covers hvalid haccepted hsize h

/-! ## Calls -/

variable {old new target : Pimg} {written : Nat} {again : Option Nat}

/-- There is memory for an image if there was for one of this size. -/
theorem pimgInit_some (hmem : ∀ n, (malloc' n).isSome → (malloc n).isSome) {alpha : Bool}
    {width height : Nat} (h : pimgInit malloc' alpha width height = some new) :
    ∃ new', pimgInit malloc alpha width height = some new' := by
  simp only [pimgInit] at h ⊢
  split at h
  · cases h
  · rename_i hsize
    rw [if_neg hsize]
    obtain ⟨data, hdata, -⟩ := Option.map_eq_some_iff.mp h
    obtain ⟨data', hdata'⟩ := Option.isSome_iff_exists.mp (hmem _ (by rw [hdata]; rfl))
    exact ⟨_, by rw [hdata']; rfl⟩

/-- The call returns the same image. -/
def Gives (r : Except String Outcome) (new : Pimg) : Prop :=
  ∃ image written again, r = .ok (.image image written again) ∧ Same image new

/-- An image is the same when the dimensions of what has been filled are. -/
theorem gives_iff {target' : Pimg} {pixels : List Pixel} {again' : Option (List UInt8)} {ended : Bool}
    (halpha : target.alpha = target'.alpha) (hsize : target.size = target'.size)
    (hcovers : target'.size ≤ pixels.length)
    (hplanes : ∀ px ∈ pixels, px.length = planesOf target'.alpha)
    (h : fill target' pixels again' ended = .image new written again) :
    Gives (.ok (fill target pixels again' ended)) new ↔
      target.width = target'.width ∧ target.height = target'.height := by
  obtain ⟨image, hfill, hsame⟩ := fill_same halpha hsize hcovers hplanes h
  obtain ⟨data, rfl⟩ := fill_image hfill
  obtain ⟨data', rfl⟩ := fill_image h
  constructor
  · rintro ⟨image, written', again, himage, hall⟩
    rw [hfill] at himage
    cases himage
    exact ⟨hall.width, hall.height⟩
  · rintro ⟨hwidth, hheight⟩
    exact ⟨_, _, _, by rw [hfill], { hsame with width := hwidth, height := hheight }⟩

theorem viewport_reuse {vp : FbDesc} (hold : VpReturned old)
    (hvp : (getVpDesc (int32 len) m).1 = .ok vp) (hvalid : Valid vp)
    (hmem : ∀ n, (malloc' n).isSome → (malloc n).isSome)
    (hnew : (getViewportPimg malloc' limit none len skip m).1 = .ok (.image new written again)) :
    Gives (getViewportPimg malloc limit (some old) len skip m).1 new := by
  obtain ⟨vp', target', hconverts, hfill⟩ := getViewportPimg_image hnew
  obtain rfl : vp' = vp := Except.ok.inj (hconverts.desc.symm.trans hvp)
  have hinit : pimgInit malloc' false (vwidthOf vp' skip) (uint32 vp'.visibleHeight) = some target' :=
    hconverts.target
  obtain ⟨target, htarget⟩ : ∃ target, vpTarget malloc (some old) vp' skip = some target := by
    unfold vpTarget
    split
    · exact ⟨_, rfl⟩
    · exact pimgInit_some hmem hinit
  have hreuse : VpConverts malloc (some old) len skip m vp' target :=
    { hconverts with target := htarget }
  obtain ⟨hmade, hwidth, hheight⟩ := vpTarget_made (fun i hi => Option.some.inj hi ▸ hold.made) htarget
  obtain ⟨hmade', hwidth', hheight'⟩ := pimgInit_made hinit
  have hsize' : target'.size = dispsizeOf vp' skip := by
    rw [hmade'.size_eq, hwidth', hheight']
    rfl
  have hsize : target.size = dispsizeOf vp' skip := by
    rw [hmade.size_eq, hwidth, hheight]
    rfl
  obtain ⟨reads, hdesc⟩ := Traced.eq_of_fst hconverts.desc
  have haccepted := getVpDesc_accepted hdesc
  have hended := fill_ended hfill
  have hcovers := made_covers (viewport_halved vp'.fbType skip) hvalid.width haccepted.width_range.2
    (haccepted.dims hconverts.size).2 m hended
  rw [getViewportPimg_fill hreuse, gives_iff (hmade.alpha_eq.trans hmade'.alpha_eq.symm)
    (hsize.trans hsize'.symm) (hsize'.trans_le hcovers) ?_ hfill]
  · exact ⟨hwidth.trans hwidth'.symm, hheight.trans hheight'.symm⟩
  · rw [hmade'.alpha_eq]
    exact viewport_length vp'.fbType skip m vp' limit

/-- A bitmap is converted into an image of its own shape if the image has as many pixels. -/
def Fitting (old : Pimg) (bm : FbDesc) (skip : Bool) : Prop :=
  old.width * old.height % 2 ^ 32 = dispsizeOf bm skip →
    old.width = vwidthOf bm skip ∧ old.height = uint32 bm.visibleHeight

theorem bitmap_reuse_iff (hold : BmReturned old) (hbm : (getBmDesc (int32 len) m).1 = .ok bm)
    (hvalid : Valid bm) (hmem : ∀ n, (malloc' n).isSome → (malloc n).isSome)
    (hnew : (getBitmapPimg malloc' limit none len skip m).1 = .ok (.image new written again)) :
    Gives (getBitmapPimg malloc limit (some old) len skip m).1 new ↔ Fitting old bm skip := by
  obtain ⟨bm', bmo, target', hconverts, hsource, hfill⟩ := getBitmapPimg_image hnew
  obtain rfl : bm' = bm := Except.ok.inj (hconverts.desc.symm.trans hbm)
  have hinit : pimgInit malloc' true (vwidthOf bm' skip) (uint32 bm'.visibleHeight) = some target' :=
    hconverts.target
  obtain ⟨target, htarget⟩ : ∃ target, bmTarget malloc (some old) bm' skip = some target := by
    unfold bmTarget
    split
    · exact ⟨_, rfl⟩
    · exact pimgInit_some hmem hinit
  have hreuse : BmConverts malloc (some old) len skip m bm' bmo target :=
    { hconverts with target := htarget }
  obtain ⟨hmade, hsize⟩ := bmTarget_made (fun i hi => Option.some.inj hi ▸ hold.made) htarget
  obtain ⟨hmade', hwidth', hheight'⟩ := pimgInit_made hinit
  have hsize' : target'.size = dispsizeOf bm' skip := by
    rw [hmade'.size_eq, hwidth', hheight']
    rfl
  obtain ⟨reads, hdesc⟩ := Traced.eq_of_fst hconverts.desc
  have hcovers := unpackBitmap_covers hvalid (getBmDesc_accepted hdesc) hconverts.size
    (fill_ended hfill)
  have hshape := bmTarget_shape htarget
  rw [getBitmapPimg_fill hreuse hsource, gives_iff (hmade.alpha_eq.trans hmade'.alpha_eq.symm)
    (hsize.trans hsize'.symm) (hsize'.trans_le hcovers) ?_ hfill, hwidth', hheight', hshape]
  · constructor
    · intro hall harea
      exact hall old (Option.filter_eq_some_iff.mpr ⟨rfl, decide_eq_true harea⟩)
    · intro hfitting i hi
      obtain ⟨hold', harea⟩ := reusable_eq_some hi
      obtain rfl := Option.some.inj hold'
      exact hfitting harea
  · rw [hmade'.alpha_eq]
    exact unpackBitmap_length limit bm' bmo skip m

/-- A frame makes the same image of an image that has been returned before as it does without:
a viewport always, and a bitmap exactly when it fits. -/
theorem reuse_same_iff {malloc malloc' : Nat → Option Memory} {len limit : Nat} {skip : Bool} {m : Bytes}
    (hmem : ∀ n, (malloc' n).isSome → (malloc n).isSome) :
    (∀ old, VpReturned old → ∀ vp, (getVpDesc (int32 len) m).1 = .ok vp → Valid vp →
      ∀ new written again,
        (getViewportPimg malloc' limit none len skip m).1 = .ok (.image new written again) →
        Gives (getViewportPimg malloc limit (some old) len skip m).1 new) ∧
    ∀ old, BmReturned old → ∀ bm, (getBmDesc (int32 len) m).1 = .ok bm → Valid bm →
      ∀ new written again,
        (getBitmapPimg malloc' limit none len skip m).1 = .ok (.image new written again) →
        (Gives (getBitmapPimg malloc limit (some old) len skip m).1 new ↔ Fitting old bm skip) :=
  ⟨fun _ hold _ hvp hvalid _ _ _ hnew => viewport_reuse hold hvp hvalid hmem hnew,
    fun _ hold _ hbm hvalid _ _ _ hnew => bitmap_reuse_iff hold hbm hvalid hmem hnew⟩

/-! ## Frames -/

def imageSize : Except String Outcome → Option (Nat × Nat)
  | .ok (.image im _ _) => some (im.width, im.height)
  | _ => none

theorem exists_image {r : Except String Outcome} (width height : Nat)
    (h : imageSize r = some (width, height)) :
    ∃ image written again, r = .ok (.image image written again) ∧ image.width = width ∧
      image.height = height := by
  unfold imageSize at h
  split at h
  · obtain ⟨rfl, rfl⟩ := Prod.mk.inj (Option.some.inj h)
    exact ⟨_, _, _, rfl, rfl, rfl⟩
  · cases h

theorem bmReturned_row : ∃ old, BmReturned old ∧ old.width = 2 ∧ old.height = 1 := by
  obtain ⟨old, written, again, hold, hwidth, hheight⟩ := exists_image
    (r := (getBitmapPimg newMemory 8 none 70 false (twoPal8 2 1)).1) 2 1 (by decide +kernel)
  exact ⟨old, .call (fun i hi => by cases hi) hold, hwidth, hheight⟩

theorem reuse_witness :
    (∃ old new, VpReturned old ∧
      Gives (getViewportPimg newMemory 8 (some old) 74 false (fourPixels [68, 0, 0, 0])).1 new) ∧
    ∃ old new, BmReturned old ∧
      Gives (getBitmapPimg newMemory 8 (some old) 70 false (twoPal8 2 1)).1 new := by
  constructor
  · obtain ⟨old, written, again, hold, -, -⟩ := exists_image
      (r := (getViewportPimg newMemory 8 none 74 false (fourPixels [68, 0, 0, 0])).1) 4 1
      (by decide +kernel)
    have hreturned : VpReturned old := .call (fun i hi => by cases hi) hold
    have hdesc : (getVpDesc (int32 74) (fourPixels [68, 0, 0, 0])).1 = .ok ⟨0, 68, 4, 4, 1⟩ := by
      decide +kernel
    exact ⟨old, old, hreturned, (reuse_same_iff fun _ h => h).1 old hreturned _ hdesc
      ⟨by decide, by decide⟩ old written again hold⟩
  · obtain ⟨new, written, again, hnew, hwidth, hheight⟩ := exists_image
      (r := (getBitmapPimg newMemory 8 none 70 false (twoPal8 2 1)).1) 2 1 (by decide +kernel)
    have hreturned : BmReturned new := .call (fun i hi => by cases hi) hnew
    have hdesc : (getBmDesc (int32 70) (twoPal8 2 1)).1 = .ok ⟨1, 68, 2, 2, 1⟩ := by
      decide +kernel
    refine ⟨new, new, hreturned, ((reuse_same_iff fun _ h => h).2 new hreturned _ hdesc
      ⟨by decide, by decide⟩ new written again hnew).mpr fun _ => ⟨hwidth, hheight⟩⟩

/-- A column of two pixels after a row of two. -/
theorem row_not_reshaped : ∃ old new, BmReturned old ∧
    (∃ written again, (getBitmapPimg newMemory 8 none 70 false (twoPal8 1 2)).1 =
      .ok (.image new written again)) ∧
    ¬Gives (getBitmapPimg newMemory 8 (some old) 70 false (twoPal8 1 2)).1 new := by
  obtain ⟨old, hreturned, hwidth, hheight⟩ := bmReturned_row
  obtain ⟨new, written, again, hnew, -, -⟩ := exists_image
    (r := (getBitmapPimg newMemory 8 none 70 false (twoPal8 1 2)).1) 1 2 (by decide +kernel)
  have hdesc : (getBmDesc (int32 70) (twoPal8 1 2)).1 = .ok ⟨1, 68, 1, 1, 2⟩ := by
    decide +kernel
  refine ⟨old, new, hreturned, ⟨written, again, hnew⟩, fun hgives => ?_⟩
  have hfitting := (bitmap_reuse_iff hreturned hdesc ⟨by decide, by decide⟩ (fun _ h => h) hnew).mp hgives
  have hshape := hfitting (by rw [hwidth, hheight]; rfl)
  rw [hwidth] at hshape
  exact absurd hshape.1 (by decide)

end LiveReuse
