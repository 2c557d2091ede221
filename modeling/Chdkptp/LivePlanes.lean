import Chdkptp.LiveCalls
import Chdkptp.LiveReads

/-!
# Planes

What the conversions store: sample `j` of pixel `i` goes to offset `i` of plane `j`. Images
come from the two functions only, so their planes are where they were allocated for an area
of as many pixels.
-/

namespace LivePlanes

open ByteMemory TracedRead LiveFrame LivePixel LiveImage LiveLoops LivePalette LiveFormats LiveCalls
  LiveReads

/-- An image as it has been allocated, whatever it has been reused for. -/
structure Made (alpha : Bool) (im : Pimg) : Prop where
  alpha_eq : im.alpha = alpha
  size_eq : im.size = im.width * im.height % 2 ^ 32
  block_eq : im.block = im.size * planesOf alpha % 2 ^ 32

/-! ## Stores -/

section Equations

variable (size o : Nat)

theorem pixelStores_nil : pixelStores size o [] = [] := rfl

theorem pixelStores_cons (v : UInt8) (px : Pixel) :
    pixelStores size o (v :: px) = (o, v) :: pixelStores size (o + size) px := rfl

theorem imageStores_nil : imageStores size o [] = [] := rfl

theorem imageStores_cons (px : Pixel) (pixels : List Pixel) :
    imageStores size o (px :: pixels) =
      pixelStores size o px ++ imageStores size (o + 1) pixels := rfl

end Equations

theorem store_append (a b : List (Nat × UInt8)) (data : Memory) :
    store (a ++ b) data = store b (store a data) := List.foldl_append

theorem store_other {stores : List (Nat × UInt8)} {o : Nat} (h : ∀ s ∈ stores, s.1 ≠ o)
    (data : Memory) : store stores data o = data o := by
  induction stores generalizing data with
  | nil => rfl
  | cons s stores ih =>
    change store stores (put data s.1 s.2) o = data o
    rw [ih fun t ht => h t (List.mem_cons_of_mem _ ht)]
    exact put_other _ _ _ _ fun heq => h s List.mem_cons_self heq.symm

/-- What has been stored does not depend on what was there. -/
theorem store_congr {stores : List (Nat × UInt8)} {o : Nat} (h : ∃ s ∈ stores, s.1 = o)
    (data data' : Memory) : store stores data o = store stores data' o := by
  induction stores generalizing data data' with
  | nil =>
    obtain ⟨s, hs, -⟩ := h
    cases hs
  | cons s stores ih =>
    change store stores (put data s.1 s.2) o = store stores (put data' s.1 s.2) o
    by_cases hlater : ∃ t ∈ stores, t.1 = o
    · exact ih hlater _ _
    · have hother : ∀ t ∈ stores, t.1 ≠ o := fun t ht heq => hlater ⟨t, ht, heq⟩
      obtain ⟨t, ht, rfl⟩ := h
      rcases List.mem_cons.mp ht with rfl | ht
      · rw [store_other hother, store_other hother, put_same, put_same]
      · exact absurd rfl (hother t ht)

/-- All stores at a place store the same. -/
theorem store_unique {stores : List (Nat × UInt8)} {o : Nat} {v : UInt8} (hmem : (o, v) ∈ stores)
    (hsame : ∀ s ∈ stores, s.1 = o → s.2 = v) (data : Memory) : store stores data o = v := by
  induction stores generalizing data with
  | nil => cases hmem
  | cons s stores ih =>
    change store stores (put data s.1 s.2) o = v
    by_cases hlater : ∃ t ∈ stores, t.1 = o
    · obtain ⟨t, ht, rfl⟩ := hlater
      refine ih ?_ (fun u hu => hsame u (List.mem_cons_of_mem _ hu)) _
      rw [← hsame t (List.mem_cons_of_mem _ ht) rfl]
      exact ht
    · rw [store_other fun t ht heq => hlater ⟨t, ht, heq⟩]
      rcases List.mem_cons.mp hmem with rfl | hmem
      · exact put_same _ _ _
      · exact absurd ⟨_, hmem, rfl⟩ hlater

theorem mem_pixelStores {size o : Nat} {px : Pixel} {s : Nat × UInt8} :
    s ∈ pixelStores size o px ↔ ∃ j, ∃ h : j < px.length, s = (o + j * size, px[j]) := by
  induction px generalizing o with
  | nil => simp [pixelStores_nil]
  | cons v px ih =>
    rw [pixelStores_cons, List.mem_cons, ih]
    constructor
    · rintro (rfl | ⟨j, hj, rfl⟩)
      · exact ⟨0, by simp, by simp⟩
      · refine ⟨j + 1, by simpa using hj, ?_⟩
        rw [List.getElem_cons_succ, Nat.add_mul, Nat.one_mul, Nat.add_assoc, Nat.add_comm size]
    · rintro ⟨j, hj, rfl⟩
      cases j with
      | zero => exact .inl (by simp)
      | succ j =>
        refine .inr ⟨j, by simpa using hj, ?_⟩
        rw [List.getElem_cons_succ, Nat.add_mul, Nat.one_mul, Nat.add_assoc, Nat.add_comm size]

theorem mem_imageStores {size o : Nat} {pixels : List Pixel} {s : Nat × UInt8} :
    s ∈ imageStores size o pixels ↔ ∃ i, ∃ hi : i < pixels.length, ∃ j, ∃ hj : j < pixels[i].length,
      s = (o + i + j * size, pixels[i][j]) := by
  induction pixels generalizing o with
  | nil => simp [imageStores_nil]
  | cons px pixels ih =>
    rw [imageStores_cons, List.mem_append, mem_pixelStores, ih]
    constructor
    · rintro (⟨j, hj, rfl⟩ | ⟨i, hi, j, hj, rfl⟩)
      · exact ⟨0, by simp, j, hj, by simp⟩
      · refine ⟨i + 1, by simpa using hi, j, hj, ?_⟩
        rw [← Nat.add_assoc, Nat.add_right_comm o i 1]
        rfl
    · rintro ⟨i, hi, j, hj, rfl⟩
      cases i with
      | zero => exact .inl ⟨j, hj, by simp⟩
      | succ i =>
        refine .inr ⟨i, by simpa using hi, j, hj, ?_⟩
        rw [← Nat.add_assoc, Nat.add_right_comm o i 1]
        rfl

theorem store_pixelStores {size : Nat} (hsize : 0 < size) {px : Pixel} (o : Nat) (data : Memory)
    {j : Nat} (hj : j < px.length) : store (pixelStores size o px) data (o + j * size) = px[j] := by
  induction px generalizing o data j with
  | nil => cases hj
  | cons v px ih =>
    change store (pixelStores size (o + size) px) (put data o v) (o + j * size) = _
    cases j with
    | zero =>
      have hlater : ∀ s ∈ pixelStores size (o + size) px, s.1 ≠ o + 0 * size := by
        intro s hs heq
        obtain ⟨j, hj', rfl⟩ := mem_pixelStores.mp hs
        change o + size + j * size = o + 0 * size at heq
        omega
      rw [store_other hlater, Nat.zero_mul]
      exact put_same _ _ _
    | succ j =>
      have hrest := ih (o + size) (put data o v) (by simpa using hj)
      rw [List.getElem_cons_succ, ← hrest, Nat.add_mul, Nat.one_mul, Nat.add_assoc,
        Nat.add_comm size]

/-- Pixels that fit into a plane do not overwrite one another. -/
theorem store_imageStores {size : Nat} {pixels : List Pixel} (hsize : pixels.length ≤ size)
    (o : Nat) (data : Memory) {i : Nat} (hi : i < pixels.length) {j : Nat}
    (hj : j < pixels[i].length) :
    store (imageStores size o pixels) data (o + i + j * size) = pixels[i][j] := by
  induction pixels generalizing o data i with
  | nil => cases hi
  | cons px pixels ih =>
    rw [List.length_cons] at hi hsize
    rw [imageStores_cons, store_append]
    cases i with
    | zero =>
      have hlater : ∀ s ∈ imageStores size (o + 1) pixels, s.1 ≠ o + j * size := by
        intro s hs heq
        obtain ⟨i', hi', j', hj', rfl⟩ := mem_imageStores.mp hs
        have hoff : i' + 1 + j' * size = j * size := by
          change o + 1 + i' + j' * size = o + j * size at heq
          omega
        have hmod := congrArg (· % size) hoff
        simp only [Nat.add_mul_mod_self_right, Nat.mul_mod_left] at hmod
        rw [Nat.mod_eq_of_lt (by omega)] at hmod
        cases hmod
      exact (store_other hlater _).trans (store_pixelStores (by omega) o data hj)
    | succ i =>
      have hrest := ih (by omega) (o + 1) (store (pixelStores size o px) data) (by omega) hj
      rw [Nat.add_right_comm o 1 i] at hrest
      exact hrest

/-- A plane that is filled with samples has no place left. -/
theorem stored_of_covered {size planes : Nat} {pixels : List Pixel} (hsize : size ≤ pixels.length)
    (hplanes : ∀ px ∈ pixels, px.length = planes) {o : Nat} (ho : o < planes * size) :
    ∃ s ∈ imageStores size 0 pixels, s.1 = o := by
  have hpos : 0 < size := Nat.pos_of_ne_zero (by rintro rfl; omega)
  have hi : o % size < pixels.length := (Nat.mod_lt o hpos).trans_le hsize
  have hj : o / size < planes := Nat.div_lt_of_lt_mul (by rwa [Nat.mul_comm])
  refine ⟨_, mem_imageStores.mpr ⟨o % size, hi, o / size, ?_, rfl⟩, ?_⟩
  · rw [hplanes _ (List.getElem_mem hi)]
    exact hj
  · change 0 + o % size + o / size * size = o
    rw [Nat.zero_add, Nat.mul_comm, Nat.mod_add_div]

/-! ## Images -/

variable {malloc : Nat → Option Memory} {im : Option Pimg} {len limit : Nat} {skip : Bool} {m : Bytes}

theorem pimgInit_made {alpha : Bool} {width height : Nat} {new : Pimg}
    (h : pimgInit malloc alpha width height = some new) :
    Made alpha new ∧ new.width = width ∧ new.height = height := by
  obtain ⟨data, -, rfl⟩ := pimgInit_eq_some h
  exact ⟨⟨rfl, rfl, rfl⟩, rfl, rfl⟩

theorem reusable_eq_some {dispsize : Nat} {old : Pimg} (h : reusable im dispsize = some old) :
    im = some old ∧ old.width * old.height % 2 ^ 32 = dispsize := by
  obtain ⟨hold, harea⟩ := Option.filter_eq_some_iff.mp h
  exact ⟨hold, of_decide_eq_true harea⟩

theorem vpTarget_made {vp : FbDesc} {target : Pimg} (him : ∀ i, im = some i → Made false i)
    (h : vpTarget malloc im vp skip = some target) :
    Made false target ∧ target.width = vwidthOf vp skip ∧
      target.height = uint32 vp.visibleHeight := by
  unfold vpTarget at h
  split at h
  · rename_i old hreuse
    obtain ⟨hold, harea⟩ := reusable_eq_some hreuse
    have hmade := him _ hold
    cases h
    exact ⟨⟨hmade.alpha_eq, hmade.size_eq.trans harea, hmade.block_eq⟩, rfl, rfl⟩
  · exact pimgInit_made h

theorem bmTarget_made {bm : FbDesc} {target : Pimg} (him : ∀ i, im = some i → Made true i)
    (h : bmTarget malloc im bm skip = some target) :
    Made true target ∧ target.size = dispsizeOf bm skip := by
  unfold bmTarget at h
  split at h
  · rename_i old hreuse
    obtain ⟨hold, harea⟩ := reusable_eq_some hreuse
    cases h
    exact ⟨him _ hold, (him _ hold).size_eq.trans harea⟩
  · obtain ⟨hmade, hwidth, hheight⟩ := pimgInit_made h
    refine ⟨hmade, ?_⟩
    rw [hmade.size_eq, hwidth, hheight]
    rfl

/-- The shape of the image that a bitmap is converted into. -/
theorem bmTarget_shape {bm : FbDesc} {target : Pimg} (h : bmTarget malloc im bm skip = some target) :
    target.width = vwidthOf bm skip ∧ target.height = uint32 bm.visibleHeight ↔
      ∀ old, reusable im (dispsizeOf bm skip) = some old →
        old.width = vwidthOf bm skip ∧ old.height = uint32 bm.visibleHeight := by
  unfold bmTarget at h
  split at h
  · rename_i old hreuse
    obtain rfl := Option.some.inj h
    refine ⟨fun hshape i hi => ?_, fun hall => hall old hreuse⟩
    obtain rfl := Option.some.inj (hreuse.symm.trans hi)
    exact hshape
  · rename_i hnone
    refine iff_of_true (pimgInit_made h).2 fun i hi => ?_
    rw [hnone] at hi
    cases hi

/-- An image that is filled gets other data. -/
theorem fill_image {target image : Pimg} {pixels : List Pixel} {again : Option (List UInt8)}
    {ended : Bool} {written : Nat} {written' : Option Nat}
    (h : fill target pixels again ended = .image image written written') :
    ∃ data, image = { target with data } := by
  unfold fill at h
  split at h
  · cases h
  · split at h
    · split at h <;>
      · cases h
        exact ⟨_, rfl⟩
    · cases h

/-- The planes stay where they are. -/
theorem fill_made {alpha : Bool} {target image : Pimg} {pixels : List Pixel}
    {again : Option (List UInt8)} {ended : Bool} {written : Nat} {written' : Option Nat}
    (hmade : Made alpha target) (h : fill target pixels again ended = .image image written written') :
    Made alpha image := by
  obtain ⟨data, rfl⟩ := fill_image h
  exact ⟨hmade.alpha_eq, hmade.size_eq, hmade.block_eq⟩

theorem getViewportPimg_fill {vp : FbDesc} {target : Pimg}
    (h : VpConverts malloc im len skip m vp target) (limit : Nat) :
    (getViewportPimg malloc limit im len skip m).1 =
      .ok (fill target ((viewport vp.fbType skip).made m vp limit) none
        ((viewport vp.fbType skip).pointers vp limit).2) := by
  obtain ⟨reads, hdesc⟩ := Traced.eq_of_fst h.desc
  obtain ⟨reads', hconvert, -⟩ := convertViewport_apply limit vp skip target m
  rw [getViewportPimg_converts h hdesc hconvert]

theorem getBitmapPimg_fill {bm : FbDesc} {bmo : Option FbDesc} {target : Pimg}
    (h : BmConverts malloc im len skip m bm bmo target) (hsource : bmo = none → sourceOf m ≠ .null)
    (limit : Nat) :
    (getBitmapPimg malloc limit im len skip m).1 =
      .ok (fill target (unpackBitmap limit bm bmo skip m).pixels
        (unpackBitmap limit bm bmo skip m).again (unpackBitmap limit bm bmo skip m).ended) := by
  obtain ⟨reads, hdesc⟩ := Traced.eq_of_fst h.desc
  obtain ⟨checked, hcheck⟩ := Traced.eq_of_fst h.check
  obtain ⟨reads', hconvert⟩ := convertBitmap_unpacked hsource limit bm skip target
  rw [getBitmapPimg_converts h hdesc hcheck hconvert]

/-- A palette without a function is called. -/
theorem getBitmapPimg_null {bm : FbDesc} {target : Pimg}
    (h : BmConverts malloc im len skip m bm none target) (hnull : sourceOf m = .null) (limit : Nat) :
    (getBitmapPimg malloc limit im len skip m).1 = .ok .crash := by
  obtain ⟨reads, hdesc⟩ := Traced.eq_of_fst h.desc
  obtain ⟨checked, hcheck⟩ := Traced.eq_of_fst h.check
  obtain ⟨reads', hconvert⟩ := convertPalBitmap_null hnull limit bm skip target
  have hcrash : convertBitmap limit bm none skip target m = (.ok .crash, reads') := hconvert
  rw [getBitmapPimg_converts h hdesc hcheck hcrash]

/-- An image comes from a conversion. -/
theorem getViewportPimg_image {image : Pimg} {written : Nat} {written' : Option Nat}
    (h : (getViewportPimg malloc limit im len skip m).1 = .ok (.image image written written')) :
    ∃ vp target, VpConverts malloc im len skip m vp target ∧
      fill target ((viewport vp.fbType skip).made m vp limit) none
        ((viewport vp.fbType skip).pointers vp limit).2 = .image image written written' := by
  by_cases hsome : ∃ vp target, VpConverts malloc im len skip m vp target
  · obtain ⟨vp, target, hconverts⟩ := hsome
    rw [getViewportPimg_fill hconverts] at h
    exact ⟨vp, target, hconverts, Except.ok.inj h⟩
  · obtain ⟨r, reads, hcall, hstops⟩ :=
      getViewportPimg_stops (fun vp target hc => hsome ⟨vp, target, hc⟩) limit
    rw [hcall] at h
    obtain rfl : r = .ok (.image image written written') := h
    rcases hstops with ⟨message, h⟩ | h <;> cases h

theorem getBitmapPimg_image {image : Pimg} {written : Nat} {written' : Option Nat}
    (h : (getBitmapPimg malloc limit im len skip m).1 = .ok (.image image written written')) :
    ∃ bm bmo target, BmConverts malloc im len skip m bm bmo target ∧
      (bmo = none → sourceOf m ≠ .null) ∧
      fill target (unpackBitmap limit bm bmo skip m).pixels (unpackBitmap limit bm bmo skip m).again
        (unpackBitmap limit bm bmo skip m).ended = .image image written written' := by
  by_cases hsome : ∃ bm bmo target, BmConverts malloc im len skip m bm bmo target
  · obtain ⟨bm, bmo, target, hconverts⟩ := hsome
    have hsource : bmo = none → sourceOf m ≠ .null := by
      rintro rfl hnull
      rw [getBitmapPimg_null hconverts hnull] at h
      cases h
    rw [getBitmapPimg_fill hconverts hsource] at h
    exact ⟨bm, bmo, target, hconverts, hsource, Except.ok.inj h⟩
  · obtain ⟨r, reads, hcall, hstops⟩ :=
      getBitmapPimg_stops (fun bm bmo target hc => hsome ⟨bm, bmo, target, hc⟩) limit
    rw [hcall] at h
    obtain rfl : r = .ok (.image image written written') := h
    rcases hstops with ⟨message, h⟩ | h <;> cases h

/-- The images that `get_viewport_pimg` has returned for any frames, reusing such images. -/
inductive VpReturned : Pimg → Prop
  | call {malloc : Nat → Option Memory} {limit : Nat} {im : Option Pimg} {len : Nat} {skip : Bool}
      {m : Bytes} {image : Pimg} {written : Nat} {written' : Option Nat}
      (him : ∀ i, im = some i → VpReturned i)
      (h : (getViewportPimg malloc limit im len skip m).1 = .ok (.image image written written')) :
      VpReturned image

/-- The images that `get_bitmap_pimg` has returned. -/
inductive BmReturned : Pimg → Prop
  | call {malloc : Nat → Option Memory} {limit : Nat} {im : Option Pimg} {len : Nat} {skip : Bool}
      {m : Bytes} {image : Pimg} {written : Nat} {written' : Option Nat}
      (him : ∀ i, im = some i → BmReturned i)
      (h : (getBitmapPimg malloc limit im len skip m).1 = .ok (.image image written written')) :
      BmReturned image

theorem VpReturned.made {image : Pimg} (h : VpReturned image) : Made false image := by
  induction h with
  | call him h ih =>
    obtain ⟨vp, target, hconverts, hfill⟩ := getViewportPimg_image h
    exact fill_made (vpTarget_made ih hconverts.target).1 hfill

theorem BmReturned.made {image : Pimg} (h : BmReturned image) : Made true image := by
  induction h with
  | call him h ih =>
    obtain ⟨bm, bmo, target, hconverts, -, hfill⟩ := getBitmapPimg_image h
    exact fill_made (bmTarget_made ih hconverts.target).1 hfill

end LivePlanes
