import Chdkptp.LiveFormats

/-!
# Calls that convert

A call of `liveimg.get_viewport_pimg` or `liveimg.get_bitmap_pimg` fails, or returns nil, or
converts a framebuffer that its checks have accepted into a target: the image that was
passed in, or a new one.
-/

namespace LiveCalls

open ByteMemory TracedRead LiveFrame LivePixel LiveImage LiveFormats

variable {malloc : Nat → Option Memory} {im : Option Pimg} {len : Nat} {skip : Bool} {m : Bytes}
  {reads : List Int}

/-- The call ends before a conversion. -/
def Stops (r : Except String Outcome) : Prop := (∃ message, r = .error message) ∨ r = .ok .nil

theorem pimgInit_eq_some {alpha : Bool} {width height : Nat} {new : Pimg}
    (h : pimgInit malloc alpha width height = some new) :
    ∃ data, malloc (width * height % 2 ^ 32 * planesOf alpha % 2 ^ 32) = some data ∧
      new = { width, height, alpha
              size := width * height % 2 ^ 32
              block := width * height % 2 ^ 32 * planesOf alpha % 2 ^ 32
              data } := by
  simp only [pimgInit] at h
  split at h
  · cases h
  · obtain ⟨data, hmalloc, rfl⟩ := Option.map_eq_some_iff.mp h
    exact ⟨data, hmalloc, rfl⟩

/-! ## Viewports -/

def vpTarget (malloc : Nat → Option Memory) (im : Option Pimg) (vp : FbDesc) (skip : Bool) :
    Option Pimg :=
  match reusable im (dispsizeOf vp skip) with
  | some im => some { im with width := vwidthOf vp skip, height := uint32 vp.visibleHeight }
  | none => pimgInit malloc false (vwidthOf vp skip) (uint32 vp.visibleHeight)

/-- A viewport is accepted and there is a target for it. -/
structure VpConverts (malloc : Nat → Option Memory) (im : Option Pimg) (len : Nat) (skip : Bool)
    (m : Bytes) (vp : FbDesc) (target : Pimg) : Prop where
  desc : (getVpDesc (int32 len) m).1 = .ok vp
  start : vp.dataStart ≠ 0
  size : dispsizeOf vp skip ≠ 0
  target : vpTarget malloc im vp skip = some target

theorem getViewportPimg_converts {vp : FbDesc} {target : Pimg} {limit : Nat}
    {r : Except String Outcome} {reads' : List Int}
    (h : VpConverts malloc im len skip m vp target)
    (hdesc : getVpDesc (int32 len) m = (.ok vp, reads))
    (hconvert : convertViewport limit vp skip target m = (r, reads')) :
    getViewportPimg malloc limit im len skip m = (r, reads ++ reads') := by
  refine Traced.bind_apply hdesc ?_
  have hsome : ¬(vp.dataStart = 0 ∨ dispsizeOf vp skip = 0) := by simp [h.start, h.size]
  have htarget := h.target
  rw [vpTarget] at htarget
  rw [if_neg hsome]
  cases hreuse : reusable im (dispsizeOf vp skip) with
  | some old =>
    rw [hreuse] at htarget
    cases htarget
    exact hconvert
  | none =>
    rw [hreuse] at htarget
    simp only [htarget]
    exact hconvert

theorem getViewportPimg_stops (h : ∀ vp target, ¬VpConverts malloc im len skip m vp target)
    (limit : Nat) :
    ∃ r reads, getViewportPimg malloc limit im len skip m = (r, reads) ∧ Stops r := by
  rcases hdesc : getVpDesc (int32 len) m with ⟨r, reads⟩
  cases r with
  | error message => exact ⟨_, _, Traced.bind_error hdesc _, .inl ⟨message, rfl⟩⟩
  | ok vp =>
    by_cases hsome : vp.dataStart = 0 ∨ dispsizeOf vp skip = 0
    · refine ⟨.ok .nil, reads ++ [], Traced.bind_apply hdesc ?_, .inr rfl⟩
      rw [if_pos hsome]
      rfl
    · refine ⟨.error "failed to create image", reads ++ [], Traced.bind_apply hdesc ?_,
        .inl ⟨_, rfl⟩⟩
      have htarget : vpTarget malloc im vp skip = none := by
        cases htarget : vpTarget malloc im vp skip with
        | none => rfl
        | some target =>
          rw [not_or] at hsome
          exact absurd ⟨by rw [hdesc], hsome.1, hsome.2, htarget⟩ (h vp target)
      rw [vpTarget] at htarget
      rw [if_neg hsome]
      cases hreuse : reusable im (dispsizeOf vp skip) with
      | some old =>
        rw [hreuse] at htarget
        cases htarget
      | none =>
        rw [hreuse] at htarget
        simp only [htarget]
        rfl

/-! ## Bitmaps -/

def bmTarget (malloc : Nat → Option Memory) (im : Option Pimg) (bm : FbDesc) (skip : Bool) :
    Option Pimg :=
  match reusable im (dispsizeOf bm skip) with
  | some im => some im
  | none => pimgInit malloc true (vwidthOf bm skip) (uint32 bm.visibleHeight)

/-- A bitmap is accepted, with its opacity or its palette, and there is a target for it. -/
structure BmConverts (malloc : Nat → Option Memory) (im : Option Pimg) (len : Nat) (skip : Bool)
    (m : Bytes) (bm : FbDesc) (bmo : Option FbDesc) (target : Pimg) : Prop where
  desc : (getBmDesc (int32 len) m).1 = .ok bm
  start : bm.dataStart ≠ 0
  size : dispsizeOf bm skip ≠ 0
  check : (checkBitmap len bm m).1 = .ok bmo
  target : bmTarget malloc im bm skip = some target

theorem getBitmapPimg_converts {bm : FbDesc} {bmo : Option FbDesc} {target : Pimg} {limit : Nat}
    {r : Except String Outcome} {checked reads' : List Int}
    (h : BmConverts malloc im len skip m bm bmo target)
    (hdesc : getBmDesc (int32 len) m = (.ok bm, reads))
    (hcheck : checkBitmap len bm m = (.ok bmo, checked))
    (hconvert : convertBitmap limit bm bmo skip target m = (r, reads')) :
    getBitmapPimg malloc limit im len skip m = (r, reads ++ (checked ++ reads')) := by
  refine Traced.bind_apply hdesc ?_
  have hsome : ¬(bm.dataStart = 0 ∨ dispsizeOf bm skip = 0) := by simp [h.start, h.size]
  have htarget := h.target
  rw [bmTarget] at htarget
  rw [if_neg hsome]
  refine Traced.bind_apply hcheck ?_
  cases hreuse : reusable im (dispsizeOf bm skip) with
  | some old =>
    rw [hreuse] at htarget
    cases htarget
    exact hconvert
  | none =>
    rw [hreuse] at htarget
    simp only [htarget]
    exact hconvert

theorem bmTarget_alpha {bm : FbDesc} {target : Pimg} (him : ∀ i, im = some i → i.alpha = true)
    (h : bmTarget malloc im bm skip = some target) : target.alpha = true := by
  unfold bmTarget at h
  split at h
  · rename_i old hreuse
    cases h
    exact him _ (Option.eq_some_of_filter_eq_some hreuse)
  · obtain ⟨data, -, rfl⟩ := pimgInit_eq_some h
    rfl

theorem getBitmapPimg_stops
    (h : ∀ bm bmo target, ¬BmConverts malloc im len skip m bm bmo target) (limit : Nat) :
    ∃ r reads, getBitmapPimg malloc limit im len skip m = (r, reads) ∧ Stops r := by
  rcases hdesc : getBmDesc (int32 len) m with ⟨r, reads⟩
  cases r with
  | error message => exact ⟨_, _, Traced.bind_error hdesc _, .inl ⟨message, rfl⟩⟩
  | ok bm =>
    by_cases hsome : bm.dataStart = 0 ∨ dispsizeOf bm skip = 0
    · refine ⟨.ok .nil, reads ++ [], Traced.bind_apply hdesc ?_, .inr rfl⟩
      rw [if_pos hsome]
      rfl
    · rcases hcheck : checkBitmap len bm m with ⟨r, checked⟩
      cases r with
      | error message =>
        refine ⟨.error message, reads ++ checked, Traced.bind_apply hdesc ?_, .inl ⟨_, rfl⟩⟩
        rw [if_neg hsome]
        exact Traced.bind_error hcheck _
      | ok bmo =>
        refine ⟨.error "failed to create image", reads ++ (checked ++ []),
          Traced.bind_apply hdesc ?_, .inl ⟨_, rfl⟩⟩
        have htarget : bmTarget malloc im bm skip = none := by
          cases htarget : bmTarget malloc im bm skip with
          | none => rfl
          | some target =>
            rw [not_or] at hsome
            exact absurd ⟨by rw [hdesc], hsome.1, hsome.2, by rw [hcheck], htarget⟩ (h bm bmo target)
        rw [bmTarget] at htarget
        rw [if_neg hsome]
        refine Traced.bind_apply hcheck ?_
        cases hreuse : reusable im (dispsizeOf bm skip) with
        | some old =>
          rw [hreuse] at htarget
          cases htarget
        | none =>
          rw [hreuse] at htarget
          simp only [htarget]
          rfl

end LiveCalls
