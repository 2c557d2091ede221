import Chdkptp.RawThumb
import Chdkptp.SiteScan
import Mathlib.Data.Finset.Prod
import Mathlib.Data.List.MinMax
import Mathlib.Algebra.Group.Nat.Defs
import Mathlib.Algebra.Group.Action.Defs
import Mathlib.Data.Finset.Card
import Mathlib.Algebra.Order.BigOperators.Group.List

/-!
# Patching bad pixels

`patch_pixels` rewrites the bad pixels of the active area one after the other, in
place. On an image whose pixels are separate the loop over the packed bytes is a
scan of the pixel values, and the facts about scans carry over.
-/

namespace RawPatch

open ByteMemory BoundedLoop RawAccess RawLayout RawPixel Rawimg RawActive RawThumb

/-- The value of a pixel in the given bytes. -/
def pixel (img : RawImage) (m : Memory) (p : Nat × Nat) : Nat :=
  img.fmt.getPixel m img.rowBytes.toNat p.1 p.2

def InArea (img : RawImage) (p : Nat × Nat) : Prop :=
  (img.activeLeft.toNat ≤ p.1 ∧ p.1 < img.activeRight.toNat) ∧
    img.activeTop.toNat ≤ p.2 ∧ p.2 < img.activeBottom.toNat

/-- The pixels of the active area in the order of the loops. -/
def areaSites (img : RawImage) : List (Nat × Nat) :=
  (List.range (img.activeBottom.toNat - img.activeTop.toNat)).flatMap fun j =>
    (List.range (img.activeRight.toNat - img.activeLeft.toNat)).map fun k =>
      (img.activeLeft.toNat + k, img.activeTop.toNat + j)

/-- The loops of `patch_pixels` over some of the pixels only. -/
def patchSites (img : RawImage) (badval : UInt32) (sites : List (Nat × Nat)) : Nat × PixelRun :=
  sites.foldl (fun s p => patchAt img badval (UInt32.ofNat p.1) (UInt32.ofNat p.2) s)
    (0, ⟨img.data, []⟩)

theorem patch_pixels_eq (img : RawImage) (badval : UInt32) :
    rawimgLuaPatchPixels img badval = patchSites img badval (areaSites img) :=
  forUp_sites (fun j k => (img.activeLeft.toNat + k, img.activeTop.toNat + j))
    (fun p s => patchAt img badval (UInt32.ofNat p.1) (UInt32.ofNat p.2) s) _ _ _

/-- The neighbours that are in the image. -/
def candidates (img : RawImage) (p : Nat × Nat) : List (Nat × Nat) :=
  ((neighbours img (UInt32.ofNat p.1) (UInt32.ofNat p.2)).map
    (fun q => (q.1.toNat, q.2.toNat))).filter
      (fun q => decide (q.1 < img.width.toNat) && decide (q.2 < img.height.toNat))

/-- The neighbour values that a patch is made of. -/
def usedValues (img : RawImage) (f : Nat × Nat → Nat) (p : Nat × Nat) : List Nat :=
  ((candidates img p).map f).filter (fun v => img.blackLevel.toNat < v)

/-- `v` is between the smallest and the largest of some values. -/
def Between (values : List Nat) (v : Nat) : Prop :=
  ∃ lo ∈ values, ∃ hi ∈ values, (∀ u ∈ values, lo ≤ u ∧ u ≤ hi) ∧ lo ≤ v ∧ v ≤ hi

/-- The two greens are on a diagonal. -/
def DiagonalGreens (cfa : Fin 4 → UInt8) : Prop :=
  (colorAt cfa (0, 0) = cfaGreen ∧ colorAt cfa (1, 1) = cfaGreen) ∨
    (colorAt cfa (1, 0) = cfaGreen ∧ colorAt cfa (0, 1) = cfaGreen)

/-- A patched pixel was computed from neighbours of its colour, as they were in `m`. -/
structure ComputedFrom (img : RawImage) (m : Memory) (p : Nat × Nat) (v : Nat) : Prop where
  colors : ∀ q ∈ candidates img p, colorAt img.cfaPattern q = colorAt img.cfaPattern p
  between : Between (usedValues img (pixel img m) p) v

/-- The `unsigned` count that `patch_pixels` returns. -/
def patchCount (img : RawImage) (badval : UInt32) : UInt32 :=
  UInt32.ofNat (rawimgLuaPatchPixels img badval).1

/-- What `patch_pixels` promises. The bytes during the scan are those after the pixels
before `p` have been visited. -/
structure PatchCorrect (img : RawImage) (badval : UInt32) : Prop where
  kept : ∀ p, Inside img p → (¬InArea img p ∨ badval.toNat < pixel img img.data p) →
    pixel img (rawimgLuaPatchPixels img badval).2.data p = pixel img img.data p
  changed : ∀ p, Inside img p →
    pixel img (rawimgLuaPatchPixels img badval).2.data p ≠ pixel img img.data p →
    img.blackLevel.toNat < pixel img (rawimgLuaPatchPixels img badval).2.data p ∧
    ∃ earlier later, areaSites img = earlier ++ p :: later ∧
      ComputedFrom img (patchSites img badval earlier).2.data p
        (pixel img (rawimgLuaPatchPixels img badval).2.data p)
  count : (patchCount img badval).toNat =
    ((Finset.range img.width.toNat ×ˢ Finset.range img.height.toNat).filter (fun p =>
      pixel img (rawimgLuaPatchPixels img badval).2.data p ≠ pixel img img.data p)).card

/-- The active area is in the image, and rows and pixels have bytes of their own: rows are
whole blocks, their size is exact, and the image's size does not wrap. -/
structure PatchSafe (img : RawImage) : Prop where
  right : img.activeRight ≤ img.width
  bottom : img.activeBottom ≤ img.height
  block : img.width.toNat % img.fmt.blockPixels = 0
  rows : img.rowBytes.toNat * 8 = img.width.toNat * img.fmt.bpp
  total : img.rowBytes.toNat * img.height.toNat < 2 ^ 32

/-! ## The sites -/

theorem mem_areaSites (img : RawImage) (p : Nat × Nat) : p ∈ areaSites img ↔ InArea img p := by
  obtain ⟨x, y⟩ := p
  simp only [areaSites, InArea, List.mem_flatMap, List.mem_map, List.mem_range, Prod.mk.injEq]
  constructor
  · rintro ⟨j, hj, k, hk, rfl, rfl⟩
    exact ⟨⟨by omega, by omega⟩, by omega, by omega⟩
  · rintro ⟨⟨hl, hr⟩, ht, hb⟩
    exact ⟨y - img.activeTop.toNat, by omega, x - img.activeLeft.toNat, by omega, by omega,
      by omega⟩

theorem areaSites_nodup (img : RawImage) : (areaSites img).Nodup := by
  simp only [areaSites]
  rw [List.nodup_flatMap]
  constructor
  · intro j _
    apply List.Nodup.map _ List.nodup_range
    intro k k' h
    simp only [Prod.mk.injEq] at h
    omega
  · apply List.nodup_range.imp
    intro j j' hne
    simp only [Function.onFun]
    intro p hp hp'
    simp only [List.mem_map, List.mem_range] at hp hp'
    obtain ⟨k, _, rfl⟩ := hp
    obtain ⟨k', _, he⟩ := hp'
    simp only [Prod.mk.injEq] at he
    omega

theorem inside_of_area {img : RawImage} (h : PatchSafe img) {p : Nat × Nat}
    (hp : InArea img p) : Inside img p := by
  have hr := UInt32.le_iff_toNat_le.mp h.right
  have hb := UInt32.le_iff_toNat_le.mp h.bottom
  exact ⟨by have := hp.1.2; omega, by have := hp.2.2; omega⟩

/-! ## Neighbours have the pixel's colour -/

theorem parity_add (x : UInt32) :
    (x + 1).toNat % 2 = (x.toNat + 1) % 2 ∧ (x - 1).toNat % 2 = (x.toNat + 1) % 2 ∧
    (x + 2).toNat % 2 = x.toNat % 2 ∧ (x - 2).toNat % 2 = x.toNat % 2 := by
  have h1 : (1 : UInt32).toNat = 1 := rfl
  have h2 : (2 : UInt32).toNat = 2 := rfl
  rw [UInt32.toNat_add, UInt32.toNat_sub, UInt32.toNat_add, UInt32.toNat_sub, h1, h2]
  omega

/-- The colour depends on the parities only. -/
theorem colorAt_congr (cfa : Fin 4 → UInt8) {p q : Nat × Nat} (hx : p.1 % 2 = q.1 % 2)
    (hy : p.2 % 2 = q.2 % 2) : colorAt cfa p = colorAt cfa q := by
  simp only [colorAt, hx, hy]

/-- In a pattern with diagonal greens the cell across from a green one is green. -/
theorem diagonal_cells : ∀ r b : Fin 4, r ≠ b → DiagonalGreens (bayer r b) → ∀ d e : Fin 2,
    colorAt (bayer r b) (d.val, e.val) = cfaGreen →
      colorAt (bayer r b) (d.val + 1, e.val + 1) = cfaGreen := by
  unfold DiagonalGreens
  decide

/-- Diagonal neighbours of a green pixel are green. -/
theorem diagonal_green {cfa : Fin 4 → UInt8} (hb : Bayer cfa) (hd : DiagonalGreens cfa)
    {p q : Nat × Nat} (hp : colorAt cfa p = cfaGreen) (hx : q.1 % 2 = (p.1 + 1) % 2)
    (hy : q.2 % 2 = (p.2 + 1) % 2) : colorAt cfa q = cfaGreen := by
  obtain ⟨r, b, hne, rfl⟩ := hb
  have hcell := diagonal_cells r b hne hd ⟨p.1 % 2, by omega⟩ ⟨p.2 % 2, by omega⟩
    (by rwa [colorAt_congr (q := p) _ (Nat.mod_mod _ _) (Nat.mod_mod _ _)])
  rw [← hcell]
  apply colorAt_congr
  · rw [hx]
    exact (Nat.mod_add_mod _ _ _).symm
  · rw [hy]
    exact (Nat.mod_add_mod _ _ _).symm

theorem neighbours_color {img : RawImage} (hb : Bayer img.cfaPattern)
    (hd : DiagonalGreens img.cfaPattern) (x y : UInt32) :
    ∀ q ∈ neighbours img x y, colorAt img.cfaPattern (q.1.toNat, q.2.toNat) =
      colorAt img.cfaPattern (x.toNat, y.toNat) := by
  obtain ⟨hx1, hx2, hx3, hx4⟩ := parity_add x
  obtain ⟨hy1, hy2, hy3, hy4⟩ := parity_add y
  intro q hq
  by_cases hgreen : cfaColor img x y = cfaGreen
  · rw [neighbours, if_pos hgreen] at hq
    rw [cfaColor_eq] at hgreen
    rw [hgreen]
    simp only [List.mem_cons, List.not_mem_nil, or_false] at hq
    obtain rfl | rfl | rfl | rfl := hq
    · exact diagonal_green hb hd hgreen hx2 hy2
    · exact diagonal_green hb hd hgreen hx1 hy2
    · exact diagonal_green hb hd hgreen hx2 hy1
    · exact diagonal_green hb hd hgreen hx1 hy1
  · rw [neighbours, if_neg hgreen] at hq
    simp only [List.mem_cons, List.not_mem_nil, or_false] at hq
    obtain rfl | rfl | rfl | rfl := hq
    · exact colorAt_congr _ hx4 rfl
    · exact colorAt_congr _ hx3 rfl
    · exact colorAt_congr _ rfl hy4
    · exact colorAt_congr _ rfl hy3

theorem candidates_color {img : RawImage} (hb : Bayer img.cfaPattern)
    (hd : DiagonalGreens img.cfaPattern) {p : Nat × Nat} (hx : p.1 < 2 ^ 32) (hy : p.2 < 2 ^ 32) :
    ∀ q ∈ candidates img p, colorAt img.cfaPattern q = colorAt img.cfaPattern p := by
  intro q hq
  obtain ⟨n, hn, rfl⟩ := List.mem_map.mp (List.mem_of_mem_filter hq)
  have hcolor := neighbours_color hb hd _ _ n hn
  rwa [ofNat_toNat hx, ofNat_toNat hy] at hcolor

/-! ## Averages -/

/-- The average of some values is between the smallest and the largest. -/
theorem between_average {values : List Nat} (h : values ≠ []) :
    Between values (values.sum / values.length) := by
  have hpos : 0 < values.length := List.length_pos_of_ne_nil h
  refine ⟨_, List.minimum_of_length_pos_mem hpos, _, List.maximum_of_length_pos_mem hpos,
    fun u hu => ⟨List.minimum_of_length_pos_le_of_mem hu hpos,
      List.le_maximum_of_length_pos_of_mem hu hpos⟩, ?_, ?_⟩
  · rw [Nat.le_div_iff_mul_le hpos, Nat.mul_comm]
    have hsum := List.card_nsmul_le_sum values _
      (fun u hu => List.minimum_of_length_pos_le_of_mem hu hpos)
    rwa [smul_eq_mul] at hsum
  · have hsum := List.sum_le_card_nsmul values _
      (fun u hu => List.le_maximum_of_length_pos_of_mem hu hpos)
    rw [smul_eq_mul] at hsum
    exact Nat.div_le_of_le_mul hsum

/-! ## One pixel -/

/-- The rule of the scan: a bad pixel with usable neighbours gets their average. -/
def patchRule (img : RawImage) (badval : UInt32) : SiteScan.Rule (Nat × Nat) Nat := fun f p =>
  if f p ≤ badval.toNat then
    if usedValues img f p ≠ [] then
      some ((usedValues img f p).sum / (usedValues img f p).length)
    else none
  else none

theorem patchRule_some {img : RawImage} {badval : UInt32} {f : Nat × Nat → Nat} {p : Nat × Nat}
    {v : Nat} (h : patchRule img badval f p = some v) :
    f p ≤ badval.toNat ∧ Between (usedValues img f p) v := by
  simp only [patchRule] at h
  split at h
  · rename_i hbad
    split at h
    · rename_i hused
      cases h
      exact ⟨hbad, between_average hused⟩
    · cases h
  · cases h

theorem black_lt_used {img : RawImage} {f : Nat × Nat → Nat} {p : Nat × Nat} {v : Nat}
    (h : Between (usedValues img f p) v) : img.blackLevel.toNat < v := by
  obtain ⟨lo, hlo, _, _, _, hle, _⟩ := h
  have hblack := of_decide_eq_true (List.mem_filter.mp hlo).2
  omega

/-- A patch changes the value, as it is above the black level and the bad value is not. -/
theorem patchRule_ne {img : RawImage} {badval : UInt32} (hbad : badval ≤ img.blackLevel)
    (f : Nat × Nat → Nat) (p : Nat × Nat) (v : Nat) (h : patchRule img badval f p = some v) :
    v ≠ f p := by
  obtain ⟨hle, hbetween⟩ := patchRule_some h
  have hblack := black_lt_used hbetween
  have := UInt32.le_iff_toNat_le.mp hbad
  omega

/-- Reading the neighbours gives their values, 0 outside the image, and changes no byte. -/
theorem readNeighbours_eq (img : RawImage) (ps : List (UInt32 × UInt32)) (s : PixelRun) :
    (readNeighbours img s ps).1 = ps.map (fun q =>
        if q.1 ≥ img.width ∨ q.2 ≥ img.height then 0
        else pixel img s.data (q.1.toNat, q.2.toNat)) ∧
      (readNeighbours img s ps).2.data = s.data := by
  induction ps generalizing s with
  | nil => exact ⟨rfl, rfl⟩
  | cons q rest ih =>
    have hsafe : (rawimgGetPixelSafe img s q.1 q.2).1 =
        (if q.1 ≥ img.width ∨ q.2 ≥ img.height then 0
          else pixel img s.data (q.1.toNat, q.2.toNat)) ∧
        (rawimgGetPixelSafe img s q.1 q.2).2.data = s.data := by
      simp only [rawimgGetPixelSafe]
      split
      · exact ⟨rfl, rfl⟩
      · exact ⟨rfl, rfl⟩
    obtain ⟨hvalues, hdata⟩ := ih (rawimgGetPixelSafe img s q.1 q.2).2
    rw [hsafe.2] at hvalues hdata
    constructor
    · simp only [readNeighbours, List.map_cons, hvalues, hsafe.1]
    · simp only [readNeighbours, hdata]

/-- Only values from inside the image are above the black level. -/
theorem used_of_read (img : RawImage) (m : Memory) (p : Nat × Nat) :
    ((neighbours img (UInt32.ofNat p.1) (UInt32.ofNat p.2)).map (fun q =>
        if q.1 ≥ img.width ∨ q.2 ≥ img.height then 0
        else pixel img m (q.1.toNat, q.2.toNat))).filter (fun v => img.blackLevel.toNat < v) =
      usedValues img (pixel img m) p := by
  simp only [usedValues, candidates]
  induction neighbours img (UInt32.ofNat p.1) (UInt32.ofNat p.2) with
  | nil => rfl
  | cons q rest ih =>
    by_cases hout : q.1 ≥ img.width ∨ q.2 ≥ img.height
    · have hin : ¬(q.1.toNat < img.width.toNat ∧ q.2.toNat < img.height.toNat) := by
        rintro ⟨hx, hy⟩
        rcases hout with h | h
        · exact absurd (UInt32.lt_iff_toNat_lt.mpr hx) (UInt32.not_lt.mpr h)
        · exact absurd (UInt32.lt_iff_toNat_lt.mpr hy) (UInt32.not_lt.mpr h)
      rw [List.map_cons, List.map_cons, if_pos hout, List.filter_cons_of_neg (by simp),
        List.filter_cons_of_neg (by simpa using hin), ih]
    · obtain ⟨hx, hy⟩ := in_bounds hout
      have hin := And.intro (UInt32.lt_iff_toNat_lt.mp hx) (UInt32.lt_iff_toNat_lt.mp hy)
      have hkeep : ∀ l : List (Nat × Nat), ((q.1.toNat, q.2.toNat) :: l).filter
          (fun q => decide (q.1 < img.width.toNat) && decide (q.2 < img.height.toNat)) =
          (q.1.toNat, q.2.toNat) :: l.filter
            (fun q => decide (q.1 < img.width.toNat) && decide (q.2 < img.height.toNat)) :=
        fun l => List.filter_cons_of_pos (by simpa using hin)
      rw [List.map_cons, List.map_cons, if_neg hout, hkeep, List.map_cons, List.filter_cons,
        List.filter_cons, ih]

/-- The body of the loops at a pixel: nothing, or the value that the rule gives. -/
theorem patchAt_eq (img : RawImage) (badval : UInt32) {p : Nat × Nat} (hx : p.1 < 2 ^ 32)
    (hy : p.2 < 2 ^ 32) (s : Nat × PixelRun) :
    (patchAt img badval (UInt32.ofNat p.1) (UInt32.ofNat p.2) s).1 =
        s.1 + (patchRule img badval (pixel img s.2.data) p).elim 0 (fun _ => 1) ∧
      (patchAt img badval (UInt32.ofNat p.1) (UInt32.ofNat p.2) s).2.data =
        (patchRule img badval (pixel img s.2.data) p).elim s.2.data
          (fun v => img.fmt.setPixel s.2.data img.rowBytes.toNat p.1 p.2 v) := by
  obtain ⟨hvalues, hdata⟩ := readNeighbours_eq img
    (neighbours img (UInt32.ofNat p.1) (UInt32.ofNat p.2))
    (getAt img s.2 (UInt32.ofNat p.1) (UInt32.ofNat p.2)).2
  have hused := used_of_read img s.2.data p
  have hval : (getAt img s.2 (UInt32.ofNat p.1) (UInt32.ofNat p.2)).1 = pixel img s.2.data p := by
    simp only [getAt, pixel, ofNat_toNat hx, ofNat_toNat hy]
  have hkept : (getAt img s.2 (UInt32.ofNat p.1) (UInt32.ofNat p.2)).2.data = s.2.data := rfl
  rw [hkept] at hvalues hdata
  rw [← hvalues] at hused
  simp only [patchAt, patchRule, hval, rawimgPatchPixel, hused]
  by_cases hbad : pixel img s.2.data p ≤ badval.toNat
  · rw [if_pos hbad, if_pos hbad]
    by_cases hnone : usedValues img (pixel img s.2.data) p = []
    · rw [if_neg (by simpa using hnone), if_neg (by simpa using hnone)]
      exact ⟨rfl, hdata⟩
    · rw [if_pos hnone, if_pos (by simpa using hnone)]
      refine ⟨rfl, ?_⟩
      simp only [setAt, hdata, ofNat_toNat hx, ofNat_toNat hy, Option.elim_some]
  · rw [if_neg hbad, if_neg hbad]
    exact ⟨rfl, rfl⟩

/-! ## The loop as a scan of the pixels -/

theorem PatchSafe.exact {img : RawImage} (h : PatchSafe img) :
    Exact img.fmt img.rowBytes.toNat img.width.toNat :=
  exact_of_block img.fmt h.block h.rows

/-- The pixels after writing a value that fits into one of them. -/
theorem pixel_setPixel {img : RawImage} (h : PatchSafe img) (hf : img.fmt ≠ .raw14b) (m : Memory)
    {p : Nat × Nat} (hp : Inside img p) {v : Nat} (hv : v < 2 ^ img.fmt.bpp) {q : Nat × Nat}
    (hq : Inside img q) :
    pixel img (img.fmt.setPixel m img.rowBytes.toNat p.1 p.2 v) q =
      Function.update (pixel img m) p v q := by
  by_cases he : q = p
  · have hcase : HasCase img.fmt p.1 := fun h14 => absurd h14 hf
    rw [he, Function.update_self, pixel, getPixel_setPixel, if_pos hcase, Nat.mod_eq_of_lt hv]
  · rw [Function.update_of_ne he]
    exact getPixel_setPixel_other img.fmt m h.exact.block h.total (h.exact.inImage hp.1 hp.2)
      (h.exact.inImage hq.1 hq.2) hv he

/-- A patch fits the format, as pixels do. -/
theorem between_fits {img : RawImage} {m : Memory} {p : Nat × Nat} {v : Nat}
    (h : Between (usedValues img (pixel img m) p) v) : v < 2 ^ img.fmt.bpp := by
  obtain ⟨_, _, hi, hhi, _, _, hle⟩ := h
  obtain ⟨q, _, rfl⟩ := List.mem_map.mp (List.mem_of_mem_filter hhi)
  exact Nat.lt_of_le_of_lt hle (getPixel_lt _ _ _ _ _)

/-- The same count, and the same values of the pixels of the image. -/
def Represents (img : RawImage) (s : Nat × PixelRun) (t : Nat × (Nat × Nat → Nat)) : Prop :=
  s.1 = t.1 ∧ ∀ p, Inside img p → pixel img s.2.data p = t.2 p

theorem inside_lt {img : RawImage} {p : Nat × Nat} (h : Inside img p) :
    p.1 < 2 ^ 32 ∧ p.2 < 2 ^ 32 :=
  ⟨Nat.lt_trans h.1 img.width.toNat_lt, Nat.lt_trans h.2 img.height.toNat_lt⟩

theorem candidates_inside {img : RawImage} {p q : Nat × Nat} (h : q ∈ candidates img p) :
    Inside img q := by
  have hb := (List.mem_filter.mp h).2
  rw [Bool.and_eq_true, decide_eq_true_eq, decide_eq_true_eq] at hb
  exact hb

/-- The rule looks at pixels of the image only. -/
theorem patchRule_congr {img : RawImage} (badval : UInt32) {f g : Nat × Nat → Nat}
    (h : ∀ q, Inside img q → f q = g q) {p : Nat × Nat} (hp : Inside img p) :
    patchRule img badval f p = patchRule img badval g p ∧
      usedValues img f p = usedValues img g p := by
  have hmap : (candidates img p).map f = (candidates img p).map g :=
    List.map_congr_left (fun q hq => h q (candidates_inside hq))
  have hused : usedValues img f p = usedValues img g p := by
    simp only [usedValues, hmap]
  constructor
  · simp only [patchRule, hused, h p hp]
  · exact hused

/-- One turn of the loops is one visit. -/
theorem patchAt_represents {img : RawImage} (h : PatchSafe img) (hf : img.fmt ≠ .raw14b)
    (badval : UInt32) {s : Nat × PixelRun} {t : Nat × (Nat × Nat → Nat)} {p : Nat × Nat}
    (hp : Inside img p) (hr : Represents img s t) :
    Represents img (patchAt img badval (UInt32.ofNat p.1) (UInt32.ofNat p.2) s)
      (SiteScan.visit (patchRule img badval) t p) := by
  obtain ⟨hx, hy⟩ := inside_lt hp
  have hstep := patchAt_eq img badval hx hy s
  have hrule := (patchRule_congr badval hr.2 hp).1
  cases hv : patchRule img badval (pixel img s.2.data) p with
  | none =>
    rw [hv] at hstep
    rw [SiteScan.visit_none (hrule.symm.trans hv)]
    constructor
    · exact hstep.1.trans hr.1
    · rw [hstep.2]
      exact hr.2
  | some v =>
    rw [hv] at hstep
    rw [SiteScan.visit_some (hrule.symm.trans hv)]
    have hfits := between_fits (patchRule_some hv).2
    constructor
    · exact hstep.1.trans (congrArg (· + 1) hr.1)
    · intro q hq
      have hset := pixel_setPixel h hf s.2.data hp hfits hq
      rw [hstep.2]
      by_cases he : q = p
      · subst he
        rw [Function.update_self] at hset
        exact hset.trans (Function.update_self q v t.2).symm
      · rw [Function.update_of_ne he, hr.2 q hq] at hset
        exact hset.trans (Function.update_of_ne he v t.2).symm

/-- The loops over pixels of the image, as far as counts and pixel values go. -/
theorem patchSites_represents {img : RawImage} (h : PatchSafe img) (hf : img.fmt ≠ .raw14b)
    (badval : UInt32) (sites : List (Nat × Nat)) (hin : ∀ p ∈ sites, Inside img p) :
    Represents img (patchSites img badval sites)
      (SiteScan.scan (patchRule img badval) sites (0, pixel img img.data)) := by
  apply SiteScan.scan_simulates (Represents img)
  · intro s t p hp hr
    exact patchAt_represents h hf badval (hin p hp) hr
  · exact ⟨rfl, fun _ _ => rfl⟩

/-! ## The whole area -/

/-- The changed pixels of the image are the changed sites. -/
theorem changed_card {img : RawImage} (hin : ∀ p ∈ areaSites img, Inside img p)
    (before after : Nat × Nat → Nat) (hother : ∀ p, p ∉ areaSites img → after p = before p) :
    ((Finset.range img.width.toNat ×ˢ Finset.range img.height.toNat).filter
      (fun p => after p ≠ before p)).card =
      ((areaSites img).filter (fun p => after p ≠ before p)).length := by
  have hnodup := (areaSites_nodup img).filter (fun p => decide (after p ≠ before p))
  rw [← List.toFinset_card_of_nodup hnodup]
  congr 1
  ext p
  simp only [Finset.mem_filter, Finset.mem_product, Finset.mem_range, List.mem_toFinset,
    List.mem_filter, decide_eq_true_eq]
  constructor
  · rintro ⟨_, hne⟩
    refine ⟨?_, hne⟩
    by_contra hp
    exact hne (hother p hp)
  · rintro ⟨hp, hne⟩
    exact ⟨hin p hp, hne⟩

/-- An image whose size does not wrap has fewer than `2^32` pixels. -/
theorem pixels_lt {img : RawImage} (h : PatchSafe img) :
    img.width.toNat * img.height.toNat < 2 ^ 32 := by
  have hbpp : 8 ≤ img.fmt.bpp := by cases img.fmt <;> decide
  have hrow : img.width.toNat ≤ img.rowBytes.toNat := by
    have hmul : img.width.toNat * 8 ≤ img.width.toNat * img.fmt.bpp := Nat.mul_le_mul_left _ hbpp
    have := h.rows
    omega
  exact Nat.lt_of_le_of_lt (Nat.mul_le_mul_right _ hrow) h.total

/-- With the active area and the bytes in order, patching does what it promises. -/
theorem patch_correct (img : RawImage) (badval : UInt32) (hbayer : Bayer img.cfaPattern)
    (hgreens : DiagonalGreens img.cfaPattern) (hf : img.fmt ≠ .raw14b)
    (hbad : badval ≤ img.blackLevel) (h : PatchSafe img) : PatchCorrect img badval := by
  have hin : ∀ p ∈ areaSites img, Inside img p := fun p hp =>
    inside_of_area h ((mem_areaSites img p).mp hp)
  have hnodup := areaSites_nodup img
  have hrep := patchSites_represents h hf badval (areaSites img) hin
  rw [← patch_pixels_eq] at hrep
  -- a pixel of the area is left by its visit, the others are not visited
  have hsite : ∀ p earlier later, areaSites img = earlier ++ p :: later →
      (SiteScan.scan (patchRule img badval) (areaSites img) (0, pixel img img.data)).2 p =
        (SiteScan.visit (patchRule img badval)
          (SiteScan.scan (patchRule img badval) earlier (0, pixel img img.data)) p).2 p ∧
      (SiteScan.scan (patchRule img badval) earlier (0, pixel img img.data)).2 p =
        pixel img img.data p := by
    intro p earlier later he
    rw [he] at hnodup ⊢
    exact SiteScan.scan_at earlier later _ hnodup
  constructor
  · rintro p hp hkeep
    rw [hrep.2 p hp]
    by_cases hmem : p ∈ areaSites img
    · rcases hkeep with hout | hgood
      · exact absurd ((mem_areaSites img p).mp hmem) hout
      · obtain ⟨earlier, later, he⟩ := List.append_of_mem hmem
        obtain ⟨hvisit, hbefore⟩ := hsite p earlier later he
        rw [hvisit, SiteScan.visit_none, hbefore]
        simp only [patchRule, hbefore]
        exact if_neg (by omega)
    · exact SiteScan.scan_other _ _ hmem
  · intro p hp hne
    rw [hrep.2 p hp] at hne ⊢
    have hmem : p ∈ areaSites img := by
      by_contra hout
      exact hne (SiteScan.scan_other _ _ hout)
    obtain ⟨earlier, later, he⟩ := List.append_of_mem hmem
    obtain ⟨hvisit, hbefore⟩ := hsite p earlier later he
    have hreached := patchSites_represents h hf badval earlier (fun q hq =>
      hin q (he ▸ List.mem_append_left _ hq))
    cases hv : patchRule img badval
        (SiteScan.scan (patchRule img badval) earlier (0, pixel img img.data)).2 p with
    | none =>
      rw [hvisit, SiteScan.visit_none hv, hbefore] at hne
      exact absurd rfl hne
    | some v =>
      have hbetween := (patchRule_some hv).2
      have hset := hvisit.trans ((congrFun (congrArg Prod.snd (SiteScan.visit_some hv)) p).trans
        (Function.update_self _ _ _))
      rw [hset]
      refine ⟨black_lt_used hbetween, earlier, later, he, ?_, ?_⟩
      · obtain ⟨hx, hy⟩ := inside_lt hp
        exact candidates_color hbayer hgreens hx hy
      · rwa [(patchRule_congr badval hreached.2 hp).2]
  · have hcount := SiteScan.scan_count (patchRule_ne hbad) (areaSites img)
      (0, pixel img img.data) hnodup
    rw [← changed_card hin (pixel img img.data) _ (fun p hp => SiteScan.scan_other _ _ hp),
      Nat.zero_add, ← hrep.1] at hcount
    have hsame : (Finset.range img.width.toNat ×ˢ Finset.range img.height.toNat).filter (fun p =>
        pixel img (rawimgLuaPatchPixels img badval).2.data p ≠ pixel img img.data p) =
        (Finset.range img.width.toNat ×ˢ Finset.range img.height.toNat).filter (fun p =>
          (SiteScan.scan (patchRule img badval) (areaSites img) (0, pixel img img.data)).2 p ≠
            pixel img img.data p) := by
      apply Finset.filter_congr
      intro p hp
      rw [Finset.mem_product, Finset.mem_range, Finset.mem_range] at hp
      rw [hrep.2 p hp]
    rw [patchCount, ofNat_toNat, hcount, hsame]
    rw [hcount]
    have hcard := Finset.card_filter_le
      (Finset.range img.width.toNat ×ˢ Finset.range img.height.toNat) (fun p =>
        (SiteScan.scan (patchRule img badval) (areaSites img) (0, pixel img img.data)).2 p ≠
          pixel img img.data p)
    rw [Finset.card_product, Finset.card_range, Finset.card_range] at hcard
    exact Nat.lt_of_le_of_lt hcard (pixels_lt h)

/-- Two rows of two 8-bit pixels, the first pixel of the second row bad. -/
def badCorner (area : ActiveArea) : ImgSpec where
  data := ⟨4, fun i => if i = 2 then 0 else 200⟩
  dataOffset := none
  width := 2
  height := 2
  bpp := 8
  endian := .given .little
  blackLevel := none
  cfaPattern := some [0, 1, 1, 2]
  activeArea := some area

theorem patch_correct_witness : ∃ img, rawimgLuaBindLbuf (badCorner ⟨0, 0, 2, 2⟩) = .ok img ∧
    PatchCorrect img 0 :=
  ⟨_, rfl, patch_correct _ 0 ⟨0, 3, by decide, funext (by decide)⟩ (.inr (by decide))
    (by decide) (by decide) ⟨by decide, by decide, by decide, by decide, by decide⟩⟩

/-- An active area of the first row only, two columns wider than the image: the pixel of
the second row is changed. -/
theorem patch_outside_area : ∃ img, rawimgLuaBindLbuf (badCorner ⟨0, 0, 1, 4⟩) = .ok img ∧
    Bayer img.cfaPattern ∧ DiagonalGreens img.cfaPattern ∧ img.fmt ≠ .raw14b ∧
    ¬PatchCorrect img 0 := by
  refine ⟨_, rfl, ⟨0, 3, by decide, funext (by decide)⟩, .inr (by decide), by decide, ?_⟩
  intro h
  have hkept := h.kept (0, 1) ⟨by decide, by decide⟩ (.inl (fun hin => absurd hin.2.2 (by decide)))
  revert hkept
  decide +kernel

end RawPatch
