import Chdkptp.RawImage
import Mathlib.Tactic.Linarith

/-!
# Users of the active area

`patch_pixels`, `make_rgb_thumb` and the histogram of `dng.lua` walk over the
active area with accessors that do not check coordinates. Their loops carry a
log of the pixels they hand to an accessor, so that staying inside the image is
a statement about the log. `set_data` builds the arguments of `bind_lbuf` from
the tags of a DNG header.
-/

namespace RawActive

open ByteMemory BoundedLoop RawAccess RawLayout Lbuf Rawimg

/-- The image bytes during a loop, and the pixels accessed so far. -/
structure PixelRun where
  data : Memory
  touched : List (Nat × Nat)

def getAt (img : RawImage) (s : PixelRun) (x y : UInt32) : Nat × PixelRun :=
  (img.fmt.getPixel s.data img.rowBytes.toNat x.toNat y.toNat,
    { s with touched := s.touched ++ [(x.toNat, y.toNat)] })

def setAt (img : RawImage) (s : PixelRun) (x y : UInt32) (v : Nat) : PixelRun :=
  ⟨img.fmt.setPixel s.data img.rowBytes.toNat x.toNat y.toNat v,
    s.touched ++ [(x.toNat, y.toNat)]⟩

/-! ## Patching -/

def rawimgGetPixelSafe (img : RawImage) (s : PixelRun) (x y : UInt32) : Nat × PixelRun :=
  if x ≥ img.width ∨ y ≥ img.height then (0, s) else getAt img s x y

def cfaColor (img : RawImage) (x y : UInt32) : UInt8 :=
  img.cfaPattern ⟨x.toNat % 2 + y.toNat % 2 * 2, by omega⟩

def cfaRed : UInt8 := 0
def cfaGreen : UInt8 := 1
def cfaBlue : UInt8 := 2

/-- The four neighbours of the same colour; coordinates below 0 wrap. -/
def neighbours (img : RawImage) (x y : UInt32) : List (UInt32 × UInt32) :=
  if cfaColor img x y = cfaGreen then
    [(x - 1, y - 1), (x + 1, y - 1), (x - 1, y + 1), (x + 1, y + 1)]
  else [(x - 2, y), (x + 2, y), (x, y - 2), (x, y + 2)]

def readNeighbours (img : RawImage) (s : PixelRun) :
    List (UInt32 × UInt32) → List Nat × PixelRun
  | [] => ([], s)
  | p :: rest =>
    let (v, s') := rawimgGetPixelSafe img s p.1 p.2
    let (vs, s'') := readNeighbours img s' rest
    (v :: vs, s'')

def rawimgPatchPixel (img : RawImage) (s : PixelRun) (x y : UInt32) : Nat × PixelRun :=
  let (neigh, s') := readNeighbours img s (neighbours img x y)
  let used := neigh.filter (fun v => img.blackLevel.toNat < v)
  if used.length ≠ 0 then (1, setAt img s' x y (used.sum / used.length)) else (0, s')

/-- The body of the two loops of `patch_pixels`, with the count of patched pixels. -/
def patchAt (img : RawImage) (badval x y : UInt32) (s : Nat × PixelRun) : Nat × PixelRun :=
  let (val, run) := getAt img s.2 x y
  if val ≤ badval.toNat then
    let (n, run') := rawimgPatchPixel img run x y
    (s.1 + n, run')
  else (s.1, run)

def rawimgLuaPatchPixels (img : RawImage) (badval : UInt32) : Nat × PixelRun :=
  forUp (fun j s => forUp (fun k s =>
      patchAt img badval (UInt32.ofNat (img.activeLeft.toNat + k))
        (UInt32.ofNat (img.activeTop.toNat + j)) s)
    (img.activeRight.toNat - img.activeLeft.toNat) s)
    (img.activeBottom.toNat - img.activeTop.toNat) (0, ⟨img.data, []⟩)

/-! ## The thumbnail -/

/-- The offset inside the 2x2 pattern that the loop over `cfa_pattern` leaves for
a colour: the last cell of that colour, or the first cell. -/
def cfaPosition (pattern : Fin 4 → UInt8) (color : UInt8) : Nat × Nat :=
  ([0, 1, 2, 3] : List (Fin 4)).foldl
    (fun pos i => if pattern i = color then (i.val % 2, i.val / 2) else pos) (0, 0)

/-- `(start + t*extent/size)&~1`. -/
def thumbCell (start extent size t : UInt32) : UInt32 :=
  (start + t * extent / size) &&& 0xFFFFFFFE

/-- The three pixels read for one pixel of the thumbnail. The column of the third
is `bx+gx` in the source. -/
def thumbPixels (img : RawImage) (width height tx ty : UInt32) : List (UInt32 × UInt32) :=
  let ix := thumbCell img.activeLeft (img.activeRight - img.activeLeft) width tx
  let iy := thumbCell img.activeTop (img.activeBottom - img.activeTop) height ty
  let r := cfaPosition img.cfaPattern cfaRed
  let g := cfaPosition img.cfaPattern cfaGreen
  let b := cfaPosition img.cfaPattern cfaBlue
  [(ix + UInt32.ofNat r.1, iy + UInt32.ofNat r.2), (ix + UInt32.ofNat g.1, iy + UInt32.ofNat g.2),
    (UInt32.ofNat (b.1 + g.1), iy + UInt32.ofNat b.2)]

/-- The allocated size, the bytes stored from its start on, the pixels read. -/
structure Thumb where
  size : UInt32
  bytes : List UInt8
  touched : List (Nat × Nat)

def thumbStep (img : RawImage) (width height tx ty : UInt32) (s : Thumb) : Thumb :=
  let pixels := thumbPixels img width height tx ty
  { s with
    bytes := s.bytes ++ pixels.map (fun p => UInt8.ofNat
      (img.fmt.getPixel img.data img.rowBytes.toNat p.1.toNat p.2.toNat >>> (img.fmt.bpp - 8)))
    touched := s.touched ++ pixels.map (fun p => (p.1.toNat, p.2.toNat)) }

def rawimgLuaMakeRgbThumb (malloc : UInt32 → Bool) (img : RawImage) (width height : UInt32) :
    Except String Thumb :=
  let iw := img.activeRight - img.activeLeft
  let ih := img.activeBottom - img.activeTop
  if width > iw ∨ height > ih then .error "thumb cannot be larger than active area"
  else if width = 0 ∨ height = 0 then .error "zero dimensions not allowed"
  else
    let size := width * height * 3
    if malloc size = false then .error "malloc failed for thumb"
    else .ok (forUp (fun ty s => forUp (fun tx s =>
        thumbStep img width height (UInt32.ofNat tx) (UInt32.ofNat ty) s) width.toNat s)
      height.toNat ⟨size, [], []⟩)

/-! ## DNG headers -/

/-- The tags of the raw IFD that are read here, as their lists of elements;
`none` is a tag that the header lacks. -/
structure RawIfd where
  activeArea : Option (List UInt32)
  imageLength : Option (List UInt32)
  imageWidth : Option (List UInt32)
  bitsPerSample : Option (List UInt32)
  blackLevel : Option (List UInt32)
  stripOffsets : Option (List UInt32)
  cfaPattern : Option (List UInt8)

structure Dng where
  lb : LBuf
  rawIfd : Option RawIfd

/-- `ifd.byname.Tag:getel(index)`: nil past the end, an error without the tag. -/
def getel (tag : Option (List UInt32)) (index : Nat) : Except String (Option UInt32) :=
  match tag with
  | none => .error "attempt to index a nil value"
  | some elements => .ok elements[index]?

/-- An operand of a comparison. -/
def compared (v : Option UInt32) : Except String UInt32 :=
  match v with
  | none => .error "attempt to compare number with nil"
  | some n => .ok n

/-- A field that `lu_table_checknumber` requires. -/
def number (v : Option UInt32) : Except String UInt32 :=
  match v with
  | none => .error "number expected, got nil"
  | some n => .ok n

/-- The argument table that `set_data` passes to `bind_lbuf`. The right edge of
the active area is not clamped. -/
def setDataSpec (d : Dng) (data : Option LBuf) (offset : Option UInt32)
    (order : Option (OptionArg Endian)) : Except String ImgSpec := do
  match d.rawIfd with
  | none => .error "ifd 0.0 not found"
  | some ifd =>
    let source : LBuf × Option UInt32 ← match data with
      | some lb => .ok (lb, some (offset.getD 0))
      | none => do
        let strip ← getel ifd.stripOffsets 0
        .ok (d.lb, strip)
    let top ← getel ifd.activeArea 0
    let left ← getel ifd.activeArea 1
    let bottom ← getel ifd.activeArea 2
    let right ← getel ifd.activeArea 3
    let length ← getel ifd.imageLength 0
    let bottom ← compared bottom
    let length ← compared length
    let width ← getel ifd.imageWidth 0
    let left ← compared left
    let width ← compared width
    let bpp ← getel ifd.bitsPerSample 0
    let black ← getel ifd.blackLevel 0
    let bpp ← number bpp
    match ifd.cfaPattern with
    | none => .error "attempt to index a nil value"
    | some cfa =>
      let top ← number top
      let right ← number right
      .ok {
        data := source.1, dataOffset := source.2, width := width, height := length, bpp := bpp,
        endian := order.getD (.given .big), blackLevel := black, cfaPattern := some cfa,
        activeArea := some ⟨top, if left > width then width else left,
          if bottom > length then length else bottom, right⟩ }

def setData (d : Dng) (data : Option LBuf) (offset : Option UInt32)
    (order : Option (OptionArg Endian)) : Except String RawImage := do
  let spec ← setDataSpec d data offset order
  rawimgLuaBindLbuf spec

/-- The histogram table during its loops. -/
structure HistogramRun where
  h : Nat → Option Nat
  touched : List (Nat × Nat)
  error : Option String

/-- `h[v] = h[v] + 1` with `v = img:get_pixel(x,y)`; after an error nothing runs. -/
def histogramAt (img : RawImage) (x y : UInt32) (s : HistogramRun) : HistogramRun :=
  match s.error, rawimgLuaGetPixel img x y with
  | some _, _ => s
  | none, none => { s with error := some "attempt to perform arithmetic on a nil value" }
  | none, some v =>
    let touched := s.touched ++ [(x.toNat, y.toNat)]
    match s.h v with
    | none =>
      { s with touched := touched, error := some "attempt to perform arithmetic on a nil value" }
    | some n => { s with h := fun i => if i = v then some (n + 1) else s.h i, touched := touched }

/-- The loops of `build_histogram` over a rectangle, by default the active area tag. -/
def buildHistogram (img : RawImage) (r : ActiveArea) : HistogramRun :=
  forUp (fun j s => forUp (fun k s =>
      histogramAt img (UInt32.ofNat (r.left.toNat + k)) (UInt32.ofNat (r.top.toNat + j)) s)
    (r.right.toNat - r.left.toNat) s) (r.bottom.toNat - r.top.toNat)
    ⟨fun i => if i < 2 ^ img.fmt.bpp then some 0 else none, [], none⟩

/-! ## Staying inside the image -/

def Inside (img : RawImage) (p : Nat × Nat) : Prop :=
  p.1 < img.width.toNat ∧ p.2 < img.height.toNat

/-- What the loops rely on. -/
structure AreaInvariant (img : RawImage) : Prop where
  top : img.activeTop < img.activeBottom
  bottom : img.activeBottom ≤ img.height
  left : img.activeLeft < img.activeRight
  right : img.activeRight ≤ img.width

def PatchInside (img : RawImage) : Prop :=
  ∀ badval, ∀ p ∈ (rawimgLuaPatchPixels img badval).2.touched, Inside img p

def ThumbInside (img : RawImage) : Prop :=
  ∀ malloc width height thumb, rawimgLuaMakeRgbThumb malloc img width height = .ok thumb →
    ∀ p ∈ thumb.touched, Inside img p

def HistogramInside (img : RawImage) : Prop :=
  ∀ r, ∀ p ∈ (buildHistogram img r).touched, Inside img p

/-- A log of pixels inside the image can be extended by one. -/
theorem inside_append {img : RawImage} {log : List (Nat × Nat)} {x y : UInt32}
    (h : ∀ p ∈ log, Inside img p) (hx : x < img.width) (hy : y < img.height) :
    ∀ p ∈ log ++ [(x.toNat, y.toNat)], Inside img p := by
  intro p hp
  rcases List.mem_append.mp hp with hp | hp
  · exact h p hp
  · rw [List.mem_singleton.mp hp]
    exact ⟨UInt32.lt_iff_toNat_lt.mp hx, UInt32.lt_iff_toNat_lt.mp hy⟩

/-- What has passed a bounds test. -/
theorem in_bounds {x y w h : UInt32} (hb : ¬(x ≥ w ∨ y ≥ h)) : x < w ∧ y < h := by
  rwa [not_or, ge_iff_le, ge_iff_le, UInt32.not_le, UInt32.not_le] at hb

/-- The log of a run has stayed inside. -/
def Logged (img : RawImage) (s : PixelRun) : Prop := ∀ p ∈ s.touched, Inside img p

theorem logged_getAt {img : RawImage} {s : PixelRun} {x y : UInt32} (h : Logged img s)
    (hx : x < img.width) (hy : y < img.height) : Logged img (getAt img s x y).2 :=
  inside_append h hx hy

theorem logged_setAt {img : RawImage} {s : PixelRun} {x y : UInt32} (v : Nat)
    (h : Logged img s) (hx : x < img.width) (hy : y < img.height) :
    Logged img (setAt img s x y v) :=
  inside_append h hx hy

theorem logged_safe {img : RawImage} {s : PixelRun} (x y : UInt32) (h : Logged img s) :
    Logged img (rawimgGetPixelSafe img s x y).2 := by
  simp only [rawimgGetPixelSafe]
  split
  · exact h
  · rename_i hb
    obtain ⟨hx, hy⟩ := in_bounds hb
    exact logged_getAt h hx hy

theorem logged_neighbours {img : RawImage} (ps : List (UInt32 × UInt32)) (s : PixelRun)
    (h : Logged img s) : Logged img (readNeighbours img s ps).2 := by
  induction ps generalizing s with
  | nil => exact h
  | cons p rest ih => exact ih _ (logged_safe p.1 p.2 h)

theorem logged_patchPixel {img : RawImage} {s : PixelRun} {x y : UInt32} (h : Logged img s)
    (hx : x < img.width) (hy : y < img.height) : Logged img (rawimgPatchPixel img s x y).2 := by
  have hn := logged_neighbours (neighbours img x y) s h
  simp only [rawimgPatchPixel]
  split
  · exact logged_setAt _ hn hx hy
  · exact hn

theorem logged_patchAt {img : RawImage} (badval : UInt32) {s : Nat × PixelRun} {x y : UInt32}
    (h : Logged img s.2) (hx : x < img.width) (hy : y < img.height) :
    Logged img (patchAt img badval x y s).2 := by
  have hg := logged_getAt h hx hy
  simp only [patchAt]
  split
  · exact logged_patchPixel hg hx hy
  · exact hg

/-- A small number survives the conversion to `unsigned`. -/
theorem ofNat_toNat {n : Nat} (h : n < 2 ^ 32) : (UInt32.ofNat n).toNat = n :=
  UInt32.toNat_ofNat_of_lt' h

/-- A loop counter between two 32-bit bounds converts exactly. -/
theorem counter_lt {lo hi bound : UInt32} {k : Nat} (hk : k < hi.toNat - lo.toNat)
    (hb : hi ≤ bound) : UInt32.ofNat (lo.toNat + k) < bound := by
  have hhi := hi.toNat_lt
  have hle := UInt32.le_iff_toNat_le.mp hb
  rw [UInt32.lt_iff_toNat_lt, ofNat_toNat (by omega)]
  omega

theorem patch_inside {img : RawImage} (h : AreaInvariant img) : PatchInside img := by
  intro badval
  apply forUp_invariant _ (fun _ (s : Nat × PixelRun) => Logged img s.2)
  · intro p hp
    cases hp
  · intro j s hj hs
    apply forUp_invariant _ (fun _ (s : Nat × PixelRun) => Logged img s.2) _ _ hs
    intro k t hk ht
    exact logged_patchAt badval ht (counter_lt hk h.right) (counter_lt hj h.bottom)

/-- `get_pixel` checks its coordinates, so the histogram is inside for any rectangle. -/
theorem histogram_inside (img : RawImage) : HistogramInside img := by
  intro r
  apply forUp_invariant _ (fun _ (s : HistogramRun) => ∀ p ∈ s.touched, Inside img p)
  · intro p hp
    cases hp
  · intro j s _ hs
    apply forUp_invariant _ (fun _ (s : HistogramRun) => ∀ p ∈ s.touched, Inside img p) _ _ hs
    intro k t _ ht
    simp only [histogramAt]
    split
    · exact ht
    · exact ht
    · rename_i v _ hv
      simp only [rawimgLuaGetPixel] at hv
      split at hv
      · cases hv
      · rename_i hb
        obtain ⟨hx, hy⟩ := in_bounds hb
        have hlog := inside_append ht hx hy
        split
        · exact hlog
        · exact hlog

/-! ### Thumbnail coordinates -/

theorem cfaPosition_le (pattern : Fin 4 → UInt8) (color : UInt8) :
    (cfaPosition pattern color).1 ≤ 1 ∧ (cfaPosition pattern color).2 ≤ 1 := by
  simp only [cfaPosition, List.foldl_cons, List.foldl_nil]
  split
  · decide
  · split
    · decide
    · split
      · decide
      · split <;> decide

/-- Clearing the lowest bit of a 32-bit value. -/
theorem and_not_one (n : Nat) (h : n < 2 ^ 32) : n &&& 0xFFFFFFFE = n / 2 * 2 := by
  apply Nat.eq_of_testBit_eq
  intro i
  cases i with
  | zero => simp
  | succ i =>
    have hmask : (0xFFFFFFFE : Nat).testBit (i + 1) = decide (i < 31) := by
      rw [Nat.testBit_succ]
      exact Nat.testBit_two_pow_sub_one 31 i
    have hn : n / 2 < 2 ^ 31 := by omega
    rw [Nat.testBit_and, hmask, Nat.testBit_succ, Nat.testBit_succ,
      Nat.mul_div_cancel _ (by decide)]
    by_cases hi : i < 31
    · simp [hi]
    · have hz : (n / 2).testBit i = false :=
        Nat.testBit_lt_two_pow (Nat.lt_of_lt_of_le hn (Nat.pow_le_pow_right (by decide) (by omega)))
      simp [hi, hz]

theorem thumbCell_toNat (start extent size t : UInt32) :
    (thumbCell start extent size t).toNat =
      (start.toNat + t.toNat * extent.toNat % 2 ^ 32 / size.toNat) % 2 ^ 32 / 2 * 2 := by
  rw [thumbCell, UInt32.toNat_and, UInt32.toNat_add, UInt32.toNat_div, UInt32.toNat_mul]
  exact and_not_one _ (Nat.mod_lt _ (by decide))

/-- Scaling a thumbnail coordinate lands below the extent, wrapped or not. -/
theorem scaled_lt {t extent size : Nat} (ht : t < size) (hextent : 0 < extent) :
    t * extent % 2 ^ 32 / size < extent := by
  have hle : t * extent % 2 ^ 32 ≤ t * extent := Nat.mod_le _ _
  have hlt : t * extent < size * extent := Nat.mul_lt_mul_of_pos_right ht hextent
  rw [Nat.div_lt_iff_lt_mul (by omega), Nat.mul_comm extent size]
  omega

/-- The last coordinate of the extent is reached at full size only, and only if
the product does not wrap. -/
theorem scaled_eq_last {t extent size : Nat} (ht : t < size) (hsize : size ≤ extent)
    (h : extent - 1 ≤ t * extent % 2 ^ 32 / size) : extent * (extent - 1) < 2 ^ 32 := by
  have hle : t * extent % 2 ^ 32 ≤ t * extent := Nat.mod_le _ _
  have hlt : t * extent % 2 ^ 32 < 2 ^ 32 := Nat.mod_lt _ (by decide)
  have hmul : (extent - 1) * size ≤ t * extent % 2 ^ 32 :=
    (Nat.le_div_iff_mul_le (by omega)).mp h
  have hfull : size = extent := by
    by_contra hne
    obtain ⟨e, rfl⟩ : ∃ e, extent = size + 1 + e := ⟨extent - (size + 1), by omega⟩
    obtain ⟨d, rfl⟩ : ∃ d, size = t + 1 + d := ⟨size - (t + 1), by omega⟩
    have he : t + 1 + d + 1 + e - 1 = t + 1 + d + e := by omega
    rw [he] at hmul
    nlinarith
  subst hfull
  rw [Nat.mul_comm]
  omega

/-- Full-size thumbnails reach the last coordinate if the product fits. -/
theorem scaled_last {extent : Nat} (hpos : 0 < extent) (h : extent * (extent - 1) < 2 ^ 32) :
    (extent - 1) * extent % 2 ^ 32 / extent = extent - 1 := by
  rw [Nat.mod_eq_of_lt (by rwa [Nat.mul_comm] at h), Nat.mul_div_cancel _ hpos]

/-- The active area ends at an odd image edge that a thumbnail can reach. -/
def ReachesOddEdge (lo hi size : UInt32) : Prop :=
  hi = size ∧ size.toNat % 2 = 1 ∧
    (hi.toNat - lo.toNat) * (hi.toNat - lo.toNat - 1) < 2 ^ 32

theorem sub_toNat {lo hi : UInt32} (h : lo < hi) : (hi - lo).toNat = hi.toNat - lo.toNat :=
  UInt32.toNat_sub_of_le _ _ (UInt32.le_of_lt h)

/-- A cell of the thumbnail and its upper neighbour are inside, unless the
area ends at a reachable odd edge. -/
theorem thumbCell_inside {lo hi size n t : UInt32} (hlo : lo < hi) (hhi : hi ≤ size)
    (ht : t < n) (hn : n ≤ hi - lo) (d : Nat) (hd : d ≤ 1)
    (hedge : d = 0 ∨ ¬ReachesOddEdge lo hi size) :
    (thumbCell lo (hi - lo) n t + UInt32.ofNat d).toNat < size.toNat := by
  have hlt := UInt32.lt_iff_toNat_lt.mp hlo
  have hle := UInt32.le_iff_toNat_le.mp hhi
  have htn := UInt32.lt_iff_toNat_lt.mp ht
  have hnn := UInt32.le_iff_toNat_le.mp hn
  have hmax := size.toNat_lt
  have hcell := thumbCell_toNat lo (hi - lo) n t
  rw [sub_toNat hlo] at hnn hcell
  have hq : t.toNat * (hi.toNat - lo.toNat) % 2 ^ 32 / n.toNat < hi.toNat - lo.toNat :=
    scaled_lt htn (by omega)
  -- the last coordinate of the area is reached only across a product that fits
  have hlast : hi.toNat - lo.toNat - 1 ≤ t.toNat * (hi.toNat - lo.toNat) % 2 ^ 32 / n.toNat →
      d = 0 ∨ ¬(hi.toNat = size.toNat ∧ size.toNat % 2 = 1) := by
    intro h
    rcases hedge with hzero | hedge
    · exact .inl hzero
    · right
      rintro ⟨he, hodd⟩
      exact hedge ⟨UInt32.toNat_inj.mp he, hodd, scaled_eq_last htn hnn h⟩
  have hdn : (UInt32.ofNat d).toNat = d := ofNat_toNat (by omega)
  rw [UInt32.toNat_add, hdn, hcell]
  generalize t.toNat * (hi.toNat - lo.toNat) % 2 ^ 32 / n.toNat = q at hq hlast ⊢
  have hfit : (lo.toNat + q) % 2 ^ 32 = lo.toNat + q := Nat.mod_eq_of_lt (by omega)
  rw [hfit]
  by_cases h : hi.toNat - lo.toNat - 1 ≤ q
  · have := hlast h
    omega
  · omega

/-- At a reachable odd edge the full-size thumbnail reads one past the edge. -/
theorem thumbCell_outside {lo hi size : UInt32} (hlo : lo < hi)
    (hedge : ReachesOddEdge lo hi size) :
    (thumbCell lo (hi - lo) (hi - lo) (hi - lo - 1) + UInt32.ofNat 1).toNat = size.toNat := by
  obtain ⟨rfl, hodd, hprod⟩ := hedge
  have hlt := UInt32.lt_iff_toNat_lt.mp hlo
  have hmax := hi.toNat_lt
  have hone : (1 : UInt32) ≤ hi - lo := by
    rw [UInt32.le_iff_toNat_le, sub_toNat hlo, UInt32.toNat_one]
    omega
  have hpred : (hi - lo - 1).toNat = hi.toNat - lo.toNat - 1 := by
    rw [UInt32.toNat_sub_of_le _ _ hone, sub_toNat hlo, UInt32.toNat_one]
  have hcell := thumbCell_toNat lo (hi - lo) (hi - lo) (hi - lo - 1)
  rw [sub_toNat hlo, hpred, scaled_last (by omega) hprod] at hcell
  have hfit : (lo.toNat + (hi.toNat - lo.toNat - 1)) % 2 ^ 32 = hi.toNat - 1 := by omega
  rw [hfit] at hcell
  have hdn : (UInt32.ofNat 1).toNat = 1 := rfl
  rw [UInt32.toNat_add, hdn, hcell]
  omega

/-- So an offset that stays inside there is 0. -/
theorem offset_zero {lo hi size : UInt32} (hlo : lo < hi) (hedge : ReachesOddEdge lo hi size)
    {d : Nat} (hd : d ≤ 1)
    (hin : (thumbCell lo (hi - lo) (hi - lo) (hi - lo - 1) + UInt32.ofNat d).toNat <
      size.toNat) : d = 0 := by
  by_contra hne
  have hone : d = 1 := by omega
  rw [hone, thumbCell_outside hlo hedge] at hin
  exact Nat.lt_irrefl _ hin

/-! ### The thumbnail as a whole -/

/-- The pixels a thumbnail reads, in order. -/
def thumbTouched (img : RawImage) (width height : UInt32) : List (Nat × Nat) :=
  (List.range height.toNat).flatMap (fun ty => (List.range width.toNat).flatMap (fun tx =>
    (thumbPixels img width height (UInt32.ofNat tx) (UInt32.ofNat ty)).map
      (fun p => (p.1.toNat, p.2.toNat))))

theorem thumb_size_iff {width height iw ih : UInt32} :
    ¬(width > iw ∨ height > ih) ↔ width ≤ iw ∧ height ≤ ih := by
  rw [not_or, gt_iff_lt, gt_iff_lt, UInt32.not_lt, UInt32.not_lt]

theorem thumb_touched {malloc : UInt32 → Bool} {img : RawImage} {width height : UInt32}
    {thumb : Thumb} (h : rawimgLuaMakeRgbThumb malloc img width height = .ok thumb) :
    thumb.touched = thumbTouched img width height ∧
      width ≤ img.activeRight - img.activeLeft ∧ height ≤ img.activeBottom - img.activeTop := by
  simp only [rawimgLuaMakeRgbThumb] at h
  split at h
  · cases h
  · rename_i hsize
    split at h
    · cases h
    · split at h
      · cases h
      · cases h
        refine ⟨?_, thumb_size_iff.mp hsize⟩
        rw [forUp_log _ Thumb.touched _ (fun ty s => forUp_log _ Thumb.touched _
          (fun tx s => rfl) width.toNat s)]
        rfl

/-- Thumbnails up to the size of the active area are made. -/
theorem thumb_made (img : RawImage) {width height : UInt32}
    (hw : width ≤ img.activeRight - img.activeLeft)
    (hh : height ≤ img.activeBottom - img.activeTop) (hw0 : width ≠ 0) (hh0 : height ≠ 0) :
    ∃ thumb, rawimgLuaMakeRgbThumb (fun _ => true) img width height = .ok thumb ∧
      thumb.touched = thumbTouched img width height := by
  have hsize := thumb_size_iff.mpr ⟨hw, hh⟩
  refine ⟨forUp (fun ty s => forUp (fun tx s =>
      thumbStep img width height (UInt32.ofNat tx) (UInt32.ofNat ty) s) width.toNat s)
      height.toNat ⟨width * height * 3, [], []⟩, ?_, ?_⟩
  · simp [rawimgLuaMakeRgbThumb, if_neg hsize, hw0, hh0]
  · rw [forUp_log _ Thumb.touched _ (fun ty s => forUp_log _ Thumb.touched _
      (fun tx s => rfl) width.toNat s)]
    rfl

/-- The columns and rows that the thumbnail adds to a cell stay inside. -/
structure ThumbSafe (width height : UInt32) (area : ActiveArea) (cfa : Fin 4 → UInt8) : Prop where
  blue : (cfaPosition cfa cfaBlue).1 + (cfaPosition cfa cfaGreen).1 < width.toNat
  columns : ((cfaPosition cfa cfaRed).1 = 0 ∧ (cfaPosition cfa cfaGreen).1 = 0) ∨
    ¬ReachesOddEdge area.left area.right width
  rows : ((cfaPosition cfa cfaRed).2 = 0 ∧ (cfaPosition cfa cfaGreen).2 = 0 ∧
      (cfaPosition cfa cfaBlue).2 = 0) ∨ ¬ReachesOddEdge area.top area.bottom height

def areaOf (img : RawImage) : ActiveArea :=
  ⟨img.activeTop, img.activeLeft, img.activeBottom, img.activeRight⟩

theorem mem_thumbTouched {img : RawImage} {width height : UInt32} {p : Nat × Nat} :
    p ∈ thumbTouched img width height ↔ ∃ tx ty : UInt32, tx < width ∧ ty < height ∧
      p ∈ (thumbPixels img width height tx ty).map (fun q => (q.1.toNat, q.2.toNat)) := by
  have hround : ∀ {n : UInt32} {k : Nat}, k < n.toNat → (UInt32.ofNat k).toNat = k := by
    intro n k hk
    have := n.toNat_lt
    exact ofNat_toNat (by omega)
  simp only [thumbTouched, List.mem_flatMap, List.mem_range]
  constructor
  · rintro ⟨ty, hty, tx, htx, hp⟩
    refine ⟨UInt32.ofNat tx, UInt32.ofNat ty, ?_, ?_, hp⟩
    · rw [UInt32.lt_iff_toNat_lt, hround htx]
      exact htx
    · rw [UInt32.lt_iff_toNat_lt, hround hty]
      exact hty
  · rintro ⟨tx, ty, htx, hty, hp⟩
    refine ⟨ty.toNat, UInt32.lt_iff_toNat_lt.mp hty, tx.toNat, UInt32.lt_iff_toNat_lt.mp htx, ?_⟩
    rw [UInt32.ofNat_toNat, UInt32.ofNat_toNat]
    exact hp

theorem thumb_inside {img : RawImage} (ha : AreaInvariant img)
    (hs : ThumbSafe img.width img.height (areaOf img) img.cfaPattern) : ThumbInside img := by
  intro malloc width height thumb hthumb p hp
  obtain ⟨htouched, hw, hh⟩ := thumb_touched hthumb
  rw [htouched] at hp
  obtain ⟨tx, ty, htx, hty, hp⟩ := mem_thumbTouched.mp hp
  have hr := cfaPosition_le img.cfaPattern cfaRed
  have hg := cfaPosition_le img.cfaPattern cfaGreen
  have hb := cfaPosition_le img.cfaPattern cfaBlue
  have hcolumn : ∀ d, d ≤ 1 → (d = 0 ∨ ¬ReachesOddEdge img.activeLeft img.activeRight img.width) →
      _ := fun d hd he => thumbCell_inside ha.left ha.right htx hw d hd he
  have hrow : ∀ d, d ≤ 1 → (d = 0 ∨ ¬ReachesOddEdge img.activeTop img.activeBottom img.height) →
      _ := fun d hd he => thumbCell_inside ha.top ha.bottom hty hh d hd he
  have hblue : (UInt32.ofNat ((cfaPosition img.cfaPattern cfaBlue).1 +
      (cfaPosition img.cfaPattern cfaGreen).1)).toNat < img.width.toNat := by
    rw [ofNat_toNat (by omega)]
    exact hs.blue
  simp only [thumbPixels, List.map_cons, List.map_nil, List.mem_cons, List.not_mem_nil,
    or_false] at hp
  rcases hp with rfl | rfl | rfl
  · exact ⟨hcolumn _ hr.1 (hs.columns.imp_left And.left),
      hrow _ hr.2 (hs.rows.imp_left And.left)⟩
  · exact ⟨hcolumn _ hg.1 (hs.columns.imp_left And.right),
      hrow _ hg.2 (hs.rows.imp_left (fun h => h.2.1))⟩
  · exact ⟨hblue, hrow _ hb.2 (hs.rows.imp_left (fun h => h.2.2))⟩

/-- What a thumbnail that stays inside says about its pixels. -/
theorem ThumbInside.pixel {img : RawImage} (h : ThumbInside img) {width height tx ty : UInt32}
    (hw : width ≤ img.activeRight - img.activeLeft)
    (hh : height ≤ img.activeBottom - img.activeTop) (htx : tx < width) (hty : ty < height) :
    ∀ q ∈ thumbPixels img width height tx ty, Inside img (q.1.toNat, q.2.toNat) := by
  intro q hq
  have hpos : ∀ {a b : UInt32}, a < b → b ≠ 0 := by
    rintro a b hab rfl
    exact UInt32.not_lt_zero hab
  obtain ⟨thumb, hthumb, htouched⟩ := thumb_made img hw hh (hpos htx) (hpos hty)
  apply h _ _ _ _ hthumb
  rw [htouched, mem_thumbTouched]
  exact ⟨tx, ty, htx, hty, List.mem_map.mpr ⟨q, hq, rfl⟩⟩

theorem extent_facts {lo hi : UInt32} (h : lo < hi) :
    (0 : UInt32) < 1 ∧ (1 : UInt32) ≤ hi - lo ∧ hi - lo - 1 < hi - lo ∧ (0 : UInt32) < hi - lo := by
  have hlt := UInt32.lt_iff_toNat_lt.mp h
  have hone : (1 : UInt32) ≤ hi - lo := by
    rw [UInt32.le_iff_toNat_le, sub_toNat h, UInt32.toNat_one]
    omega
  refine ⟨by decide, hone, ?_, ?_⟩
  · rw [UInt32.lt_iff_toNat_lt, UInt32.toNat_sub_of_le _ _ hone, sub_toNat h, UInt32.toNat_one]
    omega
  · rw [UInt32.lt_iff_toNat_lt, sub_toNat h, UInt32.toNat_zero]
    omega

theorem thumb_safe_of_inside {img : RawImage} (ha : AreaInvariant img) (h : ThumbInside img) :
    ThumbSafe img.width img.height (areaOf img) img.cfaPattern := by
  have hr := cfaPosition_le img.cfaPattern cfaRed
  have hg := cfaPosition_le img.cfaPattern cfaGreen
  have hb := cfaPosition_le img.cfaPattern cfaBlue
  obtain ⟨hone, hw1, hwlast, _⟩ := extent_facts ha.left
  obtain ⟨_, hh1, hhlast, _⟩ := extent_facts ha.top
  constructor
  · -- the single pixel of a 1x1 thumbnail
    have hp := h.pixel hw1 hh1 hone hone _
      (List.mem_cons_of_mem _ (List.mem_cons_of_mem _ (List.mem_singleton.mpr rfl)))
    have hlt := hp.1
    rwa [ofNat_toNat (by omega)] at hlt
  · by_cases hedge : ReachesOddEdge img.activeLeft img.activeRight img.width
    · -- the last column of a thumbnail of full width
      have hpix := h.pixel (UInt32.le_refl _) hh1 hwlast hone
      have hred := (hpix _ List.mem_cons_self).1
      have hgreen := (hpix _ (List.mem_cons_of_mem _ List.mem_cons_self)).1
      exact .inl ⟨offset_zero ha.left hedge hr.1 hred, offset_zero ha.left hedge hg.1 hgreen⟩
    · exact .inr hedge
  · by_cases hedge : ReachesOddEdge img.activeTop img.activeBottom img.height
    · -- the last row of a thumbnail of full height
      have hpix := h.pixel hw1 (UInt32.le_refl _) hone hhlast
      have hred := (hpix _ List.mem_cons_self).2
      have hgreen := (hpix _ (List.mem_cons_of_mem _ List.mem_cons_self)).2
      have hblue := (hpix _ (List.mem_cons_of_mem _ (List.mem_cons_of_mem _
        (List.mem_singleton.mpr rfl)))).2
      exact .inl ⟨offset_zero ha.top hedge hr.2 hred, offset_zero ha.top hedge hg.2 hgreen,
        offset_zero ha.top hedge hb.2 hblue⟩
    · exact .inr hedge

/-! ## Images that `bind_lbuf` returns -/

/-- The active area asked for: the whole image if the table has none. -/
def specArea (spec : ImgSpec) : ActiveArea :=
  spec.activeArea.getD ⟨0, 0, spec.height, spec.width⟩

def specCfa (spec : ImgSpec) : Fin 4 → UInt8 :=
  match spec.cfaPattern with
  | none => fun _ => 0
  | some bytes => fun i => bytes.getD i 0

/-- The arguments for which the active area is safe. -/
structure AreaSafe (spec : ImgSpec) : Prop where
  right : (specArea spec).right ≤ spec.width
  thumb : ThumbSafe spec.width spec.height (specArea spec) (specCfa spec)

theorem checkActiveArea_ok {spec : ImgSpec} {a : ActiveArea} (h : checkActiveArea spec = .ok a)
    (hw : 1 ≤ spec.width) (hh : 1 ≤ spec.height) :
    a = specArea spec ∧ a.top < a.bottom ∧ a.left < a.right ∧ a.bottom ≤ spec.height := by
  have hpos : ∀ n : UInt32, 1 ≤ n → 0 < n := by
    intro n hn
    rw [UInt32.lt_iff_toNat_lt, UInt32.toNat_zero]
    have := UInt32.le_iff_toNat_le.mp hn
    rw [UInt32.toNat_one] at this
    omega
  simp only [checkActiveArea] at h
  split at h
  · rename_i area harea
    split at h
    · cases h
    · rename_i htop
      split at h
      · cases h
      · rename_i hleft
        split at h
        · cases h
        · split at h
          · cases h
          · rename_i hbottom
            cases h
            rw [ge_iff_le, UInt32.not_le] at htop hleft
            rw [gt_iff_lt, UInt32.not_lt] at hbottom
            exact ⟨by simp [specArea, harea], htop, hleft, hbottom⟩
  · rename_i harea
    cases h
    exact ⟨by simp [specArea, harea], hpos _ hh, hpos _ hw, UInt32.le_refl _⟩

theorem checkCfaPattern_ok {spec : ImgSpec} {cfa : Fin 4 → UInt8}
    (h : checkCfaPattern spec = .ok cfa) : cfa = specCfa spec := by
  simp only [checkCfaPattern] at h
  split at h
  · rename_i hnone
    cases h
    simp [specCfa, hnone]
  · rename_i bytes hsome
    split at h
    · cases h
    · cases h
      simp [specCfa, hsome]

theorem bound_area_iff {spec : ImgSpec} {img : RawImage} (hb : Bound spec img)
    (hw : 1 ≤ spec.width) (hh : 1 ≤ spec.height) :
    (AreaInvariant img ∧ PatchInside img ∧ ThumbInside img ∧ HistogramInside img) ↔
      AreaSafe spec := by
  obtain ⟨harea, htop, hleft, hbottom⟩ := checkActiveArea_ok hb.area hw hh
  have hcfa := checkCfaPattern_ok hb.cfa
  constructor
  · rintro ⟨ha, _, hthumb, _⟩
    have hs := thumb_safe_of_inside ha hthumb
    rw [hcfa, areaOf, harea, hb.width, hb.height] at hs
    refine ⟨?_, hs⟩
    rw [← harea, ← hb.width]
    exact ha.right
  · intro hs
    have ha : AreaInvariant img := by
      refine ⟨htop, by rw [hb.height]; exact hbottom, hleft, ?_⟩
      have hr := hs.right
      rwa [← harea, ← hb.width] at hr
    have ht := hs.thumb
    rw [← hcfa, ← harea, ← hb.width, ← hb.height] at ht
    exact ⟨ha, patch_inside ha, thumb_inside ha ht, histogram_inside img⟩

/-- An image that `bind_lbuf` returns for an argument table, called directly or by
`set_data` with the table that it makes of a header. -/
inductive Obtained (spec : ImgSpec) (img : RawImage) : Prop where
  | bindLbuf (h : rawimgLuaBindLbuf spec = .ok img)
  | setData (dng : Dng) (data : Option LBuf) (offset : Option UInt32)
      (order : Option (OptionArg Endian)) (hspec : setDataSpec dng data offset order = .ok spec)
      (h : setData dng data offset order = .ok img)

theorem Obtained.bound {spec : ImgSpec} {img : RawImage} (h : Obtained spec img) :
    Bound spec img := by
  cases h with
  | bindLbuf h => exact bind_lbuf_bound h
  | setData dng data offset order hspec h =>
    apply bind_lbuf_bound
    simpa only [RawActive.setData, hspec, bind, Except.bind] using h

/-- The active area of an image and everything that walks over it are inside
exactly for safe arguments. -/
theorem active_area_inside_iff (spec : ImgSpec) (img : RawImage) (hw : 1 ≤ spec.width)
    (hh : 1 ≤ spec.height) (h : Obtained spec img) :
    (AreaInvariant img ∧ PatchInside img ∧ ThumbInside img ∧ HistogramInside img) ↔
      AreaSafe spec :=
  bound_area_iff h.bound hw hh

/-- One 8-bit pixel with an active area five columns wide. -/
def wideAreaSpec : ImgSpec where
  data := ⟨1, fun _ => 0⟩
  dataOffset := none
  width := 1
  height := 1
  bpp := 8
  endian := .given .little
  blackLevel := none
  cfaPattern := none
  activeArea := some ⟨0, 0, 1, 5⟩

theorem active_area_too_wide :
    ∃ img, rawimgLuaBindLbuf wideAreaSpec = .ok img ∧ ¬AreaInvariant img := by
  refine ⟨_, rfl, ?_⟩
  intro h
  exact absurd h.right (by decide)

/-- A header whose active area is the whole of its single 8-bit pixel. -/
def onePixelDng : Dng where
  lb := ⟨1, fun _ => 0⟩
  rawIfd := some {
    activeArea := some [0, 0, 1, 1], imageLength := some [1], imageWidth := some [1],
    bitsPerSample := some [8], blackLevel := some [0], stripOffsets := some [0],
    cfaPattern := some [0, 1, 1, 2] }

theorem active_area_inside_witness :
    (∃ img, rawimgLuaBindLbuf wideAreaSpec = .ok img ∧
      ((AreaInvariant img ∧ PatchInside img ∧ ThumbInside img ∧ HistogramInside img) ↔
        AreaSafe wideAreaSpec)) ∧
    ∃ spec img, setData onePixelDng none none none = .ok img ∧
      ((AreaInvariant img ∧ PatchInside img ∧ ThumbInside img ∧ HistogramInside img) ↔
        AreaSafe spec) :=
  ⟨⟨_, rfl, active_area_inside_iff _ _ (by decide) (by decide) (.bindLbuf rfl)⟩,
    ⟨_, _, rfl, active_area_inside_iff _ _ (by decide) (by decide)
      (.setData onePixelDng none none none rfl rfl)⟩⟩

end RawActive
