import Chdkptp.RawImage
import Chdkptp.Intervals
import Chdkptp.Fuelled
import Mathlib.Algebra.BigOperators.Group.Finset.Basic
import Mathlib.Algebra.BigOperators.Ring.Finset

/-!
# Histograms

`build_histogram` of `dng.lua` counts the pixels of a rectangle; `print` of `histoutil.lua`
walks through a histogram in bins of several values, the last of which may be cut off.
-/

namespace Histogram

open RawAccess RawLayout Rawimg Intervals

inductive HistoError where
  | thrown (etype msg : String)
  | raised (msg : String)
  deriving DecidableEq, Repr

def nilArithmetic : HistoError := .raised "attempt to perform arithmetic on a nil value"

def nilIndex : HistoError := .raised "attempt to index a nil value"

/-- The counts by their values, with the number of all of them if it is known. -/
structure Histo where
  entry : Int → Option Int
  total : Option Int
  /-- `#histo` -/
  length : Int

/-- `histo[i]` in a sum. -/
def Histo.get (histo : Histo) (i : Int) : Except HistoError Int :=
  match histo.entry i with
  | some n => .ok n
  | none => .error nilArithmetic

/-! ## Building a histogram -/

structure Rect where
  top : Int
  left : Int
  bottom : Int
  right : Int
  deriving DecidableEq, Repr

/-- The image, if it is set, and the elements of `ActiveArea`, without which it cannot be. -/
structure DngImage where
  img : Option RawImage
  activeArea : Rect

structure RectOpts where
  top : Option Int := none
  left : Option Int := none
  bottom : Option Int := none
  right : Option Int := none

/-- The active area, with what the options say in its place. -/
def RectOpts.rect (opts : RectOpts) (area : Rect) : Rect where
  top := opts.top.getD area.top
  left := opts.left.getD area.left
  bottom := opts.bottom.getD area.bottom
  right := opts.right.getD area.right

/-- `self:max_value()` -/
def maxValue (img : RawImage) : Int := 2 ^ img.fmt.bpp - 1

/-- `h[v] = h[v] + 1` -/
def increment (entry : Int → Option Int) (v : Option Nat) :
    Except HistoError (Int → Option Int) :=
  match v with
  | none => .error nilArithmetic
  | some v =>
    match entry v with
    | none => .error nilArithmetic
    | some n => .ok (Function.update entry v (some (n + 1)))

/-- `img:get_pixel(x,y)` with numbers of Lua. -/
def pixelAt (img : RawImage) (x y : Int) : Option Nat :=
  rawimgLuaGetPixel img (UInt32.ofInt x) (UInt32.ofInt y)

def buildHistogram (dng : DngImage) (opts : RectOpts) : Except HistoError Histo :=
  match dng.img with
  | none => .error nilIndex
  | some img => do
    let r := opts.rect dng.activeArea
    let zeros := (upTo 0 (maxValue img)).foldl (fun entry i => Function.update entry i (some 0))
      fun _ => none
    let entry ← (upTo r.top (r.bottom - 1)).foldlM (fun entry y =>
      (upTo r.left (r.right - 1)).foldlM (fun entry x => increment entry (pixelAt img x y)) entry)
      zeros
    return ⟨entry, some ((r.bottom - r.top) * (r.right - r.left)), maxValue img⟩

/-! ## Printing a histogram -/

inductive Fmt where
  | count | percent | dots | function
  | other (fmt : String)
  deriving DecidableEq, Repr

structure PrintOpts where
  fmt : Option Fmt := none
  bin : Option Int := none
  min : Option Int := none
  max : Option Int := none
  total : Option Int := none

namespace PrintOpts

variable (opts : PrintOpts) (histo : Histo)

def binSize : Int := opts.bin.getD 1

def minValue : Int := opts.min.getD 0

def maxValue : Int := opts.max.getD histo.length

end PrintOpts

/-- The arguments of `outfn`. -/
structure OutCall where
  count : Int
  binStart : Int
  binEnd : Int
  deriving DecidableEq, Repr

/-- What is asked of the options. -/
def checkOpts (histo : Histo) (opts : PrintOpts) : Except HistoError Unit :=
  if opts.total.or histo.total = none then
    .error (.thrown "bad_arg" "histoutil.print: missing total")
  else
    match opts.fmt with
    | some (.other fmt) => .error (.thrown "bad_arg" ("histoutil.print: bad fmt " ++ fmt))
    | _ => .ok ()

/-- The inner loop: bin size may not evenly divide range. -/
def binCount (histo : Histo) (bin max v : Int) : Except HistoError Int :=
  (upTo 0 (bin - 1)).foldlM (fun count i =>
    if v + i ≤ max then return count + (← histo.get (v + i)) else return count) 0

/-- A pass of the outer loop, from the first value of a bin and the calls so far. -/
def printPass (histo : Histo) (bin max : Int) (s : Int × List OutCall) :
    Fuelled HistoError ((Int × List OutCall) ⊕ List OutCall) :=
  if s.1 ≤ max then do
    let count ← binCount histo bin max s.1
    return .inl (s.1 + bin, s.2 ++ [⟨count, s.1, s.1 + bin - 1⟩])
  else return .inr s.2

/-- The calls of `outfn`. -/
def print (histo : Histo) (opts : PrintOpts) : Fuelled HistoError (List OutCall) := do
  checkOpts histo opts
  Fuelled.repeatUntil (printPass histo opts.binSize (opts.maxValue histo)) (opts.minValue, [])

def rangeCount (histo : Histo) (vmin vmax : Int) : Except HistoError Int :=
  (upTo vmin vmax).foldlM (fun total i => return total + (← histo.get i)) 0

/-! ## Counting -/

/-- The counts of some values below a bound. -/
def countsTable (bound : Nat) (vs : List Nat) (k : Int) : Option Int :=
  if 0 ≤ k ∧ k < bound then some (vs.count k.toNat) else none

/-- The entries that a list sets to zero. -/
theorem foldl_zeros (l : List Int) (entry : Int → Option Int) (k : Int) :
    l.foldl (fun entry i => Function.update entry i (some 0)) entry k =
      if k ∈ l then some 0 else entry k := by
  induction l generalizing entry with
  | nil => simp
  | cons i l ih =>
    rw [List.foldl_cons, ih]
    by_cases hk : k ∈ l
    · simp [hk]
    · by_cases hi : k = i
      · simp [hi]
      · simp [hk, hi]

theorem zeros_eq (bound : Nat) :
    (upTo 0 ((bound : Int) - 1)).foldl (fun entry i => Function.update entry i (some 0))
      (fun _ => none) = countsTable bound [] := by
  funext k
  rw [foldl_zeros]
  by_cases hk : 0 ≤ k ∧ k < bound
  · have hmem : k ∈ upTo 0 ((bound : Int) - 1) := by
      rw [mem_upTo]
      omega
    rw [if_pos hmem, countsTable, if_pos hk]
    rfl
  · have hmem : k ∉ upTo 0 ((bound : Int) - 1) := by
      rw [mem_upTo]
      omega
    rw [if_neg hmem, countsTable, if_neg hk]

section Counts

variable {bound : Nat}

/-- One more value. -/
theorem increment_counts {v : Nat} (hv : v < bound) (vs : List Nat) :
    increment (countsTable bound vs) (some v) = .ok (countsTable bound (vs ++ [v])) := by
  have hentry : countsTable bound vs (v : Int) = some (vs.count v : Int) := by
    rw [countsTable, if_pos (by omega)]
    rfl
  simp only [increment, hentry]
  apply congrArg
  funext k
  by_cases hk : k = (v : Int)
  · subst hk
    rw [Function.update_self, countsTable, if_pos (by omega)]
    simp
  · rw [Function.update_of_ne hk, countsTable, countsTable]
    by_cases hin : 0 ≤ k ∧ k < bound
    · have hne : k.toNat ≠ v := by omega
      have hnone : List.count k.toNat [v] = 0 := List.count_eq_zero.mpr (by simpa using hne)
      rw [if_pos hin, if_pos hin, List.count_append, hnone, Nat.add_zero]
    · rw [if_neg hin, if_neg hin]

/-- A loop whose passes each count some values. -/
theorem foldlM_counts {α : Type} {l : List α}
    {body : (Int → Option Int) → α → Except HistoError (Int → Option Int)} {values : α → List Nat}
    (h : ∀ a ∈ l, ∀ vs, body (countsTable bound vs) a = .ok (countsTable bound (vs ++ values a)))
    (vs : List Nat) :
    l.foldlM body (countsTable bound vs) = .ok (countsTable bound (vs ++ l.flatMap values)) := by
  induction l generalizing vs with
  | nil => simp [pure, Except.pure]
  | cons a l ih =>
    rw [List.foldlM_cons, h a List.mem_cons_self]
    have hrest := ih (fun b hb => h b (List.mem_cons_of_mem a hb)) (vs ++ values a)
    rw [List.append_assoc] at hrest
    exact hrest

/-- All values that are counted are below the bound. -/
theorem sum_counts {vs : List Nat} (h : ∀ v ∈ vs, v < bound) :
    ∑ v ∈ Finset.range bound, vs.count v = vs.length := by
  have hsum := @Multiset.sum_count_eq_card Nat _ (Finset.range bound) (vs : Multiset Nat)
    (fun v hv => Finset.mem_range.mpr (h v hv))
  simpa using hsum

end Counts

/-! ## The pixels of a rectangle -/

/-- A rectangle inside the image. -/
structure Inside (img : RawImage) (r : Rect) : Prop where
  top : 0 ≤ r.top
  rows : r.top ≤ r.bottom
  bottom : r.bottom ≤ img.height.toNat
  left : 0 ≤ r.left
  columns : r.left ≤ r.right
  right : r.right ≤ img.width.toNat

/-- Its pixels, row by row. -/
def rectPixels (img : RawImage) (r : Rect) : List Nat :=
  (upTo r.top (r.bottom - 1)).flatMap fun y => (upTo r.left (r.right - 1)).map fun x =>
    img.fmt.getPixel img.data img.rowBytes.toNat x.toNat y.toNat

def Rect.area (r : Rect) : Int := (r.bottom - r.top) * (r.right - r.left)

theorem ofInt_toNat {k : Int} {n : UInt32} (hk : 0 ≤ k) (hn : k < n.toNat) :
    (UInt32.ofInt k).toNat = k.toNat := by
  have hlt := n.toNat_lt
  obtain ⟨j, rfl⟩ := Int.eq_ofNat_of_zero_le hk
  change (UInt32.ofNat ((j : Int) % 2 ^ 32).toNat).toNat = j
  rw [Int.emod_eq_of_lt hk (by omega), Int.toNat_natCast, UInt32.toNat_ofNat']
  omega

theorem pixelAt_inside {img : RawImage} {x y : Int} (hx : 0 ≤ x) (hx' : x < img.width.toNat)
    (hy : 0 ≤ y) (hy' : y < img.height.toNat) :
    pixelAt img x y = some (img.fmt.getPixel img.data img.rowBytes.toNat x.toNat y.toNat) := by
  have hcolumn := ofInt_toNat hx hx'
  have hrow := ofInt_toNat hy hy'
  have hin : ¬(UInt32.ofInt x ≥ img.width ∨ UInt32.ofInt y ≥ img.height) := by
    rw [ge_iff_le, ge_iff_le, UInt32.le_iff_toNat_le, UInt32.le_iff_toNat_le, hcolumn, hrow]
    omega
  rw [pixelAt, rawimgLuaGetPixel, if_neg hin, hcolumn, hrow]

theorem rectPixels_lt (img : RawImage) (r : Rect) :
    ∀ v ∈ rectPixels img r, v < 2 ^ img.fmt.bpp := by
  intro v hv
  obtain ⟨y, -, hrow⟩ := List.mem_flatMap.mp hv
  obtain ⟨x, -, rfl⟩ := List.mem_map.mp hrow
  exact getPixel_lt _ _ _ _ _

theorem rectPixels_length {img : RawImage} {r : Rect} (h : Inside img r) :
    ((rectPixels img r).length : Int) = r.area := by
  have hrows := h.rows
  have hcolumns := h.columns
  have hlength : (rectPixels img r).length =
      (r.bottom - r.top).toNat * (r.right - r.left).toNat := by
    simp [rectPixels, List.length_flatMap]
  rw [hlength, Rect.area, Int.natCast_mul, Int.toNat_of_nonneg (by omega),
    Int.toNat_of_nonneg (by omega)]

/-- The histogram has the number of pixels of each value. -/
theorem buildHistogram_counts {dng : DngImage} {img : RawImage} {opts : RectOpts}
    (himg : dng.img = some img) (h : Inside img (opts.rect dng.activeArea)) :
    buildHistogram dng opts = .ok
      ⟨countsTable (2 ^ img.fmt.bpp) (rectPixels img (opts.rect dng.activeArea)),
        some (opts.rect dng.activeArea).area, maxValue img⟩ := by
  generalize hr : opts.rect dng.activeArea = r at h ⊢
  have hzeros := zeros_eq (2 ^ img.fmt.bpp)
  have hpixel : ∀ y ∈ upTo r.top (r.bottom - 1), ∀ x ∈ upTo r.left (r.right - 1), ∀ vs,
      increment (countsTable (2 ^ img.fmt.bpp) vs) (pixelAt img x y) =
        .ok (countsTable (2 ^ img.fmt.bpp)
          (vs ++ [img.fmt.getPixel img.data img.rowBytes.toNat x.toNat y.toNat])) := by
    intro y hy x hx vs
    rw [mem_upTo] at hy hx
    have htop := h.top
    have hbottom := h.bottom
    have hleft := h.left
    have hright := h.right
    rw [pixelAt_inside (by omega) (by omega) (by omega) (by omega)]
    exact increment_counts (getPixel_lt _ _ _ _ _) vs
  have hrow : ∀ y ∈ upTo r.top (r.bottom - 1), ∀ vs,
      (upTo r.left (r.right - 1)).foldlM (fun entry x => increment entry (pixelAt img x y))
        (countsTable (2 ^ img.fmt.bpp) vs) =
        .ok (countsTable (2 ^ img.fmt.bpp) (vs ++ (upTo r.left (r.right - 1)).map fun x =>
          img.fmt.getPixel img.data img.rowBytes.toNat x.toNat y.toNat)) := by
    intro y hy vs
    rw [foldlM_counts (hpixel y hy), List.map_eq_flatMap]
  have hloops : (upTo r.top (r.bottom - 1)).foldlM (fun entry y =>
      (upTo r.left (r.right - 1)).foldlM (fun entry x => increment entry (pixelAt img x y)) entry)
      (countsTable (2 ^ img.fmt.bpp) []) =
      .ok (countsTable (2 ^ img.fmt.bpp) (rectPixels img r)) := foldlM_counts hrow []
  have hvalue : maxValue img = ((2 ^ img.fmt.bpp : Nat) : Int) - 1 := by
    simp [maxValue]
  rw [← hzeros, ← hvalue] at hloops
  unfold buildHistogram
  rw [himg]
  dsimp only
  rw [hr, hloops]
  rfl

/-- Counts that are not negative, for the values of the format and no others, which sum up to
the total and the area. -/
structure Conserves (img : RawImage) (r : Rect) (histo : Histo) : Prop where
  entries : ∀ v, (∃ n, histo.entry v = some n) ↔ 0 ≤ v ∧ v ≤ maxValue img
  nonneg : ∀ v n, histo.entry v = some n → 0 ≤ n
  sum : ∑ v ∈ Finset.range (2 ^ img.fmt.bpp), (histo.entry v).getD 0 = r.area
  total : histo.total = some r.area

theorem countsTable_conserves {img : RawImage} {r : Rect} (h : Inside img r) :
    Conserves img r
      ⟨countsTable (2 ^ img.fmt.bpp) (rectPixels img r), some r.area, maxValue img⟩ := by
  have hvalue : maxValue img = ((2 ^ img.fmt.bpp : Nat) : Int) - 1 := by
    simp [maxValue]
  constructor
  · intro v
    rw [hvalue, Int.le_sub_one_iff]
    constructor
    · rintro ⟨n, hn⟩
      simp only [countsTable] at hn
      split at hn
      · assumption
      · cases hn
    · intro hv
      exact ⟨_, if_pos hv⟩
  · intro v n hn
    simp only [countsTable] at hn
    split at hn
    · cases hn
      exact Int.natCast_nonneg _
    · cases hn
  · have hcounts := sum_counts (rectPixels_lt img r)
    rw [← rectPixels_length h, ← hcounts, Nat.cast_sum]
    apply Finset.sum_congr rfl
    intro v hv
    rw [Finset.mem_range] at hv
    have hin : 0 ≤ (v : Int) ∧ (v : Int) < (2 ^ img.fmt.bpp : Nat) := by omega
    dsimp only
    rw [countsTable, if_pos hin]
    rfl
  · rfl

/-! ## Bins -/

section Bins

variable {histo : Histo} {bin max : Int}

theorem rangeCount_eq (histo : Histo) (vmin vmax : Int) :
    rangeCount histo vmin vmax = addOver histo.get (upTo vmin vmax) 0 := rfl

theorem rangeCount_empty {vmin vmax : Int} (h : vmax < vmin) :
    rangeCount histo vmin vmax = .ok 0 := by
  rw [rangeCount_eq, upTo_empty h, addOver_nil]

theorem rangeCount_split {vmin mid vmax : Int} (hmin : vmin ≤ mid + 1) (hmax : mid ≤ vmax) :
    rangeCount histo vmin vmax =
      (rangeCount histo vmin mid).bind fun n => (rangeCount histo (mid + 1) vmax).map (n + ·) := by
  rw [rangeCount_eq, upTo_split hmin hmax, addOver_parts]
  rfl

/-- A bin has the count of its range, as far as that goes. -/
theorem binCount_eq (histo : Histo) (bin max v : Int) :
    binCount histo bin max v = rangeCount histo v (min (v + bin - 1) max) := by
  have hmoved : upTo v (v + bin - 1) = (upTo 0 (bin - 1)).map (v + ·) := by
    rw [map_add_upTo]
    congr 1 <;> omega
  rw [rangeCount, ← filter_upTo, List.foldlM_filter, hmoved, List.foldlM_map]
  simp only [decide_eq_true_eq]
  rfl

/-- The range of a call, cut off at a maximum. -/
def OutCall.range (max : Int) (call : OutCall) : Int × Int :=
  (call.binStart, min call.binEnd max)

/-- The calls cut an interval into ranges, each with the count of its own range. -/
structure Bins (histo : Histo) (calls : List OutCall) (vmin max total : Int) : Prop where
  ranges : Partitions (calls.map (OutCall.range max)) vmin max
  counts : ∀ call ∈ calls,
    rangeCount histo (call.range max).1 (call.range max).2 = .ok call.count
  sum : (calls.map OutCall.count).sum = total

theorem Bins.nil (histo : Histo) {vmin max : Int} (h : max < vmin) : Bins histo [] vmin max 0 :=
  ⟨.nil h, fun _ hc => absurd hc List.not_mem_nil, rfl⟩

theorem Bins.cons {calls : List OutCall} {v n total : Int} (hbin : 1 ≤ bin) (hv : v ≤ max)
    (hn : rangeCount histo v (min (v + bin - 1) max) = .ok n)
    (h : Bins histo calls (v + bin) max total) :
    Bins histo (⟨n, v, v + bin - 1⟩ :: calls) v max (n + total) := by
  constructor
  · rw [List.map_cons]
    apply Partitions.cons _ _ _ h.ranges
    · change v ≤ min (v + bin - 1) max
      omega
    · exact Int.min_le_right _ _
    · intro k hk
      change v + bin ≤ k ↔ min (v + bin - 1) max < k
      omega
  · intro call hc
    obtain rfl | hc := List.mem_cons.mp hc
    · exact hn
    · exact h.counts call hc
  · rw [List.map_cons, List.sum_cons, h.sum]

/-- The outer loop from any value on. -/
theorem printLoop (hbin : 1 ≤ bin) (v : Int) (calls : List OutCall) :
    (∀ total, rangeCount histo v max = .ok total →
      ∃ more, (Fuelled.repeatUntil (printPass histo bin max) (v, calls)).Yields (calls ++ more) ∧
        Bins histo more v max total) ∧
    (∀ e, rangeCount histo v max = .error e →
      (Fuelled.repeatUntil (printPass histo bin max) (v, calls)).Raises e) := by
  -- by the number of values that are left
  induction hn : (max + 1 - v).toNat using Nat.strongRecOn generalizing v calls with
  | ind n ih =>
    by_cases hv : v ≤ max
    · have hpass : printPass histo bin max (v, calls) = do
          let count ← binCount histo bin max v
          return .inl (v + bin, calls ++ [⟨count, v, v + bin - 1⟩]) := if_pos hv
      have hrest : rangeCount histo (min (v + bin - 1) max + 1) max =
          rangeCount histo (v + bin) max := by
        obtain hle | hle := Int.le_total (v + bin - 1) max
        · rw [Int.min_eq_left hle, Int.sub_add_cancel]
        · rw [rangeCount_empty (by omega), rangeCount_empty (by omega)]
      rw [rangeCount_split (show v ≤ min (v + bin - 1) max + 1 by omega) (Int.min_le_right _ _),
        hrest]
      cases hcount : binCount histo bin max v with
      | error e =>
        have hrange := hcount
        rw [binCount_eq] at hrange
        rw [hrange]
        constructor
        · intro total htotal
          cases htotal
        · intro e' he
          cases he
          apply Fuelled.raises_repeat
          rw [hpass, hcount, Fuelled.raises_bind]
          exact .inl (Fuelled.raises_lift.mpr rfl)
      | ok count =>
        have hrange := hcount
        rw [binCount_eq] at hrange
        rw [hrange]
        have hnext : (printPass histo bin max (v, calls)).Yields
            (.inl (v + bin, calls ++ [⟨count, v, v + bin - 1⟩])) := by
          rw [hpass, hcount]
          exact Fuelled.yields_pure.mpr rfl
        obtain ⟨hyields, hraises⟩ := ih (max + 1 - (v + bin)).toNat (by omega) (v + bin)
          (calls ++ [⟨count, v, v + bin - 1⟩]) rfl
        cases hbehind : rangeCount histo (v + bin) max with
        | error e =>
          constructor
          · intro total htotal
            cases htotal
          · intro e' he
            cases he
            exact Fuelled.raises_repeat_inl hnext (hraises e hbehind)
        | ok rest =>
          constructor
          · intro total htotal
            cases htotal
            obtain ⟨more, hmore, hbins⟩ := hyields rest hbehind
            rw [List.append_assoc] at hmore
            exact ⟨_, Fuelled.yields_repeat_inl hnext hmore, hbins.cons hbin hv hrange⟩
          · intro e he
            cases he
    · have hpass : printPass histo bin max (v, calls) = return .inr calls := if_neg hv
      rw [rangeCount_empty (by omega)]
      constructor
      · intro total htotal
        cases htotal
        refine ⟨[], ?_, .nil histo (by omega)⟩
        apply Fuelled.yields_repeat_inr
        rw [hpass, List.append_nil, Fuelled.yields_pure]
      · intro e he
        cases he

end Bins

/-- What `print` passes to `outfn`: ranges that cut the interval from the least to the largest
value, whose counts sum up to the count of this interval. Where the interval has no count or the
options are not accepted, the same error is raised. -/
def PrintsRanges (histo : Histo) (opts : PrintOpts) : Prop :=
  match checkOpts histo opts with
  | .error e => (print histo opts).Raises e
  | .ok _ =>
    match rangeCount histo opts.minValue (opts.maxValue histo) with
    | .error e => (print histo opts).Raises e
    | .ok total => ∃ calls, (print histo opts).Yields calls ∧
      Bins histo calls opts.minValue (opts.maxValue histo) total

theorem print_ranges (histo : Histo) (opts : PrintOpts) (hbin : 1 ≤ opts.binSize) :
    PrintsRanges histo opts := by
  obtain ⟨hyields, hraises⟩ := @printLoop histo _ (opts.maxValue histo) hbin opts.minValue []
  unfold PrintsRanges print
  cases hopts : checkOpts histo opts with
  | error e =>
    exact Fuelled.raises_bind.mpr (.inl (Fuelled.raises_lift.mpr rfl))
  | ok _ =>
    cases hrange : rangeCount histo opts.minValue (opts.maxValue histo) with
    | error e =>
      exact Fuelled.raises_bind.mpr (.inr ⟨(), Fuelled.yields_lift.mpr rfl, hraises e hrange⟩)
    | ok total =>
      obtain ⟨calls, hcalls, hbins⟩ := hyields total hrange
      exact ⟨calls, Fuelled.yields_bind.mpr ⟨(), Fuelled.yields_lift.mpr rfl, hcalls⟩, hbins⟩

/-- Bins of no values are passed for ever. -/
theorem print_runs_on {histo : Histo} {opts : PrintOpts} (hopts : checkOpts histo opts = .ok ())
    (hbin : opts.binSize ≤ 0) (hmin : opts.minValue ≤ opts.maxValue histo) :
    ¬(print histo opts).Ends := by
  have hnext : ∀ s : Int × List OutCall, s.1 ≤ opts.maxValue histo →
      ∃ s', (printPass histo opts.binSize (opts.maxValue histo) s).Yields (.inl s') ∧
        s'.1 ≤ opts.maxValue histo := by
    intro s hs
    have hcount : binCount histo opts.binSize (opts.maxValue histo) s.1 = .ok 0 := by
      rw [binCount_eq, rangeCount_empty (by omega)]
    refine ⟨(s.1 + opts.binSize, s.2 ++ [⟨0, s.1, s.1 + opts.binSize - 1⟩]), ?_, ?_⟩
    · rw [printPass, if_pos hs, hcount]
      exact Fuelled.yields_pure.mpr rfl
    · change s.1 + opts.binSize ≤ _
      omega
  intro h
  unfold print at h
  rw [hopts] at h
  have hloop := (Fuelled.ends_bind.mp h).2 () (Fuelled.yields_lift.mpr rfl)
  exact Fuelled.not_ends_repeat hnext hmin hloop

/-- A histogram has the pixels of the rectangle, and what is printed of a histogram has the counts
of its interval. -/
theorem counts_conserved :
    (∀ (dng : DngImage) (img : RawImage) (opts : RectOpts), dng.img = some img →
      Inside img (opts.rect dng.activeArea) →
      ∃ histo, buildHistogram dng opts = .ok histo ∧
        Conserves img (opts.rect dng.activeArea) histo) ∧
    (∀ (histo : Histo) (opts : PrintOpts), 1 ≤ opts.binSize → PrintsRanges histo opts) := by
  constructor
  · intro dng img opts himg h
    exact ⟨_, buildHistogram_counts himg h, countsTable_conserves h⟩
  · exact print_ranges

/-- Two rows of four pixels of ten bits. -/
def tenBitSpec : ImgSpec where
  data := ⟨10, fun i => UInt8.ofNat (7 * i)⟩
  dataOffset := none
  width := 4
  height := 2
  bpp := 10
  endian := .given .big
  blackLevel := none
  cfaPattern := none
  activeArea := none

/-- Three pixels of the second row, and five counts in bins of two. -/
theorem counts_conserved_witness :
    (∃ img histo, rawimgLuaBindLbuf tenBitSpec = .ok img ∧
      buildHistogram ⟨some img, ⟨1, 0, 2, 3⟩⟩ {} = .ok histo ∧
      Conserves img ⟨1, 0, 2, 3⟩ histo) ∧
    PrintsRanges ⟨fun i => if 0 ≤ i ∧ i < 5 then some (i * i) else none, some 30, 4⟩
      { bin := some 2 } := by
  constructor
  · have hbind : ∃ img, rawimgLuaBindLbuf tenBitSpec = .ok img ∧ img.width = 4 ∧
        img.height = 2 := ⟨_, rfl, rfl, rfl⟩
    obtain ⟨img, himg, hwidth, hheight⟩ := hbind
    have hinside : Inside img ⟨1, 0, 2, 3⟩ := by
      constructor
      · decide
      · decide
      · rw [hheight]
        decide
      · decide
      · decide
      · rw [hwidth]
        decide
    obtain ⟨histo, hbuild, hconserves⟩ :=
      counts_conserved.1 ⟨some img, ⟨1, 0, 2, 3⟩⟩ img {} rfl hinside
    exact ⟨img, histo, himg, hbuild, hconserves⟩
  · exact counts_conserved.2 _ { bin := some 2 } (by decide)

end Histogram
