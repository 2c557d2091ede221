import Chdkptp.LiveImage

/-!
# What the conversion loops read

The groups of pixels that the loops pass through, and the bytes that a pass reads: all of
them are in the frame exactly when those of the first and of the last row are.
-/

namespace LiveLoops

open TracedRead LiveFrame LivePixel LoopPasses LiveImage

/-! ## One pass -/

/-- A pass makes these samples, and reads bytes from the pointer on up to a certain one,
the first and the last of them among others. -/
def ReadsGroup {α : Type} (body : Int → Read (List α)) (samples : Bytes → Int → List α)
    (touch : Int) : Prop :=
  ∀ m p, ∃ reads, body p m = (.ok (samples m p), reads) ∧
    ∀ lo hi, Traced.Inside lo hi reads ↔ lo ≤ p ∧ p + touch ≤ hi

/-- The four pixels of a group of the 12-bit format. -/
def yuvSamples (skip : Bool) (m : Bytes) (p : Int) : List Pixel :=
  let pixel := fun o : Int => yuvToRgb (m (p + o)) (int8 (m p)) (int8 (m (p + 2)))
  if skip then [pixel 1, pixel 3] else [pixel 1, pixel 3, pixel 4, pixel 5]

/-- The two pixels of a group of the 16-bit formats. -/
def uyvySamples (bias : UInt8) (skip : Bool) (m : Bytes) (p : Int) : List Pixel :=
  let pixel := fun o : Int =>
    yuvToRgb (m (p + o)) (int8 (m p - bias)) (int8 (m (p + 2) - bias))
  if skip then [pixel 1] else [pixel 1, pixel 3]

/-- The alpha that is made from a group's word. -/
def wordAlpha (m : Bytes) (p : Int) : UInt8 :=
  if m p = 0x80 ∧ m (p + 1) = 0 ∧ m (p + 2) = 0x80 ∧ m (p + 3) = 0 then 0 else 255

def yuvbAlphaSamples (skip : Bool) (m : Bytes) (p : Int) : List Pixel :=
  (uyvySamples 0x80 skip m p).map fun px => px ++ [wordAlpha m p]

def opacitySamples (skip : Bool) (m : Bytes) (p : Int) : List UInt8 :=
  if skip then [m p] else [m p, m (p + 1)]

theorem yuvGroup_reads (skip : Bool) :
    ReadsGroup (yuvGroup skip) (yuvSamples skip) (if skip then 4 else 6) := by
  intro m p
  cases skip with
  | true =>
    refine ⟨[p, p + 1, p + 2, p + 3], rfl, fun lo hi => ?_⟩
    simp only [Traced.inside_cons, Traced.inside_nil, and_true, if_true]
    omega
  | false =>
    refine ⟨[p, p + 1, p + 2, p + 3, p + 4, p + 5], rfl, fun lo hi => ?_⟩
    simp only [Traced.inside_cons, Traced.inside_nil, and_true, Bool.false_eq_true, if_false]
    omega

theorem uyvyGroup_reads (bias : UInt8) (skip : Bool) :
    ReadsGroup (uyvyGroup bias skip) (uyvySamples bias skip) (if skip then 3 else 4) := by
  intro m p
  cases skip with
  | true =>
    refine ⟨[p + 2, p, p + 1], rfl, fun lo hi => ?_⟩
    simp only [Traced.inside_cons, Traced.inside_nil, and_true, if_true]
    omega
  | false =>
    refine ⟨[p + 2, p, p + 1, p + 3], rfl, fun lo hi => ?_⟩
    simp only [Traced.inside_cons, Traced.inside_nil, and_true, Bool.false_eq_true, if_false]
    omega

theorem yuvbAlphaGroup_reads (skip : Bool) :
    ReadsGroup (yuvbAlphaGroup skip) (yuvbAlphaSamples skip) 4 := by
  intro m p
  refine ⟨[p + 2, p, p + 1, p + 3], ?_, fun lo hi => ?_⟩
  · cases skip <;> rfl
  · simp only [Traced.inside_cons, Traced.inside_nil, and_true]
    omega

theorem opacityGroup_reads (skip : Bool) :
    ReadsGroup (opacityGroup skip) (opacitySamples skip) (if skip then 1 else 2) := by
  intro m p
  cases skip with
  | true =>
    refine ⟨[p], rfl, fun lo hi => ?_⟩
    simp only [Traced.inside_cons, Traced.inside_nil, and_true, if_true]
    omega
  | false =>
    refine ⟨[p, p + 1], rfl, fun lo hi => ?_⟩
    simp only [Traced.inside_cons, Traced.inside_nil, and_true, Bool.false_eq_true, if_false]
    omega

/-- The loops around such a pass. -/
theorem liveLoops_apply {α : Type} {body : Int → Read (List α)} {samples : Bytes → Int → List α}
    {touch : Int} (hbody : ReadsGroup body samples touch) (step : Nat) (inc : Int)
    (rowInc limit : Nat) (start : Int) (width height : Nat) (m : Bytes) :
    ∃ reads, liveLoops step inc rowInc limit body start width height m =
        (.ok ((groupPointers step width inc height rowInc limit start).1.flatMap (samples m),
          (groupPointers step width inc height rowInc limit start).2), reads) ∧
      ∀ lo hi, Traced.Inside lo hi reads ↔
        ∀ p ∈ (groupPointers step width inc height rowInc limit start).1, lo ≤ p ∧ p + touch ≤ hi := by
  have heach : ∀ l : List Int, ∃ reads,
      Traced.each l body m = (.ok (l.map (samples m)), reads) ∧
        ∀ lo hi, Traced.Inside lo hi reads ↔ ∀ p ∈ l, lo ≤ p ∧ p + touch ≤ hi := by
    intro l
    induction l with
    | nil => exact ⟨[], rfl, fun lo hi => by simp [Traced.Inside]⟩
    | cons p l ih =>
      obtain ⟨reads, hp, hinside⟩ := hbody m p
      obtain ⟨reads', hl, hinside'⟩ := ih
      refine ⟨reads ++ (reads' ++ []), ?_, fun lo hi => ?_⟩
      · rw [Traced.each, Traced.bind_ok hp, Traced.bind_ok hl]
        rfl
      · rw [List.append_nil, Traced.inside_append, hinside, hinside', List.forall_mem_cons]
  obtain ⟨reads, heach, hinside⟩ :=
    heach (groupPointers step width inc height rowInc limit start).1
  refine ⟨reads ++ [], ?_, fun lo hi => by rw [List.append_nil, hinside]⟩
  rw [liveLoops, Traced.bind_ok heach, List.flatMap_def]
  rfl

/-! ## The pointers -/

/-- The pointer to the last row, where the loops begin. -/
def lastRow (start : Int) (height rowInc : Nat) : Int :=
  start + ((height + (2 ^ 32 - 1)) * rowInc % 2 ^ 32 : Nat)

/-- The first and the last group lie in the frame with the bytes that are read of them. -/
def RowsFit (step : Nat) (inc : Int) (rowInc : Nat) (touch start : Int) (width height len : Nat) :
    Prop :=
  0 ≤ lastRow start height rowInc - (height - 1 : Nat) * rowInc ∧
    lastRow start height rowInc + (passCount step width - 1 : Nat) * inc + touch ≤ len

theorem passCount_one (n : Nat) : passCount 1 n = n := by simp [passCount]

/-- The loop over the rows, from the last one up. -/
theorem rows_end {height limit : Nat} (rowInc : Nat) (start : Int) (hheight : height < 2 ^ 32)
    (hlimit : height < limit) :
    strided 1 height (-rowInc) limit (lastRow start height rowInc) =
      ((List.range height).map fun row : Nat => lastRow start height rowInc + row * -(rowInc : Int),
        true) := by
  have hrows : strided 1 height (-rowInc) limit (lastRow start height rowInc) =
      ((List.range (passCount 1 height)).map fun row : Nat =>
        lastRow start height rowInc + row * -(rowInc : Int), true) :=
    strided_end Nat.one_pos _ _ (by rw [passCount_one]; omega) (by rwa [passCount_one])
  rwa [passCount_one] at hrows

/-- The pointers of loops that end. -/
theorem groupPointers_end {step width : Nat} (hstep : 0 < step) (inc : Int)
    {height rowInc limit : Nat} (start : Int) (hheight : height < 2 ^ 32)
    (hwrap : passCount step width * step < 2 ^ 32) (hlimit : height < limit)
    (hlimit' : passCount step width < limit) :
    groupPointers step width inc height rowInc limit start =
      ((List.range height).flatMap fun row : Nat => (List.range (passCount step width)).map
        fun k : Nat => lastRow start height rowInc - row * rowInc + k * inc, true) := by
  have hinner : ∀ p : Int, strided step width inc limit p =
      ((List.range (passCount step width)).map fun k : Nat => p + k * inc, true) := fun p =>
    strided_end hstep inc p hwrap hlimit'
  have hrows := rows_end rowInc start hheight hlimit
  rw [lastRow] at hrows
  rw [groupPointers, hrows, nest_end _ _ fun p _ => by rw [hinner]]
  refine Prod.ext ?_ rfl
  simp only [List.flatMap_map, hinner, lastRow, Int.mul_neg, Int.sub_eq_add_neg]

/-- However long the loops are looked at, the pointer is at a group of a row. -/
theorem mem_groupPointers {step width : Nat} (hstep : 0 < step) {inc : Int}
    {height rowInc limit : Nat} {start : Int} (hheight : height < 2 ^ 32)
    (hwrap : passCount step width * step < 2 ^ 32) {p : Int}
    (hp : p ∈ (groupPointers step width inc height rowInc limit start).1) :
    ∃ row < height, ∃ k < passCount step width,
      p = lastRow start height rowInc - (row : Nat) * rowInc + (k : Nat) * inc := by
  obtain ⟨q, hq, hp⟩ := mem_nest hp
  obtain ⟨k, hk, rfl⟩ := strided_mem hstep hwrap hp
  obtain ⟨row, hrow, rfl⟩ := strided_mem Nat.one_pos (by rw [passCount_one]; omega) hq
  rw [passCount_one] at hrow
  refine ⟨row, hrow, k, hk, ?_⟩
  rw [lastRow, Int.mul_neg, Int.sub_eq_add_neg]

/-- The row that the loops begin with. -/
theorem rows_first {height limit : Nat} (rowInc : Nat) (start : Int) (hheight : height ≠ 0)
    (hlimit : limit ≠ 0) :
    ∃ rest, (strided 1 height (-rowInc) limit (lastRow start height rowInc)).1 =
      lastRow start height rowInc :: rest := by
  obtain ⟨limit, rfl⟩ := Nat.exists_eq_succ_of_ne_zero hlimit
  have hpos : 0 < height := Nat.pos_of_ne_zero hheight
  simp [strided, passes, hpos]

/-- Loops that have ended were looked at long enough. -/
theorem groupPointers_ended {step width : Nat} (hstep : 0 < step) {inc : Int}
    {height rowInc limit : Nat} {start : Int} (hheight : height ≠ 0) (hheight' : height < 2 ^ 32)
    (hwrap : passCount step width * step < 2 ^ 32)
    (h : (groupPointers step width inc height rowInc limit start).2 = true) :
    height < limit ∧ passCount step width < limit := by
  obtain ⟨hcolumns, hrows⟩ := (Bool.and_eq_true _ _).mp h
  have hlimit : passCount 1 height < limit :=
    strided_ended Nat.one_pos (by rw [passCount_one]; omega) hrows
  rw [passCount_one] at hlimit
  obtain ⟨rest, hfirst⟩ := rows_first rowInc start hheight (show limit ≠ 0 by omega)
  rw [lastRow] at hfirst
  rw [hfirst] at hcolumns
  exact ⟨hlimit, strided_ended hstep hwrap (nest_ended hcolumns)⟩

/-- The pointers of a loop over the columns that does not end. -/
theorem groupPointers_endless {step width : Nat} (hstep : 0 < step) (hdvd : step ∣ 2 ^ 32)
    (inc : Int) {height rowInc : Nat} (start : Int) (hheight : height ≠ 0)
    (hwrap : 2 ^ 32 ≤ passCount step width * step) (limit : Nat) :
    groupPointers step width inc height rowInc (limit + 1) start =
      ((List.range (limit + 1)).map fun k : Nat => lastRow start height rowInc + k * inc, false) := by
  have hinner : ∀ p : Int, strided step width inc (limit + 1) p =
      ((List.range (limit + 1)).map fun k : Nat => p + k * inc, false) := fun p =>
    strided_endless hstep hdvd hwrap inc p (limit + 1)
  obtain ⟨rest, hrows⟩ := rows_first rowInc start hheight (Nat.succ_ne_zero limit)
  rw [lastRow] at hrows
  rw [groupPointers, hrows, nest_running _ _ _ (by rw [hinner]), hinner]
  rfl

theorem groupPointers_mem {step width : Nat} (hstep : 0 < step) (inc : Int)
    {height rowInc limit : Nat} (start : Int) (hheight : height < 2 ^ 32)
    (hwrap : passCount step width * step < 2 ^ 32) (hlimit : height < limit)
    (hlimit' : passCount step width < limit) {row k : Nat} (hrow : row < height)
    (hk : k < passCount step width) :
    lastRow start height rowInc - row * rowInc + k * inc ∈
      (groupPointers step width inc height rowInc limit start).1 := by
  rw [groupPointers_end hstep inc start hheight hwrap hlimit hlimit']
  exact List.mem_flatMap.mpr ⟨row, List.mem_range.mpr hrow,
    List.mem_map.mpr ⟨k, List.mem_range.mpr hk, rfl⟩⟩

theorem lastRow_eq (start : Int) {height rowInc : Nat} (hheight : height ≠ 0) :
    lastRow start height rowInc = start + ((height - 1) * rowInc % 2 ^ 32 : Nat) := by
  have hsplit : (height + (2 ^ 32 - 1)) * rowInc = (height - 1) * rowInc + 2 ^ 32 * rowInc := by
    rw [← Nat.add_mul]
    congr 1
    omega
  rw [lastRow, hsplit, Nat.add_mul_mod_self_left]

/-- A row of so many groups that the counter wraps fits into no frame. -/
theorem not_rowsFit {step width : Nat} {inc touch : Int} (hinc : 0 < inc)
    (hspan : 2 ^ 32 ≤ (2 ^ 32 / step - 1 : Nat) * inc + touch + 1) {height rowInc len : Nat}
    {start : Int} (hstart : start ≠ 0) (hheight : height ≠ 0) (hlen : len < 2 ^ 32)
    (hwrap : 2 ^ 32 ≤ passCount step width * step) :
    ¬RowsFit step inc rowInc touch start width height len := by
  rintro ⟨hlow, hhigh⟩
  have hgroups : (2 ^ 32 / step - 1 : Nat) * inc ≤ (passCount step width - 1 : Nat) * inc := by
    refine Int.mul_le_mul_of_nonneg_right ?_ (Int.le_of_lt hinc)
    have hle : 2 ^ 32 / step ≤ passCount step width := Nat.div_le_of_le_mul (by rwa [Nat.mul_comm])
    omega
  have hrow : (0 : Int) ≤ (height - 1 : Nat) * rowInc :=
    Int.mul_nonneg (Int.natCast_nonneg _) (Int.natCast_nonneg _)
  have hzero : (height - 1) * rowInc = 0 := by
    have hcast : ((height - 1 : Nat) : Int) * rowInc = 0 := by omega
    exact_mod_cast hcast
  have hlast : lastRow start height rowInc = start + ((height - 1) * rowInc % 2 ^ 32 : Nat) :=
    lastRow_eq start hheight
  rw [hzero] at hlast
  omega

/-- The loops stay in the frame, however long they are looked at, exactly when their first
and their last pass do; it is enough to look long enough. -/
theorem groupPointers_inside_iff {step width : Nat} (hstep : 0 < step) (hdvd : step ∣ 2 ^ 32)
    {inc touch : Int} (hinc : 0 < inc) (htouch : 0 ≤ touch)
    (hspan : 2 ^ 32 ≤ (2 ^ 32 / step - 1 : Nat) * inc + touch + 1)
    {height rowInc len : Nat} {start : Int} (hstart : start ≠ 0) (hwidth : width ≠ 0)
    (hheight : height ≠ 0) (hheight' : height < 2 ^ 32) (hlen : len < 2 ^ 32) (least : Nat) :
    (∀ limit ≥ least, ∀ p ∈ (groupPointers step width inc height rowInc limit start).1,
      0 ≤ p ∧ p + touch ≤ len) ↔ RowsFit step inc rowInc touch start width height len := by
  have hcount : 0 < passCount step width := by
    rw [lt_passCount hstep]
    omega
  by_cases hwrap : passCount step width * step < 2 ^ 32
  · constructor
    · intro h
      have hmem : ∀ row < height, ∀ k < passCount step width,
          0 ≤ lastRow start height rowInc - row * rowInc + k * inc ∧
            lastRow start height rowInc - row * rowInc + k * inc + touch ≤ len := fun row hrow k hk =>
        h (least + height + passCount step width + 1) (by omega) _
          (groupPointers_mem hstep inc start hheight' hwrap (by omega) (by omega) hrow hk)
      have hfirst := (hmem (height - 1) (by omega) 0 hcount).1
      have hlast := (hmem 0 (by omega) (passCount step width - 1) (by omega)).2
      refine ⟨?_, ?_⟩
      · simpa using hfirst
      · simpa using hlast
    · rintro ⟨hlow, hhigh⟩ limit - p hp
      obtain ⟨row, hr, k, hk, rfl⟩ := mem_groupPointers hstep hheight' hwrap hp
      have hrowle : (row : Int) * rowInc ≤ (height - 1 : Nat) * rowInc :=
        Int.mul_le_mul_of_nonneg_right (by omega) (Int.natCast_nonneg _)
      have hrowpos : (0 : Int) ≤ row * rowInc :=
        Int.mul_nonneg (Int.natCast_nonneg _) (Int.natCast_nonneg _)
      have hkle : (k : Int) * inc ≤ (passCount step width - 1 : Nat) * inc :=
        Int.mul_le_mul_of_nonneg_right (by omega) (Int.le_of_lt hinc)
      have hkpos : (0 : Int) ≤ k * inc := Int.mul_nonneg (Int.natCast_nonneg _) (Int.le_of_lt hinc)
      omega
  · rw [Nat.not_lt] at hwrap
    refine iff_of_false (fun h => ?_) (not_rowsFit hinc hspan hstart hheight hlen hwrap)
    -- the pointer of an endless loop leaves every frame
    have hmem : ∀ k : Nat, 0 ≤ lastRow start height rowInc + k * inc ∧
        lastRow start height rowInc + k * inc + touch ≤ len := by
      intro k
      refine h (least + k + 1) (by omega) _ ?_
      rw [groupPointers_endless hstep hdvd inc start hheight hwrap]
      exact List.mem_map.mpr ⟨k, List.mem_range.mpr (by omega), rfl⟩
    have hfirst := (hmem 0).1
    have hfar := (hmem (len + 1)).2
    have hbeyond : ((len + 1 : Nat) : Int) * 1 ≤ (len + 1 : Nat) * inc :=
      Int.mul_le_mul_of_nonneg_left hinc (Int.natCast_nonneg _)
    omega

/-! ## The loops over a paletted bitmap -/

theorem int32_range (n : Int) : -2 ^ 31 ≤ int32 n ∧ int32 n < 2 ^ 31 := by
  have hlow := Int.le_bmod (x := n) (m := 2 ^ 32) (by decide)
  have hhigh := Int.bmod_lt (x := n) (m := 2 ^ 32) (by decide)
  rw [int32]
  omega

theorem int32_eq {n : Int} (hlow : -2 ^ 31 ≤ n) (hhigh : n < 2 ^ 31) : int32 n = n := by
  rw [int32, Int.bmod_eq_of_le (by omega) (by omega)]

theorem int32_emod (n : Int) : int32 n % 2 ^ 32 = n % 2 ^ 32 := Int.bmod_emod

theorem int32_add_int32 (a b : Int) : int32 (int32 a + b) = int32 (a + b) :=
  Int.bmod_add_bmod

theorem int32_iterate (c : Int) (k : Nat) : (fun x => int32 (x + c))^[k] 0 = int32 (k * c) := by
  induction k with
  | zero => simp [int32]
  | succ k ih =>
    rw [Function.iterate_succ_apply', ih, int32_add_int32]
    congr 1
    rw [Int.natCast_succ, Int.add_mul, Int.one_mul]

/-- The pointer to the last row of a paletted bitmap. -/
def lastPalRow (bm : FbDesc) : Int :=
  bm.dataStart + int32 (int32 (bm.visibleHeight - 1) * bm.bufferWidth)

/-- How many pixels a row makes. -/
def palCount (bm : FbDesc) (skip : Bool) : Nat :=
  passCount (par skip).toNat bm.visibleWidth.toNat

theorem rowState_iterate (bm : FbDesc) (p : Int) (k : Nat) :
    (fun s : Int × Int => (int32 (s.1 + 1), s.2 - bm.bufferWidth))^[k] (0, p) =
      (int32 k, p - k * bm.bufferWidth) := by
  induction k with
  | zero => simp [int32]
  | succ k ih =>
    rw [Function.iterate_succ_apply', ih]
    simp only [int32_add_int32, Int.natCast_succ, Int.add_mul, Int.one_mul, Int.sub_sub]

theorem palRows_test {bm : FbDesc} (hheight : bm.visibleHeight < 2 ^ 31) (k : Nat)
    (hk : k ≤ bm.visibleHeight.toNat) : int32 k < bm.visibleHeight ↔ k < bm.visibleHeight.toNat := by
  rw [int32_eq (by omega) (by omega)]
  omega

theorem palRows_end {bm : FbDesc} (hheight : bm.visibleHeight < 2 ^ 31) {limit : Nat} (p : Int)
    (hlimit : bm.visibleHeight.toNat < limit) :
    passes (fun s : Int × Int => s.1 < bm.visibleHeight)
        (fun s => (int32 (s.1 + 1), s.2 - bm.bufferWidth)) limit (0, p) =
      ((List.range bm.visibleHeight.toNat).map fun k : Nat => (int32 k, p - k * bm.bufferWidth), true) := by
  rw [passes_end _ _ bm.visibleHeight.toNat limit (0, p) ?_ ?_ hlimit]
  · simp only [rowState_iterate]
  · intro k hk
    have htest := (palRows_test hheight k (Nat.le_of_lt hk)).mpr hk
    simp only [rowState_iterate, htest, decide_true]
  · have htest := palRows_test hheight bm.visibleHeight.toNat (Nat.le_refl _)
    simp only [rowState_iterate, htest, Nat.lt_irrefl, decide_false]

theorem par_pos (skip : Bool) : 0 < (par skip).toNat := by cases skip <;> decide

theorem palColumns_test {bm : FbDesc} {skip : Bool} {k : Nat}
    (hk : k ≤ palCount bm skip) (hfit : palCount bm skip * (par skip).toNat < 2 ^ 31) :
    int32 (k * par skip) < bm.visibleWidth ↔ k < palCount bm skip := by
  have hcast : (k : Int) * par skip = (k * (par skip).toNat : Nat) := by
    cases skip <;> simp [par]
  have hle : k * (par skip).toNat ≤ palCount bm skip * (par skip).toNat :=
    Nat.mul_le_mul_right _ hk
  rw [hcast, int32_eq (by omega) (by omega), palCount, lt_passCount (par_pos skip)]
  omega

theorem palColumns_value {bm : FbDesc} {skip : Bool} {k : Nat} (hk : k < palCount bm skip)
    (hfit : palCount bm skip * (par skip).toNat < 2 ^ 31) : int32 (k * par skip) = k * par skip := by
  have hcast : (k : Int) * par skip = (k * (par skip).toNat : Nat) := by
    cases skip <;> simp [par]
  have hle : k * (par skip).toNat ≤ palCount bm skip * (par skip).toNat :=
    Nat.mul_le_mul_right _ (Nat.le_of_lt hk)
  rw [hcast, int32_eq (by omega) (by omega)]

theorem palColumns_end {bm : FbDesc} {skip : Bool} {limit : Nat}
    (hfit : palCount bm skip * (par skip).toNat < 2 ^ 31) (hlimit : palCount bm skip < limit) :
    passes (fun x : Int => x < bm.visibleWidth) (fun x => int32 (x + par skip)) limit 0 =
      ((List.range (palCount bm skip)).map fun k : Nat => k * par skip, true) := by
  rw [passes_end _ _ (palCount bm skip) limit 0 ?_ ?_ hlimit]
  · refine Prod.ext (List.map_congr_left fun k hk => ?_) rfl
    rw [int32_iterate, palColumns_value (List.mem_range.mp hk) hfit]
  · intro k hk
    have htest := (palColumns_test (Nat.le_of_lt hk) hfit).mpr hk
    simp only [int32_iterate, htest, decide_true]
  · have htest := palColumns_test (Nat.le_refl (palCount bm skip)) hfit
    simp only [int32_iterate, htest, Nat.lt_irrefl, decide_false]

/-- The pointers of loops that end. -/
theorem bitmapPointers_end {bm : FbDesc} {skip : Bool} {limit : Nat}
    (hheight : bm.visibleHeight < 2 ^ 31) (hfit : palCount bm skip * (par skip).toNat < 2 ^ 31)
    (hlimit : bm.visibleHeight.toNat < limit) (hlimit' : palCount bm skip < limit) :
    bitmapPointers bm skip limit =
      ((List.range bm.visibleHeight.toNat).flatMap fun row : Nat => (List.range (palCount bm skip)).map
        fun k : Nat => lastPalRow bm - row * bm.bufferWidth + k * par skip, true) := by
  simp only [bitmapPointers, palColumns_end hfit hlimit', palRows_end hheight _ hlimit]
  rw [nest_end _ _ fun _ _ => rfl]
  simp only [List.flatMap_map, List.map_map, lastPalRow, Bool.and_self]
  rfl

/-- The row that the loops begin with. -/
theorem palRows_first {bm : FbDesc} (hheight : 0 < bm.visibleHeight) {limit : Nat} (hlimit : limit ≠ 0)
    (p : Int) :
    ∃ rest, (passes (fun s : Int × Int => s.1 < bm.visibleHeight)
      (fun s => (int32 (s.1 + 1), s.2 - bm.bufferWidth)) limit (0, p)).1 = (0, p) :: rest := by
  obtain ⟨limit, rfl⟩ := Nat.exists_eq_succ_of_ne_zero hlimit
  simp [passes, hheight]

/-- Loops that have ended were looked at long enough. -/
theorem bitmapPointers_ended {bm : FbDesc} {skip : Bool} {limit : Nat} (hheight : 0 < bm.visibleHeight)
    (hheight' : bm.visibleHeight < 2 ^ 31) (hfit : palCount bm skip * (par skip).toNat < 2 ^ 31)
    (h : (bitmapPointers bm skip limit).2 = true) :
    bm.visibleHeight.toNat < limit ∧ palCount bm skip < limit := by
  obtain ⟨hcolumns, hrows⟩ := (Bool.and_eq_true _ _).mp h
  have hlimit : bm.visibleHeight.toNat < limit := by
    refine passes_ended hrows fun k hk => ?_
    have htest := (palRows_test hheight' k hk.le).mpr hk
    simp only [rowState_iterate, htest, decide_true]
  obtain ⟨rest, hfirst⟩ := palRows_first hheight (show limit ≠ 0 by omega)
    (bm.dataStart + int32 (int32 (bm.visibleHeight - 1) * bm.bufferWidth))
  rw [hfirst] at hcolumns
  have hinner := nest_ended hcolumns
  have hrow : (passes (fun x : Int => x < bm.visibleWidth) (fun x => int32 (x + par skip)) limit 0).2 =
      true := hinner
  refine ⟨hlimit, passes_ended hrow fun k hk => ?_⟩
  have htest := (palColumns_test hk.le hfit).mpr hk
  simp only [int32_iterate, htest, decide_true]

/-- However long the loops are looked at, the pointer is at a pixel of a row. -/
theorem mem_bitmapPointers {bm : FbDesc} {skip : Bool} {limit : Nat}
    (hheight : bm.visibleHeight < 2 ^ 31) (hfit : palCount bm skip * (par skip).toNat < 2 ^ 31)
    {p : Int} (hp : p ∈ (bitmapPointers bm skip limit).1) :
    ∃ row < bm.visibleHeight.toNat, ∃ k < palCount bm skip,
      p = lastPalRow bm - (row : Nat) * bm.bufferWidth + (k : Nat) * par skip := by
  obtain ⟨s, hs, hp⟩ := mem_nest hp
  obtain ⟨x, hx, rfl⟩ := List.mem_map.mp hp
  obtain ⟨row, -, rfl, hrows⟩ := mem_passes hs
  obtain ⟨k, -, rfl, hcolumns⟩ := mem_passes hx
  have hrow : row < bm.visibleHeight.toNat := by
    rw [← Nat.not_le]
    intro hle
    have htest := hrows _ hle
    simp only [rowState_iterate, palRows_test hheight _ (Nat.le_refl _), Nat.lt_irrefl,
      decide_false] at htest
    cases htest
  have hk : k < palCount bm skip := by
    rw [← Nat.not_le]
    intro hle
    have htest := hcolumns _ hle
    simp only [int32_iterate, palColumns_test (Nat.le_refl (palCount bm skip)) hfit,
      Nat.lt_irrefl, decide_false] at htest
    cases htest
  refine ⟨row, hrow, k, hk, ?_⟩
  rw [int32_iterate, rowState_iterate, palColumns_value hk hfit, lastPalRow]

/-- A counter that goes from the last even value below the width to the lowest. -/
def PalEndless (bm : FbDesc) (skip : Bool) : Prop := skip = true ∧ bm.visibleWidth = 2 ^ 31 - 1

instance (bm : FbDesc) (skip : Bool) : Decidable (PalEndless bm skip) :=
  inferInstanceAs (Decidable (_ ∧ _))

theorem palCount_fits {bm : FbDesc} {skip : Bool} (hwidth : bm.visibleWidth < 2 ^ 31)
    (h : ¬PalEndless bm skip) : palCount bm skip * (par skip).toNat < 2 ^ 31 := by
  cases skip with
  | false =>
    have hcount : palCount bm false = bm.visibleWidth.toNat := passCount_one _
    have hpar : (par false).toNat = 1 := rfl
    rw [hcount, hpar]
    omega
  | true =>
    have hpar : (par true).toNat = 2 := rfl
    have hne : bm.visibleWidth ≠ 2 ^ 31 - 1 := fun hw => h ⟨rfl, hw⟩
    rw [palCount, passCount, hpar]
    omega

/-- The pointers of the loop over the columns that does not end. -/
theorem bitmapPointers_endless {bm : FbDesc} {skip : Bool} (h : PalEndless bm skip)
    (hheight : 0 < bm.visibleHeight) (limit : Nat) :
    bitmapPointers bm skip (limit + 1) =
      ((List.range (limit + 1)).map fun k : Nat => lastPalRow bm + int32 (k * 2), false) := by
  obtain ⟨rfl, hwidth⟩ := h
  have hpar : par true = 2 := rfl
  have hcolumns : passes (fun x : Int => x < bm.visibleWidth) (fun x => int32 (x + par true))
      (limit + 1) 0 = ((List.range (limit + 1)).map fun k : Nat => int32 (k * 2), false) := by
    rw [passes_running _ _ _ _ ?_]
    · simp only [int32_iterate, hpar]
    · intro k _
      have hhigh := (int32_range (k * 2)).2
      have heven := int32_emod (k * 2)
      rw [int32_iterate, hwidth, hpar, decide_eq_true_eq]
      omega
  obtain ⟨rest, hrows⟩ := palRows_first hheight (Nat.succ_ne_zero limit) (lastPalRow bm)
  rw [lastPalRow] at hrows
  simp only [bitmapPointers, hcolumns, hrows]
  rw [nest_running _ _ _ rfl, List.map_map, Bool.false_and, lastPalRow]
  rfl

/-- The pixels of a paletted bitmap lie in the frame. -/
def PalRowsFit (bm : FbDesc) (skip : Bool) (len : Nat) : Prop :=
  bm.visibleHeight ≤ 0 ∨ bm.visibleWidth ≤ 0 ∨
    if PalEndless bm skip then
      2 ^ 31 ≤ lastPalRow bm ∧ lastPalRow bm + (2 ^ 31 - 2) < len
    else
      0 ≤ lastPalRow bm - (bm.visibleHeight - 1) * bm.bufferWidth ∧
        lastPalRow bm + (palCount bm skip - 1 : Nat) * par skip < len

/-- An empty bitmap has no pixels. -/
theorem bitmapPointers_pos {bm : FbDesc} {skip : Bool} {limit : Nat} {p : Int}
    (hp : p ∈ (bitmapPointers bm skip limit).1) : 0 < bm.visibleHeight ∧ 0 < bm.visibleWidth := by
  obtain ⟨s, hs, hp⟩ := mem_nest hp
  obtain ⟨x, hx, -⟩ := List.mem_map.mp hp
  obtain ⟨_, -, -, hrows⟩ := mem_passes hs
  obtain ⟨_, -, -, hcolumns⟩ := mem_passes hx
  exact ⟨of_decide_eq_true (hrows 0 (Nat.zero_le _)), of_decide_eq_true (hcolumns 0 (Nat.zero_le _))⟩

theorem endless_inside_iff {bm : FbDesc} {skip : Bool} {len : Nat} (h : PalEndless bm skip)
    (hheight : 0 < bm.visibleHeight) :
    (∀ limit, ∀ p ∈ (bitmapPointers bm skip limit).1, 0 ≤ p ∧ p < len) ↔
      2 ^ 31 ≤ lastPalRow bm ∧ lastPalRow bm + (2 ^ 31 - 2) < len := by
  constructor
  · intro hinside
    have hmem : ∀ k : Nat, lastPalRow bm + int32 (k * 2) ∈ (bitmapPointers bm skip (k + 1)).1 := by
      intro k
      rw [bitmapPointers_endless h hheight]
      exact List.mem_map.mpr ⟨k, List.mem_range.mpr (Nat.lt_succ_self k), rfl⟩
    have hlowest : int32 ((2 ^ 30 : Nat) * 2) = -2 ^ 31 := by decide
    have hhighest : int32 ((2 ^ 30 - 1 : Nat) * 2) = 2 ^ 31 - 2 := by decide
    have hlow := (hinside _ _ (hmem (2 ^ 30))).1
    have hhigh := (hinside _ _ (hmem (2 ^ 30 - 1))).2
    rw [hlowest] at hlow
    rw [hhighest] at hhigh
    omega
  · rintro ⟨hlow, hhigh⟩ limit p hp
    cases limit with
    | zero => cases hp
    | succ limit =>
      rw [bitmapPointers_endless h hheight] at hp
      obtain ⟨k, -, rfl⟩ := List.mem_map.mp hp
      have hrange := int32_range (k * 2)
      have heven := int32_emod (k * 2)
      omega

/-- The loops stay in the frame, however long they are looked at, exactly when their first
and their last pass do. -/
theorem bitmapPointers_inside_iff {bm : FbDesc} (skip : Bool) {len : Nat}
    (hheight : bm.visibleHeight < 2 ^ 31) (hwidth : bm.visibleWidth < 2 ^ 31)
    (hbuffer : bm.visibleWidth ≤ bm.bufferWidth) :
    (∀ limit, ∀ p ∈ (bitmapPointers bm skip limit).1, 0 ≤ p ∧ p < len) ↔ PalRowsFit bm skip len := by
  by_cases hsome : 0 < bm.visibleHeight ∧ 0 < bm.visibleWidth
  · obtain ⟨hrows, hcolumns⟩ := hsome
    unfold PalRowsFit
    rw [or_iff_right (by omega), or_iff_right (by omega)]
    by_cases hend : PalEndless bm skip
    · rw [if_pos hend]
      exact endless_inside_iff hend hrows
    · rw [if_neg hend]
      have hfit := palCount_fits hwidth hend
      have hpar : 0 < par skip := by cases skip <;> decide
      have hcount : 0 < palCount bm skip := by
        rw [palCount, lt_passCount (par_pos skip)]
        omega
      constructor
      · intro hinside
        have hmem : ∀ row < bm.visibleHeight.toNat, ∀ k < palCount bm skip,
            0 ≤ lastPalRow bm - (row : Nat) * bm.bufferWidth + (k : Nat) * par skip ∧
              lastPalRow bm - (row : Nat) * bm.bufferWidth + (k : Nat) * par skip < len := by
          intro row hrow k hk
          refine hinside (bm.visibleHeight.toNat + palCount bm skip + 1) _ ?_
          rw [bitmapPointers_end hheight hfit (by omega) (by omega)]
          exact List.mem_flatMap.mpr ⟨row, List.mem_range.mpr hrow,
            List.mem_map.mpr ⟨k, List.mem_range.mpr hk, rfl⟩⟩
        have hfirst := (hmem (bm.visibleHeight.toNat - 1) (by omega) 0 hcount).1
        have hlast := (hmem 0 (by omega) (palCount bm skip - 1) (by omega)).2
        have hcast : ((bm.visibleHeight.toNat - 1 : Nat) : Int) = bm.visibleHeight - 1 := by omega
        rw [hcast] at hfirst
        refine ⟨?_, ?_⟩
        · simpa using hfirst
        · simpa using hlast
      · rintro ⟨hlow, hhigh⟩ limit p hp
        obtain ⟨row, hrow, k, hk, rfl⟩ := mem_bitmapPointers hheight hfit hp
        have hrowle : (row : Int) * bm.bufferWidth ≤ (bm.visibleHeight - 1) * bm.bufferWidth :=
          Int.mul_le_mul_of_nonneg_right (by omega) (by omega)
        have hrowpos : 0 ≤ (row : Int) * bm.bufferWidth :=
          Int.mul_nonneg (Int.natCast_nonneg _) (by omega)
        have hkle : (k : Int) * par skip ≤ (palCount bm skip - 1 : Nat) * par skip :=
          Int.mul_le_mul_of_nonneg_right (by omega) (Int.le_of_lt hpar)
        have hkpos : 0 ≤ (k : Int) * par skip :=
          Int.mul_nonneg (Int.natCast_nonneg _) (Int.le_of_lt hpar)
        omega
  · refine ⟨fun _ => ?_, fun _ limit p hp => absurd (bitmapPointers_pos hp) hsome⟩
    unfold PalRowsFit
    omega

end LiveLoops
