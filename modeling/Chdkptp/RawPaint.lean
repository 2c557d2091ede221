import Chdkptp.RawPixel
import Chdkptp.BoundedLoop

/-!
# Filling an image pixel by pixel

Row by row, column by column, every pixel is set to a value that may be too wide
for the format. The excess bits of a value run into the low bits of the pixel on
its left when the two share a byte. A filled image holds in every pixel the low
bits of its value, or-ed with what its right neighbour spilled.
-/

namespace RawPaint

open ByteMemory PackedField RawAccess RawLayout RawPixel BoundedLoop

/-! ## One pixel -/

/-- The bits that the setter of column `x` ors into the pixel on its left. -/
def spill (f : RawFormat) (x v : Nat) : Nat := v >>> f.bpp % 2 ^ spare f (phase f x)

theorem spill_of_lt (f : RawFormat) (x : Nat) {v : Nat} (hv : v < 2 ^ f.bpp) :
    spill f x v = 0 := by
  rw [spill, Nat.shiftRight_eq_div_pow, Nat.div_eq_of_lt hv, Nat.zero_mod]

/-- Nothing is spilled between a column with a case and one without. -/
theorem spill_eq_zero (f : RawFormat) (x v : Nat) (h : ¬(HasCase f x ↔ HasCase f (x + 1))) :
    spill f (x + 1) v = 0 := by
  have hf : f = .raw14b := by
    by_contra hne
    exact h ⟨fun _ he => absurd he hne, fun _ he => absurd he hne⟩
  subst hf
  simp only [HasCase, forall_const] at h
  have hphase : phase .raw14b (x + 1) = 0 := by
    simp only [phase, RawFormat.blockPixels, RawFormat.blockBytes, RawFormat.bpp]
    omega
  rw [spill, hphase]
  simp [spare, Nat.mod_one]

/-- A bit that the setter of column `x` reaches is a bit of the pixel or one of
the low bits of the pixel on the left. -/
theorem position_reach (f : RawFormat) {x x' i j : Nat} (hi : i < reach f x) (hj : j < f.bpp)
    (h : position f x' j = position f x i) : (x' = x ∧ j = i) ∨ (x' + 1 = x ∧ i = f.bpp + j) := by
  cases f <;> simp only [reach, spare, phase, position, RawFormat.blockPixels,
    RawFormat.blockBytes, RawFormat.bpp] at hi hj h ⊢ <;> omega

theorem position_spill (f : RawFormat) (x j : Nat) :
    position f x j = position f (x + 1) (f.bpp + j) := by
  simp only [position, Nat.add_mul]
  omega

/-- The same for places: a bit of pixel `(a, b)` that the setter of pixel `(x, y)` reaches. -/
theorem place_reach (f : RawFormat) {rowBytes len x y a b i j : Nat}
    (hblock : f.blockBytes ∣ rowBytes) (hlen : len < 2 ^ 32) (hin : InImage f rowBytes len x y)
    (hin' : InImage f rowBytes len a b) (hi : i < reach f x) (hj : j < f.bpp)
    (h : place f rowBytes a b j = place f rowBytes x y i) :
    b = y ∧ ((a = x ∧ j = i) ∨ (a + 1 = x ∧ i = f.bpp + j)) := by
  rw [place_eq f hblock hlen hin hi,
    place_eq f hblock hlen hin' (Nat.lt_of_lt_of_le hj (reach_ge f a))] at h
  obtain ⟨hy, hpos⟩ := cell_row_inj f hblock (position_in_row f hblock hin'.column)
    (position_in_row f hblock hin.column) h
  exact ⟨hy, position_reach f hi hj hpos⟩

/-- What setting a pixel does to the value of any pixel of the image. -/
theorem getPixel_setPixel_any (f : RawFormat) (p : Memory) {rowBytes len x y a b : Nat} (v : Nat)
    (hblock : f.blockBytes ∣ rowBytes) (hlen : len < 2 ^ 32) (hin : InImage f rowBytes len x y)
    (hin' : InImage f rowBytes len a b) (hcase : HasCase f x) :
    f.getPixel (f.setPixel p rowBytes x y v) rowBytes a b =
      if b = y ∧ a = x then v % 2 ^ f.bpp
      else if b = y ∧ a + 1 = x then f.getPixel p rowBytes a b ||| spill f x v
      else f.getPixel p rowBytes a b := by
  have ho := setPixel_overlaid f p rowBytes x y v hcase
  rw [getPixel_read, getPixel_read]
  by_cases hself : b = y ∧ a = x
  · rw [if_pos hself, hself.1, hself.2]
    exact ho.read_self
  rw [if_neg hself]
  by_cases hleft : b = y ∧ a + 1 = x
  · rw [if_pos hleft]
    obtain ⟨rfl, rfl⟩ := hleft
    have hwidth : reach f (a + 1) - f.bpp = spare f (phase f (a + 1)) := by
      simp only [reach]
      omega
    rw [spill, ← hwidth]
    apply ho.read_spilled
    · rw [hwidth]
      have : spare f (phase f (a + 1)) < 8 := Nat.mod_lt _ (by decide)
      have : 8 ≤ f.bpp := by cases f <;> decide
      omega
    · intro j hj
      have hja : f.bpp + j < reach f (a + 1) := hj
      have hjb : j < f.bpp := by
        have : spare f (phase f (a + 1)) < 8 := Nat.mod_lt _ (by decide)
        have : 8 ≤ f.bpp := by cases f <;> decide
        simp only [reach] at hja
        omega
      rw [place_eq f hblock hlen hin hja,
        place_eq f hblock hlen hin' (Nat.lt_of_lt_of_le hjb (reach_ge f a)), position_spill]
    · intro i j hi hj he
      obtain ⟨_, h | h⟩ := place_reach f hblock hlen hin hin' hi hj he
      · omega
      · exact h.2
  · rw [if_neg hleft]
    apply ho.read_far
    intro i j hi hj he
    obtain ⟨hy, h | h⟩ := place_reach f hblock hlen hin hin' hi hj he
    · exact hself ⟨hy, h.1⟩
    · exact hleft ⟨hy, h.1⟩

/-! ## A row, an image -/

/-- Set every pixel of the first `width` columns and `height` rows. -/
def paint (f : RawFormat) (rowBytes : Nat) (value : Nat → Nat → Nat) (width height : Nat)
    (m : Memory) : Memory :=
  forUp (fun y m => forUp (fun x m => f.setPixel m rowBytes x y (value x y)) width m) height m

/-- What a pixel of the row holds when the first `k` columns have been set. -/
def rowPart (f : RawFormat) (value : Nat → Nat) (old : Nat → Nat) (k a : Nat) : Nat :=
  if HasCase f a ∧ a < k then
    value a % 2 ^ f.bpp ||| (if a + 1 < k then spill f (a + 1) (value (a + 1)) else 0)
  else old a

/-- What a pixel of a filled image holds. -/
def painted (f : RawFormat) (value : Nat → Nat → Nat) (width old x y : Nat) : Nat :=
  rowPart f (fun a => value a y) (fun _ => old) width x

theorem rowPart_self (f : RawFormat) (value old : Nat → Nat) (k : Nat) (h : HasCase f k) :
    rowPart f value old (k + 1) k = value k % 2 ^ f.bpp := by
  simp [rowPart, h]

theorem rowPart_left (f : RawFormat) (value old : Nat → Nat) (a : Nat) (h : HasCase f (a + 1)) :
    rowPart f value old (a + 1 + 1) a =
      rowPart f value old (a + 1) a ||| spill f (a + 1) (value (a + 1)) := by
  by_cases ha : HasCase f a
  · have hlt : a < a + 1 + 1 := by omega
    simp [rowPart, ha, hlt]
  · rw [spill_eq_zero f a _ (fun hiff => ha (hiff.mpr h)), Nat.or_zero]
    simp [rowPart, ha]

theorem rowPart_other (f : RawFormat) (value old : Nat → Nat) {k a : Nat} (hk : a ≠ k)
    (hleft : a + 1 ≠ k) : rowPart f value old (k + 1) a = rowPart f value old k a := by
  have hlt : a < k + 1 ↔ a < k := by omega
  have hlt' : a + 1 < k + 1 ↔ a + 1 < k := by omega
  simp only [rowPart, hlt, hlt']

/-- A column without a case changes nothing. -/
theorem rowPart_no_case (f : RawFormat) (value old : Nat → Nat) {k : Nat} (h : ¬HasCase f k)
    (a : Nat) : rowPart f value old (k + 1) a = rowPart f value old k a := by
  by_cases hk : a = k
  · subst hk
    simp [rowPart, h]
  by_cases hleft : a + 1 = k
  · subst hleft
    by_cases ha : HasCase f a
    · have hlt : a < a + 1 + 1 := by omega
      simp [rowPart, ha, hlt, spill_eq_zero f a _ (fun hiff => h (hiff.mp ha))]
    · simp [rowPart, ha]
  · exact rowPart_other f value old hk hleft

/-- The bits that setting pixel `(x, y)` can change. -/
def Reaches (f : RawFormat) (rowBytes x y : Nat) (a : Nat × Nat) : Prop :=
  HasCase f x ∧ ∃ i, i < reach f x ∧ a = place f rowBytes x y i

theorem setPixel_unreached (f : RawFormat) (p : Memory) (rowBytes x y v : Nat) {a : Nat × Nat}
    (h : ¬Reaches f rowBytes x y a) : bit (f.setPixel p rowBytes x y v) a = bit p a := by
  by_cases hcase : HasCase f x
  · exact (setPixel_overlaid f p rowBytes x y v hcase).frame a
      (fun i hi he => h ⟨hcase, i, hi, he⟩)
  · rw [setPixel_no_case f p rowBytes x y v hcase]

theorem row_unreached (f : RawFormat) (rowBytes y : Nat) (value : Nat → Nat) (k : Nat)
    (m : Memory) {a : Nat × Nat} (h : ∀ x, x < k → ¬Reaches f rowBytes x y a) :
    bit (forUp (fun x m => f.setPixel m rowBytes x y (value x)) k m) a = bit m a := by
  induction k with
  | zero => rfl
  | succ k ih =>
    rw [forUp_succ, setPixel_unreached f _ _ _ _ _ (h k (Nat.lt_succ_self k))]
    exact ih (fun x hx => h x (Nat.lt_succ_of_lt hx))

/-- The first `k` rows leave alone what none of their pixels reaches. -/
theorem rows_unreached (f : RawFormat) (rowBytes : Nat) (value : Nat → Nat → Nat)
    (width k : Nat) (m : Memory) {a : Nat × Nat}
    (h : ∀ x y, x < width → y < k → ¬Reaches f rowBytes x y a) :
    bit (paint f rowBytes value width k m) a = bit m a := by
  induction k with
  | zero => rfl
  | succ k ih =>
    rw [paint, forUp_succ, row_unreached f rowBytes k (fun x => value x k) width _
      (fun x hx => h x k hx (Nat.lt_succ_self k))]
    exact ih (fun x y hx hy => h x y hx (Nat.lt_succ_of_lt hy))

section Grid

variable (f : RawFormat) {rowBytes len width height : Nat}

/-- One row: its pixels are filled, the pixels of the other rows are kept. -/
theorem row_painted (hblock : f.blockBytes ∣ rowBytes) (hlen : len < 2 ^ 32)
    (hin : ∀ x y, x < width → y < height → InImage f rowBytes len x y) (value : Nat → Nat)
    {y : Nat} (hy : y < height) (m : Memory) {a b : Nat} (ha : a < width) (hb : b < height) :
    f.getPixel (forUp (fun x m => f.setPixel m rowBytes x y (value x)) width m) rowBytes a b =
      if b = y then rowPart f value (fun a => f.getPixel m rowBytes a y) width a
      else f.getPixel m rowBytes a b := by
  refine forUp_invariant _ (fun k t => ∀ a b, a < width → b < height →
    f.getPixel t rowBytes a b =
      if b = y then rowPart f value (fun a => f.getPixel m rowBytes a y) k a
      else f.getPixel m rowBytes a b) width m ?_ ?_ a b ha hb
  · intro a b _ _
    by_cases hby : b = y
    · simp [hby, rowPart]
    · simp [hby]
  · intro k t hk ih a b ha hb
    by_cases hcase : HasCase f k
    · rw [getPixel_setPixel_any f t (value k) hblock hlen (hin k y hk hy) (hin a b ha hb) hcase,
        ih a b ha hb]
      by_cases hby : b = y
      · subst hby
        by_cases hk' : a = k
        · subst hk'
          simp [rowPart_self f _ _ _ hcase]
        by_cases hleft : a + 1 = k
        · subst hleft
          simp [rowPart_left f _ _ _ hcase]
        · simp [hk', hleft, rowPart_other f _ _ hk' hleft]
      · simp [hby]
    · rw [setPixel_no_case f t rowBytes k y _ hcase, ih a b ha hb]
      simp only [rowPart_no_case f _ _ hcase]

/-- All rows. -/
theorem paint_pixel (hblock : f.blockBytes ∣ rowBytes) (hlen : len < 2 ^ 32)
    (hin : ∀ x y, x < width → y < height → InImage f rowBytes len x y)
    (value : Nat → Nat → Nat) (m : Memory) {x y : Nat} (hx : x < width) (hy : y < height) :
    f.getPixel (paint f rowBytes value width height m) rowBytes x y =
      painted f value width (f.getPixel m rowBytes x y) x y := by
  have hrows := forUp_invariant
    (fun y m => forUp (fun x m => f.setPixel m rowBytes x y (value x y)) width m)
    (fun k t => ∀ a b, a < width → b < height → f.getPixel t rowBytes a b =
      if b < k then painted f value width (f.getPixel m rowBytes a b) a b
      else f.getPixel m rowBytes a b) height m ?_ ?_
  · rw [paint, hrows x y hx hy, if_pos hy]
  · intro a b _ _
    simp
  · intro k t hk ih a b ha hb
    rw [row_painted f hblock hlen hin (fun x => value x k) hk t ha hb]
    by_cases hbk : b = k
    · subst hbk
      rw [if_pos rfl, if_pos (Nat.lt_succ_self b), painted]
      simp only [rowPart, ih a b ha hb, Nat.lt_irrefl, if_false]
    · have hlt : b < k + 1 ↔ b < k := by omega
      simp only [hbk, if_false, hlt, ih a b ha hb]

end Grid

/-! ## Every byte belongs to a pixel -/

/-- Every bit of a row is a bit of one of the row's pixels. -/
theorem cell_of_pixel (f : RawFormat) {rowBytes c j : Nat} (hblock : f.blockBytes ∣ rowBytes)
    (hc : c < rowBytes) (hj : j < 8) :
    ∃ x i, x * f.bpp < rowBytes * 8 ∧ i < f.bpp ∧ cell f (position f x i) = (c, j) := by
  have hstream : streamByte f c < rowBytes := by
    have hcell : (cell f (c * 8)).1 < rowBytes := cell_in_row f hblock (by omega)
    simpa [cell] using hcell
  have hbpp := bpp_pos f
  generalize hs : 8 * streamByte f c + (7 - j) = s
  have hmul : s / f.bpp * f.bpp ≤ s := Nat.div_mul_le_self s f.bpp
  have hnext : s < (s / f.bpp + 1) * f.bpp := by
    rw [Nat.mul_comm]
    exact Nat.lt_mul_div_succ s hbpp
  refine ⟨s / f.bpp, (s / f.bpp + 1) * f.bpp - 1 - s, by omega, ?_, ?_⟩
  · rw [Nat.add_mul] at hnext ⊢
    omega
  · have hpos : position f (s / f.bpp) ((s / f.bpp + 1) * f.bpp - 1 - s) = s := by
      simp only [position]
      omega
    have hdiv : s / 8 = streamByte f c := by omega
    have hmod : 7 - s % 8 = j := by omega
    rw [hpos, cell, hdiv, hmod, streamByte_streamByte]

/-- The byte of a pixel's bit is one that the getter reads. -/
theorem place_read (f : RawFormat) (rowBytes x y : Nat) {i : Nat} (hi : i < f.bpp) :
    (place f rowBytes x y i).1 ∈ readOffsets f rowBytes x y := by
  have hmem : cell f (position f (phase f x) i) ∈ (f.loads x).filterMap (source · i) := by
    rw [loads_source, if_pos hi]
    exact List.mem_singleton.mpr rfl
  obtain ⟨t, ht, hsource⟩ := List.mem_filterMap.mp hmem
  have hbyte : t.byte = (cell f (position f (phase f x) i)).1 := by
    simp only [source] at hsource
    split at hsource
    · split at hsource
      · exact congrArg Prod.fst (Option.some.inj hsource)
      · cases hsource
    · split at hsource
      · exact congrArg Prod.fst (Option.some.inj hsource)
      · cases hsource
  exact List.mem_map.mpr ⟨t, ht, by rw [hbyte, place]⟩

section Grid

variable (f : RawFormat) {rowBytes len width height : Nat}

/-- Images with the same pixels are the same bytes. -/
theorem bytes_of_pixels (hblock : f.blockBytes ∣ rowBytes) (hbits : rowBytes * 8 = width * f.bpp)
    (hlen : rowBytes * height < 2 ^ 32) {m m' : Memory}
    (h : ∀ x y, x < width → y < height →
      f.getPixel m rowBytes x y = f.getPixel m' rowBytes x y)
    {o : Nat} (ho : o < rowBytes * height) : m o = m' o := by
  have hpos : 0 < rowBytes := Nat.pos_of_ne_zero (by rintro rfl; simp at ho)
  have hy : o / rowBytes < height := Nat.div_lt_of_lt_mul ho
  apply byte_eq_of_bits
  intro j hj
  obtain ⟨x, i, hx, hi, hcell⟩ := cell_of_pixel f hblock (Nat.mod_lt o hpos) hj
  have hin : InImage f rowBytes (rowBytes * height) x (o / rowBytes) := by
    refine ⟨hx, ?_⟩
    rw [Nat.mul_comm]
    exact Nat.mul_le_mul_left _ hy
  have hplace : place f rowBytes x (o / rowBytes) i = (o, j) := by
    rw [place_eq f hblock hlen hin (Nat.lt_of_lt_of_le hi (reach_ge f x)), hcell]
    have hdiv := Nat.div_add_mod' o rowBytes
    simp only [hdiv]
  have hpix := h x (o / rowBytes) (Nat.lt_of_mul_lt_mul_right (hbits ▸ hx)) hy
  rw [getPixel_read, getPixel_read] at hpix
  have hb := bit_of_read_eq hpix hi
  rwa [hplace] at hb

end Grid

end RawPaint
