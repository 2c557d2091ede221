import Chdkptp.RawConvert
import Chdkptp.RawPaint

/-!
# The pixels of a converted image

What `img:convert` leaves in every pixel of the destination, when that is the
shifted source pixel, and that converting to more bits and back restores the
packed bytes. A conversion in place may overwrite source pixels before they are
read; `ReadFirst` says that it does not.
-/

namespace RawConvertPixel

open ByteMemory PackedField RawAccess RawLayout RawPixel RawPaint Lbuf Rawimg RawConvert BoundedLoop

/-! ## Shifted values -/

section Shift

variable {n n' v : Nat} {up down : ValMod}

theorem shifted_down (hlt : n' < n) : shifted (shiftCount n n' up .shift) v = v >>> (n - n') := by
  have hcount : ((n : Int) - n').toNat = n - n' := by omega
  rw [shiftCount, if_pos hlt, if_pos rfl, shifted, if_neg (by omega), hcount]

theorem shifted_up (hlt : n < n') :
    shifted (shiftCount n n' .shift down) v = v <<< (n' - n) % 2 ^ 32 := by
  have hcount : (-((n : Int) - n')).toNat = n' - n := by omega
  rw [shiftCount, if_neg (by omega), if_pos rfl, shifted, if_pos (by omega), hcount]

@[simp] theorem shifted_same : shifted (shiftCount n n up down) v = v := by
  simp [shiftCount, shifted]

theorem shifted_no (hle : n ≤ n') : shifted (shiftCount n n' .no down) v = v := by
  have hnot : ¬n > n' := by omega
  simp [shiftCount, hnot, shifted]

theorem shiftLeft_lt (hv : v < 2 ^ n) (hle : n ≤ n') : v <<< (n' - n) < 2 ^ n' := by
  rw [Nat.shiftLeft_eq]
  calc v * 2 ^ (n' - n) < 2 ^ n * 2 ^ (n' - n) :=
        Nat.mul_lt_mul_of_pos_right hv (Nat.two_pow_pos _)
    _ = 2 ^ n' := by rw [← Nat.pow_add, Nat.add_sub_cancel' hle]

/-- Values that fit the source format fit the target format after the shift. -/
theorem shifted_lt (hv : v < 2 ^ n) (hfit : n ≤ n' ∨ down = .shift) :
    shifted (shiftCount n n' up down) v < 2 ^ n' := by
  rcases Nat.lt_trichotomy n n' with hlt | rfl | hgt
  · cases up with
    | no =>
      rw [shifted_no (Nat.le_of_lt hlt)]
      exact Nat.lt_of_lt_of_le hv (Nat.pow_le_pow_right (by decide) (Nat.le_of_lt hlt))
    | shift =>
      rw [shifted_up hlt]
      exact Nat.lt_of_le_of_lt (Nat.mod_le _ _) (shiftLeft_lt hv (Nat.le_of_lt hlt))
  · rwa [shifted_same]
  · rcases hfit with hle | rfl
    · omega
    · rw [shifted_down hgt, Nat.shiftRight_eq_div_pow]
      apply Nat.div_lt_of_lt_mul
      rwa [← Nat.pow_add, Nat.sub_add_cancel (Nat.le_of_lt hgt)]

/-- Shifting up and, by default, down again is the identity on the source's values. -/
theorem shifted_back (hv : v < 2 ^ n) (hle : n ≤ n') (hn' : n' ≤ 16) (down : ValMod) :
    shifted (shiftCount n' n .no .shift) (shifted (shiftCount n n' .shift down) v) = v := by
  rcases Nat.eq_or_lt_of_le hle with rfl | hlt
  · rw [shifted_same, shifted_same]
  · have hsmall : v <<< (n' - n) < 2 ^ 32 :=
      Nat.lt_of_lt_of_le (shiftLeft_lt hv hle) (Nat.pow_le_pow_right (by decide) (by omega))
    rw [shifted_up hlt, shifted_down hlt, Nat.mod_eq_of_lt hsmall, Nat.shiftLeft_shiftRight]

end Shift

/-! ## What the loops leave -/

/-- The shifted source pixel. -/
def pixelValue (img : RawImage) (shift : Int) (x y : Nat) : Nat :=
  shifted shift (img.fmt.getPixel img.data img.rowBytes.toNat x y)

section Converted

variable {img new : RawImage} {spec : ConvertSpec} {written : List (Nat × Nat)} {shift : Int}
  {start : Memory}

/-- A conversion onto the image's own lbuf overwrites no bit of a source pixel
before the pixel has been read. -/
def ReadFirst (img : RawImage) (spec : ConvertSpec) (f : RawFormat) : Prop :=
  spec.lbuf = .own → ∀ x y x' y' j, x < img.width.toNat → y < img.height.toNat →
    x' < img.width.toNat → (y' < y ∨ (y' = y ∧ x' < x)) → j < img.fmt.bpp →
    ¬Reaches f (img.width * spec.bpp / 8).toNat x' y'
      (img.offset.toNat + (place img.fmt img.rowBytes.toNat x y j).1,
        (place img.fmt img.rowBytes.toNat x y j).2)

theorem readFirst_of_ne {img : RawImage} {spec : ConvertSpec} {f : RawFormat}
    (h : spec.lbuf ≠ .own) : ReadFirst img spec f := fun hown => absurd hown h

/-- Converting in place to the image's own format overwrites nothing unread, spilled
bits included: they go to the left. -/
theorem readFirst_same {img : RawImage} {spec : ConvertSpec}
    (hexact : Exact img.fmt img.rowBytes.toNat img.width.toNat)
    (hlen : img.rowBytes.toNat * img.height.toNat < 2 ^ 32) (hoffset : img.offset = 0)
    (hrow : img.width * spec.bpp / 8 = img.rowBytes) : ReadFirst img spec img.fmt := by
  intro _ x y x' y' j hx hy hx' hbefore hj hreach
  rw [hrow, hoffset] at hreach
  obtain ⟨_, i, hi, he⟩ := hreach
  have hy' : y' < img.height.toNat := by omega
  have hzero : (0 : UInt32).toNat = 0 := rfl
  rw [hzero, Nat.zero_add] at he
  obtain ⟨hrows, hcolumns⟩ := place_reach img.fmt hexact.block hlen (hexact.inImage hx' hy')
    (hexact.inImage hx hy) hi hj he
  omega

/-- The source pixel is still there when its turn comes. -/
theorem source_pixel (h : Converted img spec new written shift start) (hown : spec.lbuf = .own)
    {x y : Nat} {m : Memory}
    (hm : ∀ j, j < img.fmt.bpp →
      bit m (img.offset.toNat + (place img.fmt img.rowBytes.toNat x y j).1,
        (place img.fmt img.rowBytes.toNat x y j).2) =
      bit start (img.offset.toNat + (place img.fmt img.rowBytes.toNat x y j).1,
        (place img.fmt img.rowBytes.toNat x y j).2)) :
    shifted shift (img.fmt.getPixel (sourceBytes img spec.lbuf m) img.rowBytes.toNat x y) =
      pixelValue img shift x y := by
  rw [pixelValue, getPixel_read, getPixel_read]
  apply congrArg
  apply read_congr
  intro j hj
  rw [hown, RawImage.data, ← h.own hown]
  exact hm j hj

/-- The loops paint the shifted source pixels. -/
theorem converted_bytes (h : Converted img spec new written shift start)
    (hread : ReadFirst img spec new.fmt) :
    new.data = paint new.fmt new.rowBytes.toNat (pixelValue img shift) img.width.toNat
      img.height.toNat start := by
  have hbytes : new.lbuf.bytes = (convertLoop img new shift (sourceBytes img spec.lbuf)
      ⟨start, []⟩).bytes := congrArg ConvertRun.bytes h.run
  have hdata : new.data = new.lbuf.bytes := by
    funext i
    simp [RawImage.data, h.offset]
  have hloop : new.data = forUp (fun y m => forUp (fun x m =>
      new.fmt.setPixel m new.rowBytes.toNat x y (shifted shift
        (img.fmt.getPixel (sourceBytes img spec.lbuf m) img.rowBytes.toNat x y)))
      img.width.toNat m) img.height.toNat start := by
    rw [hdata, hbytes, convertLoop]
    apply forUp_map _ _ ConvertRun.bytes
    intro y s
    apply forUp_map _ _ ConvertRun.bytes
    intro x s
    rfl
  rw [hloop]
  apply forUp_congr
  intro y hy
  apply forUp_congr
  intro x hx
  -- the memory before pixel `(x, y)`: whole rows, then the beginning of a row
  have hvalue : ∀ m, (∀ a, (∀ x' y', x' < img.width.toNat → (y' < y ∨ (y' = y ∧ x' < x)) →
      ¬Reaches new.fmt new.rowBytes.toNat x' y' a) → bit m a = bit start a) →
      shifted shift (img.fmt.getPixel (sourceBytes img spec.lbuf m) img.rowBytes.toNat x y) =
        pixelValue img shift x y := by
    intro m hm
    cases hl : spec.lbuf with
    | own =>
      rw [← hl]
      apply source_pixel h hl
      intro j hj
      apply hm
      intro x' y' hx' hbefore
      rw [h.row]
      exact hread hl x y x' y' j hx hy hx' hbefore hj
    | absent => rfl
    | other lb => rfl
  rw [hvalue]
  intro a ha
  rw [row_unreached new.fmt _ y (fun x => pixelValue img shift x y) x _
    (fun x' hx' => ha x' y (Nat.lt_trans hx' hx) (.inr ⟨rfl, hx'⟩))]
  exact rows_unreached new.fmt _ (pixelValue img shift) img.width.toNat y start
    (fun x' y' hx' hy' => ha x' y' hx' (.inl hy'))

/-- Sizes of a destination whose rows are whole blocks and whose size in bits does not wrap. -/
structure Sized (new : RawImage) : Prop where
  exact : Exact new.fmt new.rowBytes.toNat new.width.toNat
  total : new.rowBytes.toNat * new.height.toNat = new.lbuf.len.toNat

theorem converted_sized (h : Converted img spec new written shift start)
    (hblock : img.width.toNat % new.fmt.blockPixels = 0) (hh : 0 < img.height.toNat)
    (hbits : img.width.toNat * img.height.toNat * new.fmt.bpp < 2 ^ 32) : Sized new := by
  obtain ⟨hwidth, _⟩ := rows_total hh hbits
  have hrow := rowBytes_toNat h
  have hlen := lbuf_toNat h
  rw [Nat.mod_eq_of_lt hwidth] at hrow
  rw [Nat.mod_eq_of_lt hbits] at hlen
  have hfull := row_bits_of_block new.fmt hblock
  have hexact : new.rowBytes.toNat * 8 = img.width.toNat * new.fmt.bpp := by omega
  constructor
  · rw [h.width]
    exact exact_of_block new.fmt hblock hexact
  · have htotal : new.rowBytes.toNat * img.height.toNat * 8 =
        img.width.toNat * img.height.toNat * new.fmt.bpp := by
      rw [Nat.mul_right_comm, hexact, Nat.mul_right_comm]
    rw [h.height]
    omega

theorem Sized.len_lt {new : RawImage} (h : Sized new) :
    new.rowBytes.toNat * new.height.toNat < 2 ^ 32 := by
  rw [h.total]
  exact new.lbuf.len.toNat_lt

/-- Every pixel of the destination after a conversion. -/
theorem converted_pixel (h : Converted img spec new written shift start)
    (hread : ReadFirst img spec new.fmt) (hs : Sized new) {x y : Nat} (hx : x < img.width.toNat)
    (hy : y < img.height.toNat) :
    new.fmt.getPixel new.data new.rowBytes.toNat x y =
      painted new.fmt (pixelValue img shift) img.width.toNat
        (new.fmt.getPixel start new.rowBytes.toNat x y) x y := by
  rw [converted_bytes h hread]
  apply paint_pixel new.fmt hs.exact.block hs.len_lt ?_ _ _ hx hy
  intro a b ha hb
  rw [← h.width] at ha
  rw [← h.height] at hb
  exact hs.exact.inImage ha hb

/-! ## When every pixel is right -/

/-- The option in force. -/
def chosen {α : Type} (arg : OptionArg α) (default : α) : α :=
  match arg with
  | .given a => a
  | _ => default

theorem chosen_eq {α : Type} {arg : OptionArg α} {default a : α}
    (h : luTableCheckoption arg (some default) = .ok a) : a = chosen arg default := by
  cases arg with
  | absent => cases h; rfl
  | unknown => cases h
  | given b => cases h; rfl

/-- The shift that the options ask for. -/
def specShift (img : RawImage) (spec : ConvertSpec) : Int :=
  shiftCount img.fmt.bpp spec.bpp.toNat (chosen spec.valupmod .no)
    (chosen spec.valdownmod .shift)

theorem convert_converted {malloc : UInt32 → Option Memory} {img new : RawImage}
    {spec : ConvertSpec} {written : List (Nat × Nat)} {lb : LBuf}
    (h : rawimgLuaConvert malloc img spec = .ok (new, written))
    (hlb : destination malloc img spec.bpp spec.lbuf = .ok lb) :
    Converted img spec new written (specShift img spec) lb.bytes := by
  obtain ⟨_, up, down, lb', _, hup, hdown, _, hlb', hc⟩ := convert_ok h
  rw [hlb] at hlb'
  cases hlb'
  rwa [chosen_eq hup, chosen_eq hdown] at hc

/-- Every pixel is read inside the lbuf and is its shifted source pixel, reduced. -/
def PixelsConverted (img new : RawImage) (shift : Int) : Prop :=
  ∀ x y, x < img.width.toNat → y < img.height.toNat →
    (∀ o ∈ readOffsets new.fmt new.rowBytes.toNat x y, o < new.lbuf.len.toNat) ∧
    new.fmt.getPixel new.data new.rowBytes.toNat x y =
      pixelValue img shift x y % 2 ^ new.fmt.bpp

/-- The right neighbour's excess bits are set anyway; where the setter has no case,
the destination holds the value beforehand. -/
structure PixelSafe (img : RawImage) (f : RawFormat) (shift : Int) (start : Memory)
    (x y : Nat) : Prop where
  neighbour : HasCase f x → x + 1 < img.width.toNat →
    pixelValue img shift x y % 2 ^ f.bpp ||| spill f (x + 1) (pixelValue img shift (x + 1) y) =
      pixelValue img shift x y % 2 ^ f.bpp
  untouched : ¬HasCase f x → f.getPixel start (img.width.toNat * f.bpp / 8) x y =
    pixelValue img shift x y % 2 ^ f.bpp

def ConvertSafe (img : RawImage) (f : RawFormat) (shift : Int) (start : Memory) : Prop :=
  img.width.toNat = 0 ∨ img.height.toNat = 0 ∨
    (img.width.toNat * img.height.toNat * f.bpp < 2 ^ 32 ∧
      ∀ x y, x < img.width.toNat → y < img.height.toNat → PixelSafe img f shift start x y)

theorem painted_eq_iff (img : RawImage) (f : RawFormat) (shift : Int) (start : Memory)
    {x y : Nat} (hx : x < img.width.toNat) :
    painted f (pixelValue img shift) img.width.toNat
        (f.getPixel start (img.width.toNat * f.bpp / 8) x y) x y =
      pixelValue img shift x y % 2 ^ f.bpp ↔ PixelSafe img f shift start x y := by
  rw [painted, rowPart]
  by_cases hcase : HasCase f x
  · rw [if_pos ⟨hcase, hx⟩]
    constructor
    · intro h
      refine ⟨fun _ hnext => ?_, fun hno => absurd hcase hno⟩
      rwa [if_pos hnext] at h
    · intro h
      by_cases hnext : x + 1 < img.width.toNat
      · rw [if_pos hnext]
        exact h.neighbour hcase hnext
      · rw [if_neg hnext, Nat.or_zero]
  · rw [if_neg (fun hc => hcase hc.1)]
    constructor
    · intro h
      exact ⟨fun hyes => absurd hyes hcase, fun _ => h⟩
    · intro h
      exact h.untouched hcase

/-- Every byte of a row is read for one of the row's pixels. -/
theorem byte_read (f : RawFormat) {rowBytes c : Nat} (y : Nat) (hblock : f.blockBytes ∣ rowBytes)
    (hc : c < rowBytes) (hlen : (y + 1) * rowBytes < 2 ^ 32) :
    ∃ x, x * f.bpp < rowBytes * 8 ∧ y * rowBytes + c ∈ readOffsets f rowBytes x y := by
  obtain ⟨x, i, hx, hi, hcell⟩ := cell_of_pixel f hblock hc (show 0 < 8 by decide)
  have hin : InImage f rowBytes ((y + 1) * rowBytes) x y := ⟨hx, Nat.le_refl _⟩
  have hplace := place_eq f hblock hlen hin (Nat.lt_of_lt_of_le hi (reach_ge f x))
  have hread := place_read f rowBytes x y hi
  rw [hplace, hcell] at hread
  exact ⟨x, hx, hread⟩

theorem readOffsets_row_zero (f : RawFormat) (rowBytes rowBytes' x : Nat) :
    readOffsets f rowBytes x 0 = readOffsets f rowBytes' x 0 := by
  have haddr : f.addr rowBytes x 0 = f.addr rowBytes' x 0 := by
    funext i
    cases f <;> simp [RawFormat.addr, blockAddr, indexAddr]
  simp only [readOffsets, haddr]

/-- A row of at least `2^32` bits begins with whole blocks that reach byte `2^29`. -/
theorem long_row (f : RawFormat) {width : Nat} (hblock : width % f.blockPixels = 0)
    (hwrap : 2 ^ 32 ≤ width * f.bpp) :
    ∃ row, f.blockBytes ∣ row ∧ 2 ^ 29 ≤ row ∧ row < 2 ^ 30 ∧ row * 8 ≤ width * f.bpp := by
  refine ⟨(2 ^ 29 + f.blockBytes - 1) / f.blockBytes * f.blockBytes, Nat.dvd_mul_left _ _, ?_⟩
  cases f <;> simp only [RawFormat.blockPixels, RawFormat.blockBytes, RawFormat.bpp]
    at hblock hwrap ⊢ <;> omega

/-- Byte `2^29 - 1` of an image of at least `2^32` bits whose rows are exact. -/
theorem far_byte_in_rows (f : RawFormat) {rowBytes width height : Nat}
    (hexact : Exact f rowBytes width) (hw : 0 < width) (hrow : rowBytes < 2 ^ 29)
    (hbits : 2 ^ 32 ≤ width * height * f.bpp) :
    ∃ x y, x < width ∧ y < height ∧ 2 ^ 29 - 1 ∈ readOffsets f rowBytes x y := by
  have hpos : 0 < rowBytes := by
    have := Nat.mul_pos hw (bpp_pos f)
    have := hexact.bits
    omega
  have htotal : 2 ^ 32 ≤ rowBytes * height * 8 := by
    rw [Nat.mul_right_comm, hexact.bits, Nat.mul_right_comm]
    exact hbits
  have hy : (2 ^ 29 - 1) / rowBytes < height := Nat.div_lt_of_lt_mul (by omega)
  have hdiv := Nat.div_add_mod' (2 ^ 29 - 1) rowBytes
  have hsucc : ((2 ^ 29 - 1) / rowBytes + 1) * rowBytes =
      (2 ^ 29 - 1) / rowBytes * rowBytes + rowBytes := Nat.succ_mul _ _
  obtain ⟨x, hx, hread⟩ := byte_read f ((2 ^ 29 - 1) / rowBytes) hexact.block
    (Nat.mod_lt (2 ^ 29 - 1) hpos) (by omega)
  rw [hdiv] at hread
  rw [hexact.bits] at hx
  exact ⟨x, _, Nat.lt_of_mul_lt_mul_right hx, hy, hread⟩

/-- The same byte of a first row of at least `2^32` bits, whatever the row size. -/
theorem far_byte_in_row (f : RawFormat) (rowBytes : Nat) {width : Nat}
    (hblock : width % f.blockPixels = 0) (hwrap : 2 ^ 32 ≤ width * f.bpp) :
    ∃ x, x < width ∧ 2 ^ 29 - 1 ∈ readOffsets f rowBytes x 0 := by
  obtain ⟨row, hdvd, hlo, hhi, hle⟩ := long_row f hblock hwrap
  obtain ⟨x, hx, hread⟩ := byte_read f 0 hdvd (show 2 ^ 29 - 1 < row by omega) (by omega)
  rw [readOffsets_row_zero f row rowBytes, Nat.zero_mul, Nat.zero_add] at hread
  exact ⟨x, Nat.lt_of_mul_lt_mul_right (Nat.lt_of_lt_of_le hx hle), hread⟩

/-- If all pixels are inside the lbuf the size has not wrapped: a destination has
fewer than `2^29` bytes. -/
theorem bits_of_reads (h : Converted img spec new written shift start)
    (hblock : img.width.toNat % new.fmt.blockPixels = 0) (hw : 0 < img.width.toNat)
    (hh : 0 < img.height.toNat)
    (hin : ∀ x y, x < img.width.toNat → y < img.height.toNat →
      ∀ o ∈ readOffsets new.fmt new.rowBytes.toNat x y, o < new.lbuf.len.toNat) :
    img.width.toNat * img.height.toNat * new.fmt.bpp < 2 ^ 32 := by
  by_contra hwrap
  have hlen := lbuf_toNat h
  by_cases hwidth : img.width.toNat * new.fmt.bpp < 2 ^ 32
  · have hrow := rowBytes_toNat h
    rw [Nat.mod_eq_of_lt hwidth] at hrow
    have hfull := row_bits_of_block new.fmt hblock
    have hexact : Exact new.fmt new.rowBytes.toNat img.width.toNat :=
      exact_of_block new.fmt hblock (by omega)
    obtain ⟨x, y, hx, hy, hread⟩ :=
      far_byte_in_rows new.fmt hexact hw (by omega) (Nat.not_lt.mp hwrap)
    have := hin x y hx hy _ hread
    omega
  · obtain ⟨x, hx, hread⟩ :=
      far_byte_in_row new.fmt new.rowBytes.toNat hblock (Nat.not_lt.mp hwidth)
    have := hin x 0 hx hh _ hread
    omega

theorem Sized.read_inside {new : RawImage} (h : Sized new) {x y : Nat}
    (hx : x < new.width.toNat) (hy : y < new.height.toNat) :
    ∀ o ∈ readOffsets new.fmt new.rowBytes.toNat x y, o < new.lbuf.len.toNat := by
  intro o ho
  have hin := h.exact.inImage hx hy
  have hmem := block_in_image new.fmt h.exact.block hin
    (touched_in_block new.fmt h.exact.block h.len_lt hin (List.mem_append_left _ ho))
  have := h.total
  omega

theorem converted_iff (h : Converted img spec new written shift start)
    (hread : ReadFirst img spec new.fmt) (hblock : img.width.toNat % new.fmt.blockPixels = 0) :
    PixelsConverted img new shift ↔ ConvertSafe img new.fmt shift start := by
  by_cases hw : img.width.toNat = 0
  · exact ⟨fun _ => .inl hw, fun _ x y hx => absurd hx (by omega)⟩
  by_cases hh : img.height.toNat = 0
  · exact ⟨fun _ => .inr (.inl hh), fun _ x y _ hy => absurd hy (by omega)⟩
  -- below `2^32` bits the values decide
  have hvalues : img.width.toNat * img.height.toNat * new.fmt.bpp < 2 ^ 32 →
      ∀ x y, x < img.width.toNat → y < img.height.toNat →
        (new.fmt.getPixel new.data new.rowBytes.toNat x y =
          pixelValue img shift x y % 2 ^ new.fmt.bpp ↔ PixelSafe img new.fmt shift start x y) := by
    intro hbits x y hx hy
    have hs := converted_sized h hblock (by omega) hbits
    have hrow := rowBytes_toNat h
    rw [Nat.mod_eq_of_lt (rows_total (by omega) hbits).1] at hrow
    rw [converted_pixel h hread hs hx hy, hrow]
    exact painted_eq_iff img new.fmt shift start hx
  constructor
  · intro hp
    have hbits := bits_of_reads h hblock (by omega) (by omega)
      (fun x y hx hy => (hp x y hx hy).1)
    exact .inr (.inr ⟨hbits, fun x y hx hy => (hvalues hbits x y hx hy).mp (hp x y hx hy).2⟩)
  · rintro (hz | hz | ⟨hbits, hsafe⟩) x y hx hy
    · omega
    · omega
    · have hs := converted_sized h hblock (by omega) hbits
      refine ⟨?_, (hvalues hbits x y hx hy).mpr (hsafe x y hx hy)⟩
      exact hs.read_inside (by rw [h.width]; exact hx) (by rw [h.height]; exact hy)

end Converted

/-- Every destination pixel is the shifted source pixel exactly if no size wraps,
no excess bits change a left neighbour, and pixels that the setter has no case
for are right from the start. -/
theorem convert_pixels_iff (malloc : UInt32 → Option Memory) (img new : RawImage)
    (spec : ConvertSpec) (written : List (Nat × Nat)) (f : RawFormat) (lb : LBuf)
    (hf : targetFormat spec = some f)
    (hlb : destination malloc img spec.bpp spec.lbuf = .ok lb) (hread : ReadFirst img spec f)
    (hblock : img.width.toNat % f.blockPixels = 0)
    (h : rawimgLuaConvert malloc img spec = .ok (new, written)) :
    PixelsConverted img new (specShift img spec) ↔
      ConvertSafe img f (specShift img spec) lb.bytes := by
  have hfmt := convert_format h hf
  subst hfmt
  exact converted_iff (convert_converted h hlb) hread hblock

/-- Two 16-bit pixels, 0 and `0x1000`. -/
def spillSpec : ImgSpec where
  data := ⟨4, fun i => if i = 3 then 0x10 else 0⟩
  dataOffset := none
  width := 2
  height := 1
  bpp := 16
  endian := .given .little
  blackLevel := none
  cfaPattern := none
  activeArea := none

def toTwelveBits : ConvertSpec where
  bpp := 12
  endian := .given .big
  lbuf := .absent
  valupmod := .absent
  valdownmod := .given .no

/-- The second pixel's thirteenth bit becomes the first pixel's lowest. -/
theorem convert_pixel_spilled : ∃ img new written, rawimgLuaBindLbuf spillSpec = .ok img ∧
    rawimgLuaConvert (fun _ => some (fun _ => 0)) img toTwelveBits = .ok (new, written) ∧
    ¬PixelsConverted img new (specShift img toTwelveBits) := by
  refine ⟨_, _, _, rfl, rfl, ?_⟩
  intro h
  have hpixel := (h 0 0 (by decide) (by decide)).2
  revert hpixel
  decide

theorem convert_pixels_witness : ∃ img new written, rawimgLuaBindLbuf spillSpec = .ok img ∧
    rawimgLuaConvert (fun _ => some (fun _ => 0)) img toTwelveBits = .ok (new, written) ∧
    (PixelsConverted img new (specShift img toTwelveBits) ↔
      ConvertSafe img .raw12b (specShift img toTwelveBits) (fun _ => 0)) :=
  ⟨_, _, _, rfl, rfl, convert_pixels_iff (fun _ => some (fun _ => 0)) _ _ toTwelveBits _ .raw12b
    ⟨3, fun _ => 0⟩ rfl rfl (readFirst_of_ne (by simp [toTwelveBits])) (by decide) rfl⟩

/-! ## Up and back -/

/-- A value that fits the format is stored as it is, wherever the setter has a case. -/
theorem converted_pixel_fit {img new : RawImage} {spec : ConvertSpec} {written : List (Nat × Nat)}
    {shift : Int} {start : Memory} (h : Converted img spec new written shift start)
    (hown : spec.lbuf ≠ .own) (hs : Sized new) (hcase : ∀ x, HasCase new.fmt x)
    (hfit : ∀ x y, pixelValue img shift x y < 2 ^ new.fmt.bpp) {x y : Nat}
    (hx : x < img.width.toNat) (hy : y < img.height.toNat) :
    new.fmt.getPixel new.data new.rowBytes.toNat x y = pixelValue img shift x y := by
  rw [converted_pixel h (readFirst_of_ne hown) hs hx hy, painted, rowPart, if_pos ⟨hcase x, hx⟩,
    spill_of_lt _ _ (hfit (x + 1) y), ite_self, Nat.or_zero, Nat.mod_eq_of_lt (hfit x y)]

theorem bpp_le (f : RawFormat) : f.bpp ≤ 16 := by cases f <;> decide

theorem hasCase_of_ne {f : RawFormat} (h : f ≠ .raw14b) (x : Nat) : HasCase f x :=
  fun he => absurd he h

/-- The same image: format, sizes and packed bytes. -/
structure SameImage (img back : RawImage) : Prop where
  fmt : back.fmt = img.fmt
  width : back.width = img.width
  height : back.height = img.height
  rowBytes : back.rowBytes = img.rowBytes
  bytes : ∀ o, o < img.rowBytes.toNat * img.height.toNat → back.data o = img.data o

/-- Up with `valupmod`, back with the defaults: the pixels come back. -/
theorem pixel_back {img mid back : RawImage} {up down : ConvertSpec} {w w' : List (Nat × Nat)}
    {s s' : Memory} (h : Converted img up mid w (specShift img up) s)
    (h' : Converted mid down back w' (specShift mid down) s') (hown : up.lbuf ≠ .own)
    (hown' : down.lbuf ≠ .own) (hs : Sized mid) (hs' : Sized back) (hfmt : back.fmt = img.fmt)
    (hle : img.fmt.bpp ≤ mid.fmt.bpp) (hcase : ∀ x, HasCase mid.fmt x)
    (hcase' : ∀ x, HasCase back.fmt x) (hup : up.valupmod = .given .shift)
    (hdown : down.valupmod = .absent ∧ down.valdownmod = .absent) {x y : Nat}
    (hx : x < img.width.toNat) (hy : y < img.height.toNat) :
    back.fmt.getPixel back.data back.rowBytes.toNat x y =
      img.fmt.getPixel img.data img.rowBytes.toNat x y := by
  have hshift : specShift img up =
      shiftCount img.fmt.bpp mid.fmt.bpp .shift (chosen up.valdownmod .shift) := by
    simp only [specShift, chosen, hup, h.format]
  have hshift' : specShift mid down = shiftCount mid.fmt.bpp img.fmt.bpp .no .shift := by
    simp only [specShift, chosen, hdown.1, hdown.2, ← h'.format, hfmt]
  have hfit : ∀ a b, pixelValue img (specShift img up) a b < 2 ^ mid.fmt.bpp := by
    intro a b
    rw [hshift]
    exact shifted_lt (getPixel_lt _ _ _ _ _) (.inl hle)
  have hfit' : ∀ a b, pixelValue mid (specShift mid down) a b < 2 ^ back.fmt.bpp := by
    intro a b
    rw [hshift', hfmt]
    exact shifted_lt (getPixel_lt _ _ _ _ _) (.inr rfl)
  have hmid := converted_pixel_fit h hown hs hcase hfit hx hy
  have hback := converted_pixel_fit h' hown' hs' hcase' hfit' (by rw [h.width]; exact hx)
    (by rw [h.height]; exact hy)
  rw [hback, pixelValue, hmid, pixelValue, hshift, hshift']
  exact shifted_back (getPixel_lt _ _ _ _ _) hle (bpp_le _) _

theorem same_image {spec : ImgSpec} {img mid back : RawImage} {up down : ConvertSpec}
    {w w' : List (Nat × Nat)} {s s' : Memory} (hb : Bound spec img)
    (h : Converted img up mid w (specShift img up) s)
    (h' : Converted mid down back w' (specShift mid down) s') (hown : up.lbuf ≠ .own)
    (hown' : down.lbuf ≠ .own) (hfmt : back.fmt = img.fmt) (hsource : img.fmt ≠ .raw14b)
    (htarget : mid.fmt ≠ .raw14b) (hle : img.fmt.bpp ≤ mid.fmt.bpp)
    (hblock : img.width.toNat % mid.fmt.blockPixels = 0)
    (hbits : img.width.toNat * img.height.toNat * mid.fmt.bpp < 2 ^ 32)
    (hup : up.valupmod = .given .shift)
    (hdown : down.valupmod = .absent ∧ down.valdownmod = .absent) : SameImage img back := by
  have hwidth : back.width = img.width := h'.width.trans h.width
  have hheight : back.height = img.height := h'.height.trans h.height
  have hrow : back.rowBytes = img.rowBytes := by
    apply UInt32.toNat_inj.mp
    rw [rowBytes_toNat h', hb.row, rowSize_toNat, ← hb.width, h.width, hfmt]
  refine ⟨hfmt, hwidth, hheight, hrow, ?_⟩
  intro o ho
  have hheight0 : 0 < img.height.toNat := by
    apply Nat.pos_of_ne_zero
    intro hz
    rw [hz, Nat.mul_zero] at ho
    exact Nat.not_lt_zero o ho
  have hle' : img.width.toNat * img.height.toNat * img.fmt.bpp ≤
      img.width.toNat * img.height.toNat * mid.fmt.bpp := Nat.mul_le_mul_left _ hle
  have hs := converted_sized h hblock hheight0 hbits
  have hs' := converted_sized h' (by rw [h.width, hfmt, hb.width]; exact hb.block)
    (by rw [h.height]; exact hheight0) (by rw [h.width, h.height, hfmt]; omega)
  have hexact := hs'.exact
  have hlen := hs'.len_lt
  rw [hfmt, hrow, hwidth] at hexact
  rw [hrow, hheight] at hlen
  refine bytes_of_pixels img.fmt hexact.block hexact.bits hlen ?_ ho
  intro x y hx hy
  have hpixel := pixel_back h h' hown hown' hs hs' hfmt hle (hasCase_of_ne htarget)
    (hasCase_of_ne (by rw [hfmt]; exact hsource)) hup hdown hx hy
  rwa [hfmt, hrow] at hpixel

/-- A conversion with a known format and known options fails only for its destination. -/
theorem convert_accepts {malloc : UInt32 → Option Memory} {img : RawImage} {spec : ConvertSpec}
    {f : RawFormat} {lb : LBuf} (hf : targetFormat spec = some f)
    (hup : spec.valupmod ≠ .unknown) (hdown : spec.valdownmod ≠ .unknown)
    (hlb : destination malloc img spec.bpp spec.lbuf = .ok lb) :
    ∃ new written, rawimgLuaConvert malloc img spec = .ok (new, written) := by
  have hoption : ∀ (arg : OptionArg ValMod) (d : ValMod), arg ≠ .unknown →
      ∃ a, luTableCheckoption arg (some d) = .ok a := by
    intro arg d hne
    cases arg with
    | absent => exact ⟨d, rfl⟩
    | unknown => exact absurd rfl hne
    | given a => exact ⟨a, rfl⟩
  obtain ⟨up, hup⟩ := hoption spec.valupmod .no hup
  obtain ⟨down, hdown⟩ := hoption spec.valdownmod .shift hdown
  cases he : spec.endian with
  | absent => simp [targetFormat, he] at hf
  | unknown => simp [targetFormat, he] at hf
  | given e =>
    simp only [targetFormat, he] at hf
    simp only [rawimgLuaConvert, bind, Except.bind, luTableCheckoption, he, hf]
    simp only [luTableCheckoption] at hup hdown
    simp only [hup, hdown, hlb]
    exact ⟨_, _, rfl⟩

theorem destination_congr (malloc : UInt32 → Option Memory) {img mid : RawImage} (bpp : UInt32)
    {arg : LbufArg} (hown : arg ≠ .own) (hw : mid.width = img.width)
    (hh : mid.height = img.height) :
    destination malloc mid bpp arg = destination malloc img bpp arg := by
  have hsize : newSize mid bpp = newSize img bpp := by simp only [newSize, hw, hh]
  cases arg with
  | own => exact absurd rfl hown
  | absent => simp only [destination, hsize]
  | other lb => simp only [destination, hsize]

/-- Converting up with `valupmod = shift` and back with the default options: both
conversions go through if their buffers can be had, and the packed bytes of the
source come back, whatever was in the buffers. -/
theorem convert_up_and_back (malloc malloc' : UInt32 → Option Memory) (spec : ImgSpec)
    (img : RawImage) (up down : ConvertSpec) (f : RawFormat)
    (hbound : rawimgLuaBindLbuf spec = .ok img) (hsource : img.fmt ≠ .raw14b)
    (hf : targetFormat up = some f) (htarget : f ≠ .raw14b) (hle : img.fmt.bpp ≤ f.bpp)
    (hblock : img.width.toNat % f.blockPixels = 0)
    (hbits : img.width.toNat * img.height.toNat * f.bpp < 2 ^ 32)
    (hup : up.valupmod = .given .shift) (hknown : up.valdownmod ≠ .unknown)
    (hown : up.lbuf ≠ .own) (hback : targetFormat down = some img.fmt)
    (hdown : down.valupmod = .absent ∧ down.valdownmod = .absent) (hown' : down.lbuf ≠ .own) :
    (∀ mid written back written', rawimgLuaConvert malloc img up = .ok (mid, written) →
      rawimgLuaConvert malloc' mid down = .ok (back, written') → SameImage img back) ∧
    ((∃ lb, destination malloc img up.bpp up.lbuf = .ok lb) →
      (∃ lb, destination malloc' img down.bpp down.lbuf = .ok lb) →
      ∃ mid written back written', rawimgLuaConvert malloc img up = .ok (mid, written) ∧
        rawimgLuaConvert malloc' mid down = .ok (back, written')) := by
  constructor
  · intro mid written back written' h h'
    obtain ⟨_, _, _, lb, _, _, _, _, hlb, _⟩ := convert_ok h
    obtain ⟨_, _, _, lb', _, _, _, _, hlb', _⟩ := convert_ok h'
    have hmid := convert_format h hf
    subst hmid
    exact same_image (bind_lbuf_bound hbound) (convert_converted h hlb)
      (convert_converted h' hlb') hown hown' (convert_format h' hback) hsource htarget hle hblock
      hbits hup hdown
  · rintro ⟨lb, hlb⟩ ⟨lb', hlb'⟩
    obtain ⟨mid, written, h⟩ := convert_accepts hf (by rw [hup]; simp) hknown hlb
    have hc := convert_converted h hlb
    rw [← destination_congr malloc' down.bpp hown' hc.width hc.height] at hlb'
    obtain ⟨back, written', h'⟩ := convert_accepts hback (by rw [hdown.1]; simp)
      (by rw [hdown.2]; simp) hlb'
    exact ⟨mid, written, back, written', h, h'⟩

/-- Up to 14 bits little endian, into a buffer full of ones. -/
def toFourteenBits : ConvertSpec where
  bpp := 14
  endian := .given .little
  lbuf := .absent
  valupmod := .given .shift
  valdownmod := .absent

theorem convert_up_and_back_witness : ∃ img mid written back written',
    rawimgLuaBindLbuf smallSpec = .ok img ∧
    rawimgLuaConvert (fun _ => some (fun _ => 255)) img toFourteenBits = .ok (mid, written) ∧
    rawimgLuaConvert (fun _ => some (fun _ => 170)) mid toTenBits = .ok (back, written') ∧
    SameImage img back :=
  ⟨_, _, _, _, _, rfl, rfl, rfl,
    (convert_up_and_back (fun _ => some (fun _ => 255)) (fun _ => some (fun _ => 170)) smallSpec _
      toFourteenBits toTenBits .raw14l rfl (by decide) rfl (by decide) (by decide) (by decide)
      (by decide) rfl (by simp [toFourteenBits]) (by simp [toFourteenBits]) rfl ⟨rfl, rfl⟩
      (by simp [toTenBits])).1 _ _ _ _ rfl rfl⟩

end RawConvertPixel
