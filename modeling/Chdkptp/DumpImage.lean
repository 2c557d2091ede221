import Chdkptp.RawConvertPixel
import Chdkptp.LittleEndian

/-!
# Dumping an image as a PGM file

`dump_image` of `dng.lua`. The samples come from `img:convert`, which goes by `valupmod`; the
maximum that the header declares is worked out in Lua, which goes by `upvalmod`.
-/

namespace DumpImage

open ByteMemory RawAccess RawLayout RawPixel RawPaint Lbuf Rawimg RawConvert RawConvertPixel
  LittleEndian BoundedLoop

/-! ## The model -/

/-- The option table; `convert` gets it as well. -/
structure DumpOpts where
  bpp : Option Nat
  endian : OptionArg Endian
  pgm : Bool
  lbuf : LbufArg
  valupmod : OptionArg ValMod
  valdownmod : OptionArg ValMod
  /-- a field without a documented meaning -/
  upvalmod : Option String

/-- The file that is opened: a message if it cannot be, and whether writing succeeds. -/
structure FileIo where
  openError : Option String
  writes : Bool

structure PgmHeader where
  width : Nat
  height : Nat
  maxval : Nat
  deriving DecidableEq, Repr

def PgmHeader.text (header : PgmHeader) : String :=
  "P5\n" ++ toString header.width ++ "\n" ++ toString header.height ++ "\n" ++
    toString header.maxval ++ "\n"

/-- What has been written: a header, if one was asked for, and the bytes behind it. -/
structure DumpFile where
  header : Option PgmHeader
  body : List UInt8

def DumpFile.contents (file : DumpFile) : List UInt8 :=
  (file.header.elim [] fun header => header.text.toUTF8.toList) ++ file.body

namespace DumpOpts

variable (opts : DumpOpts)

def outBpp : Nat := opts.bpp.getD 8

/-- A PGM of 16 bits is big endian by default. -/
def outEndian : OptionArg Endian :=
  match opts.endian with
  | .absent => .given (if opts.pgm && opts.outBpp = 16 then .big else .little)
  | endian => endian

def convertSpec : ConvertSpec where
  bpp := UInt32.ofNat opts.outBpp
  endian := opts.outEndian
  lbuf := opts.lbuf
  valupmod := opts.valupmod
  valdownmod := opts.valdownmod

end DumpOpts

/-- The maximum value that should appear. -/
def maxval (bpp outBpp : Nat) (upvalmod : Option String) : Nat :=
  if bpp > outBpp then 2 ^ outBpp - 1
  else if upvalmod = some "shift" then 2 ^ outBpp - 1
  else 2 ^ bpp - 1

/-- `lb:fwrite(fh)`, which does not write an empty lbuf. -/
def fwrite (io : FileIo) (lb : LBuf) : Except String (List UInt8) :=
  if lb.len = 0 then .error "invalid offset"
  else if io.writes then .ok (slice lb.bytes 0 lb.len.toNat)
  else .error "write failed"

/-- `dump_image`: an error is raised, or false is returned with a message, or the file is
written. -/
def dumpImage (malloc : UInt32 → Option Memory) (img : Option RawImage) (io : FileIo)
    (opts : DumpOpts) : Except String (Except String DumpFile) :=
  match img with
  | none => .ok (.error "image data not set")
  | some img =>
    if opts.pgm ∧ opts.outBpp ≠ 8 ∧ opts.outBpp ≠ 16 then
      .ok (.error "only 8 and 16 bpp supported for pgm")
    else do
      let (outimg, _) ← rawimgLuaConvert malloc img opts.convertSpec
      match io.openError with
      | some err => return .error ("open failed " ++ err)
      | none =>
        let header := if opts.pgm then
          some ⟨outimg.width.toNat, outimg.height.toNat,
            maxval img.fmt.bpp outimg.fmt.bpp opts.upvalmod⟩
        else none
        match opts.lbuf with
        | .absent => return .ok ⟨header, ← fwrite io outimg.lbuf⟩
        -- `convert` returns the option table in the place of the lbuf
        | _ => throw "attempt to call method 'fwrite' (a nil value)"

/-! ## Samples -/

/-- A sample of a file with so many bytes for each. -/
def sampleAt (size : Nat) (endian : Endian) (body : List UInt8) (k : Nat) : Nat :=
  match endian with
  | .little => natOf ((body.drop (k * size)).take size)
  | .big => natOf ((body.drop (k * size)).take size).reverse

section Samples

variable {m : Memory}

theorem slice_inside {a n len : Nat} (h : a + n ≤ len) :
    ((slice m 0 len).drop a).take n = slice m a n := by
  apply List.ext_getElem
  · simp
    omega
  · intro i hi hi'
    simp [slice]

theorem plain_left {byte n : Nat} (hn : n ≤ 8) (b : UInt8) :
    (plain byte (.left n)).eval b = b.toNat * 2 ^ n := by
  have hb := b.toNat_lt
  have hpow : 2 ^ n ≤ 2 ^ 8 := Nat.pow_le_pow_right (by decide) hn
  have hbyte : b.toNat &&& 0xff = b.toNat := by
    rw [show (0xff : Nat) = 2 ^ 8 - 1 from rfl, Nat.and_two_pow_sub_one_eq_mod]
    exact Nat.mod_eq_of_lt hb
  have hsmall : b.toNat * 2 ^ n < 2 ^ 32 := by
    calc b.toNat * 2 ^ n < 2 ^ 8 * 2 ^ n := Nat.mul_lt_mul_of_pos_right hb (Nat.two_pow_pos n)
      _ ≤ 2 ^ 8 * 2 ^ 8 := Nat.mul_le_mul_left _ hpow
      _ ≤ 2 ^ 32 := by decide
  unfold plain Load.eval Shift.apply
  dsimp only
  rw [hbyte, Nat.shiftLeft_eq, show (0xffffffff : Nat) = 2 ^ 32 - 1 from rfl, Nat.and_comm,
    Nat.and_two_pow_sub_one_eq_mod]
  exact Nat.mod_eq_of_lt hsmall

theorem or_bytes (low high : UInt8) :
    low.toNat ||| high.toNat * 2 ^ 8 = low.toNat + 256 * high.toNat := by
  have hor := Nat.shiftLeft_add_eq_or_of_lt low.toNat_lt high.toNat
  rw [Nat.or_comm, ← Nat.shiftLeft_eq, ← hor, Nat.shiftLeft_eq]
  omega

end Samples

/-! ## Pixels of 16 bits

Sizes are `unsigned`, so in an image of `2^32` bits or more a pixel may be stored over an
earlier one. -/

section Cells

variable {endian : Endian} {f : RawFormat} {m : Memory} {rowBytes len width height x y x' y' : Nat}

theorem find_sixteen (hf : rawimgFindFormat 16 endian = some f) :
    (endian = .little ∧ f = .raw16l) ∨ (endian = .big ∧ f = .raw16b) := by
  cases endian with
  | little =>
    cases hf
    exact .inl ⟨rfl, rfl⟩
  | big =>
    cases hf
    exact .inr ⟨rfl, rfl⟩

/-- A pixel is two bytes at an even address. -/
theorem addr_sixteen (hf : rawimgFindFormat 16 endian = some f) (hrow : rowBytes % 2 = 0) :
    f.addr rowBytes x y 0 % 2 = 0 ∧ f.addr rowBytes x y 1 = f.addr rowBytes x y 0 + 1 := by
  have hrows : y * rowBytes % 2 = 0 := by
    rw [Nat.mul_mod, hrow, Nat.mul_zero, Nat.zero_mod]
  obtain ⟨_, rfl⟩ | ⟨_, rfl⟩ := find_sixteen hf
  · constructor
    · simp only [RawFormat.addr, blockAddr]
      omega
    · simp only [RawFormat.addr, blockAddr]
  · constructor
    · simp only [RawFormat.addr, indexAddr]
      omega
    · simp only [RawFormat.addr, indexAddr]
      omega

theorem readOffsets_sixteen (hf : rawimgFindFormat 16 endian = some f) {o : Nat} :
    o ∈ readOffsets f rowBytes x y ↔ o = f.addr rowBytes x y 0 ∨ o = f.addr rowBytes x y 1 := by
  obtain ⟨_, rfl⟩ | ⟨_, rfl⟩ := find_sixteen hf <;>
    simp [readOffsets, RawFormat.loads, load16l, load16b, plain]

theorem writeOffsets_sixteen (hf : rawimgFindFormat 16 endian = some f) {o : Nat} :
    o ∈ writeOffsets f rowBytes x y ↔ o = f.addr rowBytes x y 0 ∨ o = f.addr rowBytes x y 1 := by
  obtain ⟨_, rfl⟩ | ⟨_, rfl⟩ := find_sixteen hf <;>
    simp [writeOffsets, RawFormat.stores, store16l, store16b, assign]

/-- A sample of the file is the pixel at its place. -/
theorem sample_pixel (hf : rawimgFindFormat 16 endian = some f) (hrow : rowBytes % 2 = 0)
    {k : Nat} (haddr : f.addr rowBytes x y 0 = k * 2) (hlen : k * 2 + 2 ≤ len) :
    sampleAt 2 endian (slice m 0 len) k = f.getPixel m rowBytes x y := by
  have hnext := (@addr_sixteen _ _ _ x y hf hrow).2
  rw [haddr] at hnext
  unfold sampleAt
  rw [slice_inside hlen]
  obtain ⟨rfl, rfl⟩ | ⟨rfl, rfl⟩ := find_sixteen hf
  · have hpixel : RawFormat.raw16l.getPixel m rowBytes x y =
        (m (k * 2)).toNat + 256 * (m (k * 2 + 1)).toNat := by
      rw [RawFormat.getPixel_eq]
      change 0 ||| (plain 0 (.left 0)).eval (m (RawFormat.raw16l.addr rowBytes x y 0)) |||
        (plain 1 (.left 8)).eval (m (RawFormat.raw16l.addr rowBytes x y 1)) = _
      rw [haddr, hnext, plain_left (by decide), plain_left (by decide), Nat.zero_or, Nat.pow_zero,
        Nat.mul_one, or_bytes]
    rw [hpixel]
    simp [slice, natOf, List.range_succ]
  · have hpixel : RawFormat.raw16b.getPixel m rowBytes x y =
        (m (k * 2 + 1)).toNat + 256 * (m (k * 2)).toNat := by
      rw [RawFormat.getPixel_eq]
      change 0 ||| (plain 0 (.left 8)).eval (m (RawFormat.raw16b.addr rowBytes x y 0)) |||
        (plain 1 (.left 0)).eval (m (RawFormat.raw16b.addr rowBytes x y 1)) = _
      rw [haddr, hnext, plain_left (by decide), plain_left (by decide), Nat.zero_or, Nat.pow_zero,
        Nat.mul_one, Nat.or_comm, or_bytes]
    rw [hpixel]
    simp [slice, natOf, List.range_succ]

/-- Storing a pixel at another address. -/
theorem pixel_elsewhere (hf : rawimgFindFormat 16 endian = some f) (hrow : rowBytes % 2 = 0)
    (hne : f.addr rowBytes x' y' 0 ≠ f.addr rowBytes x y 0) (v : Nat) :
    f.getPixel (f.setPixel m rowBytes x' y' v) rowBytes x y = f.getPixel m rowBytes x y := by
  have hplace := @addr_sixteen _ _ _ x y hf hrow
  have hplace' := @addr_sixteen _ _ _ x' y' hf hrow
  apply getPixel_congr
  intro o ho
  apply setPixel_outside
  rw [readOffsets_sixteen hf] at ho
  rw [writeOffsets_sixteen hf]
  omega

/-- A pixel that is stored inside the lbuf and that no later pixel is stored over. -/
def Lasts (f : RawFormat) (rowBytes len width height x y : Nat) : Prop :=
  f.addr rowBytes x y 0 + 2 ≤ len ∧ ∀ x' y', x' < width → y' < height →
    (y < y' ∨ (y = y' ∧ x < x')) → f.addr rowBytes x' y' 0 ≠ f.addr rowBytes x y 0

/-- What lasts is what was stored. -/
theorem paint_lasting (hf : rawimgFindFormat 16 endian = some f) (hrow : rowBytes % 2 = 0)
    (value : Nat → Nat → Nat) (hx : x < width) (hy : y < height)
    (hlast : Lasts f rowBytes len width height x y) :
    f.getPixel (paint f rowBytes value width height m) rowBytes x y = value x y % 2 ^ 16 := by
  have hbpp := rawimgFindFormat_bpp hf
  have hcase : HasCase f x := by
    obtain ⟨_, rfl⟩ | ⟨_, rfl⟩ := find_sixteen hf <;> exact hasCase_of_ne (by decide) x
  apply forUp_left _ (fun t => f.getPixel t rowBytes x y = value x y % 2 ^ 16) hy
  · intro t
    apply forUp_left _ (fun t => f.getPixel t rowBytes x y = value x y % 2 ^ 16) hx
    · intro t
      rw [getPixel_setPixel, if_pos hcase, hbpp]
    · intro x' t hlater hx' ht
      rw [pixel_elsewhere hf hrow (hlast.2 x' y hx' hy (.inr ⟨rfl, hlater⟩)), ht]
  · intro y' t hlater hy' ht
    apply forUp_invariant _ (fun _ t => f.getPixel t rowBytes x y = value x y % 2 ^ 16) _ _ ht
    intro x' t hx' ht
    rw [pixel_elsewhere hf hrow (hlast.2 x' y' hx' hy' (.inl hlater)), ht]

/-- Below `2^32` bits pixels stand one behind the other. -/
theorem addr_in_rows (hf : rawimgFindFormat 16 endian = some f) (hx : x < width) (hy : y < height)
    (hsmall : width * height * 16 < 2 ^ 32) :
    f.addr (width * 16 % 2 ^ 32 / 8) x y 0 = (y * width + x) * 2 := by
  have hend : (y + 1) * width ≤ width * height := by
    rw [Nat.mul_comm width]
    exact Nat.mul_le_mul_right _ hy
  have hrow : width * 16 % 2 ^ 32 / 8 = width * 2 := by
    have hle : width ≤ width * height := Nat.le_mul_of_pos_right _ (by omega)
    omega
  have hplace : y * (width * 2) = y * width * 2 := (Nat.mul_assoc _ _ _).symm
  rw [Nat.add_mul, Nat.one_mul] at hend
  obtain ⟨_, rfl⟩ | ⟨_, rfl⟩ := find_sixteen hf
  · simp only [RawFormat.addr, blockAddr]
    rw [hrow, hplace]
    omega
  · simp only [RawFormat.addr, indexAddr]
    rw [hrow, hplace]
    omega

/-- There every pixel lasts. -/
theorem lasts_of_small (hf : rawimgFindFormat 16 endian = some f) (hx : x < width)
    (hy : y < height) (hsmall : width * height * 16 < 2 ^ 32) :
    Lasts f (width * 16 % 2 ^ 32 / 8) (width * height * 16 % 2 ^ 32 / 8) width height x y := by
  have haddr := addr_in_rows hf hx hy hsmall
  have hend : (y + 1) * width ≤ width * height := by
    rw [Nat.mul_comm width]
    exact Nat.mul_le_mul_right _ hy
  rw [Nat.add_mul, Nat.one_mul] at hend
  constructor
  · omega
  · intro x' y' hx' hy' hlater
    rw [addr_in_rows hf hx' hy' hsmall, haddr]
    rcases hlater with hrow | ⟨rfl, hcolumn⟩
    · have hnext : (y + 1) * width ≤ y' * width := Nat.mul_le_mul_right _ hrow
      rw [Nat.add_mul, Nat.one_mul] at hnext
      omega
    · omega

/-- Every sample of the lbuf has been stored. -/
theorem exists_stored (hf : rawimgFindFormat 16 endian = some f) {k : Nat}
    (hlen : k * 2 + 2 ≤ width * height * 16 % 2 ^ 32 / 8) :
    ∃ x y, x < width ∧ y < height ∧ f.addr (width * 16 % 2 ^ 32 / 8) x y 0 = k * 2 := by
  have hcells : k < width * height := by omega
  have hheight : 0 < height := Nat.pos_of_mul_pos_left (Nat.lt_of_le_of_lt (Nat.zero_le k) hcells)
  by_cases hwrap : width * 16 < 2 ^ 32
  · have hrow : width * 16 % 2 ^ 32 / 8 = width * 2 := by omega
    have hwidth : 0 < width := Nat.pos_of_mul_pos_right (Nat.lt_of_le_of_lt (Nat.zero_le k) hcells)
    have hdiv := Nat.div_add_mod' k width
    have hplace : k / width * (width * 2) = k / width * width * 2 := (Nat.mul_assoc _ _ _).symm
    refine ⟨k % width, k / width, Nat.mod_lt _ hwidth, Nat.div_lt_of_lt_mul hcells, ?_⟩
    obtain ⟨_, rfl⟩ | ⟨_, rfl⟩ := find_sixteen hf
    · simp only [RawFormat.addr, blockAddr]
      rw [hrow, hplace]
      omega
    · simp only [RawFormat.addr, indexAddr]
      rw [hrow, hplace]
      omega
  · -- the first row alone fills the lbuf
    refine ⟨k, 0, by omega, hheight, ?_⟩
    obtain ⟨_, rfl⟩ | ⟨_, rfl⟩ := find_sixteen hf
    · simp only [RawFormat.addr, blockAddr]
      omega
    · simp only [RawFormat.addr, indexAddr]
      omega

/-- The last pixel that is stored at an address. -/
theorem exists_lasting (hx : x < width) (hy : y < height) (hlen : f.addr rowBytes x y 0 + 2 ≤ len) :
    ∃ x' y', x' < width ∧ y' < height ∧ f.addr rowBytes x' y' 0 = f.addr rowBytes x y 0 ∧
      Lasts f rowBytes len width height x' y' := by
  generalize haddr : f.addr rowBytes x y 0 = a at hlen ⊢
  -- by the number of pixels behind
  induction hn : width * height - (y * width + x) using Nat.strongRecOn generalizing x y with
  | ind n ih =>
    by_cases hlater : ∃ x' y', x' < width ∧ y' < height ∧ (y < y' ∨ (y = y' ∧ x < x')) ∧
        f.addr rowBytes x' y' 0 = a
    · obtain ⟨x', y', hx', hy', hlt, haddr'⟩ := hlater
      have hend : (y' + 1) * width ≤ height * width := Nat.mul_le_mul_right _ hy'
      have hmore : y * width + x < y' * width + x' := by
        rcases hlt with hrow | ⟨rfl, hcolumn⟩
        · have hnext : (y + 1) * width ≤ y' * width := Nat.mul_le_mul_right _ hrow
          rw [Nat.add_mul, Nat.one_mul] at hnext
          omega
        · omega
      rw [Nat.add_mul, Nat.one_mul, Nat.mul_comm height] at hend
      exact ih (width * height - (y' * width + x')) (by omega) hx' hy' haddr' rfl
    · refine ⟨x, y, hx, hy, haddr, ?_, ?_⟩
      · rw [haddr]
        exact hlen
      · intro x' y' hx' hy' hlt he
        exact hlater ⟨x', y', hx', hy', hlt, he.trans haddr⟩

end Cells

/-! ## The maximum in the header -/

/-- What a PGM without an error came from. -/
structure Dumped (malloc : UInt32 → Option Memory) (img : RawImage) (opts : DumpOpts)
    (file : DumpFile) (outimg : RawImage) (written : List (Nat × Nat)) : Prop where
  depth : opts.outBpp = 8 ∨ opts.outBpp = 16
  convert : rawimgLuaConvert malloc img opts.convertSpec = .ok (outimg, written)
  header : file.header = some ⟨outimg.width.toNat, outimg.height.toNat,
    maxval img.fmt.bpp outimg.fmt.bpp opts.upvalmod⟩
  lbuf : opts.lbuf = .absent
  body : file.body = slice outimg.lbuf.bytes 0 outimg.lbuf.len.toNat

theorem fwrite_ok {io : FileIo} {lb : LBuf} {bytes : List UInt8} (h : fwrite io lb = .ok bytes) :
    bytes = slice lb.bytes 0 lb.len.toNat := by
  unfold fwrite at h
  split at h
  · cases h
  · split at h
    · cases h
      rfl
    · cases h

theorem dumpImage_ok {malloc : UInt32 → Option Memory} {img : RawImage} {io : FileIo}
    {opts : DumpOpts} {file : DumpFile} (hpgm : opts.pgm = true)
    (h : dumpImage malloc (some img) io opts = .ok (.ok file)) :
    ∃ outimg written, Dumped malloc img opts file outimg written := by
  simp only [dumpImage, bind, Except.bind, pure, Except.pure, hpgm, true_and, if_true] at h
  split at h
  · cases h
  · rename_i hdepth
    split at h
    · cases h
    · rename_i out hconvert
      cases hopen : io.openError with
      | some err =>
        rw [hopen] at h
        cases h
      | none =>
        rw [hopen] at h
        dsimp only at h
        cases hlbuf : opts.lbuf with
        | own =>
          rw [hlbuf] at h
          cases h
        | other lb =>
          rw [hlbuf] at h
          cases h
        | absent =>
          rw [hlbuf] at h
          dsimp only at h
          split at h
          · cases h
          · rename_i bytes hwrite
            cases h
            exact ⟨out.1, out.2, by omega, hconvert, rfl, hlbuf, fwrite_ok hwrite⟩

/-- The byte order in force and the format that it selects. -/
theorem Dumped.format {malloc : UInt32 → Option Memory} {img outimg : RawImage} {opts : DumpOpts}
    {file : DumpFile} {written : List (Nat × Nat)}
    (h : Dumped malloc img opts file outimg written) :
    ∃ endian, opts.outEndian = .given endian ∧
      rawimgFindFormat opts.outBpp endian = some outimg.fmt ∧
      targetFormat opts.convertSpec = some outimg.fmt := by
  have hbpp : opts.convertSpec.bpp.toNat = opts.outBpp := by
    change (UInt32.ofNat opts.outBpp).toNat = opts.outBpp
    rcases h.depth with hdepth | hdepth <;> rw [hdepth] <;> rfl
  obtain ⟨endian, _, _, _, hendian, _, _, hfmt, _⟩ := convert_ok h.convert
  have hgiven : opts.outEndian = .given endian := by
    change luTableCheckoption opts.outEndian none = .ok endian at hendian
    cases harg : opts.outEndian with
    | absent =>
      rw [harg] at hendian
      cases hendian
    | unknown =>
      rw [harg] at hendian
      cases hendian
    | given e =>
      rw [harg] at hendian
      cases hendian
      rfl
  have htarget : targetFormat opts.convertSpec = some outimg.fmt := by
    unfold targetFormat
    rw [show opts.convertSpec.endian = .given endian from hgiven]
    exact hfmt
  rw [hbpp] at hfmt
  exact ⟨endian, hgiven, hfmt, htarget⟩

theorem sampleAt_lt (size : Nat) (endian : Endian) (body : List UInt8) (k : Nat) :
    sampleAt size endian body k < 256 ^ size := by
  have hlen : ((body.drop (k * size)).take size).length ≤ size := List.length_take_le _ _
  have hpow : 256 ^ ((body.drop (k * size)).take size).length ≤ 256 ^ size :=
    Nat.pow_le_pow_right (by decide) hlen
  cases endian with
  | little => exact Nat.lt_of_lt_of_le (natOf_lt _) hpow
  | big =>
    have hlt := natOf_lt ((body.drop (k * size)).take size).reverse
    rw [List.length_reverse] at hlt
    exact Nat.lt_of_lt_of_le hlt hpow

theorem maxval_full {n n' : Nat} {upvalmod : Option String}
    (h : n' ≤ n ∨ upvalmod = some "shift") : maxval n n' upvalmod = 2 ^ n' - 1 := by
  unfold maxval
  by_cases hdown : n > n'
  · rw [if_pos hdown]
  · rw [if_neg hdown]
    by_cases hup : upvalmod = some "shift"
    · rw [if_pos hup]
    · rw [if_neg hup]
      have hsame : n = n' := by
        rcases h with hle | hshift
        · omega
        · exact absurd hshift hup
      rw [hsame]

theorem maxval_source {n n' : Nat} {upvalmod : Option String} (h : n < n')
    (hup : upvalmod ≠ some "shift") : maxval n n' upvalmod = 2 ^ n - 1 := by
  unfold maxval
  rw [if_neg (by omega), if_neg hup]

section Sixteen

variable {malloc : UInt32 → Option Memory} {img outimg : RawImage} {opts : DumpOpts}
  {file : DumpFile} {written : List (Nat × Nat)} {endian : Endian} {x y : Nat}

/-- The sizes of an image of 16 bits. -/
theorem Dumped.sizes (h : Dumped malloc img opts file outimg written)
    (hf : rawimgFindFormat 16 endian = some outimg.fmt) :
    outimg.rowBytes.toNat = img.width.toNat * 16 % 2 ^ 32 / 8 ∧
    outimg.lbuf.len.toNat = img.width.toNat * img.height.toNat * 16 % 2 ^ 32 / 8 := by
  obtain ⟨_, _, _, _, _, _, _, _, _, hc⟩ := convert_ok h.convert
  have hrow := rowBytes_toNat hc
  have hlen := lbuf_toNat hc
  rw [rawimgFindFormat_bpp hf] at hrow hlen
  exact ⟨hrow, hlen⟩

/-- A pixel that lasts is in the file. -/
theorem Dumped.lasting_sample (h : Dumped malloc img opts file outimg written)
    (hf : rawimgFindFormat 16 endian = some outimg.fmt) (hx : x < img.width.toNat)
    (hy : y < img.height.toNat) {k : Nat}
    (hlast : Lasts outimg.fmt (img.width.toNat * 16 % 2 ^ 32 / 8)
      (img.width.toNat * img.height.toNat * 16 % 2 ^ 32 / 8) img.width.toNat img.height.toNat x y)
    (hk : outimg.fmt.addr (img.width.toNat * 16 % 2 ^ 32 / 8) x y 0 = k * 2) :
    sampleAt 2 endian file.body k =
      pixelValue img (specShift img opts.convertSpec) x y % 2 ^ 16 := by
  obtain ⟨hrow, hlen⟩ := h.sizes hf
  obtain ⟨_, _, _, lb, _, _, _, _, hlb, _⟩ := convert_ok h.convert
  have hc := convert_converted h.convert hlb
  have hown : opts.convertSpec.lbuf ≠ .own := by
    rw [show opts.convertSpec.lbuf = .absent from h.lbuf]
    exact LbufArg.noConfusion
  have heven : outimg.rowBytes.toNat % 2 = 0 := by omega
  have hdata : outimg.data = outimg.lbuf.bytes := by
    funext i
    simp [RawImage.data, hc.offset]
  rw [← hrow, ← hlen] at hlast
  rw [← hrow] at hk
  have hin := hlast.1
  rw [hk] at hin
  rw [h.body, sample_pixel hf heven hk hin, ← hdata,
    converted_bytes hc (readFirst_of_ne hown)]
  exact paint_lasting hf heven _ hx hy hlast

/-- The value behind a sample of 16 bits. -/
theorem value_of_sixteen (h16 : opts.outBpp = 16) (hlow : img.fmt.bpp < 16) :
    pixelValue img (specShift img opts.convertSpec) x y % 2 ^ 16 =
      if chosen opts.valupmod .no = .shift then
        img.fmt.getPixel img.data img.rowBytes.toNat x y * 2 ^ (16 - img.fmt.bpp)
      else img.fmt.getPixel img.data img.rowBytes.toNat x y := by
  have hpixel := getPixel_lt img.fmt img.data img.rowBytes.toNat x y
  have hspec : specShift img opts.convertSpec =
      shiftCount img.fmt.bpp 16 (chosen opts.valupmod .no) (chosen opts.valdownmod .shift) := by
    unfold specShift
    rw [show opts.convertSpec.bpp = UInt32.ofNat opts.outBpp from rfl, h16]
    rfl
  unfold pixelValue
  rw [hspec]
  cases chosen opts.valupmod .no with
  | no =>
    have hwide : 2 ^ img.fmt.bpp ≤ 2 ^ 16 := Nat.pow_le_pow_right (by decide) (Nat.le_of_lt hlow)
    rw [shifted_no (Nat.le_of_lt hlow), if_neg (by decide)]
    exact Nat.mod_eq_of_lt (Nat.lt_of_lt_of_le hpixel hwide)
  | shift =>
    have hfits := shiftLeft_lt hpixel (Nat.le_of_lt hlow)
    rw [shifted_up hlow, if_pos rfl, Nat.mod_eq_of_lt (Nat.lt_trans hfits (by decide)),
      Nat.mod_eq_of_lt hfits, Nat.shiftLeft_eq]

/-- Every sample of 16 bits is a pixel that lasts. -/
theorem Dumped.exists_pixel (h : Dumped malloc img opts file outimg written)
    (hf : rawimgFindFormat 16 endian = some outimg.fmt) {k : Nat}
    (hk : (k + 1) * 2 ≤ file.body.length) :
    ∃ x y, x < img.width.toNat ∧ y < img.height.toNat ∧
      Lasts outimg.fmt (img.width.toNat * 16 % 2 ^ 32 / 8)
        (img.width.toNat * img.height.toNat * 16 % 2 ^ 32 / 8) img.width.toNat img.height.toNat
        x y ∧
      outimg.fmt.addr (img.width.toNat * 16 % 2 ^ 32 / 8) x y 0 = k * 2 := by
  have hbody : file.body.length = img.width.toNat * img.height.toNat * 16 % 2 ^ 32 / 8 := by
    rw [h.body, ← (h.sizes hf).2]
    simp [slice]
  rw [hbody, Nat.add_mul, Nat.one_mul] at hk
  obtain ⟨x, y, hx, hy, haddr⟩ := exists_stored hf hk
  obtain ⟨x', y', hx', hy', haddr', hlast⟩ := exists_lasting hx hy (haddr ▸ hk)
  exact ⟨x', y', hx', hy', hlast, haddr'.trans haddr⟩

end Sixteen

/-- Every sample of the file is at most the maximum of its header. -/
def SamplesDeclared (opts : DumpOpts) (file : DumpFile) : Prop :=
  ∃ header endian, file.header = some header ∧ opts.outEndian = .given endian ∧
    ∀ k, (k + 1) * (opts.outBpp / 8) ≤ file.body.length →
      sampleAt (opts.outBpp / 8) endian file.body k ≤ header.maxval

/-- The values are not shifted up to 16 bits, or the header is told so under the name
`upvalmod`, or they still fit the source's depth. -/
def SamplesFit (img : RawImage) (opts : DumpOpts) : Prop :=
  opts.outBpp = 16 → img.fmt.bpp < 16 → chosen opts.valupmod .no = .shift →
    opts.upvalmod ≠ some "shift" →
    ∀ f, targetFormat opts.convertSpec = some f →
    ∀ x y, x < img.width.toNat → y < img.height.toNat →
      Lasts f (img.width.toNat * 16 % 2 ^ 32 / 8)
        (img.width.toNat * img.height.toNat * 16 % 2 ^ 32 / 8) img.width.toNat img.height.toNat
        x y →
      img.fmt.getPixel img.data img.rowBytes.toNat x y * 2 ^ (16 - img.fmt.bpp) <
        2 ^ img.fmt.bpp

/-- `dump_image` looks for `upvalmod` where `convert` looks for `valupmod`, so the maximum of the
header holds for the samples of a PGM exactly if no value is shifted above the source's depth. -/
theorem dumped_samples_iff (malloc : UInt32 → Option Memory) (img : RawImage) (io : FileIo)
    (opts : DumpOpts) (file : DumpFile) (hpgm : opts.pgm = true)
    (h : dumpImage malloc (some img) io opts = .ok (.ok file)) :
    SamplesDeclared opts file ↔ SamplesFit img opts := by
  obtain ⟨outimg, written, hd⟩ := dumpImage_ok hpgm h
  obtain ⟨endian, hgiven, hfind, htarget⟩ := hd.format
  have hbpp := rawimgFindFormat_bpp hfind
  by_cases hraised : opts.outBpp = 16 ∧ img.fmt.bpp < 16 ∧ opts.upvalmod ≠ some "shift"
  · obtain ⟨h16, hlow, hname⟩ := hraised
    rw [h16] at hfind hbpp
    obtain ⟨hrow, hlen⟩ := hd.sizes hfind
    have hmax : maxval img.fmt.bpp outimg.fmt.bpp opts.upvalmod = 2 ^ img.fmt.bpp - 1 := by
      rw [hbpp]
      exact maxval_source hlow hname
    have hpos := Nat.two_pow_pos img.fmt.bpp
    have hsize : opts.outBpp / 8 = 2 := by rw [h16]
    constructor
    · intro ⟨header, e, hheader, he, hsamples⟩ _ _ hshift _ f hf x y hx hy hlast
      rw [htarget] at hf
      cases hf
      rw [hgiven] at he
      cases he
      rw [hd.header] at hheader
      cases hheader
      have heven := (@addr_sixteen _ _ (img.width.toNat * 16 % 2 ^ 32 / 8) x y hfind
        (by omega)).1
      obtain ⟨k, hk⟩ := exists_eq_mul_left_of_dvd (Nat.dvd_of_mod_eq_zero heven)
      have hin := hlast.1
      rw [hk, ← hlen] at hin
      have hwritten : (k + 1) * (opts.outBpp / 8) ≤ file.body.length := by
        rw [hsize, hd.body]
        simp [slice]
        omega
      have hsample := hsamples k hwritten
      rw [hsize, hd.lasting_sample hfind hx hy hlast hk, value_of_sixteen h16 hlow,
        if_pos hshift] at hsample
      change _ ≤ maxval img.fmt.bpp outimg.fmt.bpp opts.upvalmod at hsample
      rw [hmax] at hsample
      omega
    · intro hfit
      refine ⟨_, endian, hd.header, hgiven, ?_⟩
      intro k hk
      rw [hsize] at hk ⊢
      obtain ⟨x, y, hx, hy, hlast, haddr⟩ := hd.exists_pixel hfind hk
      change _ ≤ maxval img.fmt.bpp outimg.fmt.bpp opts.upvalmod
      rw [hd.lasting_sample hfind hx hy hlast haddr, value_of_sixteen h16 hlow, hmax]
      by_cases hshift : chosen opts.valupmod .no = .shift
      · have hsmall := hfit h16 hlow hshift hname _ htarget x y hx hy hlast
        rw [if_pos hshift]
        omega
      · have hpixel := getPixel_lt img.fmt img.data img.rowBytes.toNat x y
        rw [if_neg hshift]
        omega
  · have hfull : maxval img.fmt.bpp outimg.fmt.bpp opts.upvalmod = 2 ^ opts.outBpp - 1 := by
      rw [hbpp]
      apply maxval_full
      have hmin : 8 ≤ img.fmt.bpp := by cases img.fmt <;> decide
      have hmax := bpp_le img.fmt
      by_cases hname : opts.upvalmod = some "shift"
      · exact .inr hname
      · have hdepth := hd.depth
        have hnot : ¬(opts.outBpp = 16 ∧ img.fmt.bpp < 16) :=
          fun hc => hraised ⟨hc.1, hc.2, hname⟩
        exact .inl (by omega)
    constructor
    · intro _ h16 hlow _ hname
      exact absurd ⟨h16, hlow, hname⟩ hraised
    · intro _
      refine ⟨_, endian, hd.header, hgiven, ?_⟩
      intro k _
      have hlt := sampleAt_lt (opts.outBpp / 8) endian file.body k
      have hpow : 256 ^ (opts.outBpp / 8) = 2 ^ opts.outBpp := by
        rcases hd.depth with hdepth | hdepth <;> rw [hdepth] <;> rfl
      rw [hpow] at hlt
      change _ ≤ maxval img.fmt.bpp outimg.fmt.bpp opts.upvalmod
      rw [hfull]
      omega

/-- A pixel 16 of ten bits: `00000100 00` and four pixels for one block. -/
def darkSpec : ImgSpec where
  data := ⟨5, fun i => if i = 0 then 0x04 else 0⟩
  dataOffset := none
  width := 4
  height := 1
  bpp := 10
  endian := .given .big
  blackLevel := none
  cfaPattern := none
  activeArea := none

/-- A PGM of 16 bits with shifted values. -/
def shiftOpts : DumpOpts where
  bpp := some 16
  endian := .absent
  pgm := true
  lbuf := .absent
  valupmod := .given .shift
  valdownmod := .absent
  upvalmod := none

def goodIo : FileIo := ⟨none, true⟩

def zeroed : UInt32 → Option Memory := fun _ => some fun _ => 0

/-- The sample 1024 under the maximum 1023. -/
theorem not_samples_declared : ∃ img file, rawimgLuaBindLbuf darkSpec = .ok img ∧
    dumpImage zeroed (some img) goodIo shiftOpts = .ok (.ok file) ∧
    ¬SamplesDeclared shiftOpts file := by
  refine ⟨_, _, rfl, rfl, ?_⟩
  rintro ⟨header, endian, hheader, hendian, hsamples⟩
  cases hheader
  cases hendian
  have hfirst := hsamples 0 (by decide)
  revert hfirst
  decide

theorem dumped_samples_witness : ∃ img file, rawimgLuaBindLbuf darkSpec = .ok img ∧
    dumpImage zeroed (some img) goodIo shiftOpts = .ok (.ok file) ∧
    (SamplesDeclared shiftOpts file ↔ SamplesFit img shiftOpts) :=
  ⟨_, _, rfl, rfl, dumped_samples_iff zeroed _ goodIo shiftOpts _ rfl rfl⟩

end DumpImage
