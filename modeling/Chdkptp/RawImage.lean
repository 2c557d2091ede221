import Chdkptp.RawPixel
import Mathlib.Tactic.Ring

/-!
# Raw images

`raw_image_t`, `rawimg.bind_lbuf` and the pixel methods. All sizes are the
32-bit unsigned fields of the source and are computed in that arithmetic. The
argument table arrives as a structure whose numbers have already been converted
to `unsigned`, so a wrong Lua type is not representable; every check that the
function itself makes is.
-/

namespace Rawimg

open ByteMemory RawAccess RawLayout RawPixel Lbuf

/-- A string argument with a fixed list of spellings. -/
inductive OptionArg (α : Type) where
  | absent
  | unknown
  | given (a : α)

/-- `lu_table_checkoption`; without a default the argument is required. -/
def luTableCheckoption {α : Type} (arg : OptionArg α) (default : Option α) : Except String α :=
  match arg, default with
  | .given a, _ => .ok a
  | .absent, some d => .ok d
  | .absent, none => .error "string expected"
  | .unknown, _ => .error "invalid option"

structure ActiveArea where
  top : UInt32
  left : UInt32
  bottom : UInt32
  right : UInt32
  deriving DecidableEq, Repr

/-- The argument table of `bind_lbuf`. -/
structure ImgSpec where
  data : LBuf
  dataOffset : Option UInt32
  width : UInt32
  height : UInt32
  bpp : UInt32
  endian : OptionArg Endian
  blackLevel : Option UInt32
  cfaPattern : Option (List UInt8)
  activeArea : Option ActiveArea

/-- `raw_image_t`. The data pointer is kept as the buffer and the offset into it. -/
structure RawImage where
  fmt : RawFormat
  rowBytes : UInt32
  width : UInt32
  height : UInt32
  cfaPattern : Fin 4 → UInt8
  activeTop : UInt32
  activeLeft : UInt32
  activeBottom : UInt32
  activeRight : UInt32
  blackLevel : UInt32
  lbuf : LBuf
  offset : UInt32

/-- The bytes from `img->data` on. -/
def RawImage.data (img : RawImage) : Memory := view img.lbuf.bytes img.offset.toNat

/-- The active area of `bind_lbuf`: the table's if there is one, else the whole
image. The third test compares the left edge, its message names the right one. -/
def checkActiveArea (spec : ImgSpec) : Except String ActiveArea :=
  match spec.activeArea with
  | some a =>
    if a.top ≥ a.bottom then .error "active top >= bottom"
    else if a.left ≥ a.right then .error "active left >= right"
    else if a.left > spec.width then .error "active right > width"
    else if a.bottom > spec.height then .error "active bottom > height"
    else .ok a
  | none => .ok ⟨0, 0, spec.height, spec.width⟩

def checkCfaPattern (spec : ImgSpec) : Except String (Fin 4 → UInt8) :=
  match spec.cfaPattern with
  | none => .ok (fun _ => 0)
  | some bytes =>
    if bytes.length ≠ 4 then .error "unknown cfa pattern"
    else .ok (fun i => bytes.getD i 0)

/-- `(img->width*img->fmt->bpp)/8`. -/
def rowSize (width : UInt32) (f : RawFormat) : UInt32 := width * UInt32.ofNat f.bpp / 8

def rawimgLuaBindLbuf (spec : ImgSpec) : Except String RawImage := do
  let offset := spec.dataOffset.getD 0
  let endian ← luTableCheckoption spec.endian none
  let cfaPattern ← checkCfaPattern spec
  let area ← checkActiveArea spec
  match rawimgFindFormat spec.bpp.toNat endian with
  | none => .error "unknown format"
  | some fmt =>
    if spec.width.toNat % fmt.blockPixels ≠ 0 then .error "width not a multiple of block size"
    else
      let rowBytes := rowSize spec.width fmt
      if offset + rowBytes * spec.height > spec.data.len then .error "size larger than data"
      else .ok {
        fmt := fmt, rowBytes := rowBytes, width := spec.width, height := spec.height,
        cfaPattern := cfaPattern, activeTop := area.top, activeLeft := area.left,
        activeBottom := area.bottom, activeRight := area.right,
        blackLevel := spec.blackLevel.getD 0, lbuf := spec.data, offset := offset }

/-- `img:get_pixel(x,y)`, nil if out of bounds. -/
def rawimgLuaGetPixel (img : RawImage) (x y : UInt32) : Option Nat :=
  if x ≥ img.width ∨ y ≥ img.height then none
  else some (img.fmt.getPixel img.data img.rowBytes.toNat x.toNat y.toNat)

/-- Put a changed view back into the buffer. -/
def RawImage.withData (img : RawImage) (m : Memory) : RawImage :=
  { img with lbuf := { img.lbuf with
      bytes := fun i =>
        if img.offset.toNat ≤ i then m (i - img.offset.toNat) else img.lbuf.bytes i } }

/-- `img:set_pixel(x,y,value)`; the guard is a disjunction in the source. -/
def rawimgLuaSetPixel (img : RawImage) (x y val : UInt32) : RawImage :=
  if x < img.width ∨ y < img.height then
    img.withData (img.fmt.setPixel img.data img.rowBytes.toNat x.toNat y.toNat val.toNat)
  else img

@[simp] theorem withData_data (img : RawImage) (m : Memory) : (img.withData m).data = m := by
  funext i
  simp [RawImage.withData, RawImage.data]

/-! ## What an accepted call has checked -/

/-- Everything `bind_lbuf` returns, field by field and check by check. -/
structure Bound (spec : ImgSpec) (img : RawImage) : Prop where
  format : img.fmt.bpp = spec.bpp.toNat
  cfa : checkCfaPattern spec = .ok img.cfaPattern
  area : checkActiveArea spec =
    .ok ⟨img.activeTop, img.activeLeft, img.activeBottom, img.activeRight⟩
  width : img.width = spec.width
  height : img.height = spec.height
  block : spec.width.toNat % img.fmt.blockPixels = 0
  row : img.rowBytes = rowSize spec.width img.fmt
  size : spec.dataOffset.getD 0 + img.rowBytes * spec.height ≤ spec.data.len
  lbuf : img.lbuf = spec.data
  offset : img.offset = spec.dataOffset.getD 0

theorem bind_lbuf_bound {spec : ImgSpec} {img : RawImage}
    (h : rawimgLuaBindLbuf spec = .ok img) : Bound spec img := by
  simp only [rawimgLuaBindLbuf, bind, Except.bind] at h
  split at h
  · cases h
  · rename_i endian _
    split at h
    · cases h
    · rename_i cfa hcfa
      split at h
      · cases h
      · rename_i area harea
        split at h
        · cases h
        · rename_i fmt hfmt
          split at h
          · cases h
          · rename_i hblock
            split at h
            · cases h
            · rename_i hsize
              cases h
              exact ⟨rawimgFindFormat_bpp hfmt, hcfa, harea, rfl, rfl, by simpa using hblock,
                rfl, by simpa using hsize, rfl, rfl⟩

/-! ## Sizes -/

/-- The row size is exact as long as the product in bits does not wrap. -/
theorem rowSize_toNat (width : UInt32) (f : RawFormat) :
    (rowSize width f).toNat = width.toNat * f.bpp % 2 ^ 32 / 8 := by
  simp [rowSize, UInt32.toNat_div, UInt32.toNat_mul]

/-- A whole number of blocks fills a whole number of bytes. -/
theorem row_bits_of_block (f : RawFormat) {width : Nat} (h : width % f.blockPixels = 0) :
    width * f.bpp = width / f.blockPixels * f.blockBytes * 8 := by
  cases f <;> simp only [RawFormat.blockPixels, RawFormat.blockBytes, RawFormat.bpp] at h ⊢ <;>
    omega

/-- An image whose rows are exact: what the accessors rely on. -/
structure Exact (f : RawFormat) (rowBytes width : Nat) : Prop where
  bits : rowBytes * 8 = width * f.bpp
  block : f.blockBytes ∣ rowBytes

theorem exact_of_block (f : RawFormat) {rowBytes width : Nat} (hblock : width % f.blockPixels = 0)
    (hbits : rowBytes * 8 = width * f.bpp) : Exact f rowBytes width := by
  have hw := row_bits_of_block f hblock
  refine ⟨hbits, width / f.blockPixels, ?_⟩
  rw [Nat.mul_comm]
  omega

/-- The pixels below width and height are those in the `rowBytes * height` bytes. -/
theorem Exact.inImage {f : RawFormat} {rowBytes width : Nat} (h : Exact f rowBytes width)
    {height x y : Nat} (hx : x < width) (hy : y < height) :
    InImage f rowBytes (rowBytes * height) x y := by
  constructor
  · rw [h.bits]
    exact Nat.mul_lt_mul_of_pos_right hx (bpp_pos f)
  · rw [Nat.mul_comm]
    exact Nat.mul_le_mul_left rowBytes hy

/-- Offsets into the lbuf that `get_pixel` and `set_pixel` touch at `(x, y)`. -/
def RawImage.touched (img : RawImage) (x y : Nat) : List Nat :=
  (readOffsets img.fmt img.rowBytes.toNat x y ++
    writeOffsets img.fmt img.rowBytes.toNat x y).map (img.offset.toNat + ·)

/-- `get_pixel` depends on the touched bytes only. -/
theorem get_pixel_touched (img : RawImage) (x y : UInt32) {bytes : Memory}
    (h : ∀ o ∈ img.touched x.toNat y.toNat, bytes o = img.lbuf.bytes o) :
    rawimgLuaGetPixel { img with lbuf := { img.lbuf with bytes := bytes } } x y =
      rawimgLuaGetPixel img x y := by
  have hpixel : img.fmt.getPixel (view bytes img.offset.toNat) img.rowBytes.toNat x.toNat y.toNat =
      img.fmt.getPixel img.data img.rowBytes.toNat x.toNat y.toNat := by
    apply getPixel_congr
    intro o ho
    exact h _ (List.mem_map.mpr ⟨o, List.mem_append_left _ ho, rfl⟩)
  simp only [rawimgLuaGetPixel, RawImage.data] at hpixel ⊢
  rw [hpixel]

/-- `set_pixel` changes the touched bytes only. -/
theorem set_pixel_touched (img : RawImage) (x y val : UInt32) {o : Nat}
    (h : o ∉ img.touched x.toNat y.toNat) :
    (rawimgLuaSetPixel img x y val).lbuf.bytes o = img.lbuf.bytes o := by
  simp only [rawimgLuaSetPixel]
  split
  · simp only [RawImage.withData]
    split
    · rename_i hle
      have hback : img.offset.toNat + (o - img.offset.toNat) = o := by omega
      rw [setPixel_outside, RawImage.data, view_apply, hback]
      intro hmem
      exact h (List.mem_map.mpr ⟨_, List.mem_append_right _ hmem, hback⟩)
    · rfl
  · rfl

/-- `get_pixel` after `set_pixel`: the low bits of the value, where the setter has a case. -/
theorem get_pixel_set_pixel (img : RawImage) {x y : UInt32} (val : UInt32) (hx : x < img.width)
    (hy : y < img.height) (hcase : HasCase img.fmt x.toNat) :
    rawimgLuaGetPixel (rawimgLuaSetPixel img x y val) x y =
      some (val.toNat % 2 ^ img.fmt.bpp) := by
  have hin : ¬(x ≥ img.width ∨ y ≥ img.height) := by
    rw [not_or, ge_iff_le, ge_iff_le, UInt32.not_le, UInt32.not_le]
    exact ⟨hx, hy⟩
  have hread := getPixel_setPixel img.fmt img.data img.rowBytes.toNat x.toNat y.toNat val.toNat
  rw [if_pos hcase] at hread
  rw [rawimgLuaSetPixel, if_pos (.inl hx), rawimgLuaGetPixel, withData_data]
  exact (if_neg hin).trans (congrArg some hread)

/-- The sizes of an image are right in exact arithmetic, and its pixels are in its lbuf. -/
structure SizesExact (img : RawImage) : Prop where
  total : img.offset.toNat + img.rowBytes.toNat * img.height.toNat ≤ img.lbuf.len.toNat
  row : img.rowBytes.toNat * 8 = img.width.toNat * img.fmt.bpp
  access : ∀ x y, x < img.width.toNat → y < img.height.toNat →
    ∀ o ∈ img.touched x y, o < img.lbuf.len.toNat

theorem touched_in_lbuf (img : RawImage)
    (hexact : Exact img.fmt img.rowBytes.toNat img.width.toNat)
    (htotal : img.offset.toNat + img.rowBytes.toNat * img.height.toNat ≤ img.lbuf.len.toNat)
    {x y : Nat} (hx : x < img.width.toNat) (hy : y < img.height.toNat) :
    ∀ o ∈ img.touched x y, o < img.lbuf.len.toNat := by
  intro o ho
  obtain ⟨a, ha, rfl⟩ := List.mem_map.mp ho
  have hin := hexact.inImage hx hy
  have hlen : img.rowBytes.toNat * img.height.toNat < 2 ^ 32 := by
    have := img.lbuf.len.toNat_lt
    omega
  have hmem := block_in_image img.fmt hexact.block hin
    (touched_in_block img.fmt hexact.block hlen hin ha)
  omega

/-- The condition under which no size computation of `bind_lbuf` wraps. -/
def NoWrap (spec : ImgSpec) : Prop :=
  spec.width.toNat * spec.bpp.toNat < 2 ^ 32 ∧
    (spec.dataOffset.getD 0).toNat +
      spec.width.toNat * spec.bpp.toNat / 8 * spec.height.toNat < 2 ^ 32

/-- The size check as an inequality between 32-bit remainders. -/
theorem Bound.size_toNat {spec : ImgSpec} {img : RawImage} (h : Bound spec img) :
    ((spec.dataOffset.getD 0).toNat + img.rowBytes.toNat * spec.height.toNat) % 2 ^ 32 ≤
      spec.data.len.toNat := by
  have hs := UInt32.le_iff_toNat_le.mp h.size
  rwa [UInt32.toNat_add, UInt32.toNat_mul, Nat.add_mod_mod] at hs

/-- For an accepted call, the sizes are exact if and only if nothing wrapped. -/
theorem bind_lbuf_exact_iff (spec : ImgSpec) (img : RawImage)
    (h : rawimgLuaBindLbuf spec = .ok img) : SizesExact img ↔ NoWrap spec := by
  have hb := bind_lbuf_bound h
  have hrow : img.rowBytes.toNat = spec.width.toNat * spec.bpp.toNat % 2 ^ 32 / 8 := by
    rw [hb.row, rowSize_toNat, hb.format]
  have hbits := row_bits_of_block img.fmt hb.block
  rw [hb.format] at hbits
  have hlen := spec.data.len.toNat_lt
  constructor
  · intro hexact
    have hr := hexact.row
    have ht := hexact.total
    rw [hb.width, hb.format] at hr
    rw [hb.offset, hb.height, hb.lbuf] at ht
    have hwidth : spec.width.toNat * spec.bpp.toNat < 2 ^ 32 := by omega
    refine ⟨hwidth, ?_⟩
    have he : spec.width.toNat * spec.bpp.toNat / 8 = img.rowBytes.toNat := by omega
    rw [he]
    omega
  · rintro ⟨hwidth, htotal⟩
    have he : spec.width.toNat * spec.bpp.toNat / 8 = img.rowBytes.toNat := by omega
    rw [he] at htotal
    have hsize := hb.size_toNat
    rw [Nat.mod_eq_of_lt htotal] at hsize
    have hr : img.rowBytes.toNat * 8 = img.width.toNat * img.fmt.bpp := by
      rw [hb.width, hb.format]
      omega
    have ht : img.offset.toNat + img.rowBytes.toNat * img.height.toNat ≤ img.lbuf.len.toNat := by
      rw [hb.offset, hb.height, hb.lbuf]
      exact hsize
    have hexact : Exact img.fmt img.rowBytes.toNat img.width.toNat :=
      exact_of_block img.fmt (by rw [hb.width]; exact hb.block) hr
    exact ⟨ht, hr, fun x y hx hy => touched_in_lbuf img hexact ht hx hy⟩

/-- `2^29` pixels of 8 bits: the row size wraps to 0 and an empty lbuf is accepted. -/
def wrappingSpec : ImgSpec where
  data := ⟨0, fun _ => 0⟩
  dataOffset := none
  width := 536870912
  height := 1
  bpp := 8
  endian := .given .little
  blackLevel := none
  cfaPattern := none
  activeArea := none

theorem bind_lbuf_wraps : ∃ img, rawimgLuaBindLbuf wrappingSpec = .ok img ∧ ¬SizesExact img := by
  refine ⟨_, rfl, ?_⟩
  intro h
  have hr := h.row
  revert hr
  decide

/-- One row of eight 10-bit pixels in ten bytes. -/
def smallSpec : ImgSpec where
  data := ⟨10, fun _ => 0⟩
  dataOffset := none
  width := 8
  height := 1
  bpp := 10
  endian := .given .little
  blackLevel := none
  cfaPattern := none
  activeArea := none

theorem bind_lbuf_exact_witness :
    ∃ img, rawimgLuaBindLbuf smallSpec = .ok img ∧ (SizesExact img ↔ NoWrap smallSpec) :=
  ⟨_, rfl, bind_lbuf_exact_iff smallSpec _ rfl⟩

/-! ## Coordinates outside the image -/

/-- What the two accessors promise for a coordinate: outside the image the setter
changes nothing, in the lbuf or beyond, and exactly there the getter returns nil. -/
structure Guarded (img : RawImage) (x y val : UInt32) : Prop where
  kept : x ≥ img.width ∨ y ≥ img.height →
    (rawimgLuaSetPixel img x y val).lbuf.bytes = img.lbuf.bytes
  agree : rawimgLuaGetPixel img x y = none ↔ x ≥ img.width ∨ y ≥ img.height

/-- The bits that a write would set at `(x, y)` are already there. -/
def RawImage.holds (img : RawImage) (x y val : UInt32) : Prop :=
  PackedField.Holds img.data img.fmt.bpp (reach img.fmt x.toNat)
    (place img.fmt img.rowBytes.toNat x.toNat y.toNat) val.toNat

theorem get_pixel_eq_none (img : RawImage) (x y : UInt32) :
    rawimgLuaGetPixel img x y = none ↔ x ≥ img.width ∨ y ≥ img.height := by
  simp only [rawimgLuaGetPixel]
  split
  · rename_i h
    exact ⟨fun _ => h, fun _ => rfl⟩
  · rename_i h
    constructor
    · intro hn
      cases hn
    · intro ho
      exact absurd ho h

/-- Putting a view back changes the buffer exactly when it changes the view. -/
theorem withData_bytes_eq_iff (img : RawImage) (m : Memory) :
    (img.withData m).lbuf.bytes = img.lbuf.bytes ↔ m = img.data := by
  constructor
  · intro h
    have hd : (img.withData m).data = img.data := by
      funext i
      simp only [RawImage.data, view_apply] at h ⊢
      exact congrFun h _
    rwa [withData_data] at hd
  · rintro rfl
    funext i
    simp only [RawImage.withData]
    split
    · rename_i hle
      rw [RawImage.data, view_apply, Nat.add_sub_cancel' hle]
    · rfl

/-- The setter of a format leaves the pixel bytes as they are. -/
theorem setPixel_same_iff (img : RawImage) (x y val : UInt32) :
    img.fmt.setPixel img.data img.rowBytes.toNat x.toNat y.toNat val.toNat = img.data ↔
      ¬HasCase img.fmt x.toNat ∨ img.holds x y val := by
  by_cases hcase : HasCase img.fmt x.toNat
  · rw [(setPixel_overlaid img.fmt img.data _ _ _ _ hcase).same_iff]
    constructor
    · intro hh
      exact .inr hh
    · rintro (hn | hh)
      · exact absurd hcase hn
      · exact hh
  · have hsame := setPixel_no_case img.fmt img.data img.rowBytes.toNat x.toNat y.toNat
      val.toNat hcase
    constructor
    · intro _
      exact .inl hcase
    · intro _
      exact hsame

/-- The setter's guard admits every coordinate pair with one of the two in range. -/
theorem set_pixel_guarded_iff (img : RawImage) (x y val : UInt32) :
    Guarded img x y val ↔
      (x < img.width ↔ y < img.height) ∨ ¬HasCase img.fmt x.toNat ∨ img.holds x y val := by
  have hout : (x ≥ img.width ∨ y ≥ img.height) ↔ ¬(x < img.width ∧ y < img.height) := by
    rw [not_and_or, UInt32.not_lt, UInt32.not_lt]
  constructor
  · rintro ⟨hkept, -⟩
    by_cases hboth : x < img.width ↔ y < img.height
    · exact .inl hboth
    · have hguard : x < img.width ∨ y < img.height := by
        by_contra hn
        obtain ⟨hx, hy⟩ := not_or.mp hn
        exact hboth ⟨fun h => absurd h hx, fun h => absurd h hy⟩
      have hsame := hkept (hout.mpr (fun hin => hboth ⟨fun _ => hin.2, fun _ => hin.1⟩))
      rw [rawimgLuaSetPixel, if_pos hguard, withData_bytes_eq_iff, setPixel_same_iff] at hsame
      exact .inr hsame
  · intro h
    refine ⟨fun ho => ?_, get_pixel_eq_none img x y⟩
    rw [rawimgLuaSetPixel]
    split
    · rename_i hguard
      rw [withData_bytes_eq_iff, setPixel_same_iff]
      rcases h with hboth | hrest
      · -- both coordinates are in range or both are out of range
        exfalso
        apply hout.mp ho
        rcases hguard with hx | hy
        · exact ⟨hx, hboth.mp hx⟩
        · exact ⟨hboth.mpr hy, hy⟩
      · exact hrest
    · rfl

/-- One row of eight pixels: the row below it is written, past the end of the lbuf. -/
theorem set_pixel_below : ∃ img, rawimgLuaBindLbuf smallSpec = .ok img ∧
    (0 : UInt32) < img.width ∧ (1 : UInt32) ≥ img.height ∧ ¬Guarded img 0 1 1023 := by
  refine ⟨_, rfl, by decide, by decide, ?_⟩
  intro h
  have hk := congrFun (h.kept (.inr (by decide))) 10
  revert hk
  decide

end Rawimg
