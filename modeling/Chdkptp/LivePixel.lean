import Chdkptp.LiveFrame

/-!
# Pixels of a live view frame

The colour conversions, the palettes and the bodies of the conversion loops of
`liveimg.c`. A pixel is the list of its samples in the order of the planes.
-/

namespace LivePixel

open TracedRead LiveFrame

abbrev Pixel := List UInt8

/-- `int8_t` -/
def int8 (b : UInt8) : Int := if b < 128 then b.toNat else b.toNat - 256

/-- `clip_yuv` -/
def clipYuv (v : Int) : UInt8 := if v < 0 then 0 else if v > 255 then 255 else UInt8.ofNat v.toNat

/-- `yuv_to_r`; the shift of a negative `int` is arithmetic. -/
def yuvToR (y : UInt8) (v : Int) : UInt8 := clipYuv ((y.toNat * 4096 + v * 5743 + 2048) / 4096)

/-- `yuv_to_g` -/
def yuvToG (y : UInt8) (u v : Int) : UInt8 :=
  clipYuv ((y.toNat * 4096 - u * 1411 - v * 2925 + 2048) / 4096)

/-- `yuv_to_b` -/
def yuvToB (y : UInt8) (u : Int) : UInt8 := clipYuv ((y.toNat * 4096 + u * 7258 + 2048) / 4096)

def yuvToRgb (y : UInt8) (u v : Int) : Pixel := [yuvToR y v, yuvToG y u v, yuvToB y u]

/-! ## The bodies of the loops -/

/-- One pass of `yuv_live_to_cd_rgb`: four pixels, or two of them. -/
def yuvGroup (skip : Bool) (p : Int) : Read (List Pixel) := do
  let u ← Traced.byteAt p
  let y0 ← Traced.byteAt (p + 1)
  let v ← Traced.byteAt (p + 2)
  let y1 ← Traced.byteAt (p + 3)
  if skip then return [yuvToRgb y0 (int8 u) (int8 v), yuvToRgb y1 (int8 u) (int8 v)]
  else
    let y2 ← Traced.byteAt (p + 4)
    let y3 ← Traced.byteAt (p + 5)
    return [yuvToRgb y0 (int8 u) (int8 v), yuvToRgb y1 (int8 u) (int8 v),
      yuvToRgb y2 (int8 u) (int8 v), yuvToRgb y3 (int8 u) (int8 v)]

/-- One pass of a loop over pairs of pixels; `bias` is what is taken from the chroma. -/
def uyvyGroup (bias : UInt8) (skip : Bool) (p : Int) : Read (List Pixel) := do
  let v ← Traced.byteAt (p + 2)
  let u ← Traced.byteAt p
  let y0 ← Traced.byteAt (p + 1)
  if skip then return [yuvToRgb y0 (int8 (u - bias)) (int8 (v - bias))]
  else
    let y1 ← Traced.byteAt (p + 3)
    return [yuvToRgb y0 (int8 (u - bias)) (int8 (v - bias)),
      yuvToRgb y1 (int8 (u - bias)) (int8 (v - bias))]

/-- One pass of `yuvb_live_to_cd_rgb`. -/
def yuvbGroup : Bool → Int → Read (List Pixel) := uyvyGroup 0x80

/-- One pass of `yuvc_live_to_cd_rgb`. -/
def yuvcGroup : Bool → Int → Read (List Pixel) := uyvyGroup 0

/-- One pass of `yuvb_live_to_cd_rgba`, which reads all four bytes as a word. -/
def yuvbAlphaGroup (skip : Bool) (p : Int) : Read (List Pixel) := do
  let v ← Traced.byteAt (p + 2)
  let u ← Traced.byteAt p
  let y0 ← Traced.byteAt (p + 1)
  let y1 ← Traced.byteAt (p + 3)
  let a : UInt8 := if u = 0x80 ∧ y0 = 0 ∧ v = 0x80 ∧ y1 = 0 then 0 else 255
  if skip then return [yuvToRgb y0 (int8 (u - 0x80)) (int8 (v - 0x80)) ++ [a]]
  else return [yuvToRgb y0 (int8 (u - 0x80)) (int8 (v - 0x80)) ++ [a],
    yuvToRgb y1 (int8 (u - 0x80)) (int8 (v - 0x80)) ++ [a]]

/-- One pass of `opacity_live_to_cd_a`. -/
def opacityGroup (skip : Bool) (p : Int) : Read (List UInt8) := do
  let a ← Traced.byteAt p
  if skip then return [a]
  else
    let a' ← Traced.byteAt (p + 1)
    return [a, a']

/-! ## Palettes -/

/-- Where the parts of a palette entry are. -/
structure EntryLayout where
  a : Nat
  y : Nat
  u : Nat
  v : Nat

/-- `palette_entry_ayuv_t` -/
def ayuv : EntryLayout := ⟨0, 1, 2, 3⟩

/-- `palette_entry_vuya_t` -/
def vuya : EntryLayout := ⟨3, 2, 1, 0⟩

/-- `alpha2_lookup[i&3]` -/
def alpha2Lookup (i : Nat) : UInt8 :=
  match i % 4 with
  | 0 => 128
  | 1 => 171
  | 2 => 214
  | _ => 255

/-- `clamp_uint8` -/
def clampUint8 (v : Nat) : UInt8 := if v > 255 then 255 else UInt8.ofNat v

/-- `clamp_int8` -/
def clampInt8 (v : Int) : Int := if v > 127 then 127 else if v < -128 then -128 else v

/-- The bytes of a palette. -/
abbrev Palette := Nat → Read UInt8

/-- A palette of 16 entries of which a pixel mixes two. -/
def nibbleToRgba (layout : EntryLayout) (alpha : Nat → UInt8) (gray : Bool) (pal : Palette)
    (pixel : UInt8) : Read Pixel := do
  let i1 := pixel.toNat % 16
  let i2 := pixel.toNat / 16
  let a1 ← pal (4 * i1 + layout.a)
  let a2 ← pal (4 * i2 + layout.a)
  let y1 ← pal (4 * i1 + layout.y)
  let y2 ← pal (4 * i2 + layout.y)
  let a := alpha ((a1.toNat + a2.toNat) / 2)
  let y := clampUint8 (y1.toNat + y2.toNat)
  -- the firmware takes these for grays
  if gray ∧ i1 = 0 then return yuvToRgb y 0 0 ++ [a]
  else
    let u1 ← pal (4 * i1 + layout.u)
    let u2 ← pal (4 * i2 + layout.u)
    let v1 ← pal (4 * i1 + layout.v)
    let v2 ← pal (4 * i2 + layout.v)
    return yuvToRgb y (clampInt8 (int8 u1 + int8 u2)) (clampInt8 (int8 v1 + int8 v2)) ++ [a]

/-- `palette_type1_to_rgba` -/
def paletteType1ToRgba : Palette → UInt8 → Read Pixel := nibbleToRgba ayuv UInt8.ofNat true

/-- `palette_type2_to_rgba` -/
def paletteType2ToRgba : Palette → UInt8 → Read Pixel := nibbleToRgba ayuv alpha2Lookup false

/-- `palette_AYUV_to_rgba` -/
def paletteAYUVToRgba (shift : Nat) (pal : Palette) (pixel : UInt8) : Read Pixel :=
  if pixel = 0 then return [0, 0, 0, 0]
  else do
    let a ← pal (4 * pixel.toNat + vuya.a)
    let y ← pal (4 * pixel.toNat + vuya.y)
    let v ← pal (4 * pixel.toNat + vuya.v)
    let u ← pal (4 * pixel.toNat + vuya.u)
    return yuvToRgb y (int8 u) (int8 v) ++ [alpha2Lookup (a.toNat >>> shift)]

/-- `palette_type3_to_rgba` -/
def paletteType3ToRgba : Palette → UInt8 → Read Pixel := paletteAYUVToRgba 0

/-- `palette_type4_to_rgba` -/
def paletteType4ToRgba (pal : Palette) (pixel : UInt8) : Read Pixel :=
  if pixel = 0 then return [0, 0, 0, 0] else nibbleToRgba vuya alpha2Lookup false pal pixel

/-- `palette_type5_to_rgba` -/
def paletteType5ToRgba : Palette → UInt8 → Read Pixel := paletteAYUVToRgba 4

/-- `palette_convert_t`; the function of type 0 is NULL. -/
structure PaletteConvert where
  toRgba : Option (Palette → UInt8 → Read Pixel)
  numEntries : Nat

/-- `get_palette_convert` -/
def getPaletteConvert (type : Nat) : Option PaletteConvert :=
  match type with
  | 0 => some ⟨none, 0⟩
  | 1 => some ⟨some paletteType1ToRgba, 16⟩
  | 2 => some ⟨some paletteType2ToRgba, 16⟩
  | 3 => some ⟨some paletteType3ToRgba, 256⟩
  | 4 => some ⟨some paletteType4ToRgba, 16⟩
  | 5 => some ⟨some paletteType5ToRgba, 256⟩
  | _ => none

/-- `get_palette_size` -/
def getPaletteSize (type : Nat) : Nat :=
  match getPaletteConvert type with
  | some convert => convert.numEntries * 4
  | none => 0

/-- `palette_type1_default` -/
def paletteType1Default : List UInt8 :=
  [0x00, 0x00, 0x00, 0x00, 0xff, 0xe0, 0x00, 0x00, 0xff, 0x60, 0xee, 0x62, 0xff, 0xb9, 0x00, 0x00,
    0x7f, 0x00, 0x00, 0x00, 0xff, 0x7e, 0xa1, 0xb3, 0xff, 0xcc, 0xb8, 0x5e, 0xff, 0x5f, 0x00, 0x00,
    0xff, 0x94, 0xc5, 0x5d, 0xff, 0x8a, 0x50, 0xb0, 0xff, 0x4b, 0x3d, 0xd4, 0x7f, 0x28, 0x00, 0x00,
    0x7f, 0x00, 0x7b, 0xe2, 0xff, 0x30, 0x00, 0x00, 0xff, 0x69, 0x00, 0x00, 0xff, 0x00, 0x00, 0x00]

/-- The bytes that the loop in `convert_palette` counts through. -/
def allBytes : List UInt8 := (List.range 256).map UInt8.ofNat

/-- The conversion and the palette that `convert_palette` uses. -/
def choosePalette (type : Nat) (start : Int) : PaletteConvert × Palette :=
  match getPaletteConvert type with
  | some convert =>
    if start = 0 then (⟨some paletteType1ToRgba, 16⟩, fun j => return paletteType1Default.getD j 0)
    else (convert, fun j => Traced.byteAt (start + j))
  | none => (⟨some paletteType1ToRgba, 16⟩, fun j => return paletteType1Default.getD j 0)

/-- The loop of `convert_palette`: a pixel for each byte, or none when it calls NULL. -/
def convertAll (choice : PaletteConvert × Palette) : Read (Option (List Pixel)) :=
  match choice.1.toRgba with
  | some fn => do
    let pixels ← Traced.each allBytes (fn choice.2)
    return some pixels
  | none => return none

/-- `convert_palette` -/
def convertPalette : Read (Option (List Pixel)) := do
  let type ← paletteType
  let start ← paletteDataStart
  convertAll (choosePalette (uint32 type) start)

end LivePixel
