import Chdkptp.ByteMemory
import Chdkptp.LivePixel
import Chdkptp.LoopPasses

/-!
# Images of live view frames

`liveimg.get_viewport_pimg` and `liveimg.get_bitmap_pimg` unpack a framebuffer into the
planes of an image, from its last row up. A loop is looked at for so many passes, as
the counters may wrap. What is stored is a list of offsets and values in one block of
memory; the planes follow one another in it.
-/

namespace LiveImage

open ByteMemory TracedRead LiveFrame LivePixel LoopPasses

/-! ## Images -/

/-- `liveimg_pimg_t`. The planes are `size` bytes apart in a block of `block` bytes; without
alpha there are three and `a` is NULL. An image that has been killed has no pixels. -/
structure Pimg where
  width : Nat
  height : Nat
  alpha : Bool
  size : Nat
  block : Nat
  data : Memory

def planesOf (alpha : Bool) : Nat := if alpha then 4 else 3

/-- `pimg_init_rgb` and `pimg_init_rgba`. -/
def pimgInit (malloc : Nat → Option Memory) (alpha : Bool) (width height : Nat) : Option Pimg :=
  let size := width * height % 2 ^ 32
  if size = 0 then none
  else (malloc (size * planesOf alpha % 2 ^ 32)).map fun data =>
    { width, height, alpha, size, block := size * planesOf alpha % 2 ^ 32, data }

/-- The samples of one pixel go to the same place in each plane. -/
def pixelStores (size : Nat) : Nat → Pixel → List (Nat × UInt8)
  | _, [] => []
  | o, v :: px => (o, v) :: pixelStores size (o + size) px

/-- `*r++`, `*g++`, `*b++` and `*a++` of one pixel after the other. -/
def imageStores (size : Nat) : Nat → List Pixel → List (Nat × UInt8)
  | _, [] => []
  | o, px :: pixels => pixelStores size o px ++ imageStores size (o + 1) pixels

def store (stores : List (Nat × UInt8)) (data : Memory) : Memory :=
  stores.foldl (fun d s => put d s.1 s.2) data

/-! ## The loops -/

/-- `par`: pixels that make one when every other one is skipped. -/
def par (skip : Bool) : Int := if skip then 2 else 1

/-- The values of `p` in the loops over the rows and the columns of the YUV formats. -/
def groupPointers (step width : Nat) (inc : Int) (height rowInc limit : Nat) (start : Int) :
    List Int × Bool :=
  let pRow := start + ((height + (2 ^ 32 - 1)) * rowInc % 2 ^ 32 : Nat)
  let rows := strided 1 height (-rowInc) limit pRow
  let r := nest (strided step width inc limit) rows.1
  (r.1, r.2 && rows.2)

/-- The loops around the body for a group of pixels; with the samples whether they ended. -/
def liveLoops {α : Type} (step : Nat) (inc : Int) (rowInc limit : Nat)
    (body : Int → Read (List α)) (start : Int) (width height : Nat) : Read (List α × Bool) := do
  let pointers := groupPointers step width inc height rowInc limit start
  let groups ← Traced.each pointers.1 body
  return (groups.flatten, pointers.2)

/-- `yuv_live_to_cd_rgb` -/
def yuvLiveToCdRgb (limit : Nat) (pYuv : Int) (bufWidth width height : Nat) (skip : Bool) :
    Read (List Pixel × Bool) :=
  liveLoops 4 6 (bufWidth * 12 % 2 ^ 32 / 8) limit (yuvGroup skip) pYuv width height

/-- `yuvb_live_to_cd_rgb` -/
def yuvbLiveToCdRgb (limit : Nat) (pYuv : Int) (bufWidth width height : Nat) (skip : Bool) :
    Read (List Pixel × Bool) :=
  liveLoops 2 4 (bufWidth * 16 % 2 ^ 32 / 8) limit (yuvbGroup skip) pYuv width height

/-- `yuvc_live_to_cd_rgb` -/
def yuvcLiveToCdRgb (limit : Nat) (pYuv : Int) (bufWidth width height : Nat) (skip : Bool) :
    Read (List Pixel × Bool) :=
  liveLoops 2 4 (bufWidth * 16 % 2 ^ 32 / 8) limit (yuvcGroup skip) pYuv width height

/-- `yuvb_live_to_cd_rgba` -/
def yuvbLiveToCdRgba (limit : Nat) (pYuv : Int) (bufWidth width height : Nat) (skip : Bool) :
    Read (List Pixel × Bool) :=
  liveLoops 2 4 (bufWidth * 16 % 2 ^ 32 / 8) limit (yuvbAlphaGroup skip) pYuv width height

/-- `opacity_live_to_cd_a` -/
def opacityLiveToCdA (limit : Nat) (pOpac : Int) (bufWidth width height : Nat) (skip : Bool) :
    Read (List UInt8 × Bool) :=
  liveLoops 2 2 bufWidth limit (opacityGroup skip) pOpac width height

/-- The values of `p + x` in the loops over a paletted bitmap, whose counters are `int`. -/
def bitmapPointers (bm : FbDesc) (skip : Bool) (limit : Nat) : List Int × Bool :=
  let p := bm.dataStart + int32 (int32 (bm.visibleHeight - 1) * bm.bufferWidth)
  let rows := passes (fun s : Int × Int => s.1 < bm.visibleHeight)
    (fun s => (int32 (s.1 + 1), s.2 - bm.bufferWidth)) limit (0, p)
  let columns := passes (fun x : Int => x < bm.visibleWidth) (fun x => int32 (x + par skip)) limit 0
  let r := nest (fun s : Int × Int => (columns.1.map fun x => s.2 + x, columns.2)) rows.1
  (r.1, r.2 && rows.2)

/-! ## The conversions -/

inductive Outcome where
  | nil
  /-- The image; how far the planes were written, and how far the last one was again. -/
  | image (im : Pimg) (written : Nat) (again : Option Nat)
  /-- A loop has not ended yet. -/
  | running
  /-- A call of NULL, or a store through it. -/
  | crash

/-- The image that is passed in, when it has as many pixels. -/
def reusable (im : Option Pimg) (dispsize : Nat) : Option Pimg :=
  im.filter fun im => im.width * im.height % 2 ^ 32 = dispsize

/-- What the loops have stored. -/
def fill (im : Pimg) (pixels : List Pixel) (again : Option (List UInt8)) (ended : Bool) : Outcome :=
  if !im.alpha && pixels.any (fun px => 3 < px.length) then .crash
  else if ended then
    let data := store (imageStores im.size 0 pixels) im.data
    match again with
    | none => .image { im with data } pixels.length none
    | some alpha =>
      .image { im with data := store (imageStores im.size (3 * im.size) (alpha.map fun a => [a])) data }
        pixels.length (some alpha.length)
  else .running

/-- The conversion of a viewport into an image. -/
def convertViewport (limit : Nat) (vp : FbDesc) (skip : Bool) (im : Pimg) : Read Outcome := do
  let bufWidth := uint32 vp.bufferWidth
  let width := uint32 vp.visibleWidth
  let height := uint32 vp.visibleHeight
  let (pixels, ended) ←
    if vp.fbType = LV_FB_YUV8 then yuvLiveToCdRgb limit vp.dataStart bufWidth width height skip
    else if vp.fbType = LV_FB_YUV8B then
      yuvbLiveToCdRgb limit vp.dataStart bufWidth width height skip
    else yuvcLiveToCdRgb limit vp.dataStart bufWidth width height skip
  return fill im pixels none ended

/-- `vwidth` -/
def vwidthOf (desc : FbDesc) (skip : Bool) : Nat := uint32 (desc.visibleWidth.tdiv (par skip))

/-- `dispsize` -/
def dispsizeOf (desc : FbDesc) (skip : Bool) : Nat :=
  vwidthOf desc skip * uint32 desc.visibleHeight % 2 ^ 32

/-- `liveimg_get_viewport_pimg` of a frame of `len` bytes. -/
def getViewportPimg (malloc : Nat → Option Memory) (limit : Nat) (im : Option Pimg) (len : Nat)
    (skip : Bool) : Read Outcome := do
  let vp ← getVpDesc (int32 len)
  if vp.dataStart = 0 ∨ dispsizeOf vp skip = 0 then return .nil
  else
    match reusable im (dispsizeOf vp skip) with
    | some im =>
      convertViewport limit vp skip
        { im with width := vwidthOf vp skip, height := uint32 vp.visibleHeight }
    | none =>
      match pimgInit malloc false (vwidthOf vp skip) (uint32 vp.visibleHeight) with
      | some im => convertViewport limit vp skip im
      | none => Traced.throw "failed to create image"

/-- The conversion of a YUV bitmap into an image, its opacity in place of the alpha that
is made from the colours. -/
def convertYuvBitmap (limit : Nat) (bm bmo : FbDesc) (skip : Bool) (im : Pimg) : Read Outcome := do
  let (pixels, ended) ← yuvbLiveToCdRgba limit bm.dataStart (uint32 bm.bufferWidth)
    (uint32 bm.visibleWidth) (uint32 bm.visibleHeight) skip
  if bmo.dataStart ≠ 0 ∧ ended then
    let (alpha, ended) ← opacityLiveToCdA limit bmo.dataStart (uint32 bmo.bufferWidth)
      (uint32 bmo.visibleWidth) (uint32 bmo.visibleHeight) skip
    return fill im pixels (some alpha) ended
  else return fill im pixels none ended

/-- The conversion of a paletted bitmap into an image. -/
def convertPalBitmap (limit : Nat) (bm : FbDesc) (skip : Bool) (im : Pimg) : Read Outcome := do
  let palRgba ← convertPalette
  match palRgba with
  | none => return .crash
  | some palRgba =>
    let pointers := bitmapPointers bm skip limit
    let pixels ← Traced.each pointers.1 fun p => do
      let b ← Traced.byteAt p
      return palRgba.getD b.toNat []
    return fill im pixels none pointers.2

/-- The checks of `liveimg_get_bitmap_pimg` between its nil and its image: the opacity
description of a YUV bitmap. -/
def checkBitmap (len : Nat) (bm : FbDesc) : Read (Option FbDesc) := do
  if bm.fbType = LV_FB_YUV8B then
    let bmo ← getBmoDesc (int32 len)
    if bm.visibleWidth ≠ bmo.visibleWidth ∨ bm.visibleHeight ≠ bmo.visibleHeight then
      Traced.throw "opacity buffer size != bitmap size"
    else return some bmo
  else
    let type ← paletteType
    let start ← paletteDataStart
    if (getPaletteSize (uint32 type) + uint32 start) % 2 ^ 32 > len then
      Traced.throw "data < palette size"
    else return none

/-- The end of `liveimg_get_bitmap_pimg`. -/
def convertBitmap (limit : Nat) (bm : FbDesc) (bmo : Option FbDesc) (skip : Bool) (im : Pimg) :
    Read Outcome :=
  match bmo with
  | some bmo => convertYuvBitmap limit bm bmo skip im
  | none => convertPalBitmap limit bm skip im

/-- `liveimg_get_bitmap_pimg` of a frame of `len` bytes. -/
def getBitmapPimg (malloc : Nat → Option Memory) (limit : Nat) (im : Option Pimg) (len : Nat)
    (skip : Bool) : Read Outcome := do
  let bm ← getBmDesc (int32 len)
  if bm.dataStart = 0 ∨ dispsizeOf bm skip = 0 then return .nil
  else
    let bmo ← checkBitmap len bm
    match reusable im (dispsizeOf bm skip) with
    | some im => convertBitmap limit bm bmo skip im
    | none =>
      match pimgInit malloc true (vwidthOf bm skip) (uint32 bm.visibleHeight) with
      | some im => convertBitmap limit bm bmo skip im
      | none => Traced.throw "failed to create image"

end LiveImage
