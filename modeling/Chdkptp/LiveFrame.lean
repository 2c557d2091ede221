import Chdkptp.TracedRead
import Mathlib.Algebra.Group.Int.Defs
import Mathlib.Algebra.Group.Nat.Defs

/-!
# Live view frames

The header of a live view frame, its framebuffer descriptions and the checks that
`liveimg.c` makes before it converts one. All fields are signed 32-bit values from the
camera; `int` arithmetic wraps, `size_t` has 64 bits. A computation reads the memory
around the frame by the offset from its first byte.
-/

namespace LiveFrame

open TracedRead

/-- A value as it is kept in an `int`. -/
def int32 (n : Int) : Int := n.bmod (2 ^ 32)

/-- A value as it is kept in an `unsigned`. -/
def uint32 (n : Int) : Nat := (n % 2 ^ 32).toNat

/-- Reads of a frame; an error is the text for `luaL_error`. -/
abbrev Read (α : Type) := Traced String α

/-- An `int` in the byte order of the camera. -/
def intAt (o : Int) : Read Int := do
  let b0 ← Traced.byteAt o
  let b1 ← Traced.byteAt (o + 1)
  let b2 ← Traced.byteAt (o + 2)
  let b3 ← Traced.byteAt (o + 3)
  return int32 (b0.toNat + b1.toNat * 2 ^ 8 + b2.toNat * 2 ^ 16 + b3.toNat * 2 ^ 24 : Nat)

/-! ## The header -/

def versionMajor : Read Int := intAt 0

def versionMinor : Read Int := intAt 4

def paletteType : Read Int := intAt 12

def paletteDataStart : Read Int := intAt 16

def vpDescStart : Read Int := intAt 20

def bmDescStart : Read Int := intAt 24

def bmoDescStart : Read Int := intAt 28

/-- `lv_proto_compatible` -/
def lvProtoCompatible (reqMajor reqMinor : Int) : Read Bool := do
  let major ← versionMajor
  if reqMajor ≠ major then return false
  else
    let minor ← versionMinor
    return !(reqMinor < minor)

/-! ## Framebuffer descriptions -/

/-- The fields of `lv_framebuffer_desc` that are read; the margins are not. -/
structure FbDesc where
  fbType : Int
  dataStart : Int
  bufferWidth : Int
  visibleWidth : Int
  visibleHeight : Int
  deriving DecidableEq, Repr

/-- The size of the structure with its margins. -/
def sizeofFbDesc : Int := 36

/-- `lv_fb_type` -/
def LV_FB_YUV8 : Int := 0
def LV_FB_PAL8 : Int := 1
def LV_FB_YUV8B : Int := 2
def LV_FB_YUV8C : Int := 3
def LV_FB_OPACITY8 : Int := 4

def fbDescAt (start : Int) : Read FbDesc := do
  let fbType ← intAt start
  let dataStart ← intAt (start + 4)
  let bufferWidth ← intAt (start + 8)
  let visibleWidth ← intAt (start + 12)
  let visibleHeight ← intAt (start + 16)
  return { fbType, dataStart, bufferWidth, visibleWidth, visibleHeight }

/-- `get_fb_desc`. The sum with `sizeof` and with it the comparison is one of `size_t`, so
a negative `data_len` counts as huge. -/
def getFbDesc (dataLen start : Int) : Read FbDesc :=
  if start ≤ 0 then Traced.throw "no desc"
  else if (start + sizeofFbDesc) % 2 ^ 64 > dataLen % 2 ^ 64 then Traced.throw "data < fb_desc"
  else fbDescAt start

/-- `check_fb_desc` -/
def checkFbDesc (desc : FbDesc) (bpp dataLen : Int) : Read FbDesc :=
  if desc.dataStart ≠ 0 ∧ int32 (desc.dataStart +
      (int32 (int32 (desc.bufferWidth * desc.visibleHeight) * bpp)).tdiv 8) > dataLen then
    Traced.throw "data < buffer_width*height"
  else if desc.visibleWidth > desc.bufferWidth then Traced.throw "width  > buffer_width"
  else return desc

/-- `get_vp_desc` -/
def getVpDesc (dataLen : Int) : Read FbDesc := do
  let start ← vpDescStart
  let desc ← getFbDesc dataLen start
  if desc.fbType = LV_FB_YUV8 then checkFbDesc desc 12 dataLen
  else if desc.fbType = LV_FB_YUV8B ∨ desc.fbType = LV_FB_YUV8C then
    let compatible ← lvProtoCompatible 2 2
    if compatible then checkFbDesc desc 16 dataLen
    else Traced.throw "viewport type not supported by protocol"
  else Traced.throw "viewport type not supported"

/-- `get_bm_desc` -/
def getBmDesc (dataLen : Int) : Read FbDesc := do
  let start ← bmDescStart
  let desc ← getFbDesc dataLen start
  if desc.fbType = LV_FB_PAL8 then checkFbDesc desc 8 dataLen
  else if desc.fbType = LV_FB_YUV8B then
    let compatible ← lvProtoCompatible 2 2
    if compatible then checkFbDesc desc 16 dataLen
    else Traced.throw "bitmap type not supported by protocol"
  else Traced.throw "overlay type not supported"

/-- `get_bmo_desc` -/
def getBmoDesc (dataLen : Int) : Read FbDesc := do
  let compatible ← lvProtoCompatible 2 2
  if compatible then
    let start ← bmoDescStart
    let desc ← getFbDesc dataLen start
    if desc.fbType = LV_FB_OPACITY8 then checkFbDesc desc 8 dataLen
    else Traced.throw "opacity type not supported"
  else Traced.throw "opacity type not supported by protocol"

/-! ## What is read -/

variable {m : Bytes}

/-- The `int` at an offset of a memory. -/
def intOf (m : Bytes) (o : Int) : Int :=
  int32 ((m o).toNat + (m (o + 1)).toNat * 2 ^ 8 + (m (o + 2)).toNat * 2 ^ 16 +
    (m (o + 3)).toNat * 2 ^ 24 : Nat)

theorem intAt_apply (o : Int) (m : Bytes) :
    intAt o m = (.ok (intOf m o), [o, o + 1, o + 2, o + 3]) := rfl

def fbDescOf (m : Bytes) (start : Int) : FbDesc :=
  ⟨intOf m start, intOf m (start + 4), intOf m (start + 8), intOf m (start + 12),
    intOf m (start + 16)⟩

/-- The offsets of the fields of a description. -/
def fbDescReads (start : Int) : List Int := (List.range 20).map fun k : Nat => start + k

theorem fbDescAt_apply (start : Int) (m : Bytes) :
    fbDescAt start m = (.ok (fbDescOf m start), fbDescReads start) := by
  have hreads : fbDescReads start = [start, start + 1, start + 2, start + 3] ++
      ([start + 4, start + 4 + 1, start + 4 + 2, start + 4 + 3] ++
        ([start + 8, start + 8 + 1, start + 8 + 2, start + 8 + 3] ++
          ([start + 12, start + 12 + 1, start + 12 + 2, start + 12 + 3] ++
            ([start + 16, start + 16 + 1, start + 16 + 2, start + 16 + 3] ++ [])))) := by
    simp [fbDescReads, List.range_succ_eq_map, Int.add_assoc]
  rw [hreads]
  rfl

-- the arithmetic of the bytes is not to be computed when types are compared
attribute [irreducible] intOf

end LiveFrame
