import Chdkptp.LbufFill
import Chdkptp.RawImage

/-!
# Sub-images of a DNG

What `rc_process_dng` makes of the raw data: the bytes are swapped, and the lines that were
not sent are filled. The numbers of the header and of the options are natural numbers; an
offset loses its fraction when it is converted to `unsigned`.
-/

namespace RcProcessDng

open ByteMemory Lbuf LbufFill PackedField RawAccess RawLayout RawPixel Rawimg

/-- What is read of the main image. -/
structure MainIfd where
  width : Nat
  bpp : Nat
  stripByteCounts : UInt32

/-- `dng_info` as far as it says which lines were sent. -/
structure DngInfo where
  lstart : Nat
  lcount : Nat

/-- The part of `rc_process_dng` that stores `raw.data`; no result when `reverse_bytes` leaves
the buffer. -/
def rcProcessDng (ifd : MainIfd) (dngInfo : DngInfo) (raw : LBuf) : Option LBuf := do
  let raw ← lbufReverseBytes raw
  -- sub-image, pad
  if dngInfo.lstart ≠ 0 ∨ dngInfo.lcount ≠ 0 then
    let fullraw := lbufNew ifd.stripByteCounts
    let offset := ifd.width * dngInfo.lstart * ifd.bpp / 8
    let fullraw := (lbufFill fullraw [0xff] (some 0) (some offset)).1
    let fullraw := (lbufFill fullraw raw.contents (some offset) (some 1)).1
    return (lbufFill fullraw [0xff] (some (offset + raw.len.toNat)) none).1
  else return raw

/-- The bytes of an image of which only a chunk was sent. -/
def padded (size offset : Nat) (chunk : List UInt8) : List UInt8 :=
  (List.replicate offset 0xff ++ chunk ++ List.replicate size 0xff).take size

theorem padded_length (size offset : Nat) (chunk : List UInt8) :
    (padded size offset chunk).length = size := by
  simp [padded]
  omega

theorem padded_getD {size offset o : Nat} (chunk : List UInt8) (ho : o < size) :
    (padded size offset chunk).getD o 0 =
      if offset ≤ o ∧ o < offset + chunk.length then chunk.getD (o - offset) 0 else 0xff := by
  unfold padded
  rw [List.getD_eq_getElem?_getD, List.getElem?_take_of_lt ho, List.append_assoc]
  by_cases hbefore : o < offset
  · rw [List.getElem?_append_left (by simpa using hbefore), List.getElem?_replicate_of_lt hbefore,
      if_neg (by omega)]
    rfl
  · rw [List.getElem?_append_right (by simp; omega), List.length_replicate]
    by_cases hin : o < offset + chunk.length
    · rw [List.getElem?_append_left (by omega), if_pos (by omega), List.getD_eq_getElem?_getD]
    · rw [List.getElem?_append_right (by omega), List.getElem?_replicate_of_lt (by omega),
        if_neg (by omega)]
      rfl

/-! ## What is stored -/

/-- The chunk with its bytes swapped. -/
def chunkBytes (raw : LBuf) : Memory := swapPairs raw.len.toNat raw.bytes

/-- One byte of the result of the three fills, by the place of the chunk and the place behind
it. -/
def storedByte (size place n stop : Nat) (chunk : Memory) (o : Nat) : UInt8 :=
  if stop ≤ o ∧ size ≠ 2 ^ 32 - 1 then 0xff
  else if o < place then 0xff
  else if o < place + n then chunk (o - place)
  else 0

theorem contents_getD (buf : LBuf) {o : Nat} (ho : o < buf.len.toNat) :
    buf.contents.getD o 0 = buf.bytes o := by
  simp [LBuf.contents, slice, ho]

section Stored

variable {ifd : MainIfd} {dngInfo : DngInfo} {raw : LBuf}
  (hsub : dngInfo.lstart ≠ 0 ∨ dngInfo.lcount ≠ 0)

include hsub

theorem rcProcessDng_isSome :
    (rcProcessDng ifd dngInfo raw).isSome = true ↔
      0 < raw.len.toNat ∧ raw.len.toNat ≤ 2 ^ 31 + 1 := by
  rw [← lbufReverseBytes_isSome]
  unfold rcProcessDng
  cases lbufReverseBytes raw with
  | none => exact Iff.rfl
  | some swapped => simp [hsub]

/-- The bytes that the three fills leave behind. -/
theorem rcProcessDng_bytes {full : LBuf} (h : rcProcessDng ifd dngInfo raw = some full) :
    full.len = ifd.stripByteCounts ∧
      ∀ o, o < ifd.stripByteCounts.toNat →
        full.bytes o = storedByte ifd.stripByteCounts.toNat
          (ifd.width * dngInfo.lstart * ifd.bpp / 8 % 2 ^ 32) raw.len.toNat
          ((ifd.width * dngInfo.lstart * ifd.bpp / 8 + raw.len.toNat) % 2 ^ 32)
          (chunkBytes raw) o := by
  have hsize := ifd.stripByteCounts.toNat_lt
  have hn := raw.len.toNat_lt
  have hsome := (rcProcessDng_isSome hsub).mp (Option.isSome_of_eq_some h)
  have hreverse := lbufReverseBytes_eq raw hsome.1 hsome.2
  have hchunk : (LBuf.contents ⟨raw.len, chunkBytes raw⟩).length = raw.len.toNat := contents_length _
  unfold rcProcessDng at h
  rw [hreverse] at h
  simp only [Option.bind_eq_bind, Option.bind_some, if_pos hsub, Option.pure_def, Option.some.injEq] at h
  subst h
  generalize ifd.width * dngInfo.lstart * ifd.bpp / 8 = offset
  have hempty : (lbufNew ifd.stripByteCounts).len = ifd.stripByteCounts := rfl
  refine ⟨by rw [lbufFill_len, lbufFill_len, lbufFill_len, hempty], fun o ho => ?_⟩
  -- the byte is looked up through the fills, from the last to the first
  have hlast := lbufFill_single (lbufFill (lbufFill (lbufNew ifd.stripByteCounts) [0xff] (some 0)
    (some offset)).1 (LBuf.contents ⟨raw.len, chunkBytes raw⟩) (some offset) (some 1)).1 0xff
    (offset + raw.len.toNat) none (by rw [lbufFill_len, lbufFill_len]; exact ho)
  have hcopy := lbufFill_once (lbufFill (lbufNew ifd.stripByteCounts) [0xff] (some 0)
    (some offset)).1 (by rw [hchunk]; omega) (by rw [hchunk]; exact hn) offset
    (by rw [lbufFill_len]; exact ho)
  have hfirst := lbufFill_single (lbufNew ifd.stripByteCounts) 0xff 0 (some offset) ho
  rw [hfirst, hchunk] at hcopy
  rw [hcopy, lbufFill_len, lbufFill_len, hempty] at hlast
  refine hlast.trans ?_
  have hzero : (lbufNew ifd.stripByteCounts).bytes o = 0 := rfl
  have hcount : (ifd.stripByteCounts.toNat + 1) % 2 ^ 32 =
      if ifd.stripByteCounts.toNat = 2 ^ 32 - 1 then 0 else ifd.stripByteCounts.toNat + 1 := by
    split_ifs <;> omega
  rw [hzero, Option.getD_none, Option.getD_some, hcount]
  unfold storedByte
  generalize (offset + raw.len.toNat) % 2 ^ 32 = stop
  generalize offset % 2 ^ 32 = place
  by_cases hrest : stop ≤ o ∧ ifd.stripByteCounts.toNat ≠ 2 ^ 32 - 1
  · rw [if_pos hrest, if_neg hrest.2, if_pos (by omega)]
  · rw [if_neg hrest, if_neg (by split_ifs <;> omega)]
    by_cases hchunk' : place ≤ o ∧ o < place + raw.len.toNat
    · have hin := contents_getD ⟨raw.len, chunkBytes raw⟩ (o := o - place) (by dsimp only; omega)
      rw [if_pos hchunk', hin, if_neg (by omega), if_pos hchunk'.2]
    · rw [if_neg hchunk']
      split_ifs <;> first | rfl | omega

end Stored

/-! ## When the image is padded -/

/-- The bytes of the chunk that are to be stored are all 0xff. -/
def Blank (size place : Nat) (raw : LBuf) : Prop :=
  ∀ k, k < raw.len.toNat → place + k < size → chunkBytes raw k = 0xff

/-- The place behind the chunk wraps to one in the image, and the rest is filled from there. -/
def Covered (size place n : Nat) : Prop :=
  2 ^ 32 ≤ place + n ∧ place + n - 2 ^ 32 < size ∧ size ≠ 2 ^ 32 - 1

/-- The place of the chunk before it is converted to `unsigned`. -/
def chunkOffset (ifd : MainIfd) (dngInfo : DngInfo) : Nat :=
  ifd.width * dngInfo.lstart * ifd.bpp / 8

/-- The condition under which the chunk is padded. -/
structure Paddable (ifd : MainIfd) (dngInfo : DngInfo) (raw : LBuf) : Prop where
  chunk : 0 < raw.len.toNat ∧ raw.len.toNat ≤ 2 ^ 31 + 1
  before : chunkOffset ifd dngInfo % 2 ^ 32 + raw.len.toNat < ifd.stripByteCounts.toNat →
    ifd.stripByteCounts.toNat ≠ 2 ^ 32 - 1 ∧ (chunkOffset ifd dngInfo < 2 ^ 32 ∨
      Blank ifd.stripByteCounts.toNat (chunkOffset ifd dngInfo % 2 ^ 32) raw)
  reaching : ifd.stripByteCounts.toNat ≤ chunkOffset ifd dngInfo % 2 ^ 32 + raw.len.toNat →
    Blank ifd.stripByteCounts.toNat (chunkOffset ifd dngInfo % 2 ^ 32) raw ∨
      (chunkOffset ifd dngInfo < 2 ^ 32 ↔ ¬Covered ifd.stripByteCounts.toNat
        (chunkOffset ifd dngInfo % 2 ^ 32) raw.len.toNat)

/-- One byte of the padded image. -/
def paddedByte (offset n : Nat) (chunk : Memory) (o : Nat) : UInt8 :=
  if offset ≤ o ∧ o < offset + n then chunk (o - offset) else 0xff

/-- Filled up to the chunk, which goes on to the end. -/
def plainByte (place : Nat) (chunk : Memory) (o : Nat) : UInt8 :=
  if o < place then 0xff else chunk (o - place)

section Padding

variable {size offset n : Nat} (chunk : Memory) {raw : LBuf}

theorem storedByte_reaching {place : Nat} (hsize : size < 2 ^ 32) (hplace : place < 2 ^ 32)
    (hn : n < 2 ^ 32) (h : size ≤ place + n) {o : Nat} (ho : o < size) :
    (Covered size place n → storedByte size place n ((place + n) % 2 ^ 32) chunk o = 0xff) ∧
      (¬Covered size place n →
        storedByte size place n ((place + n) % 2 ^ 32) chunk o = plainByte place chunk o) := by
  unfold Covered storedByte plainByte
  constructor
  · intro hcovered
    split_ifs <;> first | rfl | omega
  · intro hcovered
    rw [if_neg (by omega)]
    split_ifs <;> first | rfl | omega

theorem paddedByte_reaching (hsize : size < 2 ^ 32) (h : size ≤ offset % 2 ^ 32 + n) {o : Nat}
    (ho : o < size) :
    (offset < 2 ^ 32 → paddedByte offset n chunk o = plainByte (offset % 2 ^ 32) chunk o) ∧
      (¬offset < 2 ^ 32 → paddedByte offset n chunk o = 0xff) := by
  unfold paddedByte plainByte
  constructor
  · intro hsmall
    rw [Nat.mod_eq_of_lt hsmall] at h ⊢
    split_ifs <;> first | rfl | omega
  · intro hlarge
    rw [if_neg (by omega)]

theorem blank_iff {place : Nat} (h : size ≤ place + raw.len.toNat) :
    Blank size place raw ↔ ∀ o, o < size → plainByte place (chunkBytes raw) o = 0xff := by
  unfold Blank plainByte
  constructor
  · intro hblank o ho
    split_ifs with hbefore
    · rfl
    · exact hblank _ (by omega) (by omega)
  · intro hplain k _ hk
    have hbyte := hplain (place + k) hk
    rwa [if_neg (by omega), Nat.add_sub_cancel_left] at hbyte

/-- The fills leave the padded image where the chunk reaches the end. -/
theorem stored_reaching_iff (hsize : size < 2 ^ 32)
    (h : size ≤ offset % 2 ^ 32 + raw.len.toNat) :
    (∀ o, o < size → storedByte size (offset % 2 ^ 32) raw.len.toNat
        ((offset + raw.len.toNat) % 2 ^ 32) (chunkBytes raw) o =
          paddedByte offset raw.len.toNat (chunkBytes raw) o) ↔
      Blank size (offset % 2 ^ 32) raw ∨
        (offset < 2 ^ 32 ↔ ¬Covered size (offset % 2 ^ 32) raw.len.toNat) := by
  have hn := raw.len.toNat_lt
  have hplace : offset % 2 ^ 32 < 2 ^ 32 := Nat.mod_lt _ (by decide)
  have hstop : (offset + raw.len.toNat) % 2 ^ 32 = (offset % 2 ^ 32 + raw.len.toNat) % 2 ^ 32 := by
    omega
  have hstored := fun (o : Nat) (ho : o < size) =>
    storedByte_reaching (chunkBytes raw) hsize hplace hn h ho
  have hpadded := fun (o : Nat) (ho : o < size) => paddedByte_reaching (chunkBytes raw) hsize h ho
  rw [hstop, blank_iff h]
  by_cases hcovered : Covered size (offset % 2 ^ 32) raw.len.toNat
  · by_cases hsmall : offset < 2 ^ 32
    · have hnot : ¬(offset < 2 ^ 32 ↔ ¬Covered size (offset % 2 ^ 32) raw.len.toNat) :=
        fun hiff => hiff.mp hsmall hcovered
      rw [or_iff_left hnot]
      refine forall₂_congr fun o ho => ?_
      rw [(hstored o ho).1 hcovered, (hpadded o ho).1 hsmall]
      exact eq_comm
    · refine iff_of_true (fun o ho => ?_) (Or.inr (iff_of_false hsmall (not_not_intro hcovered)))
      rw [(hstored o ho).1 hcovered, (hpadded o ho).2 hsmall]
  · by_cases hsmall : offset < 2 ^ 32
    · refine iff_of_true (fun o ho => ?_) (Or.inr (iff_of_true hsmall hcovered))
      rw [(hstored o ho).2 hcovered, (hpadded o ho).1 hsmall]
    · have hnot : ¬(offset < 2 ^ 32 ↔ ¬Covered size (offset % 2 ^ 32) raw.len.toNat) :=
        fun hiff => hsmall (hiff.mpr hcovered)
      rw [or_iff_left hnot]
      refine forall₂_congr fun o ho => ?_
      rw [(hstored o ho).2 hcovered, (hpadded o ho).2 hsmall]

/-- The fills leave the padded image where the chunk ends before the image does. -/
theorem stored_before_iff (hsize : size < 2 ^ 32)
    (h : offset % 2 ^ 32 + raw.len.toNat < size) :
    (∀ o, o < size → storedByte size (offset % 2 ^ 32) raw.len.toNat
        ((offset + raw.len.toNat) % 2 ^ 32) (chunkBytes raw) o =
          paddedByte offset raw.len.toNat (chunkBytes raw) o) ↔
      size ≠ 2 ^ 32 - 1 ∧ (offset < 2 ^ 32 ∨ Blank size (offset % 2 ^ 32) raw) := by
  have hstop : (offset + raw.len.toNat) % 2 ^ 32 = offset % 2 ^ 32 + raw.len.toNat := by omega
  rw [hstop]
  unfold storedByte paddedByte Blank
  constructor
  · intro hsame
    have hrest : size ≠ 2 ^ 32 - 1 := by
      intro hsize'
      have hbyte := hsame (offset % 2 ^ 32 + raw.len.toNat) h
      rw [if_neg (by omega), if_neg (by omega), if_neg (by omega), if_neg (by omega)] at hbyte
      exact absurd hbyte (by decide)
    refine ⟨hrest, ?_⟩
    by_cases hsmall : offset < 2 ^ 32
    · exact Or.inl hsmall
    · refine Or.inr fun k hk hin => ?_
      have hbyte := hsame (offset % 2 ^ 32 + k) hin
      rwa [if_neg (by omega), if_neg (by omega), if_pos (by omega), Nat.add_sub_cancel_left,
        if_neg (by omega)] at hbyte
  · rintro ⟨hrest, hwhere⟩ o ho
    by_cases hbehind : offset % 2 ^ 32 + raw.len.toNat ≤ o
    · rw [if_pos ⟨hbehind, hrest⟩, if_neg (by omega)]
    · rw [if_neg (by omega)]
      by_cases hbefore : o < offset % 2 ^ 32
      · rw [if_pos hbefore, if_neg (by omega)]
      · rw [if_neg hbefore, if_pos (by omega)]
        rcases hwhere with hsmall | hblank
        · rw [if_pos (by omega), Nat.mod_eq_of_lt hsmall]
        · by_cases hsmall : offset < 2 ^ 32
          · rw [if_pos (by omega), Nat.mod_eq_of_lt hsmall]
          · rw [if_neg (by omega)]
            exact hblank _ (by omega) (by omega)

end Padding

/-! ## Pixels -/

/-- A pixel is read from its row, wherever the row stands. -/
theorem getPixel_row (f : RawFormat) {m m' : Memory} {rowBytes len len' x y y' : Nat}
    (hblock : f.blockBytes ∣ rowBytes) (hlen : len < 2 ^ 32) (hlen' : len' < 2 ^ 32)
    (hin : InImage f rowBytes len x y) (hin' : InImage f rowBytes len' x y')
    (h : ∀ o, o < rowBytes → m (y * rowBytes + o) = m' (y' * rowBytes + o)) :
    f.getPixel m rowBytes x y = f.getPixel m' rowBytes x y' := by
  rw [getPixel_read, getPixel_read]
  apply read_congr
  intro i hi
  have hreach : i < reach f x := Nat.lt_of_lt_of_le hi (reach_ge f x)
  have hcell := cell_in_row f hblock (position_in_row f (i := i) hblock hin.column)
  rw [place_eq f hblock hlen hin hreach, place_eq f hblock hlen' hin' hreach]
  simp [bit, h _ hcell]

/-- Swapping twice leaves the bytes of whole words. -/
theorem swapPairs_swapPairs (m : Memory) {len n o : Nat} (heven : len % 2 = 0) (hlen : len ≤ n)
    (ho : o < len) : swapPairs len (swapPairs n m) o = m o := by
  have hmate : mate o < len := by
    unfold mate
    split_ifs <;> omega
  have hmate' : mate (mate o) < n := by
    rw [mate_mate]
    omega
  unfold swapPairs
  rw [if_pos ⟨ho, hmate⟩, if_pos ⟨by omega, hmate'⟩, mate_mate]

/-- The bytes of a row. -/
def rowBytes (ifd : MainIfd) : Nat := ifd.width * ifd.bpp / 8

/-- The stored image has the length of the strip, the chunk stands in it with its bytes swapped,
and a pixel of the chunk is found as many lines later as were not sent; also one that is read
from the chunk as the camera sent it, in the other byte order. -/
structure Pads (ifd : MainIfd) (dngInfo : DngInfo) (raw full : LBuf) : Prop where
  result : rcProcessDng ifd dngInfo raw = some full
  length : full.len = ifd.stripByteCounts
  contents : full.contents =
    padded ifd.stripByteCounts.toNat (chunkOffset ifd dngInfo) (LBuf.contents ⟨raw.len, chunkBytes raw⟩)
  pixels : ∀ (f : RawFormat) (x y : Nat), f.bpp = ifd.bpp → ifd.width % f.blockPixels = 0 →
    x < ifd.width → (y + 1) * rowBytes ifd ≤ raw.len.toNat →
    (y + dngInfo.lstart + 1) * rowBytes ifd ≤ ifd.stripByteCounts.toNat →
    f.getPixel (chunkBytes raw) (rowBytes ifd) x y =
      f.getPixel full.bytes (rowBytes ifd) x (y + dngInfo.lstart)
  camera : ∀ (little big : RawFormat) (x y : Nat), wordSwapped little = true →
    wordSwapped big = false → little.bpp = ifd.bpp → big.bpp = ifd.bpp →
    ifd.width % little.blockPixels = 0 → ifd.width % big.blockPixels = 0 →
    x < ifd.width → (y + 1) * rowBytes ifd ≤ raw.len.toNat →
    (y + dngInfo.lstart + 1) * rowBytes ifd ≤ ifd.stripByteCounts.toNat →
    little.getPixel raw.bytes (rowBytes ifd) x y =
      big.getPixel full.bytes (rowBytes ifd) x (y + dngInfo.lstart)

section Pixels

variable {ifd : MainIfd} {dngInfo : DngInfo} {raw full : LBuf}

/-- Whole blocks make whole rows, and lines make the offset of the chunk. -/
theorem rows_of_block {f : RawFormat} (hbpp : f.bpp = ifd.bpp)
    (hblock : ifd.width % f.blockPixels = 0) :
    f.blockBytes ∣ rowBytes ifd ∧ ifd.width * ifd.bpp = rowBytes ifd * 8 ∧
      chunkOffset ifd dngInfo = dngInfo.lstart * rowBytes ifd := by
  have hbits := row_bits_of_block f hblock
  have hrow : rowBytes ifd = ifd.width / f.blockPixels * f.blockBytes := by
    unfold rowBytes
    rw [← hbpp, hbits, Nat.mul_div_cancel _ (by decide)]
  have hwidth : ifd.width * ifd.bpp = rowBytes ifd * 8 := by rw [hrow, ← hbpp, hbits]
  refine ⟨⟨_, hrow.trans (Nat.mul_comm _ _)⟩, hwidth, ?_⟩
  have hproduct : ifd.width * dngInfo.lstart * ifd.bpp = dngInfo.lstart * rowBytes ifd * 8 := by
    rw [Nat.mul_right_comm, hwidth, Nat.mul_right_comm, Nat.mul_comm (rowBytes ifd)]
  rw [chunkOffset, hproduct, Nat.mul_div_cancel _ (by decide)]

theorem inImage_of_row {f : RawFormat} {len x y : Nat} (hbpp : f.bpp = ifd.bpp)
    (hwidth : ifd.width * ifd.bpp = rowBytes ifd * 8) (hpos : 0 < f.bpp) (hx : x < ifd.width)
    (hrow : (y + 1) * rowBytes ifd ≤ len) : InImage f (rowBytes ifd) len x y := by
  refine ⟨?_, hrow⟩
  rw [← hwidth, ← hbpp]
  exact Nat.mul_lt_mul_of_pos_right hx hpos

/-- The pixels follow from the bytes. -/
theorem pixel_of_bytes (hbytes : ∀ o, o < ifd.stripByteCounts.toNat → full.bytes o =
      paddedByte (chunkOffset ifd dngInfo) raw.len.toNat (chunkBytes raw) o)
    {f : RawFormat} {x y : Nat} (hbpp : f.bpp = ifd.bpp) (hblock : ifd.width % f.blockPixels = 0)
    (hx : x < ifd.width) (hrow : (y + 1) * rowBytes ifd ≤ raw.len.toNat)
    (hfull : (y + dngInfo.lstart + 1) * rowBytes ifd ≤ ifd.stripByteCounts.toNat) :
    f.getPixel (chunkBytes raw) (rowBytes ifd) x y =
      f.getPixel full.bytes (rowBytes ifd) x (y + dngInfo.lstart) := by
  obtain ⟨hdvd, hwidth, hoffset⟩ := @rows_of_block ifd dngInfo f hbpp hblock
  refine getPixel_row f hdvd raw.len.toNat_lt ifd.stripByteCounts.toNat_lt
    (inImage_of_row hbpp hwidth (bpp_pos f) hx hrow)
    (inImage_of_row hbpp hwidth (bpp_pos f) hx hfull) fun o ho => ?_
  rw [Nat.add_mul, Nat.one_mul] at hrow
  rw [Nat.add_mul, Nat.add_mul, Nat.one_mul] at hfull
  rw [Nat.add_mul, hbytes _ (by omega), hoffset]
  unfold paddedByte
  rw [if_pos (by omega)]
  congr 1
  omega

/-- The rows of the chunk, read in the byte order of the camera. -/
theorem camera_pixel {little big : RawFormat} {x y : Nat} (hl : wordSwapped little = true)
    (hb : wordSwapped big = false) (hbpp : little.bpp = ifd.bpp) (hbpp' : big.bpp = ifd.bpp)
    (hblock : ifd.width % little.blockPixels = 0) (hblock' : ifd.width % big.blockPixels = 0)
    (hx : x < ifd.width) (hrow : (y + 1) * rowBytes ifd ≤ raw.len.toNat) :
    little.getPixel raw.bytes (rowBytes ifd) x y =
      big.getPixel (chunkBytes raw) (rowBytes ifd) x y := by
  have hlen := raw.len.toNat_lt
  obtain ⟨hdvd, hwidth, -⟩ := @rows_of_block ifd ⟨0, 0⟩ little hbpp hblock
  obtain ⟨hdvd', -, -⟩ := @rows_of_block ifd ⟨0, 0⟩ big hbpp' hblock'
  have heven : (y + 1) * rowBytes ifd % 2 = 0 := by
    rw [Nat.mul_mod, row_even little hdvd hl, Nat.mul_zero, Nat.zero_mod]
  have hin := inImage_of_row hbpp hwidth (bpp_pos little) hx (Nat.le_refl ((y + 1) * rowBytes ifd))
  have hswap := getPixel_swapPairs little big hl hb (hbpp.trans hbpp'.symm) (chunkBytes raw) hdvd
    hdvd' (by omega) heven hin
  rw [← hswap]
  refine getPixel_row little hdvd (by omega) (by omega) hin hin fun o ho => ?_
  have hplace : y * rowBytes ifd + o < (y + 1) * rowBytes ifd := by
    rw [Nat.add_mul, Nat.one_mul]
    omega
  exact (swapPairs_swapPairs raw.bytes heven hrow hplace).symm

/-- The bytes are those of the padded image. -/
theorem contents_eq_padded_iff (hlen : full.len = ifd.stripByteCounts) :
    full.contents = padded ifd.stripByteCounts.toNat (chunkOffset ifd dngInfo)
        (LBuf.contents ⟨raw.len, chunkBytes raw⟩) ↔
      ∀ o, o < ifd.stripByteCounts.toNat → full.bytes o =
        paddedByte (chunkOffset ifd dngInfo) raw.len.toNat (chunkBytes raw) o := by
  have hchunk : (LBuf.contents ⟨raw.len, chunkBytes raw⟩).length = raw.len.toNat := contents_length _
  have hbyte : ∀ o, o < ifd.stripByteCounts.toNat →
      (padded ifd.stripByteCounts.toNat (chunkOffset ifd dngInfo)
        (LBuf.contents ⟨raw.len, chunkBytes raw⟩)).getD o 0 =
          paddedByte (chunkOffset ifd dngInfo) raw.len.toNat (chunkBytes raw) o := by
    intro o ho
    rw [padded_getD _ ho, hchunk]
    unfold paddedByte
    split_ifs with hin
    · exact contents_getD ⟨raw.len, chunkBytes raw⟩ (by dsimp only; omega)
    · rfl
  constructor
  · intro h o ho
    rw [← hbyte o ho, ← h, contents_getD full (by rw [hlen]; exact ho)]
  · intro h
    apply List.ext_getElem
    · rw [contents_length, padded_length, hlen]
    · intro o ho ho'
      rw [padded_length] at ho'
      have hleft := contents_getD full (o := o) (by rw [hlen]; exact ho')
      have hright := hbyte o ho'
      rw [List.getD_eq_getElem _ _ (by rwa [contents_length] at *)] at hleft
      rw [List.getD_eq_getElem _ _ (by rwa [padded_length])] at hright
      rw [hleft, hright, h o ho']

end Pixels

/-- For every chunk, header and place: the stored image is the padded chunk, if and only if
the chunk can be swapped and the numbers of the three fills do not wrap, or what they leave
is filled all the same. -/
theorem pads_iff (ifd : MainIfd) (dngInfo : DngInfo) (raw : LBuf)
    (hsub : dngInfo.lstart ≠ 0 ∨ dngInfo.lcount ≠ 0) :
    (∃ full, Pads ifd dngInfo raw full) ↔ Paddable ifd dngInfo raw := by
  have hsize := ifd.stripByteCounts.toNat_lt
  have hconditions : (∀ o, o < ifd.stripByteCounts.toNat →
      storedByte ifd.stripByteCounts.toNat (chunkOffset ifd dngInfo % 2 ^ 32) raw.len.toNat
          ((chunkOffset ifd dngInfo + raw.len.toNat) % 2 ^ 32) (chunkBytes raw) o =
        paddedByte (chunkOffset ifd dngInfo) raw.len.toNat (chunkBytes raw) o) ∧
        (0 < raw.len.toNat ∧ raw.len.toNat ≤ 2 ^ 31 + 1) ↔ Paddable ifd dngInfo raw := by
    rcases Nat.lt_or_ge (chunkOffset ifd dngInfo % 2 ^ 32 + raw.len.toNat)
      ifd.stripByteCounts.toNat with hbefore | hreaching
    · rw [stored_before_iff hsize hbefore]
      exact ⟨fun h => ⟨h.2, fun _ => h.1, fun hle => absurd hle (by omega)⟩,
        fun h => ⟨h.before hbefore, h.chunk⟩⟩
    · rw [stored_reaching_iff hsize hreaching]
      exact ⟨fun h => ⟨h.2, fun hlt => absurd hlt (by omega), fun _ => h.1⟩,
        fun h => ⟨h.reaching hreaching, h.chunk⟩⟩
  rw [← hconditions]
  constructor
  · rintro ⟨full, h⟩
    obtain ⟨hlen, hstored⟩ := rcProcessDng_bytes hsub h.result
    have hpadded := (contents_eq_padded_iff hlen).mp h.contents
    exact ⟨fun o ho => (hstored o ho).symm.trans (hpadded o ho),
      (rcProcessDng_isSome hsub).mp (Option.isSome_of_eq_some h.result)⟩
  · rintro ⟨hsame, hchunk⟩
    obtain ⟨full, hfull⟩ := Option.isSome_iff_exists.mp ((rcProcessDng_isSome hsub).mpr hchunk)
    obtain ⟨hlen, hstored⟩ := rcProcessDng_bytes hsub hfull
    have hbytes := fun o ho => (hstored o ho).trans (hsame o ho)
    refine ⟨full, hfull, hlen, (contents_eq_padded_iff hlen).mpr hbytes, ?_, ?_⟩
    · intro f x y hbpp hblock hx hrow hend
      exact pixel_of_bytes hbytes hbpp hblock hx hrow hend
    · intro little big x y hl hb hbpp hbpp' hblock hblock' hx hrow hend
      rw [camera_pixel hl hb hbpp hbpp' hblock hblock' hx hrow]
      exact pixel_of_bytes hbytes hbpp' hblock' hx hrow hend

/-- Two of eight lines of eight pixels of ten bits. -/
theorem pads_iff_lines :
    ((2 : Nat) ≠ 0 ∨ (2 : Nat) ≠ 0) ∧
      ∃ full, Pads ⟨8, 10, 80⟩ ⟨2, 2⟩ ⟨20, fun o => UInt8.ofNat o⟩ full :=
  ⟨by decide, (pads_iff ⟨8, 10, 80⟩ ⟨2, 2⟩ ⟨20, fun o => UInt8.ofNat o⟩ (by decide)).mpr
    ⟨by decide, fun _ => ⟨by decide, Or.inl (by decide)⟩, fun h => absurd h (by decide)⟩⟩

/-- An empty chunk is not padded. -/
theorem not_pads : ¬∃ full, Pads ⟨8, 10, 80⟩ ⟨2, 0⟩ ⟨0, fun _ => 0⟩ full := by
  rintro ⟨full, h⟩
  have hchunk := (rcProcessDng_isSome (by decide)).mp (Option.isSome_of_eq_some h.result)
  exact absurd hchunk.1 (by decide)

end RcProcessDng
