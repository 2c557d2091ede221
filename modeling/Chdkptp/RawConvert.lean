import Chdkptp.RawImage
import Chdkptp.BoundedLoop

/-!
# Converting an image to another format

`img:convert`. The destination is a new buffer, an lbuf from the argument table,
or the very lbuf that the image is bound to, in which case the pixels are read
from memory that the loop is overwriting. The loop logs the row and the offset
of every byte that it assigns.
-/

namespace RawConvert

open ByteMemory RawAccess RawLayout RawPixel Lbuf Rawimg BoundedLoop

set_option maxRecDepth 20000

/-- The `lbuf` field: missing, the image's own lbuf, or one with other memory. -/
inductive LbufArg where
  | absent
  | own
  | other (lb : LBuf)

/-- The entries of `valupmod_strings` and `valdownmod_strings`. -/
inductive ValMod where
  | no | shift
  deriving DecidableEq, Repr

/-- The argument table of `convert`. -/
structure ConvertSpec where
  bpp : UInt32
  endian : OptionArg Endian
  lbuf : LbufArg
  valupmod : OptionArg ValMod
  valdownmod : OptionArg ValMod

/-- The signed shift: right if positive, left if negative. -/
def shiftCount (sourceBpp bpp : Nat) (valupmod valdownmod : ValMod) : Int :=
  if sourceBpp > bpp then
    if valdownmod = .shift then (sourceBpp : Int) - bpp else 0
  else
    if valupmod = .shift then (sourceBpp : Int) - bpp else 0

/-- A value after the shift, as an `unsigned`. -/
def shifted (shift : Int) (v : Nat) : Nat :=
  if shift < 0 then v <<< (-shift).toNat % 2 ^ 32 else v >>> shift.toNat

structure ConvertRun where
  bytes : Memory
  /-- Row and offset of every byte assigned so far. -/
  written : List (Nat × Nat)

/-- The body of the loops. `source` gives the bytes that `img->data` points to
while the destination holds its argument. -/
def convertPixel (img newimg : RawImage) (shift : Int) (source : Memory → Memory) (y x : Nat)
    (s : ConvertRun) : ConvertRun :=
  let v := shifted shift (img.fmt.getPixel (source s.bytes) img.rowBytes.toNat x y)
  { bytes := newimg.fmt.setPixel s.bytes newimg.rowBytes.toNat x y v
    written := s.written ++
      (writeOffsets newimg.fmt newimg.rowBytes.toNat x y).map (fun o => (y, o)) }

def convertLoop (img newimg : RawImage) (shift : Int) (source : Memory → Memory)
    (s : ConvertRun) : ConvertRun :=
  forUp (fun y s => forUp (fun x s => convertPixel img newimg shift source y x s)
    img.width.toNat s) img.height.toNat s

def newSize (img : RawImage) (bpp : UInt32) : UInt32 := img.width * img.height * bpp / 8

/-- The destination lbuf. -/
def destination (malloc : UInt32 → Option Memory) (img : RawImage) (bpp : UInt32) :
    LbufArg → Except String LBuf
  | .absent =>
    match malloc (newSize img bpp) with
    | none => .error "malloc failed"
    | some bytes => .ok ⟨newSize img bpp, bytes⟩
  | .own => if img.lbuf.len ≠ newSize img bpp then .error "lbuf size mismatched" else .ok img.lbuf
  | .other lb => if lb.len ≠ newSize img bpp then .error "lbuf size mismatched" else .ok lb

/-- The bytes behind `img->data` while the destination holds `m`. -/
def sourceBytes (img : RawImage) (lbuf : LbufArg) (m : Memory) : Memory :=
  match lbuf with
  | .own => view m img.offset.toNat
  | _ => img.data

/-- The image that `convert` sets up before its loops. A negative shift count on
the black level is undefined in C; here it is taken modulo 32, as on x86. -/
def newImage (img : RawImage) (fmt : RawFormat) (bpp : UInt32) (shift : Int) (lb : LBuf) :
    RawImage :=
  { img with
    fmt := fmt, rowBytes := img.width * bpp / 8,
    blackLevel := img.blackLevel >>> UInt32.ofInt shift, lbuf := lb, offset := 0 }

/-- The new image and the log of the assigned bytes. -/
def rawimgLuaConvert (malloc : UInt32 → Option Memory) (img : RawImage) (spec : ConvertSpec) :
    Except String (RawImage × List (Nat × Nat)) := do
  let endian ← luTableCheckoption spec.endian none
  let valupmod ← luTableCheckoption spec.valupmod (some .no)
  let valdownmod ← luTableCheckoption spec.valdownmod (some .shift)
  let shift := shiftCount img.fmt.bpp spec.bpp.toNat valupmod valdownmod
  match rawimgFindFormat spec.bpp.toNat endian with
  | none => .error "unknown format"
  | some fmt =>
    let lb ← destination malloc img spec.bpp spec.lbuf
    let newimg := newImage img fmt spec.bpp shift lb
    let run := convertLoop img newimg shift (sourceBytes img spec.lbuf) ⟨lb.bytes, []⟩
    .ok ({ newimg with lbuf := { lb with bytes := run.bytes } }, run.written)

/-! ## What a conversion has done -/

/-- Everything a conversion without an error returns. -/
structure Converted (img : RawImage) (spec : ConvertSpec) (new : RawImage)
    (written : List (Nat × Nat)) (shift : Int) (start : Memory) : Prop where
  format : new.fmt.bpp = spec.bpp.toNat
  width : new.width = img.width
  height : new.height = img.height
  row : new.rowBytes = img.width * spec.bpp / 8
  size : new.lbuf.len = newSize img spec.bpp
  offset : new.offset = 0
  own : spec.lbuf = .own → start = img.lbuf.bytes
  run : ⟨new.lbuf.bytes, written⟩ =
    convertLoop img new shift (sourceBytes img spec.lbuf) ⟨start, []⟩

/-- The loops use of the new image only what the loops do not change. -/
theorem convertLoop_congr (img : RawImage) {new new' : RawImage} (shift : Int)
    (source : Memory → Memory) (s : ConvertRun) (hf : new.fmt = new'.fmt)
    (hr : new.rowBytes = new'.rowBytes) :
    convertLoop img new shift source s = convertLoop img new' shift source s := by
  have hbody : convertPixel img new shift source = convertPixel img new' shift source := by
    funext y x t
    simp only [convertPixel, hf, hr]
  simp only [convertLoop, hbody]

theorem destination_len {malloc : UInt32 → Option Memory} {img : RawImage} {bpp : UInt32}
    {arg : LbufArg} {lb : LBuf} (h : destination malloc img bpp arg = .ok lb) :
    lb.len = newSize img bpp := by
  cases arg with
  | absent =>
    simp only [destination] at h
    split at h
    · cases h
    · cases h
      rfl
  | own =>
    simp only [destination] at h
    split at h
    · cases h
    · rename_i hlen
      cases h
      exact Classical.not_not.mp hlen
  | other lb' =>
    simp only [destination] at h
    split at h
    · cases h
    · rename_i hlen
      cases h
      exact Classical.not_not.mp hlen

theorem destination_own {malloc : UInt32 → Option Memory} {img : RawImage} {bpp : UInt32}
    {lb : LBuf} (h : destination malloc img bpp .own = .ok lb) : lb = img.lbuf := by
  simp only [destination] at h
  split at h
  · cases h
  · cases h
    rfl

theorem convert_ok {malloc : UInt32 → Option Memory} {img new : RawImage} {spec : ConvertSpec}
    {written : List (Nat × Nat)} (h : rawimgLuaConvert malloc img spec = .ok (new, written)) :
    ∃ endian valupmod valdownmod lb,
      luTableCheckoption spec.endian none = .ok endian ∧
      luTableCheckoption spec.valupmod (some .no) = .ok valupmod ∧
      luTableCheckoption spec.valdownmod (some .shift) = .ok valdownmod ∧
      rawimgFindFormat spec.bpp.toNat endian = some new.fmt ∧
      destination malloc img spec.bpp spec.lbuf = .ok lb ∧
      Converted img spec new written
        (shiftCount img.fmt.bpp spec.bpp.toNat valupmod valdownmod) lb.bytes := by
  simp only [rawimgLuaConvert, bind, Except.bind] at h
  split at h
  · cases h
  · rename_i endian hendian
    split at h
    · cases h
    · rename_i valupmod hup
      split at h
      · cases h
      · rename_i valdownmod hdown
        split at h
        · cases h
        · rename_i fmt hfmt
          split at h
          · cases h
          · rename_i lb hlb
            have hlen := destination_len hlb
            have hown : spec.lbuf = .own → lb.bytes = img.lbuf.bytes := by
              intro hspec
              rw [hspec] at hlb
              rw [destination_own hlb]
            cases h
            refine ⟨endian, valupmod, valdownmod, lb, hendian, hup, hdown, hfmt, hlb, ?_⟩
            exact ⟨rawimgFindFormat_bpp hfmt, rfl, rfl, rfl, hlen, rfl, hown,
              convertLoop_congr _ _ _ _ rfl rfl⟩

/-- The format that a conversion asks for. -/
def targetFormat (spec : ConvertSpec) : Option RawFormat :=
  match spec.endian with
  | .given endian => rawimgFindFormat spec.bpp.toNat endian
  | _ => none

theorem convert_format {malloc : UInt32 → Option Memory} {img new : RawImage}
    {spec : ConvertSpec} {written : List (Nat × Nat)} {f : RawFormat}
    (h : rawimgLuaConvert malloc img spec = .ok (new, written)) (hf : targetFormat spec = some f) :
    new.fmt = f := by
  obtain ⟨endian, _, _, _, hendian, _, _, hfmt, _⟩ := convert_ok h
  cases he : spec.endian with
  | absent => simp [targetFormat, he] at hf
  | unknown => simp [targetFormat, he] at hf
  | given e =>
    rw [he] at hendian
    cases hendian
    simp only [targetFormat, he] at hf
    rw [hfmt] at hf
    cases hf
    rfl

section Converted

variable {img new : RawImage} {spec : ConvertSpec} {written : List (Nat × Nat)} {shift : Int}
  {start : Memory}

/-- The assigned bytes are those of the setters, row by row and pixel by pixel. -/
theorem mem_written (h : Converted img spec new written shift start) {y o : Nat} :
    (y, o) ∈ written ↔ y < img.height.toNat ∧ ∃ x, x < img.width.toNat ∧
      o ∈ writeOffsets new.fmt new.rowBytes.toNat x y := by
  have hlog : written =
      (convertLoop img new shift (sourceBytes img spec.lbuf) ⟨start, []⟩).written :=
    congrArg ConvertRun.written h.run
  rw [convertLoop, forUp_log _ ConvertRun.written _ (fun y s =>
    forUp_log _ ConvertRun.written _ (fun x s => rfl) img.width.toNat s)] at hlog
  simp only [hlog, List.nil_append, List.mem_flatMap, List.mem_range, List.mem_map, Prod.mk.injEq]
  constructor
  · rintro ⟨y', hy, x, hx, o', ho, rfl, rfl⟩
    exact ⟨hy, x, hx, ho⟩
  · rintro ⟨hy, x, hx, ho⟩
    exact ⟨y, hy, x, hx, o, ho, rfl, rfl⟩

/-- A byte that is not in the log has kept its value. -/
theorem unwritten_kept (h : Converted img spec new written shift start) {o : Nat}
    (ho : ∀ y, (y, o) ∉ written) : new.lbuf.bytes o = start o := by
  have hrun : ∀ o, (∀ y, (y, o) ∉ (convertLoop img new shift (sourceBytes img spec.lbuf)
      ⟨start, []⟩).written) →
      (convertLoop img new shift (sourceBytes img spec.lbuf) ⟨start, []⟩).bytes o = start o := by
    apply forUp_invariant _ (fun _ (s : ConvertRun) => ∀ o, (∀ y, (y, o) ∉ s.written) →
      s.bytes o = start o)
    · exact fun _ _ => rfl
    · intro y s _ hs
      apply forUp_invariant _ (fun _ (s : ConvertRun) => ∀ o, (∀ y, (y, o) ∉ s.written) →
        s.bytes o = start o) _ _ hs
      intro x t _ ht o hlog
      simp only [convertPixel] at hlog ⊢
      rw [setPixel_outside]
      · exact ht o (fun y' hmem => hlog y' (List.mem_append_left _ hmem))
      · intro hmem
        exact hlog y (List.mem_append_right _ (List.mem_map.mpr ⟨o, hmem, rfl⟩))
  rw [← h.run] at hrun
  exact hrun o ho

/-! ## Staying inside the destination -/

/-- Every assigned byte is in its own row of the image and in the lbuf. -/
def WritesInside (new : RawImage) (written : List (Nat × Nat)) : Prop :=
  ∀ y o, (y, o) ∈ written →
    y * new.rowBytes.toNat ≤ o ∧ o < (y + 1) * new.rowBytes.toNat ∧
      o < new.rowBytes.toNat * new.height.toNat ∧ o < new.lbuf.len.toNat

/-- There is no pixel, or the image's size in bits is below `2^32` and a row is a
whole number of blocks. The big endian 14-bit setter writes nothing in every
second block, so there a row may also end inside such a block. -/
def RowsFit (f : RawFormat) (width height : Nat) : Prop :=
  width = 0 ∨ height = 0 ∨ (width * height * f.bpp < 2 ^ 32 ∧
    (width % f.blockPixels = 0 ∨ (f = .raw14b ∧ 4 ≤ width % 8)))

/-- Eight pixels are `bpp` bytes in every format: an address as a group of eight
pixels and an offset into the group. -/
theorem addr_group (f : RawFormat) (rowBytes x y i : Nat)
    (h : y * rowBytes + x / 8 * f.bpp + (x % 8 / f.blockPixels * f.blockBytes + i) < 2 ^ 32) :
    f.addr rowBytes x y i =
      y * rowBytes + x / 8 * f.bpp + (x % 8 / f.blockPixels * f.blockBytes + i) := by
  cases f <;> simp only [RawFormat.addr, blockAddr, indexAddr, RawFormat.blockPixels,
    RawFormat.blockBytes, RawFormat.bpp] at h ⊢ <;> omega

/-- Which beginnings of a group of eight pixels stay within their whole bytes. -/
theorem group_stores_inside_iff (f : RawFormat) (r : Fin 9) :
    (∀ s, s < r.val → ∀ t ∈ f.stores s,
      s / f.blockPixels * f.blockBytes + t.byte < r.val * f.bpp / 8) ↔
    (r.val % f.blockPixels = 0 ∨ (f = .raw14b ∧ 4 ≤ r.val)) := by
  revert r
  cases f <;> decide +kernel

theorem exists_store (f : RawFormat) : ∃ t, t ∈ f.stores 0 := by
  cases f <;> exact ⟨_, List.mem_cons_self⟩

/-- The byte size of a row by groups of eight pixels. -/
theorem row_groups (f : RawFormat) (width : Nat) :
    width * f.bpp / 8 = width / 8 * f.bpp + width % 8 * f.bpp / 8 := by
  cases f <;> simp only [RawFormat.bpp] <;> omega

theorem mod_blockPixels (f : RawFormat) (width : Nat) :
    width % 8 % f.blockPixels = width % f.blockPixels := by
  have hd : f.blockPixels ∣ 8 := by cases f <;> decide
  exact Nat.mod_mod_of_dvd width hd

/-- Within a row whose last group is inside, every store is. -/
theorem store_in_row (f : RawFormat) {width x : Nat} (hx : x < width)
    (hfit : width % f.blockPixels = 0 ∨ (f = .raw14b ∧ 4 ≤ width % 8)) {t : Store}
    (ht : t ∈ f.stores x) :
    x / 8 * f.bpp + (x % 8 / f.blockPixels * f.blockBytes + t.byte) < width * f.bpp / 8 := by
  rw [f.stores_mod] at ht
  rw [row_groups]
  by_cases hq : x / 8 < width / 8
  · have hfull : _ < 8 * f.bpp / 8 := (group_stores_inside_iff f ⟨8, by decide⟩).mpr
      (.inl (by cases f <;> decide)) (x % 8) (Nat.mod_lt _ (by decide)) t ht
    have hmono : (x / 8 + 1) * f.bpp ≤ width / 8 * f.bpp := Nat.mul_le_mul_right _ hq
    rw [Nat.add_mul] at hmono
    omega
  · have hr : width % 8 < 9 := by omega
    have hlast : _ < width % 8 * f.bpp / 8 := (group_stores_inside_iff f ⟨width % 8, hr⟩).mpr
      (by rw [mod_blockPixels]; exact hfit) (x % 8) (by simp only; omega) t ht
    have he : x / 8 = width / 8 := by omega
    rw [he]
    omega

theorem rowBytes_toNat (h : Converted img spec new written shift start) :
    new.rowBytes.toNat = img.width.toNat * new.fmt.bpp % 2 ^ 32 / 8 := by
  rw [h.row, UInt32.toNat_div, UInt32.toNat_mul, h.format]
  rfl

theorem lbuf_toNat (h : Converted img spec new written shift start) :
    new.lbuf.len.toNat = img.width.toNat * img.height.toNat * new.fmt.bpp % 2 ^ 32 / 8 := by
  rw [h.size, newSize, UInt32.toNat_div, UInt32.toNat_mul, UInt32.toNat_mul, h.format,
    Nat.mod_mul_mod]
  rfl

/-- Below `2^32` bits all of an image's sizes are exact. -/
theorem rows_total {width height bpp : Nat} (hh : 0 < height)
    (hbits : width * height * bpp < 2 ^ 32) :
    width * bpp < 2 ^ 32 ∧ height * (width * bpp / 8) ≤ width * height * bpp / 8 := by
  have hle : width * bpp * 1 ≤ width * bpp * height := Nat.mul_le_mul_left _ hh
  have hcomm : width * bpp * height = width * height * bpp := Nat.mul_right_comm _ _ _
  refine ⟨by omega, ?_⟩
  have hdiv := Nat.mul_div_le_mul_div_assoc height (width * bpp) 8
  have hswap : height * (width * bpp) = width * height * bpp := by
    rw [Nat.mul_comm, hcomm]
  rwa [hswap] at hdiv

theorem writes_inside_of_fit (h : Converted img spec new written shift start)
    (hfit : RowsFit new.fmt img.width.toNat img.height.toNat) : WritesInside new written := by
  intro y o hmem
  obtain ⟨hy, x, hx, ho⟩ := (mem_written h).mp hmem
  rcases hfit with hz | hz | ⟨hbits, hfit⟩
  · omega
  · omega
  · obtain ⟨t, ht, rfl⟩ := List.mem_map.mp ho
    obtain ⟨hwidth, htotal⟩ := rows_total (Nat.zero_lt_of_lt hy) hbits
    have hrow := rowBytes_toNat h
    have hlen := lbuf_toNat h
    rw [Nat.mod_eq_of_lt hwidth] at hrow
    rw [Nat.mod_eq_of_lt hbits] at hlen
    rw [← hrow, ← hlen] at htotal
    have hstore := store_in_row new.fmt hx hfit ht
    rw [← hrow] at hstore
    have hrows : (y + 1) * new.rowBytes.toNat ≤ img.height.toNat * new.rowBytes.toNat :=
      Nat.mul_le_mul_right _ hy
    have hlt := new.lbuf.len.toNat_lt
    have hsucc : (y + 1) * new.rowBytes.toNat = y * new.rowBytes.toNat + new.rowBytes.toNat :=
      Nat.succ_mul _ _
    rw [addr_group new.fmt _ _ _ _ (by omega), h.height, Nat.mul_comm new.rowBytes.toNat]
    exact ⟨by omega, by omega, by omega, by omega⟩

/-- If the row size wraps, some group of eight pixels starts behind it. -/
theorem group_behind_row (f : RawFormat) {width : Nat} (hw : width < 2 ^ 32)
    (hwrap : 2 ^ 32 ≤ width * f.bpp) :
    ∃ k, 8 * k < width ∧ width * f.bpp % 2 ^ 32 / 8 ≤ k * f.bpp ∧ k * f.bpp < 2 ^ 30 := by
  by_cases hlow : width * f.bpp < 2 ^ 32 + 2 ^ 31
  · have hmod : width * f.bpp % 2 ^ 32 / 8 < 2 ^ 28 := by omega
    refine ⟨2 ^ 29 / f.bpp - 1, ?_⟩
    generalize width * f.bpp % 2 ^ 32 / 8 = row at hmod
    cases f <;> simp only [RawFormat.bpp] at hwrap ⊢ <;> omega
  · have hmod : width * f.bpp % 2 ^ 32 / 8 < 2 ^ 29 := by omega
    refine ⟨2 ^ 29 / f.bpp + 1, ?_⟩
    generalize width * f.bpp % 2 ^ 32 / 8 = row at hmod
    cases f <;> simp only [RawFormat.bpp] at hlow ⊢ <;> omega

/-- If only the total wraps, the last row starts behind the wrapped size. -/
theorem last_row_behind {height row bits len : Nat} (hh : 0 < height) (hrow : row < 2 ^ 29)
    (hbits : bits < 8 * ((row + 1) * height)) (hwrap : 2 ^ 32 ≤ bits)
    (hlen : len = bits % 2 ^ 32 / 8) (hpos : 0 < row) : len ≤ (height - 1) * row := by
  obtain ⟨n, rfl⟩ : ∃ n, height = n + 1 := ⟨height - 1, by omega⟩
  obtain ⟨r, rfl⟩ : ∃ r, row = r + 1 := ⟨row - 1, by omega⟩
  have hmod : bits % 2 ^ 32 ≤ bits - 2 ^ 32 := by omega
  simp only [Nat.add_sub_cancel]
  by_contra hlt
  rw [Nat.not_le] at hlt
  have hexp : (r + 1 + 1) * (n + 1) = n * (r + 1) + r + n + 2 := by ring
  rw [hexp] at hbits
  cases n with
  | zero => omega
  | succ m =>
    have hprod : (m + 1) * (r + 1) = m * r + m + r + 1 := by ring
    omega

/-- A column of a group of eight has the group's stores. -/
theorem stores_group (f : RawFormat) {k s : Nat} (hs : s < 8) :
    f.stores (8 * k + s) = f.stores s := by
  have hmod : (8 * k + s) % 8 = s := by omega
  rw [f.stores_mod, hmod]

/-- An address in the first row. -/
theorem addr_first_row (f : RawFormat) (rowBytes k i : Nat) {s : Nat} (hs : s < 8)
    (h : k * f.bpp + (s / f.blockPixels * f.blockBytes + i) < 2 ^ 32) :
    f.addr rowBytes (8 * k + s) 0 i = k * f.bpp + (s / f.blockPixels * f.blockBytes + i) := by
  have hmod : (8 * k + s) % 8 = s := by omega
  have hdiv : (8 * k + s) / 8 = k := by omega
  have haddr := addr_group f rowBytes (8 * k + s) 0 i (by rw [hmod, hdiv, Nat.zero_mul]; omega)
  rwa [hmod, hdiv, Nat.zero_mul, Nat.zero_add] at haddr

/-- A byte's offset within a group of eight pixels. -/
theorem group_offset_lt (f : RawFormat) {s : Nat} (hs : s < 8) {t : Store} (ht : t ∈ f.stores s) :
    s / f.blockPixels * f.blockBytes + t.byte < 2 ^ 7 := by
  have hbyte := stores_byte_lt f s t ht
  have hpixel : s / f.blockPixels ≤ 7 := Nat.le_trans (Nat.div_le_self _ _) (by omega)
  have hblock : f.blockBytes ≤ 14 := by cases f <;> decide
  have hle : s / f.blockPixels * f.blockBytes ≤ 7 * 14 := Nat.mul_le_mul hpixel hblock
  omega

/-- The bytes of each store of an image that is written inside. -/
theorem store_inside (h : Converted img spec new written shift start)
    (hin : WritesInside new written) {x y : Nat} (hx : x < img.width.toNat)
    (hy : y < img.height.toNat) {t : Store} (ht : t ∈ new.fmt.stores x) :
    y * new.rowBytes.toNat ≤ new.fmt.addr new.rowBytes.toNat x y t.byte ∧
      new.fmt.addr new.rowBytes.toNat x y t.byte < (y + 1) * new.rowBytes.toNat ∧
      new.fmt.addr new.rowBytes.toNat x y t.byte < new.lbuf.len.toNat := by
  obtain ⟨hlow, hrow, _, hlen⟩ :=
    hin y _ ((mem_written h).mpr ⟨hy, x, hx, List.mem_map.mpr ⟨t, ht, rfl⟩⟩)
  exact ⟨hlow, hrow, hlen⟩

/-- The row size does not wrap: otherwise a group of the first row is behind the row. -/
theorem row_bits_of_inside (h : Converted img spec new written shift start)
    (hin : WritesInside new written) (hh : 0 < img.height.toNat) :
    img.width.toNat * new.fmt.bpp < 2 ^ 32 := by
  by_contra hwrap
  obtain ⟨k, hk, hbehind, hk30⟩ :=
    group_behind_row new.fmt img.width.toNat_lt (Nat.not_lt.mp hwrap)
  obtain ⟨t, ht⟩ := exists_store new.fmt
  have hoffset := group_offset_lt new.fmt (by decide) ht
  have haddr := addr_first_row new.fmt new.rowBytes.toNat k t.byte
    (show 0 < 8 by decide) (by omega)
  have ht' : t ∈ new.fmt.stores (8 * k + 0) := by
    rw [stores_group new.fmt (by decide)]
    exact ht
  have hx : 8 * k + 0 < img.width.toNat := hk
  have hlt := (store_inside h hin hx hh ht').2.1
  have hrow := rowBytes_toNat h
  rw [haddr] at hlt
  omega

/-- Nor does the total: otherwise the last row is behind the lbuf. -/
theorem total_bits_of_inside (h : Converted img spec new written shift start)
    (hin : WritesInside new written) (hw : 0 < img.width.toNat) (hh : 0 < img.height.toNat) :
    img.width.toNat * img.height.toNat * new.fmt.bpp < 2 ^ 32 := by
  by_contra hwrap
  obtain ⟨t, ht⟩ := exists_store new.fmt
  obtain ⟨hlow, hhigh, hlbuf⟩ :=
    store_inside h hin hw (show img.height.toNat - 1 < img.height.toNat by omega) ht
  have hpos : 0 < new.rowBytes.toNat := by
    apply Nat.pos_of_ne_zero
    intro hz
    rw [hz, Nat.mul_zero] at hhigh
    exact Nat.not_lt_zero _ hhigh
  have hrow := rowBytes_toNat h
  rw [Nat.mod_eq_of_lt (row_bits_of_inside h hin hh)] at hrow
  have hrowbits : img.width.toNat * new.fmt.bpp < 8 * (new.rowBytes.toNat + 1) := by omega
  have htotal : img.width.toNat * new.fmt.bpp * img.height.toNat <
      8 * (new.rowBytes.toNat + 1) * img.height.toNat := Nat.mul_lt_mul_of_pos_right hrowbits hh
  rw [Nat.mul_right_comm, Nat.mul_assoc 8] at htotal
  have hsmall : new.rowBytes.toNat < 2 ^ 29 := by
    have := row_bits_of_inside h hin hh
    omega
  have hbehind := last_row_behind hh hsmall htotal (Nat.not_lt.mp hwrap) (lbuf_toNat h) hpos
  omega

/-- And the last group of the first row ends inside the row. -/
theorem last_group_of_inside (h : Converted img spec new written shift start)
    (hin : WritesInside new written) (hh : 0 < img.height.toNat) :
    img.width.toNat % new.fmt.blockPixels = 0 ∨
      (new.fmt = .raw14b ∧ 4 ≤ img.width.toNat % 8) := by
  have hwidth := row_bits_of_inside h hin hh
  have hrow := rowBytes_toNat h
  rw [Nat.mod_eq_of_lt hwidth, row_groups] at hrow
  have hr : img.width.toNat % 8 < 9 := by omega
  rw [← mod_blockPixels]
  apply (group_stores_inside_iff new.fmt ⟨img.width.toNat % 8, hr⟩).mp
  intro s hs t ht
  have hs8 : s < 8 := Nat.lt_trans hs (Nat.mod_lt _ (by decide))
  have hoffset := group_offset_lt new.fmt hs8 ht
  have hgroups := row_groups new.fmt img.width.toNat
  have haddr := addr_first_row new.fmt new.rowBytes.toNat (img.width.toNat / 8) t.byte
    hs8 (by omega)
  have hx : 8 * (img.width.toNat / 8) + s < img.width.toNat := by
    have : s < img.width.toNat % 8 := hs
    omega
  have ht' : t ∈ new.fmt.stores (8 * (img.width.toNat / 8) + s) := by
    rw [stores_group new.fmt hs8]
    exact ht
  have hlt := (store_inside h hin hx hh ht').2.1
  rw [haddr] at hlt
  simp only
  omega

theorem fit_of_writes_inside (h : Converted img spec new written shift start)
    (hin : WritesInside new written) : RowsFit new.fmt img.width.toNat img.height.toNat := by
  by_cases hw : img.width.toNat = 0
  · exact .inl hw
  by_cases hh : img.height.toNat = 0
  · exact .inr (.inl hh)
  exact .inr (.inr ⟨total_bits_of_inside h hin (by omega) (by omega),
    last_group_of_inside h hin (by omega)⟩)

end Converted

/-- A conversion writes inside its destination exactly when the rows fit. -/
theorem convert_writes_inside_iff (malloc : UInt32 → Option Memory) (img new : RawImage)
    (spec : ConvertSpec) (written : List (Nat × Nat)) (f : RawFormat)
    (hf : targetFormat spec = some f)
    (h : rawimgLuaConvert malloc img spec = .ok (new, written)) :
    WritesInside new written ↔ RowsFit f img.width.toNat img.height.toNat := by
  obtain ⟨_, _, _, _, _, _, _, _, _, hc⟩ := convert_ok h
  rw [← convert_format h hf]
  exact ⟨fit_of_writes_inside hc, writes_inside_of_fit hc⟩

/-- One 8-bit pixel. -/
def onePixelSpec : ImgSpec where
  data := ⟨1, fun _ => 0⟩
  dataOffset := none
  width := 1
  height := 1
  bpp := 8
  endian := .given .little
  blackLevel := none
  cfaPattern := none
  activeArea := none

def toTenBits : ConvertSpec where
  bpp := 10
  endian := .given .little
  lbuf := .absent
  valupmod := .absent
  valdownmod := .absent

/-- The 10-bit setter assigns two bytes; the new buffer and its only row have one. -/
theorem convert_writes_outside : ∃ img new written, rawimgLuaBindLbuf onePixelSpec = .ok img ∧
    rawimgLuaConvert (fun _ => some (fun _ => 0)) img toTenBits = .ok (new, written) ∧
    ¬WritesInside new written := by
  refine ⟨_, _, _, rfl, rfl, ?_⟩
  intro h
  have hmem := (h 0 1 (by decide)).2.1
  revert hmem
  decide

theorem convert_writes_inside_witness : ∃ img new written, rawimgLuaBindLbuf smallSpec = .ok img ∧
    rawimgLuaConvert (fun _ => some (fun _ => 255)) img toTenBits = .ok (new, written) ∧
    (WritesInside new written ↔ RowsFit .raw10l img.width.toNat img.height.toNat) :=
  ⟨_, _, _, rfl, rfl, convert_writes_inside_iff (fun _ => some (fun _ => 255)) _ _ toTenBits _
    .raw10l rfl rfl⟩

end RawConvert
