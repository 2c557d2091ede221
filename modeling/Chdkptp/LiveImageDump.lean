import Chdkptp.ActionSystem
import Chdkptp.LivePacked
import Chdkptp.LiveReads
import Chdkptp.LuaText

/-!
# Image files of live view frames

`chdku.live_dump_vp_pbm` and `chdku.live_dump_bm_pam` convert a frame into the image that
their options hold, pack it into the buffer that they hold, and write a header and the
bytes of the buffer. The functions of `liveimg` have already made the image half as wide
for `skip`, and the header halves its width again.
-/

namespace LiveImageDump

open ByteMemory TracedRead LiveFrame LivePixel LiveImage LiveCalls LivePlanes LivePacked Lbuf LuaValue LuaText
  LiveReads ActionSystem

/-! ## Headers -/

/-- A header around a width and a height. -/
structure Header where
  start : LuaString
  middle : LuaString
  stop : LuaString

/-- `string.format` of a header, with numbers that `%d` takes the whole part of. -/
def Header.text (header : Header) (width height : Nat) : LuaString :=
  header.start ++ (numeralText 10 width ++ (header.middle ++
    (numeralText 10 height ++ header.stop)))

/-- `'P6\n%d\n%d\n%d\n'` with 255. -/
def pbmHeader : Header where
  start := bytes "P6\n".toList
  middle := bytes "\n".toList
  stop := bytes "\n255\n".toList

/-- `'P7\nWIDTH %d\nHEIGHT %d\nDEPTH %d\nMAXVAL %d\nTUPLTYPE RGB_ALPHA\nENDHDR\n'` with 4
and 255. -/
def pamHeader : Header where
  start := bytes "P7\nWIDTH ".toList
  middle := bytes "\nHEIGHT ".toList
  stop := bytes "\nDEPTH 4\nMAXVAL 255\nTUPLTYPE RGB_ALPHA\nENDHDR\n".toList

def dropText (text s : LuaString) : Option LuaString :=
  if s.take text.length = text then some (s.drop text.length) else none

def readNumber (s : LuaString) : Option (Nat × LuaString) :=
  (digitsValue 10 (s.takeWhile isDigit)).map fun n => (n, s.dropWhile isDigit)

/-- The width, the height and the data behind a header. -/
def Header.read (header : Header) (s : LuaString) : Option (Nat × Nat × LuaString) := do
  let s ← dropText header.start s
  let (width, s) ← readNumber s
  let s ← dropText header.middle s
  let (height, s) ← readNumber s
  let s ← dropText header.stop s
  return (width, height, s)

theorem dropText_append (text s : LuaString) : dropText text (text ++ s) = some s := by
  simp [dropText]

theorem readNumber_append {c : UInt8} (hc : isDigit c = false) (n : Nat) (s : LuaString) :
    readNumber (numeralText 10 n ++ c :: s) = some (n, c :: s) := by
  have hdigits := numeralText_digits n
  have hhead : (numeralText 10 n ++ c :: s).takeWhile isDigit = numeralText 10 n := by
    rw [List.takeWhile_append_of_pos hdigits, List.takeWhile_cons_of_neg (by simp [hc]),
      List.append_nil]
  have htail : (numeralText 10 n ++ c :: s).dropWhile isDigit = c :: s := by
    rw [List.dropWhile_append_of_pos hdigits, List.dropWhile_cons_of_neg (by simp [hc])]
  rw [readNumber, hhead, htail, digitsValue_numeralText (by decide) (by decide)]
  rfl

/-- A header is read back when its parts do not begin with digits. -/
theorem Header.read_text {header : Header} {c c' : UInt8} {middle stop : LuaString}
    (hmiddle : header.middle = c :: middle) (hstop : header.stop = c' :: stop)
    (hc : isDigit c = false) (hc' : isDigit c' = false) (width height : Nat) (data : LuaString) :
    header.read (header.text width height ++ data) = some (width, height, data) := by
  simp only [Header.read, Header.text, List.append_assoc, dropText_append, Option.bind_eq_bind,
    Option.bind_some]
  rw [hmiddle, List.cons_append, readNumber_append hc]
  simp only [Option.bind_some]
  rw [← List.cons_append, dropText_append]
  simp only [Option.bind_some]
  rw [hstop, List.cons_append, readNumber_append hc']
  simp only [Option.bind_some]
  rw [← List.cons_append, dropText_append]
  rfl

/-! ## Dumps -/

/-- The two functions. -/
inductive Dumper where
  | vpPbm
  | bmPam
  deriving DecidableEq

namespace Dumper

def alpha : Dumper → Bool
  | .vpPbm => false
  | .bmPam => true

def header : Dumper → Header
  | .vpPbm => pbmHeader
  | .bmPam => pamHeader

def getDesc (len : Int) : Dumper → Read FbDesc
  | .vpPbm => getVpDesc len
  | .bmPam => getBmDesc len

def getPimg (malloc : Nat → Option Memory) (limit : Nat) (im : Option Pimg) (len : Nat)
    (skip : Bool) : Dumper → Read Outcome
  | .vpPbm => getViewportPimg malloc limit im len skip
  | .bmPam => getBitmapPimg malloc limit im len skip

/-- The error when a frame has no such data. -/
def noImage : Dumper → String
  | .vpPbm => "no viewport data"
  | .bmPam => "attempt to index field 'pimg' (a nil value)"

end Dumper

/-- What stays in the options from one dump to the next. -/
structure Opts where
  pimg : Option Pimg
  lb : Option LBuf

/-- A frame and the other options of a dump, and what the system does with it. -/
structure Dump where
  frame : Bytes
  len : Nat
  skip : Bool
  limit : Nat
  malloc : Nat → Option Memory
  mallocLb : Nat → Option Memory
  /-- `live_dump_img_open` -/
  imgOpen : Except String Unit

/-- An image after `pimg_destroy`. -/
def destroyed (im : Pimg) : Pimg :=
  { im with width := 0, height := 0, alpha := false, size := 0, block := 0 }

/-- The image in the options after an error; it has been destroyed where a new one could not
be made. -/
def pimgLeft (message : String) (im : Option Pimg) : Option Pimg :=
  if message = "failed to create image" then im.map destroyed else im

/-- `pimg:width()`, which is halved for `skip`. -/
def headerWidth (im : Pimg) (skip : Bool) : Nat := if skip then im.width / 2 else im.width

/-- A dump: what it writes or its error, and the options then. None if it does not return. -/
def liveDump (dumper : Dumper) (d : Dump) (opts : Opts) : Option (Except String LuaString × Opts) :=
  match (dumper.getPimg d.malloc d.limit opts.pimg d.len d.skip d.frame).1 with
  | .error message => some (.error message, { opts with pimg := pimgLeft message opts.pimg })
  | .ok .nil => some (.error dumper.noImage, { opts with pimg := none })
  | .ok (.image im _ _) =>
    match pimgToPacked d.mallocLb im opts.lb dumper.alpha with
    | none => some (.error "malloc failed", { opts with pimg := some im })
    | some lb =>
      some (d.imgOpen.map fun _ =>
        dumper.header.text (headerWidth im d.skip) im.height ++ slice lb.bytes 0 lb.len.toNat,
        { pimg := some im, lb := some lb })
  | .ok .running => none
  | .ok .crash => none

/-- `chdku.live_dump_vp_pbm` -/
def liveDumpVpPbm : Dump → Opts → Option (Except String LuaString × Opts) := liveDump .vpPbm

/-- `chdku.live_dump_bm_pam` -/
def liveDumpBmPam : Dump → Opts → Option (Except String LuaString × Opts) := liveDump .bmPam

/-- The header has the dimensions of the frame, and data for as many pixels follow. -/
def WellFormed (dumper : Dumper) (d : Dump) (file : LuaString) : Prop :=
  ∃ width height data desc, dumper.header.read file = some (width, height, data) ∧
    data.length = width * height * planesOf dumper.alpha ∧
    (dumper.getDesc (int32 d.len) d.frame).1 = .ok desc ∧
    width = vwidthOf desc d.skip ∧ height = uint32 desc.visibleHeight

/-- A bitmap is not converted into an image of another shape. -/
def KeepsShape (dumper : Dumper) (im : Option Pimg) (desc : FbDesc) (skip : Bool) : Prop :=
  dumper = .bmPam → ∀ old, reusable im (dispsizeOf desc skip) = some old →
    old.width = vwidthOf desc skip ∧ old.height = uint32 desc.visibleHeight

/-- Nothing is skipped, the size of the data does not wrap, and the shape is kept. -/
def Dumpable (dumper : Dumper) (d : Dump) (opts : Opts) : Prop :=
  d.skip = false ∧ ∀ desc, (dumper.getDesc (int32 d.len) d.frame).1 = .ok desc →
    vwidthOf desc d.skip * uint32 desc.visibleHeight * planesOf dumper.alpha < 2 ^ 32 ∧
      KeepsShape dumper opts.pimg desc d.skip

theorem liveDump_file {dumper : Dumper} {d : Dump} {opts opts' : Opts} {file : LuaString}
    (h : liveDump dumper d opts = some (.ok file, opts')) :
    ∃ (im : Pimg) (written : Nat) (again : Option Nat) (lb : LBuf),
      (dumper.getPimg d.malloc d.limit opts.pimg d.len d.skip d.frame).1 =
        .ok (.image im written again) ∧
      lb.len.toNat = packedSize im dumper.alpha ∧
      file = dumper.header.text (headerWidth im d.skip) im.height ++
        slice lb.bytes 0 lb.len.toNat := by
  unfold liveDump at h
  split at h
  · cases h
  · cases h
  · rename_i im written again himage
    split at h
    · cases h
    · rename_i lb hlb
      refine ⟨im, written, again, lb, himage, pimgToPacked_len hlb, ?_⟩
      cases hopen : d.imgOpen with
      | error message =>
        rw [hopen] at h
        cases h
      | ok u =>
        rw [hopen] at h
        cases h
        rfl
  · cases h
  · cases h

theorem header_read (dumper : Dumper) (width height : Nat) (data : LuaString) :
    dumper.header.read (dumper.header.text width height ++ data) = some (width, height, data) := by
  cases dumper with
  | vpPbm => exact Header.read_text rfl rfl (by decide) (by decide) width height data
  | bmPam => exact Header.read_text rfl rfl (by decide) (by decide) width height data

theorem wellFormed_text_iff (dumper : Dumper) (d : Dump) (width height : Nat) (data : LuaString) :
    WellFormed dumper d (dumper.header.text width height ++ data) ↔
      data.length = width * height * planesOf dumper.alpha ∧
        ∃ desc, (dumper.getDesc (int32 d.len) d.frame).1 = .ok desc ∧
          width = vwidthOf desc d.skip ∧ height = uint32 desc.visibleHeight := by
  rw [WellFormed, header_read]
  constructor
  · rintro ⟨width', height', data', desc, hread, hlength, hdesc⟩
    obtain ⟨rfl, rfl, rfl⟩ : width = width' ∧ height = height' ∧ data = data' := by
      simpa using hread
    exact ⟨hlength, desc, hdesc⟩
  · rintro ⟨hlength, desc, hdesc⟩
    exact ⟨width, height, data, desc, rfl, hlength, hdesc⟩

/-- The dimensions of a new image or of one that is used again. -/
structure Dims (dumper : Dumper) (im : Option Pimg) (desc : FbDesc) (skip : Bool) (image : Pimg) :
    Prop where
  size : dispsizeOf desc skip ≠ 0
  area : image.width * image.height % 2 ^ 32 = dispsizeOf desc skip
  shape : image.width = vwidthOf desc skip ∧ image.height = uint32 desc.visibleHeight ↔
    KeepsShape dumper im desc skip

theorem vpTarget_dims {malloc : Nat → Option Memory} {im : Option Pimg} {skip : Bool} {vp : FbDesc}
    {target : Pimg} (hsize : dispsizeOf vp skip ≠ 0)
    (h : vpTarget malloc im vp skip = some target) : Dims .vpPbm im vp skip target := by
  have hdims : target.width = vwidthOf vp skip ∧ target.height = uint32 vp.visibleHeight := by
    unfold vpTarget at h
    split at h
    · cases h
      exact ⟨rfl, rfl⟩
    · exact (pimgInit_made h).2
  refine ⟨hsize, ?_, iff_of_true hdims fun hbm => (by cases hbm)⟩
  rw [hdims.1, hdims.2]
  rfl

theorem bmTarget_dims {malloc : Nat → Option Memory} {im : Option Pimg} {skip : Bool} {bm : FbDesc}
    {target : Pimg} (hsize : dispsizeOf bm skip ≠ 0)
    (h : bmTarget malloc im bm skip = some target) : Dims .bmPam im bm skip target := by
  have hshape := bmTarget_shape h
  refine ⟨hsize, ?_, hshape.trans ⟨fun hkeeps _ => hkeeps, fun hkeeps => hkeeps rfl⟩⟩
  unfold bmTarget at h
  split at h
  · rename_i old hreuse
    obtain rfl := Option.some.inj h
    exact (reusable_eq_some hreuse).2
  · obtain ⟨hwidth, hheight⟩ := (pimgInit_made h).2
    rw [hwidth, hheight]
    rfl

theorem Dims.filled {dumper : Dumper} {im : Option Pimg} {desc : FbDesc} {skip : Bool}
    {target image : Pimg} (h : Dims dumper im desc skip target) {pixels : List Pixel}
    {again : Option (List UInt8)} {ended : Bool} {written : Nat} {written' : Option Nat}
    (hfill : fill target pixels again ended = .image image written written') :
    Dims dumper im desc skip image := by
  obtain ⟨data, rfl⟩ := fill_image hfill
  exact ⟨h.size, h.area, h.shape⟩

theorem getPimg_dims {dumper : Dumper} {malloc : Nat → Option Memory} {limit : Nat}
    {im : Option Pimg} {len : Nat} {skip : Bool} {m : Bytes} {image : Pimg} {written : Nat}
    {again : Option Nat}
    (h : (dumper.getPimg malloc limit im len skip m).1 = .ok (.image image written again)) :
    ∃ desc, (dumper.getDesc (int32 len) m).1 = .ok desc ∧ Dims dumper im desc skip image := by
  cases dumper with
  | vpPbm =>
    obtain ⟨vp, target, hconverts, hfill⟩ := getViewportPimg_image h
    exact ⟨vp, hconverts.desc, (vpTarget_dims hconverts.size hconverts.target).filled hfill⟩
  | bmPam =>
    obtain ⟨bm, bmo, target, hconverts, -, hfill⟩ := getBitmapPimg_image h
    exact ⟨bm, hconverts.desc, (bmTarget_dims hconverts.size hconverts.target).filled hfill⟩

/-- Half the width of the image is not the width that it should have. -/
theorem halved_ne {w width height p : Nat} (hp : 3 ≤ p) (hsize : width * height % 2 ^ 32 ≠ 0)
    (harea : w * height % 2 ^ 32 = width * height % 2 ^ 32) (hwidth : w / 2 = width) :
    w * height * p % 2 ^ 32 ≠ width * height * p := by
  intro hdata
  have hwidthpos : 0 < width := by
    refine Nat.pos_of_ne_zero fun hzero => hsize ?_
    rw [hzero, Nat.zero_mul]
    rfl
  have hheightpos : 0 < height := by
    refine Nat.pos_of_ne_zero fun hzero => hsize ?_
    rw [hzero, Nat.mul_zero]
    rfl
  have hsmall : width * height * 3 < 2 ^ 32 := by
    have hlt : w * height * p % 2 ^ 32 < 2 ^ 32 := Nat.mod_lt _ (by decide)
    have hle : width * height * 3 ≤ width * height * p := Nat.mul_le_mul_left _ hp
    omega
  have hw : w * height ≤ 3 * width * height := Nat.mul_le_mul_right _ (by omega)
  have heq : w * height = width * height := by
    have hassoc : 3 * width * height = width * height * 3 := by
      rw [Nat.mul_assoc, Nat.mul_comm]
    omega
  have hsame : w = width := Nat.eq_of_mul_eq_mul_right hheightpos heq
  omega

theorem planesOf_ge (alpha : Bool) : 3 ≤ planesOf alpha := by
  cases alpha <;> decide

/-- What a dump writes is well formed exactly when it can be dumped. -/
theorem liveDump_wellFormed_iff {dumper : Dumper} {d : Dump} {opts opts' : Opts} {file : LuaString}
    (h : liveDump dumper d opts = some (.ok file, opts')) :
    WellFormed dumper d file ↔ Dumpable dumper d opts := by
  obtain ⟨im, written, again, lb, himage, hlen, rfl⟩ := liveDump_file h
  obtain ⟨desc, hdesc, hdims⟩ := getPimg_dims himage
  have hform : WellFormed dumper d (dumper.header.text (headerWidth im d.skip) im.height ++
      slice lb.bytes 0 lb.len.toNat) ↔
      packedSize im dumper.alpha = headerWidth im d.skip * im.height * planesOf dumper.alpha ∧
        headerWidth im d.skip = vwidthOf desc d.skip ∧ im.height = uint32 desc.visibleHeight := by
    rw [wellFormed_text_iff, slice_length, hlen]
    refine and_congr_right fun _ => ⟨?_, fun hsame => ⟨desc, hdesc, hsame⟩⟩
    rintro ⟨desc', hdesc', hsame⟩
    obtain rfl := Except.ok.inj (hdesc.symm.trans hdesc')
    exact hsame
  have hdump : Dumpable dumper d opts ↔ d.skip = false ∧
      vwidthOf desc d.skip * uint32 desc.visibleHeight * planesOf dumper.alpha < 2 ^ 32 ∧
        KeepsShape dumper opts.pimg desc d.skip := by
    refine and_congr_right fun _ => ⟨fun hall => hall desc hdesc, fun hone desc' hdesc' => ?_⟩
    obtain rfl := Except.ok.inj (hdesc.symm.trans hdesc')
    exact hone
  rw [hform, hdump, ← hdims.shape]
  cases hskip : d.skip with
  | true =>
    refine iff_of_false ?_ fun hno => (by cases hno.1)
    rintro ⟨hdata, hwidth, hheight⟩
    have hsize := hdims.size
    have harea := hdims.area
    rw [hskip] at hsize harea
    rw [hwidth, hheight] at hdata
    rw [hheight] at harea
    rw [packedSize, hheight] at hdata
    exact halved_ne (planesOf_ge dumper.alpha) hsize harea hwidth hdata
  | false =>
    rw [headerWidth, if_neg Bool.false_ne_true]
    constructor
    · rintro ⟨hdata, hwidth, hheight⟩
      rw [packedSize, hwidth, hheight] at hdata
      refine ⟨rfl, ?_, hwidth, hheight⟩
      rw [← hdata]
      exact Nat.mod_lt _ (by decide)
    · rintro ⟨-, hsmall, hwidth, hheight⟩
      refine ⟨?_, hwidth, hheight⟩
      rw [packedSize, hwidth, hheight]
      exact Nat.mod_eq_of_lt hsmall

/-! ## Sequences of dumps -/

/-- Dumps one after the other with the same options. -/
def dumps (dumper : Dumper) : System Opts Dump where
  step opts d := (liveDump dumper d opts).map Prod.snd

/-- In a sequence of dumps each file is well formed exactly when its dump can be dumped then. -/
theorem dumps_wellFormed_iff (dumper : Dumper) (opts : Opts) (ds : List Dump) :
    (∀ before d after t file t', ds = before ++ d :: after →
        (dumps dumper).run opts before = some t → liveDump dumper d t = some (.ok file, t') →
        WellFormed dumper d file) ↔
      ∀ before d after t file t', ds = before ++ d :: after →
        (dumps dumper).run opts before = some t → liveDump dumper d t = some (.ok file, t') →
        Dumpable dumper d t := by
  constructor
  · intro hall before d after t file t' hds hrun hfile
    exact (liveDump_wellFormed_iff hfile).mp (hall before d after t file t' hds hrun hfile)
  · intro hall before d after t file t' hds hrun hfile
    exact (liveDump_wellFormed_iff hfile).mpr (hall before d after t file t' hds hrun hfile)

/-- A dump with enough memory and time, to a handle. -/
def dumpOf (frame : Bytes) (len : Nat) (skip : Bool) : Dump :=
  ⟨frame, len, skip, 8, newMemory, newMemory, .ok ()⟩

/-- A paletted bitmap of two pixels, in a row or in a column. -/
def twoPal8 (width height : UInt8) : Bytes :=
  around ([2, 0, 0, 0, 2, 0, 0, 0, 0, 0, 0, 0, 0, 0, 0, 0, 0, 0, 0, 0, 0, 0, 0, 0, 32, 0, 0, 0] ++
    [0, 0, 0, 0] ++ [1, 0, 0, 0, 68, 0, 0, 0] ++
    [width, 0, 0, 0, width, 0, 0, 0, height, 0, 0, 0] ++
    [0, 0, 0, 0, 0, 0, 0, 0, 0, 0, 0, 0, 0, 0, 0, 0] ++ [7, 8])

def isFile : Option (Except String LuaString × Opts) → Bool
  | some (.ok _, _) => true
  | _ => false

theorem exists_file {r : Option (Except String LuaString × Opts)} (h : isFile r = true) :
    ∃ file opts', r = some (.ok file, opts') := by
  unfold isFile at h
  split at h
  · exact ⟨_, _, rfl⟩
  · cases h

/-- A viewport with `skip`, and a column of two pixels after a row of two. -/
theorem dumps_not_wellFormed :
    (∃ file t', liveDumpVpPbm (dumpOf (fourPixels [68, 0, 0, 0]) 74 true) ⟨none, none⟩ =
        some (.ok file, t') ∧
      ¬WellFormed .vpPbm (dumpOf (fourPixels [68, 0, 0, 0]) 74 true) file) ∧
    ∃ t file t', (dumps .bmPam).run ⟨none, none⟩ [dumpOf (twoPal8 2 1) 70 false] = some t ∧
      liveDumpBmPam (dumpOf (twoPal8 1 2) 70 false) t = some (.ok file, t') ∧
      ¬WellFormed .bmPam (dumpOf (twoPal8 1 2) 70 false) file := by
  constructor
  · obtain ⟨file, t', hfile⟩ := exists_file
      (r := liveDump .vpPbm (dumpOf (fourPixels [68, 0, 0, 0]) 74 true) ⟨none, none⟩)
      (by decide +kernel)
    refine ⟨file, t', hfile, ?_⟩
    rw [liveDump_wellFormed_iff hfile]
    exact fun h => absurd h.1 (by decide)
  · have hrun : ((dumps .bmPam).run ⟨none, none⟩ [dumpOf (twoPal8 2 1) 70 false]).any (fun t =>
        isFile (liveDump .bmPam (dumpOf (twoPal8 1 2) 70 false) t) &&
          t.pimg.any fun im => im.width = 2 ∧ im.height = 1) = true := by
      decide +kernel
    cases hstart : (dumps .bmPam).run ⟨none, none⟩ [dumpOf (twoPal8 2 1) 70 false] with
    | none =>
      rw [hstart] at hrun
      cases hrun
    | some t =>
      rw [hstart, Option.any_some, Bool.and_eq_true] at hrun
      obtain ⟨file, t', hfile⟩ := exists_file hrun.1
      refine ⟨t, file, t', rfl, hfile, ?_⟩
      rw [liveDump_wellFormed_iff hfile]
      intro h
      obtain ⟨old, hold, hshape⟩ := (Option.any_eq_true _ _).mp hrun.2
      obtain ⟨hwidth, hheight⟩ := of_decide_eq_true hshape
      have hdesc : (getBmDesc (int32 70) (twoPal8 1 2)).1 = .ok ⟨1, 68, 1, 1, 2⟩ := by
        decide +kernel
      have hreuse : reusable t.pimg (dispsizeOf ⟨1, 68, 1, 1, 2⟩ false) = some old := by
        rw [hold, reusable, Option.filter_some, hwidth, hheight]
        rfl
      have hkept := (h.2 _ hdesc).2 rfl old hreuse
      rw [hwidth] at hkept
      exact absurd hkept.1 (by decide)

end LiveImageDump
