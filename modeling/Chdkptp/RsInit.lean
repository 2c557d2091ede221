import Mathlib.Tactic.ByContra
import Mathlib.Tactic.SplitIfs

/-!
# Remote shooting is prepared

`rs_init` on the camera checks the options, sets the Canon image format that the capture needs
and initialises the capture, which may fail when the format has been set already.
-/

namespace RsInit

/-- The firmware: which functions there are, and how they come out. -/
structure Firmware where
  /-- The first result of `get_mode`. -/
  recMode : Bool
  /-- `init_usb_capture`, where there is one, and whether it succeeds. -/
  initUsbCapture : Option (BitVec 32 → Option Int → Option Int → Bool)
  propset : Int
  driveMode : Int
  /-- `hook_shoot` is a table. -/
  hookShoot : Bool
  usbCaptureSupport : BitVec 32
  /-- `get_canon_raw_support`, where there is one. -/
  canonRawSupport : Option Bool
  /-- Whether `set_canon_image_format` succeeds. -/
  setsCanonFormat : Int → Bool

/-- What USB capture has been initialised for. -/
structure Capture where
  fformat : BitVec 32
  lstart : Option Int
  lcount : Option Int

structure Camera where
  canonFormat : Int
  capture : Option Capture
  captureTimeout : Option Int

/-- The options that `rs_init` reads; `fformat` is a number where there is no error. -/
structure Opts where
  cont : Bool
  int : Option Int
  shots : Option Int
  fformat : Option (BitVec 32)
  lstart : Option Int
  lcount : Option Int
  capTimeout : Option Int

inductive Outcome where
  | raised
  /-- `return false, msg` -/
  | refused (msg : String)
  /-- `return {saved_canon_fmt = saved}` -/
  | ready (savedCanonFmt : Option Int)
  deriving DecidableEq

section Camera

variable (fw : Firmware) (opts : Opts)

/-- `is_cont` of `rlib_get_drive_mode_info`. -/
def isCont : Bool :=
  if fw.propset = 1 then fw.driveMode = 1
  else if fw.propset ≥ 2 then fw.driveMode = 1 ∨ fw.driveMode = 2
  else false

/-- The Canon format for the files that are asked for. -/
def canonFormatFor (fformat : BitVec 32) : Int :=
  if fformat &&& 9 = 9 then 3
  else if fformat &&& 8 = 8 then 2
  else 1

/-- The Canon format is set if it has to be; `saved_canon_fmt` comes out unless it cannot be. -/
def setCanonFormat (fformat : BitVec 32) (cam : Camera) : Option (Option Int) × Camera :=
  if fw.canonRawSupport = some true then
    if canonFormatFor fformat ≠ cam.canonFormat then
      if fw.setsCanonFormat (canonFormatFor fformat) then
        (some (some cam.canonFormat), { cam with canonFormat := canonFormatFor fformat })
      else (none, cam)
    else (some none, cam)
  else (some none, cam)

/-- `rs_init` from where all checks have been passed. -/
def startCapture (initUsbCapture : BitVec 32 → Option Int → Option Int → Bool)
    (fformat : BitVec 32) (cam : Camera) : Outcome × Camera :=
  match setCanonFormat fw fformat cam with
  | (none, cam) => (.refused "unsupported canon format", cam)
  | (some saved, cam) =>
    if initUsbCapture fformat opts.lstart opts.lcount then
      (.ready saved, { cam with
        capture := some ⟨fformat, opts.lstart, opts.lcount⟩
        captureTimeout := opts.capTimeout.or cam.captureTimeout })
    else (.refused "init failed", cam)

/-- `rs_init`. -/
def rsInit (cam : Camera) : Outcome × Camera :=
  if !fw.recMode then (.refused "not in rec mode", cam)
  else match fw.initUsbCapture with
  | none => (.refused "usb capture not supported", cam)
  | some initUsbCapture =>
    if opts.cont && !isCont fw then (.refused "not in continuous mode", cam)
    else if opts.cont && opts.int.any (0 < ·) && !fw.hookShoot then
      (.refused "cont with interval requires hook_shoot support", cam)
    else if opts.shots.any (· ≤ 0) then (.refused "invalid shot count", cam)
    else match opts.fformat with
    | none => (.raised, cam)
    | some fformat =>
      if fw.usbCaptureSupport &&& fformat ≠ fformat then (.refused "unsupported format", cam)
      else startCapture fw opts initUsbCapture fformat cam

/-- `rsint_init`. -/
def rsintInit (cam : Camera) : Outcome × Camera :=
  if opts.cont && !fw.hookShoot then (.refused "build does not support shoot hook", cam)
  else rsInit fw opts cam

/-- `rs_cleanup` for what `rs_init` has returned, when the camera no longer shoots. -/
def rsCleanup (savedCanonFmt : Option Int) (cam : Camera) : Camera :=
  let cam := { cam with capture := none }
  match savedCanonFmt with
  | none => cam
  | some fmt => if fw.setsCanonFormat fmt then { cam with canonFormat := fmt } else cam

end Camera

/-- A refusal changes nothing, and the format that is saved is the one that was changed. -/
structure Lawful (cam : Camera) (out : Outcome × Camera) : Prop where
  refused : ∀ msg, out.1 = .refused msg →
    out.2.canonFormat = cam.canonFormat ∧ out.2.capture = cam.capture
  saved : ∀ saved, out.1 = .ready saved →
    saved = if out.2.canonFormat = cam.canonFormat then none else some cam.canonFormat

variable {fw : Firmware} {opts : Opts} {cam : Camera}

/-- What is checked before anything is changed. -/
structure Accepted (fw : Firmware) (opts : Opts)
    (initUsbCapture : BitVec 32 → Option Int → Option Int → Bool) (fformat : BitVec 32) :
    Prop where
  recMode : fw.recMode = true
  usbCapture : fw.initUsbCapture = some initUsbCapture
  cont : (opts.cont && !isCont fw) = false
  hook : (opts.cont && opts.int.any (0 < ·) && !fw.hookShoot) = false
  shots : opts.shots.any (· ≤ 0) = false
  format : opts.fformat = some fformat
  support : fw.usbCaptureSupport &&& fformat = fformat

variable {initUsbCapture : BitVec 32 → Option Int → Option Int → Bool} {fformat : BitVec 32}

theorem Accepted.rsInit_eq (h : Accepted fw opts initUsbCapture fformat) (cam : Camera) :
    rsInit fw opts cam = startCapture fw opts initUsbCapture fformat cam := by
  simp [rsInit, h.recMode, h.usbCapture, h.cont, h.hook, h.shots, h.format, h.support]

/-- A call that does not get through the checks leaves the camera as it was. -/
theorem rsInit_unaccepted (h : ∀ initUsbCapture fformat, ¬Accepted fw opts initUsbCapture fformat)
    (cam : Camera) :
    ∃ out, rsInit fw opts cam = (out, cam) ∧ ∀ saved, out ≠ .ready saved := by
  rw [rsInit]
  split
  · exact ⟨_, rfl, nofun⟩
  · next hrec =>
    split
    · exact ⟨_, rfl, nofun⟩
    · next initUsbCapture husb =>
      split_ifs with hcont hhook hshots
      · exact ⟨_, rfl, nofun⟩
      · exact ⟨_, rfl, nofun⟩
      · exact ⟨_, rfl, nofun⟩
      · split
        · exact ⟨_, rfl, nofun⟩
        · next fformat hfformat =>
          split_ifs with hsupport
          · exact ⟨_, rfl, nofun⟩
          · exact absurd ⟨by simpa using hrec, husb, Bool.eq_false_iff.mpr hcont,
              Bool.eq_false_iff.mpr hhook, Bool.eq_false_iff.mpr hshots, hfformat,
              Decidable.not_not.mp hsupport⟩ (h initUsbCapture fformat)

/-- The format is changed, and then the capture is not initialised. -/
structure LeftChanged (fw : Firmware) (opts : Opts) (cam : Camera)
    (initUsbCapture : BitVec 32 → Option Int → Option Int → Bool) (fformat : BitVec 32) :
    Prop where
  accepted : Accepted fw opts initUsbCapture fformat
  canonRaw : fw.canonRawSupport = some true
  other : canonFormatFor fformat ≠ cam.canonFormat
  sets : fw.setsCanonFormat (canonFormatFor fformat) = true
  fails : initUsbCapture fformat opts.lstart opts.lcount = false

theorem lawful_unchanged {out : Outcome} (h : ∀ saved, out = .ready saved → saved = none) :
    Lawful cam (out, cam) where
  refused _ _ := ⟨rfl, rfl⟩
  saved saved hout := by
    rw [if_pos rfl]
    exact h saved hout

/-- What happens to the format: it is what it was, or it cannot be set, or it is another one. -/
theorem setCanonFormat_cases (fw : Firmware) (fformat : BitVec 32) (cam : Camera) :
    setCanonFormat fw fformat cam = (some none, cam) ∧
      ¬(fw.canonRawSupport = some true ∧ canonFormatFor fformat ≠ cam.canonFormat) ∨
    setCanonFormat fw fformat cam = (none, cam) ∧
      fw.setsCanonFormat (canonFormatFor fformat) = false ∨
    setCanonFormat fw fformat cam =
        (some (some cam.canonFormat), { cam with canonFormat := canonFormatFor fformat }) ∧
      fw.canonRawSupport = some true ∧ canonFormatFor fformat ≠ cam.canonFormat ∧
      fw.setsCanonFormat (canonFormatFor fformat) = true := by
  rw [setCanonFormat]
  split_ifs with hraw hother hsets
  · exact .inr (.inr ⟨rfl, hraw, hother, hsets⟩)
  · exact .inr (.inl ⟨rfl, Bool.eq_false_iff.mpr hsets⟩)
  · exact .inl ⟨rfl, fun h => hother h.2⟩
  · exact .inl ⟨rfl, fun h => hraw h.1⟩

theorem startCapture_lawful (h : Accepted fw opts initUsbCapture fformat) (cam : Camera) :
    Lawful cam (startCapture fw opts initUsbCapture fformat cam) ↔
      ¬LeftChanged fw opts cam initUsbCapture fformat := by
  obtain ⟨hset, hsame⟩ | ⟨hset, hsets⟩ | ⟨hset, hraw, hother, hsets⟩ :=
    setCanonFormat_cases fw fformat cam
  · refine iff_of_true ?_ fun hleft => hsame ⟨hleft.canonRaw, hleft.other⟩
    simp only [startCapture, hset]
    split
    · refine ⟨nofun, fun saved hsaved => ?_⟩
      cases hsaved
      exact (if_pos rfl).symm
    · exact lawful_unchanged nofun
  · refine iff_of_true ?_ fun hleft => Bool.false_ne_true (hsets.symm.trans hleft.sets)
    simp only [startCapture, hset]
    exact lawful_unchanged nofun
  · simp only [startCapture, hset]
    cases hinit : initUsbCapture fformat opts.lstart opts.lcount with
    | true =>
      refine iff_of_true ⟨nofun, fun saved hsaved => ?_⟩ fun hleft =>
        Bool.false_ne_true (hleft.fails.symm.trans hinit)
      cases hsaved
      exact (if_neg hother).symm
    | false =>
      refine iff_of_false (fun hlawful => ?_) fun hnot => hnot ⟨h, hraw, hother, hsets, hinit⟩
      exact hother (hlawful.refused _ rfl).1

/-- A refusal leaves the camera as it was unless the format is set before the capture fails. -/
theorem rs_init_lawful_iff (fw : Firmware) (opts : Opts) (cam : Camera) :
    Lawful cam (rsInit fw opts cam) ↔
      ∀ initUsbCapture fformat, ¬LeftChanged fw opts cam initUsbCapture fformat := by
  by_cases h : ∃ initUsbCapture fformat, Accepted fw opts initUsbCapture fformat
  · obtain ⟨initUsbCapture, fformat, h⟩ := h
    rw [h.rsInit_eq, startCapture_lawful h]
    refine ⟨fun hnot initUsbCapture' fformat' hleft => hnot ?_, fun hall => hall _ _⟩
    obtain rfl : initUsbCapture' = initUsbCapture :=
      Option.some.inj (hleft.accepted.usbCapture.symm.trans h.usbCapture)
    obtain rfl : fformat' = fformat :=
      Option.some.inj (hleft.accepted.format.symm.trans h.format)
    exact hleft
  · have hnone : ∀ initUsbCapture fformat, ¬Accepted fw opts initUsbCapture fformat :=
      fun initUsbCapture fformat hacc => h ⟨initUsbCapture, fformat, hacc⟩
    refine iff_of_true ?_ fun initUsbCapture fformat hleft => hnone _ _ hleft.accepted
    obtain ⟨out, hout, hready⟩ := rsInit_unaccepted hnone cam
    rw [hout]
    exact lawful_unchanged fun saved hsaved => absurd hsaved (hready saved)

theorem LeftChanged.startCapture_eq (h : LeftChanged fw opts cam initUsbCapture fformat) :
    startCapture fw opts initUsbCapture fformat cam =
      (.refused "init failed", { cam with canonFormat := canonFormatFor fformat }) := by
  have hset : setCanonFormat fw fformat cam =
      (some (some cam.canonFormat), { cam with canonFormat := canonFormatFor fformat }) := by
    rw [setCanonFormat, if_pos h.canonRaw, if_pos h.other, if_pos h.sets]
  simp only [startCapture, hset, h.fails]
  rfl

/-- What has been prepared is undone, if the format can be set back. -/
theorem rsCleanup_rsInit {saved : Option Int} {cam' : Camera}
    (h : rsInit fw opts cam = (.ready saved, cam'))
    (hsets : fw.setsCanonFormat cam.canonFormat = true) :
    (rsCleanup fw saved cam').canonFormat = cam.canonFormat ∧
      (rsCleanup fw saved cam').capture = none := by
  have haccepted : ∃ initUsbCapture fformat, Accepted fw opts initUsbCapture fformat := by
    by_contra hnone
    obtain ⟨out, hout, hready⟩ := rsInit_unaccepted
      (fun initUsbCapture fformat hacc => hnone ⟨initUsbCapture, fformat, hacc⟩) cam
    rw [hout] at h
    exact hready saved (congrArg Prod.fst h)
  obtain ⟨initUsbCapture, fformat, haccepted⟩ := haccepted
  rw [haccepted.rsInit_eq] at h
  have hlawful : Lawful cam (startCapture fw opts initUsbCapture fformat cam) := by
    rw [startCapture_lawful haccepted]
    intro hleft
    rw [hleft.startCapture_eq] at h
    cases h
  rw [h] at hlawful
  have hsaved : saved = if cam'.canonFormat = cam.canonFormat then none
      else some cam.canonFormat := hlawful.saved saved rfl
  by_cases hsame : cam'.canonFormat = cam.canonFormat
  · rw [hsaved, if_pos hsame]
    exact ⟨hsame, rfl⟩
  · rw [hsaved, if_neg hsame, rsCleanup]
    dsimp only
    rw [if_pos hsets]
    exact ⟨rfl, rfl⟩

/-- A camera that makes JPEG files is asked for raw files, and the capture fails. -/
def failing : Firmware where
  recMode := true
  initUsbCapture := some fun _ _ _ => false
  propset := 2
  driveMode := 0
  hookShoot := true
  usbCaptureSupport := 15
  canonRawSupport := some true
  setsCanonFormat _ := true

theorem format_left_changed : ¬Lawful ⟨1, none, none⟩
    (rsInit failing ⟨false, none, none, some 8, none, none, none⟩ ⟨1, none, none⟩) := by
  intro hlawful
  exact absurd (hlawful.refused "init failed" rfl).1 (by decide)

end RsInit
