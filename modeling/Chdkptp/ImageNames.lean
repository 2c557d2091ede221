import Chdkptp.CamClock
import Chdkptp.PathExt
import Chdkptp.VarSubstGrammar
import Mathlib.Algebra.Order.Ring.Rat
import Mathlib.Tactic.Ring

/-!
# Names of downloaded images

`con:imglist_download` keeps one table for the substitutions in all names. Of each image
there are values under the same keys, which replace those of the image before; only the two
counters go on.
-/

namespace ImageNames

open LuaText LuaSlots LuaUtil
open LuaValue (LuaString)
open RemoteCapture (LuaError ConInfo)
open CamClock (captureTable)
open VarSubst (except_bind_ok)

/-! ## The parts of a path -/

/-- What `fsutil.parse_image_path_cam` returns. -/
structure ImagePath where
  pathparts : Slots LuaString
  name : LuaString
  basename : LuaString
  ext : Option LuaString
  imgnum : Option LuaString
  imgpfx : Option LuaString
  subdir : Option LuaString
  dirnum : Option LuaString
  dirmonth : Option LuaString
  dirday : Option LuaString
  deriving DecidableEq

def imgnumPattern : LuaString := bytes "(%d%d%d%d)$".toList

def imgpfxPattern : LuaString := bytes "^(...)_%d%d%d%d$".toList

def dirnumPattern : LuaString := bytes "^(%d%d%d)".toList

def dailyPattern : LuaString := bytes "_(%d%d)(%d%d)$".toList

def monthlyPattern : LuaString := bytes "_(%d%d)$".toList

/-- The text of a capture. -/
def captureText : LuaPattern.Value → Option LuaString
  | .str b => some b
  | .pos _ => none

/-- The first result of `string.match`. -/
def firstMatch (str pattern : LuaString) : Except LuaError (Option LuaString) := do
  let vs ← captureTable str pattern
  return vs[0]?.bind captureText

/-- Month and day from the name of a directory: daily naming, or monthly naming. -/
def dirDate (subdir : LuaString) : Except LuaError (Option LuaString × Option LuaString) := do
  let daily ← captureTable subdir dailyPattern
  match daily[0]?.bind captureText with
  | some dirmonth => return (some dirmonth, daily[1]?.bind captureText)
  | none =>
    let dirmonth ← firstMatch subdir monthlyPattern
    return (dirmonth, none)

/-- Number, month and day of a directory. -/
def dirParts : Option LuaString →
    Except LuaError (Option LuaString × Option LuaString × Option LuaString)
  | none => .ok (none, none, none)
  | some subdir => do
    let dirnum ← firstMatch subdir dirnumPattern
    let date ← dirDate subdir
    return (dirnum, date)

def noName : LuaError := .text (bytes "bad argument #1 to 'match' (string expected, got nil)".toList)

/-- A missing part is an empty string, if strings are asked for. -/
def orEmpty (string : Bool) (v : Option LuaString) : Option LuaString :=
  if string then some (v.getD []) else v

/-- The name at the end of the parts, with Lua's `#` as a parameter. -/
def imageName (B : Borders LuaString) (pathparts : Slots LuaString) : Option LuaString :=
  let n := B.border pathparts
  FsCam.basenameCam (if n = 0 then none else slot pathparts (n - 1)) none true

/-- `fsutil.parse_image_path_cam`. -/
def parseImagePathCam (B : Borders LuaString) (windows string : Bool) (path : LuaString) :
    Except LuaError ImagePath := do
  let pathparts := FsCam.splitpathCam B (some path)
  match imageName B pathparts with
  | none => .error noName
  | some name =>
    let (basename, ext) := PathExt.splitExt windows name
    let imgnum ← firstMatch basename imgnumPattern
    let imgpfx ← firstMatch basename imgpfxPattern
    let n := B.border pathparts
    let subdir := if n ≤ 1 then none else slot pathparts (n - 2)
    let (dirnum, dirmonth, dirday) ← dirParts subdir
    return { pathparts, name, basename
             ext := if ext = [] ∧ !string then none else some ext
             imgnum := orEmpty string imgnum
             imgpfx := orEmpty string imgpfx
             subdir := orEmpty string subdir
             dirnum := orEmpty string dirnum
             dirmonth := orEmpty string dirmonth
             dirday := orEmpty string dirday }

/-- Which patterns there are. -/
def imagePatterns : List LuaString :=
  [imgnumPattern, imgpfxPattern, dirnumPattern, dailyPattern, monthlyPattern]

theorem captureTable_ok (str : LuaString) {pattern : LuaString} (h : pattern ∈ imagePatterns) :
    ∃ vs, captureTable str pattern = .ok vs := by
  have hgroups : ∀ p ∈ imagePatterns, LuaPattern.Grouped 0 (LuaPattern.items (LuaPattern.unanchored p)) ∧
      (LuaPattern.items (LuaPattern.unanchored p)).length ≤ LuaPattern.maxCaptures := by
    decide +kernel
  obtain ⟨hgroup, hlen⟩ := hgroups pattern h
  obtain ⟨o, ho⟩ := @LuaPattern.stringMatch_ok str pattern hgroup hlen
  rw [captureTable, ho]
  cases o with
  | none => exact ⟨_, rfl⟩
  | some vs => exact ⟨_, rfl⟩

theorem firstMatch_ok (str : LuaString) {pattern : LuaString} (h : pattern ∈ imagePatterns) :
    ∃ v, firstMatch str pattern = .ok v := by
  obtain ⟨vs, hvs⟩ := captureTable_ok str h
  exact ⟨_, by rw [firstMatch, hvs]; rfl⟩

theorem dirParts_ok (subdir : Option LuaString) : ∃ v, dirParts subdir = .ok v := by
  cases subdir with
  | none => exact ⟨_, rfl⟩
  | some subdir =>
    obtain ⟨dirnum, hdirnum⟩ := firstMatch_ok subdir (by decide : dirnumPattern ∈ imagePatterns)
    obtain ⟨daily, hdaily⟩ := captureTable_ok subdir (by decide : dailyPattern ∈ imagePatterns)
    obtain ⟨month, hmonth⟩ := firstMatch_ok subdir (by decide : monthlyPattern ∈ imagePatterns)
    have hdate : ∃ v, dirDate subdir = .ok v := by
      rw [dirDate, hdaily]
      cases hday : daily[0]?.bind captureText with
      | some dirmonth => exact ⟨_, by simp only [bind, Except.bind, hday]; rfl⟩
      | none => exact ⟨_, by simp only [bind, Except.bind, hday, hmonth]; rfl⟩
    obtain ⟨date, hdate⟩ := hdate
    exact ⟨_, by rw [dirParts, hdirnum, hdate]; rfl⟩

/-- A path is parsed if it has a name. -/
theorem parseImagePathCam_ok_iff (B : Borders LuaString) (windows string : Bool)
    (path : LuaString) : (∃ r, parseImagePathCam B windows string path = .ok r) ↔
      (imageName B (FsCam.splitpathCam B (some path))).isSome := by
  simp only [parseImagePathCam]
  cases imageName B (FsCam.splitpathCam B (some path)) with
  | none => simp
  | some name =>
    refine iff_of_true ?_ rfl
    obtain ⟨imgnum, himgnum⟩ := firstMatch_ok (PathExt.splitExt windows name).1
      (by decide : imgnumPattern ∈ imagePatterns)
    obtain ⟨imgpfx, himgpfx⟩ := firstMatch_ok (PathExt.splitExt windows name).1
      (by decide : imgpfxPattern ∈ imagePatterns)
    obtain ⟨v, hv⟩ := dirParts_ok (if B.border (FsCam.splitpathCam B (some path)) ≤ 1 then none
      else slot (FsCam.splitpathCam B (some path)) (B.border (FsCam.splitpathCam B (some path)) - 2))
    simp only [himgnum, himgpfx, hv, bind, Except.bind]
    exact ⟨_, rfl⟩

example : (parseImagePathCam firstBorder false true
    (bytes "A/DCIM/139___10/IMG_5609.JPG".toList)).map
      (fun r => [r.imgnum, r.imgpfx, r.subdir, r.dirnum, r.dirmonth, r.dirday]) =
    .ok (["5609", "IMG", "139___10", "139", "10", ""].map fun s => some (bytes s.toList)) := by
  decide +kernel

/-! ## The state for substitutions -/

inductive Key where
  | serial
  | pid
  | ldate
  | lts
  | lms
  | dlseq
  | shotseq
  | mdate
  | mts
  | pathparts
  | name
  | basename
  | ext
  | imgnum
  | imgpfx
  | subdir
  | dirnum
  | dirmonth
  | dirday
  /-- `_seq_first_done` and `_seq_imgnum_prev`. -/
  | seqFirstDone
  | seqImgnumPrev
  deriving DecidableEq

inductive Val where
  | num (q : ℚ)
  | str (s : LuaString)
  | bool (b : Bool)
  | parts (t : Slots LuaString)
  deriving DecidableEq

abbrev State := Fields Key Val

/-- `state[k]=v`, where nil removes the field. -/
def assign (state : State) (k : Key) : Option Val → State
  | some v => state.insert k v
  | none => state.erase k

theorem lookup_assign (state : State) (k k' : Key) (v : Option Val) :
    (assign state k v).lookup k' = if k' = k then v else state.lookup k' := by
  by_cases hk : k' = k
  · subst hk
    cases v with
    | some v => simp [assign]
    | none => simp [assign]
  · cases v with
    | some v => simp [assign, hk, AList.lookup_insert_ne hk]
    | none => simp [assign, hk, AList.lookup_erase_ne hk]

/-- The table that is returned, which has no other fields. -/
def ImagePath.fields (r : ImagePath) : State :=
  [(Key.ext, r.ext), (.imgnum, r.imgnum), (.imgpfx, r.imgpfx), (.subdir, r.subdir),
    (.dirnum, r.dirnum), (.dirmonth, r.dirmonth), (.dirday, r.dirday), (.name, some r.name),
    (.basename, some r.basename)].foldl (fun t e => assign t e.1 (e.2.map .str))
      (assign ∅ .pathparts (some (.parts r.pathparts)))

/-- `tonumber` of a number, or of a string that is empty or has digits only. -/
def tonumber : Val → Option ℚ
  | .num q => some q
  | .str b => (digitsValue 10 b).map fun n => (n : ℚ)
  | _ => none

def truthy : Option Val → Bool
  | none => false
  | some (.bool b) => b
  | some _ => true

def notNumber : LuaError := .text (bytes "attempt to perform arithmetic on a field".toList)

/-- A field as an operand. -/
def operand (state : State) (k : Key) : Except LuaError ℚ :=
  match state.lookup k with
  | some (.num q) => .ok q
  | _ => .error notNumber

/-- `state[k] = state[k] + 1`. -/
def increment (state : State) (k : Key) : Except LuaError State := do
  let q ← operand state k
  return state.insert k (.num (q + 1))

/-! ## The download -/

/-- What comes from the list of images. -/
structure Finfo where
  full : LuaString
  /-- `st.mtime` and `st.size`. -/
  mtime : ℚ
  size : Nat
  deriving DecidableEq

/-- The program's surroundings: Lua's library, the clock and the transfer of a file. -/
structure Pc (ω : Type) where
  windows : Bool
  /-- `#`. -/
  borders : Borders LuaString
  /-- `string.format` of one value. -/
  format : LuaString → Option Val → Except LuaError LuaString
  /-- `os.date`. -/
  date : LuaString → Option Val → Except LuaError LuaString
  /-- `varsubst.string_subst_funcs`, which do not look at the state. -/
  stringSubstFuncs : LuaString → Option (Option LuaString → Except LuaError LuaString)
  /-- `os.time()`. -/
  time : ω → ℤ × ω
  /-- `ustime.new()`: seconds and microseconds. -/
  ustime : ω → (ℤ × Nat) × ω
  /-- `chdku.ts_get_offset()`. -/
  tsGetOffset : ω → ℚ × ω
  /-- `con:download_file_ff`. -/
  downloadFileFf : Finfo → LuaString → ω → Except LuaError ω

variable {ω : Type}

/-- `varsubst.format_state_val`. -/
def formatStateVal (pc : Pc ω) (k : Key) (default_fmt : LuaString) (state : State)
    (argstr : Option LuaString) : Except LuaError LuaString :=
  pc.format (argstr.getD default_fmt) (state.lookup k)

/-- `varsubst.format_state_date`. -/
def formatStateDate (pc : Pc ω) (k : Key) (default_fmt : LuaString) (state : State)
    (argstr : Option LuaString) : Except LuaError LuaString :=
  pc.date (argstr.getD default_fmt) (state.lookup k)

def dateFormat : LuaString := bytes "%Y%m%d_%H%M%S".toList

/-- `chdku.con_subst_funcs` and the others that look at the state. -/
def stateSubstFuncs (pc : Pc ω) :
    List (LuaString × (State → Option LuaString → Except LuaError LuaString)) :=
  [(bytes "serial".toList, formatStateVal pc .serial (bytes "%s".toList)),
    (bytes "pid".toList, formatStateVal pc .pid (bytes "%x".toList)),
    (bytes "ldate".toList, formatStateDate pc .ldate dateFormat),
    (bytes "lts".toList, formatStateVal pc .lts (bytes "%f".toList)),
    (bytes "lms".toList, formatStateVal pc .lms (bytes "%03d".toList)),
    (bytes "dlseq".toList, formatStateVal pc .dlseq (bytes "%04d".toList)),
    (bytes "shotseq".toList, formatStateVal pc .shotseq (bytes "%04d".toList)),
    (bytes "mdate".toList, formatStateDate pc .mdate dateFormat),
    (bytes "mts".toList, formatStateVal pc .mts (bytes "%d".toList)),
    (bytes "name".toList, formatStateVal pc .name (bytes "%s".toList)),
    (bytes "basename".toList, formatStateVal pc .basename (bytes "%s".toList)),
    (bytes "ext".toList, formatStateVal pc .ext (bytes "%s".toList)),
    (bytes "imgnum".toList, formatStateVal pc .imgnum (bytes "%s".toList)),
    (bytes "imgpfx".toList, formatStateVal pc .imgpfx (bytes "%s".toList)),
    (bytes "subdir".toList, formatStateVal pc .subdir (bytes "%s".toList)),
    (bytes "dirnum".toList, formatStateVal pc .dirnum (bytes "%s".toList)),
    (bytes "dirmonth".toList, formatStateVal pc .dirmonth (bytes "%s".toList)),
    (bytes "dirday".toList, formatStateVal pc .dirday (bytes "%s".toList))]

/-- `chdku.imglist_subst_funcs`. -/
def imglistSubstFuncs (pc : Pc ω) : VarSubst.Funcs State := fun func =>
  match (stateSubstFuncs pc).lookup func with
  | some f => some f
  | none => (pc.stringSubstFuncs func).map fun f _ => f

/-- `chdku.ts_cam2pc`. -/
def tsCam2pc (tscam offset : ℚ) : ℚ :=
  let tspc := tscam - offset
  if tspc > 0 then tspc else 0

/-- `chdku.set_subst_time_state`. -/
def setSubstTimeState (pc : Pc ω) (state : State) (w : ω) : State × ω :=
  let (ldate, w) := pc.time w
  let ((sec, usec), w) := pc.ustime w
  (((state.insert .ldate (.num ldate)).insert .lts (.num (sec + usec / 1000000))).insert .lms
    (.num (usec / 1000)), w)

/-- `con:set_subst_con_state`. -/
def setSubstConState (self : ConInfo) (state : State) : State :=
  (state.insert .serial (.str (self.serialNumber.getD []))).insert .pid (.num self.productId)

/-- `chdku.imglist_set_subst_finfo_state`. -/
def imglistSetSubstFinfoState (pc : Pc ω) (state : State) (finfo : Finfo) (w : ω) :
    Except LuaError (State × ω) := do
  let (offset, w) := pc.tsGetOffset w
  let state := state.insert .mdate (.num (tsCam2pc finfo.mtime offset))
  let (offset, w) := pc.tsGetOffset w
  let state := state.insert .mts (.num (tsCam2pc finfo.mtime offset))
  let r ← parseImagePathCam pc.borders pc.windows true finfo.full
  return (extendTable state r.fields, w)

/-- `chdku.imglist_set_subst_seq_state`. -/
def imglistSetSubstSeqState (state : State) : Except LuaError State := do
  let imgnum := (state.lookup .imgnum).bind tonumber
  if truthy (state.lookup .seqFirstDone) then
    let state ←
      if state.lookup .seqImgnumPrev ≠ imgnum.map .num then increment state .shotseq else .ok state
    let state ← increment state .dlseq
    return assign state .seqImgnumPrev (imgnum.map .num)
  else
    return assign (state.insert .seqFirstDone (.bool true)) .seqImgnumPrev (imgnum.map .num)

/-- The options, with their defaults. -/
structure DownloadOpts where
  dst : LuaString := bytes "$\x7bsubdir\x7d/$\x7bname\x7d".toList
  dstdir : Option LuaString := none
  dlseqStart : ℚ := 1
  shotseqStart : ℚ := 1

/-- A file with its name: what the state is then, and the world before and after. -/
structure Named (ω : Type) where
  finfo : Finfo
  state : State
  dst : LuaString
  before : ω
  after : ω

/-- The body of the loop, as far as the name. -/
def nameFile (pc : Pc ω) (opts : DownloadOpts) (state : State) (finfo : Finfo) (w : ω) :
    Except LuaError (Named ω) := do
  let (state, after) ← imglistSetSubstFinfoState pc state finfo w
  let state ← imglistSetSubstSeqState state
  let dst ← VarSubst.expand (imglistSubstFuncs pc) state opts.dst
  let dst :=
    match opts.dstdir with
    | some dstdir => FsUtil.joinpath pc.windows dstdir [dst]
    | none => dst
  return { finfo, state, dst, before := w, after }

/-- The loop over the files: those that get a name, and the world at the end. -/
def downloadLoop (pc : Pc ω) (opts : DownloadOpts) :
    List Finfo → State → ω → List (Named ω) × Except LuaError ω
  | [], _, w => ([], .ok w)
  | finfo :: files, state, w =>
    match nameFile pc opts state finfo w with
    | .error e => ([], .error e)
    | .ok n =>
      match pc.downloadFileFf finfo n.dst n.after with
      | .error e => ([n], .error e)
      | .ok w =>
        let rest := downloadLoop pc opts files n.state w
        (n :: rest.1, rest.2)

/-- `con:imglist_download`. -/
def imglistDownload (pc : Pc ω) (self : ConInfo) (files : List Finfo) (opts : DownloadOpts)
    (w : ω) : List (Named ω) × Except LuaError ω :=
  match VarSubst.validateFuncs (imglistSubstFuncs pc) opts.dst with
  | .error e => ([], .error e)
  | .ok () =>
    let (state, w) := setSubstTimeState pc ∅ w
    let state := setSubstConState self state
    let state := state.insert .dlseq (.num opts.dlseqStart)
    let state := state.insert .shotseq (.num opts.shotseqStart)
    downloadLoop pc opts files state w

/-! ## One file -/

/-- What a path is asked for. -/
def pathKeys : List Key :=
  [.name, .basename, .ext, .imgnum, .imgpfx, .subdir, .dirnum, .dirmonth, .dirday]

theorem ImagePath.fields_lookup (r : ImagePath) (k : Key) :
    r.fields.lookup k =
      match k with
      | .pathparts => some (.parts r.pathparts)
      | .name => some (.str r.name)
      | .basename => some (.str r.basename)
      | .ext => r.ext.map .str
      | .imgnum => r.imgnum.map .str
      | .imgpfx => r.imgpfx.map .str
      | .subdir => r.subdir.map .str
      | .dirnum => r.dirnum.map .str
      | .dirmonth => r.dirmonth.map .str
      | .dirday => r.dirday.map .str
      | _ => none := by
  simp only [ImagePath.fields, List.foldl_cons, List.foldl_nil, lookup_assign]
  cases k <;> simp

/-- With strings for the missing parts, no part is missing. -/
theorem parseImagePathCam_complete {B : Borders LuaString} {windows : Bool} {path : LuaString}
    {r : ImagePath} (h : parseImagePathCam B windows true path = .ok r) :
    ∀ k ∈ pathKeys, (r.fields.lookup k).isSome := by
  simp only [parseImagePathCam] at h
  split at h
  · cases h
  · obtain ⟨imgnum, -, h⟩ := except_bind_ok h
    obtain ⟨imgpfx, -, h⟩ := except_bind_ok h
    obtain ⟨⟨dirnum, dirmonth, dirday⟩, -, h⟩ := except_bind_ok h
    cases h
    intro k hk
    rw [ImagePath.fields_lookup]
    simp only [pathKeys, List.mem_cons, List.not_mem_nil, or_false] at hk
    obtain rfl | rfl | rfl | rfl | rfl | rfl | rfl | rfl | rfl := hk <;> simp [orEmpty]

/-- The image number of a file, if its name has one. -/
def imageNumber (pc : Pc ω) (finfo : Finfo) : Option ℚ :=
  match parseImagePathCam pc.borders pc.windows true finfo.full with
  | .ok r => r.imgnum.bind fun s => tonumber (.str s)
  | .error _ => none

/-- The values that a name is made of are those of the file. -/
structure Own (pc : Pc ω) (opts : DownloadOpts) (n : Named ω) : Prop where
  path : ∃ r, parseImagePathCam pc.borders pc.windows true n.finfo.full = .ok r ∧
    ∀ k ∈ pathKeys, (r.fields.lookup k).isSome ∧ n.state.lookup k = r.fields.lookup k
  mdate : n.state.lookup .mdate =
    some (.num (tsCam2pc n.finfo.mtime (pc.tsGetOffset n.before).1))
  mts : n.state.lookup .mts =
    some (.num (tsCam2pc n.finfo.mtime (pc.tsGetOffset (pc.tsGetOffset n.before).2).1))
  dst : VarSubst.expand (imglistSubstFuncs pc) n.state opts.dst = .ok n.dst ∨
    ∃ dstdir dst, opts.dstdir = some dstdir ∧
      VarSubst.expand (imglistSubstFuncs pc) n.state opts.dst = .ok dst ∧
      n.dst = FsUtil.joinpath pc.windows dstdir [dst]

/-- The counters, and the image number of the file before, if there was one. -/
structure Counting (state : State) (dlseq shotseq : ℚ) (prev : Option (Option ℚ)) : Prop where
  dlseq : state.lookup .dlseq = some (.num dlseq)
  shotseq : state.lookup .shotseq = some (.num shotseq)
  first : state.lookup .seqFirstDone = prev.map fun _ => .bool true
  prev : state.lookup .seqImgnumPrev = prev.join.map .num

section Step

variable {pc : Pc ω} {opts : DownloadOpts} {state : State} {finfo : Finfo} {w : ω}

theorem finfoState_ok {state' : State} {after : ω}
    (h : imglistSetSubstFinfoState pc state finfo w = .ok (state', after)) :
    ∃ r, parseImagePathCam pc.borders pc.windows true finfo.full = .ok r ∧
      ∀ k, state'.lookup k = (r.fields.lookup k).or
        (if k = .mts then
          some (.num (tsCam2pc finfo.mtime (pc.tsGetOffset (pc.tsGetOffset w).2).1))
        else if k = .mdate then some (.num (tsCam2pc finfo.mtime (pc.tsGetOffset w).1))
        else state.lookup k) := by
  obtain ⟨r, hr, h⟩ := except_bind_ok h
  cases h
  refine ⟨r, hr, fun k => ?_⟩
  rw [lookup_extendTable]
  congr 1
  by_cases hmts : k = .mts
  · subst hmts
    exact AList.lookup_insert _
  · rw [if_neg hmts, AList.lookup_insert_ne hmts]
    by_cases hmdate : k = .mdate
    · subst hmdate
      exact AList.lookup_insert _
    · rw [if_neg hmdate, AList.lookup_insert_ne hmdate]

theorem increment_of_lookup {k : Key} {q : ℚ} (h : state.lookup k = some (.num q)) :
    increment state k = .ok (state.insert k (.num (q + 1))) := by
  simp only [increment, operand, h]
  rfl

/-- The counter of images, when the file before had the number `prev`. -/
def nextShotseq (shotseq : ℚ) (prev imgnum : Option ℚ) : ℚ :=
  if prev = imgnum then shotseq else shotseq + 1

/-- The keys that the counting writes. -/
def seqKeys : List Key := [.dlseq, .shotseq, .seqFirstDone, .seqImgnumPrev]

/-- The last assignment of the counting. -/
theorem Counting.assign_prev {dlseq shotseq : ℚ} (imgnum : Option ℚ)
    (hdlseq : state.lookup .dlseq = some (.num dlseq))
    (hshotseq : state.lookup .shotseq = some (.num shotseq))
    (hfirst : state.lookup .seqFirstDone = some (.bool true)) :
    Counting (assign state .seqImgnumPrev (imgnum.map .num)) dlseq shotseq (some imgnum) where
  dlseq := by simpa [lookup_assign] using hdlseq
  shotseq := by simpa [lookup_assign] using hshotseq
  first := by simpa [lookup_assign] using hfirst
  prev := by simp [lookup_assign]

theorem seqState_first {dlseq shotseq : ℚ} (hcount : Counting state dlseq shotseq none) :
    ∃ state', imglistSetSubstSeqState state = .ok state' ∧
      Counting state' dlseq shotseq (some ((state.lookup .imgnum).bind tonumber)) ∧
      ∀ k, k ∉ seqKeys → state'.lookup k = state.lookup k := by
  have hfirst : truthy (state.lookup .seqFirstDone) = false := by
    rw [hcount.first]
    rfl
  simp only [imglistSetSubstSeqState, hfirst]
  refine ⟨_, rfl, ?_, fun k hk => ?_⟩
  · apply Counting.assign_prev
    · rw [AList.lookup_insert_ne (by decide), hcount.dlseq]
    · rw [AList.lookup_insert_ne (by decide), hcount.shotseq]
    · exact AList.lookup_insert _
  · simp only [seqKeys, List.mem_cons, List.not_mem_nil, or_false, not_or] at hk
    simp [lookup_assign, AList.lookup_insert_ne, hk]

theorem seqState_later {dlseq shotseq : ℚ} {prev : Option ℚ}
    (hcount : Counting state dlseq shotseq (some prev)) :
    ∃ state', imglistSetSubstSeqState state = .ok state' ∧
      Counting state' (dlseq + 1)
        (nextShotseq shotseq prev ((state.lookup .imgnum).bind tonumber))
        (some ((state.lookup .imgnum).bind tonumber)) ∧
      ∀ k, k ∉ seqKeys → state'.lookup k = state.lookup k := by
  have hfirst : truthy (state.lookup .seqFirstDone) = true := by
    rw [hcount.first]
    rfl
  have hprev : state.lookup .seqImgnumPrev = prev.map .num := hcount.prev
  simp only [imglistSetSubstSeqState, hfirst, hprev]
  generalize (state.lookup .imgnum).bind tonumber = imgnum
  by_cases hsame : prev = imgnum
  · have hdlseq := increment_of_lookup hcount.dlseq
    simp only [ne_eq, hsame, not_true, if_false, if_true, nextShotseq, bind, Except.bind, hdlseq]
    refine ⟨_, rfl, ?_, fun k hk => ?_⟩
    · apply Counting.assign_prev
      · exact AList.lookup_insert _
      · rw [AList.lookup_insert_ne (by decide), hcount.shotseq]
      · rw [AList.lookup_insert_ne (by decide), hcount.first]
        rfl
    · simp only [seqKeys, List.mem_cons, List.not_mem_nil, or_false, not_or] at hk
      simp [lookup_assign, AList.lookup_insert_ne, hk]
  · have hnum : prev.map Val.num ≠ imgnum.map .num :=
      (Option.map_injective fun _ _ => Val.num.inj).ne hsame
    have hshotseq := increment_of_lookup hcount.shotseq
    have hkept : (state.insert Key.shotseq (.num (shotseq + 1))).lookup .dlseq =
        some (.num dlseq) := by
      rw [AList.lookup_insert_ne (by decide), hcount.dlseq]
    have hdlseq := increment_of_lookup hkept
    simp only [hnum, ne_eq, hsame, not_false_iff, if_true, if_false, nextShotseq, bind,
      Except.bind, hshotseq, hdlseq]
    refine ⟨_, rfl, ?_, fun k hk => ?_⟩
    · apply Counting.assign_prev
      · exact AList.lookup_insert _
      · rw [AList.lookup_insert_ne (by decide)]
        exact AList.lookup_insert _
      · rw [AList.lookup_insert_ne (by decide), AList.lookup_insert_ne (by decide), hcount.first]
        rfl
    · simp only [seqKeys, List.mem_cons, List.not_mem_nil, or_false, not_or] at hk
      simp [lookup_assign, AList.lookup_insert_ne, hk]

/-- What the counting makes of the counters, given the image number. -/
def Counted (state : State) (dlseq shotseq : ℚ) (prev : Option (Option ℚ)) (imgnum : Option ℚ) :
    Prop :=
  match prev with
  | none => Counting state dlseq shotseq (some imgnum)
  | some prev => Counting state (dlseq + 1) (nextShotseq shotseq prev imgnum) (some imgnum)

/-- One pass: the values are those of the file, and the counters go on. -/
theorem nameFile_ok {n : Named ω} {dlseq shotseq : ℚ} {prev : Option (Option ℚ)}
    (hcount : Counting state dlseq shotseq prev) (h : nameFile pc opts state finfo w = .ok n) :
    n.finfo = finfo ∧ Own pc opts n ∧ Counted n.state dlseq shotseq prev (imageNumber pc finfo) := by
  obtain ⟨⟨state₁, after⟩, hfinfo, h⟩ := except_bind_ok h
  obtain ⟨state₂, hseq, h⟩ := except_bind_ok h
  obtain ⟨dst, hdst, h⟩ := except_bind_ok h
  cases h
  obtain ⟨r, hr, hlookup⟩ := finfoState_ok hfinfo
  -- a path says nothing of the counters
  have hcount₁ : Counting state₁ dlseq shotseq prev := by
    constructor
    · rw [hlookup, ImagePath.fields_lookup]
      exact hcount.dlseq
    · rw [hlookup, ImagePath.fields_lookup]
      exact hcount.shotseq
    · rw [hlookup, ImagePath.fields_lookup]
      exact hcount.first
    · rw [hlookup, ImagePath.fields_lookup]
      exact hcount.prev
  have hcomplete := parseImagePathCam_complete hr
  have hparts : ∀ k ∈ pathKeys, state₁.lookup k = r.fields.lookup k := by
    intro k hk
    obtain ⟨v, hv⟩ := Option.isSome_iff_exists.mp (hcomplete k hk)
    rw [hlookup, hv]
    rfl
  have himgnum : (state₁.lookup .imgnum).bind tonumber = imageNumber pc finfo := by
    rw [hparts .imgnum (by decide), imageNumber, hr, ImagePath.fields_lookup]
    exact Option.bind_map
  have hstep : Counted state₂ dlseq shotseq prev (imageNumber pc finfo) ∧
      ∀ k, k ∉ seqKeys → state₂.lookup k = state₁.lookup k := by
    rw [← himgnum]
    cases prev with
    | none =>
      obtain ⟨state', hok, hnext, hframe⟩ := seqState_first hcount₁
      cases hok.symm.trans hseq
      exact ⟨hnext, hframe⟩
    | some prev =>
      obtain ⟨state', hok, hnext, hframe⟩ := seqState_later hcount₁
      cases hok.symm.trans hseq
      exact ⟨hnext, hframe⟩
  obtain ⟨hnext, hframe⟩ := hstep
  refine ⟨rfl, ?_, hnext⟩
  constructor
  · refine ⟨r, hr, fun k hk => ⟨hcomplete k hk, ?_⟩⟩
    have hnot : k ∉ seqKeys := by
      revert k
      decide
    exact (hframe k hnot).trans (hparts k hk)
  · rw [hframe .mdate (by decide), hlookup, ImagePath.fields_lookup]
    rfl
  · rw [hframe .mts (by decide), hlookup, ImagePath.fields_lookup]
    rfl
  · cases hdir : opts.dstdir with
    | none => exact .inl hdst
    | some dstdir => exact .inr ⟨dstdir, dst, rfl, hdst, rfl⟩

end Step

/-! ## All files -/

/-- How often a value differs from the one before, up to a place. -/
def changes {α : Type} [DecidableEq α] (l : List α) (k : Nat) : Nat :=
  (List.range k).countP fun j => l[j + 1]? ≠ l[j]?

theorem changes_cons {α : Type} [DecidableEq α] (a : α) (l : List α) (k : Nat) :
    changes (a :: l) (k + 1) = changes l k + if l[0]? = some a then 0 else 1 := by
  rw [changes, List.range_succ_eq_map, List.countP_cons, List.countP_map]
  by_cases h : l[0]? = some a
  · simp [changes, h, Function.comp_def]
  · simp [changes, h, Function.comp_def]

section Loop

variable {pc : Pc ω} {opts : DownloadOpts}

theorem nextShotseq_changes (shotseq : ℚ) (prev imgnum : Option ℚ) (nums : List (Option ℚ))
    (k : Nat) :
    nextShotseq shotseq prev imgnum + changes (imgnum :: nums) k =
      shotseq + changes (prev :: imgnum :: nums) (k + 1) := by
  rw [changes_cons, nextShotseq, List.getElem?_cons_zero]
  by_cases hsame : prev = imgnum
  · simp [hsame]
  · have hne : imgnum ≠ prev := Ne.symm hsame
    simp only [hsame, if_false, Option.some.injEq, hne, Nat.cast_add, Nat.cast_one]
    ring

/-- What stands at a place of the list comes from the first pass or from the others. -/
theorem downloadLoop_cons {finfo : Finfo} {files : List Finfo} {state : State} {w : ω} {k : Nat}
    {n : Named ω} (h : (downloadLoop pc opts (finfo :: files) state w).1[k]? = some n) :
    ∃ m, nameFile pc opts state finfo w = .ok m ∧
      (k = 0 ∧ n = m ∨
        ∃ i w', k = i + 1 ∧ (downloadLoop pc opts files m.state w').1[i]? = some n) := by
  rw [downloadLoop] at h
  split at h
  · cases h
  · rename_i m hm
    refine ⟨m, hm, ?_⟩
    split at h
    · cases k with
      | zero => exact .inl ⟨rfl, (Option.some.inj h).symm⟩
      | succ i => cases h
    · rename_i w' _
      cases k with
      | zero => exact .inl ⟨rfl, (Option.some.inj h).symm⟩
      | succ i => exact .inr ⟨i, w', rfl, h⟩

/-- The passes behind one for a file with the number `prev`. -/
theorem downloadLoop_later (files : List Finfo) {state : State} {w : ω} {dlseq shotseq : ℚ}
    {prev : Option ℚ} {k : Nat} {n : Named ω} (hcount : Counting state dlseq shotseq (some prev))
    (h : (downloadLoop pc opts files state w).1[k]? = some n) :
    files[k]? = some n.finfo ∧ Own pc opts n ∧
      n.state.lookup .dlseq = some (.num (dlseq + (k + 1 : Nat))) ∧
      n.state.lookup .shotseq =
        some (.num (shotseq + changes (prev :: files.map (imageNumber pc)) (k + 1))) := by
  induction files generalizing state w dlseq shotseq prev k with
  | nil => cases h
  | cons finfo files ih =>
    obtain ⟨m, hm, hplace⟩ := downloadLoop_cons h
    obtain ⟨hfile, hown, hnext⟩ := nameFile_ok hcount hm
    have hcount' : Counting m.state (dlseq + 1) (nextShotseq shotseq prev (imageNumber pc finfo))
        (some (imageNumber pc finfo)) := hnext
    obtain ⟨rfl, rfl⟩ | ⟨i, w', rfl, hi⟩ := hplace
    · have hzero := nextShotseq_changes shotseq prev (imageNumber pc finfo)
        (files.map (imageNumber pc)) 0
      refine ⟨congrArg some hfile.symm, hown, ?_, ?_⟩
      · simpa using hcount'.dlseq
      · rw [List.map_cons, ← hzero, hcount'.shotseq]
        simp [changes]
    · obtain ⟨hfile', hown', hdlseq, hshotseq⟩ := ih hcount' hi
      refine ⟨hfile', hown', ?_, ?_⟩
      · rw [hdlseq]
        push_cast
        congr 2
        ring
      · rw [hshotseq, nextShotseq_changes, List.map_cons]

/-- The file at the place `k` in the list gets its name. -/
structure NamedAs (pc : Pc ω) (opts : DownloadOpts) (files : List Finfo) (k : Nat)
    (n : Named ω) : Prop where
  file : files[k]? = some n.finfo
  own : Own pc opts n
  dlseq : n.state.lookup .dlseq = some (.num (opts.dlseqStart + k))
  shotseq : n.state.lookup .shotseq =
    some (.num (opts.shotseqStart + changes (files.map (imageNumber pc)) k))

theorem downloadLoop_named (files : List Finfo) {state : State} {w : ω} {k : Nat} {n : Named ω}
    (hcount : Counting state opts.dlseqStart opts.shotseqStart none)
    (h : (downloadLoop pc opts files state w).1[k]? = some n) : NamedAs pc opts files k n := by
  cases files with
  | nil => cases h
  | cons finfo files =>
    obtain ⟨m, hm, hplace⟩ := downloadLoop_cons h
    obtain ⟨hfile, hown, hnext⟩ := nameFile_ok hcount hm
    have hcount' : Counting m.state opts.dlseqStart opts.shotseqStart
        (some (imageNumber pc finfo)) := hnext
    obtain ⟨rfl, rfl⟩ | ⟨i, w', rfl, hi⟩ := hplace
    · refine ⟨congrArg some hfile.symm, hown, ?_, ?_⟩
      · simpa using hcount'.dlseq
      · simpa [changes] using hcount'.shotseq
    · obtain ⟨hfile', hown', hdlseq, hshotseq⟩ := downloadLoop_later files hcount' hi
      exact ⟨hfile', hown', hdlseq, hshotseq⟩

/-- Where no error is raised every file is named. -/
theorem downloadLoop_length (files : List Finfo) {state : State} {w w' : ω}
    (h : (downloadLoop pc opts files state w).2 = .ok w') :
    (downloadLoop pc opts files state w).1.length = files.length := by
  induction files generalizing state w with
  | nil => rfl
  | cons finfo files ih =>
    rw [downloadLoop] at h ⊢
    split at h
    · cases h
    · split at h
      · cases h
      · exact congrArg (· + 1) (ih h)

end Loop

/-- Every file that a download comes to is named by its own values and counts; they are all,
unless an error is raised. -/
structure OwnNames (pc : Pc ω) (opts : DownloadOpts) (files : List Finfo)
    (run : List (Named ω) × Except LuaError ω) : Prop where
  names : ∀ k n, run.1[k]? = some n → NamedAs pc opts files k n
  all : ∀ w, run.2 = .ok w → run.1.length = files.length

theorem imglist_download_names (pc : Pc ω) (self : ConInfo) (files : List Finfo)
    (opts : DownloadOpts) (w : ω) :
    OwnNames pc opts files (imglistDownload pc self files opts w) := by
  rw [imglistDownload]
  split
  · constructor
    · intro k n h
      cases h
    · intro w' h
      cases h
  · constructor
    · intro k n h
      apply downloadLoop_named files _ h
      constructor <;> rfl
    · intro w' h
      exact downloadLoop_length files h

end ImageNames
