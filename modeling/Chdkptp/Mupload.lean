import Chdkptp.FindActions
import Chdkptp.FsCam
import Chdkptp.RemoteCapture
import Mathlib.Algebra.Order.Ring.Rat

/-!
# Uploads of directories

`con:mupload` walks local directories and uploads the files that it finds. It remembers the
last directory of the camera that it has found or made, so as not to ask for it again.
-/

namespace Mupload

open LuaValue LuaText FsUtil FsCam FindFiles Contracts
open RemoteCapture (LuaError)

/-! ## The functions -/

/-- What `con:stat` returns of a path that there is. -/
structure RemoteStat where
  isDir : Bool
  isFile : Bool
  deriving DecidableEq

/-- The requests to a camera with this card; a call may raise an error. Of `mkdir_m` and
`utime` there are a status and a message. -/
structure Camera (φ : Type) where
  stat : Option LuaString → EStateM LuaError φ (Option RemoteStat)
  mkdirM : Option LuaString → EStateM LuaError φ (Bool × Option LuaString)
  upload : (src dst : LuaString) → EStateM LuaError φ PUnit
  utime : LuaString → ℚ → EStateM LuaError φ (Bool × Option LuaString)

/-- The local files, with their times. -/
structure Local where
  host : Host
  disk : Disk host.windows
  modification : LuaString → ℚ
  /-- `chdku.ts_get_offset()`. -/
  tsGetOffset : ℚ

/-- The options, with the target. -/
structure UploadOpts where
  find : FindOpts
  pretend : Bool
  mtime : Bool
  muDst : LuaString

/-- An upload that was begun, with the card at that moment. -/
structure Upload (φ : Type) where
  src : LuaString
  dst : LuaString
  card : φ

/-- The card, `opts.lastdir`, and the uploads so far, which are no variable of the program. -/
structure State (φ : Type) where
  card : φ
  lastdir : Option LuaString
  uploads : List (Upload φ)

inductive Error where
  | fs (e : FsError)
  | lua (e : LuaError)

abbrev Action (φ α : Type) := EStateM Error (State φ) α

variable {φ α : Type}

def onCard (f : EStateM LuaError φ α) : Action φ α := fun s =>
  match f.run s.card with
  | .ok a card => .ok a { s with card }
  | .error e card => .error (.lua e) { s with card }

/-- `errlib.throw{etype='remote',...}`. -/
def remoteError (msg : LuaString) : Error := .lua (.thrown (bytes "remote".toList) msg)

/-- `tostring` of a string or nil. -/
def tostring (v : Option LuaString) : LuaString := v.getD (bytes "nil".toList)

def notDirectory (dir : Option LuaString) : Error :=
  remoteError (bytes "not a directory: ".toList ++ tostring dir)

def notFile (path : LuaString) : Error := remoteError (bytes "not a file: ".toList ++ path)

def tooFewParts : Error := .lua (.text (bytes "joinpath requires at least 2 parts".toList))

def setLastdir (dir : Option LuaString) : Action φ PUnit := modify fun s => { s with lastdir := dir }

/-- `chdku.ts_pc2cam` of a time. -/
def tsPc2cam (tspc offset : ℚ) : ℚ :=
  let tscam := tspc + offset
  if tscam > 0 then tscam else 0

/-- What is done with a status and a message. -/
def orThrow (r : Bool × Option LuaString) : Action φ PUnit :=
  doIf (r.1 = false) (throw (remoteError (tostring r.2)))

def makeDir (cam : Camera φ) (dir : Option LuaString) : Action φ PUnit := do
  let r ← onCard (cam.mkdirM dir)
  orThrow r

/-- What is done with the result of `con:stat`. -/
def useStat (cam : Camera φ) (pretend : Bool) (dir : Option LuaString) :
    Option RemoteStat → Action φ PUnit
  | some st => doIf (st.isDir = false) (throw (notDirectory dir))
  | none => doIf (pretend = false) (makeDir cam dir)

def checkDir (cam : Camera φ) (pretend : Bool) (dir : Option LuaString) : Action φ PUnit := do
  let st ← onCard (cam.stat dir)
  useStat cam pretend dir st
  setLastdir dir

def beginUpload (src dst : LuaString) : Action φ PUnit :=
  modify fun s => { s with uploads := s.uploads ++ [⟨src, dst, s.card⟩] }

def setTime (cam : Camera φ) (l : Local) (src dst : LuaString) : Action φ PUnit := do
  let r ← onCard (cam.utime dst (tsPc2cam (l.modification src) l.tsGetOffset))
  orThrow r

def uploadFile (cam : Camera φ) (l : Local) (mtime : Bool) (src dst : LuaString) :
    Action φ PUnit := do
  beginUpload src dst
  onCard (cam.upload src dst)
  doIf (mtime = true) (setTime cam l src dst)

/-- The branch for files. -/
def muploadFile (cam : Camera φ) (l : Local) (opts : UploadOpts) (src dst : LuaString) :
    Action φ PUnit := do
  let s ← get
  let dst_dir := dirnameCam (some dst)
  doIf (s.lastdir ≠ dst_dir) (checkDir cam opts.pretend dst_dir)
  let st ← onCard (cam.stat (some dst))
  doIf (st.any (fun st => !st.isFile) = true) (throw (notFile dst))
  doIf (opts.pretend = false) (uploadFile cam l opts.mtime src dst)

/-- The branch for directories. -/
def muploadDirectory (cam : Camera φ) (opts : UploadOpts) (dst : LuaString) : Action φ PUnit := do
  doIf (opts.pretend = false) (makeDir cam (some dst))
  setLastdir (some dst)

/-- `relpath`: the path below the one that was passed in, or the name. -/
def relPath (windows : Bool) (cur : Cur) : LuaString :=
  match cur.path with
  | _ :: p :: q :: rest => joinpath windows p (q :: rest)
  | [_, p] => p
  | _ => cur.name

/-- `mupload_fn`. -/
def muploadFn (cam : Camera φ) (l : Local) (opts : UploadOpts) (rpath : List LuaString)
    (cur : Cur) : Action φ PUnit :=
  if rpath.length = 0 ∧ cur.mode = .directory then pure ⟨⟩
  else if cur.name = dot ∨ cur.name = dotdot then pure ⟨⟩
  else
    match joinpathCam [opts.muDst, relPath l.host.windows cur] with
    | none => throw tooFewParts
    | some dst =>
      if cur.mode = .directory then muploadDirectory cam opts dst
      else muploadFile cam l opts cur.full dst

/-- `con:mupload`. -/
def mupload (cam : Camera φ) (l : Local) (opts : UploadOpts) (srcpaths : List LuaString) :
    Action φ PUnit :=
  FindActions.findFiles { opts.find with dirsfirst := true } (muploadFn cam l opts) .fs l.host l.disk
    srcpaths

/-- The state in which a call ends, returning or with an error. -/
def ended (cam : Camera φ) (l : Local) (opts : UploadOpts) (srcpaths : List LuaString) (card : φ) :
    State φ :=
  reached (mupload cam l opts srcpaths) ⟨card, none, []⟩

/-! ## Directories on the card -/

/-- A path that names a directory. -/
def IsDir (isDir : φ → LuaString → Prop) (card : φ) (path : Option LuaString) : Prop :=
  ∃ dir, path = some dir ∧ isDir card dir

/-- A successful `stat` or `mkdir_m` means what it says, and no request takes directories away. -/
structure Faithful (cam : Camera φ) (isDir : φ → LuaString → Prop) : Prop where
  stat : ∀ path card st card', (cam.stat path).run card = .ok (some st) card' →
    st.isDir = true → IsDir isDir card' path
  mkdir_m : ∀ path card err card', (cam.mkdirM path).run card = .ok (true, err) card' →
    IsDir isDir card' path
  stat_keeps : ∀ path dir, Keeps (isDir · dir) (cam.stat path)
  mkdir_m_keeps : ∀ path dir, Keeps (isDir · dir) (cam.mkdirM path)
  upload_keeps : ∀ src dst dir, Keeps (isDir · dir) (cam.upload src dst)
  utime_keeps : ∀ path time dir, Keeps (isDir · dir) (cam.utime path time)

/-- Every upload was begun when its directory was there. -/
def Checked (isDir : φ → LuaString → Prop) (s : State φ) : Prop :=
  ∀ u ∈ s.uploads, IsDir isDir u.card (dirnameCam (some u.dst))

/-- The directory that is remembered is there. -/
structure Cached (isDir : φ → LuaString → Prop) (s : State φ) : Prop where
  lastdir : ∀ dir, s.lastdir = some dir → isDir s.card dir
  checked : Checked isDir s

/-- What does not end when there are more directories. -/
def Lasting (isDir : φ → LuaString → Prop) (P : State φ → Prop) : Prop :=
  ∀ s card, (∀ dir, isDir s.card dir → isDir card dir) → P s → P { s with card }

section Contracts

variable {cam : Camera φ} {isDir : φ → LuaString → Prop}

theorem lasting_cached : Lasting isDir (Cached isDir) := by
  intro s card hmore hs
  exact ⟨fun dir hdir => hmore dir (hs.lastdir dir hdir), hs.checked⟩

/-- The cache is right, and besides there is this directory. -/
def CachedWith (isDir : φ → LuaString → Prop) (path : Option LuaString) (s : State φ) : Prop :=
  Cached isDir s ∧ IsDir isDir s.card path

theorem lasting_cachedWith (path : Option LuaString) : Lasting isDir (CachedWith isDir path) := by
  intro s card hmore hs
  obtain ⟨hcached, dir, hpath, hdir⟩ := hs
  exact ⟨lasting_cached s card hmore hcached, dir, hpath, hmore dir hdir⟩

theorem onCard_run (f : EStateM LuaError φ α) (s : State φ) :
    (onCard f).run s =
      match f.run s.card with
      | .ok a card => .ok a { s with card }
      | .error e card => .error (.lua e) { s with card } := rfl

/-- A request that takes no directories away. -/
theorem onCard_contract {P : State φ → Prop} {R : α → φ → Prop} {f : EStateM LuaError φ α}
    (hP : Lasting isDir P) (hkeeps : ∀ dir, Keeps (isDir · dir) f)
    (hok : ∀ card a card', f.run card = .ok a card' → R a card') :
    Contract P (onCard f) (fun a s => P s ∧ R a s.card) P := by
  constructor
  · intro s a s' hs hrun
    rw [onCard_run] at hrun
    split at hrun
    · rename_i card hf
      cases hrun
      exact ⟨hP s card (fun dir hdir => (hkeeps dir).ok s.card a card hdir hf) hs,
        hok s.card a card hf⟩
    · cases hrun
  · intro s e s' hs hrun
    rw [onCard_run] at hrun
    split at hrun
    · cases hrun
    · rename_i e₁ card hf
      cases hrun
      exact hP s card (fun dir hdir => (hkeeps dir).error s.card e₁ card hdir hf) hs

theorem onCard_keeps {P : State φ → Prop} {f : EStateM LuaError φ α} (hP : Lasting isDir P)
    (hkeeps : ∀ dir, Keeps (isDir · dir) f) : Keeps P (onCard f) := by
  have hrun := onCard_contract (R := fun _ _ => True) hP hkeeps fun _ _ _ _ => trivial
  exact hrun.conseq (fun _ hs => hs) (fun _ _ hs => hs.1) fun _ hs => hs

theorem orThrow_contract {P Q : State φ → Prop} {r : Bool × Option LuaString}
    (h : r.1 = true → ∀ s, P s → Q s) : Contract P (orThrow r) (fun _ => Q) P := by
  apply contract_doIf
  · intro _
    exact contract_throw fun s hs => hs
  · intro hr
    exact h (by simpa using hr)

theorem makeDir_contract (hcam : Faithful cam isDir) (path : Option LuaString) :
    Contract (Cached isDir) (makeDir cam path) (fun _ => CachedWith isDir path) (Cached isDir) := by
  have hrequest := onCard_contract
    (R := fun r card => r.1 = true → IsDir isDir card path) lasting_cached
    (hcam.mkdir_m_keeps path) fun card r card' hrun hr => by
      obtain ⟨status, err⟩ := r
      obtain rfl : status = true := hr
      exact hcam.mkdir_m path card err card' hrun
  apply Contract.bind hrequest
  intro r
  have hstatus : Contract (fun s => Cached isDir s ∧ (r.1 = true → IsDir isDir s.card path))
      (orThrow r) (fun _ => CachedWith isDir path)
      (fun s => Cached isDir s ∧ (r.1 = true → IsDir isDir s.card path)) :=
    orThrow_contract fun hr s hs => ⟨hs.1, hs.2 hr⟩
  exact hstatus.conseq (fun _ hs => hs) (fun _ _ hs => hs) fun _ hs => hs.1

theorem setLastdir_contract (path : Option LuaString) {E : State φ → Prop} :
    Contract (CachedWith isDir path) (setLastdir path) (fun _ => CachedWith isDir path) E := by
  apply contract_modify
  intro s hs
  obtain ⟨hcached, dir, rfl, hdir⟩ := hs
  have hlastdir : ∀ dir', some dir = some dir' → isDir s.card dir' := by
    rintro dir' heq
    cases heq
    exact hdir
  exact ⟨⟨hlastdir, hcached.checked⟩, dir, rfl, hdir⟩

theorem useStat_contract (hcam : Faithful cam isDir) (path : Option LuaString)
    (st : Option RemoteStat) :
    Contract (fun s => Cached isDir s ∧ ∀ x ∈ st, x.isDir = true → IsDir isDir s.card path)
      (useStat cam false path st) (fun _ => CachedWith isDir path) (Cached isDir) := by
  cases st with
  | none =>
    apply contract_doIf
    · intro _
      exact (makeDir_contract hcam path).conseq (fun _ hs => hs.1) (fun _ _ hs => hs) fun _ hs => hs
    · intro hpretend
      exact absurd rfl hpretend
  | some st =>
    apply contract_doIf
    · intro _
      exact contract_throw fun s hs => hs.1
    · intro hdir s hs
      exact ⟨hs.1, hs.2 st rfl (by simpa using hdir)⟩

theorem checkDir_contract (hcam : Faithful cam isDir) (path : Option LuaString) :
    Contract (Cached isDir) (checkDir cam false path) (fun _ => CachedWith isDir path) (Cached isDir) := by
  have hrequest := onCard_contract
    (R := fun st card => ∀ x ∈ st, x.isDir = true → IsDir isDir card path) lasting_cached
    (hcam.stat_keeps path) fun card st card' hrun x hx hdir => by
      obtain rfl : st = some x := hx
      exact hcam.stat path card x card' hrun hdir
  apply Contract.bind hrequest
  intro st
  apply Contract.bind (useStat_contract hcam path st)
  intro _
  exact setLastdir_contract path

theorem beginUpload_keeps (src dst : LuaString) :
    Keeps (CachedWith isDir (dirnameCam (some dst))) (beginUpload src dst : Action φ PUnit) := by
  apply contract_modify
  intro s hs
  obtain ⟨hcached, hdir⟩ := hs
  refine ⟨⟨hcached.lastdir, fun u hu => ?_⟩, hdir⟩
  obtain hu | hu := List.mem_append.mp hu
  · exact hcached.checked u hu
  · obtain rfl := List.mem_singleton.mp hu
    exact hdir

theorem uploadFile_keeps (hcam : Faithful cam isDir) (l : Local) (mtime : Bool)
    (src dst : LuaString) :
    Keeps (CachedWith isDir (dirnameCam (some dst))) (uploadFile cam l mtime src dst) := by
  apply Keeps.bind (beginUpload_keeps src dst)
  intro _
  apply Keeps.bind (onCard_keeps (lasting_cachedWith _) (hcam.upload_keeps src dst))
  intro _
  apply keeps_doIf
  apply Keeps.bind (onCard_keeps (lasting_cachedWith _) (hcam.utime_keeps dst _))
  intro r
  exact orThrow_contract fun _ s hs => hs

/-- A file: the directory is the one that is remembered, or it is looked for. -/
theorem muploadFile_keeps (hcam : Faithful cam isDir) (l : Local) {opts : UploadOpts}
    (hpretend : opts.pretend = false) (src : LuaString) {dst : LuaString}
    (hdst : dirnameCam (some dst) ≠ none) : Keeps (Cached isDir) (muploadFile cam l opts src dst) := by
  apply Contract.bind contract_get
  intro s₀
  have hdir : Contract (fun s => s = s₀ ∧ Cached isDir s)
      (doIf (s₀.lastdir ≠ dirnameCam (some dst))
        (checkDir cam opts.pretend (dirnameCam (some dst))))
      (fun _ => CachedWith isDir (dirnameCam (some dst))) (Cached isDir) := by
    apply contract_doIf
    · intro _
      rw [hpretend]
      exact (checkDir_contract hcam _).conseq (fun _ hs => hs.2) (fun _ _ hs => hs) fun _ hs => hs
    · rintro hsame s ⟨rfl, hs⟩
      obtain ⟨dir, hdir⟩ := Option.ne_none_iff_exists'.mp hdst
      rw [hdir, ne_eq, not_not] at hsame
      rw [hdir]
      exact ⟨hs, dir, rfl, hs.lastdir dir hsame⟩
  apply Contract.bind hdir
  intro _
  have hrest : Keeps (CachedWith isDir (dirnameCam (some dst))) (do
      let st ← onCard (cam.stat (some dst))
      doIf (st.any (fun st => !st.isFile) = true) (throw (notFile dst))
      doIf (opts.pretend = false) (uploadFile cam l opts.mtime src dst)) := by
    apply Keeps.bind (onCard_keeps (lasting_cachedWith _) (hcam.stat_keeps (some dst)))
    intro st
    apply Keeps.bind (keeps_doIf (keeps_throw _))
    intro _
    exact keeps_doIf (uploadFile_keeps hcam l opts.mtime src dst)
  exact hrest.conseq (fun _ hs => hs) (fun _ _ hs => hs.1) fun _ hs => hs.1

theorem muploadDirectory_keeps (hcam : Faithful cam isDir) {opts : UploadOpts}
    (hpretend : opts.pretend = false) (dst : LuaString) :
    Keeps (Cached isDir) (muploadDirectory cam opts dst) := by
  have hmade : Contract (Cached isDir) (doIf (opts.pretend = false) (makeDir cam (some dst)))
      (fun _ => CachedWith isDir (some dst)) (Cached isDir) := by
    apply contract_doIf
    · intro _
      exact makeDir_contract hcam (some dst)
    · intro hnot
      exact absurd hpretend hnot
  apply Contract.bind hmade
  intro _
  exact (setLastdir_contract (some dst)).conseq (fun _ hs => hs) (fun _ _ hs => hs.1) fun _ hs => hs

end Contracts

/-! ## The directory of a target -/

/-- A text with something that is no separator. -/
def HasName (windows : Bool) (path : LuaString) : Prop := ∃ c ∈ path, isDirSep windows c = false

section Names

variable {windows : Bool}

theorem HasName.comps {path : LuaString} (h : HasName windows path) : comps path ≠ [] := by
  obtain ⟨c, hc, hsep⟩ := h
  have hslash : c ≠ slash := by
    rintro rfl
    rw [show slash = 47 from rfl, isDirSep_slash] at hsep
    cases hsep
  obtain ⟨k, rfl⟩ | ⟨before, name, k, hshape⟩ := exists_shape path
  · exact absurd (List.eq_of_mem_replicate hc) hslash
  · rw [hshape.comps_eq]
    exact List.append_ne_nil_of_right_ne_nil _ (List.cons_ne_nil name [])

theorem basename_hasName {path bn : LuaString} (h : basename windows path = some bn) :
    HasName windows bn := by
  rw [basename] at h
  generalize (if endsInSep windows (splitdrive windows path).2 then
    (splitdrive windows path).2.dropLast else (splitdrive windows path).2) = body at h
  obtain ⟨hne, hbn⟩ := Option.ite_none_left_eq_some.mp h
  obtain rfl := Option.some.inj hbn
  obtain ⟨c, hc⟩ := List.exists_mem_of_ne_nil _ hne
  exact ⟨c, hc, by simpa using List.mem_rtakeWhile_imp hc⟩

theorem curOf_hasName {mode : FileTree.Kind} {rpath : List LuaString} {path : LuaString}
    (h : HasName windows path) : HasName windows (curOf windows mode rpath path).name := by
  change HasName windows ((basename windows path).getD path)
  cases hbn : basename windows path with
  | none => exact h
  | some bn => exact basename_hasName hbn

theorem joinPart_hasName {r v : LuaString} (h : HasName windows v) :
    HasName windows (joinPart windows r v) := by
  obtain ⟨c, hc, hsep⟩ := h
  refine ⟨c, List.mem_append_right _ ?_, hsep⟩
  split
  · rename_i hhead
    cases v with
    | nil => cases hc
    | cons d v =>
      obtain rfl | hv := List.mem_cons.mp hc
      · rw [show (c :: v).head?.any (isDirSep windows) = isDirSep windows c from rfl, hsep] at hhead
        cases hhead
      · exact hv
  · exact hc

/-- The last part decides. -/
theorem joinpath_hasName {name : LuaString} (h : HasName windows name) (parts : List LuaString)
    (r : LuaString) : HasName windows (joinpath windows r (parts ++ [name])) := by
  rw [joinpath, List.foldl_append]
  exact joinPart_hasName h

theorem relPath_hasName {mode : FileTree.Kind} {rpath : List LuaString} {path : LuaString}
    (h : HasName windows path) :
    HasName windows (relPath windows (curOf windows mode rpath path)) := by
  have hname := @curOf_hasName windows mode rpath path h
  match rpath with
  | [] => exact hname
  | [_] => exact hname
  | r :: p :: rest =>
    have hrel : relPath windows (curOf windows mode (r :: p :: rest) path) =
        joinpath windows p (rest ++ [(curOf windows mode (r :: p :: rest) path).name]) := by
      rw [relPath, curOf]
      cases rest <;> rfl
    rw [hrel]
    exact joinpath_hasName hname rest p

theorem splitOnP_separators {rest : LuaString} (h : ∀ c ∈ rest, isDirSep windows c = true) :
    rest.splitOnP (isDirSep windows) = List.replicate (rest.length + 1) [] := by
  induction rest with
  | nil => rfl
  | cons c rest ih =>
    have hc := h c List.mem_cons_self
    have hcons := List.splitOnP_append_cons [] rest hc
    rw [List.nil_append, List.splitOnP_nil, ih fun d hd => h d (List.mem_cons_of_mem c hd)] at hcons
    exact hcons

theorem foldlM_stepInto_nil {disk : Disk windows} {s l : Place windows} (n : Nat)
    (h : (List.replicate (n + 1) []).foldlM (stepInto disk) s = some l) :
    disk.kind l = some .directory := by
  induction n generalizing s with
  | zero =>
    obtain ⟨s', hs', hrest⟩ := Option.bind_eq_some_iff.mp h
    obtain rfl := Option.some.inj hrest
    rw [stepInto_nil] at hs'
    split at hs'
    · obtain rfl := Option.some.inj hs'
      assumption
    · cases hs'
  | succ n ih =>
    obtain ⟨s', -, hrest⟩ := Option.bind_eq_some_iff.mp h
    exact ih hrest

/-- A path of separators only is one of a directory. -/
theorem attributes_hasName {h : Host} {disk : Disk h.windows} {path : LuaString}
    {mode : FileTree.Kind} (hmode : attributes h disk path = some mode) :
    mode = .directory ∨ HasName h.windows path := by
  by_cases hname : HasName h.windows path
  · exact .inr hname
  · left
    obtain ⟨l, hl, hkind⟩ := Option.bind_eq_some_iff.mp hmode
    obtain ⟨-, hwalk⟩ := Option.ite_none_left_eq_some.mp hl
    have hsep : ∀ c ∈ (splitdrive h.windows path).2, isDirSep h.windows c = true := by
      intro c hc
      by_contra hno
      have hmem : c ∈ path := by
        rw [← splitdrive_eq path]
        exact List.mem_append_right _ hc
      exact hname ⟨c, hmem, by simpa using hno⟩
    rw [components, splitOnP_separators hsep] at hwalk
    rw [foldlM_stepInto_nil _ hwalk] at hkind
    exact (Option.some.inj hkind).symm

theorem comps_eq_nil_iff (path : LuaString) : comps path = [] ↔ ∀ c ∈ path, c = slash := by
  obtain ⟨k, rfl⟩ | ⟨before, name, k, hshape⟩ := exists_shape path
  · exact iff_of_true (comps_slashes k) fun c hc => List.eq_of_mem_replicate hc
  · have hne : comps path ≠ [] := by
      rw [hshape.comps_eq]
      exact List.append_ne_nil_of_right_ne_nil _ (List.cons_ne_nil name [])
    obtain ⟨c, hc⟩ := List.exists_mem_of_ne_nil name hshape.name_ne
    have hmem : c ∈ path := by
      rw [hshape.eq]
      exact List.mem_append_left _ (List.mem_append_right before hc)
    exact iff_of_false hne fun h => hshape.no_slash (h c hmem ▸ hc)

/-- Below a target that is not slashes only every file has a directory. -/
theorem dirnameCam_target {target rel : LuaString} (htarget : comps target ≠ [])
    (hrel : comps rel ≠ []) : dirnameCam (some (joinPart false target rel)) ≠ none := by
  intro hnone
  have hcomps := comps_joinPart target rel
  obtain ⟨k, heq⟩ | ⟨before, name, k, hshape⟩ := exists_shape (joinPart false target rel)
  · rw [heq, comps_slashes] at hcomps
    exact htarget (List.append_eq_nil_iff.mp hcomps.symm).1
  · rw [hshape.comps_eq, comps_of_dirnameCam_none hshape hnone, List.nil_append] at hcomps
    obtain ⟨hnil, -⟩ | ⟨-, hnil⟩ := List.append_eq_singleton_iff.mp hcomps.symm
    · exact htarget hnil
    · exact hrel hnil

end Names

section Runs

variable {cam : Camera φ} {isDir : φ → LuaString → Prop} {l : Local} {opts : UploadOpts}

theorem muploadFn_keeps (hcam : Faithful cam isDir) (hpretend : opts.pretend = false)
    (htarget : comps opts.muDst ≠ []) {rpath : List LuaString} {path : LuaString}
    {mode : FileTree.Kind} (hmode : attributes l.host l.disk path = some mode) :
    Keeps (Cached isDir) (muploadFn cam l opts rpath (curOf l.host.windows mode rpath path)) := by
  rw [muploadFn]
  split
  · exact keeps_pure _
  · split
    · exact keeps_pure _
    · simp only [joinpathCam, List.foldl_cons, List.foldl_nil]
      split
      · exact muploadDirectory_keeps hcam hpretend _
      · rename_i hfile
        have hname := (attributes_hasName hmode).resolve_left hfile
        exact muploadFile_keeps hcam l hpretend _
          (dirnameCam_target htarget (relPath_hasName hname).comps)

/-- In every run the directory that is remembered is there. -/
theorem ended_cached (hcam : Faithful cam isDir) (hpretend : opts.pretend = false)
    (htarget : comps opts.muDst ≠ []) (srcpaths : List LuaString) (card : φ) :
    Cached isDir (ended cam l opts srcpaths card) := by
  apply Keeps.reached
  · exact FindActions.findFiles_keeps
      (fun rpath path mode hmode => muploadFn_keeps hcam hpretend htarget hmode) srcpaths
  · constructor
    · intro dir hdir
      cases hdir
    · intro u hu
      cases hu

end Runs

/-! ## Targets of slashes only -/

/-- The file name `f`. -/
def nameF : FileName false := ⟨[102], by decide⟩

/-- A directory with nothing in it but a file. -/
def oneFile : Disk false where
  kind l := if l = [] then some .directory else if l = [nameF] then some .file else none
  names l := if l = [] then [nameF] else []
  nodup l := by
    split
    · exact List.nodup_singleton nameF
    · exact List.nodup_nil
  mem_names l n := by
    by_cases hl : l = []
    · by_cases hn : n = nameF
      · simp [hl, hn]
      · simp [hl, hn]
    · simp [hl, List.append_eq_singleton_iff]
  parent l n h := by
    by_cases hl : l = []
    · simp [hl]
    · simp [hl, List.append_eq_singleton_iff] at h

def oneFileLocal : Local where
  host := ⟨false, fun _ _ => [], fun _ names => names, fun _ names => .refl names⟩
  disk := oneFile
  modification _ := 0
  tsGetOffset := 0

/-- A camera with the root directory, where no other can be made; it takes files. -/
def rootCamera : Camera PUnit where
  stat path := pure (if path = some root then some ⟨true, false⟩ else none)
  mkdirM _ := pure (false, none)
  upload _ _ := pure ⟨⟩
  utime _ _ := pure (true, none)

theorem rootCamera_faithful : Faithful rootCamera fun _ dir => dir = root where
  stat path card st card' hrun _ := by
    obtain ⟨hst, -⟩ := EStateM.Result.ok.inj hrun
    obtain ⟨hpath, -⟩ := Option.ite_none_right_eq_some.mp hst
    exact ⟨root, hpath, rfl⟩
  mkdir_m path card err card' hrun := by cases hrun
  stat_keeps path dir := keeps_pure _
  mkdir_m_keeps path dir := keeps_pure (false, none)
  upload_keeps src dst dir := keeps_pure PUnit.unit
  utime_keeps path time dir := keeps_pure (true, none)

def optsFor (muDst : LuaString) : UploadOpts where
  find := findDefaults
  pretend := false
  mtime := true
  muDst := muDst

/-- What is put below slashes stands right behind slashes. -/
theorem joinPart_slashes (k : Nat) : ∃ j, joinPart false (List.replicate k slash) [102] =
    List.replicate j slash ++ [102] := by
  cases k with
  | zero => exact ⟨1, rfl⟩
  | succ k =>
    have hend : endsInSep false (List.replicate (k + 1) slash) = true := by
      rw [endsInSep, List.replicate_succ', List.getLast?_concat]
      rfl
    refine ⟨k + 1, ?_⟩
    rw [joinPart, if_pos hend]
    rfl

theorem dirnameCam_slashes (k : Nat) :
    dirnameCam (some (joinPart false (List.replicate k slash) [102])) = none := by
  obtain ⟨j, hj⟩ := joinPart_slashes k
  have hshape : Shape (List.replicate j slash ++ [102]) (List.replicate j slash) [102] 0 :=
    ⟨by simp, by simp, by decide, fun q c hq => by
      have hc : c ∈ List.replicate j slash := by simp [hq]
      exact List.eq_of_mem_replicate hc⟩
  have hroot : List.replicate j slash ++ [102] ≠ root := by
    intro h
    have hlast := congrArg List.getLast? h
    rw [List.getLast?_concat] at hlast
    exact absurd hlast (by decide)
  have hA : ([] : LuaString) ≠ bytes "A".toList := by decide
  rw [hj]
  simp only [dirnameCam, if_neg hroot, hshape.stripName_eq, slashes_stripSlashes, if_neg hA, if_true,
    ite_self]

/-- The cache is empty and there is no directory to look for: the file is uploaded. -/
theorem muploadFile_slashes (src muDst : LuaString) {dst : LuaString}
    (hdst : dirnameCam (some dst) = none) :
    (muploadFile rootCamera oneFileLocal (optsFor muDst) src dst).run ⟨⟨⟩, none, []⟩ =
      .ok ⟨⟩ ⟨⟨⟩, none, [⟨src, dst, ⟨⟩⟩]⟩ := by
  have hne : some dst ≠ some root := by
    intro hroot
    rw [hroot] at hdst
    cases hdst
  have hstat : rootCamera.stat (some dst) = pure none := congrArg pure (if_neg hne)
  rw [muploadFile, hdst, hstat]
  rfl

theorem ended_slashes (k : Nat) :
    (ended rootCamera oneFileLocal (optsFor (List.replicate k slash)) [[102]] ⟨⟩).uploads =
      [⟨[102], joinPart false (List.replicate k slash) [102], ⟨⟩⟩] := by
  have hitems : FindFiles.findFiles oneFileLocal.host oneFileLocal.disk
      { findDefaults with dirsfirst := true } id [[102]] =
      .ok (FindFiles.stored [curOf false .file [] [102]]) := by
    decide +kernel
  have hrun := muploadFile_slashes [102] (List.replicate k slash) (dirnameCam_slashes k)
  have hwalk : mupload rootCamera oneFileLocal (optsFor (List.replicate k slash)) [[102]] =
      muploadFile rootCamera oneFileLocal (optsFor (List.replicate k slash)) [102]
        (joinPart false (List.replicate k slash) [102]) :=
    (FindActions.findFiles_onItems _ _ hitems).trans (bind_pure _)
  rw [ended, reached, hwalk, hrun]

/-- In every run with this target each upload is begun when its directory is there. -/
def AlwaysChecked (muDst : LuaString) : Prop :=
  ∀ (φ : Type) (cam : Camera φ) (isDir : φ → LuaString → Prop), Faithful cam isDir →
    ∀ (l : Local) (opts : UploadOpts), opts.pretend = false → opts.muDst = muDst →
      ∀ (srcpaths : List LuaString) (card : φ), Checked isDir (ended cam l opts srcpaths card)

theorem always_checked_iff (muDst : LuaString) : AlwaysChecked muDst ↔ ∃ c ∈ muDst, c ≠ slash := by
  constructor
  · intro halways
    by_contra hno
    have hslashes : ∀ c ∈ muDst, c = slash := by simpa using hno
    have htarget := List.eq_replicate_length.mpr hslashes
    rw [htarget] at halways
    have hchecked := halways PUnit rootCamera _ rootCamera_faithful oneFileLocal (optsFor _) rfl rfl
      [[102]] ⟨⟩
    rw [Checked, ended_slashes] at hchecked
    obtain ⟨dir, hdir, -⟩ := hchecked _ List.mem_cons_self
    rw [dirnameCam_slashes] at hdir
    cases hdir
  · rintro ⟨c, hc, hne⟩ φ cam isDir hcam l opts hpretend rfl srcpaths card
    have htarget : comps opts.muDst ≠ [] := fun hnil =>
      hne ((comps_eq_nil_iff opts.muDst).mp hnil c hc)
    exact (ended_cached hcam hpretend htarget srcpaths card).checked

/-- The file `f` is uploaded to `/f`, which is in no directory. -/
theorem not_checked :
    Faithful rootCamera (fun _ dir => dir = root) ∧
      ¬Checked (fun _ dir => dir = root)
        (ended rootCamera oneFileLocal (optsFor []) [bytes "f".toList] ⟨⟩) := by
  have huploads : (ended rootCamera oneFileLocal (optsFor []) [bytes "f".toList] ⟨⟩).uploads =
      [⟨[102], [47, 102], ⟨⟩⟩] := ended_slashes 0
  have hnone : dirnameCam (some [47, 102]) = none := dirnameCam_slashes 0
  refine ⟨rootCamera_faithful, fun hchecked => ?_⟩
  rw [Checked, huploads] at hchecked
  obtain ⟨dir, hdir, -⟩ := hchecked _ List.mem_cons_self
  rw [hnone] at hdir
  cases hdir

end Mupload
