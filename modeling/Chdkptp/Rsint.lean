import Chdkptp.ActionSystem
import Chdkptp.VarSubst

/-!
# Interactive remote shooting

`rsint`: shots are taken from a prompt, where the command `path` changes the destination.
A destination is a name with substitutions, a directory or a name. `do_subst`, by which a
shot knows that it has substitutions, is a global variable that is only ever set.
-/

namespace Rsint

open ActionSystem LuaValue LuaText RequestProgram RemoteCapture VarSubst

variable {σ : Type}

/-- The host, with what `rsint` needs of it. -/
structure Host (σ : Type) extends HostOps σ where
  /-- `lfs.attributes(path,'mode') == 'directory'`. -/
  isDirectory : LuaString → σ → Bool
  /-- `fsutil.mkdir_m`. -/
  mkdirM : LuaString → σ → Except LuaError Unit × σ
  /-- `dng_info.hdr=chunk.data`. -/
  setDngHdr : Chunk → σ → σ
  /-- `chdku.rc_subst_funcs`. -/
  funcs : Funcs SubstState
  substRun_eq : substRun = expand funcs

/-- The arguments of the command; `dst` is `args[1]`, and `timeout` is what `shotwait`, the
shutter speed or else the default gives. -/
structure Args where
  dst : Option LuaString
  nosubst : Bool
  jpg : Bool
  dng : Bool
  raw : Bool
  dnghdr : Bool
  craw : Bool
  timeout : Int
  deriving DecidableEq

/-- `m.rcopts`: the options of the handlers that write files, which handlers there are, and
what else a shot is given. -/
structure Rcopts where
  hopts : HOpts
  jpg : Bool
  dng : Bool
  raw : Bool
  dnghdr : Bool
  craw : Bool
  doSubst : Bool
  timeout : Int
  deriving DecidableEq

/-- The global `do_subst`, the arguments while the prompt is there, and the host's state. -/
structure Session (σ : Type) where
  doSubst : Bool
  args : Option Args
  rcopts : Option Rcopts
  host : σ

/-! ## Destinations -/

def dngCombined : LuaError :=
  .thrown (bytes "bad_arg".toList)
    (bytes "rc_init_std_handlers: dng cannot be combined with raw or dng_hdr".toList)

/-- `chdku.rc_init_std_handlers`, and what `init_handlers` adds to its result. -/
def initStdHandlers (g : Session σ) (args : Args) (dst dstDir : Option LuaString) :
    Except LuaError Unit × Session σ :=
  if args.dng ∧ args.raw then (.error dngCombined, g)
  else (.ok (), { g with
    rcopts := some {
      hopts := ⟨dst, dstDir, none, none⟩
      jpg := args.jpg
      dng := args.dng
      raw := args.raw
      dnghdr := args.dnghdr
      craw := args.craw
      doSubst := g.doSubst
      timeout := args.timeout } })

/-- A destination with substitutions. -/
def Args.substitutes (args : Args) : Bool :=
  args.dst.any fun dst => !args.nosubst && decide (dollar ∈ dst)

/-- `init_handlers`. -/
def initHandlers (H : Host σ) (g : Session σ) (args : Args) : Except LuaError Unit × Session σ :=
  match args.dst with
  | none => initStdHandlers g args none none
  | some dst =>
    if args.substitutes then
      let g := { g with doSubst := true }
      match validateFuncs H.funcs dst with
      | .error e => (.error e, g)
      | .ok () => initStdHandlers g args dst none
    else if FsUtil.endsInSep true dst then
      -- explicit / treat it as a directory
      let dstDir := dst.dropLast
      if H.isDirectory dstDir g.host then initStdHandlers g args none dstDir
      else
        match H.mkdirM dstDir g.host with
        | (.error e, host) => (.error e, { g with host })
        | (.ok (), host) => initStdHandlers { g with host } args none dstDir
    else if H.isDirectory dst g.host then initStdHandlers g args none dst
    else initStdHandlers g args dst none

/-! ## The prompt -/

inductive Op (σ : Type) where
  /-- `m.run`. -/
  | run (args : Args)
  /-- The command `path`. -/
  | path (rest : LuaString)
  /-- The end of a run. -/
  | quit
  /-- Other commands, shots, and whatever else becomes of the host. -/
  | elapse (host : σ)

/-- The arguments that a command goes on with. -/
def newArgs (g : Session σ) : Op σ → Option Args
  | .run args => some args
  | .path rest => g.args.map fun args => { args with dst := if rest = [] then none else some rest }
  | _ => none

/-- An error in `init_handlers` ends the run. -/
def setArgs (H : Host σ) (g : Session σ) (args : Args) : Session σ :=
  match initHandlers H g args with
  | (.ok (), g) => { g with args := some args }
  | (.error _, g) => { g with args := none }

def step (H : Host σ) (g : Session σ) : Op σ → Option (Session σ)
  | .quit => some { g with args := none }
  | .elapse host => some { g with host }
  | op => (newArgs g op).map (setArgs H g)

def system (H : Host σ) : System (Session σ) (Op σ) := ⟨step H⟩

def start (host : σ) : Session σ := ⟨false, none, none, host⟩

/-! ## Shots -/

/-- The options of the handler for a type of data. -/
def Rcopts.hoptsFor (rc : Rcopts) (i : Nat) : HOpts :=
  if i = 1 ∧ rc.dng then
    { rc.hopts with ext := some (bytes "dng".toList), fmt := some (bytes "DNG".toList) }
  else rc.hopts

/-- What `capture_get_data` is given. -/
def Rcopts.captureOpts (H : Host σ) (rc : Rcopts) (shotseq : Int) : CaptureOpts σ :=
  let fileFor (i : Nat) (wanted : Bool) : Option (Handler σ) :=
    if wanted then some (rcHandlerFile H.toHostOps (rc.hoptsFor i)) else none
  { timeout := some rc.timeout
    initwait := none
    poll := none
    pollstart := none
    jpg := fileFor 0 rc.jpg
    raw := if rc.dng then some (rcHandlerRawDngFile H.toHostOps (rc.hoptsFor 1))
      else fileFor 1 rc.raw
    dngHdr := if rc.dng then
        some (rcHandlerStore H.toHostOps (some fun chunk => Method.onHost (H.setDngHdr chunk)))
      else fileFor 2 rc.dnghdr
    craw := fileFor 3 rc.craw
    doSubst := rc.doSubst
    shotseq := some shotseq }

theorem rcHandlerFile_path (H : Host σ) (hopts : HOpts) :
    ∃ next : HData → LuaString → Method σ Unit,
      rcHandlerFile H.toHostOps hopts =
        fun hdata => rcBuildPath H.toHostOps hdata hopts >>= next hdata :=
  ⟨_, rfl⟩

theorem rcHandlerRawDngFile_path (H : Host σ) (hopts : HOpts) :
    ∃ next : HData → LuaString → Method σ Unit,
      rcHandlerRawDngFile H.toHostOps hopts =
        fun hdata => rcBuildPath H.toHostOps hdata hopts >>= next hdata :=
  ⟨_, rfl⟩

/-- Every handler that writes a file first builds the path from the options of its type. -/
theorem captureOpts_path (H : Host σ) (rc : Rcopts) (shotseq : Int) {i : Nat}
    {handler : Handler σ} (h : handlers (rc.captureOpts H shotseq) i = some handler)
    (hstore : ¬(i = 2 ∧ rc.dng = true)) :
    ∃ next : HData → LuaString → Method σ Unit,
      handler = fun hdata => rcBuildPath H.toHostOps hdata (rc.hoptsFor i) >>= next hdata := by
  have hfile : ∀ (j : Nat) (wanted : Bool),
      (if wanted then some (rcHandlerFile H.toHostOps (rc.hoptsFor j)) else none) = some handler →
      handler = rcHandlerFile H.toHostOps (rc.hoptsFor j) := by
    intro j wanted hj
    cases wanted with
    | false => cases hj
    | true => exact (Option.some.inj hj).symm
  match i, h with
  | 0, h => exact hfile 0 _ h ▸ rcHandlerFile_path H _
  | 1, h =>
    simp only [handlers, Rcopts.captureOpts] at h
    split at h
    · exact Option.some.inj h ▸ rcHandlerRawDngFile_path H _
    · exact hfile 1 _ h ▸ rcHandlerFile_path H _
  | 2, h =>
    have hdng : rc.dng = false := by simpa using hstore
    simp only [handlers, Rcopts.captureOpts, hdng, Bool.false_eq_true, if_false] at h
    exact hfile 2 _ h ▸ rcHandlerFile_path H _
  | 3, h => exact hfile 3 _ h ▸ rcHandlerFile_path H _
  | _ + 4, h => cases h

/-- The result of a program that asks nothing. -/
def outcome {Q : Type} {R : Q → Type} {α : Type} : Prog Q R α → Option α
  | .done a => some a
  | .ask _ _ => none

/-- The name under which a shot's data of a type is written. -/
def fileName (H : Host σ) (rc : Rcopts) (cam : ConInfo) (shotseq : Int) (m : Machine σ) (i : Nat)
    (imgnum : Int) : Option (Except Stop LuaString) :=
  let m := initSubst H.toHostOps cam (rc.captureOpts H shotseq) { m with subst := none, rets := ∅ }
  (outcome (rcBuildPath H.toHostOps (remotecapDtypes i imgnum) (rc.hoptsFor i) m)).map Prod.fst

end Rsint
