import Chdkptp.Rsint

/-!
# The names of interactive shots

What a destination says about the names of files, without a memory, and when the prompt
follows it: a name without substitutions is treated as one with substitutions as soon as
there has been a destination with substitutions before.
-/

namespace Rsint

open ActionSystem LuaValue LuaText RequestProgram RemoteCapture VarSubst

variable {σ : Type}

/-! ## What a destination says -/

/-- `dst` and `dst_dir`; `isDir` is whether the destination names a directory. -/
def placed (args : Args) (isDir : Bool) : Option LuaString × Option LuaString :=
  match args.dst with
  | none => (none, none)
  | some dst =>
    if args.substitutes then (some dst, none)
    else if FsUtil.endsInSep true dst then (none, some dst.dropLast)
    else if isDir then (none, some dst)
    else (some dst, none)

/-- A destination that is the name of a file, without substitutions. -/
def plainName (args : Args) (isDir : Bool) : Option LuaString :=
  args.dst.bind fun dst =>
    if args.substitutes ∨ FsUtil.endsInSep true dst ∨ isDir then none else some dst

def imgName (imgnum : Int) : LuaString := bytes "IMG_".toList ++ format04d imgnum

def withExt (hdata : HData) (opts : HOpts) (name : LuaString) : LuaString :=
  name ++ byte '.' :: opts.ext.getD hdata.ext

/-- The state for substitutions at a shot. -/
def shotState (H : Host σ) (cam : ConInfo) (shotseq : Int) (host : σ) : SubstState :=
  { setSubstConState cam newSubstState with
    ldate := (H.time host).1
    now := (H.time host).2
    shotseq }

/-- A name with substitutions. -/
def substituted (H : Host σ) (state : SubstState) (hdata : HData) (opts : HOpts)
    (name : LuaString) : Except Stop LuaString :=
  match expand H.funcs (rcSetSubstState state hdata opts) name with
  | .ok path => .ok path
  | .error e => .error (.error e)

/-- The extension and the format of a type of data. -/
def Args.typeOpts (args : Args) (i : Nat) : HOpts :=
  if i = 1 ∧ args.dng then
    ⟨none, none, some (bytes "dng".toList), some (bytes "DNG".toList)⟩
  else ⟨none, none, none, none⟩

/-- The name of a file by its destination. -/
def destName (H : Host σ) (args : Args) (isDir : Bool) (state : SubstState) (i : Nat)
    (imgnum : Int) : Except Stop LuaString :=
  let hdata := remotecapDtypes i imgnum
  let opts := args.typeOpts i
  let inDir (dir : LuaString) : LuaString :=
    FsUtil.joinpath H.windows dir [withExt hdata opts (imgName hdata.imgnum)]
  match args.dst with
  | none => .ok (withExt hdata opts (imgName hdata.imgnum))
  | some dst =>
    if args.substitutes then substituted H state hdata opts dst
    else if FsUtil.endsInSep true dst then .ok (inDir dst.dropLast)
    else if isDir then .ok (inDir dst)
    else .ok (withExt hdata opts dst)

/-! ## What init_handlers leaves -/

/-- The options that a successful `init_handlers` leaves. -/
def leftRcopts (doSubst : Bool) (args : Args) (isDir : Bool) : Rcopts where
  hopts := ⟨(placed args isDir).1, (placed args isDir).2, none, none⟩
  jpg := args.jpg
  dng := args.dng
  raw := args.raw
  dnghdr := args.dnghdr
  craw := args.craw
  doSubst := doSubst || args.substitutes
  timeout := args.timeout

/-- The destination in the arguments names a directory. -/
def Host.dirAt (H : Host σ) (args : Args) (host : σ) : Bool :=
  args.dst.any fun dst => H.isDirectory dst host

/-- `do_subst` is set when there are substitutions, and a success leaves the options. -/
structure Left (g : Session σ) (args : Args) (isDir : Bool)
    (r : Except LuaError Unit × Session σ) : Prop where
  doSubst : r.2.doSubst = (g.doSubst || args.substitutes)
  rcopts : r.1 = .ok () → r.2.rcopts = some (leftRcopts g.doSubst args isDir)

theorem initStdHandlers_left {g g' : Session σ} {args : Args} {isDir : Bool}
    {dst dstDir : Option LuaString} (hplaced : placed args isDir = (dst, dstDir))
    (hsubst : g'.doSubst = (g.doSubst || args.substitutes)) :
    Left g args isDir (initStdHandlers g' args dst dstDir) := by
  rw [initStdHandlers]
  split
  · exact ⟨hsubst, nofun⟩
  · refine ⟨hsubst, fun _ => ?_⟩
    rw [leftRcopts, hplaced, ← hsubst]

theorem error_left {g g' : Session σ} {args : Args} {isDir : Bool} (e : LuaError)
    (hsubst : g'.doSubst = (g.doSubst || args.substitutes)) :
    Left g args isDir (.error e, g') :=
  ⟨hsubst, nofun⟩

theorem initHandlers_left (H : Host σ) (g : Session σ) (args : Args) :
    Left g args (H.dirAt args g.host) (initHandlers H g args) := by
  rw [initHandlers]
  cases hdst : args.dst with
  | none =>
    have hsubst : args.substitutes = false := by simp [Args.substitutes, hdst]
    exact initStdHandlers_left (by simp [placed, hdst]) (by rw [hsubst, Bool.or_false])
  | some dst =>
    have hdir : H.dirAt args g.host = H.isDirectory dst g.host := by simp [Host.dirAt, hdst]
    rw [hdir]
    cases hsubst : args.substitutes with
    | true =>
      simp only [if_true]
      cases validateFuncs H.funcs dst with
      | error e => exact error_left e (by simp [hsubst])
      | ok u => exact initStdHandlers_left (by simp [placed, hdst, hsubst]) (by simp [hsubst])
    | false =>
      have hkeep : g.doSubst = (g.doSubst || args.substitutes) := by rw [hsubst, Bool.or_false]
      simp only [Bool.false_eq_true, if_false]
      cases hend : FsUtil.endsInSep true dst with
      | true =>
        have hplaced : placed args (H.isDirectory dst g.host) = (none, some dst.dropLast) := by
          simp [placed, hdst, hsubst, hend]
        simp only [if_true]
        split
        · exact initStdHandlers_left hplaced hkeep
        · split
          · exact error_left _ hkeep
          · exact initStdHandlers_left hplaced hkeep
      | false =>
        simp only [Bool.false_eq_true, if_false]
        cases hisdir : H.isDirectory dst g.host with
        | true => exact initStdHandlers_left (by simp [placed, hdst, hsubst, hend]) hkeep
        | false => exact initStdHandlers_left (by simp [placed, hdst, hsubst, hend]) hkeep

/-! ## Names -/

/-- The name that the options lead to at a shot. -/
theorem fileName_eq (H : Host σ) (rc : Rcopts) (cam : ConInfo) (shotseq : Int) (m : Machine σ)
    (i : Nat) (imgnum : Int) :
    fileName H rc cam shotseq m i imgnum = some (
      let hdata := remotecapDtypes i imgnum
      let opts := rc.hoptsFor i
      match opts.dst, rc.doSubst with
      | some dst, true => substituted H (shotState H cam shotseq m.host) hdata opts dst
      | _, _ =>
        let name := withExt hdata opts (opts.dst.getD (imgName hdata.imgnum))
        .ok (opts.dstDir.elim name fun dir => FsUtil.joinpath H.windows dir [name])) := by
  have hsubst : (rc.captureOpts H shotseq).doSubst = rc.doSubst := rfl
  have hseq : (rc.captureOpts H shotseq).shotseq = some shotseq := rfl
  simp only [fileName, initSubst, hsubst, hseq, Option.isNone_none, and_true]
  cases hdst : (rc.hoptsFor i).dst with
  | none =>
    cases rc.doSubst <;> cases hdir : (rc.hoptsFor i).dstDir <;>
      simp [rcBuildPath, hdst, hdir, Action.local_, outcome, imgName, withExt]
  | some dst =>
    cases rc.doSubst with
    | false =>
      cases hdir : (rc.hoptsFor i).dstDir <;>
        simp [rcBuildPath, hdst, hdir, Action.local_, outcome, withExt]
    | true =>
      simp only [if_true, rcBuildPath, hdst, Action.local_, outcome, Option.map_some, H.substRun_eq,
        Option.getD_some, substituted, shotState, Option.some.injEq]
      generalize expand H.funcs _ dst = r
      cases r <;> rfl

theorem hoptsFor_left (doSubst : Bool) (args : Args) (isDir : Bool) (i : Nat) :
    (leftRcopts doSubst args isDir).hoptsFor i =
      { args.typeOpts i with dst := (placed args isDir).1, dstDir := (placed args isDir).2 } := by
  have hdng : (leftRcopts doSubst args isDir).dng = args.dng := rfl
  rw [Rcopts.hoptsFor, Args.typeOpts, hdng]
  by_cases hraw : i = 1 ∧ args.dng = true
  · rw [if_pos hraw, if_pos hraw]
    rfl
  · rw [if_neg hraw, if_neg hraw]
    rfl

/-- Substitutions do not look at where the file goes. -/
theorem substituted_dst (H : Host σ) (state : SubstState) (hdata : HData) (opts : HOpts)
    (dst dstDir : Option LuaString) (name : LuaString) :
    substituted H state hdata { opts with dst, dstDir } name =
      substituted H state hdata opts name := rfl

/-- The name after a success is what the destination says, unless it is a plain name and
there have been substitutions. -/
theorem fileName_left (H : Host σ) (doSubst : Bool) (args : Args) (isDir : Bool) (cam : ConInfo)
    (shotseq : Int) (m : Machine σ) (i : Nat) (imgnum : Int) :
    fileName H (leftRcopts doSubst args isDir) cam shotseq m i imgnum = some (
      match plainName args isDir, doSubst with
      | some dst, true => substituted H (shotState H cam shotseq m.host)
          (remotecapDtypes i imgnum) (args.typeOpts i) dst
      | _, _ => destName H args isDir (shotState H cam shotseq m.host) i imgnum) := by
  have hflag : (leftRcopts doSubst args isDir).doSubst = (doSubst || args.substitutes) := rfl
  have hnum : (remotecapDtypes i imgnum).imgnum = imgnum := by
    unfold remotecapDtypes
    split <;> rfl
  rw [fileName_eq, hoptsFor_left, hflag]
  cases hdst : args.dst with
  | none =>
    have hsubst : args.substitutes = false := by simp [Args.substitutes, hdst]
    cases doSubst <;> simp [placed, plainName, destName, hdst, hsubst, withExt]
  | some dst =>
    cases hsubst : args.substitutes with
    | true =>
      cases doSubst <;> simp [placed, plainName, destName, hdst, hsubst, substituted_dst]
    | false =>
      cases hend : FsUtil.endsInSep true dst with
      | true =>
        cases doSubst <;> simp [placed, plainName, destName, hdst, hsubst, hend, withExt]
      | false =>
        cases isDir <;> cases doSubst <;>
          simp [placed, plainName, destName, hdst, hsubst, hend, withExt, substituted_dst]

/-! ## Histories -/

/-- Of the commands so far: the flag `nosubst` of the last run, and whether there has been
a destination with substitutions. -/
structure History where
  nosubst : Bool
  seen : Bool

def History.after (h : History) : Op σ → History
  | .run args => ⟨args.nosubst, h.seen || args.substitutes⟩
  | .path rest => ⟨h.nosubst, h.seen || (!h.nosubst && decide (dollar ∈ rest))⟩
  | _ => h

def history (ops : List (Op σ)) : History := ops.foldl History.after ⟨false, false⟩

/-- The session remembers what has been seen. -/
structure Remembers (g : Session σ) (h : History) : Prop where
  seen : g.doSubst = h.seen
  nosubst : ∀ args, g.args = some args → args.nosubst = h.nosubst

theorem setArgs_remembers (H : Host σ) {g : Session σ} {h : History} (args : Args)
    (hg : g.doSubst = h.seen) :
    Remembers (setArgs H g args) ⟨args.nosubst, h.seen || args.substitutes⟩ := by
  have hleft := (initHandlers_left H g args).doSubst
  rw [hg] at hleft
  rw [setArgs]
  split
  · rename_i g' hinit
    rw [hinit] at hleft
    exact ⟨hleft, fun a ha => by rw [← Option.some.inj ha]⟩
  · rename_i e g' hinit
    rw [hinit] at hleft
    exact ⟨hleft, nofun⟩

theorem step_remembers {H : Host σ} {g g' : Session σ} {h : History} {op : Op σ}
    (hg : Remembers g h) (hstep : step H g op = some g') : Remembers g' (h.after op) := by
  cases op with
  | run args =>
    obtain rfl := Option.some.inj hstep
    exact setArgs_remembers H args hg.seen
  | path rest =>
    obtain ⟨args, hargs, rfl⟩ := Option.map_eq_some_iff.mp hstep
    obtain ⟨old, hold, rfl⟩ := Option.map_eq_some_iff.mp hargs
    have hset := setArgs_remembers H { old with dst := if rest = [] then none else some rest } hg.seen
    have hno := hg.nosubst old hold
    have hsub : Args.substitutes { old with dst := if rest = [] then none else some rest } =
        (!h.nosubst && decide (dollar ∈ rest)) := by
      cases rest <;> simp [Args.substitutes, hno]
    rw [hsub] at hset
    exact ⟨hset.seen, fun a ha => (hset.nosubst a ha).trans hno⟩
  | quit =>
    obtain rfl := Option.some.inj hstep
    exact ⟨hg.seen, nofun⟩
  | elapse host =>
    obtain rfl := Option.some.inj hstep
    exact ⟨hg.seen, hg.nosubst⟩

theorem run_remembers {H : Host σ} {ops : List (Op σ)} {g g' : Session σ} {h : History}
    (hg : Remembers g h) (hrun : (system H).run g ops = some g') :
    Remembers g' (ops.foldl History.after h) := by
  induction ops generalizing g h with
  | nil =>
    cases hrun
    exact hg
  | cons op ops ih =>
    obtain ⟨g₁, hstep, hrest⟩ := Option.bind_eq_some_iff.mp hrun
    exact ih (step_remembers hg hstep) hrest

/-- A plain name is never what it would be with substitutions, unless it has a `$`. -/
theorem substituted_ne {H : Host σ} {state : SubstState} {hdata : HData} {opts : HOpts}
    {dst : LuaString} (hdst : dollar ∉ dst) :
    substituted H state hdata opts dst ≠ .ok (withExt hdata opts dst) := by
  have hrun : expand H.funcs (rcSetSubstState state hdata opts) dst = .ok dst :=
    run_of_no_dollar hdst
  simp [substituted, hrun, withExt]

theorem plainName_destName {H : Host σ} {args : Args} {isDir : Bool} {dst : LuaString}
    (h : plainName args isDir = some dst) (state : SubstState) (i : Nat) (imgnum : Int) :
    destName H args isDir state i imgnum =
      .ok (withExt (remotecapDtypes i imgnum) (args.typeOpts i) dst) := by
  obtain ⟨dst', hdst, hplain⟩ := Option.bind_eq_some_iff.mp h
  split at hplain
  · cases hplain
  · rename_i hnot
    simp only [not_or, Bool.not_eq_true] at hnot
    obtain rfl := Option.some.inj hplain
    simp [destName, hdst, hnot.1, hnot.2.1, hnot.2.2]

/-- A command that sets the destination and leaves the prompt has left the options. -/
theorem step_rcopts {H : Host σ} {g g' : Session σ} {op : Op σ} {args : Args}
    (hop : newArgs g op = some args) (hstep : step H g op = some g') (hargs : g'.args.isSome) :
    g'.rcopts = some (leftRcopts g.doSubst args (H.dirAt args g.host)) := by
  have hset : g' = setArgs H g args := by
    cases op with
    | run a =>
      simp only [newArgs, Option.some.injEq] at hop
      simpa [step, newArgs, hop] using hstep.symm
    | path rest =>
      simp only [step, hop, Option.map_some, Option.some.injEq] at hstep
      exact hstep.symm
    | quit => cases hop
    | elapse host => cases hop
  have hleft := (initHandlers_left H g args).rcopts
  rw [hset, setArgs] at hargs ⊢
  split at hargs
  · rename_i g₁ hinit
    rw [hinit] at hleft
    exact hleft rfl
  · cases hargs

/-- After a destination has been set, the names of the files are those that the destination
says, if and only if it is no plain name, or there has been no destination with
substitutions before, or the name has a `$` and substituting it happens to add the
extension. -/
theorem fileName_iff (H : Host σ) (host : σ) {before : List (Op σ)} {op : Op σ}
    {g g' : Session σ} {args : Args} (hbefore : (system H).run (start host) before = some g)
    (hop : newArgs g op = some args) (hstep : step H g op = some g') (hargs : g'.args.isSome) :
    ∃ rc, g'.rcopts = some rc ∧ ∀ cam shotseq m i imgnum,
      (fileName H rc cam shotseq m i imgnum =
          some (destName H args (H.dirAt args g.host) (shotState H cam shotseq m.host) i imgnum) ↔
        ∀ dst, plainName args (H.dirAt args g.host) = some dst → (history before).seen = true →
          dollar ∈ dst ∧
          substituted H (shotState H cam shotseq m.host) (remotecapDtypes i imgnum)
              (args.typeOpts i) dst =
            .ok (withExt (remotecapDtypes i imgnum) (args.typeOpts i) dst)) := by
  have hseen : g.doSubst = (history before).seen :=
    (run_remembers ⟨rfl, fun _ h => (by cases h)⟩ hbefore).seen
  refine ⟨_, step_rcopts hop hstep hargs, fun cam shotseq m i imgnum => ?_⟩
  rw [fileName_left, hseen, Option.some.injEq]
  cases hplain : plainName args (H.dirAt args g.host) with
  | none => exact iff_of_true rfl nofun
  | some dst =>
    simp only [Option.some.injEq, forall_eq']
    rw [plainName_destName hplain]
    cases (history before).seen with
    | false => exact iff_of_true rfl nofun
    | true =>
      constructor
      · intro hname _
        exact ⟨Classical.byContradiction fun hdollar => substituted_ne hdollar hname, hname⟩
      · intro hname
        exact (hname rfl).2

/-! ## A prompt -/

/-- A host without directories; of the substitutions it has `name`. -/
def promptHost : Host Unit where
  toHostOps := { idleHost with
    substRun := expand fun func =>
      if func = bytes "name".toList then some fun st _ => .ok st.name else none }
  isDirectory _ _ := false
  mkdirM _ s := (.ok (), s)
  setDngHdr _ := id
  funcs func := if func = bytes "name".toList then some fun st _ => .ok st.name else none
  substRun_eq := rfl

def jpgArgs (dst : String) : Args :=
  ⟨some (bytes dst.toList), false, true, false, false, false, false, 20000⟩

/-- A start with substitutions, and then a plain destination. -/
def substThenPlain : List (Op Unit) :=
  [.run (jpgArgs "a$\x7bname\x7d"), .path (bytes "b".toList)]

/-- The name of the first JPEG after some commands. -/
def firstName (ops : List (Op Unit)) : Option (Except Stop LuaString) :=
  ((system promptHost).run (start ()) ops).bind fun g =>
    g.rcopts.bind fun rc => fileName promptHost rc ⟨none, none, 0⟩ 1 ⟨(), none, ∅⟩ 0 1

theorem plain_name_without_ext :
    firstName substThenPlain = some (.ok (bytes "b".toList)) ∧
      destName promptHost (jpgArgs "b") false
        (shotState promptHost ⟨none, none, 0⟩ 1 ()) 0 1 = .ok (bytes "b.jpg".toList) ∧
      firstName [.run (jpgArgs "b")] = some (.ok (bytes "b.jpg".toList)) := by
  decide +kernel

theorem prompt_starts : ∃ g, step promptHost (start ()) (.run (jpgArgs "b")) = some g ∧
    g.args.isSome := by
  have hrun : (step promptHost (start ()) (.run (jpgArgs "b"))).map (fun g => g.args.isSome) =
      some true := by
    decide +kernel
  exact Option.map_eq_some_iff.mp hrun

theorem fileName_witness : ∃ g' rc, step promptHost (start ()) (.run (jpgArgs "b")) = some g' ∧
    g'.rcopts = some rc ∧ ∀ cam shotseq m i imgnum,
      fileName promptHost rc cam shotseq m i imgnum =
        some (destName promptHost (jpgArgs "b") false (shotState promptHost cam shotseq m.host)
          i imgnum) := by
  obtain ⟨g', hstep, hargs⟩ := prompt_starts
  obtain ⟨rc, hrc, hnames⟩ := @fileName_iff _ promptHost () [] _ _ _ _ rfl rfl hstep hargs
  exact ⟨g', rc, hstep, hrc, fun cam shotseq m i imgnum =>
    (hnames cam shotseq m i imgnum).mpr fun dst _ hseen => by cases hseen⟩

end Rsint
