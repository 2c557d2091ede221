import Chdkptp.ActionSystem
import Chdkptp.FsCam

/-!
# Path functions on the camera

The copies of the path functions that scripts on the camera use. In `splitpath` the array of
the parts is made once for a script and not for a call, so the parts of all paths that have
been split before stand behind those of the path.
-/

namespace RlibPaths

open ActionSystem LuaValue LuaText FsUtil FsCam LuaSlots

/-! ## The copies -/

/-- `basename`. -/
def basename (path sfx : Option LuaString) : Option LuaString :=
  match path with
  | none => none
  | some path =>
    if path = root then none
    else
      (lastName path).map fun bn =>
        match sfx with
        | some sfx =>
          if sfx.length < bn.length then
            if subEnd bn sfx.length = sfx then bn.take (bn.length - sfx.length) else bn
          else bn
        | none => bn

/-- `dirname`. -/
def dirname (path : Option LuaString) : Option LuaString :=
  match path with
  | none => none
  | some path =>
    if path = root then some path
    else
      -- remove trailing blah/?
      let dn := stripName path
      if dn = [] then none
      else
        let dn := stripSlashes dn
        if dn = bytes "A".toList then some root
        -- all /, invalid
        else if dn = [] then none
        else some dn

/-- `joinpath`, none where it throws. -/
def joinpath : List LuaString → Option LuaString
  | r :: v :: parts => some ((v :: parts).foldl (joinPart false) r)
  | _ => none

theorem dirname_eq (path : Option LuaString) : dirname path = dirnameCam path := rfl

theorem joinpath_eq (parts : List LuaString) : joinpath parts = joinpathCam parts := by
  unfold joinpath joinpathCam
  rfl

/-- The loop of `splitpath`. -/
def splitLoop (B : Borders LuaString) (parts : Slots LuaString) (path : Option LuaString) :
    Slots LuaString :=
  let parts := insertFirst B parts (basename path none)
  match hd : dirname path with
  | none => parts
  | some dir =>
    if hroot : dir = root then insertFirst B parts (some dir)
    else
      have := dirnameCam_length ((dirname_eq path).symm.trans hd) hroot
      splitLoop B parts (some dir)
termination_by (path.getD []).length

/-- Without a suffix the names are the same. -/
theorem basename_none (path : Option LuaString) :
    basename path none = basenameCam path none true := rfl

theorem splitLoop_eq (B : Borders LuaString) (parts : Slots LuaString) (path : Option LuaString) :
    splitLoop B parts path = FsCam.splitLoop B parts path := by
  fun_induction splitLoop B parts path with
  | case1 parts path parts' hd => exact (splitLoop_none B parts hd).symm
  | case2 parts path parts' hd => exact (splitLoop_root B parts hd).symm
  | case3 parts path parts' dir hd hroot hlt ih =>
    rw [ih]
    exact (splitLoop_dir B parts hd hroot).symm

/-- A suffix that is only there when its case is ignored. -/
def OtherCase (bn sfx : LuaString) : Prop :=
  sfx.length < bn.length ∧ lower (subEnd bn sfx.length) = lower sfx ∧ subEnd bn sfx.length ≠ sfx

theorem suffix_iff (bn s : LuaString) :
    ((if s.length < bn.length then
        if subEnd bn s.length = s then bn.take (bn.length - s.length) else bn
      else bn) = if s.length < bn.length then removeSfx true bn s else bn) ↔ ¬OtherCase bn s := by
  by_cases hlt : s.length < bn.length
  · rw [if_pos hlt, if_pos hlt, removeSfx, if_pos (Nat.le_of_lt hlt)]
    by_cases hsame : subEnd bn s.length = s
    · simp [hsame, OtherCase]
    · by_cases hlower : lower (subEnd bn s.length) = lower s
      · have hpos : s.length ≠ 0 := by
          intro hzero
          have hlen := congrArg List.length hlower
          simp only [subEnd, if_pos hzero, lower, List.length_map] at hlen
          omega
        have hshort : bn ≠ bn.take (bn.length - s.length) := by
          intro heq
          have hlen := congrArg List.length heq
          rw [List.length_take] at hlen
          omega
        simp [hsame, hlower, hshort, OtherCase, hlt]
      · simp [hsame, hlower, OtherCase]
  · simp [hlt, OtherCase]

/-- The copies of `basename` agree unless the suffix is there in another case. -/
theorem basename_eq_iff (path sfx : Option LuaString) :
    basename path sfx = basenameCam path sfx true ↔
      ∀ bn s, basename path none = some bn → sfx = some s → ¬OtherCase bn s := by
  cases path with
  | none => exact iff_of_true rfl nofun
  | some path =>
    by_cases hroot : path = root
    · simp [basename, basenameCam, hroot]
    · simp only [basename, basenameCam, if_neg hroot]
      cases lastName path with
      | none => simp
      | some bn =>
        cases sfx with
        | none => simp
        | some s =>
          simp only [Option.map_some, Option.some.injEq]
          exact (suffix_iff bn s).trans
            ⟨fun h _ _ hbn hs => hbn ▸ hs ▸ h, fun h => h bn s rfl rfl⟩

/-! ## A script on a camera -/

/-- The interpreter and the file system of the camera. -/
structure Camera (φ : Type) where
  borders : Borders LuaString
  /-- `os.stat`, and of its result `is_dir`. -/
  stat : φ → LuaString → Option Bool
  /-- `os.mkdir`, with an error if there is one. -/
  mkdir : LuaString → φ → Option LuaString × φ

/-- `parts`, which all calls share, and the file system. -/
structure Script (φ : Type) where
  parts : Slots LuaString
  fs : φ

variable {φ : Type}

/-- `splitpath`, whose result is the shared array. -/
def splitpath (cam : Camera φ) (s : Script φ) (path : Option LuaString) : Script φ :=
  { s with parts := splitLoop cam.borders s.parts path }

inductive Made where
  | true_
  | false_ (msg : LuaString)
  | threw
  deriving DecidableEq

def notDirectory : LuaString := bytes "path exists, not directory".toList

/-- `for i=2, #parts do ... end` over what is left of the parts; with the paths that
`os.mkdir` is called on. -/
def mkdirLoop (cam : Camera φ) (fs : φ) (p : Option LuaString) :
    List (Option LuaString) → φ × List LuaString × Made
  | [] => (fs, [], .true_)
  | part :: parts =>
    match p, part with
    | some q, some v =>
      let q := joinPart false q v
      match cam.stat fs q with
      | some isDir =>
        if isDir then mkdirLoop cam fs (some q) parts else (fs, [], .false_ notDirectory)
      | none =>
        match cam.mkdir q fs with
        | (some err, fs) => (fs, [q], .false_ err)
        | (none, fs) =>
          let r := mkdirLoop cam fs (some q) parts
          (r.1, q :: r.2.1, r.2.2)
    -- joinpath throws
    | _, _ => (fs, [], .threw)

/-- The parts from the second to the border. -/
def laterParts (B : Borders LuaString) (parts : Slots LuaString) : List (Option LuaString) :=
  (List.range (B.border parts - 1)).map fun i => slot parts (i + 1)

/-- `mkdir_m`, with the paths that `os.mkdir` is called on. -/
def mkdirM (cam : Camera φ) (s : Script φ) (path : LuaString) : Script φ × List LuaString × Made :=
  match cam.stat s.fs path with
  | some isDir => (s, [], if isDir then .true_ else .false_ notDirectory)
  | none =>
    let s := splitpath cam s (some path)
    let r := mkdirLoop cam s.fs (slot s.parts 0) (laterParts cam.borders s.parts)
    ({ s with fs := r.1 }, r.2)

inductive Call where
  | basename (path sfx : Option LuaString)
  | dirname (path : Option LuaString)
  | joinpath (parts : List LuaString)
  | splitpath (path : Option LuaString)
  | mkdirM (path : LuaString)

def step (cam : Camera φ) (s : Script φ) : Call → Script φ
  | .splitpath path => splitpath cam s path
  | .mkdirM path => (mkdirM cam s path).1
  | _ => s

def system (cam : Camera φ) : System (Script φ) Call := ⟨fun s c => some (step cam s c)⟩

/-! ## When the copies agree -/

/-- A path is another one or a directory that it is in. -/
def Within (q path : LuaString) : Prop := comps q <+: comps path

/-- `splitpath` returns the parts that the function of the host returns. -/
def SplitsAlike (cam : Camera φ) (host : Borders LuaString) (s : Script φ)
    (path : Option LuaString) : Prop :=
  Same (splitpath cam s path).parts (splitpathCam host path)

/-- A call of a copy returns what the function of the host returns; `mkdir_m` calls
`splitpath` when the path does not exist, and makes only the path and directories that it
is in. -/
def Agrees (cam : Camera φ) (host : Borders LuaString) (s : Script φ) : Call → Prop
  | .basename path sfx => basename path sfx = basenameCam path sfx true
  | .dirname path => dirname path = dirnameCam path
  | .joinpath parts => joinpath parts = joinpathCam parts
  | .splitpath path => SplitsAlike cam host s path
  | .mkdirM path =>
    (cam.stat s.fs path = none → SplitsAlike cam host s (some path)) ∧
      ∀ q ∈ (mkdirM cam s path).2.1, Within q path

/-- No path with a part has been split before. -/
def Clean (s : Script φ) : Prop := filled s.parts = 0

/-- The condition for a call to agree. -/
def Meets (cam : Camera φ) (s : Script φ) : Call → Prop
  | .basename path sfx =>
    ∀ bn suffix, basename path none = some bn → sfx = some suffix → ¬OtherCase bn suffix
  | .splitpath _ => Clean s
  | .mkdirM path => cam.stat s.fs path = none → Clean s
  | _ => True

theorem splitsAlike_iff (cam : Camera φ) (host : Borders LuaString) (s : Script φ)
    (path : Option LuaString) : SplitsAlike cam host s path ↔ Clean s := by
  rw [SplitsAlike, splitpath, splitLoop_eq]
  constructor
  · intro hsame
    have hcam := filled_splitLoop cam.borders s.parts path
    have hhost := filled_splitLoop host [] path
    rw [hsame.filled_eq, splitpathCam, hhost] at hcam
    have hnil : filled ([] : Slots LuaString) = 0 := rfl
    rw [Clean]
    omega
  · intro hclean
    have hparts : Same s.parts (ofList []) := filled_eq_zero_iff.mp hclean
    have hcam : Same (FsCam.splitLoop cam.borders s.parts path) (ofList (splitList path ++ [])) :=
      same_splitLoop cam.borders hparts (.inl rfl)
    have hhost := same_splitpathCam host path
    rw [List.append_nil] at hcam
    exact fun i => (hcam i).trans (hhost i).symm

/-- What a call splits, and whether it does. -/
def splits (cam : Camera φ) (s : Script φ) : Call → Option (Option LuaString)
  | .splitpath path => some path
  | .mkdirM path => if cam.stat s.fs path = none then some (some path) else none
  | _ => none

/-- A call leaves the array empty when it splits nothing or a path without parts. -/
theorem clean_step_iff (cam : Camera φ) (s : Script φ) (c : Call) :
    Clean (step cam s c) ↔ Clean s ∧ ∀ path, splits cam s c = some path → splitList path = [] := by
  have hsplit : ∀ path, Clean (splitpath cam s path) ↔ Clean s ∧ splitList path = [] := by
    intro path
    rw [Clean, Clean, splitpath, splitLoop_eq, filled_splitLoop, Nat.add_eq_zero_iff,
      List.length_eq_zero_iff]
  cases c with
  | splitpath path => simpa [step, splits] using hsplit path
  | mkdirM path =>
    cases hstat : cam.stat s.fs path with
    | some isDir => simp [step, mkdirM, splits, hstat]
    | none =>
      have hstep : Clean (step cam s (.mkdirM path)) ↔ Clean (splitpath cam s (some path)) := by
        simp only [step, mkdirM, hstat]
        rfl
      rw [hstep, hsplit]
      simp [splits, hstat]
  | basename path sfx => simp [step, splits]
  | dirname path => simp [step, splits]
  | joinpath parts => simp [step, splits]

/-! ## Directories -/

/-- The paths that are made have the components of the first part and of some more. -/
theorem mkdirLoop_made (cam : Camera φ) {fs : φ} {p : LuaString} {l : List LuaString} :
    ∀ q ∈ (mkdirLoop cam fs (some p) (l.map some)).2.1, comps q <+: comps p ++ l.flatMap comps := by
  induction l generalizing fs p with
  | nil => simp [mkdirLoop]
  | cons v l ih =>
    have hjoin : comps p ++ (v :: l).flatMap comps =
        comps (joinPart false p v) ++ l.flatMap comps := by
      rw [comps_joinPart, List.flatMap_cons, List.append_assoc]
    intro q hq
    rw [hjoin]
    rw [List.map_cons, mkdirLoop] at hq
    cases hstat : cam.stat fs (joinPart false p v) with
    | some isDir =>
      cases isDir with
      | false => simp [hstat] at hq
      | true =>
        simp only [hstat, if_true] at hq
        exact ih q hq
    | none =>
      simp only [hstat] at hq
      split at hq
      · obtain rfl := List.mem_singleton.mp hq
        exact List.prefix_append _ _
      · rcases List.mem_cons.mp hq with rfl | hq
        · exact List.prefix_append _ _
        · exact ih q hq

/-- The parts of an array without holes. -/
theorem laterParts_same (B : Borders LuaString) {parts : Slots LuaString} {l : List LuaString}
    (h : Same parts (ofList l)) :
    slot parts 0 = l.head? ∧ laterParts B parts = l.tail.map some := by
  have hborder : B.border parts = l.length := border_of_same h (B.isBorder parts)
  refine ⟨by rw [h, slot_ofList, List.head?_eq_getElem?], ?_⟩
  rw [laterParts, hborder]
  refine List.ext_getElem (by simp) fun i hi hi' => ?_
  simp only [List.length_map, List.length_tail] at hi'
  simp only [List.getElem_map, List.getElem_range, List.getElem_tail]
  exact (h (i + 1)).trans ((slot_ofList l (i + 1)).trans (List.getElem?_eq_getElem (by omega)))

theorem mkdirM_within (cam : Camera φ) {s : Script φ} {path : LuaString}
    (h : cam.stat s.fs path = none → Clean s) :
    ∀ q ∈ (mkdirM cam s path).2.1, Within q path := by
  intro q hq
  cases hstat : cam.stat s.fs path with
  | some isDir => simp [mkdirM, hstat] at hq
  | none =>
    have hparts : Same (splitpath cam s (some path)).parts (ofList (splitList (some path))) :=
      fun i => ((splitsAlike_iff cam cam.borders s (some path)).mpr (h hstat) i).trans
        (same_splitpathCam cam.borders (some path) i)
    obtain ⟨hhead, htail⟩ := laterParts_same cam.borders hparts
    simp only [mkdirM, hstat, hhead, htail] at hq
    have hpath := comps_splitList_prefix path
    cases hlist : splitList (some path) with
    | nil =>
      rw [hlist] at hq
      cases hq
    | cons p l =>
      rw [hlist] at hq hpath
      exact (mkdirLoop_made cam q hq).trans hpath

theorem agrees_iff (cam : Camera φ) (host : Borders LuaString) (s : Script φ) (c : Call) :
    Agrees cam host s c ↔ Meets cam s c := by
  cases c with
  | basename path sfx => exact basename_eq_iff path sfx
  | dirname path => exact iff_of_true (dirname_eq path) trivial
  | joinpath parts => exact iff_of_true (joinpath_eq parts) trivial
  | splitpath path => exact splitsAlike_iff cam host s path
  | mkdirM path =>
    constructor
    · intro hagrees hstat
      exact (splitsAlike_iff cam host s (some path)).mp (hagrees.1 hstat)
    · intro hclean
      exact ⟨fun hstat => (splitsAlike_iff cam host s (some path)).mpr (hclean hstat),
        mkdirM_within cam hclean⟩

/-- In a script all calls agree with the host's functions, and `mkdir_m` makes nothing else,
exactly when every call meets its condition. -/
theorem calls_agree_iff (cam : Camera φ) (host : Borders LuaString) (fs : φ) (calls : List Call) :
    (∀ before c after s, calls = before ++ c :: after →
        (system cam).run ⟨[], fs⟩ before = some s → Agrees cam host s c) ↔
      ∀ before c after s, calls = before ++ c :: after →
        (system cam).run ⟨[], fs⟩ before = some s → Meets cam s c := by
  constructor
  · intro hall before c after s hcalls hs
    exact (agrees_iff cam host s c).mp (hall before c after s hcalls hs)
  · intro hall before c after s hcalls hs
    exact (agrees_iff cam host s c).mpr (hall before c after s hcalls hs)

/-! ## Two paths -/

/-- The border before the first field that is nil. -/
def firstBorder (t : Slots LuaString) : Nat := (t.takeWhile Option.isSome).length

theorem firstBorder_isBorder (t : Slots LuaString) : IsBorder t (firstBorder t) := by
  induction t with
  | nil => exact ⟨.inl rfl, rfl⟩
  | cons v t ih =>
    cases v with
    | none => exact ⟨.inl rfl, rfl⟩
    | some x =>
      have hnext : firstBorder (some x :: t) = firstBorder t + 1 := rfl
      rw [hnext]
      refine ⟨.inr ?_, ih.2⟩
      rw [Nat.add_sub_cancel]
      cases hn : firstBorder t with
      | zero => rfl
      | succ n => simpa [hn] using ih.1

/-- A card on which everything can be made. -/
def emptyCard : Camera (List LuaString) where
  borders := ⟨firstBorder, firstBorder_isBorder⟩
  stat made path := if made.contains path then some true else none
  mkdir path made := (none, path :: made)

/-- After `A/x` has been split, `A/y` has the parts of both, and making it makes more. -/
theorem parts_of_both :
    ((system emptyCard).run ⟨[], []⟩
        [.splitpath (some (bytes "A/x".toList)), .splitpath (some (bytes "A/y".toList))]).map
      Script.parts = some (ofList [root, bytes "y".toList, root, bytes "x".toList]) ∧
    splitpathCam emptyCard.borders (some (bytes "A/y".toList)) =
      ofList [root, bytes "y".toList] ∧
    ((system emptyCard).run ⟨[], []⟩ [.splitpath (some (bytes "A/x".toList))]).map
        (fun s => (mkdirM emptyCard s (bytes "A/y".toList)).2.1) =
      some [bytes "A/y".toList, bytes "A/y/A/".toList, bytes "A/y/A/x".toList] := by
  decide +kernel

end RlibPaths
