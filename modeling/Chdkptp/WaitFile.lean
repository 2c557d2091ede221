import Chdkptp.CameraCalls

/-!
# Waiting for files

`rlib_wait_file` compares the size of a file with that of the last `stat` that found one. This is
in the variable `prev_st`, which is not local: it is kept from one call to the next, and by a
`stat` that finds nothing.
-/

namespace WaitFile

open LuaValue LuaText Scripts CameraCalls Relation

/-- The options, with what is set where they are not given. -/
structure Opts where
  waitSizeStable : Bool
  timeout : Int
  timeoutError : Bool
  sleep : Int
  msg : LuaString

/-- The options that are passed in. -/
structure OptsIn where
  waitSizeStable : Option Bool
  timeout : Option Int
  timeoutError : Option Bool
  sleep : Option Int
  msg : Option LuaString

/-- `string.format('wait_file %s timeout',name)` -/
def timeoutMsg (name : LuaString) : LuaString :=
  bytes "wait_file ".toList ++ name ++ bytes " timeout".toList

def withDefaults (name : LuaString) (opts : OptsIn) : Opts where
  waitSizeStable := opts.waitSizeStable.getD true
  timeout := opts.timeout.getD 2000
  timeoutError := opts.timeoutError.getD true
  sleep := opts.sleep.getD 30
  msg := opts.msg.getD (timeoutMsg name)

/-- The size in the global variable `prev_st`, and the calls so far. -/
structure Machine where
  prevSt : Option Int
  log : List Done

abbrev FileScript (α : Type) := Script LuaString Machine α

section Wait

variable (cam : Camera)

def call (q : Call) : FileScript (Reply q) :=
  act fun m => (cam.answer m.log q, { m with log := asked cam m.log q })

/-- What `rlib_wait_file` does with a `stat`. -/
def compare (waitSizeStable : Bool) (st : Option Int) : FileScript Bool :=
  act fun m =>
    match st with
    | none => (false, m)
    | some size =>
      if waitSizeStable = false ∨ m.prevSt = some size then (true, m)
      else (false, { m with prevSt := some size })

/-- The function that `rlib_wait_file` waits for. -/
def fileFound (name : LuaString) (waitSizeStable : Bool) : FileScript Bool := do
  let st ← call cam (.stat name)
  compare waitSizeStable st

/-- One pass of the loop in `rlib_wait_timeout`. -/
def waitPass (func : FileScript Bool) (opts : Opts) (timeoutTick : Int) (_ : PUnit) :
    FileScript (PUnit ⊕ Bool) := do
  let done ← func
  if done then pure (.inr true)
  else do
    call cam (.sleep opts.sleep)
    let now : Int ← call cam .getTickCount
    if now > timeoutTick then pure (.inr false) else pure (.inl ⟨⟩)

/-- The end of `rlib_wait_timeout`. -/
def endWait (opts : Opts) (done : Bool) : FileScript Bool :=
  if done then pure true
  else if opts.timeoutError then fail opts.msg
  else pure false

/-- `rlib_wait_timeout` -/
def rlibWaitTimeout (func : FileScript Bool) (opts : Opts) : FileScript Bool := do
  let now : Int ← call cam .getTickCount
  let done ← loop (waitPass cam func opts (now + opts.timeout)) ⟨⟩
  endWait opts done

/-- `rlib_wait_file` -/
def rlibWaitFile (name : LuaString) (opts : OptsIn) : FileScript Bool :=
  rlibWaitTimeout cam (fileFound cam name (withDefaults name opts).waitSizeStable)
    (withDefaults name opts)

end Wait

/-! ## One call -/

/-- What a `stat` of the file gave. -/
def statOf (name : LuaString) : Done → Option (Option Int)
  | ⟨.stat n, r⟩ => if n = name then some r else none
  | _ => none

/-- What the `stat` calls of the file gave that were added, in order. -/
def statsSince (name : LuaString) (before log : List Done) : List (Option Int) :=
  (log.drop before.length).filterMap (statOf name)

/-- The size that the last `stat` found which found a file. -/
def remembered (prev : Option Int) (stats : List (Option Int)) : Option Int :=
  stats.foldl (fun prev st => st.or prev) prev

/-- The last `stat` found the size that was remembered. -/
def Matched (prev : Option Int) (stats : List (Option Int)) : Prop :=
  ∃ init size, stats = init ++ [some size] ∧ remembered prev init = some size

/-- The last two found the same size. -/
def Stable (stats : List (Option Int)) : Prop :=
  ∃ init size, stats = init ++ [some size, some size]

section Call

variable {cam : Camera} {name : LuaString} {before log : List Done} {prev : Option Int}

theorem statsSince_snoc (hlog : before <+: log) (d : Done) :
    statsSince name before (log ++ [d]) = statsSince name before log ++ (statOf name d).toList := by
  rw [statsSince, List.drop_append_of_le_length hlog.length_le, List.filterMap_append, statsSince]
  cases h : statOf name d <;> simp [h]

theorem statsSince_self (log : List Done) : statsSince name log log = [] := by
  rw [statsSince, List.drop_length, List.filterMap_nil]

theorem remembered_snoc (stats : List (Option Int)) (st : Option Int) :
    remembered prev (stats ++ [st]) = st.or (remembered prev stats) := by
  rw [remembered, List.foldl_append]
  rfl

theorem matched_snoc (stats : List (Option Int)) (st : Option Int) :
    Matched prev (stats ++ [st]) ↔ ∃ size, st = some size ∧ remembered prev stats = some size := by
  constructor
  · rintro ⟨init, size, heq, hsize⟩
    obtain ⟨rfl, hst⟩ := List.append_inj' heq rfl
    exact ⟨size, List.singleton_injective hst, hsize⟩
  · rintro ⟨size, rfl, hsize⟩
    exact ⟨stats, size, rfl, hsize⟩

theorem not_matched_nil : ¬Matched prev [] := by
  rintro ⟨init, size, heq, -⟩
  exact List.append_ne_nil_of_right_ne_nil init (by simp) heq.symm

/-- What the call has done so far; `done` is whether the last `stat` was enough. -/
structure Polled (name : LuaString) (stable : Bool) (first : Machine) (done : Bool) (m : Machine) :
    Prop where
  grows : first.log <+: m.log
  prevSt : m.prevSt =
    if stable then remembered first.prevSt (statsSince name first.log m.log) else first.prevSt
  done : stable = true → (done = true ↔ Matched first.prevSt (statsSince name first.log m.log))

theorem polled_first (stable : Bool) (m : Machine) : Polled name stable m false m := by
  refine ⟨List.prefix_rfl, ?_, fun _ => ?_⟩
  · rw [statsSince_self]
    exact (ite_self _).symm
  · rw [statsSince_self]
    exact iff_of_false nofun not_matched_nil

/-- A call other than `stat`. -/
theorem Polled.other {stable done : Bool} {first m : Machine} (h : Polled name stable first done m)
    {q : Call} (hq : ∀ r : Reply q, statOf name ⟨q, r⟩ = none) :
    Polled name stable first done { m with log := asked cam m.log q } := by
  have hstats :
      statsSince name first.log (asked cam m.log q) = statsSince name first.log m.log := by
    rw [asked, statsSince_snoc h.grows, hq]
    exact List.append_nil _
  exact ⟨h.grows.trans (List.prefix_append _ _), hstats ▸ h.prevSt, hstats ▸ h.done⟩

theorem total_other {stable done : Bool} {first : Machine} {E : Machine → Prop} {q : Call}
    (hq : ∀ r : Reply q, statOf name ⟨q, r⟩ = none) :
    Total (Polled name stable first done) (call cam q) (fun _ => Polled name stable first done) E :=
  total_act fun _ h => h.other hq

/-- What the function finds that `rlib_wait_file` waits for. -/
theorem total_fileFound {stable : Bool} {first : Machine}
    {E : Machine → Prop} : Total (Polled name stable first false) (fileFound cam name stable)
      (fun done => Polled name stable first done) E := by
  rw [fileFound]
  have hstat : Total (Polled name stable first false) (call cam (.stat name))
      (fun st m => ∃ log, m.log = log ++ [⟨.stat name, st⟩] ∧
        Polled name stable first false ⟨m.prevSt, log⟩) E :=
    total_act fun m h => ⟨m.log, rfl, h⟩
  apply hstat.bind
  intro st
  apply total_act
  rintro ⟨prevSt, log⟩ ⟨log, rfl, hgrows, hprev, hdone⟩
  dsimp only at hgrows hprev hdone
  have hgrows' : first.log <+: log ++ [⟨.stat name, st⟩] :=
    hgrows.trans (List.prefix_append _ _)
  have hstats : statsSince name first.log (log ++ [⟨.stat name, st⟩]) =
      statsSince name first.log log ++ [st] := by
    have hstat : statOf name ⟨.stat name, st⟩ = some st := if_pos rfl
    rw [statsSince_snoc hgrows, hstat]
    rfl
  cases st with
  | none =>
    refine ⟨hgrows', ?_, fun hs => ?_⟩
    · rw [hstats, remembered_snoc]
      exact hprev
    · rw [hstats, matched_snoc]
      exact iff_of_false nofun (by rintro ⟨size, hsize, -⟩; cases hsize)
  | some size =>
    have hmatched : Matched first.prevSt (statsSince name first.log log ++ [some size]) ↔
        remembered first.prevSt (statsSince name first.log log) = some size := by
      rw [matched_snoc]
      constructor
      · rintro ⟨size', hsize, h⟩
        exact Option.some.inj hsize ▸ h
      · exact fun h => ⟨size, rfl, h⟩
    cases stable with
    | false => exact ⟨hgrows', hprev, nofun⟩
    | true =>
      rw [if_pos rfl] at hprev
      dsimp only
      by_cases hsame : prevSt = some size
      · rw [if_pos (.inr hsame)]
        refine ⟨hgrows', ?_, fun _ => ?_⟩
        · rw [if_pos rfl, hstats, remembered_snoc]
          exact hsame
        · rw [hstats, hmatched]
          exact iff_of_true rfl (hprev.symm.trans hsame)
      · rw [if_neg (not_or.mpr ⟨Bool.noConfusion, hsame⟩)]
        refine ⟨hgrows', ?_, fun _ => ?_⟩
        · rw [if_pos rfl, hstats, remembered_snoc]
          rfl
        · rw [hstats, hmatched]
          exact iff_of_false nofun (hprev ▸ hsame)

theorem total_waitPass {func : FileScript Bool} {stable : Bool} {first : Machine}
    (hfunc : Total (Polled name stable first false) func (fun done => Polled name stable first done)
      fun _ => False) (opts : Opts) (timeoutTick : Int) (x : PUnit) :
    Total (Polled name stable first false) (waitPass cam func opts timeoutTick x)
      (First (fun _ => Polled name stable first false) fun done => Polled name stable first done)
      fun _ => False := by
  rw [waitPass]
  apply hfunc.bind
  intro done
  cases done with
  | true => exact total_pure fun _ h => h
  | false =>
    have hsleep : ∀ r : Reply (.sleep opts.sleep), statOf name ⟨.sleep opts.sleep, r⟩ = none :=
      fun _ => rfl
    have htick : ∀ r : Reply .getTickCount, statOf name ⟨.getTickCount, r⟩ = none := fun _ => rfl
    apply (total_other hsleep).bind
    intro _
    apply (total_other htick).bind
    intro (now : Int)
    split
    · exact total_pure fun _ h => h
    · exact total_pure fun _ h => h

/-- The call has returned `true`. -/
def Found (r : EStateM.Result LuaString Machine Bool) : Prop := ∃ m, r = .ok true m

/-- When the call ends, `prev_st` is the size that its last `stat` found which found a file, and it
has returned `true` if that is the size remembered before. -/
theorem rlibWaitFile_spec {opts : OptsIn} {first : Machine}
    {r : EStateM.Result LuaString Machine Bool} (h : (rlibWaitFile cam name opts first).Yields r) :
    ∃ done, Polled name (withDefaults name opts).waitSizeStable first done (stateOf r) ∧
      (done = true ↔ Found r) := by
  have htick : ∀ r : Reply .getTickCount, statOf name ⟨.getTickCount, r⟩ = none := fun _ => rfl
  obtain ⟨r', hr', hend⟩ := yields_andThen.mp h
  cases Fuelled.yields_pure.mp hr'
  obtain ⟨r'', hr'', hend⟩ := yields_andThen.mp hend
  have hpost := post_loop (total_waitPass (total_fileFound) _ _)
    ((polled_first _ first).other htick) hr''
  cases r'' with
  | error e m => exact hpost.elim
  | ok done m =>
    change (endWait (withDefaults name opts) done m).Yields r at hend
    rw [endWait] at hend
    refine ⟨done, ?_⟩
    cases done with
    | true =>
      cases Fuelled.yields_pure.mp hend
      exact ⟨hpost, iff_of_true rfl ⟨m, rfl⟩⟩
    | false =>
      rw [if_neg (by decide)] at hend
      split at hend
      · cases Fuelled.yields_pure.mp hend
        exact ⟨hpost, iff_of_false nofun (by rintro ⟨m', hm⟩; cases hm)⟩
      · cases Fuelled.yields_pure.mp hend
        exact ⟨hpost, iff_of_false nofun (by rintro ⟨m', hm⟩; cases hm)⟩

end Call

/-! ## Scripts with many calls -/

/-- A call that has ended. -/
structure Ended where
  name : LuaString
  opts : OptsIn
  before : Machine
  result : EStateM.Result LuaString Machine Bool

/-- The sizes that its `stat` calls found. -/
def Ended.stats (d : Ended) : List (Option Int) :=
  statsSince d.name d.before.log (stateOf d.result).log

def Ended.stable (d : Ended) : Bool := (withDefaults d.name d.opts).waitSizeStable

/-- The calls of a script, one after the other; between them it may call what it likes, but it does
not touch `prev_st`. -/
inductive Calls (cam : Camera) : Option Int → List Ended → Prop where
  | nil (prevSt : Option Int) : Calls cam prevSt []
  | cons {prevSt : Option Int} {d : Ended} {rest : List Ended} (hprev : d.before.prevSt = prevSt)
      (hcall : (rlibWaitFile cam d.name d.opts d.before).Yields d.result)
      (hrest : Calls cam (stateOf d.result).prevSt rest) : Calls cam prevSt (d :: rest)

/-- If it looks at the size, it returns `true` only when its last two `stat` calls found the
same. -/
def Sound (d : Ended) : Prop := d.stable = true → Found d.result → Stable d.stats

/-- Whenever a `stat` finds the size that the last one found which found a file, in this call or in
an earlier one, this was the `stat` just before in this call. -/
def Clean : Option Int → List Ended → Prop
  | _, [] => True
  | prev, d :: rest =>
    (d.stable = true → Matched prev d.stats → Stable d.stats) ∧
      Clean (if d.stable then remembered prev d.stats else prev) rest

/-- A camera that finds every file with the same size. -/
def sized (size : Int) : Camera where
  answer
    | _, .stat _ => some size
    | log, q => (steady none false).answer log q
  hookShoot := false
  captureTarget := false

def noOpts : OptsIn := ⟨none, none, none, none, none⟩

def fileA : LuaString := bytes "A".toList

def fileB : LuaString := bytes "B".toList

def logA : List Done :=
  [⟨.getTickCount, (0 : Int)⟩, ⟨.stat fileA, some (5 : Int)⟩, ⟨.sleep 30, PUnit.unit⟩,
    ⟨.getTickCount, (3 : Int)⟩, ⟨.stat fileA, some (5 : Int)⟩]

/-- A call that ends when it has found the same size twice. -/
def callA : Ended := ⟨fileA, noOpts, ⟨none, []⟩, .ok true ⟨some 5, logA⟩⟩

/-- A call for another file, which ends when it has found the size of the first one. -/
def callB : Ended := ⟨fileB, noOpts, ⟨some 5, logA⟩,
  .ok true ⟨some 5, logA ++ [⟨.getTickCount, (5 : Int)⟩, ⟨.stat fileB, some (5 : Int)⟩]⟩⟩

theorem calls_A : Calls (sized 5) none [callA] := .cons rfl ⟨8, rfl⟩ (.nil _)

end WaitFile
