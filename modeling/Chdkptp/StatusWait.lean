import Chdkptp.RemoteCapture
import Mathlib.Algebra.Ring.Int.Defs

/-!
# Waiting for a status

`con:wait_status` sleeps between its polls. The interval starts at `pollstart`, is doubled
until it is `poll`, and is cut to the time that is left, which the sleeps use up. The wait
ends because each sleep takes some time, so not if the interval starts at 0.
-/

namespace StatusWait

open RequestProgram RemoteCapture

/-! ## The sleeps -/

/-- How long the loop sleeps when there is time left. -/
def nextSleep (poll : Int) (pollstart : Bool) (timeleft sleeptime : Int) : Int :=
  let sleeptime :=
    if pollstart ∧ sleeptime < poll then
      if sleeptime * 2 > poll then poll else sleeptime * 2
    else sleeptime
  if timeleft < sleeptime then timeleft else sleeptime

/-- The sleeps of a loop that ends after so many polls at most. -/
def sleeps (poll : Int) (pollstart : Bool) : Nat → (timeleft sleeptime : Int) → Option (List Int)
  | 0, _, _ => none
  | polls + 1, timeleft, sleeptime =>
    if timeleft > 0 then
      let t := nextSleep poll pollstart timeleft sleeptime
      (sleeps poll pollstart polls (timeleft - t) t).map (t :: ·)
    else some []

theorem nextSleep_le (poll : Int) (pollstart : Bool) (timeleft sleeptime : Int) :
    nextSleep poll pollstart timeleft sleeptime ≤ timeleft := by
  unfold nextSleep
  dsimp only
  split_ifs <;> omega

/-- A sleep takes some time. -/
theorem nextSleep_pos {poll timeleft sleeptime : Int} (hpoll : 0 < poll)
    (htime : 0 < timeleft) (hsleep : 0 < sleeptime) (pollstart : Bool) :
    0 < nextSleep poll pollstart timeleft sleeptime := by
  unfold nextSleep
  dsimp only
  split_ifs <;> omega

/-- The interval stays within the bound once it is within. -/
theorem nextSleep_bound {poll timeleft sleeptime : Int} (pollstart : Bool)
    (h : sleeptime ≤ poll ∨ timeleft ≤ poll) :
    nextSleep poll pollstart timeleft sleeptime ≤ poll := by
  unfold nextSleep
  dsimp only
  split_ifs <;> omega

theorem nextSleep_stuck {poll timeleft sleeptime : Int} (hpoll : 0 < poll) (htime : 0 < timeleft)
    (hsleep : sleeptime ≤ 0) (pollstart : Bool) :
    nextSleep poll pollstart timeleft sleeptime ≤ 0 := by
  unfold nextSleep
  dsimp only
  split_ifs <;> omega

/-- An interval above `poll` is not made shorter. -/
theorem nextSleep_above {poll timeleft sleeptime : Int} (pollstart : Bool)
    (hsleep : poll < sleeptime) (htime : poll < timeleft) :
    poll < nextSleep poll pollstart timeleft sleeptime := by
  unfold nextSleep
  dsimp only
  split_ifs <;> omega

variable {poll timeleft sleeptime : Int} {pollstart : Bool} {polls : Nat} {l : List Int}

theorem sleeps_done (h : timeleft ≤ 0) :
    sleeps poll pollstart (polls + 1) timeleft sleeptime = some [] := by
  rw [sleeps, if_neg (by omega)]

theorem sleeps_next (h : 0 < timeleft) :
    sleeps poll pollstart (polls + 1) timeleft sleeptime =
      (sleeps poll pollstart polls (timeleft - nextSleep poll pollstart timeleft sleeptime)
        (nextSleep poll pollstart timeleft sleeptime)).map
        (nextSleep poll pollstart timeleft sleeptime :: ·) := by
  rw [sleeps, if_pos h]

theorem sleeps_sum (h : sleeps poll pollstart polls timeleft sleeptime = some l) :
    l.sum = max timeleft 0 := by
  induction polls generalizing timeleft sleeptime l with
  | zero => cases h
  | succ polls ih =>
    by_cases htime : 0 < timeleft
    · rw [sleeps_next htime, Option.map_eq_some_iff] at h
      obtain ⟨rest, hrest, rfl⟩ := h
      have hle := nextSleep_le poll pollstart timeleft sleeptime
      rw [List.sum_cons, ih hrest]
      omega
    · rw [sleeps_done (by omega), Option.some.injEq] at h
      subst h
      simp only [List.sum_nil]
      omega

theorem sleeps_bound (h : sleeps poll pollstart polls timeleft sleeptime = some l)
    (hbound : sleeptime ≤ poll ∨ timeleft ≤ poll) : ∀ t ∈ l, t ≤ poll := by
  induction polls generalizing timeleft sleeptime l with
  | zero => cases h
  | succ polls ih =>
    by_cases htime : 0 < timeleft
    · rw [sleeps_next htime, Option.map_eq_some_iff] at h
      obtain ⟨rest, hrest, rfl⟩ := h
      have hnext := nextSleep_bound pollstart hbound
      exact List.forall_mem_cons.mpr ⟨hnext, ih hrest (.inl hnext)⟩
    · rw [sleeps_done (by omega), Option.some.injEq] at h
      subst h
      exact List.forall_mem_nil _

/-- The time that is left is the measure. -/
theorem sleeps_end (hpoll : 0 < poll) (hsleep : 0 < sleeptime) (hpolls : timeleft.toNat < polls)
    (pollstart : Bool) :
    ∃ l, sleeps poll pollstart polls timeleft sleeptime = some l := by
  induction polls generalizing timeleft sleeptime with
  | zero => omega
  | succ polls ih =>
    by_cases htime : 0 < timeleft
    · have hpos := nextSleep_pos hpoll htime hsleep pollstart
      obtain ⟨rest, hrest⟩ : ∃ rest, sleeps poll pollstart polls
          (timeleft - nextSleep poll pollstart timeleft sleeptime)
          (nextSleep poll pollstart timeleft sleeptime) = some rest := ih hpos (by omega)
      rw [sleeps_next htime, hrest]
      exact ⟨_, rfl⟩
    · exact ⟨[], sleeps_done (by omega)⟩

/-- An interval that is not positive uses up nothing. -/
theorem sleeps_stuck (hpoll : 0 < poll) (htime : 0 < timeleft) (hsleep : sleeptime ≤ 0) :
    sleeps poll pollstart polls timeleft sleeptime = none := by
  induction polls generalizing timeleft sleeptime with
  | zero => rfl
  | succ polls ih =>
    have hnext := nextSleep_stuck hpoll htime hsleep pollstart
    rw [sleeps_next htime, ih (by omega) hnext]
    rfl

theorem sleeps_more (h : sleeps poll pollstart polls timeleft sleeptime = some l) {more : Nat}
    (hle : polls ≤ more) : sleeps poll pollstart more timeleft sleeptime = some l := by
  induction polls generalizing timeleft sleeptime l more with
  | zero => cases h
  | succ polls ih =>
    obtain ⟨more, rfl⟩ : ∃ n, more = n + 1 := ⟨more - 1, by omega⟩
    by_cases htime : 0 < timeleft
    · rw [sleeps_next htime, Option.map_eq_some_iff] at h
      obtain ⟨rest, hrest, rfl⟩ := h
      rw [sleeps_next htime, ih hrest (by omega)]
      rfl
    · rw [sleeps_done (by omega)] at h ⊢
      exact h

/-- The loop polls once more than it sleeps. -/
theorem sleeps_length (h : sleeps poll pollstart polls timeleft sleeptime = some l) :
    sleeps poll pollstart (l.length + 1) timeleft sleeptime = some l := by
  induction polls generalizing timeleft sleeptime l with
  | zero => cases h
  | succ polls ih =>
    by_cases htime : 0 < timeleft
    · rw [sleeps_next htime, Option.map_eq_some_iff] at h
      obtain ⟨rest, hrest, rfl⟩ := h
      rw [List.length_cons, sleeps_next htime, ih hrest]
      rfl
    · rw [sleeps_done (by omega), Option.some.injEq] at h
      subst h
      exact sleeps_done (by omega)

/-! ## The loop -/

variable {σ ι : Type}

/-- The status when nothing is matched. -/
def unmatched (opts : WaitOpts) (script : ScriptStatus) (rsdata : Int) (timeout : Bool) :
    WaitStatus :=
  ⟨script.run, script.msg, if opts.rsdata then some rsdata else none, none, timeout⟩

/-- What the loop does with the outcome of a poll. -/
def afterPoll (host : HostOps σ) (opts : WaitOpts) (poll : Int) (pollstart : Bool) (polls : Nat)
    (timeleft sleeptime : Int) (script : ScriptStatus) (ready : Int × Int) :
    Method σ WaitStatus :=
  if ready.1 ≠ 0 then pure ⟨script.run, script.msg, some ready.1, some ready.2, false⟩
  else if some script.run = opts.run ∨ some script.msg = opts.msg then
    pure (unmatched opts script ready.1 false)
  else if timeleft > 0 then do
    Method.onHost (host.sleep (nextSleep poll pollstart timeleft sleeptime))
    waitLoop host opts poll pollstart polls
      (timeleft - nextSleep poll pollstart timeleft sleeptime)
      (nextSleep poll pollstart timeleft sleeptime)
  else if opts.timeoutError then Method.error timedOut
  else pure (unmatched opts script ready.1 true)

/-- What `con:capture_ready` returns, where it is asked. -/
def readReady (opts : WaitOpts) : Method σ (Int × Int) :=
  if opts.rsdata then Method.captureReady else pure (0, 0)

theorem waitLoop_succ (host : HostOps σ) (opts : WaitOpts) (poll : Int) (pollstart : Bool)
    (polls : Nat) (timeleft sleeptime : Int) :
    waitLoop host opts poll pollstart (polls + 1) timeleft sleeptime =
      Method.scriptStatus >>= fun script => readReady opts >>= fun ready =>
        afterPoll host opts poll pollstart polls timeleft sleeptime script ready := by
  obtain ⟨msg, run, rsdata, timeout, timeoutError, optPoll, optStart, initwait⟩ := opts
  rw [waitLoop]
  congr 1
  funext script
  cases rsdata <;> rfl

theorem afterPoll_unmatched (host : HostOps σ) {opts : WaitOpts} (poll : Int) (pollstart : Bool)
    (polls : Nat) (timeleft sleeptime : Int) {script : ScriptStatus} (imgnum : Int)
    (hrun : some script.run ≠ opts.run) (hmsg : some script.msg ≠ opts.msg) :
    afterPoll host opts poll pollstart polls timeleft sleeptime script (0, imgnum) =
      if timeleft > 0 then do
        Method.onHost (host.sleep (nextSleep poll pollstart timeleft sleeptime))
        waitLoop host opts poll pollstart polls
          (timeleft - nextSleep poll pollstart timeleft sleeptime)
          (nextSleep poll pollstart timeleft sleeptime)
      else if opts.timeoutError then Method.error timedOut
      else pure (unmatched opts script 0 true) := by
  have hno : ¬(some script.run = opts.run ∨ some script.msg = opts.msg) := by
    rintro (h | h)
    · exact hrun h
    · exact hmsg h
  rw [afterPoll, if_neg (not_not_intro rfl), if_neg hno]

/-! ## Runs -/

/-- A reply that ends no wait. -/
def NoMatch (opts : WaitOpts) : (q : Request) → Reply q → Prop
  | .scriptStatus, r => ∃ script, r = .ok script ∧ some script.run ≠ opts.run ∧
      some script.msg ≠ opts.msg
  | .captureReady, r => ∃ imgnum, r = .ok (0, imgnum)
  | .captureGetChunk _, _ => True

/-- How often the status of the script has been asked for. -/
def pollsIn (requests : List (ι × Request)) : Nat :=
  (requests.map Prod.snd).count .scriptStatus

@[simp] theorem pollsIn_append (requests requests' : List (ι × Request)) :
    pollsIn (requests ++ requests') = pollsIn requests + pollsIn requests' := by
  simp [pollsIn]

/-- What the wait ends with when the time is up. -/
def timeoutResult (opts : WaitOpts) (script : ScriptStatus) : Except Stop WaitStatus :=
  if opts.timeoutError then .error (.error timedOut) else .ok (unmatched opts script 0 true)

/-- The state after these sleeps. -/
def slept (host : HostOps σ) (l : List Int) (m : Machine σ) : Machine σ :=
  { m with host := l.foldl (fun s t => host.sleep t s) m.host }

variable [DecidableEq ι] {world : World ι Request Reply} {asked : ι → List Request} {con : ι}
  {m : Machine σ}

theorem run_scriptStatus {script : ScriptStatus}
    (h : world con (asked con) .scriptStatus = .ok script) :
    run world asked ((Method.scriptStatus).on con m) = ((.ok script, m), [(con, .scriptStatus)]) := by
  rw [Method.scriptStatus, Action.on_bind, Action.run_bind_ok (Action.run_ask ..), h]
  rfl

theorem run_readReady (asked : ι → List Request) (m : Machine σ) {opts : WaitOpts}
    (h : ∀ asked q, NoMatch opts q (world con asked q)) :
    ∃ imgnum requests, pollsIn requests = 0 ∧
      run world asked ((readReady opts).on con m) = ((.ok (0, imgnum), m), requests) := by
  rw [readReady]
  split
  · obtain ⟨imgnum, hready⟩ := h (asked con) .captureReady
    refine ⟨imgnum, [(con, .captureReady)], rfl, ?_⟩
    rw [Method.captureReady, Action.on_bind, Action.run_bind_ok (Action.run_ask ..), hready]
    rfl
  · exact ⟨0, [], rfl, rfl⟩

/-- A poll that matches nothing. -/
theorem run_poll (asked : ι → List Request) (m : Machine σ) (host : HostOps σ) {opts : WaitOpts} (poll : Int) (pollstart : Bool) (polls : Nat)
    (timeleft sleeptime : Int) (h : ∀ asked q, NoMatch opts q (world con asked q)) :
    ∃ script imgnum requests, pollsIn requests = 1 ∧ some script.run ≠ opts.run ∧
      some script.msg ≠ opts.msg ∧
      run world asked ((waitLoop host opts poll pollstart (polls + 1) timeleft sleeptime).on con m) =
        ((run world (recordAll asked requests)
          ((afterPoll host opts poll pollstart polls timeleft sleeptime script
            (0, imgnum)).on con m)).1,
          requests ++ (run world (recordAll asked requests)
            ((afterPoll host opts poll pollstart polls timeleft sleeptime script
              (0, imgnum)).on con m)).2) := by
  obtain ⟨script, hscript, hrun, hmsg⟩ := h (asked con) .scriptStatus
  obtain ⟨imgnum, requests, hpolls, hready⟩ :=
    run_readReady (recordAll asked [(con, .scriptStatus)]) m h
  refine ⟨script, imgnum, (con, .scriptStatus) :: requests, ?_, hrun, hmsg, ?_⟩
  · simpa [pollsIn] using hpolls
  · rw [waitLoop_succ, Action.on_bind, Action.run_bind_ok (run_scriptStatus hscript),
      Action.on_bind, Action.run_bind_ok hready]
    rfl

theorem run_onHost (f : σ → σ) :
    run world asked ((Method.onHost f).on con m) = ((.ok (), { m with host := f m.host }), []) :=
  rfl

theorem run_waitLoop_some (asked : ι → List Request) (m : Machine σ) (host : HostOps σ) {opts : WaitOpts}
    (h : ∀ asked q, NoMatch opts q (world con asked q))
    (hsleeps : sleeps poll pollstart polls timeleft sleeptime = some l) :
    ∃ script requests, pollsIn requests = l.length + 1 ∧
      run world asked ((waitLoop host opts poll pollstart polls timeleft sleeptime).on con m) =
        ((timeoutResult opts script, slept host l m), requests) := by
  induction polls generalizing timeleft sleeptime l m asked with
  | zero => cases hsleeps
  | succ polls ih =>
    obtain ⟨script, imgnum, requests, hpolls, hrun, hmsg, heq⟩ :=
      run_poll asked m host poll pollstart polls timeleft sleeptime h
    rw [heq, afterPoll_unmatched host poll pollstart polls timeleft sleeptime imgnum hrun hmsg]
    by_cases htime : 0 < timeleft
    · rw [sleeps_next htime, Option.map_eq_some_iff] at hsleeps
      obtain ⟨rest, hrest, rfl⟩ := hsleeps
      obtain ⟨last, requests', hpolls', hnext⟩ := ih (recordAll asked requests)
        (slept host [nextSleep poll pollstart timeleft sleeptime] m) hrest
      refine ⟨last, requests ++ requests', ?_, ?_⟩
      · rw [pollsIn_append, hpolls, hpolls', List.length_cons]
        omega
      · rw [if_pos htime, Action.on_bind, Action.run_bind_ok (run_onHost _)]
        exact congrArg (fun r => (r.1, requests ++ r.2)) hnext
    · rw [sleeps_done (by omega), Option.some.injEq] at hsleeps
      subst hsleeps
      refine ⟨script, requests, hpolls, ?_⟩
      rw [if_neg htime, timeoutResult]
      split
      · simp [Method.error, Action.throw, Action.on, Prog.on, run, slept]
      · simp [Pure.pure, Action.pure, Action.on, Prog.on, run, slept]

/-- A loop that is not at its end says so. -/
theorem run_waitLoop_none (asked : ι → List Request) (m : Machine σ) (host : HostOps σ) {opts : WaitOpts}
    (h : ∀ asked q, NoMatch opts q (world con asked q))
    (hsleeps : sleeps poll pollstart polls timeleft sleeptime = none) :
    (run world asked
      ((waitLoop host opts poll pollstart polls timeleft sleeptime).on con m)).1.1 =
        .error .unfinished := by
  induction polls generalizing timeleft sleeptime m asked with
  | zero => rfl
  | succ polls ih =>
    obtain ⟨script, imgnum, requests, -, hrun, hmsg, heq⟩ :=
      run_poll asked m host poll pollstart polls timeleft sleeptime h
    by_cases htime : 0 < timeleft
    · rw [sleeps_next htime, Option.map_eq_none_iff] at hsleeps
      rw [heq, afterPoll_unmatched host poll pollstart polls timeleft sleeptime imgnum hrun hmsg,
        if_pos htime, Action.on_bind, Action.run_bind_ok (run_onHost _)]
      exact ih _ _ hsleeps
    · rw [sleeps_done (by omega)] at hsleeps
      cases hsleeps

/-! ## Waits that end -/

/-- The time that is left after the initial wait. -/
def timeLeft (opts : WaitOpts) : Int := opts.timeout.getD 86400000 - opts.initwait.getD 0

/-- A wait in which nothing matches polls so often, with these sleeps that add up to the
longer of the timeout and the initial wait, and reports that the time is up. -/
def TimesOut (con : ι) (self : ConInfo) (opts : WaitOpts) : Prop :=
  ∃ (polls : Nat) (sleeps : List Int),
    (opts.initwait.toList ++ sleeps).sum =
      max (opts.timeout.getD 86400000) (opts.initwait.getD 0) ∧
    (∀ t ∈ sleeps, t ≤ opts.interval) ∧
    ∀ {σ : Type} (host : HostOps σ) (m : Machine σ) (world : World ι Request Reply)
      (asked : ι → List Request), (∀ asked q, NoMatch opts q (world con asked q)) →
      ∀ n ≥ polls, ∃ script requests, pollsIn requests = polls ∧
        run world asked ((waitStatus host self opts n).on con m) =
          ((timeoutResult opts script, slept host (opts.initwait.toList ++ sleeps) m), requests)

/-- The interval is positive, and never above `poll` or never used in full. -/
def Advances (opts : WaitOpts) : Prop :=
  timeLeft opts ≤ 0 ∨
    ∀ p, opts.first = some p → 0 < p ∧ (p ≤ opts.interval ∨ timeLeft opts ≤ opts.interval)

theorem interval_pos (opts : WaitOpts) : 0 < opts.interval := by
  have h : 50 ≤ opts.interval := Int.le_max_right _ _
  omega

theorem waitStatus_eq (host : HostOps σ) {self : ConInfo} {opts : WaitOpts}
    (hself : opts.rsdata = true → captureIsApiCompatible self = true) (polls : Nat)
    (m : Machine σ) :
    waitStatus host self opts polls m =
      waitLoop host opts opts.interval opts.first.isSome polls (timeLeft opts)
        (opts.first.getD opts.interval) (slept host opts.initwait.toList m) := by
  have hno : ¬(opts.rsdata = true ∧ ¬captureIsApiCompatible self = true) := by
    rintro ⟨hrs, hnot⟩
    exact hnot (hself hrs)
  rw [waitStatus, if_neg hno]
  cases hinit : opts.initwait with
  | none => simp only [timeLeft, hinit]; rfl
  | some t => simp only [timeLeft, hinit]; rfl

theorem slept_append (host : HostOps σ) (l l' : List Int) (m : Machine σ) :
    slept host (l ++ l') m = slept host l' (slept host l m) := by
  simp [slept, List.foldl_append]

theorem timesOut_of_sleeps (con : ι) {self : ConInfo} {opts : WaitOpts}
    (hself : opts.rsdata = true → captureIsApiCompatible self = true)
    (hsleeps : sleeps opts.interval opts.first.isSome polls (timeLeft opts)
      (opts.first.getD opts.interval) = some l)
    (hbound : ∀ t ∈ l, t ≤ opts.interval) : TimesOut con self opts := by
  refine ⟨l.length + 1, l, ?_, hbound, ?_⟩
  · have hinit : opts.initwait.toList.sum = opts.initwait.getD 0 := by
      cases opts.initwait <;> simp
    rw [List.sum_append, sleeps_sum hsleeps, hinit, timeLeft]
    omega
  · intro σ host m world asked hworld n hn
    rw [slept_append, Action.on, waitStatus_eq host hself]
    exact run_waitLoop_some asked _ host hworld (sleeps_more (sleeps_length hsleeps) hn)

theorem timesOut_of_advances (con : ι) {self : ConInfo} {opts : WaitOpts}
    (hself : opts.rsdata = true → captureIsApiCompatible self = true) (h : Advances opts) :
    TimesOut con self opts := by
  have hinterval := interval_pos opts
  by_cases htime : timeLeft opts ≤ 0
  · have hdone : sleeps opts.interval opts.first.isSome 1 (timeLeft opts)
        (opts.first.getD opts.interval) = some [] := sleeps_done htime
    exact timesOut_of_sleeps con hself hdone (List.forall_mem_nil _)
  · have hfirst : 0 < opts.first.getD opts.interval ∧
        (opts.first.getD opts.interval ≤ opts.interval ∨ timeLeft opts ≤ opts.interval) := by
      cases hstart : opts.first with
      | none => exact ⟨hinterval, .inl (Int.le_refl _)⟩
      | some p => exact (h.resolve_left htime) p hstart
    obtain ⟨l, hl⟩ := sleeps_end hinterval hfirst.1 (Nat.lt_succ_self (timeLeft opts).toNat)
      opts.first.isSome
    exact timesOut_of_sleeps con hself hl (sleeps_bound hl hfirst.2)

/-- Replies of a camera whose status never matches. -/
def idle (opts : WaitOpts) : (q : Request) → Reply q
  | .scriptStatus => .ok ⟨!opts.run.getD false, !opts.msg.getD false⟩
  | .captureReady => .ok (0, 0)
  | .captureGetChunk _ => .error .notConnected

/-- Every camera is idle. -/
def idleWorld (opts : WaitOpts) : World ι Request Reply := fun _ _ => idle opts

theorem noMatch_idle (opts : WaitOpts) (q : Request) : NoMatch opts q (idle opts q) := by
  cases q with
  | scriptStatus =>
    refine ⟨_, rfl, ?_, ?_⟩
    · cases opts.run <;> simp
    · cases opts.msg <;> simp
  | captureReady => exact ⟨0, rfl⟩
  | captureGetChunk fmt => trivial

/-- A host that writes down its sleeps. -/
def sleepLog : HostOps (List Int) where
  windows := false
  sleep t s := s ++ [t]
  time _ := (0, 0, 0)
  openFile _ s := (.ok (), s)
  seek _ := id
  fwrite _ s := (.ok (), s)
  close := id
  dngHdr _ := false
  processDng raw s := (.ok raw.data, s)
  substRun _ filename := .ok filename
  border _ := 0

theorem slept_sleepLog (l : List Int) (m : Machine (List Int)) :
    (slept sleepLog l m).host = m.host ++ l := by
  induction l generalizing m with
  | nil => simp [slept]
  | cons t l ih =>
    have h := ih (slept sleepLog [t] m)
    rw [← slept_append, List.singleton_append] at h
    rw [h]
    simp [slept, sleepLog]

/-- The sleeps of a wait that ends are those of the loop. -/
theorem TimesOut.loop_ends {con : ι} {self : ConInfo} {opts : WaitOpts}
    (hself : opts.rsdata = true → captureIsApiCompatible self = true)
    (h : TimesOut con self opts) :
    ∃ polls l, sleeps opts.interval opts.first.isSome polls (timeLeft opts)
        (opts.first.getD opts.interval) = some l ∧ ∀ t ∈ l, t ≤ opts.interval := by
  have hworld : ∀ asked q, NoMatch opts q (idleWorld opts con asked q) :=
    fun _ => noMatch_idle opts
  obtain ⟨polls, l, -, hbound, hends⟩ := h
  obtain ⟨script, requests, -, hrun⟩ := hends sleepLog ⟨[], none, ∅⟩ (idleWorld opts)
    (fun _ => []) hworld polls le_rfl
  rw [Action.on, waitStatus_eq sleepLog hself] at hrun
  refine ⟨polls, ?_⟩
  cases hsleeps : sleeps opts.interval opts.first.isSome polls (timeLeft opts)
      (opts.first.getD opts.interval) with
  | none =>
    have hnone := run_waitLoop_none (fun _ => []) (slept sleepLog opts.initwait.toList ⟨[], none, ∅⟩)
      sleepLog hworld hsleeps
    rw [Action.on, hrun] at hnone
    simp only [timeoutResult] at hnone
    split at hnone
    · cases hnone
    · cases hnone
  | some l' =>
    obtain ⟨script', requests', -, hrun'⟩ :=
      run_waitLoop_some (fun _ => []) (slept sleepLog opts.initwait.toList ⟨[], none, ∅⟩)
        sleepLog hworld hsleeps
    rw [Action.on, hrun] at hrun'
    have hhost := congrArg (fun r => r.1.2.host) hrun'
    simp only [slept_sleepLog, List.nil_append, List.append_cancel_left_eq] at hhost
    subst hhost
    exact ⟨_, rfl, hbound⟩

theorem advances_of_sleeps {opts : WaitOpts}
    (hsleeps : sleeps opts.interval opts.first.isSome polls (timeLeft opts)
      (opts.first.getD opts.interval) = some l) (hbound : ∀ t ∈ l, t ≤ opts.interval) :
    Advances opts := by
  by_cases htime : timeLeft opts ≤ 0
  · exact .inl htime
  · right
    intro p hp
    rw [hp, Option.getD_some] at hsleeps
    have hpos : 0 < p := by
      by_contra hnot
      rw [sleeps_stuck (interval_pos opts) (by omega) (by omega)] at hsleeps
      cases hsleeps
    refine ⟨hpos, ?_⟩
    by_contra hnot
    rw [not_or] at hnot
    cases polls with
    | zero => cases hsleeps
    | succ polls =>
      rw [sleeps_next (by omega), Option.map_eq_some_iff] at hsleeps
      obtain ⟨rest, -, rfl⟩ := hsleeps
      have hhead := hbound _ List.mem_cons_self
      have habove := nextSleep_above (some p).isSome (by omega : opts.interval < p)
        (by omega : opts.interval < timeLeft opts)
      omega

/-- A wait ends as it should exactly when its interval advances. -/
theorem timesOut_iff (con : ι) {self : ConInfo} {opts : WaitOpts}
    (hself : opts.rsdata = true → captureIsApiCompatible self = true) :
    TimesOut con self opts ↔ Advances opts := by
  constructor
  · intro h
    obtain ⟨polls, l, hsleeps, hbound⟩ := h.loop_ends hself
    exact advances_of_sleeps hsleeps hbound
  · exact timesOut_of_advances con hself

/-- A camera that supports remote capture. -/
def capturing : ConInfo := ⟨some (2, 5), none, 0⟩

theorem timesOut_rsdata :
    TimesOut () capturing ⟨none, none, true, some 20000, true, none, none, none⟩ :=
  (timesOut_iff () fun _ => rfl).mpr
    (.inr fun p hp => by
      obtain rfl : 4 = p := Option.some.inj hp
      decide)

/-- Waits for ten seconds, with an interval that stays 0 and one that stays a second. -/
theorem zero_and_long_start :
    ¬TimesOut () capturing ⟨none, some false, false, some 10000, false, none, some (some 0), none⟩ ∧
      ¬TimesOut () capturing
        ⟨none, some false, false, some 10000, false, some 250, some (some 1000), none⟩ := by
  constructor
  · intro h
    obtain ⟨polls, l, hsleeps, hbound⟩ := h.loop_ends fun _ => rfl
    rcases advances_of_sleeps hsleeps hbound with htime | hfirst
    · exact absurd htime (by decide)
    · exact absurd (hfirst 0 rfl).1 (by decide)
  · intro h
    obtain ⟨polls, l, hsleeps, hbound⟩ := h.loop_ends fun _ => rfl
    rcases advances_of_sleeps hsleeps hbound with htime | hfirst
    · exact absurd htime (by decide)
    · exact absurd (hfirst 1000 rfl).2 (by decide)

end StatusWait
