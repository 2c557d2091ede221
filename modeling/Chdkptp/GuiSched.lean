import Chdkptp.ActionSystem
import Chdkptp.TableLoop

/-!
# The scheduler of the GUI

`gui_sched`: jobs that run once, jobs that repeat, and the timer that ticks while there
are any. The functions of the jobs may schedule and cancel jobs themselves. Jobs are told
apart by numbers, in the order in which they were made.
-/

namespace GuiSched

open ActionSystem TableLoop

/-- An entry of `m.pending`; times are in seconds. -/
structure Pending where
  id : Nat
  time : Rat
  deriving DecidableEq

/-- An entry of `m.repeating`, which is also its handle. -/
structure Repeating where
  id : Nat
  last : Rat
  time : Rat
  deriving DecidableEq

/-- The module. `t` is the global variable that `run_repeat` assigns its new job to;
`timer` is whether the timer runs, once there is one. -/
structure Sched where
  pending : List Pending
  repeating : List Repeating
  nextPending : Nat
  nextHandle : Nat
  t : Option Nat
  timer : Option Bool

/-! ## Scheduling -/

/-- The state, and the text of an error. -/
def ensureTimerRunning (s : Sched) : Sched × Option String :=
  match s.timer with
  | none => (s, some "gui_sched timer not initialized")
  | some _ => ({ s with timer := some true }, none)

/-- `m.run_after`; `now` is what `ticktime.get` returns. -/
def runAfter (s : Sched) (now time : Rat) : Sched × Option String :=
  let t := now + time / 1000
  ensureTimerRunning { s with
    pending := s.pending ++ [⟨s.nextPending, t⟩]
    nextPending := s.nextPending + 1 }

/-- `m.run_repeat`; the handle that it returns is the job's number. -/
def runRepeat (s : Sched) (now time : Rat) : Sched × Option String :=
  ensureTimerRunning { s with
    t := some s.nextHandle
    repeating := s.repeating ++ [⟨s.nextHandle, now, time⟩]
    nextHandle := s.nextHandle + 1 }

/-- The `cancel` of any handle: its closure reads the global `t`. -/
def cancel (s : Sched) : Sched :=
  { s with repeating := s.repeating.filter fun j => some j.id ≠ s.t }

/-- A call with the time at which it is made. -/
inductive Call where
  | runAfter (now time : Rat)
  | runRepeat (now time : Rat)
  | cancel (handle : Nat)

/-- A call, if there is such a handle. -/
def call (s : Sched) : Call → Option (Sched × Option String)
  | .runAfter now time => some (runAfter s now time)
  | .runRepeat now time => some (runRepeat s now time)
  | .cancel handle => if handle < s.nextHandle then some (cancel s, none) else none

theorem ensureTimerRunning_of_isSome {s : Sched} (h : s.timer.isSome) :
    ensureTimerRunning s = ({ s with timer := some true }, none) := by
  obtain ⟨timer, ht⟩ := Option.isSome_iff_exists.mp h
  rw [ensureTimerRunning, ht]

theorem runAfter_eq {s : Sched} (h : s.timer.isSome) (now time : Rat) :
    runAfter s now time = ({ s with
      pending := s.pending ++ [⟨s.nextPending, now + time / 1000⟩]
      nextPending := s.nextPending + 1
      timer := some true }, none) := by
  rw [runAfter, ensureTimerRunning_of_isSome]
  exact h

theorem runRepeat_eq {s : Sched} (h : s.timer.isSome) (now time : Rat) :
    runRepeat s now time = ({ s with
      t := some s.nextHandle
      repeating := s.repeating ++ [⟨s.nextHandle, now, time⟩]
      nextHandle := s.nextHandle + 1
      timer := some true }, none) := by
  rw [runRepeat, ensureTimerRunning_of_isSome]
  exact h

/-- A call when there is a timer: it does not throw. -/
theorem call_cases {s s' : Sched} {c : Call} {err : Option String} (ht : s.timer.isSome)
    (h : call s c = some (s', err)) : err = none ∧
    ((∃ now time, c = .runAfter now time ∧ s' = { s with
        pending := s.pending ++ [⟨s.nextPending, now + time / 1000⟩]
        nextPending := s.nextPending + 1
        timer := some true }) ∨
      (∃ now time, c = .runRepeat now time ∧ s' = { s with
        t := some s.nextHandle
        repeating := s.repeating ++ [⟨s.nextHandle, now, time⟩]
        nextHandle := s.nextHandle + 1
        timer := some true }) ∨
      ∃ handle, c = .cancel handle ∧ handle < s.nextHandle ∧ s' = cancel s) := by
  cases c with
  | runAfter now time =>
    rw [call, runAfter_eq ht] at h
    cases h
    exact ⟨rfl, .inl ⟨now, time, rfl, rfl⟩⟩
  | runRepeat now time =>
    rw [call, runRepeat_eq ht] at h
    cases h
    exact ⟨rfl, .inr (.inl ⟨now, time, rfl, rfl⟩)⟩
  | cancel handle =>
    rw [call] at h
    split at h
    · rename_i hhandle
      cases h
      exact ⟨rfl, .inr (.inr ⟨handle, rfl, hhandle, rfl⟩)⟩
    · cases h

/-! ## Ticks -/

/-- What a job's function does: it calls, and in the end it may throw. -/
structure Callback where
  calls : List Call
  throws : Bool

/-- The calls of a function, as far as the first that throws. -/
def runCalls (throws : Bool) (s : Sched) : List Call → Option (Sched × Bool)
  | [] => some (s, throws)
  | c :: calls => do
    let (s', err) ← call s c
    match err with
    | none => runCalls throws s' calls
    | some _ => some (s', true)

def runCallback (s : Sched) (fn : Callback) : Option (Sched × Bool) := runCalls fn.throws s fn.calls

/-- The state in a loop of a tick, and `num_pending` or `num_repeating`. -/
structure Counting where
  sched : Sched
  count : Nat

def pendingTable : Table Counting Nat where
  keys c := c.sched.pending.map Pending.id
  inserted c := c.sched.nextPending

/-- A job that is due is taken out and run; there is a callback exactly for these. -/
def visitPending (now : Rat) (c : Counting) (k : Nat) (fn : Option Callback) :
    Option (Counting × Bool) := do
  let v ← c.sched.pending.find? fun v => v.id = k
  if v.time < now then
    let s := { c.sched with pending := c.sched.pending.filter fun v => v.id ≠ k }
    let (s, threw) ← runCallback s (← fn)
    return (⟨s, c.count⟩, threw)
  else if fn.isNone then return (⟨c.sched, c.count + 1⟩, false)
  else none

def repeatingTable : Table Counting Nat where
  keys c := c.sched.repeating.map Repeating.id
  inserted c := c.sched.nextHandle

/-- A repeating job's function, and when it is called. -/
structure Repetition where
  last : Rat
  fn : Callback

def setLast (s : Sched) (k : Nat) (last : Rat) : Sched :=
  { s with repeating := s.repeating.map fun v => if v.id = k then { v with last } else v }

/-- A job that is due is run; every job that is visited counts. -/
def visitRepeating (now : Rat) (c : Counting) (k : Nat) (rep : Option Repetition) :
    Option (Counting × Bool) := do
  let v ← c.sched.repeating.find? fun v => v.id = k
  if (now - v.last) * 1000 > v.time then
    let rep ← rep
    let (s, threw) ← runCallback (setLast c.sched k rep.last) rep.fn
    return (⟨s, c.count + 1⟩, threw)
  else if rep.isNone then return (⟨c.sched, c.count + 1⟩, false)
  else none

/-- What happens in a tick: the time, and the visits of the two loops. -/
structure Tick where
  now : Rat
  pending : List (Nat × Option Callback)
  repeating : List (Nat × Option Repetition)

/-- `m.tick`. An error of a function ends the tick; `errutil.wrap` reports it. -/
def tick (s : Sched) (e : Tick) : Option Sched := do
  let (p, threw) ← pairs pendingTable (visitPending e.now) ⟨s, 0⟩ e.pending
  if threw then if e.repeating.isEmpty then some p.sched else none
  else do
    let (r, threw) ← pairs repeatingTable (visitRepeating e.now) ⟨p.sched, 0⟩ e.repeating
    if threw then some r.sched
    else if p.count = 0 ∧ r.count = 0 then
      -- stop running timer if no jobs
      some { r.sched with timer := r.sched.timer.map fun _ => false }
    else some r.sched

/-! ## Runs -/

/-- What is done with the scheduler from outside. -/
inductive Op where
  | call (c : Call)
  | tick (e : Tick)

def step (s : Sched) : Op → Option Sched
  | .call c => (call s c).map Prod.fst
  | .tick e => tick s e

def system : System Sched Op := ⟨step⟩

/-- After `init_timer`. -/
def start : Sched := ⟨[], [], 0, 0, none, some false⟩

end GuiSched
