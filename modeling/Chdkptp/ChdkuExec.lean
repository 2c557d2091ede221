import Chdkptp.ActionSystem
import Mathlib.Data.List.DropRight

/-!
# Waiting for a script

`con:exec` with `wait` polls the script's status and reads its messages until the
script has stopped and no message is left. Between two requests of the host the
script may do anything: a poll takes a snapshot of the running flag and of whether
a message is queued, a read takes the oldest message. Times are in milliseconds
and only decide how often the host polls.
-/

namespace ChdkuExec

open ActionSystem

/-! ## The camera -/

inductive MsgType where
  | none
  | error
  | ret
  | user
  | unknown
  deriving DecidableEq, Repr

variable {V : Type}

/-- What `con:read_msg` returns; no value stands for nil. -/
structure Msg (V : Type) where
  scriptId : Nat
  type : MsgType
  /-- The subtype is `table`. -/
  table : Bool
  value : Option V

/-- The running flag and the messages that can be read, the oldest first. -/
structure Camera (V : Type) where
  running : Bool
  queue : List (Msg V)

abbrev ptpChdkScriptStatusRun : UInt32 := 0x1
abbrev ptpChdkScriptStatusMsg : UInt32 := 0x2

/-- The status word of `ptp_chdk_get_script_status`. -/
def Camera.status (camera : Camera V) : UInt32 :=
  (if camera.running then ptpChdkScriptStatusRun else 0) |||
    (if camera.queue.isEmpty then 0 else ptpChdkScriptStatusMsg)

structure Status where
  run : Bool
  msg : Bool
  timeout : Bool

def chdkScriptStatus (status : UInt32) : Status where
  run := status &&& ptpChdkScriptStatusRun ≠ 0
  msg := status &&& ptpChdkScriptStatusMsg ≠ 0
  timeout := false

/-- A snapshot shows both flags. -/
theorem scriptStatus_camera (camera : Camera V) :
    chdkScriptStatus camera.status = ⟨camera.running, !camera.queue.isEmpty, false⟩ := by
  unfold Camera.status
  cases camera.running <;> cases camera.queue.isEmpty <;> rfl

/-! ## Waiting for a status -/

/-- The options of `con:wait_status`, defaults filled in; nothing stands for nil or false. -/
structure WaitOpts where
  msg : Option Bool
  run : Option Bool
  timeout : Int
  timeoutError : Bool
  initwait : Option Int
  poll : Int
  pollstart : Option Int

/-- `opts.poll` as it is used. -/
def WaitOpts.pollTime (opts : WaitOpts) : Int := if opts.poll < 50 then 50 else opts.poll

/-- The variables of the loop. -/
structure Waiting where
  timeleft : Int
  sleeptime : Int

def WaitOpts.start (opts : WaitOpts) : Waiting where
  timeleft := opts.timeout - opts.initwait.getD 0
  sleeptime := opts.pollstart.getD opts.pollTime

/-- What a pass of the loop does with a status: sleep, return or throw. -/
inductive Polled where
  | sleep (w : Waiting)
  | done (status : Status)
  | timedOut

def waitStatus (opts : WaitOpts) (w : Waiting) (status : Status) : Polled :=
  if some status.run = opts.run ∨ some status.msg = opts.msg then .done status
  else if 0 < w.timeleft then
    let sleeptime :=
      if opts.pollstart.isSome ∧ w.sleeptime < opts.pollTime then
        if w.sleeptime * 2 > opts.pollTime then opts.pollTime else w.sleeptime * 2
      else w.sleeptime
    let sleeptime := if w.timeleft < sleeptime then w.timeleft else sleeptime
    .sleep ⟨w.timeleft - sleeptime, sleeptime⟩
  else if opts.timeoutError then .timedOut
  else .done { status with timeout := true }

/-! ## The loop of `con:exec` -/

/-- What the host does with a message or a value. -/
inductive Event (V : Type) where
  /-- The message is handed to `opts.msgs`. -/
  | msgs (msg : Msg V)
  /-- The message is handed to `opts.rets`. -/
  | rets (msg : Msg V)
  /-- The value is put into `results`. -/
  | result (value : Option V)
  | unexpectedUser (msg : Msg V)
  | unexpectedScript (msg : Msg V)
  | runtimeError (msg : Msg V)
  | wrongMsg (msg : Msg V)

/-- `opts.msgs` or `opts.rets`. A function may throw, depending on all that has been
done before. -/
inductive Target (V : Type) where
  | absent
  | table
  | function (throws : List (Event V) → Msg V → Bool)
  /-- A value of another type. -/
  | other

/-- A function or a table. -/
def Target.takes : Target V → Bool
  | .table => true
  | .function _ => true
  | _ => false

def Target.given : Target V → Bool
  | .absent => false
  | _ => true

structure ExecOpts (V : Type) where
  msgs : Target V
  rets : Target V
  initwait : Option Int
  poll : Int
  pollstart : Option Int
  /-- `con:get_script_id()`. -/
  scriptId : Nat
  /-- `serialize_msgs` is among the libs. -/
  serializeMsgs : Bool
  /-- The first result of `unserialize`. -/
  unserialize : Option V → Option V

/-- The call of `con:wait_status`, whose other defaults are kept. -/
def ExecOpts.wait (opts : ExecOpts V) : WaitOpts where
  msg := some true
  run := some false
  timeout := 86400000
  timeoutError := false
  initwait := opts.initwait
  poll := opts.poll
  pollstart := opts.pollstart

/-- The value of a return message. -/
def ExecOpts.value (opts : ExecOpts V) (msg : Msg V) : Option V :=
  if msg.table ∧ opts.serializeMsgs then opts.unserialize msg.value else msg.value

/-- What is done with a message. -/
def dispatch (opts : ExecOpts V) (msg : Msg V) : Event V :=
  if msg.scriptId ≠ opts.scriptId then .unexpectedScript msg
  else
    match msg.type with
    | .user => if opts.msgs.takes then .msgs msg else .unexpectedUser msg
    | .ret => if opts.rets.takes then .rets msg else .result (opts.value msg)
    | .error => .runtimeError msg
    | _ => .wrongMsg msg

/-- Whether it ends with an error; `before` is what has been done before. -/
def fails (opts : ExecOpts V) (before : List (Event V)) : Event V → Bool
  | .msgs msg =>
    match opts.msgs with
    | .function throws => throws before msg
    | _ => false
  | .rets msg =>
    match opts.rets with
    | .function throws => throws before msg
    | _ => false
  | .runtimeError _ => true
  | .wrongMsg _ => true
  | _ => false

/-- `results`, by index. -/
def results (events : List (Event V)) : List (Option V) :=
  events.filterMap fun e =>
    match e with
    | .result value => some value
    | _ => none

/-- `unpack(results,1,table.maxn(results))`: no value comes after the last that is not nil. -/
def unpackMaxn (values : List (Option V)) : List (Option V) :=
  values.rdropWhile fun value => value.isNone

/-- Where the host is. -/
inductive Pc (V : Type) where
  | polling (w : Waiting)
  | reading
  /-- Without values if they were handed to `opts.rets`. -/
  | returned (values : Option (List (Option V)))
  | threw

/-- `sent` is what the script has queued so far. -/
structure State (V : Type) where
  camera : Camera V
  sent : List (Msg V)
  pc : Pc V
  events : List (Event V)

/-- The host after `con:wait_status` has returned. -/
def ExecOpts.next (opts : ExecOpts V) (status : Status) (events : List (Event V)) : Pc V :=
  if status.msg then .reading
  else if status.run = false then
    .returned (if opts.rets.given then none else some (unpackMaxn (results events)))
  else .polling opts.wait.start

/-- `con:read_msg`; without a message its type is `none`. -/
def Camera.readMsg (camera : Camera V) : Msg V × Camera V :=
  match camera.queue with
  | [] => (⟨0, .none, false, none⟩, camera)
  | msg :: queue => (msg, { camera with queue := queue })

/-- One request of the host, with what follows it. -/
def hostStep (opts : ExecOpts V) (s : State V) : Option (State V) :=
  match s.pc with
  | .polling w =>
    match waitStatus opts.wait w (chdkScriptStatus s.camera.status) with
    | .sleep w => some { s with pc := .polling w }
    | .done status => some { s with pc := opts.next status s.events }
    | .timedOut => some { s with pc := .threw }
  | .reading =>
    let (msg, camera) := s.camera.readMsg
    let event := dispatch opts msg
    let pc := if fails opts s.events event then .threw else .polling opts.wait.start
    some { s with camera := camera, pc := pc, events := s.events ++ [event] }
  | _ => none

inductive Action (V : Type) where
  | host
  /-- The script queues a message. -/
  | send (msg : Msg V)
  | stop
  /-- A message of another script is queued. -/
  | other (msg : Msg V)

def system (opts : ExecOpts V) : System (State V) (Action V) where
  step s
    | .host => hostStep opts s
    | .send msg =>
      if s.camera.running ∧ msg.scriptId = opts.scriptId then
        some { s with
          camera := { s.camera with queue := s.camera.queue ++ [msg] }
          sent := s.sent ++ [msg] }
      else none
    | .stop => some { s with camera := { s.camera with running := false } }
    | .other msg =>
      if msg.scriptId ≠ opts.scriptId then
        some { s with camera := { s.camera with queue := s.camera.queue ++ [msg] } }
      else none

/-- The script has been started; only messages of other scripts are queued. -/
structure Started (opts : ExecOpts V) (s : State V) : Prop where
  running : s.camera.running = true
  others : ∀ msg ∈ s.camera.queue, msg.scriptId ≠ opts.scriptId
  sent : s.sent = []
  pc : s.pc = .polling opts.wait.start
  events : s.events = []

/-! ## What a request does -/

theorem waitStatus_done {opts : WaitOpts} {w : Waiting} {status status' : Status}
    (h : waitStatus opts w status = .done status') :
    status'.run = status.run ∧ status'.msg = status.msg := by
  simp only [waitStatus] at h
  split at h
  · cases h
    exact ⟨rfl, rfl⟩
  · split at h
    · cases h
    · split at h
      · cases h
      · cases h
        exact ⟨rfl, rfl⟩

/-- The requests: a poll that does not change anything, one that finds a message, one
that finds none and the script stopped, and a read. -/
inductive HostStep (opts : ExecOpts V) (s : State V) : State V → Prop where
  | poll (w w' : Waiting) (hpc : s.pc = .polling w) : HostStep opts s { s with pc := .polling w' }
  | found (w : Waiting) (hpc : s.pc = .polling w) (hqueue : s.camera.queue ≠ []) :
      HostStep opts s { s with pc := .reading }
  | finished (w : Waiting) (hpc : s.pc = .polling w) (hqueue : s.camera.queue = [])
      (hstopped : s.camera.running = false) :
      HostStep opts s { s with
        pc := .returned (if opts.rets.given then none else some (unpackMaxn (results s.events))) }
  | read (hpc : s.pc = .reading) :
      HostStep opts s { s with
        camera := s.camera.readMsg.2
        pc := if fails opts s.events (dispatch opts s.camera.readMsg.1) then .threw
          else .polling opts.wait.start
        events := s.events ++ [dispatch opts s.camera.readMsg.1] }

theorem hostStep_cases {opts : ExecOpts V} {s s' : State V} (h : hostStep opts s = some s') :
    HostStep opts s s' := by
  unfold hostStep at h
  split at h
  · rename_i w hpc
    split at h
    · cases h
      exact .poll w _ hpc
    · rename_i status hdone
      cases h
      obtain ⟨hrun, hmsg⟩ := waitStatus_done hdone
      rw [scriptStatus_camera] at hrun hmsg
      simp only [ExecOpts.next, hmsg, hrun]
      by_cases hqueue : s.camera.queue = []
      · rw [hqueue]
        by_cases hstopped : s.camera.running = false
        · simp only [List.isEmpty_nil, Bool.not_true, Bool.false_eq_true, if_false, hstopped, if_true]
          exact .finished w hpc hqueue hstopped
        · simp only [List.isEmpty_nil, Bool.not_true, Bool.false_eq_true, if_false, hstopped]
          exact .poll w _ hpc
      · have hfull : (!s.camera.queue.isEmpty) = true := by
          rw [Bool.not_eq_true', List.isEmpty_eq_false_iff]
          exact hqueue
        rw [if_pos hfull]
        exact .found w hpc hqueue
    · rename_i hout
      simp only [waitStatus, ExecOpts.wait, Bool.false_eq_true, if_false] at hout
      split at hout
      · cases hout
      · split at hout <;> cases hout
  · rename_i hpc
    cases h
    exact .read hpc
  · cases h

/-! ## What holds in every run -/

/-- What concerns the script. -/
def Event.own : Event V → Bool
  | .unexpectedScript _ => false
  | _ => true

/-- What has been done and what is queued for the script is what the script has sent;
the host reads when there is something, and has returned when there is nothing more. -/
structure Invariant (opts : ExecOpts V) (s : State V) : Prop where
  delivered : s.events.filter Event.own ++
      (s.camera.queue.filter fun msg => msg.scriptId = opts.scriptId).map (dispatch opts) =
    s.sent.map (dispatch opts)
  reading : s.pc = .reading → s.camera.queue ≠ []
  returned : ∀ values, s.pc = .returned values →
    s.camera.running = false ∧ (∀ msg ∈ s.camera.queue, msg.scriptId ≠ opts.scriptId) ∧
      values = if opts.rets.given then none else some (unpackMaxn (results s.events))

theorem Started.invariant {opts : ExecOpts V} {s : State V} (h : Started opts s) :
    Invariant opts s := by
  refine ⟨?_, fun hpc => ?_, fun values hpc => ?_⟩
  · rw [h.events, h.sent, List.filter_nil, List.nil_append, List.map_nil, List.map_eq_nil_iff,
      List.filter_eq_nil_iff]
    intro msg hmem
    rw [decide_eq_true_eq]
    exact h.others msg hmem
  · rw [h.pc] at hpc
    cases hpc
  · rw [h.pc] at hpc
    cases hpc

theorem own_dispatch (opts : ExecOpts V) (msg : Msg V) :
    (dispatch opts msg).own = decide (msg.scriptId = opts.scriptId) := by
  unfold dispatch
  by_cases hid : msg.scriptId = opts.scriptId
  · rw [if_neg (by simpa using hid), decide_eq_true hid]
    cases msg.type with
    | user => cases opts.msgs.takes <;> rfl
    | ret => cases opts.rets.takes <;> rfl
    | none => rfl
    | error => rfl
    | unknown => rfl
  · rw [if_pos hid, decide_eq_false hid]
    rfl

/-- A message that is queued is to be delivered, if it is the script's. -/
theorem pending_append (opts : ExecOpts V) (queue : List (Msg V)) (msg : Msg V) :
    ((queue ++ [msg]).filter fun msg => msg.scriptId = opts.scriptId).map (dispatch opts) =
      (queue.filter fun msg => msg.scriptId = opts.scriptId).map (dispatch opts) ++
        if msg.scriptId = opts.scriptId then [dispatch opts msg] else [] := by
  rw [List.filter_append, List.map_append]
  congr 1
  by_cases hid : msg.scriptId = opts.scriptId
  · rw [if_pos hid, List.filter_cons_of_pos (by simpa using hid)]
    rfl
  · rw [if_neg hid, List.filter_cons_of_neg (by simpa using hid)]
    rfl

/-- A message that is read is done with. -/
theorem read_delivered (opts : ExecOpts V) (events : List (Event V)) (msg : Msg V)
    (queue : List (Msg V)) :
    (events ++ [dispatch opts msg]).filter Event.own ++
        (queue.filter fun msg => msg.scriptId = opts.scriptId).map (dispatch opts) =
      events.filter Event.own ++
        ((msg :: queue).filter fun msg => msg.scriptId = opts.scriptId).map (dispatch opts) := by
  rw [List.filter_append, List.filter_singleton, own_dispatch, List.append_assoc]
  by_cases hid : msg.scriptId = opts.scriptId
  · rw [List.filter_cons_of_pos (by simpa using hid), decide_eq_true hid]
    rfl
  · rw [List.filter_cons_of_neg (by simpa using hid), decide_eq_false hid]
    rfl

theorem Invariant.host {opts : ExecOpts V} {s s' : State V} (h : Invariant opts s)
    (hstep : HostStep opts s s') : Invariant opts s' := by
  cases hstep with
  | poll w w' hpc => exact ⟨h.delivered, fun h => (by cases h), fun values h => (by cases h)⟩
  | found w hpc hqueue => exact ⟨h.delivered, fun _ => hqueue, fun values h => (by cases h)⟩
  | finished w hpc hqueue hstopped =>
    refine ⟨h.delivered, fun h => (by cases h), fun values hret => ?_⟩
    cases hret
    refine ⟨hstopped, fun msg hmem => ?_, rfl⟩
    simp only [hqueue, List.not_mem_nil] at hmem
  | read hpc =>
    have hfull := h.reading hpc
    have hdelivered := h.delivered
    cases hqueue : s.camera.queue with
    | nil => exact absurd hqueue hfull
    | cons msg queue =>
      rw [hqueue, ← read_delivered] at hdelivered
      have hread : s.camera.readMsg = (msg, { s.camera with queue := queue }) := by
        simp only [Camera.readMsg, hqueue]
      rw [hread]
      refine ⟨hdelivered, fun h => ?_, fun values h => ?_⟩
      · simp only at h
        split at h <;> cases h
      · simp only at h
        split at h <;> cases h

theorem Invariant.step {opts : ExecOpts V} {s s' : State V} {a : Action V} (h : Invariant opts s)
    (hstep : (system opts).step s a = some s') : Invariant opts s' := by
  cases a with
  | host => exact h.host (hostStep_cases hstep)
  | send msg =>
    simp only [system] at hstep
    split at hstep
    · rename_i hsend
      cases hstep
      refine ⟨?_, fun hpc => ?_, fun values hpc => ?_⟩
      · simp only [pending_append, if_pos hsend.2, List.map_append, ← List.append_assoc,
          h.delivered, List.map_cons, List.map_nil]
      · exact List.append_ne_nil_of_left_ne_nil (h.reading hpc) _
      · -- the script has stopped
        have hstopped := (h.returned values hpc).1
        rw [hsend.1] at hstopped
        cases hstopped
    · cases hstep
  | stop =>
    cases hstep
    refine ⟨h.delivered, h.reading, fun values hpc => ?_⟩
    exact ⟨rfl, (h.returned values hpc).2⟩
  | other msg =>
    simp only [system] at hstep
    split at hstep
    · rename_i hother
      cases hstep
      refine ⟨?_, fun hpc => ?_, fun values hpc => ?_⟩
      · simp only [pending_append, if_neg hother, List.append_nil, h.delivered]
      · exact List.append_ne_nil_of_left_ne_nil (h.reading hpc) _
      · obtain ⟨hstopped, hothers, hvalues⟩ := h.returned values hpc
        refine ⟨hstopped, fun m hmem => ?_, hvalues⟩
        rcases List.mem_append.mp hmem with hm | hm
        · exact hothers m hm
        · rw [List.mem_singleton.mp hm]
          exact hother
    · cases hstep

/-- `results` does not depend on the messages of other scripts. -/
theorem results_own (events : List (Event V)) :
    results (events.filter Event.own) = results events := by
  induction events with
  | nil => rfl
  | cons e events ih =>
    cases e with
    | unexpectedScript msg => exact ih
    | result value =>
      have hcons : ∀ es : List (Event V), results (.result value :: es) = value :: results es :=
        fun es => rfl
      rw [List.filter_cons_of_pos rfl, hcons, hcons, ih]
    | msgs msg => exact ih
    | rets msg => exact ih
    | unexpectedUser msg => exact ih
    | runtimeError msg => exact ih
    | wrongMsg msg => exact ih

/-- Whatever the script sends and however its messages, its end, messages of other
scripts and the requests of the host are interleaved: when `con:exec` has returned, the
script has stopped, and each of its messages has been handled once, in order. -/
theorem exec_receives_all (opts : ExecOpts V) (s s' : State V) (actions : List (Action V))
    (values : Option (List (Option V))) (hstart : Started opts s)
    (hrun : (system opts).run s actions = some s') (hreturned : s'.pc = .returned values) :
    s'.camera.running = false ∧
      s'.events.filter Event.own = s'.sent.map (dispatch opts) ∧
      values = if opts.rets.given then none
        else some (unpackMaxn (results (s'.sent.map (dispatch opts)))) := by
  have hinv := (system opts).run_invariant (Invariant opts) (fun s a s' h hstep => h.step hstep)
    hstart.invariant hrun
  obtain ⟨hstopped, hothers, hvalues⟩ := hinv.returned values hreturned
  have hdelivered := hinv.delivered
  have hnone : (s'.camera.queue.filter fun msg => msg.scriptId = opts.scriptId) = [] := by
    rw [List.filter_eq_nil_iff]
    intro msg hmem
    rw [decide_eq_true_eq]
    exact hothers msg hmem
  rw [hnone, List.map_nil, List.append_nil] at hdelivered
  refine ⟨hstopped, hdelivered, ?_⟩
  rw [hvalues, ← hdelivered, results_own]

def tableOpts : ExecOpts Nat where
  msgs := .table
  rets := .absent
  initwait := some 5
  poll := 250
  pollstart := some 4
  scriptId := 7
  serializeMsgs := true
  unserialize := id

def startedState : State Nat :=
  ⟨⟨true, [⟨6, .user, false, some 1⟩]⟩, [], .polling tableOpts.wait.start, []⟩

/-- A message of another script, a poll that finds nothing, then a message and two values;
the script ends when the host has yet to read the values. -/
def scriptActions : List (Action Nat) :=
  [.host, .host, .host, .send ⟨7, .user, false, some 2⟩, .host, .send ⟨7, .ret, false, some 3⟩, .host,
    .host, .send ⟨7, .ret, false, some 4⟩, .stop, .host, .host, .host, .host]

theorem exec_receives_all_witness :
    ∃ s', (system tableOpts).run startedState scriptActions = some s' ∧
      s'.pc = .returned (some [some 3, some 4]) ∧ s'.camera.running = false ∧
      s'.events.filter Event.own = s'.sent.map (dispatch tableOpts) ∧
      some [some 3, some 4] = if tableOpts.rets.given then none
        else some (unpackMaxn (results (s'.sent.map (dispatch tableOpts)))) :=
  ⟨_, rfl, rfl, exec_receives_all tableOpts startedState _ scriptActions _
    ⟨rfl, by decide, rfl, rfl, rfl⟩ rfl rfl⟩

end ChdkuExec
