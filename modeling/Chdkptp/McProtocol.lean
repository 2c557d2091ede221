import Chdkptp.Conversation
import Chdkptp.MulticamStatus

/-!
# Commands to several cameras

`mc:cmd` against the scripts of the cameras, which read messages and send statuses whenever they
like. Between a camera and the host there is a queue in each direction; which message of a script
answers which command is not in the messages.
-/

namespace McProtocol

open ActionSystem LuaValue LuaText Multicam MulticamStatus Conversation

/-! ## Messages -/

/-- `string.match(cmd,'^([%w_]+)')` -/
def cmdName (cmd : LuaString) : Value :=
  if cmd.takeWhile isWord = [] then .nil else .str (cmd.takeWhile isWord)

/-- The name for which `mc:wait_status_msg` waits, if there is one. -/
def expected (cmd : LuaString) : Option Value :=
  if cmdName cmd = .nil then none else some (cmdName cmd)

/-- The options of `mc:cmd` that matter here; `syncat` with the tick of each camera as text. -/
structure CmdOpts where
  flushmsgs : Bool := true
  syncat : Option (Nat → LuaString) := none
  camargs : Rat → Option LuaString := fun _ => none
  args : Option LuaString := none
  wait : Bool := false

/-- What is written to a camera. -/
def sendcmd (mc : Mc) (cmd : LuaString) (opts : CmdOpts) (lcon : Nat) : LuaString :=
  let sendcmd := match opts.syncat with
    | some tick => cmd ++ byte ' ' :: tick lcon
    | none => cmd
  match opts.camargs (mc.mcId lcon), opts.args with
  | some args, _ => sendcmd ++ byte ' ' :: args
  | none, some args => sendcmd ++ byte ' ' :: args
  | none, none => sendcmd

/-- What `read_msg_strict` makes of a message; it throws for the error of a script. -/
abbrev Content := Except LuaString (CamStatus Value)

/-! ## Cameras -/

structure Cam where
  line : Line LuaString Content := {}
  run : Bool := true

namespace Cam

/-- `read_usb_msg` in `mc.run`. -/
def read (cam : Cam) : Option Cam :=
  if cam.run then cam.line.take.map fun line => { cam with line } else none

/-- The script ends. -/
def halt (cam : Cam) : Cam := { line := cam.line.stop, run := false }

/-- `write_usb_msg`, if there is room for the message. -/
def write (cam : Cam) (content : Content) (room : Bool) : Option Cam :=
  (if room then cam.line.answer content else cam.line.lose).map fun line => { cam with line }

/-- `write_status` at the end of a command, after which the script may end. -/
def writeStatus (cam : Cam) (status msg : Value) (room : Bool) : Option Cam :=
  cam.line.busy.bind fun p =>
    (cam.write (.ok { cmd := cmdName p.2, status, msg }) room).map fun cam =>
      if cmdName p.2 = .str (bytes "exit".toList) then cam.halt else cam

/-- A command ends with an error, and the script with it. -/
def fault (cam : Cam) (err : LuaString) (room : Bool) : Option Cam :=
  (cam.write (.error err) room).map halt

end Cam

/-- Whether the calls of the host work, or the error. -/
inductive Comm where
  | ok
  | noStatus (err : LuaString)
  | noMessage (err : LuaString)

/-- A camera that is asked. Its script may run on between the two calls, which changes nothing
about a message that is there. -/
def Cam.poll (cam : Cam) : Comm → Poll Value
  | .ok =>
    { scriptStatus := .ok ⟨cam.run, !cam.line.outbox.isEmpty⟩
      readMsgStrict := match cam.line.outbox with
        | [] => .error []
        | p :: _ => p.2 }
  | .noStatus err => ⟨.error err, .error err⟩
  | .noMessage err => ⟨.ok ⟨cam.run, !cam.line.outbox.isEmpty⟩, .error err⟩

/-! ## The host -/

/-- Which camera is next. -/
inductive Phase where
  | idle
  | flushing (todo : List Nat)
  | sending (todo : List Nat)
  | waiting (todo : List Nat) (complete : Nat)
  deriving DecidableEq

/-- What the model notes about the last command and a camera: which requests had not been answered
and read when it was to be written, its own number, and whose answer was taken for it. -/
structure Note where
  sent : Bool := false
  pending : List Nat := []
  own : Option Nat := none
  taken : Option Nat := none

structure State where
  mc : Mc
  cams : Nat → Cam
  phase : Phase := .idle
  cmd : LuaString := []
  opts : CmdOpts := {}
  results : Results Value := fun _ => {}
  notes : Nat → Note := fun _ => {}

inductive Action where
  /-- `mc:sel` or `mc:connect` -/
  | select (mc : Mc)
  | call (cmd : LuaString) (opts : CmdOpts)
  | flush
  | send (ok : Bool)
  | throw
  | poll (comm : Comm)
  | pass (timeUp : Bool)
  | read (lcon : Nat)
  | status (lcon : Nat) (status msg : Value) (room : Bool)
  | fault (lcon : Nat) (err : LuaString) (room : Bool)

def State.setCam (s : State) (lcon : Nat) (cam : Cam) : State :=
  { s with cams := Function.update s.cams lcon cam }

def State.note (s : State) (lcon : Nat) (note : Note) : State :=
  { s with notes := Function.update s.notes lcon note }

def State.setResult (s : State) (id : Rat) (r : Result Value) : State :=
  { s with results := Function.update s.results id r }

section Host

variable (tostring : Value → LuaString)

/-- `lcon:write_msg_pcall`, which fails where no script runs. -/
def sendTo (s : State) (lcon : Nat) (ok : Bool) : State :=
  let cam := s.cams lcon
  if ok && cam.run then
    (s.setCam lcon { cam with line := cam.line.ask (sendcmd s.mc s.cmd s.opts lcon) }).note lcon
      { sent := true, pending := cam.line.waiting, own := some cam.line.asked.length }
  else s.note lcon { sent := true, pending := cam.line.waiting }

/-- `mc:get_single_status` for a camera that is not through. -/
def pollOne (s : State) (lcon : Nat) (comm : Comm) : State :=
  let cam := s.cams lcon
  let id := s.mc.mcId lcon
  let r := getSingleStatus tostring (expected s.cmd) (cam.poll comm) (s.results id)
  let s := s.setResult id r
  match comm, cam.line.receive with
  | .ok, some (p, line) =>
    (s.setCam lcon { cam with line }).note lcon { s.notes lcon with taken := some p.1 }
  | _, _ => s

def step (s : State) : Action → Option State
  | .select mc =>
    if s.phase = .idle ∧ (mc.selected.map mc.mcId).Nodup then
      some { s with mc, results := fun _ => {}, notes := fun _ => {} }
    else none
  | .call cmd opts =>
    if s.phase = .idle then
      some { s with
        phase := if opts.flushmsgs then .flushing s.mc.selected else .sending s.mc.selected
        cmd, opts, results := fun _ => {}, notes := fun _ => {} }
    else none
  | .flush =>
    match s.phase with
    | .flushing [] => some { s with phase := .sending s.mc.selected }
    | .flushing (lcon :: todo) =>
      match (s.cams lcon).line.receive with
      | none => some { s with phase := .flushing todo }
      | some (_, line) => some (s.setCam lcon { s.cams lcon with line })
    | _ => none
  | .send ok =>
    match s.phase with
    | .sending [] =>
      some { s with phase := if s.opts.wait then .waiting s.mc.selected 0 else .idle }
    | .sending (lcon :: todo) => some { sendTo s lcon ok with phase := .sending todo }
    | _ => none
  | .throw =>
    match s.phase with
    | .flushing _ | .sending _ => some { s with phase := .idle }
    | _ => none
  | .poll comm =>
    match s.phase with
    | .waiting (lcon :: todo) complete =>
      if (s.results (s.mc.mcId lcon)).settled then
        some { s with phase := .waiting todo (complete + 1) }
      else some { pollOne tostring s lcon comm with phase := .waiting todo complete }
    | _ => none
  | .pass timeUp =>
    match s.phase with
    | .waiting [] complete =>
      if complete = s.mc.selected.length then some { s with phase := .idle }
      else if timeUp then some { s with phase := .idle, results := failRest s.mc s.results }
      else some { s with phase := .waiting s.mc.selected 0 }
    | _ => none
  | .read lcon => (s.cams lcon).read.map (s.setCam lcon)
  | .status lcon status msg room => ((s.cams lcon).writeStatus status msg room).map (s.setCam lcon)
  | .fault lcon err room => ((s.cams lcon).fault err room).map (s.setCam lcon)

def system : System State Action := ⟨step tostring⟩

end Host

/-- Nothing has been said yet. -/
def start (mc : Mc) : State := { mc, cams := fun _ => {} }

/-! ## Names -/

/-- The name of a command is not changed by what follows it. -/
theorem cmdName_append (cmd rest : LuaString) : cmdName (cmd ++ byte ' ' :: rest) = cmdName cmd := by
  have htake : (cmd ++ byte ' ' :: rest).takeWhile isWord = cmd.takeWhile isWord := by
    induction cmd with
    | nil => rfl
    | cons c cmd ih =>
      rw [List.cons_append, List.takeWhile_cons, List.takeWhile_cons, ih]
  rw [cmdName, cmdName, htake]

theorem cmdName_sendcmd (mc : Mc) (cmd : LuaString) (opts : CmdOpts) (lcon : Nat) :
    cmdName (sendcmd mc cmd opts lcon) = cmdName cmd := by
  have hsync : cmdName (match opts.syncat with
      | some tick => cmd ++ byte ' ' :: tick lcon
      | none => cmd) = cmdName cmd := by
    cases opts.syncat with
    | none => rfl
    | some tick => exact cmdName_append cmd _
  rw [sendcmd]
  split
  · rw [cmdName_append, hsync]
  · rw [cmdName_append, hsync]
  · exact hsync

/-! ## Cameras on their own -/

/-- The statuses that have been sent have the names of their commands. -/
structure Named (line : Line LuaString Content) : Prop where
  order : line.InOrder
  names : ∀ p ∈ line.outbox, ∀ st, p.2 = .ok st →
    ∃ text, line.asked[p.1]? = some text ∧ st.cmd = cmdName text

/-- What a camera does on its own. -/
structure Moves (cam cam' : Cam) : Prop where
  behind : Behind cam.line cam'.line
  named : Named cam.line → Named cam'.line

namespace Cam

variable {cam cam' : Cam}

theorem halt_moves (cam : Cam) : Moves cam cam.halt where
  behind := behind_stop cam.line
  named h := ⟨h.order.stop, h.names⟩

theorem read_moves (h : cam.read = some cam') : Moves cam cam' := by
  rw [read] at h
  split at h
  · obtain ⟨line, htake, rfl⟩ := Option.map_eq_some_iff.mp h
    constructor
    · exact behind_take htake
    · intro hnamed
      constructor
      · exact hnamed.order.take htake
      · have houtbox : line.outbox = cam.line.outbox := by
          rw [Line.take] at htake
          split at htake <;> cases htake
          rfl
        have hasked : line.asked = cam.line.asked := (take_eq htake).2.2.1
        dsimp only
        rw [houtbox, hasked]
        exact hnamed.names
  · cases h

/-- A message about the command that is worked on. -/
theorem answer_moves {q : Nat × LuaString} {content : Content}
    {line : Line LuaString Content} (hbusy : cam.line.busy = some q)
    (hcontent : ∀ st, content = .ok st → st.cmd = cmdName q.2)
    (h : cam.line.answer content = some line) : Moves cam { cam with line } := by
  constructor
  · exact behind_answer h
  · intro hnamed
    constructor
    · exact hnamed.order.answer h
    · have hasked : line.asked = cam.line.asked := (answer_eq h).2.2.1
      have houtbox : line.outbox = cam.line.outbox ++ [(q.1, content)] := by
        rw [Line.answer, hbusy] at h
        cases h
        rfl
      intro p hp st hst
      dsimp only at hp ⊢
      rw [hasked]
      rw [houtbox, List.mem_append, List.mem_singleton] at hp
      obtain hp | rfl := hp
      · exact hnamed.names p hp st hst
      · have hmem : q ∈ cam.line.requests := by simp [Line.requests, hbusy]
        exact ⟨q.2, hnamed.order.texts _ hmem, hcontent st hst⟩

theorem lose_moves {line : Line LuaString Content} (h : cam.line.lose = some line) :
    Moves cam { cam with line } := by
  constructor
  · exact behind_lose h
  · intro hnamed
    constructor
    · exact hnamed.order.lose h
    · obtain ⟨_, _, _, -, -, -, hasked, -, -⟩ := lose_eq h
      have houtbox : line.outbox = cam.line.outbox := by
        obtain ⟨p, -, rfl⟩ := Option.map_eq_some_iff.mp h
        rfl
      dsimp only
      rw [houtbox, hasked]
      exact hnamed.names

end Cam

theorem Moves.trans {cam cam' cam'' : Cam} (h : Moves cam cam') (h' : Moves cam' cam'') :
    Moves cam cam'' :=
  ⟨h.behind.trans h'.behind, fun hnamed => h'.named (h.named hnamed)⟩

namespace Cam

variable {cam cam' : Cam}

theorem write_moves {p : Nat × LuaString} {content : Content} {room : Bool}
    (hbusy : cam.line.busy = some p) (hcontent : ∀ st, content = .ok st → st.cmd = cmdName p.2)
    (h : cam.write content room = some cam') : Moves cam cam' := by
  obtain ⟨line, hline, rfl⟩ := Option.map_eq_some_iff.mp h
  cases room with
  | true => exact answer_moves hbusy hcontent hline
  | false => exact lose_moves hline

theorem writeStatus_moves {status msg : Value} {room : Bool}
    (h : cam.writeStatus status msg room = some cam') : Moves cam cam' := by
  obtain ⟨p, hbusy, h⟩ := Option.bind_eq_some_iff.mp h
  obtain ⟨cam₁, hwrite, rfl⟩ := Option.map_eq_some_iff.mp h
  have hmoves : Moves cam cam₁ := by
    apply write_moves hbusy _ hwrite
    intro st hst
    cases hst
    rfl
  split
  · exact hmoves.trans (halt_moves _)
  · exact hmoves

theorem fault_moves {err : LuaString} {room : Bool} (h : cam.fault err room = some cam') :
    Moves cam cam' := by
  obtain ⟨cam₁, hwrite, rfl⟩ := Option.map_eq_some_iff.mp h
  obtain ⟨p, hbusy⟩ : ∃ p, cam.line.busy = some p := by
    rw [write, Line.answer, Line.lose] at hwrite
    cases hbusy : cam.line.busy with
    | some p => exact ⟨p, rfl⟩
    | none =>
      rw [hbusy] at hwrite
      cases room <;> cases hwrite
  exact (write_moves hbusy (fun st hst => by cases hst) hwrite).trans (halt_moves _)

end Cam

/-! ## What every step keeps -/

/-- What the note about a camera says, if `text` is what is written to it. -/
structure CamInv (text : LuaString) (cam : Cam) (note : Note) : Prop where
  named : Named cam.line
  since : note.sent = true → note.taken = none → cam.line.Since note.pending note.own
  took : ∀ n, note.taken = some n → cam.line.Took note.pending note.own n
  own : ∀ n, note.own = some n → cam.line.asked[n]? = some text

/-- The result is that of the answer that was taken. -/
structure EntryInv (cmd : Option Value) (asked : List LuaString) (note : Note)
    (r : Result Value) : Prop where
  unsettled : r.settled = false → r = {} ∧ note.taken = none
  done : r.done = true → note.taken.isSome
  status : ∀ st, r.status = some st → r.done = true ∧
    ∃ n text, note.taken = some n ∧ asked[n]? = some text ∧ st.cmd = cmdName text ∧
      (r.failed = true ↔ ∃ c ∈ cmd, st.cmd ≠ c)

/-- What is known of the notes and the results on the way. -/
def PhaseInv (selected : List Nat) (notes : Nat → Note) (results : Results Value) : Phase → Prop
  | .idle => True
  | .flushing _ => (∀ lcon, notes lcon = {}) ∧ ∀ id, results id = {}
  | .sending todo => todo ⊆ selected ∧ todo.Nodup ∧ (∀ lcon ∈ todo, notes lcon = {}) ∧
      (∀ lcon ∈ selected, lcon ∉ todo → (notes lcon).sent = true) ∧
      (∀ lcon, (notes lcon).taken = none) ∧ ∀ id, results id = {}
  | .waiting todo _ => todo ⊆ selected ∧ ∀ lcon ∈ selected, (notes lcon).sent = true

structure Inv (s : State) : Prop where
  ids : (s.mc.selected.map s.mc.mcId).Nodup
  cam : ∀ lcon, CamInv (sendcmd s.mc s.cmd s.opts lcon) (s.cams lcon) (s.notes lcon)
  entry : ∀ lcon ∈ s.mc.selected, EntryInv (expected s.cmd) (s.cams lcon).line.asked
    (s.notes lcon) (s.results (s.mc.mcId lcon))
  phase : PhaseInv s.mc.selected s.notes s.results s.phase

section Parts

variable {text : LuaString} {cam cam' : Cam} {note : Note} {cmd : Option Value}
  {asked : List LuaString} {r : Result Value}

theorem CamInv.clear (h : Named cam.line) : CamInv text cam {} := by
  constructor
  · exact h
  · exact fun hsent => by cases hsent
  · exact fun n hn => by cases hn
  · exact fun n hn => by cases hn

theorem EntryInv.clear (hnote : note.taken = none) : EntryInv cmd asked note {} := by
  constructor
  · exact fun _ => ⟨rfl, hnote⟩
  · exact fun hdone => by cases hdone
  · exact fun st hst => by cases hst

theorem CamInv.moves (h : CamInv text cam note) (hmoves : Moves cam cam') :
    CamInv text cam' note := by
  constructor
  · exact hmoves.named h.named
  · exact fun hsent htaken => (h.since hsent htaken).behind hmoves.behind
  · exact fun n hn => (h.took n hn).behind hmoves.behind
  · rw [hmoves.behind.asked]
    exact h.own

theorem Named.receive {p : Nat × Content} {line : Line LuaString Content}
    (h : Named cam.line) (hreceive : cam.line.receive = some (p, line)) : Named line := by
  constructor
  · exact h.order.receive hreceive
  · have hasked : line.asked = cam.line.asked := (receive_eq hreceive).2.2.1
    have houtbox : cam.line.outbox = p :: line.outbox := by
      rw [Line.receive] at hreceive
      split at hreceive
      · cases hreceive
      · next houtbox =>
        cases hreceive
        exact houtbox
    intro q hq st hst
    rw [hasked]
    exact h.names q (houtbox ▸ List.mem_cons_of_mem _ hq) st hst

theorem Named.ask (h : Named cam.line) (text : LuaString) : Named (cam.line.ask text) := by
  constructor
  · exact h.order.ask text
  · intro p hp st hst
    obtain ⟨text', htext, hcmd⟩ := h.names p hp st hst
    refine ⟨text', ?_, hcmd⟩
    change (cam.line.asked ++ [text])[p.1]? = some text'
    rw [List.getElem?_append_left (List.getElem?_eq_some_iff.mp htext).1, htext]

/-- The command is written. -/
theorem CamInv.sent (h : Named cam.line) :
    CamInv text { cam with line := cam.line.ask text }
      { sent := true, pending := cam.line.waiting, own := some cam.line.asked.length } := by
  constructor
  · exact h.ask text
  · exact fun _ _ => since_ask h.order text
  · exact fun n hn => by cases hn
  · intro n hn
    cases hn
    exact List.getElem?_concat_length

/-- It cannot be written. -/
theorem CamInv.unsent (h : Named cam.line) :
    CamInv text cam { sent := true, pending := cam.line.waiting } := by
  constructor
  · exact h
  · exact fun _ _ => since_none h.order
  · exact fun n hn => by cases hn
  · exact fun n hn => by cases hn

/-- The first answer is taken. -/
theorem CamInv.taken (h : CamInv text cam note) (hsent : note.sent = true)
    (htaken : note.taken = none) {p : Nat × Content} {line : Line LuaString Content}
    (hreceive : cam.line.receive = some (p, line)) :
    CamInv text { cam with line } { note with taken := some p.1 } := by
  have hasked : line.asked = cam.line.asked := (receive_eq hreceive).2.2.1
  constructor
  · exact h.named.receive hreceive
  · exact fun _ hn => by cases hn
  · intro n hn
    cases hn
    exact (h.since hsent htaken).receive h.named.order hreceive
  · dsimp only
    rw [hasked]
    exact h.own

theorem late_entry (h : EntryInv cmd asked note r) : EntryInv cmd asked note (late r) := by
  rw [late]
  split
  · exact h
  · next hdone =>
    constructor
    · intro hsettled
      cases hsettled
    · exact fun hdone' => absurd hdone' hdone
    · intro st hst
      exact absurd (h.status st hst).1 hdone

/-- A camera that is asked and from which nothing is taken. -/
theorem entry_silent {tostring : Value → LuaString} {p : Poll Value} (hnote : note.taken = none)
    (hstatus : ((outcome tostring cmd p).getD {}).status = none)
    (hdone : ((outcome tostring cmd p).getD {}).done = false) :
    EntryInv cmd asked note ((outcome tostring cmd p).getD {}) := by
  constructor
  · intro hsettled
    refine ⟨?_, hnote⟩
    cases hout : outcome tostring cmd p with
    | none => rfl
    | some r =>
      rw [hout, Option.getD_some, outcome_settled hout] at hsettled
      cases hsettled
  · intro hdone'
    rw [hdone] at hdone'
    cases hdone'
  · intro st hst
    rw [hstatus] at hst
    cases hst

/-- The camera has sent something. -/
theorem entry_taken {tostring : Value → LuaString} {p : Nat × Content} {run : Bool}
    (hnamed : ∀ st, p.2 = .ok st → ∃ text, asked[p.1]? = some text ∧ st.cmd = cmdName text) :
    EntryInv cmd asked { note with taken := some p.1 }
      ((outcome tostring cmd ⟨.ok ⟨run, true⟩, p.2⟩).getD {}) := by
  obtain ⟨n, content⟩ := p
  cases content with
  | error err =>
    refine ⟨fun hsettled => ?_, fun _ => rfl, fun st hst => ?_⟩
    · cases hsettled
    · cases hst
  | ok st =>
    obtain ⟨text, htext, hcmd⟩ := hnamed st rfl
    by_cases hexpected : cmd = none ∨ cmd = some st.cmd
    · have hout : outcome tostring cmd ⟨.ok ⟨run, true⟩, .ok st⟩ =
          some { done := true, status := some st } := by simp [outcome, hexpected]
      rw [hout]
      refine ⟨fun hsettled => (by cases hsettled), fun _ => rfl, fun st' hst' => ?_⟩
      cases hst'
      refine ⟨rfl, n, text, rfl, htext, hcmd, iff_of_false Bool.false_ne_true ?_⟩
      rintro ⟨c, hc, hne⟩
      obtain hnone | hsome := hexpected
      · rw [hnone] at hc
        cases hc
      · rw [hsome, Option.mem_some_iff] at hc
        exact hne hc
    · have hout : outcome tostring cmd ⟨.ok ⟨run, true⟩, .ok st⟩ =
          some { failed := true, done := true, err := some (unexpected tostring st),
                 status := some st } := by simp [outcome, hexpected]
      rw [hout]
      refine ⟨fun hsettled => (by cases hsettled), fun _ => rfl, fun st' hst' => ?_⟩
      cases hst'
      refine ⟨rfl, n, text, rfl, htext, hcmd, iff_of_true rfl ?_⟩
      cases cmd with
      | none => exact absurd (.inl rfl) hexpected
      | some c => exact ⟨c, rfl, fun heq => hexpected (.inr (congrArg some heq.symm))⟩

/-- What there is to be taken is what is received. -/
theorem poll_message {p : Nat × Content} {line : Line LuaString Content}
    (h : cam.line.receive = some (p, line)) : cam.poll .ok = ⟨.ok ⟨cam.run, true⟩, p.2⟩ := by
  rw [Line.receive] at h
  split at h
  · cases h
  · next q outbox houtbox =>
    cases h
    simp [Cam.poll, houtbox]

/-- In all other cases nothing is. -/
theorem poll_silent {tostring : Value → LuaString} {comm : Comm}
    (h : comm = .ok → cam.line.receive = none) :
    ((outcome tostring cmd (cam.poll comm)).getD {}).status = none ∧
      ((outcome tostring cmd (cam.poll comm)).getD {}).done = false := by
  cases comm with
  | ok =>
    have houtbox : cam.line.outbox = [] := by
      have hnone := h rfl
      rw [Line.receive] at hnone
      split at hnone
      · assumption
      · cases hnone
    obtain ⟨line, run⟩ := cam
    dsimp only at houtbox
    cases run <;> simp [Cam.poll, houtbox, outcome]
  | noStatus err => exact ⟨rfl, rfl⟩
  | noMessage err =>
    obtain ⟨line, run⟩ := cam
    cases houtbox : line.outbox <;> cases run <;> simp [Cam.poll, houtbox, outcome]

end Parts

/-! ## One step -/

section Steps

variable {tostring : Value → LuaString} {s s' : State}

/-- A camera moves on its own. -/
theorem Inv.moves {lcon : Nat} {cam : Cam} (h : Inv s) (hmoves : Moves (s.cams lcon) cam) :
    Inv (s.setCam lcon cam) := by
  constructor
  · exact h.ids
  · intro c
    have hinv := h.cam c
    dsimp only [State.setCam]
    by_cases hc : c = lcon
    · subst hc
      rw [Function.update_self]
      exact hinv.moves hmoves
    · rw [Function.update_of_ne hc]
      exact hinv
  · intro c hc
    have hentry := h.entry c hc
    dsimp only [State.setCam]
    by_cases hc : c = lcon
    · subst hc
      rw [Function.update_self, hmoves.behind.asked]
      exact hentry
    · rw [Function.update_of_ne hc]
      exact hentry
  · exact h.phase

theorem Inv.select {mc : Mc} (h : Inv s) (hstep : step tostring s (.select mc) = some s') :
    Inv s' := by
  simp only [step] at hstep
  split at hstep
  · next hidle =>
    cases hstep
    constructor
    · exact hidle.2
    · exact fun lcon => CamInv.clear (h.cam lcon).named
    · exact fun lcon _ => EntryInv.clear rfl
    · dsimp only
      rw [hidle.1]
      trivial
  · cases hstep

/-- A command begins with flushing or sending. -/
theorem phaseInv_sending (hids : (s.mc.selected.map s.mc.mcId).Nodup) {notes : Nat → Note}
    {results : Results Value} (hnotes : ∀ lcon, notes lcon = {}) (hresults : ∀ id, results id = {}) :
    PhaseInv s.mc.selected notes results (.sending s.mc.selected) := by
  refine ⟨List.Subset.refl _, hids.of_map _, fun lcon _ => hnotes lcon, ?_, ?_, hresults⟩
  · exact fun lcon hmem hnot => absurd hmem hnot
  · intro lcon
    rw [hnotes lcon]

theorem Inv.call {cmd : LuaString} {opts : CmdOpts} (h : Inv s)
    (hstep : step tostring s (.call cmd opts) = some s') : Inv s' := by
  simp only [step] at hstep
  split at hstep
  · cases hstep
    constructor
    · exact h.ids
    · exact fun lcon => CamInv.clear (h.cam lcon).named
    · exact fun lcon _ => EntryInv.clear rfl
    · dsimp only
      split
      · exact ⟨fun _ => rfl, fun _ => rfl⟩
      · exact phaseInv_sending h.ids (fun _ => rfl) fun _ => rfl
  · cases hstep

theorem Inv.flush (h : Inv s) (hstep : step tostring s .flush = some s') : Inv s' := by
  have hphase := h.phase
  simp only [step] at hstep
  split at hstep
  · next hflush =>
    rw [hflush] at hphase
    cases hstep
    exact ⟨h.ids, h.cam, h.entry, phaseInv_sending h.ids hphase.1 hphase.2⟩
  · next lcon todo hflush =>
    rw [hflush] at hphase
    split at hstep
    · cases hstep
      exact ⟨h.ids, h.cam, h.entry, hphase⟩
    · next p line hreceive =>
      cases hstep
      constructor
      · exact h.ids
      · intro c
        dsimp only [State.setCam]
        rw [hphase.1 c]
        by_cases hc : c = lcon
        · subst hc
          rw [Function.update_self]
          exact CamInv.clear ((h.cam c).named.receive hreceive)
        · rw [Function.update_of_ne hc]
          exact CamInv.clear (h.cam c).named
      · intro c hc
        dsimp only [State.setCam]
        rw [hphase.1 c, hphase.2]
        exact EntryInv.clear rfl
      · dsimp only [State.setCam]
        rw [hflush]
        exact hphase
  · cases hstep

theorem Inv.send {ok : Bool} (h : Inv s) (hstep : step tostring s (.send ok) = some s') :
    Inv s' := by
  have hphase := h.phase
  simp only [step] at hstep
  split at hstep
  · next hsend =>
    rw [hsend] at hphase
    cases hstep
    refine ⟨h.ids, h.cam, h.entry, ?_⟩
    dsimp only
    split
    · exact ⟨List.Subset.refl _, fun lcon hmem => hphase.2.2.2.1 lcon hmem List.not_mem_nil⟩
    · trivial
  · next lcon todo hsend =>
    rw [hsend] at hphase
    obtain ⟨hsub, hnodup, hclear, hsent, htaken, hresults⟩ := hphase
    cases hstep
    -- what is written, if it is, and the note about it
    obtain ⟨cam, note, hcam, hnote, hnone, heq⟩ : ∃ cam note,
        CamInv (sendcmd s.mc s.cmd s.opts lcon) cam note ∧ note.sent = true ∧ note.taken = none ∧
        sendTo s lcon ok = (s.setCam lcon cam).note lcon note := by
      rw [sendTo]
      split
      · exact ⟨_, _, CamInv.sent (h.cam lcon).named, rfl, rfl, rfl⟩
      · refine ⟨s.cams lcon, _, CamInv.unsent (h.cam lcon).named, rfl, rfl, ?_⟩
        rw [State.setCam, Function.update_eq_self]
    rw [heq]
    have hnotes : ∀ c, ((Function.update s.notes lcon note) c).taken = none := by
      intro c
      by_cases hc : c = lcon
      · subst hc
        rw [Function.update_self]
        exact hnone
      · rw [Function.update_of_ne hc]
        exact htaken c
    constructor
    · exact h.ids
    · intro c
      dsimp only [State.setCam, State.note]
      by_cases hc : c = lcon
      · subst hc
        rw [Function.update_self, Function.update_self]
        exact hcam
      · rw [Function.update_of_ne hc, Function.update_of_ne hc]
        exact h.cam c
    · intro c hc
      dsimp only [State.setCam, State.note]
      rw [hresults]
      exact EntryInv.clear (hnotes c)
    · refine ⟨fun c hc => hsub (List.mem_cons_of_mem _ hc), hnodup.of_cons, ?_, ?_, hnotes,
        hresults⟩
      · intro c hc
        have hne : c ≠ lcon := fun heq => (List.nodup_cons.mp hnodup).1 (heq ▸ hc)
        dsimp only [State.setCam, State.note]
        rw [Function.update_of_ne hne]
        exact hclear c (List.mem_cons_of_mem _ hc)
      · intro c hmem hnot
        dsimp only [State.setCam, State.note]
        by_cases hc : c = lcon
        · subst hc
          rw [Function.update_self]
          exact hnote
        · rw [Function.update_of_ne hc]
          apply hsent c hmem
          rw [List.mem_cons, not_or]
          exact ⟨hc, hnot⟩
  · cases hstep

theorem Inv.throw (h : Inv s) (hstep : step tostring s .throw = some s') : Inv s' := by
  simp only [step] at hstep
  split at hstep
  · cases hstep
    exact ⟨h.ids, h.cam, h.entry, trivial⟩
  · cases hstep
    exact ⟨h.ids, h.cam, h.entry, trivial⟩
  · cases hstep

theorem Inv.pass {timeUp : Bool} (h : Inv s) (hstep : step tostring s (.pass timeUp) = some s') :
    Inv s' := by
  have hphase := h.phase
  simp only [step] at hstep
  split at hstep
  · next complete hwait =>
    rw [hwait] at hphase
    split at hstep
    · cases hstep
      exact ⟨h.ids, h.cam, h.entry, trivial⟩
    split at hstep
    · cases hstep
      refine ⟨h.ids, h.cam, fun c hc => ?_, trivial⟩
      dsimp only
      rw [failRest_eq h.ids _ hc]
      exact late_entry (h.entry c hc)
    · cases hstep
      exact ⟨h.ids, h.cam, h.entry, List.Subset.refl _, hphase.2⟩
  · cases hstep

/-- What becomes of a camera that is asked, its note and its result. -/
theorem pollOne_eq (tostring : Value → LuaString) {lcon : Nat} (comm : Comm) (hclear : s.results (s.mc.mcId lcon) = {}) :
    ∃ cam note, pollOne tostring s lcon comm =
        ((s.setResult (s.mc.mcId lcon)
          ((outcome tostring (expected s.cmd) ((s.cams lcon).poll comm)).getD {})).setCam
          lcon cam).note lcon note ∧
      ((comm = .ok → (s.cams lcon).line.receive = none) ∧ cam = s.cams lcon ∧
          note = s.notes lcon ∨
        ∃ p line, comm = .ok ∧ (s.cams lcon).line.receive = some (p, line) ∧
          cam = { s.cams lcon with line } ∧ note = { s.notes lcon with taken := some p.1 }) := by
  have hsame : ∀ t : State, (t.setCam lcon (t.cams lcon)).note lcon (t.notes lcon) = t := by
    intro t
    rw [State.setCam, State.note, Function.update_eq_self, Function.update_eq_self]
  unfold pollOne
  dsimp only
  rw [hclear, getSingleStatus_start]
  split
  · next p line hreceive =>
    exact ⟨_, _, rfl, .inr ⟨p, line, rfl, hreceive, rfl, rfl⟩⟩
  · next hnot =>
    refine ⟨s.cams lcon, s.notes lcon, (hsame _).symm, .inl ⟨?_, rfl, rfl⟩⟩
    rintro rfl
    cases hreceive : (s.cams lcon).line.receive with
    | none => rfl
    | some out => exact absurd hreceive (hnot out.1 out.2 rfl)

theorem Inv.poll {comm : Comm} (h : Inv s) (hstep : step tostring s (.poll comm) = some s') :
    Inv s' := by
  have hphase := h.phase
  simp only [step] at hstep
  split at hstep
  · next lcon todo complete hwait =>
    rw [hwait] at hphase
    obtain ⟨hsub, hsent⟩ := hphase
    have hmem : lcon ∈ s.mc.selected := hsub List.mem_cons_self
    have hrest : todo ⊆ s.mc.selected := fun c hc => hsub (List.mem_cons_of_mem _ hc)
    split at hstep
    · cases hstep
      exact ⟨h.ids, h.cam, h.entry, hrest, hsent⟩
    · next hunsettled =>
      obtain ⟨hclear, hnone⟩ := (h.entry lcon hmem).unsettled (Bool.eq_false_iff.mpr hunsettled)
      obtain ⟨cam, note, heq, hcase⟩ := pollOne_eq tostring comm hclear
      cases hstep
      rw [heq]
      have hinv := h.cam lcon
      obtain ⟨hcam, hasked, hnote, hentry⟩ :
          CamInv (sendcmd s.mc s.cmd s.opts lcon) cam note ∧
          cam.line.asked = (s.cams lcon).line.asked ∧ note.sent = true ∧
          EntryInv (expected s.cmd) (s.cams lcon).line.asked note
            ((outcome tostring (expected s.cmd) ((s.cams lcon).poll comm)).getD {}) := by
        obtain ⟨hsilent, rfl, rfl⟩ | ⟨p, line, rfl, hreceive, rfl, rfl⟩ := hcase
        · obtain ⟨hstatus, hdone⟩ := poll_silent hsilent
          exact ⟨hinv, rfl, hsent lcon hmem, entry_silent hnone hstatus hdone⟩
        · refine ⟨hinv.taken (hsent lcon hmem) hnone hreceive, (receive_eq hreceive).2.2.1,
            hsent lcon hmem, ?_⟩
          rw [poll_message hreceive]
          apply entry_taken
          intro st hst
          apply hinv.named.names p _ st hst
          rw [Line.receive] at hreceive
          split at hreceive
          · cases hreceive
          · next houtbox =>
            cases hreceive
            rw [houtbox]
            exact List.mem_cons_self
      constructor
      · exact h.ids
      · intro c
        dsimp only [State.setCam, State.note, State.setResult]
        by_cases hc : c = lcon
        · subst hc
          rw [Function.update_self, Function.update_self]
          exact hcam
        · rw [Function.update_of_ne hc, Function.update_of_ne hc]
          exact h.cam c
      · intro c hcsel
        dsimp only [State.setCam, State.note, State.setResult] at hcsel ⊢
        by_cases hc : c = lcon
        · subst hc
          rw [Function.update_self, Function.update_self, Function.update_self, hasked]
          exact hentry
        · have hid : s.mc.mcId c ≠ s.mc.mcId lcon := fun hid =>
            hc (List.inj_on_of_nodup_map h.ids hcsel hmem hid)
          rw [Function.update_of_ne hc, Function.update_of_ne hc, Function.update_of_ne hid]
          exact h.entry c hcsel
      · refine ⟨hrest, fun c hcsel => ?_⟩
        dsimp only [State.setCam, State.note, State.setResult] at hcsel ⊢
        by_cases hc : c = lcon
        · subst hc
          rw [Function.update_self]
          exact hnote
        · rw [Function.update_of_ne hc]
          exact hsent c hcsel
  · cases hstep

theorem Inv.step {a : Action} (h : Inv s) (hstep : step tostring s a = some s') : Inv s' := by
  cases a with
  | select mc => exact h.select hstep
  | call cmd opts => exact h.call hstep
  | flush => exact h.flush hstep
  | send ok => exact h.send hstep
  | throw => exact h.throw hstep
  | poll comm => exact h.poll hstep
  | pass timeUp => exact h.pass hstep
  | read lcon =>
    obtain ⟨cam, hcam, rfl⟩ := Option.map_eq_some_iff.mp hstep
    exact h.moves (Cam.read_moves hcam)
  | status lcon status msg room =>
    obtain ⟨cam, hcam, rfl⟩ := Option.map_eq_some_iff.mp hstep
    exact h.moves (Cam.writeStatus_moves hcam)
  | fault lcon err room =>
    obtain ⟨cam, hcam, rfl⟩ := Option.map_eq_some_iff.mp hstep
    exact h.moves (Cam.fault_moves hcam)

end Steps

/-! ## Whole runs -/

section Runs

variable (tostring : Value → LuaString)

theorem inv_start {mc : Mc} (hids : (mc.selected.map mc.mcId).Nodup) : Inv (start mc) where
  ids := hids
  cam _ := CamInv.clear ⟨inOrder_start, fun _ hp => absurd hp List.not_mem_nil⟩
  entry _ _ := EntryInv.clear rfl
  phase := trivial

theorem inv_run {mc : Mc} (hids : (mc.selected.map mc.mcId).Nodup) {as : List Action} {s : State}
    (h : (system tostring).run (start mc) as = some s) : Inv s :=
  (system tostring).run_invariant Inv (fun _ _ _ hinv hstep => hinv.step hstep) (inv_start hids) h

/-- The state after a run, if it is one. -/
def after (mc : Mc) (as : List Action) : State := ((system tostring).run (start mc) as).getD (start mc)

/-- One camera, with the id 1. -/
def oneCam : Mc := { Multicam.start with cams := [0], selected := [0], mcId := fun _ => 1 }

theorem oneCam_ids : (oneCam.selected.map oneCam.mcId).Nodup := List.nodup_singleton _

def shoot : LuaString := bytes "shoot".toList

def shot : CamStatus Value := ⟨.str shoot, .scalar (.bool true), .nil⟩

/-- The answer to a command that is not waited for comes when the next one has been written. -/
def hasty : List Action :=
  [.call shoot {}, .flush, .flush, .send true, .send true, .read 0,
    .call shoot { wait := true }, .flush, .flush, .send true, .send true,
    .status 0 shot.status shot.msg true, .poll .ok]

/-- The host waits for every command, sends it to all cameras, and leaves the wait when every
camera is done. -/
def Waits (s : State) : Action → Prop
  | .call _ opts => opts.wait = true
  | .throw => ∀ todo, s.phase ≠ .sending todo
  | .pass timeUp => ∀ complete, s.phase = .waiting [] complete →
      complete = s.mc.selected.length ∨ timeUp = true →
      ∀ lcon ∈ s.mc.selected, (s.results (s.mc.mcId lcon)).done = true
  | _ => True

/-- Between two commands nothing is waited for. -/
def Between : Phase → Prop
  | .idle | .flushing _ => True
  | _ => False

structure Clean (s : State) : Prop where
  inv : Inv s
  pending : ∀ lcon, (s.notes lcon).pending = []
  quiet : ∀ lcon, Between s.phase ∨ (s.notes lcon).sent = false ∨ (s.notes lcon).taken.isSome →
    (s.cams lcon).line.waiting = []
  others : ∀ lcon, lcon ∉ s.mc.selected → Between s.phase ∨ (s.notes lcon).sent = false
  waits : s.phase ≠ .idle → s.opts.wait = true

section CleanSteps

variable {tostring : Value → LuaString} {s s' : State}

theorem clean_start {mc : Mc} (hids : (mc.selected.map mc.mcId).Nodup) : Clean (start mc) where
  inv := inv_start hids
  pending _ := rfl
  quiet _ _ := rfl
  others _ _ := .inl trivial
  waits hidle := absurd rfl hidle

/-- When all is quiet there are new notes. -/
theorem Clean.renew (h : Clean s) (hbetween : Between s.phase) (hinv : Inv s')
    (hcams : s'.cams = s.cams) (hnotes : ∀ lcon, s'.notes lcon = {})
    (hwaits : s'.phase ≠ .idle → s'.opts.wait = true) : Clean s' where
  inv := hinv
  pending lcon := by rw [hnotes]
  quiet lcon _ := by
    rw [hcams]
    exact h.quiet lcon (.inl hbetween)
  others lcon _ := by
    rw [hnotes]
    exact .inr rfl
  waits := hwaits

theorem Clean.moves {lcon : Nat} {cam : Cam} (h : Clean s) (hmoves : Moves (s.cams lcon) cam) :
    Clean (s.setCam lcon cam) where
  inv := h.inv.moves hmoves
  pending := h.pending
  quiet c hc := by
    have hquiet := h.quiet c hc
    dsimp only [State.setCam]
    by_cases heq : c = lcon
    · subst heq
      rw [Function.update_self]
      apply List.eq_nil_iff_forall_not_mem.mpr
      intro n hn
      have hold := hmoves.behind.waiting hn
      rw [hquiet] at hold
      cases hold
    · rw [Function.update_of_ne heq]
      exact hquiet
  others := h.others
  waits := h.waits

theorem Clean.flush (h : Clean s) (hstep : step tostring s .flush = some s') : Clean s' := by
  have hinv := h.inv.flush hstep
  have hphase := h.inv.phase
  simp only [step] at hstep
  split at hstep
  · next hflush =>
    rw [hflush] at hphase
    have hbetween : Between s.phase := by rw [hflush]; trivial
    cases hstep
    apply h.renew hbetween hinv rfl hphase.1
    exact fun _ => h.waits (by rw [hflush]; exact Phase.noConfusion)
  · next lcon todo hflush =>
    rw [hflush] at hphase
    have hbetween : Between s.phase := by rw [hflush]; trivial
    split at hstep
    · cases hstep
      apply h.renew hbetween hinv rfl hphase.1
      exact fun _ => h.waits (by rw [hflush]; exact Phase.noConfusion)
    · next p line hreceive =>
      -- there is nothing to receive
      have hnone := (receive_eq hreceive).1
      rw [h.quiet lcon (.inl hbetween)] at hnone
      cases hnone
  · cases hstep

theorem Clean.send {ok : Bool} (h : Clean s) (hstep : step tostring s (.send ok) = some s') :
    Clean s' := by
  have hinv := h.inv.send hstep
  have hphase := h.inv.phase
  simp only [step] at hstep
  split at hstep
  · next hsend =>
    have hwait : s.opts.wait = true := h.waits (by rw [hsend]; exact Phase.noConfusion)
    have hnot : ¬Between s.phase := by rw [hsend]; exact id
    rw [hwait, if_pos rfl] at hstep
    cases hstep
    refine ⟨hinv, h.pending, fun lcon hlcon => ?_, fun lcon hlcon => ?_, fun _ => hwait⟩
    · exact h.quiet lcon (.inr (hlcon.resolve_left id))
    · exact .inr ((h.others lcon hlcon).resolve_left hnot)
  · next lcon todo hsend =>
    have hwait : s.opts.wait = true := h.waits (by rw [hsend]; exact Phase.noConfusion)
    have hnot : ¬Between s.phase := by rw [hsend]; exact id
    rw [hsend] at hphase
    have hclear : s.notes lcon = {} := hphase.2.2.1 lcon List.mem_cons_self
    have hempty : (s.cams lcon).line.waiting = [] :=
      h.quiet lcon (.inr (.inl (by rw [hclear])))
    cases hstep
    obtain ⟨cam, note, heq, hsent, hnone, hpending⟩ : ∃ cam note,
        sendTo s lcon ok = (s.setCam lcon cam).note lcon note ∧ note.sent = true ∧
        note.taken = none ∧ note.pending = [] := by
      rw [sendTo]
      split
      · exact ⟨_, _, rfl, rfl, rfl, hempty⟩
      · refine ⟨s.cams lcon, { sent := true, pending := (s.cams lcon).line.waiting }, ?_, rfl, rfl,
          hempty⟩
        rw [State.setCam, Function.update_eq_self]
    rw [heq] at hinv ⊢
    constructor
    · exact hinv
    · intro c
      dsimp only [State.setCam, State.note]
      by_cases hc : c = lcon
      · subst hc
        rw [Function.update_self]
        exact hpending
      · rw [Function.update_of_ne hc]
        exact h.pending c
    · intro c hquiet
      have hquiet := hquiet.resolve_left id
      dsimp only [State.setCam, State.note] at hquiet ⊢
      by_cases hc : c = lcon
      · subst hc
        rw [Function.update_self, hsent, hnone] at hquiet
        simp at hquiet
      · rw [Function.update_of_ne hc] at hquiet ⊢
        exact h.quiet c (.inr hquiet)
    · intro c hnotmem
      have hne : c ≠ lcon := by
        rintro rfl
        exact hnotmem (hphase.1 List.mem_cons_self)
      dsimp only [State.setCam, State.note]
      rw [Function.update_of_ne hne]
      exact .inr ((h.others c hnotmem).resolve_left hnot)
    · exact fun _ => hwait
  · cases hstep

theorem Clean.pass {timeUp : Bool} (h : Clean s) (hwaits : Waits s (.pass timeUp))
    (hstep : step tostring s (.pass timeUp) = some s') : Clean s' := by
  have hinv := h.inv.pass hstep
  simp only [step] at hstep
  split at hstep
  · next complete hwait =>
    have hnot : ¬Between s.phase := by rw [hwait]; exact id
    -- the wait is over when each has answered
    have hover : complete = s.mc.selected.length ∨ timeUp = true →
        ∀ lcon, (s.cams lcon).line.waiting = [] := by
      intro hend lcon
      by_cases hmem : lcon ∈ s.mc.selected
      · have hdone := hwaits complete hwait hend lcon hmem
        exact h.quiet lcon (.inr (.inr ((h.inv.entry lcon hmem).done hdone)))
      · exact h.quiet lcon (.inr (.inl ((h.others lcon hmem).resolve_left hnot)))
    split at hstep
    · next hall =>
      cases hstep
      exact ⟨hinv, h.pending, fun lcon _ => hover (.inl hall) lcon, fun _ _ => .inl trivial,
        fun hidle => absurd rfl hidle⟩
    split at hstep
    · next hup =>
      cases hstep
      exact ⟨hinv, h.pending, fun lcon _ => hover (.inr hup) lcon, fun _ _ => .inl trivial,
        fun hidle => absurd rfl hidle⟩
    · cases hstep
      refine ⟨hinv, h.pending, fun lcon hlcon => ?_, fun lcon hlcon => ?_, fun _ => ?_⟩
      · exact h.quiet lcon (.inr (hlcon.resolve_left id))
      · exact .inr ((h.others lcon hlcon).resolve_left hnot)
      · exact h.waits (by rw [hwait]; exact Phase.noConfusion)
  · cases hstep

theorem Clean.poll {comm : Comm} (h : Clean s) (hstep : step tostring s (.poll comm) = some s') :
    Clean s' := by
  have hinv := h.inv.poll hstep
  have hphase := h.inv.phase
  simp only [step] at hstep
  split at hstep
  · next lcon todo complete hwait =>
    have hnot : ¬Between s.phase := by rw [hwait]; exact id
    have hopts : s.opts.wait = true := h.waits (by rw [hwait]; exact Phase.noConfusion)
    rw [hwait] at hphase
    have hmem : lcon ∈ s.mc.selected := hphase.1 List.mem_cons_self
    split at hstep
    · cases hstep
      refine ⟨hinv, h.pending, fun c hc => ?_, fun c hc => ?_, fun _ => hopts⟩
      · exact h.quiet c (.inr (hc.resolve_left id))
      · exact .inr ((h.others c hc).resolve_left hnot)
    · next hunsettled =>
      obtain ⟨hclear, hnone⟩ :=
        (h.inv.entry lcon hmem).unsettled (Bool.eq_false_iff.mpr hunsettled)
      obtain ⟨cam, note, heq, hcase⟩ := pollOne_eq tostring comm hclear
      cases hstep
      rw [heq] at hinv ⊢
      have hsent := hphase.2 lcon hmem
      obtain ⟨hpending, hsame, hquiet⟩ : note.pending = [] ∧ note.sent = true ∧
          (note.taken.isSome → cam.line.waiting = []) := by
        obtain ⟨-, rfl, rfl⟩ | ⟨p, line, rfl, hreceive, rfl, rfl⟩ := hcase
        · refine ⟨h.pending lcon, hsent, fun htaken => ?_⟩
          rw [hnone] at htaken
          cases htaken
        · refine ⟨h.pending lcon, hsent, fun _ => ?_⟩
          have hsince := (h.inv.cam lcon).since hsent hnone
          rw [h.pending lcon] at hsince
          exact hsince.receive_all (h.inv.cam lcon).named.order hreceive
      constructor
      · exact hinv
      · intro c
        dsimp only [State.setCam, State.note, State.setResult]
        by_cases hc : c = lcon
        · subst hc
          rw [Function.update_self]
          exact hpending
        · rw [Function.update_of_ne hc]
          exact h.pending c
      · intro c hc
        have hc := hc.resolve_left id
        dsimp only [State.setCam, State.note, State.setResult] at hc ⊢
        by_cases heq : c = lcon
        · subst heq
          rw [Function.update_self, hsame] at hc
          rw [Function.update_self]
          exact hquiet (hc.resolve_left Bool.noConfusion)
        · rw [Function.update_of_ne heq] at hc ⊢
          exact h.quiet c (.inr hc)
      · intro c hnotmem
        have hne : c ≠ lcon := by
          rintro rfl
          exact hnotmem hmem
        dsimp only [State.setCam, State.note, State.setResult]
        rw [Function.update_of_ne hne]
        exact .inr ((h.others c hnotmem).resolve_left hnot)
      · exact fun _ => hopts
  · cases hstep

theorem Clean.step {a : Action} (h : Clean s) (hwaits : Waits s a)
    (hstep : step tostring s a = some s') : Clean s' := by
  cases a with
  | select mc =>
    have hinv := h.inv.select hstep
    simp only [McProtocol.step] at hstep
    split at hstep
    · next hidle =>
      cases hstep
      apply h.renew (by rw [hidle.1]; trivial) hinv rfl fun _ => rfl
      exact fun hne => absurd hidle.1 hne
    · cases hstep
  | call cmd opts =>
    have hinv := h.inv.call hstep
    simp only [McProtocol.step] at hstep
    split at hstep
    · next hidle =>
      cases hstep
      exact h.renew (by rw [hidle]; trivial) hinv rfl (fun _ => rfl) fun _ => hwaits
    · cases hstep
  | flush => exact h.flush hstep
  | send ok => exact h.send hstep
  | throw =>
    have hinv := h.inv.throw hstep
    have hphase := h.inv.phase
    simp only [McProtocol.step] at hstep
    split at hstep
    · next todo hflush =>
      rw [hflush] at hphase
      cases hstep
      apply h.renew (by rw [hflush]; trivial) hinv rfl hphase.1
      exact fun hne => absurd rfl hne
    · next todo hsend => exact absurd hsend (hwaits todo)
    · cases hstep
  | poll comm => exact h.poll hstep
  | pass timeUp => exact h.pass hwaits hstep
  | read lcon =>
    obtain ⟨cam, hcam, rfl⟩ := Option.map_eq_some_iff.mp hstep
    exact h.moves (Cam.read_moves hcam)
  | status lcon status msg room =>
    obtain ⟨cam, hcam, rfl⟩ := Option.map_eq_some_iff.mp hstep
    exact h.moves (Cam.writeStatus_moves hcam)
  | fault lcon err room =>
    obtain ⟨cam, hcam, rfl⟩ := Option.map_eq_some_iff.mp hstep
    exact h.moves (Cam.fault_moves hcam)

end CleanSteps

/-- A command that is waited for. -/
def patient : List Action :=
  [.call shoot { wait := true }, .flush, .flush, .send true, .send true, .read 0,
    .status 0 shot.status shot.msg true, .poll .ok]

end Runs

end McProtocol
