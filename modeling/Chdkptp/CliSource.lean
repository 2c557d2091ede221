import Chdkptp.CliDownload
import Mathlib.Data.Rat.Cast.Order
import Mathlib.Tactic.Ring

/-!
# Files of commands

`cli:execfile` runs the lines of a file through `cli:execute`, where a command may run files
again. `cli.source_level` counts the calls that are active, up to the preference
`cli_source_max`.
-/

namespace CliSource

open LuaValue LuaText RemoteCapture CliDownload

/-! ## The state -/

/-- The two values that a call returns, or an error. -/
inductive Outcome where
  | returned (status : Bool) (msg : Option LuaString)
  | raised (err : LuaError)

/-- What happens in a run. -/
inductive Event where
  /-- A call is refused while so many calls are active. -/
  | refused (active : Nat) (max : ℚ)
  /-- `io.open` is called without a name, or returns an error. -/
  | noName
  | openFailed
  /-- Reading a line raises an error. -/
  | readFailed
  /-- An error of a command that is not run in `xpcall`. -/
  | escaped
  /-- A call of `cli:execfile` returns; the level before it and after it. -/
  | returned (before after : ℤ)
  deriving DecidableEq

/-- The variables that commands may change, and all else of the program and its host. -/
structure Vars (ω : Type) where
  cli_source_max : ℚ
  finished : Bool
  last_status : Bool
  world : ω

structure State (ω : Type) where
  source_level : ℤ
  vars : Vars ω
  /-- What happened; no variable of the program. -/
  trace : List Event

/-- The function of a command, which may run lines and files. -/
inductive Body (ω : Type) where
  | done (out : Outcome)
  | get (k : Vars ω → Body ω)
  | set (v : Vars ω) (k : Body ω)
  | execute (line : LuaString) (k : Outcome → Body ω)
  | execfile (filename : Option LuaString) (k : Outcome → Body ω)

structure Command (ω : Type) where
  parser : CmdParser
  noxpcall : Bool
  no_status : Bool
  func : CmdArgs → Body ω

/-- Files, and how an error is formatted. -/
structure Host (ω H : Type) where
  openFile : LuaString → ω → Except LuaString H × ω
  readLine : H → ω → Except LuaError (Option LuaString) × ω
  close : H → ω → ω
  format : LuaError → LuaString

inductive Call where
  | execute (line : LuaString)
  | execfile (filename : Option LuaString)

section Functions

variable {ω H : Type}

def State.log (s : State ω) (e : Event) : State ω := { s with trace := s.trace ++ [e] }

def State.setWorld (s : State ω) (w : ω) : State ω :=
  { s with vars := { s.vars with world := w } }

def State.setStatus (s : State ω) (status : Bool) : State ω :=
  { s with vars := { s.vars with last_status := status } }

def State.setLevel (s : State ω) (level : ℤ) : State ω := { s with source_level := level }

/-- A run of something that may not end. -/
abbrev Runs (ω α : Type) := State ω → Option (α × State ω)

/-! ## The functions -/

def runBody (run : Call → Runs ω Outcome) : Body ω → Runs ω Outcome
  | .done out, s => some (out, s)
  | .get k, s => runBody run (k s.vars) s
  | .set v k, s => runBody run k { s with vars := v }
  | .execute line k, s => (run (.execute line) s).bind fun r => runBody run (k r.1) r.2
  | .execfile filename k, s => (run (.execfile filename) s).bind fun r => runBody run (k r.1) r.2

/-- What `cli:execute` does with what a command comes to. -/
def endCommand (host : Host ω H) (cmd : LuaString) (c : Command ω) :
    Outcome × State ω → Outcome × State ω
  | (.raised err, s) =>
    if c.noxpcall then (.raised err, s.log .escaped)
    else (.returned false (some (host.format err)), s.setStatus false)
  | (.returned status msg, s) =>
    (.returned status (if !status && msg.isNone then some (cmd ++ bytes " failed".toList) else msg),
      if c.no_status then s else s.setStatus status)

def reject (msg : LuaString) (s : State ω) : Outcome × State ω :=
  (.returned false (some msg), s.setStatus false)

/-- `cli:execute`. -/
def execute (host : Host ω H) (names : LuaString → Option (Command ω))
    (run : Call → Runs ω Outcome) (fuel : Nat) (line : LuaString) : Runs ω Outcome := fun s =>
  ((CliDownload.execute (fun cmd => (names cmd).map Command.parser) line).run fuel).bind fun r =>
    match r with
    -- the parser is not run in xpcall
    | .error err => some (.raised err, s.log .escaped)
    | .ok (.call cmd args) =>
      match names cmd with
      | some c => (runBody run (c.func args) s).map (endCommand host cmd c)
      | none => some (reject (bytes "unknown command '".toList ++ cmd ++ bytes "'\n".toList) s)
    | .ok (.parseFailed msg) => some (reject msg s)
    | .ok (.unknown cmd) =>
      some (reject (bytes "unknown command '".toList ++ cmd ++ bytes "'\n".toList) s)
    | .ok .badInput =>
      some (reject (bytes "bad input '".toList ++ line ++ bytes "'\n".toList) s)
    | .ok .blank => some (.returned true (some []), s)

/-- The loop over the lines of a file. -/
def lines (host : Host ω H) (run : LuaString → Runs ω Outcome) :
    (fuel : Nat) → H → Bool → Nat → Runs ω (Except LuaError (Bool × Nat))
  | 0, _, _, _, _ => none
  | fuel + 1, h, status, lnum, s =>
    match host.readLine h s.vars.world with
    | (.error err, w) => some (.error err, (s.setWorld w).log .readFailed)
    | (.ok none, w) => some (.ok (status, lnum), s.setWorld w)
    | (.ok (some line), w) =>
      (run line (s.setWorld w)).bind fun r =>
        match r with
        | (.raised err, s) => some (.error err, s)
        | (.returned status _, s) =>
          if s.vars.finished || !status then some (.ok (status, lnum), s)
          else lines host run fuel h status (lnum + 1) s

/-- The end of `cli:execfile` behind the loop. -/
def endFile (host : Host ω H) (h : H) (before : ℤ) :
    Except LuaError (Bool × Nat) × State ω → Outcome × State ω
  | (.error err, s) => (.raised err, s)
  | (.ok (status, lnum), s) =>
    (if status then .returned true none
      else .returned false (some (bytes "error on line ".toList ++ numeralText 10 lnum)),
    ((s.setWorld (host.close h s.vars.world)).setLevel (s.source_level - 1)).log
      (.returned before (s.source_level - 1)))

/-- `cli:execfile`, while so many calls of it are active. -/
def execfile (host : Host ω H) (run : Nat → Call → Runs ω Outcome) (fuel active : Nat)
    (filename : Option LuaString) : Runs ω Outcome := fun s =>
  if s.source_level = s.vars.cli_source_max then
    some (.returned false (some (bytes "too many nested source calls".toList)),
      (s.log (.refused active s.vars.cli_source_max)).log
        (.returned s.source_level s.source_level))
  else
    let before := s.source_level
    let s := s.setLevel (before + 1)
    match filename with
    | none => some (.raised (.text (bytes
        "bad argument #1 to 'open' (string expected, got nil)".toList)), s.log .noName)
    | some filename =>
      match host.openFile filename s.vars.world with
      | (.error err, w) =>
        -- the level is not set back
        some (.returned false (some (bytes "failed to open file: ".toList ++ err)),
          ((s.setWorld w).log .openFailed).log (.returned before s.source_level))
      | (.ok h, w) =>
        (lines host (fun line => run (active + 1) (.execute line)) fuel h true 1
          (s.setWorld w)).map (endFile host h before)

def run (host : Host ω H) (names : LuaString → Option (Command ω)) :
    (fuel active : Nat) → Call → Runs ω Outcome
  | 0, _, _ => fun _ => none
  | fuel + 1, active, .execute line => execute host names (run host names fuel active) fuel line
  | fuel + 1, active, .execfile filename =>
    execfile host (run host names fuel) fuel active filename

/-- Calls from outside, one after the other. -/
def session (host : Host ω H) (names : LuaString → Option (Command ω)) (fuel : Nat) :
    List Call → State ω → Option (State ω)
  | [], s => some s
  | c :: calls, s => (run host names fuel 0 c s).bind fun r => session host names fuel calls r.2

def start (v : Vars ω) : State ω := ⟨0, v, []⟩

/-- The `source` command. -/
def source : Command ω where
  parser := .create fun _ => none
  noxpcall := false
  no_status := false
  func := fun args =>
    match args with
    | .parsed args => .execfile args.words.head? .done
    | _ => .execfile none .done

/-! ## What a run keeps -/

/-- The events with which a call of `cli:execfile` is left without its end. -/
def Event.fails : Event → Prop
  | .noName => True
  | .openFailed => True
  | .readFailed => True
  | .escaped => True
  | _ => False

/-- What is claimed of an event: a call that returns has set the level back, and one that is
refused is refused because the calls that are allowed are active. -/
def Event.Right : Event → Prop
  | .refused active max => active = max
  | .returned before after => after = before
  | _ => True

/-- While so many calls are active, a run from one state to another keeps the level and all its
events are right, unless one of them fails; a failed opening leaves one that is not. -/
def Keeps (active : Nat) (s s' : State ω) (out : Prop) : Prop :=
  ∃ t, s'.trace = s.trace ++ t ∧
    ((∀ e ∈ t, ¬e.fails) → s.source_level = active →
      out ∧ s'.source_level = active ∧ ∀ e ∈ t, e.Right) ∧
    (Event.openFailed ∈ t → ∃ e ∈ t, ¬e.Right)

section Steps

variable {active : Nat} {s s' s'' : State ω} {p q : Prop}

theorem Keeps.trans (h : Keeps active s s' p) (h' : Keeps active s' s'' q) :
    Keeps active s s'' q := by
  obtain ⟨t, ht, hkeep, hleak⟩ := h
  obtain ⟨t', ht', hkeep', hleak'⟩ := h'
  refine ⟨t ++ t', by rw [ht', ht, List.append_assoc], fun hok hlevel => ?_, fun hmem => ?_⟩
  · rw [List.forall_mem_append] at hok
    obtain ⟨-, hmid, hright⟩ := hkeep hok.1 hlevel
    obtain ⟨hq, hend, hright'⟩ := hkeep' hok.2 hmid
    exact ⟨hq, hend, List.forall_mem_append.mpr ⟨hright, hright'⟩⟩
  · obtain hmem | hmem := List.mem_append.mp hmem
    · obtain ⟨e, he, hwrong⟩ := hleak hmem
      exact ⟨e, List.mem_append_left t' he, hwrong⟩
    · obtain ⟨e, he, hwrong⟩ := hleak' hmem
      exact ⟨e, List.mem_append_right t he, hwrong⟩

theorem Keeps.mono (h : Keeps active s s' p) (hpq : p → q) : Keeps active s s' q := by
  obtain ⟨t, ht, hkeep, hleak⟩ := h
  refine ⟨t, ht, fun hok hlevel => ?_, hleak⟩
  obtain ⟨hp, hrest⟩ := hkeep hok hlevel
  exact ⟨hpq hp, hrest⟩

/-- A step that is not seen in the level or the trace. -/
theorem Keeps.of_same (hp : p) (hlevel : s'.source_level = s.source_level)
    (htrace : s'.trace = s.trace) : Keeps active s s' p :=
  ⟨[], htrace.trans (List.append_nil _).symm, fun _ h => ⟨hp, hlevel.trans h, by simp⟩, by simp⟩

theorem Keeps.of_fails {e : Event} (he : e.fails) (hopen : e ≠ .openFailed)
    (htrace : s'.trace = s.trace ++ [e]) : Keeps active s s' p := by
  refine ⟨[e], htrace, fun hok => absurd he (hok e List.mem_cons_self), fun hmem => ?_⟩
  exact absurd (List.mem_singleton.mp hmem).symm hopen

end Steps

/-- The result is no error. -/
def Outcome.Returns : Outcome → Prop
  | .returned _ _ => True
  | .raised _ => False

/-- The calls that a run makes keep the level. -/
def KeepsAll (active : Nat) (rec : Call → Runs ω Outcome) : Prop :=
  ∀ c s r, rec c s = some r → Keeps active s r.2 r.1.Returns

section Functions

variable {active fuel : Nat} {host : Host ω H} {names : LuaString → Option (Command ω)}
  {rec : Call → Runs ω Outcome}

theorem keeps_runBody (hrec : KeepsAll active rec) {body : Body ω} {s : State ω}
    {r : Outcome × State ω} (h : runBody rec body s = some r) : Keeps active s r.2 True := by
  induction body generalizing s with
  | done out =>
    cases h
    exact .of_same trivial rfl rfl
  | get k ih => exact ih s.vars h
  | set v k ih =>
    have hset : Keeps active s { s with vars := v } True := .of_same trivial rfl rfl
    exact hset.trans (ih h)
  | execute line k ih =>
    obtain ⟨r', hcall, hrest⟩ := Option.bind_eq_some_iff.mp h
    exact (hrec _ _ _ hcall).trans (ih _ hrest)
  | execfile filename k ih =>
    obtain ⟨r', hcall, hrest⟩ := Option.bind_eq_some_iff.mp h
    exact (hrec _ _ _ hcall).trans (ih _ hrest)

theorem keeps_endCommand (cmd : LuaString) (c : Command ω) (r : Outcome × State ω) :
    Keeps active r.2 (endCommand host cmd c r).2 (endCommand host cmd c r).1.Returns := by
  obtain ⟨out, s⟩ := r
  cases out with
  | returned status msg =>
    rw [endCommand]
    by_cases hstatus : c.no_status = true
    · exact .of_same trivial (by simp [hstatus]) (by simp [hstatus])
    · exact .of_same trivial (by simp [hstatus, State.setStatus])
        (by simp [hstatus, State.setStatus])
  | raised err =>
    rw [endCommand]
    split
    · exact .of_fails (e := .escaped) trivial (by decide) rfl
    · exact .of_same trivial rfl rfl

theorem keeps_execute (hrec : KeepsAll active rec) {line : LuaString} {s : State ω}
    {r : Outcome × State ω} (h : execute host names rec fuel line s = some r) :
    Keeps active s r.2 r.1.Returns := by
  obtain ⟨parsed, -, hparsed⟩ := Option.bind_eq_some_iff.mp h
  cases parsed with
  | error err =>
    cases hparsed
    exact .of_fails (e := .escaped) trivial (by decide) rfl
  | ok executed =>
    cases executed with
    | call cmd args =>
      dsimp only at hparsed
      split at hparsed
      · next c hc =>
        obtain ⟨r', hbody, rfl⟩ := Option.map_eq_some_iff.mp hparsed
        exact (keeps_runBody hrec hbody).trans (keeps_endCommand cmd c r')
      · cases hparsed
        exact .of_same trivial rfl rfl
    | parseFailed msg =>
      cases hparsed
      exact .of_same trivial rfl rfl
    | unknown cmd =>
      cases hparsed
      exact .of_same trivial rfl rfl
    | badInput =>
      cases hparsed
      exact .of_same trivial rfl rfl
    | blank =>
      cases hparsed
      exact .of_same trivial rfl rfl

/-- The loop ends with an error only where something failed. -/
theorem keeps_lines {rec : LuaString → Runs ω Outcome}
    (hrec : ∀ line s r, rec line s = some r → Keeps active s r.2 r.1.Returns) {h : H}
    {status : Bool} {lnum : Nat} {s : State ω} {r : Except LuaError (Bool × Nat) × State ω}
    (hrun : lines host rec fuel h status lnum s = some r) :
    Keeps active s r.2 (∃ a, r.1 = .ok a) := by
  induction fuel generalizing status lnum s with
  | zero => cases hrun
  | succ fuel ih =>
    rw [lines] at hrun
    split at hrun
    · cases hrun
      exact .of_fails (e := .readFailed) trivial (by decide) rfl
    · cases hrun
      exact .of_same ⟨_, rfl⟩ rfl rfl
    · next line w hread =>
      have hworld : Keeps active s (s.setWorld w) True := .of_same trivial rfl rfl
      obtain ⟨⟨out, s1⟩, hline, hrest⟩ := Option.bind_eq_some_iff.mp hrun
      have hkeep := hworld.trans (hrec _ _ _ hline)
      cases out with
      | raised err =>
        cases hrest
        exact hkeep.mono fun hfalse => hfalse.elim
      | returned status' msg =>
        dsimp only at hrest
        split at hrest
        · cases hrest
          exact hkeep.mono fun _ => ⟨_, rfl⟩
        · exact hkeep.trans (ih hrest)

theorem keeps_execfile {rec : Nat → Call → Runs ω Outcome}
    (hrec : KeepsAll (active + 1) (rec (active + 1))) {filename : Option LuaString} {s : State ω}
    {r : Outcome × State ω} (h : execfile host rec fuel active filename s = some r) :
    Keeps active s r.2 r.1.Returns := by
  rw [execfile] at h
  split at h
  · next hmax =>
    cases h
    refine ⟨[.refused active s.vars.cli_source_max, .returned s.source_level s.source_level],
      by simp [State.log], fun _ hlevel => ⟨trivial, hlevel, ?_⟩, by simp⟩
    rw [hlevel] at hmax
    simpa [Event.Right] using hmax
  · cases filename with
    | none =>
      cases h
      exact .of_fails (e := .noName) trivial (by decide) rfl
    | some filename =>
      dsimp only at h
      split at h
      · cases h
        refine ⟨[.openFailed, .returned s.source_level (s.source_level + 1)],
          by simp [State.log, State.setWorld, State.setLevel],
          fun hok => absurd trivial (hok .openFailed List.mem_cons_self), fun _ => ?_⟩
        exact ⟨_, List.mem_cons_of_mem _ List.mem_cons_self, by simp [Event.Right]⟩
      · next f w hopen =>
        obtain ⟨⟨out, s1⟩, hlines, rfl⟩ := Option.map_eq_some_iff.mp h
        obtain ⟨t, ht, hkeep, hleak⟩ := keeps_lines (fun line => hrec (.execute line)) hlines
        have hstart : ((s.setLevel (s.source_level + 1)).setWorld w).source_level =
            s.source_level + 1 := rfl
        have htrace : s1.trace = s.trace ++ t := ht
        cases out with
        | error err =>
          refine ⟨t, htrace, fun hok hlevel => ?_, hleak⟩
          obtain ⟨⟨a, ha⟩, -, -⟩ := hkeep hok (by rw [hstart, hlevel]; push_cast; rfl)
          cases ha
        | ok a =>
          obtain ⟨status, lnum⟩ := a
          refine ⟨t ++ [.returned s.source_level (s1.source_level - 1)], ?_, fun hok hlevel => ?_,
            fun hmem => ?_⟩
          · rw [← List.append_assoc, ← htrace]
            rfl
          · rw [List.forall_mem_append] at hok
            obtain ⟨-, hend, hright⟩ := hkeep hok.1 (by rw [hstart, hlevel]; push_cast; rfl)
            have hback : s1.source_level - 1 = active := by
              rw [hend]
              push_cast
              ring
            refine ⟨?_, hback, List.forall_mem_append.mpr ⟨hright, ?_⟩⟩
            · rw [endFile]
              split <;> trivial
            · intro e he
              obtain rfl := List.mem_singleton.mp he
              exact hback.trans hlevel.symm
          · have hmem' : Event.openFailed ∈ t := by simpa using hmem
            obtain ⟨e, he, hwrong⟩ := hleak hmem'
            exact ⟨e, List.mem_append_left _ he, hwrong⟩

/-- The induction is on the fuel; the calls that a call makes run on less. -/
theorem keeps_run (fuel active : Nat) : KeepsAll active (run host names fuel active) := by
  induction fuel generalizing active with
  | zero =>
    intro c s r h
    cases h
  | succ fuel ih =>
    intro c s r h
    cases c with
    | execute line => exact keeps_execute (ih active) h
    | execfile filename => exact keeps_execfile (ih (active + 1)) h

theorem keeps_session {calls : List Call} {s s' : State ω}
    (h : session host names fuel calls s = some s') : Keeps 0 s s' True := by
  induction calls generalizing s with
  | nil =>
    cases h
    exact .of_same trivial rfl rfl
  | cons c calls ih =>
    obtain ⟨r, hcall, hrest⟩ := Option.bind_eq_some_iff.mp h
    exact (keeps_run fuel 0 c s r hcall).trans (ih hrest)

end Functions

/-- In a session in which every file has a name, opens and can be read, and no error leaves
`cli:execute`, every call that returns has set the level back, and every refused call finds the
calls active that are allowed; each file that does not open breaks this. -/
theorem source_level_kept (host : Host ω H) (names : LuaString → Option (Command ω)) (fuel : Nat)
    (calls : List Call) (v : Vars ω) (s : State ω)
    (h : session host names fuel calls (start v) = some s) :
    ((∀ e ∈ s.trace, ¬e.fails) → ∀ e ∈ s.trace, e.Right) ∧
      (Event.openFailed ∈ s.trace → ∃ e ∈ s.trace, ¬e.Right) := by
  obtain ⟨t, ht, hkeep, hleak⟩ := keeps_session h
  obtain rfl : s.trace = t := ht
  exact ⟨fun hok => (hkeep hok rfl).2.2, hleak⟩

end Functions

local instance lawful_text : LawfulBEq LuaString := inferInstance

/-- Two files, each open once; the lines that are left of them are the state. -/
def twoFiles : Host (LuaString → List LuaString) LuaString where
  openFile := fun filename w =>
    if filename ∈ [bytes ['a'], bytes ['b']] then (.ok filename, w)
    else (.error (bytes "no such file".toList), w)
  readLine := fun h w =>
    match w h with
    | [] => (.ok none, w)
    | line :: rest => (.ok (some line), fun h' => if h' = h then rest else w h')
  close := fun _ w => w
  format := fun _ => []

def sourceOnly (cmd : LuaString) : Option (Command (LuaString → List LuaString)) :=
  if cmd = bytes "source".toList then some source else none

/-- The first file runs the second, whose line is blank. -/
def twoFilesVars : Vars (LuaString → List LuaString) where
  cli_source_max := 10
  finished := false
  last_status := true
  world := fun h => if h = bytes ['a'] then [bytes "source b".toList] else [bytes " ".toList]

theorem source_level_kept_nested : ∃ s, session twoFiles sourceOnly 60
    [.execfile (some (bytes ['a']))] (start twoFilesVars) = some s ∧
    s.trace = [.returned 1 1, .returned 0 0] ∧ ∀ e ∈ s.trace, e.Right := by
  have hrun : (session twoFiles sourceOnly 60 [.execfile (some (bytes ['a']))]
      (start twoFilesVars)).map State.trace = some [.returned 1 1, .returned 0 0] := by
    decide +kernel
  obtain ⟨s, hs, htrace⟩ := Option.map_eq_some_iff.mp hrun
  refine ⟨s, hs, htrace, (source_level_kept _ _ _ _ _ s hs).1 ?_⟩
  rw [htrace]
  simp [Event.fails]

/-- After ten files that do not exist no file is run any more. -/
theorem not_source_level_kept : ¬∀ s, session twoFiles sourceOnly 60
    (List.replicate 11 (.execfile (some (bytes ['c'])))) (start twoFilesVars) = some s →
    ∀ e ∈ s.trace, e.Right := by
  have hrun : ((session twoFiles sourceOnly 60 (List.replicate 11
      (.execfile (some (bytes ['c'])))) (start twoFilesVars)).map State.trace).any
      (Event.refused 0 10 ∈ ·) = true := by
    decide +kernel
  intro h
  cases hs : session twoFiles sourceOnly 60
      (List.replicate 11 (.execfile (some (bytes ['c'])))) (start twoFilesVars) with
  | none =>
    rw [hs] at hrun
    cases hrun
  | some s =>
    rw [hs] at hrun
    have hmem : Event.refused 0 10 ∈ s.trace := by simpa using hrun
    exact absurd (h s hs _ hmem) (by simp [Event.Right])

end CliSource
