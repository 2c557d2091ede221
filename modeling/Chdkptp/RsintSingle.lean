import Chdkptp.CameraCalls
import Chdkptp.LuaPattern

/-!
# The loop of single shots

The loop of `rsint_run_single`, which takes a shot for each message that asks for one. When no
message has come for `shoot_hook_timeout` the error is set, but the loop goes on.
-/

namespace RsintSingle

open LuaValue LuaText Scripts CameraCalls Relation

structure Opts where
  filedummy : Bool
  shootHookTimeout : Int

/-- The variables of the loop, with `last_exp_count`. -/
structure State where
  lastMsg : Int
  lastExpCount : Int
  errmsg : Option LuaString

def cancelled : LuaString := bytes "remote capture cancelled".toList

def timedOut : LuaString := bytes "timeout waiting for command".toList

/-- `string.match(msg,'^%w+')` -/
def cmdOf (msg : LuaString) : Option LuaString :=
  if msg.takeWhile LuaPattern.isAlnum = [] then none else some (msg.takeWhile LuaPattern.isAlnum)

/-- The keys of `cmds`. -/
def cmds : List LuaString := ["echo", "exec", "pcall"].map fun name => bytes name.toList

def unknown (msg : LuaString) : LuaString :=
  bytes "unknown command ".toList ++ (cmdOf msg).getD (bytes "nil".toList)

section Loop

variable (cam : Camera) (opts : Opts)

/-- `handle_exp_count_change`, which returns `last_exp_count` and the error. -/
def handleExpCountChange (lastExpCount : Int) : CamScript (Int × Option LuaString) := do
  let exp ← getExpCount cam
  if lastExpCount = exp ∨ opts.filedummy = false then pure (exp, none)
  else do
    let err ← askOrFail cam .shootFiledummy id
    pure (exp, err)

/-- One pass of the loop in `handle_last_filedummy`. -/
def lastPass (timeout lastExpCount : Int) (_ : PUnit) : CamScript (PUnit ⊕ PUnit) := do
  let now ← getTickCount cam
  if now < timeout then do
    let exp ← getExpCount cam
    if exp = lastExpCount then do
      ask cam (.sleep 10)
      pure (.inl ⟨⟩)
    else pure (.inr ⟨⟩)
  else pure (.inr ⟨⟩)

/-- `handle_last_filedummy` -/
def handleLastFiledummy (lastExpCount : Int) : CamScript PUnit :=
  if opts.filedummy then do
    let now ← getTickCount cam
    loop (lastPass cam (now + 5000) lastExpCount) ⟨⟩
    let _ ← handleExpCountChange cam opts lastExpCount
    pure ⟨⟩
  else pure ⟨⟩

/-- The end of a pass. -/
def checkTimeout (state : State) : CamScript (State ⊕ Option LuaString) := do
  let now ← getTickCount cam
  if now - state.lastMsg > opts.shootHookTimeout then
    pure (.inl { state with errmsg := some timedOut })
  else pure (.inl state)

/-- What is done for a message that is neither of `s`, `l` and `q`. -/
def otherCommand (msg : LuaString) : CamScript PUnit :=
  if ∃ cmd ∈ cmds, cmdOf msg = some cmd then askOrFail cam (.command msg) id
  else ask cam (.writeUsbMsg (unknown msg))

/-- What is done for a message. -/
def command (msg : LuaString) (state : State) : CamScript (State ⊕ Option LuaString) :=
  if cmdOf msg = some (bytes ['s']) then do
    ask cam (.click .shootFullOnly)
    checkTimeout cam opts state
  else if cmdOf msg = some (bytes ['l']) then do
    ask cam (.click .shootFullOnly)
    handleLastFiledummy cam opts state.lastExpCount
    pure (.inr state.errmsg)
  else if cmdOf msg = some (bytes ['q']) then pure (.inr state.errmsg)
  else do
    otherCommand cam msg
    checkTimeout cam opts state

/-- A pass behind the checks of the exposure counter and the capture target. -/
def afterChecks (msg : Option LuaString) (state : State) :
    CamScript (State ⊕ Option LuaString) :=
  match msg with
  | none => checkTimeout cam opts state
  | some msg => do
    let now ← getTickCount cam
    command cam opts msg { state with lastMsg := now }

/-- One pass of the loop. -/
def singlePass (state : State) : CamScript (State ⊕ Option LuaString) := do
  let msg ← readUsbMsg cam 10
  let out ← handleExpCountChange cam opts state.lastExpCount
  if out.2 ≠ none then pure (.inr out.2)
  else do
    let gone ← captureCancelled cam
    if gone then pure (.inr (some cancelled))
    else afterChecks cam opts msg { state with lastExpCount := out.1 }

/-- `rsint_run_single`, which returns `false` with the error, or nothing. -/
def rsintRunSingle (lastExpCount : Int) : CamScript (Option LuaString) := do
  let lastMsg ← getTickCount cam
  let errmsg ← loop (singlePass cam opts) ⟨lastMsg, lastExpCount, none⟩
  ask cam (.release .shootHalf)
  pure errmsg

end Loop

/-! ## The ways out of the loop -/

section Exits

variable (cam : Camera) (opts : Opts)

def expCount (log : List Done) : Int := cam.answer log .getExpCount

/-- The counter has not changed, or no dummy file is wanted. -/
def Unchanged (lastExpCount : Int) (log : List Done) : Prop :=
  lastExpCount = expCount cam log ∨ opts.filedummy = false

instance (lastExpCount : Int) (log : List Done) :
    Decidable (Unchanged cam opts lastExpCount log) :=
  inferInstanceAs (Decidable (_ ∨ _))

/-- How `handle_exp_count_change` comes out. -/
def handled (lastExpCount : Int) (log : List Done) : Except LuaString (Option LuaString) :=
  if Unchanged cam opts lastExpCount log then .ok none
  else cam.answer (asked cam log .getExpCount) .shootFiledummy

/-- The calls when `handle_exp_count_change` is over. -/
def handledLog (lastExpCount : Int) (log : List Done) : List Done :=
  if Unchanged cam opts lastExpCount log then asked cam log .getExpCount
  else asked cam (asked cam log .getExpCount) .shootFiledummy

/-- The calls when the capture target has been looked at. -/
def targetLog (log : List Done) : List Done :=
  if cam.captureTarget then asked cam log .getUsbCaptureTarget else log

/-- The message that a pass reads which begins after these calls. -/
def message (log : List Done) : Option LuaString := cam.answer log (.readUsbMsg 10)

/-- The calls of a pass before its command. -/
def commandLog (p : State × List Done) : List Done :=
  asked cam (targetLog cam (handledLog cam opts p.1.lastExpCount
    (asked cam p.2 (.readUsbMsg 10)))) .getTickCount

/-- The command of a message ends the loop. -/
def Ending (log : List Done) (msg : LuaString) : Prop :=
  cmdOf msg = some (bytes ['l']) ∨ cmdOf msg = some (bytes ['q']) ∨
    (∃ cmd ∈ cmds, cmdOf msg = some cmd) ∧ ∃ e, cam.answer log (.command msg) = .error e

/-- The pass is left before the time is looked at: the dummy file could not be made, or the command
ends the loop. -/
def Exits (p : State × List Done) : Prop :=
  handled cam opts p.1.lastExpCount (asked cam p.2 (.readUsbMsg 10)) ≠ .ok none ∨
    ∃ msg, message cam p.2 = some msg ∧ Ending cam (commandLog cam opts p) msg

end Exits

/-- A message has been read. -/
def hears : Done → Bool
  | ⟨.readUsbMsg _, some _⟩ => true
  | _ => false

def heard (log : List Done) : Nat := log.countP hears

/-- The pass that came before has found that too much time has gone since the last message. -/
def Overdue (opts : Opts) (p : State × List Done) : Prop :=
  ∃ before, ∃ now : Int, p.2 = before ++ [⟨.getTickCount, now⟩] ∧
    now - p.1.lastMsg > opts.shootHookTimeout

/-- After the last message nothing comes any more, the capture target stays set, and each wait
takes time. -/
structure Silent (cam : Camera) (time : List Done → Int) (messages : Nat) : Prop
    extends Advances cam time where
  sleep : ∀ log ms (r : PUnit), 0 < ms → time log < time (log ++ [⟨.sleep ms, r⟩])
  target : ∀ log, cam.answer log .getUsbCaptureTarget ≠ (0 : Int)
  silent : ∀ log ms, messages ≤ heard log → cam.answer log (.readUsbMsg ms) = none

section Passes

variable {cam : Camera} {opts : Opts} {time : List Done → Int} {messages : Nat}
  {log : List Done}

/-- No message has been read since, and no time goes back. -/
structure Behind (time : List Done → Int) (log log' : List Done) : Prop where
  time : time log ≤ time log'
  heard : heard log' = heard log

theorem Behind.refl : Behind time log log := ⟨Int.le_refl _, rfl⟩

theorem Behind.trans {log' log'' : List Done} (h : Behind time log log')
    (h' : Behind time log' log'') : Behind time log log'' :=
  ⟨h.time.trans h'.time, h'.heard.trans h.heard⟩

/-- A call that reads no message. -/
def Mute : Call → Prop
  | .readUsbMsg _ => False
  | _ => True

theorem behind_snoc (hadv : Advances cam time) {q : Call} (hq : Mute q) (r : Reply q) :
    Behind time log (log ++ [⟨q, r⟩]) := by
  refine ⟨hadv.mono log _, ?_⟩
  have hnone : hears ⟨q, r⟩ = false := by
    cases q <;> first | rfl | cases hq
  rw [heard, List.countP_append, List.countP_singleton, hnone]
  rfl

theorem Behind.asked (hadv : Advances cam time) {log' : List Done} (h : Behind time log log')
    {q : Call} (hq : Mute q) : Behind time log (asked cam log' q) :=
  h.trans (behind_snoc hadv hq _)

theorem behind_handledLog (hadv : Advances cam time) (lastExpCount : Int) :
    Behind time log (handledLog cam opts lastExpCount log) := by
  rw [handledLog]
  split
  · exact Behind.refl.asked hadv (q := .getExpCount) trivial
  · exact (Behind.refl.asked hadv (q := .getExpCount) trivial).asked hadv
      (q := .shootFiledummy) trivial

theorem behind_targetLog (hadv : Advances cam time) : Behind time log (targetLog cam log) := by
  rw [targetLog]
  split
  · exact Behind.refl.asked hadv (q := .getUsbCaptureTarget) trivial
  · exact Behind.refl

/-- The counter, from known calls. -/
theorem total_expCount_bind {β : Type} {f : Int → CamScript β} {R : β → List Done → Prop}
    {E : List Done → Prop} (h : Total (fun log' => log' = asked cam log .getExpCount)
      (f (expCount cam log)) R E) :
    Total (fun log' => log' = log) (getExpCount cam >>= f) R E :=
  total_ask_bind h

theorem total_handle (lastExpCount : Int) :
    Total (fun log' => log' = log) (handleExpCountChange cam opts lastExpCount)
      (fun out log' => handled cam opts lastExpCount log = .ok out.2 ∧
        log' = handledLog cam opts lastExpCount log)
      fun _ => ∃ e, handled cam opts lastExpCount log = .error e := by
  rw [handleExpCountChange, handled, handledLog]
  apply total_expCount_bind
  by_cases h : lastExpCount = expCount cam log ∨ opts.filedummy = false
  · have hsame : Unchanged cam opts lastExpCount log := h
    rw [if_pos h, if_pos hsame, if_pos hsame]
    exact total_pure fun log' hlog => ⟨rfl, hlog⟩
  · have hchanged : ¬Unchanged cam opts lastExpCount log := h
    rw [if_neg h, if_neg hchanged, if_neg hchanged]
    apply total_askOrFail_bind
    · exact fun err herr => total_pure fun log' hlog => ⟨herr, hlog⟩
    · exact fun e he => ⟨e, he⟩

theorem total_gone (htarget : ∀ log, cam.answer log .getUsbCaptureTarget ≠ (0 : Int))
    {E : List Done → Prop} : Total (fun log' => log' = log) (captureCancelled cam)
      (fun gone log' => gone = false ∧ log' = targetLog cam log) E := by
  rw [captureCancelled, targetLog]
  split
  · apply total_ask_bind
    exact total_pure fun log' hlog => ⟨decide_eq_false (htarget log), hlog⟩
  · exact total_pure fun log' hlog => ⟨rfl, hlog⟩

/-- What holds when a pass goes on: it has not come to a way out, and it has set the error if too
much time has gone. -/
structure GoesOn (cam : Camera) (opts : Opts) (time : List Done → Int) (p q : State × List Done) :
    Prop where
  stays : ¬Exits cam opts p
  later : time p.2 < time q.2
  heard : heard q.2 = heard p.2 + if message cam p.2 = none then 0 else 1
  lastMsg : message cam p.2 = none → q.1.lastMsg = p.1.lastMsg
  checked : ∃ before, q.2 = before ++ [⟨.getTickCount, time before⟩] ∧ time p.2 < time before
  errmsg : Overdue opts q → q.1.errmsg = some timedOut

/-- What holds when a pass is over. -/
def PassEnd (cam : Camera) (opts : Opts) (time : List Done → Int) (p : State × List Done) :
    State ⊕ Option LuaString → List Done → Prop
  | .inl state, log => GoesOn cam opts time p (state, log)
  | .inr _, _ => Exits cam opts p

theorem time_read (hadv : Advances cam time) (log : List Done) :
    time log < time (asked cam log (.readUsbMsg 10)) := hadv.wait log 10 _ (by decide)

theorem heard_read (log : List Done) : heard (asked cam log (.readUsbMsg 10)) =
    heard log + if message cam log = none then 0 else 1 := by
  rw [heard, heard, asked, List.countP_append, List.countP_singleton, message]
  congr 1
  cases (cam.answer log (.readUsbMsg 10) : Option LuaString) with
  | none => rfl
  | some msg => rfl

theorem overdue_snoc {state : State} {now : Int} :
    Overdue opts (state, log ++ [⟨.getTickCount, now⟩]) ↔
      now - state.lastMsg > opts.shootHookTimeout := by
  constructor
  · rintro ⟨before, now', heq, hover⟩
    obtain ⟨-, hnow⟩ := List.append_inj' heq rfl
    cases hnow
    exact hover
  · exact fun hover => ⟨log, now, rfl, hover⟩

/-- The end of a pass, where it has read its message. -/
theorem total_checkTimeout (hadv : Advances cam time) {p : State × List Done} {state : State}
    (hstays : ¬Exits cam opts p) (hlast : message cam p.2 = none → state.lastMsg = p.1.lastMsg) :
    Total (Behind time (asked cam p.2 (.readUsbMsg 10))) (checkTimeout cam opts state)
      (PassEnd cam opts time p) fun _ => Exits cam opts p := by
  apply total_from
  intro log hbehind
  rw [checkTimeout]
  apply total_tick_bind hadv
  have htick : asked cam log .getTickCount = log ++ [⟨.getTickCount, time log⟩] := by
    rw [asked, hadv.tick log]
  have hend : ∀ state' : State, state'.lastMsg = state.lastMsg →
      (time log - state.lastMsg > opts.shootHookTimeout → state'.errmsg = some timedOut) →
      GoesOn cam opts time p (state', asked cam log .getTickCount) := by
    intro state' hsame herrmsg
    have hmono := hadv.asked log .getTickCount
    have hread : time p.2 < time (asked cam p.2 (.readUsbMsg 10)) := time_read hadv p.2
    have htime := hbehind.time
    refine ⟨hstays, ?_, ?_, fun hnone => hsame.trans (hlast hnone), ⟨log, htick, by omega⟩, ?_⟩
    · change time p.2 < time (asked cam log .getTickCount)
      omega
    · have hasked : Behind time _ (asked cam log .getTickCount) := hbehind.asked hadv trivial
      rw [hasked.heard, heard_read]
    · rw [htick, overdue_snoc, hsame]
      exact herrmsg
  split
  · exact total_pure fun log' hlog => hlog ▸ hend _ rfl fun _ => rfl
  · next hover => exact total_pure fun log' hlog => hlog ▸ hend _ rfl fun h => absurd h hover

theorem time_sleep (hsilent : Silent cam time messages) (log : List Done) :
    time log < time (asked cam log (.sleep 10)) := hsilent.sleep log 10 _ (by decide)

/-- The wait of `handle_last_filedummy` ends. -/
theorem total_handleLast (hsilent : Silent cam time messages) (lastExpCount : Int) :
    Total (fun _ => True) (handleLastFiledummy cam opts lastExpCount) (fun _ _ => True)
      fun _ => True := by
  have hadv := hsilent.toAdvances
  rw [handleLastFiledummy]
  split
  · apply total_from
    intro log _
    apply total_tick_bind hadv
    have hloop : Total (fun _ => True)
        (loop (lastPass cam (time log + 5000) lastExpCount) ⟨⟩) (fun _ _ => True)
        fun _ => True := by
      apply total_loop (fun _ _ => True) fun _ log' => (time log + 5000 - time log').toNat
      intro x m
      apply total_from
      rintro log' ⟨-, hm⟩
      rw [lastPass]
      apply total_tick_bind hadv
      split
      · next hwait =>
        apply total_expCount_bind
        split
        · apply total_ask_bind
          apply total_pure
          rintro log'' rfl
          refine ⟨trivial, ?_⟩
          have htick := hadv.asked log' .getTickCount
          have hexp := hadv.asked (asked cam log' .getTickCount) .getExpCount
          have hsleep := time_sleep hsilent (asked cam (asked cam log' .getTickCount) .getExpCount)
          change (time log + 5000 - time _).toNat < m
          change (time log + 5000 - time log').toNat = m at hm
          omega
        · exact total_pure fun _ _ => trivial
      · exact total_pure fun _ _ => trivial
    apply Total.bind (hloop.conseq (fun _ _ => trivial) (fun _ _ h => h) fun _ h => h)
    intro _
    apply Total.bind
    · apply total_from
      intro log' _
      exact (total_handle lastExpCount).conseq (fun _ h => h) (fun _ _ _ => trivial)
        fun _ _ => trivial
    · intro _
      exact total_pure fun _ h => h
  · exact total_pure fun _ h => h

theorem total_otherCommand (hadv : Advances cam time) (log : List Done) (msg : LuaString) :
    Total (fun log' => log' = log) (otherCommand cam msg)
      (fun _ log' => Behind time log log' ∧ ¬((∃ cmd ∈ cmds, cmdOf msg = some cmd) ∧
        ∃ e, cam.answer log (.command msg) = .error e))
      fun _ => (∃ cmd ∈ cmds, cmdOf msg = some cmd) ∧
        ∃ e, cam.answer log (.command msg) = .error e := by
  rw [otherCommand]
  split
  · next hcmd =>
    apply total_askOrFail_at
    · intro a ha
      refine ⟨Behind.refl.asked hadv (q := .command msg) trivial, ?_⟩
      rintro ⟨-, e, he⟩
      cases ha.symm.trans he
    · exact fun e he => ⟨hcmd, e, he⟩
  · next hcmd =>
    apply total_act
    rintro log' rfl
    exact ⟨Behind.refl.asked hadv (q := .writeUsbMsg (unknown msg)) trivial, fun h => hcmd h.1⟩

theorem not_ending_shoot {log : List Done} {msg : LuaString} (h : cmdOf msg = some (bytes ['s'])) :
    ¬Ending cam log msg := by
  have hother : bytes ['s'] ≠ bytes ['l'] ∧ bytes ['s'] ≠ bytes ['q'] ∧
      ∀ cmd ∈ cmds, bytes ['s'] ≠ cmd := by decide
  rw [Ending, h]
  rintro (hl | hq | ⟨⟨cmd, hcmd, heq⟩, -⟩)
  · exact hother.1 (Option.some.inj hl)
  · exact hother.2.1 (Option.some.inj hq)
  · exact hother.2.2 cmd hcmd (Option.some.inj heq)

theorem total_command (hsilent : Silent cam time messages) {p : State × List Done}
    {msg : LuaString} (hmsg : message cam p.2 = some msg)
    (hhandled : handled cam opts p.1.lastExpCount (asked cam p.2 (.readUsbMsg 10)) = .ok none)
    (state : State) :
    Total (fun log' => log' = commandLog cam opts p) (command cam opts msg state)
      (PassEnd cam opts time p) fun _ => Exits cam opts p := by
  have hadv := hsilent.toAdvances
  have hexits : Ending cam (commandLog cam opts p) msg → Exits cam opts p :=
    fun h => .inr ⟨msg, hmsg, h⟩
  have hstays : ¬Ending cam (commandLog cam opts p) msg → ¬Exits cam opts p := by
    rintro h (hfails | ⟨msg', hmsg', hending⟩)
    · exact hfails hhandled
    · cases hmsg.symm.trans hmsg'
      exact h hending
  have hbehind : Behind time (asked cam p.2 (.readUsbMsg 10)) (commandLog cam opts p) :=
    ((behind_handledLog hadv _).trans (behind_targetLog hadv)).asked hadv (q := .getTickCount)
      trivial
  have hcheck : ¬Ending cam (commandLog cam opts p) msg →
      Total (Behind time (asked cam p.2 (.readUsbMsg 10))) (checkTimeout cam opts state)
        (PassEnd cam opts time p) fun _ => Exits cam opts p := fun h =>
    total_checkTimeout hadv (hstays h) fun hnone => absurd (hmsg.symm.trans hnone) nofun
  rw [command]
  split
  · next hs =>
    apply total_ask_bind
    refine (hcheck (not_ending_shoot hs)).conseq ?_ (fun _ _ h => h) fun _ h => h
    rintro log' rfl
    exact hbehind.asked hadv (q := .click .shootFullOnly) trivial
  · split
    · next hl =>
      apply total_ask_bind
      have hlast :
          Total (fun log' => log' = asked cam (commandLog cam opts p) (.click .shootFullOnly))
          (handleLastFiledummy cam opts state.lastExpCount) (fun _ _ => True)
          fun _ => Exits cam opts p :=
        (total_handleLast hsilent _).conseq (fun _ _ => trivial) (fun _ _ h => h)
          fun _ _ => hexits (.inl hl)
      apply hlast.bind
      intro _
      exact total_pure fun _ _ => hexits (.inl hl)
    · next hl =>
      split
      · next hq => exact total_pure fun _ _ => hexits (.inr (.inl hq))
      · next hq =>
        have hother : Total (fun log' => log' = commandLog cam opts p) (otherCommand cam msg)
            (fun _ log' => Behind time (asked cam p.2 (.readUsbMsg 10)) log' ∧
              ¬Ending cam (commandLog cam opts p) msg) fun _ => Exits cam opts p := by
          refine (total_otherCommand hadv (commandLog cam opts p) msg).conseq (fun _ h => h) ?_ ?_
          · rintro _ log' ⟨hlater, hnot⟩
            exact ⟨hbehind.trans hlater, not_or.mpr ⟨hl, not_or.mpr ⟨hq, hnot⟩⟩⟩
          · exact fun _ h => hexits (.inr (.inr h))
        apply hother.bind
        intro _
        apply Total.assume
        exact hcheck

theorem total_singlePass (hsilent : Silent cam time messages) (p : State × List Done) :
    Total (fun log' => log' = p.2) (singlePass cam opts p.1) (PassEnd cam opts time p)
      fun _ => Exits cam opts p := by
  have hadv := hsilent.toAdvances
  rw [singlePass]
  apply total_ask_bind (q := .readUsbMsg 10)
  have hhandle : Total (fun log' => log' = asked cam p.2 (.readUsbMsg 10))
      (handleExpCountChange cam opts p.1.lastExpCount)
      (fun out log' =>
        log' = handledLog cam opts p.1.lastExpCount (asked cam p.2 (.readUsbMsg 10)) ∧
        handled cam opts p.1.lastExpCount (asked cam p.2 (.readUsbMsg 10)) = .ok out.2)
      fun _ => Exits cam opts p := by
    refine (total_handle p.1.lastExpCount).conseq (fun _ h => h) (fun _ _ h => ⟨h.2, h.1⟩) ?_
    rintro _ ⟨e, he⟩
    exact .inl (he ▸ nofun)
  apply hhandle.bind
  rintro ⟨exp, err⟩
  apply Total.assume
  intro hhandled
  split
  · next herr =>
    refine total_pure fun _ _ => .inl ?_
    rw [hhandled]
    exact fun h => herr (Except.ok.inj h)
  · next herr =>
    obtain rfl : err = none := of_not_not herr
    apply (total_gone hsilent.target).bind
    intro gone
    apply total_from
    rintro log ⟨rfl, rfl⟩
    rw [if_neg (by decide)]
    have hread : (cam.answer p.2 (.readUsbMsg 10) : Option LuaString) = message cam p.2 := rfl
    rw [hread]
    cases hmsg : message cam p.2 with
    | none =>
      have hstays : ¬Exits cam opts p := by
        rintro (hfails | ⟨msg, hmsg', -⟩)
        · exact hfails hhandled
        · cases hmsg.symm.trans hmsg'
      refine (total_checkTimeout hadv hstays ?_).conseq ?_ (fun _ _ h => h) fun _ h => h
      · exact fun _ => rfl
      · rintro log rfl
        exact (behind_handledLog hadv _).trans (behind_targetLog hadv)
    | some msg =>
      rw [afterChecks]
      apply total_tick_bind hadv
      exact total_command hsilent hmsg hhandled _

theorem goes_or_exits (hsilent : Silent cam time messages) (p : State × List Done) :
    (∃ q, Goes (singlePass cam opts) p q ∧ GoesOn cam opts time p q) ∨
      Exits cam opts p ∧ (∃ r, Leaves (singlePass cam opts) p r) ∧
        ∀ q, ¬Goes (singlePass cam opts) p q := by
  obtain ⟨out, hout, hpost⟩ := total_singlePass hsilent p p.2 rfl
  have hnot : ∀ q, Goes (singlePass cam opts) p q → out = .ok (.inl q.1) q.2 :=
    fun q hq => Fuelled.Yields.unique hout hq
  cases out with
  | error e log =>
    exact .inr ⟨hpost, ⟨_, _, hout, Fuelled.yields_pure.mpr rfl⟩, fun q hq => by cases hnot q hq⟩
  | ok a log =>
    cases a with
    | inl state => exact .inl ⟨(state, log), hout, hpost⟩
    | inr errmsg =>
      exact .inr ⟨hpost, ⟨_, _, hout, Fuelled.yields_pure.mpr rfl⟩, fun q hq => by cases hnot q hq⟩

theorem goesOn_of_goes (hsilent : Silent cam time messages) {p q : State × List Done}
    (h : Goes (singlePass cam opts) p q) : GoesOn cam opts time p q := by
  obtain ⟨q', hq', hgoes⟩ | ⟨-, -, hnot⟩ := goes_or_exits hsilent p
  · exact hq'.unique h ▸ hgoes
  · exact absurd h (hnot q)

theorem exits_of_leaves (hsilent : Silent cam time messages) {p : State × List Done}
    {r : EStateM.Result LuaString (List Done) (Option LuaString)}
    (h : Leaves (singlePass cam opts) p r) : Exits cam opts p := by
  obtain ⟨out, hout, hr⟩ := h
  obtain ⟨q, hgoes, -⟩ | ⟨hexits, -⟩ := @goes_or_exits _ opts _ _ hsilent p
  · cases Fuelled.Yields.unique hout hgoes
    cases Fuelled.yields_pure.mp hr
  · exact hexits

end Passes

/-! ## The timeout -/

section Timeout

variable (cam : Camera) (opts : Opts)

/-- The first pass. -/
def start (lastExpCount : Int) (log : List Done) : State × List Done :=
  (⟨cam.answer log .getTickCount, lastExpCount, none⟩, asked cam log .getTickCount)

def Released : EStateM.Result LuaString (List Done) (Option LuaString) → Prop
  | .ok _ log => ∃ before r, log = before ++ [⟨.release .shootHalf, r⟩]
  | .error _ _ => True

/-- The loop is left, and no pass that finds that too much time has gone goes on; the key is
released. -/
def LeftInTime (lastExpCount : Int) (log : List Done) : Prop :=
  (∃ r, (rsintRunSingle cam opts lastExpCount log).Yields r ∧ Released r) ∧
    ∀ p q, ReflTransGen (Goes (singlePass cam opts)) (start cam lastExpCount log) p →
      Goes (singlePass cam opts) p q → ¬Overdue opts q

def InTime (p q : State × List Done) : Prop := Goes (singlePass cam opts) p q ∧ ¬Overdue opts q

/-- A pass is left by another way out before too much time has gone. -/
def ExitsFirst (lastExpCount : Int) (log : List Done) : Prop :=
  ∃ p, ReflTransGen (InTime cam opts) (start cam lastExpCount log) p ∧ Exits cam opts p

/-- The time is noticed, but the loop goes on. -/
def Overlooked (lastExpCount : Int) (log : List Done) : Prop :=
  ∃ p q, ReflTransGen (Goes (singlePass cam opts)) (start cam lastExpCount log) p ∧
    Goes (singlePass cam opts) p q ∧ Overdue opts q ∧ q.1.errmsg = some timedOut

variable {cam opts} {time : List Done → Int} {messages : Nat} {lastExpCount : Int}
  {log : List Done}

/-- What is done behind the loop. -/
def release (cam : Camera) (errmsg : Option LuaString) : CamScript (Option LuaString) := do
  ask cam (.release .shootHalf)
  pure errmsg

theorem rsintRunSingle_eq : rsintRunSingle cam opts lastExpCount log =
    (loop (singlePass cam opts) (start cam lastExpCount log).1 >>= release cam)
      (start cam lastExpCount log).2 := rfl

/-- When the loop is left, the key is released. -/
theorem yields_rsintRunSingle :
    (∃ r, (rsintRunSingle cam opts lastExpCount log).Yields r ∧ Released r) ↔
      ∃ p r, ReflTransGen (Goes (singlePass cam opts)) (start cam lastExpCount log) p ∧
        Leaves (singlePass cam opts) p r := by
  rw [rsintRunSingle_eq]
  constructor
  · rintro ⟨r, hr, -⟩
    obtain ⟨r', hr', -⟩ := yields_andThen.mp hr
    obtain ⟨p, hp, hleaves⟩ := yields_loop.mp hr'
    exact ⟨p, r', hp, hleaves⟩
  · rintro ⟨p, r, hp, hleaves⟩
    have hend : ∃ r', (andThen (release cam) r).Yields r' ∧ Released r' := by
      cases r with
      | ok errmsg log => exact ⟨_, Fuelled.yields_pure.mpr rfl, log, _, rfl⟩
      | error e log => exact ⟨_, Fuelled.yields_pure.mpr rfl, trivial⟩
    obtain ⟨r', hr', hreleased⟩ := hend
    exact ⟨r', yields_andThen.mpr ⟨r, yields_loop.mpr ⟨p, hp, hleaves⟩, hr'⟩, hreleased⟩

/-- As long as no way out comes, the time is noticed at last. -/
theorem overdue_comes (hsilent : Silent cam time messages)
    (hstays : ¬ExitsFirst cam opts lastExpCount log) (left : Nat) (p : State × List Done)
    (hp : ReflTransGen (InTime cam opts) (start cam lastExpCount log) p)
    (hleft : messages - heard p.2 = left) :
    ∃ p q, ReflTransGen (InTime cam opts) (start cam lastExpCount log) p ∧
      Goes (singlePass cam opts) p q ∧ Overdue opts q := by
  induction left using Nat.strong_induction_on generalizing p with
  | _ left ih =>
    -- the time that is left until too much has gone since the last message
    induction hrest : (p.1.lastMsg + opts.shootHookTimeout - time p.2).toNat
      using Nat.strong_induction_on generalizing p with
    | _ rest ihrest =>
      obtain ⟨q, hgoes, hon⟩ | ⟨hexits, -⟩ := goes_or_exits hsilent p
      · by_cases hover : Overdue opts q
        · exact ⟨p, q, hp, hgoes, hover⟩
        · have hq : ReflTransGen (InTime cam opts) (start cam lastExpCount log) q :=
            hp.tail ⟨hgoes, hover⟩
          have hheard := hon.heard
          cases hmsg : message cam p.2 with
          | none =>
            rw [hmsg, if_pos rfl] at hheard
            obtain ⟨before, hend, htime⟩ := hon.checked
            have hlimit : time before - q.1.lastMsg ≤ opts.shootHookTimeout :=
              Int.not_lt.mp fun h => hover ⟨before, time before, hend, h⟩
            have hlater := hon.later
            rw [hon.lastMsg hmsg] at hlimit
            refine ihrest _ ?_ q hq (by omega) rfl
            rw [hon.lastMsg hmsg]
            omega
          | some msg =>
            rw [hmsg, if_neg nofun] at hheard
            have hless : heard p.2 < messages := by
              by_contra hle
              cases (hsilent.silent p.2 10 (Nat.not_lt.mp hle)).symm.trans hmsg
            exact ih (messages - heard q.2) (by omega) q hq rfl
      · exact absurd ⟨p, hp, hexits⟩ hstays

theorem silent_steady : Silent (steady none false) (fun log => log.length) 0 where
  toAdvances := advances_steady none false
  sleep log ms r _ := by
    rw [List.length_append, List.length_singleton]
    omega
  target _ := nofun
  silent _ _ _ := rfl

def patient : Opts := ⟨false, 1000⟩

theorem not_exits_steady (p : State × List Done) : ¬Exits (steady none false) patient p := by
  rintro (hfails | ⟨msg, hmsg, -⟩)
  · exact hfails (if_pos (.inr rfl))
  · cases hmsg

end Timeout

end RsintSingle
