import Chdkptp.CameraCalls
import Mathlib.Logic.Function.Iterate

/-!
# Remote shooting

The four ways in which `rs_shoot` takes its shots on the camera. Their loops end by the time, the
shots or the message `quit`, except for the loop of `rs_shoot_multi_init` that waits for the camera
to be ready: it has no timeout, and the message that ends it is `stop`.
-/

namespace RsShoot

open LuaValue LuaText Scripts CameraCalls

/-- The options, with what `rs_shoot` sets where they are not given. -/
structure Opts where
  cont : Bool
  quick : Bool
  filedummy : Bool
  int : Int
  shots : Int
  expCountTimeout : Int
  shootHookTimeout : Int

/-- The options that are passed in. -/
structure OptsIn where
  cont : Bool
  quick : Bool
  filedummy : Bool
  int : Option Int
  shots : Option Int
  expCountTimeout : Option Int
  shootHookTimeout : Option Int

def withDefaults (opts : OptsIn) : Opts where
  cont := opts.cont
  quick := opts.quick
  filedummy := opts.filedummy
  int := opts.int.getD 0
  shots := opts.shots.getD 1
  expCountTimeout := opts.expCountTimeout.getD 5000
  shootHookTimeout :=
    if opts.shootHookTimeout.getD 10000 ≤ opts.int.getD 0 then opts.int.getD 0 + 100
    else opts.shootHookTimeout.getD 10000

/-- `state` -/
structure State where
  lastExpCount : Int
  shots : Int
  hookShootCount : Option Int

def stop : LuaString := bytes "stop".toList

section Camera

variable (cam : Camera) (opts : Opts)

/-- `rs_do_filedummy` -/
def doFiledummy : CamScript PUnit :=
  whenever opts.filedummy (askOrFail cam .shootFiledummy fun r => r.map fun _ => ⟨⟩)

/-- Wait for a message until a time, if it has not come yet; `false` is returned on `quit`. -/
def waitUntil (tnext : Int) : CamScript Bool := do
  let now ← getTickCount cam
  if tnext - now > 0 then
    let m ← readUsbMsg cam (tnext - now)
    pure (m ≠ some quit)
  else pure true

/-- One pass of the loop in `rs_shoot_full`. -/
def fullPass (shot : Int) : CamScript (Int ⊕ PUnit) := do
  let now ← getTickCount cam
  let tnext := now + opts.int
  ask cam .shoot
  doFiledummy cam opts
  if shot + 1 ≥ opts.shots then pure (.inr ⟨⟩)
  else
    let now ← getTickCount cam
    let m ← readUsbMsg cam (if tnext - now < 0 then 0 else tnext - now)
    if m = some quit then pure (.inr ⟨⟩) else pure (.inl (shot + 1))

/-- `rs_shoot_full` -/
def shootFull : CamScript PUnit := loop (fullPass cam opts) 0

/-- One pass of the loop in `rs_shoot_multi_init`. -/
def initPass (_ : PUnit) : CamScript (PUnit ⊕ Option LuaString) := do
  let m ← readUsbMsg cam 10
  let shooting : Bool ← ask cam .getShooting
  if shooting ∨ m = some stop then pure (.inr m) else pure (.inl ⟨⟩)

/-- `rs_shoot_multi_init` behind its loop. -/
def initState (exp : Int) (m : Option LuaString) : CamScript (Option State) :=
  if m = some stop then do
    ask cam (.release .shootHalf)
    pure none
  else do
    ask cam (.sleep 20)
    pure (some ⟨exp, 0, none⟩)

/-- `rs_shoot_multi_init` -/
def multiInit : CamScript (Option State) := do
  let exp ← getExpCount cam
  ask cam (.press .shootHalf)
  let m ← loop (initPass cam) ⟨⟩
  initState cam exp m

/-- `if not state then return end`, and what follows. -/
def ifReady (shots : State → CamScript PUnit) : Option State → CamScript PUnit
  | none => pure ⟨⟩
  | some state => shots state

/-- `state.wait_callback`, which returns whether to go on. -/
abbrev Callback := State → CamScript (Bool × State)

/-- A pass of the loop in `rs_shoot_multi_wait` behind the callback. -/
def waitOn (t0 : Int) (state : State) : CamScript (State ⊕ Bool × State) := do
  let m ← readUsbMsg cam 10
  if m = some quit then pure (.inr (false, state))
  else
    let exp ← getExpCount cam
    if state.lastExpCount ≠ exp then
      pure (.inr (true, { state with shots := state.shots + 1, lastExpCount := exp }))
    else
      let now ← getTickCount cam
      if now - t0 > opts.expCountTimeout then pure (.inr (false, state))
      else
        let cancelled ← captureCancelled cam
        if cancelled then pure (.inr (false, state)) else pure (.inl state)

/-- One pass of the loop in `rs_shoot_multi_wait`. -/
def waitPass (callback : Option Callback) (t0 : Int) (state : State) :
    CamScript (State ⊕ Bool × State) :=
  match callback with
  | none => waitOn cam opts t0 state
  | some callback => do
    let out ← callback state
    if out.1 then waitOn cam opts t0 out.2 else pure (.inr (false, out.2))

/-- `rs_shoot_multi_wait` -/
def multiWait (callback : Option Callback) (state : State) : CamScript (Bool × State) := do
  let t0 ← getTickCount cam
  loop (waitPass cam opts callback t0) state

/-- One pass of the loop in `rs_shoot_wait_hook`. -/
def hookPass (t0 : Int) (_ : PUnit) : CamScript (PUnit ⊕ Bool) := do
  let m ← readUsbMsg cam 10
  if m = some quit then pure (.inr false)
  else
    let now ← getTickCount cam
    if now - t0 > opts.expCountTimeout then pure (.inr false)
    else
      let ready : Bool ← ask cam .hookIsReady
      if ready then pure (.inr true) else pure (.inl ⟨⟩)

/-- `rs_shoot_wait_hook` -/
def waitHook : CamScript Bool := do
  let t0 ← getTickCount cam
  loop (hookPass cam opts t0) ⟨⟩

/-- The wait for the interval, if there was a shot before. -/
def waitInterval : Option Int → CamScript Bool
  | none => pure true
  | some lastShotTick => waitUntil cam (lastShotTick + opts.int)

/-- One pass of the loop in `rs_shoot_cont_hook`, with `last_shot_tick`. -/
def contHookPass (p : State × Option Int) : CamScript ((State × Option Int) ⊕ PUnit) := do
  let ready ← waitHook cam opts
  if !ready then pure (.inr ⟨⟩)
  else
    -- if final shot, release immediately after hook to prevent extra shots
    whenever (p.1.shots = opts.shots - 1) (ask cam (.release .shootFull))
    let go ← waitInterval cam opts p.2
    if !go then pure (.inr ⟨⟩)
    else
      let lastShotTick ← getTickCount cam
      ask cam .hookContinue
      let out ← multiWait cam opts none p.1
      if !out.1 then pure (.inr ⟨⟩)
      else
        doFiledummy cam opts
        if out.2.shots ≥ opts.shots then pure (.inr ⟨⟩)
        else pure (.inl (out.2, some lastShotTick))

/-- `rs_shoot_cont_hook` behind its initialisation. -/
def contHookShots (state : State) : CamScript PUnit := do
  ask cam (.press .shootFull)
  loop (contHookPass cam opts) (state, none)
  ask cam (.hookSet 0)
  ask cam (.release .shootFull)

def noHook : LuaString := bytes "attempt to index global 'hook_shoot' (a nil value)".toList

/-- `rs_shoot_cont_hook` -/
def shootContHook : CamScript PUnit :=
  if cam.hookShoot then do
    ask cam (.hookSet opts.shootHookTimeout)
    let state ← multiInit cam
    ifReady (contHookShots cam opts) state
  else fail noHook

/-- What the callbacks do: they release a key when the hook has been reached again. -/
def onHook (key : Key) (last : State → Bool) : Callback := fun state => do
  let c : Int ← ask cam .hookCount
  if state.hookShootCount ≠ some c then
    whenever (last state) (ask cam (.release key))
    pure (true, { state with hookShootCount := some c })
  else pure (true, state)

/-- If shoot hooks are available, how the key is released. -/
def callbackOf (key : Key) (last : State → Bool) : Option Callback :=
  if cam.hookShoot then some (onHook cam key last) else none

/-- `state.hook_shoot_count = hook_shoot.count()`, if shoot hooks are available. -/
def countHook (state : State) : CamScript State :=
  if cam.hookShoot then do
    let c : Int ← ask cam .hookCount
    pure { state with hookShootCount := some c }
  else pure state

/-- One pass of the loop in `rs_shoot_cont`. -/
def contPass (state : State) : CamScript (State ⊕ PUnit) := do
  let out ← multiWait cam opts
    (callbackOf cam .shootFull fun state => state.shots ≥ opts.shots - 1) state
  if !out.1 then pure (.inr ⟨⟩)
  else
    doFiledummy cam opts
    if out.2.shots ≥ opts.shots then pure (.inr ⟨⟩) else pure (.inl out.2)

/-- `rs_shoot_cont` behind its initialisation. -/
def contShots (state : State) : CamScript PUnit := do
  let state ← countHook cam state
  ask cam (.press .shootFull)
  loop (contPass cam opts) state
  ask cam (.release .shootFull)

/-- `rs_shoot_cont` -/
def shootCont : CamScript PUnit := do
  let state ← multiInit cam
  ifReady (contShots cam opts) state

/-- One pass of the loop in `rs_shoot_quick`. -/
def quickPass (state : State) : CamScript (State ⊕ PUnit) := do
  let now ← getTickCount cam
  let tnext := now + opts.int
  let state ← countHook cam state
  ask cam (.press .shootFullOnly)
  let out ← multiWait cam opts (callbackOf cam .shootFullOnly fun _ => true) state
  ask cam (.release .shootFullOnly)
  doFiledummy cam opts
  if out.2.shots ≥ opts.shots ∨ out.1 = false then pure (.inr ⟨⟩)
  else
    let go ← waitUntil cam tnext
    if go then pure (.inl out.2) else pure (.inr ⟨⟩)

/-- `rs_shoot_quick` behind its initialisation. -/
def quickShots (state : State) : CamScript PUnit := do
  loop (quickPass cam opts) state
  ask cam (.release .shootHalf)

/-- `rs_shoot_quick` -/
def shootQuick : CamScript PUnit := do
  let state ← multiInit cam
  ifReady (quickShots cam opts) state

/-- The modes of `rs_shoot`. -/
def shootMode : CamScript PUnit :=
  if opts.cont then
    if opts.int > 0 then shootContHook cam opts else shootCont cam opts
  else if opts.quick then shootQuick cam opts
  else shootFull cam opts

end Camera

/-- `rs_shoot` -/
def rsShoot (cam : Camera) (opts : OptsIn) : CamScript PUnit := do
  askOrFail cam .shootInitExp id
  shootMode cam (withDefaults opts)

/-! ## The waits -/

section Waits

variable {cam : Camera} {opts : Opts} {time : List Done → Int} {q l : Prop} {t : Int}
  {E : List Done → Prop}

/-- No late shot has been added, and if the shots go on then `quit` has not been read. -/
def Going (time : List Done → Int) (q l : Prop) (t : Int) (go : Bool) (log : List Done) : Prop :=
  (LateStart log ↔ l) ∧ (go = true → At time q l t log)

theorem going_true {log : List Done} (h : At time q l t log) : Going time q l t true log :=
  ⟨h.late, fun _ => h⟩

theorem going_false {log : List Done} (h : LateStart log ↔ l) : Going time q l t false log :=
  ⟨h, nofun⟩

theorem plain_filedummy : Plain .shootFiledummy := fun _ => ⟨not_false, not_false⟩

theorem total_doFiledummy (hadv : Advances cam time) :
    Total (At time q l t) (doFiledummy cam opts) (fun _ => At time q l t) (At time q l t) :=
  total_whenever (fun _ => total_askOrFail hadv plain_filedummy) fun _ _ h => h

theorem total_waitUntil (hadv : Advances cam time) (tnext : Int) :
    Total (At time q l t) (waitUntil cam tnext) (Going time q l t) E := by
  rw [waitUntil]
  apply (total_getTickCount hadv).bind
  intro now
  apply Total.assume
  intro hnow
  split
  · next hwait =>
    apply total_read_bind (total_wait hadv hwait)
    · rw [show decide (some quit ≠ some quit) = false from by simp]
      exact total_pure fun log h => going_false h
    · intro m hm
      rw [decide_eq_true hm]
      exact total_pure fun log h => going_true (h.congr Iff.rfl Iff.rfl (by omega))
  · exact total_pure fun log h => going_true (h.congr Iff.rfl Iff.rfl hnow)

theorem total_waitInterval (hadv : Advances cam time) (lastShotTick : Option Int) :
    Total (At time q l t) (waitInterval cam opts lastShotTick) (Going time q l t) E := by
  cases lastShotTick with
  | none => exact total_pure fun log h => going_true h
  | some lastShotTick => exact total_waitUntil hadv _

/-- A callback that reads no messages, starts no shots and keeps their number. -/
def Quiet (time : List Done → Int) (callback : Callback) : Prop :=
  ∀ (q l : Prop) (t : Int) (E : List Done → Prop) (state : State),
    Total (At time q l t) (callback state)
      (fun out log => At time q l t log ∧ out.2.shots = state.shots) E

theorem quiet_onHook (hadv : Advances cam time) (key : Key) (last : State → Bool) :
    Quiet time (onHook cam key last) := by
  intro q l t E state
  rw [onHook]
  have hcount : Plain .hookCount := fun _ => ⟨not_false, not_false⟩
  have hrelease : Plain (.release key) := fun _ => ⟨not_false, not_false⟩
  apply (total_ask hadv hcount).bind
  intro c
  split
  · have hkey : Total (At time q l t) (whenever (last state) (ask cam (.release key)))
        (fun _ => At time q l t) E :=
      total_whenever (fun _ => total_ask hadv hrelease) fun _ _ h => h
    apply hkey.bind
    intro _
    exact total_pure fun log h => ⟨h, rfl⟩
  · exact total_pure fun log h => ⟨h, rfl⟩

theorem quiet_callbackOf (hadv : Advances cam time) (key : Key) (last : State → Bool) :
    ∀ callback, callbackOf cam key last = some callback → Quiet time callback := by
  intro callback hcallback
  rw [callbackOf] at hcallback
  split at hcallback
  · cases hcallback
    exact quiet_onHook hadv key last
  · cases hcallback

/-- What holds after a wait for the exposure counter, in terms of the shots before. -/
def Waited (time : List Done → Int) (q l : Prop) (t shots : Int) (out : Bool × State)
    (log : List Done) : Prop :=
  Going time q l t out.1 log ∧ (out.1 = true → out.2.shots = shots + 1)

/-- What holds after a pass of that wait, which was begun at this time. -/
def WaitedOn (time : List Done → Int) (q l : Prop) (t limit start shots : Int) :
    State ⊕ Bool × State → List Done → Prop
  | .inl state, log => At time q l (start + 1) log ∧ start < limit ∧ state.shots = shots
  | .inr out, log => Waited time q l t shots out log

theorem total_waitOn (hadv : Advances cam time) (t0 : Int) (state : State) {start : Int}
    (hstart : t ≤ start) :
    Total (At time q l start) (waitOn cam opts t0 state)
      (WaitedOn time q l t (t0 + opts.expCountTimeout) start state.shots) E := by
  apply total_read_bind (total_wait hadv (by omega))
  · rw [if_pos rfl]
    exact total_pure fun log h => ⟨going_false h, nofun⟩
  · intro m hm
    rw [if_neg hm]
    have hexp : Plain .getExpCount := fun _ => ⟨not_false, not_false⟩
    apply (total_ask hadv hexp).bind
    intro exp
    split
    · exact total_pure fun log h =>
        ⟨going_true (h.congr Iff.rfl Iff.rfl (by omega)), fun _ => rfl⟩
    · apply (total_getTickCount hadv).bind
      intro now
      apply Total.assume
      intro hnow
      split
      · exact total_pure fun log h => ⟨going_false h.late, nofun⟩
      · next hintime =>
        apply (total_captureCancelled hadv).bind
        intro cancelled
        cases cancelled with
        | true => exact total_pure fun log h => ⟨going_false h.late, nofun⟩
        | false =>
          exact total_pure fun log h => ⟨h.congr Iff.rfl Iff.rfl (by omega), by omega, rfl⟩

theorem total_waitPass (hadv : Advances cam time) {callback : Option Callback}
    (hcallback : ∀ f, callback = some f → Quiet time f) (t0 : Int) (state : State)
    {start : Int} (hstart : t ≤ start) :
    Total (At time q l start) (waitPass cam opts callback t0 state)
      (WaitedOn time q l t (t0 + opts.expCountTimeout) start state.shots) E := by
  cases callback with
  | none => exact total_waitOn hadv t0 state hstart
  | some f =>
    apply (hcallback f rfl q l start E state).bind
    rintro ⟨go, state'⟩
    apply Total.assume
    rintro hshots
    cases go with
    | false => exact total_pure fun log h => ⟨going_false h.late, nofun⟩
    | true => exact hshots ▸ total_waitOn hadv t0 state' hstart

theorem total_multiWait (hadv : Advances cam time) {callback : Option Callback}
    (hcallback : ∀ f, callback = some f → Quiet time f) (state : State) :
    Total (At time q l t) (multiWait cam opts callback state) (Waited time q l t state.shots)
      E := by
  rw [multiWait]
  apply (total_getTickCount hadv).bind
  intro t0
  apply Total.assume
  intro ht0
  let Inv : State → List Done → Prop := fun state' log =>
    At time q l t log ∧ state'.shots = state.shots
  let left : State → List Done → Nat := fun _ log =>
    (t0 + opts.expCountTimeout - time log).toNat
  have hloop : Total (Inv state) (loop (waitPass cam opts callback t0) state)
      (Waited time q l t state.shots) E := by
    apply total_loop Inv left
    intro state' m
    apply total_from
    rintro log ⟨⟨hat, hshots⟩, hleft⟩
    have hpass := @total_waitPass cam opts time q l t E hadv callback hcallback t0 state' _
      hat.time
    refine hpass.conseq ?_ ?_ fun _ h => h
    · rintro log' rfl
      exact ⟨hat.quit, hat.late, Int.le_refl _⟩
    · rintro (state'' | out) log' h
      · obtain ⟨h, hlimit, hsame⟩ := h
        have hstart := hat.time
        have hlater := h.time
        refine ⟨⟨h.congr Iff.rfl Iff.rfl (by omega), hsame.trans hshots⟩, ?_⟩
        change (t0 + opts.expCountTimeout - time log').toNat < m
        change (t0 + opts.expCountTimeout - time log).toNat = m at hleft
        omega
      · exact hshots ▸ h
  exact hloop.conseq (fun log h => ⟨h.congr Iff.rfl Iff.rfl ht0, rfl⟩) (fun _ _ h => h)
    fun _ h => h

/-- What holds after a pass of the wait for the hook, which was begun at this time. -/
def HookedOn (time : List Done → Int) (q l : Prop) (t limit start : Int) :
    PUnit ⊕ Bool → List Done → Prop
  | .inl _, log => At time q l (start + 1) log ∧ start < limit
  | .inr go, log => Going time q l t go log

theorem total_hookPass (hadv : Advances cam time) (t0 : Int) (x : PUnit) {start : Int}
    (hstart : t ≤ start) : Total (At time q l start) (hookPass cam opts t0 x)
      (HookedOn time q l t (t0 + opts.expCountTimeout) start) E := by
  apply total_read_bind (total_wait hadv (by omega))
  · rw [if_pos rfl]
    exact total_pure fun log h => going_false h
  · intro m hm
    rw [if_neg hm]
    apply (total_getTickCount hadv).bind
    intro now
    apply Total.assume
    intro hnow
    split
    · exact total_pure fun log h => going_false h.late
    · have hready : Plain .hookIsReady := fun _ => ⟨not_false, not_false⟩
      apply (total_ask hadv hready).bind
      intro (ready : Bool)
      cases ready with
      | true => exact total_pure fun log h => going_true (h.congr Iff.rfl Iff.rfl (by omega))
      | false => exact total_pure fun log h => ⟨h.congr Iff.rfl Iff.rfl (by omega), by omega⟩

theorem total_waitHook (hadv : Advances cam time) :
    Total (At time q l t) (waitHook cam opts) (Going time q l t) E := by
  rw [waitHook]
  apply (total_getTickCount hadv).bind
  intro t0
  apply Total.assume
  intro ht0
  let left : PUnit → List Done → Nat := fun _ log => (t0 + opts.expCountTimeout - time log).toNat
  have hloop : Total (At time q l t) (loop (hookPass cam opts t0) ⟨⟩) (Going time q l t) E := by
    apply total_loop (fun _ => At time q l t) left
    intro x m
    apply total_from
    rintro log ⟨hat, hleft⟩
    have hpass := @total_hookPass cam opts time q l t E hadv t0 x _ hat.time
    refine hpass.conseq ?_ ?_ fun _ h => h
    · rintro log' rfl
      exact ⟨hat.quit, hat.late, Int.le_refl _⟩
    · rintro (y | go) log' h
      · obtain ⟨h, hlimit⟩ := h
        have hstart := hat.time
        have hlater := h.time
        refine ⟨h.congr Iff.rfl Iff.rfl (by omega), ?_⟩
        change (t0 + opts.expCountTimeout - time log').toNat < m
        change (t0 + opts.expCountTimeout - time log).toNat = m at hleft
        omega
      · exact h
  exact hloop.conseq (fun log h => h.congr Iff.rfl Iff.rfl ht0) (fun _ _ h => h) fun _ h => h

end Waits

/-! ## The shots -/

section Shots

variable {cam : Camera} {opts : Opts} {time : List Done → Int} {q l : Prop} {t : Int}

/-- What holds after a pass of a loop over shots: it goes on with one shot more, and only if `quit`
has not been read. -/
def ShotMore {β : Type} (count : β → Int) (time : List Done → Int) (q l : Prop)
    (t total before : Int) : β ⊕ PUnit → List Done → Prop
  | .inl b, log => At time q l t log ∧ count b = before + 1 ∧ count b < total
  | .inr _, log => LateStart log ↔ l

/-- Such a loop ends. -/
theorem total_shots {β : Type} {body : β → CamScript (β ⊕ PUnit)} (count : β → Int)
    (total : Int) (hbody : ∀ b, Total (At time q l t) (body b)
      (ShotMore count time q l t total (count b)) fun log => LateStart log ↔ l) (b : β) :
    Total (At time q l t) (loop body b) (fun _ log => LateStart log ↔ l)
      fun log => LateStart log ↔ l := by
  apply total_loop (fun _ => At time q l t) fun b _ => (total - count b).toNat
  intro b m
  apply Total.assume
  intro hm
  refine (hbody b).weaken ?_
  rintro (b' | x) log h
  · obtain ⟨h, hmore, hlt⟩ := h
    refine ⟨h, ?_⟩
    change (total - count b').toNat < m
    omega
  · exact h

theorem total_fullPass (hadv : Advances cam time) (shot : Int) :
    Total (At time False False t) (fullPass cam opts shot)
      (ShotMore id time False False t opts.shots shot) fun log => LateStart log ↔ False := by
  rw [fullPass]
  apply (total_getTickCount hadv).bind
  intro now
  apply Total.assume
  intro hnow
  apply (total_start hadv (c := .shoot) (fun _ => trivial) fun _ => not_false).bind
  intro _
  have hstart : Total (At time False (False ∨ False) now) (doFiledummy cam opts)
      (fun _ => At time False False t) fun log => LateStart log ↔ False :=
    (total_doFiledummy hadv).conseq (fun _ h => h)
      (fun _ _ h => h.congr Iff.rfl (or_self_iff) hnow) fun _ h => h.late.trans or_self_iff
  apply hstart.bind
  intro _
  split
  · exact total_pure fun log h => h.late
  · next hmore =>
    apply (total_getTickCount hadv).bind
    intro now'
    apply Total.assume
    intro hnow'
    apply total_read_bind (total_readUsbMsg hadv _)
    · rw [if_pos rfl]
      exact total_pure fun log h => h
    · intro m hm
      rw [if_neg hm]
      exact total_pure fun log h =>
        ⟨h.congr Iff.rfl Iff.rfl hnow', rfl, by simpa using hmore⟩

theorem total_shootFull (hadv : Advances cam time) :
    Total (At time False False t) (shootFull cam opts) (fun _ log => LateStart log ↔ False)
      fun log => LateStart log ↔ False :=
  total_shots id opts.shots (total_fullPass hadv) 0

/-- What follows a wait for the exposure counter that went well. -/
theorem total_afterShot (hadv : Advances cam time) {β : Type} (count : β → Int) (next : State → β)
    {before : Int} {state : State} (hcount : count (next state) = before + 1)
    (hshots : state.shots = before + 1) :
    Total (At time q l t)
      (doFiledummy cam opts >>= fun _ =>
        if state.shots ≥ opts.shots then pure (.inr ⟨⟩) else pure (.inl (next state)))
      (ShotMore count time q l t opts.shots before) fun log => LateStart log ↔ l := by
  have hdummy : Total (At time q l t) (doFiledummy cam opts) (fun _ => At time q l t)
      fun log => LateStart log ↔ l :=
    (total_doFiledummy hadv).conseq (fun _ h => h) (fun _ _ h => h) fun _ h => h.late
  apply hdummy.bind
  intro _
  split
  · exact total_pure fun log h => h.late
  · exact total_pure fun log h => ⟨h, hcount, by omega⟩

theorem total_contPass (hadv : Advances cam time) (state : State) :
    Total (At time q l t) (contPass cam opts state)
      (ShotMore State.shots time q l t opts.shots state.shots) fun log => LateStart log ↔ l := by
  rw [contPass]
  apply (total_multiWait hadv (quiet_callbackOf hadv _ _) state).bind
  rintro ⟨ok, state'⟩
  cases ok with
  | false => exact total_pure fun log h => h.1.1
  | true =>
    apply total_from
    rintro log ⟨hgoing, hshots⟩
    refine (total_afterShot hadv State.shots id (hshots rfl) (hshots rfl)).conseq ?_
      (fun _ _ h => h) fun _ h => h
    rintro log' rfl
    exact hgoing.2 rfl

theorem total_contHookPass (hadv : Advances cam time) (hlate : q → l) (p : State × Option Int) :
    Total (At time q l t) (contHookPass cam opts p)
      (ShotMore (fun p => p.1.shots) time q l t opts.shots p.1.shots)
      fun log => LateStart log ↔ l := by
  rw [contHookPass]
  apply (total_waitHook hadv).bind
  intro ready
  cases ready with
  | false => exact total_pure fun log h => h.1
  | true =>
    rw [if_neg (by simp)]
    have hrelease : Total (At time q l t)
        (whenever (p.1.shots = opts.shots - 1) (ask cam (.release .shootFull)))
        (fun _ => At time q l t) fun log => LateStart log ↔ l :=
      total_whenever (fun _ => total_ask hadv fun _ => ⟨not_false, not_false⟩) fun _ _ h => h
    refine Total.bind (hrelease.conseq (fun log h => h.2 rfl) (fun _ _ h => h) fun _ h => h) ?_
    intro _
    apply (total_waitInterval hadv p.2).bind
    intro go
    cases go with
    | false => exact total_pure fun log h => h.1
    | true =>
      rw [if_neg (by simp)]
      have htick : Total (Going time q l t true) (getTickCount cam)
          (fun _ => At time q l t) fun log => LateStart log ↔ l :=
        (total_getTickCount hadv).conseq (fun log h => h.2 rfl)
          (fun now log h => h.1.congr Iff.rfl Iff.rfl h.2) fun _ h => h
      apply htick.bind
      intro lastShotTick
      have hcontinue : Total (At time q l t) (ask cam .hookContinue) (fun _ => At time q l t)
          fun log => LateStart log ↔ l :=
        (total_start hadv (c := .hookContinue) (fun _ => trivial) fun _ => not_false).weaken
          fun _ log h => h.congr Iff.rfl (or_iff_left_of_imp hlate) (Int.le_refl _)
      apply hcontinue.bind
      intro _
      apply (total_multiWait hadv (fun _ h => by cases h) p.1).bind
      rintro ⟨ok, state⟩
      cases ok with
      | false => exact total_pure fun log h => h.1.1
      | true =>
        apply total_from
        rintro log ⟨hgoing, hshots⟩
        refine (total_afterShot hadv (fun p : State × Option Int => p.1.shots)
          (fun state => (state, some lastShotTick)) (hshots rfl) (hshots rfl)).conseq ?_
          (fun _ _ h => h) fun _ h => h
        rintro log' rfl
        exact hgoing.2 rfl

theorem plain_hookCount : Plain .hookCount := fun _ => ⟨not_false, not_false⟩

theorem total_countHook (hadv : Advances cam time) (state : State) {E : List Done → Prop} :
    Total (At time q l t) (countHook cam state)
      (fun state' log => At time q l t log ∧ state'.shots = state.shots) E := by
  rw [countHook]
  split
  · apply (total_ask hadv plain_hookCount).bind
    intro c
    exact total_pure fun log h => ⟨h, rfl⟩
  · exact total_pure fun log h => ⟨h, rfl⟩

theorem plain_release (key : Key) : Plain (.release key) := fun _ => ⟨not_false, not_false⟩

/-- What neither reads `quit` nor starts shots, wherever it is begun. -/
theorem total_late {α : Type} {x : CamScript α}
    (hx : ∀ (q l : Prop) (t : Int),
      Total (At time q l t) x (fun _ => At time q l t) (At time q l t)) :
    Total (fun log => LateStart log ↔ l) x (fun _ log => LateStart log ↔ l)
      fun log => LateStart log ↔ l := by
  apply total_from
  intro log hlate
  refine (hx (QuitRead log) (LateStart log) (time log)).conseq ?_
    (fun _ _ h => h.late.trans hlate) fun _ h => h.late.trans hlate
  rintro log' rfl
  exact At.of_log log'

/-- Each pass begins with a shot. -/
theorem total_quickPass (hadv : Advances cam time) {l' : Prop} (hlate : l ∨ q ↔ l')
    (state : State) : Total (At time q l t) (quickPass cam opts state)
      (ShotMore State.shots time q l' t opts.shots state.shots) fun log => LateStart log ↔ l' := by
  rw [quickPass]
  have htick : Total (At time q l t) (getTickCount cam) (fun _ => At time q l t)
      fun log => LateStart log ↔ l' :=
    (total_getTickCount hadv).weaken fun now log h => h.1.congr Iff.rfl Iff.rfl h.2
  apply htick.bind
  intro now
  apply (total_countHook hadv state).bind
  intro state'
  apply Total.assume
  intro hsame
  have hpress : Total (At time q l t) (ask cam (.press .shootFullOnly)) (fun _ => At time q l' t)
      fun log => LateStart log ↔ l' :=
    (total_start hadv (c := .press .shootFullOnly) (fun _ => trivial) fun _ => not_false).weaken
      fun _ log h => h.congr Iff.rfl hlate (Int.le_refl _)
  apply hpress.bind
  intro _
  apply (total_multiWait hadv (quiet_callbackOf hadv _ _) state').bind
  rintro ⟨ok, state''⟩
  cases ok with
  | false =>
    have hrelease : Total (Waited time q l' t state'.shots (false, state''))
        (ask cam (.release .shootFullOnly)) (fun _ log => LateStart log ↔ l')
        fun log => LateStart log ↔ l' :=
      (total_late fun _ _ _ => total_ask hadv (plain_release _)).conseq (fun _ h => h.1.1)
        (fun _ _ h => h) fun _ h => h
    apply hrelease.bind
    intro _
    apply (total_late fun _ _ _ => total_doFiledummy hadv).bind
    intro _
    rw [if_pos (.inr rfl)]
    exact total_pure fun log h => h
  | true =>
    apply total_from
    rintro log ⟨hgoing, hshots⟩
    have hmore : state''.shots = state.shots + 1 := (hshots rfl).trans (by rw [hsame])
    have hrelease : Total (fun log' => log' = log) (ask cam (.release .shootFullOnly))
        (fun _ => At time q l' t) fun log => LateStart log ↔ l' :=
      (total_ask hadv (plain_release _)).conseq (by rintro log' rfl; exact hgoing.2 rfl)
        (fun _ _ h => h) fun _ h => h
    apply hrelease.bind
    intro _
    have hdummy : Total (At time q l' t) (doFiledummy cam opts)
        (fun _ => At time q l' t) fun log => LateStart log ↔ l' :=
      (total_doFiledummy hadv).conseq (fun _ h => h) (fun _ _ h => h) fun _ h => h.late
    apply hdummy.bind
    intro _
    split
    · exact total_pure fun log h => h.late
    · next hgo =>
      apply (total_waitUntil hadv _).bind
      intro go
      cases go with
      | false => exact total_pure fun log h => h.1
      | true =>
        exact total_pure fun log h => ⟨h.2 rfl, hmore, by simp at hgo; exact hgo⟩

theorem total_contHookShots (hadv : Advances cam time) (state : State) :
    Total (At time q l t) (contHookShots cam opts state)
      (fun _ log => LateStart log ↔ l ∨ q) fun log => LateStart log ↔ l ∨ q := by
  have hset : Plain (.hookSet 0) := fun _ => ⟨not_false, not_false⟩
  rw [contHookShots]
  apply (total_start hadv (c := .press .shootFull) (fun _ => trivial) fun _ => not_false).bind
  intro _
  apply (total_shots _ _ (total_contHookPass hadv .inr) (state, none)).bind
  intro _
  apply Total.bind (total_late fun _ _ _ => total_ask hadv hset)
  intro _
  exact total_late fun _ _ _ => total_ask hadv (plain_release _)

theorem total_contShots (hadv : Advances cam time) (state : State) :
    Total (At time q l t) (contShots cam opts state)
      (fun _ log => LateStart log ↔ l ∨ q) fun log => LateStart log ↔ l ∨ q := by
  rw [contShots]
  apply (total_countHook hadv state).bind
  intro state'
  apply Total.assume
  intro _
  apply (total_start hadv (c := .press .shootFull) (fun _ => trivial) fun _ => not_false).bind
  intro _
  apply (total_shots _ _ (total_contPass hadv) state').bind
  intro _
  exact total_late fun _ _ _ => total_ask hadv (plain_release _)

theorem total_quickShots (hadv : Advances cam time) (state : State) :
    Total (At time q l t) (quickShots cam opts state)
      (fun _ log => LateStart log ↔ l ∨ q) fun log => LateStart log ↔ l ∨ q := by
  have hpass : ∀ state, Total (At time q (l ∨ q) t) (quickPass cam opts state)
      (ShotMore State.shots time q (l ∨ q) t opts.shots state.shots)
      fun log => LateStart log ↔ l ∨ q :=
    total_quickPass hadv (or_iff_left_of_imp .inr)
  have hshots : Total (At time q l t) (loop (quickPass cam opts) state)
      (fun _ log => LateStart log ↔ l ∨ q) fun log => LateStart log ↔ l ∨ q := by
    apply total_unroll fun _ => At time q (l ∨ q) t
    · refine (total_quickPass hadv Iff.rfl state).weaken ?_
      rintro (state' | x) log h
      · exact h.1
      · exact h
    · exact total_shots _ _ hpass
  rw [quickShots]
  apply hshots.bind
  intro _
  exact total_late fun _ _ _ => total_ask hadv (plain_release _)

end Shots

/-! ## The wait until the camera is ready -/

section Init

variable (cam : Camera)

/-- What is read in the pass of the loop in `rs_shoot_multi_init` that begins after these calls. -/
def initRead (log : List Done) : Option LuaString := cam.answer log (.readUsbMsg 10)

def initShooting (log : List Done) : Bool :=
  cam.answer (asked cam log (.readUsbMsg 10)) .getShooting

/-- The calls when that pass is over. -/
def initLog (log : List Done) : List Done :=
  asked cam (asked cam log (.readUsbMsg 10)) .getShooting

/-- The pass is the last one. -/
def Ready (log : List Done) : Prop := initShooting cam log ∨ initRead cam log = some stop

instance (log : List Done) : Decidable (Ready cam log) :=
  inferInstanceAs (Decidable (_ ∨ _))

/-- The calls when pass `n` begins. -/
def initBegins (log : List Done) (n : Nat) : List Done := (initLog cam)^[n] log

/-- The loop is left in pass `n`. -/
def InitEnds (log : List Done) (n : Nat) : Prop :=
  Ready cam (initBegins cam log n) ∧ ∀ k < n, ¬Ready cam (initBegins cam log k)

/-- The loop is left, for `stop` or before it has read `quit`. -/
def InitOk (log : List Done) : Prop :=
  ∃ n, InitEnds cam log n ∧ (initRead cam (initBegins cam log n) = some stop ∨
    ∀ k ≤ n, initRead cam (initBegins cam log k) ≠ some quit)

variable {cam}

theorem initPass_eq : initPass cam =
    fun _ => act (untilStep (Ready cam) (initRead cam) (initLog cam)) := by
  funext x log
  change (if Ready cam log then pure (.inr (initRead cam log)) else pure (.inl ⟨⟩) :
    CamScript (PUnit ⊕ Option LuaString)) (initLog cam log) = _
  rw [act, untilStep]
  split <;> rfl

/-- What `rs_shoot_multi_init` gives when its loop is left in pass `n`. -/
def initResult (cam : Camera) (exp : Int) (log : List Done) (n : Nat) :
    EStateM.Result LuaString (List Done) (Option State) :=
  if initRead cam (initBegins cam log n) = some stop then
    .ok none (asked cam (initBegins cam log (n + 1)) (.release .shootHalf))
  else .ok (some ⟨exp, 0, none⟩) (asked cam (initBegins cam log (n + 1)) (.sleep 20))

/-- The calls of `rs_shoot_multi_init` before its loop. -/
def initCalls (cam : Camera) (log : List Done) : List Done :=
  asked cam (asked cam log .getExpCount) (.press .shootHalf)

theorem yields_multiInit {log : List Done}
    {r : EStateM.Result LuaString (List Done) (Option State)} :
    (multiInit cam log).Yields r ↔ ∃ n, InitEnds cam (initCalls cam log) n ∧
      r = initResult cam (cam.answer log .getExpCount) (initCalls cam log) n := by
  rw [multiInit, initPass_eq]
  change ((loop _ PUnit.unit >>= initState cam (cam.answer log .getExpCount))
    (initCalls cam log)).Yields r ↔ _
  have hlast : ∀ (exp : Int) n, (andThen (initState cam exp)
      (.ok (initRead cam (initBegins cam (initCalls cam log) n))
        (initBegins cam (initCalls cam log) (n + 1)))).Yields r ↔
      r = initResult cam exp (initCalls cam log) n := by
    intro exp n
    rw [andThen, initState, initResult]
    split <;> exact Fuelled.yields_pure.trans eq_comm
  rw [yields_andThen]
  constructor
  · rintro ⟨r', hr', hr⟩
    obtain ⟨n, hends, rfl⟩ := yields_until.mp hr'
    exact ⟨n, hends, (hlast _ n).mp hr⟩
  · rintro ⟨n, hends, hr⟩
    exact ⟨_, yields_until.mpr ⟨n, hends, rfl⟩, (hlast _ n).mpr hr⟩

theorem quitRead_initLog (log : List Done) :
    QuitRead (initLog cam log) ↔ QuitRead log ∨ initRead cam log = some quit := by
  rw [initLog, asked, quitRead_snoc, asked, quitRead_snoc]
  exact or_iff_left not_false

theorem lateStart_initLog (log : List Done) : LateStart (initLog cam log) ↔ LateStart log := by
  rw [initLog, asked, lateStart_snoc, asked, lateStart_snoc]
  exact (or_iff_left fun h => h.2).trans (or_iff_left fun h => h.2)

theorem initBegins_succ (log : List Done) (n : Nat) :
    initBegins cam log (n + 1) = initLog cam (initBegins cam log n) :=
  Function.iterate_succ_apply' _ n log

theorem quitRead_initBegins (log : List Done) (n : Nat) : QuitRead (initBegins cam log n) ↔
    QuitRead log ∨ ∃ k < n, initRead cam (initBegins cam log k) = some quit := by
  induction n with
  | zero => simp [initBegins]
  | succ n ih =>
    rw [initBegins_succ, quitRead_initLog, ih, or_assoc, Nat.exists_lt_succ_right]

theorem lateStart_initBegins (log : List Done) (n : Nat) :
    LateStart (initBegins cam log n) ↔ LateStart log := by
  induction n with
  | zero => rfl
  | succ n ih => rw [initBegins_succ, lateStart_initLog, ih]

/-- What comes after `rs_shoot_multi_init` keeps to `quit` if that has not been read in its loop. -/
theorem multiInit_then {time : List Done → Int} {shots : State → CamScript PUnit}
    (hshots : ∀ (q l : Prop) (t : Int) (state : State), Total (At time q l t) (shots state)
      (fun _ log => LateStart log ↔ l ∨ q) fun log => LateStart log ↔ l ∨ q)
    {log : List Done} (hquit : ¬QuitRead log) (hlate : ¬LateStart log) :
    (∃ r, ((multiInit cam >>= ifReady shots) log).Yields r ∧ ¬LateStart (stateOf r)) ↔
      InitOk cam (initCalls cam log) := by
  have hquit' : ¬QuitRead (initCalls cam log) := by
    rw [initCalls, asked, quitRead_snoc, asked, quitRead_snoc]
    exact not_or.mpr ⟨not_or.mpr ⟨hquit, not_false⟩, not_false⟩
  have hlate' : ¬LateStart (initCalls cam log) := by
    rw [initCalls, asked, lateStart_snoc, asked, lateStart_snoc]
    exact not_or.mpr ⟨not_or.mpr ⟨hlate, fun h => h.2⟩, fun h => h.2⟩
  have hafter : ∀ (exp : Int) n,
      (∃ r, (andThen (ifReady shots) (initResult cam exp (initCalls cam log) n)).Yields r ∧
        ¬LateStart (stateOf r)) ↔
      initRead cam (initBegins cam (initCalls cam log) n) = some stop ∨
        ∀ k ≤ n, initRead cam (initBegins cam (initCalls cam log) k) ≠ some quit := by
    intro exp n
    rw [initResult]
    split
    · next hstop =>
      rw [andThen, ifReady]
      refine iff_of_true ⟨_, Fuelled.yields_pure.mpr rfl, ?_⟩ (.inl hstop)
      rw [stateOf, asked, lateStart_snoc, lateStart_initBegins]
      exact not_or.mpr ⟨hlate', fun h => h.2⟩
    · next hstop =>
      rw [andThen, ifReady, or_iff_right hstop]
      refine (exists_yields_iff ((hshots _ _ (time _) _).conseq (fun _ h => h)
        (fun _ _ h => not_congr h) fun _ h => not_congr h) (At.of_log _)).trans ?_
      rw [asked, lateStart_snoc, lateStart_initBegins, quitRead_snoc, quitRead_initBegins]
      constructor
      · intro h k hk hread
        exact h (.inr (.inl (.inr ⟨k, Nat.lt_succ_of_le hk, hread⟩)))
      · rintro h ((hl | hs) | (hq | ⟨k, hk, hread⟩) | hf)
        · exact hlate' hl
        · exact hs.2
        · exact hquit' hq
        · exact h k (Nat.le_of_lt_succ hk) hread
        · exact hf
  constructor
  · rintro ⟨r, hr, hlast⟩
    obtain ⟨r', hr', hr⟩ := yields_andThen.mp hr
    obtain ⟨n, hends, rfl⟩ := yields_multiInit.mp hr'
    exact ⟨n, hends, (hafter _ n).mp ⟨r, hr, hlast⟩⟩
  · rintro ⟨n, hends, hok⟩
    obtain ⟨r, hr, hlast⟩ := (hafter (cam.answer log .getExpCount) n).mpr hok
    exact ⟨r, yields_andThen.mpr ⟨_, yields_multiInit.mpr ⟨n, hends, rfl⟩, hr⟩, hlast⟩

/-- The calls of `rs_shoot` before those of `rs_shoot_multi_init`. -/
def modeCalls (cam : Camera) (opts : Opts) : List Done :=
  if opts.cont ∧ opts.int > 0 then
    asked cam (asked cam [] .shootInitExp) (.hookSet opts.shootHookTimeout)
  else asked cam [] .shootInitExp

theorem not_quitRead_init (cam : Camera) : ¬QuitRead (asked cam [] .shootInitExp) := by
  rintro ⟨d, hd, hread⟩
  rw [List.mem_singleton.mp hd] at hread
  exact hread

theorem not_lateStart_init (cam : Camera) : ¬LateStart (asked cam [] .shootInitExp) :=
  fun h => not_quitRead_init cam h.quitRead

/-- Either nothing waits in the loop of `rs_shoot_multi_init`, or that loop is left as it should. -/
def KeepsQuit (cam : Camera) (opts : Opts) : Prop :=
  (∃ e, cam.answer [] .shootInitExp = .error e) ∨ (opts.cont = false ∧ opts.quick = false) ∨
    (opts.cont = true ∧ opts.int > 0 ∧ cam.hookShoot = false) ∨
    InitOk cam (initCalls cam (modeCalls cam opts))

theorem shootMode_iff {time : List Done → Int} (hadv : Advances cam time) (opts : Opts) :
    (∃ r, (shootMode cam opts (asked cam [] .shootInitExp)).Yields r ∧
      ¬LateStart (stateOf r)) ↔
    (opts.cont = false ∧ opts.quick = false) ∨
      (opts.cont = true ∧ opts.int > 0 ∧ cam.hookShoot = false) ∨
      InitOk cam (initCalls cam (modeCalls cam opts)) := by
  have hquit := not_quitRead_init cam
  have hlate := not_lateStart_init cam
  have hquit' : ¬QuitRead (modeCalls cam opts) := by
    rw [modeCalls]
    split
    · rw [asked, quitRead_snoc]
      exact not_or.mpr ⟨hquit, not_false⟩
    · exact hquit
  have hlate' : ¬LateStart (modeCalls cam opts) := fun h => hquit' h.quitRead
  cases hcont : opts.cont with
  | true =>
    rw [shootMode, if_pos hcont]
    by_cases hint : opts.int > 0
    · rw [if_pos hint, shootContHook]
      cases hhook : cam.hookShoot with
      | true =>
        have hcalls : modeCalls cam opts =
            asked cam (asked cam [] .shootInitExp) (.hookSet opts.shootHookTimeout) :=
          if_pos ⟨hcont, hint⟩
        rw [hcalls] at hquit' hlate' ⊢
        simp only [Bool.true_eq_false, false_and, and_false, false_or]
        exact multiInit_then (fun _ _ _ => total_contHookShots hadv) hquit' hlate'
      | false =>
        exact iff_of_true ⟨_, Fuelled.yields_pure.mpr rfl, hlate⟩ (.inr (.inl ⟨rfl, hint, rfl⟩))
    · rw [if_neg hint, modeCalls, if_neg (fun h => hint h.2)]
      simp only [Bool.true_eq_false, false_and, hint, and_false, false_or]
      exact multiInit_then (fun _ _ _ => total_contShots hadv) hquit hlate
  | false =>
    rw [shootMode, if_neg (by simp [hcont])]
    cases hquick : opts.quick with
    | true =>
      rw [if_pos rfl, modeCalls, if_neg (by simp [hcont])]
      simp only [Bool.true_eq_false, false_and, and_false, Bool.false_eq_true, false_or]
      exact multiInit_then (fun _ _ _ => total_quickShots hadv) hquit hlate
    | false =>
      rw [if_neg (by simp)]
      refine iff_of_true ?_ (.inl ⟨rfl, rfl⟩)
      have hfull : Total (At time False False (time (asked cam [] .shootInitExp)))
          (shootFull cam opts) (fun _ log => ¬LateStart log ↔ True) fun log =>
            ¬LateStart log ↔ True :=
        (total_shootFull hadv).conseq (fun _ h => h)
          (fun _ _ h => iff_true_intro (h.mp)) fun _ h => iff_true_intro (h.mp)
      exact (exists_yields_iff hfull
        ⟨iff_false_intro hquit, iff_false_intro hlate, Int.le_refl _⟩).mpr trivial

/-- `rs_shoot` ends and starts no shot when `quit` has been read. -/
theorem rsShoot_keeps_quit_iff {time : List Done → Int} (hadv : Advances cam time) (opts : OptsIn) :
    (∃ r, (rsShoot cam opts []).Yields r ∧ ¬LateStart (stateOf r)) ↔
      KeepsQuit cam (withDefaults opts) := by
  rw [KeepsQuit, ← shootMode_iff hadv]
  cases hinit : cam.answer [] .shootInitExp with
  | error e =>
    have hend : rsShoot cam opts [] = pure (.error e (asked cam [] .shootInitExp)) :=
      askOrFail_error hinit
    rw [hend]
    refine iff_of_true ⟨_, Fuelled.yields_pure.mpr rfl, ?_⟩ (.inl ⟨e, rfl⟩)
    exact not_lateStart_init cam
  | ok x =>
    have hmode : rsShoot cam opts [] =
        shootMode cam (withDefaults opts) (asked cam [] .shootInitExp) := askOrFail_ok hinit
    rw [hmode, or_iff_right (by rintro ⟨e, he⟩; cases he)]

def quickly : OptsIn := ⟨false, true, false, none, none, none, none⟩

theorem rsShoot_keeps_quit_iff_steady :
    Advances (steady none true) (fun log => log.length) ∧
      ∃ r, (rsShoot (steady none true) quickly []).Yields r ∧ ¬LateStart (stateOf r) :=
  ⟨advances_steady none true, (rsShoot_keeps_quit_iff (advances_steady none true) quickly).mpr
    (.inr (.inr (.inr ⟨0, ⟨.inl rfl, nofun⟩, .inr fun _ _ => nofun⟩)))⟩

theorem not_ready_idle (log : List Done) : ¬Ready (steady none false) log := by
  rintro (hshooting | hstop)
  · cases hshooting
  · cases hstop

/-- The loop of `rs_shoot_multi_init` may never end, and the message it reads may be lost. -/
theorem rsShoot_loses_quit :
    (∃ time, Advances (steady none false) time ∧
      ¬∃ r, (rsShoot (steady none false) quickly []).Yields r) ∧
    ∃ time, Advances (steady (some quit) true) time ∧
      ∃ r, (rsShoot (steady (some quit) true) quickly []).Yields r ∧ LateStart (stateOf r) := by
  refine ⟨⟨_, advances_steady none false, ?_⟩, _, advances_steady (some quit) true, ?_⟩
  · rintro ⟨r, hr⟩
    have hmode : rsShoot (steady none false) quickly [] =
        shootQuick (steady none false) (withDefaults quickly)
          (asked (steady none false) [] .shootInitExp) := askOrFail_ok rfl
    rw [hmode, shootQuick, yields_andThen] at hr
    obtain ⟨r', hr', -⟩ := hr
    obtain ⟨n, ⟨hready, -⟩, -⟩ := yields_multiInit.mp hr'
    exact not_ready_idle _ hready
  · have hmode : rsShoot (steady (some quit) true) quickly [] =
        shootQuick (steady (some quit) true) (withDefaults quickly)
          (asked (steady (some quit) true) [] .shootInitExp) := askOrFail_ok rfl
    let log := asked (steady (some quit) true) [] .shootInitExp
    have hends : InitEnds (steady (some quit) true) (initCalls (steady (some quit) true) log) 0 :=
      ⟨.inl rfl, nofun⟩
    have hquit : QuitRead (asked (steady (some quit) true)
        (initBegins (steady (some quit) true) (initCalls (steady (some quit) true) log) 1)
        (.sleep 20)) := by
      rw [asked, quitRead_snoc, quitRead_initBegins]
      exact .inl (.inr ⟨0, Nat.one_pos, rfl⟩)
    have hshots := fun (q l : Prop) (t : Int) => @total_quickShots _ (withDefaults quickly) _ q l t
      (advances_steady (some quit) true) ⟨0, 0, none⟩
    obtain ⟨r, hr, hlate⟩ := (exists_yields_iff (T := LateStart) (hshots _ _ _) (At.of_log _)).mpr
      (.inr hquit)
    refine ⟨r, ?_, hlate⟩
    rw [hmode, shootQuick, yields_andThen]
    exact ⟨_, yields_multiInit.mpr ⟨0, hends, rfl⟩, hr⟩

end Init

end RsShoot
