import Chdkptp.LuaText
import Chdkptp.Scripts

/-!
# Scripts on the camera

What scripts call on the camera. Each answer depends in any way on the calls before it, and these
calls are the state of a script.
-/

namespace CameraCalls

open LuaValue LuaText Scripts

inductive Key where
  | shootHalf
  | shootFull
  | shootFullOnly
  deriving DecidableEq

inductive Call where
  | getTickCount
  | readUsbMsg (timeout : Int)
  | writeUsbMsg (msg : LuaString)
  | sleep (ms : Int)
  | press (key : Key)
  | release (key : Key)
  | click (key : Key)
  | shoot
  | getShooting
  | getExpCount
  | getUsbCaptureTarget
  | hookSet (ms : Int)
  | hookIsReady
  | hookContinue
  | hookCount
  /-- `os.stat(name)` -/
  | stat (name : LuaString)
  /-- `rlib_shoot_init_exp(opts)` -/
  | shootInitExp
  /-- `rlib_shoot_filedummy()` -/
  | shootFiledummy
  /-- A command that the host sends with its code. -/
  | command (msg : LuaString)
  deriving DecidableEq

/-- What the calls return; those that run other scripts may raise an error. -/
abbrev Reply : Call → Type
  | .getTickCount | .getExpCount | .getUsbCaptureTarget | .hookCount => Int
  | .readUsbMsg _ => Option LuaString
  | .getShooting | .hookIsReady => Bool
  -- the size, if there is such a file
  | .stat _ => Option Int
  | .shootInitExp | .command _ => Except LuaString PUnit
  -- the error that is returned, if there is one
  | .shootFiledummy => Except LuaString (Option LuaString)
  | _ => PUnit

/-- A call and what it returned. -/
abbrev Done := (q : Call) × Reply q

/-- What the camera answers. `hookShoot` and `captureTarget` are whether `hook_shoot` is a table
and `get_usb_capture_target` a function. -/
structure Camera where
  answer : List Done → (q : Call) → Reply q
  hookShoot : Bool
  captureTarget : Bool

abbrev CamScript (α : Type) := Script LuaString (List Done) α

section Calls

variable (cam : Camera)

/-- The calls with one more. -/
def asked (log : List Done) (q : Call) : List Done := log ++ [⟨q, cam.answer log q⟩]

def ask (q : Call) : CamScript (Reply q) := act fun log => (cam.answer log q, asked cam log q)

/-- A call whose error goes on. -/
def askOrFail {α : Type} (q : Call) (get : Reply q → Except LuaString α) : CamScript α := do
  let r ← ask cam q
  match get r with
  | .ok a => pure a
  | .error e => fail e

section Fail

variable {cam} {α β : Type} {q : Call} {get : Reply q → Except LuaString α} {f : α → CamScript β}
  {log : List Done}

theorem askOrFail_ok {a : α} (h : get (cam.answer log q) = .ok a) :
    (askOrFail cam q get >>= f) log = f a (asked cam log q) := by
  change ((match get (cam.answer log q) with
    | .ok a => (pure a : CamScript α)
    | .error e => fail e) >>= f) (asked cam log q) = _
  rw [h]
  rfl

theorem askOrFail_error {e : LuaString} (h : get (cam.answer log q) = .error e) :
    (askOrFail cam q get >>= f) log = pure (.error e (asked cam log q)) := by
  change ((match get (cam.answer log q) with
    | .ok a => (pure a : CamScript α)
    | .error e => fail e) >>= f) (asked cam log q) = _
  rw [h]
  rfl

end Fail

def getTickCount : CamScript Int := ask cam .getTickCount

def readUsbMsg (timeout : Int) : CamScript (Option LuaString) := ask cam (.readUsbMsg timeout)

def getExpCount : CamScript Int := ask cam .getExpCount

/-- `type(get_usb_capture_target) == 'function' and get_usb_capture_target() == 0` -/
def captureCancelled : CamScript Bool :=
  if cam.captureTarget then do
    let target : Int ← ask cam .getUsbCaptureTarget
    pure (target = 0)
  else pure false

end Calls

/-- The tick count never goes back, and advances with every wait. -/
structure Advances (cam : Camera) (time : List Done → Int) : Prop where
  tick : ∀ log, cam.answer log .getTickCount = time log
  mono : ∀ log d, time log ≤ time (log ++ [d])
  wait : ∀ log ms (r : Option LuaString), 0 < ms → time log < time (log ++ [⟨.readUsbMsg ms, r⟩])

theorem Advances.asked {cam : Camera} {time : List Done → Int} (hadv : Advances cam time)
    (log : List Done) (q : Call) : time log ≤ time (asked cam log q) := hadv.mono log _

/-- What goes on with a reply, from known calls. -/
theorem total_ask_bind {cam : Camera} {β : Type} {q : Call} {f : Reply q → CamScript β}
    {log : List Done} {R : β → List Done → Prop} {E : List Done → Prop}
    (h : Total (fun log' => log' = asked cam log q) (f (cam.answer log q)) R E) :
    Total (fun log' => log' = log) (ask cam q >>= f) R E := by
  rintro log' rfl
  exact h _ rfl

/-- A call whose error goes on, from known calls. -/
theorem total_askOrFail_at {cam : Camera} {α : Type} {q : Call}
    {get : Reply q → Except LuaString α} {log : List Done} {Q : α → List Done → Prop}
    {E : List Done → Prop} (hok : ∀ a, get (cam.answer log q) = .ok a → Q a (asked cam log q))
    (herror : ∀ e, get (cam.answer log q) = .error e → E (asked cam log q)) :
    Total (fun log' => log' = log) (askOrFail cam q get) Q E := by
  rw [askOrFail]
  apply total_ask_bind
  cases hget : get (cam.answer log q) with
  | ok a =>
    apply total_pure
    rintro log' rfl
    exact hok a hget
  | error e =>
    apply total_fail
    rintro log' rfl
    exact herror e hget

theorem total_askOrFail_bind {cam : Camera} {α β : Type} {q : Call}
    {get : Reply q → Except LuaString α} {f : α → CamScript β} {log : List Done}
    {R : β → List Done → Prop} {E : List Done → Prop}
    (hok : ∀ a, get (cam.answer log q) = .ok a →
      Total (fun log' => log' = asked cam log q) (f a) R E)
    (herror : ∀ e, get (cam.answer log q) = .error e → E (asked cam log q)) :
    Total (fun log' => log' = log) (askOrFail cam q get >>= f) R E := by
  have hask : Total (fun log' => log' = log) (askOrFail cam q get)
      (fun a log' => log' = asked cam log q ∧ get (cam.answer log q) = .ok a) E :=
    total_askOrFail_at (fun a ha => ⟨rfl, ha⟩) herror
  apply hask.bind
  intro a
  apply Total.assume
  exact hok a

theorem total_tick_bind {cam : Camera} {time : List Done → Int} (hadv : Advances cam time)
    {β : Type} {f : Int → CamScript β} {log : List Done} {R : β → List Done → Prop}
    {E : List Done → Prop} (h : Total (fun log' => log' = asked cam log .getTickCount)
      (f (time log)) R E) : Total (fun log' => log' = log) (getTickCount cam >>= f) R E := by
  have hnow : cam.answer log .getTickCount = time log := hadv.tick log
  apply total_ask_bind
  rw [hnow]
  exact h

/-! ## Shots and the message that ends them -/

def quit : LuaString := bytes "quit".toList

def Starts : Done → Prop
  | ⟨.shoot, _⟩ | ⟨.press .shootFull, _⟩ | ⟨.press .shootFullOnly, _⟩
  | ⟨.click .shootFullOnly, _⟩ | ⟨.hookContinue, _⟩ => True
  | _ => False

def ReadsQuit : Done → Prop
  | ⟨.readUsbMsg _, r⟩ => r = some quit
  | _ => False

/-- The message has been read. -/
def QuitRead (log : List Done) : Prop := ∃ d ∈ log, ReadsQuit d

/-- A shot was started after the message had been read. -/
def LateStart (log : List Done) : Prop :=
  ∃ before d after, log = before ++ d :: after ∧ ReadsQuit d ∧ ∃ e ∈ after, Starts e

theorem LateStart.quitRead {log : List Done} (h : LateStart log) : QuitRead log := by
  obtain ⟨before, d, after, rfl, hread, -⟩ := h
  exact ⟨d, List.mem_append_right _ List.mem_cons_self, hread⟩

theorem quitRead_snoc (log : List Done) (d : Done) :
    QuitRead (log ++ [d]) ↔ QuitRead log ∨ ReadsQuit d := by
  simp [QuitRead, or_and_right, exists_or]

theorem lateStart_snoc (log : List Done) (d : Done) :
    LateStart (log ++ [d]) ↔ LateStart log ∨ QuitRead log ∧ Starts d := by
  constructor
  · rintro ⟨before, e, after, heq, he, f, hf, hstarts⟩
    rcases List.eq_nil_or_concat' after with rfl | ⟨after, g, rfl⟩
    · cases hf
    · obtain ⟨hlog, hd⟩ : log = before ++ e :: after ∧ d = g := by
        have hassoc : before ++ e :: (after ++ [g]) = (before ++ e :: after) ++ [g] := by simp
        rw [hassoc] at heq
        exact ⟨(List.append_inj' heq rfl).1, by simpa using (List.append_inj' heq rfl).2⟩
      subst hd hlog
      rcases List.mem_append.mp hf with hf | hf
      · exact .inl ⟨before, e, after, rfl, he, f, hf, hstarts⟩
      · rw [List.mem_singleton.mp hf] at hstarts
        exact .inr ⟨⟨e, by simp, he⟩, hstarts⟩
  · rintro (⟨before, e, after, rfl, he, f, hf, hstarts⟩ | ⟨⟨e, he, hquit⟩, hstarts⟩)
    · exact ⟨before, e, after ++ [d], by simp, he, f, List.mem_append_left _ hf, hstarts⟩
    · obtain ⟨before, after, rfl⟩ := List.append_of_mem he
      exact ⟨before, e, after ++ [d], by simp, hquit, d, by simp, hstarts⟩

/-! ## Calls step by step -/

/-- Whether the message has been read, whether a shot was started after that, and a time that has
been reached. -/
structure At (time : List Done → Int) (q l : Prop) (t : Int) (log : List Done) : Prop where
  quit : QuitRead log ↔ q
  late : LateStart log ↔ l
  time : t ≤ time log

section Steps

variable {cam : Camera} {time : List Done → Int} {q l : Prop} {t : Int} {E : List Done → Prop}

theorem At.of_log (log : List Done) : At time (QuitRead log) (LateStart log) (time log) log :=
  ⟨Iff.rfl, Iff.rfl, Int.le_refl _⟩

theorem At.congr {q' l' : Prop} {t' : Int} {log : List Done} (h : At time q l t log) (hq : q ↔ q')
    (hl : l ↔ l') (ht : t' ≤ t) : At time q' l' t' log :=
  ⟨h.quit.trans hq, h.late.trans hl, Int.le_trans ht h.time⟩

/-- What a call adds. -/
theorem At.snoc (hadv : Advances cam time) {log : List Done} (h : At time q l t log) (d : Done) :
    At time (q ∨ ReadsQuit d) (l ∨ q ∧ Starts d) t (log ++ [d]) where
  quit := (quitRead_snoc log d).trans (or_congr_left h.quit)
  late := (lateStart_snoc log d).trans (or_congr h.late (and_congr_left' h.quit))
  time := Int.le_trans h.time (hadv.mono log d)

/-- A call that reads no message and starts no shot. -/
def Plain (c : Call) : Prop := ∀ r : Reply c, ¬ReadsQuit ⟨c, r⟩ ∧ ¬Starts ⟨c, r⟩

theorem total_ask (hadv : Advances cam time) {c : Call} (hc : Plain c) :
    Total (At time q l t) (ask cam c) (fun _ => At time q l t) E := by
  apply total_act
  intro log h
  obtain ⟨hquit, hstarts⟩ := hc (cam.answer log c)
  exact (h.snoc hadv _).congr (or_iff_left hquit) (or_iff_left fun hq => hstarts hq.2)
    (Int.le_refl _)

theorem total_start (hadv : Advances cam time) {c : Call} (hc : ∀ r : Reply c, Starts ⟨c, r⟩)
    (hquit : ∀ r : Reply c, ¬ReadsQuit ⟨c, r⟩) :
    Total (At time q l t) (ask cam c) (fun _ => At time q (l ∨ q) t) E := by
  apply total_act
  intro log h
  exact (h.snoc hadv _).congr (or_iff_left (hquit _))
    (or_congr_right (and_iff_left (hc (cam.answer log c)))) (Int.le_refl _)

theorem total_readUsbMsg (hadv : Advances cam time) (ms : Int) :
    Total (At time q l t) (readUsbMsg cam ms)
      (fun m => At time (q ∨ m = some CameraCalls.quit) l t) E := by
  apply total_act
  intro log h
  exact (h.snoc hadv ⟨.readUsbMsg ms, cam.answer log (.readUsbMsg ms)⟩).congr Iff.rfl
    (or_iff_left fun hs => hs.2) (Int.le_refl _)

/-- A wait takes some time. -/
theorem total_wait (hadv : Advances cam time) {ms : Int} (hms : 0 < ms) :
    Total (At time q l t) (readUsbMsg cam ms)
      (fun m => At time (q ∨ m = some CameraCalls.quit) l (t + 1)) E := by
  apply total_act
  intro log h
  have hwait := hadv.wait log ms (cam.answer log (.readUsbMsg ms)) hms
  obtain ⟨hq, hl, -⟩ := h.snoc hadv ⟨.readUsbMsg ms, cam.answer log (.readUsbMsg ms)⟩
  exact ⟨hq, hl.trans (or_iff_left fun hs => hs.2), Int.add_one_le_iff.mpr (h.time.trans_lt hwait)⟩

/-- What goes on with a message, by whether it is the one that ends the shots. -/
theorem total_read_bind {β : Type} {ms t' : Int} {f : Option LuaString → CamScript β}
    {R : β → List Done → Prop}
    (hread : Total (At time q l t) (readUsbMsg cam ms)
      (fun m => At time (q ∨ m = some CameraCalls.quit) l t') E)
    (hquit : Total (fun log => LateStart log ↔ l) (f (some CameraCalls.quit)) R E)
    (hgo : ∀ m, m ≠ some CameraCalls.quit → Total (At time q l t') (f m) R E) :
    Total (At time q l t) (readUsbMsg cam ms >>= f) R E := by
  apply hread.bind
  intro m
  by_cases hm : m = some CameraCalls.quit
  · subst hm
    exact hquit.conseq (fun log h => h.late) (fun _ _ h => h) fun _ h => h
  · exact (hgo m hm).conseq (fun log h => h.congr (or_iff_left hm) Iff.rfl (Int.le_refl _))
      (fun _ _ h => h) fun _ h => h

theorem total_getTickCount (hadv : Advances cam time) :
    Total (At time q l t) (getTickCount cam) (fun now log => At time q l now log ∧ t ≤ now) E := by
  apply total_act
  intro log h
  have hnow : cam.answer log .getTickCount = time log := hadv.tick log
  refine ⟨⟨?_, ?_, ?_⟩, hnow ▸ h.time⟩
  · exact (h.snoc hadv ⟨.getTickCount, _⟩).quit.trans (or_iff_left not_false)
  · exact (h.snoc hadv ⟨.getTickCount, _⟩).late.trans (or_iff_left fun hs => hs.2)
  · exact hnow ▸ hadv.mono log _

/-- A call whose error goes on. -/
theorem total_askOrFail (hadv : Advances cam time) {α : Type} {c : Call} (hc : Plain c)
    {get : Reply c → Except LuaString α} :
    Total (At time q l t) (askOrFail cam c get) (fun _ => At time q l t)
      (At time q l t) := by
  rw [askOrFail]
  apply (total_ask hadv hc).bind
  intro r
  cases get r with
  | ok a => exact total_pure fun log h => h
  | error e => exact total_fail fun log h => h

theorem total_captureCancelled (hadv : Advances cam time) :
    Total (At time q l t) (captureCancelled cam) (fun _ => At time q l t) E := by
  rw [captureCancelled]
  split
  · have hplain : Plain .getUsbCaptureTarget := fun _ => ⟨not_false, not_false⟩
    apply (total_ask hadv hplain).bind
    intro target
    exact total_pure fun log h => h
  · exact total_pure fun log h => h

end Steps

/-- A camera that always reads the same, and shoots or does not. -/
def steady (m : Option LuaString) (shooting : Bool) : Camera where
  answer
    | log, .getTickCount => (log.length : Int)
    | _, .readUsbMsg _ => m
    | _, .getShooting => shooting
    | _, .hookIsReady => true
    | _, .getExpCount | _, .hookCount => (0 : Int)
    | _, .getUsbCaptureTarget => (1 : Int)
    | _, .stat _ => (none : Option Int)
    | _, .shootInitExp | _, .command _ => (.ok ⟨⟩ : Except LuaString PUnit)
    | _, .shootFiledummy => (.ok none : Except LuaString (Option LuaString))
    | _, .writeUsbMsg _ | _, .sleep _ | _, .press _ | _, .release _ | _, .click _ | _, .shoot
    | _, .hookSet _ | _, .hookContinue => ⟨⟩
  hookShoot := false
  captureTarget := false

theorem advances_steady (m : Option LuaString) (shooting : Bool) :
    Advances (steady m shooting) fun log => log.length where
  tick _ := rfl
  mono log d := by
    rw [List.length_append, List.length_singleton]
    omega
  wait log ms r _ := by
    rw [List.length_append, List.length_singleton]
    omega

end CameraCalls
