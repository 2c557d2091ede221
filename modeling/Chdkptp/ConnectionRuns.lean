import Chdkptp.ConnectionCalls
import Chdkptp.KeyIndex

/-!
# Runs of a program with connections

Whatever Lua code does with connections, with devices that come and go and a collector that
finalises what is no longer reachable: when something stays open that no connection has, when
something is used that is not open, and which connection one gets for a camera.
-/

namespace Connections

open ActionSystem KeyIndex LuaValue LuaText ResourceTrace

/-! ## The program -/

/-- A connection object; `dead` from when the collector finds it unreachable to when its
finaliser has run. -/
structure Obj where
  cs : PtpConState
  dead : Bool := false

structure State where
  objs : Nat → Option Obj := fun _ => none
  /-- `CHDK_CONNECTION_LIST`, a table with weak values -/
  list : LuaString → Option Nat := fun _ => none
  next : Nat := 0
  usbResetOnClose : Bool := false
  held : Finset Res := ∅
  trace : Trace := []

inductive Action where
  | connection (spec : Option DevSpec)
  | connect (o : Nat) (a : Answers)
  | disconnect (o : Nat) (busses : List UsbBus)
  | isConnected (o : Nat) (devstatus : Option UInt16)
  | method (o : Nat) (n : Nat)
  | devStatus (o : Nat)
  | setUsbResetOnClose (reset : Bool)
  | resetDevice (spec : DevSpec) (busses : List UsbBus) (usbOpen : Option Nat) (stalls : Nat)
  | collect (o : Nat)
  | gc (o : Nat) (busses : List UsbBus)

namespace State

variable (s : State)

/-- A connection that Lua code can still reach. -/
def alive (o : Nat) : Option PtpConState :=
  (s.objs o).bind fun obj => if obj.dead then none else some obj.cs

/-- What the system hands out is new. -/
def perform (trace : Trace) : Option State :=
  if Fresh s.held trace then
    some { s with held := heldAfter s.held trace, trace := s.trace ++ trace }
  else none

def call (o : Nat) (obj : Option Obj) (trace : Trace) : Option State :=
  (s.perform trace).map fun s => { s with objs := Function.update s.objs o obj }

/-- A method of a connection. -/
def method (o : Nat) (f : PtpConState → PtpConState × Trace) : Option State :=
  (s.alive o).bind fun cs => s.call o (some { cs := (f cs).1 }) (f cs).2

def newConnection (addr : Address) : State :=
  match s.list (conKey addr) with
  | some _ => s
  | none =>
    { s with
      objs := Function.update s.objs s.next (some { cs := newConState addr })
      list := Function.update s.list (conKey addr) (some s.next)
      next := s.next + 1 }

/-- `reset_device` throws for a device that is not there. -/
def reset (spec : DevSpec) (busses : List UsbBus) (usbOpen : Option Nat) (stalls : Nat) : Option State :=
  match (getLuaDevspecUsb spec).bind fun p => findDeviceByPath busses (cstr p.1) (cstr p.2) with
  | some dev => s.perform (resetDevice s.usbResetOnClose usbOpen stalls dev)
  | none => some s

/-- The collector finds a connection unreachable, which takes it out of the list. -/
def collected (o : Nat) (cs : PtpConState) : State :=
  { s with
    objs := Function.update s.objs o (some { cs, dead := true })
    list := Function.update s.list (conKey cs.address) none }

def step (pathMax : Nat) : Action → Option State
  | .connection spec =>
    match devAddress pathMax spec with
    | .ok addr => some (s.newConnection addr)
    | .error _ => some s
  | .connect o a => s.method o fun cs => (chdkConnect s.usbResetOnClose a cs).2
  | .disconnect o busses => s.method o fun cs => closeConnection s.usbResetOnClose busses cs
  | .isConnected o devstatus => s.method o fun cs => chdkIsConnected devstatus cs
  | .method o n => s.method o fun cs => (cs, (ensureConnected n cs).2)
  | .devStatus o => s.method o fun cs => (cs, chdkDevStatus cs)
  | .setUsbResetOnClose reset => some { s with usbResetOnClose := reset }
  | .resetDevice spec busses usbOpen stalls => s.reset spec busses usbOpen stalls
  | .collect o => (s.alive o).map (s.collected o)
  | .gc o busses =>
    match s.objs o with
    | some { cs, dead := true } =>
      s.call o none (chdkConnectionGc s.usbResetOnClose busses cs)
    | _ => none

end State

/-- `chdkptp` with a Lua program that does anything, in any order. -/
def program (pathMax : Nat) : System State Action := ⟨fun s a => s.step pathMax a⟩

/-! ## What is open between the calls -/

namespace State

/-- What the connection of an object has open. -/
def owns (s : State) (o : Nat) : Finset Res := (s.objs o).elim ∅ fun obj => obj.cs.inUse

structure Sound (s : State) : Prop where
  accounted : s.held = heldAfter ∅ s.trace
  owned : Owned s.owns s.held
  settled : ∀ o obj, s.objs o = some obj → obj.cs.Settled

/-- What is open is in use by a connection. -/
def NothingLost (s : State) : Prop := NoneLost s.owns s.held

/-- Whatever was used or closed was open then. -/
def OnlyOpenUsed (s : State) : Prop := Proper ∅ s.trace

/-- A step that loses something, or uses what is not open, under the conditions given. -/
structure Stepped (s s' : State) (Loses Misuses : Prop) : Prop where
  sound : s'.Sound
  lost : s.NothingLost → (s'.NothingLost ↔ ¬Loses)
  used : s.OnlyOpenUsed → (s'.OnlyOpenUsed ↔ ¬Misuses)

variable {s s' : State} {o : Nat} {cs : PtpConState} {trace : Trace} {Loses Misuses : Prop}

/-- A step after which the same is open in the same connections. -/
theorem Stepped.same (hs : s.Sound) (hheld : s'.held = s.held) (htrace : s'.trace = s.trace)
    (howns : s'.owns = s.owns) (hset : ∀ o obj, s'.objs o = some obj → obj.cs.Settled) :
    Stepped s s' False False := by
  refine ⟨⟨?_, ?_, hset⟩, ?_, ?_⟩
  · rw [hheld, htrace, hs.accounted]
  · rw [hheld, howns]
    exact hs.owned
  · intro h
    simpa [NothingLost, hheld, howns] using h
  · intro h
    simpa [OnlyOpenUsed, htrace] using h

theorem alive_objs (h : s.alive o = some cs) : s.objs o = some { cs } := by
  unfold alive at h
  cases hobj : s.objs o with
  | none => simp [hobj] at h
  | some obj =>
    obtain ⟨c, dead⟩ := obj
    cases dead <;> simp_all

theorem perform_some (h : s.perform trace = some s') :
    Fresh s.held trace ∧
      s' = { s with held := heldAfter s.held trace, trace := s.trace ++ trace } := by
  unfold perform at h
  split at h
  · exact ⟨‹_›, (Option.some.inj h).symm⟩
  · cases h

theorem call_some {obj : Option Obj} (h : s.call o obj trace = some s') :
    Fresh s.held trace ∧ s' = { s with
      objs := Function.update s.objs o obj
      held := heldAfter s.held trace
      trace := s.trace ++ trace } := by
  obtain ⟨t, ht, rfl⟩ := Option.map_eq_some_iff.mp h
  obtain ⟨hf, rfl⟩ := perform_some ht
  exact ⟨hf, rfl⟩

theorem owns_update (obj : Option Obj) (held : Finset Res) (trace : Trace) :
    owns { s with objs := Function.update s.objs o obj, held, trace } =
      Function.update s.owns o (obj.elim ∅ fun obj => obj.cs.inUse) := by
  funext i
  by_cases hi : i = o
  · subst hi
    simp [owns]
  · simp [owns, Function.update_of_ne hi]

theorem used_append (hs : s.Sound) (h : s.OnlyOpenUsed) (hproper : Proper s.held trace ↔ ¬Misuses) :
    Proper ∅ (s.trace ++ trace) ↔ ¬Misuses := by
  rw [proper_append, ← hs.accounted, hproper]
  exact and_iff_right h

/-- A call in which an object exchanges what it has open. -/
theorem call_stepped {obj : Option Obj} (hs : s.Sound)
    (hset : Fresh s.held trace → ∀ new, obj = some new → new.cs.Settled)
    (hex : Fresh s.held trace → ∃ lost,
      Exchange s.held (s.owns o) (obj.elim ∅ fun obj => obj.cs.inUse) trace lost ∧
        (lost = ∅ ↔ ¬Loses))
    (hproper : Fresh s.held trace → (Proper s.held trace ↔ ¬Misuses))
    (h : s.call o obj trace = some s') : Stepped s s' Loses Misuses := by
  obtain ⟨hf, rfl⟩ := call_some h
  obtain ⟨lost, hexch, hl⟩ := hex hf
  refine ⟨⟨?_, ?_, ?_⟩, ?_, fun hused => used_append hs hused (hproper hf)⟩
  · exact (congrArg (heldAfter · trace) hs.accounted).trans heldAfter_append.symm
  · rw [owns_update]
    exact hs.owned.exchange hexch
  · intro i new hi
    by_cases hio : i = o
    · subst hio
      exact hset hf new (by simpa using hi)
    · exact hs.settled i new (by simpa [Function.update_of_ne hio] using hi)
  · intro hall
    rw [NothingLost, owns_update]
    exact (noneLost_exchange_iff hs.owned hall hexch).trans hl

/-- A method that is called on a connection. -/
theorem method_stepped {f : PtpConState → PtpConState × Trace} {L M : PtpConState → Prop}
    (hs : s.Sound)
    (hf : ∀ cs, s.alive o = some cs → cs.Settled → cs.inUse ⊆ s.held → Fresh s.held (f cs).2 →
      Called s.held cs (f cs).1 (f cs).2 (L cs) (M cs)) (h : s.method o f = some s') :
    ∃ cs, s.alive o = some cs ∧ Stepped s s' (L cs) (M cs) := by
  obtain ⟨cs, halive, hcall⟩ := Option.bind_eq_some_iff.mp h
  have hobj := alive_objs halive
  have howns : s.owns o = cs.inUse := by simp [owns, hobj]
  have hcalled := hf cs halive (hs.settled o _ hobj) (howns ▸ hs.owned.open_ o)
  refine ⟨cs, halive, call_stepped hs ?_ ?_ ?_ hcall⟩
  · intro hfr new hnew
    cases hnew
    exact (hcalled hfr).settled
  · rw [howns]
    exact fun hfr => (hcalled hfr).exchange
  · exact fun hfr => (hcalled hfr).proper

theorem gc_stepped {busses : List UsbBus} (hs : s.Sound) (hobj : s.objs o = some ⟨cs, true⟩)
    (h : s.call o none (chdkConnectionGc s.usbResetOnClose busses cs) = some s') :
    Stepped s s' (cs.DeviceGone busses) False := by
  have howns : s.owns o = cs.inUse := by simp [owns, hobj]
  have hheld : cs.inUse ⊆ s.held := howns ▸ hs.owned.open_ o
  have hset : cs.Settled := hs.settled o _ hobj
  have hgone : (∃ lost, Exchange s.held cs.inUse ∅
      (chdkConnectionGc s.usbResetOnClose busses cs) lost ∧ (lost = ∅ ↔ ¬cs.DeviceGone busses)) ∧
      Proper s.held (chdkConnectionGc s.usbResetOnClose busses cs) := by
    unfold chdkConnectionGc
    cases hcon : cs.connected with
    | true => exact closeCamera_exchange hset hcon hheld
    | false =>
      have hnone : cs.inUse = ∅ := by simp [PtpConState.inUse, hcon]
      rw [hnone] at hheld ⊢
      exact ⟨⟨∅, .refl hheld, by simp [PtpConState.DeviceGone, hcon]⟩, proper_nil⟩
  refine call_stepped hs ?_ ?_ ?_ h
  · intro _ new hnew
    cases hnew
  · rw [howns]
    exact fun _ => hgone.1
  · simpa using fun _ => hgone.2

theorem reset_stepped {spec : DevSpec} {busses : List UsbBus} {usbOpen : Option Nat} {stalls : Nat}
    (hs : s.Sound) (h : s.reset spec busses usbOpen stalls = some s') :
    Stepped s s' False False := by
  unfold reset at h
  split at h
  next dev _ =>
    obtain ⟨hf, rfl⟩ := perform_some h
    obtain ⟨hafter, hproper⟩ := resetDevice_closed hf
    refine ⟨⟨?_, ?_, hs.settled⟩, ?_, ?_⟩
    · exact (congrArg (heldAfter · _) hs.accounted).trans heldAfter_append.symm
    · rw [hafter]
      exact hs.owned
    · intro hall
      simp only [NothingLost, hafter]
      exact iff_of_true hall not_false
    · exact fun hused => used_append hs hused (by simpa using hproper)
  next =>
    cases h
    exact .same hs rfl rfl rfl hs.settled

/-! ## The steps -/

/-- A step after which nothing is open without a connection: no camera is given up with its
device open. -/
def Closes (s : State) : Action → Prop
  | .connect o a => ∀ cs, s.alive o = some cs → ¬a.Loses cs
  | .disconnect o busses => ∀ cs, s.alive o = some cs → ¬cs.DeviceGone busses
  | .isConnected o devstatus => ∀ cs, s.alive o = some cs → cs.connected →
    (∃ usb, cs.transport = .usb usb) → checkConnectionStatusUsb devstatus
  | .gc o busses => ∀ obj, s.objs o = some obj → ¬obj.cs.DeviceGone busses
  | _ => True

/-- A step that uses what is open only. -/
def UsesOpen (s : State) : Action → Prop
  | .connect o a => ∀ cs, s.alive o = some cs → ¬a.Misuses cs
  | .devStatus o => ∀ cs, s.alive o = some cs →
    ∃ usb, cs.transport = .usb usb ∧ ∃ r ∈ usb.device, r ∈ s.held
  | _ => True

theorem chdkDevStatus_called {held : Finset Res} (hs : cs.Settled) (h : cs.inUse ⊆ held) :
    Called held cs cs (chdkDevStatus cs) False
      (¬∃ usb, cs.transport = .usb usb ∧ ∃ r ∈ usb.device, r ∈ held) := by
  refine .refl hs h ?_ ?_
  · unfold chdkDevStatus
    split <;> rfl
  · unfold chdkDevStatus
    cases htr : cs.transport with
    | usb usb => simp [Proper, Event.Proper]
    | tcp tcp => simp

theorem Stepped.iff {P Q : Prop} (h : Stepped s s' Loses Misuses) (hP : P ↔ ¬Loses)
    (hQ : Q ↔ ¬Misuses) :
    s'.Sound ∧ (s.NothingLost → (s'.NothingLost ↔ P)) ∧ (s.OnlyOpenUsed → (s'.OnlyOpenUsed ↔ Q)) :=
  ⟨h.sound, fun hl => (h.lost hl).trans hP.symm, fun hu => (h.used hu).trans hQ.symm⟩

theorem newConnection_stepped (hs : s.Sound) (hnew : ∀ o, s.next ≤ o → s.objs o = none)
    (addr : Address) : Stepped s (s.newConnection addr) False False := by
  unfold newConnection
  split
  · exact .same hs rfl rfl rfl hs.settled
  · have hfresh : s.objs s.next = none := hnew _ (Nat.le_refl _)
    refine .same hs rfl rfl ?_ ?_
    · funext i
      by_cases hi : i = s.next
      · subst hi
        cases addr <;> simp [owns, hfresh, newConState, PtpConState.inUse]
      · simp [owns, Function.update_of_ne hi]
    · intro i obj hobj
      by_cases hi : i = s.next
      · subst hi
        simp only [Function.update_self] at hobj
        cases hobj
        cases addr <;> simp [newConState, PtpConState.Settled]
      · exact hs.settled i obj (by simpa [Function.update_of_ne hi] using hobj)

theorem collect_stepped (hs : s.Sound) (halive : s.alive o = some cs) :
    Stepped s (s.collected o cs) False False := by
  have hobj := alive_objs halive
  refine .same hs rfl rfl ?_ ?_
  · funext i
    by_cases hi : i = o
    · subst hi
      simp [owns, collected, hobj]
    · simp [owns, collected, Function.update_of_ne hi]
  · intro i obj hi
    by_cases hio : i = o
    · subst hio
      simp only [collected, Function.update_self] at hi
      cases hi
      exact hs.settled _ { cs } hobj
    · exact hs.settled i obj (by simpa [collected, Function.update_of_ne hio] using hi)

/-- What one step does to what is open. -/
theorem step_stepped {pathMax : Nat} {a : Action} (hs : s.Sound)
    (hnew : ∀ o, s.next ≤ o → s.objs o = none) (h : s.step pathMax a = some s') :
    s'.Sound ∧ (s.NothingLost → (s'.NothingLost ↔ s.Closes a)) ∧
      (s.OnlyOpenUsed → (s'.OnlyOpenUsed ↔ s.UsesOpen a)) := by
  cases a with
  | connection spec =>
    simp only [step] at h
    split at h
    · cases h
      exact (newConnection_stepped hs hnew _).iff (by simp [Closes]) (by simp [UsesOpen])
    · cases h
      exact (Stepped.same hs rfl rfl rfl hs.settled).iff (by simp [Closes]) (by simp [UsesOpen])
  | connect o a =>
    obtain ⟨cs, halive, hstep⟩ := method_stepped hs
      (fun cs _ hset hheld hf => chdkConnect_called hset hheld hf) h
    exact hstep.iff (by simp [Closes, halive]) (by simp [UsesOpen, halive])
  | disconnect o busses =>
    obtain ⟨cs, halive, hstep⟩ := method_stepped hs
      (fun cs _ hset hheld _ => closeConnection_called hset hheld) h
    exact hstep.iff (by simp [Closes, halive]) (by simp [UsesOpen])
  | isConnected o devstatus =>
    obtain ⟨cs, halive, hstep⟩ := method_stepped hs
      (fun cs _ hset hheld _ => chdkIsConnected_called devstatus hset hheld) h
    exact hstep.iff (by simp [Closes, halive]) (by simp [UsesOpen])
  | method o n =>
    obtain ⟨cs, halive, hstep⟩ := method_stepped hs
      (fun cs _ hset hheld _ => ensureConnected_called n hset hheld) h
    exact hstep.iff (by simp [Closes]) (by simp [UsesOpen])
  | devStatus o =>
    obtain ⟨cs, halive, hstep⟩ := method_stepped hs
      (fun cs _ hset hheld _ => chdkDevStatus_called hset hheld) h
    exact hstep.iff (by simp [Closes]) (by simp [UsesOpen, halive])
  | setUsbResetOnClose reset =>
    cases h
    have hsame : Stepped s { s with usbResetOnClose := reset } False False :=
      .same hs rfl rfl rfl hs.settled
    exact hsame.iff (by simp [Closes]) (by simp [UsesOpen])
  | resetDevice spec busses usbOpen stalls =>
    exact (reset_stepped hs h).iff (by simp [Closes]) (by simp [UsesOpen])
  | collect o =>
    obtain ⟨cs, halive, rfl⟩ := Option.map_eq_some_iff.mp h
    exact (collect_stepped hs halive).iff (by simp [Closes]) (by simp [UsesOpen])
  | gc o busses =>
    simp only [step] at h
    split at h
    next cs hobj => exact (gc_stepped hs hobj h).iff (by simp [Closes, hobj]) (by simp [UsesOpen])
    · cases h

/-! ## The list of connections -/

/-- The address of a connection that can be reached. -/
def addressOf (s : State) (o : Nat) : Option Address := (s.alive o).map PtpConState.address

def keyOf (s : State) (o : Nat) : Option LuaString := (s.addressOf o).map conKey

structure Registered (s : State) : Prop where
  unused : ∀ o, s.next ≤ o → s.objs o = none
  listed : Indexes s.list s.keyOf

/-- A step that makes no connection and collects none. -/
structure SameList (s s' : State) : Prop where
  address : s'.addressOf = s.addressOf
  list : s'.list = s.list
  next : s'.next = s.next
  unused : ∀ o, s.next ≤ o → s.objs o = none → s'.objs o = none

theorem addressOf_update (obj : Option Obj) (list : LuaString → Option Nat) (next : Nat)
    (held : Finset Res) (trace : Trace) :
    addressOf { s with objs := Function.update s.objs o obj, list, next, held, trace } =
      Function.update s.addressOf o
        (obj.bind fun obj => if obj.dead then none else some obj.cs.address) := by
  funext i
  by_cases hi : i = o
  · subst hi
    cases obj with
    | none => simp [addressOf, alive]
    | some obj => cases hd : obj.dead <;> simp [addressOf, alive, hd]
  · simp [addressOf, alive, Function.update_of_ne hi]

theorem call_sameList {obj : Option Obj} (hold : s.objs o ≠ none)
    (haddr : (obj.bind fun obj => if obj.dead then none else some obj.cs.address) = s.addressOf o)
    (h : s.call o obj trace = some s') : SameList s s' := by
  obtain ⟨-, rfl⟩ := call_some h
  refine ⟨?_, rfl, rfl, ?_⟩
  · rw [addressOf_update, haddr, Function.update_eq_self]
  · intro i _ hi
    have hio : i ≠ o := fun hio => hold (hio ▸ hi)
    simpa [Function.update_of_ne hio] using hi

theorem method_sameList {f : PtpConState → PtpConState × Trace} (hs : s.Sound)
    (hf : ∀ cs, cs.Settled → cs.inUse ⊆ s.held → Fresh s.held (f cs).2 →
      (f cs).1.address = cs.address)
    (h : s.method o f = some s') : SameList s s' := by
  obtain ⟨cs, halive, hcall⟩ := Option.bind_eq_some_iff.mp h
  have hobj := alive_objs halive
  have howns : s.owns o = cs.inUse := by simp [owns, hobj]
  have haddr := hf cs (hs.settled o _ hobj) (howns ▸ hs.owned.open_ o) (call_some hcall).1
  refine call_sameList ?_ ?_ hcall
  · rw [hobj]
    exact Option.some_ne_none _
  · simp [addressOf, halive, haddr]

/-- What one step does to the list of connections. -/
theorem step_list {pathMax : Nat} {a : Action} (hs : s.Sound) (h : s.step pathMax a = some s') :
    (∃ spec addr, a = .connection spec ∧ devAddress pathMax spec = .ok addr ∧
      s' = s.newConnection addr) ∨
    (∃ o cs, s.alive o = some cs ∧ s' = s.collected o cs) ∨ SameList s s' := by
  cases a with
  | connection spec =>
    simp only [step] at h
    split at h
    next addr haddr => exact .inl ⟨spec, addr, rfl, haddr, (Option.some.inj h).symm⟩
    · cases h
      exact .inr (.inr ⟨rfl, rfl, rfl, fun _ _ hi => hi⟩)
  | connect o a =>
    exact .inr (.inr (method_sameList hs
      (fun _ hset hheld hf => (chdkConnect_called hset hheld hf).address) h))
  | disconnect o busses =>
    exact .inr (.inr (method_sameList hs
      (fun _ hset hheld _ => (closeConnection_called hset hheld).address) h))
  | isConnected o devstatus =>
    exact .inr (.inr (method_sameList hs
      (fun _ hset hheld _ => (chdkIsConnected_called devstatus hset hheld).address) h))
  | method o n => exact .inr (.inr (method_sameList hs (fun _ _ _ _ => rfl) h))
  | devStatus o => exact .inr (.inr (method_sameList hs (fun _ _ _ _ => rfl) h))
  | setUsbResetOnClose reset =>
    cases h
    exact .inr (.inr ⟨rfl, rfl, rfl, fun _ _ hi => hi⟩)
  | resetDevice spec busses usbOpen stalls =>
    simp only [step, reset] at h
    split at h
    · obtain ⟨-, rfl⟩ := perform_some h
      exact .inr (.inr ⟨rfl, rfl, rfl, fun _ _ hi => hi⟩)
    · cases h
      exact .inr (.inr ⟨rfl, rfl, rfl, fun _ _ hi => hi⟩)
  | collect o =>
    obtain ⟨cs, halive, rfl⟩ := Option.map_eq_some_iff.mp h
    exact .inr (.inl ⟨o, cs, halive, rfl⟩)
  | gc o busses =>
    simp only [step] at h
    split at h
    next cs hobj =>
      refine .inr (.inr (call_sameList ?_ ?_ h))
      · rw [hobj]
        exact Option.some_ne_none _
      · simp [addressOf, alive, hobj]
    · cases h

theorem newConState_address (addr : Address) : (newConState addr).address = addr := by
  cases addr <;> rfl

theorem newConnection_addressOf (addr : Address) :
    (s.newConnection addr).addressOf = s.addressOf ∨
      (s.newConnection addr).addressOf = Function.update s.addressOf s.next (some addr) := by
  unfold newConnection
  split
  · exact .inl rfl
  · refine .inr ?_
    rw [addressOf_update, Option.bind_some, newConState_address]
    rfl

theorem collected_addressOf :
    (s.collected o cs).addressOf = Function.update s.addressOf o none :=
  addressOf_update _ _ _ _ _

theorem keyOf_update {addr : Option Address} (h : s'.addressOf = Function.update s.addressOf o addr) :
    s'.keyOf = Function.update s.keyOf o (addr.map conKey) := by
  funext i
  by_cases hi : i = o
  · subst hi
    simp [keyOf, h]
  · simp [keyOf, h, Function.update_of_ne hi]

theorem Registered.newConnection (hr : s.Registered) (addr : Address) :
    (s.newConnection addr).Registered := by
  unfold State.newConnection
  split
  · exact hr
  next hnone =>
    have hfree : s.keyOf s.next = none := by
      simp [keyOf, addressOf, alive, hr.unused _ (Nat.le_refl _)]
    constructor
    · intro i hi
      simp only at hi
      have hio : i ≠ s.next := by omega
      simpa [Function.update_of_ne hio] using hr.unused i (by omega)
    · rw [keyOf_update (addressOf_update _ _ _ _ _), Option.bind_some, newConState_address]
      exact hr.listed.insert hnone hfree

theorem Registered.collected (hr : s.Registered) (halive : s.alive o = some cs) :
    (s.collected o cs).Registered := by
  constructor
  · intro i hi
    have hio : i ≠ o := by
      rintro rfl
      simp [alive, hr.unused i hi] at halive
    simpa [State.collected, Function.update_of_ne hio] using hr.unused i hi
  · rw [keyOf_update collected_addressOf]
    exact hr.listed.remove (by simp [keyOf, addressOf, halive])

theorem step_registered {pathMax : Nat} {a : Action} (hs : s.Sound) (hr : s.Registered)
    (h : s.step pathMax a = some s') : s'.Registered := by
  rcases step_list hs h with ⟨_, addr, -, -, rfl⟩ | ⟨o, cs, halive, rfl⟩ | hsame
  · exact hr.newConnection addr
  · exact hr.collected halive
  · constructor
    · intro i hi
      rw [hsame.next] at hi
      exact hsame.unused i hi (hr.unused i hi)
    · have hkey : s'.keyOf = s.keyOf := by
        funext i
        rw [keyOf, hsame.address, keyOf]
      rw [hsame.list, hkey]
      exact hr.listed

/-! ## The runs -/

theorem init_sound : Sound {} where
  accounted := rfl
  owned := ⟨fun _ => Finset.empty_subset _, fun _ _ _ => Finset.disjoint_empty_left _⟩
  settled := by simp

theorem init_registered : Registered {} where
  unused _ _ := rfl
  listed := by simp [Indexes, keyOf, addressOf, alive]

/-- What holds after every run. -/
def Reached (s : State) : Prop := s.Sound ∧ s.Registered

theorem init_reached : Reached {} := ⟨init_sound, init_registered⟩

theorem step_reached {pathMax : Nat} (s : State) (a : Action) (s' : State) (h : s.Reached)
    (hstep : (program pathMax).step s a = some s') : s'.Reached :=
  ⟨(step_stepped h.1 h.2.unused hstep).1, step_registered h.1 h.2 hstep⟩

theorem run_reached {pathMax : Nat} {as : List Action} (h : (program pathMax).run {} as = some s) :
    s.Reached :=
  (program pathMax).run_invariant Reached step_reached init_reached h

/-- Nothing is ever lost exactly when each step closes what it gives up. -/
theorem nothing_lost_iff {pathMax : Nat} {as : List Action}
    (h : (program pathMax).run {} as = some s) :
    (∀ before after t, as = before ++ after → (program pathMax).run {} before = some t →
        t.NothingLost) ↔
      ∀ before a after t, as = before ++ a :: after → (program pathMax).run {} before = some t →
        t.Closes a := by
  refine (program pathMax).run_always_iff Reached NothingLost Closes step_reached ?_ init_reached
    ?_ h
  · intro s a s' hreached hall hstep
    exact (step_stepped hreached.1 hreached.2.unused hstep).2.1 hall
  · simp [NothingLost, NoneLost]

/-- A camera with no endpoints. -/
def lonelyBus : UsbBus where
  dirname := [49]
  devices := [{
    filename := [50]
    config := some { bNumInterfaces := 1, bInterfaceClass := USB_CLASS_PTP, endpoint := [] } }]

/-- The camera is unplugged while it is connected. -/
def unplugged : List Action :=
  [.connection (some { bus := some [49], dev := some [50] }),
    .connect 0 { usb := {
      busses := [lonelyBus]
      usbOpen := some 7
      opensession := PTP_RC_OK
      getdeviceinfo := PTP_RC_OK } },
    .isConnected 0 none,
    .disconnect 0 [lonelyBus]]

theorem nothing_lost_iff_unplugged :
    ∃ s, (program 8).run {} unplugged = some s ∧
      ((∀ before after t, unplugged = before ++ after → (program 8).run {} before = some t →
          t.NothingLost) ↔
        ∀ before a after t, unplugged = before ++ a :: after →
          (program 8).run {} before = some t → t.Closes a) :=
  ⟨_, rfl, nothing_lost_iff rfl⟩

/-- Nothing but what is open is ever used exactly when each step uses no invalid socket and
asks no device for its status that is not open. -/
theorem only_open_used_iff {pathMax : Nat} {as : List Action}
    (h : (program pathMax).run {} as = some s) :
    (∀ before after t, as = before ++ after → (program pathMax).run {} before = some t →
        t.OnlyOpenUsed) ↔
      ∀ before a after t, as = before ++ a :: after → (program pathMax).run {} before = some t →
        t.UsesOpen a := by
  refine (program pathMax).run_always_iff Reached OnlyOpenUsed UsesOpen step_reached ?_
    init_reached proper_nil h
  intro s a s' hreached hall hstep
  exact (step_stepped hreached.1 hreached.2.unused hstep).2.2 hall

theorem only_open_used_iff_unplugged :
    ∃ s, (program 8).run {} unplugged = some s ∧
      ((∀ before after t, unplugged = before ++ after → (program 8).run {} before = some t →
          t.OnlyOpenUsed) ↔
        ∀ before a after t, unplugged = before ++ a :: after →
          (program 8).run {} before = some t → t.UsesOpen a) :=
  ⟨_, rfl, only_open_used_iff rfl⟩

/-! ## The connection of a camera -/

end State

/-- The first separator of the key is the one that `sprintf` puts there, or the last. -/
def Address.Plain : Address → Prop
  | .usb bus _ => byte '/' ∉ bus
  | .tcp _ port => byte ':' ∉ port

instance : (addr : Address) → Decidable addr.Plain
  | .usb bus _ => inferInstanceAs (Decidable (byte '/' ∉ bus))
  | .tcp _ port => inferInstanceAs (Decidable (byte ':' ∉ port))

theorem eq_of_append_cons {α : Type} {c : α} {a b a' b' : List α} (ha : c ∉ a) (ha' : c ∉ a')
    (h : a ++ c :: b = a' ++ c :: b') : a = a' ∧ b = b' := by
  induction a generalizing a' with
  | nil =>
    cases a' with
    | nil => exact ⟨rfl, (List.cons.inj h).2⟩
    | cons x a' => exact absurd (List.cons.inj h).1 fun hc => ha' (by simp [hc])
  | cons x a ih =>
    cases a' with
    | nil => exact absurd (List.cons.inj h).1 fun hc => ha (by simp [hc])
    | cons y a' =>
      obtain ⟨rfl, htail⟩ := List.cons.inj h
      obtain ⟨rfl, rfl⟩ := ih (fun hc => ha (List.mem_cons_of_mem _ hc))
        (fun hc => ha' (List.mem_cons_of_mem _ hc)) htail
      exact ⟨rfl, rfl⟩

theorem conKey_transport (bus dev host port : LuaString) :
    conKey (.usb bus dev) ≠ conKey (.tcp host port) := by
  intro h
  have hfirst := congrArg List.head? h
  simp [conKey, bytes, byte] at hfirst

theorem conKey_inj {addr addr' : Address} (h : addr.Plain) (h' : addr'.Plain)
    (hkey : conKey addr = conKey addr') : addr = addr' := by
  cases addr with
  | usb bus dev =>
    cases addr' with
    | usb bus' dev' =>
      simp only [conKey, List.append_assoc] at hkey
      obtain ⟨rfl, rfl⟩ := eq_of_append_cons h h' (List.append_cancel_left hkey)
      rfl
    | tcp host port => exact absurd hkey (conKey_transport bus dev host port)
  | tcp host port =>
    cases addr' with
    | usb bus dev => exact absurd hkey.symm (conKey_transport bus dev host port)
    | tcp host' port' =>
      simp only [conKey, List.append_assoc] at hkey
      -- the last separator, which is the first from the end
      have hback := congrArg List.reverse (List.append_cancel_left hkey)
      simp only [List.reverse_append, List.reverse_cons, List.append_assoc,
        List.singleton_append] at hback
      obtain ⟨hport, hhost⟩ := eq_of_append_cons (by simpa [Address.Plain] using h)
        (by simpa [Address.Plain] using h') hback
      rw [List.reverse_injective hport, List.reverse_injective hhost]

/-- The key with its terminator fits into `con_key`. -/
theorem conKey_length {pathMax : Nat} {spec : Option DevSpec} {addr : Address}
    (h : devAddress pathMax spec = .ok addr) : (conKey addr).length < conKeySize pathMax := by
  have husb (p : Option (LuaString × LuaString)) (h : devAddress.usbAddress pathMax p = .ok addr) :
      (conKey addr).length < conKeySize pathMax := by
    unfold devAddress.usbAddress at h
    split at h
    · cases h
    · split at h
      · cases h
      · cases h
        simp [conKey, conKeySize, bytes]
        omega
  unfold devAddress at h
  split at h
  · exact husb _ h
  · split at h
    · split at h
      · cases h
      · split at h
        · cases h
        · simp only at h
          split at h
          · cases h
          · cases h
            simp [conKey, conKeySize, bytes]
            omega
    · exact husb _ h

namespace State

variable {s s' : State} {o : Nat} {cs : PtpConState}

/-- Every address for which a connection was asked is plain. -/
def PlainAddresses (s : State) : Prop := ∀ o addr, s.addressOf o = some addr → addr.Plain

theorem step_plain {pathMax : Nat} {a : Action} (hs : s.Sound) (hp : s.PlainAddresses)
    (ha : ∀ spec addr, a = .connection spec → devAddress pathMax spec = .ok addr → addr.Plain)
    (h : s.step pathMax a = some s') : s'.PlainAddresses := by
  rcases step_list hs h with ⟨spec, addr, hspec, haddr, rfl⟩ | ⟨o, cs, halive, rfl⟩ | hsame
  · intro i addr' hi
    rcases newConnection_addressOf (s := s) addr with hold | hnew
    · exact hp i addr' (hold ▸ hi)
    · rw [hnew] at hi
      by_cases hin : i = s.next
      · subst hin
        rw [Function.update_self] at hi
        cases hi
        exact ha spec addr hspec haddr
      · exact hp i addr' (by rwa [Function.update_of_ne hin] at hi)
  · intro i addr' hi
    rw [collected_addressOf] at hi
    by_cases hio : i = o
    · subst hio
      rw [Function.update_self] at hi
      cases hi
    · exact hp i addr' (by rwa [Function.update_of_ne hio] at hi)
  · intro i addr' hi
    exact hp i addr' (hsame.address ▸ hi)

theorem run_plain {pathMax : Nat} {as : List Action} (h : (program pathMax).run {} as = some s)
    (hp : ∀ spec addr, .connection spec ∈ as → devAddress pathMax spec = .ok addr → addr.Plain) :
    s.PlainAddresses := by
  refine ((program pathMax).run_guarded (fun t => t.Reached ∧ t.PlainAddresses)
    (fun _ a => ∀ spec addr, a = .connection spec → devAddress pathMax spec = .ok addr →
      addr.Plain) ?_ ⟨init_reached, by simp [PlainAddresses, addressOf, alive]⟩ h ?_).2
  · intro t a t' ht ha hstep
    exact ⟨step_reached t a t' ht.1 hstep, step_plain ht.1.1 ht.2 ha hstep⟩
  · intro before a after t has _ spec addr hspec
    apply hp spec addr
    rw [has, hspec]
    simp

/-- Asked for a camera, the list has one connection for its key: the one that was there, if one
can still be reached, or else a new one. It is the camera's own unless a name contains the
separator. The key fits its buffer. -/
theorem connection_identified {pathMax : Nat} {as : List Action} {spec : Option DevSpec}
    {addr : Address} (h : (program pathMax).run {} as = some s)
    (hspec : devAddress pathMax spec = .ok addr)
    (hstep : (program pathMax).step s (.connection spec) = some s') :
    (conKey addr).length < conKeySize pathMax ∧
      ∃ o cs, s'.list (conKey addr) = some o ∧ s'.alive o = some cs ∧
        (∀ i ci, s'.alive i = some ci → (conKey ci.address = conKey addr ↔ i = o)) ∧
        (∀ i ci, s.alive i = some ci → conKey ci.address = conKey addr → s' = s) ∧
        ((∀ i ci, s.alive i = some ci → conKey ci.address ≠ conKey addr) →
          s.objs o = none ∧ cs = newConState addr) ∧
        ((∀ spec addr, .connection spec ∈ as → devAddress pathMax spec = .ok addr →
          addr.Plain) → addr.Plain → cs.address = addr) := by
  obtain ⟨hs, hr⟩ := run_reached h
  have hstep' : s.step pathMax (.connection spec) = some s' := hstep
  have hr' : s'.Registered := step_registered hs hr hstep'
  have hs' : s' = s.newConnection addr := by
    simp only [step, hspec, Option.some.injEq] at hstep'
    exact hstep'.symm
  have hkeyOf (t : State) {i : Nat} {ci : PtpConState} (hi : t.alive i = some ci) :
      t.keyOf i = some (conKey ci.address) := by
    simp [keyOf, addressOf, hi]
  have halive (t : State) {i : Nat} {key : LuaString} (hi : t.keyOf i = some key) :
      ∃ ci, t.alive i = some ci ∧ conKey ci.address = key := by
    simpa [keyOf, addressOf] using hi
  have hlisted : ∃ o, s'.list (conKey addr) = some o := by
    rw [hs', newConnection]
    cases hold : s.list (conKey addr) with
    | some o => exact ⟨o, hold⟩
    | none => exact ⟨s.next, Function.update_self ..⟩
  obtain ⟨o, ho⟩ := hlisted
  obtain ⟨cs, hcs, hkey⟩ := halive s' ((hr'.listed _ _).mp ho)
  refine ⟨conKey_length hspec, o, cs, ho, hcs, ?_, ?_, ?_, ?_⟩
  · intro i ci hi
    constructor
    · intro hci
      exact hr'.listed.unique (hci ▸ hkeyOf s' hi) (hkey ▸ hkeyOf s' hcs)
    · intro hio
      subst hio
      rw [hcs] at hi
      cases hi
      exact hkey
  · intro i ci hi hci
    have hold := (hr.listed _ _).mpr (hci ▸ hkeyOf s hi)
    rw [hs', newConnection, hold]
  · intro hnew
    have hnone : s.list (conKey addr) = none := by
      cases hold : s.list (conKey addr) with
      | none => rfl
      | some i =>
        obtain ⟨ci, hi, hci⟩ := halive s ((hr.listed _ _).mp hold)
        exact absurd hci (hnew i ci hi)
    simp only [hs', newConnection, hnone] at ho hcs
    rw [Function.update_self] at ho
    cases ho
    refine ⟨hr.unused _ (Nat.le_refl _), ?_⟩
    simp only [alive, Function.update_self, Option.bind_some, Bool.false_eq_true, if_false,
      Option.some.injEq] at hcs
    exact hcs.symm
  · intro hplain haddr
    have hcsaddr : s'.addressOf o = some cs.address := by simp [addressOf, hcs]
    have hplain' : s'.PlainAddresses := by
      refine step_plain hs (run_plain h hplain) ?_ hstep'
      intro spec' addr' hsame hspec'
      cases hsame
      rw [hspec] at hspec'
      cases hspec'
      exact haddr
    exact conKey_inj (hplain' o _ hcsaddr) haddr hkey

theorem connection_identified_unplugged :
    ∃ s s', (program 8).run {} unplugged = some s ∧
      (program 8).step s (.connection none) = some s' ∧
        (conKey (.usb dummy dummy)).length < conKeySize 8 ∧
          ∃ o cs, s'.list (conKey (.usb dummy dummy)) = some o ∧ s'.alive o = some cs ∧
            cs.address = .usb dummy dummy := by
  obtain ⟨s, hs⟩ : ∃ s, (program 8).run {} unplugged = some s := ⟨_, rfl⟩
  obtain ⟨s', hs'⟩ : ∃ s', (program 8).step s (.connection none) = some s' := ⟨_, rfl⟩
  obtain ⟨hlength, o, cs, ho, hcs, -, -, -, hplain⟩ := connection_identified hs rfl hs'
  refine ⟨s, s', hs, hs', hlength, o, cs, ho, hcs, hplain ?_ (by decide)⟩
  intro spec addr hmem haddr
  simp only [unplugged, List.mem_cons, Action.connection.injEq, List.not_mem_nil, or_false,
    reduceCtorEq] at hmem
  subst hmem
  cases haddr
  decide

end State

end Connections
