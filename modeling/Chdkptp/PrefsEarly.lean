import Chdkptp.Prefs

/-!
# Early and late preferences

A `_set` before the `_add` of a name, and after it. The early value takes the place of the
default, so the setter is called once instead of twice; but a value that is false in the
language is not taken, and of what goes wrong `_add` throws what `_set` returns, and does
not look at what the setter returns.
-/

namespace Prefs

open LuaValue LuaText

variable {ν ω : Type}

/-! ## What the calls leave -/

def setter (a : Adding ν ω) : Setter ν ω := a.setFn.getD defaultSet

/-- What `_add` makes of a setter's outcome. -/
def Outcome.throws : Outcome ν → Option (Failure ν)
  | returned _ _ => none
  | threw err => some (.error err)

/-- A preference that is registered with a default, after its setter has worked. -/
def held (a : Adding ν ω) (val : Val ν) (self : Self ν ω) : Pref ν ω :=
  { newPref a val with value := self.value }

@[simp] theorem held_vtype (a : Adding ν ω) (val : Val ν) (self : Self ν ω) :
    (held a val self).vtype = a.vtype := rfl

@[simp] theorem held_set (a : Adding ν ω) (val : Val ν) (self : Self ν ω) :
    (held a val self).set = setter a := rfl

@[simp] theorem held_value (a : Adding ν ω) (val : Val ν) (self : Self ν ω) :
    (held a val self).value = self.value := rfl

/-- The state in which it is. -/
def put (s : State ν ω) (a : Adding ν ω) (n : LuaString) (val : Val ν) (self : Self ν ω) :
    State ν ω :=
  { s with
    order := s.order ++ [n]
    prefs := Function.update s.prefs n (some (held a val self))
    outside := self.outside }

def fresh (s : State ν ω) : Self ν ω := ⟨.nil, s.outside⟩

theorem registered_put (s : State ν ω) (a : Adding ν ω) (n : LuaString) (x : Val ν)
    (self : Self ν ω) : registered (put s a n x self) (.str n) = some (n, held a x self) := by
  simp [registered, put]

theorem callSet_put (s : State ν ω) (a : Adding ν ω) (n : LuaString) (x y : Val ν)
    (self : Self ν ω) : callSet (put s a n x self) n (held a x self) y =
      (put s a n x (setter a self y).1, (setter a self y).2) := by
  simp only [callSet, put, held_set, held_value, Function.update_idem]
  rfl

/-! ## The same state -/

/-- A preference but for the field `default`, which nothing reads. -/
def Pref.shown (p : Pref ν ω) : Pref ν ω := { p with default := .nil }

structure Same (s s' : State ν ω) : Prop where
  prefs : ∀ n, (s.prefs n).map Pref.shown = (s'.prefs n).map Pref.shown
  order : s.order = s'.order
  outside : s.outside = s'.outside

def SameDefaults (s s' : State ν ω) : Prop :=
  ∀ n, (s.prefs n).map Pref.default = (s'.prefs n).map Pref.default

/-- States with the same preferences. -/
structure Alike (s s' : State ν ω) : Prop where
  prefs : s.prefs = s'.prefs
  order : s.order = s'.order
  outside : s.outside = s'.outside

theorem Alike.same {s s' : State ν ω} (h : Alike s s') : Same s s' :=
  ⟨fun n => by rw [h.prefs], h.order, h.outside⟩

theorem Alike.sameDefaults {s s' : State ν ω} (h : Alike s s') : SameDefaults s s' :=
  fun n => by rw [h.prefs]

theorem same_put_iff {s s' : State ν ω} (h : Alike s s') (a : Adding ν ω) (n : LuaString)
    (z x : Val ν) (self self' : Self ν ω) :
    Same (put s a n z self) (put s' a n x self') ↔ self = self' := by
  constructor
  · intro hsame
    have hheld := hsame.prefs n
    simp only [put, Function.update_self, Option.map_some, Option.some.injEq] at hheld
    have hvalue : self.value = self'.value := congrArg Pref.value hheld
    have houtside : self.outside = self'.outside := hsame.outside
    cases self
    cases self'
    simp only at hvalue houtside
    rw [hvalue, houtside]
  · rintro rfl
    refine ⟨fun m => ?_, by rw [put, put, h.order], rfl⟩
    simp only [put, h.prefs]
    by_cases hm : m = n
    · subst hm
      simp [held, Pref.shown, newPref]
    · rw [Function.update_of_ne hm, Function.update_of_ne hm]

theorem sameDefaults_put_iff {s s' : State ν ω} (h : Alike s s') (a : Adding ν ω)
    (n : LuaString) (z x : Val ν) (self self' : Self ν ω) :
    SameDefaults (put s a n z self) (put s' a n x self') ↔ z = x := by
  constructor
  · intro hsame
    have hheld := hsame n
    simpa [put, held, newPref] using hheld
  · rintro rfl m
    simp only [put, h.prefs]
    by_cases hm : m = n
    · subst hm
      simp [held, newPref]
    · rw [Function.update_of_ne hm, Function.update_of_ne hm]

/-- A registration shows in the order. -/
theorem not_same_put {s s' : State ν ω} (h : Alike s s') (a : Adding ν ω) (n : LuaString)
    (x : Val ν) (self : Self ν ω) : ¬Same s (put s' a n x self) ∧ ¬Same (put s a n x self) s' := by
  constructor
  · intro hsame
    have hlen := congrArg List.length hsame.order
    simp [put, h.order] at hlen
  · intro hsame
    have hlen := congrArg List.length hsame.order
    simp [put, h.order] at hlen

/-! ## Two calls -/

/-- A call and then another one, which is not made when the first throws; with what fails. -/
def andThen (r : State ν ω × Option (Failure ν))
    (f : State ν ω → State ν ω × Option (Failure ν)) : State ν ω × List (Failure ν) :=
  match r with
  | (s, some (.error err)) => (s, [.error err])
  | (s, e) => ((f s).1, e.toList ++ (f s).2.toList)

theorem andThen_ok (s : State ν ω) (f : State ν ω → State ν ω × Option (Failure ν)) :
    andThen (s, none) f = ((f s).1, (f s).2.toList) := rfl

theorem andThen_error (s : State ν ω) (err : Val ν)
    (f : State ν ω → State ν ω × Option (Failure ν)) :
    andThen (s, some (.error err)) f = (s, [.error err]) := rfl

variable [DecidableEq ν]

/-- What `_set` makes of it. -/
def Outcome.fails : Outcome ν → Option (Failure ν)
  | returned status msg => if status.truthy ∨ status = .nil then none else some (.refused msg)
  | threw err => some (.error err)

/-- The default that `_add` works with after a `_set`. -/
def earlyDefault (a : Adding ν ω) (value : Val ν) : Val ν :=
  if (orFalse value).truthy then orFalse value else orFalse a.default

theorem clearUnreg_prefs (s : State ν ω) (name : Val ν) : (clearUnreg s name).prefs = s.prefs := by
  rw [clearUnreg]
  split <;> rfl

theorem clearUnreg_order (s : State ν ω) (name : Val ν) : (clearUnreg s name).order = s.order := by
  rw [clearUnreg]
  split <;> rfl

theorem clearUnreg_outside (s : State ν ω) (name : Val ν) :
    (clearUnreg s name).outside = s.outside := by
  rw [clearUnreg]
  split <;> rfl

variable {N : Numbers ν} {s : State ν ω} {a : Adding ν ω} {n : LuaString}

theorem add_error {err : LuaString} (hname : a.name = .str n) (hn : n ∉ methods)
    (h : readVal N a.vtype (takeDefault s a.name a.default) = .error err) :
    add N s a = (clearUnreg s a.name, some (.error (.str err))) := by
  simp only [add, hname, if_neg hn] at h ⊢
  rw [h]

theorem add_ok {val : Val ν} (hname : a.name = .str n) (hn : n ∉ methods)
    (h : readVal N a.vtype (takeDefault s a.name a.default) = .ok val) :
    add N s a = (put (clearUnreg s a.name) a n val (setter a (fresh s) val).1,
      (setter a (fresh s) val).2.throws) := by
  have hset : (newPref a val).set ⟨(newPref a val).value, s.outside⟩ val =
      setter a (fresh s) val := rfl
  simp only [add, hname, if_neg hn] at h ⊢
  rw [h]
  simp only [callSet, clearUnreg_outside, hset, put, Function.update_idem]
  cases (setter a (fresh s) val).2 <;> rfl

/-- `_set` after the registration. -/
theorem set_put_error {x value : Val ν} {self : Self ν ω} {err : LuaString}
    (h : readVal N a.vtype (orFalse value) = .error err) :
    set N (put s a n x self) (.str n) value =
      (put s a n x self, some (.refused (.str err))) := by
  simp only [set, registered_put, held_vtype, h]

theorem set_put_ok {x value y : Val ν} {self : Self ν ω}
    (h : readVal N a.vtype (orFalse value) = .ok y) :
    set N (put s a n x self) (.str n) value =
      (put s a n x (setter a self y).1, (setter a self y).2.fails) := by
  simp only [set, registered_put, held_vtype, h, callSet_put]
  cases (setter a self y).2 with
  | returned status msg =>
    simp only [Outcome.fails]
    by_cases haccepted : status.truthy = true ∨ status = .nil
    · rw [if_pos haccepted, if_pos haccepted]
    · rw [if_neg haccepted, if_neg haccepted]
  | threw err => rfl

def early (N : Numbers ν) (s : State ν ω) (a : Adding ν ω) (value : Val ν) :
    State ν ω × List (Failure ν) :=
  andThen (set N s a.name value) fun s => add N s a

def late (N : Numbers ν) (s : State ν ω) (a : Adding ν ω) (value : Val ν) :
    State ν ω × List (Failure ν) :=
  andThen (add N s a) fun s => set N s a.name value

/-- What a `_set` of a name leaves that is not registered. -/
def unregWith (s : State ν ω) (name value : Val ν) : State ν ω :=
  { s with unreg := Function.update s.unreg name (orFalse value) }

theorem set_unreg {name value : Val ν} (hallow : s.allowUnreg = true)
    (hfree : registered s name = none) (hnil : name ≠ .nil) :
    set N s name value = (unregWith s name value, none) := by
  simp only [set, hfree, hallow, if_true, keepUnreg, if_neg hnil, unregWith]

theorem takeDefault_unregWith (s : State ν ω) (a : Adding ν ω) (value : Val ν) :
    takeDefault (unregWith s a.name value) a.name a.default = earlyDefault a value := by
  simp [takeDefault, unregWith, earlyDefault]

theorem early_eq {value : Val ν} (hallow : s.allowUnreg = true)
    (hfree : registered s a.name = none) (hnil : a.name ≠ .nil) :
    early N s a value = ((add N (unregWith s a.name value) a).1,
      (add N (unregWith s a.name value) a).2.toList) := by
  rw [early, set_unreg hallow hfree hnil, andThen_ok]

/-- The late path when the setter takes the default. -/
theorem late_returned {value x status msg : Val ν} (hname : a.name = .str n)
    (hn : n ∉ methods) (hx : readVal N a.vtype (takeDefault s a.name a.default) = .ok x)
    (hset : (setter a (fresh s) x).2 = .returned status msg) :
    late N s a value =
      ((set N (put (clearUnreg s a.name) a n x (setter a (fresh s) x).1) a.name value).1,
        (set N (put (clearUnreg s a.name) a n x (setter a (fresh s) x).1) a.name value).2.toList) := by
  rw [late, add_ok hname hn hx, hset]
  exact andThen_ok _ _

theorem late_threw {value x err : Val ν} (hname : a.name = .str n) (hn : n ∉ methods)
    (hx : readVal N a.vtype (takeDefault s a.name a.default) = .ok x)
    (hset : (setter a (fresh s) x).2 = .threw err) :
    late N s a value =
      (put (clearUnreg s a.name) a n x (setter a (fresh s) x).1, [.error err]) := by
  rw [late, add_ok hname hn hx, hset]
  exact andThen_error _ _ _

theorem alike_clear (s : State ν ω) (name value : Val ν) :
    Alike (clearUnreg (unregWith s name value) name) (clearUnreg s name) := by
  refine ⟨?_, ?_, ?_⟩
  · rw [clearUnreg_prefs, clearUnreg_prefs]
    rfl
  · rw [clearUnreg_order, clearUnreg_order]
    rfl
  · rw [clearUnreg_outside, clearUnreg_outside]
    rfl

/-! ## When they agree -/

/-- The setter leaves the same and fails in the same way when it is called with `z` alone as
when it is called with the default `x` and then with `y`, if that is a value. -/
def Settles (set : Setter ν ω) (self : Self ν ω) (z x : Val ν) (y : Except LuaString (Val ν)) :
    Prop :=
  match set self x, y with
  | (self', .threw err), _ => (set self z).1 = self' ∧ (set self z).2.throws = some (.error err)
  | (self', .returned _ _), .ok y =>
    (set self z).1 = (set self' y).1 ∧ (set self z).2.throws = (set self' y).2.fails
  | (_, .returned _ _), .error _ => False

section Settling

variable {set : Setter ν ω} {self self' : Self ν ω} {z x y err status msg : Val ν}

theorem settles_threw (r : Except LuaString (Val ν)) (h : set self x = (self', .threw err)) :
    Settles set self z x r ↔
      (set self z).1 = self' ∧ (set self z).2.throws = some (.error err) := by
  simp only [Settles, h]

theorem settles_returned (h : set self x = (self', .returned status msg)) :
    Settles set self z x (.ok y) ↔
      (set self z).1 = (set self' y).1 ∧ (set self z).2.throws = (set self' y).2.fails := by
  simp only [Settles, h]

theorem not_settles (text : LuaString) (h : set self x = (self', .returned status msg)) :
    ¬Settles set self z x (.error text) := by
  simp [Settles, h]

end Settling

def Commutes (N : Numbers ν) (s : State ν ω) (a : Adding ν ω) (value : Val ν) : Prop :=
  match a.name with
  | .nil => False
  | .str n => n ∈ methods ∨
    match readVal N a.vtype (earlyDefault a value),
      readVal N a.vtype (takeDefault s a.name a.default) with
    | .ok z, .ok x => Settles (setter a) (fresh s) z x (readVal N a.vtype (orFalse value))
    | .error err, .error err' => err = err'
    | _, _ => False
  | _ => True

theorem option_toList_inj {α : Type} {x y : Option α} : x.toList = y.toList ↔ x = y := by
  cases x <;> cases y <;> simp

/-- Both paths register, the early one with `z`. -/
theorem registered_agree {value z x : Val ν} (hallow : s.allowUnreg = true)
    (hfree : registered s a.name = none) (hname : a.name = .str n) (hn : n ∉ methods)
    (hz : readVal N a.vtype (earlyDefault a value) = .ok z)
    (hx : readVal N a.vtype (takeDefault s a.name a.default) = .ok x) :
    (Same (early N s a value).1 (late N s a value).1 ∧
        (early N s a value).2 = (late N s a value).2 ↔
      Settles (setter a) (fresh s) z x (readVal N a.vtype (orFalse value))) ∧
    (SameDefaults (early N s a value).1 (late N s a value).1 ↔ z = x) := by
  have halike := alike_clear s a.name value
  have hearly : early N s a value =
      (put (clearUnreg (unregWith s a.name value) a.name) a n z (setter a (fresh s) z).1,
        (setter a (fresh s) z).2.throws.toList) := by
    rw [early_eq hallow hfree (by simp [hname]),
      add_ok hname hn (by rw [takeDefault_unregWith]; exact hz)]
    rfl
  have hsame := same_put_iff halike a n z x (setter a (fresh s) z).1
  have hdefaults := sameDefaults_put_iff halike a n z x (setter a (fresh s) z).1
  rw [hearly]
  cases hset : setter a (fresh s) x with
  | mk self' out =>
    have hfirst : (setter a (fresh s) x).1 = self' := by rw [hset]
    cases out with
    | threw err =>
      rw [late_threw hname hn hx (by rw [hset]), hfirst, hsame, hdefaults, settles_threw _ hset,
        show [Failure.error err] = (some (Failure.error err)).toList from rfl, option_toList_inj]
      exact ⟨Iff.rfl, Iff.rfl⟩
    | returned status msg =>
      rw [late_returned hname hn hx (by rw [hset]), hfirst, hname]
      cases hy : readVal N a.vtype (orFalse value) with
      | error err =>
        rw [set_put_error hy, ← hname, hdefaults, option_toList_inj]
        refine ⟨iff_of_false ?_ (not_settles _ hset), Iff.rfl⟩
        rintro ⟨-, hreport⟩
        cases hout : (setter a (fresh s) z).2 <;> simp [hout, Outcome.throws] at hreport
      | ok y =>
        rw [set_put_ok hy, ← hname, hsame, hdefaults, option_toList_inj, settles_returned hset]
        exact ⟨Iff.rfl, Iff.rfl⟩

theorem commutes_registered {value z x : Val ν} (hname : a.name = .str n) (hn : n ∉ methods)
    (hz : readVal N a.vtype (earlyDefault a value) = .ok z)
    (hx : readVal N a.vtype (takeDefault s a.name a.default) = .ok x) :
    Commutes N s a value ↔
      Settles (setter a) (fresh s) z x (readVal N a.vtype (orFalse value)) := by
  rw [hname] at hx
  simp only [Commutes, hname, hn, hz, hx, false_or]

theorem commutes_unregistered {value : Val ν} (hname : a.name = .str n) (hn : n ∉ methods)
    (hnone : ¬∃ z x, readVal N a.vtype (earlyDefault a value) = .ok z ∧
      readVal N a.vtype (takeDefault s a.name a.default) = .ok x) :
    Commutes N s a value ↔
      readVal N a.vtype (earlyDefault a value) =
        readVal N a.vtype (takeDefault s a.name a.default) := by
  rw [hname] at hnone ⊢
  simp only [Commutes, hname, hn, false_or]
  cases hz : readVal N a.vtype (earlyDefault a value) <;>
    cases hx : readVal N a.vtype (takeDefault s (.str n) a.default) <;>
    simp_all

/-- Where `_add` throws at the name, it does not matter what is kept for the name. -/
theorem thrown_agree {value err : Val ν} (hallow : s.allowUnreg = true)
    (hfree : registered s a.name = none) (hnil : a.name ≠ .nil)
    (hadd : ∀ s, add N s a = (s, some (.error err))) :
    (Same (early N s a value).1 (late N s a value).1 ∧
      (early N s a value).2 = (late N s a value).2) ∧
    SameDefaults (early N s a value).1 (late N s a value).1 := by
  have hkept : Alike (unregWith s a.name value) s := ⟨rfl, rfl, rfl⟩
  rw [early_eq hallow hfree hnil, late, hadd, hadd, andThen_error]
  exact ⟨⟨hkept.same, rfl⟩, hkept.sameDefaults⟩

/-- One of the paths does not register: they agree when neither does, for the same reason. -/
theorem unregistered_agree {value : Val ν} (hallow : s.allowUnreg = true)
    (hfree : registered s a.name = none) (hname : a.name = .str n) (hn : n ∉ methods)
    (hnone : ¬∃ z x, readVal N a.vtype (earlyDefault a value) = .ok z ∧
      readVal N a.vtype (takeDefault s a.name a.default) = .ok x) :
    (Same (early N s a value).1 (late N s a value).1 ∧
        (early N s a value).2 = (late N s a value).2 ↔
      readVal N a.vtype (earlyDefault a value) =
        readVal N a.vtype (takeDefault s a.name a.default)) ∧
    (readVal N a.vtype (earlyDefault a value) =
        readVal N a.vtype (takeDefault s a.name a.default) →
      SameDefaults (early N s a value).1 (late N s a value).1) := by
  have halike := alike_clear s a.name value
  have hunreg := takeDefault_unregWith s a value
  rw [early_eq hallow hfree (by simp [hname])]
  cases hz : readVal N a.vtype (earlyDefault a value) with
  | error err =>
    rw [add_error hname hn (by rw [hunreg]; exact hz)]
    cases hx : readVal N a.vtype (takeDefault s a.name a.default) with
    | error err' =>
      rw [late, add_error hname hn hx, andThen_error]
      simp [halike.same, halike.sameDefaults]
    | ok x =>
      refine ⟨iff_of_false ?_ nofun, nofun⟩
      rintro ⟨hsame, hreport⟩
      cases hset : (setter a (fresh s) x).2 with
      | threw err' =>
        rw [late_threw hname hn hx hset] at hsame
        exact (not_same_put halike a n x _).1 hsame
      | returned status msg =>
        rw [late_returned hname hn hx hset, hname] at hsame
        cases hy : readVal N a.vtype (orFalse value) with
        | error err' =>
          rw [set_put_error hy, ← hname] at hsame
          exact (not_same_put halike a n x _).1 hsame
        | ok y =>
          rw [set_put_ok hy, ← hname] at hsame
          exact (not_same_put halike a n x _).1 hsame
  | ok z =>
    cases hx : readVal N a.vtype (takeDefault s a.name a.default) with
    | error err =>
      rw [add_ok hname hn (by rw [hunreg]; exact hz), late, add_error hname hn hx, andThen_error]
      refine ⟨iff_of_false (fun hsame => ?_) nofun, nofun⟩
      exact (not_same_put halike a n z _).2 hsame.1
    | ok x => exact absurd ⟨z, x, hz, hx⟩ hnone

/-- A name at which `_add` throws. -/
theorem name_thrown {value : Val ν} (hnil : a.name ≠ .nil)
    (hstr : ¬∃ n, a.name = .str n ∧ n ∉ methods) :
    (∃ err, ∀ s : State ν ω, add N s a = (s, some (.error err))) ∧ Commutes N s a value := by
  cases hname : a.name with
  | str n =>
    have hn : n ∈ methods := by simpa [hname] using hstr
    exact ⟨⟨_, fun s => by simp only [add, hname, if_pos hn]; rfl⟩, by simp [Commutes, hname, hn]⟩
  | nil => exact absurd hname hnil
  | bool b => exact ⟨⟨_, fun s => by simp only [add, hname]; rfl⟩, by simp [Commutes, hname]⟩
  | number k => exact ⟨⟨_, fun s => by simp only [add, hname]; rfl⟩, by simp [Commutes, hname]⟩
  | other type text =>
    exact ⟨⟨_, fun s => by simp only [add, hname]; rfl⟩, by simp [Commutes, hname]⟩

/-- Without a name both throw, with different errors. -/
theorem nil_differs {value : Val ν} (hallow : s.allowUnreg = true) (hnil : a.name = .nil) :
    (early N s a value).2 ≠ (late N s a value).2 := by
  have hset : set N s .nil value = (s, some (.error (.str (bytes "index is nil".toList)))) := by
    simp only [set, registered, hallow, if_true, keepUnreg]
  have hadd : add N s a = (s, some (.error (.str (bytes "pref name must be string".toList)))) := by
    simp only [add, hnil]
  rw [early, late, hadd, hnil, hset, andThen_error, andThen_error]
  simp only [ne_eq, List.cons.injEq, Failure.error.injEq, Val.str.injEq, and_true]
  decide

/-- A preference that is set before it is registered ends up as one that is set after this,
with the same failures, exactly when the calls commute; the field `default` is then the
same when the defaults are read the same. -/
theorem early_late_iff (N : Numbers ν) (s : State ν ω) (a : Adding ν ω) (value : Val ν)
    (hallow : s.allowUnreg = true) (hfree : registered s a.name = none) :
    (Same (early N s a value).1 (late N s a value).1 ∧
        (early N s a value).2 = (late N s a value).2 ↔ Commutes N s a value) ∧
    (Commutes N s a value → (SameDefaults (early N s a value).1 (late N s a value).1 ↔
      ∀ n, a.name = .str n → n ∉ methods →
        readVal N a.vtype (earlyDefault a value) =
          readVal N a.vtype (takeDefault s a.name a.default))) := by
  by_cases hstr : ∃ n, a.name = .str n ∧ n ∉ methods
  · obtain ⟨n, hname, hn⟩ := hstr
    have hforall : (∀ m, a.name = .str m → m ∉ methods → readVal N a.vtype (earlyDefault a value) =
        readVal N a.vtype (takeDefault s a.name a.default)) ↔
        readVal N a.vtype (earlyDefault a value) =
          readVal N a.vtype (takeDefault s a.name a.default) :=
      ⟨fun h => h n hname hn, fun h _ _ _ => h⟩
    rw [hforall]
    by_cases hboth : ∃ z x, readVal N a.vtype (earlyDefault a value) = .ok z ∧
        readVal N a.vtype (takeDefault s a.name a.default) = .ok x
    · obtain ⟨z, x, hz, hx⟩ := hboth
      obtain ⟨hagree, hdefaults⟩ := registered_agree hallow hfree hname hn hz hx
      rw [hagree, commutes_registered hname hn hz hx, hdefaults, hz, hx]
      exact ⟨Iff.rfl, fun _ => by simp⟩
    · obtain ⟨hagree, hdefaults⟩ := unregistered_agree hallow hfree hname hn hboth
      rw [hagree, commutes_unregistered hname hn hboth]
      exact ⟨Iff.rfl, fun heq => iff_of_true (hdefaults heq) heq⟩
  · have hforall : ∀ n, a.name = .str n → n ∉ methods → readVal N a.vtype (earlyDefault a value) =
        readVal N a.vtype (takeDefault s a.name a.default) :=
      fun n hname hn => absurd ⟨n, hname, hn⟩ hstr
    by_cases hnil : a.name = .nil
    · have hcommutes : ¬Commutes N s a value := by simp [Commutes, hnil]
      exact ⟨iff_of_false (fun h => nil_differs hallow hnil h.2) hcommutes,
        fun h => absurd h hcommutes⟩
    · obtain ⟨⟨err, hadd⟩, hcommutes⟩ := name_thrown (N := N) (s := s) hnil hstr
      obtain ⟨hagree, hdefaults⟩ := thrown_agree hallow hfree hnil hadd
      exact ⟨iff_of_true hagree hcommutes, fun _ => iff_of_true hdefaults hforall⟩

/-- Without a setter the values agree when the early one is read and taken. -/
theorem plain_commutes_iff {value z x : Val ν} (hname : a.name = .str n) (hn : n ∉ methods)
    (hplain : a.setFn = none) (hz : readVal N a.vtype (earlyDefault a value) = .ok z)
    (hx : readVal N a.vtype (takeDefault s a.name a.default) = .ok x) :
    Commutes N s a value ↔ readVal N a.vtype (orFalse value) = .ok z := by
  rw [commutes_registered hname hn hz hx, setter, hplain, Option.getD_none]
  have hset : ∀ (self : Self ν ω) (val : Val ν),
      defaultSet self val = ({ self with value := val }, .returned .nil .nil) := fun _ _ => rfl
  cases hy : readVal N a.vtype (orFalse value) with
  | error err => exact iff_of_false (not_settles _ (hset _ _)) nofun
  | ok y =>
    rw [settles_returned (hset _ _), hset, hset, Except.ok.injEq]
    constructor
    · rintro ⟨hself, -⟩
      exact (congrArg Self.value hself).symm
    · rintro rfl
      exact ⟨rfl, by simp [Outcome.throws, Outcome.fails]⟩

/-- Decimal digits are read. -/
def decimals : Numbers Nat := ⟨0, 1, digitsValue 10, numeralText 10⟩

def emptyState : State Nat Unit := ⟨fun _ => none, [], fun _ => .nil, true, ()⟩

def plainAdding (vtype : String) (default : Val Nat) : Adding Nat Unit where
  name := .str (bytes "pref".toList)
  vtype := .str (bytes vtype.toList)
  desc := .nil
  default := default
  getFn := none
  setFn := none

/-- A preference that is true by default and is set to false. -/
theorem early_false_lost :
    get decimals (early decimals emptyState (plainAdding "boolean" (.bool true)) (.bool false)).1
        (.str (bytes "pref".toList)) = .ok (.bool true) ∧
      get decimals (late decimals emptyState (plainAdding "boolean" (.bool true)) (.bool false)).1
        (.str (bytes "pref".toList)) = .ok (.bool false) := by
  exact ⟨rfl, rfl⟩

theorem early_late_witness :
    Same (early decimals emptyState (plainAdding "number" (.number 3)) (.str [53])).1
      (late decimals emptyState (plainAdding "number" (.number 3)) (.str [53])).1 := by
  have hcommutes : Commutes decimals emptyState (plainAdding "number" (.number 3)) (.str [53]) := by
    exact (plain_commutes_iff rfl (by decide) rfl rfl rfl).mpr rfl
  exact ((early_late_iff decimals emptyState (plainAdding "number" (.number 3)) (.str [53])
    rfl rfl).1.mpr hcommutes).1

end Prefs
