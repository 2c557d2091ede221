import Mathlib.Logic.Function.Basic
import Chdkptp.LuaText

/-!
# Preferences

`prefs`: values that modules register and that a configuration file may set before that.
What is set for a name that is not registered yet is kept, and `_add` takes it for the
default.
-/

namespace Prefs

open LuaValue LuaText

/-- The numbers of Lua, with what the language does with their texts. -/
structure Numbers (ν : Type) where
  zero : ν
  one : ν
  tonumber : LuaString → Option ν
  tostring : ν → LuaString

/-- A value of Lua. -/
inductive Val (ν : Type) where
  | nil
  | bool (b : Bool)
  | number (n : ν)
  | str (s : LuaString)
  /-- A value of another type, with the name of the type and what `tostring` returns. -/
  | other (type text : LuaString)
  deriving DecidableEq

variable {ν ω : Type}

namespace Val

def type : Val ν → LuaString
  | nil => bytes "nil".toList
  | bool _ => bytes "boolean".toList
  | number _ => bytes "number".toList
  | str _ => bytes "string".toList
  | other type _ => type

/-- nil and false are false. -/
def truthy : Val ν → Bool
  | nil => false
  | bool b => b
  | _ => true

def tostring (N : Numbers ν) : Val ν → LuaString
  | nil => bytes "nil".toList
  | bool b => bytes (if b then "true".toList else "false".toList)
  | number n => N.tostring n
  | str s => s
  | other _ text => text

end Val

/-! ## Types of preferences -/

variable [DecidableEq ν]

def invalidValue : LuaString := bytes "invalid value".toList

/-- `vtypes.boolean.parse` allows "true", "false", 0 and 1. -/
def parseBoolean (N : Numbers ν) (s : LuaString) : Except LuaString (Val ν) :=
  let s := lower s
  if s = bytes "true".toList ∨ N.tonumber s = some N.one then .ok (.bool true)
  else if s = bytes "false".toList ∨ N.tonumber s = some N.zero then .ok (.bool false)
  else .error invalidValue

def parseString (s : LuaString) : Except LuaString (Val ν) := .ok (.str s)

def parseNumber (N : Numbers ν) (s : LuaString) : Except LuaString (Val ν) :=
  match N.tonumber s with
  | some n => .ok (.number n)
  | none => .error invalidValue

/-- `vtypes[vtype].parse`. -/
def vtypes (N : Numbers ν) (vtype : Val ν) : Option (LuaString → Except LuaString (Val ν)) :=
  if vtype = .str (bytes "boolean".toList) then some (parseBoolean N)
  else if vtype = .str (bytes "string".toList) then some parseString
  else if vtype = .str (bytes "number".toList) then some (parseNumber N)
  else none

def readVal (N : Numbers ν) (vtype val : Val ν) : Except LuaString (Val ν) :=
  match vtypes N vtype with
  | none => .error (bytes "unknown vtype: ".toList ++ vtype.tostring N)
  | some parse =>
    if .str val.type = vtype then .ok val
    else match val with
      | .str s => parse s
      | _ => .error (bytes "invalid type ".toList ++ val.type)

/-! ## Registration -/

/-- What a setter works on: the field `value`, and what is outside of the module. -/
structure Self (ν ω : Type) where
  value : Val ν
  outside : ω
  deriving DecidableEq

inductive Outcome (ν : Type) where
  | returned (status msg : Val ν)
  | threw (err : Val ν)
  deriving DecidableEq

abbrev Getter (ν ω : Type) := Self ν ω → Val ν

abbrev Setter (ν ω : Type) := Self ν ω → Val ν → Self ν ω × Outcome ν

structure Pref (ν ω : Type) where
  vtype : Val ν
  desc : Val ν
  default : Val ν
  get : Getter ν ω
  set : Setter ν ω
  value : Val ν

/-- `prefs`, `order`, `unreg` and `allow_unreg`. -/
structure State (ν ω : Type) where
  prefs : LuaString → Option (Pref ν ω)
  order : List LuaString
  unreg : Val ν → Val ν
  allowUnreg : Bool
  outside : ω

/-- How a call fails: it returns false and a message, or it throws. -/
inductive Failure (ν : Type) where
  | refused (msg : Val ν)
  | error (err : Val ν)
  deriving DecidableEq

/-- The fields of the module, which are its methods. -/
def methods : List LuaString :=
  ["_add", "_each", "_describe", "_set", "_allow_unreg", "_get"].map fun m => bytes m.toList

/-- The arguments of `_add`; there may be no getter and no setter. -/
structure Adding (ν ω : Type) where
  name : Val ν
  vtype : Val ν
  desc : Val ν
  default : Val ν
  getFn : Option (Getter ν ω)
  setFn : Option (Setter ν ω)

def defaultGet : Getter ν ω := fun self => self.value

def defaultSet : Setter ν ω := fun self val => ({ self with value := val }, .returned .nil .nil)

/-- `p:set(val)` for a registered preference. -/
def callSet (s : State ν ω) (name : LuaString) (p : Pref ν ω) (val : Val ν) :
    State ν ω × Outcome ν :=
  let r := p.set ⟨p.value, s.outside⟩ val
  ({ s with
    prefs := Function.update s.prefs name (some { p with value := r.1.value })
    outside := r.1.outside }, r.2)

def orFalse (val : Val ν) : Val ν := if val = .nil then .bool false else val

/-- The default that `_add` works with. -/
def takeDefault (s : State ν ω) (name default : Val ν) : Val ν :=
  if (s.unreg name).truthy then s.unreg name else orFalse default

/-- What is kept for a name is dropped when it is taken. -/
def clearUnreg (s : State ν ω) (name : Val ν) : State ν ω :=
  if (s.unreg name).truthy then { s with unreg := Function.update s.unreg name .nil } else s

def newPref (a : Adding ν ω) (val : Val ν) : Pref ν ω where
  vtype := a.vtype
  desc := if a.desc.truthy then a.desc else .str []
  default := val
  get := a.getFn.getD defaultGet
  set := a.setFn.getD defaultSet
  value := .nil

/-- `m._add`. -/
def add (N : Numbers ν) (s : State ν ω) (a : Adding ν ω) : State ν ω × Option (Failure ν) :=
  match a.name with
  | .str name =>
    if name ∈ methods then
      (s, some (.error (.str (bytes "pref name conflicts with method: ".toList ++ name))))
    else
      let default := takeDefault s a.name a.default
      let s := clearUnreg s a.name
      match readVal N a.vtype default with
      | .error err => (s, some (.error (.str err)))
      | .ok val =>
        let p := newPref a val
        let s := { s with
          order := s.order ++ [name]
          prefs := Function.update s.prefs name (some p) }
        -- the result of the setter is not looked at
        match callSet s name p val with
        | (s, .returned _ _) => (s, none)
        | (s, .threw err) => (s, some (.error err))
  | _ => (s, some (.error (.str (bytes "pref name must be string".toList))))

/-- The preference of a name; only strings are registered. -/
def registered (s : State ν ω) : Val ν → Option (LuaString × Pref ν ω)
  | .str name => (s.prefs name).map fun p => (name, p)
  | _ => none

/-- Assigning to `unreg[name]`. -/
def keepUnreg (s : State ν ω) (name value : Val ν) : State ν ω × Option (Failure ν) :=
  if name = .nil then (s, some (.error (.str (bytes "index is nil".toList))))
  else ({ s with unreg := Function.update s.unreg name value }, none)

/-- `m._set`. -/
def set (N : Numbers ν) (s : State ν ω) (name value : Val ν) : State ν ω × Option (Failure ν) :=
  let value := orFalse value
  match registered s name with
  | some (n, p) =>
    match readVal N p.vtype value with
    | .error err => (s, some (.refused (.str err)))
    | .ok value =>
      match callSet s n p value with
      -- nil is treated as OK, so setters don't have to return a value
      | (s, .returned status msg) =>
        if status.truthy ∨ status = .nil then (s, none) else (s, some (.refused msg))
      | (s, .threw err) => (s, some (.error err))
  | none =>
    if s.allowUnreg then keepUnreg s name value
    else (s, some (.refused (.str (bytes "invalid pref: ".toList ++ name.tostring N))))

/-- `m._get`. -/
def get (N : Numbers ν) (s : State ν ω) (name : Val ν) : Except LuaString (Val ν) :=
  match registered s name with
  | some (_, p) => .ok (p.get ⟨p.value, s.outside⟩)
  | none => .error (bytes "invalid pref: ".toList ++ name.tostring N)

end Prefs
