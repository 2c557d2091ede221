import Chdkptp.RemoteCapture

/-!
# Substitutions in strings

`varsubst`: in a string, `${name}` and `${name,args}` stand for what a function returns.
The arguments are substituted first.
-/

namespace VarSubst

open LuaValue LuaText RemoteCapture

def dollar : UInt8 := 36

def openBrace : UInt8 := 123

def closeBrace : UInt8 := 125

/-- What stands before the brace that closes a group, and what follows it; `depth` groups
have been opened inside. -/
def group : (depth : Nat) → LuaString → Option (LuaString × LuaString)
  | _, [] => none
  | depth, c :: s =>
    if c = closeBrace then
      match depth with
      | 0 => some ([], s)
      | depth + 1 => (group depth s).map fun g => (c :: g.1, g.2)
    else if c = openBrace then (group (depth + 1) s).map fun g => (c :: g.1, g.2)
    else (group depth s).map fun g => (c :: g.1, g.2)

/-- `$(%b{})` at the front of a string. -/
def variableAt : LuaString → Option (LuaString × LuaString)
  | c :: d :: s => if c = dollar ∧ d = openBrace then group 0 s else none
  | _ => none

theorem group_length {depth : Nat} {s inner rest : LuaString}
    (h : group depth s = some (inner, rest)) : inner.length + rest.length < s.length := by
  induction s generalizing depth inner with
  | nil => simp [group] at h
  | cons c s ih =>
    have hmap : ∀ depth, (group depth s).map (fun g => (c :: g.1, g.2)) = some (inner, rest) →
        inner.length + rest.length < (c :: s).length := by
      intro depth hg
      obtain ⟨g, hgroup, heq⟩ := Option.map_eq_some_iff.mp hg
      obtain ⟨rfl, rfl⟩ := Prod.mk.inj heq
      have hlt := ih hgroup
      simp only [List.length_cons]
      omega
    rw [group.eq_def] at h
    split at h
    · cases h
    · rename_i depth c' s' heq
      obtain ⟨rfl, rfl⟩ := List.cons.inj heq
      split at h
      · split at h
        · cases h
          simp
        · exact hmap _ h
      · split at h
        · exact hmap _ h
        · exact hmap _ h

theorem variableAt_length {s inner rest : LuaString} (h : variableAt s = some (inner, rest)) :
    inner.length + rest.length < s.length := by
  unfold variableAt at h
  split at h
  · split at h
    · have hlt := group_length h
      simp only [List.length_cons]
      omega
    · cases h
  · cases h

/-! ## Single expressions -/

def parseFailed (str : LuaString) : LuaError :=
  .thrown (bytes "varsubst".toList) (bytes "parse failed ".toList ++ str)

/-- `tostring` of a name that may be nil. -/
def unknownFunction (func : Option LuaString) : LuaError :=
  .thrown (bytes "varsubst".toList)
    (bytes "unknown substitution function ".toList ++ func.getD (bytes "nil".toList))

/-- `^([%w_]+)`. -/
def funcName (str : LuaString) : Option LuaString :=
  let w := str.takeWhile isWord
  if w = [] then none else some w

/-- `,%s*(.*)$`: what follows the first comma and the blanks behind it. -/
def argText (str : LuaString) : Option LuaString :=
  match str.dropWhile (fun c => c ≠ byte ',') with
  | [] => none
  | _ :: s => some (s.dropWhile isSpace)

/-- The function and the arguments of an expression without its braces. -/
def parseVar (str : LuaString) : Except LuaError (Option LuaString × Option LuaString) :=
  let func := funcName str
  if func.map List.length = some str.length then .ok (func, none)
  else
    match argText str with
    | some arg => .ok (func, some arg)
    | none => .error (parseFailed str)

theorem argText_length {str arg : LuaString} (h : argText str = some arg) :
    arg.length ≤ str.length := by
  unfold argText at h
  split at h
  · cases h
  · rename_i c s hdrop
    obtain rfl := Option.some.inj h
    have hcomma : (c :: s).length ≤ str.length :=
      hdrop ▸ (List.dropWhile_sublist fun c => decide (c ≠ byte ',')).length_le
    have hblank : (s.dropWhile isSpace).length ≤ s.length :=
      (List.dropWhile_sublist isSpace).length_le
    rw [List.length_cons] at hcomma
    omega

theorem parseVar_length {str arg : LuaString} {func : Option LuaString}
    (h : parseVar str = .ok (func, some arg)) : arg.length ≤ str.length := by
  unfold parseVar at h
  simp only at h
  split at h
  · cases h
  · split at h
    · rename_i harg
      cases h
      exact argText_length harg
    · cases h

/-! ## Strings -/

/-- `methods.run`; `call` is what is done with a function's name and its arguments. -/
def run (call : Option LuaString → Option LuaString → Except LuaError LuaString) :
    LuaString → Except LuaError LuaString
  | [] => .ok []
  | c :: s =>
    match hv : variableAt (c :: s) with
    | none => do
      let r ← run call s
      return c :: r
    | some (inner, rest) =>
      have := variableAt_length hv
      match hp : parseVar inner with
      | .error e => .error e
      | .ok (func, none) => do
        let val ← call func none
        let r ← run call rest
        return val ++ r
      | .ok (func, some arg) => do
        have := parseVar_length hp
        let arg ← run call arg
        let val ← call func (some arg)
        let r ← run call rest
        return val ++ r
termination_by str => str.length
decreasing_by all_goals simp only [List.length_cons] at *; omega

/-- The functions for substitutions, which look at the state. -/
abbrev Funcs (state : Type) := LuaString → Option (state → Option LuaString → Except LuaError LuaString)

variable {state : Type}

/-- `subst:run(str)`. -/
def expand (funcs : Funcs state) (st : state) : LuaString → Except LuaError LuaString :=
  run fun func arg =>
    match func.bind funcs with
    | some f => f st arg
    | none => .error (unknownFunction func)

/-- `subst:run(str, true)`: variables are replaced by their names. -/
def names (funcs : Funcs state) : LuaString → Except LuaError LuaString :=
  run fun func _ =>
    match func with
    | some name => if (funcs name).isSome then .ok name else .error (unknownFunction func)
    | none => .error (unknownFunction func)

def unclosed : LuaError := .thrown (bytes "varsubst".toList) (bytes "unclosed $\x7b".toList)

/-- `varsubst.validate_funcs`. -/
def validateFuncs (funcs : Funcs state) (str : LuaString) : Except LuaError Unit := do
  let r ← names funcs str
  if [dollar, openBrace] <:+: r then .error unclosed else .ok ()

theorem run_of_no_dollar {call : Option LuaString → Option LuaString → Except LuaError LuaString}
    {str : LuaString} (h : dollar ∉ str) : run call str = .ok str := by
  induction str with
  | nil => simp [run]
  | cons c s ih =>
    obtain ⟨hc, hs⟩ : dollar ≠ c ∧ dollar ∉ s := by simpa using h
    have hnone : variableAt (c :: s) = none := by
      cases s with
      | nil => rfl
      | cons d s => simp [variableAt, Ne.symm hc]
    rw [run]
    split
    · rw [ih hs]
      rfl
    · rename_i inner rest hsome
      rw [hnone] at hsome
      cases hsome

end VarSubst
