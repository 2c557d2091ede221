import Chdkptp.VarSubst

/-!
# Templates

What `varsubst` accepts: the test of a template runs the same scanner as the expansion,
with other texts in place of the variables. A pair of braces that is matched has only
matched braces inside, so the test has to look for `${` in its own result only.
-/

namespace VarSubst

open LuaValue LuaText RemoteCapture

abbrev Call := Option LuaString → Option LuaString → Except LuaError LuaString

/-! ## Matched braces -/

/-- Every brace that is opened is closed. -/
def Closes (s : LuaString) : Prop := ∀ q t, s = q ++ openBrace :: t → (group 0 t).isSome

theorem Closes.of_suffix {s t : LuaString} (h : Closes s) (ht : t <:+ s) : Closes t := by
  obtain ⟨q, rfl⟩ := ht
  rintro q' t' rfl
  exact h (q ++ q') t' (by simp)

section Groups

variable {depth : Nat} {c : UInt8} {s inner rest : LuaString}

/-- What the first character of a group does. -/
theorem group_cons (h : group depth (c :: s) = some (inner, rest)) :
    (c = closeBrace ∧ depth = 0 ∧ inner = [] ∧ rest = s) ∨
      (c = closeBrace ∧ ∃ d i, depth = d + 1 ∧ inner = c :: i ∧ group d s = some (i, rest)) ∨
      (c = openBrace ∧ ∃ i, inner = c :: i ∧ group (depth + 1) s = some (i, rest)) ∨
      (c ≠ closeBrace ∧ c ≠ openBrace ∧ ∃ i, inner = c :: i ∧ group depth s = some (i, rest)) := by
  have hmap : ∀ d, (group d s).map (fun g => (c :: g.1, g.2)) = some (inner, rest) →
      ∃ i, inner = c :: i ∧ group d s = some (i, rest) := by
    intro d hg
    obtain ⟨⟨i, r⟩, hgroup, heq⟩ := Option.map_eq_some_iff.mp hg
    obtain ⟨rfl, rfl⟩ := Prod.mk.inj heq
    exact ⟨i, rfl, hgroup⟩
  by_cases hclose : c = closeBrace
  · rw [group.eq_def] at h
    simp only [if_pos hclose] at h
    cases depth with
    | zero =>
      cases h
      exact .inl ⟨hclose, rfl, rfl, rfl⟩
    | succ d =>
      obtain ⟨i, hi, hg⟩ := hmap d h
      exact .inr (.inl ⟨hclose, d, i, rfl, hi, hg⟩)
  · by_cases hopen : c = openBrace
    · rw [group.eq_def] at h
      simp only [if_neg hclose, if_pos hopen] at h
      exact .inr (.inr (.inl ⟨hopen, hmap _ h⟩))
    · rw [group.eq_def] at h
      simp only [if_neg hclose, if_neg hopen] at h
      exact .inr (.inr (.inr ⟨hclose, hopen, hmap _ h⟩))

/-- In a group with some groups open around it each of them is closed. -/
theorem group_inner {k : Nat} (hk : k < depth) (h : group depth s = some (inner, rest)) :
    (group k inner).isSome := by
  induction s generalizing depth k inner with
  | nil => cases h
  | cons c s ih =>
    obtain ⟨-, rfl, -, -⟩ | ⟨rfl, d, i, rfl, rfl, hg⟩ | ⟨rfl, i, rfl, hg⟩ | ⟨hc, ho, i, rfl, hg⟩ :=
      group_cons h
    · omega
    · cases k with
      | zero => rfl
      | succ k => simpa [group] using ih (by omega) hg
    · have hne : openBrace ≠ closeBrace := by decide
      simpa [group, hne] using ih (by omega : k + 1 < depth + 1) hg
    · simpa [group, hc, ho] using ih hk hg

theorem group_closes (h : group depth s = some (inner, rest)) : Closes inner := by
  induction s generalizing depth inner with
  | nil => cases h
  | cons c s ih =>
    have hcons : ∀ d i, group d s = some (i, rest) → inner = c :: i →
        (c = openBrace → 0 < d) → Closes inner := by
      rintro d i hg rfl hopen q t heq
      cases q with
      | nil =>
        obtain ⟨rfl, rfl⟩ := List.cons.inj heq
        exact group_inner (hopen rfl) hg
      | cons c' q =>
        obtain ⟨-, rfl⟩ := List.cons.inj heq
        exact ih hg q t rfl
    obtain ⟨-, -, rfl, -⟩ | ⟨hc, d, i, -, hi, hg⟩ | ⟨-, i, hi, hg⟩ | ⟨-, ho, i, hi, hg⟩ := group_cons h
    · intro q t heq
      simp at heq
    · exact hcons d i hg hi fun ho => absurd (hc.symm.trans ho) (by decide)
    · exact hcons (depth + 1) i hg hi fun _ => by omega
    · exact hcons depth i hg hi fun hc => absurd hc ho

theorem group_suffix (h : group depth s = some (inner, rest)) : rest <:+ s := by
  induction s generalizing depth inner with
  | nil => cases h
  | cons c s ih =>
    obtain ⟨-, -, -, rfl⟩ | ⟨-, d, i, -, -, hg⟩ | ⟨-, i, -, hg⟩ | ⟨-, -, i, -, hg⟩ := group_cons h
    · exact List.suffix_cons c rest
    · exact (ih hg).trans (List.suffix_cons c s)
    · exact (ih hg).trans (List.suffix_cons c s)
    · exact (ih hg).trans (List.suffix_cons c s)

theorem variableAt_suffix (h : variableAt s = some (inner, rest)) : rest <:+ s := by
  unfold variableAt at h
  split at h
  · rename_i c d s
    split at h
    · exact ((group_suffix h).trans (List.suffix_cons d s)).trans (List.suffix_cons c _)
    · cases h
  · cases h

theorem variableAt_closes (h : variableAt s = some (inner, rest)) : Closes inner := by
  unfold variableAt at h
  split at h
  · split at h
    · exact group_closes h
    · cases h
  · cases h

end Groups

theorem argText_suffix {str arg : LuaString} (h : argText str = some arg) : arg <:+ str := by
  unfold argText at h
  split at h
  · cases h
  · rename_i c s hdrop
    obtain rfl := Option.some.inj h
    have hcomma : c :: s <:+ str := hdrop ▸ List.dropWhile_suffix _
    exact ((List.dropWhile_suffix isSpace).trans (List.suffix_cons c s)).trans hcomma

theorem parseVar_suffix {str arg : LuaString} {func : Option LuaString}
    (h : parseVar str = .ok (func, some arg)) : arg <:+ str := by
  simp only [parseVar] at h
  split at h
  · cases h
  · split at h
    · rename_i harg
      cases h
      exact argText_suffix harg
    · cases h

/-! ## The scanner -/

section Run

variable (call : Call) {s inner rest : LuaString}

theorem run_char {c : UInt8} (h : variableAt (c :: s) = none) :
    run call (c :: s) = do
      let r ← run call s
      return c :: r := by
  rw [run]
  split
  · rfl
  · rename_i hv
    rw [h] at hv
    cases hv

theorem run_failed {e : LuaError} (h : variableAt s = some (inner, rest))
    (hp : parseVar inner = .error e) : run call s = .error e := by
  cases s with
  | nil => cases h
  | cons c s =>
    rw [run]
    split <;> rename_i hv <;> rw [h] at hv <;> cases hv
    split <;> rename_i hp' <;> rw [hp] at hp' <;> cases hp'
    rfl

theorem run_name {func : Option LuaString} (h : variableAt s = some (inner, rest))
    (hp : parseVar inner = .ok (func, none)) :
    run call s = do
      let val ← call func none
      let r ← run call rest
      return val ++ r := by
  cases s with
  | nil => cases h
  | cons c s =>
    rw [run]
    split <;> rename_i hv <;> rw [h] at hv <;> cases hv
    split <;> rename_i hp' <;> rw [hp] at hp' <;> cases hp'
    rfl

theorem run_args {func : Option LuaString} {arg : LuaString}
    (h : variableAt s = some (inner, rest)) (hp : parseVar inner = .ok (func, some arg)) :
    run call s = do
      let arg ← run call arg
      let val ← call func (some arg)
      let r ← run call rest
      return val ++ r := by
  cases s with
  | nil => cases h
  | cons c s =>
    rw [run]
    split <;> rename_i hv <;> rw [h] at hv <;> cases hv
    split <;> rename_i hp' <;> rw [hp] at hp' <;> cases hp'
    rfl

end Run

/-- Induction along the scanner. -/
theorem scan_induction {P : LuaString → Prop} (nil : P [])
    (char : ∀ c s, variableAt (c :: s) = none → P s → P (c :: s))
    (failed : ∀ s inner rest e, variableAt s = some (inner, rest) → parseVar inner = .error e → P s)
    (name : ∀ s inner rest func, variableAt s = some (inner, rest) →
      parseVar inner = .ok (func, none) → P rest → P s)
    (args : ∀ s inner rest func arg, variableAt s = some (inner, rest) →
      parseVar inner = .ok (func, some arg) → P arg → P rest → P s) (s : LuaString) : P s := by
  induction hlen : s.length using Nat.strong_induction_on generalizing s with
  | _ n ih =>
    cases s with
    | nil => exact nil
    | cons c s =>
      cases hv : variableAt (c :: s) with
      | none => exact char c s hv (ih s.length (by simp [← hlen]) s rfl)
      | some v =>
        obtain ⟨inner, rest⟩ := v
        have hshort := variableAt_length hv
        have hrest : P rest := ih rest.length (by omega) rest rfl
        cases hp : parseVar inner with
        | error e => exact failed _ _ _ e hv hp
        | ok p =>
          obtain ⟨func, arg⟩ := p
          cases arg with
          | none => exact name _ _ _ func hv hp hrest
          | some arg =>
            have harg := parseVar_length hp
            exact args _ _ _ func arg hv hp (ih arg.length (by omega) arg rfl) hrest

/-! ## The test of a template -/

variable {state : Type} {funcs : Funcs state}

/-- `subst:validate(str)`. -/
def validate (funcs : Funcs state) (str : LuaString) : Except LuaError LuaString := do
  let r ← names funcs str
  if [dollar, openBrace] <:+: r then .error unclosed else .ok r

theorem validateFuncs_eq (funcs : Funcs state) (str : LuaString) :
    validateFuncs funcs str = (validate funcs str).map fun _ => () := by
  rw [validateFuncs, validate]
  cases names funcs str with
  | error e => rfl
  | ok r =>
    by_cases hr : [dollar, openBrace] <:+: r
    · simp [bind, Except.bind, Except.map, hr]
    · simp [bind, Except.bind, Except.map, hr]

/-- Every `${` that the scanner comes to, in the string and in the arguments, begins a
substitution by a function that there is. -/
inductive Substituted (funcs : Funcs state) : LuaString → Prop
  | nil : Substituted funcs []
  | char {c s} : ¬[dollar, openBrace] <+: c :: s → Substituted funcs s → Substituted funcs (c :: s)
  | name {s inner rest func} : variableAt s = some (inner, rest) →
      parseVar inner = .ok (some func, none) → (funcs func).isSome → Substituted funcs rest →
      Substituted funcs s
  | args {s inner rest func arg} : variableAt s = some (inner, rest) →
      parseVar inner = .ok (some func, some arg) → (funcs func).isSome → Substituted funcs arg →
      Substituted funcs rest → Substituted funcs s

/-- What the test does in place of a call. -/
def nameOf (funcs : Funcs state) : Call := fun func _ =>
  match func with
  | some name => if (funcs name).isSome then .ok name else .error (unknownFunction func)
  | none => .error (unknownFunction func)

theorem names_eq (funcs : Funcs state) : names funcs = run (nameOf funcs) := rfl

theorem nameOf_ok {func arg : Option LuaString} {val : LuaString}
    (h : nameOf funcs func arg = .ok val) : func = some val ∧ (funcs val).isSome := by
  cases func with
  | none => cases h
  | some name =>
    simp only [nameOf] at h
    split at h
    · cases h
      exact ⟨rfl, ‹_›⟩
    · cases h

theorem except_bind_ok {ε α β : Type} {x : Except ε α} {f : α → Except ε β} {b : β}
    (h : (x >>= f) = .ok b) : ∃ a, x = .ok a ∧ f a = .ok b := by
  cases x with
  | error e => cases h
  | ok a => exact ⟨a, rfl, h⟩

/-- A `${` that does not begin a variable is not closed, and stays in the result. -/
theorem not_open {c : UInt8} {s r : LuaString} (hv : variableAt (c :: s) = none)
    (hrun : names funcs s = .ok r) (h : Closes (c :: s) ∨ ¬[dollar, openBrace] <:+: c :: r) :
    ¬[dollar, openBrace] <+: c :: s := by
  rintro ⟨t, heq⟩
  obtain ⟨rfl, rfl⟩ : dollar = c ∧ openBrace :: t = s := by simpa using heq
  obtain hcloses | hinfix := h
  · have hgroup := hcloses [dollar] t rfl
    simp only [variableAt, and_self, if_true] at hv
    rw [hv] at hgroup
    cases hgroup
  · have hbrace : variableAt (openBrace :: t) = none := by
      cases t with
      | nil => rfl
      | cons d t =>
        have hne : openBrace ≠ dollar := by decide
        simp [variableAt, hne]
    rw [names_eq, run_char _ hbrace] at hrun
    obtain ⟨r', -, hr⟩ := except_bind_ok hrun
    cases hr
    exact hinfix ⟨[], r', rfl⟩

theorem substituted_of_names {str r : LuaString} (hrun : names funcs str = .ok r)
    (h : Closes str ∨ ¬[dollar, openBrace] <:+: r) : Substituted funcs str := by
  induction str using scan_induction generalizing r with
  | nil => exact .nil
  | char c s hv ih =>
    rw [names_eq, run_char _ hv] at hrun
    obtain ⟨r', hr', hr⟩ := except_bind_ok hrun
    cases hr
    refine .char (not_open hv hr' h) (ih hr' ?_)
    exact h.imp (fun h => h.of_suffix (List.suffix_cons c s))
      fun h hin => h (hin.trans (List.suffix_cons c r').isInfix)
  | failed s inner rest e hv hp =>
    rw [names_eq, run_failed _ hv hp] at hrun
    cases hrun
  | name s inner rest func hv hp ih =>
    rw [names_eq, run_name _ hv hp] at hrun
    obtain ⟨val, hval, hrest⟩ := except_bind_ok hrun
    obtain ⟨r', hr', hr⟩ := except_bind_ok hrest
    cases hr
    obtain ⟨rfl, hsome⟩ := nameOf_ok hval
    refine .name hv hp hsome (ih hr' ?_)
    exact h.imp (fun h => h.of_suffix (variableAt_suffix hv))
      fun h hin => h (hin.trans (List.suffix_append val r').isInfix)
  | args s inner rest func arg hv hp iharg ih =>
    rw [names_eq, run_args _ hv hp] at hrun
    obtain ⟨a, ha, hcall⟩ := except_bind_ok hrun
    obtain ⟨val, hval, hrest⟩ := except_bind_ok hcall
    obtain ⟨r', hr', hr⟩ := except_bind_ok hrest
    cases hr
    obtain ⟨rfl, hsome⟩ := nameOf_ok hval
    -- the arguments are the end of a group, so no brace is left open in them
    have hcloses : Closes arg := (variableAt_closes hv).of_suffix (parseVar_suffix hp)
    refine .args hv hp hsome (iharg ha (.inl hcloses)) (ih hr' ?_)
    exact h.imp (fun h => h.of_suffix (variableAt_suffix hv))
      fun h hin => h (hin.trans (List.suffix_append val r').isInfix)

theorem substituted_of_validate {str r : LuaString} (h : validate funcs str = .ok r) :
    Substituted funcs str := by
  obtain ⟨r', hr', hok⟩ := except_bind_ok h
  split at hok
  · cases hok
  · exact substituted_of_names hr' (.inr ‹_›)

/-! ## The expansion of a template -/

/-- A substitution of `subst:run(str)`. -/
def callFunc (funcs : Funcs state) (st : state) : Call := fun func arg =>
  match func.bind funcs with
  | some f => f st arg
  | none => .error (unknownFunction func)

theorem expand_eq (funcs : Funcs state) (st : state) : expand funcs st = run (callFunc funcs st) :=
  rfl

/-- The functions return strings. -/
def Returning (funcs : Funcs state) : Prop :=
  ∀ name f, funcs name = some f → ∀ st arg, ∃ r, f st arg = .ok r

theorem Returning.callFunc (h : Returning funcs) {name : LuaString} (hname : (funcs name).isSome)
    (st : state) (arg : Option LuaString) : ∃ r, callFunc funcs st (some name) arg = .ok r := by
  obtain ⟨f, hf⟩ := Option.isSome_iff_exists.mp hname
  obtain ⟨r, hr⟩ := h name f hf st arg
  exact ⟨r, by rw [VarSubst.callFunc, Option.bind_some, hf]; exact hr⟩

theorem Substituted.expands (hfuncs : Returning funcs) (st : state) {str : LuaString}
    (h : Substituted funcs str) : ∃ r, expand funcs st str = .ok r := by
  rw [expand_eq]
  induction h with
  | nil => exact ⟨[], by rw [run]⟩
  | @char c s hopen hs ih =>
    obtain ⟨r, hr⟩ := ih
    have hv : variableAt (c :: s) = none := by
      cases s with
      | nil => rfl
      | cons d s =>
        have hnot : ¬(c = dollar ∧ d = openBrace) := by
          rintro ⟨rfl, rfl⟩
          exact hopen ⟨s, rfl⟩
        simp [variableAt, hnot]
    exact ⟨c :: r, by rw [run_char _ hv, hr]; rfl⟩
  | name hv hp hsome hrest ih =>
    obtain ⟨val, hval⟩ := hfuncs.callFunc hsome st none
    obtain ⟨r, hr⟩ := ih
    exact ⟨val ++ r, by rw [run_name _ hv hp, hval, hr]; rfl⟩
  | args hv hp hsome harg hrest iharg ih =>
    obtain ⟨a, ha⟩ := iharg
    obtain ⟨val, hval⟩ := hfuncs.callFunc hsome st (some a)
    obtain ⟨r, hr⟩ := ih
    exact ⟨val ++ r, by rw [run_args _ hv hp, ha]; simp only [bind, Except.bind, hval, hr]; rfl⟩

/-- The one function `f` returns its arguments. -/
def echo : Funcs Unit := fun name =>
  if name = bytes "f".toList then some fun _ arg => .ok (arg.getD []) else none

def comma : UInt8 := byte ','

structure IsName (w : LuaString) : Prop where
  ne_nil : w ≠ []
  word : ∀ c ∈ w, isWord c = true

theorem IsName.no_comma {w : LuaString} (h : IsName w) : comma ∉ w :=
  fun hmem => absurd (h.word comma hmem) (by decide)

/-- `name,args`. -/
def WithArgs (text : LuaString) : Prop :=
  ∃ name args, IsName name ∧ text = name ++ comma :: args

theorem takeWhile_comma {w : LuaString} (hw : comma ∉ w) (s : LuaString) :
    (w ++ comma :: s).takeWhile (fun c => c ≠ comma) = w := by
  have hall : ∀ c ∈ w, decide (c ≠ comma) = true := by
    intro c hc
    simpa using fun h : c = comma => hw (h ▸ hc)
  rw [List.takeWhile_append_of_pos hall]
  simp

theorem argText_comma {w : LuaString} (hw : comma ∉ w) (s : LuaString) :
    argText (w ++ comma :: s) = some (s.dropWhile isSpace) := by
  have hall : ∀ c ∈ w, decide (c ≠ byte ',') = true := by
    intro c hc
    have hne : c ≠ byte ',' := by
      rintro rfl
      exact hw hc
    simpa using hne
  have hdrop : (comma :: s).dropWhile (fun c => decide (c ≠ byte ',')) = comma :: s := by
    simp [comma]
  rw [argText, List.dropWhile_append_of_pos hall, hdrop]

theorem parseVar_name {w : LuaString} (h : IsName w) : parseVar w = .ok (some w, none) := by
  have hfunc : funcName w = some w := by
    simp [funcName, List.takeWhile_eq_self_iff.mpr h.word, h.ne_nil]
  simp [parseVar, hfunc]

theorem parseVar_args {w : LuaString} (h : IsName w) (s : LuaString) :
    parseVar (w ++ comma :: s) = .ok (some w, some (s.dropWhile isSpace)) := by
  have hfunc : funcName (w ++ comma :: s) = some w := by
    have hcomma : isWord comma = false := by decide
    simp [funcName, List.takeWhile_append_of_pos h.word, hcomma, h.ne_nil]
  have hlen : (some w).map List.length ≠ some (w ++ comma :: s).length := by simp
  simp only [parseVar, hfunc, if_neg hlen, argText_comma h.no_comma]

theorem parseVar_no_comma {text : LuaString} (hc : comma ∉ text) (hname : ¬IsName text) :
    parseVar text = .error (parseFailed text) := by
  have hlen : (funcName text).map List.length ≠ some text.length := by
    intro h
    obtain ⟨w, hw, hlen⟩ := Option.map_eq_some_iff.mp h
    simp only [funcName, Option.ite_none_left_eq_some, Option.some.injEq] at hw
    obtain ⟨hne, rfl⟩ := hw
    have hself : text.takeWhile isWord = text :=
      (List.takeWhile_prefix isWord).eq_of_length hlen
    exact hname ⟨hself ▸ hne, List.takeWhile_eq_self_iff.mp hself⟩
  have hnone : argText text = none := by
    have hdrop : text.dropWhile (fun c => decide (c ≠ byte ',')) = [] := by
      rw [List.dropWhile_eq_nil_iff]
      intro c hmem
      have hne : c ≠ byte ',' := by
        rintro rfl
        exact hc hmem
      simpa using hne
    rw [argText, hdrop]
  simp only [parseVar, if_neg hlen, hnone]

/-- With a comma anywhere there is no parse error. -/
theorem parseVar_comma {text : LuaString} (hc : comma ∈ text) : ∃ p, parseVar text = .ok p := by
  obtain ⟨w, s, rfl, hw⟩ := List.eq_append_cons_of_mem hc
  simp only [parseVar, argText_comma hw]
  split
  · exact ⟨_, rfl⟩
  · exact ⟨_, rfl⟩

/-- The text can stand between the braces. -/
def Balanced (text : LuaString) : Prop := group 0 (text ++ [closeBrace]) = some (text, [])

def enclosed (text : LuaString) : LuaString := dollar :: openBrace :: (text ++ [closeBrace])

/-- `process_var` finds no parse error in the text itself. -/
def Accepts (text : LuaString) : Prop := ∃ p, parseVar text = .ok p

/-- What is written about the strings, `${name}` or `${name,args}`, holds of a text. -/
structure FollowsGrammar (funcs : Funcs state) (st : state) (text : LuaString) : Prop where
  accepts : Accepts text ↔ IsName text ∨ WithArgs text
  rejected : ¬Accepts text → expand funcs st (enclosed text) = .error (parseFailed text)
  called : IsName text → expand funcs st (enclosed text) = callFunc funcs st (some text) none
  called_args : ∀ name args, IsName name → text = name ++ comma :: args →
    expand funcs st (enclosed text) = do
      let arg ← expand funcs st (args.dropWhile isSpace)
      callFunc funcs st (some name) (some arg)

section Enclosed

variable (call : Call) {text : LuaString}

theorem Balanced.variableAt (h : Balanced text) : variableAt (enclosed text) = some (text, []) := by
  rw [Balanced] at h
  simpa [VarSubst.variableAt, enclosed] using h

theorem run_rest (x : Except LuaError LuaString) :
    (do
      let val ← x
      let r ← run call []
      return val ++ r) = x := by
  cases x with
  | error e => rfl
  | ok val =>
    rw [run]
    simp [bind, Except.bind, pure, Except.pure]

theorem run_enclosed_name {func : Option LuaString} (h : Balanced text)
    (hp : parseVar text = .ok (func, none)) : run call (enclosed text) = call func none := by
  rw [run_name _ h.variableAt hp, run_rest]

theorem run_enclosed_args {func : Option LuaString} {arg : LuaString} (h : Balanced text)
    (hp : parseVar text = .ok (func, some arg)) :
    run call (enclosed text) = (run call arg >>= fun arg => call func (some arg)) := by
  rw [run_args _ h.variableAt hp]
  cases run call arg with
  | error e => rfl
  | ok a => exact run_rest call _

end Enclosed

theorem accepts_iff (text : LuaString) :
    Accepts text ↔ comma ∈ text ∨ IsName text := by
  constructor
  · rintro ⟨p, hp⟩
    by_contra h
    rw [not_or] at h
    rw [parseVar_no_comma h.1 h.2] at hp
    cases hp
  · rintro (hc | hname)
    · exact parseVar_comma hc
    · exact ⟨_, parseVar_name hname⟩

theorem withArgs_iff (text : LuaString) :
    WithArgs text ↔ comma ∈ text ∧ IsName (text.takeWhile fun c => c ≠ comma) := by
  constructor
  · rintro ⟨name, args, hname, rfl⟩
    exact ⟨by simp, by rwa [takeWhile_comma hname.no_comma]⟩
  · rintro ⟨hc, hname⟩
    obtain ⟨w, s, rfl, hw⟩ := List.eq_append_cons_of_mem hc
    rw [takeWhile_comma hw] at hname
    exact ⟨w, s, hname, rfl⟩

/-- The search for the comma is not bound to where the name ends. -/
theorem follows_grammar_iff (funcs : Funcs state) (st : state) {text : LuaString}
    (h : Balanced text) :
    FollowsGrammar funcs st text ↔
      comma ∉ text ∨ IsName (text.takeWhile fun c => c ≠ comma) := by
  constructor
  · intro hg
    by_cases hc : comma ∈ text
    · obtain hname | hargs := hg.accepts.mp ((accepts_iff text).mpr (.inl hc))
      · exact absurd hc hname.no_comma
      · exact .inr ((withArgs_iff text).mp hargs).2
    · exact .inl hc
  · intro hcond
    refine ⟨?_, fun hno => ?_, fun hname => ?_, ?_⟩
    · rw [accepts_iff, withArgs_iff]
      tauto
    · have hboth := mt (accepts_iff text).mpr hno
      rw [not_or] at hboth
      exact run_failed _ h.variableAt (parseVar_no_comma hboth.1 hboth.2)
    · exact run_enclosed_name _ h (parseVar_name hname)
    · rintro name args hname rfl
      exact run_enclosed_args _ h (parseVar_args hname args)

theorem follows_grammar_iff_echo : FollowsGrammar echo () (bytes "f,x".toList) :=
  (follows_grammar_iff echo () (by unfold Balanced; decide)).mpr
    (.inr ⟨by decide, by decide +kernel⟩)

/-- `${f _,x}` is taken for `${f,x}`. -/
theorem not_follows_grammar : ¬FollowsGrammar echo () (bytes "f _,x".toList) := by
  intro h
  have haccepts : Accepts (bytes "f _,x".toList) := (accepts_iff _).mpr (.inl (by decide))
  obtain hname | hargs := h.accepts.mp haccepts
  · exact absurd (by decide) hname.no_comma
  · have hname := ((withArgs_iff _).mp hargs).2
    exact absurd (hname.word 32 (by decide)) (by decide)

end VarSubst
