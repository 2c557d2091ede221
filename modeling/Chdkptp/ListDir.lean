import Chdkptp.LuaLiteral
import Chdkptp.SerializeOptions
import Mathlib.Data.List.DropRight

/-!
# Listing a directory

`con:listdir` writes the code that it sends by itself, where the other calls of camera
functions go through `con:call_remote`, which serializes its arguments. The code goes to the
camera as a C string behind the code of the libraries.
-/

namespace ListDir

open LuaValue LuaText LuaSerialize SerializeOptions LuaLiteral

/-! ## The functions -/

inductive Failure where
  /-- `return false, "invalid options"` -/
  | invalidOptions
  | raised (e : CallError)

section Code

variable (tostring : Int → LuaString) (heap : Heap)

def serialized (v : Value) : Except Failure LuaString :=
  (utilSerialize tostring heap v none).mapError .raised

/-- What stands in the code for the options; a string is code already. -/
def optsCode : Value → Except Failure LuaString
  | .nil => .ok []
  | .scalar (.str opts) => .ok (byte ',' :: opts)
  | .table ref => (serialized tostring heap (.table ref)).map fun opts => byte ',' :: opts
  | _ => .error .invalidOptions

def lsHead : LuaString := bytes "return ls(".toList

/-- The code that `con:listdir` runs. -/
def listdir (path : LuaString) (opts : Value) : Except Failure LuaString :=
  (optsCode tostring heap opts).map fun opts =>
    lsHead ++ byte '\'' :: (path ++ byte '\'' :: (opts ++ [byte ')']))

/-- The code that `con:call_remote` runs; nils at the end are not passed. -/
def call_remote (func : LuaString) (args : List Value) : Except Failure LuaString :=
  ((args.rdropWhile (· = .nil)).mapM (serialized tostring heap)).map fun argstrs =>
    bytes "return ".toList ++ func ++ byte '(' ::
      (List.intercalate [byte ','] argstrs ++ [byte ')'])

/-- The call that is documented: path and options as `con:call_remote` passes them, where a
string is the code of the table, and other options are refused. -/
def documented (path : LuaString) : Value → Except Failure LuaString
  | .nil => call_remote tostring heap (bytes "ls".toList) [.str path, .nil]
  | .table ref => call_remote tostring heap (bytes "ls".toList) [.str path, .table ref]
  | .scalar (.str opts) => (serialized tostring heap (.str path)).map fun path =>
      lsHead ++ (path ++ (byte ',' :: opts ++ [byte ')']))
  | _ => .error .invalidOptions

end Code

/-! ## The camera -/

/-- The code of the libraries, which has no zero byte. -/
structure Libs where
  code : LuaString
  no_zero : (0 : UInt8) ∉ code

/-- What the camera gets: `execlua` takes its argument for a C string. -/
def received (libs : Libs) (code : LuaString) : LuaString :=
  (libs.code ++ code).takeWhile (· ≠ 0)

/-- The string that begins the arguments of `ls`, and the code behind it. -/
def lsArgument (text : LuaString) : Option (LuaString × LuaString) :=
  if text.take lsHead.length = lsHead then
    match text.drop lsHead.length with
    | q :: s => if q = byte '"' ∨ q = byte '\'' then readString q .plain s else none
    | [] => none
  else none

/-- The call of `ls` behind the libraries. -/
def lsCall (libs : Libs) (code : LuaString) : Option (LuaString × LuaString) :=
  lsArgument ((received libs code).drop libs.code.length)

/-- `ls` is called with the path, and the rest of the code is that of the documented call. -/
def Passes (libs : Libs) (tostring : Int → LuaString) (heap : Heap) (path : LuaString)
    (opts : Value) : Prop :=
  match listdir tostring heap path opts, documented tostring heap path opts with
  | .ok code, .ok expected => lsCall libs code = lsCall libs expected ∧
      ∃ rest, lsCall libs code = some (path, rest)
  | .error e, .error e' => e = e'
  | _, _ => False

/-- Nothing in the path ends a string in single quotes, escapes a character in it, or ends the
code. -/
def Harmless (path : LuaString) : Prop := Plain (byte '\'') path ∧ (0 : UInt8) ∉ path

section Calls

variable {libs : Libs} {tostring : Int → LuaString} {heap : Heap} {path s t : LuaString}

/-- The code up to the first zero byte. -/
def cstring (s : LuaString) : LuaString := s.takeWhile (· ≠ 0)

theorem cstring_append (h : (0 : UInt8) ∉ s) : cstring (s ++ t) = s ++ cstring t := by
  apply List.takeWhile_append_of_pos
  intro c hc
  simpa using fun hzero : c = 0 => h (hzero ▸ hc)

theorem lsCall_head (s : LuaString) : lsCall libs (lsHead ++ s) =
    match cstring s with
    | q :: s => if q = byte '"' ∨ q = byte '\'' then readString q .plain s else none
    | [] => none := by
  have hhead : (0 : UInt8) ∉ lsHead := by decide +kernel
  have hreceived : received libs (lsHead ++ s) = libs.code ++ (lsHead ++ cstring s) := by
    change cstring (libs.code ++ (lsHead ++ s)) = _
    rw [cstring_append libs.no_zero, cstring_append hhead]
  rw [lsCall, hreceived, List.drop_left, lsArgument, List.take_left, if_pos rfl, List.drop_left]
  rfl

theorem cstring_of_mem (h : (0 : UInt8) ∈ s) (t : LuaString) : cstring (s ++ t) = cstring s := by
  have hstep : ∀ (c : UInt8) (u : LuaString), c ≠ 0 → cstring (c :: u) = c :: cstring u :=
    fun c u hc => List.takeWhile_cons_of_pos (by simpa using hc)
  induction s with
  | nil => cases h
  | cons c s ih =>
    by_cases hc : c = 0
    · simp [cstring, hc]
    · have hs : (0 : UInt8) ∈ s := (List.mem_cons.mp h).resolve_left (Ne.symm hc)
      rw [List.cons_append, hstep c _ hc, hstep c _ hc, ih hs]

theorem escape52_no_zero (c : UInt8) (nx : Option UInt8) : (0 : UInt8) ∉ escape52 c nx := by
  have hdigits : ∀ w : LuaString, (∀ c ∈ w, isDigit c = true) → (0 : UInt8) ∉ w :=
    fun w hw hzero => absurd (hw 0 hzero) (by decide)
  rw [escape52]
  split
  · next hspecial =>
    have hc : c ≠ 0 := by
      rintro rfl
      exact absurd hspecial (by decide)
    simpa [byte] using hc.symm
  · split
    · rw [List.mem_cons, not_or]
      refine ⟨by decide, ?_⟩
      split
      · exact hdigits _ (pad3_digits c.toNat)
      · exact hdigits _ (numeralText_digits c.toNat)
    · next hcontrol =>
      have hc : c ≠ 0 := by
        rintro rfl
        exact absurd (by decide) hcontrol
      simpa using hc.symm

theorem quoteTail_no_zero (s : LuaString) : (0 : UInt8) ∉ quoteTail escape52 s := by
  induction s with
  | nil => decide
  | cons c s ih =>
    rw [quoteTail, List.mem_append, not_or]
    exact ⟨escape52_no_zero c s.head?, ih⟩

/-- A path that was serialized is read back, whatever stands behind it. -/
theorem lsCall_quote (path t : LuaString) :
    lsCall libs (lsHead ++ (quote escape52 path ++ t)) = some (path, cstring t) := by
  have hquote : cstring (quote escape52 path ++ t) =
      byte '"' :: (quoteTail escape52 path ++ cstring t) := by
    apply cstring_append
    rw [quote, List.mem_cons, not_or]
    exact ⟨by decide, quoteTail_no_zero path⟩
  rw [lsCall_head, hquote]
  exact (if_pos (Or.inl rfl)).trans (readString_quoteTail escapes52 path (cstring t))

theorem lsCall_harmless (h : Harmless path) (t : LuaString) :
    lsCall libs (lsHead ++ byte '\'' :: (path ++ byte '\'' :: t)) = some (path, cstring t) := by
  have htext : cstring (byte '\'' :: (path ++ byte '\'' :: t)) =
      byte '\'' :: (path ++ byte '\'' :: cstring t) := by
    have hpath := @cstring_append path (byte '\'' :: t) h.2
    simp only [cstring] at hpath ⊢
    rw [List.takeWhile_cons_of_pos (by decide), hpath, List.takeWhile_cons_of_pos (by decide)]
  rw [lsCall_head, htext]
  exact (if_pos (Or.inr rfl)).trans (readString_plain h.1)

/-- A path between single quotes is read as it is only if nothing in it does any harm. -/
theorem harmless_of_lsCall {rest : LuaString}
    (h : lsCall libs (lsHead ++ byte '\'' :: (path ++ byte '\'' :: t)) = some (path, rest)) :
    Harmless path := by
  have htext : cstring (byte '\'' :: (path ++ byte '\'' :: t)) =
      byte '\'' :: cstring (path ++ byte '\'' :: t) := List.takeWhile_cons_of_pos (by decide)
  rw [lsCall_head, htext] at h
  have hread : readString (byte '\'') .plain (cstring (path ++ byte '\'' :: t)) =
      some (path, rest) := (if_pos (Or.inr rfl)).symm.trans h
  have hzero : (0 : UInt8) ∉ path := by
    intro hmem
    rw [cstring_of_mem hmem] at hread
    have hle : path.length + 1 + rest.length ≤ (cstring path).length + 0 := length_readString hread
    have hsub : (cstring path).length ≤ path.length := (List.takeWhile_sublist _).length_le
    omega
  have hclose : cstring (byte '\'' :: t) = byte '\'' :: cstring t :=
    List.takeWhile_cons_of_pos (by decide)
  rw [cstring_append hzero, hclose] at hread
  exact ⟨plain_of_readString (Or.inr rfl) hread, hzero⟩

theorem serialized_str (s : LuaString) :
    serialized tostring heap (.str s) = .ok (quote escape52 s) := by
  rw [serialized, utilSerialize, serializeWith_str]
  rfl

theorem call_remote_ok {args : List Value} {argstrs : List LuaString}
    (h : (args.rdropWhile (· = .nil)).mapM (serialized tostring heap) = .ok argstrs) :
    call_remote tostring heap (bytes "ls".toList) args =
      .ok (lsHead ++ (List.intercalate [byte ','] argstrs ++ [byte ')'])) := by
  have hhead : bytes "return ".toList ++ bytes "ls".toList ++ [byte '('] = lsHead := by
    decide +kernel
  rw [call_remote, h, ← hhead, List.append_assoc _ [byte '(']]
  rfl

/-- The documented call has the path and the code of the options. -/
theorem documented_eq (path : LuaString) (opts : Value) : documented tostring heap path opts =
    (optsCode tostring heap opts).map fun opts =>
      lsHead ++ (quote escape52 path ++ (opts ++ [byte ')'])) := by
  cases opts with
  | nil =>
    have hargs : [Value.str path, .nil].rdropWhile (· = .nil) = [.str path] := by
      simp [List.rdropWhile]
    have hmap : ([Value.str path, .nil].rdropWhile (· = .nil)).mapM (serialized tostring heap) =
        .ok [quote escape52 path] := by
      rw [hargs, List.mapM_cons, serialized_str]
      rfl
    rw [documented, call_remote_ok hmap]
    simp [List.intercalate, optsCode, Except.map]
  | scalar s =>
    cases s with
    | str text =>
      rw [documented, serialized_str]
      rfl
    | bool b => rfl
    | int n => rfl
  | table ref =>
    have hargs : [Value.str path, .table ref].rdropWhile (· = .nil) = [.str path, .table ref] := by
      simp [List.rdropWhile]
    cases h : serialized tostring heap (.table ref) with
    | error e =>
      rw [documented, call_remote, hargs, List.mapM_cons, serialized_str, List.mapM_cons, optsCode,
        h]
      rfl
    | ok text =>
      have hmap : ([Value.str path, .table ref].rdropWhile (· = .nil)).mapM
          (serialized tostring heap) = .ok [quote escape52 path, text] := by
        rw [hargs, List.mapM_cons, serialized_str, List.mapM_cons, h]
        rfl
      rw [documented, call_remote_ok hmap, optsCode, h]
      simp [List.intercalate, Except.map]
  | other type text => rfl

/-- The path arrives and the code is the documented one, unless there is something harmful in the
path; where the options are refused no code is run. -/
theorem passes_iff (libs : Libs) (tostring : Int → LuaString) (heap : Heap) (path : LuaString)
    (opts : Value) : Passes libs tostring heap path opts ↔
      Harmless path ∨ ∀ code, optsCode tostring heap opts ≠ .ok code := by
  rw [Passes, documented_eq, listdir]
  cases hopts : optsCode tostring heap opts with
  | error e => exact iff_of_true rfl (Or.inr fun code h => by cases h)
  | ok code =>
    have hquote := @lsCall_quote libs path (code ++ [byte ')'])
    simp only [Except.map, hquote]
    constructor
    · rintro ⟨-, rest, h⟩
      exact Or.inl (harmless_of_lsCall h)
    · rintro (h | h)
      · have hcall := @lsCall_harmless libs path h (code ++ [byte ')'])
        exact ⟨hcall, _, hcall⟩
      · exact absurd rfl (h code)

end Calls

/-- A path with a call of another function in it. -/
theorem not_passes : ¬Passes ⟨[], by simp⟩ (fun _ => []) (everywhere empty)
    (bytes "A/x') os.remove('A/y".toList) .nil := by
  rw [Passes, documented_eq, listdir]
  rintro ⟨-, rest, hcall⟩
  have hquote := (harmless_of_lsCall hcall).1 (byte '\'') (by decide +kernel)
  exact hquote.1 rfl

end ListDir
