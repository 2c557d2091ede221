import Mathlib.Data.NNRat.Defs
import Mathlib.Data.Rat.Floor
import Chdkptp.ActionSystem
import Chdkptp.DngEntry
import Chdkptp.LbufIndex
import Chdkptp.Prefs
import Chdkptp.RemoteCapture

/-!
# Bound fields of a buffer

`lbufutil.lua` wraps a buffer in a table. The `bind` methods give names to bytes of the buffer,
each behind the one before unless an offset is given, and the metamethods of the table read and
set what is bound through the accessors of the buffer.
-/

namespace LbufUtil

open ByteMemory ActionSystem LuaValue LuaText RemoteCapture Lbuf LittleEndian LbufValues
  LbufCoherence LbufIndex TracedRead DngEntry
open Prefs (Numbers)

/-! ## Numbers -/

/-- A number of Lua. One that is infinite compares like one that is large enough. -/
inductive Number where
  | of (q : ℚ)
  | nan
  deriving DecidableEq

namespace Number

def lt : Number → Number → Bool
  | of p, of q => p < q
  | _, _ => false

def add : Number → Number → Number
  | of p, of q => of (p + q)
  | _, _ => nan

/-- `lua_tointeger`; C does not say what becomes of NaN. -/
def toInteger (nanInteger : Int) : Number → Int
  | of q => if 0 ≤ q then ⌊q⌋ else ⌈q⌉
  | nan => nanInteger

end Number

abbrev Val := Prefs.Val Number

def key (s : String) : Val := .str (bytes s.toList)

/-- What an implementation of Lua decides. -/
structure Lua where
  numbers : Numbers Number
  nanInteger : Int

/-! ## Wrappers -/

inductive Getter where
  | int (t : Elem)
  | sz

structure BoundField where
  get : Getter
  set : Option Elem
  offset : Number
  len : ℚ≥0

/-- What `lbu.wrap` returns; `own` are the keys that `rawget` finds. -/
structure Wrapper where
  lb : LBuf
  fields : Val → Option BoundField
  bindpos : Number
  own : List Val

def vtype : Elem → String
  | .i8 => "i8"
  | .u8 => "u8"
  | .i16 => "i16"
  | .u16 => "u16"
  | .i32 => "i32"
  | .u32 => "u32"

/-- The names that `init_int_methods` gives. -/
def intMethods : List String :=
  [.i8, .u8, .i16, .u16, .i32, .u32].flatMap fun t => ["bind_" ++ vtype t, "bind_rw_" ++ vtype t]

def lbuMethods : List String :=
  ["_check_bind_name", "hexdump", "bind", "bind_sz"] ++ intMethods ++ ["bind_seek"]

def wrap (lb : LBuf) : Wrapper :=
  ⟨lb, fun _ => none, .of 0, (["_lb", "_fields", "_bindpos"] ++ lbuMethods).map key⟩

/-- `self._lb:len()` -/
def Wrapper.len (w : Wrapper) : ℚ := w.lb.len.toNat

/-! ## Errors -/

def message (s : String) : LuaError := .text (bytes s.toList)

/-- `v < 0` for a value that is not a number. -/
def compareError (v : Val) : LuaError :=
  .text (bytes "attempt to compare ".toList ++ v.type ++ bytes " with number".toList)

def arithError (v : Val) : LuaError :=
  .text (bytes "attempt to perform arithmetic on local 'offset' (a ".toList ++ v.type ++
    bytes " value)".toList)

def bindNameError (L : Lua) (name : Val) : LuaError :=
  .text (bytes "attempt to bind field or method name \"".toList ++ name.tostring L.numbers ++
    bytes "\"".toList)

def readOnlyError (L : Lua) (k : Val) : LuaError :=
  .text (bytes "attempt to set read-only field \"".toList ++ k.tostring L.numbers ++
    bytes "\"".toList)

def lbufError : LbufError → LuaError
  | .negativeOffset => message "negative offset not allowed"
  | .stackSpace => message "insufficient stack space"

/-- What Lua says of a key when it is given a value. -/
def newKey : Val → Except LuaError Unit
  | .nil => .error (message "table index is nil")
  | .number .nan => .error (message "table index is NaN")
  | _ => .ok ()

/-! ## Binding -/

section Methods

variable (L : Lua) (w : Wrapper)

def checkBindName (name : Val) : Except LuaError Unit :=
  if name ∈ w.own then .error (bindNameError L name) else .ok ()

/-- The offset of a field, which has to be comparable with a number. -/
def bindOffset : Val → Except LuaError Number
  | .nil => .ok w.bindpos
  | .number n => .ok n
  | v => .error (compareError v)

def setField (name : Val) (f : BoundField) : Wrapper :=
  { w with
    fields := Function.update w.fields name (some f)
    bindpos := f.offset.add (.of f.len) }

def bind (name : Val) (get : Getter) (set : Option Elem) (len : ℚ≥0) (off : Val) :
    Except LuaError Val × Wrapper :=
  match bindOffset w off with
  | .error e => (.error e, w)
  | .ok off =>
    if off.lt (.of 0) ∨ (Number.of w.len).lt (off.add (.of len)) then
      (.error (message "illegal offset"), w)
    else
      match checkBindName L w name, newKey name with
      | .error e, _ => (.error e, w)
      | .ok (), .error e => (.error e, w)
      | .ok (), .ok () => (.ok .nil, setField w name ⟨get, set, off, len⟩)

def bindSz (name : Val) (len : ℚ≥0) (off : Val) : Except LuaError Val × Wrapper :=
  bind L w name .sz none len off

/-- `bind_i8`, `bind_u8` and so on. -/
def bindInt (t : Elem) (name off : Val) : Except LuaError Val × Wrapper :=
  bind L w name (.int t) none t.size off

/-- `bind_rw_i8`, `bind_rw_u8` and so on. -/
def bindRwInt (t : Elem) (name off : Val) : Except LuaError Val × Wrapper :=
  bind L w name (.int t) (some t) t.size off

/-! ## Seeking -/

/-- With one argument this is the offset if it is a number. -/
def seekArgs : (whence offset : Val) → Except LuaError (Val × Val)
  | .str s, .nil => .ok (.str s, .number (.of 0))
  | .nil, .nil => .ok (key "cur", .number (.of 0))
  | .number n, .nil => .ok (key "cur", .number n)
  | _, .nil => .error (message "invalid argument")
  | whence, offset => .ok (whence, offset)

/-- What is added to a number; a string may be the text of one. -/
def operand : Val → Except LuaError Number
  | .number n => .ok n
  | .str s =>
    match L.numbers.tonumber s with
    | some n => .ok n
    | none => .error (arithError (.str s))
  | v => .error (arithError v)

def newPos (whence offset : Val) : Except LuaError Val :=
  if whence = key "set" then .ok offset
  else if whence = key "cur" then (operand L offset).map fun n => .number (w.bindpos.add n)
  else if whence = key "end" then (operand L offset).map fun n => .number ((Number.of w.len).add n)
  else .ok .nil

/-- The comparisons of `bind_seek` and what follows them. -/
def seekTo : Val → Except LuaError Val × Wrapper
  | .number n =>
    if n.lt (.of 0) ∨ (Number.of w.len).lt n then (.error (message "invalid pos"), w)
    else (.ok (.number n), { w with bindpos := n })
  | v => (.error (compareError v), w)

def bindSeek (whence offset : Val) : Except LuaError Val × Wrapper :=
  match seekArgs whence offset with
  | .error e => (.error e, w)
  | .ok (whence, offset) =>
    match newPos L w whence offset with
    | .error e => (.error e, w)
    | .ok v => seekTo w v

/-! ## Fields -/

/-- `fld:get()` -/
def BoundField.value (f : BoundField) (lb : LBuf) : Except LuaError Val :=
  match f.get with
  | .int t =>
    match (getVals minStack t lb (some (f.offset.toInteger L.nanInteger)) none (contentsAt lb)).1 with
    | .ok vals => .ok ((vals.head?.map fun v => .number (.of v)).getD .nil)
    | .error e => .error (lbufError e)
  | .sz =>
    match (lbufString lb (some ((f.offset.add (.of 1)).toInteger L.nanInteger))
        (some ((f.offset.add (.of f.len)).toInteger L.nanInteger)) (contentsAt lb)).1 with
    | .ok s => .ok (.str (s.takeWhile (· ≠ 0)))
    | .error _ => .error (message "not enough memory")

/-- `__index`, for a key that the table does not have itself. -/
def index (k : Val) : Except LuaError Val :=
  match w.fields k with
  | some f => f.value L w.lb
  | none => .ok .nil

/-- `lua_tonumber` as an integer. -/
def toInteger : Val → Int
  | .number n => n.toInteger L.nanInteger
  | .str s => ((L.numbers.tonumber s).getD (.of 0)).toInteger L.nanInteger
  | _ => 0

/-- `rawset` of a key that the table does not have. -/
def rawset (k v : Val) : Except LuaError Val × Wrapper :=
  match newKey k with
  | .error e => (.error e, w)
  | .ok () => (.ok .nil, if v = .nil then w else { w with own := k :: w.own })

/-- What a setter of the buffer leaves. -/
def setBuffer : Except LbufError (LBuf × Int) → Except LuaError Val × Wrapper
  | .ok (lb, _) => (.ok .nil, { w with lb })
  | .error e => (.error (lbufError e), w)

/-- `__newindex`, for a key that the table does not have itself. -/
def newindex (k v : Val) : Except LuaError Val × Wrapper :=
  match w.fields k with
  | none => rawset w k v
  | some f =>
    match f.set with
    | none => (.error (readOnlyError L k), w)
    | some t =>
      setBuffer w (setVals t w.lb (.given (some (f.offset.toInteger L.nanInteger))
        (oneValue (toInteger L v))))

end Methods

/-! ## Runs -/

inductive Act where
  | bindInt (t : Elem) (name off : Val)
  | bindRwInt (t : Elem) (name off : Val)
  | bindSz (name : Val) (len : ℚ≥0) (off : Val)
  | bindSeek (whence offset : Val)
  | assign (k v : Val)

/-- The result or the error, and the wrapper that is left. -/
def outcome (L : Lua) (w : Wrapper) : Act → Except LuaError Val × Wrapper
  | .bindInt t name off => bindInt L w t name off
  | .bindRwInt t name off => bindRwInt L w t name off
  | .bindSz name len off => bindSz L w name len off
  | .bindSeek whence offset => bindSeek L w whence offset
  | .assign k v => newindex L w k v

/-- An assignment reaches `__newindex` when the table does not have the key; nothing else is
assigned here. -/
def reaches (w : Wrapper) : Act → Bool
  | .assign k _ => k ∉ w.own
  | _ => true

/-- Calls one after the other, also behind one that failed. -/
def lbu (L : Lua) : System Wrapper Act :=
  ⟨fun w a => if reaches w a then some (outcome L w a).2 else none⟩

/-! ## What a call does -/

@[simp] theorem lt_of_of (p q : ℚ) : (Number.of p).lt (.of q) = decide (p < q) := rfl

@[simp] theorem nan_lt (n : Number) : Number.nan.lt n = false := rfl

@[simp] theorem lt_nan (n : Number) : n.lt .nan = false := by
  cases n <;> rfl

@[simp] theorem add_of_of (p q : ℚ) : (Number.of p).add (.of q) = .of (p + q) := rfl

@[simp] theorem nan_add (n : Number) : Number.nan.add n = .nan := rfl

@[simp] theorem add_nan (n : Number) : n.add .nan = .nan := by
  cases n <;> rfl

theorem setField_fields (w : Wrapper) (name : Val) (f : BoundField) (k : Val) :
    (setField w name f).fields k = if k = name then some f else w.fields k :=
  Function.update_apply ..

section Cases

variable {L : Lua} {w w' : Wrapper} {r : Except LuaError Val}

/-- A call of `bind` that returns binds a field in the buffer; the key is new to the table. -/
theorem bind_cases {name : Val} {get : Getter} {set : Option Elem} {len : ℚ≥0} {off : Val}
    (h : bind L w name get set len off = (r, w')) :
    (∃ e, r = .error e ∧ w' = w) ∨
      ∃ n, bindOffset w off = .ok n ∧ n.lt (.of 0) = false ∧
        (Number.of w.len).lt (n.add (.of len)) = false ∧ name ∉ w.own ∧ r = .ok .nil ∧
        w' = setField w name ⟨get, set, n, len⟩ := by
  rw [bind] at h
  split at h
  · cases h
    exact .inl ⟨_, rfl, rfl⟩
  · rename_i n hn
    split at h
    · cases h
      exact .inl ⟨_, rfl, rfl⟩
    · rename_i hinside
      rw [not_or, Bool.not_eq_true, Bool.not_eq_true] at hinside
      split at h
      · cases h
        exact .inl ⟨_, rfl, rfl⟩
      · cases h
        exact .inl ⟨_, rfl, rfl⟩
      · rename_i hname _
        cases h
        rw [checkBindName] at hname
        split at hname
        · cases hname
        · rename_i hown
          exact .inr ⟨n, hn, hinside.1, hinside.2, hown, rfl, rfl⟩

/-- A call of `bind_seek` that returns leaves a position in the buffer. -/
theorem bindSeek_cases {whence offset : Val} (h : bindSeek L w whence offset = (r, w')) :
    (∃ e, r = .error e ∧ w' = w) ∨
      ∃ wh off n, seekArgs whence offset = .ok (wh, off) ∧ newPos L w wh off = .ok (.number n) ∧
        n.lt (.of 0) = false ∧ (Number.of w.len).lt n = false ∧ r = .ok (.number n) ∧
        w' = { w with bindpos := n } := by
  rw [bindSeek] at h
  split at h
  · cases h
    exact .inl ⟨_, rfl, rfl⟩
  · rename_i wh off hargs
    split at h
    · cases h
      exact .inl ⟨_, rfl, rfl⟩
    · rename_i v hpos
      cases v with
      | number n =>
        rw [seekTo] at h
        split at h
        · cases h
          exact .inl ⟨_, rfl, rfl⟩
        · rename_i hinside
          rw [not_or, Bool.not_eq_true, Bool.not_eq_true] at hinside
          cases h
          exact .inr ⟨wh, off, n, hargs, hpos, hinside.1, hinside.2, rfl, rfl⟩
      | _ =>
        cases h
        exact .inl ⟨_, rfl, rfl⟩

/-- An assignment sets bytes of the buffer or a key of the table. -/
theorem newindex_cases {k v : Val} (h : newindex L w k v = (r, w')) :
    (∃ e, r = .error e ∧ w' = w) ∨
      (r = .ok .nil ∧ w.fields k = none ∧ (w' = w ∨ w' = { w with own := k :: w.own })) ∨
      ∃ f t lb n, r = .ok .nil ∧ w.fields k = some f ∧ f.set = some t ∧
        setVals t w.lb (.given (some (f.offset.toInteger L.nanInteger))
          (oneValue (toInteger L v))) = .ok (lb, n) ∧ w' = { w with lb } := by
  rw [newindex] at h
  split at h
  · rename_i hnone
    rw [rawset] at h
    split at h
    · cases h
      exact .inl ⟨_, rfl, rfl⟩
    · cases h
      right
      left
      refine ⟨rfl, hnone, ?_⟩
      split
      · exact .inl rfl
      · exact .inr rfl
  · rename_i f hf
    split at h
    · cases h
      exact .inl ⟨_, rfl, rfl⟩
    · rename_i t ht
      cases hset : setVals t w.lb (.given (some (f.offset.toInteger L.nanInteger))
          (oneValue (toInteger L v))) with
      | ok set =>
        rw [hset] at h
        cases h
        exact .inr (.inr ⟨f, t, set.1, set.2, rfl, hf, ht, hset, rfl⟩)
      | error e =>
        rw [hset] at h
        cases h
        exact .inl ⟨_, rfl, rfl⟩

end Cases

/-! ## Positions -/

/-- What is known of a field. An offset that is not a number was compared with nothing. -/
structure FieldSane (len : ℚ) (f : BoundField) : Prop where
  inside : ∀ q, f.offset = .of q → 0 ≤ q ∧ q + f.len ≤ len
  sized : ∀ t, f.get = .int t → f.len = t.size
  same : ∀ t, f.set = some t → f.get = .int t

structure Sane (w : Wrapper) : Prop where
  position : ∀ q, w.bindpos = .of q → 0 ≤ q ∧ q ≤ w.len
  field : ∀ k f, w.fields k = some f → FieldSane w.len f
  bound : ∀ k f, w.fields k = some f → k ∉ w.own

/-- The position and the offsets are numbers. -/
structure Placed (w : Wrapper) : Prop where
  position : w.bindpos ≠ .nan
  field : ∀ k f, w.fields k = some f → f.offset ≠ .nan

/-- The offset of a call is NaN. -/
def nanOffset (L : Lua) : Act → Prop
  | .bindInt _ _ off | .bindRwInt _ _ off | .bindSz _ _ off => off = .number .nan
  | .bindSeek whence offset =>
    ∃ wh off, seekArgs whence offset = .ok (wh, off) ∧ operand L off = .ok .nan
  | .assign _ _ => False

/-- A call that gives NaN for an offset, and returns. -/
def TakesNan (L : Lua) (w : Wrapper) (a : Act) : Prop :=
  nanOffset L a ∧ ∃ v w', outcome L w a = (.ok v, w')

theorem wrap_sane (lb : LBuf) : Sane (wrap lb) where
  position q hq := by
    cases hq
    exact ⟨le_refl 0, Nat.cast_nonneg _⟩
  field k f hf := by cases hf
  bound k f hf := by cases hf

theorem wrap_placed (lb : LBuf) : Placed (wrap lb) where
  position := by simp [wrap]
  field k f hf := by cases hf

theorem setVals_len {t : Elem} {buf buf' : LBuf} {args : SetArgs} {n : Int}
    (h : setVals t buf args = .ok (buf', n)) : buf'.len = buf.len := by
  rw [setVals] at h
  dsimp only at h
  split at h
  · cases h
  · split at h <;> cases h <;> rfl

section Steps

variable {L : Lua} {w w' : Wrapper} {r : Except LuaError Val}

/-- What the comparisons say of a number. -/
theorem inside_of_lt {q len l : ℚ} (hlow : (Number.of q).lt (.of 0) = false)
    (hhigh : (Number.of l).lt ((Number.of q).add (.of len)) = false) : 0 ≤ q ∧ q + len ≤ l := by
  simpa using And.intro hlow hhigh

theorem bind_sane {name : Val} {get : Getter} {set : Option Elem} {len : ℚ≥0} {off : Val}
    (hs : Sane w) (hsized : ∀ t, get = .int t → len = t.size)
    (hsame : ∀ t, set = some t → get = .int t) (h : bind L w name get set len off = (r, w')) :
    Sane w' := by
  obtain ⟨e, -, rfl⟩ | ⟨n, -, hlow, hhigh, hown, -, rfl⟩ := bind_cases h
  · exact hs
  · have hinside : ∀ q, n = .of q → 0 ≤ q ∧ q + len ≤ w.len := by
      rintro q rfl
      exact inside_of_lt hlow hhigh
    constructor
    · intro q hq
      cases n with
      | nan => cases hq
      | of p =>
        cases hq
        obtain ⟨hp, hend⟩ := hinside p rfl
        exact ⟨add_nonneg hp len.2, hend⟩
    · intro k f hf
      rw [setField_fields] at hf
      split at hf
      · cases hf
        exact ⟨hinside, hsized, hsame⟩
      · exact hs.field k f hf
    · intro k f hf
      rw [setField_fields] at hf
      split at hf
      · rename_i hk
        rw [hk]
        exact hown
      · exact hs.bound k f hf

theorem bindSeek_sane {whence offset : Val} (hs : Sane w)
    (h : bindSeek L w whence offset = (r, w')) : Sane w' := by
  obtain ⟨e, -, rfl⟩ | ⟨wh, off, n, -, -, hlow, hhigh, -, rfl⟩ := bindSeek_cases h
  · exact hs
  · refine ⟨?_, hs.field, hs.bound⟩
    rintro q rfl
    have hinside : 0 ≤ q ∧ q ≤ w.len := by simpa using And.intro hlow hhigh
    exact hinside

theorem newindex_sane {k v : Val} (hs : Sane w) (h : newindex L w k v = (r, w')) : Sane w' := by
  obtain ⟨e, -, rfl⟩ | ⟨-, hnone, rfl | rfl⟩ | ⟨f, t, lb, n, -, hf, ht, hset, rfl⟩ :=
    newindex_cases h
  · exact hs
  · exact hs
  · refine ⟨hs.position, hs.field, ?_⟩
    intro k' f hf hmem
    obtain rfl | hmem := List.mem_cons.mp hmem
    · rw [hnone] at hf
      cases hf
    · exact hs.bound k' f hf hmem
  · have hlen : Wrapper.len { w with lb } = w.len := by
      simp only [Wrapper.len, setVals_len hset]
    refine ⟨?_, ?_, hs.bound⟩
    · rw [hlen]
      exact hs.position
    · rw [hlen]
      exact hs.field

theorem outcome_sane {a : Act} (hs : Sane w) (h : outcome L w a = (r, w')) : Sane w' := by
  cases a with
  | bindInt t name off =>
    exact bind_sane hs (fun t' ht => by cases ht; rfl) (fun t' ht => by cases ht) h
  | bindRwInt t name off =>
    exact bind_sane hs (fun t' ht => by cases ht; rfl) (fun t' ht => by cases ht; rfl) h
  | bindSz name len off =>
    exact bind_sane hs (fun t ht => by cases ht) (fun t ht => by cases ht) h
  | bindSeek whence offset => exact bindSeek_sane hs h
  | assign k v => exact newindex_sane hs h

/-- A binding at an offset that is no number leaves a position that is none. -/
theorem bind_placed_iff {name : Val} {get : Getter} {set : Option Elem} {len : ℚ≥0} {off : Val}
    (hp : Placed w) (h : bind L w name get set len off = (r, w')) :
    Placed w' ↔ ¬(off = .number .nan ∧ ∃ v w', bind L w name get set len off = (.ok v, w')) := by
  rw [h]
  obtain ⟨e, rfl, rfl⟩ | ⟨n, hn, -, -, -, rfl, rfl⟩ := bind_cases h
  · simpa using hp
  · have hnan : off = .number .nan ↔ n = .nan := by
      cases off with
      | nil =>
        cases hn
        simpa using hp.position
      | number m =>
        cases hn
        simp
      | bool b => cases hn
      | str s => cases hn
      | other type text => cases hn
    rw [hnan]
    cases n with
    | nan =>
      refine iff_of_false (fun h => h.position rfl) ?_
      simp
    | of q =>
      refine iff_of_true ⟨by simp [setField], fun k f hf => ?_⟩ (by simp)
      rw [setField_fields] at hf
      split at hf
      · cases hf
        simp
      · exact hp.field k f hf

theorem map_number {f : Number → Number} {x : Except LuaError Number} {n : Number}
    (h : (x.map fun m => (.number (f m) : Val)) = .ok (.number n)) : ∃ m, x = .ok m ∧ n = f m := by
  cases x with
  | error e => cases h
  | ok m =>
    cases h
    exact ⟨m, rfl, rfl⟩

/-- The new position is no number if the offset is none. -/
theorem newPos_nan_iff {wh off : Val} {n : Number} (hp : Placed w)
    (h : newPos L w wh off = .ok (.number n)) : operand L off = .ok .nan ↔ n = .nan := by
  obtain ⟨p, hpos⟩ : ∃ p, w.bindpos = .of p := by
    cases hpos : w.bindpos with
    | of p => exact ⟨p, rfl⟩
    | nan => exact absurd hpos hp.position
  have hadd : ∀ p m, n = (Number.of p).add m → (m = .nan ↔ n = .nan) := by
    rintro p m rfl
    cases m <;> simp
  rw [newPos] at h
  split at h
  · cases h
    simp [operand]
  · split at h
    · obtain ⟨m, hm, hn⟩ := map_number h
      rw [hm]
      simpa using hadd p m (hpos ▸ hn)
    · split at h
      · obtain ⟨m, hm, hn⟩ := map_number h
        rw [hm]
        simpa using hadd w.len m hn
      · cases h

theorem bindSeek_placed_iff {whence offset : Val} (hp : Placed w)
    (h : bindSeek L w whence offset = (r, w')) :
    Placed w' ↔ ¬TakesNan L w (.bindSeek whence offset) := by
  rw [TakesNan, outcome, h]
  obtain ⟨e, rfl, rfl⟩ | ⟨wh, off, n, hargs, hpos, -, -, rfl, rfl⟩ := bindSeek_cases h
  · simpa using hp
  · have hnan : nanOffset L (.bindSeek whence offset) ↔ n = .nan := by
      rw [← newPos_nan_iff hp hpos, nanOffset, hargs]
      simp
    rw [hnan]
    constructor
    · rintro h ⟨hn, -⟩
      exact h.position hn
    · exact fun h => ⟨fun hn => h ⟨hn, _, _, rfl⟩, hp.field⟩

/-- An assignment moves nothing. -/
theorem newindex_placed {k v : Val} (hp : Placed w) (h : newindex L w k v = (r, w')) :
    Placed w' := by
  obtain ⟨e, -, rfl⟩ | ⟨-, -, rfl | rfl⟩ | ⟨f, t, lb, n, -, -, -, -, rfl⟩ := newindex_cases h <;>
  exact ⟨hp.position, hp.field⟩

theorem outcome_placed_iff {a : Act} (hp : Placed w) (h : outcome L w a = (r, w')) :
    Placed w' ↔ ¬TakesNan L w a := by
  cases a with
  | bindInt t name off => exact bind_placed_iff hp h
  | bindRwInt t name off => exact bind_placed_iff hp h
  | bindSz name len off => exact bind_placed_iff hp h
  | bindSeek whence offset => exact bindSeek_placed_iff hp h
  | assign k v => exact iff_of_true (newindex_placed hp h) fun h => h.1

theorem step_outcome {a : Act} (h : (lbu L).step w a = some w') :
    ∃ r, outcome L w a = (r, w') := by
  obtain ⟨-, hw⟩ := Option.ite_none_right_eq_some.mp h
  exact ⟨_, Prod.ext rfl (Option.some.inj hw)⟩

/-- A call that fails changes nothing. -/
theorem outcome_error {a : Act} {e : LuaError} (h : outcome L w a = (.error e, w')) : w' = w := by
  have hsame : ∀ {P : Prop}, (∃ e', (.error e : Except LuaError Val) = .error e' ∧ w' = w) ∨ P →
      (P → ∃ v, (.error e : Except LuaError Val) = .ok v) → w' = w := by
    rintro P (⟨-, -, hw⟩ | hP) hok
    · exact hw
    · obtain ⟨v, hv⟩ := hok hP
      cases hv
  cases a with
  | bindInt t name off => exact hsame (bind_cases h) fun ⟨_, _, _, _, _, hr, _⟩ => ⟨_, hr⟩
  | bindRwInt t name off => exact hsame (bind_cases h) fun ⟨_, _, _, _, _, hr, _⟩ => ⟨_, hr⟩
  | bindSz name len off => exact hsame (bind_cases h) fun ⟨_, _, _, _, _, hr, _⟩ => ⟨_, hr⟩
  | bindSeek whence offset =>
    exact hsame (bindSeek_cases h) fun ⟨_, _, _, _, _, _, _, hr, _⟩ => ⟨_, hr⟩
  | assign k v =>
    refine hsame (newindex_cases h) fun hP => ?_
    obtain ⟨hr, -, -⟩ | ⟨_, _, _, _, hr, -⟩ := hP <;> exact ⟨_, hr⟩

end Steps

end LbufUtil
