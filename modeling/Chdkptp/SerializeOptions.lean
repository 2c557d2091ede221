import Chdkptp.LuaUtil
import Chdkptp.NumberSpelling
import Chdkptp.PairsOrder

/-!
# The options of the two copies of serialize

`util.serialize` merges its defaults and the caller's options into a new table. The
camera's copy goes through its defaults and, where the caller's table has nil or
false, writes the default into that table: an explicit false is lost, and the next
call with the table finds the default there.
-/

namespace SerializeOptions

open LuaValue LuaText LuaSerialize

inductive OptKey where
  | maxdepth
  | errType
  | errCycle
  | pretty
  | fixBignum
  | forceint
  | bracketKeys
  | compactArrays
  deriving DecidableEq

inductive OptValue where
  | bool (b : Bool)
  | num (n : Int)
  deriving DecidableEq

abbrev OptTable := LuaUtil.Fields OptKey OptValue

/-- What Lua takes for true: all but nil and false. -/
def isTrue : Option OptValue → Bool
  | none => false
  | some (.bool b) => b
  | some (.num _) => true

/-- What `serialize_r` finds in its table of options. -/
def readOptions (opts : OptTable) (maxdepth : Int) : Opts where
  maxdepth := maxdepth
  errType := isTrue (opts.lookup .errType)
  errCycle := isTrue (opts.lookup .errCycle)
  pretty := isTrue (opts.lookup .pretty)
  fixBignum := isTrue (opts.lookup .fixBignum)
  forceint := isTrue (opts.lookup .forceint)
  bracketKeys := isTrue (opts.lookup .bracketKeys)
  compactArrays := isTrue (opts.lookup .compactArrays)

inductive CallError where
  /-- The depth is compared with something that is no number. -/
  | compare
  | serialize (e : SerializeError)

/-- A walk with a table of options. The depth of the first table is compared before
anything else is done with it. -/
def serializeWith (heap : Heap) (lua : Lua) (read : OptTable → Int → Opts) (opts : OptTable)
    (v : Value) : Except CallError LuaString :=
  match opts.lookup .maxdepth with
  | some (.num n) => (serialize heap (read opts n) lua v).mapError .serialize
  | _ =>
    if isTable v then .error .compare
    else (serialize heap (read opts 1) lua v).mapError .serialize

/-! ## The host -/

/-- `util.serialize_defaults`. -/
def hostDefaults : OptTable where
  entries := [⟨.maxdepth, .num 10⟩, ⟨.errType, .bool true⟩, ⟨.errCycle, .bool true⟩,
    ⟨.pretty, .bool true⟩, ⟨.fixBignum, .bool true⟩, ⟨.forceint, .bool true⟩,
    ⟨.bracketKeys, .bool false⟩, ⟨.compactArrays, .bool true⟩]
  nodupKeys := by unfold List.NodupKeys; decide

theorem readOptions_hostDefaults : readOptions hostDefaults 10 = serializeDefaults := rfl

def merged (opts : Option OptTable) : OptTable :=
  LuaUtil.extendTableMulti ∅ (hostDefaults :: opts.toList)

/-- `util.serialize`. -/
def utilSerialize (tostring : Int → LuaString) (heap : Heap) (v : Value)
    (opts : Option OptTable) : Except CallError LuaString :=
  serializeWith heap (lua52 tostring) readOptions (merged opts) v

/-! ## The camera -/

/-- `serialize_defaults`, which code on the camera may change. -/
def cameraTable : OptTable where
  entries := [⟨.maxdepth, .num 10⟩, ⟨.errType, .bool true⟩, ⟨.errCycle, .bool true⟩,
    ⟨.pretty, .bool false⟩, ⟨.bracketKeys, .bool false⟩, ⟨.compactArrays, .bool true⟩]
  nodupKeys := by unfold List.NodupKeys; decide

/-- The camera's copy writes all numbers by `tostring`. -/
def cameraOptions (opts : OptTable) (maxdepth : Int) : Opts :=
  plainNumbers (readOptions opts maxdepth)

theorem cameraOptions_cameraTable : cameraOptions cameraTable 10 = cameraDefaults := rfl

theorem cameraOptions_errType (opts : OptTable) (maxdepth : Int) :
    (cameraOptions opts maxdepth).errType = isTrue (opts.lookup .errType) := rfl

/-- The loop over the defaults. -/
def fillDefaults (defaults opts : OptTable) : OptTable :=
  defaults.entries.foldl
    (fun opts e => if isTrue (opts.lookup e.1) then opts else opts.insert e.1 e.2) opts

/-- `serialize` with what becomes of the caller's table. -/
def cameraSerialize (defaults : OptTable) (heap : Heap) (v : Value) :
    Option OptTable → Except CallError LuaString × Option OptTable
  | some opts =>
    let opts := fillDefaults defaults opts
    (serializeWith heap luaCamera cameraOptions opts v, some opts)
  | none => (serializeWith heap luaCamera cameraOptions defaults v, none)

theorem cameraSerialize_some (defaults : OptTable) (heap : Heap) (v : Value) (opts : OptTable) :
    (cameraSerialize defaults heap v (some opts)).1 =
      serializeWith heap luaCamera cameraOptions (fillDefaults defaults opts) v := rfl

/-! ## What the copies find -/

theorem lookup_merged (opts : OptTable) (k : OptKey) :
    (merged (some opts)).lookup k = (opts.lookup k).or (hostDefaults.lookup k) := by
  change (LuaUtil.extendTable (LuaUtil.extendTable ∅ hostDefaults) opts).lookup k = _
  rw [LuaUtil.lookup_extendTable, LuaUtil.lookup_extendTable]
  simp

theorem lookup_fill (l : List (Sigma fun _ : OptKey => OptValue)) (hl : l.NodupKeys)
    (opts : OptTable) (k : OptKey) :
    (l.foldl (fun opts e => if isTrue (opts.lookup e.1) then opts else opts.insert e.1 e.2)
        opts).lookup k =
      if isTrue (opts.lookup k) then opts.lookup k else (l.dlookup k).or (opts.lookup k) := by
  induction l generalizing opts with
  | nil => simp
  | cons e l ih =>
    obtain ⟨a, v⟩ := e
    obtain ⟨hnot, hrest⟩ := List.nodupKeys_cons.mp hl
    rw [List.foldl_cons, ih hrest]
    by_cases hk : k = a
    · subst hk
      rw [List.dlookup_eq_none.mpr hnot, List.dlookup_cons_eq]
      cases hopts : isTrue (opts.lookup k) <;> simp [hopts]
    · rw [List.dlookup_cons_ne _ _ hk]
      cases isTrue (opts.lookup a) <;> simp [AList.lookup_insert_ne hk]

theorem lookup_fillDefaults (defaults opts : OptTable) (k : OptKey) :
    (fillDefaults defaults opts).lookup k =
      if isTrue (opts.lookup k) then opts.lookup k else (defaults.lookup k).or (opts.lookup k) :=
  lookup_fill defaults.entries defaults.nodupKeys opts k

theorem isTrue_fillDefaults (defaults opts : OptTable) (k : OptKey) :
    isTrue ((fillDefaults defaults opts).lookup k) =
      (isTrue (opts.lookup k) || isTrue (defaults.lookup k)) := by
  rw [lookup_fillDefaults]
  cases hopts : isTrue (opts.lookup k) with
  | true => simp [hopts]
  | false =>
    cases hdefault : defaults.lookup k with
    | none => exact hopts
    | some x => simp

/-! ## Shallow walks -/

section Shallow

variable (heap : Heap) (lua : Lua) (opts : Opts) (cycle arrays : Bool)

theorem serializeR_zero (depth : Nat) (v : Value) :
    serializeR heap { opts with errCycle := cycle, compactArrays := arrays } lua 0 depth v =
      serializeR heap opts lua 0 depth v := by
  cases v with
  | nil => rfl
  | scalar s => cases s <;> rfl
  | table ref => rfl
  | other type text => rfl

/-- Within the first table there is nothing that could be met again. -/
theorem serializeR_one (v : Value) :
    serializeR heap { opts with errCycle := cycle } lua 1 1 v [] =
      serializeR heap opts lua 1 1 v [] := by
  cases v with
  | nil => rfl
  | scalar s => cases s <;> rfl
  | table ref =>
    have hinner : serializeR heap { opts with errCycle := cycle } lua 0 2 =
        serializeR heap opts lua 0 2 :=
      funext fun v => serializeR_zero heap lua opts cycle opts.compactArrays 2 v
    simp only [serializeR, Visiting.enter, List.not_mem_nil, if_false, hinner]
    rfl
  | other type text => rfl

/-- A walk looks at `err_cycle` at the second table, at `compact_arrays` at the first. -/
theorem serialize_shallow (hcycle : 3 ≤ opts.maxdepth → cycle = opts.errCycle)
    (harrays : 2 ≤ opts.maxdepth → arrays = opts.compactArrays) (v : Value) :
    serialize heap { opts with errCycle := cycle, compactArrays := arrays } lua v =
      serialize heap opts lua v := by
  unfold serialize
  congr 1
  by_cases htwo : 2 ≤ opts.maxdepth
  · rw [harrays htwo]
    by_cases hthree : 3 ≤ opts.maxdepth
    · rw [hcycle hthree]
    · have hleft : (opts.maxdepth - 1).toNat = 1 := by omega
      change serializeR heap { opts with errCycle := cycle } lua (opts.maxdepth - 1).toNat 1 v [] = _
      rw [hleft]
      exact serializeR_one heap lua opts cycle v
  · have hleft : (opts.maxdepth - 1).toNat = 0 := by omega
    change serializeR heap _ lua (opts.maxdepth - 1).toNat 1 v [] = _
    rw [hleft]
    exact congrFun (serializeR_zero heap lua opts cycle arrays 1 v) []

end Shallow

/-! ## Calls with explicit options -/

/-- The table gives the options that the camera's copy has. -/
def Gives (opts : OptTable) : Prop := ∀ k, k ∈ opts ↔ k ∈ cameraTable

def Raises {α : Type} (x : Except CallError α) : Prop := ∃ e, x = .error e

/-- Neither copy raises an error or both do, also when they visit the entries of tables
in different orders. In the host's order the camera writes the host's text, numbers apart. -/
structure Behaves (tostring : Int → LuaString) (opts : OptTable) (heap heap' : Heap)
    (v : Value) : Prop where
  raises : Raises (utilSerialize tostring heap v (some opts)) ↔
    Raises (cameraSerialize cameraTable heap' v (some opts)).1
  text : ∀ text, utilSerialize tostring heap v (some opts) = .ok text →
    ∃ text', (cameraSerialize cameraTable heap v (some opts)).1 = .ok text' ∧ SameText text text'

/-- A call leaves the table as it was for any later call, also for one after the
defaults have been changed. -/
def LaterSame (opts : OptTable) : Prop :=
  ∀ heap v defaults heap' v' opts', (cameraSerialize cameraTable heap v (some opts)).2 = some opts' →
    (cameraSerialize defaults heap' v' (some opts')).1 =
      (cameraSerialize defaults heap' v' (some opts)).1

/-- No option that is false has a default that is true, unless it is not looked at. -/
structure Honoured (opts : OptTable) : Prop where
  maxdepth : opts.lookup .maxdepth ≠ some (.bool false)
  errType : opts.lookup .errType ≠ some (.bool false)
  errCycle : ∀ n, opts.lookup .maxdepth = some (.num n) → 3 ≤ n →
    opts.lookup .errCycle ≠ some (.bool false)
  compactArrays : ∀ n, opts.lookup .maxdepth = some (.num n) → 2 ≤ n →
    opts.lookup .compactArrays ≠ some (.bool false)

/-! ## Options that are honoured -/

/-- The options of both copies, with every default that is true. -/
def filledOptions (opts : OptTable) (maxdepth : Int) : Opts :=
  { readOptions opts maxdepth with
    errType := true
    errCycle := true
    fixBignum := true
    forceint := true
    compactArrays := true }

/-- The walks need to agree where they are taken. -/
theorem serializeWith_congr {heap : Heap} {lua : Lua} {read read' : OptTable → Int → Opts}
    {opts opts' : OptTable} {v : Value} (hdepth : opts.lookup .maxdepth = opts'.lookup .maxdepth)
    (hread : ∀ n, opts'.lookup .maxdepth = some (.num n) ∨ n = 1 →
      serialize heap (read opts n) lua v = serialize heap (read' opts' n) lua v) :
    serializeWith heap lua read opts v = serializeWith heap lua read' opts' v := by
  unfold serializeWith
  rw [hdepth]
  cases h : opts'.lookup .maxdepth with
  | none => simp only [hread 1 (Or.inr rfl)]
  | some x =>
    cases x with
    | bool b => simp only [hread 1 (Or.inr rfl)]
    | num n => simp only [hread n (Or.inl h)]

theorem cameraOptions_filled (opts : OptTable) (n : Int) :
    cameraOptions (fillDefaults cameraTable opts) n = plainNumbers (filledOptions opts n) := by
  have htrue : ∀ k, isTrue (cameraTable.lookup k) = true →
      isTrue ((fillDefaults cameraTable opts).lookup k) = true := by
    intro k hk
    rw [isTrue_fillDefaults, hk, Bool.or_true]
  have hfalse : ∀ k, isTrue (cameraTable.lookup k) = false →
      isTrue ((fillDefaults cameraTable opts).lookup k) = isTrue (opts.lookup k) := by
    intro k hk
    rw [isTrue_fillDefaults, hk, Bool.or_false]
  unfold cameraOptions readOptions
  rw [htrue .errType rfl, htrue .errCycle rfl, htrue .compactArrays rfl, hfalse .pretty rfl,
    hfalse .bracketKeys rfl]
  rfl

section Honoured

variable {opts : OptTable} (hgives : Gives opts)

include hgives

theorem Gives.lookup {k : OptKey} (hk : k ∈ cameraTable) : ∃ x, opts.lookup k = some x :=
  Option.isSome_iff_exists.mp (AList.lookup_isSome.mpr ((hgives k).mpr hk))

theorem Gives.isTrue_iff {k : OptKey} (hk : k ∈ cameraTable) :
    isTrue (opts.lookup k) = true ↔ opts.lookup k ≠ some (.bool false) := by
  obtain ⟨x, hx⟩ := hgives.lookup hk
  rw [hx]
  cases x with
  | bool b => cases b <;> simp [isTrue]
  | num n => simp [isTrue]

theorem lookup_merged_given {k : OptKey} (hk : k ∈ cameraTable) :
    (merged (some opts)).lookup k = opts.lookup k := by
  obtain ⟨x, hx⟩ := hgives.lookup hk
  rw [lookup_merged, hx]
  rfl

theorem lookup_merged_default {k : OptKey} (hk : k ∉ cameraTable) :
    (merged (some opts)).lookup k = hostDefaults.lookup k := by
  rw [lookup_merged, AList.lookup_eq_none.mpr fun h => hk ((hgives k).mp h)]
  rfl

theorem readOptions_merged (n : Int) :
    readOptions (merged (some opts)) n =
      { readOptions opts n with fixBignum := true, forceint := true } := by
  unfold readOptions
  simp only [lookup_merged_given hgives (by decide : OptKey.errType ∈ cameraTable),
    lookup_merged_given hgives (by decide : OptKey.errCycle ∈ cameraTable),
    lookup_merged_given hgives (by decide : OptKey.pretty ∈ cameraTable),
    lookup_merged_given hgives (by decide : OptKey.bracketKeys ∈ cameraTable),
    lookup_merged_given hgives (by decide : OptKey.compactArrays ∈ cameraTable),
    lookup_merged_default hgives (by decide : OptKey.fixBignum ∉ cameraTable),
    lookup_merged_default hgives (by decide : OptKey.forceint ∉ cameraTable)]
  rfl

theorem utilSerialize_honoured (h : Honoured opts) (tostring : Int → LuaString) (heap : Heap)
    (v : Value) :
    utilSerialize tostring heap v (some opts) =
      serializeWith heap (lua52 tostring) filledOptions opts v := by
  have htype := (hgives.isTrue_iff (by decide)).mpr h.errType
  refine serializeWith_congr (lookup_merged_given hgives (by decide)) fun n hn => ?_
  have hcycle : 3 ≤ n → true = isTrue (opts.lookup .errCycle) := by
    intro hthree
    rcases hn with hn | rfl
    · exact ((hgives.isTrue_iff (by decide)).mpr (h.errCycle n hn hthree)).symm
    · omega
  have harrays : 2 ≤ n → true = isTrue (opts.lookup .compactArrays) := by
    intro htwo
    rcases hn with hn | rfl
    · exact ((hgives.isTrue_iff (by decide)).mpr (h.compactArrays n hn htwo)).symm
    · omega
  rw [readOptions_merged hgives, ← serialize_shallow heap (lua52 tostring) _ true true hcycle harrays]
  unfold filledOptions
  rw [← htype]
  rfl

theorem cameraSerialize_honoured (h : Honoured opts) (heap : Heap) (v : Value) :
    (cameraSerialize cameraTable heap v (some opts)).1 =
      serializeWith heap luaCamera (fun opts n => plainNumbers (filledOptions opts n)) opts v := by
  have hdepth := (hgives.isTrue_iff (by decide)).mpr h.maxdepth
  refine serializeWith_congr ?_ fun n _ => ?_
  · rw [lookup_fillDefaults, if_pos hdepth]
  · rw [cameraOptions_filled]

end Honoured

theorem raises_iff {x : Except CallError LuaString} : Raises x ↔ ¬∃ text, x = .ok text := by
  cases x with
  | error e => exact iff_of_true ⟨e, rfl⟩ (by simp)
  | ok text => exact iff_of_false (by simp [Raises]) (by simp)

theorem mapError_ok {x : Except SerializeError LuaString} {text : LuaString} :
    x.mapError CallError.serialize = .ok text ↔ x = .ok text := by
  cases x <;> simp [Except.mapError]

/-- Whether a walk with the camera's options fails does not depend on the order of pairs. -/
theorem raises_reordered {heap heap' : Heap} (h : Reordered heap heap') (opts : OptTable)
    (v : Value) :
    Raises (serializeWith heap luaCamera (fun opts n => plainNumbers (filledOptions opts n)) opts v) ↔
      Raises (serializeWith heap' luaCamera (fun opts n => plainNumbers (filledOptions opts n))
        opts v) := by
  have hwalk : ∀ n, (∃ text, serialize heap' (plainNumbers (filledOptions opts n)) luaCamera v =
      .ok text) ↔ ∃ text, serialize heap (plainNumbers (filledOptions opts n)) luaCamera v =
        .ok text :=
    fun n => serialize_reordered h ⟨fun _ _ => rfl, escapes51⟩ rfl rfl v
  have hother : Raises (if isTable v then .error .compare
      else (serialize heap (plainNumbers (filledOptions opts 1)) luaCamera v).mapError .serialize) ↔
      Raises (if isTable v then .error .compare
        else (serialize heap' (plainNumbers (filledOptions opts 1)) luaCamera v).mapError
          .serialize) := by
    split_ifs
    · rfl
    · simp only [raises_iff, mapError_ok, hwalk 1]
  unfold serializeWith
  cases opts.lookup .maxdepth with
  | none => exact hother
  | some x =>
    cases x with
    | bool b => exact hother
    | num n => simp only [raises_iff, mapError_ok, hwalk n]

/-- With the same options both copies fail, or their texts are the same but for the numbers. -/
theorem serializeWith_same (heap : Heap) (tostring : Int → LuaString) (opts : OptTable) (v : Value)
    (hv : Data heap (fun s => quote escape52 s = quote escape51 s) v) :
    (∃ e, serializeWith heap (lua52 tostring) filledOptions opts v = .error e ∧
        serializeWith heap luaCamera (fun opts n => plainNumbers (filledOptions opts n)) opts v =
          .error e) ∨
      ∃ text text', serializeWith heap (lua52 tostring) filledOptions opts v = .ok text ∧
        serializeWith heap luaCamera (fun opts n => plainNumbers (filledOptions opts n)) opts v =
          .ok text' ∧ SameText text text' := by
  have hwalk : ∀ n, (∃ e,
      (serialize heap (filledOptions opts n) (lua52 tostring) v).mapError CallError.serialize =
        .error e ∧
      (serialize heap (plainNumbers (filledOptions opts n)) luaCamera v).mapError
        CallError.serialize = .error e) ∨ ∃ text text',
      (serialize heap (filledOptions opts n) (lua52 tostring) v).mapError CallError.serialize =
        .ok text ∧
      (serialize heap (plainNumbers (filledOptions opts n)) luaCamera v).mapError
        CallError.serialize = .ok text' ∧ SameText text text' := by
    intro n
    have hfix : (filledOptions opts n).fixBignum = true := rfl
    rcases serialize_same heap hfix rfl tostring v hv with
      ⟨e, hhost, hcamera⟩ | ⟨text, text', hhost, hcamera, hsame⟩
    · exact Or.inl ⟨.serialize e, by rw [hhost]; rfl, by rw [hcamera]; rfl⟩
    · exact Or.inr ⟨text, text', by rw [hhost]; rfl, by rw [hcamera]; rfl, hsame⟩
  unfold serializeWith
  cases opts.lookup .maxdepth with
  | none =>
    dsimp only
    split_ifs
    · exact Or.inl ⟨.compare, rfl, rfl⟩
    · exact hwalk 1
  | some x =>
    cases x with
    | bool b =>
      dsimp only
      split_ifs
      · exact Or.inl ⟨.compare, rfl, rfl⟩
      · exact hwalk 1
    | num n => exact hwalk n

theorem behaves_honoured {opts : OptTable} (hgives : Gives opts) (h : Honoured opts)
    (tostring : Int → LuaString) {heap heap' : Heap} (hheap : Reordered heap heap') (v : Value)
    (hv : Data heap (fun s => quote escape52 s = quote escape51 s) v) :
    Behaves tostring opts heap heap' v := by
  have hhost := utilSerialize_honoured hgives h tostring heap v
  have hcamera := cameraSerialize_honoured hgives h heap v
  have hcamera' := cameraSerialize_honoured hgives h heap' v
  rcases serializeWith_same heap tostring opts v hv with
    ⟨e, htext, htext'⟩ | ⟨text, text', htext, htext', hsame⟩
  · refine ⟨?_, fun text heq => ?_⟩
    · rw [hhost, hcamera', ← raises_reordered hheap, htext, htext']
    · rw [hhost, htext] at heq
      cases heq
  · refine ⟨?_, fun text'' heq => ?_⟩
    · rw [hhost, hcamera', ← raises_reordered hheap, htext, htext', raises_iff, raises_iff]
      simp
    · rw [hhost, htext] at heq
      cases heq
      exact ⟨text', hcamera.trans htext', hsame⟩

theorem cameraOptions_later {opts : OptTable} (htype : isTrue (opts.lookup .errType) = true)
    (defaults : OptTable) (n : Int) :
    cameraOptions (fillDefaults defaults (fillDefaults cameraTable opts)) n =
      { cameraOptions (fillDefaults defaults opts) n with
        errCycle := true
        compactArrays := true } := by
  have hlater : ∀ k, isTrue ((fillDefaults defaults (fillDefaults cameraTable opts)).lookup k) =
      (isTrue (opts.lookup k) || isTrue (cameraTable.lookup k) || isTrue (defaults.lookup k)) := by
    intro k
    rw [isTrue_fillDefaults, isTrue_fillDefaults]
  have htrue : ∀ k, isTrue (cameraTable.lookup k) = true →
      isTrue ((fillDefaults defaults (fillDefaults cameraTable opts)).lookup k) = true := by
    intro k hk
    rw [hlater, hk, Bool.or_true, Bool.true_or]
  have hfalse : ∀ k, isTrue (cameraTable.lookup k) = false →
      isTrue ((fillDefaults defaults (fillDefaults cameraTable opts)).lookup k) =
        isTrue ((fillDefaults defaults opts).lookup k) := by
    intro k hk
    rw [hlater, hk, Bool.or_false, isTrue_fillDefaults]
  unfold cameraOptions readOptions
  rw [htrue .errType rfl, htrue .errCycle rfl, htrue .compactArrays rfl, hfalse .pretty rfl,
    hfalse .bracketKeys rfl, isTrue_fillDefaults defaults opts .errType, htype]
  rfl

/-- Where the options are honoured, the defaults that a call has filled in are not looked at. -/
theorem later_honoured {opts : OptTable} (hgives : Gives opts) (h : Honoured opts) :
    LaterSame opts := by
  intro heap v defaults heap' v' opts' hopts'
  cases hopts'
  have hdepth := (hgives.isTrue_iff (by decide)).mpr h.maxdepth
  have htype := (hgives.isTrue_iff (by decide)).mpr h.errType
  have hfilled : (fillDefaults defaults opts).lookup .maxdepth = opts.lookup .maxdepth := by
    rw [lookup_fillDefaults, if_pos hdepth]
  refine serializeWith_congr ?_ fun n hn => ?_
  · rw [hfilled, lookup_fillDefaults, lookup_fillDefaults, if_pos hdepth, if_pos hdepth]
  · rw [hfilled] at hn
    have hcycle : 3 ≤ n → true = isTrue ((fillDefaults defaults opts).lookup .errCycle) := by
      intro hthree
      rcases hn with hn | rfl
      · rw [isTrue_fillDefaults, (hgives.isTrue_iff (by decide)).mpr (h.errCycle n hn hthree)]
        rfl
      · omega
    have harrays : 2 ≤ n → true = isTrue ((fillDefaults defaults opts).lookup .compactArrays) := by
      intro htwo
      rcases hn with hn | rfl
      · rw [isTrue_fillDefaults, (hgives.isTrue_iff (by decide)).mpr (h.compactArrays n hn htwo)]
        rfl
      · omega
    rw [cameraOptions_later htype]
    exact serialize_shallow heap' luaCamera (cameraOptions (fillDefaults defaults opts) n) true true
      hcycle harrays v'

/-! ## Options that are lost -/

theorem nil_key_ne : ∀ e ∈ ([] : List (Value × Value)), e.1 ≠ .nil :=
  fun _ he => absurd he List.not_mem_nil

theorem nil_value_ne : ∀ e ∈ ([] : List (Value × Value)), e.2 ≠ .nil :=
  fun _ he => absurd he List.not_mem_nil

theorem nil_border_value : 0 ≠ 0 → lookupValue ([] : List (Value × Value)) (.int (0 : Nat)) ≠ .nil :=
  fun h => absurd rfl h

theorem nil_border_next : lookupValue ([] : List (Value × Value)) (.int ((0 : Nat) + 1)) = .nil :=
  rfl

/-- `{}`. -/
def empty : Table :=
  ⟨[], 0, [], List.nodup_nil, nil_key_ne, nil_value_ne, nil_border_value, nil_border_next⟩

/-- `t` with `t[true] = t`. -/
def loop : Table where
  entries := [(.scalar (.bool true), .table 0)]
  border := 0
  text := []
  nodup := by decide
  key_ne := by decide
  value_ne := by decide
  border_value := by decide
  border_next := by decide

/-- `{true}`. -/
def single : Table where
  entries := [(.int 1, .scalar (.bool true))]
  border := 1
  text := []
  nodup := by decide
  key_ne := by decide
  value_ne := by decide
  border_value := by decide
  border_next := by decide

theorem serializeWith_str (heap : Heap) (lua : Lua) (read : OptTable → Int → Opts)
    (opts : OptTable) (s : LuaString) :
    serializeWith heap lua read opts (.str s) = .ok (quote lua.escape s) := by
  have hwalk : ∀ o, serialize heap o lua (.str s) = .ok (quote lua.escape s) := by
    intro o
    unfold serialize
    cases (o.maxdepth - 1).toNat <;> exact congrArg Except.ok (List.append_nil _)
  unfold serializeWith
  simp only [hwalk]
  split <;> rfl

theorem serializeWith_other (heap : Heap) (lua : Lua) {read : OptTable → Int → Opts}
    {opts : OptTable} {errType : Bool} (h : ∀ n, (read opts n).errType = errType) :
    Raises (serializeWith heap lua read opts (.other [] [])) ↔ errType = true := by
  have hvisit : ∀ o left, serializeR heap o lua left 1 (.other [] []) =
      if o.errType then Visiting.fail (.unsupportedType [])
      else Visiting.output [[byte '"', byte '"']] := by
    intro o left
    cases left <;> rfl
  have hwalk : ∀ n, Raises ((serialize heap (read opts n) lua (.other [] [])).mapError
      CallError.serialize) ↔ errType = true := by
    intro n
    unfold serialize
    rw [hvisit, h n]
    cases errType with
    | true => exact iff_of_true ⟨_, rfl⟩ rfl
    | false => exact iff_of_false (raises_iff.not_left.mpr ⟨_, rfl⟩) (by decide)
  unfold serializeWith
  split
  · exact hwalk _
  · exact hwalk 1

/-- A heap in which all tables are this one. -/
def everywhere (t : Table) : Heap := fun _ => t

theorem data_everywhere {t : Table} (strings : LuaString → Prop)
    (h : ∀ e ∈ t.entries, (e.1 = .scalar (.bool true) ∨ e.1 = .int 1) ∧
      (e.2 = .scalar (.bool true) ∨ e.2 = .table 0)) :
    Data (everywhere t) strings (.table 0) := by
  refine Data.closed (P := fun v => v = .scalar (.bool true) ∨ v = .int 1 ∨ v = .table 0) ?_ ?_
    (Or.inr (Or.inr rfl))
  · rintro v (rfl | rfl | rfl) <;> trivial
  · intro ref _ e he
    obtain ⟨hkey, hvalue⟩ := h e he
    exact ⟨by tauto, by tauto⟩

theorem reordered_self (heap : Heap) : Reordered heap heap := ⟨fun _ => .refl _, fun _ => rfl⟩

/-- Defaults with `err_type` off. -/
def typesAllowed : OptTable where
  entries := [⟨.errType, .bool false⟩]
  nodupKeys := by unfold List.NodupKeys; decide

section Lost

variable {opts : OptTable} (hgives : Gives opts) (tostring : Int → LuaString)

include hgives in
theorem utilSerialize_number {n : Int} (h : opts.lookup .maxdepth = some (.num n)) (heap : Heap)
    (v : Value) :
    utilSerialize tostring heap v (some opts) =
      (serialize heap { readOptions opts n with fixBignum := true, forceint := true }
        (lua52 tostring) v).mapError .serialize := by
  unfold utilSerialize serializeWith
  rw [lookup_merged_given hgives (by decide), h]
  dsimp only
  rw [readOptions_merged hgives]

theorem cameraSerialize_number {n : Int}
    (h : (fillDefaults cameraTable opts).lookup .maxdepth = some (.num n)) (heap : Heap)
    (v : Value) :
    (cameraSerialize cameraTable heap v (some opts)).1 =
      (serialize heap (plainNumbers (filledOptions opts n)) luaCamera v).mapError .serialize := by
  rw [cameraSerialize_some]
  unfold serializeWith
  rw [h]
  dsimp only
  rw [cameraOptions_filled]

theorem lookup_fill_number {n : Int} (h : opts.lookup .maxdepth = some (.num n)) :
    (fillDefaults cameraTable opts).lookup .maxdepth = some (.num n) := by
  rw [lookup_fillDefaults, h]
  rfl

include hgives in
/-- A false maxdepth is no number for the host, and the default for the camera. -/
theorem maxdepth_lost (h : opts.lookup .maxdepth = some (.bool false)) :
    ¬Behaves tostring opts (everywhere empty) (everywhere empty) (.table 0) := by
  intro hb
  have hhost : Raises (utilSerialize tostring (everywhere empty) (.table 0) (some opts)) := by
    refine ⟨.compare, ?_⟩
    unfold utilSerialize serializeWith
    rw [lookup_merged_given hgives (by decide), h]
    rfl
  refine raises_iff.mp (hb.raises.mp hhost) ?_
  have hdepth : (fillDefaults cameraTable opts).lookup .maxdepth = some (.num 10) := by
    rw [lookup_fillDefaults, h]
    rfl
  have hread : Readable (plainNumbers (filledOptions opts 10)) luaCamera :=
    ⟨fun _ _ => rfl, escapes51⟩
  obtain ⟨text, htext⟩ := serialize_succeeds (everywhere empty) hread rfl rfl (v := .table 0)
    ⟨by simp [arrayPart, compact, everywhere, empty], by simp [otherPart, everywhere, empty]⟩
    (List.nodup_singleton 0)
  exact ⟨text, by rw [cameraSerialize_number hdepth, htext]; rfl⟩

theorem serializeR_loop {o : Opts} (hcycle : o.errCycle = false) (lua : Lua) (left : Nat) :
    ∃ x, serializeR (everywhere loop) o lua (left + 2) 1 (.table 0) [] = .ok x := by
  simp [serializeR, Visiting.enter, hcycle, Visiting.mapOutput, serializeParts, Visiting.seq,
    Visiting.output, everywhere, loop, arrayPart, compact, otherPart, isOther, Visiting.each,
    serializeField, serializeKey, bareKey, Except.bind, Except.map]

include hgives in
/-- Where the host writes that a table is met again, the camera raises an error. -/
theorem errCycle_lost {n : Int} (hdepth : opts.lookup .maxdepth = some (.num n)) (hn : 3 ≤ n)
    (h : opts.lookup .errCycle = some (.bool false)) :
    ¬Behaves tostring opts (everywhere loop) (everywhere loop) (.table 0) := by
  intro hb
  have hleft : (n - 1).toNat = (n - 3).toNat + 2 := by omega
  have hcamera : Raises (cameraSerialize cameraTable (everywhere loop) (.table 0) (some opts)).1 := by
    rw [raises_iff, cameraSerialize_number (lookup_fill_number hdepth)]
    rintro ⟨text, htext⟩
    have hnodup := (unserialize_serialize (everywhere loop) ⟨fun _ _ => rfl, escapes51⟩ rfl rfl
      (mapError_ok.mp htext)).2.1
    change (marked (everywhere loop) _ (n - 1).toNat (.table 0)).Nodup at hnodup
    rw [hleft] at hnodup
    simp [marked, everywhere, loop, otherPart, isOther] at hnodup
  obtain ⟨x, hx⟩ := serializeR_loop
    (o := { readOptions opts n with fixBignum := true, forceint := true })
    (by simp [readOptions, h, isTrue]) (lua52 tostring) (n - 3).toNat
  refine raises_iff.mp (hb.raises.mpr hcamera) ⟨x.1.flatten, ?_⟩
  rw [utilSerialize_number hgives tostring hdepth]
  unfold serialize
  change (Except.map _ (serializeR _ _ _ (n - 1).toNat 1 _ [])).mapError _ = _
  rw [hleft, hx]
  rfl

/-- The pieces of the field of `{true}` with its key. -/
def singleField : List LuaString :=
  [[byte '['], [byte '1'], [byte ']'], [byte '='], boolText true, [byte ',']]

theorem serializeR_single {o : Opts} (hforce : o.forceint = true) (harrays : o.compactArrays = false)
    (lua : Lua) (left : Nat) :
    serializeR (everywhere single) o lua (left + 1) 1 (.table 0) [] =
      .ok (tablePieces o 1 (newline o 1 ++ singleField), [0]) := by
  have hone : number lua o 1 = [byte '1'] := by
    unfold number
    rw [if_pos hforce, if_neg (by simp)]
    rfl
  simp [serializeR, Visiting.enter, Visiting.mapOutput, serializeParts, Visiting.seq,
    Visiting.output, everywhere, single, arrayPart, compact, harrays, otherPart, isOther,
    Visiting.each, serializeField, serializeKey, bareKey, Except.bind, Except.map, hone, singleField]

theorem serializeR_single_compact {o : Opts} (harrays : o.compactArrays = true) (lua : Lua)
    (left : Nat) :
    serializeR (everywhere single) o lua (left + 1) 1 (.table 0) [] =
      .ok (tablePieces o 1 (newline o 1 ++ [boolText true, [byte ',']]), [0]) := by
  simp [serializeR, Visiting.enter, Visiting.mapOutput, serializeParts, Visiting.seq,
    Visiting.output, everywhere, single, arrayPart, compact, harrays, otherPart, isOther,
    Visiting.each, serializeItem, isTable, Table.ipairs, Table.elements, Table.get, lookupValue,
    Except.bind, Except.map]

include hgives in
/-- The host writes the key of the element, the camera does not. -/
theorem compactArrays_lost {n : Int} (hdepth : opts.lookup .maxdepth = some (.num n)) (hn : 2 ≤ n)
    (h : opts.lookup .compactArrays = some (.bool false)) :
    ¬Behaves tostring opts (everywhere single) (everywhere single) (.table 0) := by
  intro hb
  have hleft : (n - 1).toNat = (n - 2).toNat + 1 := by omega
  have hhost : utilSerialize tostring (everywhere single) (.table 0) (some opts) =
      .ok (tablePieces (readOptions opts n) 1 (newline (readOptions opts n) 1 ++
        singleField)).flatten := by
    have hwalk := serializeR_single
      (o := { readOptions opts n with fixBignum := true, forceint := true }) rfl
      (by simp [readOptions, h, isTrue]) (lua52 tostring) (n - 2).toNat
    rw [utilSerialize_number hgives tostring hdepth]
    unfold serialize
    change (Except.map _ (serializeR _ _ _ (n - 1).toNat 1 _ [])).mapError _ = _
    rw [hleft, hwalk]
    rfl
  obtain ⟨text, htext, hsame⟩ := hb.text _ hhost
  have hcamera : (cameraSerialize cameraTable (everywhere single) (.table 0) (some opts)).1 =
      .ok (tablePieces (readOptions opts n) 1 (newline (readOptions opts n) 1 ++
        [boolText true, [byte ',']])).flatten := by
    have hwalk := serializeR_single_compact (o := plainNumbers (filledOptions opts n)) rfl luaCamera
      (n - 2).toNat
    rw [cameraSerialize_number (lookup_fill_number hdepth)]
    unfold serialize
    change (Except.map _ (serializeR _ _ _ (n - 1).toNat 1 _ [])).mapError _ = _
    rw [hleft, hwalk]
    rfl
  rw [hcamera] at htext
  cases htext
  have hcount := hsame.count (by decide : isWord (byte '[') = false)
  unfold tablePieces newline at hcount
  split_ifs at hcount
  · exact absurd hcount (by decide)
  · exact absurd hcount (by decide)

/-- With another default the camera would have honoured the caller's table. -/
theorem errType_lost (h : opts.lookup .errType = some (.bool false)) : ¬LaterSame opts := by
  intro hlater
  have hsame := hlater (everywhere empty) .nil typesAllowed (everywhere empty) (.other [] [])
    (fillDefaults cameraTable opts) rfl
  rw [cameraSerialize_some, cameraSerialize_some] at hsame
  have hchanged : ∀ n, (cameraOptions (fillDefaults typesAllowed (fillDefaults cameraTable opts))
      n).errType = true := by
    intro n
    rw [cameraOptions_errType, isTrue_fillDefaults, isTrue_fillDefaults, h]
    rfl
  have hunchanged : ∀ n, (cameraOptions (fillDefaults typesAllowed opts) n).errType = false := by
    intro n
    rw [cameraOptions_errType, isTrue_fillDefaults, h]
    rfl
  have hraises := (serializeWith_other (everywhere empty) luaCamera hchanged).mpr rfl
  rw [hsame] at hraises
  exact absurd ((serializeWith_other _ _ hunchanged).mp hraises) (by decide)

end Lost

/-! ## Both copies with one table -/

theorem data_str (heap : Heap) {strings : LuaString → Prop} {s : LuaString} (hs : strings s) :
    Data heap strings (.str s) := by
  intro w hw
  cases hw
  exact hs

theorem strings_alike {strings : LuaString → Prop} {opts : OptTable} {tostring : Int → LuaString}
    {heap : Heap} (h : ∀ v, Data heap strings v → Behaves tostring opts heap heap v) (s : LuaString)
    (hs : strings s) : writtenAlike s = true := by
  obtain ⟨text', htext', hsame⟩ := (h (.str s) (data_str heap hs)).text (quote escape52 s)
    (serializeWith_str heap (lua52 tostring) readOptions _ s)
  rw [cameraSerialize_some, serializeWith_str] at htext'
  cases htext'
  exact (sameText_quote_iff s).mp hsame

/-- For a table that gives the options of both copies: the copies do the same with every
value whose strings are of the given kind, and a call leaves the table as it was for the
next, if and only if no false option is lost and both Luas quote the strings alike. -/
theorem same_options_iff (tostring : Int → LuaString) (strings : LuaString → Prop) (opts : OptTable)
    (hgives : Gives opts) :
    ((∀ heap heap' v, Reordered heap heap' → Data heap strings v →
        Behaves tostring opts heap heap' v) ∧ LaterSame opts) ↔
      Honoured opts ∧ ∀ s, strings s → writtenAlike s = true := by
  constructor
  · rintro ⟨hbehaves, hlater⟩
    have hself : ∀ heap v, Data heap strings v → Behaves tostring opts heap heap v :=
      fun heap v hv => hbehaves heap heap v (reordered_self heap) hv
    have hempty : Data (everywhere empty) strings (.table 0) :=
      data_everywhere strings fun e he => by cases he
    have hloop : Data (everywhere loop) strings (.table 0) := data_everywhere strings (by decide)
    have hsingle : Data (everywhere single) strings (.table 0) :=
      data_everywhere strings (by decide)
    refine ⟨⟨?_, ?_, ?_, ?_⟩, strings_alike (hself (everywhere empty))⟩
    · exact fun h => maxdepth_lost hgives tostring h (hself _ _ hempty)
    · exact fun h => errType_lost h hlater
    · exact fun n hn hthree h => errCycle_lost hgives tostring hn hthree h (hself _ _ hloop)
    · exact fun n hn htwo h => compactArrays_lost hgives tostring hn htwo h (hself _ _ hsingle)
  · rintro ⟨h, hstrings⟩
    refine ⟨fun heap heap' v hheap hv => ?_, later_honoured hgives h⟩
    exact behaves_honoured hgives h tostring hheap v
      (hv.mono fun s hs => (quote_alike_iff s).mpr (hstrings s hs))

theorem same_options_witness :
    ((∀ heap heap' v, Reordered heap heap' → Data heap (fun s => writtenAlike s = true) v →
        Behaves decimal cameraTable heap heap' v) ∧ LaterSame cameraTable) ↔
      Honoured cameraTable ∧ ∀ s, writtenAlike s = true → writtenAlike s = true :=
  same_options_iff decimal (fun s => writtenAlike s = true) cameraTable fun _ => Iff.rfl

/-- Cycles are to be written. -/
def cyclesWritten : OptTable where
  entries := [⟨.maxdepth, .num 10⟩, ⟨.errType, .bool true⟩, ⟨.errCycle, .bool false⟩,
    ⟨.pretty, .bool false⟩, ⟨.bracketKeys, .bool false⟩, ⟨.compactArrays, .bool true⟩]
  nodupKeys := by unfold List.NodupKeys; decide

/-- The host writes the table that contains itself, the camera raises an error and leaves
the option true. -/
theorem cycles_not_written :
    Gives cyclesWritten ∧ Data (everywhere loop) (fun _ => False) (.table 0) ∧
      ¬Behaves decimal cyclesWritten (everywhere loop) (everywhere loop) (.table 0) ∧
      (fillDefaults cameraTable cyclesWritten).lookup .errCycle = some (.bool true) := by
  have hgives : Gives cyclesWritten := fun k => by cases k <;> decide
  refine ⟨hgives, data_everywhere _ (by decide), ?_, rfl⟩
  exact errCycle_lost hgives decimal rfl (by decide : (3 : Int) ≤ 10) rfl

end SerializeOptions
