import Chdkptp.LuaPattern
import Chdkptp.RemoteCapture
import Mathlib.Algebra.Order.Round
import Mathlib.Data.Rat.Floor
import Mathlib.Tactic.Linarith
import Mathlib.Tactic.NormNum
import Mathlib.Tactic.Positivity
import Mathlib.Tactic.Ring

/-!
# The options of a shot

`cli:get_shoot_common_opts` turns the switches of `shoot` and `remoteshoot` into the options
of the camera. The subject distance is a number with a unit, which goes into them in
millimetres. Lua's numbers are rational numbers here.
-/

namespace ShootOpts

open LuaPattern RemoteCapture
open LuaText (bytes digitsValue)

/-! ## The functions -/

/-- `util.round`. -/
def utilRound (n : ℚ) : ℤ :=
  let f := ⌊n⌋
  if n > 0 then if n - f < 1 / 2 then f else ⌈n⌉
  else if n - f > 1 / 2 then ⌈n⌉ else f

/-- What the parser of arguments leaves in a switch that was given. -/
inductive Arg where
  | on
  | text (b : Bytes)
  deriving DecidableEq

/-- The switches; `seq` is made a number in place. -/
structure Args where
  u : Arg
  av : Option Arg
  sv : Option Arg
  svm : Option Arg
  tv : Option Arg
  isomode : Option Arg
  nd : Option Arg
  sd : Option Arg
  sdmode : Option Arg
  seq : Option Arg

inductive Failure where
  /-- `return false,msg` -/
  | rejected (msg : Bytes)
  | raised (e : LuaError)
  deriving DecidableEq

/-- What the exposure functions and Lua's `tonumber` do, for any kind of numbers. -/
structure Exposure (ν : Type) where
  f_to_av96 : Arg → Except LuaError ν
  iso_to_sv96 : Arg → Except LuaError ν
  shutter_to_tv96 : ν → Except LuaError ν
  /-- `util.round(v*96)` -/
  apex96 : Arg → Except LuaError ν
  tonumber : Arg → Option ν
  div : ν → ν → ν
  isZero : ν → Bool
  one : ν

structure Opts (ν : Type) where
  av : Option ν := none
  sv : Option ν := none
  svm : Option ν := none
  tv : Option ν := none
  isomode : Option ν := none
  nd : Option Nat := none
  sd : Option ℤ := none
  sdprefmode : Option Bytes := none
  sdnoenable : Bool := false
  /-- stored in the arguments -/
  seq : Option ν := none

/-- The connection. -/
structure Con where
  is_connected : Bool
  /-- `con:is_ver_compatible(2,5)` -/
  compatible : Bool

section Switches

variable {ν : Type} (x : Exposure ν)

def reject {α : Type} (msg : String) : Except Failure α := .error (.rejected (bytes msg.toList))

def raising {α : Type} : Except LuaError α → Except Failure α
  | .ok a => .ok a
  | .error e => .error (.raised e)

/-- `if args.v then opts.v=f(args.v) end` -/
def given {α : Type} (f : Arg → Except LuaError α) : Option Arg → Except Failure (Option α)
  | none => .ok none
  | some v => (raising (f v)).map some

def tvFraction : Bytes := bytes "^([%d]+)/([%d.]+)$".toList

/-- The shutter time in standard units. -/
def tvValue : Arg → Except Failure ν
  | .on => .error (.raised (.text
      (bytes "bad argument #1 to 'match' (string expected, got boolean)".toList)))
  | .text tv =>
    match stringMatch tv tvFraction with
    | .error msg => .error (.raised (.text (bytes msg.toList)))
    | .ok (some [.str n, .str d]) =>
      match x.tonumber (.text n), x.tonumber (.text d) with
      | some n, some d =>
        if x.isZero n || x.isZero d then reject "invalid tv fraction"
        else raising (x.shutter_to_tv96 (x.div n d))
      | _, _ => reject "invalid tv fraction"
    | .ok _ =>
      match x.tonumber (.text tv) with
      | none => reject "invalid tv value"
      | some n => raising (x.shutter_to_tv96 n)

/-- The exposure in the units that `u` says. -/
def exposureOpts (args : Args) : Except Failure (Opts ν) :=
  if args.u = .text (bytes "s".toList) then do
    let av ← given x.f_to_av96 args.av
    let sv ← given x.iso_to_sv96 args.sv
    let svm ← given x.iso_to_sv96 args.svm
    let tv ← args.tv.elim (.ok none) fun tv => (tvValue x tv).map some
    return { av, sv, svm, tv }
  else if args.u = .text (bytes "a".toList) then do
    let av ← given x.apex96 args.av
    let sv ← given x.apex96 args.sv
    let svm ← given x.apex96 args.svm
    let tv ← given x.apex96 args.tv
    return { av, sv, svm, tv }
  else
    return { av := args.av.bind x.tonumber, sv := args.sv.bind x.tonumber,
             svm := args.svm.bind x.tonumber, tv := args.tv.bind x.tonumber }

def isomodeOpt (args : Args) (opts : Opts ν) : Except Failure (Opts ν) :=
  match args.isomode with
  | none => .ok opts
  | some v =>
    if opts.sv.isSome || opts.svm.isSome then reject "set only one of sv, svm or isomode!"
    else .ok { opts with isomode := x.tonumber v }

/-- `tostring` of a switch. -/
def Arg.toText : Arg → Bytes
  | .on => bytes "true".toList
  | .text b => b

def ndStates : List (Arg × Nat) :=
  [(.text (bytes "in".toList), 1), (.text (bytes "out".toList), 2)]

def ndOpt (args : Args) (opts : Opts ν) : Except Failure (Opts ν) :=
  match args.nd with
  | none => .ok opts
  | some v =>
    match ndStates.lookup v with
    | none => .error (.rejected (bytes "invalid ND state ".toList ++ v.toText))
    | some val => .ok { opts with nd := some val }

def sdPattern : Bytes := bytes "(%d+)(%a*)".toList

/-- Millimetres in a unit; the entry for centimetres is ten times too large. -/
def convert : List (Bytes × ℚ) :=
  [(bytes "mm".toList, 1), (bytes "cm".toList, 100), (bytes "m".toList, 1000),
    (bytes "ft".toList, 3048 / 10), (bytes "in".toList, 254 / 10)]

def sdUnits (units : Bytes) : Failure := .rejected (bytes "invalid sd units ".toList ++ units)

/-- The number that digits stand for. -/
def number (l : Bytes) : Nat := (digitsValue 10 l).getD 0

/-- The distance for what the pattern found. -/
def sdAmount (sd units : Bytes) : Except Failure ℤ :=
  match convert.lookup (if units = [] then bytes "m".toList else units) with
  | none => .error (sdUnits units)
  | some factor => .ok (utilRound (number sd * factor))

def sdValue : Arg → Except Failure ℤ
  | .on => .error (.raised (.text
      (bytes "bad argument #1 to 'match' (string expected, got boolean)".toList)))
  | .text s =>
    match stringMatch s sdPattern with
    | .error msg => .error (.raised (.text (bytes msg.toList)))
    | .ok (some [.str sd, .str units]) => sdAmount sd units
    -- nothing was found, and both variables are nil
    | .ok _ => .error (sdUnits (bytes "nil".toList))

example : sdValue (.text (bytes "5ft".toList)) = .ok 1524 := by decide +kernel

def sdOpt (args : Args) (opts : Opts ν) : Except Failure (Opts ν) :=
  match args.sd with
  | none => .ok opts
  | some v => (sdValue v).map fun sd => { opts with sd := some sd }

def sdModes : List Bytes :=
  [bytes "AF".toList, bytes "AFL".toList, bytes "MF".toList, bytes "NONE".toList]

local instance lawful_mode : LawfulBEq Bytes := inferInstance

def sdmodeOpt (args : Args) (opts : Opts ν) : Except Failure (Opts ν) :=
  match args.sdmode with
  | none => .ok opts
  | some mode =>
    if args.sd = none then reject "sdmode requires sd"
    else match mode with
      | .on => reject "sdmode requires a value"
      | .text mode =>
        if upper mode ∉ sdModes then
          .error (.rejected (bytes "invalid sd mode ".toList ++ upper mode))
        else if upper mode = bytes "NONE".toList then
          .ok { opts with sdprefmode := none, sdnoenable := true }
        else .ok { opts with sdprefmode := some (upper mode) }

/-- CHDK before API 2.5 ignores an APEX value of 0. -/
def tvHack (con : Con) (opts : Opts ν) : Opts ν :=
  if opts.tv.any x.isZero && !con.compatible then { opts with tv := some x.one } else opts

def seqOpt (args : Args) (opts : Opts ν) : Except Failure (Opts ν) :=
  match args.seq with
  | none => .ok opts
  | some v =>
    match x.tonumber v with
    | none => reject "invalid seq"
    | some n => .ok { opts with seq := some n }

def units : List Arg :=
  [.text (bytes "s".toList), .text (bytes "a".toList), .text (bytes "96".toList)]

def get_shoot_common_opts (con : Con) (args : Args) : Except Failure (Opts ν) :=
  if !con.is_connected then reject "not connected"
  else if args.u ∉ units then reject "invalid units"
  else if args.sv.isSome && args.svm.isSome then reject "both sv and svm given"
  else do
    let opts ← exposureOpts x args
    let opts ← isomodeOpt x args opts
    let opts ← ndOpt args opts
    let opts ← sdOpt args opts
    let opts ← sdmodeOpt args opts
    seqOpt x args (tvHack x con opts)

end Switches

/-! ## Rounding -/

theorem utilRound_eq {n : ℚ} (h : 0 ≤ n) : utilRound n = round n := by
  have hfloor := Int.floor_le n
  obtain rfl | hpos := h.eq_or_lt
  · norm_num [utilRound]
  · rw [utilRound, if_pos hpos]
    split
    · next hlow =>
      exact (round_eq_iff.mpr ⟨by linarith, by linarith⟩).symm
    · next hhigh =>
      have hceil := Int.le_ceil n
      have hnext : (⌈n⌉ : ℚ) ≤ ⌊n⌋ + 1 := by exact_mod_cast Int.ceil_le_floor_add_one n
      exact (round_eq_iff.mpr ⟨by linarith, by linarith⟩).symm

/-! ## The first number of a text -/

/-- The first number of a text and the letters behind it. -/
structure FirstNumber (text pre ds us rest : Bytes) : Prop where
  before : Run (fun b => !isDigit b) text pre (ds ++ (us ++ rest))
  digits : Run isDigit (ds ++ (us ++ rest)) ds (us ++ rest)
  ne_nil : ds ≠ []
  letters : Run isAlpha (us ++ rest) us rest

section First

variable {text pre ds us rest : Bytes}

theorem exists_firstNumber (text : Bytes) :
    (∀ b ∈ text, isDigit b = false) ∨ ∃ pre ds us rest, FirstNumber text pre ds us rest := by
  obtain ⟨pre, t, hpre⟩ := exists_run (fun b => !isDigit b) text
  obtain ⟨ds, t', hds⟩ := exists_run isDigit t
  obtain ⟨us, rest, hus⟩ := exists_run isAlpha t'
  have ht := hds.split
  have ht' := hus.split
  by_cases hne : ds = []
  · have hnil : t = [] := by
      cases t with
      | nil => rfl
      | cons b t =>
        have hdigit := hpre.stop b t rfl
        rw [hne] at ht
        rw [hds.stop b t ht.symm] at hdigit
        cases hdigit
    left
    intro b hb
    rw [hpre.split, hnil, List.append_nil] at hb
    simpa using hpre.mem b hb
  · right
    subst ht' ht
    exact ⟨pre, ds, us, rest, hpre, hds, hne, hus⟩

theorem sdPattern_read : sdPattern.head? ≠ some 94 ∧ items sdPattern =
    [.openCapture, .single (.escape 100) .plus, .closeCapture,
      .openCapture, .single (.escape 97) .star, .closeCapture] := by
  decide +kernel

theorem items_sd : items sdPattern =
    [.openCapture, .single (.escape 100) .plus, .closeCapture,
      .openCapture, .single (.escape 97) .star, .closeCapture] := sdPattern_read.2

/-- Where the number and the letters are. -/
def sdFound (s : Nat) (ds us : Bytes) : Found :=
  (s + ds.length + us.length, [⟨s, .len ds.length⟩, ⟨s + ds.length, .len us.length⟩])

theorem leads_sd {s : Nat} (hs : text.drop s = ds ++ (us ++ rest))
    (hds : Run isDigit (ds ++ (us ++ rest)) ds (us ++ rest)) (hne : ds ≠ [])
    (hus : Run isAlpha (us ++ rest) us rest) :
    Leads text (items sdPattern) s [] (sdFound s ds us) := by
  have hds' : Run (fun b => Single.test b (.escape 100)) (text.drop s) ds (us ++ rest) := hs ▸ hds
  have hus' : Run (fun b => Single.test b (.escape 97)) (text.drop (s + ds.length)) us rest :=
    drop_append hs ▸ hus
  rw [items_sd]
  apply leads_run (Or.inr ⟨rfl, hne⟩) hds' (by decide)
  exact leads_run (Or.inl rfl) hus' (by simp [maxCaptures]) leads_nil

/-- Where a digit stands. -/
def DigitAt (text : Bytes) (s : Nat) : Prop := ∃ b t, text.drop s = b :: t ∧ isDigit b = true

theorem digitAt_of_some {s depth : Nat} {caps : List Capture} {r : Found}
    (h : matchItems text (items sdPattern) depth s caps = .ok (some r)) : DigitAt text s := by
  rw [items_sd] at h
  obtain ⟨d1, caps1, h⟩ := matchItems_open_some h
  obtain ⟨i, hi, -⟩ := matchItems_repeat_some h
  have hpos : 0 < repeats text s (.escape 100) := by
    by_contra hzero
    simp [takes, Nat.eq_zero_of_not_pos hzero] at hi
  exact repeats_pos.mp hpos

theorem leads_of_digitAt {s : Nat} (h : DigitAt text s) :
    ∃ r, Leads text (items sdPattern) s [] r := by
  obtain ⟨b, t, hs, hb⟩ := h
  obtain ⟨ds, t', hds⟩ := exists_run isDigit (b :: t)
  obtain ⟨us, rest, hus⟩ := exists_run isAlpha t'
  have hne : ds ≠ [] := by
    rintro rfl
    rw [hds.stop b t hds.split.symm] at hb
    cases hb
  obtain rfl := hus.split
  rw [hds.split] at hs hds
  exact ⟨_, leads_sd hs hds hne hus⟩

theorem digitAt_of_mem {b : UInt8} (hmem : b ∈ text) (hb : isDigit b = true) :
    DigitAt text (text.idxOf b) := by
  have hlt := List.idxOf_lt_length_of_mem hmem
  exact ⟨b, _, by rw [List.drop_eq_getElem_cons hlt, List.getElem_idxOf], hb⟩

theorem FirstNumber.digitAt (h : FirstNumber text pre ds us rest) : DigitAt text pre.length := by
  obtain ⟨d, ds', rfl⟩ := List.exists_cons_of_ne_nil h.ne_nil
  refine ⟨d, ds' ++ (us ++ rest), ?_, h.digits.mem d List.mem_cons_self⟩
  rw [h.before.split, List.drop_left]
  rfl

theorem FirstNumber.not_digitAt (h : FirstNumber text pre ds us rest) {k : Nat}
    (hk : k < pre.length) : ¬DigitAt text k := by
  rintro ⟨b, t, hdrop, hb⟩
  rw [h.before.split, List.drop_append_of_le_length (Nat.le_of_lt hk),
    List.drop_eq_getElem_cons hk] at hdrop
  have hmem : b ∈ pre := (List.cons.inj hdrop).1 ▸ List.getElem_mem hk
  have hnot := h.before.mem b hmem
  rw [hb] at hnot
  cases hnot

/-- What the search finds, if anything. -/
theorem search_sd (text : Bytes) :
    (search text sdPattern 0 = .ok none ∧ ∀ s, ¬DigitAt text s) ∨
      ∃ s r, search text sdPattern 0 = .ok (some (s, r)) ∧ Leads text (items sdPattern) s [] r ∧
        DigitAt text s ∧ ∀ k, k < s → ¬DigitAt text k := by
  apply search_kind sdPattern_read.1 (by rw [items_sd]; simp [Grouped])
    (by rw [items_sd]; decide) (fun s h => leads_of_digitAt h) (fun s r h => digitAt_of_some h)
  rintro s ⟨b, t, hs, -⟩
  by_contra hlt
  rw [List.drop_eq_nil_of_le (by omega)] at hs
  cases hs

theorem stringMatch_of_none (h : ∀ b ∈ text, isDigit b = false) :
    stringMatch text sdPattern = .ok none := by
  obtain ⟨hsearch, -⟩ | ⟨s, r, -, -, ⟨b, t, hs, hb⟩, -⟩ := search_sd text
  · simp only [stringMatch, hsearch]
  · have hmem : b ∈ text := List.mem_of_mem_drop (hs ▸ List.mem_cons_self)
    rw [h b hmem] at hb
    cases hb

/-- The captures are the first number and the letters behind it. -/
theorem FirstNumber.stringMatch (h : FirstNumber text pre ds us rest) :
    stringMatch text sdPattern = .ok (some [.str ds, .str us]) := by
  obtain ⟨-, hnone⟩ | ⟨s, r, hsearch, hr, hs, hfirst⟩ := search_sd text
  · exact absurd h.digitAt (hnone pre.length)
  · obtain rfl : s = pre.length := by
      obtain hlt | heq | hlt := Nat.lt_trichotomy s pre.length
      · exact absurd hs (h.not_digitAt hlt)
      · exact heq
      · exact absurd h.digitAt (hfirst _ hlt)
    have hdrop : text.drop pre.length = ds ++ (us ++ rest) := by
      rw [h.before.split, List.drop_left]
    obtain rfl := hr.unique (leads_sd hdrop h.digits h.ne_nil h.letters)
    simp only [LuaPattern.stringMatch, hsearch, sdFound, captureValues, captureValue_len hdrop rfl,
      captureValue_len (drop_append hdrop) rfl, Except.map]

end First

/-! ## The distance of a text -/

theorem sdValue_of_none {text : Bytes} (h : ∀ b ∈ text, isDigit b = false) :
    sdValue (.text text) = .error (sdUnits (bytes "nil".toList)) := by
  rw [sdValue, stringMatch_of_none h]

theorem FirstNumber.sdValue {text pre ds us rest : Bytes} (h : FirstNumber text pre ds us rest) :
    sdValue (.text text) = sdAmount ds us := by
  rw [ShootOpts.sdValue, h.stringMatch]

theorem FirstNumber.unique {text pre ds us rest pre' ds' us' rest' : Bytes}
    (h : FirstNumber text pre ds us rest) (h' : FirstNumber text pre' ds' us' rest') :
    pre = pre' ∧ ds = ds' ∧ us = us' ∧ rest = rest' := by
  obtain ⟨hpre, htail⟩ := h.before.unique h'.before
  obtain ⟨hds, htail'⟩ := h.digits.unique (htail ▸ h'.digits)
  obtain ⟨hus, hrest⟩ := h.letters.unique (htail' ▸ h'.letters)
  exact ⟨hpre, hds, hus, hrest⟩

/-! ## Distances as they are written -/

/-- Millimetres in a unit; no unit is metres. -/
def unitLength : List (Bytes × ℚ) :=
  [(bytes "mm".toList, 1), (bytes "cm".toList, 10), (bytes "m".toList, 1000),
    (bytes "ft".toList, 3048 / 10), (bytes "in".toList, 254 / 10), ([], 1000)]

/-- A decimal point and what stands behind it. -/
def fracText : Option Bytes → Bytes
  | none => []
  | some f => 46 :: f

/-- A decimal number, with or without a point, and a unit. -/
structure Written (text whole : Bytes) (frac : Option Bytes) (unit : Bytes) (length : ℚ) :
    Prop where
  split : text = whole ++ (fracText frac ++ unit)
  wholeDigits : ∀ b ∈ whole, isDigit b = true
  fracDigits : ∀ f, frac = some f → ∀ b ∈ f, isDigit b = true
  ne_nil : whole ≠ [] ∨ ∃ f, frac = some f ∧ f ≠ []
  known : unitLength.lookup unit = some length

/-- What the digits behind the point stand for. -/
def fraction (f : Bytes) : ℚ := number f / 10 ^ f.length

def value (whole : Bytes) (frac : Option Bytes) : ℚ :=
  number whole + frac.elim 0 fraction

/-- The text is a distance of so many millimetres. -/
def Distance (text : Bytes) (mm : ℚ) : Prop :=
  ∃ whole frac unit length, Written text whole frac unit length ∧ mm = value whole frac * length

/-- The texts that are read as they are meant, or rejected as they should be: there is no number,
or a word that is no unit behind the first one; a whole number, not of centimetres; or a
fraction that does not count, because it is below half a millimetre of metres, or the whole
distance is. -/
inductive Kept (text : Bytes) : Prop where
  | noNumber (h : ∀ b ∈ text, isDigit b = false)
  | noUnit {pre ds us rest : Bytes} (h : FirstNumber text pre ds us rest) (hne : us ≠ [])
      (hunit : unitLength.lookup us = none)
  | integer {whole unit : Bytes} {length : ℚ} (h : Written text whole none unit length)
      (hcm : unit = bytes "cm".toList → number whole = 0)
  | point {f unit : Bytes} {length : ℚ} (h : Written text [] (some f) unit length)
      (hzero : number f = 0)
  | small {whole f unit : Bytes} {length : ℚ} (h : Written text whole (some f) unit length)
      (hne : whole ≠ []) (hsmall : (unit = [] ∨ unit = bytes "m".toList) ∧ fraction f < 1 / 2000 ∨
        value whole (some f) * length < 1 / 2)

section Units

variable {text whole unit : Bytes} {frac : Option Bytes} {length : ℚ}

theorem mem_of_lookup {α β : Type} [BEq α] [LawfulBEq α] {l : List (α × β)} {k : α} {v : β}
    (h : l.lookup k = some v) : (k, v) ∈ l := by
  obtain ⟨l₁, l₂, rfl, -⟩ := List.lookup_eq_some_iff.mp h
  exact List.mem_append_right l₁ List.mem_cons_self

/-- The unit for which the table is asked. -/
def asked (us : Bytes) : Bytes := if us = [] then bytes "m".toList else us

/-- The units that a distance may have against the table of the code. -/
theorem units_known :
    (∀ e ∈ unitLength, (∀ b ∈ e.1, isAlpha b = true) ∧ convert.lookup (asked e.1) =
      some (if e.1 = bytes "cm".toList then 100 else e.2)) ∧
    (∀ e ∈ convert, (unitLength.lookup e.1).isSome = true) ∧
    convert.lookup (asked []) = some 1000 := by
  decide +kernel

theorem units_converted {e : Bytes × ℚ} (he : e ∈ unitLength) : convert.lookup (asked e.1) =
    some (if e.1 = bytes "cm".toList then 100 else e.2) :=
  (units_known.1 e he).2

theorem convert_metres : convert.lookup (asked []) = some 1000 := units_known.2.2

theorem Written.letters (h : Written text whole frac unit length) :
    ∀ b ∈ unit, isAlpha b = true := (units_known.1 _ (mem_of_lookup h.known)).1

theorem Written.converted (h : Written text whole frac unit length) :
    convert.lookup (asked unit) = some (if unit = bytes "cm".toList then 100 else length) :=
  units_converted (mem_of_lookup h.known)

theorem convert_none {us : Bytes} (hne : us ≠ []) :
    convert.lookup (asked us) = none ↔ unitLength.lookup us = none := by
  rw [asked, if_neg hne]
  constructor
  · intro h
    cases hunit : unitLength.lookup us with
    | none => rfl
    | some length =>
      have hconv := units_converted (mem_of_lookup hunit)
      rw [asked, if_neg hne, h] at hconv
      cases hconv
  · intro h
    cases hconv : convert.lookup us with
    | none => rfl
    | some factor =>
      have hunit := units_known.2.1 _ (mem_of_lookup hconv)
      rw [h] at hunit
      cases hunit

theorem digit_not_alpha {b : UInt8} (h : isDigit b = true) : isAlpha b = false := by
  have hb : 48 ≤ b ∧ b ≤ 57 := by simpa [isDigit] using h
  have hlow := UInt8.le_iff_toNat_le.mp hb.1
  have hhigh := UInt8.le_iff_toNat_le.mp hb.2
  simp [isAlpha, isUpper, isLower, UInt8.le_iff_toNat_le] at *
  omega

theorem alpha_not_digit {b : UInt8} (h : isAlpha b = true) : isDigit b = false := by
  by_contra hdigit
  rw [digit_not_alpha (by simpa using hdigit)] at h
  cases h

theorem Written.unit_stop (h : Written text whole frac unit length) {b : UInt8} {t : Bytes}
    (hb : unit = b :: t) : isDigit b = false :=
  alpha_not_digit (h.letters b (hb ▸ List.mem_cons_self))

/-- The digits before the point are a run. -/
theorem Written.run (h : Written text whole frac unit length) :
    Run isDigit text whole (fracText frac ++ unit) := by
  refine ⟨h.split, h.wholeDigits, fun b t hb => ?_⟩
  cases frac with
  | none => exact h.unit_stop hb
  | some f =>
    cases hb
    decide

theorem Written.fracRun {f : Bytes} (h : Written text whole (some f) unit length) :
    Run isDigit (f ++ unit) f unit :=
  ⟨rfl, h.fracDigits f rfl, fun _ _ hb => h.unit_stop hb⟩

theorem Written.unique {whole' unit' : Bytes} {frac' : Option Bytes} {length' : ℚ}
    (h : Written text whole frac unit length) (h' : Written text whole' frac' unit' length') :
    whole = whole' ∧ frac = frac' ∧ length = length' := by
  obtain ⟨hwhole, htail⟩ := h.run.unique h'.run
  have hpoint : ∀ u f v : Bytes, (∀ b ∈ u, isAlpha b = true) → u ≠ 46 :: f ++ v := by
    rintro u f v hu rfl
    exact absurd (hu 46 List.mem_cons_self) (by decide)
  have hsame : frac = frac' ∧ unit = unit' := by
    cases frac with
    | none =>
      cases frac' with
      | none => exact ⟨rfl, htail⟩
      | some f' => exact absurd htail (hpoint unit f' unit' h.letters)
    | some f =>
      cases frac' with
      | none => exact absurd htail.symm (hpoint unit' f unit h'.letters)
      | some f' =>
        have hbehind : f ++ unit = f' ++ unit' := (List.cons.inj htail).2
        obtain ⟨hf, hunit⟩ := h.fracRun.unique (hbehind ▸ h'.fracRun)
        exact ⟨congrArg some hf, hunit⟩
  refine ⟨hwhole, hsame.1, ?_⟩
  have hknown := h.known
  rw [hsame.2, h'.known] at hknown
  exact (Option.some.inj hknown).symm

theorem Written.alphaRun (h : Written text whole frac unit length) :
    Run isAlpha (unit ++ []) unit [] :=
  ⟨rfl, h.letters, fun b t hb => by cases hb⟩

theorem run_nil {p : UInt8 → Bool} {t : Bytes} (h : ∀ b u, t = b :: u → p b = false) :
    Run p t [] t := ⟨rfl, by simp, h⟩

/-- The first number of a distance without a point. -/
theorem Written.firstNumber_integer (h : Written text whole none unit length) :
    FirstNumber text [] whole unit [] := by
  have hne : whole ≠ [] := by
    obtain hne | ⟨f, hf, -⟩ := h.ne_nil
    · exact hne
    · cases hf
  have hrun := h.run
  rw [h.split] at hrun ⊢
  rw [← List.append_nil (fracText none ++ unit)] at hrun ⊢
  refine ⟨run_nil fun b t hb => ?_, hrun, hne, h.alphaRun⟩
  obtain ⟨d, ds, rfl⟩ := List.exists_cons_of_ne_nil hne
  cases hb
  simpa using h.wholeDigits b List.mem_cons_self

/-- Of a distance with a point the whole part alone is the first number. -/
theorem Written.firstNumber_small {f : Bytes} (h : Written text whole (some f) unit length)
    (hne : whole ≠ []) : FirstNumber text [] whole [] (46 :: f ++ unit) := by
  have hrun := h.run
  rw [h.split] at hrun ⊢
  refine ⟨run_nil fun b t hb => ?_, hrun, hne, run_nil fun b t hb => ?_⟩
  · obtain ⟨d, ds, rfl⟩ := List.exists_cons_of_ne_nil hne
    cases hb
    simpa using h.wholeDigits b List.mem_cons_self
  · cases hb
    decide

/-- The first number is the fraction if nothing stands before the point. -/
theorem Written.firstNumber_point {f : Bytes} (h : Written text [] (some f) unit length) :
    FirstNumber text [46] f unit [] := by
  have hne : f ≠ [] := by
    obtain hne | ⟨f', hf, hne⟩ := h.ne_nil
    · exact absurd rfl hne
    · cases hf
      exact hne
  have hrun := h.fracRun
  rw [← List.append_nil unit] at hrun
  refine ⟨⟨?_, fun b hb => ?_, fun b t hb => ?_⟩, hrun, hne, h.alphaRun⟩
  · rw [h.split, List.append_nil]
    rfl
  · rw [List.mem_singleton.mp hb]
    rfl
  · obtain ⟨d, ds, rfl⟩ := List.exists_cons_of_ne_nil hne
    cases hb
    simpa using h.fracDigits _ rfl b List.mem_cons_self

/-- A distance has a first number with a unit behind it. -/
theorem Written.accepted {pre ds us rest : Bytes} (h : Written text whole frac unit length)
    (hfirst : FirstNumber text pre ds us rest) : convert.lookup (asked us) ≠ none := by
  intro hnone
  cases frac with
  | none =>
    obtain ⟨-, -, rfl, -⟩ := hfirst.unique h.firstNumber_integer
    rw [h.converted] at hnone
    cases hnone
  | some f =>
    by_cases hne : whole = []
    · subst hne
      obtain ⟨-, -, rfl, -⟩ := hfirst.unique h.firstNumber_point
      rw [h.converted] at hnone
      cases hnone
    · obtain ⟨-, -, rfl, -⟩ := hfirst.unique (h.firstNumber_small hne)
      rw [convert_metres] at hnone
      cases hnone

end Units

/-! ## When the reading is right -/

theorem addDigit_lt {n m : Nat} {b : UInt8} (h : LuaText.addDigit 10 n b = some m) :
    m < 10 * (n + 1) := by
  rw [LuaText.addDigit] at h
  obtain ⟨d, -, hd⟩ := Option.bind_eq_some_iff.mp h
  split at hd
  · cases hd
    omega
  · cases hd

theorem foldlM_addDigit_lt {l : Bytes} {n m : Nat}
    (h : l.foldlM (LuaText.addDigit 10) n = some m) : m < (n + 1) * 10 ^ l.length := by
  induction l generalizing n with
  | nil =>
    cases h
    simp
  | cons b l ih =>
    rw [List.foldlM_cons] at h
    obtain ⟨k, hk, hrest⟩ := Option.bind_eq_some_iff.mp h
    have hlt := addDigit_lt hk
    calc m < (k + 1) * 10 ^ l.length := ih hrest
      _ ≤ 10 * (n + 1) * 10 ^ l.length := Nat.mul_le_mul_right _ hlt
      _ = (n + 1) * 10 ^ (b :: l).length := by rw [List.length_cons, Nat.pow_succ]; ring

theorem number_lt (l : Bytes) : number l < 10 ^ l.length := by
  rw [number, digitsValue]
  split
  · simp
  · cases h : l.foldlM (LuaText.addDigit 10) 0 with
    | none => simp
    | some m => simpa using foldlM_addDigit_lt h

theorem fraction_nonneg (f : Bytes) : 0 ≤ fraction f := by
  rw [fraction]
  positivity

theorem fraction_lt_one (f : Bytes) : fraction f < 1 := by
  rw [fraction, div_lt_one (by positivity)]
  exact_mod_cast number_lt f

/-- Each digit behind the point makes the value ten times smaller. -/
theorem fraction_le {f : Bytes} (hne : f ≠ []) : fraction f ≤ number f / 10 := by
  have hlen : 1 ≤ f.length := List.length_pos_of_ne_nil hne
  have hpow : (10 : ℚ) ≤ 10 ^ f.length := by
    calc (10 : ℚ) = 10 ^ 1 := (pow_one 10).symm
      _ ≤ 10 ^ f.length := pow_le_pow_right₀ (by norm_num) hlen
  rw [fraction]
  gcongr

theorem units_range : ∀ e ∈ unitLength, (e.2 = 1 ∧ e.1 ≠ bytes "cm".toList ∨ 10 ≤ e.2) ∧
    ((e.1 = [] ∨ e.1 = bytes "m".toList) ∧ e.2 = 1000 ∨
      ¬(e.1 = [] ∨ e.1 = bytes "m".toList) ∧ 1 ≤ e.2 ∧ e.2 ≤ 3048 / 10) ∧
    (e.1 = bytes "cm".toList → e.2 = 10) := by
  decide +kernel

section Kept

variable {text whole unit : Bytes} {f : Bytes} {length : ℚ}

theorem Written.one_or_ten {frac : Option Bytes} (h : Written text whole frac unit length) :
    length = 1 ∧ unit ≠ bytes "cm".toList ∨ 10 ≤ length :=
  (units_range _ (mem_of_lookup h.known)).1

theorem Written.metres {frac : Option Bytes} (h : Written text whole frac unit length) :
    (unit = [] ∨ unit = bytes "m".toList) ∧ length = 1000 ∨
      ¬(unit = [] ∨ unit = bytes "m".toList) ∧ 1 ≤ length ∧ length ≤ 3048 / 10 :=
  (units_range _ (mem_of_lookup h.known)).2.1

theorem Written.centimetres {frac : Option Bytes} (h : Written text whole frac unit length)
    (hcm : unit = bytes "cm".toList) : length = 10 :=
  (units_range _ (mem_of_lookup h.known)).2.2 hcm

theorem integer_iff (h : Written text whole none unit length) :
    round ((number whole : ℚ) * if unit = bytes "cm".toList then 100 else length) =
      round (value whole none * length) ↔ (unit = bytes "cm".toList → number whole = 0) := by
  have hvalue : value whole none = number whole := add_zero _
  rw [hvalue]
  by_cases hcm : unit = bytes "cm".toList
  · have hcode : (number whole : ℚ) * 100 = ((number whole * 100 : ℕ) : ℚ) := by push_cast; ring
    have hspec : (number whole : ℚ) * 10 = ((number whole * 10 : ℕ) : ℚ) := by push_cast; ring
    have hround : round ((number whole : ℚ) * 100) = round ((number whole : ℚ) * 10) ↔
        number whole = 0 := by
      rw [hcode, hspec, round_natCast, round_natCast]
      omega
    rw [if_pos hcm, h.centimetres hcm, hround]
    exact ⟨fun hzero _ => hzero, fun hzero => hzero hcm⟩
  · rw [if_neg hcm]
    exact ⟨fun _ h => absurd h hcm, fun _ => rfl⟩

theorem point_iff (h : Written text [] (some f) unit length) :
    round ((number f : ℚ) * if unit = bytes "cm".toList then 100 else length) =
      round (value [] (some f) * length) ↔ number f = 0 := by
  have hvalue : value [] (some f) = fraction f := by
    simp [value, number, digitsValue]
  rw [hvalue]
  constructor
  · intro heq
    by_contra hne
    have hpos : (1 : ℚ) ≤ number f := by exact_mod_cast Nat.one_le_iff_ne_zero.mpr hne
    have hfne : f ≠ [] := by
      rintro rfl
      exact hne rfl
    have hle := fraction_le hfne
    have hspec := round_le_add_half (fraction f * length)
    rw [← heq] at hspec
    obtain ⟨rfl, hcm⟩ | hbig := h.one_or_ten
    · rw [if_neg hcm, mul_one, round_natCast, mul_one] at hspec
      push_cast at hspec
      linarith
    · have hfactor : length ≤ if unit = bytes "cm".toList then 100 else length := by
        split
        · next hcm => rw [h.centimetres hcm]; norm_num
        · exact le_refl length
      have hcode := sub_half_lt_round
        ((number f : ℚ) * if unit = bytes "cm".toList then 100 else length)
      have hlow : (number f : ℚ) * length ≤
          number f * if unit = bytes "cm".toList then 100 else length := by gcongr
      have hhigh : fraction f * length ≤ number f / 10 * length := by gcongr
      nlinarith
  · intro hzero
    simp [fraction, hzero]

theorem small_iff (h : Written text whole (some f) unit length) :
    round ((number whole : ℚ) * 1000) = round (value whole (some f) * length) ↔
      (unit = [] ∨ unit = bytes "m".toList) ∧ fraction f < 1 / 2000 ∨
        value whole (some f) * length < 1 / 2 := by
  have hvalue : value whole (some f) = number whole + fraction f := rfl
  have hcode : (number whole : ℚ) * 1000 = ((number whole * 1000 : ℕ) : ℚ) := by push_cast; ring
  have hnonneg := fraction_nonneg f
  have hlt := fraction_lt_one f
  have hwhole : (0 : ℚ) ≤ number whole := Nat.cast_nonneg _
  rw [hvalue, hcode, round_natCast, eq_comm, round_eq_iff, Set.mem_Ico]
  push_cast
  obtain ⟨hmetre, rfl⟩ | ⟨hmetre, hone, hft⟩ := h.metres
  · constructor
    · rintro ⟨-, hhigh⟩
      exact Or.inl ⟨hmetre, by linarith⟩
    · rintro (⟨-, hsmall⟩ | hsmall)
      · exact ⟨by linarith, by linarith⟩
      · exact ⟨by linarith, by linarith⟩
  · obtain hzero | hpos := Nat.eq_zero_or_pos (number whole)
    · have hlow : 0 ≤ fraction f * length := mul_nonneg hnonneg (by linarith)
      rw [hzero]
      constructor
      · rintro ⟨-, hhigh⟩
        exact Or.inr (by simpa using hhigh)
      · rintro (⟨hmetre', -⟩ | hsmall)
        · exact absurd hmetre' hmetre
        · exact ⟨by push_cast; linarith, by simpa using hsmall⟩
    · have hpos' : (1 : ℚ) ≤ number whole := by exact_mod_cast hpos
      constructor
      · rintro ⟨hlow, -⟩
        exact absurd hlow (by nlinarith)
      · rintro (⟨hmetre', -⟩ | hsmall)
        · exact absurd hmetre' hmetre
        · exact absurd hsmall (by nlinarith)

end Kept

/-- What the option should do with a text: a distance sets it, anything else is rejected. -/
structure Reads (text : Bytes) (out : Except Failure ℤ) : Prop where
  sets : ∀ mm, Distance text mm → out = .ok (round mm)
  rejects : (∀ mm, ¬Distance text mm) → ∃ us, out = .error (sdUnits us)

theorem sdAmount_ok {ds us : Bytes} {factor : ℚ} (hpos : 0 ≤ factor)
    (h : convert.lookup (asked us) = some factor) :
    sdAmount ds us = .ok (round (number ds * factor)) := by
  have hnonneg : (0 : ℚ) ≤ number ds * factor := mul_nonneg (Nat.cast_nonneg _) hpos
  rw [asked] at h
  simp only [sdAmount, h, utilRound_eq hnonneg]

theorem sdAmount_error {ds us : Bytes} (h : convert.lookup (asked us) = none) :
    sdAmount ds us = .error (sdUnits us) := by
  rw [asked] at h
  simp only [sdAmount, h]

section Written

variable {text whole unit : Bytes} {frac : Option Bytes} {length : ℚ}

theorem Written.factor_nonneg (h : Written text whole frac unit length) :
    0 ≤ if unit = bytes "cm".toList then 100 else length := by
  split
  · norm_num
  · obtain ⟨rfl, -⟩ | hten := h.one_or_ten
    · norm_num
    · linarith

/-- What the option does with a distance. -/
theorem Written.sdValue_integer (h : Written text whole none unit length) :
    sdValue (.text text) =
      .ok (round ((number whole : ℚ) * if unit = bytes "cm".toList then 100 else length)) := by
  rw [h.firstNumber_integer.sdValue, sdAmount_ok h.factor_nonneg h.converted]

theorem Written.sdValue_point {f : Bytes} (h : Written text [] (some f) unit length) :
    sdValue (.text text) =
      .ok (round ((number f : ℚ) * if unit = bytes "cm".toList then 100 else length)) := by
  rw [h.firstNumber_point.sdValue, sdAmount_ok h.factor_nonneg h.converted]

theorem Written.sdValue_small {f : Bytes} (h : Written text whole (some f) unit length)
    (hne : whole ≠ []) : sdValue (.text text) = .ok (round ((number whole : ℚ) * 1000)) := by
  rw [(h.firstNumber_small hne).sdValue, sdAmount_ok (by norm_num) convert_metres]

theorem Written.exists_firstNumber (h : Written text whole frac unit length) :
    ∃ pre ds us rest, FirstNumber text pre ds us rest := by
  cases frac with
  | none => exact ⟨_, _, _, _, h.firstNumber_integer⟩
  | some f =>
    by_cases hne : whole = []
    · subst hne
      exact ⟨_, _, _, _, h.firstNumber_point⟩
    · exact ⟨_, _, _, _, h.firstNumber_small hne⟩

theorem FirstNumber.exists_digit {pre ds us rest : Bytes} (h : FirstNumber text pre ds us rest) :
    ∃ b ∈ text, isDigit b = true := by
  obtain ⟨b, t, hdrop, hb⟩ := h.digitAt
  exact ⟨b, List.mem_of_mem_drop (hdrop ▸ List.mem_cons_self), hb⟩

theorem ok_iff {a b : ℤ} : (Except.ok a : Except Failure ℤ) = .ok b ↔ a = b :=
  ⟨Except.ok.inj, congrArg _⟩

/-- The option is right for a distance if its text is one of those that are kept. -/
theorem Written.reading_iff (h : Written text whole frac unit length) :
    sdValue (.text text) = .ok (round (value whole frac * length)) ↔ Kept text := by
  constructor
  · intro hsets
    cases frac with
    | none =>
      rw [h.sdValue_integer, ok_iff, integer_iff h] at hsets
      exact .integer h hsets
    | some f =>
      by_cases hne : whole = []
      · subst hne
        rw [h.sdValue_point, ok_iff, point_iff h] at hsets
        exact .point h hsets
      · rw [h.sdValue_small hne, ok_iff, small_iff h] at hsets
        exact .small h hne hsets
  · intro hkept
    cases hkept with
    | noNumber hno =>
      obtain ⟨pre, ds, us, rest, hfirst⟩ := h.exists_firstNumber
      obtain ⟨b, hmem, hb⟩ := hfirst.exists_digit
      rw [hno b hmem] at hb
      cases hb
    | noUnit hfirst hne hunit => exact absurd ((convert_none hne).mpr hunit) (h.accepted hfirst)
    | integer h' hcm =>
      obtain ⟨rfl, rfl, rfl⟩ := h.unique h'
      rw [h'.sdValue_integer, ok_iff, integer_iff h']
      exact hcm
    | point h' hzero =>
      obtain ⟨rfl, rfl, rfl⟩ := h.unique h'
      rw [h'.sdValue_point, ok_iff, point_iff h']
      exact hzero
    | small h' hne hsmall =>
      obtain ⟨rfl, rfl, rfl⟩ := h.unique h'
      rw [h'.sdValue_small hne, ok_iff, small_iff h']
      exact hsmall

theorem sdValue_cases (text : Bytes) :
    (∃ v, sdValue (.text text) = .ok v) ∨ ∃ us, sdValue (.text text) = .error (sdUnits us) := by
  obtain hno | ⟨pre, ds, us, rest, h⟩ := exists_firstNumber text
  · exact Or.inr ⟨_, sdValue_of_none hno⟩
  · rw [h.sdValue, sdAmount]
    split
    · exact Or.inr ⟨us, rfl⟩
    · exact Or.inl ⟨_, rfl⟩

theorem reads_iff (text : Bytes) : Reads text (sdValue (.text text)) ↔ Kept text := by
  by_cases hdist : ∃ mm, Distance text mm
  · obtain ⟨mm, whole, frac, unit, length, h, rfl⟩ := hdist
    constructor
    · intro hreads
      exact h.reading_iff.mp (hreads.sets _ ⟨whole, frac, unit, length, h, rfl⟩)
    · intro hkept
      refine ⟨?_, fun hnone => absurd ⟨whole, frac, unit, length, h, rfl⟩ (hnone _)⟩
      rintro mm' ⟨whole', frac', unit', length', h', rfl⟩
      exact h'.reading_iff.mpr hkept
  · have hnone : ∀ mm, ¬Distance text mm := fun mm hmm => hdist ⟨mm, hmm⟩
    constructor
    · intro hreads
      obtain ⟨us', herror⟩ := hreads.rejects hnone
      obtain hno | ⟨pre, ds, us, rest, h⟩ := exists_firstNumber text
      · exact .noNumber hno
      · rw [h.sdValue] at herror
        have hconv : convert.lookup (asked us) = none := by
          cases hconv : convert.lookup (asked us) with
          | none => rfl
          | some factor =>
            rw [asked] at hconv
            simp only [sdAmount, hconv] at herror
            cases herror
        have hne : us ≠ [] := by
          rintro rfl
          rw [convert_metres] at hconv
          cases hconv
        exact .noUnit h hne ((convert_none hne).mp hconv)
    · intro hkept
      refine ⟨fun mm hmm => absurd hmm (hnone mm), fun _ => ?_⟩
      cases hkept with
      | noNumber hno => exact ⟨_, sdValue_of_none hno⟩
      | noUnit h hne hunit =>
        rw [h.sdValue, sdAmount_error ((convert_none hne).mpr hunit)]
        exact ⟨_, rfl⟩
      | integer h hcm => exact absurd ⟨_, _, _, _, h, rfl⟩ (hnone _)
      | point h hzero => exact absurd ⟨_, _, _, _, h, rfl⟩ (hnone _)
      | small h hne hsmall => exact absurd ⟨_, _, _, _, h, rfl⟩ (hnone _)

end Written

/-! ## The whole call -/

/-- The result, which is of a kind unless the call fails for another reason than the unit of the
subject distance. -/
def Gives {α : Type} (P : α → Prop) : Except Failure α → Prop
  | .ok a => P a
  | .error e => ∀ us, e ≠ sdUnits us

/-- The refusals for other reasons, as they begin. -/
def refusals : List String :=
  ["not connected", "invalid units", "both sv and svm given", "invalid tv fraction",
    "invalid tv value", "set only one of sv, svm or isomode!", "invalid ND state ",
    "sdmode requires sd", "sdmode requires a value", "invalid sd mode ", "invalid seq"]

theorem refusals_differ :
    (∀ msg ∈ refusals, (bytes msg.toList).take 12 ≠ (bytes "invalid sd units ".toList).take 12) ∧
    12 ≤ (bytes "invalid ND state ".toList).length ∧
    12 ≤ (bytes "invalid sd mode ".toList).length := by
  decide +kernel

section Rules

variable {α β : Type} {P : α → Prop} {Q : β → Prop}

theorem Gives.bind {m : Except Failure α} {f : α → Except Failure β} (hm : Gives P m)
    (hf : ∀ a, P a → Gives Q (f a)) : Gives Q (m >>= f) := by
  cases m with
  | ok a => exact hf a hm
  | error e => exact hm

theorem Gives.map {m : Except Failure α} {f : α → β} (hm : Gives P m) (hf : ∀ a, P a → Q (f a)) :
    Gives Q (m.map f) := by
  cases m with
  | ok a => exact hf a hm
  | error e => exact hm

theorem gives_rejected {msg : Bytes}
    (h : msg.take 12 ≠ (bytes "invalid sd units ".toList).take 12) :
    Gives P (.error (.rejected msg)) := by
  intro us heq
  cases heq
  apply h
  rw [List.take_append_of_le_length]
  rw [bytes, List.length_map, String.length_toList]
  decide

theorem gives_reject {msg : String} (h : msg ∈ refusals) : Gives P (reject msg) :=
  gives_rejected (refusals_differ.1 msg h)

/-- A refusal that goes on with what was given. -/
theorem gives_rejected_append {msg : String} (h : msg ∈ refusals)
    (hlen : 12 ≤ (bytes msg.toList).length) (rest : Bytes) :
    Gives P (.error (.rejected (bytes msg.toList ++ rest))) := by
  apply gives_rejected
  rw [List.take_append_of_le_length hlen]
  exact refusals_differ.1 msg h

theorem gives_raised (e : LuaError) : Gives P (.error (.raised e)) := by
  intro us heq
  cases heq

theorem gives_raising (m : Except LuaError α) : Gives (fun _ => True) (raising m) := by
  cases m with
  | ok a => trivial
  | error e => exact gives_raised e

theorem gives_given (f : Arg → Except LuaError α) (v : Option Arg) :
    Gives (fun _ => True) (given f v) := by
  cases v with
  | none => trivial
  | some v => exact (gives_raising (f v)).map fun _ _ => trivial

end Rules

section Call

variable {ν : Type} (x : Exposure ν)

theorem gives_tvValue (v : Arg) : Gives (fun _ => True) (tvValue x v) := by
  cases v with
  | on => exact gives_raised _
  | text tv =>
    rw [tvValue]
    split
    · exact gives_raised _
    · split
      · split
        · exact gives_reject (by simp [refusals])
        · exact gives_raising _
      · exact gives_reject (by simp [refusals])
    · split
      · exact gives_reject (by simp [refusals])
      · exact gives_raising _

theorem gives_exposure (args : Args) : Gives (fun _ => True) (exposureOpts x args) := by
  rw [exposureOpts]
  split
  · apply (gives_given _ _).bind
    intro av _
    apply (gives_given _ _).bind
    intro sv _
    apply (gives_given _ _).bind
    intro svm _
    have htv : Gives (fun _ => True)
        (args.tv.elim (.ok none) fun tv => (tvValue x tv).map some) := by
      cases args.tv with
      | none => trivial
      | some tv => exact (gives_tvValue x tv).map fun _ _ => trivial
    exact htv.bind fun _ _ => trivial
  · split
    · apply (gives_given _ _).bind
      intro av _
      apply (gives_given _ _).bind
      intro sv _
      apply (gives_given _ _).bind
      intro svm _
      exact (gives_given _ _).bind fun _ _ => trivial
    · trivial

theorem gives_isomode (args : Args) (opts : Opts ν) :
    Gives (fun _ => True) (isomodeOpt x args opts) := by
  rw [isomodeOpt]
  cases args.isomode with
  | none => trivial
  | some v =>
    dsimp only
    by_cases hiso : (opts.sv.isSome || opts.svm.isSome) = true
    · rw [if_pos hiso]
      exact gives_reject (by simp [refusals])
    · rw [if_neg hiso]
      trivial

theorem gives_nd (args : Args) (opts : Opts ν) : Gives (fun _ => True) (ndOpt args opts) := by
  rw [ndOpt]
  cases args.nd with
  | none => trivial
  | some v =>
    dsimp only
    cases ndStates.lookup v with
    | none =>
      dsimp only
      exact gives_rejected_append (by simp [refusals]) refusals_differ.2.1 _
    | some val => trivial

/-- What follows leaves the distance as it is. -/
theorem gives_sdmode (args : Args) (opts : Opts ν) :
    Gives (fun o => o.sd = opts.sd) (sdmodeOpt args opts) := by
  rw [sdmodeOpt]
  cases args.sdmode with
  | none => rfl
  | some mode =>
    dsimp only
    by_cases hsd : args.sd = none
    · rw [if_pos hsd]
      exact gives_reject (by simp [refusals])
    rw [if_neg hsd]
    cases mode with
    | on => exact gives_reject (by simp [refusals])
    | text mode =>
      dsimp only
      by_cases hmode : upper mode ∉ sdModes
      · rw [if_pos hmode]
        exact gives_rejected_append (by simp [refusals]) refusals_differ.2.2 _
      rw [if_neg hmode]
      by_cases hnone : upper mode = bytes "NONE".toList
      · rw [if_pos hnone]
        rfl
      · rw [if_neg hnone]
        rfl

theorem tvHack_sd (con : Con) (opts : Opts ν) : (tvHack x con opts).sd = opts.sd := by
  rw [tvHack]
  split <;> rfl

theorem gives_seq (args : Args) (opts : Opts ν) :
    Gives (fun o => o.sd = opts.sd) (seqOpt x args opts) := by
  rw [seqOpt]
  cases args.seq with
  | none => rfl
  | some v =>
    dsimp only
    cases x.tonumber v with
    | none => exact gives_reject (by simp [refusals])
    | some n => exact rfl

variable {text : Bytes} {args : Args}

theorem sdOpt_some {v : Arg} (hsd : args.sd = some v) (opts : Opts ν) :
    sdOpt args opts = (sdValue v).map fun sd => { opts with sd := some sd } := by
  rw [sdOpt, hsd]

/-- A call is refused at once, or reads the switches one after another. -/
theorem call_cases (con : Con) (args : Args) :
    (¬(con.is_connected = true ∧ args.u ∈ units ∧ (args.sv.isSome && args.svm.isSome) = false) ∧
      ∃ msg, get_shoot_common_opts x con args = .error (.rejected msg) ∧
        ∀ us, Failure.rejected msg ≠ sdUnits us) ∨
    get_shoot_common_opts x con args = (do
      let opts ← exposureOpts x args
      let opts ← isomodeOpt x args opts
      let opts ← ndOpt args opts
      let opts ← sdOpt args opts
      let opts ← sdmodeOpt args opts
      seqOpt x args (tvHack x con opts)) := by
  have hother {msg : String} (h : msg ∈ refusals) (us : Bytes) :
      Failure.rejected (bytes msg.toList) ≠ sdUnits us :=
    gives_reject (P := fun _ : Unit => True) h us
  rw [get_shoot_common_opts]
  split
  · next hcon =>
    exact .inl ⟨fun h => by simp [h.1] at hcon, _, rfl, hother (by simp [refusals])⟩
  · split
    · next hu =>
      exact .inl ⟨fun h => hu h.2.1, _, rfl, hother (by simp [refusals])⟩
    · split
      · next hsv =>
        exact .inl ⟨fun h => by simp [h.2.2] at hsv, _, rfl, hother (by simp [refusals])⟩
      · exact .inr rfl

/-- A distance that is read goes into the options. -/
theorem gives_call (con : Con) (hsd : args.sd = some (.text text)) {v : ℤ}
    (hv : sdValue (.text text) = .ok v) :
    Gives (fun o => o.sd = some v) (get_shoot_common_opts x con args) := by
  obtain ⟨-, msg, hcall, hother⟩ | hcall := call_cases x con args
  · rw [hcall]
    exact hother
  · rw [hcall]
    apply (gives_exposure x args).bind
    intro o1 _
    apply (gives_isomode x args o1).bind
    intro o2 _
    apply (gives_nd args o2).bind
    intro o3 _
    have hset : Gives (fun o => o.sd = some v) (sdOpt args o3) := by
      rw [sdOpt_some hsd, hv]
      rfl
    apply hset.bind
    intro o4 h4
    apply (gives_sdmode args o4).bind
    intro o5 h5
    have h6 := gives_seq x args (tvHack x con o5)
    rw [tvHack_sd, h5, h4] at h6
    exact h6

theorem fails_bind {α β : Type} (m : Except Failure α) {f : α → Except Failure β}
    (hf : ∀ a, ∃ e, f a = .error e) : ∃ e, (m >>= f) = .error e := by
  cases m with
  | ok a => exact hf a
  | error e => exact ⟨e, rfl⟩

theorem fails_call (con : Con) (hsd : args.sd = some (.text text)) {e : Failure}
    (he : sdValue (.text text) = .error e) :
    ∃ e', get_shoot_common_opts x con args = .error e' := by
  obtain ⟨-, msg, hcall, -⟩ | hcall := call_cases x con args
  · exact ⟨_, hcall⟩
  · rw [hcall]
    apply fails_bind
    intro o1
    apply fails_bind
    intro o2
    apply fails_bind
    intro o3
    rw [sdOpt_some hsd, he]
    exact ⟨e, rfl⟩

/-- Switches of which only the subject distance is given. -/
def sdOnly (text : Bytes) : Args :=
  ⟨.text (bytes "s".toList), none, none, none, none, none, none, some (.text text), none, none⟩

theorem call_sdOnly (text : Bytes) :
    get_shoot_common_opts x ⟨true, true⟩ (sdOnly text) =
      (sdValue (.text text)).map fun v => { sd := some v } := by
  obtain ⟨hrefused, -⟩ | hcall := call_cases x ⟨true, true⟩ (sdOnly text)
  · exact absurd ⟨rfl, List.mem_cons_self, rfl⟩ hrefused
  have hbranch : (sdOnly text).u = .text (bytes "s".toList) := rfl
  have hgiven : (sdOnly text).sd = some (.text text) := rfl
  rw [hcall, exposureOpts, if_pos hbranch]
  change (sdOpt (sdOnly text) ({} : Opts ν) >>= fun o => sdmodeOpt (sdOnly text) o >>= fun o' =>
    seqOpt x (sdOnly text) (tvHack x ⟨true, true⟩ o')) = _
  rw [sdOpt_some hgiven]
  cases sdValue (.text text) with
  | ok v => rfl
  | error e => rfl

/-- What a call that is given the distance should do: set it, or fail for another reason; and
fail if the text is no distance. -/
structure Lawful (text : Bytes) (out : Except Failure (Opts ν)) : Prop where
  sets : ∀ mm, Distance text mm → Gives (fun opts => opts.sd = some (round mm)) out
  rejects : (∀ mm, ¬Distance text mm) → ∃ e, out = .error e

/-- The subject distance is read as it is meant, in every call, exactly for the texts that are
kept. -/
theorem sd_iff (text : Bytes) :
    (∀ con args, args.sd = some (.text text) →
      Lawful text (get_shoot_common_opts x con args)) ↔ Kept text := by
  rw [← reads_iff]
  constructor
  · intro h
    have hlawful := h ⟨true, true⟩ (sdOnly text) rfl
    rw [call_sdOnly] at hlawful
    obtain ⟨v, hv⟩ | ⟨us, hv⟩ := sdValue_cases text
    · rw [hv] at hlawful ⊢
      refine ⟨fun mm hmm => ?_, fun hnone => ?_⟩
      · exact congrArg _ (Option.some.inj (hlawful.sets mm hmm))
      · obtain ⟨e, he⟩ := hlawful.rejects hnone
        cases he
    · rw [hv] at hlawful ⊢
      exact ⟨fun mm hmm => absurd rfl (hlawful.sets mm hmm us), fun _ => ⟨us, rfl⟩⟩
  · intro h con args hsd
    refine ⟨fun mm hmm => gives_call x con hsd (h.sets mm hmm), fun hnone => ?_⟩
    obtain ⟨us, he⟩ := h.rejects hnone
    exact fails_call x con hsd he

end Call

/-- Five centimetres. -/
theorem not_lawful_centimetres : ¬∀ con args, args.sd = some (.text (bytes "5cm".toList)) →
    Lawful (bytes "5cm".toList) (get_shoot_common_opts
      (⟨fun _ => .ok 0, fun _ => .ok 0, fun _ => .ok 0, fun _ => .ok 0, fun _ => none,
        fun a _ => a, fun a => a == 0, 1⟩ : Exposure ℤ) con args) := by
  intro h
  have hwritten : Written (bytes "5cm".toList) (bytes "5".toList) none (bytes "cm".toList) 10 :=
    ⟨by decide +kernel, by decide +kernel, by simp, Or.inl (by decide +kernel), by decide +kernel⟩
  have hsets := (h ⟨true, true⟩ (sdOnly _) rfl).sets _ ⟨_, _, _, _, hwritten, rfl⟩
  rw [call_sdOnly, hwritten.sdValue_integer] at hsets
  have hround := (integer_iff hwritten).mp (Option.some.inj hsets)
  exact absurd (hround rfl) (by decide +kernel)

end ShootOpts
