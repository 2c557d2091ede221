import Chdkptp.LuaText
import Mathlib.Data.List.Basic

/-!
# Lua patterns

The matcher of Lua's `string.find` and `string.match`. A pattern is read as a list of items,
where a malformed rest is an item that raises an error when the matcher comes to it. Matching
goes through the items and, where an item may take more or fewer bytes, tries one number after
the other.
-/

namespace LuaPattern

abbrev Bytes := List UInt8

/-! ## Character classes -/

def isUpper (c : UInt8) : Bool := 65 ≤ c ∧ c ≤ 90

def isLower (c : UInt8) : Bool := 97 ≤ c ∧ c ≤ 122

def isAlpha (c : UInt8) : Bool := isUpper c || isLower c

def isDigit (c : UInt8) : Bool := 48 ≤ c ∧ c ≤ 57

def isAlnum (c : UInt8) : Bool := isAlpha c || isDigit c

def isCntrl (c : UInt8) : Bool := c < 32 ∨ c = 127

def isGraph (c : UInt8) : Bool := 33 ≤ c ∧ c ≤ 126

def isPunct (c : UInt8) : Bool := isGraph c && !isAlnum c

def isSpace (c : UInt8) : Bool := c = 32 ∨ 9 ≤ c ∧ c ≤ 13

def isXDigit (c : UInt8) : Bool := isDigit c || decide (65 ≤ c ∧ c ≤ 70 ∨ 97 ≤ c ∧ c ≤ 102)

def toLower (c : UInt8) : UInt8 := if isUpper c then c + 32 else c

/-- The letters that stand for classes, from `%a` to `%z`. -/
def classes : List (UInt8 × (UInt8 → Bool)) :=
  [(97, isAlpha), (99, isCntrl), (100, isDigit), (103, isGraph), (108, isLower), (112, isPunct),
    (115, isSpace), (117, isUpper), (119, isAlnum), (120, isXDigit), (122, fun c => c = 0)]

/-- What stands behind `%`: a class, one that is negated, or a byte. -/
def matchClass (c cl : UInt8) : Bool :=
  match classes.lookup (toLower cl) with
  | some p => if isUpper cl then !p c else p c
  | none => cl = c

/-- Is the byte in a set between brackets? -/
def matchSet (c : UInt8) : Bytes → Bool
  | [] => false
  | [a] => a = c
  | [a, b] => if a = 37 then matchClass c b else a = c || matchSet c [b]
  | a :: b :: d :: rest =>
    if a = 37 then matchClass c b || matchSet c (d :: rest)
    else if b = 45 then decide (a ≤ c ∧ c ≤ d) || matchSet c rest
    else a = c || matchSet c (b :: d :: rest)

/-! ## Items -/

/-- What matches a single byte. -/
inductive Single where
  | any
  | escape (cl : UInt8)
  | set (negated : Bool) (body : Bytes)
  | lit (c : UInt8)
  deriving DecidableEq

def Single.test (c : UInt8) : Single → Bool
  | .any => true
  | .escape cl => matchClass c cl
  | .set negated body => matchSet c body != negated
  | .lit a => a = c

inductive Suffix where
  | one
  | optional
  | star
  | plus
  | minus
  deriving DecidableEq

inductive Item where
  | openCapture
  | openPosition
  | closeCapture
  /-- `$` at the end. -/
  | eos
  | balance (b e : UInt8)
  | frontier (c : Single)
  | backref (digit : UInt8)
  | single (c : Single) (suffix : Suffix)
  | bad (msg : String)
  deriving DecidableEq

/-- The set behind a bracket, which has at least one byte, and what follows it. -/
def readSet : Bytes → Option (Bytes × Bytes)
  | [] => none
  | a :: rest =>
    if a = 37 then
      match rest with
      | [] => none
      | b :: rest =>
        match rest with
        | 93 :: rest => some ([a, b], rest)
        | _ => (readSet rest).map fun r => (a :: b :: r.1, r.2)
    else
      match rest with
      | 93 :: rest => some ([a], rest)
      | _ => (readSet rest).map fun r => (a :: r.1, r.2)

/-- A single-byte item and what follows it. -/
def readSingle (p : Bytes) : Except String (Single × Bytes) :=
  match p with
  | [] => .error "malformed pattern"
  | 46 :: rest => .ok (.any, rest)
  | 37 :: [] => .error "malformed pattern (ends with '%')"
  | 37 :: cl :: rest => .ok (.escape cl, rest)
  | 91 :: 94 :: rest =>
    match readSet rest with
    | some (body, rest) => .ok (.set true body, rest)
    | none => .error "malformed pattern (missing ']')"
  | 91 :: rest =>
    match readSet rest with
    | some (body, rest) => .ok (.set false body, rest)
    | none => .error "malformed pattern (missing ']')"
  | c :: rest => .ok (.lit c, rest)

def readSuffix : Bytes → Suffix × Bytes
  | 63 :: rest => (.optional, rest)
  | 42 :: rest => (.star, rest)
  | 43 :: rest => (.plus, rest)
  | 45 :: rest => (.minus, rest)
  | rest => (.one, rest)

/-- The first item of a pattern and what follows it; behind a malformed one nothing counts. -/
def readItem (p : Bytes) : Item × Bytes :=
  let single :=
    match readSingle p with
    | .error msg => (.bad msg, [])
    | .ok (c, rest) => (Item.single c (readSuffix rest).1, (readSuffix rest).2)
  match p with
  | 40 :: 41 :: rest => (.openPosition, rest)
  | 40 :: rest => (.openCapture, rest)
  | 41 :: rest => (.closeCapture, rest)
  | 36 :: [] => (.eos, [])
  | 37 :: 98 :: rest =>
    match rest with
    | b :: e :: rest => (.balance b e, rest)
    | _ => (.bad "malformed pattern (missing arguments to '%b')", [])
  | 37 :: 102 :: rest =>
    match rest with
    | 91 :: _ =>
      match readSingle rest with
      | .error msg => (.bad msg, [])
      | .ok (c, rest) => (.frontier c, rest)
    | _ => (.bad "missing '[' after '%f' in pattern", [])
  | 37 :: d :: rest => if isDigit d then (.backref d, rest) else single
  | _ => single

/-- The items of a pattern, of which there are at most as many as bytes. -/
def readItems : Nat → Bytes → List Item
  | 0, _ => []
  | _, [] => []
  | n + 1, p => (readItem p).1 :: readItems n (readItem p).2

def items (p : Bytes) : List Item := readItems p.length p

/-! ## Matching -/

inductive CapLen where
  | unfinished
  | position
  | len (n : Nat)
  deriving DecidableEq

structure Capture where
  init : Nat
  len : CapLen
  deriving DecidableEq

/-- Where a match ends, with its captures. -/
abbrev Found := Nat × List Capture

/-- The first that succeeds, unless one raises an error before. -/
def firstOf {α β : Type} (f : α → Except String (Option β)) : List α → Except String (Option β)
  | [] => .ok none
  | a :: l =>
    match f a with
    | .error msg => .error msg
    | .ok (some b) => .ok (some b)
    | .ok none => firstOf f l

def maxCaptures : Nat := 32

/-- How deep the matcher may call itself. -/
def maxDepth : Nat := 200

/-- A call of the matcher. -/
def enter (depth : Nat) (f : Nat → Except String (Option Found)) : Except String (Option Found) :=
  match depth with
  | 0 => .error "pattern too complex"
  | depth + 1 => f depth

theorem enter_zero (f : Nat → Except String (Option Found)) :
    enter 0 f = .error "pattern too complex" := rfl

theorem enter_succ (depth : Nat) (f : Nat → Except String (Option Found)) :
    enter (depth + 1) f = f depth := rfl

/-- The last capture that is open is closed. -/
def closeCapture (s : Nat) : List Capture → Option (List Capture)
  | [] => none
  | cap :: caps =>
    match closeCapture s caps with
    | some caps => some (cap :: caps)
    | none => if cap.len = .unfinished then some ({ cap with len := .len (s - cap.init) } :: caps)
      else none

/-- How many bytes a balanced text has, behind its first byte. -/
def balanced (b e : UInt8) : (depth : Nat) → Bytes → Option Nat
  | _, [] => none
  | depth, c :: rest =>
    if c = e then if depth = 1 then some 1 else (balanced b e (depth - 1) rest).map (· + 1)
    else if c = b then (balanced b e (depth + 1) rest).map (· + 1)
    else (balanced b e depth rest).map (· + 1)

def matchBalance (src : Bytes) (s : Nat) (b e : UInt8) : Option Nat :=
  match src.drop s with
  | [] => none
  | c :: rest => if c = b then (balanced b e 1 rest).map (s + 1 + ·) else none

/-- The byte at a place, 0 outside. -/
def byteAt (src : Bytes) (s : Nat) : UInt8 := src.getD s 0

/-- Does the set begin at a place? Outside of the string there are zeros. -/
def frontierAt (src : Bytes) (s : Nat) (c : Single) : Bool :=
  !c.test (if s = 0 then 0 else byteAt src (s - 1)) && c.test (byteAt src s)

/-- How many bytes from a place on match in a row. -/
def repeats (src : Bytes) (s : Nat) (c : Single) : Nat :=
  ((src.drop s).takeWhile fun b => c.test b).length

/-- How many bytes an item with a suffix may take, in the order in which they are tried. -/
def takes (n : Nat) : Suffix → List Nat
  | .one => if 0 < n then [1] else []
  | .optional => if 0 < n then [1, 0] else [0]
  | .star => (List.range (n + 1)).reverse
  | .plus => (List.range n).reverse.map (· + 1)
  | .minus => List.range (n + 1)

/-- Whether the rest is matched by a call of its own; otherwise the matcher goes on. -/
def calls (n taken : Nat) : Suffix → Bool
  | .one => false
  | .optional => taken = 1
  | .star => 0 < n
  | .plus => true
  | .minus => 0 < n

section Takes

variable (n i : Nat)

theorem takes_one : takes n .one = if 0 < n then [1] else [] := rfl

theorem takes_optional : takes n .optional = if 0 < n then [1, 0] else [0] := rfl

theorem calls_one : calls n i .one = false := rfl

theorem calls_optional : calls n i .optional = decide (i = 1) := rfl

end Takes

def matchItems (src : Bytes) :
    List Item → (depth s : Nat) → List Capture → Except String (Option Found)
  | [], _, s, caps => .ok (some (s, caps))
  | .bad msg :: _, _, _, _ => .error msg
  | .openCapture :: rest, depth, s, caps =>
    if maxCaptures ≤ caps.length then .error "too many captures"
    else enter depth fun depth => matchItems src rest depth s (caps ++ [⟨s, .unfinished⟩])
  | .openPosition :: rest, depth, s, caps =>
    if maxCaptures ≤ caps.length then .error "too many captures"
    else enter depth fun depth => matchItems src rest depth s (caps ++ [⟨s, .position⟩])
  | .closeCapture :: rest, depth, s, caps =>
    match closeCapture s caps with
    | none => .error "invalid pattern capture"
    | some caps => enter depth fun depth => matchItems src rest depth s caps
  | .eos :: _, _, s, caps => .ok (if s = src.length then some (s, caps) else none)
  | .balance b e :: rest, depth, s, caps =>
    match matchBalance src s b e with
    | none => .ok none
    | some s => matchItems src rest depth s caps
  | .frontier c :: rest, depth, s, caps =>
    if frontierAt src s c then matchItems src rest depth s caps else .ok none
  | .backref d :: rest, depth, s, caps =>
    match if d = 48 then none else caps[d.toNat - 49]? with
    | none => .error "invalid capture index"
    | some cap =>
      match cap.len with
      | .unfinished => .error "invalid capture index"
      | .position => .ok none
      | .len n =>
        if n ≤ src.length - s ∧ (src.drop cap.init).take n = (src.drop s).take n then
          matchItems src rest depth (s + n) caps
        else .ok none
  | .single c suffix :: rest, depth, s, caps =>
    let n := repeats src s c
    firstOf (fun i =>
      if calls n i suffix then enter depth fun depth => matchItems src rest depth (s + i) caps
      else matchItems src rest depth (s + i) caps) (takes n suffix)

section Items

variable (src : Bytes) (rest : List Item) (depth s : Nat) (caps : List Capture)

theorem matchItems_single (c : Single) (suffix : Suffix) :
    matchItems src (.single c suffix :: rest) depth s caps =
      firstOf (fun i =>
        if calls (repeats src s c) i suffix then
          enter depth fun depth => matchItems src rest depth (s + i) caps
        else matchItems src rest depth (s + i) caps) (takes (repeats src s c) suffix) := rfl

theorem matchItems_openCapture :
    matchItems src (.openCapture :: rest) depth s caps =
      if maxCaptures ≤ caps.length then .error "too many captures"
      else enter depth fun depth => matchItems src rest depth s (caps ++ [⟨s, .unfinished⟩]) := rfl

theorem matchItems_closeCapture :
    matchItems src (.closeCapture :: rest) depth s caps =
      match closeCapture s caps with
      | none => .error "invalid pattern capture"
      | some caps => enter depth fun depth => matchItems src rest depth s caps := rfl

end Items

/-! ## Searching -/

/-- What a capture stands for. -/
inductive Value where
  | str (b : Bytes)
  | pos (n : Nat)
  deriving DecidableEq

def captureValue (src : Bytes) (cap : Capture) : Except String Value :=
  match cap.len with
  | .unfinished => .error "unfinished capture"
  | .position => .ok (.pos (cap.init + 1))
  | .len n => .ok (.str ((src.drop cap.init).take n))

def captureValues (src : Bytes) : List Capture → Except String (List Value)
  | [] => .ok []
  | cap :: caps =>
    match captureValue src cap with
    | .error msg => .error msg
    | .ok v => (captureValues src caps).map (v :: ·)

/-- A match that begins at the place. -/
def matchAt (src : Bytes) (its : List Item) (s : Nat) : Except String (Option (Nat × Found)) :=
  (enter maxDepth fun depth => matchItems src its depth s []).map (Option.map fun r => (s, r))

/-- The first match from a place on; a pattern that begins with `^` matches there only. -/
def search (src p : Bytes) (i : Nat) : Except String (Option (Nat × Found)) :=
  if p.head? = some 94 then matchAt src (items p.tail) i
  else firstOf (matchAt src (items p)) (List.range' i (src.length + 1 - i))

/-- The first occurrence from a place on. -/
def searchPlain (src p : Bytes) (i : Nat) : Option Nat :=
  (List.range' i (src.length + 1 - i)).find? fun j => p.isPrefixOf (src.drop j)

/-- A pattern without special characters. -/
def noSpecials (p : Bytes) : Bool :=
  p.all fun c => c ∉ [94, 36, 42, 43, 63, 46, 40, 91, 37, 45]

/-- `string.find` from the place `i` on, with places counted from 0: where the match begins and
the place behind it. -/
def find (src p : Bytes) (i : Nat) (plain : Bool) : Except String (Option (Nat × Nat)) :=
  if src.length < i then .ok none
  else if plain || noSpecials p then .ok ((searchPlain src p i).map fun j => (j, j + p.length))
  else
    match search src p i with
    | .error msg => .error msg
    | .ok none => .ok none
    | .ok (some (s, e, caps)) => (captureValues src caps).map fun _ => some (s, e)

/-- `string.match` from the start of the string. -/
def stringMatch (src p : Bytes) : Except String (Option (List Value)) :=
  match search src p 0 with
  | .error msg => .error msg
  | .ok none => .ok none
  | .ok (some (s, e, [])) => .ok (some [.str ((src.drop s).take (e - s))])
  | .ok (some (_, _, caps)) => (captureValues src caps).map some

/-! ## Where matches are -/

theorem firstOf_nil {α β : Type} (f : α → Except String (Option β)) :
    firstOf f [] = .ok none := rfl

theorem firstOf_cons {α β : Type} (f : α → Except String (Option β)) (a : α) (l : List α) :
    firstOf f (a :: l) =
      match f a with
      | .error msg => .error msg
      | .ok (some b) => .ok (some b)
      | .ok none => firstOf f l := rfl

/-- The first element succeeds, or it fails and the others are tried. -/
theorem firstOf_cons_ok {α β : Type} {f : α → Except String (Option β)} {a : α} {l : List α}
    {found : Option β} (h : firstOf f (a :: l) = .ok found) :
    f a = .ok found ∧ found ≠ none ∨ f a = .ok none ∧ firstOf f l = .ok found := by
  rw [firstOf_cons] at h
  cases hf : f a with
  | error msg =>
    rw [hf] at h
    cases h
  | ok first =>
    rw [hf] at h
    cases first with
    | none => exact Or.inr ⟨rfl, h⟩
    | some b => exact Or.inl ⟨h, by cases h; simp⟩

theorem firstOf_some {α β : Type} {f : α → Except String (Option β)} {l : List α} {b : β}
    (h : firstOf f l = .ok (some b)) : ∃ a ∈ l, f a = .ok (some b) := by
  induction l with
  | nil => cases h
  | cons a l ih =>
    obtain ⟨hf, -⟩ | ⟨-, hrest⟩ := firstOf_cons_ok h
    · exact ⟨a, List.mem_cons_self, hf⟩
    · obtain ⟨a', ha', hf⟩ := ih hrest
      exact ⟨a', List.mem_cons_of_mem a ha', hf⟩

theorem firstOf_cons_some {α β : Type} {f : α → Except String (Option β)} {a : α} {l : List α}
    {b : β} (h : f a = .ok (some b)) : firstOf f (a :: l) = .ok (some b) := by
  rw [firstOf_cons, h]

theorem firstOf_cons_none {α β : Type} {f : α → Except String (Option β)} {a : α} {l : List α}
    (h : f a = .ok none) : firstOf f (a :: l) = firstOf f l := by
  rw [firstOf_cons, h]

theorem firstOf_singleton {α β : Type} (f : α → Except String (Option β)) (a : α) :
    firstOf f [a] = f a := by
  rw [firstOf_cons]
  cases f a with
  | error msg => rfl
  | ok found => cases found <;> rfl

/-- Before the first that succeeds all fail. -/
theorem firstOf_range {β : Type} {f : Nat → Except String (Option β)} {i n : Nat} {b : β}
    (h : firstOf f (List.range' i n) = .ok (some b)) :
    ∃ a, i ≤ a ∧ a < i + n ∧ f a = .ok (some b) ∧ ∀ k, i ≤ k → k < a → f k = .ok none := by
  induction n generalizing i with
  | zero => cases h
  | succ n ih =>
    rw [List.range'_succ] at h
    obtain ⟨hf, -⟩ | ⟨hnone, hrest⟩ := firstOf_cons_ok h
    · exact ⟨i, Nat.le_refl i, by omega, hf, fun k hle hlt => absurd hlt (by omega)⟩
    · obtain ⟨a, hle, hlt, hf, hfirst⟩ := ih hrest
      refine ⟨a, by omega, by omega, hf, fun k hik hka => ?_⟩
      obtain rfl | hlater := Nat.eq_or_lt_of_le hik
      · exact hnone
      · exact hfirst k hlater hka

theorem firstOf_none {α β : Type} {f : α → Except String (Option β)} {l : List α}
    (h : firstOf f l = .ok none) : ∀ a ∈ l, f a = .ok none := by
  induction l with
  | nil => exact fun a ha => absurd ha List.not_mem_nil
  | cons a l ih =>
    obtain ⟨-, hne⟩ | ⟨hnone, hrest⟩ := firstOf_cons_ok h
    · exact absurd rfl hne
    · exact List.forall_mem_cons.mpr ⟨hnone, ih hrest⟩

theorem enter_some {depth : Nat} {f : Nat → Except String (Option Found)} {r : Found}
    (h : enter depth f = .ok (some r)) : ∃ depth', f depth' = .ok (some r) := by
  cases depth with
  | zero => cases h
  | succ depth => exact ⟨depth, h⟩

/-- A match does not end before it begins. -/
theorem le_of_matchItems {src : Bytes} (its : List Item) {depth s e : Nat}
    {caps caps' : List Capture} (h : matchItems src its depth s caps = .ok (some (e, caps'))) :
    s ≤ e := by
  induction its generalizing depth s caps with
  | nil =>
    simp only [matchItems, Except.ok.injEq, Option.some.injEq, Prod.mk.injEq] at h
    omega
  | cons it rest ih =>
    cases it with
    | bad msg => cases h
    | openCapture =>
      rw [matchItems] at h
      split at h
      · cases h
      · obtain ⟨depth', h⟩ := enter_some h
        exact ih h
    | openPosition =>
      rw [matchItems] at h
      split at h
      · cases h
      · obtain ⟨depth', h⟩ := enter_some h
        exact ih h
    | closeCapture =>
      rw [matchItems] at h
      split at h
      · cases h
      · obtain ⟨depth', h⟩ := enter_some h
        exact ih h
    | eos =>
      simp only [matchItems, Except.ok.injEq] at h
      split at h
      · cases h
        exact Nat.le_refl _
      · cases h
    | balance b e' =>
      rw [matchItems] at h
      split at h
      · cases h
      · rename_i s' hs'
        rw [matchBalance] at hs'
        split at hs'
        · cases hs'
        · split at hs'
          · obtain ⟨k, -, hk⟩ := Option.map_eq_some_iff.mp hs'
            have hle := ih h
            omega
          · cases hs'
    | frontier c =>
      rw [matchItems] at h
      split at h
      · exact ih h
      · cases h
    | backref d =>
      rw [matchItems] at h
      split at h
      · cases h
      · split at h
        · cases h
        · cases h
        · split at h
          · exact Nat.le_of_add_right_le (ih h)
          · cases h
    | single c suffix =>
      rw [matchItems] at h
      obtain ⟨i, -, hi⟩ := firstOf_some h
      split at hi
      · obtain ⟨depth', hi⟩ := enter_some hi
        exact Nat.le_of_add_right_le (ih hi)
      · exact Nat.le_of_add_right_le (ih hi)

theorem matchAt_some {src : Bytes} {its : List Item} {s s' : Nat} {r : Found}
    (h : matchAt src its s = .ok (some (s', r))) : s' = s ∧ s ≤ r.1 := by
  rw [matchAt] at h
  cases hm : enter maxDepth fun depth => matchItems src its depth s [] with
  | error msg => simp [hm, Except.map] at h
  | ok found =>
    cases found with
    | none => simp [hm, Except.map] at h
    | some r' =>
      obtain ⟨depth', hr'⟩ := enter_some hm
      simp only [hm, Except.map, Option.map_some, Except.ok.injEq, Option.some.injEq,
        Prod.mk.injEq] at h
      obtain ⟨rfl, rfl⟩ := h
      exact ⟨rfl, le_of_matchItems its hr'⟩

/-- A match begins at the place or behind it, and there it is found again. -/
theorem search_some {src p : Bytes} {i s : Nat} {r : Found}
    (hi : i ≤ src.length) (h : search src p i = .ok (some (s, r))) :
    i ≤ s ∧ s ≤ src.length ∧ s ≤ r.1 ∧ search src p s = .ok (some (s, r)) := by
  rw [search] at h
  rw [search]
  by_cases hanchor : p.head? = some 94
  · rw [if_pos hanchor] at h ⊢
    obtain ⟨rfl, hle⟩ := matchAt_some h
    exact ⟨Nat.le_refl s, hi, hle, h⟩
  · rw [if_neg hanchor] at h ⊢
    obtain ⟨a, ha, hlt, hf, -⟩ := firstOf_range h
    obtain ⟨rfl, hle⟩ := matchAt_some hf
    obtain ⟨n, hn⟩ : ∃ n, src.length + 1 - s = n + 1 := ⟨src.length - s, by omega⟩
    refine ⟨ha, by omega, hle, ?_⟩
    rw [hn, List.range'_succ, firstOf_cons, hf]

/-- The first occurrence. -/
theorem searchPlain_some {src p : Bytes} {i j : Nat} : searchPlain src p i = some j ↔
    i ≤ j ∧ j ≤ src.length ∧ p <+: src.drop j ∧ ∀ k, i ≤ k → k < j → ¬p <+: src.drop k := by
  rw [searchPlain, List.find?_range'_eq_some]
  simp only [List.isPrefixOf_iff_prefix, List.mem_range'_1, Bool.not_eq_true',
    Bool.eq_false_iff, ne_eq]
  constructor
  · rintro ⟨hp, ⟨hle, hlt⟩, hfirst⟩
    exact ⟨hle, by omega, hp, hfirst⟩
  · rintro ⟨hle, hlen, hp, hfirst⟩
    exact ⟨hp, ⟨hle, by omega⟩, hfirst⟩

theorem searchPlain_none {src p : Bytes} {i : Nat} : searchPlain src p i = none ↔
    ∀ k, i ≤ k → k ≤ src.length → ¬p <+: src.drop k := by
  rw [searchPlain, List.find?_range'_eq_none]
  simp only [List.isPrefixOf_iff_prefix, Bool.not_eq_true', Bool.eq_false_iff, ne_eq]
  constructor
  · exact fun hnone k hle hlen => hnone k hle (by omega)
  · exact fun hnone k hle hlt => hnone k hle (by omega)

/-- A match begins where the search does or behind it, and it is found again from where it
begins. -/
theorem find_some {src p : Bytes} {plain : Bool} {i s e : Nat} (hi : i ≤ src.length)
    (h : find src p i plain = .ok (some (s, e))) :
    i ≤ s ∧ s ≤ e ∧ find src p s plain = .ok (some (s, e)) := by
  rw [find, if_neg (by omega)] at h
  by_cases hplain : (plain || noSpecials p) = true
  · rw [if_pos hplain] at h
    obtain ⟨j, hj, heq⟩ := Option.map_eq_some_iff.mp (Except.ok.inj h)
    obtain ⟨rfl, rfl⟩ := Prod.mk.inj heq
    obtain ⟨hle, hlen, hp, -⟩ := searchPlain_some.mp hj
    refine ⟨hle, Nat.le_add_right j _, ?_⟩
    have hagain : searchPlain src p j = some j :=
      searchPlain_some.mpr ⟨Nat.le_refl j, hlen, hp, fun k hjk hkj => absurd hkj (by omega)⟩
    rw [find, if_neg (by omega), if_pos hplain, hagain]
    rfl
  · rw [if_neg hplain] at h
    cases hsearch : search src p i with
    | error msg => simp [hsearch] at h
    | ok found =>
      cases found with
      | none => simp [hsearch] at h
      | some r =>
        obtain ⟨s', e', caps⟩ := r
        obtain ⟨hle, hlen, hse, hagain⟩ := search_some hi hsearch
        simp only [hsearch] at h
        cases hcaps : captureValues src caps with
        | error msg => simp [hcaps, Except.map] at h
        | ok vs =>
          simp only [hcaps, Except.map, Except.ok.injEq, Option.some.injEq, Prod.mk.injEq] at h
          obtain ⟨rfl, rfl⟩ := h
          refine ⟨hle, hse, ?_⟩
          rw [find, if_neg (by omega), if_neg hplain, hagain]
          simp only [hcaps, Except.map]

/-! ## Runs of bytes -/

/-- The longest run of bytes of a kind with which a text begins. -/
structure Run (p : UInt8 → Bool) (text run rest : Bytes) : Prop where
  split : text = run ++ rest
  mem : ∀ b ∈ run, p b = true
  stop : ∀ b t, rest = b :: t → p b = false

theorem exists_run (p : UInt8 → Bool) (text : Bytes) : ∃ run rest, Run p text run rest := by
  induction text with
  | nil => exact ⟨[], [], rfl, by simp, by simp⟩
  | cons b text ih =>
    by_cases hb : p b = true
    · obtain ⟨run, rest, h⟩ := ih
      refine ⟨b :: run, rest, ?_, List.forall_mem_cons.mpr ⟨hb, h.mem⟩, h.stop⟩
      rw [h.split]
      rfl
    · refine ⟨[], b :: text, rfl, by simp, ?_⟩
      intro c t hc
      cases hc
      simpa using hb

theorem Run.unique {p : UInt8 → Bool} {text run rest run' rest' : Bytes}
    (h : Run p text run rest) (h' : Run p text run' rest') : run = run' ∧ rest = rest' := by
  induction run generalizing text run' with
  | nil =>
    cases run' with
    | nil => exact ⟨rfl, h.split.symm.trans h'.split⟩
    | cons b run' =>
      have hb := h.stop b (run' ++ rest') (h.split.symm.trans h'.split)
      rw [h'.mem b List.mem_cons_self] at hb
      cases hb
  | cons b run ih =>
    cases run' with
    | nil =>
      have hb := h'.stop b (run ++ rest) (h'.split.symm.trans h.split)
      rw [h.mem b List.mem_cons_self] at hb
      cases hb
    | cons c run' =>
      obtain ⟨rfl, htail⟩ := List.cons.inj (h.split.symm.trans h'.split)
      obtain ⟨rfl, hrest⟩ := @ih (run ++ rest) run'
        ⟨rfl, fun a ha => h.mem a (List.mem_cons_of_mem b ha), h.stop⟩
        ⟨htail, fun a ha => h'.mem a (List.mem_cons_of_mem b ha), h'.stop⟩
      exact ⟨rfl, hrest⟩

/-! ## Single steps -/

section Steps

variable {src : Bytes} {its : List Item} {c : Single} {depth s : Nat} {caps caps' : List Capture}
  {r : Found}

theorem drop_succ {b : UInt8} {text : Bytes} (h : src.drop s = b :: text) :
    src.drop (s + 1) = text := by
  rw [← List.drop_drop, h]
  rfl

theorem repeats_cons {b : UInt8} {text : Bytes} (h : src.drop s = b :: text) :
    repeats src s c = if c.test b = true then repeats src (s + 1) c + 1 else 0 := by
  rw [repeats, repeats, h, drop_succ h, List.takeWhile_cons]
  split <;> rfl

theorem repeats_pos : 0 < repeats src s c ↔ ∃ b text, src.drop s = b :: text ∧ c.test b = true := by
  cases h : src.drop s with
  | nil => simp [repeats, h]
  | cons b text =>
    rw [repeats_cons h]
    by_cases hc : c.test b = true
    · simp [hc]
    · simp [hc]

theorem repeats_zero (h : ∀ b text, src.drop s = b :: text → c.test b = false) :
    repeats src s c = 0 := by
  by_contra hne
  obtain ⟨b, text, hb, hc⟩ := repeats_pos.mp (Nat.pos_of_ne_zero hne)
  rw [h b text hb] at hc
  cases hc

example : repeats [97, 97, 98] 0 (.lit 97) = 2 := by decide +kernel

theorem matchItems_one {b : UInt8} {text : Bytes} (h : src.drop s = b :: text)
    (hc : c.test b = true) :
    matchItems src (.single c .one :: its) depth s caps = matchItems src its depth (s + 1) caps := by
  have hpos : 0 < repeats src s c := repeats_pos.mpr ⟨b, text, h, hc⟩
  simp only [matchItems_single, takes_one, if_pos hpos, firstOf_singleton, calls_one,
    Bool.false_eq_true, if_false]

theorem matchItems_one_some
    (h : matchItems src (.single c .one :: its) depth s caps = .ok (some r)) :
    ∃ b text, src.drop s = b :: text ∧ c.test b = true ∧ src.drop (s + 1) = text ∧
      matchItems src its depth (s + 1) caps = .ok (some r) := by
  by_cases hpos : 0 < repeats src s c
  · obtain ⟨b, text, hb, hc⟩ := repeats_pos.mp hpos
    rw [matchItems_one hb hc] at h
    exact ⟨b, text, hb, hc, drop_succ hb, h⟩
  · simp [matchItems_single, takes_one, if_neg hpos, firstOf_nil] at h

theorem matchItems_optional_skip (h : ∀ b text, src.drop s = b :: text → c.test b = false) :
    matchItems src (.single c .optional :: its) depth s caps = matchItems src its depth s caps := by
  simp [matchItems_single, repeats_zero h, takes_optional, firstOf_singleton, calls_optional]

theorem matchItems_optional_take {b : UInt8} {text : Bytes} (h : src.drop s = b :: text)
    (hc : c.test b = true) (hrest : matchItems src its depth (s + 1) caps = .ok (some r)) :
    matchItems src (.single c .optional :: its) (depth + 1) s caps = .ok (some r) := by
  have hpos : 0 < repeats src s c := repeats_pos.mpr ⟨b, text, h, hc⟩
  simp only [matchItems_single, takes_optional, if_pos hpos]
  apply firstOf_cons_some
  simpa [calls_optional, enter_succ] using hrest

/-- The byte is taken if that leads to a match. -/
theorem matchItems_optional_some
    (h : matchItems src (.single c .optional :: its) depth s caps = .ok (some r)) :
    (∃ b text, src.drop s = b :: text ∧ c.test b = true ∧ src.drop (s + 1) = text ∧
        ∃ depth', matchItems src its depth' (s + 1) caps = .ok (some r)) ∨
      matchItems src its depth s caps = .ok (some r) ∧ ∀ b text, src.drop s = b :: text →
        c.test b = true → ∃ depth', matchItems src its depth' (s + 1) caps = .ok none := by
  by_cases hpos : 0 < repeats src s c
  · obtain ⟨b, text, hb, hc⟩ := repeats_pos.mp hpos
    cases depth with
    | zero =>
      simp [matchItems_single, takes_optional, hpos, firstOf_cons, calls_optional, enter_zero] at h
    | succ depth =>
      simp only [matchItems_single, takes_optional, if_pos hpos] at h
      cases htake : matchItems src its depth (s + 1) caps with
      | error msg => simp [firstOf_cons, calls_optional, enter_succ, htake] at h
      | ok found =>
        cases found with
        | none =>
          rw [firstOf_cons_none (by simpa [calls_optional, enter_succ] using htake),
            firstOf_singleton] at h
          exact Or.inr ⟨by simpa [calls_optional] using h, fun _ _ _ _ => ⟨depth, htake⟩⟩
        | some r' =>
          rw [firstOf_cons_some (by simpa [calls_optional, enter_succ] using htake)] at h
          exact Or.inl ⟨b, text, hb, hc, drop_succ hb, depth, htake.trans h⟩
  · have hskip : ∀ b text, src.drop s = b :: text → c.test b = false := by
      intro b text hb
      by_contra hc
      exact hpos (repeats_pos.mpr ⟨b, text, hb, by simpa using hc⟩)
    rw [matchItems_optional_skip hskip] at h
    refine Or.inr ⟨h, fun b text hb hc => ?_⟩
    rw [hskip b text hb] at hc
    cases hc

theorem matchItems_open (hroom : caps.length < maxCaptures) :
    matchItems src (.openCapture :: its) (depth + 1) s caps =
      matchItems src its depth s (caps ++ [⟨s, .unfinished⟩]) := by
  rw [matchItems_openCapture, if_neg (Nat.not_le.mpr hroom)]
  rfl

theorem matchItems_open_some
    (h : matchItems src (.openCapture :: its) depth s caps = .ok (some r)) :
    ∃ depth' caps', matchItems src its depth' s caps' = .ok (some r) := by
  rw [matchItems_openCapture] at h
  split at h
  · cases h
  · obtain ⟨depth', h⟩ := enter_some h
    exact ⟨depth', _, h⟩

theorem matchItems_close (hclose : closeCapture s caps = some caps') :
    matchItems src (.closeCapture :: its) (depth + 1) s caps =
      matchItems src its depth s caps' := by
  rw [matchItems_closeCapture, hclose]
  rfl

theorem matchItems_close_some
    (h : matchItems src (.closeCapture :: its) depth s caps = .ok (some r)) :
    ∃ depth' caps', matchItems src its depth' s caps' = .ok (some r) := by
  rw [matchItems_closeCapture] at h
  split at h
  · cases h
  · obtain ⟨depth', h⟩ := enter_some h
    exact ⟨depth', _, h⟩

/-- Some bytes that match are taken. -/
theorem matchItems_repeat_some {suffix : Suffix}
    (h : matchItems src (.single c suffix :: its) depth s caps = .ok (some r)) :
    ∃ i ∈ takes (repeats src s c) suffix, ∃ depth',
      matchItems src its depth' (s + i) caps = .ok (some r) := by
  rw [matchItems_single] at h
  obtain ⟨i, hi, hrest⟩ := firstOf_some h
  split at hrest
  · obtain ⟨depth', hrest⟩ := enter_some hrest
    exact ⟨i, hi, depth', hrest⟩
  · exact ⟨i, hi, depth, hrest⟩

/-- The items match from the place on, if the matcher may call itself often enough. -/
def Leads (src : Bytes) (its : List Item) (s : Nat) (caps : List Capture) (r : Found) : Prop :=
  ∀ depth, its.length ≤ depth → matchItems src its depth s caps = .ok (some r)

theorem leads_nil : Leads src [] s caps (s, caps) := fun _ _ => rfl

theorem leads_one {b : UInt8} {text : Bytes} (h : src.drop s = b :: text) (hc : c.test b = true)
    (hrest : Leads src its (s + 1) caps r) : Leads src (.single c .one :: its) s caps r := by
  intro depth hdepth
  rw [matchItems_one h hc]
  exact hrest depth (Nat.le_of_succ_le hdepth)

theorem leads_skip (h : ∀ b text, src.drop s = b :: text → c.test b = false)
    (hrest : Leads src its s caps r) : Leads src (.single c .optional :: its) s caps r := by
  intro depth hdepth
  rw [matchItems_optional_skip h]
  exact hrest depth (Nat.le_of_succ_le hdepth)

theorem leads_take {b : UInt8} {text : Bytes} (h : src.drop s = b :: text) (hc : c.test b = true)
    (hrest : Leads src its (s + 1) caps r) : Leads src (.single c .optional :: its) s caps r := by
  intro depth hdepth
  cases depth with
  | zero => exact absurd hdepth (Nat.not_succ_le_zero _)
  | succ depth =>
    exact matchItems_optional_take h hc (hrest depth (Nat.le_of_succ_le_succ hdepth))

theorem leads_open (hroom : caps.length < maxCaptures)
    (hrest : Leads src its s (caps ++ [⟨s, .unfinished⟩]) r) :
    Leads src (.openCapture :: its) s caps r := by
  intro depth hdepth
  cases depth with
  | zero => exact absurd hdepth (Nat.not_succ_le_zero _)
  | succ depth =>
    rw [matchItems_open hroom]
    exact hrest depth (Nat.le_of_succ_le_succ hdepth)

theorem closeCapture_last (i : Nat) (caps : List Capture) :
    closeCapture s (caps ++ [⟨i, .unfinished⟩]) = some (caps ++ [⟨i, .len (s - i)⟩]) := by
  induction caps with
  | nil => rfl
  | cons cap caps ih => rw [List.cons_append, closeCapture, ih, List.cons_append]

theorem leads_close {i : Nat} (hrest : Leads src its s (caps ++ [⟨i, .len (s - i)⟩]) r) :
    Leads src (.closeCapture :: its) s (caps ++ [⟨i, .unfinished⟩]) r := by
  intro depth hdepth
  cases depth with
  | zero => exact absurd hdepth (Nat.not_succ_le_zero _)
  | succ depth =>
    rw [matchItems_close (closeCapture_last i caps)]
    exact hrest depth (Nat.le_of_succ_le_succ hdepth)

/-- As many bytes as match are taken first. -/
theorem leads_star (hrest : Leads src its (s + repeats src s c) caps r) :
    Leads src (.single c .star :: its) s caps r := by
  intro depth hdepth
  cases depth with
  | zero => exact absurd hdepth (Nat.not_succ_le_zero _)
  | succ depth =>
    simp only [matchItems_single, takes, List.range_succ, List.reverse_append, List.reverse_singleton,
      List.singleton_append]
    apply firstOf_cons_some
    split
    · exact hrest depth (Nat.le_of_succ_le_succ hdepth)
    · exact hrest (depth + 1) (Nat.le_of_succ_le hdepth)

theorem leads_plus (hpos : 0 < repeats src s c)
    (hrest : Leads src its (s + repeats src s c) caps r) :
    Leads src (.single c .plus :: its) s caps r := by
  intro depth hdepth
  obtain ⟨n, hn⟩ : ∃ n, repeats src s c = n + 1 := ⟨repeats src s c - 1, by omega⟩
  cases depth with
  | zero => exact absurd hdepth (Nat.not_succ_le_zero _)
  | succ depth =>
    simp only [matchItems_single, takes, hn, List.range_succ, List.reverse_append, List.reverse_singleton,
      List.singleton_append, List.map_cons]
    apply firstOf_cons_some
    rw [hn] at hrest
    exact hrest depth (Nat.le_of_succ_le_succ hdepth)

/-- A row of items for one byte each. -/
theorem leads_ones {l text : Bytes} (h : src.drop s = l ++ text) (hl : ∀ b ∈ l, c.test b = true)
    (hrest : Leads src its (s + l.length) caps r) :
    Leads src (List.replicate l.length (.single c .one) ++ its) s caps r := by
  induction l generalizing s with
  | nil => exact hrest
  | cons b l ih =>
    obtain ⟨hb, hl⟩ := List.forall_mem_cons.mp hl
    apply leads_one h hb
    apply ih (drop_succ h) hl
    rw [Nat.add_assoc, Nat.add_comm 1]
    exact hrest

theorem matchItems_ones_some (n : Nat)
    (h : matchItems src (List.replicate n (.single c .one) ++ its) depth s caps = .ok (some r)) :
    ∃ l, l.length = n ∧ (∀ b ∈ l, c.test b = true) ∧ src.drop s = l ++ src.drop (s + n) ∧
      matchItems src its depth (s + n) caps = .ok (some r) := by
  induction n generalizing s with
  | zero => exact ⟨[], rfl, by simp, rfl, h⟩
  | succ n ih =>
    obtain ⟨b, text, hb, hc, htext, hrest⟩ := matchItems_one_some h
    obtain ⟨l, hlen, hl, hsplit, hrest'⟩ := ih hrest
    rw [Nat.add_assoc, Nat.add_comm 1] at hsplit hrest'
    refine ⟨b :: l, congrArg (· + 1) hlen, List.forall_mem_cons.mpr ⟨hc, hl⟩, ?_, hrest'⟩
    rw [hb, ← htext, hsplit]
    rfl

theorem repeats_run {l text : Bytes} (h : Run (fun b => c.test b) (src.drop s) l text) :
    repeats src s c = l.length := by
  have hsplit := h.split
  have hmem := h.mem
  induction l generalizing s with
  | nil =>
    apply repeats_zero
    intro b rest hb
    exact h.stop b rest (hsplit.symm.trans hb)
  | cons b l ih =>
    obtain ⟨hb, hl⟩ := List.forall_mem_cons.mp hmem
    have htail := drop_succ hsplit
    rw [repeats_cons hsplit, if_pos hb, ih ⟨htail, hl, h.stop⟩ htail hl]
    rfl

/-- A group for a run of bytes, which is taken as a whole. -/
theorem leads_run {suffix : Suffix} {l text : Bytes}
    (hsuffix : suffix = .star ∨ suffix = .plus ∧ l ≠ [])
    (h : Run (fun b => c.test b) (src.drop s) l text) (hroom : caps.length < maxCaptures)
    (hrest : Leads src its (s + l.length) (caps ++ [⟨s, .len l.length⟩]) r) :
    Leads src (.openCapture :: .single c suffix :: .closeCapture :: its) s caps r := by
  have hcount := repeats_run h
  have hclose : Leads src (.closeCapture :: its) (s + repeats src s c)
      (caps ++ [⟨s, .unfinished⟩]) r := by
    apply leads_close
    rwa [hcount, Nat.add_sub_cancel_left]
  apply leads_open hroom
  obtain rfl | ⟨rfl, hne⟩ := hsuffix
  · exact leads_star hclose
  · apply leads_plus _ hclose
    rw [hcount]
    exact List.length_pos_of_ne_nil hne

theorem Leads.unique {r' : Found} (h : Leads src its s caps r) (h' : Leads src its s caps r') :
    r = r' :=
  Option.some.inj (Except.ok.inj ((h its.length (Nat.le_refl _)).symm.trans
    (h' its.length (Nat.le_refl _))))

theorem drop_append {l text : Bytes} (h : src.drop s = l ++ text) :
    src.drop (s + l.length) = text := by
  rw [← List.drop_drop, h, List.drop_left]

end Steps

/-! ## Patterns without repetitions, sets and captures -/

/-- A byte that stands for itself in a pattern, or a dot. -/
def isPlain (b : UInt8) : Bool := b ∉ [36, 37, 40, 41, 42, 43, 45, 63, 91]

def plainSingle (b : UInt8) : Single := if b = 46 then .any else .lit b

/-- Does a text begin like a name, where a dot of the name is any byte? -/
def beginsLike : Bytes → Bytes → Bool
  | [], _ => true
  | _ :: _, [] => false
  | b :: name, c :: text => (b = 46 || b = c) && beginsLike name text

section Plain

variable {src name : Bytes} {its : List Item} {c : Single} {depth s : Nat} {caps : List Capture}

theorem readSuffix_plain {rest : Bytes} (hrest : ∀ c ∈ rest, isPlain c = true) :
    readSuffix rest = (.one, rest) := by
  cases rest with
  | nil => rfl
  | cons c rest =>
    have hc := hrest c List.mem_cons_self
    unfold readSuffix
    split
    all_goals first | rfl | simp_all [isPlain]

theorem readSingle_plain {b : UInt8} (hb : isPlain b = true) (rest : Bytes) :
    readSingle (b :: rest) = .ok (plainSingle b, rest) := by
  unfold readSingle
  split
  all_goals simp_all [isPlain, plainSingle]

theorem readItem_plain {b : UInt8} {rest : Bytes} (hb : isPlain b = true)
    (hrest : ∀ c ∈ rest, isPlain c = true) :
    readItem (b :: rest) = (.single (plainSingle b) .one, rest) := by
  unfold readItem
  rw [readSingle_plain hb]
  dsimp only
  rw [readSuffix_plain hrest]
  split
  all_goals simp_all [isPlain]

/-- A plain text is read byte by byte. -/
theorem readItems_plain (h : ∀ b ∈ name, isPlain b = true) {n : Nat} (hn : name.length ≤ n) :
    readItems n name = name.map fun b => .single (plainSingle b) .one := by
  induction name generalizing n with
  | nil => cases n <;> rfl
  | cons b name ih =>
    obtain ⟨hb, hname⟩ := List.forall_mem_cons.mp h
    cases n with
    | zero => exact absurd hn (Nat.not_succ_le_zero _)
    | succ n =>
      rw [readItems, readItem_plain hb hname, ih hname (Nat.le_of_succ_le_succ hn)]
      · rfl
      · simp

theorem firstOf_all_none {α β : Type} {f : α → Except String (Option β)} {l : List α}
    (h : ∀ a ∈ l, f a = .ok none) : firstOf f l = .ok none := by
  induction l with
  | nil => rfl
  | cons a l ih =>
    obtain ⟨ha, hl⟩ := List.forall_mem_cons.mp h
    rw [firstOf_cons_none ha, ih hl]

theorem matchItems_one_none (h : ∀ b text, src.drop s = b :: text → c.test b = false) :
    matchItems src (.single c .one :: its) depth s caps = .ok none := by
  simp [matchItems_single, repeats_zero h, takes, firstOf]

/-- As many bytes as match are taken, if the rest does not match behind fewer. -/
theorem matchItems_star_stop {r : Except String (Option Found)}
    (hrest : ∀ depth, matchItems src its depth (s + repeats src s c) caps = r)
    (hstop : ∀ i < repeats src s c, ∀ depth, matchItems src its depth (s + i) caps = .ok none) :
    matchItems src (.single c .star :: its) (depth + 1) s caps = r := by
  have hstep : ∀ i, (if calls (repeats src s c) i .star then
      enter (depth + 1) fun depth => matchItems src its depth (s + i) caps
      else matchItems src its (depth + 1) (s + i) caps) =
      matchItems src its (if 0 < repeats src s c then depth else depth + 1) (s + i) caps := by
    intro i
    by_cases hpos : 0 < repeats src s c
    · simp only [calls, hpos, decide_true, if_true, enter]
    · simp only [calls, hpos, decide_false, Bool.false_eq_true, if_false]
  rw [matchItems_single, takes, List.range_succ, List.reverse_append, List.reverse_singleton,
    List.singleton_append]
  simp only [hstep]
  rw [firstOf_cons, hrest, firstOf_all_none]
  · split <;> rfl
  · intro i hi
    exact hstop i (List.mem_range.mp (List.mem_reverse.mp hi)) _

theorem test_plain (b c : UInt8) : (plainSingle b).test c = (b = 46 || b = c) := by
  rw [plainSingle]
  split
  · simp_all [Single.test]
  · simp_all [Single.test]

theorem matchItems_plain (name : Bytes) :
    matchItems src (name.map fun b => .single (plainSingle b) .one) depth s caps =
      .ok (if beginsLike name (src.drop s) then some (s + name.length, caps) else none) := by
  induction name generalizing s with
  | nil => rfl
  | cons b name ih =>
    rw [List.map_cons]
    cases htext : src.drop s with
    | nil =>
      rw [matchItems_one_none]
      · rfl
      · simp [htext]
    | cons c text =>
      rw [beginsLike, ← test_plain]
      cases htest : (plainSingle b).test c with
      | false =>
        rw [matchItems_one_none]
        · rfl
        · intro d rest hd
          rw [htext] at hd
          obtain ⟨rfl, rfl⟩ := List.cons.inj hd
          exact htest
      | true =>
        rw [matchItems_one htext htest, ih, drop_succ htext, Bool.true_and, List.length_cons,
          Nat.add_assoc, Nat.add_comm 1]

theorem matchItems_one_eq {b : UInt8} {text : Bytes} (h : src.drop s = b :: text) :
    matchItems src (.single c .one :: its) depth s caps =
      if c.test b = true then matchItems src its depth (s + 1) caps else .ok none := by
  split
  · exact matchItems_one h ‹_›
  · next hc =>
    refine matchItems_one_none fun d rest hd => ?_
    rw [h] at hd
    rw [← (List.cons.inj hd).1]
    simpa using hc

theorem matchItems_ones_eq (n : Nat) :
    matchItems src (List.replicate n (.single c .one) ++ its) depth s caps =
      if n ≤ (src.drop s).length ∧ ((src.drop s).take n).all (fun b => c.test b) then
        matchItems src its depth (s + n) caps
      else .ok none := by
  induction n generalizing s with
  | zero => simp
  | succ n ih =>
    rw [List.replicate_succ, List.cons_append]
    cases htext : src.drop s with
    | nil =>
      rw [matchItems_one_none]
      · simp
      · simp [htext]
    | cons b text =>
      rw [matchItems_one_eq htext, ih, drop_succ htext, Nat.add_assoc, Nat.add_comm 1 n]
      by_cases hb : c.test b = true
      · simp [hb]
      · simp [hb]

end Plain

/-! ## Patterns that raise no error -/

/-- Items that are groups of single-byte items, when so many captures are open; all are
closed at the end. -/
def Grouped : (opened : Nat) → List Item → Prop
  | opened, [] => opened = 0
  | opened, .eos :: _ => opened = 0
  | opened, .openCapture :: its => Grouped (opened + 1) its
  | opened, .closeCapture :: its => 0 < opened ∧ Grouped (opened - 1) its
  | opened, .single _ _ :: its => Grouped opened its
  | _, _ => False

instance decidableGrouped : (opened : Nat) → (its : List Item) → Decidable (Grouped opened its)
  | opened, [] => inferInstanceAs (Decidable (opened = 0))
  | opened, .eos :: _ => inferInstanceAs (Decidable (opened = 0))
  | opened, .openCapture :: its => decidableGrouped (opened + 1) its
  | opened, .closeCapture :: its =>
    have := decidableGrouped (opened - 1) its
    inferInstanceAs (Decidable (0 < opened ∧ Grouped (opened - 1) its))
  | opened, .single _ _ :: its => decidableGrouped opened its
  | _, .openPosition :: _ => inferInstanceAs (Decidable False)
  | _, .balance _ _ :: _ => inferInstanceAs (Decidable False)
  | _, .frontier _ :: _ => inferInstanceAs (Decidable False)
  | _, .backref _ :: _ => inferInstanceAs (Decidable False)
  | _, .bad _ :: _ => inferInstanceAs (Decidable False)

def opened (caps : List Capture) : Nat := caps.countP fun cap => cap.len = .unfinished

theorem opened_cons (cap : Capture) (caps : List Capture) :
    opened (cap :: caps) = opened caps + if cap.len = .unfinished then 1 else 0 := by
  simp [opened, List.countP_cons]

theorem closeCapture_none (s : Nat) {caps : List Capture} (h : opened caps = 0) :
    closeCapture s caps = none := by
  induction caps with
  | nil => rfl
  | cons cap caps ih =>
    rw [opened_cons] at h
    rw [closeCapture, ih (by omega)]
    by_cases hcap : cap.len = .unfinished
    · rw [if_pos hcap] at h
      omega
    · exact if_neg hcap

/-- A capture is closed if one is open. -/
theorem closeCapture_opened (s : Nat) {caps : List Capture} (h : 0 < opened caps) :
    ∃ caps', closeCapture s caps = some caps' ∧ opened caps' = opened caps - 1 ∧
      caps'.length = caps.length := by
  induction caps with
  | nil => exact absurd h (Nat.lt_irrefl 0)
  | cons cap caps ih =>
    by_cases hrest : 0 < opened caps
    · obtain ⟨caps', hclose, hcount, hlen⟩ := ih hrest
      refine ⟨cap :: caps', by rw [closeCapture, hclose], ?_, congrArg (· + 1) hlen⟩
      rw [opened_cons, opened_cons, hcount]
      omega
    · have hzero := Nat.eq_zero_of_not_pos hrest
      rw [opened_cons, hzero] at h
      have hcap : cap.len = .unfinished := by
        by_contra hne
        rw [if_neg hne] at h
        omega
      have hclose : closeCapture s (cap :: caps) =
          some ({ cap with len := .len (s - cap.init) } :: caps) := by
        rw [closeCapture, closeCapture_none s hzero]
        exact if_pos hcap
      refine ⟨_, hclose, ?_, rfl⟩
      rw [opened_cons, opened_cons, hzero, if_pos hcap]
      rfl

theorem firstOf_ok {α β : Type} {f : α → Except String (Option β)} {P : β → Prop} {l : List α}
    (h : ∀ a ∈ l, ∃ o, f a = .ok o ∧ ∀ b ∈ o, P b) : ∃ o, firstOf f l = .ok o ∧ ∀ b ∈ o, P b := by
  induction l with
  | nil => exact ⟨none, rfl, fun b hb => absurd hb (Option.not_mem_none b)⟩
  | cons a l ih =>
    obtain ⟨o, ho, hP⟩ := h a List.mem_cons_self
    cases o with
    | some b => exact ⟨some b, firstOf_cons_some ho, hP⟩
    | none =>
      rw [firstOf_cons_none ho]
      exact ih fun a' ha' => h a' (List.mem_cons_of_mem a ha')

/-- Where a match is found, its captures are closed. -/
theorem matchItems_ok {src : Bytes} (its : List Item) {depth s : Nat} {caps : List Capture}
    (hgroups : Grouped (opened caps) its) (hdepth : its.length ≤ depth)
    (hroom : caps.length + its.length ≤ maxCaptures) :
    ∃ o, matchItems src its depth s caps = .ok o ∧ ∀ r ∈ o, opened r.2 = 0 := by
  induction its generalizing depth s caps with
  | nil =>
    refine ⟨some (s, caps), rfl, fun r hr => ?_⟩
    obtain rfl := Option.mem_some.mp hr
    exact hgroups
  | cons it its ih =>
    rw [List.length_cons] at hdepth hroom
    obtain ⟨depth, rfl⟩ : ∃ d, depth = d + 1 := ⟨depth - 1, by omega⟩
    cases it with
    | openCapture =>
      rw [matchItems_open (by omega)]
      apply ih
      · have hcount : opened (caps ++ [⟨s, .unfinished⟩]) = opened caps + 1 := by
          simp [opened]
        rw [hcount]
        exact hgroups
      · omega
      · rw [List.length_append, List.length_singleton]
        omega
    | closeCapture =>
      obtain ⟨caps', hclose, hcount, hlen⟩ := closeCapture_opened s hgroups.1
      rw [matchItems_close hclose]
      exact ih (hcount ▸ hgroups.2) (by omega) (by omega)
    | single c suffix =>
      apply firstOf_ok
      intro i hi
      split
      · exact ih hgroups (by omega) (by omega)
      · exact ih hgroups (by omega) (by omega)
    | eos =>
      refine ⟨_, rfl, fun r hr => ?_⟩
      split at hr
      · obtain rfl := Option.mem_some.mp hr
        exact hgroups
      · exact absurd hr (Option.not_mem_none r)
    | openPosition => exact absurd hgroups id
    | balance b e => exact absurd hgroups id
    | frontier c => exact absurd hgroups id
    | backref d => exact absurd hgroups id
    | bad msg => exact absurd hgroups id

section Leftmost

variable {src p : Bytes}

theorem matchAt_ok_some {its : List Item} {s s' : Nat} {r : Found} :
    matchAt src its s = .ok (some (s', r)) ↔ matchItems src its 199 s [] = .ok (some r) ∧ s' = s := by
  have heq : matchAt src its s =
      (matchItems src its 199 s []).map (Option.map fun r => (s, r)) := rfl
  rw [heq]
  cases matchItems src its 199 s [] with
  | error msg => simp [Except.map]
  | ok o => cases o <;> simp [Except.map, and_comm, eq_comm]

theorem matchAt_ok_none {its : List Item} {s : Nat} :
    matchAt src its s = .ok none ↔ matchItems src its 199 s [] = .ok none := by
  have heq : matchAt src its s =
      (matchItems src its 199 s []).map (Option.map fun r => (s, r)) := rfl
  rw [heq]
  cases matchItems src its 199 s [] with
  | error msg => simp [Except.map]
  | ok o => cases o <;> simp [Except.map]

theorem matchAt_ok {its : List Item} (hgroups : Grouped 0 its) (hlen : its.length ≤ maxCaptures)
    (s : Nat) : ∃ o, matchAt src its s = .ok o ∧ ∀ m ∈ o, opened m.2.2 = 0 := by
  have hlen' : its.length ≤ 199 := Nat.le_trans hlen (by decide)
  obtain ⟨o, ho, hclosed⟩ := @matchItems_ok src its 199 s [] hgroups hlen' (by simpa using hlen)
  cases o with
  | none => exact ⟨none, matchAt_ok_none.mpr ho, fun m hm => absurd hm (Option.not_mem_none m)⟩
  | some r =>
    refine ⟨some (s, r), matchAt_ok_some.mpr ⟨ho, rfl⟩, fun m hm => ?_⟩
    obtain rfl := Option.mem_some.mp hm
    exact hclosed r rfl

/-- What of a pattern is matched, without the mark that it is for the start. -/
def unanchored (p : Bytes) : Bytes := if p.head? = some 94 then p.tail else p

/-- The search with a pattern of groups comes to an end. -/
theorem search_ok (hgroups : Grouped 0 (items (unanchored p)))
    (hlen : (items (unanchored p)).length ≤ maxCaptures) (i : Nat) :
    ∃ o, search src p i = .ok o ∧ ∀ m ∈ o, opened m.2.2 = 0 := by
  rw [search]
  by_cases hanchor : p.head? = some 94
  · rw [unanchored, if_pos hanchor] at hgroups hlen
    rw [if_pos hanchor]
    exact matchAt_ok hgroups hlen i
  · rw [unanchored, if_neg hanchor] at hgroups hlen
    rw [if_neg hanchor]
    exact firstOf_ok fun s _ => matchAt_ok hgroups hlen s

theorem captureValues_ok {caps : List Capture} (h : opened caps = 0) :
    ∃ vs, captureValues src caps = .ok vs := by
  induction caps with
  | nil => exact ⟨[], rfl⟩
  | cons cap caps ih =>
    rw [opened_cons] at h
    obtain ⟨vs, hvs⟩ := ih (by omega)
    obtain ⟨i, len⟩ := cap
    cases len with
    | unfinished => simp at h
    | position => exact ⟨.pos (i + 1) :: vs, by simp [captureValues, captureValue, hvs, Except.map]⟩
    | len n =>
      exact ⟨.str ((src.drop i).take n) :: vs, by
        simp [captureValues, captureValue, hvs, Except.map]⟩

/-- `string.match` with a pattern of groups raises no error. -/
theorem stringMatch_ok (hgroups : Grouped 0 (items (unanchored p)))
    (hlen : (items (unanchored p)).length ≤ maxCaptures) : ∃ o, stringMatch src p = .ok o := by
  obtain ⟨o, ho, hclosed⟩ := @search_ok src p hgroups hlen 0
  rw [stringMatch, ho]
  cases o with
  | none => exact ⟨none, rfl⟩
  | some m =>
    obtain ⟨s, e, caps⟩ := m
    obtain ⟨vs, hvs⟩ := @captureValues_ok src caps (hclosed _ rfl)
    cases caps with
    | nil => exact ⟨_, rfl⟩
    | cons cap caps => exact ⟨some vs, congrArg (Except.map some) hvs⟩

/-- Where a match is found, it is the first. -/
theorem search_first (hanchor : p.head? ≠ some 94) {i s : Nat} {r : Found}
    (h : search src p i = .ok (some (s, r))) :
    i ≤ s ∧ matchItems src (items p) 199 s [] = .ok (some r) ∧
      ∀ k, i ≤ k → k < s → matchItems src (items p) 199 k [] = .ok none := by
  rw [search, if_neg hanchor] at h
  obtain ⟨a, hle, -, hf, hfirst⟩ := firstOf_range h
  obtain ⟨hmatch, rfl⟩ := matchAt_ok_some.mp hf
  exact ⟨hle, hmatch, fun k hik hks => matchAt_ok_none.mp (hfirst k hik hks)⟩

theorem search_none (hanchor : p.head? ≠ some 94) {i : Nat} (h : search src p i = .ok none)
    {k : Nat} (hik : i ≤ k) (hk : k ≤ src.length) :
    matchItems src (items p) 199 k [] = .ok none := by
  rw [search, if_neg hanchor] at h
  exact matchAt_ok_none.mp (firstOf_none h k (List.mem_range'_1.mpr ⟨hik, by omega⟩))

/-- What the items of a pattern find, when they match where a text of a kind begins and
nowhere else. -/
theorem search_kind {p : Bytes} {kind : Nat → Prop} (hanchor : p.head? ≠ some 94)
    (hgroups : Grouped 0 (items p)) (hlen : (items p).length ≤ maxCaptures)
    (hfound : ∀ s, kind s → ∃ r, Leads src (items p) s [] r)
    (hkind : ∀ s r, matchItems src (items p) 199 s [] = .ok (some r) → kind s)
    (hbound : ∀ s, kind s → s ≤ src.length) :
    (search src p 0 = .ok none ∧ ∀ s, ¬kind s) ∨
      ∃ s r, search src p 0 = .ok (some (s, r)) ∧ Leads src (items p) s [] r ∧ kind s ∧
        ∀ k, k < s → ¬kind k := by
  have hbody : unanchored p = p := if_neg hanchor
  obtain ⟨o, ho, -⟩ := @search_ok src p (hbody.symm ▸ hgroups) (hbody.symm ▸ hlen) 0
  cases o with
  | none =>
    refine Or.inl ⟨ho, fun s hs => ?_⟩
    obtain ⟨r, hr⟩ := hfound s hs
    have hnone := search_none hanchor ho (Nat.zero_le s) (hbound s hs)
    rw [hr 199 (Nat.le_trans hlen (by decide))] at hnone
    cases hnone
  | some m =>
    obtain ⟨s, r⟩ := m
    obtain ⟨-, hmatch, hfirst⟩ := search_first hanchor ho
    have hs := hkind s r hmatch
    obtain ⟨r', hr'⟩ := hfound s hs
    obtain rfl : r' = r := by
      rw [hr' 199 (Nat.le_trans hlen (by decide))] at hmatch
      exact Option.some.inj (Except.ok.inj hmatch)
    refine Or.inr ⟨s, r', ho, hr', hs, fun k hk hkind' => ?_⟩
    obtain ⟨r'', hr''⟩ := hfound k hkind'
    have hnone := hfirst k (Nat.zero_le k) hk
    rw [hr'' 199 (Nat.le_trans hlen (by decide))] at hnone
    cases hnone

theorem captureValue_len {s : Nat} {l text : Bytes} {n : Nat} (h : src.drop s = l ++ text)
    (hn : l.length = n) : captureValue src ⟨s, .len n⟩ = .ok (.str l) := by
  rw [captureValue]
  simp only [h, ← hn, List.take_left]

end Leftmost

/-! ## Digits -/

theorem addDigit_digit {b : UInt8} (hb : isDigit b = true) (n : Nat) :
    ∃ m, LuaText.addDigit 10 n b = some m := by
  have hlow : 48 ≤ b ∧ b ≤ 57 := by simpa [isDigit] using hb
  have hvalue : LuaText.digitValue b = some (b.toNat - 48) := if_pos hb
  have hlt : b.toNat - 48 < 10 := by
    have hle := UInt8.le_iff_toNat_le.mp hlow.2
    change b.toNat ≤ 57 at hle
    omega
  exact ⟨10 * n + (b.toNat - 48), by rw [LuaText.addDigit, hvalue, Option.bind_some, if_pos hlt]⟩

theorem foldlM_addDigit {l : Bytes} (hl : ∀ b ∈ l, isDigit b = true) (n : Nat) :
    ∃ m, l.foldlM (LuaText.addDigit 10) n = some m := by
  induction l generalizing n with
  | nil => exact ⟨n, rfl⟩
  | cons b l ih =>
    obtain ⟨hb, hl⟩ := List.forall_mem_cons.mp hl
    obtain ⟨m, hm⟩ := addDigit_digit hb n
    obtain ⟨k, hk⟩ := ih hl m
    refine ⟨k, ?_⟩
    rw [List.foldlM_cons, hm]
    exact hk

end LuaPattern
