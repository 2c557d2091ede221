import Chdkptp.LbufAccess
import Chdkptp.LbufValues

/-!
# Parts of Lua buffers

`buf:string`, `buf:sub` and `buf:byte`, with the functions of Lua's string library that
they follow. A buffer takes an index as an `int` and its length is `unsigned`; Lua knows
neither bound.
-/

namespace LbufIndex

open ByteMemory Lbuf LbufValues TracedRead TracedRead.Traced

/-! ## Lua's strings -/

/-- A position in a string; a negative one counts from the end. -/
def posrelat (pos : Int) (len : Nat) : Nat :=
  if 0 ≤ pos then pos.toNat else if len < (-pos).toNat then 0 else len - (-pos).toNat + 1

/-- The bytes from one position to another. -/
def part (s : List UInt8) (start stop : Nat) : List UInt8 := (s.take stop).drop (start - 1)

/-- `string.sub`; the start has no default. -/
def strSub (s : List UInt8) (i : Int) (j : Option Int) : List UInt8 :=
  part s (posrelat i s.length) (posrelat (j.getD (-1)) s.length)

/-- `string.byte`; it raises an error when the bytes do not fit the stack. -/
def strByte (stack : Stack) (s : List UInt8) (i j : Option Int) : Option (List UInt8) :=
  let posi := posrelat (i.getD 1) s.length
  let pose := posrelat (j.getD posi) s.length
  let bytes := part s posi pose
  if bytes.length ≤ stack.free then some bytes else none

/-! ## Buffers -/

inductive IndexError where
  | mallocFailed
  | stackSpace
  deriving DecidableEq, Repr

/-- `get_index_arg` -/
def getIndexArg (len : Nat) (arg : Option Int) (default : Int) : Int :=
  let val := optInt arg default
  let val := if val < 0 then ((len : Int) + val + 1).bmod (2 ^ 32) else val
  if val < 0 then 0 else val

/-- What the three functions begin with: where the bytes start and end, unless there are none.
The default for the end may be the start. -/
def selected (len : Nat) (i j : Option Int) (default : Int → Int) : Option (Int × Int) :=
  let start := getIndexArg len i 1
  let stop := getIndexArg len j (default start)
  let stop := if (len : Int) < stop then (len : Int) else stop
  if len = 0 ∨ stop < start then none
  else some (if 0 < start then start - 1 else start, stop)

def bytesFrom (start count : Int) : Traced IndexError (List UInt8) :=
  each (List.range count.toNat) fun k => byteAt (start + k)

section Methods

variable (buf : LBuf) (i j : Option Int)

def lbufString : Traced IndexError (List UInt8) :=
  match selected buf.len.toNat i j fun _ => buf.len.toNat with
  | none => return []
  | some (start, stop) => bytesFrom start (stop - start)

/-- `malloc` says whether there is memory. -/
def lbufSub (malloc : Nat → Bool) : Traced IndexError LBuf :=
  match selected buf.len.toNat i j fun _ => buf.len.toNat with
  | none => return ⟨0, fun _ => 0⟩
  | some (start, stop) =>
    if malloc (stop - start).toNat then do
      let data ← bytesFrom start (stop - start)
      return LBuf.ofList data
    else throw .mallocFailed

/-- The results are numbers or a nil. -/
def lbufByte (stack : Stack) : Traced IndexError (List (Option UInt8)) :=
  match selected buf.len.toNat i j fun start => start with
  | none => return [none]
  | some (start, stop) =>
    let count := stop - start
    if stack.free < count then throw .stackSpace
    else do
      let bytes ← bytesFrom start count
      return bytes.map some

end Methods

/-! ## Positions -/

/-- The position that an index of 32 bits leads to; it is an `int`. -/
def cutPos (pos : Int) (len : Nat) : Nat :=
  let p := posrelat (pos.bmod (2 ^ 32)) len
  if p < 2 ^ 31 then p else 0

theorem getIndexArg_eq {len : Nat} (hlen : len < 2 ^ 32) (arg : Option Int) (default : Int) :
    getIndexArg len arg default = cutPos (arg.getD default) len := by
  unfold getIndexArg cutPos posrelat optInt
  generalize arg.getD default = pos
  have hlow := Int.le_bmod (x := pos) (m := 2 ^ 32) (by decide)
  have hhigh := Int.bmod_lt (x := pos) (m := 2 ^ 32) (by decide)
  generalize pos.bmod (2 ^ 32) = val at hlow hhigh ⊢
  dsimp only [Int.bmod]
  split_ifs <;> omega

theorem cutPos_lt (pos : Int) (len : Nat) : cutPos pos len < 2 ^ 31 := by
  unfold cutPos
  dsimp only
  split_ifs <;> omega

/-- A position is cut to itself. -/
theorem cutPos_natCast {n : Nat} (h : n < 2 ^ 31) (len : Nat) : cutPos n len = n := by
  have hcut : (n : Int).bmod (2 ^ 32) = n := Int.bmod_eq_of_le (by omega) (by omega)
  have hpos : posrelat n len = n := by
    unfold posrelat
    rw [if_pos (by omega), Int.toNat_natCast]
  unfold cutPos
  rw [hcut, hpos, if_pos h]

theorem selected_eq {len : Nat} (hlen : len < 2 ^ 32) (i j : Option Int) (default : Int → Int)
    {a b : Nat} (ha : cutPos (i.getD 1) len = a) (hb : cutPos (j.getD (default a)) len = b) :
    selected len i j default =
      if len = 0 ∨ min b len < a then none
      else some (((a - 1 : Nat) : Int), ((min b len : Nat) : Int)) := by
  have hstop : (if (len : Int) < b then (len : Int) else b) = (min b len : Nat) := by
    split_ifs <;> omega
  have hstart : (if (0 : Int) < a then (a : Int) - 1 else a) = (a - 1 : Nat) := by
    split_ifs <;> omega
  unfold selected
  rw [getIndexArg_eq hlen, ha]
  dsimp only
  rw [getIndexArg_eq hlen, hb, hstop, hstart]
  by_cases hnone : len = 0 ∨ min b len < a
  · rw [if_pos hnone, if_pos (by omega)]
  · rw [if_neg hnone, if_neg (by omega)]

/-! ## What is returned -/

theorem bytesFrom_apply (buf : LBuf) (start count : Nat) :
    bytesFrom start count (contentsAt buf) =
      (.ok (slice buf.bytes start count), (List.range count).map fun k : Nat => (start : Int) + k) := by
  have hbyte : ∀ k ∈ List.range count,
      (byteAt ((start : Int) + k) : Traced IndexError UInt8) (contentsAt buf) =
        (.ok (buf.bytes (start + k)), [(start : Int) + k]) := fun k _ => rfl
  have hbytes := each_eq (fun k : Nat => buf.bytes (start + k)) (fun k => [(start : Int) + k]) _ hbyte
  unfold bytesFrom
  rw [Int.toNat_natCast, hbytes]
  simp [slice, List.map_eq_flatMap]

theorem part_slice (m : Memory) (len start stop : Nat) :
    part (slice m 0 len) start stop = slice m (start - 1) (min stop len - (start - 1)) := by
  apply List.ext_getElem
  · simp [part]
  · intro k hk hk'
    simp [part, slice]

theorem part_length (s : List UInt8) (start stop : Nat) :
    (part s start stop).length = min stop s.length - (start - 1) := by
  simp [part]

/-- The offsets that are read. -/
def partReads (len start stop : Nat) : List Int :=
  (List.range (min stop len - (start - 1))).map fun k : Nat => ((start - 1 : Nat) : Int) + k

theorem partReads_inside (len start stop : Nat) : Inside 0 len (partReads len start stop) := by
  intro o ho
  obtain ⟨k, hk, rfl⟩ := List.mem_map.mp ho
  have hk := List.mem_range.mp hk
  omega

section Apply

variable {buf : LBuf} {i j : Option Int} {a b : Nat}

theorem lbufString_apply (ha : cutPos (i.getD 1) buf.len.toNat = a)
    (hb : cutPos (j.getD buf.len.toNat) buf.len.toNat = b) :
    lbufString buf i j (contentsAt buf) =
      (.ok (part buf.contents a b), partReads buf.len.toNat a b) := by
  have hselected := selected_eq buf.len.toNat_lt i j (fun _ => buf.len.toNat) ha hb
  unfold lbufString LBuf.contents partReads
  rw [hselected, part_slice]
  split_ifs with hnone
  · have hcount : min b buf.len.toNat - (a - 1) = 0 := by omega
    rw [hcount]
    rfl
  · have hcount : ((min b buf.len.toNat : Nat) : Int) - (a - 1 : Nat) =
        (min b buf.len.toNat - (a - 1) : Nat) := by omega
    dsimp only
    rw [hcount, bytesFrom_apply]

theorem lbufSub_apply {malloc : Nat → Bool} (hmalloc : ∀ n, malloc n = true)
    (ha : cutPos (i.getD 1) buf.len.toNat = a)
    (hb : cutPos (j.getD buf.len.toNat) buf.len.toNat = b) :
    lbufSub buf i j malloc (contentsAt buf) =
      (.ok (LBuf.ofList (part buf.contents a b)), partReads buf.len.toNat a b) := by
  have hselected := selected_eq buf.len.toNat_lt i j (fun _ => buf.len.toNat) ha hb
  unfold lbufSub LBuf.contents partReads
  rw [hselected, part_slice]
  split_ifs with hnone
  · have hcount : min b buf.len.toNat - (a - 1) = 0 := by omega
    rw [hcount]
    rfl
  · have hcount : ((min b buf.len.toNat : Nat) : Int) - (a - 1 : Nat) =
        (min b buf.len.toNat - (a - 1) : Nat) := by omega
    dsimp only
    rw [hcount, hmalloc, if_pos rfl, bind_ok (bytesFrom_apply buf _ _)]
    simp

theorem lbufByte_apply {stack : Stack} (ha : cutPos (i.getD 1) buf.len.toNat = a)
    (hb : cutPos (j.getD a) buf.len.toNat = b) :
    lbufByte buf i j stack (contentsAt buf) =
      if buf.len.toNat = 0 ∨ min b buf.len.toNat < a then (.ok [none], [])
      else if (part buf.contents a b).length ≤ stack.free then
        (.ok ((part buf.contents a b).map some), partReads buf.len.toNat a b)
      else (.error .stackSpace, []) := by
  have hselected := selected_eq buf.len.toNat_lt i j (fun start => start) ha hb
  unfold lbufByte LBuf.contents partReads
  rw [hselected, part_slice, slice_length]
  split_ifs with hnone hroom
  · rfl
  · have hcount : ((min b buf.len.toNat : Nat) : Int) - (a - 1 : Nat) =
        (min b buf.len.toNat - (a - 1) : Nat) := by omega
    dsimp only
    rw [hcount, if_neg (by omega), bind_ok (bytesFrom_apply buf _ _)]
    simp
  · dsimp only
    rw [if_pos (by omega)]
    rfl

end Apply

/-! ## Which bytes -/

/-- Where the bytes between two positions begin and end, unless there are none. -/
def range (len start stop : Nat) : Option (Nat × Nat) :=
  if max start 1 ≤ min stop len then some (start - 1, min stop len) else none

theorem range_eq_none {len start stop : Nat} :
    range len start stop = none ↔ min stop len - (start - 1) = 0 := by
  unfold range
  split_ifs with h
  · exact iff_of_false (fun h => by cases h) (by omega)
  · exact iff_of_true rfl (by omega)

theorem range_eq_some {len start stop : Nat} (h : min stop len - (start - 1) ≠ 0) :
    range len start stop = some (start - 1, min stop len) := if_pos (by omega)

theorem part_min (s : List UInt8) (start stop : Nat) :
    part s start stop = (s.take (min stop s.length)).drop (start - 1) := by
  rw [part, ← List.take_eq_take_min]

/-- The same range has the same bytes. -/
theorem part_eq_of_range {s : List UInt8} {l p q a b : Nat} (hl : l ≤ s.length)
    (h : range s.length p q = range l a b) : part s p q = part (s.take l) a b := by
  have hlength : (s.take l).length = l := List.length_take_of_le hl
  by_cases hnone : min q s.length - (p - 1) = 0
  · have hnone' : min b l - (a - 1) = 0 := by
      rw [← range_eq_none, ← h, range_eq_none]
      exact hnone
    have hempty := List.length_eq_zero_iff.mp ((part_length s p q).trans hnone)
    have hlength' := part_length (s.take l) a b
    rw [hlength, hnone'] at hlength'
    rw [hempty, List.length_eq_zero_iff.mp hlength']
  · have hnone' : min b l - (a - 1) ≠ 0 := by
      rw [Ne, ← range_eq_none, ← h, range_eq_none]
      exact hnone
    rw [range_eq_some hnone, range_eq_some hnone'] at h
    obtain ⟨hstart, hstop⟩ := Prod.mk.inj (Option.some.inj h)
    have hmin : min (min b l) l = min b l := by omega
    rw [part_min, part_min, hlength, hstart, hstop, List.take_take, hmin]

/-- A string whose only byte that is not 0 stands at one place. -/
def marked (len place : Nat) : List UInt8 := (List.range len).map fun k => if k = place then 1 else 0

/-- Different ranges have different bytes in some string. -/
theorem range_eq_of_parts {n l p q a b : Nat} (hl : l ≤ n)
    (h : ∀ s : List UInt8, s.length = n → part s p q = part (s.take l) a b) :
    range n p q = range l a b := by
  have hmarked : (marked n (p - 1)).length = n := by simp [marked]
  have hpart := h _ hmarked
  have hlength := congrArg List.length hpart
  rw [part_length, part_length, hmarked, List.length_take_of_le (by omega)] at hlength
  by_cases hnone : min q n - (p - 1) = 0
  · rw [range_eq_none.mpr hnone, range_eq_none.mpr (by omega)]
  · have hhead := congrArg List.head? hpart
    have hstart : a - 1 = p - 1 := by
      unfold part marked at hhead
      rw [List.head?_drop, List.head?_drop, List.getElem?_take_of_lt (by omega),
        List.getElem?_take_of_lt (by omega), List.getElem?_take_of_lt (by omega)] at hhead
      rw [List.getElem?_map, List.getElem?_map, List.getElem?_range (by omega),
        List.getElem?_range (by omega)] at hhead
      by_contra hne
      simp [hne] at hhead
    rw [range_eq_some hnone, range_eq_some (by omega)]
    congr 2
    · omega
    · omega

/-- In a string of less than `2 ^ 31` bytes the position of an `int` is kept. -/
theorem cutPos_int {n : Nat} (hn : n < 2 ^ 31) {pos : Int} (hlow : -2 ^ 31 ≤ pos)
    (hhigh : pos < 2 ^ 31) : cutPos pos n = posrelat pos n := by
  have hcut : pos.bmod (2 ^ 32) = pos := Int.bmod_eq_of_le (by omega) (by omega)
  unfold cutPos posrelat
  rw [hcut]
  dsimp only
  split_ifs <;> omega

/-- Any other position does not lead into the string. -/
theorem cutPos_short {n : Nat} (hn : n < 2 ^ 31) (pos : Int) :
    cutPos pos n = posrelat pos n ∨ posrelat pos n = 0 ∨ n < posrelat pos n := by
  by_cases hfits : -2 ^ 31 ≤ pos ∧ pos < 2 ^ 31
  · exact Or.inl (cutPos_int hn hfits.1 hfits.2)
  · right
    unfold posrelat
    split_ifs <;> omega

/-- There the number of bytes tells which bytes they are. -/
theorem range_eq_of_length {n p q a b : Nat} (ha : a = p ∨ p = 0 ∨ n < p)
    (hb : b = q ∨ q = 0 ∨ n < q) (h : min q n - (p - 1) = min b n - (a - 1)) :
    range n p q = range n a b := by
  by_cases hnone : min q n - (p - 1) = 0
  · rw [range_eq_none.mpr hnone, range_eq_none.mpr (by omega)]
  · rw [range_eq_some hnone, range_eq_some (by omega)]
    congr 2
    · omega
    · omega

/-! ## Strings and buffers -/

theorem ofList_len (s : List UInt8) : (LBuf.ofList s).len.toNat = s.length % 2 ^ 32 :=
  UInt32.toNat_ofNat'

theorem ofList_contents (s : List UInt8) :
    (LBuf.ofList s).contents = s.take (s.length % 2 ^ 32) := by
  have hle : s.length % 2 ^ 32 ≤ s.length := Nat.mod_le _ _
  unfold LBuf.contents
  rw [ofList_len]
  apply List.ext_getElem
  · rw [slice_length, List.length_take_of_le hle]
  · intro k hk hk'
    rw [slice_length] at hk
    simp [slice, LBuf.ofList, show k < s.length by omega]

/-- The results of `buf:byte` are the bytes, but for a nil in place of none; an error
stands for an error. -/
def SameNumbers : Except IndexError (List (Option UInt8)) → Option (List UInt8) → Prop
  | .ok vals, some bytes => vals = bytes.map some ∨ bytes = [] ∧ vals = [none]
  | .error _, none => True
  | _, _ => False

/-- The methods of a buffer made from a string do what the string functions do, with a start
of 1 where there is none, and nothing outside the buffer is read. -/
structure Agrees (stack : Stack) (malloc : Nat → Bool) (s : List UInt8) (i j : Option Int) :
    Prop where
  string : (lbufString (LBuf.ofList s) i j (contentsAt (LBuf.ofList s))).1 =
    .ok (strSub s (i.getD 1) j)
  sub : ∃ b, (lbufSub (LBuf.ofList s) i j malloc (contentsAt (LBuf.ofList s))).1 = .ok b ∧
    (lbufString b none none (contentsAt b)).1 = .ok (strSub s (i.getD 1) j)
  byte : SameNumbers (lbufByte (LBuf.ofList s) i j stack (contentsAt (LBuf.ofList s))).1
    (strByte stack s i j)
  inside : ∀ reads ∈ [(lbufString (LBuf.ofList s) i j (contentsAt (LBuf.ofList s))).2,
      (lbufSub (LBuf.ofList s) i j malloc (contentsAt (LBuf.ofList s))).2,
      (lbufByte (LBuf.ofList s) i j stack (contentsAt (LBuf.ofList s))).2],
    Inside 0 (LBuf.ofList s).len.toNat reads

/-- The length and the indexes, cut to 32 bits, select what they select in full. Positions
from `2 ^ 31` on count as 0. -/
structure FitsInt (len : Nat) (i j : Option Int) : Prop where
  parts : range len (posrelat (i.getD 1) len) (posrelat (j.getD (-1)) len) =
    range (len % 2 ^ 32) (cutPos (i.getD 1) (len % 2 ^ 32))
      (cutPos (j.getD (len % 2 ^ 32 : Nat)) (len % 2 ^ 32))
  numbers : range len (posrelat (i.getD 1) len)
      (posrelat (j.getD (posrelat (i.getD 1) len)) len) =
    range (len % 2 ^ 32) (cutPos (i.getD 1) (len % 2 ^ 32))
      (cutPos (j.getD (cutPos (i.getD 1) (len % 2 ^ 32))) (len % 2 ^ 32))

/-- A buffer is returned as a string in full. -/
theorem lbufString_all {l : List UInt8} (h : l.length < 2 ^ 31) :
    (lbufString (LBuf.ofList l) none none (contentsAt (LBuf.ofList l))).1 = .ok l := by
  have hlen : (LBuf.ofList l).len.toNat = l.length := by
    rw [ofList_len, Nat.mod_eq_of_lt (by omega)]
  have hstart : cutPos (Option.getD none 1) (LBuf.ofList l).len.toNat = 1 :=
    cutPos_natCast (by decide) _
  have hstop : cutPos (Option.getD none ((LBuf.ofList l).len.toNat : Int))
      (LBuf.ofList l).len.toNat = l.length := by
    rw [hlen]
    exact cutPos_natCast h _
  rw [lbufString_apply hstart hstop, ofList_contents, Nat.mod_eq_of_lt (by omega)]
  simp [part]

section Agreement

variable (stack : Stack) {malloc : Nat → Bool} {s : List UInt8} {i j : Option Int} {a b : Nat}
  (ha : cutPos (i.getD 1) (s.length % 2 ^ 32) = a)

include ha

theorem string_ofList (hb : cutPos (j.getD (s.length % 2 ^ 32 : Nat)) (s.length % 2 ^ 32) = b) :
    lbufString (LBuf.ofList s) i j (contentsAt (LBuf.ofList s)) =
      (.ok (part (s.take (s.length % 2 ^ 32)) a b), partReads (s.length % 2 ^ 32) a b) := by
  rw [← ofList_len] at ha hb ⊢
  rw [lbufString_apply ha hb, ofList_contents, ofList_len]

theorem sub_ofList (hmalloc : ∀ n, malloc n = true)
    (hb : cutPos (j.getD (s.length % 2 ^ 32 : Nat)) (s.length % 2 ^ 32) = b) :
    lbufSub (LBuf.ofList s) i j malloc (contentsAt (LBuf.ofList s)) =
      (.ok (LBuf.ofList (part (s.take (s.length % 2 ^ 32)) a b)),
        partReads (s.length % 2 ^ 32) a b) := by
  rw [← ofList_len] at ha hb ⊢
  rw [lbufSub_apply hmalloc ha hb, ofList_contents, ofList_len]

/-- The results of `buf:byte` are those of its own range. -/
theorem byte_ofList (hb : cutPos (j.getD a) (s.length % 2 ^ 32) = b) :
    SameNumbers (lbufByte (LBuf.ofList s) i j stack (contentsAt (LBuf.ofList s))).1
      (if (part (s.take (s.length % 2 ^ 32)) a b).length ≤ stack.free then
        some (part (s.take (s.length % 2 ^ 32)) a b) else none) := by
  have hle : s.length % 2 ^ 32 ≤ s.length := Nat.mod_le _ _
  have hlength := part_length (s.take (s.length % 2 ^ 32)) a b
  rw [List.length_take_of_le hle] at hlength
  rw [← ofList_len] at ha hb
  rw [lbufByte_apply ha hb, ofList_contents, ofList_len]
  by_cases hnone : s.length % 2 ^ 32 = 0 ∨ min b (s.length % 2 ^ 32) < a
  · have hzero : min b (s.length % 2 ^ 32) - (a - 1) = 0 := by omega
    rw [hzero] at hlength
    rw [if_pos hnone, if_pos (by omega), List.length_eq_zero_iff.mp hlength]
    exact Or.inr ⟨rfl, rfl⟩
  · rw [if_neg hnone]
    split_ifs with hroom
    · exact Or.inl rfl
    · trivial

theorem byte_inside (hb : cutPos (j.getD a) (s.length % 2 ^ 32) = b) :
    Inside 0 (s.length % 2 ^ 32 : Nat)
      (lbufByte (LBuf.ofList s) i j stack (contentsAt (LBuf.ofList s))).2 := by
  rw [← ofList_len] at ha hb ⊢
  rw [lbufByte_apply ha hb]
  split_ifs
  · exact inside_nil _ _
  · exact partReads_inside _ _ _
  · exact inside_nil _ _

end Agreement

theorem partLength_lt (l : List UInt8) (a : Nat) (pos : Int) (len : Nat) :
    (part l a (cutPos pos len)).length < 2 ^ 31 := by
  have hlt := cutPos_lt pos len
  rw [part_length]
  omega

/-- Results that are right for two lists of bytes: they are the same, or neither fits. -/
theorem sameNumbers_unique {free : Nat} {vals : Except IndexError (List (Option UInt8))}
    {l l' : List UInt8} (h : SameNumbers vals (if l.length ≤ free then some l else none))
    (h' : SameNumbers vals (if l'.length ≤ free then some l' else none)) :
    l = l' ∨ free < l.length ∧ free < l'.length := by
  cases vals with
  | error e =>
    split_ifs at h h' with hroom hroom'
    · exact h.elim
    · exact h.elim
    · exact h'.elim
    · exact Or.inr ⟨by omega, by omega⟩
  | ok vals =>
    split_ifs at h h' with hroom hroom'
    · left
      rcases h with rfl | ⟨rfl, rfl⟩
      · rcases h' with hsame | ⟨rfl, hnil⟩
        · exact List.map_injective_iff.mpr (Option.some_injective _) hsame
        · cases l with
          | nil => rfl
          | cons b l => cases hnil
      · rcases h' with hsame | ⟨rfl, -⟩
        · cases l' with
          | nil => rfl
          | cons b l' => cases hsame
        · rfl
    · exact h'.elim
    · exact h.elim
    · exact h.elim

section Agreement

variable {stack : Stack} {malloc : Nat → Bool} {s : List UInt8} {i j : Option Int}

theorem agrees_of_fits (hmalloc : ∀ n, malloc n = true) (h : FitsInt s.length i j) :
    Agrees stack malloc s i j := by
  have hle : s.length % 2 ^ 32 ≤ s.length := Nat.mod_le _ _
  have hparts := part_eq_of_range hle h.parts
  have hnumbers := part_eq_of_range hle h.numbers
  have hstring := string_ofList (s := s) (i := i) (j := j) rfl rfl
  have hsub := sub_ofList (s := s) (i := i) (j := j) rfl hmalloc rfl
  have hbyte := byte_ofList stack (s := s) (i := i) (j := j) rfl rfl
  refine ⟨?_, ⟨_, congrArg Prod.fst hsub, ?_⟩, ?_, ?_⟩
  · rw [hstring, ← hparts]
    rfl
  · rw [lbufString_all (partLength_lt _ _ _ _), ← hparts]
    rfl
  · rw [← hnumbers] at hbyte
    exact hbyte
  · rw [hstring, hsub, ofList_len]
    intro reads hreads
    simp only [List.mem_cons, List.not_mem_nil, or_false] at hreads
    rcases hreads with rfl | rfl | rfl
    · exact partReads_inside _ _ _
    · exact partReads_inside _ _ _
    · exact byte_inside stack rfl rfl

/-- A position is its own position. -/
theorem posrelat_natCast (n len : Nat) : posrelat n len = n := by
  unfold posrelat
  rw [if_pos (by omega), Int.toNat_natCast]

theorem posrelat_last {len : Nat} (h : 0 < len) : posrelat (-1) len = len := by
  unfold posrelat
  rw [if_neg (by decide), if_neg (by simp; omega)]
  simp
  omega

/-- Ranges of one byte that begin where longer ones do. -/
theorem range_single {n l p a c : Nat} (hp : min p n - (p - 1) ≠ 0) (ha : min a l - (a - 1) ≠ 0)
    (h : range n p n = range l a c) : range n p p = range l a a := by
  rw [range_eq_some (by omega)] at h
  have hstart : p - 1 = a - 1 := by
    unfold range at h
    split_ifs at h
    exact (Prod.mk.inj (Option.some.inj h)).1
  rw [range_eq_some hp, range_eq_some ha]
  congr 2
  omega

/-- Where the strings agree, so do the ranges of the numbers. -/
theorem fits_of_agrees (hparts : range s.length (posrelat (i.getD 1) s.length)
      (posrelat (j.getD (-1)) s.length) =
    range (s.length % 2 ^ 32) (cutPos (i.getD 1) (s.length % 2 ^ 32))
      (cutPos (j.getD (s.length % 2 ^ 32 : Nat)) (s.length % 2 ^ 32)))
    (h : Agrees stack malloc s i j) : FitsInt s.length i j := by
  refine ⟨hparts, ?_⟩
  cases j with
  | some j => exact hparts
  | none =>
    have hle : s.length % 2 ^ 32 ≤ s.length := Nat.mod_le _ _
    have hbyte := byte_ofList stack (s := s) (i := i) (j := none) rfl rfl
    have hunique := sameNumbers_unique hbyte h.byte
    have hcut : cutPos (cutPos (i.getD 1) (s.length % 2 ^ 32) : Nat) (s.length % 2 ^ 32) =
        cutPos (i.getD 1) (s.length % 2 ^ 32) := cutPos_natCast (cutPos_lt _ _) _
    rw [Option.getD_none, Option.getD_none] at hunique hparts ⊢
    rw [hcut, posrelat_natCast] at hunique ⊢
    generalize posrelat (i.getD 1) s.length = p at hunique hparts ⊢
    generalize cutPos (i.getD 1) (s.length % 2 ^ 32) = a at hunique hparts ⊢
    have hlength : min a (s.length % 2 ^ 32) - (a - 1) = 0 ↔ min p s.length - (p - 1) = 0 := by
      have hlist := part_length s p p
      have hlist' := part_length (s.take (s.length % 2 ^ 32)) a a
      rw [List.length_take_of_le hle] at hlist'
      rcases hunique with hsame | hmany
      · rw [← hlist, ← hlist', hsame]
      · omega
    by_cases hnone : min p s.length - (p - 1) = 0
    · rw [range_eq_none.mpr hnone, range_eq_none.mpr (hlength.mpr hnone)]
    · rw [posrelat_last (by omega)] at hparts
      exact range_single hnone (fun hzero => hnone (hlength.mp hzero)) hparts

/-- The parts of all strings of a length agree where the ranges do, and those of one string,
if it is short. -/
theorem parts_of_agrees (hparts : (∀ s' : List UInt8, s'.length = s.length → Agrees stack malloc s' i j) ∨
      s.length < 2 ^ 31 ∧ Agrees stack malloc s i j) :
    range s.length (posrelat (i.getD 1) s.length) (posrelat (j.getD (-1)) s.length) =
      range (s.length % 2 ^ 32) (cutPos (i.getD 1) (s.length % 2 ^ 32))
        (cutPos (j.getD (s.length % 2 ^ 32 : Nat)) (s.length % 2 ^ 32)) := by
  have hle : s.length % 2 ^ 32 ≤ s.length := Nat.mod_le _ _
  rcases hparts with hall | ⟨hshort, h⟩
  · refine range_eq_of_parts hle fun s' hs' => ?_
    have hstring := (hall s' hs').string
    rw [string_ofList (s := s') (i := i) (j := j) rfl rfl, hs'] at hstring
    have hpart := Except.ok.inj hstring
    unfold strSub at hpart
    rw [hs'] at hpart
    exact hpart.symm
  · have hlen : s.length % 2 ^ 32 = s.length := Nat.mod_eq_of_lt (by omega)
    have hstring := h.string
    rw [string_ofList (s := s) (i := i) (j := j) rfl rfl, hlen] at hstring
    have hlength := congrArg List.length (Except.ok.inj hstring)
    unfold strSub at hlength
    rw [part_length, part_length, List.take_length] at hlength
    rw [hlen]
    refine range_eq_of_length (cutPos_short hshort _) ?_ hlength.symm
    cases j with
    | some j => exact cutPos_short hshort j
    | none =>
      rw [Option.getD_none, Option.getD_none, cutPos_natCast hshort]
      unfold posrelat
      split_ifs <;> omega

end Agreement

/-- Indexes that fit an `int` are right in a string that does. -/
theorem fits_short {n : Nat} (hn : n < 2 ^ 31) {i j : Option Int}
    (hi : ∀ pos ∈ i, -2 ^ 31 ≤ pos ∧ pos < 2 ^ 31)
    (hj : ∀ pos ∈ j, -2 ^ 31 ≤ pos ∧ pos < 2 ^ 31) : FitsInt n i j := by
  have hlen : n % 2 ^ 32 = n := Nat.mod_eq_of_lt (by omega)
  have hstart : cutPos (i.getD 1) n = posrelat (i.getD 1) n := by
    cases i with
    | none => exact cutPos_int hn (by decide) (by decide)
    | some pos => exact cutPos_int hn (hi pos rfl).1 (hi pos rfl).2
  constructor
  · rw [hlen, hstart]
    cases j with
    | none =>
      rw [Option.getD_none, Option.getD_none, cutPos_natCast hn]
      rcases Nat.eq_zero_or_pos n with rfl | hpos
      · unfold range
        rw [if_neg (by omega), if_neg (by omega)]
      · rw [posrelat_last hpos]
    | some pos =>
      rw [Option.getD_some, Option.getD_some, cutPos_int hn (hj pos rfl).1 (hj pos rfl).2]
  · rw [hlen, hstart]
    cases j with
    | none =>
      have hcut := cutPos_lt (i.getD 1) n
      rw [hstart] at hcut
      rw [Option.getD_none, cutPos_natCast hcut, posrelat_natCast]
    | some pos =>
      rw [Option.getD_some, cutPos_int hn (hj pos rfl).1 (hj pos rfl).2]

/-- For every length and all indexes: the methods of a buffer follow the string functions on
every string of that length, if and only if cutting the length and the indexes to 32 bits
does not change what they select. In a string of less than `2 ^ 31` bytes this holds of each
string by itself. -/
theorem index_agrees_iff (stack : Stack) (malloc : Nat → Bool) (hmalloc : ∀ n, malloc n = true)
    (s : List UInt8) (i j : Option Int) :
    ((∀ s' : List UInt8, s'.length = s.length → Agrees stack malloc s' i j) ↔
        FitsInt s.length i j) ∧
      (s.length < 2 ^ 31 → (Agrees stack malloc s i j ↔ FitsInt s.length i j)) := by
  refine ⟨⟨fun h => ?_, fun h s' hs' => ?_⟩, fun hshort => ⟨fun h => ?_, agrees_of_fits hmalloc⟩⟩
  · exact fits_of_agrees (parts_of_agrees (Or.inl h)) (h s rfl)
  · rw [← hs'] at h
    exact agrees_of_fits hmalloc h
  · exact fits_of_agrees (parts_of_agrees (Or.inr ⟨hshort, h⟩)) h

theorem index_agrees_iff_world :
    (∀ n, (fun _ : Nat => true) n = true) ∧ [104, 101, 108, 108, 111].length < 2 ^ 31 ∧
      Agrees wholeStack (fun _ => true) [104, 101, 108, 108, 111] (some (-4)) (some 100) :=
  ⟨fun _ => rfl, by decide, ((index_agrees_iff wholeStack (fun _ => true) (fun _ => rfl)
    [104, 101, 108, 108, 111] (some (-4)) (some 100)).2 (by decide)).mpr ⟨by decide, by decide⟩⟩

/-- An end far behind the string is taken for its start. -/
theorem not_agrees :
    ¬Agrees wholeStack (fun _ => true) [97, 98, 99] (some 1) (some (2 ^ 32)) :=
  fun h => absurd h.string (by decide)

end LbufIndex
