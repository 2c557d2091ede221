import Chdkptp.LbufAccess

/-!
# Filling Lua buffers

`lbuf:fill` repeats a pattern from an offset on. Numbers are converted to `unsigned`, which
keeps them modulo `2 ^ 32`.
-/

namespace LbufFill

open ByteMemory BoundedLoop Lbuf

/-- `lbuf_fill`; the pattern is a string or the bytes of another buffer. -/
def lbufFill (buf : LBuf) (fillVal : List UInt8) (offset count : Option Nat) : LBuf × Nat :=
  let len := buf.len.toNat
  let offset := offset.getD 0 % 2 ^ 32
  if fillVal.length = 0 ∨ len ≤ offset then (buf, 0)
  else
    let count := count.getD (len / fillVal.length + 1) % 2 ^ 32
    let fillBytes := count * fillVal.length % 2 ^ 32
    let fillBytes := if len - offset < fillBytes then len - offset else fillBytes
    -- if less than a full repetition fits, clamp
    let fillLen := if fillBytes < fillVal.length then fillBytes else fillVal.length
    if fillBytes = 0 then (buf, 0)
    else if fillLen = 1 then
      (⟨buf.len, blit buf.bytes offset (List.replicate fillBytes (fillVal.getD 0 0))⟩, fillBytes)
    else
      let pattern := fillVal.take fillLen
      let count := fillBytes / fillLen
      let rest := fillBytes % fillLen
      let bytes := forUp (fun i m => blit m (offset + i * fillLen) pattern) count buf.bytes
      (⟨buf.len, blit bytes (offset + count * fillLen) (fillVal.take rest)⟩, fillBytes)

/-- The pattern stands from one place on, again and again. -/
def filled (m : Memory) (place bytes : Nat) (pattern : List UInt8) : Memory := fun o =>
  if place ≤ o ∧ o < place + bytes then pattern.getD ((o - place) % pattern.length) 0 else m o

/-- A part of a repetition behind whole ones. -/
theorem blit_filled (m : Memory) (place count : Nat) {pattern : List UInt8} {rest : Nat}
    (hrest : rest ≤ pattern.length) :
    blit (filled m place (count * pattern.length) pattern) (place + count * pattern.length)
        (pattern.take rest) =
      filled m place (count * pattern.length + rest) pattern := by
  have hlength : (pattern.take rest).length = rest := List.length_take_of_le hrest
  funext o
  unfold blit filled
  rw [hlength]
  by_cases hin : place + count * pattern.length ≤ o ∧ o < place + count * pattern.length + rest
  · have hindex : o - place = (o - (place + count * pattern.length)) + count * pattern.length := by
      omega
    have hmod : (o - place) % pattern.length = o - (place + count * pattern.length) := by
      rw [hindex, Nat.add_mul_mod_self_right, Nat.mod_eq_of_lt (by omega)]
    rw [if_pos hin, if_pos (by omega), hmod, List.getD_eq_getElem?_getD,
      List.getElem?_take_of_lt (by omega), List.getD_eq_getElem?_getD]
  · rw [if_neg hin]
    split_ifs <;> first | rfl | omega

/-- The loop over the copies. -/
theorem forUp_filled (m : Memory) (place count : Nat) (pattern : List UInt8) :
    forUp (fun i m => blit m (place + i * pattern.length) pattern) count m =
      filled m place (count * pattern.length) pattern := by
  induction count with
  | zero =>
    funext o
    unfold filled
    rw [forUp_zero, if_neg (by omega)]
  | succ count ih =>
    have hblit := blit_filled m place count (Nat.le_refl pattern.length)
    rw [List.take_length] at hblit
    rw [forUp_succ, ih, hblit, Nat.succ_mul]

@[simp] theorem filled_zero (m : Memory) (place : Nat) (pattern : List UInt8) :
    filled m place 0 pattern = m := by
  funext o
  unfold filled
  rw [if_neg (by omega)]

/-- A part of the pattern is a part of its repetition. -/
theorem blit_take (m : Memory) (place : Nat) {pattern : List UInt8} {rest : Nat}
    (hrest : rest ≤ pattern.length) :
    blit m place (pattern.take rest) = filled m place rest pattern := by
  have hblit := blit_filled m place 0 hrest
  rwa [Nat.zero_mul, filled_zero, Nat.add_zero, Nat.zero_add] at hblit

/-- Copies of one byte. -/
theorem blit_replicate (m : Memory) (place bytes : Nat) (pattern : List UInt8)
    (h : pattern.length = 1 ∨ bytes = 1) :
    blit m place (List.replicate bytes (pattern.getD 0 0)) = filled m place bytes pattern := by
  funext o
  unfold blit filled
  rw [List.length_replicate]
  by_cases hin : place ≤ o ∧ o < place + bytes
  · have hindex : (o - place) % pattern.length = 0 := by
      obtain hone | hone := h
      · rw [hone, Nat.mod_one]
      · have hzero : o - place = 0 := by omega
        rw [hzero, Nat.zero_mod]
    rw [if_pos hin, if_pos hin, hindex, List.getD_eq_getElem?_getD,
      List.getElem?_replicate_of_lt (by omega)]
    rfl
  · rw [if_neg hin, if_neg hin]

/-- The number of bytes to fill. -/
def fillBytes (len fillLen offset count : Nat) : Nat :=
  min (len - offset) (count % 2 ^ 32 * fillLen % 2 ^ 32)

/-- The pattern is repeated as long as there is room and copies are left. -/
theorem lbufFill_inside (buf : LBuf) {fillVal : List UInt8} (hval : fillVal.length ≠ 0)
    {offset : Nat} (hoff : offset % 2 ^ 32 < buf.len.toNat) (count : Option Nat) {bytes : Nat}
    (hbytes : fillBytes buf.len.toNat fillVal.length (offset % 2 ^ 32)
      (count.getD (buf.len.toNat / fillVal.length + 1)) = bytes) :
    lbufFill buf fillVal (some offset) count =
      (⟨buf.len, filled buf.bytes (offset % 2 ^ 32) bytes fillVal⟩, bytes) := by
  have hclamp : ∀ a b : Nat, (if a < b then a else b) = min a b := by
    intro a b
    split_ifs <;> omega
  have hnone : ¬(fillVal.length = 0 ∨ buf.len.toNat ≤ offset % 2 ^ 32) := by omega
  unfold lbufFill
  rw [fillBytes] at hbytes
  simp only [Option.getD_some, hclamp]
  rw [if_neg hnone, hbytes]
  by_cases hzero : bytes = 0
  · rw [if_pos hzero, hzero, filled_zero]
  · rw [if_neg hzero]
    by_cases hone : min bytes fillVal.length = 1
    · rw [if_pos hone, blit_replicate _ _ _ _ (by omega)]
    · rw [if_neg hone]
      by_cases hfew : bytes ≤ fillVal.length
      · have hmin : min bytes fillVal.length = bytes := Nat.min_eq_left hfew
        have hcount : bytes / bytes = 1 := Nat.div_self (by omega)
        have hrest : bytes % bytes = 0 := Nat.mod_self bytes
        rw [hmin, hcount, hrest, forUp_succ, forUp_zero, Nat.zero_mul, Nat.add_zero,
          blit_take _ _ hfew, List.take_zero, blit_nil]
      · have hmin : min bytes fillVal.length = fillVal.length := Nat.min_eq_right (by omega)
        have hrest : bytes % fillVal.length ≤ fillVal.length :=
          Nat.le_of_lt (Nat.mod_lt _ (Nat.pos_of_ne_zero hval))
        have hall : bytes / fillVal.length * fillVal.length + bytes % fillVal.length = bytes :=
          Nat.div_add_mod' _ _
        rw [hmin, List.take_length, forUp_filled, blit_filled _ _ _ hrest, hall]

/-- Without a pattern, or behind the end, nothing is filled. -/
theorem lbufFill_outside (buf : LBuf) (fillVal : List UInt8) {offset : Nat}
    (h : fillVal.length = 0 ∨ buf.len.toNat ≤ offset % 2 ^ 32) (count : Option Nat) :
    lbufFill buf fillVal (some offset) count = (buf, 0) := if_pos h

@[simp] theorem lbufFill_len (buf : LBuf) (fillVal : List UInt8) (offset count : Option Nat) :
    (lbufFill buf fillVal offset count).1.len = buf.len := by
  unfold lbufFill
  dsimp only
  split_ifs <;> rfl

/-- A byte inside the buffer. -/
theorem lbufFill_byte (buf : LBuf) {fillVal : List UInt8} (hval : fillVal.length ≠ 0)
    (offset : Nat) (count : Option Nat) {o : Nat} (ho : o < buf.len.toNat) :
    (lbufFill buf fillVal (some offset) count).1.bytes o =
      if offset % 2 ^ 32 ≤ o ∧ o < offset % 2 ^ 32 +
        count.getD (buf.len.toNat / fillVal.length + 1) % 2 ^ 32 * fillVal.length % 2 ^ 32
      then fillVal.getD ((o - offset % 2 ^ 32) % fillVal.length) 0 else buf.bytes o := by
  by_cases hoff : offset % 2 ^ 32 < buf.len.toNat
  · rw [lbufFill_inside buf hval hoff count rfl]
    unfold filled fillBytes
    generalize count.getD (buf.len.toNat / fillVal.length + 1) % 2 ^ 32 * fillVal.length % 2 ^ 32 =
      bytes
    dsimp only
    split_ifs <;> first | rfl | omega
  · rw [lbufFill_outside buf fillVal (Or.inr (by omega)) count, if_neg (by omega)]

/-- Copies of one byte. -/
theorem lbufFill_single (buf : LBuf) (b : UInt8) (offset : Nat) (count : Option Nat) {o : Nat}
    (ho : o < buf.len.toNat) :
    (lbufFill buf [b] (some offset) count).1.bytes o =
      if offset % 2 ^ 32 ≤ o ∧
        o < offset % 2 ^ 32 + count.getD (buf.len.toNat + 1) % 2 ^ 32 then b else buf.bytes o := by
  have hone : [b].length ≠ 0 := Nat.succ_ne_zero 0
  rw [lbufFill_byte buf hone offset count ho]
  simp [Nat.mod_one, Nat.div_one]

/-- One copy of the pattern. -/
theorem lbufFill_once (buf : LBuf) {fillVal : List UInt8} (hval : fillVal.length ≠ 0)
    (hshort : fillVal.length < 2 ^ 32) (offset : Nat) {o : Nat} (ho : o < buf.len.toNat) :
    (lbufFill buf fillVal (some offset) (some 1)).1.bytes o =
      if offset % 2 ^ 32 ≤ o ∧ o < offset % 2 ^ 32 + fillVal.length then
        fillVal.getD (o - offset % 2 ^ 32) 0
      else buf.bytes o := by
  have hone : 1 % 2 ^ 32 * fillVal.length % 2 ^ 32 = fillVal.length := by omega
  rw [lbufFill_byte buf hval offset (some 1) ho, Option.getD_some, hone]
  split_ifs with hin
  · rw [Nat.mod_eq_of_lt (by omega)]
  · rfl

/-! ## When all copies are made -/

/-- The number of bytes for which there are copies and room. -/
def dueBytes (len fillLen offset : Nat) (count : Option Nat) : Nat :=
  match count with
  | some count => min (len - offset) (count * fillLen)
  | none => len - offset

/-- These bytes are filled and counted, all others are kept. -/
structure Fills (buf : LBuf) (fillVal : List UInt8) (offset count : Option Nat) : Prop where
  len : (lbufFill buf fillVal offset count).1.len = buf.len
  bytes : (lbufFill buf fillVal offset count).1.bytes =
    filled buf.bytes (offset.getD 0)
      (dueBytes buf.len.toNat fillVal.length (offset.getD 0) count) fillVal
  returned : (lbufFill buf fillVal offset count).2 =
    dueBytes buf.len.toNat fillVal.length (offset.getD 0) count

/-- No product of `unsigned` numbers changes what fits. -/
def Fillable (len fillLen offset : Nat) (count : Option Nat) : Prop :=
  if offset < len then
    match count with
    | some count => count % 2 ^ 32 * fillLen % 2 ^ 32 = count * fillLen ∨
      (len - offset ≤ count % 2 ^ 32 * fillLen % 2 ^ 32 ∧ len - offset ≤ count * fillLen)
    | none => len - offset ≤ (len / fillLen + 1) % 2 ^ 32 * fillLen % 2 ^ 32
  else len ≤ offset % 2 ^ 32 ∨
    count.getD (len / fillLen + 1) % 2 ^ 32 * fillLen % 2 ^ 32 = 0

theorem lbufFill_getD (buf : LBuf) (fillVal : List UInt8) (offset count : Option Nat) :
    lbufFill buf fillVal offset count = lbufFill buf fillVal (some (offset.getD 0)) count := rfl

theorem fillable_inside {len fillLen offset : Nat} (count : Option Nat) (h : offset < len) :
    fillBytes len fillLen offset (count.getD (len / fillLen + 1)) =
      dueBytes len fillLen offset count ↔ Fillable len fillLen offset count := by
  unfold fillBytes dueBytes Fillable
  rw [if_pos h]
  cases count with
  | none =>
    rw [Option.getD_none]
    dsimp only
    omega
  | some count =>
    rw [Option.getD_some]
    dsimp only
    generalize count % 2 ^ 32 * fillLen % 2 ^ 32 = product
    generalize count * fillLen = due
    omega

/-- All copies that fit are made, and no others, exactly if the sizes do not wrap. -/
theorem fills_iff (buf : LBuf) (fillVal : List UInt8) (offset count : Option Nat)
    (hval : fillVal ≠ []) : Fills buf fillVal offset count ↔
      Fillable buf.len.toNat fillVal.length (offset.getD 0) count := by
  have hlength : fillVal.length ≠ 0 := fun h => hval (List.eq_nil_of_length_eq_zero h)
  have hlen := buf.len.toNat_lt
  by_cases hoff : offset.getD 0 < buf.len.toNat
  · have hplace : offset.getD 0 % 2 ^ 32 = offset.getD 0 := Nat.mod_eq_of_lt (by omega)
    have hfill := lbufFill_inside buf hlength (hplace.symm ▸ hoff) count rfl
    rw [hplace, ← lbufFill_getD] at hfill
    rw [← fillable_inside count hoff]
    constructor
    · intro h
      have hreturned := h.returned
      rw [hfill] at hreturned
      exact hreturned
    · intro h
      rw [h] at hfill
      constructor
      · rw [hfill]
      · rw [hfill]
      · rw [hfill]
  · have hnone : dueBytes buf.len.toNat fillVal.length (offset.getD 0) count = 0 := by
      unfold dueBytes
      cases count with
      | none => exact Nat.sub_eq_zero_of_le (by omega)
      | some count => exact Nat.min_eq_zero_iff.mpr (.inl (by omega))
    have hkept : lbufFill buf fillVal offset count = (buf, 0) →
        Fills buf fillVal offset count := by
      intro h
      constructor
      · rw [h]
      · rw [h, hnone, filled_zero]
      · rw [h, hnone]
    unfold Fillable
    rw [if_neg hoff]
    by_cases hwrap : buf.len.toNat ≤ offset.getD 0 % 2 ^ 32
    · exact iff_of_true (hkept (lbufFill_outside buf fillVal (.inr hwrap) count)) (.inl hwrap)
    · have hin : offset.getD 0 % 2 ^ 32 < buf.len.toNat := by omega
      have hfill := lbufFill_inside buf hlength hin count rfl
      rw [← lbufFill_getD] at hfill
      constructor
      · intro h
        have hreturned := h.returned
        rw [hfill, hnone] at hreturned
        right
        rw [fillBytes] at hreturned
        dsimp only at hreturned
        omega
      · rintro (h | h)
        · exact absurd h hwrap
        · have hzero : fillBytes buf.len.toNat fillVal.length (offset.getD 0 % 2 ^ 32)
              (count.getD (buf.len.toNat / fillVal.length + 1)) = 0 := by
            unfold fillBytes
            rw [h, Nat.min_zero]
          rw [hzero, filled_zero] at hfill
          exact hkept hfill

/-- Two bytes, `2 ^ 31` times, in a buffer of ten. -/
theorem not_fills :
    ¬Fills ⟨10, fun _ => 0⟩ [97, 98] none (some (2 ^ 31)) := by
  intro h
  have hreturned := h.returned
  revert hreturned
  decide

theorem fills_iff_pair :
    Fills ⟨10, fun _ => 0⟩ [97, 98] (some 3) (some 2) ↔ Fillable 10 2 3 (some 2) :=
  fills_iff ⟨10, fun _ => 0⟩ [97, 98] (some 3) (some 2) (by decide)

end LbufFill
