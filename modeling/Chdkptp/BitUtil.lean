import Chdkptp.BoundedLoop
import Chdkptp.LuaSlots
import Chdkptp.LuaValue
import Mathlib.Data.List.OfFn
import Mathlib.Data.Rat.Floor
import Mathlib.Tactic.Ring

/-!
# Arrays of bits

`bit_unpack`, `bit_packu`, `bit_packstr` and `bit_unpackstr` take numbers and strings apart
into arrays of bits, whose first field is at 0, and put them together again. The lowest bit
comes first.
-/

namespace BitUtil

open BoundedLoop LuaSlots LuaValue

/-! ## Arrays whose first field is at 0 -/

/-- The field at 0 and those behind it, where `#` looks. -/
structure Bits where
  zero : Option ℤ
  rest : Slots ℤ

def Bits.empty : Bits := ⟨none, []⟩

def Bits.get (t : Bits) : Nat → Option ℤ
  | 0 => t.zero
  | i + 1 => slot t.rest i

def Bits.set (t : Bits) (i : Nat) (v : ℤ) : Bits :=
  match i with
  | 0 => { t with zero := some v }
  | i + 1 => { t with rest := store t.rest i v }

@[simp] theorem Bits.get_empty (i : Nat) : Bits.empty.get i = none := by
  cases i <;> rfl

theorem Bits.get_set (t : Bits) (i : Nat) (v : ℤ) (j : Nat) :
    (t.set i v).get j = if j = i then some v else t.get j := by
  cases i with
  | zero => cases j <;> simp [Bits.set, Bits.get]
  | succ i =>
    cases j with
    | zero => simp [Bits.set, Bits.get]
    | succ j => simpa [Bits.set, Bits.get] using slot_store t.rest i v j

/-- The fields are those of the list, whose first is at 0. -/
def Holds (t : Bits) (l : List ℤ) : Prop := ∀ i, t.get i = l[i]?

theorem holds_empty : Holds .empty [] := fun i => by simp

theorem Holds.set {t : Bits} {l : List ℤ} (h : Holds t l) (v : ℤ) :
    Holds (t.set l.length v) (l ++ [v]) := by
  intro i
  rw [Bits.get_set, h i, List.getElem?_append]
  by_cases hi : i = l.length
  · simp [hi]
  · rw [if_neg hi]
    by_cases hlt : i < l.length
    · rw [if_pos hlt]
    · rw [if_neg hlt, List.getElem?_eq_none (by omega), List.getElem?_eq_none (by simp; omega)]

/-! ## The functions -/

/-- `util.bit_unpack`. -/
def bit_unpack (n : ℚ) (limit : Option ℤ) : Bits :=
  ((List.range (limit.getD 31 + 1).toNat).foldl
    (fun (s : Bits × ℤ) i => (s.1.set i (s.2 % 2), s.2 / 2)) (.empty, ⌊n⌋)).1

/-- The addition in `bit_packu`; nil cannot be multiplied. -/
def addBit (bits : Bits) (r : ℤ) (i : Nat) : Option ℤ :=
  (bits.get i).map fun b => r + b * 2 ^ i

/-- `util.bit_packu`, for an interpreter's `#`. -/
def bit_packu (B : Borders ℤ) (bits : Bits) : Option ℤ :=
  let limit := if B.border bits.rest > 31 then 31 else B.border bits.rest
  (List.range (limit + 1)).foldlM (addBit bits) 0

/-- `string.char` of a number, which raises an error unless it is a byte. -/
def stringChar (n : Nat) : Option UInt8 := if n < 256 then some (UInt8.ofNat n) else none

structure Pack where
  bpos : Nat
  bitval : Nat
  byte : Nat
  i : Nat
  out : LuaString
  deriving DecidableEq

def Pack.start : Pack := ⟨0, 1, 0, 0, []⟩

/-- One bit in `bit_packstr`. -/
def packBit (s : Pack) (b : ℤ) : Option Pack :=
  let byte := if b = 1 then s.byte + s.bitval else s.byte
  if s.bpos < 7 then some ⟨s.bpos + 1, s.bitval * 2, byte, s.i + 1, s.out⟩
  else (stringChar byte).map fun c => ⟨0, 1, 0, s.i + 1, s.out ++ [c]⟩

theorem packBit_i {s s' : Pack} {b : ℤ} (h : packBit s b = some s') : s'.i = s.i + 1 := by
  rw [packBit] at h
  split at h
  · rw [← Option.some.inj h]
  · obtain ⟨c, -, rfl⟩ := Option.map_eq_some_iff.mp h
    rfl

/-- A pass of the loop, which ends where a field is nil; `none` is an error. -/
def packStep (bits : Bits) (s : Pack) : Pack ⊕ Option Pack :=
  match bits.get s.i with
  | none => .inr (some s)
  | some b =>
    match packBit s b with
    | none => .inr none
    | some s' => .inl s'

theorem packStep_inl {bits : Bits} {s s' : Pack} (h : packStep bits s = .inl s') :
    ∃ b, bits.get s.i = some b ∧ packBit s b = some s' := by
  rw [packStep] at h
  split at h
  · cases h
  · rename_i b hb
    split at h
    · cases h
    · rename_i t ht
      exact ⟨b, hb, ht.trans (congrArg some (Sum.inl.inj h))⟩

/-- There is no bit behind the end of the table. -/
theorem get_lt {bits : Bits} {i : Nat} {b : ℤ} (h : bits.get i = some b) :
    i < bits.rest.length + 1 := by
  cases i with
  | zero => omega
  | succ i =>
    by_contra hge
    rw [Bits.get, slot, List.getElem?_eq_none (by omega)] at h
    cases h

def packLoop (bits : Bits) : Loop Pack (Option Pack) where
  step := packStep bits
  measure s := bits.rest.length + 1 - s.i
  decreases := by
    intro s s' h
    obtain ⟨b, hb, hs⟩ := packStep_inl h
    have hlt := get_lt hb
    rw [packBit_i hs]
    omega

/-- `util.bit_packstr`. -/
def bit_packstr (bits : Bits) : Option LuaString :=
  ((packLoop bits).run .start).bind fun s =>
    if s.bpos ≠ 0 then (stringChar s.byte).map fun c => s.out ++ [c] else some s.out

/-- `string.byte(str,1,-1)`, when there is room for so many results on the stack. -/
def stringByte (room : Nat) (str : LuaString) : Option LuaString :=
  if str.length ≤ room then some str else none

/-- The bits of a byte in `bit_unpackstr`, with the place of the next. -/
def unpackByte (s : Bits × Nat) (b : UInt8) : Bits × Nat :=
  let bits := bit_unpack b.toNat (some 7)
  (List.range 8).foldl (fun (s : Bits × Nat) j =>
    (match bits.get j with
      | some v => s.1.set s.2 v
      | none => s.1, s.2 + 1)) s

/-- `util.bit_unpackstr`. The variable `bits` that it leaves behind is global, but nothing
reads it. -/
def bit_unpackstr (room : Nat) (str : LuaString) : Option Bits :=
  (stringByte room str).map fun bytes => (bytes.foldl unpackByte (.empty, 0)).1

/-! ## Taking a number apart -/

/-- The lowest bits of a number. -/
def digits (n : ℤ) (k : Nat) : List ℤ := List.ofFn fun i : Fin k => n / 2 ^ i.val % 2

theorem digits_succ (n : ℤ) (k : Nat) : digits n (k + 1) = digits n k ++ [n / 2 ^ k % 2] :=
  List.ofFn_succ_last

@[simp] theorem length_digits (n : ℤ) (k : Nat) : (digits n k).length = k := List.length_ofFn

theorem bit_unpack_holds (n limit : ℤ) :
    Holds (bit_unpack n (some limit)) (digits n (limit + 1).toNat) := by
  rw [bit_unpack, Int.floor_intCast, Option.getD_some]
  generalize (limit + 1).toNat = k
  have hrun : ∀ k, ∃ t, Holds t (digits n k) ∧ (List.range k).foldl
      (fun (s : Bits × ℤ) i => (s.1.set i (s.2 % 2), s.2 / 2)) (.empty, n) = (t, n / 2 ^ k) := by
    intro k
    induction k with
    | zero => exact ⟨.empty, holds_empty, by simp⟩
    | succ k ih =>
      obtain ⟨t, ht, hfold⟩ := ih
      have hset := ht.set (n / 2 ^ k % 2)
      rw [length_digits, ← digits_succ] at hset
      use t.set k (n / 2 ^ k % 2), hset
      rw [List.range_succ, List.foldl_append, hfold]
      simp only [List.foldl_cons, List.foldl_nil]
      rw [pow_succ, Int.ediv_ediv_of_nonneg (by positivity)]
  obtain ⟨t, ht, hfold⟩ := hrun k
  rw [hfold]
  exact ht

/-! ## Adding the bits up -/

/-- The number of an array of bits. -/
def total : List ℤ → ℤ
  | [] => 0
  | b :: l => b + 2 * total l

theorem total_append (l l' : List ℤ) : total (l ++ l') = total l + 2 ^ l.length * total l' := by
  induction l with
  | nil => simp [total]
  | cons b l ih =>
    rw [List.cons_append, total, total, ih, List.length_cons, pow_succ]
    ring

theorem total_digits (n : ℤ) (k : Nat) : total (digits n k) = n % 2 ^ k := by
  induction k with
  | zero => simp [digits, total, Int.emod_one]
  | succ k ih =>
    have hhigh : n % 2 ^ (k + 1) = n % 2 ^ k + 2 ^ k * (n / 2 ^ k % 2) := by
      rw [pow_succ, Int.emod_def n (2 ^ k * 2), Int.emod_def n (2 ^ k), Int.emod_def (n / 2 ^ k) 2,
        ← Int.ediv_ediv_of_nonneg (by positivity)]
      ring
    rw [digits_succ, total_append, ih, length_digits, hhigh]
    simp [total]

/-- The border of an array of bits without holes is the place of its last bit. -/
theorem border_of_holds (B : Borders ℤ) {t : Bits} {b : ℤ} {l : List ℤ} (h : Holds t (b :: l)) :
    B.border t.rest = l.length := by
  have hsame : Same t.rest (ofList l) := by
    intro i
    rw [slot_ofList]
    exact h (i + 1)
  exact border_of_same hsame (B.isBorder _)

theorem foldlM_addBit {t : Bits} {l : List ℤ} (h : Holds t l) :
    (List.range l.length).foldlM (addBit t) 0 = some (total l) := by
  have hpart : ∀ k, k ≤ l.length →
      (List.range k).foldlM (addBit t) 0 = some (total (l.take k)) := by
    intro k hk
    induction k with
    | zero => rfl
    | succ k ih =>
      have hlt : k < l.length := hk
      have hget : t.get k = some l[k] := by
        rw [h k, List.getElem?_eq_getElem hlt]
      rw [List.range_succ, List.foldlM_append, ih (by omega), List.take_succ_eq_append_getElem hk,
        total_append, List.length_take_of_le (by omega)]
      simp [addBit, hget, total, mul_comm]
  rw [hpart _ (Nat.le_refl _), List.take_length]

/-- At most 32 bits are added up. -/
theorem bit_packu_of_holds (B : Borders ℤ) {t : Bits} {l : List ℤ} (h : Holds t l) (hne : l ≠ [])
    (hlen : l.length ≤ 32) : bit_packu B t = some (total l) := by
  obtain ⟨b, r, rfl⟩ := List.exists_cons_of_ne_nil hne
  have hlimit : ¬r.length > 31 := by
    rw [List.length_cons] at hlen
    omega
  rw [bit_packu, border_of_holds B h]
  simp only [if_neg hlimit]
  exact foldlM_addBit h

/-! ## Strings -/

/-- The bits of a string. -/
def bitsOf (s : LuaString) : List ℤ := s.flatMap fun c => digits c.toNat 8

theorem bitsOf_append (s s' : LuaString) : bitsOf (s ++ s') = bitsOf s ++ bitsOf s' :=
  List.flatMap_append

@[simp] theorem bitsOf_singleton (c : UInt8) : bitsOf [c] = digits c.toNat 8 :=
  List.flatMap_singleton _ c

@[simp] theorem length_bitsOf (s : LuaString) : (bitsOf s).length = 8 * s.length := by
  induction s with
  | nil => rfl
  | cons c s ih =>
    rw [bitsOf, List.flatMap_cons, List.length_append, length_digits, ← bitsOf, ih,
      List.length_cons]
    omega

theorem bitsOf_bits (s : LuaString) : ∀ b ∈ bitsOf s, b = 0 ∨ b = 1 := by
  intro b hb
  obtain ⟨c, -, hb⟩ := List.mem_flatMap.mp hb
  obtain ⟨i, rfl⟩ := (List.mem_ofFn' _ _).mp hb
  exact Int.emod_two_eq_zero_or_one _

theorem byte_eq_of_digits {c d : UInt8} (h : digits c.toNat 8 = digits d.toNat 8) : c = d := by
  have hsum := congrArg total h
  rw [total_digits, total_digits] at hsum
  have hc := c.toNat_lt
  have hd := d.toNat_lt
  exact UInt8.toNat_inj.mp (by omega)

theorem bitsOf_inj {s s' : LuaString} (h : bitsOf s = bitsOf s') : s = s' := by
  induction s generalizing s' with
  | nil =>
    have hlen := congrArg List.length h
    rw [length_bitsOf, length_bitsOf, List.length_nil] at hlen
    exact (List.eq_nil_of_length_eq_zero (by omega)).symm
  | cons c s ih =>
    cases s' with
    | nil =>
      have hlen := congrArg List.length h
      simp at hlen
    | cons d s' =>
      rw [bitsOf, bitsOf, List.flatMap_cons, List.flatMap_cons] at h
      obtain ⟨hbyte, hrest⟩ := List.append_inj h (by simp)
      rw [byte_eq_of_digits hbyte, ih hrest]

/-- The bits of `bit_unpackstr`, as far as it has come. -/
theorem unpackByte_holds {t : Bits} {l : List ℤ} (h : Holds t l) (c : UInt8) :
    ∃ t', unpackByte (t, l.length) c = (t', l.length + 8) ∧ Holds t' (l ++ digits c.toNat 8) := by
  have hbits : Holds (bit_unpack (c.toNat : ℤ) (some 7)) (digits c.toNat 8) :=
    bit_unpack_holds c.toNat 7
  have hpart : ∀ k, k ≤ 8 → ∃ t', Holds t' (l ++ (digits c.toNat 8).take k) ∧
      (List.range k).foldl (fun (s : Bits × Nat) j =>
        (match (bit_unpack (c.toNat : ℤ) (some 7)).get j with
          | some v => s.1.set s.2 v
          | none => s.1, s.2 + 1)) (t, l.length) = (t', l.length + k) := by
    intro k hk
    induction k with
    | zero => exact ⟨t, by simpa using h, rfl⟩
    | succ k ih =>
      obtain ⟨t', ht', hfold⟩ := ih (by omega)
      have hlt : k < (digits c.toNat 8).length := by
        rw [length_digits]
        omega
      have hget := (hbits k).trans (List.getElem?_eq_getElem hlt)
      have hset := ht'.set (digits c.toNat 8)[k]
      rw [List.append_assoc, ← List.take_succ_eq_append_getElem hlt, List.length_append,
        List.length_take_of_le (Nat.le_of_lt hlt)] at hset
      use t'.set (l.length + k) (digits c.toNat 8)[k], hset
      rw [List.range_succ, List.foldl_append, hfold]
      simp only [List.foldl_cons, List.foldl_nil, hget]
      rfl
  obtain ⟨t', ht', hfold⟩ := hpart 8 (Nat.le_refl 8)
  rw [List.take_of_length_le (by simp)] at ht'
  exact ⟨t', hfold, ht'⟩

theorem bit_unpackstr_holds {room : Nat} {s : LuaString} (h : s.length ≤ room) :
    ∃ t, bit_unpackstr room s = some t ∧ Holds t (bitsOf s) := by
  have hfold : ∀ (s : LuaString) (t : Bits) (l : List ℤ), Holds t l →
      ∃ t', (s.foldl unpackByte (t, l.length)).1 = t' ∧ Holds t' (l ++ bitsOf s) := by
    intro s
    induction s with
    | nil => exact fun t l ht => ⟨t, rfl, by simpa [bitsOf] using ht⟩
    | cons c s ih =>
      intro t l ht
      obtain ⟨t', hstep, ht'⟩ := unpackByte_holds ht c
      obtain ⟨t'', hrun, ht''⟩ := ih t' (l ++ digits c.toNat 8) ht'
      rw [List.length_append, length_digits] at hrun
      rw [List.append_assoc] at ht''
      use t'', ?_, ht''
      rw [List.foldl_cons, hstep, hrun]
  obtain ⟨t, hrun, ht⟩ := hfold s .empty [] holds_empty
  use t, ?_, ht
  rw [bit_unpackstr, stringByte, if_pos h]
  exact congrArg some hrun

/-! ## Packing -/

theorem digits_add {n m : ℤ} {k : Nat} (hn : 0 ≤ n) (hlt : n < 2 ^ k) :
    digits (n + m * 2 ^ k) (k + 1) = digits n k ++ [m % 2] := by
  rw [digits_succ, Int.add_mul_ediv_right _ _ (by positivity), Int.ediv_eq_zero_of_lt hn hlt,
    Int.zero_add]
  congr 1
  apply List.ofFn_inj.mpr
  funext i
  obtain ⟨d, hd⟩ : ∃ d, k = i.val + (d + 1) := ⟨k - i.val - 1, by omega⟩
  have hsplit : m * 2 ^ k = m * 2 ^ d * 2 * 2 ^ i.val := by
    have hpow : (2 : ℤ) ^ k = 2 ^ i.val * (2 ^ d * 2) := by
      rw [← pow_succ, ← pow_add, ← hd]
    rw [hpow]
    ring
  rw [hsplit, Int.add_mul_ediv_right _ _ (by positivity), Int.add_mul_emod_self_right]

/-- The bits above a number are 0. -/
theorem digits_zeros {n : ℤ} {k : Nat} (hn : 0 ≤ n) (hlt : n < 2 ^ k) (j : Nat) :
    digits n (k + j) = digits n k ++ List.replicate j 0 := by
  induction j with
  | zero => simp
  | succ j ih =>
    have hpow : (2 : ℤ) ^ k ≤ 2 ^ (k + j) := pow_le_pow_right₀ (by omega) (Nat.le_add_right k j)
    rw [← Nat.add_assoc, digits_succ, ih, Int.ediv_eq_zero_of_lt hn (by omega),
      List.replicate_succ', List.append_assoc]
    rfl

/-- The bits so far are those of the bytes and of the number under way. -/
structure PackInv (l : List ℤ) (s : Pack) : Prop where
  bpos : s.bpos < 8
  bitval : s.bitval = 2 ^ s.bpos
  byte : s.byte < 2 ^ s.bpos
  taken : l.take s.i = bitsOf s.out ++ digits s.byte s.bpos

theorem packInv_start (l : List ℤ) : PackInv l .start where
  bpos := by decide
  bitval := rfl
  byte := by decide
  taken := by simp [Pack.start, bitsOf, digits]

theorem stringChar_of_lt {n : Nat} (h : n < 256) :
    stringChar n = some (UInt8.ofNat n) ∧ (UInt8.ofNat n).toNat = n := by
  refine ⟨if_pos h, ?_⟩
  simpa using Nat.mod_eq_of_lt h

/-- A bit joins those so far. -/
theorem packBit_keeps {l : List ℤ} {s : Pack} {b : ℤ} (h : PackInv l s) (hb : b = 0 ∨ b = 1)
    (hget : l[s.i]? = some b) : ∃ s', packBit s b = some s' ∧ PackInv l s' := by
  obtain ⟨hlt, hitem⟩ := List.getElem?_eq_some_iff.mp hget
  have hbyte : ∃ byte : Nat, (if b = 1 then s.byte + s.bitval else s.byte) = byte ∧
      byte < 2 ^ (s.bpos + 1) ∧ digits byte (s.bpos + 1) = digits s.byte s.bpos ++ [b] := by
    have hdigits := digits_add (m := b) (Int.natCast_nonneg s.byte) (by exact_mod_cast h.byte)
    have hs := h.byte
    obtain rfl | rfl := hb
    · use s.byte, if_neg (by omega), by omega
      simpa using hdigits
    · use s.byte + s.bitval, if_pos rfl
      rw [h.bitval]
      constructor
      · omega
      · push_cast
        simpa using hdigits
  obtain ⟨byte, heq, hsmall, hdigits⟩ := hbyte
  have htaken : l.take (s.i + 1) = bitsOf s.out ++ digits byte (s.bpos + 1) := by
    rw [List.take_succ_eq_append_getElem hlt, h.taken, hitem, hdigits, List.append_assoc]
  rw [packBit, heq]
  by_cases hpos : s.bpos < 7
  · use ⟨s.bpos + 1, s.bitval * 2, byte, s.i + 1, s.out⟩, if_pos hpos
    exact ⟨Nat.succ_lt_succ hpos, by rw [h.bitval, pow_succ], hsmall, htaken⟩
  · have hseven : s.bpos = 7 := by
      have := h.bpos
      omega
    rw [hseven] at hsmall htaken
    obtain ⟨hchar, hnat⟩ := stringChar_of_lt hsmall
    use ⟨0, 1, 0, s.i + 1, s.out ++ [UInt8.ofNat byte]⟩
    constructor
    · rw [hchar]
      exact if_neg hpos
    · refine ⟨Nat.succ_pos 7, rfl, Nat.one_pos, ?_⟩
      rw [htaken, bitsOf_append, bitsOf_singleton, hnat]
      simp [digits]

/-- The loop ends behind the last bit. -/
theorem packLoop_run {t : Bits} {l : List ℤ} (h : Holds t l) (hbits : ∀ b ∈ l, b = 0 ∨ b = 1) :
    ∃ s, (packLoop t).run .start = some s ∧ PackInv l s ∧ l.length ≤ s.i := by
  apply (packLoop t).run_invariant (PackInv l)
    (fun r => ∃ s, r = some s ∧ PackInv l s ∧ l.length ≤ s.i) ?_ ?_ (packInv_start l)
  · intro s s' hs hstep
    obtain ⟨b, hget, hbit⟩ := packStep_inl hstep
    rw [h] at hget
    obtain ⟨s'', hbit', hs''⟩ := packBit_keeps hs (hbits b (List.mem_of_getElem? hget)) hget
    rw [hbit] at hbit'
    exact Option.some.inj hbit' ▸ hs''
  · intro s r hs hstep
    change packStep t s = .inr r at hstep
    rw [packStep, h s.i] at hstep
    cases hget : l[s.i]? with
    | none =>
      rw [hget] at hstep
      exact ⟨s, (Sum.inr.inj hstep).symm, hs, List.getElem?_eq_none_iff.mp hget⟩
    | some b =>
      obtain ⟨s', hbit, -⟩ := packBit_keeps hs (hbits b (List.mem_of_getElem? hget)) hget
      simp [hget, hbit] at hstep

/-- The zeros that fill up the last byte. -/
def padding (l : List ℤ) : List ℤ := List.replicate ((8 - l.length % 8) % 8) 0

theorem bit_packstr_of_holds {t : Bits} {l : List ℤ} (h : Holds t l)
    (hbits : ∀ b ∈ l, b = 0 ∨ b = 1) :
    ∃ s, bit_packstr t = some s ∧ bitsOf s = l ++ padding l := by
  obtain ⟨s, hrun, hs, hend⟩ := packLoop_run h hbits
  have htaken := hs.taken
  rw [List.take_of_length_le hend] at htaken
  have hlen : l.length = 8 * s.out.length + s.bpos := by
    rw [htaken, List.length_append, length_bitsOf, length_digits]
  have hbpos := hs.bpos
  rw [bit_packstr, hrun, Option.bind_some]
  by_cases hzero : s.bpos = 0
  · have hpad : (8 - l.length % 8) % 8 = 0 := by omega
    refine ⟨s.out, if_neg (by simpa using hzero), ?_⟩
    rw [padding, hpad]
    simpa [hzero, digits] using htaken.symm
  · have hpow : 2 ^ s.bpos ≤ 256 :=
      (Nat.pow_le_pow_right (by omega) (Nat.le_of_lt hbpos)).trans (by decide)
    obtain ⟨hchar, hnat⟩ := stringChar_of_lt (Nat.lt_of_lt_of_le hs.byte hpow)
    have hpad : (8 - l.length % 8) % 8 = 8 - s.bpos := by omega
    use s.out ++ [UInt8.ofNat s.byte]
    constructor
    · rw [if_pos hzero, hchar]
      rfl
    · have hzeros := digits_zeros (Int.natCast_nonneg s.byte) (by exact_mod_cast hs.byte)
        (8 - s.bpos)
      rw [Nat.add_sub_cancel' (Nat.le_of_lt hbpos)] at hzeros
      rw [bitsOf_append, bitsOf_singleton, hnat, hzeros, padding, hpad, htaken, List.append_assoc]

/-! ## Round trips -/

theorem packstr_unpackstr {room : Nat} {s : LuaString} (h : s.length ≤ room) :
    (bit_unpackstr room s).bind bit_packstr = some s := by
  obtain ⟨t, hunpack, ht⟩ := bit_unpackstr_holds h
  obtain ⟨s', hpack, hbits⟩ := bit_packstr_of_holds ht (bitsOf_bits s)
  have hpad : (8 - (bitsOf s).length % 8) % 8 = 0 := by
    rw [length_bitsOf]
    omega
  rw [padding, hpad, List.replicate_zero, List.append_nil] at hbits
  rw [hunpack, Option.bind_some, hpack, bitsOf_inj hbits]

theorem packu_unpack (B : Borders ℤ) (n : ℤ) {limit : ℤ} (hlow : 0 ≤ limit) (hhigh : limit ≤ 31) :
    bit_packu B (bit_unpack n (some limit)) = some (n % 2 ^ (limit + 1).toNat) := by
  have hlen := length_digits n (limit + 1).toNat
  have hne : digits n (limit + 1).toNat ≠ [] := by
    intro hnil
    rw [hnil, List.length_nil] at hlen
    omega
  rw [bit_packu_of_holds B (bit_unpack_holds n limit) hne (by omega), total_digits]

/-- What is packed comes back when it is unpacked, and what is unpacked when it is packed. -/
theorem bit_packing_round_trips (room : Nat) :
    (∀ s, s.length ≤ room → (bit_unpackstr room s).bind bit_packstr = some s) ∧
      (∀ t l, Holds t l → (∀ b ∈ l, b = 0 ∨ b = 1) → ∃ s, bit_packstr t = some s ∧
        (s.length ≤ room → ∃ t', bit_unpackstr room s = some t' ∧ Holds t' (l ++ padding l))) ∧
      ∀ (B : Borders ℤ) (n limit : ℤ), 0 ≤ limit → limit ≤ 31 →
        bit_packu B (bit_unpack n (some limit)) = some (n % 2 ^ (limit + 1).toNat) := by
  refine ⟨fun s hs => packstr_unpackstr hs, ?_, fun B n limit => packu_unpack B n⟩
  intro t l ht hl
  obtain ⟨s, hpack, hbits⟩ := bit_packstr_of_holds ht hl
  use s, hpack
  intro hs
  obtain ⟨t', hunpack, ht'⟩ := bit_unpackstr_holds hs
  exact ⟨t', hunpack, hbits ▸ ht'⟩

/-- A byte, ten bits and a negative number. -/
theorem bit_packing_samples :
    (bit_unpackstr 2 [165]).bind bit_packstr = some [165] ∧
      (∃ s, bit_packstr (bit_unpack 515 (some 9)) = some s ∧
        (s.length ≤ 2 → ∃ t, bit_unpackstr 2 s = some t ∧
          Holds t (digits 515 10 ++ padding (digits 515 10)))) ∧
      bit_packu firstBorder (bit_unpack (-3 : ℤ) (some 4)) = some (-3 % 2 ^ 5) := by
  have h := bit_packing_round_trips 2
  exact ⟨h.1 [165] (by decide), h.2.1 _ _ (bit_unpack_holds 515 9) (by decide),
    h.2.2 firstBorder (-3) 4 (by decide) (by decide)⟩

end BitUtil
