import Chdkptp.RawAccess
import Chdkptp.PackedField

/-!
# The layouts behind the accessors

All nine formats store one bit stream per row: pixel after pixel, each with its
most significant bit first. The little endian formats above eight bits store
the stream as 16-bit words, so the two bytes of every word change places. This
module states that layout once and shows that every case of every getter and
setter follows it. What remains to be checked about the tables is finite and is
decided; the lemmas carry it over to arbitrary memories and values.
-/

namespace RawLayout

open ByteMemory PackedField RawAccess

set_option maxRecDepth 20000

/-! ## What one operand does to one bit -/

/-- The bit of the block that an operand puts at bit `i` of the result. -/
def source (t : Load) (i : Nat) : Option (Nat × Nat) :=
  match t.shift with
  | .left n =>
    if t.mask.testBit i ∧ n ≤ i ∧ t.keep.testBit (i - n) then some (t.byte, i - n) else none
  | .right n =>
    if t.mask.testBit i ∧ t.keep.testBit (i + n) then some (t.byte, i + n) else none

theorem testBit_eval (t : Load) (m : Memory) (addr : Nat → Nat) (i : Nat) :
    (t.eval (m (addr t.byte))).testBit i =
      (source t i).any (fun c => bit m (addr c.1, c.2)) := by
  obtain ⟨mask, byte, keep, shift⟩ := t
  cases shift with
  | left n =>
    simp only [Load.eval, Shift.apply, source, Nat.testBit_and, Nat.testBit_shiftLeft]
    by_cases h : mask.testBit i ∧ n ≤ i ∧ keep.testBit (i - n)
    · simp [h, bit]
    · rw [if_neg h]
      by_cases hm : mask.testBit i <;> by_cases hn : n ≤ i <;> simp_all
  | right n =>
    simp only [Load.eval, Shift.apply, source, Nat.testBit_and, Nat.testBit_shiftRight]
    by_cases h : mask.testBit i ∧ keep.testBit (i + n)
    · simp [h, bit, Nat.add_comm n i]
    · rw [if_neg h, Nat.add_comm n i]
      by_cases hm : mask.testBit i <;> simp_all

theorem testBit_foldl_or (p : Memory) (addr : Nat → Nat) (loads : List Load) (v i : Nat) :
    (loads.foldl (fun v t => v ||| t.eval (p (addr t.byte))) v).testBit i =
      (v.testBit i || (loads.filterMap (source · i)).any (fun c => bit p (addr c.1, c.2))) := by
  induction loads generalizing v with
  | nil => simp
  | cons t loads ih =>
    rw [List.foldl_cons, ih, Nat.testBit_or, testBit_eval]
    cases hs : source t i <;> simp [hs, Bool.or_assoc]

/-- Bit `i` of a getter's result is an or over the operands that reach it. -/
theorem testBit_getCase (p : Memory) (addr : Nat → Nat) (loads : List Load) (i : Nat) :
    (getCase p addr loads).testBit i =
      (loads.filterMap (source · i)).any (fun c => bit p (addr c.1, c.2)) := by
  simp [getCase, testBit_foldl_or]

/-- The value bit that an assignment puts at bit `j` of its byte. -/
def target (t : Store) (j : Nat) : Option Nat :=
  match t.shift with
  | .left n => if n ≤ j then some (j - n) else none
  | .right n => some (j + n)

theorem testBit_storeEval (t : Store) (b : UInt8) (v j : Nat) (hj : j < 8) :
    (t.eval b v).toNat.testBit j =
      ((b.toNat.testBit j && t.keep.testBit j) || (target t j).any v.testBit) := by
  obtain ⟨byte, keep, shift⟩ := t
  have hmod : (UInt8.ofNat ((b.toNat &&& keep) ||| shift.apply v)).toNat.testBit j =
      ((b.toNat &&& keep) ||| shift.apply v).testBit j := by
    simp [Nat.testBit_mod_two_pow _ 8 j, hj, show (256 : Nat) = 2 ^ 8 from rfl]
  rw [Store.eval, hmod, Nat.testBit_or, Nat.testBit_and]
  cases shift with
  | left n =>
    by_cases hn : n ≤ j <;> simp [Shift.apply, target, Nat.testBit_shiftLeft, hn]
  | right n => simp [Shift.apply, target, Nat.testBit_shiftRight, Nat.add_comm]

theorem setCase_outside (p : Memory) (addr : Nat → Nat) (v o : Nat) (stores : List Store)
    (h : ∀ t ∈ stores, o ≠ addr t.byte) : setCase p addr v stores o = p o := by
  induction stores generalizing p with
  | nil => rfl
  | cons t stores ih =>
    have ht := h t (by simp)
    have hs := ih (put p (addr t.byte) (t.eval (p (addr t.byte)) v))
      (by intro u hu; exact h u (by simp [hu]))
    simpa only [setCase, List.foldl_cons, put_other _ _ _ _ ht] using hs

/-- When no byte is assigned twice, each ends as its own assignment says. -/
theorem setCase_at (p : Memory) (addr : Nat → Nat) (v : Nat) (stores : List Store)
    (hd : stores.Pairwise (fun t u => addr t.byte ≠ addr u.byte)) (t : Store) (ht : t ∈ stores) :
    setCase p addr v stores (addr t.byte) = t.eval (p (addr t.byte)) v := by
  induction stores generalizing p with
  | nil => simp at ht
  | cons u stores ih =>
    obtain ⟨hu, hrest⟩ := List.pairwise_cons.mp hd
    rcases List.mem_cons.mp ht with rfl | hmem
    · have ho := setCase_outside (put p (addr t.byte) (t.eval (p (addr t.byte)) v)) addr v
        (addr t.byte) stores hu
      simpa only [setCase, List.foldl_cons, put_same] using ho
    · have hi := ih (put p (addr u.byte) (u.eval (p (addr u.byte)) v)) hrest hmem
      simpa only [setCase, List.foldl_cons, put_other _ _ _ _ (hu t hmem).symm] using hi

/-- A getter depends on the bytes it reads only. -/
theorem getPixel_congr (f : RawFormat) {p p' : Memory} {rowBytes x y : Nat}
    (h : ∀ o ∈ readOffsets f rowBytes x y, p o = p' o) :
    f.getPixel p rowBytes x y = f.getPixel p' rowBytes x y := by
  have hcase : ∀ (loads : List Load) (v : Nat),
      (∀ t ∈ loads, p (f.addr rowBytes x y t.byte) = p' (f.addr rowBytes x y t.byte)) →
      loads.foldl (fun v t => v ||| t.eval (p (f.addr rowBytes x y t.byte))) v =
        loads.foldl (fun v t => v ||| t.eval (p' (f.addr rowBytes x y t.byte))) v := by
    intro loads
    induction loads with
    | nil => exact fun _ _ => rfl
    | cons t loads ih =>
      intro v hloads
      rw [List.foldl_cons, List.foldl_cons, hloads t List.mem_cons_self]
      exact ih _ (fun u hu => hloads u (List.mem_cons_of_mem _ hu))
  rw [f.getPixel_eq, f.getPixel_eq, getCase, getCase]
  exact hcase _ _ (fun t ht => h _ (List.mem_map.mpr ⟨t, ht, rfl⟩))

/-- A setter changes the bytes it assigns only. -/
theorem setPixel_outside (f : RawFormat) (p : Memory) (rowBytes x y v : Nat) {o : Nat}
    (h : o ∉ writeOffsets f rowBytes x y) : f.setPixel p rowBytes x y v o = p o := by
  rw [f.setPixel_eq]
  apply setCase_outside
  intro t ht he
  exact h (List.mem_map.mpr ⟨t, ht, he.symm⟩)

/-! ## The bit stream of a row -/

/-- The formats whose stream is stored in little endian 16-bit words. -/
def wordSwapped : RawFormat → Bool
  | .raw10l | .raw12l | .raw14l | .raw16l => true
  | _ => false

/-- Where the layout keeps byte `b` of the stream. -/
def streamByte (f : RawFormat) (b : Nat) : Nat := if wordSwapped f then mate b else b

theorem streamByte_streamByte (f : RawFormat) (b : Nat) : streamByte f (streamByte f b) = b := by
  unfold streamByte
  split
  · exact mate_mate b
  · rfl

/-- Byte and bit of stream position `s`; position 0 is a byte's highest bit. -/
def cell (f : RawFormat) (s : Nat) : Nat × Nat := (streamByte f (s / 8), 7 - s % 8)

/-- Stream position of bit `i` of pixel `x`, counted from the start of the row
or, for `x` reduced modulo the block size, of the block. -/
def position (f : RawFormat) (x i : Nat) : Nat := (x + 1) * f.bpp - 1 - i

/-- Bits before pixel `x` in the byte its first bit shares: the previous pixel's. -/
def spare (f : RawFormat) (x : Nat) : Nat := x * f.bpp % 8

/-- The column's number within its block. -/
def phase (f : RawFormat) (x : Nat) : Nat := x % f.blockPixels

/-- The bits of pixel `(x, y)`, addressed the way the accessors address bytes. -/
def place (f : RawFormat) (rowBytes x y : Nat) : Placement := fun i =>
  (f.addr rowBytes x y (cell f (position f (phase f x) i)).1,
    (cell f (position f (phase f x) i)).2)

/-- Bits a setter can touch: the field and the spare bits before it. -/
def reach (f : RawFormat) (x : Nat) : Nat := f.bpp + spare f (phase f x)

theorem bpp_pos (f : RawFormat) : 0 < f.bpp := by cases f <;> decide

theorem phase_mod (f : RawFormat) (x : Nat) : phase f x = phase f (x % 8) := by
  have hd : f.blockPixels ∣ 8 := by cases f <;> decide
  exact (Nat.mod_mod_of_dvd x hd).symm

/-! ## The tables follow the layout -/

/-- Every result bit is fed by exactly the layout's bit, bits above the depth by none. -/
def LoadsFollow (f : RawFormat) (k : Fin 8) : Prop :=
  (∀ t ∈ f.loads k, t.mask < 2 ^ 32) ∧
  ∀ i : Fin 32, (f.loads k).filterMap (source · i) =
    if i.val < f.bpp then [cell f (position f (phase f k) i)] else []

instance (f : RawFormat) (k : Fin 8) : Decidable (LoadsFollow f k) := by
  unfold LoadsFollow; infer_instance

theorem loads_follow (f : RawFormat) (k : Fin 8) : LoadsFollow f k := by
  revert k
  cases f <;> decide +kernel

theorem loads_source (f : RawFormat) (x i : Nat) :
    (f.loads x).filterMap (source · i) =
      if i < f.bpp then [cell f (position f (phase f x) i)] else [] := by
  obtain ⟨hmask, hbits⟩ := loads_follow f ⟨x % 8, Nat.mod_lt _ (by decide)⟩
  rw [f.loads_mod x, phase_mod f x]
  by_cases hi : i < 32
  · exact hbits ⟨i, hi⟩
  · have hb : ¬i < f.bpp := by cases f <;> simp [RawFormat.bpp] <;> omega
    rw [if_neg hb]
    apply List.filterMap_eq_nil_iff.mpr
    intro t ht
    -- no operand reaches beyond the 32 bits of an unsigned
    have hz : t.mask.testBit i = false :=
      Nat.testBit_lt_two_pow (Nat.lt_of_lt_of_le (hmask t ht)
        (Nat.pow_le_pow_right (by decide) (by omega)))
    cases hs : t.shift <;> simp [source, hs, hz]

/-- Every getter reads the pixel's field. -/
theorem getPixel_read (f : RawFormat) (p : Memory) (rowBytes x y : Nat) :
    f.getPixel p rowBytes x y = read p f.bpp (place f rowBytes x y) := by
  apply Nat.eq_of_testBit_eq
  intro i
  rw [f.getPixel_eq, testBit_getCase, loads_source, testBit_read]
  by_cases hi : i < f.bpp
  · simp [hi, place]
  · simp [hi]

theorem getPixel_lt (f : RawFormat) (p : Memory) (rowBytes x y : Nat) :
    f.getPixel p rowBytes x y < 2 ^ f.bpp := by
  rw [getPixel_read]
  exact read_lt _ _ _

/-- The columns for which a setter has a case: all of them, except that the
big endian 14-bit setter leaves out every second block. -/
def HasCase (f : RawFormat) (x : Nat) : Prop := f = .raw14b → x % 8 < 4

instance (f : RawFormat) (x : Nat) : Decidable (HasCase f x) := by
  unfold HasCase; infer_instance

/-- The assigned bytes are distinct bytes of the block; each bit of the field is
overwritten by its value bit, each spare bit before it is kept and or-ed with
the value bit beyond the depth, every other bit of an assigned byte is kept. -/
def StoresFollow (f : RawFormat) (k : Fin 8) : Prop :=
  (f.stores k).Pairwise (fun t u => t.byte ≠ u.byte) ∧
  (∀ t ∈ f.stores k, t.byte < f.blockBytes) ∧
  (∀ i : Fin 32, i.val < reach f k → ∃ t ∈ f.stores k,
    t.byte = (cell f (position f (phase f k) i)).1 ∧
    target t (cell f (position f (phase f k) i)).2 = some i.val ∧
    t.keep.testBit (cell f (position f (phase f k) i)).2 = decide (f.bpp ≤ i)) ∧
  (∀ t ∈ f.stores k, ∀ j : Fin 8,
    (∃ i : Fin 32, i.val < reach f k ∧ (t.byte, j.val) = cell f (position f (phase f k) i)) ∨
      (t.keep.testBit j ∧ target t j = none))

instance (f : RawFormat) (k : Fin 8) : Decidable (StoresFollow f k) := by
  unfold StoresFollow; infer_instance

theorem stores_follow (f : RawFormat) (k : Fin 8) (h : HasCase f k) : StoresFollow f k := by
  revert k
  cases f <;> decide +kernel

theorem loads_byte_lt (f : RawFormat) (x : Nat) : ∀ t ∈ f.loads x, t.byte < f.blockBytes := by
  have hfin : ∀ k : Fin 8, ∀ t ∈ f.loads k, t.byte < f.blockBytes := by
    cases f <;> decide
  rw [f.loads_mod x]
  exact hfin ⟨x % 8, Nat.mod_lt _ (by decide)⟩

theorem stores_byte_lt (f : RawFormat) (x : Nat) : ∀ t ∈ f.stores x, t.byte < f.blockBytes := by
  have hfin : ∀ k : Fin 8, ∀ t ∈ f.stores k, t.byte < f.blockBytes := by
    cases f <;> decide
  rw [f.stores_mod x]
  exact hfin ⟨x % 8, Nat.mod_lt _ (by decide)⟩

theorem reach_lt (f : RawFormat) (x : Nat) : reach f x < 32 := by
  have hs : spare f (phase f x) < 8 := Nat.mod_lt _ (by decide)
  unfold reach
  cases f <;> simp only [RawFormat.bpp] <;> omega

/-- The bytes of one block have different addresses, also where a product wraps. -/
theorem addr_inj (f : RawFormat) (rowBytes x y i j : Nat) (hi : i < f.blockBytes)
    (hj : j < f.blockBytes) (h : f.addr rowBytes x y i = f.addr rowBytes x y j) : i = j := by
  cases f <;>
    simp only [RawFormat.addr, blockAddr, indexAddr, RawFormat.blockBytes] at hi hj h <;> omega

/-- The effect of a setter on every bit of the memory. -/
theorem setPixel_overlaid (f : RawFormat) (p : Memory) (rowBytes x y v : Nat) (h : HasCase f x) :
    Overlaid p (f.setPixel p rowBytes x y v) f.bpp (reach f x) (place f rowBytes x y) v := by
  have hcase : HasCase f (x % 8) := by
    intro hf
    have := h hf
    omega
  obtain ⟨hdistinct, hbound, hfield, hkept⟩ :=
    stores_follow f ⟨x % 8, Nat.mod_lt _ (by decide)⟩ hcase
  have hreach : reach f (x % 8) = reach f x := by unfold reach; rw [← phase_mod]
  simp only [← f.stores_mod, ← phase_mod f x, hreach] at hdistinct hbound hfield hkept
  have hd : (f.stores x).Pairwise
      (fun t u => f.addr rowBytes x y t.byte ≠ f.addr rowBytes x y u.byte) := by
    apply hdistinct.imp_of_mem
    intro t u ht hu hne he
    exact hne (addr_inj f rowBytes x y _ _ (hbound t ht) (hbound u hu) he)
  -- a bit of the field or before it, after the setter
  have hbit : ∀ i, i < reach f x →
      bit (f.setPixel p rowBytes x y v) (place f rowBytes x y i) =
        ((bit p (place f rowBytes x y i) && decide (f.bpp ≤ i)) || v.testBit i) := by
    intro i hi
    obtain ⟨t, ht, hbyte, htarget, hkeep⟩ := hfield ⟨i, Nat.lt_trans hi (reach_lt f x)⟩ hi
    have hat := setCase_at p (f.addr rowBytes x y) v (f.stores x) hd t ht
    have hj : (cell f (position f (phase f x) i)).2 < 8 := by simp only [cell]; omega
    simp only at hbyte htarget hkeep
    rw [f.setPixel_eq]
    simp only [bit, place, ← hbyte, hat, testBit_storeEval _ _ _ _ hj, htarget, hkeep,
      Option.any_some]
  refine ⟨?_, ?_, ?_⟩
  · intro i hi
    rw [hbit i (by unfold reach; omega)]
    have hlow : ¬f.bpp ≤ i := by omega
    simp [hlow]
  · intro i hi hw
    rw [hbit i hw]
    simp [hi]
  · intro a ha
    by_cases hj : a.2 < 8
    · by_cases hmem : ∃ t ∈ f.stores x, a.1 = f.addr rowBytes x y t.byte
      · obtain ⟨t, ht, hat⟩ := hmem
        rcases hkept t ht ⟨a.2, hj⟩ with ⟨i, hi, hc⟩ | ⟨hk, hn⟩
        · exfalso
          apply ha i hi
          simp only [place, ← hc, ← hat]
        · have hs := setCase_at p (f.addr rowBytes x y) v (f.stores x) hd t ht
          rw [f.setPixel_eq]
          simp only [bit, hat, hs, testBit_storeEval _ _ _ _ hj]
          simp only at hk hn
          simp [hk, hn]
      · apply bit_congr
        rw [f.setPixel_eq]
        exact setCase_outside _ _ _ _ _ (fun t ht he => hmem ⟨t, ht, he⟩)
    · rw [bit_high _ _ (by omega), bit_high _ _ (by omega)]

/-- Where the setter has no case the memory stays as it is. -/
theorem setPixel_no_case (f : RawFormat) (p : Memory) (rowBytes x y v : Nat) (h : ¬HasCase f x) :
    f.setPixel p rowBytes x y v = p := by
  have hf : f = .raw14b ∧ ¬x % 8 < 4 := by
    simpa only [HasCase, Classical.not_imp] using h
  obtain ⟨rfl, hx⟩ := hf
  have hs : store14b (x % 8) = [] := by
    have : x % 8 = 4 ∨ x % 8 = 5 ∨ x % 8 = 6 ∨ x % 8 = 7 := by omega
    rcases this with e | e | e | e <;> rw [e] <;> rfl
  simp [RawFormat.setPixel, rawSetPixel14b, setCase, hs]

end RawLayout
