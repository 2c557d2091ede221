import Chdkptp.LbufValues

/-!
# Values that are read back

After a call of `set_vals` the getters of every type are compared with the bytes of the
values. An offset is an `int`, so that nothing from `2 ^ 31` on is written or read.
-/

namespace LbufCoherence

open ByteMemory Lbuf LittleEndian LbufValues TracedRead

/-- A part of what was copied is read back. -/
theorem slice_blit_within (m : Memory) (off k n : Nat) (bs : List UInt8)
    (h : k + n ≤ bs.length) : slice (blit m off bs) (off + k) n = (bs.drop k).take n := by
  apply List.ext_getElem
  · rw [slice_length, List.length_take, List.length_drop, Nat.min_eq_left (by omega)]
  · intro i hi hi'
    rw [slice_length] at hi
    have hinside := blit_inside m off bs (k + i) (by omega)
    rw [List.getD_eq_getElem bs 0 (by omega)] at hinside
    simpa [slice, Nat.add_assoc] using hinside

/-- Among blocks of one length each has its own place. -/
theorem flatMap_slice {α : Type} {f : α → List UInt8} {len : Nat} {l : List α}
    (hlen : ∀ a ∈ l, (f a).length = len) {i : Nat} (h : i < l.length) :
    ((l.flatMap f).drop (len * i)).take len = f l[i] := by
  induction l generalizing i with
  | nil => exact absurd h (Nat.not_lt_zero i)
  | cons a l ih =>
    have ha := hlen a List.mem_cons_self
    rw [List.flatMap_cons]
    cases i with
    | zero =>
      rw [Nat.mul_zero, List.drop_zero, List.take_left' ha]
      rfl
    | succ i =>
      have hskip : len * (i + 1) = len + len * i := by rw [Nat.mul_add]; omega
      rw [hskip, ← List.drop_drop, List.drop_left' ha]
      exact ih (fun a ha => hlen a (List.mem_cons_of_mem _ ha)) (Nat.lt_of_succ_lt_succ h)

theorem flatMap_length {α : Type} {f : α → List UInt8} {len : Nat} {l : List α}
    (hlen : ∀ a ∈ l, (f a).length = len) : (l.flatMap f).length = len * l.length := by
  induction l with
  | nil => rfl
  | cons a l ih =>
    have hrest := ih fun a ha => hlen a (List.mem_cons_of_mem _ ha)
    rw [List.flatMap_cons, List.length_append, hlen a List.mem_cons_self, hrest, List.length_cons,
      Nat.mul_add]
    omega

/-- What a getter returns of some bytes, from the `k`th on. -/
def decoded (t : Elem) (bs : List UInt8) (k count : Nat) : List Int :=
  (List.range count).map fun i => decode t.signed ((bs.drop (k + i * t.size)).take t.size)

theorem elements_blit (t : Elem) (m : Memory) (off k count : Nat) (bs : List UInt8)
    (h : k + count * t.size ≤ bs.length) :
    elements t (blit m off bs) (off + k) count = decoded t bs k count := by
  refine List.map_congr_left fun i hi => ?_
  have hi := List.mem_range.mp hi
  have hmul : (i + 1) * t.size ≤ count * t.size := Nat.mul_le_mul_right _ hi
  rw [Nat.add_mul] at hmul
  rw [Nat.add_assoc, slice_blit_within m off _ _ bs (by omega)]

theorem decoded_same (t : Elem) {vals : List Int}
    (h : ∀ v ∈ vals, InRange t.signed t.size v) :
    decoded t (encodeAll t vals) 0 vals.length = vals := by
  apply List.ext_getElem
  · simp [decoded]
  · intro i hi hi'
    have hvalue := decode_encode (h vals[i] (List.getElem_mem hi'))
    have hbytes := flatMap_slice (fun v _ => encode_length t.size v) hi'
    simp only [decoded, List.getElem_map, List.getElem_range, Nat.zero_add]
    rw [encodeAll, Nat.mul_comm i, hbytes, hvalue]

/-- A getter inside the buffer returns what it is asked for. -/
theorem getVals_fitting (stack : Stack) (t : Elem) (buf : LBuf) {off count : Nat}
    (hlen : t.size ≤ buf.len.toNat) (hoff : off < 2 ^ 31) (hcount : count < 2 ^ 31)
    (h : off + count * t.size ≤ buf.len.toNat) :
    getVals stack t buf (some off) (some count) (contentsAt buf) =
      if count ≤ stack.free then (.ok (elements t buf.bytes off count), elementReads t off count)
      else (.error .stackSpace, []) := by
  have hsame : off % 2 ^ 32 = off := Nat.mod_eq_of_lt (by omega)
  have hlow : (-2 ^ 31 : Int) ≤ count := by omega
  have hhigh : (count : Int) < 2 ^ 31 := by omega
  rw [getVals_outcome stack t buf off count (by omega) hlow hhigh, hsame]
  have hmax := buf.len.toNat_lt
  by_cases hpast : off + t.size ≤ buf.len.toNat
  · have hclamped : ¬Clamped buf.len.toNat t.size off count := by
      have hend : (off : Int) + (count : Int) * t.size = (off + count * t.size : Nat) := by
        push_cast
        rfl
      unfold Clamped
      rw [hend]
      omega
    rw [outcome_inside t.size_cases hmax hpast, if_neg hclamped]
    by_cases hroom : count ≤ stack.free
    · rw [if_neg (by omega), if_pos hroom]
      rfl
    · rw [if_pos (by omega), if_neg hroom]
  · have hzero : count = 0 := by
      rcases t.size_cases with hs | hs | hs <;> rw [hs] at h hpast <;> omega
    rw [outcome_past hlen (by omega), hzero, if_pos (Nat.zero_le _)]

/-- The values are set and counted, the getter of the same type returns them, the other
getters return parts of their bytes, and other bytes stay. -/
structure Coherent (stack : Stack) (t : Elem) (buf : LBuf) (off : Nat) (vals : Values)
    (buf' : LBuf) : Prop where
  set : setVals t buf (.given (some off) vals) = .ok (buf', (vals.list.length : Int))
  same : (getVals stack t buf' (some off) (some vals.list.length) (contentsAt buf')).1 =
    if vals.list.length ≤ stack.free then .ok vals.list else .error .stackSpace
  frame : ∀ o, o < off ∨ off + vals.list.length * t.size ≤ o → buf'.bytes o = buf.bytes o
  others : ∀ (t' : Elem) (k count : Nat), 0 < count →
    k + count * t'.size ≤ vals.list.length * t.size →
    (getVals stack t' buf' (some (off + k : Nat)) (some count) (contentsAt buf')).1 =
      if count ≤ stack.free then .ok (decoded t' (encodeAll t vals.list) k count)
      else .error .stackSpace

section Reading

variable {stack : Stack} {t : Elem} {buf : LBuf} {off : Nat} {vals : Values}
  (hfit : off + vals.list.length * t.size ≤ buf.len.toNat)

include hfit

theorem setVals_all (hoff : off < 2 ^ 31) :
    setVals t buf (.given (some off) vals) =
      .ok (⟨buf.len, blit buf.bytes off (encodeAll t vals.list)⟩, (vals.list.length : Int)) := by
  have hplace : (Option.getD (some (off : Int)) 0).toNat = off := rfl
  have hsame : (Option.getD (some (off : Int)) 0).toNat % 2 ^ 32 = off := by
    rw [hplace]
    omega
  have hsize := t.size_cases
  have hcount : min vals.list.length (whole buf.len.toNat t.size off) = vals.list.length := by
    refine Nat.min_eq_left ((Nat.le_div_iff_mul_le (by omega)).mpr ?_)
    omega
  have hset := @setVals_fitting t buf (some (off : Int)) (Int.natCast_nonneg off) (by omega) vals
    (by omega)
  rw [hsame, hcount, List.take_length] at hset
  exact hset

theorem coherent_low (hlen : 4 ≤ buf.len.toNat) (hrange : ∀ v ∈ vals.list, InRange t.signed t.size v) (hoff : off < 2 ^ 31)
    (hend : off + vals.list.length * t.size ≤ 2 ^ 31) :
    Coherent stack t buf off vals ⟨buf.len, blit buf.bytes off (encodeAll t vals.list)⟩ := by
  have hsize := t.size_cases
  have hmany : vals.list.length < 2 ^ 31 := Nat.lt_of_le_of_lt vals.bound (by decide)
  have hlength : (encodeAll t vals.list).length = vals.list.length * t.size := encodeAll_length _ _
  refine ⟨setVals_all hfit hoff, ?_, fun o ho => ?_, fun t' k count hpos hk => ?_⟩
  · have helements := elements_blit t buf.bytes off 0 vals.list.length (encodeAll t vals.list)
      (by omega)
    rw [decoded_same t hrange, Nat.add_zero] at helements
    have hget := getVals_fitting stack t
      ⟨buf.len, blit buf.bytes off (encodeAll t vals.list)⟩ (by dsimp only; omega) hoff hmany hfit
    rw [hget, helements]
    split_ifs <;> rfl
  · exact blit_outside _ _ _ _ (by omega)
  · have hsize' := t'.size_cases
    have hcount : count ≤ count * t'.size := Nat.le_mul_of_pos_right _ (by omega)
    have hvalues : vals.list.length ≤ 1000000 := vals.bound
    have hbytes : vals.list.length * t.size ≤ 1000000 * 4 := Nat.mul_le_mul hvalues (by omega)
    have hplace : off + k + count * t'.size ≤ buf.len.toNat := by omega
    have helements := elements_blit t' buf.bytes off k count (encodeAll t vals.list) (by omega)
    have hget := getVals_fitting stack t'
      ⟨buf.len, blit buf.bytes off (encodeAll t vals.list)⟩ (by dsimp only; omega) (by omega)
      (by omega) hplace
    rw [hget, helements]
    split_ifs <;> rfl

end Reading

/-- Neither is an offset written nor a byte read that does not fit an `int`. -/
theorem coherent_bounds {stack : Stack} {t : Elem} {buf buf' : LBuf} {off : Nat} {vals : Values}
    (hfit : off + vals.list.length * t.size ≤ buf.len.toNat)
    (h : Coherent stack t buf off vals buf') :
    off < 2 ^ 31 ∧ off + vals.list.length * t.size ≤ 2 ^ 31 := by
  have hmax := buf.len.toNat_lt
  have hoff : off < 2 ^ 31 := by
    by_contra hlarge
    have hplace : (Option.getD (some (off : Int)) 0).toNat = off := rfl
    have herror := setVals_negative t buf (some (off : Int)) vals (Int.natCast_nonneg off)
      (by rw [hplace]; omega)
    have hset := h.set
    rw [herror] at hset
    cases hset
  refine ⟨hoff, ?_⟩
  by_contra hlarge
  have hbyte := h.others .u8 (vals.list.length * t.size - 1) 1 Nat.one_pos
    (by rw [Elem.size]; omega)
  rw [getVals_negative stack .u8 buf' _ _ (by omega)] at hbyte
  split_ifs at hbyte
  cases hbyte

/-- For every buffer of at least four bytes, every offset and values in range that fit: what
is set is read back by the getters of all types, if and only if it ends where an `int`
leads. -/
theorem coherent_iff (stack : Stack) (t : Elem) (buf : LBuf) (off : Nat) (vals : Values)
    (hlen : 4 ≤ buf.len.toNat) (hfit : off + vals.list.length * t.size ≤ buf.len.toNat)
    (hrange : ∀ v ∈ vals.list, InRange t.signed t.size v) :
    (∃ buf', Coherent stack t buf off vals buf') ↔
      off < 2 ^ 31 ∧ off + vals.list.length * t.size ≤ 2 ^ 31 := by
  constructor
  · rintro ⟨buf', h⟩
    exact coherent_bounds hfit h
  · rintro ⟨hoff, hend⟩
    exact ⟨_, coherent_low hfit hlen hrange hoff hend⟩

theorem coherent_iff_values :
    4 ≤ (⟨6, fun _ => 7⟩ : LBuf).len.toNat ∧
      ∃ buf', Coherent wholeStack .i16 ⟨6, fun _ => 7⟩ 1 ⟨[-2, 300], by decide⟩ buf' :=
  ⟨by decide, (coherent_iff wholeStack .i16 _ 1 ⟨[-2, 300], by decide⟩ (by decide) (by decide)
    (by simp [InRange, Elem.signed, Elem.size])).mpr ⟨by decide, by decide⟩⟩

/-- A byte that is far enough behind cannot be set. -/
theorem not_coherent :
    ¬∃ buf', Coherent wholeStack .u8 ⟨0x80000001, fun _ => 0⟩ 0x80000000 ⟨[1], by decide⟩ buf' := by
  rintro ⟨buf', h⟩
  exact absurd (coherent_bounds (by decide) h).1 (by decide)

end LbufCoherence
