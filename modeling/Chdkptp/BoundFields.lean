import Chdkptp.LbufUtil

/-!
# Reading and setting bound fields

A field stands for the bytes from its offset on. The accessors of the buffer take an offset for
an `int`, so a field that is set has to begin where an `int` leads, and the text of a string that
is further behind is taken from other bytes.
-/

namespace BoundFields

open ByteMemory ActionSystem LuaValue LuaText RemoteCapture Lbuf LittleEndian
  LbufCoherence LbufIndex TracedRead LbufUtil
open LbufValues hiding outcome
open DngEntry (minStack oneValue)

/-! ## Texts in memory -/

section Texts

variable {m m' : Memory} {o n k : Nat}

/-- The bytes before the first zero. -/
def upToNul (bs : List UInt8) : List UInt8 := bs.takeWhile (· ≠ 0)

theorem slice_split (m : Memory) (o : Nat) (hk : k ≤ n) :
    slice m o n = slice m o k ++ slice m (o + k) (n - k) := by
  rw [← slice_append, Nat.add_sub_cancel' hk]

/-- The text is as long as the bytes before the first zero are many. -/
theorem upToNul_length_iff (hk : k < n) (hne : ∀ i, i < k → m (o + i) ≠ 0) :
    (upToNul (slice m o n)).length = k ↔ m (o + k) = 0 := by
  have hfront : ∀ b ∈ slice m o k, (decide (b ≠ 0)) = true := by
    intro b hb
    obtain ⟨i, hi, rfl⟩ := List.mem_map.mp hb
    simpa using hne i (List.mem_range.mp hi)
  obtain ⟨rest, hrest⟩ : ∃ rest, slice m (o + k) (n - k) = m (o + k) :: rest := by
    obtain ⟨d, hd⟩ : ∃ d, n - k = d + 1 := ⟨n - k - 1, by omega⟩
    rw [hd, slice, List.range_succ_eq_map]
    exact ⟨_, rfl⟩
  rw [slice_split m o (Nat.le_of_lt hk), upToNul, List.takeWhile_append_of_pos hfront, hrest]
  by_cases hzero : m (o + k) = 0
  · simp [hzero]
  · simp [hzero]

/-- Nothing behind the first zero counts. -/
theorem upToNul_congr (hk : k ≤ n) (hsame : ∀ i, i < k → m (o + i) = m' (o + i))
    (hend : k = n ∨ ∃ i, i < k ∧ m (o + i) = 0) :
    upToNul (slice m o n) = upToNul (slice m' o n) := by
  have hfront : slice m o k = slice m' o k := slice_congr hsame
  obtain rfl | ⟨i, hi, hzero⟩ := hend
  · rw [hfront]
  · have hstop : ∀ rest, upToNul (slice m' o k ++ rest) = upToNul (slice m' o k) := by
      intro rest
      rw [upToNul, List.takeWhile_append, if_neg]
      · rfl
      · intro hall
        have hmem : m (o + i) ∈ slice m' o k := by
          rw [← hfront]
          exact List.mem_map.mpr ⟨i, List.mem_range.mpr hi, rfl⟩
        have hfull := List.takeWhile_prefix (l := slice m' o k) (fun b => decide (b ≠ 0))
        rw [← hfull.eq_of_length hall] at hmem
        simpa [hzero] using List.mem_takeWhile_imp hmem
    rw [slice_split m o hk, slice_split m' o hk, hfront, hstop, hstop]

end Texts

/-! ## The bytes of a field -/

def byte : Number → Nat
  | .of q => ⌊q⌋₊
  | .nan => 0

def first (f : BoundField) : Nat := byte f.offset

def past (f : BoundField) : Nat := byte (f.offset.add (.of f.len))

def Covers (f : BoundField) (p : Nat) : Prop := first f ≤ p ∧ p < past f

/-- The fields have no byte in common. -/
def Apart (f f' : BoundField) : Prop := ∀ p, Covers f p → ¬Covers f' p

/-- Where the text of a field is taken from, with the indexes cut to an `int`. -/
def textStart (f : BoundField) (len : Nat) : Nat := cutPos (first f + 1 : Nat) len - 1

def textStop (f : BoundField) (len : Nat) : Nat := min (cutPos (past f) len) len

/-- The text of a field is taken from where the other field stands: no zero is before the first
byte of the other field. -/
def Sees (lb : LBuf) (f' f : BoundField) : Prop :=
  ∃ p, Covers f p ∧ textStart f' lb.len.toNat ≤ p ∧ p < textStop f' lb.len.toNat ∧
    ∀ r, textStart f' lb.len.toNat ≤ r → r < p → ¬Covers f r ∧ lb.bytes r ≠ 0

section Value

variable {L : Lua} {lb : LBuf} {f : BoundField} {q : ℚ} {t : Elem}

theorem toInteger_of (L : Lua) (hq : 0 ≤ q) :
    (Number.of q).toInteger L.nanInteger = byte (.of q) := by
  rw [Number.toInteger, if_pos hq, byte, Int.natCast_floor_eq_floor hq]

/-- What the offset of a field that lies in the buffer says of its bytes. -/
structure At (lb : LBuf) (f : BoundField) (q : ℚ) : Prop where
  offset : f.offset = .of q
  low : 0 ≤ q
  high : q + f.len ≤ lb.len.toNat

theorem At.past_eq (h : At lb f q) : past f = byte (.of (q + f.len)) := by
  rw [past, h.offset, add_of_of]

theorem At.first_eq (h : At lb f q) : first f = byte (.of q) := by
  rw [first, h.offset]

theorem At.past_le (h : At lb f q) : past f ≤ lb.len.toNat := by
  rw [h.past_eq]
  exact Nat.floor_le_of_le h.high

theorem At.past_int (h : At lb f q) (hsize : f.len = t.size) : past f = first f + t.size := by
  rw [h.past_eq, h.first_eq, hsize]
  exact_mod_cast Nat.floor_add_natCast h.low t.size

theorem At.toInteger_offset (L : Lua) (h : At lb f q) :
    f.offset.toInteger L.nanInteger = first f := by
  rw [h.offset, toInteger_of L h.low, h.first_eq]

theorem value_int (h : At lb f q) (hget : f.get = .int t) (hsize : f.len = t.size) :
    f.value L lb =
      if first f < 2 ^ 31 then .ok (.number (.of (decode t.signed (slice lb.bytes (first f) t.size))))
      else .error (lbufError .negativeOffset) := by
  have hend := h.past_le
  rw [h.past_int hsize] at hend
  have hmax := lb.len.toNat_lt
  have hsizes := t.size_cases
  have hcount : getVals minStack t lb (some (first f : Int)) none (contentsAt lb) =
      getVals minStack t lb (some (first f : Int)) (some (1 : Nat)) (contentsAt lb) := rfl
  simp only [BoundField.value, hget, h.toInteger_offset, hcount]
  by_cases hlow : first f < 2 ^ 31
  · rw [getVals_fitting minStack t lb (by omega) hlow (by decide) (by omega), if_pos (by decide),
      if_pos hlow]
    simp [elements]
  · rw [getVals_negative minStack t lb _ _ (by omega), if_neg hlow]

theorem value_sz (h : At lb f q) (hget : f.get = .sz) :
    f.value L lb = .ok (.str (upToNul (slice lb.bytes (textStart f lb.len.toNat)
      (textStop f lb.len.toNat - textStart f lb.len.toNat)))) := by
  have hlen : (0 : ℚ) ≤ f.len := f.len.2
  have hstart : (f.offset.add (.of 1)).toInteger L.nanInteger = (first f + 1 : Nat) := by
    rw [h.offset, add_of_of, toInteger_of L (add_nonneg h.low zero_le_one), h.first_eq]
    exact_mod_cast Nat.floor_add_one h.low
  have hstop : (f.offset.add (.of f.len)).toInteger L.nanInteger = past f := by
    rw [h.offset, add_of_of, toInteger_of L (add_nonneg h.low hlen), h.past_eq]
  have hstring := @lbufString_apply lb (some (first f + 1 : Nat)) (some (past f)) _ _ rfl rfl
  simp only [BoundField.value, hget, hstart, hstop, hstring]
  rw [LBuf.contents, part_slice]
  rfl

/-- What an assignment does to a field that is set at an offset that fits an `int`. -/
theorem setVals_field (h : At lb f q) (hsize : f.len = t.size) (hlow : first f < 2 ^ 31) (v : Int) :
    setVals t lb (.given (some (f.offset.toInteger L.nanInteger)) (oneValue v)) =
      .ok (⟨lb.len, blit lb.bytes (first f) (encode t.size v)⟩, 1) := by
  have hend := h.past_le
  rw [h.past_int hsize] at hend
  rw [h.toInteger_offset]
  have hset := @setVals_all t lb (first f) (oneValue v) (by simpa [oneValue] using hend) hlow
  simpa [oneValue, encodeAll] using hset

theorem setVals_high (h : At lb f q) (hsize : f.len = t.size) (hhigh : ¬first f < 2 ^ 31)
    (v : Int) :
    setVals t lb (.given (some (f.offset.toInteger L.nanInteger)) (oneValue v)) =
      .error .negativeOffset := by
  have hend := h.past_le
  rw [h.past_int hsize] at hend
  have hmax := lb.len.toNat_lt
  rw [h.toInteger_offset]
  have hplace : (Option.getD (some (first f : Int)) 0).toNat = first f := rfl
  exact setVals_negative t lb _ _ (Int.natCast_nonneg _) (by rw [hplace]; omega)

end Value

/-! ## The law -/

/-- What is promised of a wrapper. -/
structure Lawful (L : Lua) (w : Wrapper) : Prop where
  position : ∃ q, w.bindpos = .of q ∧ 0 ≤ q ∧ q ≤ w.len
  inside : ∀ k f, w.fields k = some f → ∃ q, f.offset = .of q ∧ 0 ≤ q ∧ q + f.len ≤ w.len
  failing : ∀ a e w', outcome L w a = (.error e, w') → w' = w
  /-- What is bound is found by the metamethods. -/
  bound : ∀ k f, w.fields k = some f → k ∉ w.own
  readOnly : ∀ k f v, w.fields k = some f → f.set = none →
    newindex L w k v = (.error (readOnlyError L k), w)
  readWrite : ∀ k f t v, w.fields k = some f → f.set = some t → InRange t.signed t.size v →
    ∃ w', newindex L w k (.number (.of v)) = (.ok .nil, w') ∧
      index L w' k = .ok (.number (.of v)) ∧ w'.fields = w.fields ∧ w'.bindpos = w.bindpos ∧
      ∀ k' f', w.fields k' = some f' → Apart f f' → index L w' k' = index L w k'

/-- The fields that are set begin where an `int` leads, and no text is taken from one of them
that is elsewhere. -/
structure Readable (w : Wrapper) : Prop where
  low : ∀ k f t, w.fields k = some f → f.set = some t → first f < 2 ^ 31
  unseen : ∀ k f t k' f', w.fields k = some f → f.set = some t → w.fields k' = some f' →
    f'.get = .sz → Apart f f' → ¬Sees w.lb f' f

section Law

variable {L : Lua} {w : Wrapper} {k k' : Val} {f f' : BoundField} {t : Elem} {v : Int}

/-- What is known of a bound field. -/
theorem field_at (hs : Sane w) (hp : Placed w) (hf : w.fields k = some f) :
    ∃ q, At w.lb f q := by
  cases hoff : f.offset with
  | nan => exact absurd hoff (hp.field k f hf)
  | of q =>
    obtain ⟨hlow, hhigh⟩ := (hs.field k f hf).inside q hoff
    exact ⟨q, hoff, hlow, hhigh⟩

theorem toInteger_int (L : Lua) (v : Int) : toInteger L (.number (.of v)) = v := by
  simp [toInteger, Number.toInteger]

theorem newindex_field (hf : w.fields k = some f) (hset : f.set = some t) :
    newindex L w k (.number (.of v)) =
      setBuffer w (setVals t w.lb (.given (some (f.offset.toInteger L.nanInteger)) (oneValue v))) := by
  simp only [newindex, hf, hset, toInteger_int]

/-- The buffer after an assignment. -/
def setBytes (lb : LBuf) (f : BoundField) (t : Elem) (v : Int) : LBuf :=
  ⟨lb.len, blit lb.bytes (first f) (encode t.size v)⟩

section Written

variable (hs : Sane w) (hp : Placed w) (hf : w.fields k = some f) (hset : f.set = some t)

include hs hp hf hset

theorem newindex_low (hlow : first f < 2 ^ 31) :
    newindex L w k (.number (.of v)) = (.ok .nil, { w with lb := setBytes w.lb f t v }) := by
  obtain ⟨q, hq⟩ := field_at hs hp hf
  have hsane := hs.field k f hf
  rw [newindex_field hf hset, setVals_field hq (hsane.sized t (hsane.same t hset)) hlow]
  rfl

theorem newindex_high (hhigh : ¬first f < 2 ^ 31) :
    newindex L w k (.number (.of v)) = (.error (lbufError .negativeOffset), w) := by
  obtain ⟨q, hq⟩ := field_at hs hp hf
  have hsane := hs.field k f hf
  rw [newindex_field hf hset, setVals_high hq (hsane.sized t (hsane.same t hset)) hhigh]
  rfl

theorem past_set : past f = first f + t.size := by
  obtain ⟨q, hq⟩ := field_at hs hp hf
  have hsane := hs.field k f hf
  exact hq.past_int (hsane.sized t (hsane.same t hset))

/-- Only the bytes of the field change. -/
theorem setBytes_outside {p : Nat} (h : ¬Covers f p) :
    (setBytes w.lb f t v).bytes p = w.lb.bytes p := by
  have hpast := past_set hs hp hf hset
  rw [Covers, hpast] at h
  apply blit_outside
  rw [encode_length]
  omega

theorem setBytes_inside {p : Nat} (h : Covers f p) :
    (setBytes w.lb f t v).bytes p = (encode t.size v).getD (p - first f) 0 := by
  have hpast := past_set hs hp hf hset
  rw [Covers, hpast] at h
  have hinside := blit_inside w.lb.bytes (first f) (encode t.size v) (p - first f)
    (by rw [encode_length]; omega)
  rwa [Nat.add_sub_cancel' h.1] at hinside

theorem index_same (hlow : first f < 2 ^ 31) (hrange : InRange t.signed t.size v) :
    index L { w with lb := setBytes w.lb f t v } k = .ok (.number (.of v)) := by
  obtain ⟨q, hq⟩ := field_at hs hp hf
  have hsane := hs.field k f hf
  have hget := hsane.same t hset
  have hq' : At (setBytes w.lb f t v) f q := ⟨hq.offset, hq.low, hq.high⟩
  have hslice : slice (setBytes w.lb f t v).bytes (first f) t.size = encode t.size v := by
    have hsame := slice_blit_same w.lb.bytes (first f) (encode t.size v)
    rwa [encode_length] at hsame
  simp only [index, hf]
  rw [value_int hq' hget (hsane.sized t hget), if_pos hlow, hslice, decode_encode hrange]

/-- The text of a field that does not see the change stays. -/
theorem text_apart (hunseen : ¬Sees w.lb f' f) :
    upToNul (slice (setBytes w.lb f t v).bytes (textStart f' w.lb.len.toNat)
        (textStop f' w.lb.len.toNat - textStart f' w.lb.len.toNat)) =
      upToNul (slice w.lb.bytes (textStart f' w.lb.len.toNat)
        (textStop f' w.lb.len.toNat - textStart f' w.lb.len.toNat)) := by
  symm
  by_cases hmeet : ∃ d, textStart f' w.lb.len.toNat + d < textStop f' w.lb.len.toNat ∧
      Covers f (textStart f' w.lb.len.toNat + d)
  · -- a zero stands before the first byte that changes
    obtain ⟨d, ⟨hd, hcovers⟩, hfirst⟩ : ∃ d, (textStart f' w.lb.len.toNat + d <
        textStop f' w.lb.len.toNat ∧ Covers f (textStart f' w.lb.len.toNat + d)) ∧
        ∀ i, i < d → ¬(textStart f' w.lb.len.toNat + i < textStop f' w.lb.len.toNat ∧
          Covers f (textStart f' w.lb.len.toNat + i)) := by
      classical
      exact ⟨Nat.find hmeet, Nat.find_spec hmeet, fun i hi => Nat.find_min hmeet hi⟩
    have hbefore : ∀ i, i < d → ¬Covers f (textStart f' w.lb.len.toNat + i) :=
      fun i hi hc => hfirst i hi ⟨by omega, hc⟩
    refine upToNul_congr (by omega : d ≤ _) (fun i hi => ?_) (.inr ?_)
    · exact (setBytes_outside hs hp hf hset (hbefore i hi)).symm
    · by_contra hzero
      refine hunseen ⟨_, hcovers, Nat.le_add_right _ _, hd, fun r hr hrd => ?_⟩
      obtain ⟨i, rfl⟩ := Nat.exists_eq_add_of_le hr
      exact ⟨hbefore i (by omega), fun hr => hzero ⟨i, by omega, hr⟩⟩
  · refine upToNul_congr (Nat.le_refl _) (fun i hi => ?_) (.inl rfl)
    exact (setBytes_outside hs hp hf hset fun hc => hmeet ⟨i, by omega, hc⟩).symm

theorem index_apart (hf' : w.fields k' = some f') (hapart : Apart f f')
    (hunseen : f'.get = .sz → ¬Sees w.lb f' f) :
    index L { w with lb := setBytes w.lb f t v } k' = index L w k' := by
  obtain ⟨q, hq⟩ := field_at hs hp hf'
  have hq' : At (setBytes w.lb f t v) f' q := ⟨hq.offset, hq.low, hq.high⟩
  simp only [index, hf']
  cases hget : f'.get with
  | int t' =>
    have hsize := (hs.field k' f' hf').sized t' hget
    have hpast := hq.past_int hsize
    have hslice : slice (setBytes w.lb f t v).bytes (first f') t'.size =
        slice w.lb.bytes (first f') t'.size := by
      refine slice_congr fun i hi => setBytes_outside hs hp hf hset fun hc => ?_
      exact hapart _ hc ⟨by omega, by omega⟩
    rw [value_int hq' hget hsize, value_int hq hget hsize, hslice]
  | sz =>
    rw [value_sz hq' hget, value_sz hq hget]
    have htext := @text_apart w k f f' t v hs hp hf hset (hunseen hget)
    exact congrArg (fun text => Except.ok (Prefs.Val.str text)) htext

end Written

/-- There are values whose bytes are all 0, or all 1. -/
theorem constant_value (t : Elem) {b : UInt8} (hb : b = 0 ∨ b = 1) :
    ∃ v, InRange t.signed t.size v ∧ encode t.size v = List.replicate t.size b := by
  obtain rfl | rfl := hb
  · exact ⟨0, by cases t <;> simp [InRange, Elem.signed, Elem.size], by cases t <;> rfl⟩
  · cases t with
    | i8 => exact ⟨1, by simp [InRange, Elem.signed, Elem.size], by decide⟩
    | u8 => exact ⟨1, by simp [InRange, Elem.signed, Elem.size], by decide⟩
    | i16 => exact ⟨0x101, by simp [InRange, Elem.signed, Elem.size], by decide⟩
    | u16 => exact ⟨0x101, by simp [InRange, Elem.signed, Elem.size], by decide⟩
    | i32 => exact ⟨0x1010101, by simp [InRange, Elem.signed, Elem.size], by decide⟩
    | u32 => exact ⟨0x1010101, by simp [InRange, Elem.signed, Elem.size], by decide⟩

/-- A text changes with the first byte that it takes from another field. -/
theorem index_seen (hs : Sane w) (hp : Placed w) (hf : w.fields k = some f)
    (hset : f.set = some t) (hf' : w.fields k' = some f') (hget : f'.get = .sz)
    (hsees : Sees w.lb f' f) :
    ∃ v, InRange t.signed t.size v ∧
      index L { w with lb := setBytes w.lb f t v } k' ≠ index L w k' := by
  obtain ⟨p, hcovers, hstart, hstop, hbefore⟩ := hsees
  obtain ⟨d, rfl⟩ := Nat.exists_eq_add_of_le hstart
  have hne : ∀ i, i < d → w.lb.bytes (textStart f' w.lb.len.toNat + i) ≠ 0 :=
    fun i hi => (hbefore _ (Nat.le_add_right _ _) (by omega)).2
  obtain ⟨b, hb, hchange⟩ : ∃ b : UInt8, (b = 0 ∨ b = 1) ∧
      ¬(w.lb.bytes (textStart f' w.lb.len.toNat + d) = 0 ↔ b = 0) := by
    by_cases hzero : w.lb.bytes (textStart f' w.lb.len.toNat + d) = 0
    · exact ⟨1, .inr rfl, by simp [hzero]⟩
    · exact ⟨0, .inl rfl, by simp [hzero]⟩
  obtain ⟨v, hrange, hencode⟩ := constant_value t hb
  refine ⟨v, hrange, fun heq => hchange ?_⟩
  have hpast := past_set hs hp hf hset
  have hbyte : (setBytes w.lb f t v).bytes (textStart f' w.lb.len.toNat + d) = b := by
    have hplace := hcovers
    rw [Covers, hpast] at hplace
    rw [setBytes_inside hs hp hf hset hcovers, hencode, List.getD_replicate]
    omega
  have hne' : ∀ i, i < d → (setBytes w.lb f t v).bytes (textStart f' w.lb.len.toNat + i) ≠ 0 := by
    intro i hi
    have hout := (hbefore (textStart f' w.lb.len.toNat + i) (Nat.le_add_right _ _) (by omega)).1
    rw [setBytes_outside hs hp hf hset hout]
    exact hne i hi
  obtain ⟨q, hq⟩ := field_at hs hp hf'
  have hq' : At (setBytes w.lb f t v) f' q := ⟨hq.offset, hq.low, hq.high⟩
  simp only [index, hf'] at heq
  rw [value_sz hq' hget, value_sz hq hget] at heq
  have htext := congrArg List.length (Prefs.Val.str.inj (Except.ok.inj heq))
  have hlen : d < textStop f' w.lb.len.toNat - textStart f' w.lb.len.toNat := by omega
  rw [← upToNul_length_iff hlen hne, ← htext, ← hbyte]
  exact upToNul_length_iff hlen hne'

/-- Where the positions are numbers the promise is kept exactly when the fields are readable. -/
theorem lawful_iff (hs : Sane w) (hp : Placed w) : Lawful L w ↔ Readable w := by
  constructor
  · intro h
    constructor
    · intro k f t hf hset
      by_contra hhigh
      obtain ⟨v, hrange, -⟩ := constant_value t (.inl rfl)
      obtain ⟨w', hnew, -⟩ := h.readWrite k f t v hf hset hrange
      rw [newindex_high hs hp hf hset hhigh] at hnew
      cases hnew
    · intro k f t k' f' hf hset hf' hget hapart hsees
      obtain ⟨v, hrange, hne⟩ := @index_seen L w k k' f f' t hs hp hf hset hf' hget hsees
      obtain ⟨w', hnew, -, -, -, hothers⟩ := h.readWrite k f t v hf hset hrange
      by_cases hlow : first f < 2 ^ 31
      · rw [newindex_low hs hp hf hset hlow] at hnew
        cases hnew
        exact hne (hothers k' f' hf' hapart)
      · rw [newindex_high hs hp hf hset hlow] at hnew
        cases hnew
  · intro h
    constructor
    · cases hpos : w.bindpos with
      | nan => exact absurd hpos hp.position
      | of q => exact ⟨q, rfl, hs.position q hpos⟩
    · intro k f hf
      obtain ⟨q, hq⟩ := field_at hs hp hf
      exact ⟨q, hq.offset, hq.low, hq.high⟩
    · exact fun a e w' => outcome_error
    · exact hs.bound
    · intro k f v hf hset
      simp only [newindex, hf, hset]
    · intro k f t v hf hset hrange
      have hlow := h.low k f t hf hset
      refine ⟨_, newindex_low hs hp hf hset hlow, index_same hs hp hf hset hlow hrange, rfl, rfl,
        fun k' f' hf' hapart => ?_⟩
      exact index_apart hs hp hf hset hf' hapart fun hget =>
        h.unseen k f t k' f' hf hset hf' hget hapart

/-- A text that ends where an `int` leads is that of the field itself. -/
theorem not_sees_low (hstart : first f' + 1 < 2 ^ 31)
    (hstop : past f' < 2 ^ 31) (hapart : Apart f f') : ¬Sees w.lb f' f := by
  rintro ⟨p, hcovers, hp, hp', -⟩
  rw [textStart, cutPos_natCast hstart, Nat.add_sub_cancel] at hp
  rw [textStop, cutPos_natCast hstop] at hp'
  exact hapart p hcovers ⟨hp, by omega⟩

/-- In a buffer that is not too large for an `int` all fields are readable. -/
theorem readable_of_small (hs : Sane w) (hp : Placed w) (hlen : w.lb.len.toNat + 1 < 2 ^ 31) :
    Readable w := by
  have hfirst : ∀ k f, w.fields k = some f → first f ≤ w.lb.len.toNat := by
    intro k f hf
    obtain ⟨q, hq⟩ := field_at hs hp hf
    rw [hq.first_eq]
    exact Nat.floor_le_of_le (le_trans (le_add_of_nonneg_right f.len.2) hq.high)
  constructor
  · intro k f t hf hset
    have hle := hfirst k f hf
    omega
  · intro k f t k' f' hf hset hf' hget hapart
    obtain ⟨q, hq⟩ := field_at hs hp hf'
    have hle := hfirst k' f' hf'
    have hpast := hq.past_le
    exact not_sees_low (by omega) (by omega) hapart

end Law

/-! ## Runs -/

section Runs

variable {L : Lua} {w w' : Wrapper} {acts : List Act}

theorem run_sane (hs : Sane w) (h : (lbu L).run w acts = some w') : Sane w' := by
  refine (lbu L).run_invariant Sane (fun s a s' hs hstep => ?_) hs h
  obtain ⟨r, hr⟩ := step_outcome hstep
  exact outcome_sane hs hr

theorem lawful_placed (h : Lawful L w) : Placed w := by
  obtain ⟨q, hq, -⟩ := h.position
  refine ⟨by simp [hq], fun k f hf => ?_⟩
  obtain ⟨q, hq, -⟩ := h.inside k f hf
  simp [hq]

/-- For every wrapper and every sequence of calls: the promise is kept in every state exactly if
no call takes NaN for an offset and the fields of every state are readable. -/
theorem lawful_runs_iff (L : Lua) (lb : LBuf) {acts : List Act} {w : Wrapper}
    (h : (lbu L).run (wrap lb) acts = some w) :
    (∀ before after t, acts = before ++ after → (lbu L).run (wrap lb) before = some t →
      Lawful L t) ↔
      (∀ before a after t, acts = before ++ a :: after → (lbu L).run (wrap lb) before = some t →
        ¬TakesNan L t a) ∧
      ∀ before after t, acts = before ++ after → (lbu L).run (wrap lb) before = some t →
        Readable t := by
  have hplaced := (lbu L).run_always_iff (fun _ => True) Placed (fun t a => ¬TakesNan L t a)
    (fun _ _ _ _ _ => trivial)
    (fun t a t' _ hp hstep => by
      obtain ⟨r, hr⟩ := step_outcome hstep
      exact outcome_placed_iff hp hr)
    trivial (wrap_placed lb) h
  rw [← hplaced]
  constructor
  · intro hlaw
    have hp : ∀ before after t, acts = before ++ after →
        (lbu L).run (wrap lb) before = some t → Placed t :=
      fun before after t has ht => lawful_placed (hlaw before after t has ht)
    refine ⟨hp, fun before after t has ht => ?_⟩
    exact (lawful_iff (run_sane (wrap_sane lb) ht) (hp before after t has ht)).mp
      (hlaw before after t has ht)
  · rintro ⟨hp, hread⟩ before after t has ht
    exact (lawful_iff (run_sane (wrap_sane lb) ht) (hp before after t has ht)).mpr
      (hread before after t has ht)

end Runs

/-- Strings are not numbers, and NaN becomes the least integer. -/
def plainLua : Lua := ⟨⟨.of 0, .of 1, fun _ => none, fun _ => []⟩, -2 ^ 63⟩

theorem lawful_runs_iff_last :
    ∃ w, (lbu plainLua).run (wrap ⟨4, fun _ => 2⟩) [.bindRwInt .i32 (key "last") .nil] = some w ∧
      ((∀ before after t, [.bindRwInt .i32 (key "last") .nil] = before ++ after →
          (lbu plainLua).run (wrap ⟨4, fun _ => 2⟩) before = some t → Lawful plainLua t) ↔
        (∀ before a after t, [.bindRwInt .i32 (key "last") .nil] = before ++ a :: after →
          (lbu plainLua).run (wrap ⟨4, fun _ => 2⟩) before = some t → ¬TakesNan plainLua t a) ∧
        ∀ before after t, [.bindRwInt .i32 (key "last") .nil] = before ++ after →
          (lbu plainLua).run (wrap ⟨4, fun _ => 2⟩) before = some t → Readable t) :=
  ⟨_, rfl, lawful_runs_iff plainLua ⟨4, fun _ => 2⟩ rfl⟩

/-- A buffer with a byte at 2 GB. -/
def large : LBuf := ⟨0x80000001, fun _ => 0⟩

theorem large_len : (wrap large).len = 2 ^ 31 + 1 := by
  have hlen : large.len.toNat = 2 ^ 31 + 1 := rfl
  rw [Wrapper.len, wrap, hlen]
  norm_num

theorem bind_large :
    outcome plainLua (wrap large) (.bindRwInt .u8 (key "x") (.number (.of (2 ^ 31)))) =
      (.ok .nil, setField (wrap large) (key "x")
        ⟨.int .u8, some .u8, .of (2 ^ 31), (Elem.u8.size : Nat)⟩) := by
  have hown : key "x" ∉ (wrap large).own := by decide
  have hkey : newKey (key "x") = .ok () := rfl
  simp [outcome, bindRwInt, LbufUtil.bind, bindOffset, large_len, checkBindName, hown, hkey, Elem.size]

/-- A byte at 2 GB is bound and cannot be set, and NaN is a position. -/
theorem not_lawful :
    (∃ w, (lbu plainLua).run (wrap large)
        [.bindRwInt .u8 (key "x") (.number (.of (2 ^ 31)))] = some w ∧ ¬Lawful plainLua w) ∧
      ∃ w, (lbu plainLua).run (wrap large) [.bindSeek (key "set") (.number .nan)] =
        some w ∧ ¬Lawful plainLua w := by
  constructor
  · refine ⟨_, rfl, fun h => ?_⟩
    rw [bind_large] at h
    have hs := outcome_sane (wrap_sane large) bind_large
    have hread := (lawful_iff hs (lawful_placed h)).mp h
    have hlow := hread.low (key "x") _ .u8 (by rw [setField_fields, if_pos rfl]) rfl
    have hfirst : byte (.of (2 ^ 31)) = 2 ^ 31 := by
      simp only [byte]
      exact_mod_cast Nat.floor_natCast (R := ℚ) (2 ^ 31)
    rw [first, hfirst] at hlow
    omega
  · refine ⟨_, rfl, fun h => ?_⟩
    obtain ⟨q, hq, -⟩ := h.position
    cases hq

end BoundFields
