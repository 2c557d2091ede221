import Chdkptp.DngEntry

/-!
# Arrays of elements

`getel_array` and `setel_array` of an IFD entry, over the bytes of its elements.
-/

namespace DngArray

open ByteMemory Lbuf LittleEndian LbufValues LbufCoherence DngEntry

/-! ## Values and their bytes -/

/-- The bytes of a value. -/
def valBytes (el : Elem) : Val → List UInt8
  | .number v => encode el.size v
  | .table [.number v, .number w] => encode el.size v ++ encode el.size w
  | _ => []

/-- A value that a type can hold: a number in range, or two for a rational type. -/
def ValInRange (t : TagType) (el : Elem) : Val → Prop
  | .number v => t.rational = false ∧ InRange el.signed el.size v
  | .table [.number v, .number w] =>
    t.rational = true ∧ InRange el.signed el.size v ∧ InRange el.signed el.size w
  | _ => False

section Value

variable {t : TagType} {el : Elem} {buf : LBuf} {m : Memory} {p : Nat} {val : Val}

theorem valInRange_cases (h : ValInRange t el val) :
    (t.rational = false ∧ ∃ v, val = .number v ∧ InRange el.signed el.size v) ∨
      (t.rational = true ∧ ∃ v w, val = .table [.number v, .number w] ∧
        InRange el.signed el.size v ∧ InRange el.signed el.size w) := by
  unfold ValInRange at h
  split at h
  · exact Or.inl ⟨h.1, _, rfl, h.2⟩
  · exact Or.inr ⟨h.1, _, _, rfl, h.2⟩
  · exact h.elim

theorem valBytes_length (hsize : t.size = (if t.rational then 2 * el.size else el.size))
    (h : ValInRange t el val) : (valBytes el val).length = t.size := by
  rcases valInRange_cases h with ⟨hrational, v, rfl, -⟩ | ⟨hrational, v, w, rfl, -⟩
  · rw [hsize, hrational, if_neg Bool.false_ne_true]
    exact encode_length _ _
  · rw [hsize, hrational, if_pos rfl, valBytes, List.length_append, encode_length, encode_length]
    omega

/-- The value stands where its bytes stand, and nowhere else. -/
theorem valueAt_eq_iff (hsize : t.size = (if t.rational then 2 * el.size else el.size))
    (h : ValInRange t el val) : valueAt t el m p = val ↔ slice m p t.size = valBytes el val := by
  have hencode : ∀ q v, InRange el.signed el.size v →
      (decode el.signed (slice m q el.size) = v ↔ slice m q el.size = encode el.size v) := by
    intro q v hv
    constructor
    · intro hdecode
      have hbytes := encode_decode el.signed (slice m q el.size)
      rw [slice_length, hdecode] at hbytes
      exact hbytes.symm
    · intro hbytes
      rw [hbytes, decode_encode hv]
  unfold valueAt
  rcases valInRange_cases h with ⟨hrational, v, rfl, hv⟩ | ⟨hrational, v, w, rfl, hv, hw⟩
  · rw [hsize, hrational, if_neg Bool.false_ne_true, if_neg Bool.false_ne_true, valBytes,
      ← hencode p v hv]
    exact ⟨fun hval => Val.number.inj hval, fun hval => congrArg Val.number hval⟩
  · have hlength : (slice m p el.size).length = (encode el.size v).length := by
      rw [slice_length, encode_length]
    have hsplit : slice m p el.size ++ slice m (p + el.size) el.size =
        encode el.size v ++ encode el.size w ↔
          slice m p el.size = encode el.size v ∧ slice m (p + el.size) el.size = encode el.size w :=
      ⟨fun hboth => List.append_inj hboth hlength, fun hboth => by rw [hboth.1, hboth.2]⟩
    rw [hsize, hrational, if_pos rfl, if_pos rfl, valBytes, Nat.two_mul, slice_append, hsplit,
      ← hencode p v hv, ← hencode (p + el.size) w hw]
    simp [elements, List.range_succ]

theorem setAt_fitting (helsize : el.size = t.elsize)
    (hsize : t.size = (if t.rational then 2 * el.size else el.size))
    (h : ValInRange t el val) (hend : p + t.size ≤ buf.len.toNat) :
    setAt t el buf p val =
      if p + t.size < 2 ^ 31 + t.elsize then .ok ⟨buf.len, blit buf.bytes p (valBytes el val)⟩
      else .error (.lbuf .negativeOffset) := by
  unfold setAt
  rcases valInRange_cases h with ⟨hrational, v, rfl, -⟩ | ⟨hrational, v, w, rfl, -⟩
  · rw [hrational, if_neg Bool.false_ne_true] at hsize
    have hset := @lbSet_fitting el buf p v (by omega)
    rw [hrational, if_neg Bool.false_ne_true]
    dsimp only [Val.tonumber]
    rw [hset]
    by_cases hlow : p < 2 ^ 31
    · rw [if_pos hlow, if_pos (by omega)]
      rfl
    · rw [if_neg hlow, if_neg (by omega)]
  · rw [hrational, if_pos rfl] at hsize
    rw [hrational, if_pos rfl]
    dsimp only [Val.tonumber]
    by_cases hlow : p < 2 ^ 31
    · have hfirst := @lbSet_fitting el buf p v (by omega)
      rw [if_pos hlow] at hfirst
      have hsecond := @lbSet_fitting el ⟨buf.len, blit buf.bytes p (encode el.size v)⟩
        (p + t.elsize) w (by dsimp only; omega)
      have hboth := blit_append buf.bytes p (encode el.size v) (encode el.size w)
      rw [encode_length, helsize] at hboth
      rw [helsize, hboth] at hsecond
      rw [helsize] at hfirst
      rw [ok_bind hfirst, hsecond, valBytes, helsize]
      by_cases hend' : p + t.elsize < 2 ^ 31
      · rw [if_pos hend', if_pos (by omega)]
      · rw [if_neg hend', if_neg (by omega)]
    · have hfirst := @lbSet_fitting el buf p v (by omega)
      rw [if_neg hlow] at hfirst
      rw [error_bind hfirst, if_neg (by omega)]

theorem setel_inside {e : Entry} {index : Nat} (h : Located buf e t el)
    (hindex : index < (headerAt buf.bytes e.off).count) (hval : ValInRange t el val) :
    e.setel buf val index =
      if e.off + 8 < 2 ^ 31 ∧
          (headerAt buf.bytes e.off).place e.off t + t.size * (index + 1) < 2 ^ 31 + t.elsize then
        .ok ⟨buf.len, blit buf.bytes ((headerAt buf.bytes e.off).place e.off t + t.size * index)
          (valBytes el val)⟩
      else .error (.lbuf .negativeOffset) := by
  have hend := h.element hindex
  obtain ⟨helsize, hsize⟩ := size_of_elem h.type h.elem
  have hnext : (headerAt buf.bytes e.off).place e.off t + t.size * (index + 1) =
      (headerAt buf.bytes e.off).place e.off t + t.size * index + t.size := by
    rw [Nat.mul_add, Nat.mul_one, Nat.add_assoc]
  rw [hnext] at hend ⊢
  have hset := setAt_fitting helsize hsize hval hend
  unfold Entry.setel
  by_cases hlow : e.off + 8 < 2 ^ 31
  · obtain ⟨hcount, htype, hdata⟩ := fields_low h hlow
    rw [ok_bind hcount, if_neg (by omega), ok_bind htype]
    dsimp only
    rw [h.elem]
    dsimp only
    rw [ok_bind hdata, hset]
    by_cases hplace : (headerAt buf.bytes e.off).place e.off t + t.size * index + t.size <
        2 ^ 31 + t.elsize
    · rw [if_pos hplace, if_pos ⟨hlow, hplace⟩]
    · rw [if_neg hplace, if_neg fun hand => hplace hand.2]
  · rw [if_neg fun hand => hlow hand.1]
    obtain hcount | ⟨hcount, htype, hdata⟩ := fields_high h hlow
    · rw [error_bind hcount]
    · rw [ok_bind hcount, if_neg (by omega), ok_bind htype]
      dsimp only
      rw [h.elem]
      dsimp only
      obtain hdata | ⟨hdata, hplace⟩ := hdata
      · rw [error_bind hdata]
      · have hle : t.elsize ≤ t.size := by
          rw [hsize, ← helsize]
          split_ifs <;> omega
        rw [ok_bind hdata, hset, if_neg (by omega)]

end Value

/-! ## The window that is read -/

/-- The elements from one to another. -/
def elementsFrom (t : TagType) (el : Elem) (m : Memory) (place start n : Nat) : List Val :=
  (List.range' start n).map (elementAt t el m place)

/-- An `int` leads to the elements from one to another, and to the fields that are read for
them. -/
def Reached (e : Entry) (t : TagType) (place start stop : Nat) : Prop :=
  e.off + 4 < 2 ^ 31 ∧
    ∀ i, start ≤ i → i < stop → e.off + 8 < 2 ^ 31 ∧ place + t.size * i < 2 ^ 31

section Window

variable {buf : LBuf} {e : Entry} {t : TagType} {el : Elem}

/-- The loop inserts the elements that there are. -/
theorem insertEls_eq (h : Located buf e t el) (hlow : e.off + 4 < 2 ^ 31) {l : List Nat}
    (hreached : ∀ i ∈ l, i < (headerAt buf.bytes e.off).count → e.off + 8 < 2 ^ 31 ∧
      (headerAt buf.bytes e.off).place e.off t + t.size * i < 2 ^ 31) :
    e.insertEls buf l =
      .ok ((l.filter (· < (headerAt buf.bytes e.off).count)).map
        (elementAt t el buf.bytes ((headerAt buf.bytes e.off).place e.off t))) := by
  induction l with
  | nil => rfl
  | cons i l ih =>
    have hrest := ih fun j hj => hreached j (List.mem_cons_of_mem _ hj)
    unfold Entry.insertEls
    by_cases hindex : i < (headerAt buf.bytes e.off).count
    · have hget := getel_inside h hindex
      rw [if_pos (hreached i List.mem_cons_self hindex)] at hget
      rw [ok_bind hget, List.filter_cons_of_pos (by simpa using hindex)]
      dsimp only
      rw [ok_bind hrest]
      rfl
    · have hget := getel_past h.bound (Nat.not_lt.mp hindex) hlow
      rw [ok_bind hget, List.filter_cons_of_neg (by simpa using hindex)]
      exact hrest

/-- It fails at an element that is too far behind. -/
theorem insertEls_error (h : Located buf e t el) (hlow : e.off + 4 < 2 ^ 31) {l : List Nat}
    (hfar : ∃ i ∈ l, i < (headerAt buf.bytes e.off).count ∧ ¬(e.off + 8 < 2 ^ 31 ∧
      (headerAt buf.bytes e.off).place e.off t + t.size * i < 2 ^ 31)) :
    e.insertEls buf l = .error (.lbuf .negativeOffset) := by
  induction l with
  | nil =>
    obtain ⟨i, hi, -⟩ := hfar
    cases hi
  | cons i l ih =>
    unfold Entry.insertEls
    by_cases hindex : i < (headerAt buf.bytes e.off).count ∧ ¬(e.off + 8 < 2 ^ 31 ∧
        (headerAt buf.bytes e.off).place e.off t + t.size * i < 2 ^ 31)
    · have hget := getel_inside h hindex.1
      rw [if_neg hindex.2] at hget
      rw [error_bind hget]
    · have hrest : e.insertEls buf l = .error (.lbuf .negativeOffset) := by
        obtain ⟨j, hj, hfar⟩ := hfar
        rcases List.mem_cons.mp hj with rfl | hj
        · exact absurd hfar hindex
        · exact ih ⟨j, hj, hfar⟩
      by_cases hin : i < (headerAt buf.bytes e.off).count
      · have hget := getel_inside h hin
        rw [if_pos (not_not.mp fun hnot => hindex ⟨hin, hnot⟩)] at hget
        rw [ok_bind hget]
        dsimp only
        rw [error_bind hrest]
      · have hget := getel_past h.bound (Nat.not_lt.mp hin) hlow
        rw [ok_bind hget]
        exact hrest

theorem filter_range' (start n count : Nat) :
    (List.range' start n).filter (· < count) = List.range' start (min n (count - start)) := by
  induction n generalizing start with
  | zero => rw [Nat.zero_min]; rfl
  | succ n ih =>
    rw [List.range'_succ]
    by_cases hin : start < count
    · have hmin : min (n + 1) (count - start) = min n (count - (start + 1)) + 1 := by omega
      rw [List.filter_cons_of_pos (by simpa using hin), ih, hmin, List.range'_succ]
    · have hmin : min (n + 1) (count - start) = min n (count - (start + 1)) := by omega
      rw [List.filter_cons_of_neg (by simpa using hin), ih, hmin]
      have hzero : min n (count - (start + 1)) = 0 := by omega
      rw [hzero]
      rfl

theorem startOutside_ok {count : Nat} (hcount : e.count buf = .ok count) (start : Nat) :
    e.startOutside buf (some start) = .ok (decide (count ≤ start)) := by
  unfold Entry.startOutside
  dsimp only
  rw [ok_bind hcount]
  rfl

theorem startOutside_error {err : DngError} (hcount : e.count buf = .error err) (start : Nat) :
    e.startOutside buf (some start) = .error err := by
  unfold Entry.startOutside
  dsimp only
  rw [error_bind hcount]

/-- What is returned: the loop goes one further than the count, which is not counted from the
start. -/
theorem getelArray_eq (h : Located buf e t el) {start count : Nat}
    (hreached : Reached e t ((headerAt buf.bytes e.off).place e.off t) start
      (min (count + 1) (headerAt buf.bytes e.off).count)) :
    e.getelArray buf (some start) (some count) =
      .ok (elementsFrom t el buf.bytes ((headerAt buf.bytes e.off).place e.off t) start
        (min (count + 1) (headerAt buf.bytes e.off).count - start)) := by
  have hcount := count_eq h.bound
  rw [if_pos hreached.1] at hcount
  unfold Entry.getelArray elementsFrom
  dsimp only [Option.getD_some]
  by_cases hstart : (headerAt buf.bytes e.off).count ≤ start
  · have hzero : min (count + 1) (headerAt buf.bytes e.off).count - start = 0 := by omega
    rw [ok_bind (startOutside_ok hcount start), if_pos (by simpa using hstart), hzero]
    rfl
  · have hinsert := insertEls_eq h hreached.1
      (l := List.range' start ((if (headerAt buf.bytes e.off).count < count then
        (headerAt buf.bytes e.off).count else count) + 1 - start))
      (fun i hi hin => hreached.2 i (by have hi := List.mem_range'_1.mp hi; omega) (by
        have hi := List.mem_range'_1.mp hi
        split_ifs at hi <;> omega))
    have hlast : min ((if (headerAt buf.bytes e.off).count < count then
          (headerAt buf.bytes e.off).count else count) + 1 - start)
        ((headerAt buf.bytes e.off).count - start) =
          min (count + 1) (headerAt buf.bytes e.off).count - start := by
      split_ifs <;> omega
    rw [ok_bind (startOutside_ok hcount start), if_neg (by simpa using hstart), ok_bind hcount,
      hinsert, filter_range', hlast]

/-- It fails at an element that is too far behind. -/
theorem getelArray_error (h : Located buf e t el) {start count : Nat}
    (hfar : ¬Reached e t ((headerAt buf.bytes e.off).place e.off t) start
      (min (count + 1) (headerAt buf.bytes e.off).count)) :
    e.getelArray buf (some start) (some count) = .error (.lbuf .negativeOffset) := by
  have hcount := count_eq h.bound
  unfold Entry.getelArray
  dsimp only [Option.getD_some]
  by_cases hlow : e.off + 4 < 2 ^ 31
  · rw [if_pos hlow] at hcount
    have hexists : ∃ i, start ≤ i ∧ i < min (count + 1) (headerAt buf.bytes e.off).count ∧
        ¬(e.off + 8 < 2 ^ 31 ∧
          (headerAt buf.bytes e.off).place e.off t + t.size * i < 2 ^ 31) := by
      by_contra hnone
      push Not at hnone
      exact hfar ⟨hlow, hnone⟩
    obtain ⟨i, hi, hin, hfar⟩ := hexists
    have hinsert := insertEls_error h hlow
      (l := List.range' start ((if (headerAt buf.bytes e.off).count < count then
        (headerAt buf.bytes e.off).count else count) + 1 - start))
      ⟨i, List.mem_range'_1.mpr ⟨hi, by split_ifs <;> omega⟩, by omega, hfar⟩
    rw [ok_bind (startOutside_ok hcount start), if_neg (by simp; omega), ok_bind hcount, hinsert]
  · rw [if_neg hlow] at hcount
    rw [error_bind (startOutside_error hcount start)]

/-- The elements that are asked for are those that are returned. -/
def Window (total start count : Nat) : Prop :=
  total ≤ start ∨ start = 1 ∨ start = 0 ∧ total ≤ count ∨
    2 ≤ start ∧ (count = 0 ∨ total ≤ count + 1)

theorem window_iff (total start count : Nat) :
    min (count + 1) total - start = min (start + count) total - start ↔
      Window total start count := by
  unfold Window
  omega

/-- The elements from the start on, as many as are asked for, are returned. -/
theorem getel_array_iff (h : Located buf e t el) (start count : Nat) :
    e.getelArray buf (some start) (some count) =
        .ok (elementsFrom t el buf.bytes ((headerAt buf.bytes e.off).place e.off t) start
          (min (start + count) (headerAt buf.bytes e.off).count - start)) ↔
      Window (headerAt buf.bytes e.off).count start count ∧
        Reached e t ((headerAt buf.bytes e.off).place e.off t) start
          (min (start + count) (headerAt buf.bytes e.off).count) := by
  have hstop : Window (headerAt buf.bytes e.off).count start count →
      ∀ i, start ≤ i → (i < min (count + 1) (headerAt buf.bytes e.off).count ↔
        i < min (start + count) (headerAt buf.bytes e.off).count) := by
    intro hwindow i hi
    rw [← window_iff] at hwindow
    omega
  constructor
  · intro hget
    by_cases hreached : Reached e t ((headerAt buf.bytes e.off).place e.off t) start
        (min (count + 1) (headerAt buf.bytes e.off).count)
    · rw [getelArray_eq h hreached] at hget
      have hlength := congrArg List.length (Except.ok.inj hget)
      simp only [elementsFrom, List.length_map, List.length_range'] at hlength
      have hwindow := (window_iff _ _ _).mp hlength
      exact ⟨hwindow, hreached.1, fun i hi hin => hreached.2 i hi ((hstop hwindow i hi).mpr hin)⟩
    · rw [getelArray_error h hreached] at hget
      cases hget
  · rintro ⟨hwindow, hreached⟩
    have hreached' : Reached e t ((headerAt buf.bytes e.off).place e.off t) start
        (min (count + 1) (headerAt buf.bytes e.off).count) :=
      ⟨hreached.1, fun i hi hin => hreached.2 i hi ((hstop hwindow i hi).mp hin)⟩
    rw [getelArray_eq h hreached', (window_iff _ _ _).mpr hwindow]

end Window

/-! ## What is written -/

/-- The bytes of several values. -/
def valsBytes (el : Elem) (vals : List Val) : List UInt8 := vals.flatMap (valBytes el)

/-- Where the fields end that say what the elements are and where they stand. -/
def fieldsEnd (e : Entry) (h : Header) (t : TagType) : Nat :=
  if h.count * t.size ≤ 4 then e.off + 8 else e.off + 12

/-- The entry still says the same of its elements. -/
structure Keeps (e : Entry) (t : TagType) (m m' : Memory) : Prop where
  typeId : (headerAt m' e.off).typeId = (headerAt m e.off).typeId
  count : (headerAt m' e.off).count = (headerAt m e.off).count
  place : (headerAt m' e.off).place e.off t = (headerAt m e.off).place e.off t

/-- Bytes that are written over the fields of the entry are those that stand there. -/
def Steady (e : Entry) (t : TagType) (m : Memory) (p : Nat) (bytes : List UInt8) : Prop :=
  ∀ k, k < bytes.length → e.off + 2 ≤ p + k → p + k < fieldsEnd e (headerAt m e.off) t →
    bytes.getD k 0 = m (p + k)

section Keeping

variable {e : Entry} {t : TagType} {m m' : Memory} {p : Nat} {bytes : List UInt8}

theorem natOf_slice_inj {o n : Nat} (h : natOf (slice m' o n) = natOf (slice m o n)) {i : Nat}
    (hi : i < n) : m' (o + i) = m (o + i) := by
  have hleft := bytesOf_natOf (slice m' o n)
  have hright := bytesOf_natOf (slice m o n)
  rw [slice_length] at hleft hright
  have hsame : slice m' o n = slice m o n := by rw [← hleft, ← hright, h]
  have hbyte := congrArg (fun l => l.getD i 0) hsame
  simpa [slice, hi] using hbyte

/-- The entry says the same if and only if its fields hold the same bytes. -/
theorem keeps_iff :
    Keeps e t m m' ↔
      ∀ o, e.off + 2 ≤ o → o < fieldsEnd e (headerAt m e.off) t → m' o = m o := by
  constructor
  · rintro ⟨htype, hcount, hplace⟩ o hlow hhigh
    by_cases hfirst : o < e.off + 4
    · have hbyte := natOf_slice_inj htype (i := o - (e.off + 2)) (by omega)
      rwa [Nat.add_sub_of_le hlow] at hbyte
    · by_cases hsecond : o < e.off + 8
      · have hbyte := natOf_slice_inj hcount (i := o - (e.off + 4)) (by omega)
        rwa [Nat.add_sub_of_le (by omega)] at hbyte
      · unfold fieldsEnd at hhigh
        unfold Header.place at hplace
        rw [hcount] at hplace
        split_ifs at hhigh hplace
        · omega
        · have hbyte := natOf_slice_inj hplace (i := o - (e.off + 8)) (by omega)
          rwa [Nat.add_sub_of_le (by omega)] at hbyte
  · intro hsame
    have hend : e.off + 8 ≤ fieldsEnd e (headerAt m e.off) t := by
      unfold fieldsEnd
      split_ifs <;> omega
    have htype : (headerAt m' e.off).typeId = (headerAt m e.off).typeId :=
      congrArg natOf (slice_congr fun i hi => hsame _ (by omega) (by omega))
    have hcount : (headerAt m' e.off).count = (headerAt m e.off).count :=
      congrArg natOf (slice_congr fun i hi => hsame _ (by omega) (by omega))
    refine ⟨htype, hcount, ?_⟩
    unfold Header.place
    rw [hcount]
    split_ifs with hinline
    · rfl
    · refine congrArg natOf (slice_congr fun i hi => hsame _ (by omega) ?_)
      unfold fieldsEnd
      rw [if_neg hinline]
      omega

/-- Steady bytes can be written. -/
theorem Steady.keeps (h : Steady e t m p bytes) : Keeps e t m (blit m p bytes) := by
  rw [keeps_iff]
  intro o hlow hhigh
  by_cases hin : p ≤ o ∧ o < p + bytes.length
  · have hbyte := h (o - p) (by omega) (by omega) (by omega)
    rw [Nat.add_sub_of_le hin.1] at hbyte
    rw [blit, if_pos hin, hbyte]
  · exact blit_outside m p bytes o (by omega)

theorem Keeps.fieldsEnd (h : Keeps e t m m') :
    fieldsEnd e (headerAt m' e.off) t = fieldsEnd e (headerAt m e.off) t := by
  unfold DngArray.fieldsEnd
  rw [h.count]

/-- Of steady bytes each part is steady, also after the part before it is written. -/
theorem Steady.append {bytes' : List UInt8} (h : Steady e t m p (bytes ++ bytes')) :
    Steady e t m p bytes ∧ Steady e t (blit m p bytes) (p + bytes.length) bytes' := by
  have hfirst : Steady e t m p bytes := by
    intro k hk hlow hhigh
    have hbyte := h k (by rw [List.length_append]; omega) hlow hhigh
    rwa [List.getD_append _ _ _ _ hk] at hbyte
  refine ⟨hfirst, fun k hk hlow hhigh => ?_⟩
  rw [hfirst.keeps.fieldsEnd] at hhigh
  have hbyte := h (bytes.length + k) (by rw [List.length_append]; omega) (by omega) (by omega)
  rw [List.getD_append_right _ _ _ _ (by omega), Nat.add_sub_cancel_left] at hbyte
  rw [blit_outside m p bytes _ (by omega), hbyte, Nat.add_assoc]

theorem located_of_keeps {buf buf' : LBuf} {el : Elem} (h : Located buf e t el)
    (hlen : buf'.len = buf.len) (hkeeps : Keeps e t buf.bytes buf'.bytes) :
    Located buf' e t el := by
  refine ⟨by rw [hlen]; exact h.bound, by rw [hkeeps.typeId]; exact h.type, h.elem, ?_⟩
  rw [hkeeps.place, hkeeps.count, hlen]
  exact h.inside

end Keeping

section Writing

variable {e : Entry} {t : TagType} {el : Elem}

/-- The loop writes the values one after the other, as long as an `int` leads there. -/
theorem setEls_eq {buf : LBuf} {vals : List Val} {place index count : Nat}
    (h : Located buf e t el) (hplace : (headerAt buf.bytes e.off).place e.off t = place)
    (hcount : (headerAt buf.bytes e.off).count = count) (hindex : index + vals.length ≤ count)
    (hvals : ∀ val ∈ vals, ValInRange t el val)
    (hsteady : Steady e t buf.bytes (place + t.size * index) (valsBytes el vals)) :
    e.setEls buf vals index =
      if vals = [] ∨ e.off + 8 < 2 ^ 31 ∧
          place + t.size * (index + vals.length) < 2 ^ 31 + t.elsize then
        .ok ⟨buf.len, blit buf.bytes (place + t.size * index) (valsBytes el vals)⟩
      else .error (.lbuf .negativeOffset) := by
  induction vals generalizing buf index with
  | nil =>
    rw [if_pos (Or.inl rfl), valsBytes, List.flatMap_nil, blit_nil]
    rfl
  | cons val vals ih =>
    rw [List.length_cons] at hindex ⊢
    have hsize := (size_of_elem h.type h.elem).2
    have hval := hvals val List.mem_cons_self
    have hlength := valBytes_length hsize hval
    have hset := @setel_inside t el buf val e index h (by omega) hval
    have hbytes : valsBytes el (val :: vals) = valBytes el val ++ valsBytes el vals := rfl
    have hnext : place + t.size * index + t.size = place + t.size * (index + 1) := by
      rw [Nat.mul_add, Nat.mul_one, Nat.add_assoc]
    have hmul : t.size * (index + 1) ≤ t.size * (index + (vals.length + 1)) :=
      Nat.mul_le_mul_left _ (by omega)
    rw [hplace] at hset
    rw [hbytes] at hsteady ⊢
    unfold Entry.setEls
    by_cases hlow : e.off + 8 < 2 ^ 31 ∧ place + t.size * (index + 1) < 2 ^ 31 + t.elsize
    · rw [if_pos hlow] at hset
      obtain ⟨hfirst, hrest⟩ := hsteady.append
      have hkeeps := hfirst.keeps
      have hblit := blit_append buf.bytes (place + t.size * index) (valBytes el val)
        (valsBytes el vals)
      rw [hlength, hnext] at hrest hblit
      obtain ⟨buf', hbuf'⟩ : ∃ buf' : LBuf,
          buf' = ⟨buf.len, blit buf.bytes (place + t.size * index) (valBytes el val)⟩ := ⟨_, rfl⟩
      have hlen' : buf'.len = buf.len := by rw [hbuf']
      have hbytes' : buf'.bytes = blit buf.bytes (place + t.size * index) (valBytes el val) := by
        rw [hbuf']
      rw [← hbytes'] at hkeeps hrest hblit
      rw [← hbuf'] at hset
      have hrec := ih (located_of_keeps h hlen' hkeeps) (hkeeps.place.trans hplace)
        (hkeeps.count.trans hcount) (by omega)
        (fun v hv => hvals v (List.mem_cons_of_mem _ hv)) hrest
      rw [ok_bind hset, hrec, hlen', hblit]
      have hsame : index + 1 + vals.length = index + (vals.length + 1) := by omega
      rw [hsame]
      by_cases hend : place + t.size * (index + (vals.length + 1)) < 2 ^ 31 + t.elsize
      · rw [if_pos (Or.inr ⟨hlow.1, hend⟩), if_pos (Or.inr ⟨hlow.1, hend⟩)]
      · by_cases hnil : vals = []
        · rw [hnil] at hend
          exact absurd hlow.2 hend
        · rw [if_neg (fun hor => hor.elim hnil fun hand => hend hand.2),
            if_neg (fun hor => hor.elim (List.cons_ne_nil _ _) fun hand => hend hand.2)]
    · rw [if_neg hlow] at hset
      rw [error_bind hset, if_neg]
      rintro (hnil | hend)
      · exact List.cons_ne_nil _ _ hnil
      · exact hlow ⟨hend.1, by omega⟩

/-- An array that fits is written by the loop, if the count can be read. -/
theorem setelArray_eq {buf : LBuf} {vals : List Val} {start : Nat} (h : Located buf e t el)
    (hstart : start < (headerAt buf.bytes e.off).count)
    (hfit : start + vals.length ≤ (headerAt buf.bytes e.off).count) :
    e.setelArray buf (.table vals) (some start) =
      if e.off + 4 < 2 ^ 31 then e.setEls buf vals start
      else .error (.lbuf .negativeOffset) := by
  have hcount := count_eq h.bound
  unfold Entry.setelArray
  dsimp only [Option.getD_some]
  by_cases hlow : e.off + 4 < 2 ^ 31
  · rw [if_pos hlow] at hcount ⊢
    rw [ok_bind (startOutside_ok hcount start), if_neg (by simpa using hstart), ok_bind hcount,
      if_neg (by omega)]
  · rw [if_neg hlow] at hcount ⊢
    rw [error_bind (startOutside_error hcount start)]

end Writing

/-! ## Writing and reading back -/

/-- The array is written and read back, the entry still says the same, and its other elements
stay. -/
structure RoundTrip (e : Entry) (t : TagType) (el : Elem) (buf : LBuf) (start : Nat)
    (vals : List Val) (buf' : LBuf) : Prop where
  set : e.setelArray buf (.table vals) (some start) = .ok buf'
  len : buf'.len = buf.len
  entry : Keeps e t buf.bytes buf'.bytes
  get : e.getelArray buf' (some start) (some vals.length) = .ok vals
  others : ∀ i, i < (headerAt buf.bytes e.off).count → (i < start ∨ start + vals.length ≤ i) →
    elementAt t el buf'.bytes ((headerAt buf.bytes e.off).place e.off t) i =
      elementAt t el buf.bytes ((headerAt buf.bytes e.off).place e.off t) i

/-- The condition under which it is. -/
structure Settable (e : Entry) (t : TagType) (el : Elem) (buf : LBuf) (start : Nat)
    (vals : List Val) : Prop where
  window : Window (headerAt buf.bytes e.off).count start vals.length
  fields : e.off + 4 < 2 ^ 31
  data : vals ≠ [] → e.off + 8 < 2 ^ 31 ∧ (headerAt buf.bytes e.off).place e.off t +
    t.size * (start + vals.length) < 2 ^ 31 + t.elsize
  steady : Steady e t buf.bytes ((headerAt buf.bytes e.off).place e.off t + t.size * start)
    (valsBytes el vals)

section RoundTrips

variable {e : Entry} {t : TagType} {el : Elem} {buf : LBuf} {start : Nat} {vals : List Val}

/-- A value depends on its bytes only. -/
theorem valueAt_congr {m m' : Memory} {p : Nat}
    (hsize : t.size = (if t.rational then 2 * el.size else el.size))
    (h : ∀ i, i < t.size → m (p + i) = m' (p + i)) : valueAt t el m p = valueAt t el m' p := by
  unfold valueAt
  cases hrational : t.rational with
  | true =>
    rw [hrational, if_pos rfl] at hsize
    rw [if_pos rfl, if_pos rfl]
    have helements : elements el m p 2 = elements el m' p 2 := by
      refine List.map_congr_left fun k hk => ?_
      have hk := List.mem_range.mp hk
      have hmul : k * el.size ≤ 1 * el.size := Nat.mul_le_mul_right _ (by omega)
      refine congrArg _ (slice_congr fun i hi => ?_)
      rw [Nat.add_assoc]
      exact h _ (by omega)
    rw [helements]
  | false =>
    rw [hrational, if_neg Bool.false_ne_true] at hsize
    rw [if_neg Bool.false_ne_true, if_neg Bool.false_ne_true,
      slice_congr fun i hi => h i (by omega)]

/-- Values stand where their bytes do. -/
theorem elementsFrom_eq_iff (hsize : t.size = (if t.rational then 2 * el.size else el.size))
    (hvals : ∀ val ∈ vals, ValInRange t el val) (m : Memory) (place start : Nat) :
    elementsFrom t el m place start vals.length = vals ↔
      slice m (place + t.size * start) (t.size * vals.length) = valsBytes el vals := by
  induction vals generalizing start with
  | nil => exact iff_of_true rfl rfl
  | cons val vals ih =>
    have hval := hvals val List.mem_cons_self
    have hlength := valBytes_length hsize hval
    have hrest := ih (fun v hv => hvals v (List.mem_cons_of_mem _ hv)) (start + 1)
    have hnext : place + t.size * (start + 1) = place + t.size * start + t.size := by
      rw [Nat.mul_add, Nat.mul_one, Nat.add_assoc]
    have hmany : t.size * (vals.length + 1) = t.size + t.size * vals.length := by
      rw [Nat.mul_add, Nat.mul_one, Nat.add_comm]
    have hbytes : valsBytes el (val :: vals) = valBytes el val ++ valsBytes el vals := rfl
    have hfirst : elementsFrom t el m place start (vals.length + 1) =
        valueAt t el m (place + t.size * start) ::
          elementsFrom t el m place (start + 1) vals.length := rfl
    rw [List.length_cons, hfirst, hmany, slice_append, hbytes, ← hnext, List.cons.injEq, hrest,
      valueAt_eq_iff hsize hval]
    refine ⟨fun hboth => by rw [hboth.1, hboth.2], fun hboth => List.append_inj hboth ?_⟩
    rw [slice_length, hlength]

/-- The values are read back where the window is right. -/
theorem getelArray_vals {buf' : LBuf} (h : Located buf' e t el)
    (hvals : ∀ val ∈ vals, ValInRange t el val)
    (hfit : start + vals.length ≤ (headerAt buf'.bytes e.off).count) :
    e.getelArray buf' (some start) (some vals.length) = .ok vals ↔
      (Window (headerAt buf'.bytes e.off).count start vals.length ∧
        Reached e t ((headerAt buf'.bytes e.off).place e.off t) start (start + vals.length)) ∧
        slice buf'.bytes ((headerAt buf'.bytes e.off).place e.off t + t.size * start)
          (t.size * vals.length) = valsBytes el vals := by
  have hiff := getel_array_iff h start vals.length
  have hmin : min (start + vals.length) (headerAt buf'.bytes e.off).count = start + vals.length :=
    Nat.min_eq_left hfit
  have hcount : start + vals.length - start = vals.length := by omega
  rw [hmin, hcount] at hiff
  have hsame := elementsFrom_eq_iff (size_of_elem h.type h.elem).2 hvals buf'.bytes
    ((headerAt buf'.bytes e.off).place e.off t) start
  constructor
  · intro hget
    by_cases hreached : Reached e t ((headerAt buf'.bytes e.off).place e.off t) start
        (min (vals.length + 1) (headerAt buf'.bytes e.off).count)
    · have hall := getelArray_eq h hreached
      rw [hget] at hall
      have hlist := Except.ok.inj hall
      have hlength := congrArg List.length hlist
      simp only [elementsFrom, List.length_map, List.length_range'] at hlength
      rw [← hlength] at hlist
      have hget' := hget.trans (congrArg Except.ok hlist)
      exact ⟨hiff.mp hget', hsame.mp hlist.symm⟩
    · rw [getelArray_error h hreached] at hget
      cases hget
  · rintro ⟨hwindow, hslice⟩
    rw [hiff.mpr hwindow, hsame.mpr hslice]

theorem elsize_le
    (hsize : el.size = t.elsize ∧ t.size = (if t.rational then 2 * el.size else el.size)) :
    t.elsize ≤ t.size := by
  rw [hsize.2, ← hsize.1]
  split_ifs <;> omega

theorem valsBytes_length (hsize : t.size = (if t.rational then 2 * el.size else el.size))
    (hvals : ∀ val ∈ vals, ValInRange t el val) :
    (valsBytes el vals).length = t.size * vals.length :=
  flatMap_length fun val hval => valBytes_length hsize (hvals val hval)

theorem roundTrip_of_settable (h : Located buf e t el)
    (hvals : ∀ val ∈ vals, ValInRange t el val)
    (hstart : start < (headerAt buf.bytes e.off).count)
    (hfit : start + vals.length ≤ (headerAt buf.bytes e.off).count)
    (hset : Settable e t el buf start vals) :
    RoundTrip e t el buf start vals
      ⟨buf.len, blit buf.bytes ((headerAt buf.bytes e.off).place e.off t + t.size * start)
        (valsBytes el vals)⟩ := by
  have hsize := size_of_elem h.type h.elem
  have hlength := valsBytes_length hsize.2 hvals
  have hle := elsize_le hsize
  have hkeeps := hset.steady.keeps
  obtain ⟨buf', hbuf'⟩ : ∃ buf' : LBuf, buf' = ⟨buf.len,
      blit buf.bytes ((headerAt buf.bytes e.off).place e.off t + t.size * start)
        (valsBytes el vals)⟩ := ⟨_, rfl⟩
  have hlen' : buf'.len = buf.len := by rw [hbuf']
  have hbytes' : buf'.bytes =
      blit buf.bytes ((headerAt buf.bytes e.off).place e.off t + t.size * start)
        (valsBytes el vals) := by rw [hbuf']
  rw [← hbytes'] at hkeeps
  have hwrite := setEls_eq h rfl rfl hfit hvals hset.steady
  rw [← hbuf'] at hwrite ⊢
  rw [if_pos (or_iff_not_imp_left.mpr hset.data)] at hwrite
  refine ⟨?_, hlen', hkeeps, ?_, fun i hi houtside => ?_⟩
  · rw [setelArray_eq h hstart hfit, if_pos hset.fields, hwrite]
  · rw [getelArray_vals (located_of_keeps h hlen' hkeeps) hvals (by rw [hkeeps.count]; exact hfit),
      hkeeps.count, hkeeps.place]
    refine ⟨⟨hset.window, hset.fields, fun i hi hin => ?_⟩, ?_⟩
    · have hdata := hset.data (by rintro rfl; rw [List.length_nil] at hin; omega)
      have hmul : t.size * (i + 1) ≤ t.size * (start + vals.length) := Nat.mul_le_mul_left _ hin
      rw [Nat.mul_add, Nat.mul_one] at hmul
      exact ⟨hdata.1, by omega⟩
    · rw [hbytes', ← hlength, slice_blit_same]
  · refine valueAt_congr hsize.2 fun k hk => ?_
    rw [hbytes']
    refine blit_outside _ _ _ _ ?_
    rw [hlength]
    rcases houtside with hbefore | hbehind
    · have hmul : t.size * (i + 1) ≤ t.size * start := Nat.mul_le_mul_left _ hbefore
      rw [Nat.mul_add, Nat.mul_one] at hmul
      omega
    · have hmul : t.size * (start + vals.length) ≤ t.size * i := Nat.mul_le_mul_left _ hbehind
      rw [Nat.mul_add] at hmul
      omega

theorem settable_of_roundTrip {buf' : LBuf} (h : Located buf e t el)
    (hvals : ∀ val ∈ vals, ValInRange t el val)
    (hstart : start < (headerAt buf.bytes e.off).count)
    (hfit : start + vals.length ≤ (headerAt buf.bytes e.off).count)
    (htrip : RoundTrip e t el buf start vals buf') : Settable e t el buf start vals := by
  have hsize := size_of_elem h.type h.elem
  have hlength := valsBytes_length hsize.2 hvals
  have h' := located_of_keeps h htrip.len htrip.entry
  have hget := htrip.get
  rw [getelArray_vals h' hvals (by rw [htrip.entry.count]; exact hfit), htrip.entry.count,
    htrip.entry.place] at hget
  obtain ⟨⟨hwindow, hreached⟩, hslice⟩ := hget
  have hsteady : Steady e t buf.bytes
      ((headerAt buf.bytes e.off).place e.off t + t.size * start) (valsBytes el vals) := by
    intro k hk hlow hhigh
    have hkept := (keeps_iff.mp htrip.entry) _ hlow hhigh
    rw [← hkept, ← hslice]
    rw [← hslice, slice_length] at hk
    simp [slice, hk]
  have hset := htrip.set
  rw [setelArray_eq h hstart hfit, if_pos hreached.1,
    setEls_eq h rfl rfl hfit hvals hsteady] at hset
  refine ⟨hwindow, hreached.1, fun hne => ?_, hsteady⟩
  by_contra hnot
  rw [if_neg fun hor => hor.elim hne hnot] at hset
  cases hset

end RoundTrips

/-- For every entry with accessors and data inside the buffer: `getel_array` returns what is
asked for, and what `setel_array` writes is read back, if and only if the window is right,
an `int` leads there, and nothing else is written over the entry itself. -/
theorem element_arrays_iff (buf : LBuf) (e : Entry) (t : TagType) (el : Elem)
    (h : Located buf e t el) :
    (∀ start count : Nat,
      e.getelArray buf (some start) (some count) =
          .ok (elementsFrom t el buf.bytes ((headerAt buf.bytes e.off).place e.off t) start
            (min (start + count) (headerAt buf.bytes e.off).count - start)) ↔
        Window (headerAt buf.bytes e.off).count start count ∧
          Reached e t ((headerAt buf.bytes e.off).place e.off t) start
            (min (start + count) (headerAt buf.bytes e.off).count)) ∧
      ∀ (start : Nat) (vals : List Val), start < (headerAt buf.bytes e.off).count →
        (∀ val ∈ vals, ValInRange t el val) →
        start + vals.length ≤ (headerAt buf.bytes e.off).count →
        ((∃ buf', RoundTrip e t el buf start vals buf') ↔ Settable e t el buf start vals) := by
  refine ⟨fun start count => getel_array_iff h start count, fun start vals hstart hvals hfit => ?_⟩
  constructor
  · rintro ⟨buf', htrip⟩
    exact settable_of_roundTrip h hvals hstart hfit htrip
  · intro hset
    exact ⟨_, roundTrip_of_settable h hvals hstart hfit hset⟩

/-- The entry of three bytes 5, 6 and 7, at the start of a buffer. -/
def threeBytes : LBuf := ⟨12, fun i => [0, 1, 1, 0, 3, 0, 0, 0, 5, 6, 7, 0].getD i 0⟩

def byteType : TagType := { name := "BYTE", size := 1 }

theorem threeBytes_located : Located threeBytes ⟨0⟩ byteType .u8 :=
  ⟨by decide, by decide, by decide, by decide⟩

theorem element_arrays_iff_bytes :
    Located threeBytes ⟨0⟩ byteType .u8 ∧
      (Entry.mk 0).getelArray threeBytes (some 1) (some 2) = .ok [.number 6, .number 7] ∧
      ∃ buf', RoundTrip ⟨0⟩ byteType .u8 threeBytes 1 [.number 8, .number 9] buf' := by
  have hiff := element_arrays_iff threeBytes ⟨0⟩ byteType .u8 threeBytes_located
  have hcount : (headerAt threeBytes.bytes 0).count = 3 := by decide
  have hplace : (headerAt threeBytes.bytes 0).place 0 byteType = 8 := by decide
  refine ⟨threeBytes_located, ((hiff.1 1 2).mpr ⟨Or.inr (Or.inl rfl), by decide, ?_⟩).trans rfl,
    (hiff.2 1 [.number 8, .number 9] (by decide) ?_ (by decide)).mpr
      ⟨Or.inr (Or.inl rfl), by decide, fun _ => ⟨by decide, by decide⟩, ?_⟩⟩
  · intro i _ hi
    rw [hcount] at hi
    rw [hplace]
    exact ⟨by decide, by simp only [byteType]; omega⟩
  · simp [ValInRange, byteType, InRange, Elem.signed, Elem.size]
  · intro k hk hlow hhigh
    rw [hplace] at hhigh
    have hend : fieldsEnd ⟨0⟩ (headerAt threeBytes.bytes 0) byteType = 8 := by decide
    rw [hend] at hhigh
    omega

/-- One element from the start on is two elements. -/
theorem not_element_arrays :
    ¬∀ (buf : LBuf) (e : Entry) (t : TagType) (el : Elem), Located buf e t el →
      (∀ start count : Nat,
        e.getelArray buf (some start) (some count) =
          .ok (elementsFrom t el buf.bytes ((headerAt buf.bytes e.off).place e.off t) start
            (min (start + count) (headerAt buf.bytes e.off).count - start))) ∧
        ∀ (start : Nat) (vals : List Val), start < (headerAt buf.bytes e.off).count →
          (∀ val ∈ vals, ValInRange t el val) →
          start + vals.length ≤ (headerAt buf.bytes e.off).count →
          ∃ buf', RoundTrip e t el buf start vals buf' := by
  intro hall
  have hone := (hall threeBytes ⟨0⟩ _ .u8 threeBytes_located).1 0 1
  exact absurd ((getel_array_iff threeBytes_located 0 1).mp hone).1 (by unfold Window; decide)

end DngArray
