import Chdkptp.BoundedLoop
import Chdkptp.ByteMemory

/-!
# Bulk reads of USB

`ptp_usb_read_func` reads in pieces, each at most as long as one URB. The calls of
`usb_bulk_read` take the bytes that are on the wire one after the other; how many of them
a call takes, or that it fails, is up to the device. The pointer into the destination
advances by what was asked for.
-/

namespace UsbRead

open ByteMemory BoundedLoop

/-- `PTPCAM_USB_URB` -/
def ptpcamUsbUrb : Nat := 2097152

/-- What the calls are going to return, an error or a count, and how many bytes of the
wire have been taken. -/
structure Device where
  results : List (Option Nat)
  taken : Nat

/-- `usb_bulk_read`: a count is at most the size that was asked for; with no result left
the device is gone. -/
def usbBulkRead (d : Device) (size : Nat) : Option Nat × Device :=
  match d.results with
  | some n :: results => (some (min n size), ⟨results, d.taken + min n size⟩)
  | _ => (none, ⟨d.results.tail, d.taken⟩)

/-- A call, and another one when the first has returned nothing. -/
def readPiece (d : Device) (toread : Nat) : Option Nat × Device :=
  let (result, d) := usbBulkRead d toread
  if result = some 0 then usbBulkRead d toread else (result, d)

/-- The variables of the loop; `bytes` is where the pointer is in the destination. -/
structure ReadState where
  bytes : Nat
  toread : Nat
  rbytes : Int
  readSize : Int
  readCount : UInt64
  device : Device
  dest : Memory

/-- The return value, the destination, `read_count`, the device. -/
structure ReadResult where
  ret : Int
  dest : Memory
  readCount : UInt64
  device : Device

/-- The body of the loop; `rbytes` is a `long` of 64 bits, `read_size` an `int`. -/
def readStep (wire : Memory) (s : ReadState) : ReadState ⊕ ReadResult :=
  let bytes := s.bytes + s.toread
  let toread := if s.rbytes > ptpcamUsbUrb then ptpcamUsbUrb else s.rbytes.toNat
  match readPiece s.device toread with
  | (none, device) => .inr ⟨-1, s.dest, s.readCount, device⟩
  | (some result, device) =>
    let dest := blit s.dest bytes (slice wire (device.taken - result) result)
    let readSize := (s.readSize + result).bmod (2 ^ 32)
    let readCount := s.readCount + UInt64.ofNat toread
    let rbytes := s.rbytes - ptpcamUsbUrb
    if rbytes > 0 then .inl ⟨bytes, toread, rbytes, readSize, readCount, device, dest⟩
    else .inr ⟨readSize, dest, readCount, device⟩

def readLoop (wire : Memory) : Loop ReadState ReadResult where
  step := readStep wire
  measure s := s.rbytes.toNat
  decreases s s' h := by
    simp only [readStep] at h
    split at h
    · cases h
    · split at h
      · cases h
        simp only [ptpcamUsbUrb] at *
        omega
      · cases h

/-- `ptp_usb_read_func` -/
def ptpUsbReadFunc (wire : Memory) (maxSize : UInt32) (results : List (Option Nat))
    (readCount : UInt64) (dest : Memory) : ReadResult :=
  (readLoop wire).run ⟨0, 0, maxSize.toNat, 0, readCount, ⟨results, 0⟩, dest⟩

/-! ## The pieces -/

/-- A size that was asked for, and how many bytes came. -/
structure Piece where
  asked : Nat
  got : Nat
  deriving DecidableEq

/-- What a piece gets out of the results, and those that are left. -/
def pieceResult (asked : Nat) : List (Option Nat) → Option (Nat × List (Option Nat))
  | some n :: results =>
    if min n asked = 0 then
      match results with
      | some n :: results => some (min n asked, results)
      | _ => none
    else some (min n asked, results)
  | _ => none

/-- The pieces of a read of `full` URBs and `last` bytes, unless there is an error. -/
def pieces : (full last : Nat) → List (Option Nat) → Option (List Piece)
  | 0, last, results => (pieceResult last results).map fun r => [⟨last, r.1⟩]
  | full + 1, last, results => do
    let (got, results) ← pieceResult ptpcamUsbUrb results
    let rest ← pieces full last results
    return ⟨ptpcamUsbUrb, got⟩ :: rest

def received (ps : List Piece) : Nat := (ps.map Piece.got).sum

theorem received_cons (p : Piece) (ps : List Piece) : received (p :: ps) = p.got + received ps := by
  simp [received]

/-- Where the pieces go. -/
def place (wire : Memory) : (offset taken : Nat) → List Piece → Memory → Memory
  | _, _, [], dest => dest
  | offset, taken, p :: ps, dest =>
    place wire (offset + p.asked) (taken + p.got) ps (blit dest offset (slice wire taken p.got))

/-- No piece that came short is followed by one that brought bytes. -/
def Gapless : List Piece → Prop
  | [] => True
  | p :: ps => (p.got = p.asked ∨ ∀ q ∈ ps, q.got = 0) ∧ Gapless ps

theorem readPiece_some {asked n : Nat} (taken : Nat) {results rest : List (Option Nat)}
    (h : pieceResult asked results = some (n, rest)) :
    readPiece ⟨results, taken⟩ asked = (some n, ⟨rest, taken + n⟩) := by
  unfold pieceResult at h
  split at h
  · rename_i k results
    by_cases hzero : min k asked = 0
    · rw [if_pos hzero] at h
      split at h
      · cases h
        simp [readPiece, usbBulkRead, hzero]
      · cases h
    · rw [if_neg hzero] at h
      cases h
      simp [readPiece, usbBulkRead, hzero]
  · cases h

theorem readPiece_none {asked : Nat} (taken : Nat) {results : List (Option Nat)}
    (h : pieceResult asked results = none) : (readPiece ⟨results, taken⟩ asked).1 = none := by
  match results with
  | [] => rfl
  | none :: _ => rfl
  | some k :: results =>
    by_cases hzero : min k asked = 0
    · match results with
      | [] => simp [readPiece, usbBulkRead, hzero]
      | none :: _ => simp [readPiece, usbBulkRead, hzero]
      | some _ :: _ => simp [pieceResult, hzero] at h
    · simp [pieceResult, hzero] at h

theorem pieceResult_le {asked n : Nat} {results rest : List (Option Nat)}
    (h : pieceResult asked results = some (n, rest)) : n ≤ asked := by
  unfold pieceResult at h
  split at h
  · split at h
    · split at h
      · cases h
        exact Nat.min_le_right _ _
      · cases h
    · cases h
      exact Nat.min_le_right _ _
  · cases h

theorem bmod_add (a b : Int) : (a.bmod (2 ^ 32) + b).bmod (2 ^ 32) = (a + b).bmod (2 ^ 32) :=
  Int.bmod_add_bmod

/-- What the next piece is asked for. -/
def asked (s : ReadState) : Nat :=
  if s.rbytes > ptpcamUsbUrb then ptpcamUsbUrb else s.rbytes.toNat

/-- The state after a piece of `n` bytes. -/
def afterPiece (wire : Memory) (s : ReadState) (n : Nat) (rest : List (Option Nat)) : ReadState where
  bytes := s.bytes + s.toread
  toread := asked s
  rbytes := s.rbytes - ptpcamUsbUrb
  readSize := (s.readSize + n).bmod (2 ^ 32)
  readCount := s.readCount + UInt64.ofNat (asked s)
  device := ⟨rest, s.device.taken + n⟩
  dest := blit s.dest (s.bytes + s.toread) (slice wire s.device.taken n)

theorem run_failed (wire : Memory) {s : ReadState}
    (h : pieceResult (asked s) s.device.results = none) : ((readLoop wire).run s).ret = -1 := by
  have hread := readPiece_none s.device.taken h
  rcases hpiece : readPiece s.device (asked s) with ⟨result, device⟩
  rw [hpiece] at hread
  obtain rfl : result = none := hread
  rw [(readLoop wire).run_inr (r := ⟨-1, s.dest, s.readCount, device⟩) ?_]
  change readStep wire s = _
  rw [asked] at hpiece
  simp only [readStep, hpiece]

theorem run_piece (wire : Memory) {s : ReadState} {n : Nat} {rest : List (Option Nat)}
    (h : pieceResult (asked s) s.device.results = some (n, rest)) :
    (ptpcamUsbUrb < s.rbytes → (readLoop wire).run s = (readLoop wire).run (afterPiece wire s n rest)) ∧
      (s.rbytes ≤ ptpcamUsbUrb → (readLoop wire).run s =
        ⟨(afterPiece wire s n rest).readSize, (afterPiece wire s n rest).dest,
          (afterPiece wire s n rest).readCount, (afterPiece wire s n rest).device⟩) := by
  have hpiece := readPiece_some s.device.taken h
  have hback : s.device.taken + n - n = s.device.taken := Nat.add_sub_cancel _ _
  rw [asked] at hpiece
  constructor
  · intro hmore
    refine (readLoop wire).run_inl ?_
    change readStep wire s = _
    simp only [readStep, hpiece, hback, afterPiece, asked]
    rw [if_pos (by omega)]
  · intro hdone
    refine (readLoop wire).run_inr ?_
    change readStep wire s = _
    simp only [readStep, hpiece, hback, afterPiece, asked]
    rw [if_neg (by omega)]

/-- The loop from any state: every piece goes where the pointer is by then. -/
theorem run_pieces (wire : Memory) (full last : Nat) (hlast : last ≤ ptpcamUsbUrb)
    (hsome : 0 < full → 0 < last) (s : ReadState) (total : Int)
    (hleft : s.rbytes = (full * ptpcamUsbUrb + last : Nat)) (hsize : s.readSize = total.bmod (2 ^ 32)) :
    (pieces full last s.device.results = none → ((readLoop wire).run s).ret = -1) ∧
      ∀ ps, pieces full last s.device.results = some ps →
        ((readLoop wire).run s).ret = (total + received ps).bmod (2 ^ 32) ∧
        ((readLoop wire).run s).device.taken = s.device.taken + received ps ∧
        ((readLoop wire).run s).dest = place wire (s.bytes + s.toread) s.device.taken ps s.dest := by
  induction full generalizing s total with
  | zero =>
    have hasked : asked s = last := by
      rw [asked, hleft, if_neg (by omega)]
      omega
    rw [pieces, ← hasked]
    cases hresult : pieceResult (asked s) s.device.results with
    | none => exact ⟨fun _ => run_failed wire hresult, fun ps hps => by cases hps⟩
    | some r =>
      refine ⟨fun hnone => (nomatch hnone), fun ps hps => ?_⟩
      cases hps
      rw [(run_piece wire hresult).2 (by omega)]
      refine ⟨?_, rfl, rfl⟩
      rw [afterPiece, hsize, bmod_add]
      rfl
  | succ full ih =>
    have hpos := hsome (Nat.succ_pos full)
    rw [Nat.succ_mul] at hleft
    have hasked : asked s = ptpcamUsbUrb := by rw [asked, if_pos (by omega)]
    rw [pieces, ← hasked]
    cases hresult : pieceResult (asked s) s.device.results with
    | none => exact ⟨fun _ => run_failed wire hresult, fun ps hps => by cases hps⟩
    | some r =>
      obtain ⟨n, rest⟩ := r
      have hrest : (afterPiece wire s n rest).rbytes = (full * ptpcamUsbUrb + last : Nat) := by
        change s.rbytes - ptpcamUsbUrb = _
        omega
      have hnext := ih (fun _ => hpos) (afterPiece wire s n rest) (total + n) hrest
        (by rw [afterPiece, hsize, bmod_add])
      rw [(run_piece wire hresult).1 (by omega)]
      cases hpieces : pieces full last rest with
      | none => exact ⟨fun _ => hnext.1 hpieces, fun ps hps => by simp [hpieces] at hps⟩
      | some ps' =>
        refine ⟨fun hnone => by simp [hpieces] at hnone, fun ps hps => ?_⟩
        simp only [hpieces, Option.bind_eq_bind, Option.bind_some, Option.pure_def,
          Option.some.injEq] at hps
        subst hps
        obtain ⟨hret, htaken, hdest⟩ := hnext.2 ps' hpieces
        rw [hret, htaken, hdest, received_cons]
        refine ⟨?_, ?_, rfl⟩
        · rw [Int.add_assoc, ← Int.natCast_add]
        · exact Nat.add_assoc _ _ _

/-! ## Where the bytes are -/

/-- No piece is longer than what was asked for. -/
def WithinAsked (ps : List Piece) : Prop := ∀ p ∈ ps, p.got ≤ p.asked

theorem place_before (wire : Memory) (ps : List Piece) {offset taken i : Nat} (dest : Memory)
    (h : i < offset) : place wire offset taken ps dest i = dest i := by
  induction ps generalizing offset taken dest with
  | nil => rfl
  | cons p ps ih =>
    rw [place, ih _ (Nat.lt_add_right _ h), blit_outside _ _ _ _ (.inl h)]

/-- Pieces that bring nothing leave the destination as it is. -/
theorem place_nothing (wire : Memory) {ps : List Piece} (h : ∀ p ∈ ps, p.got = 0)
    (offset taken : Nat) (dest : Memory) : place wire offset taken ps dest = dest := by
  induction ps generalizing offset taken dest with
  | nil => rfl
  | cons p ps ih =>
    have hempty : blit dest offset (slice wire taken p.got) = dest := by
      funext i
      rw [h p (by simp), slice_zero]
      exact blit_outside _ _ _ _ (by simp; omega)
    rw [place, hempty, ih fun q hq => h q (by simp [hq])]

theorem received_eq_zero {ps : List Piece} : received ps = 0 ↔ ∀ p ∈ ps, p.got = 0 := by
  induction ps with
  | nil => simp [received]
  | cons p ps ih => rw [received_cons, Nat.add_eq_zero_iff, ih, List.forall_mem_cons]

theorem gapless_of_nothing {ps : List Piece} (h : ∀ p ∈ ps, p.got = 0) : Gapless ps := by
  induction ps with
  | nil => trivial
  | cons p ps ih =>
    exact ⟨.inr fun q hq => h q (by simp [hq]), ih fun q hq => h q (by simp [hq])⟩

/-- From where the destination is right up to the pointer, it stays right for all bytes
exactly when there are no gaps. -/
theorem place_right_iff {ps : List Piece} (hasked : WithinAsked ps) (k : Nat) :
    (∀ wire dest : Memory, (∀ i < k, dest i = wire i) →
      ∀ i < k + received ps, place wire k k ps dest i = wire i) ↔ Gapless ps := by
  induction ps generalizing k with
  | nil => exact ⟨fun _ => trivial, fun _ wire dest h i hi => h i hi⟩
  | cons p ps ih =>
    have hrest : WithinAsked ps := fun q hq => hasked q (by simp [hq])
    have hpiece : ∀ (wire dest : Memory), (∀ i < k, dest i = wire i) →
        ∀ i < k + p.got, blit dest k (slice wire k p.got) i = wire i := by
      intro wire dest hdest i hi
      by_cases hlow : i < k
      · rw [blit_outside _ _ _ _ (.inl hlow), hdest i hlow]
      · obtain ⟨j, rfl⟩ := Nat.exists_eq_add_of_le (Nat.not_lt.mp hlow)
        have hj : j < p.got := by omega
        rw [blit_inside _ _ _ _ (by rwa [slice_length])]
        simp [slice, hj]
    rw [received_cons, Gapless]
    by_cases hfull : p.got = p.asked
    · -- the pointer is where the bytes end
      rw [and_iff_right (.inl hfull), ← ih hrest (k + p.asked)]
      constructor
      · intro h wire dest hdest i hi
        have hkept : blit dest k (slice wire k p.got) = dest := by
          funext j
          by_cases hj : j < k + p.got
          · rw [hpiece wire dest (fun i hi => hdest i (by omega)) j hj, hdest j (by omega)]
          · exact blit_outside _ _ _ _ (.inr (by rw [slice_length]; omega))
        have hplaced := h wire dest (fun i hi => hdest i (by omega)) i (by omega)
        rwa [place, hkept, hfull] at hplaced
      · intro h wire dest hdest i hi
        rw [place, hfull]
        refine h wire _ (fun j hj => ?_) i (by omega)
        rw [← hfull]
        exact hpiece wire dest hdest j (by omega)
    · by_cases hnothing : ∀ q ∈ ps, q.got = 0
      · rw [and_iff_left (gapless_of_nothing hnothing), received_eq_zero.mpr hnothing, Nat.add_zero]
        refine ⟨fun _ => .inr hnothing, fun _ wire dest hdest i hi => ?_⟩
        rw [place, place_nothing wire hnothing]
        exact hpiece wire dest hdest i hi
      · -- the byte behind the short piece is never written
        refine ⟨fun h => ?_, fun h => absurd h.1 (by simp [hfull, hnothing])⟩
        have hshort : p.got < p.asked := Nat.lt_of_le_of_ne (hasked p (by simp)) hfull
        have hmore : 0 < received ps := Nat.pos_of_ne_zero fun hzero =>
          hnothing (received_eq_zero.mp hzero)
        have hgap := h (fun _ => 0) (fun i => if i < k then 0 else 1)
          (fun i hi => if_pos hi) (k + p.got) (by omega)
        rw [place, place_before _ _ _ (by omega), blit_outside _ _ _ _ (.inr (by rw [slice_length])),
          if_neg (by omega)] at hgap
        exact absurd hgap (by decide)

/-! ## The function -/

/-- The URBs that a read of so many bytes fills before its last piece. -/
def fullUrbs (maxSize : UInt32) : Nat := (maxSize.toNat - 1) / ptpcamUsbUrb

/-- The pieces of a read of `maxSize` bytes. -/
def readPieces (maxSize : UInt32) (results : List (Option Nat)) : Option (List Piece) :=
  pieces (fullUrbs maxSize) (maxSize.toNat - fullUrbs maxSize * ptpcamUsbUrb) results

theorem pieces_within (full last : Nat) {results : List (Option Nat)} {ps : List Piece}
    (h : pieces full last results = some ps) :
    WithinAsked ps ∧ received ps ≤ full * ptpcamUsbUrb + last := by
  induction full generalizing results ps with
  | zero =>
    obtain ⟨r, hr, rfl⟩ := Option.map_eq_some_iff.mp h
    have hle := pieceResult_le hr
    refine ⟨?_, ?_⟩
    · simpa [WithinAsked] using hle
    · simpa [received] using hle
  | succ full ih =>
    obtain ⟨⟨n, rest⟩, hr, h⟩ := Option.bind_eq_some_iff.mp h
    obtain ⟨ps', hps', h⟩ := Option.bind_eq_some_iff.mp h
    cases h
    have hle := pieceResult_le hr
    obtain ⟨hwithin, htotal⟩ := ih hps'
    refine ⟨?_, ?_⟩
    · rw [WithinAsked, List.forall_mem_cons]
      exact ⟨hle, hwithin⟩
    · rw [received_cons, Nat.succ_mul]
      simp only
      omega

/-- What a result that is not negative promises. -/
def Delivered (wire : Memory) (r : ReadResult) : Prop :=
  0 ≤ r.ret → r.ret = r.device.taken ∧ slice r.dest 0 r.ret.toNat = slice wire 0 r.ret.toNat

/-- A count that an `int` holds. -/
theorem nonneg_iff {n : Nat} (h : n < 2 ^ 32) : 0 ≤ (n : Int).bmod (2 ^ 32) ↔ n < 2 ^ 31 := by
  have hmodulo := Int.bmod_emod (x := n) (m := 2 ^ 32)
  have hbound := Int.bmod_lt (x := n) (m := 2 ^ 32) (by decide)
  have hlow := Int.le_bmod (x := n) (m := 2 ^ 32) (by decide)
  omega

/-- What the function returns and stores. -/
theorem readFunc_pieces (wire : Memory) (maxSize : UInt32) (results : List (Option Nat))
    (readCount : UInt64) (dest : Memory) :
    (readPieces maxSize results = none →
        (ptpUsbReadFunc wire maxSize results readCount dest).ret = -1) ∧
      ∀ ps, readPieces maxSize results = some ps →
        (ptpUsbReadFunc wire maxSize results readCount dest).ret = (received ps : Int).bmod (2 ^ 32) ∧
        (ptpUsbReadFunc wire maxSize results readCount dest).device.taken = received ps ∧
        (ptpUsbReadFunc wire maxSize results readCount dest).dest = place wire 0 0 ps dest := by
  have hsplit := Nat.div_add_mod (maxSize.toNat - 1) ptpcamUsbUrb
  have hmod := Nat.mod_lt (maxSize.toNat - 1) (show 0 < ptpcamUsbUrb by decide)
  have hfull : fullUrbs maxSize * ptpcamUsbUrb = ptpcamUsbUrb * ((maxSize.toNat - 1) / ptpcamUsbUrb) :=
    Nat.mul_comm _ _
  have hsome : 0 < fullUrbs maxSize → 0 < maxSize.toNat - fullUrbs maxSize * ptpcamUsbUrb := by
    intro hpos
    have := Nat.div_pos_iff.mp hpos
    omega
  have hrun := run_pieces wire (fullUrbs maxSize)
    (maxSize.toNat - fullUrbs maxSize * ptpcamUsbUrb) (by omega) hsome
    ⟨0, 0, maxSize.toNat, 0, readCount, ⟨results, 0⟩, dest⟩ 0 (by simp only; omega) (by simp)
  simp only [Int.zero_add, Nat.zero_add] at hrun
  exact hrun

/-- Whatever the bytes are, they are delivered exactly when a read fails, more of them come
than an `int` counts, or no short piece is followed by more bytes. -/
theorem usb_read_delivers_iff (maxSize : UInt32) (results : List (Option Nat)) (readCount : UInt64) :
    (∀ wire dest, Delivered wire (ptpUsbReadFunc wire maxSize results readCount dest)) ↔
      ∀ ps, readPieces maxSize results = some ps → received ps < 2 ^ 31 → Gapless ps := by
  have hrun := fun wire dest => readFunc_pieces wire maxSize results readCount dest
  cases hpieces : readPieces maxSize results with
  | none =>
    refine ⟨fun _ ps hps => (nomatch hps), fun _ wire dest hret => ?_⟩
    rw [(hrun wire dest).1 hpieces] at hret
    exact absurd hret (by decide)
  | some ps =>
    obtain ⟨hwithin, htotal⟩ := pieces_within _ _ hpieces
    have hlt : received ps < 2 ^ 32 := by
      have hmax := maxSize.toNat_lt
      have hfull : fullUrbs maxSize * ptpcamUsbUrb ≤ maxSize.toNat - 1 := Nat.div_mul_le_self _ _
      omega
    have hright := place_right_iff hwithin 0
    simp only [Option.some.injEq, forall_eq']
    constructor
    · intro h hsmall
      refine hright.mp fun wire dest _ i hi => ?_
      obtain ⟨hret, -, hdest⟩ := (hrun wire dest).2 ps hpieces
      have hdelivered := h wire dest
      rw [Delivered, hret, hdest, Int.bmod_eq_of_le (by omega) (by omega), Int.toNat_natCast]
        at hdelivered
      have hslice := congrArg (fun l => l.getD i 0) (hdelivered (Int.natCast_nonneg _)).2
      have hi' : i < received ps := by omega
      simpa [slice, List.getD_eq_getElem?_getD, hi'] using hslice
    · intro hgapless wire dest hret
      obtain ⟨hval, htaken, hdest⟩ := (hrun wire dest).2 ps hpieces
      rw [hval] at hret
      have hsmall := (nonneg_iff hlt).mp hret
      rw [hval, htaken, hdest, Int.bmod_eq_of_le (by omega) (by omega), Int.toNat_natCast]
      refine ⟨rfl, slice_congr fun i hi => ?_⟩
      have hplaced := hright.mpr (hgapless hsmall) wire dest (fun i hi => absurd hi (Nat.not_lt_zero i))
        i (by omega)
      simpa only [Nat.zero_add] using hplaced

/-- The first of two URBs brings one byte, the second another. -/
theorem short_piece_gap :
    ¬∀ wire dest, Delivered wire (ptpUsbReadFunc wire 2097153 [some 1, some 1] 0 dest) := by
  intro h
  have hgapless := (usb_read_delivers_iff 2097153 [some 1, some 1] 0).mp h
    [⟨ptpcamUsbUrb, 1⟩, ⟨1, 1⟩] (by decide +kernel) (by decide)
  rcases hgapless.1 with hfull | hnothing
  · exact absurd hfull (by decide)
  · exact absurd (hnothing ⟨1, 1⟩ (by simp)) (by decide)

end UsbRead
