import Chdkptp.ByteMemory
import Chdkptp.BoundedLoop

/-!
# Lua buffers

`lBuf_t` as far as the image code uses it, and `lbuf:reverse_bytes`.
-/

namespace Lbuf

open ByteMemory BoundedLoop

structure LBuf where
  len : UInt32
  bytes : Memory

/-- State of the loop of `lbuf_reverse_bytes`: the `int` counter, held as its 32
bits, and the bytes swapped so far. -/
structure Reversing where
  i : Nat
  bytes : Memory

/-- One test of `i<buf->len-1` and, when it holds, one swap. Both sides of the
test are unsigned, so an empty buffer gives the bound `2^32 - 1`. The subscripts
use the counter as an `int`; an access outside the buffer ends in `none`. -/
def reverseStep (len : Nat) (s : Reversing) : Reversing ⊕ Option Memory :=
  if s.i < (len + 2 ^ 32 - 1) % 2 ^ 32 then
    if s.i < 2 ^ 31 ∧ s.i + 1 < len then
      .inl ⟨s.i + 2, put (put s.bytes (s.i + 1) (s.bytes s.i)) s.i (s.bytes (s.i + 1))⟩
    else .inr none
  else .inr (some s.bytes)

def reverseLoop (len : Nat) : Loop Reversing (Option Memory) where
  step := reverseStep len
  measure := fun s => len - s.i
  decreases := by
    intro s s' h
    simp only [reverseStep] at h
    split at h
    · split at h
      · cases h
        simp only
        omega
      · cases h
    · cases h

def lbufReverseBytes (buf : LBuf) : Option LBuf :=
  ((reverseLoop buf.len.toNat).run ⟨0, buf.bytes⟩).map (fun bytes => { buf with bytes := bytes })

/-- After `i` bytes, the pairs below `i` are exchanged and the rest is untouched. -/
structure Swapped (len : Nat) (m : Memory) (s : Reversing) : Prop where
  even : s.i % 2 = 0
  bound : s.i ≤ len
  below : ∀ o, o < s.i → s.bytes o = m (mate o)
  above : ∀ o, s.i ≤ o → s.bytes o = m o

theorem Swapped.done {len : Nat} {m : Memory} {s : Reversing} (h : Swapped len m s)
    (hi : len ≤ s.i + 1) : s.bytes = swapPairs len m := by
  funext o
  have heven := h.even
  have hbound := h.bound
  have hmate : o < s.i → mate o < s.i := by
    unfold mate
    split <;> omega
  by_cases ho : o < s.i
  · have hm := hmate ho
    have hin : o < len ∧ mate o < len := by omega
    simp [swapPairs, h.below o ho, hin]
  · have hno : ¬(o < len ∧ mate o < len) := by
      unfold mate
      split <;> omega
    simp [swapPairs, h.above o (by omega), hno]

/-- The body of the loop exchanges one more pair. -/
theorem Swapped.step {len : Nat} {m : Memory} {s : Reversing} (h : Swapped len m s)
    (hi : s.i + 1 < len) :
    Swapped len m
      ⟨s.i + 2, put (put s.bytes (s.i + 1) (s.bytes s.i)) s.i (s.bytes (s.i + 1))⟩ := by
  have heven := h.even
  have hself : mate s.i = s.i + 1 := by simp [mate, heven]
  have hnext : mate (s.i + 1) = s.i := by
    unfold mate
    split <;> omega
  constructor
  · simp only
    omega
  · simp only
    omega
  · intro o ho
    simp only at ho ⊢
    by_cases h0 : o = s.i
    · subst h0
      rw [put_same, hself]
      exact h.above _ (by omega)
    · by_cases h1 : o = s.i + 1
      · subst h1
        rw [put_other _ _ _ _ (by omega), put_same, hnext]
        exact h.above _ (by omega)
      · rw [put_other _ _ _ _ h0, put_other _ _ _ _ h1]
        exact h.below o (by omega)
  · intro o ho
    simp only at ho ⊢
    rw [put_other _ _ _ _ (by omega), put_other _ _ _ _ (by omega)]
    exact h.above o (by omega)

theorem swapped_start (len : Nat) (m : Memory) : Swapped len m ⟨0, m⟩ := by
  constructor <;> simp

theorem Swapped.preserved {len : Nat} {m : Memory} (s s' : Reversing) (h : Swapped len m s)
    (hstep : (reverseLoop len).step s = .inl s') : Swapped len m s' := by
  simp only [reverseLoop, reverseStep] at hstep
  split at hstep
  · split at hstep
    · rename_i hin
      cases hstep
      exact h.step hin.2
    · cases hstep
  · cases hstep

/-- Whenever `reverse_bytes` stays inside the buffer it exchanges every pair. -/
theorem reverseLoop_some (len : Nat) (hlen : 0 < len) (hmax : len < 2 ^ 32) (m out : Memory)
    (h : (reverseLoop len).run ⟨0, m⟩ = some out) : out = swapPairs len m := by
  have hrun := (reverseLoop len).run_invariant (Swapped len m)
    (fun r => ∀ out, r = some out → out = swapPairs len m) Swapped.preserved
    (by
      intro s r hs hstep out hout
      simp only [reverseLoop, reverseStep] at hstep
      split at hstep
      · split at hstep
        · cases hstep
        · cases hstep
          cases hout
      · cases hstep
        cases hout
        exact hs.done (by omega))
    (swapped_start len m)
  exact hrun out h

/-- For lengths an `int` counter can step through, `reverse_bytes` returns. -/
theorem reverseLoop_eq (len : Nat) (hlen : 0 < len) (hmax : len ≤ 2 ^ 31 + 1) (m : Memory) :
    (reverseLoop len).run ⟨0, m⟩ = some (swapPairs len m) := by
  refine (reverseLoop len).run_invariant (Swapped len m) (fun r => r = some (swapPairs len m))
    Swapped.preserved ?_ (swapped_start len m)
  intro s r hs hstep
  have heven := hs.even
  simp only [reverseLoop, reverseStep] at hstep
  split at hstep
  · split at hstep
    · cases hstep
    · omega
  · cases hstep
    rw [hs.done (by omega)]

theorem lbufReverseBytes_some (buf out : LBuf) (hlen : 0 < buf.len.toNat)
    (h : lbufReverseBytes buf = some out) :
    out = { buf with bytes := swapPairs buf.len.toNat buf.bytes } := by
  obtain ⟨bytes, hrun, hout⟩ := Option.map_eq_some_iff.mp h
  rw [← hout, reverseLoop_some _ hlen buf.len.toNat_lt _ _ hrun]

theorem lbufReverseBytes_eq (buf : LBuf) (hlen : 0 < buf.len.toNat)
    (hmax : buf.len.toNat ≤ 2 ^ 31 + 1) :
    lbufReverseBytes buf = some { buf with bytes := swapPairs buf.len.toNat buf.bytes } := by
  rw [lbufReverseBytes, reverseLoop_eq _ hlen hmax]
  rfl

/-- For no bytes and for more bytes it leaves the buffer. -/
theorem reverseLoop_none (len : Nat) (hmax : len < 2 ^ 32) (h : len = 0 ∨ 2 ^ 31 + 1 < len)
    (m : Memory) : (reverseLoop len).run ⟨0, m⟩ = none := by
  refine (reverseLoop len).run_invariant (fun s => s.i % 2 = 0 ∧ s.i ≤ 2 ^ 31)
    (fun r => r = none) ?_ ?_ ⟨rfl, Nat.zero_le _⟩
  · rintro s s' ⟨heven, hle⟩ hstep
    simp only [reverseLoop, reverseStep] at hstep
    split at hstep
    · split at hstep
      · cases hstep
        constructor
        · dsimp only
          omega
        · dsimp only
          omega
      · cases hstep
    · cases hstep
  · rintro s r ⟨heven, hle⟩ hstep
    simp only [reverseLoop, reverseStep] at hstep
    split at hstep
    · split at hstep
      · cases hstep
      · cases hstep
        rfl
    · omega

theorem lbufReverseBytes_isSome (buf : LBuf) :
    (lbufReverseBytes buf).isSome = true ↔ 0 < buf.len.toNat ∧ buf.len.toNat ≤ 2 ^ 31 + 1 := by
  by_cases h : 0 < buf.len.toNat ∧ buf.len.toNat ≤ 2 ^ 31 + 1
  · rw [lbufReverseBytes_eq buf h.1 h.2]
    exact iff_of_true rfl h
  · have hnone := reverseLoop_none _ buf.len.toNat_lt (by omega) buf.bytes
    rw [lbufReverseBytes, hnone]
    exact iff_of_false Bool.false_ne_true h

/-! ## What reversing does -/

/-- Neighbours exchanged, from the first two bytes on. -/
structure Reversed (buf out : LBuf) : Prop where
  len : out.len = buf.len
  pairs : ∀ i, 2 * i + 1 < buf.len.toNat →
    out.bytes (2 * i) = buf.bytes (2 * i + 1) ∧ out.bytes (2 * i + 1) = buf.bytes (2 * i)
  last : buf.len.toNat % 2 = 1 →
    out.bytes (buf.len.toNat - 1) = buf.bytes (buf.len.toNat - 1)
  outside : ∀ o, buf.len.toNat ≤ o → out.bytes o = buf.bytes o

theorem swapPairs_reversed (buf : LBuf) :
    Reversed buf { buf with bytes := swapPairs buf.len.toNat buf.bytes } := by
  constructor
  · rfl
  · intro i hi
    have heven : mate (2 * i) = 2 * i + 1 := by simp [mate]
    have hodd : mate (2 * i + 1) = 2 * i := by
      rw [← heven, mate_mate]
    have hlow : 2 * i < buf.len.toNat := by omega
    simp [swapPairs, heven, hodd, hi, hlow]
  · intro hlen
    have hmate : ¬mate (buf.len.toNat - 1) < buf.len.toNat := by
      unfold mate
      split <;> omega
    simp [swapPairs, hmate]
  · intro o ho
    have hout : ¬o < buf.len.toNat := by omega
    simp [swapPairs, hout]

theorem swapPairs_swapPairs (len : Nat) (m : Memory) : swapPairs len (swapPairs len m) = m := by
  funext o
  by_cases ho : o < len ∧ mate o < len
  · simp [swapPairs, ho, mate_mate]
  · simp [swapPairs, ho]

/-- The bytes are reversed inside the buffer, and doing it again restores them. -/
def Reverses (buf : LBuf) : Prop :=
  ∃ out, lbufReverseBytes buf = some out ∧ Reversed buf out ∧ lbufReverseBytes out = some buf

/-- The loop keeps to the buffer unless its bound wraps or its counter overflows. -/
theorem reverses_iff (buf : LBuf) :
    Reverses buf ↔ 0 < buf.len.toNat ∧ buf.len.toNat ≤ 2 ^ 31 + 1 := by
  constructor
  · rintro ⟨out, hout, -, -⟩
    exact (lbufReverseBytes_isSome buf).mp (Option.isSome_of_mem hout)
  · rintro ⟨hpos, hmax⟩
    have htwice := lbufReverseBytes_eq { buf with bytes := swapPairs buf.len.toNat buf.bytes }
      hpos hmax
    rw [swapPairs_swapPairs] at htwice
    exact ⟨_, lbufReverseBytes_eq buf hpos hmax, swapPairs_reversed buf, htwice⟩

/-- An empty buffer. -/
theorem not_reverses : ¬Reverses ⟨0, fun _ => 0⟩ := by
  rintro ⟨out, hout, -, -⟩
  have hsome := (lbufReverseBytes_isSome _).mp (Option.isSome_of_mem hout)
  exact absurd hsome.1 (by decide)

end Lbuf
