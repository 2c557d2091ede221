import Mathlib.Data.Int.Range

/-!
# Intervals of integers

The integers of an interval in order, intervals cut into pieces, and sums of the values of
a partial table over an interval.
-/

namespace Intervals

/-! ## Lists of integers -/

/-- The integers from `lo` up to and including `hi`. -/
def upTo (lo hi : Int) : List Int := Int.range lo (hi + 1)

@[simp] theorem mem_upTo {lo hi k : Int} : k ∈ upTo lo hi ↔ lo ≤ k ∧ k ≤ hi := by
  rw [upTo, Int.mem_range_iff, Int.lt_add_one_iff]

@[simp] theorem length_upTo (lo hi : Int) : (upTo lo hi).length = (hi + 1 - lo).toNat := by
  simp [upTo, Int.range]

theorem upTo_empty {lo hi : Int} (h : hi < lo) : upTo lo hi = [] := by
  apply List.eq_nil_of_length_eq_zero
  rw [length_upTo]
  omega

theorem upTo_split {lo mid hi : Int} (hlo : lo ≤ mid + 1) (hhi : mid ≤ hi) :
    upTo lo hi = upTo lo mid ++ upTo (mid + 1) hi := by
  have hlength : (hi + 1 - lo).toNat = (mid + 1 - lo).toNat + (hi + 1 - (mid + 1)).toNat := by
    omega
  unfold upTo Int.range
  rw [hlength, List.range_add, List.map_append, List.map_map]
  apply congrArg
  apply List.map_congr_left
  intro k _
  have hstart : ((mid + 1 - lo).toNat : Int) = mid + 1 - lo := Int.toNat_of_nonneg (by omega)
  simp only [Function.comp_apply, Int.natCast_add, hstart]
  omega

/-- An interval moved along. -/
theorem map_add_upTo (a lo hi : Int) : (upTo lo hi).map (a + ·) = upTo (a + lo) (a + hi) := by
  have hlength : a + hi + 1 - (a + lo) = hi + 1 - lo := by omega
  unfold upTo Int.range
  rw [hlength, List.map_map]
  apply List.map_congr_left
  intro k _
  exact (Int.add_assoc a lo k).symm

/-- An interval cut off. -/
theorem filter_upTo (lo hi max : Int) : (upTo lo hi).filter (· ≤ max) = upTo lo (min hi max) := by
  obtain hall | hcut := Int.le_total hi max
  · rw [Int.min_eq_left hall]
    apply List.filter_eq_self.mpr
    intro k hk
    rw [mem_upTo] at hk
    exact decide_eq_true (Int.le_trans hk.2 hall)
  · rw [Int.min_eq_right hcut]
    by_cases hnone : max < lo
    · rw [upTo_empty hnone]
      apply List.filter_eq_nil_iff.mpr
      intro k hk
      rw [mem_upTo] at hk
      simp only [decide_eq_true_eq]
      omega
    · rw [upTo_split (show lo ≤ max + 1 by omega) hcut, List.filter_append]
      have hkept : (upTo lo max).filter (· ≤ max) = upTo lo max := by
        apply List.filter_eq_self.mpr
        intro k hk
        rw [mem_upTo] at hk
        exact decide_eq_true hk.2
      have hdropped : (upTo (max + 1) hi).filter (· ≤ max) = [] := by
        apply List.filter_eq_nil_iff.mpr
        intro k hk
        rw [mem_upTo] at hk
        simp only [decide_eq_true_eq]
        omega
      rw [hkept, hdropped, List.append_nil]

/-! ## Pieces -/

/-- An interval cut into intervals, from left to right. -/
structure Partitions (pieces : List (Int × Int)) (lo hi : Int) : Prop where
  nonempty : ∀ p ∈ pieces, p.1 ≤ p.2
  ordered : pieces.Pairwise fun p q => p.2 < q.1
  covers : ∀ k, (lo ≤ k ∧ k ≤ hi) ↔ ∃ p ∈ pieces, p.1 ≤ k ∧ k ≤ p.2

theorem Partitions.nil {lo hi : Int} (h : hi < lo) : Partitions [] lo hi := by
  constructor
  · exact fun p hp => absurd hp List.not_mem_nil
  · exact List.Pairwise.nil
  · intro k
    constructor
    · omega
    · rintro ⟨p, hp, -⟩
      exact absurd hp List.not_mem_nil

/-- The piece in front of others; `next` is where these begin, or is behind the interval. -/
theorem Partitions.cons {pieces : List (Int × Int)} {lo mid next hi : Int} (hlo : lo ≤ mid)
    (hhi : mid ≤ hi) (hnext : ∀ k ≤ hi, next ≤ k ↔ mid < k) (h : Partitions pieces next hi) :
    Partitions ((lo, mid) :: pieces) lo hi := by
  constructor
  · intro p hp
    obtain rfl | hp := List.mem_cons.mp hp
    · exact hlo
    · exact h.nonempty p hp
  · apply List.Pairwise.cons _ h.ordered
    intro q hq
    have hin := (h.covers q.1).mpr ⟨q, hq, Int.le_refl _, h.nonempty q hq⟩
    exact (hnext q.1 hin.2).mp hin.1
  · intro k
    simp only [List.mem_cons, exists_eq_or_imp, ← h.covers]
    constructor
    · rintro ⟨hk, hk'⟩
      by_cases hmid : k ≤ mid
      · exact .inl ⟨hk, hmid⟩
      · exact .inr ⟨(hnext k hk').mpr (by omega), hk'⟩
    · rintro (⟨hk, hk'⟩ | ⟨hk, hk'⟩)
      · exact ⟨hk, Int.le_trans hk' hhi⟩
      · have hbehind := (hnext k hk').mp hk
        exact ⟨by omega, hk'⟩

/-! ## Sums -/

section Sums

variable {ι ε M : Type} [AddMonoid M] (get : ι → Except ε M)

/-- The values at some places, added from left to right onto a number. -/
def addOver (l : List ι) (t : M) : Except ε M := l.foldlM (fun t i => return t + (← get i)) t

theorem addOver_nil (t : M) : addOver get [] t = .ok t := rfl

theorem addOver_append (l l' : List ι) (t : M) :
    addOver get (l ++ l') t = (addOver get l t).bind (addOver get l') := List.foldlM_append

/-- The number in front stays in front. -/
theorem addOver_eq (l : List ι) (t : M) : addOver get l t = (addOver get l 0).map (t + ·) := by
  induction l generalizing t with
  | nil => simp [addOver_nil, Except.map]
  | cons i l ih =>
    have hstep : ∀ t, addOver get (i :: l) t = (get i).bind fun v => addOver get l (t + v) := by
      intro t
      unfold addOver
      rw [List.foldlM_cons]
      cases get i <;> rfl
    rw [hstep, hstep]
    cases get i with
    | error e => rfl
    | ok v =>
      change addOver get l (t + v) = (addOver get l (0 + v)).map (t + ·)
      rw [ih (t + v), zero_add, ih v]
      cases addOver get l 0 with
      | error e => rfl
      | ok s => simp [Except.map, add_assoc]

/-- The sum over two parts. -/
theorem addOver_parts (l l' : List ι) :
    addOver get (l ++ l') 0 =
      (addOver get l 0).bind fun t => (addOver get l' 0).map (t + ·) := by
  rw [addOver_append]
  apply congrArg
  funext t
  exact addOver_eq get l' t

end Sums

end Intervals
