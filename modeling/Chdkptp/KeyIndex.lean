import Mathlib.Logic.Function.Basic

/-!
# An index of objects by their keys

Each object has a key or none; the index has for each key the object whose key it is. So no two
objects have the same key.
-/

namespace KeyIndex

variable {κ ι : Type} {index : κ → Option ι} {keyOf : ι → Option κ} {k : κ} {i j : ι}

def Indexes (index : κ → Option ι) (keyOf : ι → Option κ) : Prop :=
  ∀ k i, index k = some i ↔ keyOf i = some k

namespace Indexes

theorem unique (h : Indexes index keyOf) (hi : keyOf i = some k) (hj : keyOf j = some k) :
    i = j := by
  have hk := (h k i).mpr hi
  rw [(h k j).mpr hj] at hk
  exact (Option.some.inj hk).symm

variable [DecidableEq κ] [DecidableEq ι]

/-- An object with a new key enters the index. -/
theorem insert (h : Indexes index keyOf) (hk : index k = none) (hi : keyOf i = none) :
    Indexes (Function.update index k (some i)) (Function.update keyOf i (some k)) := by
  intro k' j
  by_cases hkk : k' = k
  · subst hkk
    by_cases hji : j = i
    · subst hji
      simp
    · have hother := h k' j
      rw [hk] at hother
      simpa [Function.update_of_ne hji, Ne.symm hji] using hother
  · rw [Function.update_of_ne hkk]
    by_cases hji : j = i
    · subst hji
      have hother := h k' j
      rw [hi] at hother
      rw [Function.update_self, hother]
      simp [Ne.symm hkk]
    · rw [Function.update_of_ne hji]
      exact h k' j

/-- An object loses its key, which leaves the index. -/
theorem remove (h : Indexes index keyOf) (hi : keyOf i = some k) :
    Indexes (Function.update index k none) (Function.update keyOf i none) := by
  intro k' j
  by_cases hji : j = i
  · subst hji
    by_cases hkk : k' = k
    · subst hkk
      simp
    · have hother := h k' j
      rw [hi] at hother
      simpa [Function.update_of_ne hkk, Ne.symm hkk] using hother
  · rw [Function.update_of_ne hji]
    by_cases hkk : k' = k
    · subst hkk
      have hno : keyOf j ≠ some k' := fun hj => hji (h.unique hj hi)
      simp [hno]
    · rw [Function.update_of_ne hkk]
      exact h k' j

end Indexes

end KeyIndex
