import Mathlib.Data.List.Count

/-!
# Lines of texts put together

The line of a position in a text is one more than the line ends before it. A part of
a text has lines of its own; `IsLine` says which line of the part a line of the whole is.
The position behind the last character counts, so every text has a first line and what
follows the last line end is a line too.
-/

namespace TextLines

variable {α : Type} [DecidableEq α] (newline : α)

def lineAt (text : List α) (p : Nat) : Nat := (text.take p).count newline + 1

/-- The lines that a text adds to what is put behind it. -/
def lineEnds (text : List α) : Nat := text.count newline

/-- `l` is the number of a line. -/
def HasLine (text : List α) (l : Nat) : Prop := ∃ p, p ≤ text.length ∧ lineAt newline text p = l

/-- Line `l` of the text `before ++ part ++ after` is line `k` of `part`. -/
def IsLine (before part after : List α) (l k : Nat) : Prop :=
  ∃ p, p ≤ part.length ∧ lineAt newline (before ++ part ++ after) (before.length + p) = l ∧
    lineAt newline part p = k

theorem lineEnds_append (a b : List α) :
    lineEnds newline (a ++ b) = lineEnds newline a + lineEnds newline b := List.count_append

/-- Line numbers go up from 1, and each occurs. -/
theorem hasLine_iff (text : List α) (l : Nat) :
    HasLine newline text l ↔ 1 ≤ l ∧ l ≤ lineEnds newline text + 1 := by
  constructor
  · rintro ⟨p, _, rfl⟩
    have hle : (text.take p).count newline ≤ text.count newline :=
      (List.take_sublist p text).count_le newline
    exact ⟨Nat.succ_le_succ (Nat.zero_le _), Nat.succ_le_succ hle⟩
  · rintro ⟨hlow, hhigh⟩
    induction text generalizing l with
    | nil =>
      have hl : l = 1 := by
        simp only [lineEnds, List.count_nil] at hhigh
        omega
      exact ⟨0, Nat.le_refl 0, hl.symm⟩
    | cons c text ih =>
      by_cases hone : l = 1
      · exact ⟨0, Nat.zero_le _, hone.symm⟩
      · by_cases hc : c = newline
        · -- the first character ends line 1
          rw [lineEnds, hc, List.count_cons_self] at hhigh
          obtain ⟨p, hp, hline⟩ := ih (l - 1) (by omega) (by rw [lineEnds]; omega)
          refine ⟨p + 1, Nat.succ_le_succ hp, ?_⟩
          rw [lineAt] at hline ⊢
          rw [List.take_succ_cons, hc, List.count_cons_self]
          omega
        · rw [lineEnds, List.count_cons_of_ne hc] at hhigh
          obtain ⟨p, hp, hline⟩ := ih l hlow hhigh
          refine ⟨p + 1, Nat.succ_le_succ hp, ?_⟩
          rw [lineAt] at hline ⊢
          rwa [List.take_succ_cons, List.count_cons_of_ne hc]

/-- A part's lines follow those of what stands before it. -/
theorem lineAt_part (before part after : List α) {p : Nat} (h : p ≤ part.length) :
    lineAt newline (before ++ part ++ after) (before.length + p) =
      lineEnds newline before + lineAt newline part p := by
  rw [lineAt, lineAt, lineEnds, List.append_assoc, List.take_length_add_append,
    List.take_append_of_le_length h, List.count_append, Nat.add_assoc]

/-- The lines of a part, in numbers. -/
theorem isLine_iff (before part after : List α) (l k : Nat) :
    IsLine newline before part after l k ↔
      l = lineEnds newline before + k ∧ 1 ≤ k ∧ k ≤ lineEnds newline part + 1 := by
  rw [← hasLine_iff]
  constructor
  · rintro ⟨p, hp, hwhole, rfl⟩
    rw [lineAt_part newline before part after hp] at hwhole
    exact ⟨hwhole.symm, p, hp, rfl⟩
  · rintro ⟨rfl, p, hp, rfl⟩
    exact ⟨p, hp, lineAt_part newline before part after hp, rfl⟩

end TextLines
