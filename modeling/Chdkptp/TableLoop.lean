import Mathlib.Data.List.Basic

/-!
# Traversing a table that changes

`for k,v in pairs(t)` with a body that may clear fields of `t` and assign new ones. In
which order the fields come is not known, so the visits are given, each with what happens
during it. As long as no field is assigned that did not exist, every field that is left at
the end has been visited once; otherwise a traversal may pass over fields.
-/

namespace TableLoop

variable {σ κ ν : Type} [DecidableEq κ]

/-- A table in a state; `inserted` counts the assignments to fields that did not exist. -/
structure Table (σ κ : Type) where
  keys : σ → List κ
  inserted : σ → Nat

/-- The visits, one after the other. A field is there when it is visited; the body says
what it makes of the state, and whether an error ends the loop. -/
def visits (T : Table σ κ) (body : σ → κ → ν → Option (σ × Bool)) :
    σ → List (κ × ν) → Option (σ × Bool)
  | s, [] => some (s, false)
  | s, v :: l =>
    if v.1 ∈ T.keys s then do
      let (s', threw) ← body s v.1 v.2
      if threw then if l.isEmpty then some (s', true) else none else visits T body s' l
    else none

/-- The loop comes to its end only with every field visited, unless fields were assigned. -/
def Complete (T : Table σ κ) (s s' : σ) (l : List (κ × ν)) : Prop :=
  T.inserted s' = T.inserted s → (l.map Prod.fst).Nodup ∧ ∀ k ∈ T.keys s', k ∈ l.map Prod.fst

instance (T : Table σ κ) (s s' : σ) (l : List (κ × ν)) : Decidable (Complete T s s' l) :=
  inferInstanceAs (Decidable (_ → _))

def pairs (T : Table σ κ) (body : σ → κ → ν → Option (σ × Bool)) (s : σ) (l : List (κ × ν)) :
    Option (σ × Bool) := do
  let (s', threw) ← visits T body s l
  if threw ∨ Complete T s s' l then some (s', threw) else none

section

variable {T : Table σ κ} {body : σ → κ → ν → Option (σ × Bool)} {s s' : σ} {l : List (κ × ν)}
  {threw : Bool}

/-- The first visit. -/
theorem visits_cons {v : κ × ν} (h : visits T body s (v :: l) = some (s', threw)) :
    v.1 ∈ T.keys s ∧ ∃ s₁ t, body s v.1 v.2 = some (s₁, t) ∧
      (t = true ∧ l = [] ∧ s' = s₁ ∧ threw = true ∨
        t = false ∧ visits T body s₁ l = some (s', threw)) := by
  rw [visits] at h
  split at h
  · rename_i hkey
    obtain ⟨⟨s₁, t⟩, hbody, h⟩ := Option.bind_eq_some_iff.mp h
    refine ⟨hkey, s₁, t, hbody, ?_⟩
    cases t with
    | true =>
      simp only [if_true, List.isEmpty_iff] at h
      split at h
      · cases h
        exact .inl ⟨rfl, by assumption, rfl, rfl⟩
      · cases h
    | false => exact .inr ⟨rfl, h⟩
  · cases h

/-- What every visit keeps. -/
theorem visits_invariant (P : σ → Prop) (h : visits T body s l = some (s', threw)) (hs : P s)
    (hbody : ∀ s v s' t, v ∈ l → v.1 ∈ T.keys s → P s → body s v.1 v.2 = some (s', t) → P s') :
    P s' := by
  induction l generalizing s with
  | nil =>
    cases h
    exact hs
  | cons v l ih =>
    obtain ⟨hkey, s₁, t, hstep, hend⟩ := visits_cons h
    have hnext : P s₁ := hbody s v s₁ t (by simp) hkey hs hstep
    rcases hend with ⟨-, -, rfl, -⟩ | ⟨-, hrest⟩
    · exact hnext
    · exact ih hrest hnext fun s w s' t hw => hbody s w s' t (by simp [hw])

theorem pairs_visits (h : pairs T body s l = some (s', threw)) :
    visits T body s l = some (s', threw) ∧ (threw = false → Complete T s s' l) := by
  obtain ⟨⟨s₁, t⟩, hvisits, h⟩ := Option.bind_eq_some_iff.mp h
  simp only at h
  split at h
  · rename_i hend
    cases h
    exact ⟨hvisits, fun hthrew => hend.resolve_left (by simp [hthrew])⟩
  · cases h

end

end TableLoop
