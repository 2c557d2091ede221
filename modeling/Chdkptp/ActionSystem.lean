import Mathlib.Order.Basic

/-!
# Systems that take actions

A system has states and a partial step function: an action is taken in a state
where it can be. A run is a list of actions, in the order in which they are taken,
so a statement about all runs is one about every interleaving of those who act.
-/

namespace ActionSystem

variable {σ α : Type}

structure System (σ α : Type) where
  step : σ → α → Option σ

namespace System

def run (S : System σ α) (s : σ) : List α → Option σ
  | [] => some s
  | a :: as => (S.step s a).bind fun s' => S.run s' as

@[simp] theorem run_nil (S : System σ α) (s : σ) : S.run s [] = some s := rfl

@[simp] theorem run_cons (S : System σ α) (s : σ) (a : α) (as : List α) :
    S.run s (a :: as) = (S.step s a).bind fun s' => S.run s' as := rfl

theorem run_append (S : System σ α) (s : σ) (as bs : List α) :
    S.run s (as ++ bs) = (S.run s as).bind fun s' => S.run s' bs := by
  induction as generalizing s with
  | nil => rfl
  | cons a as ih =>
    simp only [List.cons_append, run_cons, Option.bind_assoc]
    congr 1
    funext s'
    exact ih s'

/-- What every action preserves holds after every run. -/
theorem run_invariant (S : System σ α) (I : σ → Prop)
    (hstep : ∀ s a s', I s → S.step s a = some s' → I s') {s s' : σ} {as : List α} (hs : I s)
    (h : S.run s as = some s') : I s' := by
  induction as generalizing s with
  | nil =>
    cases h
    exact hs
  | cons a as ih =>
    obtain ⟨t, ht, hrest⟩ := Option.bind_eq_some_iff.mp h
    exact ih (hstep s a t hs ht) hrest

/-- What every action preserves that meets its condition holds after every run of such actions. -/
theorem run_guarded (S : System σ α) (I : σ → Prop) (C : σ → α → Prop)
    (hstep : ∀ s a s', I s → C s a → S.step s a = some s' → I s') {s s' : σ} {as : List α}
    (hs : I s) (h : S.run s as = some s')
    (hall : ∀ before a after t, as = before ++ a :: after → S.run s before = some t → C t a) :
    I s' := by
  induction as generalizing s with
  | nil =>
    cases h
    exact hs
  | cons a as ih =>
    obtain ⟨t, ht, hrest⟩ := Option.bind_eq_some_iff.mp h
    apply ih (hstep s a t hs (hall [] a as s rfl rfl) ht) hrest
    intro before b after u has hu
    apply hall (a :: before) b after u (by rw [has]; rfl)
    rw [run_cons, ht, Option.bind_some, hu]

/-- Where an action keeps a property exactly under a condition, the property holds in every
state of a run exactly when every action of the run meets its condition; `J` is what every
action keeps. -/
theorem run_always_iff (S : System σ α) (J I : σ → Prop) (C : σ → α → Prop)
    (hJ : ∀ s a s', J s → S.step s a = some s' → J s')
    (hI : ∀ s a s', J s → I s → S.step s a = some s' → (I s' ↔ C s a)) {s s' : σ} {as : List α}
    (hs : J s) (his : I s) (h : S.run s as = some s') :
    (∀ before after t, as = before ++ after → S.run s before = some t → I t) ↔
      ∀ before a after t, as = before ++ a :: after → S.run s before = some t → C t a := by
  constructor
  · intro hall before a after t has ht
    rw [has, run_append, ht, Option.bind_some, run_cons] at h
    obtain ⟨t', ht', -⟩ := Option.bind_eq_some_iff.mp h
    have hnext : S.run s (before ++ [a]) = some t' := by
      rw [run_append, ht, Option.bind_some, run_cons, ht']
      rfl
    exact (hI t a t' (S.run_invariant J hJ hs ht) (hall before (a :: after) t has ht) ht').mp
      (hall (before ++ [a]) after t' (by rw [has, List.append_assoc]; rfl) hnext)
  · intro hall
    induction as generalizing s with
    | nil =>
      intro before after t has ht
      obtain ⟨rfl, -⟩ := List.append_eq_nil_iff.mp has.symm
      cases ht
      exact his
    | cons a as ih =>
      obtain ⟨s₁, hs₁, hrest⟩ := Option.bind_eq_some_iff.mp h
      have hkept := (hI s a s₁ hs his hs₁).mpr (hall [] a as s rfl rfl)
      have hlater := ih (hJ s a s₁ hs hs₁) hkept hrest fun before b after t has ht =>
        hall (a :: before) b after t (by rw [has]; rfl) (by rw [run_cons, hs₁, Option.bind_some, ht])
      intro before after t has ht
      cases before with
      | nil =>
        cases ht
        exact his
      | cons b before =>
        rw [List.cons_append] at has
        obtain ⟨rfl, htail⟩ := List.cons.inj has
        rw [run_cons, hs₁, Option.bind_some] at ht
        exact hlater before after t htail ht

/-- Where a property of an action and its state holds exactly under a condition, and leads to
a state in which this can be said again, all actions of a run have the property exactly when
all of them meet the condition. -/
theorem run_steps_iff (S : System σ α) (I : σ → Prop) (P C : σ → α → Prop)
    (hP : ∀ s a s', I s → S.step s a = some s' → (P s a ↔ C s a) ∧ (P s a → I s')) {s s' : σ}
    {as : List α} (hs : I s) (h : S.run s as = some s') :
    (∀ before a after t, as = before ++ a :: after → S.run s before = some t → P t a) ↔
      ∀ before a after t, as = before ++ a :: after → S.run s before = some t → C t a := by
  induction as generalizing s with
  | nil =>
    refine iff_of_true ?_ ?_ <;>
    · intro before a after t has
      cases before <;> cases has
  | cons a as ih =>
    obtain ⟨s₁, hs₁, hrest⟩ := Option.bind_eq_some_iff.mp h
    -- the first action, and the actions after it
    have hsplit : ∀ R : σ → α → Prop,
        (∀ before b after t, a :: as = before ++ b :: after → S.run s before = some t → R t b) ↔
          R s a ∧ ∀ before b after t, as = before ++ b :: after →
            S.run s₁ before = some t → R t b := by
      intro R
      constructor
      · intro hall
        refine ⟨hall [] a as s rfl rfl, fun before b after t has ht => ?_⟩
        exact hall (a :: before) b after t (by rw [has]; rfl) (by
          rw [run_cons, hs₁, Option.bind_some, ht])
      · rintro ⟨hfirst, hlater⟩ before b after t has ht
        cases before with
        | nil =>
          obtain ⟨rfl, -⟩ := List.cons.inj has
          cases ht
          exact hfirst
        | cons c before =>
          rw [List.cons_append] at has
          obtain ⟨rfl, htail⟩ := List.cons.inj has
          rw [run_cons, hs₁, Option.bind_some] at ht
          exact hlater before b after t htail ht
    obtain ⟨hiff, hnext⟩ := hP s a s₁ hs hs₁
    rw [hsplit P, hsplit C, hiff]
    exact and_congr_right fun hC => ih (hnext (hiff.mpr hC)) hrest

end System

end ActionSystem
