import Chdkptp.Fuelled
import Mathlib.Logic.Function.Iterate

/-!
# Loops whose passes are functions

A loop without a bound whose body always ends. Its run is the sequence of the states in which its
passes begin, up to the pass in which it is left.
-/

namespace Passes

open Fuelled

variable {ε σ α : Type}

/-- The state in which a pass begins, if the loop is not left before. -/
def begins (pass : σ → σ ⊕ α) : Nat → σ → Option σ
  | 0, s => some s
  | n + 1, s =>
    match pass s with
    | .inl s' => begins pass n s'
    | .inr _ => none

/-- The loop. -/
def passes (pass : σ → σ ⊕ α) (s : σ) : Fuelled ε α := repeatUntil (fun s => pure (pass s)) s

section Runs

variable {pass : σ → σ ⊕ α} {s s' : σ} {a : α} {n : Nat}

@[simp] theorem begins_zero (pass : σ → σ ⊕ α) (s : σ) : begins pass 0 s = some s := rfl

theorem begins_inl (h : pass s = .inl s') : begins pass (n + 1) s = begins pass n s' := by
  rw [begins, h]

theorem begins_inr (h : pass s = .inr a) : begins pass (n + 1) s = none := by
  rw [begins, h]

/-- The next pass, from the last one. -/
theorem begins_succ (n : Nat) (s : σ) : begins pass (n + 1) s =
    (begins pass n s).bind fun s' => (pass s').elim some fun _ => none := by
  induction n generalizing s with
  | zero =>
    rw [begins_zero, Option.bind_some]
    cases h : pass s with
    | inl s' => exact begins_inl h
    | inr a => exact begins_inr h
  | succ n ih =>
    cases h : pass s with
    | inl s' => rw [begins_inl h, begins_inl h, ih]
    | inr a => rw [begins_inr h, begins_inr h, Option.bind_none]

theorem begins_step (hs : begins pass n s = some s') {t : σ} (h : pass s' = .inl t) :
    begins pass (n + 1) s = some t := by
  rw [begins_succ, hs, Option.bind_some, h]
  rfl

/-- A pass that begins comes after all passes before it. -/
theorem begins_before {m : Nat} (hmn : m ≤ n) (hs : begins pass n s = some s') :
    ∃ t, begins pass m s = some t := by
  induction hmn generalizing s' with
  | refl => exact ⟨s', hs⟩
  | step _ ih =>
    rw [begins_succ, Option.bind_eq_some_iff] at hs
    obtain ⟨t, ht, -⟩ := hs
    exact ih ht

/-- What each pass keeps holds whenever a pass begins. -/
theorem begins_invariant {Inv : σ → Prop} (hkeeps : ∀ s s', Inv s → pass s = .inl s' → Inv s')
    (hs : Inv s) (h : begins pass n s = some s') : Inv s' := by
  induction n generalizing s with
  | zero =>
    cases h
    exact hs
  | succ n ih =>
    cases hpass : pass s with
    | inl t =>
      rw [begins_inl hpass] at h
      exact ih (hkeeps s t hs hpass) h
    | inr a =>
      rw [begins_inr hpass] at h
      cases h

/-- The loop gives what the pass gives in which it is left. -/
theorem yields_passes : (passes pass s : Fuelled ε α).Yields a ↔
    ∃ n s', begins pass n s = some s' ∧ pass s' = .inr a := by
  constructor
  · intro h
    obtain ⟨fuel, h⟩ := h
    have hrun : ∀ m k s, repeatRun (fun s => (pure (pass s) : Fuelled ε (σ ⊕ α))) m k s =
        some (.ok a) → ∃ n s', begins pass n s = some s' ∧ pass s' = .inr a := by
      intro m k
      induction k with
      | zero => exact fun s h => by cases h
      | succ k ih =>
        intro s h
        obtain ⟨e, he, -⟩ | ⟨out, hout, h⟩ := bindRun_some h
        · cases he
        obtain rfl : pass s = out := Except.ok.inj (Option.some.inj hout)
        cases hpass : pass s with
        | inl t =>
          rw [hpass] at h
          obtain ⟨n, s', hs', hlast⟩ := ih t h
          exact ⟨n + 1, s', (begins_inl hpass).trans hs', hlast⟩
        | inr b =>
          rw [hpass] at h
          cases h
          exact ⟨0, s, rfl, hpass⟩
    exact hrun fuel fuel s h
  · rintro ⟨n, s', hs', hlast⟩
    induction n generalizing s with
    | zero =>
      cases hs'
      apply yields_repeat_inr
      rw [yields_pure]
      exact hlast
    | succ n ih =>
      cases hpass : pass s with
      | inl t =>
        rw [begins_inl hpass] at hs'
        exact yields_repeat_inl (yields_pure.mpr hpass) (ih hs')
      | inr b =>
        rw [begins_inr hpass] at hs'
        cases hs'

/-- A loop whose passes can be counted down ends. -/
theorem exists_last (measure : σ → Nat) {Inv : σ → Prop}
    (hstep : ∀ s s', Inv s → pass s = .inl s' → Inv s' ∧ measure s' < measure s) (hs : Inv s) :
    ∃ n s' a, begins pass n s = some s' ∧ Inv s' ∧ pass s' = .inr a := by
  induction hm : measure s using Nat.strong_induction_on generalizing s with
  | _ m ih =>
    cases hpass : pass s with
    | inr a => exact ⟨0, s, a, rfl, hs, hpass⟩
    | inl t =>
      obtain ⟨ht, hlt⟩ := hstep s t hs hpass
      obtain ⟨n, s', a, hs', hinv, hlast⟩ := ih (measure t) (hm ▸ hlt) ht rfl
      exact ⟨n + 1, s', a, (begins_inl hpass).trans hs', hinv, hlast⟩

/-- The pass in which the loop is left is the only one. -/
theorem last_unique {m : Nat} {t : σ} {b : α} (hs : begins pass n s = some s')
    (ha : pass s' = .inr a) (ht : begins pass m s = some t) (hb : pass t = .inr b) :
    m = n ∧ t = s' := by
  have hle : ∀ {k l u v c}, begins pass k s = some u → pass u = .inr c →
      begins pass l s = some v → l ≤ k := by
    intro k l u v c hu hc hv
    by_contra hlt
    obtain ⟨w, hw⟩ := begins_before (show k + 1 ≤ l by omega) hv
    rw [begins_succ, hu, Option.bind_some, hc] at hw
    cases hw
  obtain rfl : m = n := Nat.le_antisymm (hle hs ha ht) (hle ht hb hs)
  exact ⟨rfl, Option.some.inj (ht.symm.trans hs)⟩

/-- A loop that does the same in each pass until something holds. -/
theorem begins_until {done : σ → Prop} [DecidablePred done] {out : σ → α} {next : σ → σ} :
    begins (fun s => if done s then .inr (out s) else .inl (next s)) n s = some s' ↔
      (∀ k < n, ¬done (next^[k] s)) ∧ next^[n] s = s' := by
  induction n generalizing s' with
  | zero => simp
  | succ n ih =>
    have hpass : ∀ t, Sum.elim some (fun _ => none)
        (if done t then .inr (out t) else .inl (next t) : σ ⊕ α) = some s' ↔
        ¬done t ∧ next t = s' := by
      intro t
      split <;> simp_all
    rw [begins_succ, Option.bind_eq_some_iff]
    constructor
    · rintro ⟨t, ht, hnext⟩
      obtain ⟨hbefore, rfl⟩ := ih.mp ht
      obtain ⟨hnot, rfl⟩ := (hpass _).mp hnext
      refine ⟨?_, Function.iterate_succ_apply' next n s⟩
      intro k hk
      rcases Nat.lt_succ_iff_lt_or_eq.mp hk with hk | rfl
      · exact hbefore k hk
      · exact hnot
    · rintro ⟨hbefore, rfl⟩
      refine ⟨next^[n] s, ih.mpr ⟨fun k hk => hbefore k (Nat.lt_succ_of_lt hk), rfl⟩, ?_⟩
      exact (hpass _).mpr ⟨hbefore n (Nat.lt_succ_self n),
        (Function.iterate_succ_apply' next n s).symm⟩

end Runs

end Passes
