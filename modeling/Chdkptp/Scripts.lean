import Chdkptp.Passes

/-!
# Scripts

A script works on a state; it may fail, in the state that it has reached, and it may not end.
What is proved of one says that it ends, and what holds then.
-/

namespace Scripts

open Fuelled Passes Relation

/-- A computation on a state. -/
def Script (ε σ α : Type) : Type := σ → Fuelled Empty (EStateM.Result ε σ α)

variable {ε σ α β : Type}

/-- What follows an action, unless it has failed. -/
def andThen (f : α → Script ε σ β) :
    EStateM.Result ε σ α → Fuelled Empty (EStateM.Result ε σ β)
  | .ok a s => f a s
  | .error e s => pure (.error e s)

instance : Monad (Script ε σ) where
  pure a := fun s => pure (.ok a s)
  bind x f := fun s => x s >>= andThen f

def fail (e : ε) : Script ε σ α := fun s => pure (.error e s)

/-- An action that always ends, and may fail. -/
def attempt (f : σ → Except ε α × σ) : Script ε σ α := fun s =>
  match f s with
  | (.ok a, s') => pure (.ok a s')
  | (.error e, s') => pure (.error e s')

/-- An action that always ends and never fails. -/
def act (f : σ → α × σ) : Script ε σ α := fun s => pure (.ok (f s).1 (f s).2)

/-- `if c then x end` -/
def whenever (c : Prop) [Decidable c] (x : Script ε σ PUnit) : Script ε σ PUnit :=
  if c then x else pure ⟨⟩

/-- What follows a pass of a loop, with the variables of the loop. -/
def afterPass : EStateM.Result ε σ (β ⊕ α) →
    Fuelled Empty ((β × σ) ⊕ EStateM.Result ε σ α)
  | .ok (.inl b) s => pure (.inl (b, s))
  | .ok (.inr a) s => pure (.inr (.ok a s))
  | .error e s => pure (.inr (.error e s))

/-- A loop without a bound, whose body says how the variables go on or what the result is. -/
def loop (body : β → Script ε σ (β ⊕ α)) (b : β) : Script ε σ α := fun s =>
  repeatUntil (fun p : β × σ => body p.1 p.2 >>= afterPass) (b, s)

/-- What holds at the end. -/
def Post (Q : α → σ → Prop) (E : σ → Prop) : EStateM.Result ε σ α → Prop
  | .ok a s => Q a s
  | .error _ s => E s

/-- Begun where `P` holds, the script ends, with a value where `Q` holds or an error where `E`
holds. -/
def Total (P : σ → Prop) (x : Script ε σ α) (Q : α → σ → Prop) (E : σ → Prop) : Prop :=
  ∀ s, P s → ∃ r, (x s).Yields r ∧ Post Q E r

section Rules

variable {P P' : σ → Prop} {x : Script ε σ α} {f : α → Script ε σ β} {Q Q' : α → σ → Prop}
  {R : β → σ → Prop} {E E' : σ → Prop}

theorem total_pure {a : α} (h : ∀ s, P s → Q a s) : Total P (pure a : Script ε σ α) Q E :=
  fun s hs => ⟨.ok a s, yields_pure.mpr rfl, h s hs⟩

theorem total_fail {e : ε} (h : ∀ s, P s → E s) : Total P (fail e : Script ε σ α) Q E :=
  fun s hs => ⟨.error e s, yields_pure.mpr rfl, h s hs⟩

theorem total_act {f : σ → α × σ} (h : ∀ s, P s → Q (f s).1 (f s).2) :
    Total P (act f : Script ε σ α) Q E :=
  fun s hs => ⟨.ok (f s).1 (f s).2, yields_pure.mpr rfl, h s hs⟩

theorem total_attempt {f : σ → Except ε α × σ} (hok : ∀ s a, P s → (f s).1 = .ok a → Q a (f s).2)
    (herror : ∀ s e, P s → (f s).1 = .error e → E (f s).2) : Total P (attempt f) Q E := by
  intro s hs
  cases hf : (f s).1 with
  | ok a =>
    refine ⟨.ok a (f s).2, ?_, hok s a hs hf⟩
    have hpair : f s = (.ok a, (f s).2) := Prod.ext hf rfl
    rw [attempt, hpair, yields_pure]
  | error e =>
    refine ⟨.error e (f s).2, ?_, herror s e hs hf⟩
    have hpair : f s = (.error e, (f s).2) := Prod.ext hf rfl
    rw [attempt, hpair, yields_pure]

/-- What a sequence yields. -/
theorem yields_andThen {s : σ} {r : EStateM.Result ε σ β} :
    ((x >>= f) s).Yields r ↔ ∃ r', (x s).Yields r' ∧ (andThen f r').Yields r := yields_bind

@[simp] theorem act_bind (f : σ → α × σ) (g : α → Script ε σ β) (s : σ) :
    ((act f : Script ε σ α) >>= g) s = g (f s).1 (f s).2 := rfl

theorem Total.bind (hx : Total P x Q E) (hf : ∀ a, Total (Q a) (f a) R E) :
    Total P (x >>= f) R E := by
  intro s hs
  obtain ⟨r, hr, hpost⟩ := hx s hs
  cases r with
  | ok a s' =>
    obtain ⟨r', hr', hpost'⟩ := hf a s' hpost
    exact ⟨r', yields_andThen.mpr ⟨.ok a s', hr, hr'⟩, hpost'⟩
  | error e s' =>
    exact ⟨.error e s', yields_andThen.mpr ⟨.error e s', hr, yields_pure.mpr rfl⟩, hpost⟩

theorem Total.conseq (hx : Total P x Q E) (hP : ∀ s, P' s → P s) (hQ : ∀ a s, Q a s → Q' a s)
    (hE : ∀ s, E s → E' s) : Total P' x Q' E' := by
  intro s hs
  obtain ⟨r, hr, hpost⟩ := hx s (hP s hs)
  refine ⟨r, hr, ?_⟩
  cases r with
  | ok a s' => exact hQ a s' hpost
  | error e s' => exact hE s' hpost

theorem Total.weaken (hx : Total P x Q E) (hQ : ∀ a s, Q a s → Q' a s) : Total P x Q' E :=
  hx.conseq (fun _ hs => hs) hQ fun _ hs => hs

/-- It is enough to look at each state in which it may begin. -/
theorem total_from (h : ∀ s, P s → Total (fun t => t = s) x Q E) : Total P x Q E :=
  fun s hs => h s hs s rfl

/-- A fact that holds in every state. -/
theorem Total.assume {c : Prop} (h : c → Total P x Q E) : Total (fun s => P s ∧ c) x Q E :=
  fun s hs => h hs.2 s hs.1

theorem total_whenever {c : Prop} [Decidable c] {y : Script ε σ PUnit} {S : σ → Prop}
    (hy : c → Total P y (fun _ => S) E) (hskip : ¬c → ∀ s, P s → S s) :
    Total P (whenever c y) (fun _ => S) E := by
  rw [whenever]
  split
  · next hc => exact hy hc
  · next hc => exact total_pure (hskip hc)

/-- What holds when the first pass is over. -/
def First (Inv : β → σ → Prop) (Q : α → σ → Prop) : β ⊕ α → σ → Prop
  | .inl b, s => Inv b s
  | .inr a, s => Q a s

/-- A loop whose first pass begins elsewhere than the others. -/
theorem total_unroll {body : β → Script ε σ (β ⊕ α)} (Inv : β → σ → Prop) {b : β}
    (hfirst : Total P (body b) (First Inv Q) E)
    (hloop : ∀ b, Total (Inv b) (loop body b) Q E) : Total P (loop body b) Q E := by
  intro s hs
  obtain ⟨r, hr, hpost⟩ := hfirst s hs
  have hpass : ∀ out, (afterPass r).Yields out →
      ((fun p : β × σ => body p.1 p.2 >>= afterPass) (b, s)).Yields out :=
    fun out hout => yields_bind.mpr ⟨r, hr, hout⟩
  cases r with
  | error e s' => exact ⟨.error e s', yields_repeat_inr (hpass _ (yields_pure.mpr rfl)), hpost⟩
  | ok out s' =>
    cases out with
    | inr a => exact ⟨.ok a s', yields_repeat_inr (hpass _ (yields_pure.mpr rfl)), hpost⟩
    | inl b' =>
      obtain ⟨r, hr, hpost⟩ := hloop b' s' hpost
      exact ⟨r, yields_repeat_inl (hpass _ (yields_pure.mpr rfl)) hr, hpost⟩

/-- What holds when a pass is over. -/
def Next (Inv : β → σ → Prop) (measure : β → σ → Nat) (m : Nat) (Q : α → σ → Prop) :
    β ⊕ α → σ → Prop
  | .inl b, s => Inv b s ∧ measure b s < m
  | .inr a, s => Q a s

/-- A loop with an invariant and a measure. -/
theorem total_loop {body : β → Script ε σ (β ⊕ α)} (Inv : β → σ → Prop) (measure : β → σ → Nat)
    (hbody : ∀ b m, Total (fun s => Inv b s ∧ measure b s = m) (body b)
      (Next Inv measure m Q) E) (b : β) : Total (Inv b) (loop body b) Q E := by
  intro s hs
  induction hm : measure b s using Nat.strong_induction_on generalizing b s with
  | _ m ih =>
    have hfirst : Total (fun t => t = s) (body b)
        (First (fun b' s' => Inv b' s' ∧ measure b' s' < m) Q) E := by
      refine (hbody b m).conseq ?_ ?_ fun _ h => h
      · rintro t rfl
        exact ⟨hs, hm⟩
      · rintro (b' | a) s' h
        · exact h
        · exact h
    refine total_unroll _ hfirst ?_ s rfl
    intro b' s' h
    exact ih (measure b' s') h.2 b' s' h.1 rfl

end Rules

/-- The state of a result. -/
def stateOf : EStateM.Result ε σ α → σ
  | .ok _ s => s
  | .error _ s => s

/-- The loop goes on after a pass. -/
def Goes (body : β → Script ε σ (β ⊕ α)) (p q : β × σ) : Prop :=
  (body p.1 p.2).Yields (.ok (.inl q.1) q.2)

/-- The loop is left in a pass. -/
def Leaves (body : β → Script ε σ (β ⊕ α)) (p : β × σ) (r : EStateM.Result ε σ α) : Prop :=
  ∃ out, (body p.1 p.2).Yields out ∧ (afterPass out).Yields (.inr r)

theorem Goes.unique {body : β → Script ε σ (β ⊕ α)} {p q q' : β × σ} (h : Goes body p q)
    (h' : Goes body p q') : q = q' := by
  have hout := Yields.unique h h'
  rw [EStateM.Result.ok.injEq, Sum.inl.injEq] at hout
  exact Prod.ext hout.1 hout.2

/-- When the loop is left at the end of some steps, it has made no others. -/
theorem goes_of_steps {body : β → Script ε σ (β ⊕ α)} {Step : β × σ → β × σ → Prop}
    (hstep : ∀ p q, Step p q → Goes body p q) {start last : β × σ}
    (hlast : ∀ q, ¬Goes body last q) (hsteps : ReflTransGen Step start last) {p q : β × σ}
    (hp : ReflTransGen (Goes body) start p) (hq : Goes body p q) : Step p q := by
  induction hsteps using ReflTransGen.head_induction_on with
  | refl =>
    rcases hp.cases_head with rfl | ⟨c, hc, -⟩
    · exact absurd hq (hlast q)
    · exact absurd hc (hlast c)
  | head hfirst _ ih =>
    rcases hp.cases_head with rfl | ⟨c, hc, hrest⟩
    · exact (hstep _ _ hfirst).unique hq ▸ hfirst
    · exact ih ((hstep _ _ hfirst).unique hc ▸ hrest)

/-- The loop gives what the pass gives in which it is left. -/
theorem yields_loop {body : β → Script ε σ (β ⊕ α)} {b : β} {s : σ}
    {r : EStateM.Result ε σ α} : (loop body b s).Yields r ↔
      ∃ p, ReflTransGen (Goes body) (b, s) p ∧ Leaves body p r := by
  constructor
  · have hgoes : ∀ p q, (body p.1 p.2 >>= afterPass).Yields (.inl q) → Goes body p q := by
      intro p q h
      obtain ⟨out, hout, h⟩ := yields_bind.mp h
      obtain ⟨b' | a, s'⟩ | ⟨e, s'⟩ := out
      · cases yields_pure.mp h
        exact hout
      · cases yields_pure.mp h
      · cases yields_pure.mp h
    have hlast : ∀ p r, ReflTransGen (Goes body) (b, s) p →
        (body p.1 p.2 >>= afterPass).Yields (.inr r) →
        ∃ p, ReflTransGen (Goes body) (b, s) p ∧ Leaves body p r :=
      fun p r hp h => ⟨p, hp, yields_bind.mp h⟩
    exact repeat_invariant (fun p q hp h => hp.tail (hgoes p q h)) hlast .refl
  · rintro ⟨p, hp, hleaves⟩
    have hloop : ∀ q, ReflTransGen (Goes body) q p → (loop body q.1 q.2).Yields r := by
      intro q hq
      induction hq using ReflTransGen.head_induction_on with
      | refl => exact yields_repeat_inr (yields_bind.mpr hleaves)
      | head hgoes _ ih =>
        exact yields_repeat_inl (yields_bind.mpr ⟨_, hgoes, yields_pure.mpr rfl⟩) ih
    exact hloop _ hp

/-- What holds when a loop is left that may never be. -/
theorem post_loop {body : β → Script ε σ (β ⊕ α)} {Inv : β → σ → Prop} {Q : α → σ → Prop}
    {E : σ → Prop} (hbody : ∀ b, Total (Inv b) (body b) (First Inv Q) E) {b : β} {s : σ}
    (hs : Inv b s) {r : EStateM.Result ε σ α} (h : (loop body b s).Yields r) : Post Q E r := by
  have hpass : ∀ (p : β × σ) out, Inv p.1 p.2 → (body p.1 p.2).Yields out →
      Post (First Inv Q) E out := by
    intro p out hp hout
    obtain ⟨out', hout', hpost⟩ := hbody p.1 p.2 hp
    exact Yields.unique hout' hout ▸ hpost
  obtain ⟨p, hp, out, hout, hr⟩ := yields_loop.mp h
  have hinv : Inv p.1 p.2 := by
    clear hout
    induction hp with
    | refl => exact hs
    | tail _ hgoes ih => exact hpass _ _ ih hgoes
  have hpost := hpass p out hinv hout
  obtain ⟨b' | a, s'⟩ | ⟨e, s'⟩ := out
  · cases yields_pure.mp hr
  · cases yields_pure.mp hr
    exact hpost
  · cases yields_pure.mp hr
    exact hpost

/-- What a script ends with that ends with one of two opposite facts. -/
theorem exists_yields_iff {P T : σ → Prop} {c : Prop} {x : Script ε σ α} {s : σ}
    (hx : Total P x (fun _ s => T s ↔ c) fun s => T s ↔ c) (hs : P s) :
    (∃ r, (x s).Yields r ∧ T (stateOf r)) ↔ c := by
  obtain ⟨r, hr, hpost⟩ := hx s hs
  have hstate : T (stateOf r) ↔ c := by
    cases r with
    | ok a s' => exact hpost
    | error e s' => exact hpost
  constructor
  · rintro ⟨r', hr', hT⟩
    obtain rfl : r' = r := Fuelled.Yields.unique hr' hr
    exact hstate.mp hT
  · exact fun hc => ⟨r, hr, hstate.mpr hc⟩

/-- A pass of a loop whose body only acts. -/
def passOf (step : β → σ → (β ⊕ α) × σ) (p : β × σ) : (β × σ) ⊕ EStateM.Result ε σ α :=
  match step p.1 p.2 with
  | (.inl b, s) => .inl (b, s)
  | (.inr a, s) => .inr (.ok a s)

theorem loop_act {step : β → σ → (β ⊕ α) × σ} (b : β) (s : σ) :
    loop (fun b => (act (step b) : Script ε σ (β ⊕ α))) b s = passes (passOf step) (b, s) := by
  rw [loop, passes]
  congr 1
  funext ⟨b, s⟩
  change (pure (.ok (step b s).1 (step b s).2) >>= afterPass) = pure (passOf step (b, s))
  rw [passOf]
  dsimp only
  generalize step b s = out
  obtain ⟨b' | a, s'⟩ := out <;> rfl

/-- What is done in each pass of a loop until something holds. -/
def untilStep (done : σ → Prop) [DecidablePred done] (out : σ → α) (next : σ → σ) (s : σ) :
    (PUnit ⊕ α) × σ :=
  (if done s then .inr (out s) else .inl ⟨⟩, next s)

theorem yields_until {done : σ → Prop} [DecidablePred done] {out : σ → α} {next : σ → σ} {s : σ}
    {r : EStateM.Result ε σ α} :
    (loop (fun _ => act (untilStep done out next)) PUnit.unit s).Yields r ↔
      ∃ n, (done (next^[n] s) ∧ ∀ k < n, ¬done (next^[k] s)) ∧
        r = .ok (out (next^[n] s)) (next^[n + 1] s) := by
  let next' : PUnit × σ → PUnit × σ := Prod.map id next
  have hiter : ∀ n, next'^[n] (⟨⟩, s) = (⟨⟩, next^[n] s) := by
    intro n
    rw [Prod.map_iterate]
    rfl
  have hpass : passOf (fun _ => untilStep done out next) = fun p : PUnit × σ =>
      if done p.2 then .inr (.ok (out p.2) (next p.2) : EStateM.Result ε σ α)
      else .inl (next' p) := by
    funext p
    rw [passOf, untilStep]
    by_cases hdone : done p.2
    · rw [if_pos hdone, if_pos hdone]
    · rw [if_neg hdone, if_neg hdone]
      rfl
  rw [loop_act, hpass, yields_passes]
  constructor
  · rintro ⟨n, p, hp, hlast⟩
    obtain ⟨hbefore, rfl⟩ := begins_until.mp hp
    rw [hiter] at hlast
    split at hlast
    · next hdone =>
      refine ⟨n, ⟨hdone, ?_⟩, ?_⟩
      · intro k hk
        have hnot := hbefore k hk
        rw [hiter] at hnot
        exact hnot
      · rw [Function.iterate_succ_apply']
        exact (Sum.inr.inj hlast).symm
    · cases hlast
  · rintro ⟨n, ⟨hdone, hbefore⟩, rfl⟩
    refine ⟨n, (⟨⟩, next^[n] s), begins_until.mpr ⟨?_, hiter n⟩, ?_⟩
    · intro k hk
      rw [hiter]
      exact hbefore k hk
    · rw [if_pos hdone, Function.iterate_succ_apply']

end Scripts
