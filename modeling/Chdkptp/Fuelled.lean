import Mathlib.Logic.Relation
import Mathlib.Data.Fintype.Card
import Mathlib.Data.Set.Finite.Basic

/-!
# Computations that may not end

A computation runs on fuel and gives a result, an error, or nothing yet; more fuel changes
no result. `repeatUntil` is a loop that nothing bounds. Over finitely many places it ends
unless it comes to a place twice or its body does not end.
-/

/-- What a computation gives for each amount of fuel. -/
structure Fuelled (ε α : Type) where
  run : Nat → Option (Except ε α)
  mono : ∀ {m n r}, m ≤ n → run m = some r → run n = some r

namespace Fuelled

open Relation

variable {ε α β σ κ : Type}

def Ends (x : Fuelled ε α) : Prop := ∃ n r, x.run n = some r

def Yields (x : Fuelled ε α) (a : α) : Prop := ∃ n, x.run n = some (.ok a)

theorem Yields.ends {x : Fuelled ε α} {a : α} (h : x.Yields a) : x.Ends := by
  obtain ⟨n, h⟩ := h
  exact ⟨n, _, h⟩

theorem run_unique {x : Fuelled ε α} {m n : Nat} {r r' : Except ε α} (h : x.run m = some r)
    (h' : x.run n = some r') : r = r' := by
  have hm := x.mono (Nat.le_max_left m n) h
  have hn := x.mono (Nat.le_max_right m n) h'
  rw [hm] at hn
  exact Option.some.inj hn

/-- It ends with an error. -/
def Raises (x : Fuelled ε α) (e : ε) : Prop := ∃ n, x.run n = some (.error e)

theorem Yields.unique {x : Fuelled ε α} {a b : α} (ha : x.Yields a) (hb : x.Yields b) : a = b := by
  obtain ⟨m, ha⟩ := ha
  obtain ⟨n, hb⟩ := hb
  exact Except.ok.inj (run_unique ha hb)

/-! ## Sequences -/

def ofExcept (x : Except ε α) : Fuelled ε α := ⟨fun _ => some x, fun _ h => h⟩

/-- A computation and what is done with its value, on the same fuel. -/
def bindRun (x : Option (Except ε α)) (f : α → Option (Except ε β)) : Option (Except ε β) :=
  match x with
  | none => none
  | some (.error e) => some (.error e)
  | some (.ok a) => f a

theorem bindRun_some {x : Option (Except ε α)} {f : α → Option (Except ε β)} {r : Except ε β}
    (h : bindRun x f = some r) :
    (∃ e, x = some (.error e) ∧ r = .error e) ∨ ∃ a, x = some (.ok a) ∧ f a = some r := by
  cases x with
  | none => cases h
  | some x =>
    cases x with
    | error e => exact Or.inl ⟨e, rfl, (Option.some.inj h).symm⟩
    | ok a => exact Or.inr ⟨a, rfl, h⟩

theorem bindRun_mono {x x' : Option (Except ε α)} {f f' : α → Option (Except ε β)}
    {r : Except ε β} (hx : ∀ r, x = some r → x' = some r)
    (hf : ∀ a r, f a = some r → f' a = some r) (h : bindRun x f = some r) :
    bindRun x' f' = some r := by
  obtain ⟨e, he, hr⟩ | ⟨a, ha, hr⟩ := bindRun_some h
  · rw [hx _ he, hr]
    rfl
  · rw [hx _ ha]
    exact hf a r hr

instance : Monad (Fuelled ε) where
  pure a := ofExcept (.ok a)
  bind x f := ⟨fun n => bindRun (x.run n) fun a => (f a).run n,
    fun hmn => bindRun_mono (fun _ => x.mono hmn) fun a _ => (f a).mono hmn⟩

instance : MonadLift (Except ε) (Fuelled ε) := ⟨ofExcept⟩

theorem run_bind (x : Fuelled ε α) (f : α → Fuelled ε β) (n : Nat) :
    (x >>= f).run n = bindRun (x.run n) fun a => (f a).run n := rfl

section Rules

variable {x : Fuelled ε α} {f : α → Fuelled ε β}

@[simp] theorem yields_ofExcept {x : Except ε α} {a : α} :
    (ofExcept x).Yields a ↔ x = .ok a := by
  constructor
  · rintro ⟨n, h⟩
    exact Option.some.inj h
  · intro h
    exact ⟨0, congrArg some h⟩

@[simp] theorem ends_ofExcept (x : Except ε α) : (ofExcept x).Ends := ⟨0, x, rfl⟩

@[simp] theorem yields_lift {x : Except ε α} {a : α} :
    (liftM x : Fuelled ε α).Yields a ↔ x = .ok a := yields_ofExcept

@[simp] theorem ends_lift (x : Except ε α) : (liftM x : Fuelled ε α).Ends := ends_ofExcept x

@[simp] theorem yields_pure {a b : α} : (pure a : Fuelled ε α).Yields b ↔ a = b := by
  constructor
  · intro h
    exact Except.ok.inj (yields_ofExcept.mp h)
  · rintro rfl
    exact yields_ofExcept.mpr rfl

@[simp] theorem ends_pure (a : α) : (pure a : Fuelled ε α).Ends := ends_ofExcept _

theorem ok_bind {x : Except ε α} {a : α} (h : x = .ok a) (f : α → Fuelled ε β) :
    (liftM x >>= f) = f a := by
  rw [h]
  rfl

theorem error_bind {x : Except ε α} {e : ε} (h : x = .error e) (f : α → Fuelled ε β) :
    (liftM x >>= f) = ofExcept (.error e) := by
  rw [h]
  rfl

theorem yields_bind {b : β} : (x >>= f).Yields b ↔ ∃ a, x.Yields a ∧ (f a).Yields b := by
  constructor
  · rintro ⟨n, h⟩
    obtain ⟨e, -, hr⟩ | ⟨a, ha, hb⟩ := bindRun_some h
    · cases hr
    · exact ⟨a, ⟨n, ha⟩, n, hb⟩
  · rintro ⟨a, ⟨m, ha⟩, n, hb⟩
    have hx := x.mono (Nat.le_max_left m n) ha
    have hf := (f a).mono (Nat.le_max_right m n) hb
    use max m n
    rw [run_bind, hx]
    exact hf

theorem raises_lift {x : Except ε α} {e : ε} :
    (liftM x : Fuelled ε α).Raises e ↔ x = .error e := by
  constructor
  · rintro ⟨n, h⟩
    exact Option.some.inj h
  · intro h
    exact ⟨0, congrArg some h⟩

theorem raises_bind {e : ε} :
    (x >>= f).Raises e ↔ x.Raises e ∨ ∃ a, x.Yields a ∧ (f a).Raises e := by
  constructor
  · rintro ⟨n, h⟩
    obtain ⟨e', he, hr⟩ | ⟨a, ha, he⟩ := bindRun_some h
    · cases hr
      exact .inl ⟨n, he⟩
    · exact .inr ⟨a, ⟨n, ha⟩, n, he⟩
  · rintro (⟨n, he⟩ | ⟨a, ⟨m, ha⟩, n, he⟩)
    · use n
      rw [run_bind, he]
      rfl
    · have hx := x.mono (Nat.le_max_left m n) ha
      have hf := (f a).mono (Nat.le_max_right m n) he
      use max m n
      rw [run_bind, hx]
      exact hf

theorem ends_bind : (x >>= f).Ends ↔ x.Ends ∧ ∀ a, x.Yields a → (f a).Ends := by
  constructor
  · rintro ⟨n, r, h⟩
    obtain ⟨e, he, -⟩ | ⟨a, ha, hr⟩ := bindRun_some h
    · constructor
      · exact ⟨n, _, he⟩
      · rintro a ⟨m, ha⟩
        cases run_unique he ha
    · constructor
      · exact ⟨n, _, ha⟩
      · rintro b ⟨m, hb⟩
        cases run_unique ha hb
        exact ⟨n, r, hr⟩
  · rintro ⟨⟨m, r, hx⟩, hf⟩
    cases r with
    | error e =>
      use m, .error e
      rw [run_bind, hx]
      rfl
    | ok a =>
      obtain ⟨n, r, hr⟩ := hf a ⟨m, hx⟩
      have hx := x.mono (Nat.le_max_left m n) hx
      have hr := (f a).mono (Nat.le_max_right m n) hr
      use max m n, r
      rw [run_bind, hx]
      exact hr

end Rules

/-! ## Loops over a list -/

/-- A walk through a list that goes on behind good elements comes to a bad one. -/
def ComesTo (Good Bad : β → Prop) : List β → Prop
  | [] => False
  | x :: l => Bad x ∨ Good x ∧ ComesTo Good Bad l

theorem comesTo_map {γ : Type} (g : γ → β) {Good Bad : β → Prop} (l : List γ) :
    ComesTo Good Bad (l.map g) ↔ ComesTo (fun x => Good (g x)) (fun x => Bad (g x)) l := by
  induction l with
  | nil => exact Iff.rfl
  | cons x l ih => exact or_congr_right (and_congr_right fun _ => ih)

/-- When a computation yields something, and when it does not end. -/
structure Behaves (x : Fuelled ε α) (Good Bad : Prop) : Prop where
  yields : (∃ a, x.Yields a) ↔ Good
  ends : x.Ends ↔ ¬Bad

theorem behaves_pure (a : α) : Behaves (pure a : Fuelled ε α) True False :=
  ⟨iff_true_intro ⟨a, yields_pure.mpr rfl⟩, iff_of_true (ends_pure a) not_false⟩

theorem behaves_error (e : ε) : Behaves (ofExcept (.error e) : Fuelled ε α) False False :=
  ⟨iff_of_false (by simp) not_false, iff_of_true (ends_ofExcept _) not_false⟩

theorem Behaves.congr {x : Fuelled ε α} {Good Bad Good' Bad' : Prop} (h : Behaves x Good Bad)
    (hgood : Good ↔ Good') (hbad : Bad ↔ Bad') : Behaves x Good' Bad' :=
  ⟨h.yields.trans hgood, h.ends.trans (not_congr hbad)⟩

/-- A step that cannot fail, for the values that there are, changes nothing. -/
theorem Behaves.bind {x : Fuelled ε α} {f : α → Fuelled ε β} {Good Bad : Prop}
    (h : Behaves x Good Bad) (hf : ∀ a, x.Yields a → ∃ b, (f a).Yields b) :
    Behaves (x >>= f) Good Bad := by
  constructor
  · rw [← h.yields]
    constructor
    · rintro ⟨b, hb⟩
      obtain ⟨a, ha, -⟩ := yields_bind.mp hb
      exact ⟨a, ha⟩
    · rintro ⟨a, ha⟩
      obtain ⟨b, hb⟩ := hf a ha
      exact ⟨b, yields_bind.mpr ⟨a, ha, hb⟩⟩
  · rw [ends_bind, ← h.ends]
    constructor
    · exact fun hx => hx.1
    · intro hx
      refine ⟨hx, fun a ha => ?_⟩
      obtain ⟨b, hb⟩ := hf a ha
      exact hb.ends

section Lists

variable {f : σ → β → Fuelled ε σ} {Good Bad : β → Prop} {Inv : σ → Prop}

/-- A loop whose passes behave as their elements say. -/
theorem foldlM_behaves (hkeeps : ∀ s x s', Inv s → (f s x).Yields s' → Inv s')
    (h : ∀ s x, Inv s → Behaves (f s x) (Good x) (Bad x)) (l : List β) {s : σ} (hs : Inv s) :
    Behaves (l.foldlM f s) (∀ x ∈ l, Good x) (ComesTo Good Bad l) := by
  induction l generalizing s with
  | nil =>
    exact (behaves_pure s).congr (iff_of_true trivial fun x hx => absurd hx List.not_mem_nil)
      Iff.rfl
  | cons x l ih =>
    have hx := h s x hs
    rw [List.foldlM_cons, List.forall_mem_cons]
    constructor
    · rw [← hx.yields]
      constructor
      · rintro ⟨s', hs'⟩
        obtain ⟨t, ht, hl⟩ := yields_bind.mp hs'
        exact ⟨⟨t, ht⟩, (ih (hkeeps s x t hs ht)).yields.mp ⟨s', hl⟩⟩
      · rintro ⟨⟨t, ht⟩, hl⟩
        obtain ⟨s', hs'⟩ := (ih (hkeeps s x t hs ht)).yields.mpr hl
        exact ⟨s', yields_bind.mpr ⟨t, ht, hs'⟩⟩
    · rw [ends_bind, hx.ends, ComesTo, not_or, not_and]
      apply and_congr_right
      intro _
      constructor
      · intro hends hgood
        obtain ⟨t, ht⟩ := hx.yields.mpr hgood
        exact (ih (hkeeps s x t hs ht)).ends.mp (hends t ht)
      · intro hrest t ht
        exact (ih (hkeeps s x t hs ht)).ends.mpr (hrest (hx.yields.mp ⟨t, ht⟩))

/-- A loop whose first pass fails. -/
theorem foldlM_fails {e : ε} {l : List β} (hl : l ≠ []) {s : σ}
    (hf : ∀ x, f s x = ofExcept (.error e)) : Behaves (l.foldlM f s) False False := by
  cases l with
  | nil => exact absurd rfl hl
  | cons x l =>
    rw [List.foldlM_cons, hf x]
    exact behaves_error e

/-- An invariant indexed by the number of finished passes. -/
theorem foldlM_range_invariant {f : σ → Nat → Fuelled ε σ} {Inv : Nat → σ → Prop}
    (hkeeps : ∀ k s s', Inv k s → (f s k).Yields s' → Inv (k + 1) s') {n : Nat} {s s' : σ}
    (hs : Inv 0 s) (h : ((List.range n).foldlM f s).Yields s') : Inv n s' := by
  have hrange : ∀ m k s, Inv k s → ((List.range' k m).foldlM f s).Yields s' → Inv (k + m) s' := by
    intro m
    induction m with
    | zero =>
      intro k s hs h
      cases yields_pure.mp h
      exact hs
    | succ m ih =>
      intro k s hs h
      obtain ⟨t, ht, hrest⟩ := yields_bind.mp h
      have hall := ih (k + 1) t (hkeeps k s t hs ht) hrest
      rw [Nat.add_assoc, Nat.add_comm 1 m] at hall
      exact hall
  rw [List.range_eq_range'] at h
  have hall := hrange n 0 s hs h
  rw [Nat.zero_add] at hall
  exact hall

end Lists

/-! ## Loops without a bound -/

/-- The loop on fuel for its body and for its own passes. -/
def repeatRun (body : σ → Fuelled ε (σ ⊕ α)) (n : Nat) : Nat → σ → Option (Except ε α)
  | 0, _ => none
  | k + 1, s => bindRun ((body s).run n) fun
    | .inl s' => repeatRun body n k s'
    | .inr a => some (.ok a)

theorem repeatRun_mono (body : σ → Fuelled ε (σ ⊕ α)) {m n : Nat} (hmn : m ≤ n) {j k : Nat}
    (hjk : j ≤ k) {s : σ} {r : Except ε α} (h : repeatRun body m j s = some r) :
    repeatRun body n k s = some r := by
  induction j generalizing k s r with
  | zero => cases h
  | succ j ih =>
    cases k with
    | zero => omega
    | succ k =>
      refine bindRun_mono (fun _ => (body s).mono hmn) (fun out r hout => ?_) h
      cases out with
      | inl s' => exact ih (Nat.le_of_succ_le_succ hjk) hout
      | inr a => exact hout

/-- `repeat body until` the body gives a result. -/
def repeatUntil (body : σ → Fuelled ε (σ ⊕ α)) (s : σ) : Fuelled ε α :=
  ⟨fun n => repeatRun body n n s, fun hmn => repeatRun_mono body hmn hmn⟩

section Repeat

variable {body : σ → Fuelled ε (σ ⊕ α)} {s : σ}

/-- A pass that goes on. -/
theorem repeat_inl {s' : σ} {r : Except ε α} (hs : (body s).Yields (.inl s'))
    (h : ∃ n, (repeatUntil body s').run n = some r) :
    ∃ n, (repeatUntil body s).run n = some r := by
  obtain ⟨m, hs⟩ := hs
  obtain ⟨n, h⟩ := h
  have hbody := (body s).mono (show m ≤ max m n + 1 by omega) hs
  have hrest := repeatRun_mono body (show n ≤ max m n + 1 by omega) (show n ≤ max m n by omega) h
  use max m n + 1
  change bindRun ((body s).run (max m n + 1)) _ = _
  rw [hbody]
  exact hrest

theorem yields_repeat_inl {s' : σ} {a : α} (hs : (body s).Yields (.inl s'))
    (h : (repeatUntil body s').Yields a) : (repeatUntil body s).Yields a := repeat_inl hs h

theorem raises_repeat_inl {s' : σ} {e : ε} (hs : (body s).Yields (.inl s'))
    (h : (repeatUntil body s').Raises e) : (repeatUntil body s).Raises e := repeat_inl hs h

theorem yields_repeat_inr {a : α} (hs : (body s).Yields (.inr a)) :
    (repeatUntil body s).Yields a := by
  obtain ⟨m, hs⟩ := hs
  have hbody := (body s).mono (Nat.le_succ m) hs
  use m + 1
  change bindRun ((body s).run (m + 1)) _ = _
  rw [hbody]
  rfl

theorem raises_repeat {e : ε} (hs : (body s).Raises e) : (repeatUntil body s).Raises e := by
  obtain ⟨m, hs⟩ := hs
  have hbody := (body s).mono (Nat.le_succ m) hs
  use m + 1
  change bindRun ((body s).run (m + 1)) _ = _
  rw [hbody]
  rfl

/-- The loop ends where its body does and the rest of the loop does. -/
theorem ends_repeat (hbody : (body s).Ends)
    (hrest : ∀ s', (body s).Yields (.inl s') → (repeatUntil body s').Ends) :
    (repeatUntil body s).Ends := by
  obtain ⟨m, r, hr⟩ := hbody
  cases r with
  | error e =>
    have hbody := (body s).mono (Nat.le_succ m) hr
    use m + 1, .error e
    change bindRun ((body s).run (m + 1)) _ = _
    rw [hbody]
    rfl
  | ok out =>
    cases out with
    | inl s' =>
      obtain ⟨n, r, h⟩ := hrest s' ⟨m, hr⟩
      have hbody := (body s).mono (show m ≤ max m n + 1 by omega) hr
      have hloop := repeatRun_mono body (show n ≤ max m n + 1 by omega)
        (show n ≤ max m n by omega) h
      use max m n + 1, r
      change bindRun ((body s).run (max m n + 1)) _ = _
      rw [hbody]
      exact hloop
    | inr a => exact (yields_repeat_inr ⟨m, hr⟩).ends

/-- If the loop ends then it does from the state after a pass. -/
theorem ends_of_repeat_inl {s' : σ} (hs : (body s).Yields (.inl s'))
    (h : (repeatUntil body s).Ends) : (repeatUntil body s').Ends := by
  obtain ⟨n, r, h⟩ := h
  obtain ⟨m, hs⟩ := hs
  change repeatRun body n n s = some r at h
  cases n with
  | zero => cases h
  | succ n =>
    obtain ⟨e, he, -⟩ | ⟨out, hout, hrest⟩ := bindRun_some h
    · cases run_unique he hs
    · cases run_unique hout hs
      exact ⟨n + 1, r, repeatRun_mono body (Nat.le_refl _) (Nat.le_succ n) hrest⟩

/-- What every pass keeps holds when the loop is left. -/
theorem repeat_invariant {Inv : σ → Prop} {Post : α → Prop}
    (hnext : ∀ s s', Inv s → (body s).Yields (.inl s') → Inv s')
    (hlast : ∀ s a, Inv s → (body s).Yields (.inr a) → Post a) (hs : Inv s) {a : α}
    (h : (repeatUntil body s).Yields a) : Post a := by
  have hrun : ∀ n j s, Inv s → repeatRun body n j s = some (.ok a) → Post a := by
    intro n j
    induction j with
    | zero => exact fun s _ h => absurd h (by simp [repeatRun])
    | succ j ih =>
      intro s hs hrun
      obtain ⟨e, -, he⟩ | ⟨out, hout, hrest⟩ := bindRun_some hrun
      · cases he
      · cases out with
        | inl s' => exact ih s' (hnext s s' hs ⟨n, hout⟩) hrest
        | inr b =>
          cases Option.some.inj hrest
          exact hlast s _ hs ⟨n, hout⟩
  obtain ⟨n, h⟩ := h
  exact hrun n n s hs h

/-- A loop whose passes always go on does not end. -/
theorem not_ends_repeat {Inv : σ → Prop}
    (hnext : ∀ s, Inv s → ∃ s', (body s).Yields (.inl s') ∧ Inv s') (hs : Inv s) :
    ¬(repeatUntil body s).Ends := by
  have hrun : ∀ n j s, Inv s → repeatRun body n j s = none := by
    intro n j
    induction j with
    | zero => exact fun s _ => rfl
    | succ j ih =>
      intro s hs
      obtain ⟨s', ⟨m, hs'⟩, hinv⟩ := hnext s hs
      rw [repeatRun]
      cases hbody : (body s).run n with
      | none => rfl
      | some r =>
        cases run_unique hbody hs'
        exact ih s' hinv
  rintro ⟨n, r, h⟩
  change repeatRun body n n s = some r at h
  rw [hrun n n s hs] at h
  cases h

end Repeat

/-! ## Loops that go from place to place -/

/-- Where the body of a loop goes, by the place that a state is at. -/
structure Walks (body : σ → Fuelled ε (σ ⊕ α)) (place : σ → κ) (Next : κ → κ → Prop)
    (Last Stuck : κ → Prop) : Prop where
  next : ∀ s k, (∃ s', (body s).Yields (.inl s') ∧ place s' = k) ↔ Next (place s) k
  last : ∀ s, (∃ a, (body s).Yields (.inr a)) ↔ Last (place s)
  ends : ∀ s, (body s).Ends ↔ ¬Stuck (place s)

section Walks

variable {body : σ → Fuelled ε (σ ⊕ α)} {place : σ → κ} {Next : κ → κ → Prop}
  {Last Stuck : κ → Prop}

theorem Walks.last_of_run (h : Walks body place Next Last Stuck) {n j : Nat} {s : σ} {a : α}
    (hrun : repeatRun body n j s = some (.ok a)) :
    ∃ k, ReflTransGen Next (place s) k ∧ Last k := by
  induction j generalizing s with
  | zero => cases hrun
  | succ j ih =>
    obtain ⟨e, -, he⟩ | ⟨out, hout, hrest⟩ := bindRun_some hrun
    · cases he
    · cases out with
      | inl s' =>
        have hnext := (h.next s (place s')).mp ⟨s', ⟨n, hout⟩, rfl⟩
        obtain ⟨k, hreach, hlast⟩ := ih hrest
        exact ⟨k, hreach.head hnext, hlast⟩
      | inr b => exact ⟨place s, .refl, (h.last s).mp ⟨b, n, hout⟩⟩

/-- The loop gives a result if and only if it comes to a last place. -/
theorem Walks.yields_iff (h : Walks body place Next Last Stuck) (s : σ) :
    (∃ a, (repeatUntil body s).Yields a) ↔ ∃ k, ReflTransGen Next (place s) k ∧ Last k := by
  constructor
  · rintro ⟨a, n, hrun⟩
    exact h.last_of_run hrun
  · rintro ⟨k, hreach, hlast⟩
    generalize hplace : place s = j at hreach
    induction hreach using ReflTransGen.head_induction_on generalizing s with
    | refl =>
      obtain ⟨a, ha⟩ := (h.last s).mpr (hplace ▸ hlast)
      exact ⟨a, yields_repeat_inr ha⟩
    | head hnext _ ih =>
      obtain ⟨s', hs', hplace'⟩ := (h.next s _).mpr (hplace ▸ hnext)
      obtain ⟨a, ha⟩ := ih s' hplace'
      exact ⟨a, yields_repeat_inl hs' ha⟩

/-- A run that ends is on no cycle and comes to no body that does not end. -/
theorem Walks.not_stuck_of_run (h : Walks body place Next Last Stuck) {n j : Nat} {s : σ}
    {r : Except ε α} (hrun : repeatRun body n j s = some r) {k : κ}
    (hreach : ReflTransGen Next (place s) k) : ¬(TransGen Next k k ∨ Stuck k) := by
  induction j generalizing s r k with
  | zero => cases hrun
  | succ j ih =>
    have hbody : (body s).Ends := by
      obtain ⟨e, he, -⟩ | ⟨out, hout, -⟩ := bindRun_some hrun
      · exact ⟨n, _, he⟩
      · exact ⟨n, _, hout⟩
    -- what is behind the first place is behind the second
    have hbehind : ∀ {k}, TransGen Next (place s) k → ¬(TransGen Next k k ∨ Stuck k) := by
      intro k hk
      obtain ⟨l, hnext, hrest⟩ := TransGen.head'_iff.mp hk
      obtain ⟨s', hs', rfl⟩ := (h.next s l).mpr hnext
      obtain ⟨e, he, -⟩ | ⟨out, hout, hr⟩ := bindRun_some hrun
      · obtain ⟨m, hs'⟩ := hs'
        cases run_unique he hs'
      · cases hs'.unique ⟨n, hout⟩
        exact ih hr hrest
    rcases ReflTransGen.cases_head hreach with rfl | ⟨l, hnext, hrest⟩
    · rintro (hcycle | hstuck)
      · exact hbehind hcycle (Or.inl hcycle)
      · exact (h.ends s).mp hbody hstuck
    · exact hbehind (TransGen.head' hnext hrest)

/-- Over finitely many places the loop ends, unless it comes to a place that leads back to
itself or to one where its body does not end. -/
theorem Walks.ends_iff (h : Walks body place Next Last Stuck) (s : σ)
    (hfinite : {k | ReflTransGen Next (place s) k}.Finite) :
    (repeatUntil body s).Ends ↔
      ¬∃ k, ReflTransGen Next (place s) k ∧ (TransGen Next k k ∨ Stuck k) := by
  constructor
  · rintro ⟨n, r, hrun⟩ ⟨k, hreach, hk⟩
    exact h.not_stuck_of_run hrun hreach hk
  · intro hnone
    -- the places behind the start, each below those that lead to it
    let Place := {k // ReflTransGen Next (place s) k}
    have : Finite Place := hfinite
    let Below : Place → Place → Prop := fun j k => TransGen Next k.1 j.1
    have : IsTrans Place Below := ⟨fun _ _ _ hab hbc => hbc.trans hab⟩
    have : Std.Irrefl Below := ⟨fun k hk => hnone ⟨k.1, k.2, Or.inl hk⟩⟩
    have hwf : WellFounded Below := Finite.wellFounded_of_trans_of_irrefl Below
    have hall : ∀ k : Place, ∀ t, place t = k.1 → (repeatUntil body t).Ends := by
      intro k
      induction k using hwf.induction with
      | _ k ih =>
        intro t ht
        apply ends_repeat
        · exact (h.ends t).mpr fun hstuck => hnone ⟨k.1, k.2, Or.inr (ht ▸ hstuck)⟩
        · intro t' ht'
          have hnext : Next k.1 (place t') := ht ▸ (h.next t (place t')).mp ⟨t', ht', rfl⟩
          exact ih ⟨place t', k.2.tail hnext⟩ (TransGen.single hnext) t' rfl
    exact hall ⟨place s, .refl⟩ s rfl

end Walks

end Fuelled
