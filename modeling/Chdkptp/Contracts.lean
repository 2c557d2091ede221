/-!
# Contracts of actions that can fail

An action on a state returns a value or fails; the state that it has reached stays either way.
Its contract says what holds in that state.
-/

namespace Contracts

variable {ε σ α β : Type}

/-- Begun where `P` holds, the action returns where `Q` holds or fails where `E` holds. -/
structure Contract (P : σ → Prop) (x : EStateM ε σ α) (Q : α → σ → Prop) (E : σ → Prop) :
    Prop where
  ok : ∀ s a s', P s → x.run s = .ok a s' → Q a s'
  error : ∀ s e s', P s → x.run s = .error e s' → E s'

/-- `if c then x end`. -/
def doIf (c : Prop) [Decidable c] (x : EStateM ε σ PUnit) : EStateM ε σ PUnit :=
  if c then x else pure ⟨⟩

section Rules

variable {P P' : σ → Prop} {x : EStateM ε σ α} {f : α → EStateM ε σ β} {Q Q' : α → σ → Prop}
  {R : β → σ → Prop} {E : σ → Prop}

theorem contract_pure {a : α} (h : ∀ s, P s → Q a s) :
    Contract P (pure a : EStateM ε σ α) Q E where
  ok s b s' hs hrun := by
    cases hrun
    exact h s hs
  error s e s' _ hrun := by cases hrun

theorem contract_throw {e : ε} (h : ∀ s, P s → E s) :
    Contract P (throw e : EStateM ε σ α) Q E where
  ok s b s' _ hrun := by cases hrun
  error s e s' hs hrun := by
    cases hrun
    exact h s hs

theorem contract_get : Contract P (get : EStateM ε σ σ) (fun a s => s = a ∧ P s) E where
  ok s a s' hs hrun := by
    cases hrun
    exact ⟨rfl, hs⟩
  error s e s' _ hrun := by cases hrun

theorem contract_modify {g : σ → σ} {S : σ → Prop} (h : ∀ s, P s → S (g s)) :
    Contract P (modify g : EStateM ε σ PUnit) (fun _ => S) E where
  ok s a s' hs hrun := by
    cases hrun
    exact h s hs
  error s e s' _ hrun := by cases hrun

theorem Contract.bind (hx : Contract P x Q E) (hf : ∀ a, Contract (Q a) (f a) R E) :
    Contract P (x >>= f) R E := by
  have hbind : ∀ s, (x >>= f).run s =
      match x.run s with
      | .ok a s' => (f a).run s'
      | .error e s' => .error e s' := fun s => rfl
  constructor
  · intro s b s' hs hrun
    rw [hbind] at hrun
    split at hrun
    · rename_i a s₁ hfirst
      exact (hf a).ok s₁ b s' (hx.ok s a s₁ hs hfirst) hrun
    · cases hrun
  · intro s e s' hs hrun
    rw [hbind] at hrun
    split at hrun
    · rename_i a s₁ hfirst
      exact (hf a).error s₁ e s' (hx.ok s a s₁ hs hfirst) hrun
    · rename_i e₁ s₁ hfirst
      cases hrun
      exact hx.error s e s' hs hfirst

theorem contract_doIf {c : Prop} [Decidable c] {y : EStateM ε σ PUnit} {S : σ → Prop}
    (hy : c → Contract P y (fun _ => S) E) (hskip : ¬c → ∀ s, P s → S s) :
    Contract P (doIf c y) (fun _ => S) E := by
  rw [doIf]
  split
  · exact hy ‹_›
  · exact contract_pure (hskip ‹_›)

theorem Contract.conseq {E' : σ → Prop} (hx : Contract P x Q E) (hP : ∀ s, P' s → P s)
    (hQ : ∀ a s, Q a s → Q' a s) (hE : ∀ s, E s → E' s) : Contract P' x Q' E' where
  ok s a s' hs hrun := hQ a s' (hx.ok s a s' (hP s hs) hrun)
  error s e s' hs hrun := hE s' (hx.error s e s' (hP s hs) hrun)

end Rules

/-- An action that keeps an invariant, whether it fails or not. -/
def Keeps (I : σ → Prop) (x : EStateM ε σ α) : Prop := Contract I x (fun _ => I) I

/-- The state in which an action ends. -/
def reached (x : EStateM ε σ α) (s : σ) : σ :=
  match x.run s with
  | .ok _ s' => s'
  | .error _ s' => s'

section Keeps

variable {I : σ → Prop} {x : EStateM ε σ α} {f : α → EStateM ε σ β}

theorem keeps_pure (a : α) : Keeps I (pure a : EStateM ε σ α) := contract_pure fun _ hs => hs

theorem keeps_throw (e : ε) : Keeps I (throw e : EStateM ε σ α) := contract_throw fun _ hs => hs

theorem Keeps.bind (hx : Keeps I x) (hf : ∀ a, Keeps I (f a)) : Keeps I (x >>= f) :=
  Contract.bind hx hf

theorem keeps_doIf {c : Prop} [Decidable c] {y : EStateM ε σ PUnit} (hy : Keeps I y) :
    Keeps I (doIf c y) :=
  contract_doIf (fun _ => hy) fun _ _ hs => hs

/-- A loop keeps what each of its passes keeps. -/
theorem keeps_forM {body : α → EStateM ε σ PUnit} (l : List α) (h : ∀ a ∈ l, Keeps I (body a)) :
    Keeps I (l.forM body) := by
  induction l with
  | nil => exact keeps_pure PUnit.unit
  | cons a l ih =>
    apply Keeps.bind (h a List.mem_cons_self)
    intro _
    exact ih fun b hb => h b (List.mem_cons_of_mem a hb)

theorem Keeps.reached (hx : Keeps I x) {s : σ} (hs : I s) : I (reached x s) := by
  rw [Contracts.reached]
  split
  · rename_i a s' hrun
    exact hx.ok s a s' hs hrun
  · rename_i e s' hrun
    exact hx.error s e s' hs hrun

end Keeps

end Contracts
