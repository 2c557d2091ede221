import Mathlib.Data.Finset.Basic
import Mathlib.Data.Finset.Lattice.Lemmas
import Mathlib.Logic.Function.Basic

/-!
# What a program holds

A program opens, uses and closes what the system below it hands out. Its trace says in which
order; from the trace one reads what is still open, and whether something was used or closed
that was not. What it uses or closes may be nothing at all, a null handle.
-/

namespace ResourceTrace

variable {ρ : Type} [DecidableEq ρ]

inductive Event (ρ : Type) where
  | opened (r : ρ)
  | used (r : Option ρ)
  | closed (r : Option ρ)
  deriving DecidableEq

namespace Event

def after (held : Finset ρ) : Event ρ → Finset ρ
  | opened r => insert r held
  | used _ => held
  | closed none => held
  | closed (some r) => held.erase r

/-- What is handed out is not already open. -/
def Fresh (held : Finset ρ) : Event ρ → Prop
  | opened r => r ∉ held
  | _ => True

/-- What is used or closed is open. -/
def Proper (held : Finset ρ) : Event ρ → Prop
  | opened _ => True
  | used r => ∃ s ∈ r, s ∈ held
  | closed r => ∃ s ∈ r, s ∈ held

instance (held : Finset ρ) (r : Option ρ) : Decidable (∃ s ∈ r, s ∈ held) :=
  match r with
  | none => isFalse (by simp)
  | some r => decidable_of_iff (r ∈ held) (by simp)

instance (held : Finset ρ) : (e : Event ρ) → Decidable (e.Fresh held)
  | opened r => inferInstanceAs (Decidable (r ∉ held))
  | used _ => inferInstanceAs (Decidable True)
  | closed _ => inferInstanceAs (Decidable True)

instance (held : Finset ρ) : (e : Event ρ) → Decidable (e.Proper held)
  | opened _ => inferInstanceAs (Decidable True)
  | used r => inferInstanceAs (Decidable (∃ s ∈ r, s ∈ held))
  | closed r => inferInstanceAs (Decidable (∃ s ∈ r, s ∈ held))

end Event

/-- What is open after a trace. -/
def heldAfter (held : Finset ρ) : List (Event ρ) → Finset ρ
  | [] => held
  | e :: es => heldAfter (e.after held) es

def Fresh (held : Finset ρ) : List (Event ρ) → Prop
  | [] => True
  | e :: es => e.Fresh held ∧ Fresh (e.after held) es

def Proper (held : Finset ρ) : List (Event ρ) → Prop
  | [] => True
  | e :: es => e.Proper held ∧ Proper (e.after held) es

instance decidableFresh (held : Finset ρ) : (es : List (Event ρ)) → Decidable (Fresh held es)
  | [] => inferInstanceAs (Decidable True)
  | e :: es =>
    have := decidableFresh (e.after held) es
    inferInstanceAs (Decidable (_ ∧ _))

instance decidableProper (held : Finset ρ) : (es : List (Event ρ)) → Decidable (Proper held es)
  | [] => inferInstanceAs (Decidable True)
  | e :: es =>
    have := decidableProper (e.after held) es
    inferInstanceAs (Decidable (_ ∧ _))

variable {held : Finset ρ} {r : ρ} {o : Option ρ} {es fs : List (Event ρ)}

theorem heldAfter_cons (e : Event ρ) : heldAfter held (e :: es) = heldAfter (e.after held) es := rfl

theorem fresh_cons (e : Event ρ) :
    Fresh held (e :: es) ↔ e.Fresh held ∧ Fresh (e.after held) es := .rfl

theorem proper_cons (e : Event ρ) :
    Proper held (e :: es) ↔ e.Proper held ∧ Proper (e.after held) es := .rfl

@[simp] theorem heldAfter_nil : heldAfter held [] = held := rfl

@[simp] theorem heldAfter_opened :
    heldAfter held (.opened r :: es) = heldAfter (insert r held) es := rfl

@[simp] theorem heldAfter_used : heldAfter held (.used o :: es) = heldAfter held es := rfl

@[simp] theorem heldAfter_closed :
    heldAfter held (.closed (some r) :: es) = heldAfter (held.erase r) es := rfl

@[simp] theorem fresh_nil : Fresh held [] := trivial

@[simp] theorem fresh_opened :
    Fresh held (.opened r :: es) ↔ r ∉ held ∧ Fresh (insert r held) es := .rfl

@[simp] theorem fresh_used : Fresh held (.used o :: es) ↔ Fresh held es :=
  and_iff_right trivial

@[simp] theorem fresh_closed :
    Fresh held (.closed (some r) :: es) ↔ Fresh (held.erase r) es :=
  and_iff_right trivial

theorem held_some : (∃ s ∈ some r, s ∈ held) ↔ r ∈ held := by simp

@[simp] theorem proper_nil : Proper held [] := trivial

@[simp] theorem proper_opened :
    Proper held (.opened r :: es) ↔ Proper (insert r held) es :=
  and_iff_right trivial

@[simp] theorem proper_used :
    Proper held (.used (some r) :: es) ↔ r ∈ held ∧ Proper held es :=
  held_some.and .rfl

@[simp] theorem not_proper_used : ¬Proper held (.used none :: es) := by
  rintro ⟨⟨s, hs, -⟩, -⟩
  cases hs

@[simp] theorem proper_closed :
    Proper held (.closed (some r) :: es) ↔ r ∈ held ∧ Proper (held.erase r) es :=
  held_some.and .rfl

@[simp] theorem heldAfter_append :
    heldAfter held (es ++ fs) = heldAfter (heldAfter held es) fs := by
  induction es generalizing held with
  | nil => rfl
  | cons e es ih => exact ih

@[simp] theorem fresh_append :
    Fresh held (es ++ fs) ↔ Fresh held es ∧ Fresh (heldAfter held es) fs := by
  induction es generalizing held with
  | nil => simp
  | cons e es ih =>
    simp only [List.cons_append, fresh_cons, heldAfter_cons, ih, and_assoc]

@[simp] theorem proper_append :
    Proper held (es ++ fs) ↔ Proper held es ∧ Proper (heldAfter held es) fs := by
  induction es generalizing held with
  | nil => simp
  | cons e es ih =>
    simp only [List.cons_append, proper_cons, heldAfter_cons, ih, and_assoc]

theorem heldAfter_replicate (n : Nat) : heldAfter held (List.replicate n (.used o)) = held := by
  induction n with
  | zero => rfl
  | succ n ih => exact ih

theorem fresh_replicate (n : Nat) : Fresh held (List.replicate n (.used o)) := by
  induction n with
  | zero => exact fresh_nil
  | succ n ih => exact fresh_used.mpr ih

theorem proper_replicate (n : Nat) (h : r ∈ held) :
    Proper held (List.replicate n (.used (some r))) := by
  induction n with
  | zero => exact proper_nil
  | succ n ih => exact proper_used.mpr ⟨h, ih⟩

/-! ## Owners -/

variable {ι : Type} [DecidableEq ι]

/-- What is open and has an owner has one only. -/
structure Owned (owns : ι → Finset ρ) (held : Finset ρ) : Prop where
  open_ : ∀ i, owns i ⊆ held
  apart : ∀ i j, i ≠ j → Disjoint (owns i) (owns j)

/-- Whatever is open has an owner. -/
def NoneLost (owns : ι → Finset ρ) (held : Finset ρ) : Prop := ∀ r ∈ held, ∃ i, r ∈ owns i

/-- A trace that gives its owner `own'` for `own`, and loses `lost`. -/
structure Exchange (held own own' : Finset ρ) (es : List (Event ρ)) (lost : Finset ρ) : Prop where
  after : heldAfter held es = held \ own ∪ own' ∪ lost
  own_new : Disjoint own' (held \ own)
  lost_new : Disjoint lost (held \ own)
  apart : Disjoint own' lost

variable {owns : ι → Finset ρ} {i : ι} {own own' lost : Finset ρ}

omit [DecidableEq ι] in
theorem Owned.elsewhere (h : Owned owns held) {j : ι} (hji : j ≠ i) :
    owns j ⊆ held \ owns i :=
  Finset.subset_sdiff.mpr ⟨h.open_ j, h.apart j i hji⟩

theorem Owned.exchange (h : Owned owns held) (he : Exchange held (owns i) own' es lost) :
    Owned (Function.update owns i own') (heldAfter held es) := by
  constructor
  · intro j
    rw [he.after]
    by_cases hji : j = i
    · subst hji
      rw [Function.update_self]
      exact Finset.Subset.trans Finset.subset_union_right Finset.subset_union_left
    · rw [Function.update_of_ne hji]
      apply Finset.Subset.trans (h.elsewhere hji)
      exact Finset.Subset.trans Finset.subset_union_left Finset.subset_union_left
  · intro j k hjk
    by_cases hji : j = i
    · subst hji
      rw [Function.update_self, Function.update_of_ne hjk.symm]
      exact he.own_new.mono_right (h.elsewhere hjk.symm)
    · rw [Function.update_of_ne hji]
      by_cases hki : k = i
      · subst hki
        rw [Function.update_self]
        exact (he.own_new.mono_right (h.elsewhere hji)).symm
      · rw [Function.update_of_ne hki]
        exact h.apart j k hjk

theorem noneLost_exchange_iff (h : Owned owns held) (hn : NoneLost owns held)
    (he : Exchange held (owns i) own' es lost) :
    NoneLost (Function.update owns i own') (heldAfter held es) ↔ lost = ∅ := by
  constructor
  · intro hall
    apply Finset.eq_empty_of_forall_notMem
    intro r hr
    obtain ⟨j, hj⟩ := hall r (by rw [he.after]; exact Finset.mem_union_right _ hr)
    by_cases hji : j = i
    · subst hji
      rw [Function.update_self] at hj
      exact Finset.disjoint_left.mp he.apart hj hr
    · rw [Function.update_of_ne hji] at hj
      exact Finset.disjoint_left.mp he.lost_new hr (h.elsewhere hji hj)
  · intro hlost r hr
    rw [he.after, hlost, Finset.union_empty, Finset.mem_union] at hr
    rcases hr with hr | hr
    · obtain ⟨hheld, hnot⟩ := Finset.mem_sdiff.mp hr
      obtain ⟨j, hj⟩ := hn r hheld
      have hji : j ≠ i := fun hji => hnot (hji ▸ hj)
      exact ⟨j, by rwa [Function.update_of_ne hji]⟩
    · exact ⟨i, by rwa [Function.update_self]⟩

namespace Exchange

/-- Nothing is opened or closed. -/
theorem refl (h : own ⊆ held) : Exchange held own own [] ∅ where
  after := by
    rw [heldAfter_nil, Finset.union_empty, Finset.sdiff_union_of_subset h]
  own_new := Finset.disjoint_sdiff
  lost_new := Finset.disjoint_empty_left _
  apart := Finset.disjoint_empty_right _

/-- One trace after the other. -/
theorem trans {own'' lost' : Finset ρ} (h : Exchange held own own' es lost)
    (h' : Exchange (heldAfter held es) own' own'' fs lost') :
    Exchange held own own'' (es ++ fs) (lost ∪ lost') := by
  have hrest : heldAfter held es \ own' = held \ own ∪ lost := by
    rw [h.after, Finset.union_right_comm, Finset.union_sdiff_cancel_right]
    exact Finset.disjoint_union_left.mpr ⟨h.own_new.symm, h.apart.symm⟩
  have hown := h'.own_new
  have hlost := h'.lost_new
  rw [hrest, Finset.disjoint_union_right] at hown hlost
  constructor
  · rw [heldAfter_append, h'.after, hrest, Finset.union_right_comm _ own'', Finset.union_assoc _ lost,
      Finset.union_right_comm]
  · exact hown.1
  · exact Finset.disjoint_union_left.mpr ⟨h.lost_new, hlost.1⟩
  · exact Finset.disjoint_union_right.mpr ⟨hown.2, h'.apart⟩

/-- What was open stays open unless it was the owner's. -/
theorem own_subset (h : Exchange held own own' es lost) : own' ⊆ heldAfter held es := by
  rw [h.after, Finset.union_right_comm]
  exact Finset.subset_union_right

theorem opened (h : own ⊆ held) (hr : r ∉ held) :
    Exchange held own (insert r own) [.opened r] ∅ where
  after := by
    rw [heldAfter_opened, heldAfter_nil, Finset.union_empty, Finset.union_insert,
      Finset.sdiff_union_of_subset h]
  own_new := by
    rw [Finset.disjoint_insert_left]
    exact ⟨fun hmem => hr (Finset.mem_sdiff.mp hmem).1, Finset.disjoint_sdiff⟩
  lost_new := Finset.disjoint_empty_left _
  apart := Finset.disjoint_empty_right _

/-- An exchange is known from what it opens and closes. -/
theorem congr (h : Exchange held own own' es lost) (hes : heldAfter held fs = heldAfter held es) :
    Exchange held own own' fs lost :=
  { h with after := hes.trans h.after }

/-- What the owner lets go without closing it is lost. -/
theorem drop {d : Finset ρ} (h : own ⊆ held) (hd : d ⊆ own) :
    Exchange held own (own \ d) [] d where
  after := by
    rw [heldAfter_nil, Finset.union_assoc, Finset.sdiff_union_of_subset hd,
      Finset.sdiff_union_of_subset h]
  own_new := Finset.disjoint_sdiff.mono_left Finset.sdiff_subset
  lost_new := Finset.disjoint_sdiff.mono_left hd
  apart := Finset.sdiff_disjoint

/-- The owner closes all it has. -/
theorem close (hes : heldAfter held es = held \ own) :
    Exchange held own ∅ es ∅ where
  after := by rw [hes, Finset.union_empty, Finset.union_empty]
  own_new := Finset.disjoint_empty_left _
  lost_new := Finset.disjoint_empty_left _
  apart := Finset.disjoint_empty_left _

end Exchange

end ResourceTrace
