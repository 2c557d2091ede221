import Mathlib.Data.List.Basic

/-!
# Arrays with holes

The positive fields of a table that is used as an array, as far as the last one that is not
nil. `#` returns a border: a field that is not nil, or 0, before one that is nil. Of an array
without holes it is the length.
-/

namespace LuaSlots

variable {α : Type}

/-- The fields 1, 2 and so on; those behind the end are nil. -/
abbrev Slots (α : Type) := List (Option α)

def slot (t : Slots α) (i : Nat) : Option α := t[i]?.join

/-- Arrays with the same fields. -/
def Same (t t' : Slots α) : Prop := ∀ i, slot t i = slot t' i

theorem Same.symm {t t' : Slots α} (h : Same t t') : Same t' t := fun i => (h i).symm

def IsBorder (t : Slots α) (n : Nat) : Prop :=
  (n = 0 ∨ (slot t (n - 1)).isSome) ∧ slot t n = none

/-- What an interpreter's `#` returns. -/
structure Borders (α : Type) where
  border : Slots α → Nat
  isBorder : ∀ t, IsBorder t (border t)

/-- The border before the first field that is nil. -/
def firstBorder : Borders α where
  border t := (t.takeWhile Option.isSome).length
  isBorder t := by
    induction t with
    | nil => exact ⟨.inl rfl, rfl⟩
    | cons v t ih =>
      cases v with
      | none => exact ⟨.inl rfl, rfl⟩
      | some x =>
        refine ⟨.inr ?_, ih.2⟩
        obtain hzero | hsome := ih.1
        · simp [slot, List.eq_nil_of_length_eq_zero hzero]
        · cases hlen : (t.takeWhile Option.isSome).length with
          | zero => simp [slot, List.eq_nil_of_length_eq_zero hlen]
          | succ n =>
            rw [hlen] at hsome
            simpa [slot, hlen] using hsome

/-- `table.insert(t,1,v)`: the fields up to the border move up. -/
def insertFirst (B : Borders α) (t : Slots α) (v : Option α) : Slots α :=
  v :: (t.take (B.border t) ++ t.drop (B.border t + 1))

/-- `t[i + 1]=v`. -/
def store : Slots α → Nat → α → Slots α
  | [], 0, v => [some v]
  | [], i + 1, v => none :: store [] i v
  | _ :: t, 0, v => some v :: t
  | w :: t, i + 1, v => w :: store t i v

theorem slot_store (t : Slots α) (i : Nat) (v : α) (j : Nat) :
    slot (store t i v) j = if j = i then some v else slot t j := by
  induction t, i, v using store.induct generalizing j with
  | case1 v => cases j <;> simp [store, slot]
  | case2 i v ih =>
    cases j with
    | zero => simp [store, slot]
    | succ j => simpa [store, slot] using ih j
  | case3 w t v => cases j <;> simp [store, slot]
  | case4 w t i v ih =>
    cases j with
    | zero => simp [store, slot]
    | succ j => simpa [store, slot] using ih j

/-- An array without holes. -/
def ofList (l : List α) : Slots α := l.map some

/-- How many fields are not nil. -/
def filled (t : Slots α) : Nat := t.countP Option.isSome

@[simp] theorem slot_nil (i : Nat) : slot ([] : Slots α) i = none := rfl

@[simp] theorem slot_cons_zero (v : Option α) (t : Slots α) : slot (v :: t) 0 = v := rfl

@[simp] theorem slot_cons_succ (v : Option α) (t : Slots α) (i : Nat) :
    slot (v :: t) (i + 1) = slot t i := rfl

theorem filled_cons (v : Option α) (t : Slots α) :
    filled (v :: t) = filled t + if v.isSome then 1 else 0 := by
  rw [filled, List.countP_cons, filled]

/-- All fields of an array are nil when none is filled. -/
theorem filled_eq_zero_iff {t : Slots α} : filled t = 0 ↔ Same t [] := by
  induction t with
  | nil => exact iff_of_true rfl fun i => rfl
  | cons v t ih =>
    rw [filled_cons]
    constructor
    · intro h
      have ht : Same t [] := ih.mp (by omega)
      intro i
      cases i with
      | zero =>
        cases v with
        | none => rfl
        | some x => simp at h
      | succ i => exact ht i
    · intro h
      have ht : filled t = 0 := ih.mpr fun i => h (i + 1)
      have hv : v = none := h 0
      rw [ht, hv]
      rfl

/-- The fields decide how many are filled. -/
theorem Same.filled_eq {t t' : Slots α} (h : Same t t') : filled t = filled t' := by
  induction t generalizing t' with
  | nil => exact (filled_eq_zero_iff.mpr h.symm).symm
  | cons v t ih =>
    cases t' with
    | nil => exact filled_eq_zero_iff.mpr h
    | cons v' t' =>
      have hv : v = v' := h 0
      rw [filled_cons, filled_cons, ih fun i => h (i + 1), hv]

/-- A field that is nil can be left out of the count. -/
theorem filled_take_drop {t : Slots α} {n : Nat} (h : slot t n = none) :
    filled (t.take n ++ t.drop (n + 1)) = filled t := by
  induction t generalizing n with
  | nil => simp
  | cons v t ih =>
    cases n with
    | zero =>
      obtain rfl : v = none := h
      rw [filled_cons]
      rfl
    | succ n =>
      rw [List.take_succ_cons, List.drop_succ_cons, List.cons_append, filled_cons, filled_cons,
        ih h]

/-- An insertion keeps what is there. -/
theorem filled_insertFirst (B : Borders α) (t : Slots α) (v : Option α) :
    filled (insertFirst B t v) = filled t + if v.isSome then 1 else 0 := by
  rw [insertFirst, filled_cons, filled_take_drop (B.isBorder t).2]

/-! ## Arrays without holes -/

theorem slot_ofList (l : List α) (i : Nat) : slot (ofList l) i = l[i]? := by
  rw [slot, ofList, List.getElem?_map]
  cases l[i]? <;> rfl

/-- An array with the fields of a list has one border. -/
theorem border_of_same {t : Slots α} {l : List α} (h : Same t (ofList l)) {n : Nat}
    (hn : IsBorder t n) : n = l.length := by
  have hnone : l[n]? = none := by rw [← slot_ofList, ← h, hn.2]
  have hle : l.length ≤ n := List.getElem?_eq_none_iff.mp hnone
  rcases hn.1 with hzero | hsome
  · omega
  · rw [h, slot_ofList] at hsome
    have hlt : n - 1 < l.length := by
      by_contra hge
      rw [List.getElem?_eq_none (by omega)] at hsome
      cases hsome
    omega

/-- The fields decide the list. -/
theorem ofList_inj {t : Slots α} {l l' : List α} (h : Same t (ofList l)) (h' : Same t (ofList l')) :
    l = l' := by
  apply List.ext_getElem?
  intro i
  rw [← slot_ofList, ← slot_ofList, ← h i, ← h' i]

theorem same_take_drop {t : Slots α} {l : List α} (h : Same t (ofList l)) :
    Same (t.take l.length ++ t.drop (l.length + 1)) (ofList l) := by
  induction l generalizing t with
  | nil =>
    intro i
    cases t with
    | nil => rfl
    | cons v t => exact h (i + 1)
  | cons x l ih =>
    cases t with
    | nil => cases h 0
    | cons v t =>
      obtain rfl : v = some x := h 0
      intro i
      cases i with
      | zero => rfl
      | succ i => exact ih (fun i => h (i + 1)) i

/-- In front of an array without holes. -/
theorem same_insertFirst (B : Borders α) {t : Slots α} {l : List α} (h : Same t (ofList l))
    (x : α) : Same (insertFirst B t (some x)) (ofList (x :: l)) := by
  have hborder : B.border t = l.length := border_of_same h (B.isBorder t)
  intro i
  cases i with
  | zero => rfl
  | succ i =>
    rw [insertFirst, hborder]
    exact same_take_drop h i

/-- Inserting nil into an empty array does nothing. -/
theorem same_insertFirst_none (B : Borders α) {t : Slots α} (h : Same t []) :
    Same (insertFirst B t none) [] := by
  rw [← filled_eq_zero_iff] at h ⊢
  rw [filled_insertFirst, h]
  rfl

end LuaSlots
