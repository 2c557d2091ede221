import Chdkptp.LuaUtil
import Mathlib.Data.Finmap

/-!
# Tables in a heap

Values are atoms and tables, keys too; nil is `none`. Atoms are equal to themselves, and
tables are compared by identity. A value is seen along paths of keys.
-/

namespace TableHeap

open LuaUtil

inductive Item (α : Type) where
  | atom (a : α)
  | table (ref : Nat)
  deriving DecidableEq

/-- The entries of each table, in the order in which `pairs` visits them. -/
abbrev Heap (α : Type) := Nat → Fields (Item α) (Item α)

abbrev Path (α : Type) := List (Item α)

variable {α : Type} [DecidableEq α]

/-- `v[k]`, or nil if the value is not a table. -/
def field (h : Heap α) : Option (Item α) → Item α → Option (Item α)
  | some (.table r), k => (h r).lookup k
  | _, _ => none

/-- What a path leads to. -/
def follow (h : Heap α) (v : Option (Item α)) : Path α → Option (Item α)
  | [] => v
  | k :: p => follow h (field h v k) p

theorem lookup_singleton (a k x : Item α) :
    (AList.singleton a x : Fields (Item α) (Item α)).lookup k = if k = a then some x else none := by
  by_cases hk : k = a
  · subst hk
    simp [AList.singleton, AList.lookup]
  · simp [AList.singleton, AList.lookup, List.dlookup_cons_ne, hk]

variable {h h' : Heap α} {v w : Option (Item α)}

@[simp] theorem follow_nil : follow h v [] = v := rfl

@[simp] theorem follow_cons (k : Item α) (p : Path α) :
    follow h v (k :: p) = follow h (field h v k) p := rfl

@[simp] theorem follow_none (p : Path α) : follow h none p = none := by
  induction p with
  | nil => rfl
  | cons k p ih => exact ih

@[simp] theorem field_table (r : Nat) (k : Item α) :
    field h (some (.table r)) k = (h r).lookup k := rfl

@[simp] theorem field_atom (a : α) (k : Item α) : field h (some (.atom a)) k = none := rfl

@[simp] theorem field_none (k : Item α) : field h none k = none := rfl

/-- Only tables have fields. -/
theorem field_some {k x : Item α} (hf : field h v k = some x) :
    ∃ r, v = some (.table r) ∧ (h r).lookup k = some x := by
  match v with
  | some (.table r) => exact ⟨r, rfl, hf⟩
  | some (.atom a) => cases hf
  | none => cases hf

theorem follow_append (p q : Path α) : follow h v (p ++ q) = follow h (follow h v p) q := by
  induction p generalizing v with
  | nil => rfl
  | cons k p ih => exact ih

/-- What is met below a value depends on the tables met there. -/
theorem follow_congr (hsame : ∀ p r, follow h v p = some (.table r) → h' r = h r) (p : Path α) :
    follow h' v p = follow h v p := by
  induction p generalizing v with
  | nil => rfl
  | cons k p ih =>
    have hfield : field h' v k = field h v k := by
      match v with
      | some (.table r) => rw [field_table, field_table, hsame [] r rfl]
      | some (.atom a) => rfl
      | none => rfl
    rw [follow_cons, follow_cons, hfield]
    exact ih fun q r hq => hsame (k :: q) r hq

/-- The tables that two values have in common are at one path. -/
def Apart (h : Heap α) (v w : Option (Item α)) : Prop :=
  ∀ p q r, follow h v p = some (.table r) → follow h w q = some (.table r) → p = q

/-- No table is met twice. -/
def Unshared (h : Heap α) (v : Option (Item α)) : Prop := Apart h v v

theorem Apart.symm (hvw : Apart h v w) : Apart h w v :=
  fun p q r hp hq => (hvw q p r hq hp).symm

theorem Apart.field (hvw : Apart h v w) (k : Item α) : Apart h (field h v k) (field h w k) :=
  fun p q r hp hq => List.cons_injective (hvw (k :: p) (k :: q) r hp hq)

/-- The value has at most so many levels, itself included. -/
def Levels (h : Heap α) (n : Nat) (v : Option (Item α)) : Prop :=
  ∀ p, follow h v p ≠ none → p.length < n

theorem Levels.field {n : Nat} (hv : Levels h (n + 1) v) (k : Item α) :
    Levels h n (field h v k) :=
  fun p hp => Nat.lt_of_succ_lt_succ (hv (k :: p) hp)

theorem not_levels_zero {x : Item α} : ¬Levels h 0 (some x) :=
  fun hx => Nat.not_lt_zero 0 (hx [] (Option.some_ne_none x))

end TableHeap
