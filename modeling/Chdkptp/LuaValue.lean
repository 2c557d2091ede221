import Mathlib.Data.List.Nodup
import Mathlib.Data.List.TakeWhile

/-!
# Lua values

Tables live in a heap, so that they may be shared or contain themselves. A table
carries its entries in the order in which `pairs` visits them and the border that
`#` returns, which is any of its borders. A tree is a value without sharing, as the
text of a table constructor describes it.
-/

namespace LuaValue

/-- A Lua string is a sequence of bytes. -/
abbrev LuaString := List UInt8

/-- Booleans, numbers and strings. The numbers are integers. -/
inductive Scalar where
  | bool (b : Bool)
  | int (n : Int)
  | str (s : LuaString)
  deriving DecidableEq, Repr

inductive Value where
  | nil
  | scalar (s : Scalar)
  | table (ref : Nat)
  /-- A value of another type, with the name of the type and what `tostring` returns. -/
  | other (type text : LuaString)
  deriving DecidableEq, Repr

abbrev Value.int (n : Int) : Value := .scalar (.int n)

abbrev Value.str (s : LuaString) : Value := .scalar (.str s)

/-- The value at a key; what is not there is nil. -/
def lookupValue (entries : List (Value × Value)) (k : Value) : Value :=
  (entries.lookup k).getD .nil

structure Table where
  entries : List (Value × Value)
  /-- What `#` returns. -/
  border : Nat
  /-- What `tostring` returns. -/
  text : LuaString
  nodup : (entries.map Prod.fst).Nodup
  key_ne : ∀ e ∈ entries, e.1 ≠ .nil
  value_ne : ∀ e ∈ entries, e.2 ≠ .nil
  border_value : border ≠ 0 → lookupValue entries (.int border) ≠ .nil
  border_next : lookupValue entries (.int (border + 1)) = .nil

abbrev Heap := Nat → Table

section Lookup

variable {κ υ : Type} [DecidableEq κ]

theorem lookup_eq_some (l : List (κ × υ)) (hl : (l.map Prod.fst).Nodup) (k : κ) (v : υ) :
    l.lookup k = some v ↔ (k, v) ∈ l := by
  induction l with
  | nil => simp
  | cons e l ih =>
    obtain ⟨a, u⟩ := e
    obtain ⟨hnot, hrest⟩ := List.nodup_cons.mp hl
    by_cases hk : k = a
    · subst hk
      have hmem : (k, v) ∉ l := fun h => hnot (List.mem_map.mpr ⟨(k, v), h, rfl⟩)
      simp [hmem, eq_comm]
    · have hne : (k == a) = false := by simpa using hk
      simp [List.lookup_cons, hne, hk, ih hrest]

theorem lookup_eq_none (l : List (κ × υ)) (k : κ) (hk : k ∉ l.map Prod.fst) :
    l.lookup k = none := by
  refine List.lookup_eq_none_iff.mpr fun e he => ?_
  simpa using fun h : k = e.1 => hk (List.mem_map.mpr ⟨e, he, h.symm⟩)

end Lookup

namespace Table

variable (t : Table)

def get (k : Value) : Value := lookupValue t.entries k

theorem get_eq (k v : Value) (hv : v ≠ .nil) : t.get k = v ↔ (k, v) ∈ t.entries := by
  rw [← lookup_eq_some t.entries t.nodup k v]
  unfold get lookupValue
  cases t.entries.lookup k with
  | none => simp [hv.symm]
  | some u => simp

theorem mem_get (k : Value) (h : t.get k ≠ .nil) : (k, t.get k) ∈ t.entries :=
  (t.get_eq k (t.get k) h).mp rfl

theorem get_mem (e : Value × Value) (he : e ∈ t.entries) : t.get e.1 = e.2 :=
  (t.get_eq e.1 e.2 (t.value_ne e he)).mpr he

/-- The values at 1, 2, … up to the border. -/
def elements : List Value := (List.range t.border).map fun i : Nat => t.get (.int (i + 1))

/-- The values that `ipairs` visits. The loop stops at the first nil, and the value
behind the border is one. -/
def ipairs : List Value := t.elements.takeWhile (· ≠ .nil)

@[simp] theorem elements_length : t.elements.length = t.border := by simp [elements]

theorem elements_getElem (i : Nat) (v : Value) (h : t.elements[i]? = some v) :
    t.get (.int (i + 1)) = v := by
  obtain ⟨hi, hget⟩ := List.getElem?_eq_some_iff.mp h
  simpa [elements] using hget

theorem ipairs_length_le : t.ipairs.length ≤ t.border := by
  rw [← t.elements_length]
  exact (List.takeWhile_prefix _).length_le

theorem ipairs_getElem (i : Nat) (v : Value) (h : t.ipairs[i]? = some v) :
    t.get (.int (i + 1)) = v ∧ v ≠ .nil := by
  have hmem : v ∈ t.ipairs := List.mem_of_getElem? h
  have hne : v ≠ .nil := by simpa using List.mem_takeWhile_imp hmem
  obtain ⟨rest, hrest⟩ : t.ipairs <+: t.elements := List.takeWhile_prefix _
  refine ⟨t.elements_getElem i v ?_, hne⟩
  rw [← hrest, List.getElem?_append_left (List.getElem?_eq_some_iff.mp h).1]
  exact h

/-- No element below the border is nil. -/
def Filled : Prop := ∀ k : Nat, 1 ≤ k → k ≤ t.border → t.get (.int k) ≠ .nil

theorem ipairs_filled (h : t.Filled) : t.ipairs.length = t.border := by
  have hall : t.ipairs = t.elements := by
    refine List.takeWhile_eq_self_iff.mpr fun v hv => ?_
    obtain ⟨i, hi, rfl⟩ := List.mem_map.mp hv
    simpa using h (i + 1) (by omega) (List.mem_range.mp hi)
  rw [hall, elements_length]

/-- The loop does not get past a hole. -/
theorem ipairs_hole (k : Nat) (h1 : 1 ≤ k) (hk : t.get (.int k) = .nil) : t.ipairs.length < k := by
  by_contra hle
  have hlt : k - 1 < t.ipairs.length := by omega
  have hget := t.ipairs_getElem (k - 1) t.ipairs[k - 1] (List.getElem?_eq_getElem hlt)
  have hcast : ((k - 1 : Nat) : Int) + 1 = k := by omega
  rw [hcast, hk] at hget
  exact hget.2 hget.1.symm

end Table

/-! ## Trees -/

inductive Tree where
  | nil
  | scalar (s : Scalar)
  /-- The fields of a table; of two fields with one key the first counts. -/
  | table (fields : List (Scalar × Tree))

def fieldValue (fields : List (Scalar × Tree)) (k : Scalar) : Tree :=
  (fields.lookup k).getD .nil

theorem fieldValue_cons (fields : List (Scalar × Tree)) (k k' : Scalar) (v : Tree) :
    fieldValue ((k, v) :: fields) k' = if k' = k then v else fieldValue fields k' := by
  unfold fieldValue
  by_cases hk : k' = k
  · simp [hk]
  · have hne : (k' == k) = false := by simpa using hk
    simp [List.lookup_cons, hne, hk]

/-- Structural equality: the same scalar, or tables with equal values at every key. -/
inductive Equal (heap : Heap) : Value → Tree → Prop
  | nil : Equal heap .nil .nil
  | scalar (s : Scalar) : Equal heap (.scalar s) (.scalar s)
  | table (ref : Nat) (fields : List (Scalar × Tree))
      (keys : ∀ e ∈ (heap ref).entries, ∃ s, e.1 = .scalar s)
      (values : ∀ s, Equal heap ((heap ref).get (.scalar s)) (fieldValue fields s)) :
      Equal heap (.table ref) (.table fields)

/-- A tree of nil, scalars and tables with scalar keys, nested at most that deep. -/
def Nested (heap : Heap) : Nat → Value → Prop
  | _, .nil => True
  | _, .scalar _ => True
  | _, .other _ _ => False
  | 0, .table _ => False
  | depth + 1, .table ref =>
    ∀ e ∈ (heap ref).entries, (∃ s, e.1 = .scalar s) ∧ Nested heap depth e.2

/-- The tables of a value, nested at most that deep. -/
def tables (heap : Heap) : Nat → Value → List Nat
  | depth + 1, .table ref => ref :: (heap ref).entries.flatMap fun e => tables heap depth e.2
  | _, _ => []

/-- No table is reached twice. -/
def Unshared (heap : Heap) (depth : Nat) (v : Value) : Prop := (tables heap depth v).Nodup

end LuaValue
