import Mathlib.Data.List.AList
import Mathlib.Data.List.Perm.Subperm

/-!
# Tables of options

`util.extend_table` and the loops over tables that are not nested: entries with
distinct keys, which `pairs` visits in the order in which they are listed.
-/

namespace LuaUtil

variable {κ ν : Type} [DecidableEq κ]

abbrev Fields (κ ν : Type) := AList fun _ : κ => ν

/-- `util.extend_table` without options: what is in the source replaces what is in the target. -/
def extendTable (target source : Fields κ ν) : Fields κ ν :=
  source.entries.foldl (fun t e => t.insert e.1 e.2) target

def extendTableMulti (target : Fields κ ν) (sources : List (Fields κ ν)) : Fields κ ν :=
  sources.foldl extendTable target

theorem lookup_foldl_insert (l : List (Sigma fun _ : κ => ν)) (h : l.NodupKeys)
    (t : Fields κ ν) (k : κ) :
    (l.foldl (fun t e => t.insert e.1 e.2) t).lookup k = (l.dlookup k).or (t.lookup k) := by
  induction l generalizing t with
  | nil => simp
  | cons e l ih =>
    obtain ⟨a, v⟩ := e
    obtain ⟨hnot, hrest⟩ := List.nodupKeys_cons.mp h
    rw [List.foldl_cons, ih hrest]
    by_cases hk : k = a
    · subst hk
      simp [List.dlookup_eq_none.mpr hnot]
    · rw [AList.lookup_insert_ne hk, List.dlookup_cons_ne _ _ hk]

theorem lookup_extendTable (target source : Fields κ ν) (k : κ) :
    (extendTable target source).lookup k = (source.lookup k).or (target.lookup k) :=
  lookup_foldl_insert source.entries source.nodupKeys target k

@[simp] theorem extendTable_empty (target : Fields κ ν) : extendTable target ∅ = target := rfl

/-! ## Lists -/

def arrayEntries (first : Nat) : List ν → List (Sigma fun _ : Nat => ν)
  | [] => []
  | v :: l => ⟨first, v⟩ :: arrayEntries (first + 1) l

theorem arrayEntries_keys (first : Nat) (l : List ν) :
    (arrayEntries first l).keys = List.range' first l.length := by
  induction l generalizing first with
  | nil => rfl
  | cons v l ih => simp [arrayEntries, ih, List.range'_succ]

theorem arrayEntries_nodup (first : Nat) (l : List ν) : (arrayEntries first l).NodupKeys := by
  rw [List.NodupKeys, arrayEntries_keys]
  exact List.nodup_range'

theorem dlookup_arrayEntries (first k : Nat) (l : List ν) :
    (arrayEntries first l).dlookup (first + k) = l[k]? := by
  induction l generalizing first k with
  | nil => rfl
  | cons v l ih =>
    cases k with
    | zero => simp [arrayEntries]
    | succ k =>
      have hne : first + (k + 1) ≠ first := by omega
      have hnext : first + (k + 1) = first + 1 + k := by omega
      rw [arrayEntries, List.dlookup_cons_ne _ _ hne, hnext, ih]
      rfl

/-- The table `{v1, v2, ...}`. -/
def array (l : List ν) : Fields Nat ν := ⟨arrayEntries 1 l, arrayEntries_nodup 1 l⟩

theorem lookup_array (l : List ν) (k : Nat) : (array l).lookup (1 + k) = l[k]? :=
  dlookup_arrayEntries 1 k l

/-- The values that `ipairs` visits from a key on. -/
def ipairsFrom (t : Fields Nat ν) : (most first : Nat) → List ν
  | 0, _ => []
  | most + 1, first =>
    match t.lookup first with
    | none => []
    | some v => v :: ipairsFrom t most (first + 1)

/-- The loop over `ipairs` makes at most one pass for each entry. -/
def ipairs (t : Fields Nat ν) : List ν := ipairsFrom t t.entries.length 1

theorem ipairsFrom_eq (t : Fields Nat ν) (l : List ν) (most first : Nat)
    (hl : l.length ≤ most) (h : ∀ k, t.lookup (first + k) = l[k]?) :
    ipairsFrom t most first = l := by
  induction l generalizing most first with
  | nil =>
    have hfirst : t.lookup first = none := by simpa using h 0
    cases most <;> simp [ipairsFrom, hfirst]
  | cons v l ih =>
    cases most with
    | zero => simp at hl
    | succ most =>
      have hfirst : t.lookup first = some v := by simpa using h 0
      have hrest : ∀ k, t.lookup (first + 1 + k) = l[k]? := by
        intro k
        have hk := h (k + 1)
        rwa [show first + (k + 1) = first + 1 + k by omega, List.getElem?_cons_succ] at hk
      have hlen : l.length ≤ most := by simpa using hl
      simp [ipairsFrom, hfirst, ih most (first + 1) hlen hrest]

theorem ipairs_eq (t : Fields Nat ν) (l : List ν) (h : ∀ k, t.lookup (1 + k) = l[k]?) :
    ipairs t = l := by
  refine ipairsFrom_eq t l _ 1 ?_ h
  have hsub : List.range' 1 l.length ⊆ t.keys := by
    intro k hk
    obtain ⟨i, hi, rfl⟩ := List.mem_range'.mp hk
    have hsome : (t.lookup (1 + 1 * i)).isSome := by simp [h, hi]
    exact AList.mem_keys.mp (AList.lookup_isSome.mp hsome)
  have hle := (List.subperm_of_subset List.nodup_range' hsub).length_le
  simpa [AList.keys, List.keys] using hle

@[simp] theorem ipairs_array (l : List ν) : ipairs (array l) = l := ipairs_eq _ l (lookup_array l)

/-- A list merged into another replaces as many of its first elements. -/
theorem ipairs_extendTable (t : Fields Nat ν) (d l : List ν) (h : ∀ k, t.lookup (1 + k) = d[k]?) :
    ipairs (extendTable t (array l)) = l ++ d.drop l.length := by
  refine ipairs_eq _ _ fun k => ?_
  rw [lookup_extendTable, lookup_array, h, List.getElem?_append]
  by_cases hk : k < l.length
  · simp [hk]
  · have hback : l.length + (k - l.length) = k := by omega
    simp [hk, List.getElem?_drop, hback]

end LuaUtil
