import Mathlib.Data.List.Basic
import Mathlib.Data.List.Infix

/-!
# Trees of files

A file system without links: what stands at a location is a file, a directory or
something else, and only a directory has something below it. Names are removed one at
a time, directories when they are empty.
-/

namespace FileTree

variable {ν : Type}

inductive Kind where
  | file
  | directory
  /-- A device, a socket and the like. -/
  | other
  deriving DecidableEq, Repr

/-- The names that lead from the root to a place. -/
abbrev Location (ν : Type) := List ν

structure FileSystem (ν : Type) where
  kind : Location ν → Option Kind
  names : Location ν → List ν
  nodup : ∀ l, (names l).Nodup
  mem_names : ∀ l n, n ∈ names l ↔ (kind (l ++ [n])).isSome
  parent : ∀ l n, (kind (l ++ [n])).isSome → kind l = some .directory

namespace FileSystem

theorem append_ne (l : Location ν) (n : ν) : l ++ [n] ≠ l := fun h => by
  have hlen := congrArg List.length h
  simp at hlen

variable [DecidableEq ν] (fs : FileSystem ν)

def kindWithout (l m : Location ν) : Option Kind := if m = l then none else fs.kind m

def namesWithout (l m : Location ν) : List ν := (fs.names m).filter fun n => m ++ [n] ≠ l

theorem nodup_without (l m : Location ν) : (fs.namesWithout l m).Nodup :=
  (fs.nodup m).filter _

theorem mem_names_without (l m : Location ν) (n : ν) :
    n ∈ fs.namesWithout l m ↔ (fs.kindWithout l (m ++ [n])).isSome := by
  unfold namesWithout kindWithout
  by_cases h : m ++ [n] = l
  · simp [h]
  · simp [h, fs.mem_names]

theorem parent_without (l : Location ν) (hl : fs.names l = []) (m : Location ν) (n : ν)
    (h : (fs.kindWithout l (m ++ [n])).isSome) : fs.kindWithout l m = some .directory := by
  unfold kindWithout at h ⊢
  by_cases hm : m ++ [n] = l
  · simp [hm] at h
  · rw [if_neg hm] at h
    have hne : m ≠ l := by
      rintro rfl
      have hmem := (fs.mem_names m n).mpr h
      rw [hl] at hmem
      cases hmem
    rw [if_neg hne]
    exact fs.parent m n h

/-- Take away what has nothing below it. -/
def remove (l : Location ν) (hl : fs.names l = []) : FileSystem ν :=
  ⟨fs.kindWithout l, fs.namesWithout l, fs.nodup_without l, fs.mem_names_without l,
    fs.parent_without l hl⟩

/-- Remove what is there, unless it is a directory that is not empty. -/
def unlink (l : Location ν) : Option (FileSystem ν) :=
  if hl : fs.names l = [] then
    match fs.kind l with
    | some _ => some (fs.remove l hl)
    | none => none
  else none

@[simp] theorem remove_kind (l m : Location ν) (hl : fs.names l = []) :
    (fs.remove l hl).kind m = if m = l then none else fs.kind m := rfl

theorem unlink_some {fs fs' : FileSystem ν} {l : Location ν} (h : fs.unlink l = some fs') :
    ∃ hl, fs' = fs.remove l hl ∧ (fs.kind l).isSome := by
  unfold unlink at h
  split at h
  · rename_i hl
    cases hk : fs.kind l with
    | none =>
      rw [hk] at h
      cases h
    | some k =>
      rw [hk] at h
      cases h
      exact ⟨hl, rfl, rfl⟩
  · cases h

theorem unlink_empty {l : Location ν} (hl : fs.names l = []) (hk : (fs.kind l).isSome) :
    fs.unlink l = some (fs.remove l hl) := by
  obtain ⟨k, hk⟩ := Option.isSome_iff_exists.mp hk
  simp [unlink, hl, hk]

theorem names_remove_subset (l m : Location ν) (hl : fs.names l = []) {n : ν}
    (h : n ∈ (fs.remove l hl).names m) : n ∈ fs.names m ∧ m ++ [n] ≠ l := by
  simpa [remove, namesWithout] using h

/-! ### New directories -/

section Add

variable (l : Location ν) (n : ν)

def kindWith (m : Location ν) : Option Kind := if m = l ++ [n] then some .directory else fs.kind m

def namesWith (m : Location ν) : List ν := if m = l then fs.names m ++ [n] else fs.names m

theorem nodup_with (hn : fs.kind (l ++ [n]) = none) (m : Location ν) :
    (fs.namesWith l n m).Nodup := by
  unfold namesWith
  by_cases hm : m = l
  · subst hm
    have hfresh : n ∉ fs.names m := by simp [fs.mem_names, hn]
    have hne : ∀ k ∈ fs.names m, k ≠ n := fun k hk h => hfresh (h ▸ hk)
    rw [if_pos rfl, List.nodup_append]
    exact ⟨fs.nodup m, by simp, by simpa using hne⟩
  · rw [if_neg hm]
    exact fs.nodup m

theorem mem_names_with (m : Location ν) (k : ν) :
    k ∈ fs.namesWith l n m ↔ (fs.kindWith l n (m ++ [k])).isSome := by
  unfold namesWith kindWith
  by_cases hm : m = l
  · subst hm
    by_cases hk : k = n
    · simp [hk]
    · simp [hk, fs.mem_names]
  · have hne : m ++ [k] ≠ l ++ [n] := fun h => hm (List.append_inj' h rfl).1
    simp [hm, hne, fs.mem_names]

theorem parent_with (hl : fs.kind l = some .directory) (m : Location ν) (k : ν)
    (h : (fs.kindWith l n (m ++ [k])).isSome) : fs.kindWith l n m = some .directory := by
  unfold kindWith at h ⊢
  by_cases hm : m = l ++ [n]
  · simp [hm]
  · rw [if_neg hm]
    by_cases hnew : m ++ [k] = l ++ [n]
    · rw [(List.append_inj' hnew rfl).1, hl]
    · rw [if_neg hnew] at h
      exact fs.parent m k h

/-- Make a directory where nothing is. -/
def addDirectory (hl : fs.kind l = some .directory) (hn : fs.kind (l ++ [n]) = none) :
    FileSystem ν :=
  ⟨fs.kindWith l n, fs.namesWith l n, fs.nodup_with l n hn, fs.mem_names_with l n,
    fs.parent_with l n hl⟩

@[simp] theorem addDirectory_kind (hl : fs.kind l = some .directory)
    (hn : fs.kind (l ++ [n]) = none) (m : Location ν) :
    (fs.addDirectory l n hl hn).kind m = if m = l ++ [n] then some .directory else fs.kind m := rfl

end Add

end FileSystem

/-! ## A chain of directories -/

def chainKind [DecidableEq ν] (n : ν) (depth : Nat) (l : Location ν) : Option Kind :=
  if l.all (fun m => m = n) ∧ l.length ≤ depth then some .directory else none

def chainNames [DecidableEq ν] (n : ν) (depth : Nat) (l : Location ν) : List ν :=
  if l.all (fun m => m = n) ∧ l.length < depth then [n] else []

theorem chain_mem [DecidableEq ν] (n : ν) (depth : Nat) (l : Location ν) (m : ν) :
    m ∈ chainNames n depth l ↔ (chainKind n depth (l ++ [m])).isSome := by
  have hlen : (l ++ [m]).length ≤ depth ↔ l.length < depth := by
    rw [List.length_append, List.length_singleton]
    rfl
  unfold chainNames chainKind
  simp only [hlen, List.all_append]
  by_cases hl : l.all (fun m => m = n) ∧ l.length < depth
  · by_cases hm : m = n
    · simp [hl, hm]
    · simp [hm]
  · rw [if_neg hl, if_neg fun h => hl ⟨(Bool.and_eq_true_iff.mp h.1).1, h.2⟩]
    simp

theorem chain_nodup [DecidableEq ν] (n : ν) (depth : Nat) (l : Location ν) :
    (chainNames n depth l).Nodup := by
  unfold chainNames
  split <;> simp

theorem chain_parent [DecidableEq ν] (n : ν) (depth : Nat) (l : Location ν) (m : ν)
    (h : (chainKind n depth (l ++ [m])).isSome) : chainKind n depth l = some .directory := by
  have hmem := (chain_mem n depth l m).mpr h
  unfold chainNames at hmem
  split at hmem
  · rename_i hl
    rw [chainKind, if_pos ⟨hl.1, Nat.le_of_lt hl.2⟩]
  · cases hmem

/-- Directories of one name, each in the one before. -/
def chain [DecidableEq ν] (n : ν) (depth : Nat) : FileSystem ν :=
  ⟨chainKind n depth, chainNames n depth, chain_nodup n depth, chain_mem n depth,
    chain_parent n depth⟩

/-! ## Removing many -/

/-- What can be removed one after the other: things that are there, each once, with each
all that is in it, and nothing behind a directory that it is in. -/
structure Removable (fs : FileSystem ν) (ls : List (Location ν)) : Prop where
  there : ∀ l ∈ ls, (fs.kind l).isSome
  nodup : ls.Nodup
  contents : ∀ l ∈ ls, ∀ n ∈ fs.names l, l ++ [n] ∈ ls
  order : ls.Pairwise fun a b => ¬a <+: b

theorem Removable.head_empty {fs : FileSystem ν} {l : Location ν} {ls : List (Location ν)}
    (h : Removable fs (l :: ls)) : fs.names l = [] := by
  refine List.eq_nil_iff_forall_not_mem.mpr fun n hn => ?_
  have hmem : l ++ [n] ∈ ls := by
    rcases List.mem_cons.mp (h.contents l (by simp) n hn) with he | hmem
    · exact absurd he (FileSystem.append_ne l n)
    · exact hmem
  exact (List.pairwise_cons.mp h.order).1 _ hmem (List.prefix_append l [n])

theorem Removable.tail [DecidableEq ν] {fs : FileSystem ν} {l : Location ν} {ls : List (Location ν)}
    (h : Removable fs (l :: ls)) : Removable (fs.remove l h.head_empty) ls := by
  obtain ⟨hnot, hnodup⟩ := List.nodup_cons.mp h.nodup
  have hne : ∀ m ∈ ls, m ≠ l := by
    rintro m hm rfl
    exact hnot hm
  refine ⟨fun m hm => ?_, hnodup, fun m hm n hn => ?_, (List.pairwise_cons.mp h.order).2⟩
  · rw [FileSystem.remove_kind, if_neg (hne m hm)]
    exact h.there m (List.mem_cons_of_mem l hm)
  · obtain ⟨hn, hother⟩ := fs.names_remove_subset l m h.head_empty hn
    rcases List.mem_cons.mp (h.contents m (List.mem_cons_of_mem l hm) n hn) with he | hmem
    · exact absurd he hother
    · exact hmem

/-! ## Below -/

/-- The locations that are there and at or below one of these. -/
def Below (fs : FileSystem ν) (roots : List (Location ν)) (l : Location ν) : Prop :=
  (fs.kind l).isSome ∧ ∃ r ∈ roots, r <+: l

/-- Neither is in the other. -/
def Apart (a b : Location ν) : Prop := ¬a <+: b ∧ ¬b <+: a

theorem apart_children (l : Location ν) {a b : ν} (h : a ≠ b) : Apart (l ++ [a]) (l ++ [b]) := by
  have hne : ∀ c d : ν, c ≠ d → ¬l ++ [c] <+: l ++ [d] := by
    intro c d hcd hprefix
    rw [List.prefix_append_right_inj] at hprefix
    exact hcd (by simpa using hprefix)
  exact ⟨hne a b h, hne b a h.symm⟩

theorem Apart.below {a b l m : Location ν} (h : Apart a b) (hl : a <+: l) (hm : b <+: m) :
    ¬l <+: m := by
  intro hlm
  rcases List.prefix_or_prefix_of_prefix (hl.trans hlm) hm with hab | hba
  · exact h.1 hab
  · exact h.2 hba

theorem Apart.symm {a b : Location ν} (h : Apart a b) : Apart b a := ⟨h.2, h.1⟩

theorem kind_above (fs : FileSystem ν) (l t : Location ν) (h : (fs.kind (l ++ t)).isSome) :
    (fs.kind l).isSome := by
  induction t using List.reverseRecOn with
  | nil => simpa using h
  | append_singleton t n ih =>
    rw [← List.append_assoc] at h
    exact ih (by simp [fs.parent (l ++ t) n h])

/-- What is below a place is that place or below something in it. -/
theorem below_cases (fs : FileSystem ν) {l m : Location ν} (hm : (fs.kind m).isSome)
    (hl : l <+: m) : m = l ∨ ∃ n ∈ fs.names l, l ++ [n] <+: m := by
  obtain ⟨t, rfl⟩ := hl
  cases t with
  | nil => simp
  | cons n t =>
    right
    have hsplit : l ++ n :: t = l ++ [n] ++ t := by simp
    rw [hsplit] at hm ⊢
    exact ⟨n, (fs.mem_names l n).mpr (kind_above fs (l ++ [n]) t hm), List.prefix_append _ t⟩

end FileTree
