import Chdkptp.TableHeap

/-!
# Merging tables

`extend_table` copies entries of one table to another. With `deep` it merges the tables below
them, and no table of the source becomes one of the target.
-/

namespace ExtendTable

open TableHeap LuaUtil

variable {α : Type} [DecidableEq α]

/-! ## The functions -/

/-- The tables, the next one to be made, and those in `seen`. -/
structure State (α : Type) [DecidableEq α] where
  heap : Heap α
  next : Nat
  seen : List Nat

/-- `r[k]=v`. -/
def assign (h : Heap α) (r : Nat) (k v : Item α) : Heap α :=
  Function.update h r ((h r).insert k v)

theorem assign_other (h : Heap α) {r r' : Nat} (k v : Item α) (hr : r' ≠ r) :
    assign h r k v r' = h r' := Function.update_of_ne hr _ _

theorem lookup_assign (h : Heap α) (r : Nat) (k v k' : Item α) :
    (assign h r k v r).lookup k' = if k' = k then some v else (h r).lookup k' := by
  rw [assign, Function.update_self]
  by_cases hk : k' = k
  · subst hk
    simp
  · rw [AList.lookup_insert_ne hk, if_neg hk]

/-- The table at `target[k]`, which is made if there is none. -/
def subtable (st : State α) (target : Nat) (k : Item α) : Nat × State α :=
  match (st.heap target).lookup k with
  | some (.table r) => (r, st)
  | _ =>
    let heap := Function.update st.heap st.next ∅
    (st.next, { st with heap := assign heap target k (.table st.next), next := st.next + 1 })

/-- The state with a new table at `target[k]`. -/
def withSubtable (st : State α) (target : Nat) (k : Item α) : State α :=
  { st with
    heap := assign (Function.update st.heap st.next ∅) target k (.table st.next)
    next := st.next + 1 }

theorem subtable_old {st : State α} {target r : Nat} {k : Item α}
    (hr : (st.heap target).lookup k = some (.table r)) : subtable st target k = (r, st) := by
  simp only [subtable, hr]

theorem subtable_new {st : State α} {target : Nat} {k : Item α}
    (hno : ¬∃ r, (st.heap target).lookup k = some (.table r)) :
    subtable st target k = (st.next, withSubtable st target k) := by
  rw [subtable]
  split
  · exact absurd ⟨_, ‹_›⟩ hno
  · rfl

section WithSubtable

variable {st : State α} {target : Nat} (k : Item α)

theorem withSubtable_empty (hlt : target < st.next) : (withSubtable st target k).heap st.next = ∅ :=
  (assign_other _ _ _ (Nat.ne_of_gt hlt)).trans (Function.update_self _ _ _)

theorem withSubtable_other {x : Nat} (hx : x < st.next) (hne : x ≠ target) :
    (withSubtable st target k).heap x = st.heap x :=
  (assign_other _ _ _ hne).trans (Function.update_of_ne (Nat.ne_of_lt hx) _ _)

theorem withSubtable_lookup (hlt : target < st.next) (k' : Item α) : ((withSubtable st target k).heap target).lookup k' =
    if k' = k then some (.table st.next) else (st.heap target).lookup k' := by
  rw [withSubtable, lookup_assign, Function.update_of_ne (by omega)]

end WithSubtable

/-- An entry of the source in `extend_table_r`. -/
def extendEntry (merge : Nat → Nat → State α → Except String (State α)) (target : Nat)
    (st : State α) (e : Sigma fun _ : Item α => Item α) : Except String (State α) :=
  match e.2 with
  | .table v =>
    let (r, st) := subtable st target e.1
    merge r v st
  | .atom a => .ok { st with heap := assign st.heap target e.1 (.atom a) }

/-- `extend_table_r`, when so many levels are left. `pairs` visits the entries that the source
has at the start. -/
def extend_table_r : Nat → Nat → Nat → State α → Except String (State α)
  | 0, _, _, _ => .error "extend_table: max depth"
  | left + 1, target, source, st =>
    if source ∈ target :: st.seen then .error "extend_table: cycles"
    else (st.heap source).entries.foldlM (extendEntry (extend_table_r left) target)
      { st with seen := source :: target :: st.seen }

/-- `util.extend_table_max_depth`. -/
def extend_table_max_depth : Nat := 10

structure Opts (α : Type) where
  deep : Bool
  keys : Option (List (Item α))

/-- A listed key in `extend_table`. -/
def extendKey (deep : Bool) (target source : Nat) (st : State α) (k : Item α) :
    Except String (State α) :=
  match (st.heap source).lookup k, deep with
  | some (.table v), true =>
    let (r, st) := subtable st target k
    extend_table_r extend_table_max_depth r v { st with seen := [] }
  | some v, _ => .ok { st with heap := assign st.heap target k v }
  | none, _ => .ok st

/-- `util.extend_table`, which returns its target. -/
def extend_table (st : State α) (target source : Option (Item α)) (opts : Opts α) :
    Except String (State α) :=
  match target, source with
  | some (.table t), some (.table s) =>
    if s = t then .error "extend_table: source == target"
    else if opts.deep then extend_table_r extend_table_max_depth t s { st with seen := [] }
    else
      match opts.keys with
      | some keys => keys.foldlM (extendKey opts.deep t s) st
      | none =>
        .ok ((st.heap s).entries.foldl
          (fun st e => { st with heap := assign st.heap t e.1 e.2 }) st)
  | some (.table _), none => .ok st
  | some (.table _), some (.atom _) => .error "extend_table: source not table"
  | _, _ => .error "extend_table: target not table"

/-! ## What the merge is for -/

/-- What a path leads to when tables are not told apart. -/
inductive Kind (α : Type) where
  | atom (a : α)
  | table
  deriving DecidableEq

def kind : Item α → Kind α
  | .atom a => .atom a
  | .table _ => .table

/-- A table as a map, with the maps below it. -/
abbrev Map (α : Type) := Path α → Option (Kind α)

def shape (h : Heap α) (v : Option (Item α)) : Map α := fun p => (follow h v p).map kind

def below (m : Map α) (k : Item α) : Map α := fun p => m (k :: p)

def emptyMap : Map α := fun p => if p = [] then some .table else none

/-- A map merged into another: a map of the source into the one at the same key, or into a
new one; another value of the source replaces what is there. -/
def merge (target source : Map α) : Map α
  | [] => target []
  | k :: p =>
    match source [k] with
    | none => target (k :: p)
    | some (.atom a) => if p = [] then some (.atom a) else none
    | some .table =>
      merge (if target [k] = some .table then below target k else emptyMap) (below source k) p

section Merge

variable {target source : Map α} {k : Item α}

theorem merge_none (hk : source [k] = none) (p : Path α) :
    merge target source (k :: p) = target (k :: p) := by
  simp only [merge, hk]

theorem merge_atom {a : α} (hk : source [k] = some (.atom a)) (p : Path α) :
    merge target source (k :: p) = if p = [] then some (.atom a) else none := by
  simp only [merge, hk]

theorem merge_table (hk : source [k] = some .table) (p : Path α) :
    merge target source (k :: p) =
      merge (if target [k] = some .table then below target k else emptyMap) (below source k) p := by
  simp only [merge, hk]

end Merge

theorem below_shape (h : Heap α) (v : Option (Item α)) (k : Item α) :
    below (shape h v) k = shape h (field h v k) := rfl

/-! ## The tables that a merge changes -/

/-- At the path the target has this table and the source has one too. -/
def Site (h : Heap α) (t s : Nat) (p : Path α) (r : Nat) : Prop :=
  follow h (some (.table t)) p = some (.table r) ∧
    ∃ v, follow h (some (.table s)) p = some (.table v)

/-- The source is a tree of at most so many levels of tables, target and source have no table
in common, and a table of the target into which one of the source is merged is at one place
only. -/
structure Separate (h : Heap α) (n left t s : Nat) : Prop where
  target_lt : ∀ p r, follow h (some (.table t)) p = some (.table r) → r < n
  source_lt : ∀ p r, follow h (some (.table s)) p = some (.table r) → r < n
  levels : ∀ p r, follow h (some (.table s)) p = some (.table r) → p.length < left
  unshared : Unshared h (some (.table s))
  apart : ∀ p q r, follow h (some (.table t)) p = some (.table r) →
    follow h (some (.table s)) q ≠ some (.table r)
  single : ∀ p q r, Site h t s p r → follow h (some (.table t)) q = some (.table r) → p = q

variable {h : Heap α} {n left t s : Nat} {st : State α}

/-- The target itself is not met below it. -/
theorem Separate.target_top (hsep : Separate h n left t s) (k : Item α) (p : Path α) :
    follow h (some (.table t)) (k :: p) ≠ some (.table t) :=
  fun hp => absurd (hsep.single [] (k :: p) t ⟨rfl, s, rfl⟩ hp) (List.cons_ne_nil k p).symm

/-- What holds when these keys have been copied. -/
structure Copied (h : Heap α) (n t s : Nat) (seen : List Nat) (done : List (Item α))
    (st : State α) : Prop where
  next_le : n ≤ st.next
  frame : ∀ r, r < n → r ≠ t → (∀ k ∈ done, ∀ p, ¬Site h t s (k :: p) r) → st.heap r = h r
  lookup : ∀ k, k ∉ done → (st.heap t).lookup k = (h t).lookup k
  seen : ∀ r ∈ st.seen, r ∈ seen ∨ (∃ p, Site h t s p r) ∨ r = s ∨
    (∃ k ∈ done, ∃ p, follow h (some (.table s)) (k :: p) = some (.table r)) ∨ n ≤ r
  result : ∀ k ∈ done, ∀ p, shape st.heap (some (.table t)) (k :: p) =
    merge (shape h (some (.table t))) (shape h (some (.table s))) (k :: p)
  reach : ∀ k ∈ done, ∀ p r, follow st.heap (some (.table t)) (k :: p) = some (.table r) →
    (∃ q, follow h (some (.table t)) (k :: q) = some (.table r)) ∨ n ≤ r ∧ r < st.next

/-- What a merge does. -/
structure Merged (h : Heap α) (n t s : Nat) (seen : List Nat) (st : State α) : Prop where
  next_le : n ≤ st.next
  frame : ∀ r, r < n → (∀ p, ¬Site h t s p r) → st.heap r = h r
  seen : ∀ r ∈ st.seen, r ∈ seen ∨ (∃ p, Site h t s p r) ∨
    (∃ p, follow h (some (.table s)) p = some (.table r)) ∨ n ≤ r
  result : shape st.heap (some (.table t)) =
    merge (shape h (some (.table t))) (shape h (some (.table s)))
  reach : ∀ p r, follow st.heap (some (.table t)) p = some (.table r) →
    (∃ q, follow h (some (.table t)) q = some (.table r)) ∨ n ≤ r ∧ r < st.next

section Loop

variable {seen : List Nat} {done : List (Item α)}

/-- The tables of the source are as they were. -/
theorem Copied.source (hc : Copied h n t s seen done st) (hsep : Separate h n left t s)
    (k : Item α) (p : Path α) :
    follow st.heap (field h (some (.table s)) k) p = follow h (some (.table s)) (k :: p) := by
  apply follow_congr
  intro q r hq
  have hq' : follow h (some (.table s)) (k :: q) = some (.table r) := hq
  apply hc.frame r (hsep.source_lt _ _ hq')
  · rintro rfl
    exact hsep.apart [] (k :: q) r rfl hq'
  · rintro k' - p' ⟨hp', -⟩
    exact hsep.apart _ _ r hp' hq'

/-- Below a key that has not been copied the target is as it was. -/
theorem Copied.target (hc : Copied h n t s seen done st) (hsep : Separate h n left t s)
    {k : Item α} (hk : k ∉ done) (p : Path α) :
    follow st.heap (field h (some (.table t)) k) p = follow h (some (.table t)) (k :: p) := by
  apply follow_congr
  intro q r hq
  have hq' : follow h (some (.table t)) (k :: q) = some (.table r) := hq
  apply hc.frame r (hsep.target_lt _ _ hq')
  · rintro rfl
    exact hsep.target_top k q hq'
  · rintro k' hk' p' hsite
    have heq := hsep.single _ _ r hsite hq'
    exact hk ((List.cons.inj heq).1 ▸ hk')

/-- A table that is met below a copied key is not one that a later step changes. -/
theorem Copied.not_site (hc : Copied h n t s seen done st) (hsep : Separate h n left t s)
    {k : Item α} (hk : k ∈ done) {p : Path α} {r : Nat}
    (hr : follow st.heap (some (.table t)) (k :: p) = some (.table r)) :
    r ≠ t ∧ r < st.next ∧ ∀ k', k' ∉ done → ∀ p', ¬Site h t s (k' :: p') r := by
  have hnext := hc.next_le
  obtain ⟨q, hq⟩ | ⟨hfresh, hlt⟩ := hc.reach k hk p r hr
  · have hold := hsep.target_lt _ _ hq
    refine ⟨?_, by omega, ?_⟩
    · rintro rfl
      exact hsep.target_top k q hq
    · rintro k' hk' p' hsite
      have heq := hsep.single _ _ r hsite hq
      exact hk' ((List.cons.inj heq).1.symm ▸ hk)
  · have htop := hsep.target_lt [] t rfl
    refine ⟨by omega, hlt, ?_⟩
    rintro k' - p' ⟨hsite, -⟩
    have hold := hsep.target_lt _ _ hsite
    omega

/-- A step that copies one more key and changes nothing else. -/
theorem Copied.snoc (hc : Copied h n t s seen done st) (hsep : Separate h n left t s) {st' : State α}
    {k : Item α} (hk : k ∉ done) (hnext : st.next ≤ st'.next)
    (htop : ∀ k', k' ≠ k → (st'.heap t).lookup k' = (st.heap t).lookup k')
    (hframe : ∀ r, r < st.next → r ≠ t → (∀ p, ¬Site h t s (k :: p) r) → st'.heap r = st.heap r)
    (hseen : ∀ r ∈ st'.seen, r ∈ st.seen ∨ (∃ p, Site h t s p r) ∨
      (∃ p, follow h (some (.table s)) (k :: p) = some (.table r)) ∨ n ≤ r)
    (hshape : ∀ p, shape st'.heap (some (.table t)) (k :: p) =
      merge (shape h (some (.table t))) (shape h (some (.table s))) (k :: p))
    (hreach : ∀ p r, follow st'.heap (some (.table t)) (k :: p) = some (.table r) →
      (∃ q, follow h (some (.table t)) (k :: q) = some (.table r)) ∨ n ≤ r ∧ r < st'.next) :
    Copied h n t s seen (k :: done) st' := by
  have hnext' := hc.next_le
  have hkeep : ∀ k' ∈ done, ∀ p, follow st'.heap (some (.table t)) (k' :: p) =
      follow st.heap (some (.table t)) (k' :: p) := by
    intro k' hk' p
    have hne : k' ≠ k := by
      rintro rfl
      exact hk hk'
    rw [follow_cons, follow_cons, field_table, field_table, htop k' hne]
    apply follow_congr
    intro q r hq
    obtain ⟨hrt, hlt, hsite⟩ := hc.not_site hsep hk' (p := q) hq
    exact hframe r hlt hrt (hsite k hk)
  refine ⟨by omega, ?_, ?_, ?_, ?_, ?_⟩
  · intro r hr hrt hnot
    rw [hframe r (by omega) hrt (hnot k List.mem_cons_self)]
    exact hc.frame r hr hrt fun k' hk' => hnot k' (List.mem_cons_of_mem k hk')
  · intro k' hk'
    obtain ⟨hne, hnot⟩ := not_or.mp (List.mem_cons.not.mp hk')
    rw [htop k' hne, hc.lookup k' hnot]
  · intro r hr
    obtain hold | hsite | ⟨p, hp⟩ | hfresh := hseen r hr
    · obtain h1 | h2 | h3 | ⟨k', hk', hp⟩ | h5 := hc.seen r hold
      · exact Or.inl h1
      · exact Or.inr (Or.inl h2)
      · exact Or.inr (Or.inr (Or.inl h3))
      · exact Or.inr (Or.inr (Or.inr (Or.inl ⟨k', List.mem_cons_of_mem k hk', hp⟩)))
      · exact Or.inr (Or.inr (Or.inr (Or.inr h5)))
    · exact Or.inr (Or.inl hsite)
    · exact Or.inr (Or.inr (Or.inr (Or.inl ⟨k, List.mem_cons_self, p, hp⟩)))
    · exact Or.inr (Or.inr (Or.inr (Or.inr hfresh)))
  · intro k' hk' p
    obtain rfl | hold := List.mem_cons.mp hk'
    · exact hshape p
    · rw [← hc.result k' hold p, shape, shape, hkeep k' hold p]
  · intro k' hk' p r hr
    obtain rfl | hold := List.mem_cons.mp hk'
    · exact hreach p r hr
    · rw [hkeep k' hold p] at hr
      exact (hc.reach k' hold p r hr).imp_right fun hfresh => ⟨hfresh.1, by omega⟩

/-- All keys of the source have been copied. -/
theorem Copied.merged (hc : Copied h n t s seen done st) (hsep : Separate h n left t s)
    (hall : ∀ k, k ∉ done → (h s).lookup k = none) : Merged h n t s seen st := by
  have hrest : ∀ k, k ∉ done → ∀ p, follow st.heap (some (.table t)) (k :: p) =
      follow h (some (.table t)) (k :: p) := by
    intro k hk p
    rw [follow_cons, field_table, hc.lookup k hk]
    exact hc.target hsep hk p
  refine ⟨hc.next_le, ?_, ?_, ?_, ?_⟩
  · intro r hr hnot
    apply hc.frame r hr
    · rintro rfl
      exact hnot [] ⟨rfl, s, rfl⟩
    · exact fun k _ p => hnot (k :: p)
  · intro r hr
    obtain h1 | h2 | rfl | ⟨k, -, p, hp⟩ | h5 := hc.seen r hr
    · exact Or.inl h1
    · exact Or.inr (Or.inl h2)
    · exact Or.inr (Or.inr (Or.inl ⟨[], rfl⟩))
    · exact Or.inr (Or.inr (Or.inl ⟨k :: p, hp⟩))
    · exact Or.inr (Or.inr (Or.inr h5))
  · funext p
    cases p with
    | nil => rfl
    | cons k p =>
      by_cases hk : k ∈ done
      · exact hc.result k hk p
      · have hnone : shape h (some (.table s)) [k] = none := by
          simp [shape, hall k hk]
        rw [merge_none hnone, shape, hrest k hk p]
        rfl
  · intro p r hr
    cases p with
    | nil => exact Or.inl ⟨[], hr⟩
    | cons k p =>
      by_cases hk : k ∈ done
      · exact (hc.reach k hk p r hr).imp_left fun ⟨q, hq⟩ => ⟨k :: q, hq⟩
      · exact Or.inl ⟨k :: p, hrest k hk p ▸ hr⟩

/-- An entry of the source that is not a table. -/
theorem Copied.atom (hc : Copied h n t s seen done st) (hsep : Separate h n left t s)
    {k : Item α} (hk : k ∉ done) {a : α} (ha : (h s).lookup k = some (.atom a)) :
    Copied h n t s seen (k :: done) { st with heap := assign st.heap t k (.atom a) } := by
  have hfollow : ∀ p, follow (assign st.heap t k (.atom a)) (some (.table t)) (k :: p) =
      if p = [] then some (.atom a) else none := by
    intro p
    rw [follow_cons, field_table, lookup_assign, if_pos rfl]
    cases p with
    | nil => rfl
    | cons k' p => exact follow_none p
  apply hc.snoc hsep hk
  · exact Nat.le_refl st.next
  · intro k' hne
    rw [lookup_assign, if_neg hne]
  · exact fun r _ hrt _ => assign_other st.heap k (.atom a) hrt
  · exact fun r hr => Or.inl hr
  · intro p
    have hatom : shape h (some (.table s)) [k] = some (.atom a) := by
      simp [shape, ha, kind]
    rw [shape, hfollow, merge_atom hatom]
    by_cases hp : p = []
    · simp [hp, kind]
    · simp [hp]
  · intro p r hr
    rw [hfollow] at hr
    split at hr <;> cases hr

/-- A subtable has been merged into one that the target has at the same key by now. -/
theorem Copied.table (hc : Copied h n t s seen done st) (hsep : Separate h n left t s)
    {k : Item α} (hk : k ∉ done) {r v : Nat} (hv : (h s).lookup k = some (.table v))
    {st1 st' : State α} (hm : Merged st1.heap st1.next r v st.seen st')
    (hr : (st1.heap t).lookup k = some (.table r)) (hnext : st.next ≤ st1.next)
    (hothers : ∀ k', k' ≠ k → (st1.heap t).lookup k' = (st.heap t).lookup k')
    (hframe : ∀ x, x < st.next → x ≠ t → st1.heap x = st.heap x)
    (hsource : ∀ p, follow st1.heap (some (.table v)) p = follow h (some (.table s)) (k :: p))
    (hsite : ∀ p x, Site st1.heap r v p x → Site h t s (k :: p) x ∨ st.next ≤ x)
    (hmap : shape st1.heap (some (.table r)) =
      if shape h (some (.table t)) [k] = some .table then below (shape h (some (.table t))) k
      else emptyMap)
    (hreach : ∀ p x, follow st1.heap (some (.table r)) p = some (.table x) →
      (∃ q, follow h (some (.table t)) (k :: q) = some (.table x)) ∨ n ≤ x ∧ x < st1.next) :
    Copied h n t s seen (k :: done) st' := by
  have hnext' := hc.next_le
  have hnext'' := hm.next_le
  have ht : t < n := hsep.target_lt [] t rfl
  have htop : st'.heap t = st1.heap t := by
    apply hm.frame t (by omega)
    intro p hp
    obtain hp' | hfresh := hsite p t hp
    · exact hsep.target_top k p hp'.1
    · omega
  have hfollow : ∀ p, follow st'.heap (some (.table t)) (k :: p) =
      follow st'.heap (some (.table r)) p := by
    intro p
    rw [follow_cons, field_table, htop, hr]
  apply hc.snoc hsep hk (by omega)
  · intro k' hne
    rw [htop, hothers k' hne]
  · intro x hx hxt hnot
    rw [← hframe x hx hxt]
    apply hm.frame x (by omega)
    intro p hp
    obtain hp' | hfresh := hsite p x hp
    · exact hnot p hp'
    · omega
  · intro x hx
    obtain hold | ⟨p, hp⟩ | ⟨p, hp⟩ | hfresh := hm.seen x hx
    · exact Or.inl hold
    · obtain hp' | hfresh := hsite p x hp
      · exact Or.inr (Or.inl ⟨k :: p, hp'⟩)
      · exact Or.inr (Or.inr (Or.inr (by omega)))
    · exact Or.inr (Or.inr (Or.inl ⟨p, hsource p ▸ hp⟩))
    · exact Or.inr (Or.inr (Or.inr (by omega)))
  · intro p
    have htable : shape h (some (.table s)) [k] = some .table := by
      simp [shape, hv, kind]
    have hbelow : shape st1.heap (some (.table v)) = below (shape h (some (.table s))) k := by
      funext q
      rw [shape, hsource q]
      rfl
    rw [shape, hfollow, ← shape, hm.result, hmap, hbelow, merge_table htable]
  · intro p x hx
    rw [hfollow] at hx
    obtain ⟨q, hq⟩ | hfresh := hm.reach p x hx
    · exact (hreach q x hq).imp_right fun hx => ⟨hx.1, by omega⟩
    · exact Or.inr ⟨by omega, hfresh.2⟩

end Loop

/-! ## Merging -/

/-- The entry of the source that is copied next. -/
theorem Separate.child (hsep : Separate h n (left + 1) t s) {g : Heap α} {m r v : Nat}
    {k : Item α} (hm : n ≤ m)
    (htarget : ∀ p, follow g (some (.table r)) p = follow h (some (.table t)) (k :: p))
    (hsource : ∀ p, follow g (some (.table v)) p = follow h (some (.table s)) (k :: p)) :
    Separate g m left r v := by
  refine ⟨?_, ?_, ?_, ?_, ?_, ?_⟩
  · intro p x hx
    have hlt := hsep.target_lt _ _ (htarget p ▸ hx)
    omega
  · intro p x hx
    have hlt := hsep.source_lt _ _ (hsource p ▸ hx)
    omega
  · intro p x hx
    exact Nat.lt_of_succ_lt_succ (hsep.levels (k :: p) x (hsource p ▸ hx))
  · intro p q x hp hq
    exact (List.cons.inj (hsep.unshared (k :: p) (k :: q) x (hsource p ▸ hp) (hsource q ▸ hq))).2
  · intro p q x hp hq
    exact hsep.apart (k :: p) (k :: q) x (htarget p ▸ hp) (hsource q ▸ hq)
  · rintro p q x ⟨hp, w, hw⟩ hq
    have hsite : Site h t s (k :: p) x := ⟨htarget p ▸ hp, w, hsource p ▸ hw⟩
    exact (List.cons.inj (hsep.single (k :: p) (k :: q) x hsite (htarget q ▸ hq))).2

/-- Below a new table there is nothing. -/
theorem follow_empty {g : Heap α} {m : Nat} (hempty : g m = ∅) {p : Path α} {x : Item α}
    (hp : follow g (some (.table m)) p = some x) : p = [] ∧ x = .table m := by
  cases p with
  | nil => exact ⟨rfl, (Option.some.inj hp).symm⟩
  | cons k p =>
    rw [follow_cons, field_table, hempty, AList.lookup_empty, follow_none] at hp
    cases hp

theorem Separate.fresh (hsep : Separate h n (left + 1) t s) {g : Heap α} {m v : Nat}
    {k : Item α} (hm : n ≤ m) (hempty : g m = ∅)
    (hsource : ∀ p, follow g (some (.table v)) p = follow h (some (.table s)) (k :: p)) :
    Separate g (m + 1) left m v := by
  refine ⟨?_, ?_, ?_, ?_, ?_, ?_⟩
  · intro p x hx
    have heq := Item.table.inj (follow_empty hempty hx).2
    omega
  · intro p x hx
    have hlt := hsep.source_lt _ _ (hsource p ▸ hx)
    omega
  · intro p x hx
    exact Nat.lt_of_succ_lt_succ (hsep.levels (k :: p) x (hsource p ▸ hx))
  · intro p q x hp hq
    exact (List.cons.inj (hsep.unshared (k :: p) (k :: q) x (hsource p ▸ hp) (hsource q ▸ hq))).2
  · intro p q x hp hq
    have heq := Item.table.inj (follow_empty hempty hp).2
    have hlt := hsep.source_lt _ _ (hsource q ▸ hq)
    omega
  · rintro p q x ⟨hp, -⟩ hq
    rw [(follow_empty hempty hp).1, (follow_empty hempty hq).1]

theorem shape_empty {g : Heap α} {m : Nat} (hempty : g m = ∅) :
    shape g (some (.table m)) = emptyMap := by
  funext p
  cases p with
  | nil => rfl
  | cons k p =>
    rw [shape, follow_cons, field_table, hempty, AList.lookup_empty, follow_none]
    rfl

theorem shape_table {g : Heap α} {v : Option (Item α)} {p : Path α}
    (hp : shape g v p = some .table) : ∃ r, follow g v p = some (.table r) := by
  obtain ⟨x, hx, hkind⟩ := Option.map_eq_some_iff.mp hp
  cases x with
  | atom a => cases hkind
  | table r => exact ⟨r, hx⟩

/-- The call makes the merge. -/
def Merges (run : State α → Except String (State α)) (st : State α) (t s : Nat) : Prop :=
  ∃ st', run st = .ok st' ∧ Merged st.heap st.next t s st.seen st'

/-- No table of the source has been seen. -/
def Unseen (st : State α) (s : Nat) : Prop :=
  ∀ p r, follow st.heap (some (.table s)) p = some (.table r) → r ∉ st.seen

section Step

variable {seen : List Nat} {done : List (Item α)} {merge : Nat → Nat → State α →
  Except String (State α)}

theorem Copied.unseen (hc : Copied h n t s seen done st) (hsep : Separate h n left t s)
    (hseen : ∀ p r, follow h (some (.table s)) p = some (.table r) → r ∉ seen) {k : Item α}
    (hk : k ∉ done) {p : Path α} {r : Nat}
    (hr : follow h (some (.table s)) (k :: p) = some (.table r)) : r ∉ st.seen := by
  intro hmem
  obtain hold | ⟨q, hq, -⟩ | rfl | ⟨k', hk', q, hq⟩ | hfresh := hc.seen r hmem
  · exact hseen _ _ hr hold
  · exact hsep.apart _ _ _ hq hr
  · exact absurd (hsep.unshared (k :: p) [] r hr rfl) (List.cons_ne_nil k p)
  · have heq := hsep.unshared _ _ _ hq hr
    exact hk ((List.cons.inj heq).1 ▸ hk')
  · have hlt := hsep.source_lt _ _ hr
    omega

/-- An entry of the source that is a table. -/
theorem extendEntry_table (hc : Copied h n t s seen done st) (hsep : Separate h n (left + 1) t s)
    (hseen : ∀ p r, follow h (some (.table s)) p = some (.table r) → r ∉ seen)
    (hmerge : ∀ r v st, Separate st.heap st.next left r v → Unseen st v →
      Merges (merge r v) st r v)
    {k : Item α} (hk : k ∉ done) {v : Nat} (hv : (h s).lookup k = some (.table v)) :
    ∃ st', extendEntry merge t st ⟨k, .table v⟩ = .ok st' ∧ Copied h n t s seen (k :: done) st' := by
  have hnext := hc.next_le
  have hsource : ∀ p, follow st.heap (some (.table v)) p = follow h (some (.table s)) (k :: p) := by
    intro p
    rw [← hc.source hsep k p, field_table, hv]
  have hunseen : Unseen st v := fun p r hr => hc.unseen hsep hseen hk (hsource p ▸ hr)
  by_cases hold : ∃ r, (st.heap t).lookup k = some (.table r)
  · obtain ⟨r, hr⟩ := hold
    have htarget : ∀ p, follow st.heap (some (.table r)) p =
        follow h (some (.table t)) (k :: p) := by
      intro p
      rw [← hc.target hsep hk p, field_table, ← hc.lookup k hk, hr]
    obtain ⟨st', hrun, hm⟩ := hmerge r v st (hsep.child hnext htarget hsource) hunseen
    use st'
    constructor
    · simp only [extendEntry, subtable_old hr]
      exact hrun
    · apply hc.table hsep hk hv hm hr (Nat.le_refl _) (fun _ _ => rfl) (fun _ _ _ => rfl) hsource
      · rintro p x ⟨hp, w, hw⟩
        exact Or.inl ⟨htarget p ▸ hp, w, hsource p ▸ hw⟩
      · have htable : shape h (some (.table t)) [k] = some .table := by
          rw [shape, ← htarget []]
          rfl
        rw [if_pos htable]
        funext p
        rw [shape, htarget p]
        rfl
      · intro p x hx
        exact Or.inl ⟨p, htarget p ▸ hx⟩
  · have ht : t < st.next := Nat.lt_of_lt_of_le (hsep.target_lt [] t rfl) hnext
    have hempty := withSubtable_empty k ht
    have hsource' : ∀ p, follow (withSubtable st t k).heap (some (.table v)) p =
        follow h (some (.table s)) (k :: p) := by
      intro p
      rw [← hsource p]
      apply follow_congr
      intro q x hx
      have hx' := hsource q ▸ hx
      apply withSubtable_other k (Nat.lt_of_lt_of_le (hsep.source_lt _ _ hx') hnext)
      rintro rfl
      exact hsep.apart [] _ _ rfl hx'
    have hunseen' : Unseen (withSubtable st t k) v := by
      intro p r hr
      exact hc.unseen hsep hseen hk (hsource' p ▸ hr)
    obtain ⟨st', hrun, hm⟩ := hmerge st.next v (withSubtable st t k)
      (hsep.fresh hnext hempty hsource') hunseen'
    use st'
    constructor
    · simp only [extendEntry, subtable_new hold]
      exact hrun
    · apply hc.table hsep hk hv hm
      · rw [withSubtable_lookup k ht, if_pos rfl]
      · exact Nat.le_succ st.next
      · intro k' hne
        rw [withSubtable_lookup k ht, if_neg hne]
      · exact fun x hx hne => withSubtable_other k hx hne
      · exact hsource'
      · rintro p x ⟨hp, -⟩
        have heq := Item.table.inj (follow_empty hempty hp).2
        exact Or.inr (Nat.le_of_eq heq.symm)
      · have hno : shape h (some (.table t)) [k] ≠ some .table := by
          intro htable
          obtain ⟨r, hr⟩ := shape_table htable
          exact hold ⟨r, (hc.lookup k hk).trans hr⟩
        rw [if_neg hno, shape_empty hempty]
      · intro p x hx
        have heq := Item.table.inj (follow_empty hempty hx).2
        exact Or.inr ⟨by omega, by rw [heq]; exact Nat.lt_succ_self st.next⟩

/-- The loop over the entries of the source. -/
theorem foldlM_copied (hsep : Separate h n (left + 1) t s)
    (hseen : ∀ p r, follow h (some (.table s)) p = some (.table r) → r ∉ seen)
    (hmerge : ∀ r v st, Separate st.heap st.next left r v → Unseen st v →
      Merges (merge r v) st r v)
    (l : List (Sigma fun _ : Item α => Item α)) (hkeys : l.NodupKeys)
    (hl : ∀ e ∈ l, (h s).lookup e.1 = some e.2) (hfresh : ∀ e ∈ l, e.1 ∉ done)
    (hc : Copied h n t s seen done st) :
    ∃ st', l.foldlM (extendEntry merge t) st = .ok st' ∧
      ∃ done', Copied h n t s seen done' st' ∧ (∀ k ∈ done, k ∈ done') ∧ ∀ e ∈ l, e.1 ∈ done' := by
  induction l generalizing st done with
  | nil => exact ⟨st, rfl, done, hc, fun k hk => hk, by simp⟩
  | cons e l ih =>
    obtain ⟨hnot, hrest⟩ := List.nodupKeys_cons.mp hkeys
    have hk := hfresh e List.mem_cons_self
    have hv := hl e List.mem_cons_self
    have hstep : ∃ st', extendEntry merge t st e = .ok st' ∧
        Copied h n t s seen (e.1 :: done) st' := by
      obtain ⟨k, x⟩ := e
      cases x with
      | atom a => exact ⟨_, rfl, hc.atom hsep hk hv⟩
      | table v => exact extendEntry_table hc hsep hseen hmerge hk hv
    obtain ⟨st', hrun, hc'⟩ := hstep
    have hfresh' : ∀ e' ∈ l, e'.1 ∉ e.1 :: done := by
      intro e' he' hmem
      obtain heq | hold := List.mem_cons.mp hmem
      · exact hnot (heq ▸ List.mem_map_of_mem he')
      · exact hfresh e' (List.mem_cons_of_mem e he') hold
    obtain ⟨st'', hrun', done', hc'', hsub, hin⟩ := ih hrest
      (fun e' he' => hl e' (List.mem_cons_of_mem e he')) hfresh' hc'
    refine ⟨st'', ?_, done', hc'', fun k hk => hsub k (List.mem_cons_of_mem e.1 hk), ?_⟩
    · rw [List.foldlM_cons, hrun]
      exact hrun'
    · intro e' he'
      obtain rfl | hold := List.mem_cons.mp he'
      · exact hsub e'.1 List.mem_cons_self
      · exact hin e' hold

end Step

/-- What `extend_table_r` does with a source of which nothing has been seen. -/
theorem extend_table_r_merges (left t s : Nat) (st : State α)
    (hsep : Separate st.heap st.next left t s) (hseen : Unseen st s) :
    Merges (extend_table_r left t s) st t s := by
  induction left generalizing t s st with
  | zero => exact absurd (hsep.levels [] s rfl) (Nat.not_lt_zero _)
  | succ left ih =>
    have hne : s ∉ t :: st.seen := by
      intro hmem
      obtain rfl | hold := List.mem_cons.mp hmem
      · exact hsep.apart [] [] s rfl rfl
      · exact hseen [] s rfl hold
    have hstart : Copied st.heap st.next t s st.seen [] { st with seen := s :: t :: st.seen } := by
      refine ⟨Nat.le_refl _, fun _ _ _ _ => rfl, fun _ _ => rfl, ?_, by simp, by simp⟩
      intro r hr
      obtain rfl | hr := List.mem_cons.mp hr
      · exact Or.inr (Or.inr (Or.inl rfl))
      · obtain rfl | hold := List.mem_cons.mp hr
        · exact Or.inr (Or.inl ⟨[], rfl, s, rfl⟩)
        · exact Or.inl hold
    have hentry : ∀ e ∈ (st.heap s).entries, (st.heap s).lookup e.1 = some e.2 :=
      fun e he => AList.mem_lookup_iff.mpr he
    obtain ⟨st', hrun, done, hc, -, hin⟩ := foldlM_copied hsep hseen
      (fun r v st => ih r v st) (st.heap s).entries (st.heap s).nodupKeys hentry (by simp) hstart
    refine ⟨st', ?_, hc.merged hsep ?_⟩
    · rw [extend_table_r, if_neg hne, hrun]
    · intro k hk
      by_contra hsome
      obtain ⟨v, hv⟩ := Option.ne_none_iff_exists'.mp hsome
      exact hk (hin ⟨k, v⟩ (AList.mem_lookup_iff.mp hv))

/-! ## Keys -/

/-- With `deep`, the target becomes the merged map and has no table of the source. -/
def MergesDeep (st : State α) (t s : Nat) : Prop :=
  ∃ st', extend_table st (some (.table t)) (some (.table s)) ⟨true, none⟩ = .ok st' ∧
    shape st'.heap (some (.table t)) =
      merge (shape st.heap (some (.table t))) (shape st.heap (some (.table s))) ∧
    ∀ p q r, follow st'.heap (some (.table t)) p = some (.table r) →
      follow st'.heap (some (.table s)) q ≠ some (.table r)

/-- With these keys, nothing changes at others. -/
def OnlyKeys (st : State α) (t s : Nat) (deep : Bool) (keys : List (Item α)) : Prop :=
  ∃ st', extend_table st (some (.table t)) (some (.table s)) ⟨deep, some keys⟩ = .ok st' ∧
    ∀ k, k ∉ keys → ∀ p, shape st'.heap (some (.table t)) (k :: p) =
      shape st.heap (some (.table t)) (k :: p)

theorem Separate.ne (hsep : Separate h n left t s) : s ≠ t :=
  fun heq => hsep.apart [] [] t rfl (congrArg (some ∘ Item.table) heq)

theorem extend_table_deep (hsep : Separate st.heap st.next 10 t s) (keys : Option (List (Item α))) :
    ∃ st', extend_table st (some (.table t)) (some (.table s)) ⟨true, keys⟩ = .ok st' ∧
      Merged st.heap st.next t s [] st' := by
  obtain ⟨st', hrun, hm⟩ := extend_table_r_merges 10 t s { st with seen := [] } hsep
    (fun p r _ => List.not_mem_nil)
  refine ⟨st', ?_, hm⟩
  simp only [extend_table, if_neg hsep.ne, if_true]
  exact hrun

/-- A merge leaves the source as it is. -/
theorem Merged.source {seen : List Nat} (hm : Merged h n t s seen st)
    (hsep : Separate h n left t s) (p : Path α) :
    follow st.heap (some (.table s)) p = follow h (some (.table s)) p := by
  apply follow_congr
  intro q r hq
  apply hm.frame r (hsep.source_lt _ _ hq)
  rintro p' ⟨hp', -⟩
  exact hsep.apart _ _ _ hp' hq

theorem mergesDeep (hsep : Separate st.heap st.next 10 t s) : MergesDeep st t s := by
  obtain ⟨st', hrun, hm⟩ := extend_table_deep hsep none
  refine ⟨st', hrun, hm.result, ?_⟩
  intro p q r hp hq
  rw [hm.source hsep] at hq
  obtain ⟨p', hp'⟩ | ⟨hfresh, -⟩ := hm.reach p r hp
  · exact hsep.apart _ _ _ hp' hq
  · have hlt := hsep.source_lt _ _ hq
    omega

/-- Assigning to listed keys of the target. -/
theorem foldlM_extendKey (t s : Nat) (keys : List (Item α)) (st : State α) :
    ∃ st', keys.foldlM (extendKey false t s) st = .ok st' ∧ (∀ r, r ≠ t → st'.heap r = st.heap r) ∧
      ∀ k, k ∉ keys → (st'.heap t).lookup k = (st.heap t).lookup k := by
  induction keys generalizing st with
  | nil => exact ⟨st, rfl, fun _ _ => rfl, fun _ _ => rfl⟩
  | cons k keys ih =>
    have hstep : ∃ st', extendKey false t s st k = .ok st' ∧
        (∀ r, r ≠ t → st'.heap r = st.heap r) ∧
        ∀ k', k' ≠ k → (st'.heap t).lookup k' = (st.heap t).lookup k' := by
      cases hv : (st.heap s).lookup k with
      | none => exact ⟨st, by simp only [extendKey, hv], fun _ _ => rfl, fun _ _ => rfl⟩
      | some v =>
        refine ⟨{ st with heap := assign st.heap t k v }, by simp only [extendKey, hv], ?_, ?_⟩
        · exact fun r hr => assign_other st.heap k v hr
        · intro k' hne
          rw [lookup_assign, if_neg hne]
    obtain ⟨st', hrun, hframe, hlookup⟩ := hstep
    obtain ⟨st'', hrun', hframe', hlookup'⟩ := ih st'
    refine ⟨st'', ?_, ?_, ?_⟩
    · rw [List.foldlM_cons, hrun]
      exact hrun'
    · exact fun r hr => (hframe' r hr).trans (hframe r hr)
    · intro k' hk'
      obtain ⟨hne, hnot⟩ := not_or.mp (List.mem_cons.not.mp hk')
      exact (hlookup' k' hnot).trans (hlookup k' hne)

theorem onlyKeys_flat (hsep : Separate st.heap st.next 10 t s) (keys : List (Item α)) :
    OnlyKeys st t s false keys := by
  obtain ⟨st', hrun, hframe, hlookup⟩ := foldlM_extendKey t s keys st
  refine ⟨st', ?_, ?_⟩
  · rw [extend_table, if_neg hsep.ne]
    exact hrun
  · intro k hk p
    have hbelow : follow st'.heap (field st.heap (some (.table t)) k) p =
        follow st.heap (field st.heap (some (.table t)) k) p := by
      apply follow_congr
      intro q r hq
      apply hframe r
      rintro rfl
      exact hsep.target_top k q hq
    rw [shape, shape, follow_cons, follow_cons, field_table, hlookup k hk]
    exact congrArg (Option.map kind) hbelow

theorem shape_atom {v : Option (Item α)} {k : Item α} {a : α} (hk : shape h v [k] = some (.atom a))
    (p : Path α) : shape h v (k :: p) = if p = [] then some (.atom a) else none := by
  obtain ⟨x, hx, hkind⟩ := Option.map_eq_some_iff.mp hk
  have hx' : field h v k = some x := hx
  cases x with
  | table r => cases hkind
  | atom b =>
    rw [shape, follow_cons, hx']
    cases p with
    | nil => exact congrArg some hkind
    | cons k' p =>
      rw [follow_cons, field_atom, follow_none]
      rfl

/-- There is something below a key only if there is a table. -/
theorem shape_key {v : Option (Item α)} {k k' : Item α} {p : Path α} {x : Kind α}
    (hx : shape h v (k :: k' :: p) = some x) : shape h v [k] = some .table := by
  cases hk : field h v k with
  | none => simp [shape, hk] at hx
  | some y =>
    cases y with
    | atom a => simp [shape, hk] at hx
    | table r => simp [shape, hk, kind]

/-- What the source has comes into the target. -/
theorem merge_of_source {m : Map α} {w : Option (Item α)} (k : Item α) (p : Path α) {x : Kind α}
    (hx : shape h w (k :: p) = some x) : merge m (shape h w) (k :: p) = some x := by
  induction p generalizing k w m with
  | nil =>
    cases x with
    | atom a => rw [merge_atom hx, if_pos rfl]
    | table =>
      rw [merge_table hx, merge]
      split
      · assumption
      · rfl
  | cons k' p ih =>
    rw [merge_table (shape_key hx), below_shape]
    exact ih k' hx

/-- A merge changes nothing below a key if and only if all that the source has there is in
the target. -/
theorem merge_key_iff (v w : Option (Item α)) (k : Item α) :
    (∀ p, merge (shape h v) (shape h w) (k :: p) = shape h v (k :: p)) ↔
      ∀ p x, shape h w (k :: p) = some x → shape h v (k :: p) = some x := by
  constructor
  · intro hsame p x hx
    rw [← hsame p]
    exact merge_of_source k p hx
  · intro hin p
    induction p generalizing k v w with
    | nil =>
      cases hk : shape h w [k] with
      | none => exact merge_none hk []
      | some x => rw [merge_of_source k [] hk, hin [] x hk]
    | cons k' p ih =>
      cases hk : shape h w [k] with
      | none => exact merge_none hk _
      | some x =>
        have hv := hin [] x hk
        cases x with
        | atom a => rw [merge_atom hk, shape_atom hv]
        | table =>
          rw [merge_table hk, if_pos hv, below_shape, below_shape]
          exact ih _ _ k' fun q y hy => hin (k' :: q) y hy

/-- `{}` at 0 and `{a=1,b=2}` at 1. -/
def sample : State String where
  heap r := if r = 1 then (AList.singleton (.atom "b") (.atom "2")).insert (.atom "a") (.atom "1")
    else ∅
  next := 2
  seen := []

/-- The sample has no tables in tables. -/
theorem sample_field {r : Nat} {k x : Item String} (hx : (sample.heap r).lookup k = some x) :
    ∃ a, x = .atom a := by
  by_cases hr : r = 1
  · simp only [sample, if_pos hr] at hx
    obtain rfl | hne := eq_or_ne k (.atom "a")
    · rw [AList.lookup_insert] at hx
      exact ⟨"1", (Option.some.inj hx).symm⟩
    · rw [AList.lookup_insert_ne hne, lookup_singleton] at hx
      split at hx
      · exact ⟨"2", (Option.some.inj hx).symm⟩
      · cases hx
  · simp [sample, if_neg hr] at hx

theorem sample_table {r s : Nat} {p : Path String}
    (hp : follow sample.heap (some (.table r)) p = some (.table s)) : p = [] ∧ s = r := by
  cases p with
  | nil => exact ⟨rfl, (Item.table.inj (Option.some.inj hp)).symm⟩
  | cons k p =>
    cases hx : (sample.heap r).lookup k with
    | none => simp [hx] at hp
    | some x =>
      obtain ⟨a, rfl⟩ := sample_field hx
      cases p with
      | nil => simp [hx] at hp
      | cons k' p => simp [hx] at hp

theorem sample_separate : Separate sample.heap sample.next 10 0 1 := by
  refine ⟨?_, ?_, ?_, ?_, ?_, ?_⟩
  · intro p r hp
    rw [(sample_table hp).2]
    decide
  · intro p r hp
    rw [(sample_table hp).2]
    decide
  · intro p r hp
    rw [(sample_table hp).1]
    decide
  · intro p q r hp hq
    rw [(sample_table hp).1, (sample_table hq).1]
  · intro p q r hp hq
    have hzero := (sample_table hp).2
    have hone := (sample_table hq).2
    omega
  · rintro p q r ⟨hp, -⟩ hq
    rw [(sample_table hp).1, (sample_table hq).1]

end ExtendTable
