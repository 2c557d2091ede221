import Chdkptp.TableHeap

/-!
# Comparing values

`compare_values_subset` asks whether what is in its second value is in its first. It goes
down with the two exchanged, so that at every other level the first value has to be within the
second. `compare_values` asks in both directions, and there the exchange makes no difference.
-/

namespace CompareValues

open TableHeap LuaUtil

variable {α : Type} [DecidableEq α]

/-! ## The functions -/

structure Opts where
  maxdepth : Option Nat

/-- `util.compare_values_subset_defaults` with the options of the caller. -/
def maxdepth (opts : Opts) : Nat := opts.maxdepth.getD 10

/-- The loop over the entries of `v2`, where `seen` goes from one comparison to the next. -/
def eachPair
    (compare : Option (Item α) → Option (Item α) → List Nat → Except String (Bool × List Nat))
    (v1 : Fields (Item α) (Item α)) :
    List (Sigma fun _ : Item α => Item α) → List Nat → Except String (Bool × List Nat)
  | [], seen => .ok (true, seen)
  | e :: l, seen =>
    match compare (some e.2) (v1.lookup e.1) seen with
    | .error err => .error err
    | .ok (false, seen) => .ok (false, seen)
    | .ok (true, seen) => eachPair compare v1 l seen

/-- The body of `util.compare_values_subset` behind the check of the depth. -/
def compareWith
    (compare : Option (Item α) → Option (Item α) → List Nat → Except String (Bool × List Nat))
    (h : Heap α) (v1 v2 : Option (Item α)) (seen : List Nat) : Except String (Bool × List Nat) :=
  if v1 = v2 then .ok (true, seen)
  else
    match v2, v1 with
    | some (.table r2), some (.table r1) =>
      if r2 ∈ seen then .error "compare_values_subset: cycle"
      else eachPair compare (h r1) (h r2).entries (r2 :: seen)
    | _, _ => .ok (false, seen)

/-- A call from within, when so many levels are left. -/
def compareBelow (h : Heap α) :
    Nat → Option (Item α) → Option (Item α) → List Nat → Except String (Bool × List Nat)
  | 0, _, _, _ => .error "compare_values_subset: maxdepth exceeded"
  | left + 1, v1, v2, seen => compareWith (compareBelow h left) h v1 v2 seen

/-- `util.compare_values_subset`, called without `seen` and `depth`. -/
def compare_values_subset (h : Heap α) (v1 v2 : Option (Item α)) (opts : Opts) :
    Except String Bool :=
  (compareWith (compareBelow h (maxdepth opts - 1)) h v1 v2 []).map Prod.fst

/-- `util.compare_values`. -/
def compare_values (h : Heap α) (v1 v2 : Option (Item α)) (opts : Opts) : Except String Bool := do
  if ← compare_values_subset h v1 v2 opts then compare_values_subset h v2 v1 opts else pure false

/-! ## What the functions are for -/

variable (h : Heap α)

/-- The second value is contained in the first. -/
inductive Contained : Option (Item α) → Option (Item α) → Prop
  | same (v : Option (Item α)) (hv : ∀ r, v ≠ some (.table r)) : Contained v v
  | table (r1 r2 : Nat) (keys : ∀ k, (h r2).lookup k ≠ none → (h r1).lookup k ≠ none)
      (values : ∀ k x y, (h r1).lookup k = some x → (h r2).lookup k = some y →
        Contained (some x) (some y)) :
      Contained (some (.table r1)) (some (.table r2))

/-- Equal values that are no tables, or tables with the same keys and equal values there. -/
inductive SameStructure : Option (Item α) → Option (Item α) → Prop
  | same (v : Option (Item α)) (hv : ∀ r, v ≠ some (.table r)) : SameStructure v v
  | table (r1 r2 : Nat) (keys : ∀ k, (h r2).lookup k ≠ none ↔ (h r1).lookup k ≠ none)
      (values : ∀ k x y, (h r1).lookup k = some x → (h r2).lookup k = some y →
        SameStructure (some x) (some y)) :
      SameStructure (some (.table r1)) (some (.table r2))

/-! ## Where two values differ -/

/-- What the two values have at a common place, with its depth. -/
inductive Meet : Nat → Option (Item α) → Option (Item α) → Option (Item α) → Option (Item α) → Prop
  | here (v1 v2 : Option (Item α)) : Meet 0 v1 v2 v1 v2
  | under {d r1 r2 : Nat} {k x y : Item α} {a b : Option (Item α)} (hx : (h r1).lookup k = some x)
      (hy : (h r2).lookup k = some y) (hab : Meet d (some x) (some y) a b) :
      Meet (d + 1) (some (.table r1)) (some (.table r2)) a b

/-- Somewhere they have values that are not both tables and not equal. -/
def Clash (v1 v2 : Option (Item α)) : Prop :=
  ∃ d a b, Meet h d v1 v2 a b ∧ a ≠ b ∧
    ¬∃ r1 r2, a = some (.table r1) ∧ b = some (.table r2)

/-- At a depth that is even (0) or odd (1), the first lacks a key of the second. -/
def Lacks (parity : Nat) (v1 v2 : Option (Item α)) : Prop :=
  ∃ d r1 r2 k, Meet h d v1 v2 (some (.table r1)) (some (.table r2)) ∧ d % 2 = parity ∧
    (h r1).lookup k = none ∧ (h r2).lookup k ≠ none

/-- A law for the tables at common places, which depends on the depth. -/
abbrev Law (α : Type) := Nat → Fields (Item α) (Item α) → Fields (Item α) (Item α) → Prop

/-- The values do not clash, and the law holds wherever both have tables. -/
structure Matches (law : Law α) (v1 v2 : Option (Item α)) : Prop where
  clash : ¬Clash h v1 v2
  tables : ∀ d r1 r2, Meet h d v1 v2 (some (.table r1)) (some (.table r2)) → law d (h r1) (h r2)

/-- Each key of the second table is one of the first. -/
def HasKeys (t1 t2 : Fields (Item α) (Item α)) : Prop :=
  ∀ k, t2.lookup k ≠ none → t1.lookup k ≠ none

variable {h} {law : Law α} {v1 v2 : Option (Item α)} {r1 r2 : Nat}

theorem Meet.swap {d : Nat} {a b : Option (Item α)} (hab : Meet h d v1 v2 a b) :
    Meet h d v2 v1 b a := by
  induction hab with
  | here v1 v2 => exact .here v2 v1
  | under hx hy _ ih => exact .under hy hx ih

/-- Below one value there is one value at each place. -/
theorem Meet.eq_of_eq {d : Nat} {a b : Option (Item α)} (hab : Meet h d v1 v2 a b)
    (heq : v1 = v2) : a = b := by
  induction hab with
  | here v1 v2 => exact heq
  | under hx hy _ ih =>
    cases heq
    exact ih (hx.symm.trans hy)

theorem Clash.swap (hc : Clash h v1 v2) : Clash h v2 v1 := by
  obtain ⟨d, a, b, hab, hne, htables⟩ := hc
  refine ⟨d, b, a, hab.swap, hne.symm, ?_⟩
  rintro ⟨r1, r2, hb, ha⟩
  exact htables ⟨r2, r1, ha, hb⟩

theorem matches_swap : Matches h law v1 v2 ↔ Matches h (fun d t1 t2 => law d t2 t1) v2 v1 := by
  constructor
  · intro hm
    exact ⟨fun hc => hm.clash hc.swap, fun d r1 r2 hab => hm.tables d r2 r1 hab.swap⟩
  · intro hm
    exact ⟨fun hc => hm.clash hc.swap, fun d r1 r2 hab => hm.tables d r2 r1 hab.swap⟩

/-- Tables match if they do themselves and the values at common keys do. -/
theorem matches_table : Matches h law (some (.table r1)) (some (.table r2)) ↔
    law 0 (h r1) (h r2) ∧ ∀ k x y, (h r1).lookup k = some x → (h r2).lookup k = some y →
      Matches h (fun d => law (d + 1)) (some x) (some y) := by
  constructor
  · intro hm
    refine ⟨hm.tables 0 r1 r2 (.here _ _), fun k x y hx hy => ⟨?_, ?_⟩⟩
    · rintro ⟨d, a, b, hab, hne, htables⟩
      exact hm.clash ⟨d + 1, a, b, .under hx hy hab, hne, htables⟩
    · intro d s1 s2 hab
      exact hm.tables (d + 1) s1 s2 (.under hx hy hab)
  · rintro ⟨hlaw, hbelow⟩
    constructor
    · rintro ⟨d, a, b, hab, hne, htables⟩
      cases hab with
      | here => exact htables ⟨r1, r2, rfl, rfl⟩
      | under hx hy hab => exact (hbelow _ _ _ hx hy).clash ⟨_, a, b, hab, hne, htables⟩
    · intro d s1 s2 hab
      cases hab with
      | here => exact hlaw
      | under hx hy hab => exact (hbelow _ _ _ hx hy).tables _ s1 s2 hab

/-- Values of which one is no table match if they are equal. -/
theorem matches_other (hv : ¬∃ r1 r2, v1 = some (.table r1) ∧ v2 = some (.table r2)) :
    Matches h law v1 v2 ↔ v1 = v2 := by
  constructor
  · intro hm
    by_contra hne
    exact hm.clash ⟨0, v1, v2, .here v1 v2, hne, hv⟩
  · rintro rfl
    constructor
    · rintro ⟨d, a, b, hab, hne, htables⟩
      exact hne (hab.eq_of_eq rfl)
    · intro d r1 r2 hab
      cases hab with
      | here => exact absurd ⟨r1, r1, rfl, rfl⟩ hv
      | under hx hy hab => exact absurd ⟨_, _, rfl, rfl⟩ hv

theorem matches_self {v : Option (Item α)} (hlaw : ∀ d t, law d t t) : Matches h law v v := by
  constructor
  · rintro ⟨d, a, b, hab, hne, htables⟩
    exact hne (hab.eq_of_eq rfl)
  · intro d r1 r2 hab
    have heq := hab.eq_of_eq rfl
    cases heq
    exact hlaw d (h r1)

omit [DecidableEq α] in
theorem not_tables_of_same {v : Option (Item α)} (hv : ∀ r, v ≠ some (.table r)) :
    ¬∃ r1 r2, v = some (.table r1) ∧ v = some (.table r2) := by
  rintro ⟨r, -, hr, -⟩
  exact hv r hr

omit [DecidableEq α] in
/-- Either both values are tables, or one is not. -/
theorem tables_or (v1 v2 : Option (Item α)) :
    (∃ r1 r2, v1 = some (.table r1) ∧ v2 = some (.table r2)) ∨
      (¬∃ r1 r2, v1 = some (.table r1) ∧ v2 = some (.table r2)) := Classical.em _

/-- Equal values are not tables if they are not both tables. -/
theorem eq_of_matches_other (hm : Matches h law v1 v2)
    (hv : ¬∃ r1 r2, v1 = some (.table r1) ∧ v2 = some (.table r2)) :
    v1 = v2 ∧ ∀ r, v2 ≠ some (.table r) := by
  have heq := (matches_other hv).mp hm
  refine ⟨heq, fun r hr => hv ⟨r, r, heq.trans hr, hr⟩⟩

theorem not_tables_of_levels (hv : Levels h 0 v2) :
    ¬∃ r1 r2, v1 = some (.table r1) ∧ v2 = some (.table r2) := by
  rintro ⟨r1, r2, -, rfl⟩
  exact not_levels_zero hv

theorem levels_value {n : Nat} {k y : Item α} (hv : Levels h (n + 1) (some (.table r2)))
    (hy : (h r2).lookup k = some y) : Levels h n (some y) := by
  have hk := hv.field k
  rwa [field_table, hy] at hk

theorem Contained.matches (hc : Contained h v1 v2) :
    Matches h (fun _ t1 t2 => HasKeys t1 t2) v1 v2 := by
  induction hc with
  | same v hv => exact (matches_other (not_tables_of_same hv)).mpr rfl
  | table r1 r2 keys _ ih => exact matches_table.mpr ⟨keys, ih⟩

theorem Matches.contained {n : Nat} (hv : Levels h n v2)
    (hm : Matches h (fun _ t1 t2 => HasKeys t1 t2) v1 v2) : Contained h v1 v2 := by
  induction n generalizing v1 v2 with
  | zero =>
    obtain ⟨rfl, hnone⟩ := eq_of_matches_other hm (not_tables_of_levels hv)
    exact .same v1 hnone
  | succ n ih =>
    obtain ⟨r1, r2, rfl, rfl⟩ | hother := tables_or v1 v2
    · obtain ⟨hkeys, hbelow⟩ := matches_table.mp hm
      exact .table r1 r2 hkeys fun k x y hx hy => ih (levels_value hv hy) (hbelow k x y hx hy)
    · obtain ⟨rfl, hnone⟩ := eq_of_matches_other hm hother
      exact .same v1 hnone

theorem SameStructure.matches (hs : SameStructure h v1 v2) :
    Matches h (fun _ t1 t2 => HasKeys t1 t2 ∧ HasKeys t2 t1) v1 v2 := by
  induction hs with
  | same v hv => exact (matches_other (not_tables_of_same hv)).mpr rfl
  | table r1 r2 keys _ ih =>
    exact matches_table.mpr ⟨⟨fun k => (keys k).mp, fun k => (keys k).mpr⟩, ih⟩

theorem Matches.sameStructure {n : Nat} (hv : Levels h n v2)
    (hm : Matches h (fun _ t1 t2 => HasKeys t1 t2 ∧ HasKeys t2 t1) v1 v2) :
    SameStructure h v1 v2 := by
  induction n generalizing v1 v2 with
  | zero =>
    obtain ⟨rfl, hnone⟩ := eq_of_matches_other hm (not_tables_of_levels hv)
    exact .same v1 hnone
  | succ n ih =>
    obtain ⟨r1, r2, rfl, rfl⟩ | hother := tables_or v1 v2
    · obtain ⟨⟨hkeys, hkeys'⟩, hbelow⟩ := matches_table.mp hm
      exact .table r1 r2 (fun k => ⟨hkeys k, hkeys' k⟩) fun k x y hx hy =>
        ih (levels_value hv hy) (hbelow k x y hx hy)
    · obtain ⟨rfl, hnone⟩ := eq_of_matches_other hm hother
      exact .same v1 hnone

/-! ## What the code decides -/

/-- At even depths the first table has the keys of the second, at odd ones it is the other
way round. -/
def alternating : Law α := fun d t1 t2 => if d % 2 = 0 then HasKeys t1 t2 else HasKeys t2 t1

theorem alternating_self (d : Nat) (t : Fields (Item α) (Item α)) : alternating d t t := by
  rw [alternating]
  split <;> exact fun k hk => hk

/-- One level down the values are exchanged. -/
theorem alternating_below {x y : Item α} :
    Matches h (fun d => alternating (d + 1)) (some x) (some y) ↔
      Matches h alternating (some y) (some x) := by
  have hlaw : (fun d t1 t2 => alternating (d + 1) t1 t2 : Law α) =
      fun d t1 t2 => alternating d t2 t1 := by
    funext d t1 t2
    obtain hd | hd := Nat.mod_two_eq_zero_or_one d
    · have hsucc : (d + 1) % 2 ≠ 0 := by omega
      simp [alternating, hd, hsucc]
    · have hsucc : (d + 1) % 2 = 0 := by omega
      simp [alternating, hd, hsucc]
  rw [hlaw]
  exact matches_swap.symm

/-- The tables that are marked as seen. -/
def Marked (h : Heap α) (v1 v2 : Option (Item α)) (r : Nat) : Prop :=
  ∃ p, p.length % 2 = 0 ∧ follow h v2 p = some (.table r) ∨
    p.length % 2 = 1 ∧ follow h v1 p = some (.table r)

/-- Values without sharing, except that both may have a table at the same place. -/
structure Trees (h : Heap α) (n : Nat) (v1 v2 : Option (Item α)) : Prop where
  levels1 : Levels h n v1
  levels2 : Levels h n v2
  unshared1 : Unshared h v1
  unshared2 : Unshared h v2
  apart : Apart h v1 v2

theorem Trees.symm {n : Nat} (ht : Trees h n v1 v2) : Trees h n v2 v1 :=
  ⟨ht.levels2, ht.levels1, ht.unshared2, ht.unshared1, ht.apart.symm⟩

theorem Trees.field {n : Nat} (ht : Trees h (n + 1) v1 v2) (k : Item α) :
    Trees h n (field h v2 k) (field h v1 k) :=
  ⟨ht.levels2.field k, ht.levels1.field k, ht.unshared2.field k, ht.unshared1.field k,
    ht.apart.symm.field k⟩

/-- The second table itself is marked, and what is marked below. -/
theorem Marked.below {k : Item α} {r : Nat} (hm : Marked h (field h v2 k) (field h v1 k) r) :
    Marked h v1 v2 r := by
  obtain ⟨p, ⟨heven, hp⟩ | ⟨hodd, hp⟩⟩ := hm
  · exact ⟨k :: p, Or.inr ⟨by rw [List.length_cons]; omega, hp⟩⟩
  · exact ⟨k :: p, Or.inl ⟨by rw [List.length_cons]; omega, hp⟩⟩

/-- What is marked below one key is neither below another key nor the second value. -/
theorem marked_apart {n : Nat} (ht : Trees h n v1 v2) {k : Item α} {r : Nat}
    (hm : Marked h (field h v2 k) (field h v1 k) r) :
    v2 ≠ some (.table r) ∧
      ∀ k', k' ≠ k → ¬Marked h (field h v2 k') (field h v1 k') r := by
  have hplace : ∃ p, (follow h v1 (k :: p) = some (.table r) ∨
      follow h v2 (k :: p) = some (.table r)) := by
    obtain ⟨p, ⟨-, hp⟩ | ⟨-, hp⟩⟩ := hm
    · exact ⟨p, Or.inl hp⟩
    · exact ⟨p, Or.inr hp⟩
  have hsame : ∀ p q, (follow h v1 p = some (.table r) ∨ follow h v2 p = some (.table r)) →
      (follow h v1 q = some (.table r) ∨ follow h v2 q = some (.table r)) → p = q := by
    rintro p q (hp | hp) (hq | hq)
    · exact ht.unshared1 p q r hp hq
    · exact ht.apart p q r hp hq
    · exact (ht.apart q p r hq hp).symm
    · exact ht.unshared2 p q r hp hq
  obtain ⟨p, hp⟩ := hplace
  constructor
  · intro hroot
    exact absurd (hsame (k :: p) [] hp (Or.inr hroot)) (List.cons_ne_nil k p)
  · rintro k' hne ⟨q, ⟨-, hq⟩ | ⟨-, hq⟩⟩
    · exact hne (List.cons.inj (hsame (k' :: q) (k :: p) (Or.inl hq) hp)).1
    · exact hne (List.cons.inj (hsame (k' :: q) (k :: p) (Or.inr hq) hp)).1

/-- The call answers without an error whether the law holds, and marks no other tables. -/
def Decides (x : Except String (Bool × List Nat)) (seen : List Nat) (good : Prop)
    (marked : Nat → Prop) : Prop :=
  ∃ b seen', x = .ok (b, seen') ∧ (b = true ↔ good) ∧ ∀ r ∈ seen', r ∈ seen ∨ marked r

/-- The loop, for calls that mark different tables. -/
theorem eachPair_decides
    {compare : Option (Item α) → Option (Item α) → List Nat → Except String (Bool × List Nat)}
    (t1 : Fields (Item α) (Item α)) (good : Item α → Prop) {marked : Item α → Nat → Prop}
    (hmarked : ∀ k k' r, marked k r → k' ≠ k → ¬marked k' r)
    (l : List (Sigma fun _ : Item α => Item α)) (hkeys : l.NodupKeys)
    (hcompare : ∀ e ∈ l, ∀ seen, (∀ r, marked e.1 r → r ∉ seen) →
      Decides (compare (some e.2) (t1.lookup e.1) seen) seen (good e.1) (marked e.1))
    (seen : List Nat) (hseen : ∀ e ∈ l, ∀ r, marked e.1 r → r ∉ seen) :
    Decides (eachPair compare t1 l seen) seen (∀ e ∈ l, good e.1)
      (fun r => ∃ e ∈ l, marked e.1 r) := by
  induction l generalizing seen with
  | nil => exact ⟨true, seen, rfl, by simp, fun r hr => Or.inl hr⟩
  | cons e l ih =>
    obtain ⟨hnot, hrest⟩ := List.nodupKeys_cons.mp hkeys
    obtain ⟨b, seen', hcall, hb, hnew⟩ :=
      hcompare e List.mem_cons_self seen (hseen e List.mem_cons_self)
    cases b with
    | false =>
      use false, seen'
      refine ⟨by rw [eachPair, hcall], ?_, ?_⟩
      · simpa using fun hgood => absurd hgood (by simpa using hb)
      · intro r hr
        exact (hnew r hr).imp_right fun hm => ⟨e, List.mem_cons_self, hm⟩
    | true =>
      have hgood : good e.1 := hb.mp rfl
      obtain ⟨b, seen'', hloop, hb', hnew'⟩ := ih hrest
        (fun e' he' => hcompare e' (List.mem_cons_of_mem e he')) seen' (by
          intro e' he' r hr hmem
          obtain hold | hm := hnew r hmem
          · exact hseen e' (List.mem_cons_of_mem e he') r hr hold
          · have hne : e'.1 ≠ e.1 := by
              intro heq
              exact hnot (heq ▸ List.mem_map_of_mem he')
            exact hmarked e.1 e'.1 r hm hne hr)
      use b, seen''
      refine ⟨by rw [eachPair, hcall]; exact hloop, ?_, ?_⟩
      · rw [hb', List.forall_mem_cons]
        exact (and_iff_right hgood).symm
      · intro r hr
        obtain hr' | ⟨e', he', hm⟩ := hnew' r hr
        · exact (hnew r hr').imp_right fun hm => ⟨e, List.mem_cons_self, hm⟩
        · exact Or.inr ⟨e', List.mem_cons_of_mem e he', hm⟩

/-- The loop sees the keys of the second table, and the first has to have them. -/
theorem matches_fields : (∀ e ∈ (h r2).entries,
      Matches h alternating ((h r2).lookup e.1) ((h r1).lookup e.1)) ↔
    Matches h alternating (some (.table r1)) (some (.table r2)) := by
  rw [matches_table]
  constructor
  · intro hall
    have hkey : ∀ k y, (h r2).lookup k = some y →
        Matches h alternating (some y) ((h r1).lookup k) := by
      intro k y hy
      rw [← hy]
      exact hall ⟨k, y⟩ (AList.mem_lookup_iff.mp hy)
    constructor
    · intro k hk hnone
      obtain ⟨y, hy⟩ := Option.ne_none_iff_exists'.mp hk
      have hm := hkey k y hy
      rw [hnone, matches_other (by simp)] at hm
      cases hm
    · intro k x y hx hy
      exact alternating_below.mpr (hx ▸ hkey k y hy)
  · rintro ⟨hkeys, hbelow⟩ e he
    have hy : (h r2).lookup e.1 = some e.2 := AList.mem_lookup_iff.mpr he
    obtain ⟨x, hx⟩ := Option.ne_none_iff_exists'.mp (hkeys e.1 (by simp [hy]))
    rw [hx, hy]
    exact alternating_below.mp (hbelow e.1 x e.2 hx hy)

/-- A comparison of tables, when the calls for their fields decide the law below. -/
theorem compareWith_decides {n : Nat}
    {compare : Option (Item α) → Option (Item α) → List Nat → Except String (Bool × List Nat)}
    (hcompare : ∀ w1 w2 seen, Trees h n w1 w2 → w1 ≠ none → (∀ r, Marked h w1 w2 r → r ∉ seen) →
      Decides (compare w1 w2 seen) seen (Matches h alternating w1 w2) (Marked h w1 w2))
    (ht : Trees h (n + 1) v1 v2) {seen : List Nat} (hseen : ∀ r, Marked h v1 v2 r → r ∉ seen) :
    Decides (compareWith compare h v1 v2 seen) seen (Matches h alternating v1 v2)
      (Marked h v1 v2) := by
  by_cases heq : v1 = v2
  · subst heq
    refine ⟨true, seen, if_pos rfl, ?_, fun r hr => Or.inl hr⟩
    exact iff_of_true rfl (matches_self alternating_self)
  · obtain ⟨r1, r2, rfl, rfl⟩ | hother := tables_or v1 v2
    · have hroot : Marked h (some (.table r1)) (some (.table r2)) r2 := ⟨[], Or.inl ⟨rfl, rfl⟩⟩
      have hentry : ∀ e ∈ (h r2).entries, (h r2).lookup e.1 = some e.2 := fun e he =>
        (AList.mem_lookup_iff).mpr he
      have hcalls : ∀ e ∈ (h r2).entries, ∀ seen,
          (∀ r, Marked h ((h r2).lookup e.1) ((h r1).lookup e.1) r → r ∉ seen) →
          Decides (compare (some e.2) ((h r1).lookup e.1) seen) seen
            (Matches h alternating ((h r2).lookup e.1) ((h r1).lookup e.1))
            (Marked h ((h r2).lookup e.1) ((h r1).lookup e.1)) := by
        intro e he seen hfree
        have hcall := hcompare ((h r2).lookup e.1) ((h r1).lookup e.1) seen (ht.field e.1)
          (by simp [hentry e he]) hfree
        rwa [hentry e he] at hcall ⊢
      have hmarked : ∀ k k' r, Marked h ((h r2).lookup k) ((h r1).lookup k) r → k' ≠ k →
          ¬Marked h ((h r2).lookup k') ((h r1).lookup k') r :=
        fun k k' r hm hne => (marked_apart ht hm).2 k' hne
      have hloop := eachPair_decides (h r1)
        (fun k => Matches h alternating ((h r2).lookup k) ((h r1).lookup k)) hmarked
        (h r2).entries (h r2).nodupKeys hcalls (r2 :: seen) (by
          intro e he r hm hmem
          obtain rfl | hold := List.mem_cons.mp hmem
          · exact (marked_apart ht hm).1 rfl
          · exact hseen r hm.below hold)
      obtain ⟨b, seen', hrun, hb, hnew⟩ := hloop
      refine ⟨b, seen', ?_, ?_, ?_⟩
      · rw [compareWith, if_neg heq, ← hrun]
        exact if_neg (hseen r2 hroot)
      · exact hb.trans matches_fields
      · intro r hr
        obtain hr' | ⟨e, he, hm⟩ := hnew r hr
        · obtain rfl | hold := List.mem_cons.mp hr'
          · exact Or.inr hroot
          · exact Or.inl hold
        · exact Or.inr hm.below
    · refine ⟨false, seen, ?_, ?_, fun r hr => Or.inl hr⟩
      · simp only [compareWith, if_neg heq]
        split
        · exact absurd ⟨_, _, rfl, rfl⟩ hother
        · rfl
      · rw [matches_other hother]
        simpa using heq

theorem compareBelow_decides (n : Nat) {seen : List Nat} (ht : Trees h n v1 v2) (hne : v1 ≠ none)
    (hseen : ∀ r, Marked h v1 v2 r → r ∉ seen) :
    Decides (compareBelow h n v1 v2 seen) seen (Matches h alternating v1 v2) (Marked h v1 v2) := by
  induction n generalizing v1 v2 seen with
  | zero => exact absurd (ht.levels1 [] hne) (Nat.not_lt_zero 0)
  | succ n ih => exact compareWith_decides (fun w1 w2 seen hw hw1 hfree => ih hw hw1 hfree) ht hseen

/-- The call ends and tells whether something is so. -/
def Tells (x : Except String Bool) (p : Prop) : Prop := ∃ b, x = .ok b ∧ (b = true ↔ p)

theorem Tells.congr_iff {x : Except String Bool} {p q : Prop} (hx : Tells x p) :
    Tells x q ↔ (p ↔ q) := by
  obtain ⟨b, hx, hb⟩ := hx
  constructor
  · rintro ⟨b', hx', hb'⟩
    cases hx.symm.trans hx'
    exact hb.symm.trans hb'
  · intro hpq
    exact ⟨b, hx, hb.trans hpq⟩

theorem subset_tells (ht : Trees h 10 v1 v2) :
    Tells (compare_values_subset h v1 v2 ⟨none⟩) (Matches h alternating v1 v2) := by
  obtain ⟨b, seen, hrun, hb, -⟩ := compareWith_decides
    (fun w1 w2 seen hw hw1 hfree => compareBelow_decides 9 hw hw1 hfree) ht
    (fun r _ => List.not_mem_nil)
  have hcall : compare_values_subset h v1 v2 ⟨none⟩ =
      (compareWith (compareBelow h 9) h v1 v2 []).map Prod.fst := rfl
  refine ⟨b, ?_, hb⟩
  rw [hcall, hrun]
  rfl

/-! ## The exchange of the two values -/

theorem not_lacks_iff {parity : Nat} : ¬Lacks h parity v1 v2 ↔
    ∀ d r1 r2, Meet h d v1 v2 (some (.table r1)) (some (.table r2)) → d % 2 = parity →
      HasKeys (h r1) (h r2) := by
  constructor
  · intro hl d r1 r2 hab hd k hk hnone
    exact hl ⟨d, r1, r2, k, hab, hd, hnone, hk⟩
  · rintro hkeys ⟨d, r1, r2, k, hab, hd, hnone, hk⟩
    exact hkeys d r1 r2 hab hd k hk hnone

theorem not_lacks_swap_iff {parity : Nat} : ¬Lacks h parity v2 v1 ↔
    ∀ d r1 r2, Meet h d v1 v2 (some (.table r1)) (some (.table r2)) → d % 2 = parity →
      HasKeys (h r2) (h r1) := by
  rw [not_lacks_iff]
  exact ⟨fun hl d r1 r2 hab => hl d r2 r1 hab.swap, fun hl d r1 r2 hab => hl d r2 r1 hab.swap⟩

/-- What the code asks for, by the differences that it takes notice of. -/
theorem alternating_iff : Matches h alternating v1 v2 ↔
    ¬Clash h v1 v2 ∧ ¬Lacks h 0 v1 v2 ∧ ¬Lacks h 1 v2 v1 := by
  rw [not_lacks_iff, not_lacks_swap_iff]
  constructor
  · intro hm
    refine ⟨hm.clash, fun d r1 r2 hab hd => ?_, fun d r1 r2 hab hd => ?_⟩
    · simpa [alternating, hd] using hm.tables d r1 r2 hab
    · simpa [alternating, hd] using hm.tables d r1 r2 hab
  · rintro ⟨hclash, heven, hodd⟩
    refine ⟨hclash, fun d r1 r2 hab => ?_⟩
    obtain hd | hd := Nat.mod_two_eq_zero_or_one d
    · simpa [alternating, hd] using heven d r1 r2 hab hd
    · simpa [alternating, hd] using hodd d r1 r2 hab hd

theorem hasKeys_iff : Matches h (fun _ t1 t2 => HasKeys t1 t2) v1 v2 ↔
    ¬Clash h v1 v2 ∧ ¬Lacks h 0 v1 v2 ∧ ¬Lacks h 1 v1 v2 := by
  rw [not_lacks_iff, not_lacks_iff]
  constructor
  · intro hm
    exact ⟨hm.clash, fun d r1 r2 hab _ => hm.tables d r1 r2 hab,
      fun d r1 r2 hab _ => hm.tables d r1 r2 hab⟩
  · rintro ⟨hclash, heven, hodd⟩
    refine ⟨hclash, fun d r1 r2 hab => ?_⟩
    obtain hd | hd := Nat.mod_two_eq_zero_or_one d
    · exact heven d r1 r2 hab hd
    · exact hodd d r1 r2 hab hd

theorem sameKeys_iff : Matches h (fun _ t1 t2 => HasKeys t1 t2 ∧ HasKeys t2 t1) v1 v2 ↔
    Matches h (fun _ t1 t2 => HasKeys t1 t2) v1 v2 ∧
      Matches h (fun _ t1 t2 => HasKeys t1 t2) v2 v1 := by
  constructor
  · intro hm
    exact ⟨⟨hm.clash, fun d r1 r2 hab => (hm.tables d r1 r2 hab).1⟩,
      fun hc => hm.clash hc.swap, fun d r1 r2 hab => (hm.tables d r2 r1 hab.swap).2⟩
  · rintro ⟨hm, hm'⟩
    exact ⟨hm.clash, fun d r1 r2 hab => ⟨hm.tables d r1 r2 hab, hm'.tables d r2 r1 hab.swap⟩⟩

/-- In both directions the code looks for every difference. -/
theorem sameStructure_iff {n : Nat} (hv : Levels h n v2) : SameStructure h v1 v2 ↔
    Matches h alternating v1 v2 ∧ Matches h alternating v2 v1 := by
  have hsame : SameStructure h v1 v2 ↔ _ := ⟨SameStructure.matches, Matches.sameStructure hv⟩
  have hclash : Clash h v2 v1 ↔ Clash h v1 v2 := ⟨Clash.swap, Clash.swap⟩
  rw [hsame, sameKeys_iff, hasKeys_iff, hasKeys_iff, alternating_iff, alternating_iff, hclash]
  tauto

theorem compare_tells (ht : Trees h 10 v1 v2) :
    Tells (compare_values h v1 v2 ⟨none⟩) (SameStructure h v1 v2) := by
  obtain ⟨b, hrun, hb⟩ := subset_tells ht
  obtain ⟨b', hrun', hb'⟩ := subset_tells ht.symm
  rw [Tells, sameStructure_iff ht.levels2, ← hb, ← hb', compare_values, hrun]
  cases b with
  | false => exact ⟨false, rfl, by simp⟩
  | true => exact ⟨b', hrun', by simp⟩

/-- Trees are compared as they should be unless it is at an odd depth that one of them has a
key which the other lacks. -/
theorem compares_iff (ht : Trees h 10 v1 v2) :
    Tells (compare_values_subset h v1 v2 ⟨none⟩) (Contained h v1 v2) ∧
        Tells (compare_values h v1 v2 ⟨none⟩) (SameStructure h v1 v2) ↔
      Clash h v1 v2 ∨ Lacks h 0 v1 v2 ∨ (Lacks h 1 v1 v2 ↔ Lacks h 1 v2 v1) := by
  have hcontained : Contained h v1 v2 ↔ _ := ⟨Contained.matches, Matches.contained ht.levels2⟩
  rw [and_iff_left (compare_tells ht), (subset_tells ht).congr_iff, hcontained, hasKeys_iff,
    alternating_iff]
  tauto

/-! ## Samples -/

/-- `{a={}}` at 0 and `{a={x=1}}` at 2. -/
def sample : Heap String := fun r =>
  match r with
  | 0 => AList.singleton (.atom "a") (.table 1)
  | 2 => AList.singleton (.atom "a") (.table 3)
  | 3 => AList.singleton (.atom "x") (.atom "1")
  | _ => ∅

theorem follow_sample_empty {p : Path String} {w : Item String}
    (hp : follow sample (some (.table 1)) p = some w) : p = [] ∧ w = .table 1 := by
  cases p with
  | nil => exact ⟨rfl, (Option.some.inj hp).symm⟩
  | cons k p => simp [field_table, sample] at hp

theorem follow_sample_atom {p : Path String} {a : String} {w : Item String}
    (hp : follow sample (some (.atom a)) p = some w) : p = [] ∧ w = .atom a := by
  cases p with
  | nil => exact ⟨rfl, (Option.some.inj hp).symm⟩
  | cons k p => simp [field] at hp

theorem follow_sample_x {p : Path String} {w : Item String}
    (hp : follow sample (some (.table 3)) p = some w) :
    p = [] ∧ w = .table 3 ∨ p = [.atom "x"] ∧ w = .atom "1" := by
  cases p with
  | nil => exact Or.inl ⟨rfl, (Option.some.inj hp).symm⟩
  | cons k p =>
    rw [follow_cons, field_table, sample, lookup_singleton] at hp
    split at hp
    · rename_i hk
      obtain ⟨rfl, rfl⟩ := follow_sample_atom hp
      exact Or.inr ⟨by rw [hk], rfl⟩
    · simp at hp

theorem follow_sample_outer {r : Nat} {p : Path String} {w : Item String} (hr : r = 0 ∨ r = 2)
    (hp : follow sample (some (.table r)) p = some w) :
    p = [] ∧ w = .table r ∨ p = [.atom "a"] ∧ w = .table (r + 1) ∨
      r = 2 ∧ p = [.atom "a", .atom "x"] ∧ w = .atom "1" := by
  cases p with
  | nil => exact Or.inl ⟨rfl, (Option.some.inj hp).symm⟩
  | cons k p =>
    have hfield : field sample (some (.table r)) k =
        if k = .atom "a" then some (.table (r + 1)) else none := by
      obtain rfl | rfl := hr
      · exact lookup_singleton _ _ _
      · exact lookup_singleton _ _ _
    rw [follow_cons, hfield] at hp
    split at hp
    · rename_i hk
      subst hk
      obtain rfl | rfl := hr
      · obtain ⟨rfl, rfl⟩ := follow_sample_empty hp
        exact Or.inr (Or.inl ⟨rfl, rfl⟩)
      · obtain ⟨rfl, rfl⟩ | ⟨rfl, rfl⟩ := follow_sample_x hp
        · exact Or.inr (Or.inl ⟨rfl, rfl⟩)
        · exact Or.inr (Or.inr ⟨rfl, rfl, rfl⟩)
    · simp at hp

theorem sample_levels {r : Nat} (hr : r = 0 ∨ r = 2) : Levels sample 10 (some (.table r)) := by
  intro p hp
  obtain ⟨w, hw⟩ := Option.ne_none_iff_exists'.mp hp
  obtain ⟨rfl, -⟩ | ⟨rfl, -⟩ | ⟨-, rfl, -⟩ := follow_sample_outer hr hw <;> decide

theorem sample_apart {r s : Nat} (hr : r = 0 ∨ r = 2) (hs : s = 0 ∨ s = 2) :
    Apart sample (some (.table r)) (some (.table s)) := by
  intro p q t hp hq
  obtain ⟨rfl, hpt⟩ | ⟨rfl, hpt⟩ | ⟨-, -, hpt⟩ := follow_sample_outer hr hp
  · obtain ⟨rfl, hqt⟩ | ⟨-, hqt⟩ | ⟨-, -, hqt⟩ := follow_sample_outer hs hq
    · rfl
    · have heq := Item.table.inj (hpt.symm.trans hqt)
      omega
    · cases hqt
  · obtain ⟨-, hqt⟩ | ⟨rfl, hqt⟩ | ⟨-, -, hqt⟩ := follow_sample_outer hs hq
    · have heq := Item.table.inj (hpt.symm.trans hqt)
      omega
    · rfl
    · cases hqt
  · cases hpt

theorem sample_trees : Trees sample 10 (some (.table 2)) (some (.table 0)) where
  levels1 := sample_levels (Or.inr rfl)
  levels2 := sample_levels (Or.inl rfl)
  unshared1 := sample_apart (Or.inr rfl) (Or.inr rfl)
  unshared2 := sample_apart (Or.inl rfl) (Or.inl rfl)
  apart := sample_apart (Or.inr rfl) (Or.inl rfl)

/-- `{a={x=1}}` and `{a={}}`. -/
theorem compares_iff_sample :
    Tells (compare_values_subset sample (some (.table 2)) (some (.table 0)) ⟨none⟩)
          (Contained sample (some (.table 2)) (some (.table 0))) ∧
        Tells (compare_values sample (some (.table 2)) (some (.table 0)) ⟨none⟩)
          (SameStructure sample (some (.table 2)) (some (.table 0))) ↔
      Clash sample (some (.table 2)) (some (.table 0)) ∨
        Lacks sample 0 (some (.table 2)) (some (.table 0)) ∨
        (Lacks sample 1 (some (.table 2)) (some (.table 0)) ↔
          Lacks sample 1 (some (.table 0)) (some (.table 2))) :=
  compares_iff sample_trees

/-- `{a={}}` is contained in `{a={x=1}}`, but `compare_values_subset` says that it is not. -/
theorem not_compares : Trees sample 10 (some (.table 2)) (some (.table 0)) ∧
    ¬Tells (compare_values_subset sample (some (.table 2)) (some (.table 0)) ⟨none⟩)
      (Contained sample (some (.table 2)) (some (.table 0))) := by
  refine ⟨sample_trees, ?_⟩
  rintro ⟨b, hrun, hb⟩
  have hfalse : compare_values_subset sample (some (.table 2)) (some (.table 0)) ⟨none⟩ =
      .ok false := by decide
  have hinner : Contained sample (some (.table 3)) (some (.table 1)) :=
    .table 3 1 (fun k hk => absurd rfl hk) fun k x y _ hy => nomatch hy
  have hcontained : Contained sample (some (.table 2)) (some (.table 0)) := by
    apply Contained.table
    · intro k hk
      simpa [sample, lookup_singleton] using hk
    · intro k x y hx hy
      simp only [sample, lookup_singleton, Option.ite_none_right_eq_some, Option.some.injEq]
        at hx hy
      rw [← hx.2, ← hy.2]
      exact hinner
  rw [← hb] at hcontained
  rw [hfalse, hcontained] at hrun
  cases hrun

end CompareValues
