import Mathlib.Logic.Relation
import Mathlib.Order.WellFoundedSet

/-!
# Dependencies first

Names are collected so that each stands behind the names it depends on. The search
is depth-first and marks a name only when its dependencies are there, so its depth is
limited from outside.
-/

namespace DependencyOrder

variable {α : Type} (depend : α → Option (List α))

def Depends (a b : α) : Prop := ∃ deps, depend a = some deps ∧ b ∈ deps

/-- The names that dependencies lead to from the roots. -/
def Closure (roots : List α) (n : α) : Prop :=
  ∃ r ∈ roots, Relation.ReflTransGen (Depends depend) r n

/-- With each name its dependencies are there. -/
def Closed (built : List α) : Prop :=
  ∀ n ∈ built, ∃ deps, depend n = some deps ∧ ∀ m ∈ deps, m ∈ built

theorem Closure.mono {roots roots' : List α} (h : ∀ r ∈ roots, r ∈ roots') {n : α} :
    Closure depend roots n → Closure depend roots' n := by
  rintro ⟨r, hr, hrn⟩
  exact ⟨r, h r hr, hrn⟩

/-- What is closed and contains the roots contains their closure. -/
theorem Closed.closure {built roots : List α} (hclosed : Closed depend built)
    (hroots : ∀ r ∈ roots, r ∈ built) {n : α} (hn : Closure depend roots n) : n ∈ built := by
  obtain ⟨r, hr, hrn⟩ := hn
  induction hrn with
  | refl => exact hroots r hr
  | tail _ hstep ih =>
    obtain ⟨deps, hdeps, hmem⟩ := hstep
    obtain ⟨deps', hdeps', hin⟩ := hclosed _ ih
    rw [hdeps] at hdeps'
    cases hdeps'
    exact hin _ hmem

/-- What adding names does: everything stays, the names and their dependencies are
there, and nothing else has come. -/
structure Added (roots built built' : List α) : Prop where
  kept : ∀ n ∈ built, n ∈ built'
  there : ∀ r ∈ roots, r ∈ built'
  closed : Closed depend built → Closed depend built'
  only : ∀ n ∈ built', n ∈ built ∨ Closure depend roots n

theorem Added.nil (built : List α) : Added depend [] built built where
  kept := fun _ h => h
  there := by simp
  closed := id
  only := fun _ h => .inl h

theorem Added.cons {r : α} {roots built built' built'' : List α}
    (h : Added depend [r] built built') (h' : Added depend roots built' built'') :
    Added depend (r :: roots) built built'' where
  kept := fun n hn => h'.kept n (h.kept n hn)
  there := by
    intro n hn
    rcases List.mem_cons.mp hn with rfl | hn
    · exact h'.kept n (h.there n (by simp))
    · exact h'.there n hn
  closed := fun hc => h'.closed (h.closed hc)
  only := by
    intro n hn
    rcases h'.only n hn with hn | hn
    · rcases h.only n hn with hn | hn
      · exact .inl hn
      · exact .inr (hn.mono depend (by simp))
    · exact .inr (hn.mono depend fun _ hr => List.mem_cons_of_mem r hr)

/-- Added to nothing, exactly the closure of the names comes out. -/
theorem mem_added_nil {roots built : List α} (h : Added depend roots [] built) (n : α) :
    n ∈ built ↔ Closure depend roots n := by
  constructor
  · intro hn
    rcases h.only n hn with hn | hn
    · cases hn
    · exact hn
  · intro hn
    exact (h.closed (by simp [Closed])).closure depend h.there hn

/-! ## The search -/

inductive AddError (α : Type) where
  | unknown (n : α)
  /-- The nesting limit is reached. -/
  | tooDeep
  deriving DecidableEq, Repr

theorem foldlM_added {f : List α → α → Except (AddError α) (List α)}
    (hf : ∀ built built' n, f built n = .ok built' → Added depend [n] built built')
    (roots built built' : List α) (h : roots.foldlM f built = .ok built') :
    Added depend roots built built' := by
  induction roots generalizing built with
  | nil =>
    cases h
    exact Added.nil depend _
  | cons r roots ih =>
    rw [List.foldlM_cons] at h
    cases hr : f built r with
    | error e =>
      rw [hr] at h
      cases h
    | ok mid =>
      rw [hr] at h
      exact (hf built mid r hr).cons depend (ih mid h)

theorem foldlM_succeeds {f : List α → α → Except (AddError α) (List α)} (roots : List α)
    (hf : ∀ n ∈ roots, ∀ built, ∃ built', f built n = .ok built') (built : List α) :
    ∃ built', roots.foldlM f built = .ok built' := by
  induction roots generalizing built with
  | nil => exact ⟨built, rfl⟩
  | cons r roots ih =>
    obtain ⟨mid, hmid⟩ := hf r (by simp) built
    obtain ⟨built', hbuilt'⟩ := ih (fun n hn => hf n (List.mem_cons_of_mem r hn)) mid
    refine ⟨built', ?_⟩
    rw [List.foldlM_cons, hmid]
    exact hbuilt'

/-! ## The order -/

/-- No name depends on itself, over however many others. -/
def Acyclic : Prop := ∀ n, ¬Relation.TransGen (Depends depend) n n

/-- Each name stands behind its dependencies. -/
def Ordered (built : List α) : Prop :=
  ∀ before n after, built = before ++ n :: after → ∀ m, Depends depend n m → m ∈ before

theorem Ordered.nil : Ordered depend ([] : List α) := by
  intro before n after h
  cases before <;> cases h

theorem Ordered.snoc {built : List α} {n : α} (h : Ordered depend built)
    (hn : ∀ m, Depends depend n m → m ∈ built) : Ordered depend (built ++ [n]) := by
  intro before k after heq m hm
  rcases List.eq_nil_or_concat after with rfl | ⟨after, l, rfl⟩
  · obtain ⟨rfl, hk⟩ := List.append_inj' heq rfl
    cases hk
    exact hn m hm
  · rw [List.concat_eq_append, ← List.cons_append, ← List.append_assoc] at heq
    exact h before k after (List.append_inj' heq rfl).1 m hm

/-- Then it stands behind all that its dependencies lead to. -/
theorem Ordered.trans {built : List α} (h : Ordered depend built) {before after : List α} {n m : α}
    (heq : built = before ++ n :: after) (hm : Relation.TransGen (Depends depend) n m) :
    m ∈ before := by
  induction hm with
  | single hm => exact h before n after heq _ hm
  | tail _ hstep ih =>
    obtain ⟨b, a, rfl⟩ := List.append_of_mem ih
    have hin := h b _ (a ++ n :: after) (by rw [heq, List.append_assoc, List.cons_append]) _ hstep
    exact List.mem_append_left _ hin

/-- A name in an ordered list without repetition does not depend on itself. -/
theorem Ordered.irrefl {built : List α} (h : Ordered depend built) (hnodup : built.Nodup) {n : α}
    (hn : n ∈ built) : ¬Relation.TransGen (Depends depend) n n := by
  intro hcycle
  obtain ⟨before, after, rfl⟩ := List.append_of_mem hn
  have hmem := h.trans depend rfl hcycle
  exact (List.nodup_cons.mp (List.nodup_middle.mp hnodup)).1 (List.mem_append_left _ hmem)

/-- What a step of the search keeps. -/
def InOrder (built : List α) : Prop := Ordered depend built ∧ built.Nodup

theorem foldlM_inOrder {ε : Type} {f : List α → α → Except ε (List α)}
    (hf : ∀ built built' n, InOrder depend built → f built n = .ok built' → InOrder depend built')
    (roots built built' : List α) (h : InOrder depend built)
    (hfold : roots.foldlM f built = .ok built') : InOrder depend built' := by
  induction roots generalizing built with
  | nil =>
    cases hfold
    exact h
  | cons r roots ih =>
    rw [List.foldlM_cons] at hfold
    cases hr : f built r with
    | error e =>
      rw [hr] at hfold
      cases hfold
    | ok mid =>
      rw [hr] at hfold
      exact ih mid (hf built mid r h hr) hfold

/-- The dependencies of finitely many names without a cycle are well-founded. -/
theorem acyclic_wellFoundedOn (hacyclic : Acyclic depend) {names : Set α} (hfin : names.Finite) :
    names.WellFoundedOn (fun m n => Relation.TransGen (Depends depend) n m) := by
  have hstrict : IsStrictOrder α (fun m n => Relation.TransGen (Depends depend) n m) :=
    { irrefl := hacyclic, trans := fun _ _ _ hab hbc => hbc.trans hab }
  exact hfin.wellFoundedOn

/-! ## Adding a name -/

variable [DecidableEq α]

/-- Add a name behind its dependencies. -/
def add : Nat → List α → α → Except (AddError α) (List α)
  | 0, _, _ => .error .tooDeep
  | limit + 1, built, n =>
    match depend n with
    | none => .error (.unknown n)
    | some deps =>
      if n ∈ built then .ok built
      else (deps.foldlM (add limit) built).map fun built => built ++ [n]

theorem add_added (limit : Nat) (built built' : List α) (n : α)
    (h : add depend limit built n = .ok built') : Added depend [n] built built' := by
  induction limit generalizing built built' n with
  | zero => cases h
  | succ limit ih =>
    simp only [add] at h
    cases hdeps : depend n with
    | none =>
      rw [hdeps] at h
      cases h
    | some deps =>
      rw [hdeps] at h
      by_cases hn : n ∈ built
      · simp only [hn, ↓reduceIte] at h
        cases h
        exact ⟨fun _ hm => hm, by simpa using hn, id, fun _ hm => .inl hm⟩
      · simp only [hn, ↓reduceIte] at h
        cases hmid : deps.foldlM (add depend limit) built with
        | error e =>
          rw [hmid] at h
          cases h
        | ok mid =>
          rw [hmid] at h
          cases h
          have hadded := foldlM_added depend ih deps built mid hmid
          refine ⟨fun m hm => ?_, by simp, fun hc m hm => ?_, fun m hm => ?_⟩
          · exact List.mem_append_left _ (hadded.kept m hm)
          · rcases List.mem_append.mp hm with hm | hm
            · obtain ⟨deps', hdeps', hin⟩ := hadded.closed hc m hm
              exact ⟨deps', hdeps', fun d hd => List.mem_append_left _ (hin d hd)⟩
            · obtain rfl : m = n := by simpa using hm
              exact ⟨deps, hdeps, fun d hd => List.mem_append_left _ (hadded.there d hd)⟩
          · rcases List.mem_append.mp hm with hm | hm
            · rcases hadded.only m hm with hm | ⟨d, hd, hdm⟩
              · exact .inl hm
              · exact .inr ⟨n, by simp, .head ⟨deps, hdeps, hd⟩ hdm⟩
            · obtain rfl : m = n := by simpa using hm
              exact .inr ⟨m, by simp, .refl⟩

/-! ## Termination -/

/-- All dependencies are known and none leads back. -/
structure Ranked (rank : α → Nat) : Prop where
  known : ∀ n deps, depend n = some deps → ∀ m ∈ deps, (depend m).isSome
  lower : ∀ n deps, depend n = some deps → ∀ m ∈ deps, rank m < rank n

theorem add_succeeds {rank : α → Nat} (hrank : Ranked depend rank) (limit : Nat) (built : List α)
    (n : α) (hn : (depend n).isSome) (hlimit : rank n < limit) :
    ∃ built', add depend limit built n = .ok built' := by
  induction limit generalizing built n with
  | zero => omega
  | succ limit ih =>
    obtain ⟨deps, hdeps⟩ := Option.isSome_iff_exists.mp hn
    simp only [add, hdeps]
    by_cases hmem : n ∈ built
    · exact ⟨built, by simp [hmem]⟩
    · have hlower := hrank.lower n deps hdeps
      obtain ⟨mid, hmid⟩ := foldlM_succeeds deps (fun m hm built =>
        ih built m (hrank.known n deps hdeps m hm) (by have := hlower m hm; omega)) built
      refine ⟨mid ++ [n], ?_⟩
      simp only [hmem, ↓reduceIte, hmid]
      rfl

/-- Without a cycle a name is not among the dependencies that are added before it. -/
theorem add_inOrder (hacyclic : Acyclic depend) (limit : Nat) (built built' : List α) (n : α)
    (hin : InOrder depend built) (h : add depend limit built n = .ok built') :
    InOrder depend built' := by
  induction limit generalizing built built' n with
  | zero => cases h
  | succ limit ih =>
    simp only [add] at h
    cases hdeps : depend n with
    | none =>
      rw [hdeps] at h
      cases h
    | some deps =>
      rw [hdeps] at h
      by_cases hn : n ∈ built
      · simp only [hn, ↓reduceIte] at h
        cases h
        exact hin
      · simp only [hn, ↓reduceIte] at h
        cases hmid : deps.foldlM (add depend limit) built with
        | error e =>
          rw [hmid] at h
          cases h
        | ok mid =>
          rw [hmid] at h
          cases h
          have hadded := foldlM_added depend (add_added depend limit) deps built mid hmid
          obtain ⟨hordered, hnodup⟩ := foldlM_inOrder depend ih deps built mid hin hmid
          have hnew : n ∉ mid := by
            intro hmem
            rcases hadded.only n hmem with hb | ⟨d, hd, hdn⟩
            · exact hn hb
            · exact hacyclic n (.head' ⟨deps, hdeps, hd⟩ hdn)
          constructor
          · apply hordered.snoc
            rintro m ⟨deps', hdeps', hm⟩
            rw [hdeps] at hdeps'
            cases hdeps'
            exact hadded.there m hm
          · exact List.nodup_append.mpr ⟨hnodup, List.nodup_singleton n, by
              intro a ha b hb he
              rw [List.mem_singleton.mp hb] at he
              exact hnew (he ▸ ha)⟩

/-! ## Termination without a rank -/

/-- Some depth of nesting is enough for every root, whatever has been added. -/
theorem foldlM_eventually (roots : List α)
    (h : ∀ n ∈ roots, ∃ least, ∀ limit, least ≤ limit → ∀ built,
      ∃ built', add depend limit built n = .ok built') :
    ∃ least, ∀ limit, least ≤ limit → ∀ built,
      ∃ built', roots.foldlM (add depend limit) built = .ok built' := by
  induction roots with
  | nil => exact ⟨0, fun _ _ built => ⟨built, rfl⟩⟩
  | cons r roots ih =>
    obtain ⟨a, ha⟩ := h r List.mem_cons_self
    obtain ⟨b, hb⟩ := ih (fun n hn => h n (List.mem_cons_of_mem _ hn))
    refine ⟨max a b, fun limit hlimit built => ?_⟩
    obtain ⟨mid, hmid⟩ := ha limit (le_trans (le_max_left a b) hlimit) built
    obtain ⟨built', hbuilt'⟩ := hb limit (le_trans (le_max_right a b) hlimit) mid
    refine ⟨built', ?_⟩
    rw [List.foldlM_cons, hmid]
    exact hbuilt'

/-- Known names without cycles can be added, nested deep enough. -/
theorem add_eventually (hacyclic : Acyclic depend)
    (hfin : {n | (depend n).isSome}.Finite)
    (hknown : ∀ n m, Depends depend n m → (depend m).isSome) {n : α} (hn : (depend n).isSome) :
    ∃ least, ∀ limit, least ≤ limit → ∀ built,
      ∃ built', add depend limit built n = .ok built' := by
  have hwf := acyclic_wellFoundedOn depend hacyclic hfin
  refine hwf.induction (P := fun n => ∃ least, ∀ limit, least ≤ limit → ∀ built,
    ∃ built', add depend limit built n = .ok built') hn ?_
  intro n hn ih
  obtain ⟨deps, hdeps⟩ := Option.isSome_iff_exists.mp hn
  obtain ⟨least, hleast⟩ := foldlM_eventually depend deps (fun m hm =>
    ih m (hknown n m ⟨deps, hdeps, hm⟩) (.single ⟨deps, hdeps, hm⟩))
  refine ⟨least + 1, fun limit hlimit built => ?_⟩
  obtain ⟨limit, rfl⟩ : ∃ k, limit = k + 1 := ⟨limit - 1, by omega⟩
  simp only [add, hdeps]
  by_cases hmem : n ∈ built
  · exact ⟨built, by simp only [hmem, ↓reduceIte]⟩
  · obtain ⟨mid, hmid⟩ := hleast limit (by omega) built
    refine ⟨mid ++ [n], ?_⟩
    simp only [hmem, ↓reduceIte, hmid]
    rfl

end DependencyOrder
