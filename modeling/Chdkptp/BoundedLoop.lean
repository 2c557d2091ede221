import Mathlib.Order.Basic

/-!
# Loops with a measure, counted loops

A loop is a step function that either goes on with a new state or leaves with
a result, together with a measure that every continuing step lowers. Its run is
a total function, defined by recursion on the measure, and is reasoned about
through the two step equations and the induction rules below.
-/

namespace BoundedLoop

variable {σ ρ : Type}

structure Loop (σ ρ : Type) where
  step : σ → σ ⊕ ρ
  measure : σ → Nat
  decreases : ∀ s s', step s = .inl s' → measure s' < measure s

namespace Loop

def go (L : Loop σ ρ) : (fuel : Nat) → (s : σ) → L.measure s < fuel → ρ
  | 0, _, h => absurd h (Nat.not_lt_zero _)
  | fuel + 1, s, h =>
    match hs : L.step s with
    | .inl s' => L.go fuel s' (Nat.lt_of_lt_of_le (L.decreases s s' hs) (Nat.le_of_lt_succ h))
    | .inr r => r

def run (L : Loop σ ρ) (s : σ) : ρ := L.go (L.measure s + 1) s (Nat.lt_succ_self _)

/-- The run does not depend on how much fuel is left. -/
theorem go_eq (L : Loop σ ρ) (m n : Nat) (s : σ) (hm : L.measure s < m) (hn : L.measure s < n) :
    L.go m s hm = L.go n s hn := by
  induction m generalizing n s with
  | zero => omega
  | succ m ih =>
    cases n with
    | zero => omega
    | succ n =>
      simp only [go]
      split
      · exact ih _ _ _ _
      · rfl

theorem run_inl (L : Loop σ ρ) {s s' : σ} (h : L.step s = .inl s') : L.run s = L.run s' := by
  have hlt := L.decreases s s' h
  have hgo : L.run s = L.go (L.measure s) s' hlt := by
    simp only [run, go]
    split
    · rename_i t ht
      rw [h] at ht
      cases ht
      rfl
    · rename_i r hr
      rw [h] at hr
      cases hr
  rw [hgo]
  exact L.go_eq _ _ _ _ _

theorem run_inr (L : Loop σ ρ) {s : σ} {r : ρ} (h : L.step s = .inr r) : L.run s = r := by
  simp only [run, go]
  split
  · rename_i t ht
    rw [h] at ht
    cases ht
  · rename_i t ht
    rw [h] at ht
    cases ht
    rfl

/-- A relation between start and result that every step respects relates the
start to the result of the run. -/
theorem run_related (L : Loop σ ρ) (R : σ → ρ → Prop)
    (hleave : ∀ s r, L.step s = .inr r → R s r)
    (hnext : ∀ s s' r, L.step s = .inl s' → R s' r → R s r) (s : σ) : R s (L.run s) := by
  induction hm : L.measure s using Nat.strongRecOn generalizing s with
  | ind m ih =>
    cases hs : L.step s with
    | inl s' =>
      rw [L.run_inl hs]
      have hlt := L.decreases s s' hs
      exact hnext s s' _ hs (ih (L.measure s') (by omega) s' rfl)
    | inr r =>
      rw [L.run_inr hs]
      exact hleave s r hs

/-- The invariant rule: what every continuing step keeps holds when the loop is left. -/
theorem run_invariant (L : Loop σ ρ) (P : σ → Prop) (Q : ρ → Prop)
    (hnext : ∀ s s', P s → L.step s = .inl s' → P s')
    (hleave : ∀ s r, P s → L.step s = .inr r → Q r) {s : σ} (h : P s) : Q (L.run s) :=
  L.run_related (fun s r => P s → Q r) (fun s r hs hp => hleave s r hp hs)
    (fun s s' _ hs ih hp => ih (hnext s s' hp hs)) s h

end Loop

/-- `for(i = 0; i < n; i++)`: the body sees the counter. -/
def forUp (body : Nat → σ → σ) : Nat → σ → σ
  | 0, s => s
  | n + 1, s => body n (forUp body n s)

@[simp] theorem forUp_zero (body : Nat → σ → σ) (s : σ) : forUp body 0 s = s := rfl

@[simp] theorem forUp_succ (body : Nat → σ → σ) (n : Nat) (s : σ) :
    forUp body (n + 1) s = body n (forUp body n s) := rfl

/-- An invariant indexed by the number of finished iterations. -/
theorem forUp_invariant (body : Nat → σ → σ) (P : Nat → σ → Prop) (n : Nat) (s : σ)
    (hzero : P 0 s) (hnext : ∀ k t, k < n → P k t → P (k + 1) (body k t)) :
    P n (forUp body n s) := by
  induction n with
  | zero => exact hzero
  | succ n ih =>
    exact hnext n _ (Nat.lt_succ_self n) (ih (fun k t hk hp => hnext k t (by omega) hp))

/-- What one iteration brings about and no later one undoes holds in the end. -/
theorem forUp_left (body : Nat → σ → σ) (P : σ → Prop) {k n : Nat} {s : σ} (hk : k < n)
    (hmake : ∀ t, P (body k t)) (hkeep : ∀ j t, k < j → j < n → P t → P (body j t)) :
    P (forUp body n s) := by
  induction n with
  | zero => omega
  | succ n ih =>
    rcases Nat.lt_succ_iff_lt_or_eq.mp hk with hlt | rfl
    · exact hkeep n _ hlt (Nat.lt_succ_self n)
        (ih hlt (fun j t hj hn => hkeep j t hj (Nat.lt_succ_of_lt hn)))
    · exact hmake _

/-- Bodies that agree on the states of one loop give the same loop. -/
theorem forUp_congr (body body' : Nat → σ → σ) (n : Nat) (s : σ)
    (h : ∀ k, k < n → body k (forUp body' k s) = body' k (forUp body' k s)) :
    forUp body n s = forUp body' n s := by
  induction n with
  | zero => rfl
  | succ n ih =>
    rw [forUp_succ, forUp_succ, ih (fun k hk => h k (Nat.lt_succ_of_lt hk)),
      h n (Nat.lt_succ_self n)]

/-- A log that every iteration extends holds the entries of all of them in order. -/
theorem forUp_log {α : Type} (body : Nat → σ → σ) (log : σ → List α) (entries : Nat → List α)
    (hbody : ∀ k s, log (body k s) = log s ++ entries k) (n : Nat) (s : σ) :
    log (forUp body n s) = log s ++ (List.range n).flatMap entries := by
  induction n with
  | zero => simp
  | succ n ih =>
    rw [forUp_succ, hbody, ih, List.range_succ, List.flatMap_append, List.append_assoc]
    simp

/-- A counted loop is a fold over its counters. -/
theorem forUp_eq_foldl (body : Nat → σ → σ) (n : Nat) (s : σ) :
    forUp body n s = (List.range n).foldl (fun s k => body k s) s := by
  induction n with
  | zero => rfl
  | succ n ih =>
    rw [forUp_succ, ih, List.range_succ, List.foldl_append]
    rfl

/-- Two nested loops are a fold over the sites in the order of their visits. -/
theorem forUp_sites {ι : Type} (site : Nat → Nat → ι) (body : ι → σ → σ) (m n : Nat) (s : σ) :
    forUp (fun j s => forUp (fun k s => body (site j k) s) n s) m s =
      ((List.range m).flatMap fun j => (List.range n).map (site j)).foldl
        (fun s i => body i s) s := by
  induction m with
  | zero => rfl
  | succ m ih =>
    rw [forUp_succ, ih, forUp_eq_foldl, List.range_succ, List.flatMap_append, List.foldl_append,
      List.flatMap_singleton, List.foldl_map]

/-! ### Logs of blocks of one length -/

theorem length_blocks {α : Type} (block : Nat → List α) (len : Nat)
    (hlen : ∀ k, (block k).length = len) (n : Nat) :
    ((List.range n).flatMap block).length = n * len := by
  induction n with
  | zero => simp
  | succ n ih =>
    rw [List.range_succ, List.flatMap_append, List.length_append, ih, Nat.succ_mul]
    simp [hlen]

/-- The `k`-th block of a log stands at `k` times the length. -/
theorem window_blocks {α : Type} (block : Nat → List α) (len : Nat)
    (hlen : ∀ k, (block k).length = len) (n k : Nat) (hk : k < n) :
    (((List.range n).flatMap block).drop (k * len)).take len = block k := by
  induction n with
  | zero => omega
  | succ n ih =>
    have hn := length_blocks block len hlen n
    have hlast : (List.flatMap block [n]) = block n := by simp
    rw [List.range_succ, List.flatMap_append, hlast]
    rcases Nat.lt_succ_iff_lt_or_eq.mp hk with hlt | rfl
    · have hend : k * len + len ≤ n * len := by
        rw [← Nat.succ_mul]
        exact Nat.mul_le_mul_right len hlt
      rw [List.drop_append_of_le_length (by omega), List.take_append_of_le_length, ih hlt]
      rw [List.length_drop]
      omega
    · rw [← hn, List.drop_left, ← hlen k, List.take_length]

/-- The block of column `x` and row `y` in the log of two nested loops. -/
theorem window_grid {α : Type} (block : Nat → Nat → List α) (len width height x y : Nat)
    (hlen : ∀ y x, (block y x).length = len) (hx : x < width) (hy : y < height) :
    (((List.range height).flatMap fun y => (List.range width).flatMap (block y)).drop
      ((y * width + x) * len)).take len = block y x := by
  have hrow := window_blocks (fun y => (List.range width).flatMap (block y)) (width * len)
    (fun y => length_blocks (block y) len (hlen y) width) height y hy
  have hend : x * len + len ≤ width * len := by
    rw [← Nat.succ_mul]
    exact Nat.mul_le_mul_right len hx
  have hoff : (y * width + x) * len = y * (width * len) + x * len := by
    rw [Nat.add_mul, Nat.mul_assoc]
  have hcol := window_blocks (block y) len (hlen y) width x hx
  rw [← hrow, List.drop_take, List.take_take, List.drop_drop, ← hoff] at hcol
  rwa [Nat.min_eq_left (by omega)] at hcol

/-- An entry of that block. -/
theorem getElem?_grid {α : Type} (block : Nat → Nat → List α) {len width height x y q : Nat}
    (hlen : ∀ y x, (block y x).length = len) (hx : x < width) (hy : y < height) (hq : q < len) :
    ((List.range height).flatMap fun y => (List.range width).flatMap (block y))[
      (y * width + x) * len + q]? = (block y x)[q]? := by
  rw [← window_grid block len width height x y hlen hx hy, List.getElem?_take_of_lt hq,
    List.getElem?_drop]

/-- A projection that the body respects turns the loop into one on the projection. -/
theorem forUp_map {τ : Type} (body : Nat → σ → σ) (body' : Nat → τ → τ) (proj : σ → τ)
    (hbody : ∀ k s, proj (body k s) = body' k (proj s)) (n : Nat) (s : σ) :
    proj (forUp body n s) = forUp body' n (proj s) := by
  induction n with
  | zero => rfl
  | succ n ih => rw [forUp_succ, hbody, ih, forUp_succ]

end BoundedLoop
