import Mathlib.Algebra.Group.Int.Defs
import Mathlib.Algebra.Group.Nat.Defs
import Mathlib.Data.List.Range
import Mathlib.Logic.Function.Iterate

/-!
# The passes of loops

A loop with a counter of 32 bits as the list of the states it passes through, looked at
for so many passes. The counter wraps, so a loop may never end.
-/

namespace LoopPasses

variable {σ α β : Type}

/-- The states of the passes, and whether the loop has ended. -/
def passes (test : σ → Bool) (next : σ → σ) : (limit : Nat) → σ → List σ × Bool
  | 0, _ => ([], false)
  | limit + 1, s =>
    if test s then
      let rest := passes test next limit (next s)
      (s :: rest.1, rest.2)
    else ([], true)

theorem passes_end (test : σ → Bool) (next : σ → σ) (n limit : Nat) (s : σ)
    (hgo : ∀ k < n, test (next^[k] s) = true) (hstop : test (next^[n] s) = false)
    (hlimit : n < limit) :
    passes test next limit s = ((List.range n).map fun k => next^[k] s, true) := by
  induction n generalizing limit s with
  | zero =>
    obtain ⟨limit, rfl⟩ := Nat.exists_eq_add_of_lt hlimit
    simp [passes, show test s = false from hstop]
  | succ n ih =>
    cases limit with
    | zero => omega
    | succ limit =>
      have hfirst : test s = true := hgo 0 (by omega)
      have hrest := ih limit (next s) (fun k hk => hgo (k + 1) (by omega)) hstop (by omega)
      simp only [passes, hfirst, if_true, hrest, List.range_succ_eq_map, List.map_cons, List.map_map]
      rfl

theorem passes_running (test : σ → Bool) (next : σ → σ) (limit : Nat) (s : σ)
    (hgo : ∀ k < limit, test (next^[k] s) = true) :
    passes test next limit s = ((List.range limit).map fun k => next^[k] s, false) := by
  induction limit generalizing s with
  | zero => rfl
  | succ limit ih =>
    have hfirst : test s = true := hgo 0 (by omega)
    have hrest := ih (next s) fun k hk => hgo (k + 1) (by omega)
    simp only [passes, hfirst, if_true, hrest, List.range_succ_eq_map, List.map_cons, List.map_map]
    rfl

/-- A loop that has ended was looked at longer than it went on. -/
theorem passes_ended {test : σ → Bool} {next : σ → σ} {n limit : Nat} {s : σ}
    (h : (passes test next limit s).2 = true) (hgo : ∀ k < n, test (next^[k] s) = true) : n < limit := by
  by_contra hle
  rw [passes_running test next limit s fun k hk => hgo k (by omega)] at h
  cases h

/-- A state that a loop has passed through, however long it is looked at. -/
theorem mem_passes {test : σ → Bool} {next : σ → σ} {limit : Nat} {s s' : σ}
    (h : s' ∈ (passes test next limit s).1) :
    ∃ k < limit, s' = next^[k] s ∧ ∀ j ≤ k, test (next^[j] s) = true := by
  induction limit generalizing s with
  | zero => cases h
  | succ limit ih =>
    rw [passes] at h
    split at h
    · rename_i hfirst
      rcases List.mem_cons.mp h with rfl | h
      · refine ⟨0, by omega, rfl, fun j hj => ?_⟩
        obtain rfl : j = 0 := by omega
        exact hfirst
      · obtain ⟨k, hk, rfl, hgo⟩ := ih h
        refine ⟨k + 1, by omega, rfl, fun j hj => ?_⟩
        cases j with
        | zero => exact hfirst
        | succ j => exact hgo j (by omega)
    · cases h

/-- A loop in a loop: the inner one runs for every pass of the outer one, until one of
them has not ended. -/
def nest (inner : α → List β × Bool) : List α → List β × Bool
  | [] => ([], true)
  | a :: l =>
    if (inner a).2 then
      let rest := nest inner l
      ((inner a).1 ++ rest.1, rest.2)
    else ((inner a).1, false)

theorem nest_end (inner : α → List β × Bool) (l : List α) (h : ∀ a ∈ l, (inner a).2 = true) :
    nest inner l = (l.flatMap fun a => (inner a).1, true) := by
  induction l with
  | nil => rfl
  | cons a l ih =>
    rw [nest, if_pos (h a (by simp)), ih fun b hb => h b (by simp [hb])]
    rfl

theorem nest_running (inner : α → List β × Bool) (a : α) (l : List α) (h : (inner a).2 = false) :
    nest inner (a :: l) = ((inner a).1, false) := by
  rw [nest, if_neg (by simp [h])]

/-- Inner loops of an outer one that has ended have ended, the first one in particular. -/
theorem nest_ended {inner : α → List β × Bool} {a : α} {l : List α}
    (h : (nest inner (a :: l)).2 = true) : (inner a).2 = true := by
  cases hinner : (inner a).2 with
  | true => rfl
  | false =>
    rw [nest_running inner a l hinner] at h
    cases h

theorem mem_nest {inner : α → List β × Bool} {l : List α} {b : β} (h : b ∈ (nest inner l).1) :
    ∃ a ∈ l, b ∈ (inner a).1 := by
  induction l with
  | nil => cases h
  | cons a l ih =>
    rw [nest] at h
    split at h
    · rcases List.mem_append.mp h with h | h
      · exact ⟨a, by simp, h⟩
      · obtain ⟨c, hc, hb⟩ := ih h
        exact ⟨c, by simp [hc], hb⟩
    · exact ⟨a, by simp, h⟩

/-! ## A pointer beside an unsigned counter -/

/-- The values of `p` in the passes of `for(x=0;x<width;x+=step,p+=inc)` with an
unsigned `x`. -/
def strided (step width : Nat) (inc : Int) (limit : Nat) (p : Int) : List Int × Bool :=
  let r := passes (fun s : Nat × Int => s.1 < width)
    (fun s => ((s.1 + step) % 2 ^ 32, s.2 + inc)) limit (0, p)
  (r.1.map Prod.snd, r.2)

/-- How many passes there are when the counter does not wrap. -/
def passCount (step width : Nat) : Nat := (width + step - 1) / step

theorem strided_state (step : Nat) (inc p : Int) (k : Nat) :
    (fun s : Nat × Int => ((s.1 + step) % 2 ^ 32, s.2 + inc))^[k] (0, p) =
      (k * step % 2 ^ 32, p + k * inc) := by
  induction k with
  | zero => simp
  | succ k ih =>
    rw [Function.iterate_succ_apply', ih]
    refine Prod.ext ?_ ?_
    · simp [Nat.add_mul]
    · simp only [Int.natCast_succ, Int.add_mul, Int.one_mul, Int.add_assoc]

theorem lt_passCount {step width k : Nat} (hstep : 0 < step) :
    k < passCount step width ↔ k * step < width := by
  rw [passCount, Nat.lt_iff_add_one_le, Nat.le_div_iff_mul_le hstep, Nat.add_mul]
  omega

theorem strided_end {step width : Nat} (hstep : 0 < step) (inc p : Int) {limit : Nat}
    (hwrap : passCount step width * step < 2 ^ 32) (hlimit : passCount step width < limit) :
    strided step width inc limit p =
      ((List.range (passCount step width)).map fun k : Nat => p + k * inc, true) := by
  have hgo : ∀ k < passCount step width, k * step < width := fun k hk => (lt_passCount hstep).mp hk
  have hstop : ¬passCount step width * step < width := fun h =>
    Nat.lt_irrefl _ ((lt_passCount hstep).mpr h)
  rw [strided, passes_end _ _ (passCount step width) limit (0, p) ?_ ?_ hlimit]
  · simp only [List.map_map]
    refine Prod.ext (List.map_congr_left fun k _ => ?_) rfl
    exact congrArg Prod.snd (strided_state step inc p k)
  · intro k hk
    have hle : k * step ≤ passCount step width * step := Nat.mul_le_mul_right step hk.le
    rw [strided_state, Nat.mod_eq_of_lt (by omega)]
    exact decide_eq_true (hgo k hk)
  · rw [strided_state, Nat.mod_eq_of_lt hwrap]
    exact decide_eq_false hstop

theorem strided_running {step width : Nat} (inc p : Int) {limit : Nat}
    (hgo : ∀ k < limit, k * step % 2 ^ 32 < width) :
    strided step width inc limit p = ((List.range limit).map fun k : Nat => p + k * inc, false) := by
  rw [strided, passes_running _ _ limit (0, p) ?_]
  · simp only [List.map_map]
    refine Prod.ext (List.map_congr_left fun k _ => ?_) rfl
    exact congrArg Prod.snd (strided_state step inc p k)
  · intro k hk
    rw [strided_state]
    exact decide_eq_true (hgo k hk)

theorem strided_ended {step width : Nat} (hstep : 0 < step) {inc p : Int} {limit : Nat}
    (hwrap : passCount step width * step < 2 ^ 32) (h : (strided step width inc limit p).2 = true) :
    passCount step width < limit := by
  have hpasses : (passes (fun s : Nat × Int => s.1 < width)
      (fun s => ((s.1 + step) % 2 ^ 32, s.2 + inc)) limit (0, p)).2 = true := h
  refine passes_ended hpasses fun k hk => ?_
  have hlt : k * step < width := (lt_passCount hstep).mp hk
  have hle : k * step ≤ passCount step width * step := Nat.mul_le_mul_right step hk.le
  rw [strided_state, Nat.mod_eq_of_lt (by omega)]
  exact decide_eq_true hlt

/-- However long the loop is looked at, the pointer is in its range. -/
theorem strided_mem {step width : Nat} (hstep : 0 < step) {inc p : Int} {limit : Nat}
    (hwrap : passCount step width * step < 2 ^ 32) {q : Int}
    (hq : q ∈ (strided step width inc limit p).1) :
    ∃ k < passCount step width, q = p + (k : Nat) * inc := by
  by_cases hlimit : passCount step width < limit
  · rw [strided_end hstep inc p hwrap hlimit] at hq
    obtain ⟨k, hk, rfl⟩ := List.mem_map.mp hq
    exact ⟨k, List.mem_range.mp hk, rfl⟩
  · rw [strided_running inc p] at hq
    · obtain ⟨k, hk, rfl⟩ := List.mem_map.mp hq
      rw [List.mem_range] at hk
      exact ⟨k, by omega, rfl⟩
    · intro k hk
      have hlt : k * step < width := (lt_passCount hstep).mp (by omega)
      have hle : k * step ≤ passCount step width * step := Nat.mul_le_mul_right step (by omega)
      rwa [Nat.mod_eq_of_lt (by omega)]

/-- A counter that steps over the last value below the bound wraps and goes on. -/
theorem strided_endless {step width : Nat} (hstep : 0 < step) (hdvd : step ∣ 2 ^ 32)
    (hwrap : 2 ^ 32 ≤ passCount step width * step) (inc p : Int) (limit : Nat) :
    strided step width inc limit p = ((List.range limit).map fun k : Nat => p + k * inc, false) := by
  refine strided_running inc p fun k _ => ?_
  obtain ⟨c, hc⟩ := hdvd
  have hlast : c - 1 < passCount step width := by
    have hle : c ≤ passCount step width := by
      rw [hc, Nat.mul_comm] at hwrap
      exact Nat.le_of_mul_le_mul_right hwrap hstep
    have hpos : 0 < c := Nat.pos_of_ne_zero (by rintro rfl; omega)
    omega
  have hbound := (lt_passCount hstep).mp hlast
  have hmod : k * step % 2 ^ 32 = k % c * step := by
    rw [hc, Nat.mul_comm step c, Nat.mul_mod_mul_right]
  have hlt : k % c < c := Nat.mod_lt k (Nat.pos_of_ne_zero (by rintro rfl; omega))
  rw [hmod]
  exact (Nat.mul_le_mul_right step (by omega)).trans_lt hbound

end LoopPasses
