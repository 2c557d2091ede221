import Mathlib.Data.List.Nodup
import Mathlib.Logic.Function.Basic

/-!
# Scans in place

A scan visits a list of sites. At each one a rule may give the site a new value
that depends on the values of all sites at that time, those rewritten earlier
included. Rewritten sites are counted.
-/

namespace SiteScan

variable {ι α σ : Type} [DecidableEq ι]

/-- The new value of a site, if it gets one. -/
abbrev Rule (ι α : Type) := (ι → α) → ι → Option α

def visit (rule : Rule ι α) (s : Nat × (ι → α)) (i : ι) : Nat × (ι → α) :=
  match rule s.2 i with
  | none => s
  | some v => (s.1 + 1, Function.update s.2 i v)

def scan (rule : Rule ι α) (sites : List ι) (s : Nat × (ι → α)) : Nat × (ι → α) :=
  sites.foldl (visit rule) s

variable {rule : Rule ι α}

theorem visit_none {s : Nat × (ι → α)} {i : ι} (h : rule s.2 i = none) :
    visit rule s i = s := by
  simp only [visit, h]

theorem visit_some {s : Nat × (ι → α)} {i : ι} {v : α} (h : rule s.2 i = some v) :
    visit rule s i = (s.1 + 1, Function.update s.2 i v) := by
  simp only [visit, h]

theorem visit_other (s : Nat × (ι → α)) {i j : ι} (h : j ≠ i) :
    (visit rule s i).2 j = s.2 j := by
  cases hr : rule s.2 i with
  | none => rw [visit_none hr]
  | some v =>
    rw [visit_some hr]
    exact Function.update_of_ne h v s.2

theorem scan_append (before after : List ι) (s : Nat × (ι → α)) :
    scan rule (before ++ after) s = scan rule after (scan rule before s) :=
  List.foldl_append

/-- A site that is not visited keeps its value. -/
theorem scan_other (sites : List ι) (s : Nat × (ι → α)) {i : ι} (h : i ∉ sites) :
    (scan rule sites s).2 i = s.2 i := by
  induction sites generalizing s with
  | nil => rfl
  | cons j sites ih =>
    have hi := ih (visit rule s j) (List.not_mem_of_not_mem_cons h)
    rw [visit_other s (List.ne_of_not_mem_cons h)] at hi
    exact hi

/-- A site that is visited once ends as that visit leaves it. -/
theorem scan_at (before after : List ι) (s : Nat × (ι → α)) {i : ι}
    (h : (before ++ i :: after).Nodup) :
    (scan rule (before ++ i :: after) s).2 i = (visit rule (scan rule before s) i).2 i ∧
      (scan rule before s).2 i = s.2 i := by
  have hout : i ∉ before ∧ i ∉ after := by
    have hn := (List.nodup_middle.mp h)
    have hi := (List.nodup_cons.mp hn).1
    exact ⟨fun hb => hi (List.mem_append_left _ hb), fun ha => hi (List.mem_append_right _ ha)⟩
  constructor
  · rw [scan_append]
    exact scan_other after _ hout.2
  · exact scan_other before s hout.1

/-- Where every rewriting changes the value, the count is that of the changed sites. -/
theorem scan_count [DecidableEq α] (hrule : ∀ f i v, rule f i = some v → v ≠ f i)
    (sites : List ι) (s : Nat × (ι → α)) (h : sites.Nodup) :
    (scan rule sites s).1 =
      s.1 + (sites.filter (fun i => (scan rule sites s).2 i ≠ s.2 i)).length := by
  induction sites generalizing s with
  | nil => rfl
  | cons j sites ih =>
    obtain ⟨hj, hrest⟩ := List.nodup_cons.mp h
    have hstep : scan rule (j :: sites) s = scan rule sites (visit rule s j) := rfl
    have hfinal : (scan rule sites (visit rule s j)).2 j = (visit rule s j).2 j :=
      scan_other sites (visit rule s j) hj
    have htail : sites.filter (fun i => (scan rule sites (visit rule s j)).2 i ≠ s.2 i) =
        sites.filter (fun i => (scan rule sites (visit rule s j)).2 i ≠ (visit rule s j).2 i) := by
      apply List.filter_congr
      intro i hi
      have hne : i ≠ j := by
        rintro rfl
        exact hj hi
      rw [visit_other s hne]
    rw [hstep, ih _ hrest, List.filter_cons, hfinal, htail]
    cases hr : rule s.2 j with
    | none =>
      rw [visit_none hr]
      simp
    | some v =>
      have hne := hrule _ _ _ hr
      rw [visit_some hr]
      simp [hne]
      omega

/-- Code whose body does what a visit does, as far as a relation tells. -/
theorem scan_simulates (R : σ → Nat × (ι → α) → Prop) (body : σ → ι → σ) (sites : List ι)
    (hbody : ∀ s t i, i ∈ sites → R s t → R (body s i) (visit rule t i)) {s : σ}
    {t : Nat × (ι → α)} (h : R s t) : R (sites.foldl body s) (scan rule sites t) := by
  induction sites generalizing s t with
  | nil => exact h
  | cons i sites ih =>
    apply ih
    · intro s t j hj
      exact hbody s t j (List.mem_cons_of_mem _ hj)
    · exact hbody s t i List.mem_cons_self h

end SiteScan
