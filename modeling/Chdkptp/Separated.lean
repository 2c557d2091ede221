import Mathlib.Data.List.DropRight

/-!
# Names between separators

A list in which some elements separate: the names are what stands between them, as far as it
is not empty. A list with a name ends in one and in separators behind it.
-/

namespace Separated

variable {α : Type} {p sep : α → Bool} {a r l : List α}

/-! ## The end of a list -/

/-- What stands behind the last element that does not satisfy the test. -/
theorem rdropWhile_append (ha : ∀ q c, a = q ++ [c] → p c = false) (hr : ∀ c ∈ r, p c = true) :
    (a ++ r).rdropWhile p = a := by
  rw [List.rdropWhile, List.reverse_append,
    List.dropWhile_append_of_pos fun c hc => hr c (List.mem_reverse.mp hc)]
  obtain rfl | ⟨q, c, rfl⟩ := List.eq_nil_or_concat' a
  · rfl
  · simp [ha q c rfl]

theorem rtakeWhile_append (ha : ∀ q c, a = q ++ [c] → p c = false) (hr : ∀ c ∈ r, p c = true) :
    (a ++ r).rtakeWhile p = r := by
  have hwhole : (a ++ r).rdropWhile p ++ (a ++ r).rtakeWhile p = a ++ r :=
    List.rdropWhile_append_rtakeWhile
  rw [rdropWhile_append ha hr] at hwhole
  exact List.append_cancel_left hwhole

theorem rdropWhile_last {q : List α} {c : α} (h : r.rdropWhile p = q ++ [c]) : p c = false := by
  have hne : r.rdropWhile p ≠ [] := by
    rw [h]
    simp
  have hlast : some c = some ((r.rdropWhile p).getLast hne) := by
    rw [← List.getLast?_eq_some_getLast hne, h, List.getLast?_concat]
  rw [Option.some.inj hlast]
  simpa using List.rdropWhile_last_not _ _ hne

/-! ## Names -/

/-- What stands between separators, if anything does. -/
def names (sep : α → Bool) (l : List α) : List (List α) :=
  (l.splitOnP sep).filter fun n => !n.isEmpty

@[simp] theorem names_nil : names sep [] = [] := by
  simp [names]

theorem names_append_cons (l : List α) {s : α} (hs : sep s = true) (t : List α) :
    names sep (l ++ s :: t) = names sep l ++ names sep t := by
  rw [names, List.splitOnP_append_cons l t hs, List.filter_append]
  rfl

theorem names_append_seps (l : List α) (hr : ∀ c ∈ r, sep c = true) :
    names sep (l ++ r) = names sep l := by
  induction r using List.reverseRecOn with
  | nil => simp
  | append_singleton r c ih =>
    have hc : sep c = true := hr c (by simp)
    rw [← List.append_assoc, names_append_cons _ hc, names_nil, List.append_nil]
    exact ih fun d hd => hr d (by simp [hd])

theorem names_seps (hr : ∀ c ∈ r, sep c = true) : names sep r = [] := by
  have h := names_append_seps [] hr
  rwa [List.nil_append, names_nil] at h

theorem names_free (hne : l ≠ []) (hl : ∀ c ∈ l, sep c = false) : names sep l = [l] := by
  rw [names, List.splitOnP_eq_singleton hl]
  simp [hne]

theorem names_rdropWhile (l : List α) : names sep (l.rdropWhile sep) = names sep l := by
  have hwhole : l.rdropWhile sep ++ l.rtakeWhile sep = l := List.rdropWhile_append_rtakeWhile
  conv_rhs => rw [← hwhole]
  exact (names_append_seps _ fun c hc => List.mem_rtakeWhile_imp hc).symm

/-! ## The last name -/

/-- A list that ends in a name and separators. -/
structure Ending (sep : α → Bool) (l before name tail : List α) : Prop where
  eq : l = before ++ name ++ tail
  name_ne : name ≠ []
  name_free : ∀ c ∈ name, sep c = false
  tail_sep : ∀ c ∈ tail, sep c = true
  before_sep : ∀ q c, before = q ++ [c] → sep c = true

theorem exists_ending (sep : α → Bool) (l : List α) :
    (∀ c ∈ l, sep c = true) ∨ ∃ before name tail, Ending sep l before name tail := by
  by_cases hbody : l.rdropWhile sep = []
  · exact .inl (List.rdropWhile_eq_nil_iff.mp hbody)
  · have hwhole : l.rdropWhile sep ++ l.rtakeWhile sep = l := List.rdropWhile_append_rtakeWhile
    have hsplit : (l.rdropWhile sep).rdropWhile (fun c => !sep c) ++
        (l.rdropWhile sep).rtakeWhile (fun c => !sep c) = l.rdropWhile sep :=
      List.rdropWhile_append_rtakeWhile
    refine .inr ⟨_, _, _, by rw [hsplit, hwhole], ?_, ?_, ?_, ?_⟩
    · intro hname
      have hlast := List.rdropWhile_last_not _ _ hbody
      have hnot := List.rtakeWhile_eq_nil_iff.mp hname hbody
      simp_all
    · intro c hc
      simpa using List.mem_rtakeWhile_imp hc
    · intro c hc
      exact List.mem_rtakeWhile_imp hc
    · intro q c hq
      simpa using rdropWhile_last hq

namespace Ending

variable {before name tail : List α} (h : Ending sep l before name tail)

include h

theorem name_last {q : List α} {c : α} (hq : before ++ name = q ++ [c]) : sep c = false := by
  obtain hnil | ⟨n, d, hname⟩ := List.eq_nil_or_concat' name
  · exact absurd hnil h.name_ne
  · rw [hname, ← List.append_assoc] at hq
    obtain rfl : d = c := by simpa using (List.append_inj' hq rfl).2
    exact h.name_free d (by simp [hname])

/-- The list without the separators at its end. -/
theorem body_eq : l.rdropWhile sep = before ++ name := by
  rw [h.eq]
  exact rdropWhile_append (fun q c hq => h.name_last hq) h.tail_sep

theorem tail_eq : l.rtakeWhile sep = tail := by
  rw [h.eq]
  exact rtakeWhile_append (fun q c hq => h.name_last hq) h.tail_sep

theorem before_eq : (before ++ name).rdropWhile (fun c => !sep c) = before :=
  rdropWhile_append (fun q c hq => by simp [h.before_sep q c hq]) fun c hc => by
    simp [h.name_free c hc]

theorem name_eq : (before ++ name).rtakeWhile (fun c => !sep c) = name :=
  rtakeWhile_append (fun q c hq => by simp [h.before_sep q c hq]) fun c hc => by
    simp [h.name_free c hc]

theorem names_eq : names sep l = names sep before ++ [name] := by
  rw [h.eq, names_append_seps _ h.tail_sep, ← names_free h.name_ne h.name_free]
  obtain rfl | ⟨q, c, rfl⟩ := List.eq_nil_or_concat' before
  · simp
  · have hc : sep c = true := h.before_sep q c rfl
    rw [List.append_assoc, List.singleton_append, names_append_cons q hc, names_append_cons q hc,
      names_nil, List.append_nil]

theorem before_length : before.length < l.length := by
  have hname : 0 < name.length := List.length_pos_iff.mpr h.name_ne
  rw [h.eq, List.length_append, List.length_append]
  omega

end Ending

/-- Name by name from the end. -/
theorem ending_induction {P : List α → Prop} (seps : ∀ l, (∀ c ∈ l, sep c = true) → P l)
    (ending : ∀ l before name tail, Ending sep l before name tail → P before → P l) (l : List α) :
    P l := by
  induction hlen : l.length using Nat.strong_induction_on generalizing l with
  | _ n ih =>
    obtain hall | ⟨before, name, tail, hend⟩ := exists_ending sep l
    · exact seps l hall
    · exact ending l before name tail hend (ih before.length (hlen ▸ hend.before_length) before rfl)

theorem mem_names {n : List α} (h : n ∈ names sep l) : n ≠ [] ∧ ∀ c ∈ n, sep c = false := by
  induction l using @ending_induction α sep with
  | seps l hall =>
    rw [names_seps hall] at h
    cases h
  | ending l before name tail hend ih =>
    rw [hend.names_eq] at h
    obtain hbefore | hname := List.mem_append.mp h
    · exact ih hbefore
    · rw [List.mem_singleton.mp hname]
      exact ⟨hend.name_ne, hend.name_free⟩

theorem names_eq_nil_iff : names sep l = [] ↔ ∀ c ∈ l, sep c = true := by
  constructor
  · intro h
    obtain hall | ⟨before, name, tail, hend⟩ := exists_ending sep l
    · exact hall
    · rw [hend.names_eq] at h
      simp at h
  · exact names_seps

/-- A list that does not end in a separator. -/
structure Tidy (sep : α → Bool) (l : List α) : Prop where
  ne_nil : l ≠ []
  last : ∀ q c, l = q ++ [c] → sep c = false

theorem tidy_rdropWhile (h : l.rdropWhile sep ≠ []) : Tidy sep (l.rdropWhile sep) :=
  ⟨h, fun _ _ hq => rdropWhile_last hq⟩

namespace Tidy

variable (h : Tidy sep l)

include h

theorem tail_eq : l.rtakeWhile sep = [] := by
  rw [List.rtakeWhile_eq_nil_iff]
  intro hne
  simp [h.last _ _ (List.dropLast_append_getLast hne).symm]

theorem ending : ∃ before name, Ending sep l before name [] := by
  obtain hall | ⟨before, name, tail, hend⟩ := exists_ending sep l
  · obtain hnil | ⟨q, c, hq⟩ := List.eq_nil_or_concat' l
    · exact absurd hnil h.ne_nil
    · have hsep := hall c (by simp [hq])
      rw [h.last q c hq] at hsep
      cases hsep
  · obtain rfl : tail = [] := hend.tail_eq.symm.trans h.tail_eq
    exact ⟨before, name, hend⟩

theorem names_ne : names sep l ≠ [] := by
  obtain ⟨before, name, hend⟩ := h.ending
  rw [hend.names_eq]
  simp

/-- A single name with no separator before it. -/
theorem eq_of_names {n : List α} (hn : names sep l = [n])
    (hfirst : ∀ c s, l = c :: s → sep c = false) : l = n := by
  obtain ⟨before, name, hend⟩ := h.ending
  rw [hend.names_eq] at hn
  have hlen := congrArg List.length hn
  simp only [List.length_append, List.length_singleton, Nat.add_eq_right, List.length_eq_zero_iff]
    at hlen
  obtain rfl : name = n := by simpa [hlen] using hn
  obtain rfl : before = [] := by
    cases hb : before with
    | nil => rfl
    | cons c s =>
      have hsep := names_eq_nil_iff.mp hlen c (by simp [hb])
      have hfree := hfirst c (s ++ name ++ []) (by rw [hend.eq, hb]; rfl)
      rw [hsep] at hfree
      cases hfree
  simpa using hend.eq

end Tidy

end Separated
