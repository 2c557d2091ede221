import Mathlib.Data.List.Infix
import Mathlib.Data.List.Flatten
import Mathlib.Data.List.Pairwise

/-!
# Walks over trees

A walk that goes down from a place to those below it, and takes some of the places that it comes
to, each before or behind what it takes below. It takes what can be reached and is to be taken,
each place once.
-/

namespace TreeWalk

variable {ν : Type}

/-- What a walk finds at a place, which is named by the names that lead to it. -/
structure Walk (ν : Type) where
  /-- The names of the places below. -/
  kids : List ν → List ν
  /-- Whether the walk goes down. -/
  enters : List ν → Bool
  takes : List ν → Bool
  /-- A place comes before what is below it. -/
  first : Bool

namespace Walk

variable (w : Walk ν)

/-- What is taken from a place on, at no more levels than this. -/
def items : Nat → List ν → List (List ν)
  | 0, _ => []
  | limit + 1, l =>
    (if w.first ∧ w.takes l then [l] else []) ++
      (if w.enters l then (w.kids l).flatMap fun n => items limit (l ++ [n]) else []) ++
      (if ¬w.first ∧ w.takes l then [l] else [])

/-- The walk comes from one place to another. -/
inductive Reaches (l : List ν) : List ν → Prop where
  | here : Reaches l l
  | step {m : List ν} {n : ν} (hm : Reaches l m) (henters : w.enters m = true)
      (hn : n ∈ w.kids m) : Reaches l (m ++ [n])

/-- What may stand between two places: the later one is not below the earlier one, or not above. -/
def Before (first : Bool) (a b : List ν) : Prop := if first then ¬b <+: a else ¬a <+: b

variable {w} {l m : List ν}

theorem Reaches.head {n : ν} (henters : w.enters l = true) (hn : n ∈ w.kids l)
    (h : w.Reaches (l ++ [n]) m) : w.Reaches l m := by
  induction h with
  | here => exact .step .here henters hn
  | step _ henters hn ih => exact .step ih henters hn

/-- The first step of the way. -/
theorem reaches_iff : w.Reaches l m ↔
    m = l ∨ w.enters l = true ∧ ∃ n ∈ w.kids l, w.Reaches (l ++ [n]) m := by
  constructor
  · intro h
    induction h with
    | here => exact .inl rfl
    | step hm henters hn ih =>
      rcases ih with rfl | ⟨hl, n', hn', hreach⟩
      · exact .inr ⟨henters, _, hn, .here⟩
      · exact .inr ⟨hl, n', hn', .step hreach henters hn⟩
  · rintro (rfl | ⟨henters, n, hn, h⟩)
    · exact .here
    · exact h.head henters hn

theorem Reaches.isPrefix (h : w.Reaches l m) : l <+: m := by
  induction h with
  | here => exact List.prefix_rfl
  | step _ _ _ ih => exact ih.trans (List.prefix_append _ _)

/-- The last step of the way. -/
theorem reaches_concat {n : ν} :
    w.Reaches [] (m ++ [n]) ↔ w.Reaches [] m ∧ w.enters m = true ∧ n ∈ w.kids m := by
  constructor
  · intro h
    generalize hnames : m ++ [n] = names at h
    cases h with
    | here => exact absurd hnames (by simp)
    | step hm henters hn =>
      obtain ⟨rfl, hlast⟩ := List.append_inj' hnames rfl
      cases hlast
      exact ⟨hm, henters, hn⟩
  · rintro ⟨hm, henters, hn⟩
    exact .step hm henters hn

/-- A place that is there is reached if the walk goes down at all places above it. -/
theorem reaches_iff_opens {depth : Nat} {opens : List ν → Prop}
    (hkids : ∀ above n, above ++ [n] <+: m → n ∈ w.kids above)
    (henters : ∀ above n, above ++ [n] <+: m →
      (w.enters above = true ↔ above.length < depth ∧ opens above)) :
    w.Reaches [] m ↔ m.length ≤ depth ∧ ∀ above n, above ++ [n] <+: m → opens above := by
  induction m using List.reverseRecOn with
  | nil =>
    refine iff_of_true .here ⟨Nat.zero_le _, fun above n hprefix => ?_⟩
    exact absurd (List.prefix_nil.mp hprefix) (List.concat_ne_nil n above)
  | append_singleton m n ih =>
    have hup : ∀ above k, above ++ [k] <+: m → above ++ [k] <+: m ++ [n] := fun above k h =>
      h.trans (List.prefix_append m [n])
    have hlast := henters m n List.prefix_rfl
    rw [reaches_concat, ih (fun above k h => hkids above k (hup above k h))
      (fun above k h => henters above k (hup above k h)), hlast, List.length_append,
      List.length_singleton]
    constructor
    · rintro ⟨⟨-, habove⟩, ⟨hdepth, hopens⟩, -⟩
      refine ⟨hdepth, fun above k hprefix => ?_⟩
      rcases List.prefix_concat_iff.mp hprefix with heq | hprefix
      · rw [(List.append_inj' heq rfl).1]
        exact hopens
      · exact habove above k hprefix
    · rintro ⟨hdepth, hopens⟩
      refine ⟨⟨by omega, fun above k h => hopens above k (hup above k h)⟩,
        ⟨hdepth, hopens m n List.prefix_rfl⟩, hkids m n List.prefix_rfl⟩

/-- What the walk takes, when it goes down no more levels than that. -/
theorem mem_items {depth limit : Nat} (hdeep : ∀ m, w.enters m = true → m.length < depth)
    (hl : l.length ≤ depth) (hlimit : depth < l.length + limit) :
    m ∈ w.items limit l ↔ w.Reaches l m ∧ w.takes m = true := by
  induction limit generalizing l with
  | zero => omega
  | succ limit ih =>
    have hself : ∀ c : Prop, [Decidable c] → (m ∈ (if c ∧ w.takes l then [l] else []) ↔
        c ∧ m = l ∧ w.takes m = true) := by
      intro c _
      by_cases hc : c ∧ w.takes l = true
      · rw [if_pos hc, List.mem_singleton]
        exact ⟨fun h => ⟨hc.1, h, h ▸ hc.2⟩, fun h => h.2.1⟩
      · rw [if_neg hc]
        exact iff_of_false List.not_mem_nil fun h => hc ⟨h.1, h.2.1 ▸ h.2.2⟩
    have hbelow : m ∈ (if w.enters l then (w.kids l).flatMap fun n => w.items limit (l ++ [n])
        else []) ↔ (w.enters l = true ∧ ∃ n ∈ w.kids l, w.Reaches (l ++ [n]) m) ∧
          w.takes m = true := by
      by_cases henters : w.enters l = true
      · have hlt := hdeep l henters
        rw [if_pos henters, List.mem_flatMap]
        constructor
        · rintro ⟨n, hn, hm⟩
          obtain ⟨hreach, htakes⟩ := (ih (by simp; omega) (by simp; omega)).mp hm
          exact ⟨⟨henters, n, hn, hreach⟩, htakes⟩
        · rintro ⟨⟨-, n, hn, hreach⟩, htakes⟩
          exact ⟨n, hn, (ih (by simp; omega) (by simp; omega)).mpr ⟨hreach, htakes⟩⟩
      · rw [if_neg henters]
        exact iff_of_false List.not_mem_nil fun h => henters h.1.1
    rw [items, List.mem_append, List.mem_append, hself, hself, hbelow, reaches_iff, or_and_right]
    cases w.first <;> simp [or_comm]

theorem items_below (limit : Nat) (l : List ν) : ∀ m ∈ w.items limit l, l <+: m := by
  induction limit generalizing l with
  | zero => exact fun m hm => absurd hm List.not_mem_nil
  | succ limit ih =>
    have hself : ∀ (c : Prop) [Decidable c], ∀ m ∈ (if c then [l] else []), l <+: m := by
      intro c _ m hm
      split at hm
      · exact List.mem_singleton.mp hm ▸ List.prefix_rfl
      · cases hm
    intro m hm
    rw [items, List.mem_append, List.mem_append] at hm
    rcases hm with (hm | hm) | hm
    · exact hself _ m hm
    · split at hm
      · obtain ⟨n, -, hm⟩ := List.mem_flatMap.mp hm
        exact (List.prefix_append l [n]).trans (ih _ m hm)
      · cases hm
    · exact hself _ m hm

theorem before_of_apart {first : Bool} {a b : List ν} (hab : ¬a <+: b) (hba : ¬b <+: a) :
    Before first a b := by
  rw [Before]
  split
  · exact hba
  · exact hab

/-- What is below different names is not one below the other. -/
theorem apart_of_names {n n' : ν} (hne : n ≠ n') {a b : List ν} (ha : l ++ [n] <+: a)
    (hb : l ++ [n'] <+: b) : ¬a <+: b := by
  intro hab
  have hlength : (l ++ [n]).length = (l ++ [n']).length := by simp
  have heq := List.prefix_of_prefix_length_le (ha.trans hab) hb (Nat.le_of_eq hlength)
  have hsame := heq.eq_of_length hlength
  exact hne (List.singleton_injective (List.append_cancel_left hsame))

/-- No place comes twice, and each comes before or behind all that is below it. -/
theorem items_ordered (limit : Nat) (l : List ν)
    (hkids : ∀ m, w.Reaches l m → w.enters m = true → (w.kids m).Nodup) :
    (w.items limit l).Pairwise (Before w.first) := by
  induction limit generalizing l with
  | zero => exact List.Pairwise.nil
  | succ limit ih =>
    have hbelow : ∀ m ∈ (if w.enters l then (w.kids l).flatMap fun n => w.items limit (l ++ [n])
        else []), ∃ n, l ++ [n] <+: m := by
      intro m hm
      split at hm
      · obtain ⟨n, -, hm⟩ := List.mem_flatMap.mp hm
        exact ⟨n, items_below limit _ m hm⟩
      · cases hm
    have hnot : ∀ {m}, (∃ n, l ++ [n] <+: m) → ¬m <+: l := by
      rintro m ⟨n, hn⟩ hml
      have hlength := (hn.trans hml).length_le
      rw [List.length_append, List.length_singleton] at hlength
      omega
    have hmiddle : (if w.enters l then (w.kids l).flatMap fun n => w.items limit (l ++ [n])
        else []).Pairwise (Before w.first) := by
      split
      · next henters =>
        rw [List.pairwise_flatMap]
        refine ⟨fun n hn => ih _ fun m hm => hkids m (hm.head henters hn),
          (hkids l .here henters).imp ?_⟩
        intro n n' hne a ha b hb
        exact before_of_apart
          (apart_of_names hne (items_below limit _ a ha) (items_below limit _ b hb))
          (apart_of_names hne.symm (items_below limit _ b hb) (items_below limit _ a ha))
      · exact List.Pairwise.nil
    have hself : ∀ (c : Prop) [Decidable c], (if c then [l] else []).Pairwise (Before w.first) := by
      intro c _
      split
      · exact List.pairwise_singleton _ l
      · exact List.Pairwise.nil
    rw [items, List.pairwise_append, List.pairwise_append]
    refine ⟨⟨hself _, hmiddle, ?_⟩, hself _, ?_⟩
    · intro a ha b hb
      split at ha
      · next hfirst =>
        rw [List.mem_singleton.mp ha, Before, if_pos hfirst.1]
        exact hnot (hbelow b hb)
      · cases ha
    · intro a ha b hb
      split at hb
      · next hlast =>
        rw [List.mem_singleton.mp hb, Before, if_neg hlast.1]
        rw [if_neg (fun h => hlast.1 h.1), List.nil_append] at ha
        exact hnot (hbelow a ha)
      · cases hb

theorem Before.ne {first : Bool} {a b : List ν} (h : Before first a b) : a ≠ b := by
  rintro rfl
  rw [Before, ite_self] at h
  exact h List.prefix_rfl

end Walk

end TreeWalk
