import Mathlib.Data.List.Forall2
import Mathlib.Data.List.Nodup
import Mathlib.Data.List.Lattice

/-!
# Traversals that mark what they visit

A traversal produces output and marks the nodes it enters; to enter a marked node
is an error. So it succeeds when its nodes are distinct and none was marked before.
`Spec` is the contract of a traversal: when it succeeds, which nodes it marks and
what can be said of its output. `Related` compares two traversals.
-/

namespace Visiting

variable {ε ν ω α : Type}

/-- What has been marked goes in; the output and what is marked then come out. -/
abbrev Visit (ε ν ω : Type) := List ν → Except ε (List ω × List ν)

def output (r : List ω) : Visit ε ν ω := fun seen => .ok (r, seen)

def fail (e : ε) : Visit ε ν ω := fun _ => .error e

def seq (f g : Visit ε ν ω) : Visit ε ν ω := fun seen =>
  (f seen).bind fun x => (g x.2).map fun y => (x.1 ++ y.1, y.2)

def mapOutput (h : List ω → List ω) (f : Visit ε ν ω) : Visit ε ν ω := fun seen =>
  (f seen).map fun x => (h x.1, x.2)

/-- Mark a node and go on; `again` is what happens if it is marked already. -/
def enter [DecidableEq ν] (n : ν) (again body : Visit ε ν ω) : Visit ε ν ω := fun seen =>
  if n ∈ seen then again seen else body (n :: seen)

def each (f : α → Visit ε ν ω) : List α → Visit ε ν ω
  | [] => output []
  | a :: as => seq (f a) (each f as)

/-- The traversal succeeds if `fits` holds and the nodes are distinct and unmarked; it
marks them, and its output satisfies `Q`. -/
structure Spec (f : Visit ε ν ω) (fits : Prop) (nodes : List ν) (Q : List ω → Prop) : Prop where
  sound : ∀ seen x, f seen = .ok x →
    fits ∧ nodes.Nodup ∧ nodes.Disjoint seen ∧ x.2 = nodes.reverse ++ seen ∧ Q x.1
  complete : ∀ seen, fits → nodes.Nodup → nodes.Disjoint seen → ∃ x, f seen = .ok x

variable {f g : Visit ε ν ω} {φ ψ : Prop} {A B : List ν} {Q R : List ω → Prop}

theorem Spec.output {r : List ω} (h : Q r) : Spec (ε := ε) (ν := ν) (output r) True [] Q where
  sound seen x hx := by
    cases hx
    exact ⟨trivial, List.nodup_nil, List.disjoint_nil_left seen, rfl, h⟩
  complete seen _ _ _ := ⟨(r, seen), rfl⟩

theorem Spec.fail (e : ε) : Spec (fail e : Visit ε ν ω) False A Q where
  sound _ _ hx := by cases hx
  complete _ h _ _ := h.elim

theorem Spec.conseq (h : Spec f φ A Q) (hφ : ψ ↔ φ) (hA : B = A) (hQ : ∀ r, Q r → R r) :
    Spec f ψ B R where
  sound seen x hx := by
    subst hA
    obtain ⟨hfits, hnodup, hdisj, hseen, hr⟩ := h.sound seen x hx
    exact ⟨hφ.mpr hfits, hnodup, hdisj, hseen, hQ x.1 hr⟩
  complete seen hψ := by
    subst hA
    exact h.complete seen (hφ.mp hψ)

theorem Spec.seq (hf : Spec f φ A Q) (hg : Spec g ψ B R) :
    Spec (seq f g) (φ ∧ ψ) (A ++ B) fun r => ∃ a b, r = a ++ b ∧ Q a ∧ R b where
  sound seen x hx := by
    unfold Visiting.seq at hx
    cases hfx : f seen with
    | error e =>
      rw [hfx] at hx
      cases hx
    | ok y =>
      obtain ⟨hφ, hA, hAseen, hy, hQ⟩ := hf.sound seen y hfx
      rw [hfx] at hx
      cases hgx : g y.2 with
      | error e =>
        simp only [Except.bind, hgx] at hx
        cases hx
      | ok z =>
        obtain ⟨hψ, hB, hBseen, hz, hR⟩ := hg.sound y.2 z hgx
        simp only [Except.bind, hgx] at hx
        cases hx
        rw [hy, List.disjoint_append_right, List.disjoint_reverse_right] at hBseen
        refine ⟨⟨hφ, hψ⟩, hA.append hB hBseen.1.symm, ?_, ?_, y.1, z.1, rfl, hQ, hR⟩
        · exact List.disjoint_append_left.mpr ⟨hAseen, hBseen.2⟩
        · rw [hz, hy, List.reverse_append, List.append_assoc]
  complete seen hfits hnodup hdisj := by
    obtain ⟨hA, hB, hAB⟩ := List.nodup_append'.mp hnodup
    obtain ⟨hAseen, hBseen⟩ := List.disjoint_append_left.mp hdisj
    obtain ⟨y, hy⟩ := hf.complete seen hfits.1 hA hAseen
    have hmarked := (hf.sound seen y hy).2.2.2.1
    have hBy : B.Disjoint y.2 := by
      rw [hmarked, List.disjoint_append_right, List.disjoint_reverse_right]
      exact ⟨hAB.symm, hBseen⟩
    obtain ⟨z, hz⟩ := hg.complete y.2 hfits.2 hB hBy
    exact ⟨(y.1 ++ z.1, z.2), by simp [Visiting.seq, hy, Except.bind, hz, Except.map]⟩

theorem Spec.mapOutput {h : List ω → List ω} (hf : Spec f φ A fun r => Q (h r)) :
    Spec (mapOutput h f) φ A Q where
  sound seen x hx := by
    unfold Visiting.mapOutput at hx
    cases hfx : f seen with
    | error e =>
      rw [hfx] at hx
      cases hx
    | ok y =>
      rw [hfx] at hx
      cases hx
      exact hf.sound seen y hfx
  complete seen hfits hnodup hdisj := by
    obtain ⟨y, hy⟩ := hf.complete seen hfits hnodup hdisj
    exact ⟨(h y.1, y.2), by simp [Visiting.mapOutput, hy, Except.map]⟩

theorem Spec.enter [DecidableEq ν] (n : ν) (e : ε) (hf : Spec f φ A Q) :
    Spec (enter n (Visiting.fail e) f) φ (n :: A) Q where
  sound seen x hx := by
    unfold Visiting.enter at hx
    split at hx
    · cases hx
    · obtain ⟨hφ, hA, hdisj, hmarked, hQ⟩ := hf.sound (n :: seen) x hx
      obtain ⟨hn, hAseen⟩ := List.disjoint_cons_right.mp hdisj
      refine ⟨hφ, List.nodup_cons.mpr ⟨hn, hA⟩, ?_, by simp [hmarked], hQ⟩
      exact List.disjoint_cons_left.mpr ⟨‹_›, hAseen⟩
  complete seen hfits hnodup hdisj := by
    obtain ⟨hn, hA⟩ := List.nodup_cons.mp hnodup
    obtain ⟨hnseen, hAseen⟩ := List.disjoint_cons_left.mp hdisj
    rw [Visiting.enter, if_neg hnseen]
    exact hf.complete (n :: seen) hfits hA (List.disjoint_cons_right.mpr ⟨hn, hAseen⟩)

/-- The outputs of a loop follow one another. -/
theorem Spec.each {f : α → Visit ε ν ω} {φ : α → Prop} {A : α → List ν}
    {Q : α → List ω → Prop} (as : List α) (hf : ∀ a ∈ as, Spec (f a) (φ a) (A a) (Q a)) :
    Spec (each f as) (∀ a ∈ as, φ a) (as.flatMap A)
      fun r => ∃ rs, r = rs.flatten ∧ List.Forall₂ Q as rs := by
  induction as with
  | nil => exact (Spec.output ⟨[], rfl, .nil⟩).conseq (by simp) rfl fun _ h => h
  | cons a as ih =>
    have hhead := hf a List.mem_cons_self
    have htail := ih fun b hb => hf b (List.mem_cons_of_mem a hb)
    refine (hhead.seq htail).conseq List.forall_mem_cons List.flatMap_cons ?_
    rintro r ⟨a', b', rfl, ha', rs, rfl, hrs⟩
    exact ⟨a' :: rs, rfl, .cons ha' hrs⟩

/-! ## Two traversals -/

/-- Both fail with one error, or both mark the same and their outputs are related piece
by piece. -/
inductive Ends (same : ω → ω → Prop) :
    Except ε (List ω × List ν) → Except ε (List ω × List ν) → Prop
  | error (e : ε) : Ends same (.error e) (.error e)
  | ok {r r' : List ω} (seen : List ν) (h : List.Forall₂ same r r') :
    Ends same (.ok (r, seen)) (.ok (r', seen))

def Related (same : ω → ω → Prop) (f g : Visit ε ν ω) : Prop := ∀ seen, Ends same (f seen) (g seen)

section Related

variable {same : ω → ω → Prop} {f f' g g' : Visit ε ν ω}

theorem Related.output {r r' : List ω} (h : List.Forall₂ same r r') :
    Related (ε := ε) (ν := ν) same (output r) (output r') := fun seen => .ok seen h

theorem Related.fail (e : ε) : Related same (fail e : Visit ε ν ω) (fail e) := fun _ => .error e

theorem Related.seq (hf : Related same f f') (hg : Related same g g') :
    Related same (seq f g) (seq f' g') := by
  intro seen
  unfold Visiting.seq
  generalize hx : f seen = x, hx' : f' seen = x'
  have hends := hf seen
  rw [hx, hx'] at hends
  cases hends with
  | error e => exact .error e
  | @ok r r' marked hr =>
    change Ends same ((g marked).map _) ((g' marked).map _)
    generalize hy : g marked = y, hy' : g' marked = y'
    have hends := hg marked
    rw [hy, hy'] at hends
    cases hends with
    | error e => exact .error e
    | ok last hlast => exact .ok last (List.rel_append hr hlast)

theorem Related.mapOutput {h h' : List ω → List ω} (hf : Related same f f')
    (hh : ∀ r r', List.Forall₂ same r r' → List.Forall₂ same (h r) (h' r')) :
    Related same (mapOutput h f) (mapOutput h' f') := by
  intro seen
  unfold Visiting.mapOutput
  generalize hx : f seen = x, hx' : f' seen = x'
  have hends := hf seen
  rw [hx, hx'] at hends
  cases hends with
  | error e => exact .error e
  | ok marked hr => exact .ok marked (hh _ _ hr)

theorem Related.enter [DecidableEq ν] (n : ν) (hagain : Related same f f')
    (hbody : Related same g g') : Related same (enter n f g) (enter n f' g') := by
  intro seen
  unfold Visiting.enter
  split
  · exact hagain seen
  · exact hbody (n :: seen)

theorem Related.each {f f' : α → Visit ε ν ω} (as : List α)
    (hf : ∀ a ∈ as, Related same (f a) (f' a)) : Related same (each f as) (each f' as) := by
  induction as with
  | nil => exact Related.output .nil
  | cons a as ih =>
    exact (hf a List.mem_cons_self).seq (ih fun b hb => hf b (List.mem_cons_of_mem a hb))

end Related

end Visiting
