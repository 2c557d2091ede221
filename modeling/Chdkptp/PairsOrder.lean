import Mathlib.Data.List.Perm.Basic
import Chdkptp.LuaRoundTrip

/-!
# The order of pairs

Two runs of Lua may visit the entries of a table in different orders. The array part
of a table does not depend on the order, and its tables are met in another order but
no more often, so the order does not decide whether a value has a text.
-/

namespace LuaSerialize

open LuaValue LuaText Visiting

/-- The same tables, of which `pairs` visits the entries in another order. -/
structure Reordered (heap heap' : Heap) : Prop where
  entries : ∀ ref, (heap' ref).entries.Perm (heap ref).entries
  border : ∀ ref, (heap' ref).border = (heap ref).border

theorem lookup_perm {κ υ : Type} [DecidableEq κ] {l l' : List (κ × υ)} (h : l'.Perm l)
    (hl : (l.map Prod.fst).Nodup) (k : κ) : l'.lookup k = l.lookup k := by
  have hl' : (l'.map Prod.fst).Nodup := (h.map Prod.fst).nodup_iff.mpr hl
  refine Option.ext fun v => ?_
  rw [lookup_eq_some l' hl', lookup_eq_some l hl]
  exact h.mem_iff

section Reordered

variable {heap heap' : Heap} (h : Reordered heap heap') (opts : Opts) (ref : Nat)

include h

theorem get_reordered (k : Value) : (heap' ref).get k = (heap ref).get k := by
  unfold Table.get lookupValue
  rw [lookup_perm (h.entries ref) (heap ref).nodup]

theorem ipairs_reordered : (heap' ref).ipairs = (heap ref).ipairs := by
  unfold Table.ipairs Table.elements
  simp only [h.border, get_reordered h]

theorem arrayPart_reordered : arrayPart opts (heap' ref) = arrayPart opts (heap ref) := by
  unfold arrayPart compact
  rw [h.border, ipairs_reordered h]

theorem otherPart_reordered : (otherPart opts (heap' ref)).Perm (otherPart opts (heap ref)) := by
  have hother : isOther opts (heap' ref) = isOther opts (heap ref) := by
    funext k
    unfold isOther
    rw [h.border]
  unfold otherPart
  rw [hother]
  exact (h.entries ref).filter _

theorem fits_reordered (left : Nat) (v : Value) : Fits heap' opts left v ↔ Fits heap opts left v := by
  induction left generalizing v with
  | zero => cases v <;> rfl
  | succ left ih =>
    cases v with
    | nil => rfl
    | scalar s => rfl
    | other type text => rfl
    | table ref =>
      simp only [Fits, arrayPart_reordered h, (otherPart_reordered h opts ref).mem_iff, ih]

theorem marked_reordered (left : Nat) (v : Value) :
    (marked heap' opts left v).Perm (marked heap opts left v) := by
  induction left generalizing v with
  | zero => cases v <;> exact .nil
  | succ left ih =>
    cases v with
    | nil => exact .nil
    | scalar s => exact .nil
    | other type text => exact .nil
    | table ref =>
      have hitems := List.Perm.flatMap_left (arrayPart opts (heap ref)) fun v _ => ih v
      have hothers := (otherPart_reordered h opts ref).flatMap fun e (_ : e ∈ otherPart opts (heap' ref)) =>
        (ih e.1).append (ih e.2)
      rw [marked, marked, arrayPart_reordered h]
      exact (hitems.append hothers).cons ref

/-- Whether a value has a text does not depend on the order. -/
theorem serialize_reordered {lua : Lua} {opts : Opts} (hread : Readable opts lua)
    (hcycle : opts.errCycle = true) (htype : opts.errType = true) (v : Value) :
    (∃ text, serialize heap' opts lua v = .ok text) ↔
      ∃ text, serialize heap opts lua v = .ok text := by
  have hfits := fits_reordered h opts (opts.maxdepth - 1).toNat v
  have hmarked := (marked_reordered h opts (opts.maxdepth - 1).toNat v).nodup_iff
  constructor
  · rintro ⟨text, htext⟩
    obtain ⟨hfit, hnodup, -⟩ := unserialize_serialize heap' hread hcycle htype htext
    exact serialize_succeeds heap hread hcycle htype (hfits.mp hfit) (hmarked.mp hnodup)
  · rintro ⟨text, htext⟩
    obtain ⟨hfit, hnodup, -⟩ := unserialize_serialize heap hread hcycle htype htext
    exact serialize_succeeds heap' hread hcycle htype (hfits.mpr hfit) (hmarked.mpr hnodup)

end Reordered

end LuaSerialize
