import Chdkptp.LuaReadBack
import Mathlib.Data.List.Pairwise

/-!
# The round trip of serialized values

A tree comes back from its text if nothing in it is lost: no bare key may be a
reserved word, and where the array part is written without keys, it may have no hole
below the border, because what is written as the array part ends at the first hole
and the loop over the other keys starts behind the border.
-/

namespace LuaSerialize

open LuaValue LuaText Visiting

/-! ## What is written of a table -/

/-- The key is written, as an element of the array part or as another field. -/
def Written (opts : Opts) (t : Table) (s : Scalar) : Prop :=
  (∃ i : Nat, (arrayPart opts t)[i]? = some (t.get (.scalar s)) ∧ s = .int (i + 1)) ∨
    t.get (.scalar s) ≠ .nil ∧ isOther opts t (.scalar s) = true

/-- Nothing of the table is lost. -/
structure Legal (opts : Opts) (t : Table) : Prop where
  names : opts.bracketKeys = false → ∀ w ∈ reserved, t.get (.str w) = .nil
  filled : opts.compactArrays = true → t.Filled

variable {opts : Opts} {t : Table}

theorem arrayPart_getElem {i : Nat} {v : Value} (h : (arrayPart opts t)[i]? = some v) :
    opts.compactArrays = true ∧ i < t.border ∧ t.get (.int (i + 1)) = v ∧ v ≠ .nil := by
  unfold arrayPart at h
  split_ifs at h with hcompact
  · obtain ⟨hget, hne⟩ := t.ipairs_getElem i v h
    have hlt : i < t.ipairs.length := (List.getElem?_eq_some_iff.mp h).1
    rw [compact, Bool.and_eq_true] at hcompact
    exact ⟨hcompact.1, lt_of_lt_of_le hlt t.ipairs_length_le, hget, hne⟩
  · cases h

theorem arrayPart_entry {i : Nat} {v : Value} (h : (arrayPart opts t)[i]? = some v) :
    (.int (i + 1), v) ∈ t.entries := by
  obtain ⟨-, -, hget, hne⟩ := arrayPart_getElem h
  exact (t.get_eq _ _ hne).mp hget

/-- An element of the array part is no other field. -/
theorem isOther_arrayPart {i : Nat} {v : Value} (h : (arrayPart opts t)[i]? = some v) :
    isOther opts t (.int (i + 1)) = false := by
  obtain ⟨hcompact, hlt, -, -⟩ := arrayPart_getElem h
  simp only [isOther, hcompact, Bool.not_true, Bool.false_or, Bool.or_eq_false_iff,
    decide_eq_false_iff_not]
  omega

theorem written_ne {s : Scalar} (h : Written opts t s) : t.get (.scalar s) ≠ .nil := by
  rcases h with ⟨i, hi, -⟩ | h
  · exact (arrayPart_getElem hi).2.2.2
  · exact h.1

/-- Everything is written, except for what is between a hole and the border. -/
theorem written_filled (hfilled : opts.compactArrays = true → t.Filled) (s : Scalar)
    (hs : t.get (.scalar s) ≠ .nil) : Written opts t s := by
  by_cases hother : isOther opts t (.scalar s) = true
  · exact Or.inr ⟨hs, hother⟩
  · cases s with
    | bool b => exact absurd rfl hother
    | str w => exact absurd rfl hother
    | int n =>
      simp only [isOther, Bool.or_eq_true, Bool.not_eq_true', decide_eq_true_eq,
        not_or] at hother
      obtain ⟨⟨hcompact, h1⟩, hn⟩ := hother
      have hall := t.ipairs_filled (hfilled (eq_true_of_ne_false hcompact))
      have hpart : arrayPart opts t = t.ipairs := by
        rw [arrayPart, if_pos]
        rw [compact, eq_true_of_ne_false hcompact, Bool.true_and, decide_eq_true_eq]
        omega
      have hlt : n.toNat - 1 < t.ipairs.length := by omega
      have hkey : ((n.toNat - 1 : Nat) : Int) + 1 = n := by omega
      have hget := (t.ipairs_getElem _ _ (List.getElem?_eq_getElem hlt)).1
      refine Or.inl ⟨n.toNat - 1, ?_, by rw [hkey]⟩
      rw [hpart, List.getElem?_eq_getElem hlt, ← hget, hkey]

/-- Behind a hole the value at the border is lost. -/
theorem filled_written (hwritten : ∀ s, t.get (.scalar s) ≠ .nil → Written opts t s)
    (hcompact : opts.compactArrays = true) : t.Filled := by
  intro k h1 hk hnil
  have hborder : t.get (.int t.border) ≠ .nil := t.border_value (by omega)
  rcases hwritten (.int t.border) hborder with ⟨i, hi, hkey⟩ | ⟨-, hother⟩
  · have hlt := (List.getElem?_eq_some_iff.mp hi).1
    have hle : (arrayPart opts t).length ≤ t.ipairs.length := by
      unfold arrayPart
      split_ifs
      · exact Nat.le_refl _
      · exact Nat.zero_le _
    have hhole := t.ipairs_hole k h1 hnil
    rw [Scalar.int.injEq] at hkey
    omega
  · simp only [isOther, hcompact, Bool.not_true, Bool.false_or, Bool.or_eq_true,
      decide_eq_true_eq] at hother
    omega

/-! ## What is read of it -/

section Folds

theorem foldlM_isSome {α β : Type} {step : β → α → Option β} {P : α → Prop}
    (h : ∀ b a, (step b a).isSome ↔ P a) (as : List α) (b : β) :
    (as.foldlM step b).isSome ↔ ∀ a ∈ as, P a := by
  induction as generalizing b with
  | nil => simp
  | cons a as ih =>
    rw [List.foldlM_cons, List.forall_mem_cons, ← h b a]
    cases step b a with
    | none => simp
    | some b' => simp [ih b']

variable {img : Value → Option Tree}

/-- The elements take the places behind those that are there. -/
theorem items_value (vs : List Value) {f f' : Fields}
    (h : vs.foldlM (itemStep img) f = some f') :
    (∀ (i : Nat) v, vs[i]? = some v →
      img v = some (fieldValue f'.fields (.int (f.count + i + 1)))) ∧
    ∀ s, (∀ i : Nat, i < vs.length → s ≠ .int (f.count + i + 1)) →
      fieldValue f'.fields s = fieldValue f.fields s := by
  induction vs generalizing f with
  | nil =>
    cases h
    simp
  | cons v vs ih =>
    rw [List.foldlM_cons] at h
    obtain ⟨f₁, hf₁, hrest⟩ := Option.bind_eq_some_iff.mp h
    obtain ⟨tree, htree, rfl⟩ := Option.map_eq_some_iff.mp hf₁
    obtain ⟨hitems, hothers⟩ := ih hrest
    have hcount (i : Nat) : ((f.push tree).count : Int) + i + 1 = f.count + (i + 1 : Nat) + 1 := by
      simp only [Fields.push]
      omega
    constructor
    · intro i u hu
      cases i with
      | zero =>
        have hsame := hothers (.int (f.count + 1)) fun i _ heq => by
          rw [hcount, Scalar.int.injEq] at heq
          omega
        rw [Fields.push, fieldValue_cons, if_pos rfl] at hsame
        cases hu
        simpa [hsame] using htree
      | succ i =>
        have hi := hitems i u hu
        rwa [hcount] at hi
    · intro s hs
      have h0 : s ≠ .int (f.count + 1) := by simpa using hs 0 (by simp)
      have hsame := hothers s fun i hi => by
        rw [hcount]
        exact hs (i + 1) (by rw [List.length_cons]; omega)
      rw [hsame, Fields.push, fieldValue_cons, if_neg h0]

theorem keyImage_scalar (himg : ∀ s, img (.scalar s) = some (.scalar s)) {s k : Scalar}
    (h : keyImage opts img (.scalar s) = some k) : k = s := by
  unfold keyImage at h
  cases hbare : bareKey opts (.scalar s) with
  | none =>
    rw [hbare] at h
    simpa [himg, scalarOf, eq_comm] using h
  | some w =>
    obtain ⟨hs, -, -⟩ := (bareKey_eq_some opts).mp hbare
    rw [hbare] at h
    cases hs
    simp only at h
    split_ifs at h
    cases h
    rfl

/-- Fields with distinct keys keep their values. -/
theorem fields_value (himg : ∀ s, img (.scalar s) = some (.scalar s))
    (es : List (Value × Value)) (hkeys : ∀ e ∈ es, ∃ s, e.1 = .scalar s)
    (hnodup : (es.map Prod.fst).Nodup) {f f' : Fields}
    (h : es.foldlM (fieldStep opts img) f = some f') :
    (∀ s v, (.scalar s, v) ∈ es → img v = some (fieldValue f'.fields s)) ∧
    ∀ s, .scalar s ∉ es.map Prod.fst → fieldValue f'.fields s = fieldValue f.fields s := by
  induction es generalizing f with
  | nil =>
    cases h
    simp
  | cons e es ih =>
    obtain ⟨key, value⟩ := e
    obtain ⟨s₀, hs₀⟩ := hkeys (key, value) List.mem_cons_self
    obtain ⟨hnot, hrest⟩ := List.nodup_cons.mp hnodup
    subst hs₀
    rw [List.foldlM_cons] at h
    obtain ⟨f₁, hf₁, hfold⟩ := Option.bind_eq_some_iff.mp h
    obtain ⟨k, hk, hvalue⟩ := Option.bind_eq_some_iff.mp hf₁
    obtain ⟨tree, htree, rfl⟩ := Option.map_eq_some_iff.mp hvalue
    obtain rfl := keyImage_scalar himg hk
    obtain ⟨hes, hothers⟩ := ih (fun e he => hkeys e (List.mem_cons_of_mem _ he)) hrest hfold
    constructor
    · intro s v hv
      rcases List.mem_cons.mp hv with heq | hv
      · cases heq
        rw [hothers k hnot, Fields.set, fieldValue_cons, if_pos rfl]
        exact htree
      · exact hes s v hv
    · intro s hs
      rw [List.map_cons, List.mem_cons, not_or] at hs
      have hne : s ≠ k := fun heq => hs.1 (by rw [heq])
      rw [hothers s hs.2, Fields.set, fieldValue_cons, if_neg hne]

theorem otherPart_entry {e : Value × Value} :
    e ∈ otherPart opts t ↔ e ∈ t.entries ∧ isOther opts t e.1 = true := List.mem_filter

theorem otherPart_nodup : ((otherPart opts t).map Prod.fst).Nodup :=
  List.Sublist.nodup (List.Sublist.map _ List.filter_sublist) t.nodup

theorem otherPart_get {s : Scalar} (h : .scalar s ∈ (otherPart opts t).map Prod.fst) :
    t.get (.scalar s) ≠ .nil ∧ isOther opts t (.scalar s) = true := by
  obtain ⟨e, he, hes⟩ := List.mem_map.mp h
  obtain ⟨hmem, hother⟩ := otherPart_entry.mp he
  rw [← hes, t.get_mem e hmem]
  exact ⟨t.value_ne e hmem, hother⟩

/-- The values that are written are there, and nothing else is. -/
theorem parts_value (himg : ∀ s, img (.scalar s) = some (.scalar s))
    (hkeys : ∀ e ∈ t.entries, ∃ s, e.1 = .scalar s) {f : Fields}
    (h : partsImage opts img t ⟨[], 0⟩ = some f) (s : Scalar) :
    (Written opts t s → img (t.get (.scalar s)) = some (fieldValue f.fields s)) ∧
      (¬Written opts t s → fieldValue f.fields s = .nil) := by
  obtain ⟨f₁, hitems, hfields⟩ := Option.bind_eq_some_iff.mp h
  obtain ⟨hitem, hitem'⟩ := items_value (arrayPart opts t) hitems
  obtain ⟨hfield, hfield'⟩ := fields_value himg (otherPart opts t)
    (fun e he => hkeys e (otherPart_entry.mp he).1) otherPart_nodup hfields
  constructor
  · rintro (⟨i, hi, rfl⟩ | ⟨hne, hother⟩)
    · have hnot : Value.int (i + 1) ∉ (otherPart opts t).map Prod.fst := by
        intro hmem
        have hother := (otherPart_get hmem).2
        rw [isOther_arrayPart hi] at hother
        cases hother
      rw [hfield' _ hnot, hitem i _ hi]
      simp
    · exact hfield s _ (otherPart_entry.mpr ⟨t.mem_get _ hne, hother⟩)
  · intro hnot
    have hother : Value.scalar s ∉ (otherPart opts t).map Prod.fst := fun hmem =>
      hnot (Or.inr (otherPart_get hmem))
    rw [hfield' s hother, hitem' s]
    · rfl
    · intro i hi heq
      have hget := List.getElem?_eq_getElem hi
      have hkey : t.get (.scalar s) = (arrayPart opts t)[i] := by
        rw [heq]
        simpa using (arrayPart_getElem hget).2.2.1
      exact hnot (Or.inl ⟨i, by rw [hkey]; exact hget, by simpa using heq⟩)

theorem parts_isSome :
    (partsImage opts img t ⟨[], 0⟩).isSome ↔ (∀ v ∈ arrayPart opts t, (img v).isSome) ∧
      ∀ e ∈ otherPart opts t, (keyImage opts img e.1).isSome ∧ (img e.2).isSome := by
  have hitem : ∀ f v, (itemStep img f v).isSome ↔ (img v).isSome := by simp [itemStep]
  have hfield : ∀ f e, (fieldStep opts img f e).isSome ↔
      (keyImage opts img e.1).isSome ∧ (img e.2).isSome := by
    intro f e
    unfold fieldStep
    cases keyImage opts img e.1 <;> simp
  have hitems := foldlM_isSome hitem (arrayPart opts t) ⟨[], 0⟩
  rw [← hitems, partsImage]
  cases (arrayPart opts t).foldlM (itemStep img) ⟨[], 0⟩ with
  | none => simp
  | some f =>
    have hfields := foldlM_isSome hfield (otherPart opts t) f
    simpa using hfields

/-- A key is read back unless it is written bare and reserved. -/
theorem keyImage_isSome (himg : ∀ s, img (.scalar s) = some (.scalar s)) (s : Scalar) :
    (keyImage opts img (.scalar s)).isSome ↔
      (opts.bracketKeys = false → ∀ w ∈ reserved, s ≠ .str w) := by
  have hnames : ∀ w ∈ reserved, isName w = true := by decide
  unfold keyImage
  cases hbare : bareKey opts (.scalar s) with
  | none =>
    simp only [himg, Option.bind_some, scalarOf, Option.isSome_some, true_iff]
    rintro hb w hw rfl
    rw [(bareKey_eq_some opts).mpr ⟨rfl, hb, hnames w hw⟩] at hbare
    cases hbare
  | some w =>
    obtain ⟨hs, hb, -⟩ := (bareKey_eq_some opts).mp hbare
    cases hs
    simp only [hb, true_implies]
    split_ifs with hw
    · simpa using isReserved_iff.mp hw
    · simp only [Option.isSome_some, true_iff]
      rintro w' hw' heq
      cases heq
      exact hw (isReserved_iff.mpr hw')

end Folds

/-! ## Trees -/

section Trees

variable (heap : Heap)

theorem equal_nil {v : Value} (h : Equal heap v .nil) : v = .nil := by
  cases h
  rfl

/-- A table is equal to what is read of it if it is legal and its values are equal to
what is read of them. -/
theorem table_equal_iff (opts : Opts) (ref : Nat) (img : Value → Option Tree)
    (himg : ∀ s, img (.scalar s) = some (.scalar s))
    (hkeys : ∀ e ∈ (heap ref).entries, ∃ s, e.1 = .scalar s) :
    (∃ f, partsImage opts img (heap ref) ⟨[], 0⟩ = some f ∧
        Equal heap (.table ref) (.table f.fields)) ↔
      Legal opts (heap ref) ∧
        ∀ e ∈ (heap ref).entries, ∃ tree, img e.2 = some tree ∧ Equal heap e.2 tree := by
  constructor
  · rintro ⟨f, hf, hequal⟩
    have hvalue := parts_value himg hkeys hf
    have hother := (parts_isSome.mp (by rw [hf]; rfl)).2
    cases hequal with
    | table _ _ _ hvalues =>
      have hwritten : ∀ s, (heap ref).get (.scalar s) ≠ .nil → Written opts (heap ref) s := by
        intro s hs
        by_contra hnot
        have hlost := hvalues s
        rw [(hvalue s).2 hnot] at hlost
        exact hs (equal_nil heap hlost)
      refine ⟨⟨?_, filled_written hwritten⟩, ?_⟩
      · intro hb w hw
        by_contra hne
        have hentry : (.str w, (heap ref).get (.str w)) ∈ otherPart opts (heap ref) :=
          otherPart_entry.mpr ⟨(heap ref).mem_get _ hne, rfl⟩
        exact (keyImage_isSome himg (.str w)).mp (hother _ hentry).1 hb w hw rfl
      · intro e he
        obtain ⟨s, hs⟩ := hkeys e he
        have hget := (heap ref).get_mem e he
        have hne := (heap ref).value_ne e he
        rw [hs] at hget
        rw [← hget] at hne ⊢
        exact ⟨_, (hvalue s).1 (hwritten s hne), hvalues s⟩
  · rintro ⟨hlegal, hchildren⟩
    have hsome : ∀ e ∈ (heap ref).entries, (img e.2).isSome := by
      intro e he
      obtain ⟨tree, htree, -⟩ := hchildren e he
      rw [htree]
      rfl
    have hparts : (partsImage opts img (heap ref) ⟨[], 0⟩).isSome := by
      refine parts_isSome.mpr ⟨?_, ?_⟩
      · intro v hv
        obtain ⟨i, hi⟩ := List.mem_iff_getElem?.mp hv
        exact hsome _ (arrayPart_entry hi)
      · intro e he
        have hmem := (otherPart_entry.mp he).1
        obtain ⟨s, hs⟩ := hkeys e hmem
        refine ⟨?_, hsome e hmem⟩
        rw [hs, keyImage_isSome himg]
        rintro hb w hw rfl
        apply (heap ref).value_ne e hmem
        rw [← (heap ref).get_mem e hmem, hs]
        exact hlegal.names hb w hw
    obtain ⟨f, hf⟩ := Option.isSome_iff_exists.mp hparts
    refine ⟨f, hf, Equal.table ref f.fields hkeys fun s => ?_⟩
    have hvalue := parts_value himg hkeys hf s
    by_cases hnil : (heap ref).get (.scalar s) = .nil
    · rw [hnil, hvalue.2 fun hwritten => written_ne hwritten hnil]
      exact Equal.nil
    · obtain ⟨tree, htree, hequal⟩ := hchildren _ ((heap ref).mem_get _ hnil)
      have hread := hvalue.1 (written_filled hlegal.filled s hnil)
      rw [htree, Option.some.injEq] at hread
      rwa [← hread]

/-- A tree is equal to what is read of it if each of its tables is legal. -/
theorem image_equal_iff (opts : Opts) (depth : Nat) (v : Value) (h : Nested heap depth v) :
    (∃ tree, image heap opts depth v = some tree ∧ Equal heap v tree) ↔
      ∀ ref ∈ tables heap depth v, Legal opts (heap ref) := by
  induction depth generalizing v with
  | zero =>
    cases v with
    | nil => simpa [tables] using ⟨.nil, rfl, Equal.nil⟩
    | scalar s => simpa [tables] using Equal.scalar s
    | table ref => exact h.elim
    | other type text => exact h.elim
  | succ depth ih =>
    cases v with
    | nil => simpa [tables] using ⟨.nil, rfl, Equal.nil⟩
    | scalar s => simpa [tables] using Equal.scalar s
    | other type text => exact h.elim
    | table ref =>
      have htable := table_equal_iff heap opts ref (image heap opts depth)
        (image_scalar heap depth) fun e he => (h e he).1
      have hchildren : (∀ e ∈ (heap ref).entries,
          ∃ tree, image heap opts depth e.2 = some tree ∧ Equal heap e.2 tree) ↔
          ∀ e ∈ (heap ref).entries, ∀ ref' ∈ tables heap depth e.2, Legal opts (heap ref') :=
        forall₂_congr fun e he => ih e.2 (h e he).2
      rw [hchildren] at htable
      constructor
      · rintro ⟨tree, htree, hequal⟩ ref' href'
        obtain ⟨f, hf, rfl⟩ := Option.map_eq_some_iff.mp htree
        obtain ⟨hlegal, hrest⟩ := htable.mp ⟨f, hf, hequal⟩
        rcases List.mem_cons.mp href' with rfl | href'
        · exact hlegal
        · obtain ⟨e, he, hmem⟩ := List.mem_flatMap.mp href'
          exact hrest e he ref' hmem
      · intro hlegal
        obtain ⟨f, hf, hequal⟩ := htable.mpr ⟨hlegal ref List.mem_cons_self, fun e he ref' hmem =>
          hlegal ref' (List.mem_cons_of_mem ref (List.mem_flatMap.mpr ⟨e, he, hmem⟩))⟩
        exact ⟨.table f.fields, by rw [image, hf]; rfl, hequal⟩

theorem fits_nested (opts : Opts) (depth : Nat) (v : Value) (h : Nested heap depth v) :
    Fits heap opts depth v := by
  induction depth generalizing v with
  | zero => cases v <;> exact h
  | succ depth ih =>
    cases v with
    | nil => trivial
    | scalar s => trivial
    | other type text => exact h
    | table ref =>
      refine ⟨fun v hv => ?_, fun e he => ?_⟩
      · obtain ⟨i, hi⟩ := List.mem_iff_getElem?.mp hv
        exact ih v (h _ (arrayPart_entry hi)).2
      · obtain ⟨⟨s, hs⟩, hvalue⟩ := h e (otherPart_entry.mp he).1
        exact ⟨by rw [hs]; exact fits_scalar heap depth s, ih e.2 hvalue⟩

/-- What is marked within a table stands in an entry of it. -/
theorem mem_marked_parts (opts : Opts) (depth ref : Nat)
    (h : Nested heap (depth + 1) (.table ref)) (r : Nat)
    (hr : r ∈ (arrayPart opts (heap ref)).flatMap (marked heap opts depth) ++
      (otherPart opts (heap ref)).flatMap fun e =>
        marked heap opts depth e.1 ++ marked heap opts depth e.2) :
    ∃ e ∈ (heap ref).entries, r ∈ marked heap opts depth e.2 := by
  rcases List.mem_append.mp hr with hr | hr
  · obtain ⟨v, hv, hmem⟩ := List.mem_flatMap.mp hr
    obtain ⟨i, hi⟩ := List.mem_iff_getElem?.mp hv
    exact ⟨_, arrayPart_entry hi, hmem⟩
  · obtain ⟨e, he, hmem⟩ := List.mem_flatMap.mp hr
    have hentry := (otherPart_entry.mp he).1
    obtain ⟨⟨s, hs⟩, -⟩ := h e hentry
    rw [hs, marked_scalar, List.nil_append] at hmem
    exact ⟨e, hentry, hmem⟩

theorem marked_tables (opts : Opts) (depth : Nat) (v : Value) (h : Nested heap depth v) :
    marked heap opts depth v ⊆ tables heap depth v := by
  induction depth generalizing v with
  | zero => cases v <;> exact List.Subset.refl _
  | succ depth ih =>
    cases v with
    | nil => exact List.Subset.refl _
    | scalar s => exact List.Subset.refl _
    | other type text => exact List.Subset.refl _
    | table ref =>
      intro r hr
      rcases List.mem_cons.mp hr with rfl | hr
      · exact List.mem_cons_self
      · obtain ⟨e, he, hmem⟩ := mem_marked_parts heap opts depth ref h r hr
        exact List.mem_cons_of_mem ref (List.mem_flatMap.mpr ⟨e, he, ih e.2 (h e he).2 hmem⟩)

/-- No table of a tree is met twice. -/
theorem marked_nodup (opts : Opts) (depth : Nat) (v : Value) (h : Nested heap depth v)
    (hshared : Unshared heap depth v) : (marked heap opts depth v).Nodup := by
  induction depth generalizing v with
  | zero => cases v <;> exact List.nodup_nil
  | succ depth ih =>
    cases v with
    | nil => exact List.nodup_nil
    | scalar s => exact List.nodup_nil
    | other type text => exact List.nodup_nil
    | table ref =>
      obtain ⟨hnot, hrest⟩ := List.nodup_cons.mp hshared
      obtain ⟨hnodup, hpairwise⟩ := List.nodup_flatMap.mp hrest
      have hdisjoint : ∀ e ∈ (heap ref).entries, ∀ e' ∈ (heap ref).entries, e ≠ e' →
          (marked heap opts depth e.2).Disjoint (marked heap opts depth e'.2) := by
        intro e he e' he' hne r hr hr'
        have hsymm : Std.Symm (Function.onFun List.Disjoint fun e : Value × Value =>
            tables heap depth e.2) := ⟨fun _ _ hab => hab.symm⟩
        exact hpairwise.forall he he' hne (marked_tables heap opts depth e.2 (h e he).2 hr)
          (marked_tables heap opts depth e'.2 (h e' he').2 hr')
      have hchild : ∀ e ∈ (heap ref).entries, (marked heap opts depth e.2).Nodup :=
        fun e he => ih e.2 (h e he).2 (hnodup e he)
      have hkey : ∀ e ∈ (heap ref).entries,
          marked heap opts depth e.1 ++ marked heap opts depth e.2 = marked heap opts depth e.2 := by
        intro e he
        obtain ⟨s, hs⟩ := (h e he).1
        rw [hs, marked_scalar, List.nil_append]
      have hitems : ((arrayPart opts (heap ref)).flatMap (marked heap opts depth)).Nodup := by
        refine List.nodup_flatMap.mpr ⟨fun v hv => ?_, ?_⟩
        · obtain ⟨i, hi⟩ := List.mem_iff_getElem?.mp hv
          exact hchild _ (arrayPart_entry hi)
        · refine List.pairwise_iff_getElem.mpr fun i j hi hj hij => ?_
          have hne : (Value.int (i + 1), (arrayPart opts (heap ref))[i]) ≠
              (Value.int (j + 1), (arrayPart opts (heap ref))[j]) := by
            intro heq
            simp only [Prod.mk.injEq, Value.int, Value.scalar.injEq, Scalar.int.injEq] at heq
            omega
          exact hdisjoint _ (arrayPart_entry (List.getElem?_eq_getElem hi)) _
            (arrayPart_entry (List.getElem?_eq_getElem hj)) hne
      have hothers : ((otherPart opts (heap ref)).flatMap fun e =>
          marked heap opts depth e.1 ++ marked heap opts depth e.2).Nodup := by
        refine List.nodup_flatMap.mpr ⟨fun e he => ?_, ?_⟩
        · have hmem := (otherPart_entry.mp he).1
          rw [hkey e hmem]
          exact hchild e hmem
        · refine (otherPart_nodup.of_map _).imp_of_mem fun he he' hne => ?_
          have hmem := (otherPart_entry.mp he).1
          have hmem' := (otherPart_entry.mp he').1
          change List.Disjoint (_ ++ _) (_ ++ _)
          rw [hkey _ hmem, hkey _ hmem']
          exact hdisjoint _ hmem _ hmem' hne
      refine List.nodup_cons.mpr ⟨?_, hitems.append hothers ?_⟩
      · intro hmem
        obtain ⟨e, he, hr⟩ := mem_marked_parts heap opts depth ref h ref hmem
        exact hnot (List.mem_flatMap.mpr ⟨e, he, marked_tables heap opts depth e.2 (h e he).2 hr⟩)
      · intro r hr hr'
        obtain ⟨v, hv, hrv⟩ := List.mem_flatMap.mp hr
        obtain ⟨i, hi⟩ := List.mem_iff_getElem?.mp hv
        obtain ⟨e, he, hre⟩ := List.mem_flatMap.mp hr'
        obtain ⟨hmem, hother⟩ := otherPart_entry.mp he
        rw [hkey e hmem] at hre
        refine hdisjoint _ (arrayPart_entry hi) e hmem ?_ hrv hre
        rintro rfl
        rw [isOther_arrayPart hi] at hother
        cases hother

/-! ## The round trip -/

def options (pretty bracketKeys compactArrays : Bool) : Opts :=
  { serializeDefaults with
    pretty := pretty
    bracketKeys := bracketKeys
    compactArrays := compactArrays }

/-- The value has a text, and what is read from the text is equal to it. -/
def RoundTrips (opts : Opts) (tostring : Int → LuaString) (v : Value) : Prop :=
  ∃ text tree, serialize heap opts (lua52 tostring) v = .ok text ∧
    unserialize text = some tree ∧ Equal heap v tree

/-- A tree nested less than ten deep survives if and only if no table of it has a key
that is written bare and reserved, or a hole below the border of a compact array. -/
theorem round_trip_iff (pretty bracketKeys compactArrays : Bool) (tostring : Int → LuaString)
    (v : Value) (hnested : Nested heap 9 v) (hshared : Unshared heap 9 v) :
    RoundTrips heap (options pretty bracketKeys compactArrays) tostring v ↔
      ∀ ref ∈ tables heap 9 v, Legal (options pretty bracketKeys compactArrays) (heap ref) := by
  have hread : Readable (options pretty bracketKeys compactArrays) (lua52 tostring) :=
    ⟨(fun h => by cases h), escapes52⟩
  rw [← image_equal_iff heap (options pretty bracketKeys compactArrays) 9 v hnested]
  constructor
  · rintro ⟨text, tree, htext, htree, hequal⟩
    have himage := (unserialize_serialize heap hread rfl rfl htext).2.2
    exact ⟨tree, himage.symm.trans htree, hequal⟩
  · rintro ⟨tree, htree, hequal⟩
    obtain ⟨text, htext⟩ := serialize_succeeds heap hread rfl rfl
      (fits_nested heap (options pretty bracketKeys compactArrays) 9 v hnested)
      (marked_nodup heap (options pretty bracketKeys compactArrays) 9 v hnested hshared)
    have himage := (unserialize_serialize heap hread rfl rfl htext).2.2
    exact ⟨text, tree, htext, himage.trans htree, hequal⟩

end Trees

/-- `{1, 2, {}}`. -/
def nestedHeap : Heap
  | 0 =>
    { entries := [(.int 1, .int 1), (.int 2, .int 2), (.int 3, .table 1)]
      border := 3
      text := []
      nodup := by decide
      key_ne := by decide
      value_ne := by decide
      border_value := by decide
      border_next := by decide }
  | _ =>
    { entries := []
      border := 0
      text := []
      nodup := by decide
      key_ne := by decide
      value_ne := by decide
      border_value := by decide
      border_next := by decide }

theorem round_trip_iff_witness :
    RoundTrips nestedHeap serializeDefaults decimal (.table 0) ↔
      ∀ ref ∈ tables nestedHeap 9 (.table 0), Legal serializeDefaults (nestedHeap ref) :=
  round_trip_iff nestedHeap true false true decimal (.table 0)
    (by simp [Nested, nestedHeap]) (by unfold Unshared; decide)

/-- `{1, nil, 3}`, whose border is 3. -/
def holed : Table where
  entries := [(.int 1, .int 1), (.int 3, .int 3)]
  border := 3
  text := []
  nodup := by decide
  key_ne := by decide
  value_ne := by decide
  border_value := by decide
  border_next := by decide

/-- `{["and"] = 1}`. -/
def keyed : Table where
  entries := [(.str (bytes ['a', 'n', 'd']), .int 1)]
  border := 0
  text := []
  nodup := by decide
  key_ne := by decide
  value_ne := by decide
  border_value := by decide
  border_next := by decide

/-- The text of the first is `{1}` with line breaks, that of the second is no Lua. -/
theorem round_trip_fails :
    (Nested (fun _ => holed) 9 (.table 0) ∧ Unshared (fun _ => holed) 9 (.table 0) ∧
      ¬RoundTrips (fun _ => holed) serializeDefaults decimal (.table 0)) ∧
    Nested (fun _ => keyed) 9 (.table 0) ∧ Unshared (fun _ => keyed) 9 (.table 0) ∧
      ¬RoundTrips (fun _ => keyed) serializeDefaults decimal (.table 0) := by
  refine ⟨⟨by simp [Nested, holed], by unfold Unshared; decide, ?_⟩, by simp [Nested, keyed],
    by unfold Unshared; decide, ?_⟩
  · rintro ⟨text, tree, htext, htree, hequal⟩
    have htext' : serialize (fun _ => holed) serializeDefaults (lua52 decimal) (.table 0) =
        .ok (bytes ['{', '\n', ' ', '1', '\n', '}']) := by rfl
    rw [htext'] at htext
    cases htext
    have htree' : unserialize (bytes ['{', '\n', ' ', '1', '\n', '}']) =
        some (.table [(.int 1, .scalar (.int 1))]) := by rfl
    rw [htree'] at htree
    cases htree
    cases hequal with
    | table _ _ _ hvalues => exact absurd (equal_nil _ (hvalues (.int 3))) (by decide)
  · rintro ⟨text, tree, htext, htree, -⟩
    have htext' : serialize (fun _ => keyed) serializeDefaults (lua52 decimal) (.table 0) =
        .ok (bytes ['{', '\n', ' ', 'a', 'n', 'd', '=', '1', '\n', '}']) := by rfl
    rw [htext'] at htext
    cases htext
    have htree' : unserialize (bytes ['{', '\n', ' ', 'a', 'n', 'd', '=', '1', '\n', '}']) =
        none := by rfl
    rw [htree'] at htree
    cases htree

end LuaSerialize
