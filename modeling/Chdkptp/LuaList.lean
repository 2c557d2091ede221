import Chdkptp.LuaRoundTrip

/-!
# Lists on their way from the camera to the host

A new table with given elements is serialized by the camera and read by the host.
What becomes of an element depends only on the tables it reaches, so it does not
depend on the list; only a table that two elements share is met twice.
-/

namespace LuaSerialize

open LuaValue LuaText Visiting

/-! ## The tables of a value -/

inductive Reaches (heap : Heap) : Value → Nat → Prop
  | here (ref : Nat) : Reaches heap (.table ref) ref
  | key {ref r : Nat} {e : Value × Value} (he : e ∈ (heap ref).entries) (h : Reaches heap e.1 r) :
      Reaches heap (.table ref) r
  | value {ref r : Nat} {e : Value × Value} (he : e ∈ (heap ref).entries)
      (h : Reaches heap e.2 r) : Reaches heap (.table ref) r

/-- The other heap has the same tables, as far as the value reaches. -/
def Agree (heap heap' : Heap) (v : Value) : Prop := ∀ r, Reaches heap v r → heap' r = heap r

section Agree

variable {heap heap' : Heap} {opts : Opts} {ref : Nat}

theorem Agree.table (h : Agree heap heap' (.table ref)) : heap' ref = heap ref :=
  h ref (.here ref)

theorem Agree.key (h : Agree heap heap' (.table ref)) {e : Value × Value}
    (he : e ∈ (heap ref).entries) : Agree heap heap' e.1 := fun r hr => h r (.key he hr)

theorem Agree.value (h : Agree heap heap' (.table ref)) {e : Value × Value}
    (he : e ∈ (heap ref).entries) : Agree heap heap' e.2 := fun r hr => h r (.value he hr)

theorem Agree.item (h : Agree heap heap' (.table ref)) {v : Value}
    (hv : v ∈ arrayPart opts (heap ref)) : Agree heap heap' v := by
  obtain ⟨i, hi⟩ := List.mem_iff_getElem?.mp hv
  exact h.value (arrayPart_entry hi)

theorem fits_agree (depth : Nat) (v : Value) (h : Agree heap heap' v) :
    Fits heap' opts depth v ↔ Fits heap opts depth v := by
  induction depth generalizing v with
  | zero => cases v <;> rfl
  | succ depth ih =>
    cases v with
    | nil => rfl
    | scalar s => rfl
    | other type text => rfl
    | table ref =>
      simp only [Fits, h.table]
      refine and_congr (forall₂_congr fun v hv => ih v (h.item hv)) (forall₂_congr fun e he => ?_)
      have hmem := (otherPart_entry.mp he).1
      exact and_congr (ih e.1 (h.key hmem)) (ih e.2 (h.value hmem))

theorem marked_agree (depth : Nat) (v : Value) (h : Agree heap heap' v) :
    marked heap' opts depth v = marked heap opts depth v := by
  induction depth generalizing v with
  | zero => cases v <;> rfl
  | succ depth ih =>
    cases v with
    | nil => rfl
    | scalar s => rfl
    | other type text => rfl
    | table ref =>
      have hitems : (arrayPart opts (heap ref)).flatMap (marked heap' opts depth) =
          (arrayPart opts (heap ref)).flatMap (marked heap opts depth) :=
        List.flatMap_congr fun v hv => ih v (h.item hv)
      have hothers : ((otherPart opts (heap ref)).flatMap fun e =>
            marked heap' opts depth e.1 ++ marked heap' opts depth e.2) =
          (otherPart opts (heap ref)).flatMap fun e =>
            marked heap opts depth e.1 ++ marked heap opts depth e.2 := by
        refine List.flatMap_congr fun e he => ?_
        have hmem := (otherPart_entry.mp he).1
        rw [ih e.1 (h.key hmem), ih e.2 (h.value hmem)]
      rw [marked, marked, h.table, hitems, hothers]

theorem foldlM_congr_mem {α β : Type} {step step' : β → α → Option β} (as : List α)
    (h : ∀ a ∈ as, ∀ b, step b a = step' b a) (b : β) : as.foldlM step b = as.foldlM step' b := by
  induction as generalizing b with
  | nil => rfl
  | cons a as ih =>
    rw [List.foldlM_cons, List.foldlM_cons, h a List.mem_cons_self]
    congr 1
    funext b'
    exact ih (fun a' ha' => h a' (List.mem_cons_of_mem a ha')) b'

theorem image_agree (depth : Nat) (v : Value) (h : Agree heap heap' v) :
    image heap' opts depth v = image heap opts depth v := by
  induction depth generalizing v with
  | zero => cases v <;> rfl
  | succ depth ih =>
    cases v with
    | nil => rfl
    | scalar s => rfl
    | other type text => rfl
    | table ref =>
      have hitems : ∀ f, (arrayPart opts (heap ref)).foldlM (itemStep (image heap' opts depth)) f =
          (arrayPart opts (heap ref)).foldlM (itemStep (image heap opts depth)) f :=
        foldlM_congr_mem _ fun v hv f => by rw [itemStep, itemStep, ih v (h.item hv)]
      have hothers : ∀ f,
          (otherPart opts (heap ref)).foldlM (fieldStep opts (image heap' opts depth)) f =
            (otherPart opts (heap ref)).foldlM (fieldStep opts (image heap opts depth)) f := by
        refine foldlM_congr_mem _ fun e he f => ?_
        have hmem := (otherPart_entry.mp he).1
        simp only [fieldStep, keyImage, ih e.1 (h.key hmem), ih e.2 (h.value hmem)]
      simp only [image, h.table, partsImage, hitems, hothers]

theorem equal_agree {v : Value} {tree : Tree} (hequal : Equal heap' v tree)
    (h : Agree heap heap' v) : Equal heap v tree := by
  induction hequal with
  | nil => exact .nil
  | scalar s => exact .scalar s
  | table ref fields keys values ih =>
    rw [h.table] at keys
    refine .table ref fields keys fun s => ?_
    have hs := ih s
    rw [h.table] at hs
    by_cases hnil : (heap ref).get (.scalar s) = .nil
    · rw [hnil] at hs ⊢
      exact hs fun r hr => by cases hr
    · exact hs (h.value ((heap ref).mem_get _ hnil))

theorem marked_reaches (depth : Nat) (v : Value) :
    ∀ r ∈ marked heap opts depth v, Reaches heap v r := by
  induction depth generalizing v with
  | zero => cases v <;> exact fun r hr => absurd hr List.not_mem_nil
  | succ depth ih =>
    cases v with
    | nil => exact fun r hr => absurd hr List.not_mem_nil
    | scalar s => exact fun r hr => absurd hr List.not_mem_nil
    | other type text => exact fun r hr => absurd hr List.not_mem_nil
    | table ref =>
      intro r hr
      rcases List.mem_cons.mp hr with rfl | hr
      · exact .here r
      rcases List.mem_append.mp hr with hr | hr
      · obtain ⟨v, hv, hmem⟩ := List.mem_flatMap.mp hr
        obtain ⟨i, hi⟩ := List.mem_iff_getElem?.mp hv
        exact .value (arrayPart_entry hi) (ih v r hmem)
      · obtain ⟨e, he, hmem⟩ := List.mem_flatMap.mp hr
        have hentry := (otherPart_entry.mp he).1
        rcases List.mem_append.mp hmem with hmem | hmem
        · exact .key hentry (ih e.1 r hmem)
        · exact .value hentry (ih e.2 r hmem)

end Agree

/-! ## Lists -/

/-- A value that a list can hold. -/
abbrev Element := { v : Value // v ≠ .nil }

def dbgKey : LuaString := bytes ['_', 'd', 'b', 'g']

def elementEntries (start : Nat) : List Element → List (Value × Value)
  | [] => []
  | v :: vs => (.int (start + 1), v.val) :: elementEntries (start + 1) vs

def dbgEntries (dbg : Option LuaString) : List (Value × Value) :=
  (dbg.map fun s => (.str dbgKey, .str s)).toList

theorem mem_elementEntries {start : Nat} {vs : List Element} {e : Value × Value} :
    e ∈ elementEntries start vs ↔
      ∃ (i : Nat) (v : Element), vs[i]? = some v ∧ e = (.int (start + i + 1), v.val) := by
  induction vs generalizing start with
  | nil => simp [elementEntries]
  | cons v vs ih =>
    rw [elementEntries, List.mem_cons, ih]
    constructor
    · rintro (rfl | ⟨i, w, hw, rfl⟩)
      · exact ⟨0, v, rfl, by simp⟩
      · refine ⟨i + 1, w, hw, ?_⟩
        have hkey : ((start + 1 : Nat) : Int) + i + 1 = start + (i + 1 : Nat) + 1 := by omega
        rw [hkey]
    · rintro ⟨i, w, hw, rfl⟩
      cases i with
      | zero =>
        cases hw
        exact Or.inl (by simp)
      | succ i =>
        have hkey : (start : Int) + (i + 1 : Nat) + 1 = (start + 1 : Nat) + i + 1 := by omega
        exact Or.inr ⟨i, w, hw, by rw [hkey]⟩

theorem mem_dbgEntries {dbg : Option LuaString} {e : Value × Value} :
    e ∈ dbgEntries dbg ↔ ∃ s, dbg = some s ∧ e = (.str dbgKey, .str s) := by
  cases dbg <;> simp [dbgEntries]

example : elementEntries 0 [⟨.int 7, nofun⟩] ++ dbgEntries (some []) =
    [(.int 1, .int 7), (.str dbgKey, .str [])] := by decide +kernel

theorem elementEntries_nodup (start : Nat) (vs : List Element) :
    ((elementEntries start vs).map Prod.fst).Nodup := by
  induction vs generalizing start with
  | nil => exact List.nodup_nil
  | cons v vs ih =>
    refine List.nodup_cons.mpr ⟨?_, ih (start + 1)⟩
    intro hmem
    obtain ⟨e, he, hkey⟩ := List.mem_map.mp hmem
    obtain ⟨i, w, -, rfl⟩ := mem_elementEntries.mp he
    simp only [Value.int, Value.scalar.injEq, Scalar.int.injEq] at hkey
    omega

theorem listEntries_nodup (vs : List Element) (dbg : Option LuaString) :
    ((elementEntries 0 vs ++ dbgEntries dbg).map Prod.fst).Nodup := by
  rw [List.map_append]
  refine (elementEntries_nodup 0 vs).append (by cases dbg <;> simp [dbgEntries]) ?_
  intro k hk hk'
  obtain ⟨e, he, rfl⟩ := List.mem_map.mp hk
  obtain ⟨e', he', heq⟩ := List.mem_map.mp hk'
  obtain ⟨i, v, -, rfl⟩ := mem_elementEntries.mp he
  obtain ⟨s, -, rfl⟩ := mem_dbgEntries.mp he'
  cases heq

theorem lookup_element (vs : List Element) (dbg : Option LuaString) (i : Nat) (v : Element)
    (h : vs[i]? = some v) :
    lookupValue (elementEntries 0 vs ++ dbgEntries dbg) (.int (i + 1)) = v.val := by
  have hmem : (Value.int (i + 1), v.val) ∈ elementEntries 0 vs ++ dbgEntries dbg :=
    List.mem_append_left _ (mem_elementEntries.mpr ⟨i, v, h, by simp⟩)
  rw [lookupValue, (lookup_eq_some _ (listEntries_nodup vs dbg) _ _).mpr hmem]
  rfl

theorem lookup_behind (vs : List Element) (dbg : Option LuaString) :
    lookupValue (elementEntries 0 vs ++ dbgEntries dbg) (.int (vs.length + 1)) = .nil := by
  rw [lookupValue, lookup_eq_none]
  · rfl
  · intro hmem
    obtain ⟨e, he, hkey⟩ := List.mem_map.mp hmem
    rcases List.mem_append.mp he with he | he
    · obtain ⟨i, v, hv, rfl⟩ := mem_elementEntries.mp he
      have hlt := (List.getElem?_eq_some_iff.mp hv).1
      simp only [Value.int, Value.scalar.injEq, Scalar.int.injEq] at hkey
      omega
    · obtain ⟨s, -, rfl⟩ := mem_dbgEntries.mp he
      cases hkey

/-- A list, perhaps with a note at `_dbg`. It has one border, and the order in which
`pairs` visits it does not matter, since all keys but one are those of the array part. -/
def listTable (vs : List Element) (dbg : Option LuaString) : Table where
  entries := elementEntries 0 vs ++ dbgEntries dbg
  border := vs.length
  text := []
  nodup := listEntries_nodup vs dbg
  key_ne e he := by
    rcases List.mem_append.mp he with he | he
    · obtain ⟨i, v, -, rfl⟩ := mem_elementEntries.mp he
      simp
    · obtain ⟨s, -, rfl⟩ := mem_dbgEntries.mp he
      simp
  value_ne e he := by
    rcases List.mem_append.mp he with he | he
    · obtain ⟨i, v, -, rfl⟩ := mem_elementEntries.mp he
      exact v.property
    · obtain ⟨s, -, rfl⟩ := mem_dbgEntries.mp he
      simp
  border_value hne := by
    have hlt : vs.length - 1 < vs.length := by omega
    have hkey : (vs.length : Int) = (vs.length - 1 : Nat) + 1 := by omega
    rw [hkey, lookup_element vs dbg _ _ (List.getElem?_eq_getElem hlt)]
    exact (vs[vs.length - 1]).property
  border_next := lookup_behind vs dbg

section List

variable {vs : List Element} {dbg : Option LuaString} {opts : Opts}

theorem listTable_get {i : Nat} {v : Element} (h : vs[i]? = some v) :
    (listTable vs dbg).get (.int (i + 1)) = v.val := lookup_element vs dbg i v h

theorem listTable_behind : (listTable vs dbg).get (.int (vs.length + 1)) = .nil :=
  lookup_behind vs dbg

theorem listTable_entry {e : Value × Value} (he : e ∈ (listTable vs dbg).entries) :
    (∃ (i : Nat) (v : Element), vs[i]? = some v ∧ e = (.int (i + 1), v.val)) ∨
      ∃ s, e = (.str dbgKey, .str s) := by
  rcases List.mem_append.mp he with he | he
  · obtain ⟨i, v, hv, rfl⟩ := mem_elementEntries.mp he
    exact Or.inl ⟨i, v, hv, by simp⟩
  · obtain ⟨s, -, rfl⟩ := mem_dbgEntries.mp he
    exact Or.inr ⟨s, rfl⟩

theorem listTable_keys (e : Value × Value) (he : e ∈ (listTable vs dbg).entries) :
    ∃ s, e.1 = .scalar s := by
  rcases listTable_entry he with ⟨i, v, -, rfl⟩ | ⟨s, rfl⟩
  · exact ⟨.int (i + 1), rfl⟩
  · exact ⟨.str dbgKey, rfl⟩

theorem listTable_filled : (listTable vs dbg).Filled := by
  intro k h1 hk
  have hlt : k - 1 < vs.length := by
    have : k ≤ vs.length := hk
    omega
  have hkey : (k : Int) = (k - 1 : Nat) + 1 := by omega
  rw [hkey, listTable_get (List.getElem?_eq_getElem hlt)]
  exact (vs[k - 1]).property

theorem arrayPart_listTable (hcompact : opts.compactArrays = true) :
    arrayPart opts (listTable vs dbg) = vs.map Subtype.val := by
  have hlength := (listTable vs dbg).ipairs_filled listTable_filled
  have hpart : arrayPart opts (listTable vs dbg) = (listTable vs dbg).ipairs := by
    unfold arrayPart compact
    rw [hcompact, Bool.true_and]
    split_ifs with hborder
    · rfl
    · have hzero : (listTable vs dbg).border = 0 := by simpa using hborder
      exact (List.eq_nil_of_length_eq_zero (by rw [hlength, hzero])).symm
  rw [hpart]
  refine List.ext_getElem (by rw [hlength, List.length_map]; rfl) fun i hi hi' => ?_
  rw [List.length_map] at hi'
  have hget := ((listTable vs dbg).ipairs_getElem i _ (List.getElem?_eq_getElem hi)).1
  rw [← hget, listTable_get (List.getElem?_eq_getElem hi'), List.getElem_map]

theorem otherPart_listTable (hcompact : opts.compactArrays = true) {e : Value × Value}
    (he : e ∈ otherPart opts (listTable vs dbg)) : ∃ s, e = (.str dbgKey, .str s) := by
  obtain ⟨hmem, hother⟩ := otherPart_entry.mp he
  rcases listTable_entry hmem with ⟨i, v, hv, rfl⟩ | ⟨s, rfl⟩
  · have hlt := (List.getElem?_eq_some_iff.mp hv).1
    have hborder : (listTable vs dbg).border = vs.length := rfl
    simp only [isOther, hcompact, hborder, Bool.not_true, Bool.false_or, Bool.or_eq_true,
      decide_eq_true_eq] at hother
    omega
  · exact ⟨s, rfl⟩

end List

/-! ## What becomes of a list -/

/-- The heap with a list at `ref`. -/
def withList (heap : Heap) (ref : Nat) (vs : List Element) (dbg : Option LuaString) : Heap :=
  fun r => if r = ref then listTable vs dbg else heap r

@[simp] theorem withList_same (heap : Heap) (ref : Nat) (vs : List Element)
    (dbg : Option LuaString) : withList heap ref vs dbg ref = listTable vs dbg := if_pos rfl

theorem agree_withList {heap : Heap} {ref : Nat} {v : Value} (h : ¬Reaches heap v ref)
    (vs : List Element) (dbg : Option LuaString) : Agree heap (withList heap ref vs dbg) v :=
  fun r hr => if_neg fun heq : r = ref => h (heq ▸ hr)

/-- The camera serializes the list at `ref`. -/
def listText (heap : Heap) (ref : Nat) (vs : List Element) (dbg : Option LuaString) :
    Except SerializeError LuaString :=
  serialize (withList heap ref vs dbg) cameraDefaults luaCamera (.table ref)

theorem readable_camera : Readable cameraDefaults luaCamera where
  tostring _ _ := rfl
  escapes := escapes51

/-- The value comes back if it is the only element of a list. -/
def Survives (heap : Heap) (ref : Nat) (v : Element) : Prop :=
  ∃ text tree, listText heap ref [v] none = .ok text ∧ unserialize text = some tree ∧
    Equal (withList heap ref [v] none) (.table ref) tree

/-- What the text of an element needs and gives. -/
structure Sound (heap : Heap) (v : Value) : Prop where
  fits : Fits heap cameraDefaults 8 v
  nodup : (marked heap cameraDefaults 8 v).Nodup
  image : ∃ tree, image heap cameraDefaults 8 v = some tree ∧ Equal heap v tree

section Survives

variable {heap : Heap} {ref : Nat} {vs : List Element} {dbg : Option LuaString}

theorem marked_list : marked (withList heap ref vs dbg) cameraDefaults 9 (.table ref) =
    ref :: (vs.map Subtype.val).flatMap (marked (withList heap ref vs dbg) cameraDefaults 8) := by
  have hothers : ((otherPart cameraDefaults (listTable vs dbg)).flatMap fun e =>
      marked (withList heap ref vs dbg) cameraDefaults 8 e.1 ++
        marked (withList heap ref vs dbg) cameraDefaults 8 e.2) = [] := by
    refine List.flatMap_eq_nil_iff.mpr fun e he => ?_
    obtain ⟨s, rfl⟩ := otherPart_listTable rfl he
    rfl
  rw [marked, withList_same, hothers, List.append_nil, arrayPart_listTable rfl]

theorem fits_list : Fits (withList heap ref vs dbg) cameraDefaults 9 (.table ref) ↔
    ∀ v ∈ vs, Fits (withList heap ref vs dbg) cameraDefaults 8 v.val := by
  have hothers : ∀ e ∈ otherPart cameraDefaults (listTable vs dbg),
      Fits (withList heap ref vs dbg) cameraDefaults 8 e.1 ∧
        Fits (withList heap ref vs dbg) cameraDefaults 8 e.2 := by
    intro e he
    obtain ⟨s, rfl⟩ := otherPart_listTable rfl he
    exact ⟨trivial, trivial⟩
  rw [Fits, withList_same, arrayPart_listTable rfl, List.forall_mem_map]
  exact and_iff_left hothers

theorem Survives.sound {v : Element} (h : Survives heap ref v)
    (hfresh : ¬Reaches heap v.val ref) : Sound heap v.val := by
  obtain ⟨text, tree, htext, htree, hequal⟩ := h
  obtain ⟨hfits, hnodup, himage⟩ := unserialize_serialize _ readable_camera rfl rfl htext
  have hagree := agree_withList hfresh [v] none
  refine ⟨?_, ?_, ?_⟩
  · exact (fits_agree 8 v.val hagree).mp (fits_list.mp hfits v (by simp))
  · have hmarked := (List.nodup_cons.mp (marked_list ▸ hnodup)).2
    rw [List.map_singleton, List.flatMap_singleton, marked_agree 8 v.val hagree] at hmarked
    exact hmarked
  · have himage' : image (withList heap ref [v] none) cameraDefaults 9 (.table ref) = some tree :=
      himage.symm.trans htree
    obtain ⟨f, hf, rfl⟩ := Option.map_eq_some_iff.mp himage'
    rw [withList_same] at hf
    have hget : (listTable [v] none).get (.int 1) = v.val := listTable_get (i := 0) rfl
    have hwritten : Written cameraDefaults (listTable [v] none) (.int 1) :=
      written_filled (fun _ => listTable_filled) (.int 1) (by rw [hget]; exact v.property)
    have hread := (parts_value (image_scalar _ 8) listTable_keys hf (.int 1)).1 hwritten
    cases hequal with
    | table _ _ _ hvalues =>
      have hvalue := hvalues (.int 1)
      rw [withList_same, hget] at hvalue
      rw [hget, image_agree 8 v.val hagree] at hread
      exact ⟨_, hread, equal_agree hvalue hagree⟩

theorem equal_singleton {v : Element} {tree : Tree}
    (h : Equal (withList heap ref [v] none) v.val tree) :
    Equal (withList heap ref [v] none) (.table ref) (.table [(.int 1, tree)]) := by
  refine .table ref _ (by rw [withList_same]; exact listTable_keys) fun s => ?_
  rw [withList_same, fieldValue_cons]
  split_ifs with hs
  · have hget : (listTable [v] none).get (.int 1) = v.val := listTable_get (i := 0) rfl
    rw [hs, hget]
    exact h
  · have hget : (listTable [v] none).get (.scalar s) = .nil := by
      by_contra hne
      rcases listTable_entry ((listTable [v] none).mem_get _ hne) with ⟨i, w, hw, heq⟩ | ⟨n, heq⟩
      · have hi : i = 0 := by
          have := (List.getElem?_eq_some_iff.mp hw).1
          rw [List.length_singleton] at this
          omega
        subst hi
        have hkey := (Prod.mk.inj heq).1
        exact hs (by simpa using hkey)
      · have hmem := (listTable [v] none).mem_get _ hne
        rw [heq] at hmem
        simp [listTable, elementEntries, dbgEntries] at hmem
    rw [hget]
    exact .nil

/-- The table that the host makes of a list has the elements at their places and
nothing behind them. -/
theorem list_read (dbg : Option LuaString) (hfresh : ∀ v ∈ vs, ¬Reaches heap v.val ref)
    (hsound : ∀ v ∈ vs, Sound heap v.val)
    (hapart : vs.Pairwise fun v w => ∀ r, Reaches heap v.val r → ¬Reaches heap w.val r) :
    ∃ text fields, listText heap ref vs dbg = .ok text ∧
      unserialize text = some (.table fields) ∧
      (∀ (i : Nat) (v : Element), vs[i]? = some v →
        Equal heap v.val (fieldValue fields (.int (i + 1)))) ∧
      fieldValue fields (.int (vs.length + 1)) = .nil := by
  have hagree : ∀ v ∈ vs, Agree heap (withList heap ref vs dbg) v.val := fun v hv =>
    agree_withList (hfresh v hv) vs dbg
  have hfits : Fits (withList heap ref vs dbg) cameraDefaults 9 (.table ref) :=
    fits_list.mpr fun v hv => (fits_agree 8 v.val (hagree v hv)).mpr (hsound v hv).fits
  have hmarks : (vs.map Subtype.val).flatMap (marked (withList heap ref vs dbg) cameraDefaults 8) =
      vs.flatMap fun v => marked heap cameraDefaults 8 v.val := by
    rw [List.flatMap_map]
    exact List.flatMap_congr fun v hv => marked_agree 8 v.val (hagree v hv)
  have hnodup : (marked (withList heap ref vs dbg) cameraDefaults 9 (.table ref)).Nodup := by
    rw [marked_list, hmarks]
    refine List.nodup_cons.mpr ⟨?_, List.nodup_flatMap.mpr ⟨fun v hv => (hsound v hv).nodup, ?_⟩⟩
    · intro hmem
      obtain ⟨v, hv, hr⟩ := List.mem_flatMap.mp hmem
      exact hfresh v hv (marked_reaches 8 v.val ref hr)
    · refine hapart.imp fun hvw r hr hr' => ?_
      exact hvw r (marked_reaches 8 _ r hr) (marked_reaches 8 _ r hr')
  have himages : ∀ v ∈ vs, ∃ tree, image (withList heap ref vs dbg) cameraDefaults 8 v.val =
      some tree ∧ Equal heap v.val tree := by
    intro v hv
    rw [image_agree 8 v.val (hagree v hv)]
    exact (hsound v hv).image
  have hparts : (partsImage cameraDefaults (image (withList heap ref vs dbg) cameraDefaults 8)
      (listTable vs dbg) ⟨[], 0⟩).isSome := by
    refine parts_isSome.mpr ⟨?_, ?_⟩
    · rw [arrayPart_listTable rfl, List.forall_mem_map]
      intro v hv
      obtain ⟨tree, htree, -⟩ := himages v hv
      rw [htree]
      rfl
    · intro e he
      obtain ⟨s, rfl⟩ := otherPart_listTable rfl he
      refine ⟨(keyImage_isSome (image_scalar _ 8) (.str dbgKey)).mpr fun _ => ?_, rfl⟩
      decide
  obtain ⟨f, hf⟩ := Option.isSome_iff_exists.mp hparts
  obtain ⟨text, htext⟩ := serialize_succeeds _ readable_camera rfl rfl hfits hnodup
  have hread := (unserialize_serialize _ readable_camera rfl rfl htext).2.2
  have himage : image (withList heap ref vs dbg) cameraDefaults 9 (.table ref) =
      some (.table f.fields) := by
    rw [image, withList_same, hf]
    rfl
  have hvalue := parts_value (image_scalar _ 8) listTable_keys hf
  refine ⟨text, f.fields, htext, hread.trans himage, ?_, ?_⟩
  · intro i v hv
    have hget : (listTable vs dbg).get (.int (i + 1)) = v.val := listTable_get hv
    have hwritten : Written cameraDefaults (listTable vs dbg) (.int (i + 1)) :=
      written_filled (fun _ => listTable_filled) _ (by rw [hget]; exact v.property)
    obtain ⟨tree, htree, hequal⟩ := himages v (List.mem_of_getElem? hv)
    have hfield := (hvalue (.int (i + 1))).1 hwritten
    rw [hget, htree, Option.some.injEq] at hfield
    rwa [← hfield]
  · refine (hvalue (.int (vs.length + 1))).2 fun hwritten => ?_
    exact written_ne hwritten listTable_behind

end Survives

end LuaSerialize
