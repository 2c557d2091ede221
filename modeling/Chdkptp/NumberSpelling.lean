import Chdkptp.LuaRoundTrip

/-!
# How numbers are spelled

The host writes integers that do not fit 31 bits with hexadecimal digits, the camera
writes all integers with decimal ones. Apart from that the walks over a value put out
the same pieces of text, if their options agree. Only a number that the host spells in
its own way has an x, so texts in which as many are found are equal.
-/

namespace LuaSerialize

open LuaValue LuaText Visiting

/-- The number is one that the copies spell differently. -/
def hostSpelled (n : Int) : LuaString := bytes ['0', 'x'] ++ numeralText 16 (round n).toNat

/-- The piece of the host and that of the camera. -/
def SamePiece (p q : LuaString) : Prop :=
  p = q ∨ ∃ n : Int, 0x7FFFFFFF < n ∧ p = hostSpelled n ∧ q = decimal n

/-- The texts are the same but for how numbers are spelled. -/
def SameText (text text' : LuaString) : Prop :=
  ∃ r r', text = r.flatten ∧ text' = r'.flatten ∧ List.Forall₂ SamePiece r r'

theorem SamePiece.refl (p : LuaString) : SamePiece p p := Or.inl rfl

theorem decimal_nonneg {n : Int} (h : 0 ≤ n) : decimal n = numeralText 10 n.natAbs :=
  if_neg (Int.not_lt.mpr h)

theorem hostSpelled_word (n : Int) : ∀ c ∈ hostSpelled n, isWord c = true := by
  intro c hc
  rcases List.mem_append.mp hc with hc | hc
  · rw [bytes, List.map_cons, List.map_singleton, List.mem_pair] at hc
    rcases hc with rfl | rfl <;> decide
  · exact numeralText_word (by decide) (by decide) _ c hc

theorem decimal_digits {n : Int} (h : 0 ≤ n) : ∀ c ∈ decimal n, isDigit c = true := by
  rw [decimal_nonneg h]
  exact numeralText_digits n.natAbs

theorem count_absent {P : UInt8 → Bool} {c : UInt8} {w : LuaString} (h : ∀ d ∈ w, P d = true)
    (hc : P c = false) : w.count c = 0 := by
  refine List.count_eq_zero.mpr fun hmem => ?_
  rw [h c hmem] at hc
  cases hc

/-- Characters that are in no number are found equally often. -/
theorem SameText.count {text text' : LuaString} (h : SameText text text') {c : UInt8}
    (hc : isWord c = false) : text.count c = text'.count c := by
  obtain ⟨r, r', rfl, rfl, hr⟩ := h
  have hdigit : isDigit c = false := (Bool.or_eq_false_iff.mp hc).2
  induction hr with
  | nil => rfl
  | cons hpq _ ih =>
    rw [List.flatten_cons, List.flatten_cons, List.count_append, List.count_append, ih]
    rcases hpq with rfl | ⟨n, hn, rfl, rfl⟩
    · rfl
    · rw [count_absent (hostSpelled_word n) hc, count_absent (decimal_digits (by omega)) hdigit]

theorem count_hostSpelled (n : Int) : 0 < (hostSpelled n).count (byte 'x') :=
  List.count_pos_iff.mpr (List.mem_append_left _ (by decide))

theorem pieces_eq {r r' : List LuaString} (hr : List.Forall₂ SamePiece r r') :
    r'.flatten.count (byte 'x') ≤ r.flatten.count (byte 'x') ∧
      (r'.flatten.count (byte 'x') = r.flatten.count (byte 'x') → r.flatten = r'.flatten) := by
  induction hr with
  | nil => simp
  | cons hpq _ ih =>
    obtain ⟨hle, heq⟩ := ih
    rw [List.flatten_cons, List.flatten_cons, List.count_append, List.count_append]
    rcases hpq with rfl | ⟨n, hn, rfl, rfl⟩
    · refine ⟨by omega, fun hcount => ?_⟩
      rw [heq (by omega)]
    · have hhost := count_hostSpelled n
      have hcamera : (decimal n).count (byte 'x') = 0 :=
        count_absent (decimal_digits (by omega)) (by decide)
      exact ⟨by omega, fun hcount => by omega⟩

theorem SameText.eq_of_count {text text' : LuaString} (h : SameText text text')
    (hx : text.count (byte 'x') = text'.count (byte 'x')) : text = text' := by
  obtain ⟨r, r', rfl, rfl, hr⟩ := h
  exact (pieces_eq hr).2 hx.symm

/-! ## Quoted strings -/

theorem count_escape52 (c : UInt8) (nx : Option UInt8) :
    (escape52 c nx).count (byte 'x') = [c].count (byte 'x') := by
  have hslash : byte '\\' ≠ byte 'x' := by decide
  have hcount : isControl c = true → [c].count (byte 'x') = 0 := by
    intro hcontrol
    refine count_absent (P := isControl) (fun d hd => ?_) (by decide)
    rwa [List.mem_singleton.mp hd]
  unfold escape52
  split_ifs with hplain hcontrol hdigit
  · exact List.count_cons_of_ne hslash
  · rw [hcount hcontrol, List.count_cons_of_ne hslash]
    exact count_absent (pad3_digits c.toNat) (by decide)
  · rw [hcount hcontrol, List.count_cons_of_ne hslash]
    exact count_absent (numeralText_digits c.toNat) (by decide)
  · rfl

theorem count_escape51 (c : UInt8) (nx : Option UInt8) :
    (escape51 c nx).count (byte 'x') = [c].count (byte 'x') := by
  unfold escape51
  split_ifs with hplain hreturn hzero
  · exact List.count_cons_of_ne (by decide)
  · rw [hreturn]
    decide
  · rw [hzero]
    decide
  · rfl

theorem count_quoteTail {esc : UInt8 → Option UInt8 → LuaString}
    (hesc : ∀ c nx, (esc c nx).count (byte 'x') = [c].count (byte 'x')) (s : LuaString) :
    (quoteTail esc s).count (byte 'x') = s.count (byte 'x') := by
  induction s with
  | nil => rfl
  | cons c cs ih =>
    rw [quoteTail, List.count_append, hesc, ih, ← List.count_append]
    rfl

/-- The spelling of numbers does not hide that a string is quoted differently. -/
theorem sameText_quote_iff (s : LuaString) :
    SameText (quote escape52 s) (quote escape51 s) ↔ writtenAlike s = true := by
  rw [← quote_alike_iff]
  constructor
  · intro h
    refine h.eq_of_count ?_
    unfold quote
    have hquote : byte '"' ≠ byte 'x' := by decide
    rw [List.count_cons_of_ne hquote, List.count_cons_of_ne hquote,
      count_quoteTail count_escape52, count_quoteTail count_escape51]
  · intro h
    refine ⟨[quote escape52 s], [quote escape51 s], by simp, by simp, ?_⟩
    exact .cons (Or.inl h) .nil

/-! ## The two walks -/

/-- The options of the copy that writes all numbers by `tostring`. -/
def plainNumbers (opts : Opts) : Opts := { opts with fixBignum := false, forceint := false }

theorem number_same {opts : Opts} (hfix : opts.fixBignum = true) (hforce : opts.forceint = true)
    (tostring : Int → LuaString) (n : Int) :
    SamePiece (number (lua52 tostring) opts n) (number luaCamera (plainNumbers opts) n) := by
  change SamePiece (number (lua52 tostring) opts n) (decimal n)
  unfold number
  rw [hfix, hforce, if_pos rfl]
  by_cases hn : n > 0x7FFFFFFF
  · rw [if_pos ⟨rfl, hn⟩]
    exact Or.inr ⟨n, hn, rfl, rfl⟩
  · rw [if_neg fun h => hn h.2]
    exact Or.inl rfl

theorem pieces_refl (r : List LuaString) : List.Forall₂ SamePiece r r :=
  List.forall₂_same.mpr fun p _ => SamePiece.refl p

/-- No number is a comma. -/
theorem SamePiece.comma_iff {p q : LuaString} (h : SamePiece p q) :
    p = [byte ','] ↔ q = [byte ','] := by
  rcases h with rfl | ⟨n, hn, rfl, rfl⟩
  · rfl
  · have hhost : hostSpelled n ≠ [byte ','] := fun heq =>
      absurd (hostSpelled_word n (byte ',') (by simp [heq])) (by decide)
    have hpos : 0 ≤ n := by omega
    have hcamera : decimal n ≠ [byte ','] := fun heq =>
      absurd (decimal_digits hpos (byte ',') (by simp [heq])) (by decide)
    simp [hhost, hcamera]

theorem omitComma_cons_cons (p q : LuaString) (r : List LuaString) :
    omitComma (p :: q :: r) = p :: omitComma (q :: r) := by
  unfold omitComma
  rw [List.getLast?_cons_cons]
  split_ifs <;> rfl

theorem omitComma_same {r r' : List LuaString} (h : List.Forall₂ SamePiece r r') :
    List.Forall₂ SamePiece (omitComma r) (omitComma r') := by
  induction h with
  | nil => exact .nil
  | @cons p q r r' hpq hrest ih =>
    cases hrest with
    | nil =>
      simp only [omitComma, List.getLast?_singleton, Option.some.injEq, hpq.comma_iff]
      split_ifs
      · exact .nil
      · exact .cons hpq .nil
    | cons hnext hmore =>
      rw [omitComma_cons_cons, omitComma_cons_cons]
      exact .cons hpq ih

theorem tablePieces_same (opts : Opts) (depth : Nat) (r r' : List LuaString)
    (h : List.Forall₂ SamePiece r r') :
    List.Forall₂ SamePiece (tablePieces opts depth r)
      (tablePieces (plainNumbers opts) depth r') := by
  have hopen := omitComma_same (.cons (SamePiece.refl [byte '{']) h)
  exact List.rel_append (List.rel_append hopen (pieces_refl _)) (pieces_refl _)

section Parts

variable (opts : Opts) (depth : Nat) {visit visit' : Value → Visit SerializeError Nat LuaString}

theorem serializeItem_related {v : Value} (hv : Related SamePiece (visit v) (visit' v)) :
    Related SamePiece (serializeItem opts depth visit v)
      (serializeItem (plainNumbers opts) depth visit' v) :=
  hv.seq (Related.output (pieces_refl _))

theorem serializeKey_related {k : Value} (hk : Related SamePiece (visit k) (visit' k)) :
    Related SamePiece (serializeKey opts visit k) (serializeKey (plainNumbers opts) visit' k) := by
  have hbare : bareKey (plainNumbers opts) k = bareKey opts k := by cases k <;> rfl
  unfold serializeKey
  rw [hbare]
  cases bareKey opts k with
  | some w => exact Related.output (pieces_refl [w])
  | none =>
    exact (Related.output (pieces_refl _)).seq (hk.seq (Related.output (pieces_refl _)))

theorem serializeField_related {e : Value × Value} (hk : Related SamePiece (visit e.1) (visit' e.1))
    (hv : Related SamePiece (visit e.2) (visit' e.2)) :
    Related SamePiece (serializeField opts depth visit e)
      (serializeField (plainNumbers opts) depth visit' e) := by
  have hkey := serializeKey_related opts hk
  have hvalue := hv.seq (Related.output (pieces_refl [[byte ',']]))
  exact (Related.output (pieces_refl _)).seq
    (hkey.seq ((Related.output (pieces_refl [[byte '=']])).seq hvalue))

theorem serializeParts_related {t : Table}
    (hvisit : ∀ e ∈ t.entries, Related SamePiece (visit e.1) (visit' e.1) ∧
      Related SamePiece (visit e.2) (visit' e.2)) :
    Related SamePiece (serializeParts opts depth visit t)
      (serializeParts (plainNumbers opts) depth visit' t) := by
  have hitems : Related SamePiece (each (serializeItem opts depth visit) (arrayPart opts t))
      (each (serializeItem (plainNumbers opts) depth visit') (arrayPart opts t)) := by
    refine Related.each _ fun v hv => ?_
    obtain ⟨i, hi⟩ := List.mem_iff_getElem?.mp hv
    exact serializeItem_related opts depth (hvisit _ (arrayPart_entry hi)).2
  have hfields : Related SamePiece (each (serializeField opts depth visit) (otherPart opts t))
      (each (serializeField (plainNumbers opts) depth visit') (otherPart opts t)) := by
    refine Related.each _ fun e he => ?_
    obtain ⟨hkey, hvalue⟩ := hvisit e (otherPart_entry.mp he).1
    exact serializeField_related opts depth hkey hvalue
  have hother : otherPart (plainNumbers opts) t = otherPart opts t := by
    unfold otherPart
    congr 1
  unfold serializeParts
  rw [hother]
  exact (Related.output (pieces_refl _)).seq (hitems.seq hfields)

end Parts

/-- What a walk over the first value meets. -/
inductive Within (heap : Heap) : Value → Value → Prop
  | here (v : Value) : Within heap v v
  | key {ref : Nat} {e : Value × Value} {w : Value} (he : e ∈ (heap ref).entries)
      (h : Within heap e.1 w) : Within heap (.table ref) w
  | value {ref : Nat} {e : Value × Value} {w : Value} (he : e ∈ (heap ref).entries)
      (h : Within heap e.2 w) : Within heap (.table ref) w

/-- Nil, a boolean, an integer, a table, or a string of the given kind. -/
def IsData (strings : LuaString → Prop) : Value → Prop
  | .scalar (.str s) => strings s
  | .other _ _ => False
  | _ => True

/-- The value is built from data. -/
def Data (heap : Heap) (strings : LuaString → Prop) (v : Value) : Prop :=
  ∀ w, Within heap v w → IsData strings w

theorem Data.entry {heap : Heap} {strings : LuaString → Prop} {ref : Nat}
    (h : Data heap strings (.table ref)) {e : Value × Value} (he : e ∈ (heap ref).entries) :
    Data heap strings e.1 ∧ Data heap strings e.2 :=
  ⟨fun w hw => h w (.key he hw), fun w hw => h w (.value he hw)⟩

theorem Data.mono {heap : Heap} {strings strings' : LuaString → Prop} {v : Value}
    (h : Data heap strings v) (hstrings : ∀ s, strings s → strings' s) : Data heap strings' v := by
  intro w hw
  have hdata := h w hw
  cases w with
  | nil => trivial
  | table ref => trivial
  | other type text => exact hdata
  | scalar s =>
    cases s with
    | bool b => trivial
    | int n => trivial
    | str w => exact hstrings w hdata

/-- Values that are data and whose entries are such values again. -/
theorem Data.closed {heap : Heap} {strings : LuaString → Prop} {P : Value → Prop}
    (hdata : ∀ v, P v → IsData strings v)
    (hentries : ∀ ref, P (.table ref) → ∀ e ∈ (heap ref).entries, P e.1 ∧ P e.2) {v : Value}
    (hv : P v) : Data heap strings v := by
  intro w hw
  induction hw with
  | here v => exact hdata v hv
  | key he _ ih => exact ih (hentries _ hv _ he).1
  | value he _ ih => exact ih (hentries _ hv _ he).2

section Walk

variable (heap : Heap) {opts : Opts} (hfix : opts.fixBignum = true)
  (hforce : opts.forceint = true) (tostring : Int → LuaString)

include hfix hforce

theorem serializeR_scalar_related (left depth : Nat) (s : Scalar)
    (hs : ∀ w, s = .str w → quote escape52 w = quote escape51 w) :
    Related SamePiece (serializeR heap opts (lua52 tostring) left depth (.scalar s))
      (serializeR heap (plainNumbers opts) luaCamera left depth (.scalar s)) := by
  cases s with
  | bool b =>
    have hpiece : Related (ε := SerializeError) (ν := Nat) SamePiece (output [boolText b])
        (output [boolText b]) := Related.output (pieces_refl _)
    cases left <;> exact hpiece
  | int n =>
    have hpiece : Related (ε := SerializeError) (ν := Nat) SamePiece
        (output [number (lua52 tostring) opts n])
        (output [number luaCamera (plainNumbers opts) n]) :=
      Related.output (.cons (number_same hfix hforce tostring n) .nil)
    cases left <;> exact hpiece
  | str w =>
    have hpiece : Related (ε := SerializeError) (ν := Nat) SamePiece (output [quote escape52 w])
        (output [quote escape51 w]) := Related.output (.cons (Or.inl (hs w rfl)) .nil)
    cases left <;> exact hpiece

/-- The walks over data differ in how they spell numbers only. -/
theorem serializeR_related (left depth : Nat) (v : Value)
    (hv : Data heap (fun s => quote escape52 s = quote escape51 s) v) :
    Related SamePiece (serializeR heap opts (lua52 tostring) left depth v)
      (serializeR heap (plainNumbers opts) luaCamera left depth v) := by
  induction left generalizing depth v with
  | zero =>
    cases v with
    | nil => exact Related.output (pieces_refl _)
    | scalar s =>
      refine serializeR_scalar_related heap hfix hforce tostring 0 depth s fun w hw => ?_
      subst hw
      exact hv _ (.here _)
    | table ref => exact Related.fail SerializeError.maxDepth
    | other type text => exact (hv _ (.here _)).elim
  | succ left ih =>
    cases v with
    | nil => exact Related.output (pieces_refl _)
    | scalar s =>
      refine serializeR_scalar_related heap hfix hforce tostring (left + 1) depth s fun w hw => ?_
      subst hw
      exact hv _ (.here _)
    | table ref =>
      have hparts := serializeParts_related opts depth (t := heap ref) fun e he =>
        ⟨ih (depth + 1) e.1 (hv.entry he).1, ih (depth + 1) e.2 (hv.entry he).2⟩
      have hbody := hparts.mapOutput (tablePieces_same opts depth)
      refine Related.enter ref ?_ hbody
      change Related SamePiece (if opts.errCycle then fail SerializeError.cycle else _)
        (if opts.errCycle then fail SerializeError.cycle else _)
      split_ifs
      · exact Related.fail SerializeError.cycle
      · exact Related.output (pieces_refl _)
    | other type text => exact (hv _ (.here _)).elim

/-- Both copies fail, or their texts are the same but for the numbers. -/
theorem serialize_same (v : Value)
    (hv : Data heap (fun s => quote escape52 s = quote escape51 s) v) :
    (∃ e, serialize heap opts (lua52 tostring) v = .error e ∧
        serialize heap (plainNumbers opts) luaCamera v = .error e) ∨
      ∃ text text', serialize heap opts (lua52 tostring) v = .ok text ∧
        serialize heap (plainNumbers opts) luaCamera v = .ok text' ∧ SameText text text' := by
  have hends := serializeR_related heap hfix hforce tostring (opts.maxdepth - 1).toNat 1 v hv []
  have hdepth : (plainNumbers opts).maxdepth = opts.maxdepth := rfl
  unfold serialize
  rw [hdepth]
  generalize serializeR heap opts (lua52 tostring) (opts.maxdepth - 1).toNat 1 v [] = x at hends ⊢
  generalize serializeR heap (plainNumbers opts) luaCamera (opts.maxdepth - 1).toNat 1 v [] = y
    at hends ⊢
  cases hends with
  | error e => exact Or.inl ⟨e, rfl, rfl⟩
  | ok seen hr => exact Or.inr ⟨_, _, rfl, rfl, _, _, rfl, rfl, hr⟩

end Walk

end LuaSerialize
