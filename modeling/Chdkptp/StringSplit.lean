import Chdkptp.Fuelled
import Chdkptp.LbufIndex
import Chdkptp.LuaPattern

/-!
# Splitting strings

`string_split` takes a string apart at the matches of a pattern. Its loop goes on from the byte
behind a match, so that it stays where it is when a match is empty.
-/

namespace StringSplit

open Fuelled LuaPattern
open LbufIndex (posrelat strSub)

/-- `string.find`, with places counted from 1. -/
def stringFind (str pat : Bytes) (init : ℤ) (plain : Bool) : Except String (Option (ℤ × ℤ)) :=
  (find str pat (posrelat init str.length - 1) plain).map
    (Option.map fun r => ((r.1 : ℤ) + 1, (r.2 : ℤ)))

section Loops

variable {σ : Type} (func : σ → Bytes → Except String σ) (str pat : Bytes) (plain : Bool)

/-- A pass of the loop for an empty pattern. -/
def charStep (s : ℤ × σ) : Fuelled String ((ℤ × σ) ⊕ σ) :=
  let c := strSub str s.1 (some s.1)
  if c = [] then pure (.inr s.2)
  else do
    let r ← liftM (func s.2 c)
    pure (.inl (s.1 + 1, r))

/-- A pass of the loop for any other pattern. -/
def splitStep (s : ℤ × σ) : Fuelled String ((ℤ × σ) ⊕ σ) := do
  match ← liftM (stringFind str pat s.1 plain) with
  | none =>
    let r ← liftM (func s.2 (strSub str s.1 (some (-1))))
    pure (.inr r)
  | some m =>
    let r ← liftM (func s.2 (strSub str s.1 (some (m.1 - 1))))
    pure (.inl (m.2 + 1, r))

def splitWith (start : ℤ) (r : σ) : Fuelled String σ :=
  if pat = [] then repeatUntil (charStep func str) (start, r)
  else repeatUntil (splitStep func str pat plain) (start, r)

end Loops

structure Opts where
  plain : Bool
  start : ℤ
  /-- Keep empty pieces. -/
  empty : Bool
  func : Option (Bytes → Except String Unit)

/-- The function that collects the pieces if there is no other. -/
def collect (empty : Bool) (r : List Bytes) (v : Bytes) : Except String (List Bytes) :=
  .ok (if 0 < v.length ∨ empty = true then r ++ [v] else r)

/-- `util.string_split`; with a function for the pieces it returns none. -/
def string_split (str pat : Bytes) (opts : Opts) : Fuelled String (List Bytes) :=
  match opts.func with
  | none => splitWith (collect opts.empty) str pat opts.plain opts.start []
  | some func => splitWith (fun r v => (func v).map fun _ => r) str pat opts.plain opts.start []

/-! ## Where a search leads -/

variable {str pat : Bytes} {plain : Bool}

/-- The places from which the loop searches. -/
inductive Reached (str pat : Bytes) (plain : Bool) : ℤ → ℤ → Prop
  | here (pos : ℤ) : Reached str pat plain pos pos
  | next {pos q : ℤ} {m : ℤ × ℤ} (hm : stringFind str pat pos plain = .ok (some m))
      (hq : Reached str pat plain (m.2 + 1) q) : Reached str pat plain pos q

theorem posrelat_natCast (n len : Nat) : posrelat n len = n := by
  rw [posrelat, if_pos (Int.natCast_nonneg n), Int.toNat_natCast]

theorem posrelat_of_neg {pos : ℤ} (h : pos < 0) (len : Nat) : posrelat pos len ≤ len := by
  rw [posrelat, if_neg (by omega)]
  split <;> omega

/-- What a match of `string.find` is. -/
theorem stringFind_some {pos : ℤ} {m : ℤ × ℤ} (h : stringFind str pat pos plain = .ok (some m)) :
    posrelat pos str.length - 1 ≤ str.length ∧
      ∃ s e, find str pat (posrelat pos str.length - 1) plain = .ok (some (s, e)) ∧
        m = ((s : ℤ) + 1, (e : ℤ)) := by
  rw [stringFind] at h
  cases hfind : find str pat (posrelat pos str.length - 1) plain with
  | error msg => simp [hfind, Except.map] at h
  | ok found =>
    cases found with
    | none => simp [hfind, Except.map] at h
    | some r =>
      constructor
      · by_contra hlt
        rw [find, if_pos (by omega)] at hfind
        cases hfind
      · simp only [hfind, Except.map, Option.map_some, Except.ok.injEq, Option.some.injEq] at h
        exact ⟨r.1, r.2, rfl, h.symm⟩

/-- The next search is where the match ends or, if it was empty, where it begins. -/
theorem find_again {pos : ℤ} {m : ℤ × ℤ} (h : stringFind str pat pos plain = .ok (some m)) :
    1 ≤ m.1 ∧ posrelat pos str.length ≤ m.1 ∧ m.1 ≤ m.2 + 1 ∧
      stringFind str pat m.1 plain = .ok (some m) := by
  obtain ⟨hle, s, e, hfind, rfl⟩ := stringFind_some h
  obtain ⟨his, hse, hagain⟩ := find_some hle hfind
  have hpos : posrelat ((s : ℤ) + 1) str.length - 1 = s := by
    have hcast : ((s : ℤ) + 1) = ((s + 1 : Nat) : ℤ) := by omega
    rw [hcast, posrelat_natCast, Nat.add_sub_cancel]
  refine ⟨by omega, by omega, by omega, ?_⟩
  rw [stringFind, hpos, hagain]
  rfl

/-- Nothing is found behind the end of the string. -/
theorem stringFind_behind {pos : ℤ} (h : (str.length : ℤ) + 1 < pos) :
    stringFind str pat pos plain = .ok none := by
  have hpos : str.length < posrelat pos str.length - 1 := by
    rw [posrelat, if_pos (by omega)]
    omega
  rw [stringFind, find, if_pos hpos]
  rfl

/-! ## Whether the loop ends -/

section Ends

variable {empty : Bool}

/-- The pieces with the next one. -/
def collected (empty : Bool) (r : List Bytes) (v : Bytes) : List Bytes :=
  if 0 < v.length ∨ empty = true then r ++ [v] else r

theorem splitStep_none {pos : ℤ} (r : List Bytes) (h : stringFind str pat pos plain = .ok none) :
    (splitStep (collect empty) str pat plain (pos, r)).Yields
      (.inr (collected empty r (strSub str pos (some (-1))))) := by
  rw [splitStep, yields_bind]
  refine ⟨none, yields_lift.mpr h, ?_⟩
  exact yields_bind.mpr ⟨_, yields_lift.mpr rfl, yields_pure.mpr rfl⟩

theorem splitStep_some {pos : ℤ} {m : ℤ × ℤ} (r : List Bytes)
    (h : stringFind str pat pos plain = .ok (some m)) :
    (splitStep (collect empty) str pat plain (pos, r)).Yields
      (.inl (m.2 + 1, collected empty r (strSub str pos (some (m.1 - 1))))) := by
  rw [splitStep, yields_bind]
  refine ⟨some m, yields_lift.mpr h, ?_⟩
  exact yields_bind.mpr ⟨_, yields_lift.mpr rfl, yields_pure.mpr rfl⟩

theorem splitStep_error {pos : ℤ} {msg : String} (r : List Bytes)
    (h : stringFind str pat pos plain = .error msg) :
    (splitStep (collect empty) str pat plain (pos, r)).Raises msg := by
  rw [splitStep, raises_bind]
  exact Or.inl (raises_lift.mpr h)

/-- Every match that the loop comes to takes some bytes. -/
def Progresses (str pat : Bytes) (plain : Bool) (start : ℤ) : Prop :=
  ∀ pos, Reached str pat plain start pos → ∀ m, stringFind str pat pos plain = .ok (some m) →
    m.1 ≤ m.2

/-- The places that are left. -/
def left (str : Bytes) (pos : ℤ) : Nat :=
  if pos < 1 then str.length + 2 else (str.length + 2 - pos).toNat

theorem left_lt {pos : ℤ} {m : ℤ × ℤ} (h : stringFind str pat pos plain = .ok (some m))
    (hne : m.1 ≤ m.2) : left str (m.2 + 1) < left str pos := by
  obtain ⟨hone, hle, -, -⟩ := find_again h
  have hlen : pos ≤ str.length + 1 := by
    by_contra hgt
    rw [stringFind_behind (by omega)] at h
    cases h
  rw [left, left, if_neg (by omega)]
  split
  · omega
  · rename_i hpos
    rw [posrelat, if_pos (by omega)] at hle
    omega

theorem ends_of_progresses {start : ℤ} (h : Progresses str pat plain start) (r : List Bytes) :
    (repeatUntil (splitStep (collect empty) str pat plain) (start, r)).Ends := by
  induction hleft : left str start using Nat.strong_induction_on generalizing start r with
  | _ n ih =>
    cases hfind : stringFind str pat start plain with
    | error msg =>
      obtain ⟨k, hk⟩ := raises_repeat (splitStep_error r hfind)
      exact ⟨k, _, hk⟩
    | ok found =>
      cases found with
      | none => exact (yields_repeat_inr (splitStep_none r hfind)).ends
      | some m =>
        have hstep := @splitStep_some _ _ _ empty _ _ r hfind
        apply ends_repeat hstep.ends
        intro s' hs'
        cases hstep.unique hs'
        have hlt := left_lt hfind (h start (.here start) m hfind)
        exact ih _ (hleft ▸ hlt) (fun pos hpos => h pos (.next hfind hpos)) _ rfl

/-- An empty match is found again and again. -/
theorem not_ends_of_empty {pos : ℤ} {m : ℤ × ℤ} (h : stringFind str pat pos plain = .ok (some m))
    (hempty : m.2 < m.1) (r : List Bytes) :
    ¬(repeatUntil (splitStep (collect empty) str pat plain) (pos, r)).Ends := by
  obtain ⟨-, -, hle, hagain⟩ := find_again h
  have hback : m.2 + 1 = m.1 := by omega
  apply @not_ends_repeat _ _ _ _ _ (fun s => stringFind str pat s.1 plain = .ok (some m)) ?_ h
  intro s hs
  exact ⟨_, splitStep_some s.2 hs, hback ▸ hagain⟩

theorem ends_iff (start : ℤ) (r : List Bytes) :
    (repeatUntil (splitStep (collect empty) str pat plain) (start, r)).Ends ↔
      Progresses str pat plain start := by
  constructor
  · intro hends pos hpos
    induction hpos generalizing r with
    | here pos =>
      intro m hm
      by_contra hlt
      exact not_ends_of_empty hm (by omega) r hends
    | next hm _ ih => exact ih _ (ends_of_repeat_inl (splitStep_some r hm) hends)
  · exact fun h => ends_of_progresses h r

/-- A plain delimiter is not empty. -/
theorem progresses_plain (hpat : pat ≠ []) (start : ℤ) : Progresses str pat true start := by
  intro pos _ m hm
  obtain ⟨hle, s, e, hfind, rfl⟩ := stringFind_some hm
  rw [find, if_neg (by omega), if_pos (by simp)] at hfind
  obtain ⟨j, -, heq⟩ := Option.map_eq_some_iff.mp (Except.ok.inj hfind)
  obtain ⟨rfl, rfl⟩ := Prod.mk.inj heq
  have hlen := List.length_pos_iff.mpr hpat
  push_cast
  omega

end Ends

/-! ## Single characters -/

section Chars

variable {empty : Bool}

theorem strSub_char (str : Bytes) (k : Nat) :
    strSub str ((k : ℤ) + 1) (some ((k : ℤ) + 1)) = (str.drop k).take 1 := by
  have hcast : (k : ℤ) + 1 = ((k + 1 : Nat) : ℤ) := by omega
  rw [strSub, Option.getD_some, hcast, posrelat_natCast, LbufIndex.part, Nat.add_sub_cancel,
    List.drop_take, Nat.add_sub_cancel_left]

theorem charStep_end {pos : ℤ} (r : List Bytes) (h : strSub str pos (some pos) = []) :
    (charStep (collect empty) str (pos, r)).Yields (.inr r) := by
  rw [charStep]
  simp only [h, if_pos]
  exact yields_pure.mpr rfl

theorem charStep_char {pos : ℤ} (r : List Bytes) (h : strSub str pos (some pos) ≠ []) :
    (charStep (collect empty) str (pos, r)).Yields
      (.inl (pos + 1, collected empty r (strSub str pos (some pos)))) := by
  rw [charStep]
  simp only [if_neg h]
  exact yields_bind.mpr ⟨_, yields_lift.mpr rfl, yields_pure.mpr rfl⟩

theorem ends_chars (start : ℤ) (r : List Bytes) :
    (repeatUntil (charStep (collect empty) str) (start, r)).Ends := by
  induction hleft : (str.length + 1 - start).toNat generalizing start r with
  | zero =>
    have hbehind : strSub str start (some start) = [] := by
      obtain ⟨k, hk⟩ : ∃ k : Nat, start = (k : ℤ) + 1 := ⟨(start - 1).toNat, by omega⟩
      rw [hk, strSub_char, List.drop_eq_nil_of_le (by omega), List.take_nil]
    exact (yields_repeat_inr (charStep_end r hbehind)).ends
  | succ n ih =>
    by_cases hchar : strSub str start (some start) = []
    · exact (yields_repeat_inr (charStep_end r hchar)).ends
    · have hstep := @charStep_char _ empty _ r hchar
      apply ends_repeat hstep.ends
      intro s' hs'
      cases hstep.unique hs'
      exact ih _ _ (by omega)

/-- From the first character on, each is a piece. -/
theorem yields_chars (k : Nat) (r : List Bytes) :
    (repeatUntil (charStep (collect true) str) ((k : ℤ) + 1, r)).Yields
      (r ++ (str.drop k).map fun c => [c]) := by
  induction hrest : str.drop k generalizing k r with
  | nil =>
    have hchar : strSub str ((k : ℤ) + 1) (some ((k : ℤ) + 1)) = [] := by
      rw [strSub_char, hrest, List.take_nil]
    simpa using yields_repeat_inr (charStep_end r hchar)
  | cons c rest ih =>
    have hchar : strSub str ((k : ℤ) + 1) (some ((k : ℤ) + 1)) = [c] := by
      rw [strSub_char, hrest]
      rfl
    have hstep := @charStep_char _ true _ r (hchar ▸ List.cons_ne_nil c [])
    have hrest' : str.drop (k + 1) = rest := by
      rw [← List.drop_drop, hrest]
      rfl
    have hnext := ih (k + 1) (r ++ [[c]]) hrest'
    rw [List.append_assoc] at hnext
    apply yields_repeat_inl hstep
    rw [hchar, collected, if_pos (Or.inr rfl)]
    exact_mod_cast hnext

end Chars

/-! ## Pieces between plain delimiters -/

section Pieces

theorem strSub_rest (str : Bytes) (k : Nat) :
    strSub str ((k : ℤ) + 1) (some (-1)) = str.drop k := by
  have hcast : (k : ℤ) + 1 = ((k + 1 : Nat) : ℤ) := by omega
  have hend : posrelat (-1) str.length = str.length := by
    rw [posrelat, if_neg (by decide)]
    split <;> omega
  rw [strSub, Option.getD_some, hcast, posrelat_natCast, hend, LbufIndex.part, List.take_length,
    Nat.add_sub_cancel]

theorem strSub_piece (str : Bytes) (k j : Nat) :
    strSub str ((k : ℤ) + 1) (some ((j : ℤ) + 1 - 1)) = (str.take j).drop k := by
  have hcast : (k : ℤ) + 1 = ((k + 1 : Nat) : ℤ) := by omega
  have hcast' : (j : ℤ) + 1 - 1 = j := by omega
  rw [strSub, Option.getD_some, hcast, hcast', posrelat_natCast, posrelat_natCast, LbufIndex.part,
    Nat.add_sub_cancel]

theorem stringFind_plain {k : Nat} (hk : k ≤ str.length) : stringFind str pat ((k : ℤ) + 1) true =
    .ok ((searchPlain str pat k).map fun j : Nat => ((j : ℤ) + 1, ((j + pat.length : Nat) : ℤ))) := by
  have hcast : (k : ℤ) + 1 = ((k + 1 : Nat) : ℤ) := by omega
  rw [stringFind, hcast, posrelat_natCast, Nat.add_sub_cancel, find, if_neg (by omega),
    if_pos (by simp), Except.map, Option.map_map]
  rfl

/-- The pieces have no delimiter, and joined with it they are the text. -/
structure Splits (pat text : Bytes) (pieces : List Bytes) : Prop where
  free : ∀ piece ∈ pieces, ¬pat <:+: piece
  join : pat.intercalate pieces = text

/-- Where the text has the delimiter, so has the string. -/
theorem occurs_of_infix {k : Nat} {piece rest : Bytes} (hsplit : str.drop k = piece ++ rest)
    (hin : pat <:+: piece) : ∃ i, k ≤ i ∧ i + pat.length ≤ k + piece.length ∧
      pat <+: str.drop i := by
  obtain ⟨a, b, hab⟩ := hin
  refine ⟨k + a.length, Nat.le_add_right k _, ?_, ?_⟩
  · rw [← hab, List.length_append, List.length_append]
    omega
  · use b ++ rest
    rw [← List.drop_drop, hsplit, ← hab, List.append_assoc, List.append_assoc, List.drop_left]

theorem yields_pieces (hpat : pat ≠ []) (k : Nat) (hk : k ≤ str.length) (r : List Bytes) :
    ∃ pieces, (repeatUntil (splitStep (collect true) str pat true) ((k : ℤ) + 1, r)).Yields
      (r ++ pieces) ∧ pieces ≠ [] ∧ Splits pat (str.drop k) pieces := by
  have hlen := List.length_pos_iff.mpr hpat
  induction hleft : str.length - k using Nat.strong_induction_on generalizing k r with
  | _ n ih =>
    have hfind := @stringFind_plain str pat k hk
    cases hsearch : searchPlain str pat k with
    | none =>
      rw [hsearch] at hfind
      refine ⟨[str.drop k], ?_, List.cons_ne_nil _ _, ?_, ?_⟩
      · have hstep := @splitStep_none _ _ _ true _ r hfind
        rw [strSub_rest, collected, if_pos (Or.inr rfl)] at hstep
        exact yields_repeat_inr hstep
      · intro piece hpiece hin
        rw [List.mem_singleton.mp hpiece] at hin
        obtain ⟨i, hi, hle, hocc⟩ := occurs_of_infix (List.append_nil _).symm hin
        rw [List.length_drop] at hle
        exact searchPlain_none.mp hsearch i hi (by omega) hocc
      · exact List.intercalate_singleton
    | some j =>
      rw [hsearch] at hfind
      obtain ⟨hkj, hjlen, ⟨rest, hrest⟩, hfirst⟩ := searchPlain_some.mp hsearch
      have hnext : str.drop (j + pat.length) = rest := by
        rw [← List.drop_drop, ← hrest, List.drop_left]
      have hsplit : str.drop k = (str.take j).drop k ++ (pat ++ rest) := by
        rw [hrest]
        conv_lhs => rw [← List.take_append_drop j str]
        rw [List.drop_append_of_le_length (by rw [List.length_take]; omega)]
      have hbound : j + pat.length ≤ str.length := by
        have hcount := congrArg List.length hrest
        rw [List.length_append, List.length_drop] at hcount
        omega
      obtain ⟨pieces, hyields, hne, hpieces⟩ := ih (str.length - (j + pat.length)) (by omega)
        (j + pat.length) hbound (r ++ [(str.take j).drop k]) rfl
      refine ⟨(str.take j).drop k :: pieces, ?_, List.cons_ne_nil _ _, ?_, ?_⟩
      · have hstep := @splitStep_some _ _ _ true _ _ r hfind
        rw [strSub_piece, collected, if_pos (Or.inr rfl)] at hstep
        rw [List.append_assoc] at hyields
        exact yields_repeat_inl hstep hyields
      · intro piece hpiece hin
        obtain rfl | hmem := List.mem_cons.mp hpiece
        · obtain ⟨i, hi, hle, hocc⟩ := occurs_of_infix hsplit hin
          rw [List.length_drop, List.length_take] at hle
          exact hfirst i hi (by omega) hocc
        · exact hpieces.free piece hmem hin
      · rw [List.intercalate_cons_of_ne_nil hne, hpieces.join, hnext, hsplit, List.append_assoc]

end Pieces

theorem string_split_of_ne (hpat : pat ≠ []) (start : ℤ) (empty : Bool) :
    string_split str pat ⟨plain, start, empty, none⟩ =
      repeatUntil (splitStep (collect empty) str pat plain) (start, []) := by
  rw [string_split, splitWith, if_neg hpat]

theorem string_split_nil (start : ℤ) (empty : Bool) :
    string_split str [] ⟨plain, start, empty, none⟩ =
      repeatUntil (charStep (collect empty) str) (start, []) := by
  rw [string_split, splitWith, if_pos rfl]

/-- The loop ends if and only if there is no empty match on its way; plain pieces are what lies
between the delimiters. -/
theorem string_split_iff (str pat : Bytes) (plain : Bool) (start : ℤ) (empty : Bool) :
    (string_split str pat ⟨plain, start, empty, none⟩).Ends ∧
        (pat ≠ [] → ∃ pieces, (string_split str pat ⟨true, 1, true, none⟩).Yields pieces ∧
          Splits pat str pieces) ∧
        (string_split str [] ⟨plain, 1, true, none⟩).Yields (str.map fun c => [c]) ↔
      pat = [] ∨ plain = true ∨ Progresses str pat false start := by
  have hchars : (string_split str [] ⟨plain, 1, true, none⟩).Yields (str.map fun c => [c]) := by
    rw [string_split_nil]
    exact yields_chars 0 []
  have hpieces : pat ≠ [] → ∃ pieces, (string_split str pat ⟨true, 1, true, none⟩).Yields pieces ∧
      Splits pat str pieces := by
    intro hpat
    obtain ⟨pieces, hyields, -, hsplits⟩ := yields_pieces hpat 0 (Nat.zero_le str.length) []
    rw [string_split_of_ne hpat]
    exact ⟨pieces, hyields, hsplits⟩
  rw [and_iff_left ⟨hpieces, hchars⟩]
  by_cases hpat : pat = []
  · subst hpat
    rw [string_split_nil]
    exact iff_of_true (ends_chars start []) (Or.inl rfl)
  · rw [string_split_of_ne hpat, ends_iff, or_iff_right hpat]
    cases plain with
    | false => simp
    | true => exact iff_of_true (progresses_plain hpat start) (Or.inl rfl)

/-- `string_split('a','x*')` finds an empty match at the first byte, and goes on from there. -/
theorem not_ends_star : ¬(string_split [97] [120, 42] ⟨false, 1, true, none⟩).Ends := by
  rw [string_split_of_ne (by decide)]
  have hfind : stringFind [97] [120, 42] 1 false = .ok (some (1, 0)) := by decide
  exact not_ends_of_empty hfind (by decide) []

end StringSplit
