import Chdkptp.ImgList

/-!
# The directory of an image

What the pattern that `ff_imglist_fn` makes of a name finds, when the name has no characters in it
that a pattern reads in another way: the number of the first directory in the path behind which the
path goes on like the name.
-/

namespace ImgList

open LuaValue (LuaString)
open LuaText (bytes)
open FileTree FsCam CamFind Contracts TreeWalk LuaPattern
open CamClock (tonumber longGroup)

/-- The three digits behind a slash, where in the text another slash and the name come next. -/
def dirAt (name : Bytes) : Bytes → Option Bytes
  | d :: a :: b :: c :: rest =>
    if d = 47 ∧ [a, b, c].all isDigit ∧ beginsLike (47 :: name) (rest.dropWhile (· ≠ 47)) then
      some [a, b, c]
    else none
  | _ => none

/-- The digits of the first such place. -/
def firstDir (name : Bytes) : Bytes → Option Bytes
  | [] => none
  | b :: text => (dirAt name (b :: text)).or (firstDir name text)

section Plain

variable {src name : Bytes} {depth s : Nat} {caps : List Capture}

theorem dirPattern_eq :
    dirPattern = [47, 40, 37, 100, 37, 100, 37, 100, 41, 91, 94, 47, 93, 42, 47] := by
  decide +kernel

theorem readItems_dir (n : Nat) (rest : Bytes) :
    readItems (n + 7) (47 :: 40 :: 37 :: 100 :: 37 :: 100 :: 37 :: 100 :: 41 :: 91 :: 94 :: 47 ::
        93 :: 42 :: rest) =
      .single (.lit 47) .one :: longGroup 3 (.single (.set true [47]) .star :: readItems n rest) :=
  rfl

/-- The pattern that is made of a plain name. -/
theorem items_plain (h : ∀ b ∈ name, isPlain b = true) :
    items (dirPattern ++ name) =
      .single (.lit 47) .one :: longGroup 3 (.single (.set true [47]) .star ::
        .single (.lit 47) .one :: name.map fun b => .single (plainSingle b) .one) := by
  have hslash : ∀ b ∈ 47 :: name, isPlain b = true := List.forall_mem_cons.mpr ⟨by decide, h⟩
  have hread : items (dirPattern ++ name) = readItems (name.length + 8 + 7)
      (47 :: 40 :: 37 :: 100 :: 37 :: 100 :: 37 :: 100 :: 41 :: 91 :: 94 :: 47 :: 93 :: 42 ::
        47 :: name) := by
    rw [dirPattern_eq]
    rfl
  rw [hread, readItems_dir, readItems_plain hslash (Nat.le_add_right (name.length + 1) 7)]
  rfl

theorem test_noSlash (b : UInt8) : (Single.set true [47]).test b = decide (b ≠ 47) := by
  simp only [Single.test, matchSet]
  by_cases hb : b = 47
  · simp [hb]
  · simp [hb, Ne.symm hb]

/-- No byte of a run that is no slash begins the rest. -/
theorem matchItems_noSlash {rest : Bytes} (hrest : src.drop s = rest) (hdepth : 0 < depth) :
    matchItems src (.single (.set true [47]) .star ::
        (47 :: name).map fun b => .single (plainSingle b) .one) depth s caps =
      .ok (if beginsLike (47 :: name) (rest.dropWhile (· ≠ 47)) then
        some (s + (rest.takeWhile (· ≠ 47)).length + (name.length + 1), caps) else none) := by
  have hcount : repeats src s (.set true [47]) = (rest.takeWhile (· ≠ 47)).length := by
    rw [repeats, hrest]
    simp only [test_noSlash]
  have hbehind : src.drop (s + (rest.takeWhile (· ≠ 47)).length) = rest.dropWhile (· ≠ 47) := by
    apply drop_append
    rw [hrest, List.takeWhile_append_dropWhile]
  obtain ⟨depth, rfl⟩ := Nat.exists_eq_add_one.mpr hdepth
  apply matchItems_star_stop
  · intro depth
    rw [matchItems_plain, hcount, hbehind]
    rfl
  · intro i hi depth
    rw [matchItems_plain]
    rw [hcount] at hi
    have hno : beginsLike (47 :: name) (src.drop (s + i)) = false := by
      obtain ⟨b, l, hl⟩ := List.exists_cons_of_ne_nil
        (List.drop_eq_nil_iff.not.mpr (Nat.not_le.mpr hi))
      have hb : b ∈ rest.takeWhile (· ≠ 47) := List.mem_of_mem_drop (hl ▸ List.mem_cons_self)
      have hne := List.mem_takeWhile_imp hb
      rw [decide_eq_true_eq] at hne
      rw [← List.drop_drop, hrest, ← List.takeWhile_append_dropWhile (p := (· ≠ 47)) (l := rest),
        List.drop_append_of_le_length (Nat.le_of_lt hi), hl, List.cons_append, beginsLike]
      simp [Ne.symm hne]
    rw [hno]
    rfl

theorem matchItems_dir (h : ∀ b ∈ name, isPlain b = true) (hdepth : 2 < depth) :
    ∃ e, matchItems src (items (dirPattern ++ name)) depth s [] =
      .ok ((dirAt name (src.drop s)).map fun _ => (e, [⟨s + 1, .len 3⟩])) := by
  obtain ⟨depth, rfl⟩ : ∃ n, depth = n + 3 := ⟨depth - 3, by omega⟩
  rw [items_plain h, longGroup]
  cases htext : src.drop s with
  | nil =>
    refine ⟨0, ?_⟩
    rw [matchItems_one_none]
    · rfl
    · simp [htext]
  | cons d text =>
    rw [matchItems_one_eq htext, matchItems_open (by simp [maxCaptures]), matchItems_ones_eq,
      drop_succ htext]
    rcases text with _ | ⟨a, _ | ⟨b, _ | ⟨c, rest⟩⟩⟩
    · exact ⟨0, by simp [dirAt]⟩
    · exact ⟨0, by simp [dirAt]⟩
    · exact ⟨0, by simp [dirAt]⟩
    · have hrest : src.drop (s + 1 + 3) = rest := by
        rw [← List.drop_drop, drop_succ htext]
        rfl
      have hslash : matchItems src (.single (.set true [47]) .star :: .single (.lit 47) .one ::
            name.map fun b => .single (plainSingle b) .one) (depth + 1) (s + 1 + 3)
            ([] ++ [⟨s + 1, .len (s + 1 + 3 - (s + 1))⟩]) = _ :=
        matchItems_noSlash hrest (Nat.succ_pos _)
      refine ⟨s + 1 + 3 + (rest.takeWhile (· ≠ 47)).length + (name.length + 1), ?_⟩
      rw [matchItems_close (closeCapture_last _ _), hslash, dirAt]
      have hlength : 3 ≤ (a :: b :: c :: rest).length := Nat.le_add_left 3 _
      have hdigits : ((a :: b :: c :: rest).take 3).all (fun x => CamClock.digit.test x) =
          [a, b, c].all isDigit := rfl
      have hd : (Single.test d (.lit 47) = true) = (d = 47) := by
        simp [Single.test, eq_comm]
      simp only [hd]
      rw [hdigits]
      generalize beginsLike (47 :: name) (rest.dropWhile (· ≠ 47)) = hname
      generalize [a, b, c].all isDigit = hall
      by_cases hstart : d = 47
      · rw [if_pos hstart]
        cases hall <;> cases hname <;> simp [hstart]
      · rw [if_neg hstart, if_neg fun h => hstart h.1]
        rfl

theorem matchAt_plain (h : ∀ b ∈ name, isPlain b = true) (s : Nat) :
    ∃ e, matchAt src (items (dirPattern ++ name)) s =
      .ok ((dirAt name (src.drop s)).map fun _ => (s, e, [⟨s + 1, .len 3⟩])) := by
  obtain ⟨e, hmatch⟩ := @matchItems_dir src name 199 s h (by decide)
  refine ⟨e, ?_⟩
  have henter :
      enter maxDepth (fun depth => matchItems src (items (dirPattern ++ name)) depth s []) = _ :=
    hmatch
  rw [matchAt, henter, Except.map, Option.map_map]
  rfl

theorem firstDir_drop (h : s < src.length) :
    firstDir name (src.drop s) =
      (dirAt name (src.drop s)).or (firstDir name (src.drop (s + 1))) := by
  rw [List.drop_eq_getElem_cons h, firstDir]

theorem take_of_dirAt {ds : Bytes} (h : dirAt name (src.drop s) = some ds) :
    (src.drop (s + 1)).take 3 = ds ∧ ds.length = 3 ∧ ∀ b ∈ ds, isDigit b = true := by
  rw [← List.drop_drop]
  generalize src.drop s = text at h ⊢
  unfold dirAt at h
  split at h
  · split at h
    · next hd =>
      cases h
      exact ⟨rfl, rfl, List.all_eq_true.mp hd.2.1⟩
    · cases h
  · cases h

/-- The search stops at the first such place. -/
theorem search_plain (h : ∀ b ∈ name, isPlain b = true) (n : Nat) (hn : s + n = src.length + 1) :
    (firstOf (matchAt src (items (dirPattern ++ name))) (List.range' s n) = .ok none ∧
        firstDir name (src.drop s) = none) ∨
      ∃ i e ds, firstOf (matchAt src (items (dirPattern ++ name))) (List.range' s n) =
          .ok (some (i, e, [⟨i + 1, .len 3⟩])) ∧
        firstDir name (src.drop s) = some ds ∧ dirAt name (src.drop i) = some ds := by
  induction n generalizing s with
  | zero =>
    left
    rw [List.drop_of_length_le (by omega)]
    exact ⟨rfl, rfl⟩
  | succ n ih =>
    obtain ⟨e, hmatch⟩ := @matchAt_plain src name h s
    rw [List.range'_succ]
    cases hdir : dirAt name (src.drop s) with
    | none =>
      rw [hdir] at hmatch
      rw [firstOf_cons_none hmatch]
      by_cases hs : s < src.length
      · rw [firstDir_drop hs, hdir, Option.none_or]
        exact ih (by omega)
      · obtain rfl : n = 0 := by omega
        left
        rw [List.drop_of_length_le (by omega)]
        exact ⟨rfl, rfl⟩
    | some ds =>
      have hs : s < src.length := by
        by_contra hle
        rw [List.drop_of_length_le (by omega)] at hdir
        cases hdir
      rw [hdir] at hmatch
      right
      refine ⟨s, e, ds, firstOf_cons_some hmatch, ?_, hdir⟩
      rw [firstDir_drop hs, hdir, Option.some_or]

/-- The number of the first directory behind which the path goes on like the name. -/
def firstNumber (name full : Bytes) : Option Int :=
  (firstDir name full).bind fun ds => tonumber (.str ds)

theorem Finds.unique {full : LuaString} {n n' : Option Int} (h : Finds name full n)
    (h' : Finds name full n') : n = n' := by
  rcases h with ⟨hnone, rfl⟩ | ⟨vs, m, hsome, hm, rfl⟩
  · rcases h' with ⟨-, rfl⟩ | ⟨vs', m', hsome', -, -⟩
    · rfl
    · rw [hnone] at hsome'
      cases hsome'
  · rcases h' with ⟨hnone', -⟩ | ⟨vs', m', hsome', hm', rfl⟩
    · rw [hsome] at hnone'
      cases hnone'
    · rw [hsome] at hsome'
      cases hsome'
      exact hm.symm.trans hm'

/-- What is found with a plain name. -/
theorem finds_plain (h : ∀ b ∈ name, isPlain b = true) (full : LuaString) :
    Finds name full (firstNumber name full) := by
  have hsearch : search full (dirPattern ++ name) 0 =
      firstOf (matchAt full (items (dirPattern ++ name))) (List.range' 0 (full.length + 1)) := by
    rw [search, if_neg]
    · rfl
    · rw [dirPattern_eq]
      exact fun hhead => absurd (Option.some.inj hhead) (by decide)
  rw [Finds, firstNumber, stringMatch, hsearch]
  rcases @search_plain full name 0 h (full.length + 1) (Nat.zero_add _) with
    ⟨hnone, hdir⟩ | ⟨i, e, ds, hsome, hdir, hat⟩
  · rw [List.drop_zero] at hdir
    rw [hnone, hdir]
    exact .inl ⟨rfl, rfl⟩
  · rw [List.drop_zero] at hdir
    obtain ⟨htake, hlength, hdigits⟩ := take_of_dirAt hat
    rw [hsome, hdir]
    refine .inr ⟨[.str ds], _, ?_, CamClock.tonumber_of_length hlength hdigits,
      CamClock.tonumber_of_length hlength hdigits⟩
    simp only [captureValues, captureValue, htake, Except.map]

example : firstNumber (bytes "IMG_0001.JPG".toList)
    (bytes "A/DCIM/100CANON/IMG_0001.JPG".toList) = some 100 := by decide +kernel

/-- For a plain name: the first such directory is in the range exactly if the item is a file in a
directory that is. -/
theorem right_plain {opts : ImgOpts} {cur : Cur} (hname : cur.name = some name)
    (h : ∀ b ∈ name, isPlain b = true) (hgiven : opts.dirnum.given = true) :
    Right opts cur ↔ (opts.imgnum.fits (imageNumber name) = true →
      (opts.dirnum.fits (firstNumber name cur.full) = true ↔
        cur.st = .file ∧ opts.dirnum.fits (parentNumber cur.full) = true)) := by
  rw [Right, hname]
  dsimp only
  rw [if_pos hgiven]
  refine forall_congr' fun _ => ⟨?_, fun hfits => ⟨_, finds_plain h cur.full, hfits⟩⟩
  rintro ⟨number, hfinds, hfits⟩
  rwa [← hfinds.unique (finds_plain h cur.full)]

end Plain

end ImgList
