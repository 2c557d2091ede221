import Chdkptp.FsCam

/-!
# Extensions

`fsutil.get_ext` searches a whole path for its pattern: the character that has to stand
before the dot can be one of a directory.
-/

namespace PathExt

open LuaValue LuaText FsUtil FsCam Separated

/-- `fsutil.get_ext`: the pattern is `[^.].*(%.[^.SEP]*)$`. -/
def getExt (windows : Bool) (path : LuaString) : LuaString :=
  let front := path.rdropWhile fun c => c ≠ 46 ∧ !isDirSep windows c
  let tail := path.rtakeWhile fun c => c ≠ 46 ∧ !isDirSep windows c
  if front.getLast? = some 46 ∧ front.dropLast.any fun c => c ≠ 46 then 46 :: tail else []

/-- `fsutil.split_ext`. -/
def splitExt (windows : Bool) (path : LuaString) : LuaString × LuaString :=
  let ext := getExt windows path
  (removeSfx true path ext, ext)

variable {windows : Bool}

/-- What can stand behind the dot. -/
def IsTail (windows : Bool) (t : LuaString) : Prop := ∀ c ∈ t, c ≠ 46 ∧ isDirSep windows c = false

theorem getExt_dot {t : LuaString} (ht : IsTail windows t) (q : LuaString) :
    getExt windows (q ++ 46 :: t) = if q.any fun c => c ≠ 46 then 46 :: t else [] := by
  have hend : ∀ q' c, q ++ [46] = q' ++ [c] →
      (fun c => decide (c ≠ 46 ∧ (!isDirSep windows c) = true)) c = false := by
    intro q' c h
    have hc : c = 46 := by simpa using ((List.append_inj' h rfl).2).symm
    simp [hc]
  have hall : ∀ c ∈ t, (fun c => decide (c ≠ 46 ∧ (!isDirSep windows c) = true)) c = true := by
    intro c hc
    simp [ht c hc]
  have hpath : q ++ 46 :: t = (q ++ [46]) ++ t := by simp
  rw [getExt, hpath, rdropWhile_append hend hall, rtakeWhile_append hend hall]
  simp

/-- What stands behind a separator, or is the whole path, has no dot and so no extension. -/
theorem getExt_tail {t q : LuaString} (ht : IsTail windows t)
    (hq : ∀ q' c, q = q' ++ [c] → isDirSep windows c = true) : getExt windows (q ++ t) = [] := by
  have hend : ∀ q' c, q = q' ++ [c] →
      (fun c => decide (c ≠ 46 ∧ (!isDirSep windows c) = true)) c = false := by
    intro q' c h
    simp [hq q' c h]
  have hall : ∀ c ∈ t, (fun c => decide (c ≠ 46 ∧ (!isDirSep windows c) = true)) c = true := by
    intro c hc
    simp [ht c hc]
  have hlast : q.getLast? ≠ some 46 := by
    intro h
    have hsep := hq _ _ (List.dropLast_append_getLast? 46 h).symm
    simp [isDirSep] at hsep
  rw [getExt, rdropWhile_append hend hall, if_neg]
  exact fun h => hlast h.1

/-- An extension is a dot and what can stand behind it, at the end of the path. -/
theorem getExt_cases (path : LuaString) :
    getExt windows path = [] ∨
      ∃ q t, path = q ++ 46 :: t ∧ IsTail windows t ∧ getExt windows path = 46 :: t := by
  by_cases h : getExt windows path = []
  · exact .inl h
  · have hwhole : path.rdropWhile (fun c => c ≠ 46 ∧ !isDirSep windows c) ++
        path.rtakeWhile (fun c => c ≠ 46 ∧ !isDirSep windows c) = path :=
      List.rdropWhile_append_rtakeWhile
    simp only [getExt, ite_eq_right_iff, Classical.not_imp] at h
    obtain ⟨⟨hlast, hany⟩, -⟩ := h
    have hfront := List.dropLast_append_getLast? 46 hlast
    refine .inr ⟨(path.rdropWhile fun c => c ≠ 46 ∧ !isDirSep windows c).dropLast,
      path.rtakeWhile fun c => c ≠ 46 ∧ !isDirSep windows c, ?_, ?_, ?_⟩
    · conv_lhs => rw [← hwhole, ← hfront]
      simp
    · intro c hc
      simpa using List.mem_rtakeWhile_imp hc
    · rw [getExt, if_pos ⟨hlast, hany⟩]

/-! ## Name and extension -/

/-- What is said of the two results for a path. -/
structure Splits (windows : Bool) (path : LuaString) : Prop where
  whole : (splitExt windows path).1 ++ (splitExt windows path).2 = path
  ext : (splitExt windows path).2 = [] ∨
    ∃ t, (splitExt windows path).2 = 46 :: t ∧ IsTail windows t

theorem removeSfx_suffix (ignorecase : Bool) (q sfx : LuaString) :
    removeSfx ignorecase (q ++ sfx) sfx = q := by
  have hlen : sfx.length ≤ (q ++ sfx).length := by simp
  have htake : (q ++ sfx).take ((q ++ sfx).length - sfx.length) = q := by simp
  rw [removeSfx, if_pos hlen, htake]
  cases sfx with
  | nil => simp
  | cons c t =>
    have hsub : subEnd (q ++ c :: t) (c :: t).length = c :: t := by simp [subEnd]
    rw [if_pos (.inr hsub)]

theorem splits (windows : Bool) (path : LuaString) : Splits windows path := by
  obtain hnil | ⟨q, t, rfl, ht, hext⟩ := @getExt_cases windows path
  · have hwhole := removeSfx_suffix true path []
    rw [List.append_nil] at hwhole
    exact ⟨by simp [splitExt, hnil, hwhole], .inl hnil⟩
  · exact ⟨by simp [splitExt, hext, removeSfx_suffix], .inr ⟨t, hext, ht⟩⟩

/-! ## The last component -/

/-- Dots, at least one, and then no dot any more. -/
def leadingDots (base : LuaString) : Bool :=
  base.contains 46 ∧ !(base.dropWhile fun c => c = 46).contains 46

theorem leadingDots_dot {t : LuaString} (ht : 46 ∉ t) (q : LuaString) :
    leadingDots (q ++ 46 :: t) = !q.any fun c => c ≠ 46 := by
  induction q with
  | nil =>
    have hdrop : 46 ∉ t.dropWhile fun c => decide (c = 46) :=
      fun h => ht ((List.dropWhile_suffix _).mem h)
    simp [leadingDots, hdrop]
  | cons c q ih =>
    by_cases hc : c = 46
    · subst hc
      simpa [leadingDots] using ih
    · simp [leadingDots, hc]

theorem exists_last_dot {base : LuaString} (h : 46 ∈ base) :
    ∃ q t, base = q ++ 46 :: t ∧ 46 ∉ t := by
  obtain ⟨t, q, hrev, ht⟩ := List.eq_append_cons_of_mem (List.mem_reverse.mpr h)
  refine ⟨q.reverse, t.reverse, ?_, by simpa using ht⟩
  rw [← List.reverse_reverse base, hrev]
  simp

/-- The extension of a path is that of its last component. -/
def ExtOfBase (windows : Bool) (dir : LuaString) (s : UInt8) (base : LuaString) : Prop :=
  (splitExt windows (dir ++ s :: base)).2 = (splitExt windows base).2

theorem extOfBase_iff {dir base : LuaString} {s : UInt8} (hs : isDirSep windows s = true)
    (hbase : ∀ c ∈ base, isDirSep windows c = false) :
    ExtOfBase windows dir s base ↔ leadingDots base = false := by
  change getExt windows (dir ++ s :: base) = getExt windows base ↔ _
  by_cases hdot : 46 ∈ base
  · obtain ⟨q, t, rfl, ht⟩ := exists_last_dot hdot
    have htail : IsTail windows t := fun c hc => ⟨fun h => ht (h ▸ hc), hbase c (by simp [hc])⟩
    have hdir : getExt windows (dir ++ s :: (q ++ 46 :: t)) = 46 :: t := by
      have hsep : s ≠ 46 := by
        rintro rfl
        simp [isDirSep] at hs
      have h := getExt_dot htail (dir ++ s :: q)
      simpa [hsep] using h
    rw [hdir, getExt_dot htail, leadingDots_dot ht]
    cases q.any fun c => c ≠ 46 <;> simp
  · have htail : IsTail windows base := fun c hc => ⟨fun h => hdot (h ▸ hc), hbase c hc⟩
    have hdir : getExt windows (dir ++ s :: base) = [] := by
      have hend : ∀ q' c, dir ++ [s] = q' ++ [c] → isDirSep windows c = true := by
        intro q' c h
        obtain rfl : s = c := by simpa using (List.append_inj' h rfl).2
        exact hs
      simpa using getExt_tail htail hend
    have halone : getExt windows base = [] := by
      have hend : ∀ q' c, [] = q' ++ [c] → isDirSep windows c = true := by simp
      exact getExt_tail htail hend
    simp [hdir, halone, leadingDots, hdot]

/-- For names that begin with their only dots the directory counts. -/
theorem split_ext_iff {dir base : LuaString} {s : UInt8} (path : LuaString)
    (hs : isDirSep windows s = true) (hbase : ∀ c ∈ base, isDirSep windows c = false) :
    Splits windows path ∧ ExtOfBase windows dir s base ↔ leadingDots base = false :=
  ⟨fun h => (extOfBase_iff hs hbase).mp h.2,
    fun h => ⟨splits windows path, (extOfBase_iff hs hbase).mpr h⟩⟩

theorem split_ext_iff_txt :
    Splits false (bytes "a.b/c.txt".toList) ∧
      ExtOfBase false (bytes "a.b".toList) 47 (bytes "c.txt".toList) :=
  (split_ext_iff _ (by decide) (by decide +kernel)).mpr (by decide)

/-- `.foo` has no extension, `a/.foo` has one. -/
theorem not_extOfBase :
    getExt false (bytes ".foo".toList) = [] ∧
      getExt false (bytes "a/.foo".toList) = bytes ".foo".toList ∧
      ¬ExtOfBase false (bytes "a".toList) 47 (bytes ".foo".toList) := by
  refine ⟨by decide, by decide, ?_⟩
  unfold ExtOfBase
  decide

end PathExt
