import Chdkptp.PathSplit

/-!
# Splitting and joining

What a path means is its drive, whether it begins at the root, and its names, of which a dot in
front of others counts for nothing. Joining the parts of a path gives a path that means the same
unless a name is lost.
-/

namespace PathRejoin

open Fuelled LuaValue LuaText RemoteCapture LuaSlots FsUtil Separated PathSplit

/-- Without a leading `./`. -/
def dropDot (ns : List LuaString) : List LuaString :=
  if ns.head? = some dot ∧ 2 ≤ ns.length then ns.tail else ns

/-- What a path means: separators that are repeated or stand at the end do not count. -/
structure Meaning where
  drive : LuaString
  absolute : Bool
  names : List LuaString
  deriving DecidableEq

def meaning (windows : Bool) (path : LuaString) : Meaning :=
  let (drive, rest) := splitdrive windows path
  let absolute := rest.head?.any (isDirSep windows)
  let ns := names (isDirSep windows) rest
  ⟨drive, absolute, if drive = [] ∧ absolute = false then dropDot ns else ns⟩

/-- The first part, and each further one joined to what is there, as `mkdir_m` does it. -/
def joinAll (windows : Bool) : List LuaString → Option LuaString
  | [] => none
  | r :: parts => some (joinpath windows r parts)

/-- Splitting and joining gives a path that means the same. -/
def Rejoins (windows : Bool) (B : Borders LuaString) (path : LuaString) : Prop :=
  ∃ t l r, (splitpath windows B path).Yields t ∧ Same t (ofList l) ∧
    joinAll windows l = some r ∧ meaning windows r = meaning windows path

/-! ## Names and dots -/

@[simp] theorem dropDot_dot (l : List LuaString) :
    dropDot (dot :: l) = if l = [] then [dot] else l := by
  cases l <;> simp [dropDot]

theorem dropDot_other {ns : List LuaString} (h : ns.head? ≠ some dot) : dropDot ns = ns := by
  simp [dropDot, h]

/-- A last name makes a difference, unless it is a dot behind one dot. -/
theorem dropDot_concat {ns : List LuaString} (hne : ns ≠ []) (n : LuaString) :
    dropDot ns = dropDot (ns ++ [n]) ↔ ns = [dot] ∧ n = dot := by
  obtain ⟨m, ns, rfl⟩ := List.exists_cons_of_ne_nil hne
  by_cases hm : m = dot
  · subst hm
    rw [List.cons_append, dropDot_dot, dropDot_dot]
    cases ns with
    | nil => simp [eq_comm]
    | cons k ns => simp
  · rw [dropDot_other (by simpa using hm), dropDot_other (by simpa using hm)]
    simp [hm]

/-! ## Joining -/

section Join

variable {windows : Bool}

/-- What a joined path is made of. -/
theorem splitdrive_joinpath {parts : List LuaString} (hparts : ∀ n ∈ parts, IsPart windows n)
    {r drive rest : LuaString} (hs : splitdrive windows r = (drive, rest)) (hne : rest ≠ []) :
    ∃ rest', splitdrive windows (joinpath windows r parts) = (drive, rest') ∧
      rest'.head? = rest.head? ∧
      names (isDirSep windows) rest' = names (isDirSep windows) rest ++ parts := by
  induction parts generalizing r rest with
  | nil => exact ⟨rest, hs, rfl, by simp⟩
  | cons n parts ih =>
    rw [List.forall_mem_cons] at hparts
    have hsplit : splitdrive windows (joinPart windows r n) = (drive, joinPart windows rest n) := by
      have hrest : (splitdrive windows r).2 ≠ [] := by rwa [hs]
      have h := splitdrive_joinPart hrest hparts.1
      rwa [hs] at h
    obtain ⟨q, s, hsep, hjoin, hcases⟩ := joinPart_eq hparts.1 rest
    have hnames : names (isDirSep windows) (q ++ s :: n) = names (isDirSep windows) rest ++ [n] := by
      rw [names_append_cons q hsep, names_free hparts.1.ne_nil hparts.1.no_sep]
      obtain heq | ⟨-, heq, -⟩ := hcases
      · rw [heq, names_append_cons q hsep, names_nil, List.append_nil]
      · rw [heq]
    have hhead : (q ++ s :: n).head? = rest.head? := by
      obtain heq | ⟨-, heq, -⟩ := hcases
      · rw [heq]
        cases q <;> rfl
      · rw [heq] at hne
        obtain ⟨c, q', rfl⟩ := List.exists_cons_of_ne_nil hne
        rw [heq]
        rfl
    obtain ⟨rest', hrest, hhead', hnames'⟩ := ih hparts.2 hsplit (by simp [hjoin])
    refine ⟨rest', hrest, hhead'.trans (hjoin ▸ hhead), ?_⟩
    rw [hnames', hjoin, hnames, List.append_assoc]
    rfl

theorem meaning_joinpath {parts : List LuaString} (hparts : ∀ n ∈ parts, IsPart windows n)
    {r drive rest : LuaString} (hs : splitdrive windows r = (drive, rest)) (hne : rest ≠ []) :
    meaning windows (joinpath windows r parts) =
      ⟨drive, rest.head?.any (isDirSep windows),
        if drive = [] ∧ rest.head?.any (isDirSep windows) = false then
          dropDot (names (isDirSep windows) rest ++ parts)
        else names (isDirSep windows) rest ++ parts⟩ := by
  obtain ⟨rest', hs', hhead, hnames⟩ := splitdrive_joinpath hparts hs hne
  simp only [meaning, hs', hhead, hnames]

end Join

/-! ## The parts of a path joined -/

/-- No name is lost, or the names are dots that count for nothing. -/
def keepsNames (windows : Bool) (path : LuaString) : Bool :=
  let (drive, rest) := splitdrive windows path
  let ns := names (isDirSep windows) rest
  !lost windows rest ∨
    drive = [] ∧ rest.head?.any (isDirSep windows) = false ∧ (ns = [dot] ∨ ns = [dot, dot])

section Rejoin

variable {windows : Bool} {path drive rest : LuaString}

theorem mem_kept {n : LuaString} (h : n ∈ kept windows rest) : IsPart windows n := by
  have hmem : n ∈ names (isDirSep windows) rest := by
    rw [kept] at h
    split at h
    · exact List.mem_of_mem_dropLast h
    · exact h
  exact ⟨(mem_names hmem).1, (mem_names hmem).2⟩

/-- What is lost is the last name. -/
theorem kept_cases (windows : Bool) (rest : LuaString) :
    lost windows rest = false ∧ kept windows rest = names (isDirSep windows) rest ∨
      lost windows rest = true ∧
        ∃ n, names (isDirSep windows) rest = kept windows rest ++ [n] := by
  cases h : lost windows rest with
  | false => exact .inl ⟨rfl, by simp [kept, h]⟩
  | true =>
    have hne : names (isDirSep windows) rest ≠ [] := by
      simp only [lost, decide_eq_true_eq] at h
      exact h.1
    refine .inr ⟨rfl, (names (isDirSep windows) rest).getLast hne, ?_⟩
    rw [kept, if_pos h, List.dropLast_append_getLast]

theorem splitList_absolute (hs : splitdrive windows path = (drive, rest))
    (habs : rest.head?.any (isDirSep windows) = true) :
    splitList windows path = start windows path :: kept windows rest := by
  rw [splitList_eq hs, if_neg]
  rintro ⟨-, hrel, -⟩
  rw [habs] at hrel
  cases hrel

/-- Where a leading dot counts there is none in front of the names that are kept. -/
theorem dropDot_kept (h : ¬((names (isDirSep windows) rest).head? = some dot ∧
    2 ≤ (names (isDirSep windows) rest).length)) :
    dropDot (kept windows rest) = kept windows rest := by
  rw [dropDot, if_neg]
  rintro ⟨hdot, hlen⟩
  obtain ⟨-, hkept⟩ | ⟨-, n, hnames⟩ := kept_cases windows rest
  · exact h (hkept ▸ ⟨hdot, hlen⟩)
  · obtain ⟨m, l, hl⟩ : ∃ m l, kept windows rest = m :: l := by
      cases hk : kept windows rest with
      | nil => simp [hk] at hlen
      | cons m l => exact ⟨m, l, rfl⟩
    rw [hl] at hdot hlen hnames
    exact h (by rw [hnames]; exact ⟨hdot, by simp⟩)

theorem splitList_relative (hs : splitdrive windows path = ([], rest))
    (hrel : rest.head?.any (isDirSep windows) = false) :
    ∃ l, splitList windows path = dot :: l ∧ (∀ n ∈ l, IsPart windows n) ∧
      dropDot (dot :: l) =
        if kept windows rest = [] then [dot] else dropDot (kept windows rest) := by
  have hstart : PathSplit.start windows path = dot := by simp [PathSplit.start, hs, hrel]
  obtain ⟨l, hl⟩ := splitList_first windows path
  rw [hstart] at hl
  refine ⟨l, hl, ?_⟩
  rw [splitList_eq hs, hstart] at hl
  by_cases hdot : (names (isDirSep windows) rest).head? = some dot ∧
      2 ≤ (names (isDirSep windows) rest).length
  · rw [if_pos ⟨rfl, hrel, hdot⟩] at hl
    have hmem : ∀ n ∈ l, n ∈ kept windows rest := by
      rw [hl]
      exact fun n hn => List.mem_cons_of_mem dot hn
    rw [hl, if_neg (List.cons_ne_nil _ _)]
    exact ⟨fun n hn => mem_kept (hmem n hn), rfl⟩
  · rw [if_neg fun h => hdot h.2.2] at hl
    obtain rfl : kept windows rest = l := by simpa using hl
    rw [dropDot_dot, dropDot_kept hdot]
    exact ⟨fun n hn => mem_kept hn, rfl⟩

theorem names_relative (hs : splitdrive windows path = ([], rest)) (hne : path ≠ [])
    (hrel : rest.head?.any (isDirSep windows) = false) : names (isDirSep windows) rest ≠ [] := by
  obtain ⟨-, rfl⟩ | ⟨c, -, -, hdrive, -⟩ := splitdrive_cases hs
  · obtain ⟨c, s, rfl⟩ := List.exists_cons_of_ne_nil hne
    intro hnil
    have hc := names_eq_nil_iff.mp hnil c (by simp)
    rw [List.head?_cons, Option.any_some, hc] at hrel
    cases hrel
  · cases hdrive

/-- The parts of a path joined. -/
theorem joined (windows : Bool) (hne : path ≠ [])
    (hdrive : (splitdrive windows path).1 ≠ [] →
      (splitdrive windows path).2.head?.any (isDirSep windows) = true) :
    ∃ r, joinAll windows (splitList windows path) = some r ∧
      (meaning windows r = meaning windows path ↔ keepsNames windows path = true) := by
  obtain ⟨drive, rest, hs⟩ : ∃ drive rest, splitdrive windows path = (drive, rest) := ⟨_, _, rfl⟩
  rw [hs] at hdrive
  cases habs : rest.head?.any (isDirSep windows) with
  | true =>
    have hstart : splitdrive windows (drive ++ [47]) = (drive, [47]) := by
      obtain ⟨rfl, -⟩ | ⟨c, hwin, hc, rfl, -⟩ := splitdrive_cases hs
      · rfl
      · simp [splitdrive, hwin, hc]
    have hslash : names (isDirSep windows) [47] = [] := names_seps (by simp)
    rw [splitList_absolute hs habs]
    refine ⟨_, rfl, ?_⟩
    simp only [PathSplit.start, hs, habs, if_true]
    rw [meaning_joinpath (fun n hn => mem_kept hn) hstart (by simp), hslash]
    simp only [meaning, keepsNames, hs, habs]
    obtain ⟨hlost, hkept⟩ | ⟨hlost, n, hnames⟩ := kept_cases windows rest
    · simp [hlost, hkept]
    · simp [hlost, hnames]
  | false =>
    obtain rfl : drive = [] := by
      by_contra h
      rw [hdrive h] at habs
      cases habs
    obtain ⟨l, hl, hparts, hdot⟩ := splitList_relative hs habs
    rw [hl]
    refine ⟨_, rfl, ?_⟩
    have hstart : splitdrive windows dot = ([], dot) := rfl
    have hno : isDirSep windows 46 = false := by simp [isDirSep]
    have hself : names (isDirSep windows) dot = [dot] :=
      names_free (by simp [dot]) (by simpa [dot] using hno)
    have hsome := names_relative hs hne habs
    rw [meaning_joinpath hparts hstart (by simp [dot]), hself, List.singleton_append, hdot]
    simp only [meaning, keepsNames, hs, habs]
    obtain ⟨hlost, hkept⟩ | ⟨hlost, n, hnames⟩ := kept_cases windows rest
    · simp [hlost, hkept, hsome, dot, hno]
    · rw [hnames]
      have hhead : dot.head?.any (isDirSep windows) = false := by simp [dot, hno]
      by_cases hnil : kept windows rest = []
      · have hone : dropDot [n] = [n] := by simp [dropDot]
        simp [hlost, hnil, hone, hhead, eq_comm]
      · have hdots := dropDot_concat hnil n
        have htwo : kept windows rest ++ [n] = [dot] ++ [dot] ↔ kept windows rest = [dot] ∧ n = dot :=
          List.append_singleton_inj
        have hone : kept windows rest ++ [n] ≠ [dot] := by
          intro h
          have hlen := congrArg List.length h
          simp only [List.length_append, List.length_singleton, Nat.add_eq_right] at hlen
          exact hnil (List.length_eq_zero_iff.mp hlen)
        rw [List.singleton_append] at htwo
        simp [hlost, hnil, hhead, hdots, htwo, hone]

end Rejoin

/-- Splitting and joining keeps the meaning unless a name is lost. -/
theorem rejoins_iff_keepsNames (windows : Bool) (B : Borders LuaString) {path : LuaString}
    (hne : path ≠ [])
    (hdrive : (splitdrive windows path).1 ≠ [] →
      (splitdrive windows path).2.head?.any (isDirSep windows) = true) :
    Rejoins windows B path ↔ keepsNames windows path = true := by
  obtain ⟨r, hr, hiff⟩ := joined windows hne hdrive
  obtain ⟨t, ht, hsame⟩ := same_splitpath B windows path
  rw [← hiff]
  constructor
  · rintro ⟨t', l, r', ht', hsame', hr', hmean⟩
    obtain rfl := ht.unique ht'
    obtain rfl : splitList windows path = l := ofList_inj hsame hsame'
    rw [hr] at hr'
    rwa [Option.some.inj hr']
  · exact fun h => ⟨t, _, r, ht, hsame, hr, h⟩

/-! ## Paths of the camera -/

section Cam

open FsCam

/-- What a path on the camera means. -/
def meaningCam (path : LuaString) : Meaning :=
  let absolute := path.head? = some slash
  ⟨[], absolute, if absolute then comps path else dropDot (comps path)⟩

/-- The first part, and each further one joined to what is there. -/
def joinAllCam : List LuaString → Option LuaString
  | [] => none
  | r :: parts => some (parts.foldl (joinPart false) r)

def RejoinsCam (B : Borders LuaString) (path : LuaString) : Prop :=
  ∃ t l r, (PathSplit.splitpathCam B (some path)).Yields t ∧ Same t (ofList l) ∧
    joinAllCam l = some r ∧ meaningCam r = meaningCam path

/-- What a part of a path is: the root directory or a name. -/
structure IsCamPart (n : LuaString) : Prop where
  not_slash : n.head? ≠ some slash
  comps_ne : comps n ≠ []

theorem isCamPart_name {n : LuaString} (hne : n ≠ []) (hno : slash ∉ n) : IsCamPart n := by
  obtain ⟨c, s, rfl⟩ := List.exists_cons_of_ne_nil hne
  have hc : c ≠ slash := by
    rintro rfl
    exact hno (by simp)
  exact ⟨by simpa using hc, by rw [comps_name hne hno]; simp⟩

theorem isCamPart_basename {path : Option LuaString} {n : LuaString}
    (h : basenameCam path none true = some n) : IsCamPart n := by
  cases path with
  | none => cases h
  | some path =>
    simp only [basenameCam] at h
    split at h
    · cases h
    · obtain ⟨bn, hbn, rfl⟩ := Option.map_eq_some_iff.mp h
      simp only [lastName, Option.ite_none_left_eq_some, Option.some.injEq] at hbn
      obtain ⟨hne, rfl⟩ := hbn
      refine isCamPart_name hne fun hmem => ?_
      simpa using List.mem_rtakeWhile_imp hmem

theorem isCamPart_splitList (path : Option LuaString) :
    ∀ n ∈ FsCam.splitList path, IsCamPart n := by
  have hpart : ∀ path : Option LuaString, ∀ n ∈ (basenameCam path none true).toList, IsCamPart n :=
    fun path n hn => isCamPart_basename (Option.mem_toList.mp hn)
  have hroot : IsCamPart root := ⟨by decide, by decide⟩
  fun_induction FsCam.splitList path with
  | case1 path hd => exact hpart path
  | case2 path hd =>
    rw [List.forall_mem_cons]
    exact ⟨hroot, hpart path⟩
  | case3 path dir hd hne hlt ih =>
    rw [List.forall_mem_append]
    exact ⟨ih, hpart path⟩

theorem comps_joinAll (r : LuaString) (parts : List LuaString) :
    comps (parts.foldl (joinPart false) r) = comps r ++ parts.flatMap comps := by
  induction parts generalizing r with
  | nil => simp
  | cons n parts ih =>
    rw [List.foldl_cons, ih, comps_joinPart, List.flatMap_cons, List.append_assoc]

theorem head_joinAll {r : LuaString} (hne : r ≠ []) (parts : List LuaString) :
    (parts.foldl (joinPart false) r).head? = r.head? := by
  induction parts generalizing r with
  | nil => rfl
  | cons n parts ih =>
    obtain ⟨c, s, rfl⟩ := List.exists_cons_of_ne_nil hne
    have hhead : ∃ s', joinPart false (c :: s) n = c :: s' := by
      cases hend : endsInSep false (c :: s) <;> simp [joinPart, hend]
    obtain ⟨s', hs'⟩ := hhead
    rw [List.foldl_cons, hs', ih (List.cons_ne_nil c s')]
    rfl

/-- The path does not begin at a root that the camera does not have, and no name is lost. -/
def keepsComps (path : LuaString) : Bool :=
  path.head? ≠ some slash ∧
    ((path.rtakeWhile fun c => c = slash).length ≤ 1 ∨ comps path = [dot, dot])

theorem meaningCam_joinAll {r : LuaString} (hr : IsCamPart r) (parts : List LuaString) :
    meaningCam (parts.foldl (joinPart false) r) =
      ⟨[], false, dropDot ((r :: parts).flatMap comps)⟩ := by
  have hne : r ≠ [] := by
    rintro rfl
    exact hr.comps_ne comps_nil
  simp [meaningCam, head_joinAll hne, hr.not_slash, comps_joinAll]

theorem rejoinsCam_iff_comps (B : Borders LuaString) (path : LuaString) :
    RejoinsCam B path ↔ path.head? ≠ some slash ∧ FsCam.splitList (some path) ≠ [] ∧
      dropDot ((FsCam.splitList (some path)).flatMap comps) = dropDot (comps path) := by
  have hyields := splitpathCam_yields B (some path)
  have hsame := same_splitpathCam B (some path)
  have hparts := isCamPart_splitList (some path)
  have hiff : RejoinsCam B path ↔ ∃ r, joinAllCam (FsCam.splitList (some path)) = some r ∧
      meaningCam r = meaningCam path := by
    constructor
    · rintro ⟨t, l, r, ht, hl, hr, hmean⟩
      obtain rfl := hyields.unique ht
      obtain rfl := ofList_inj hsame hl
      exact ⟨r, hr, hmean⟩
    · rintro ⟨r, hr, hmean⟩
      exact ⟨_, _, r, hyields, hsame, hr, hmean⟩
  rw [hiff]
  cases hl : FsCam.splitList (some path) with
  | nil => simp [joinAllCam]
  | cons r parts =>
    rw [hl] at hparts
    simp only [joinAllCam, Option.some.injEq, exists_eq_left', meaningCam_joinAll (hparts r (by simp)),
      ne_eq, reduceCtorEq, not_false_eq_true, true_and]
    by_cases habs : path.head? = some slash
    · simp [meaningCam, habs]
    · simp [meaningCam, habs]

theorem splitList_eq_nil_iff (path : LuaString) :
    FsCam.splitList (some path) = [] ↔ (FsCam.splitList (some path)).flatMap comps = [] := by
  have hparts := isCamPart_splitList (some path)
  rw [List.flatMap_eq_nil_iff]
  constructor
  · intro h
    simp [h]
  · intro h
    exact List.eq_nil_iff_forall_not_mem.mpr fun n hn => (hparts n hn).comps_ne (h n hn)

theorem slashes_eq {path before name : LuaString} {k : Nat} (h : Shape path before name k) :
    (path.rtakeWhile fun c => c = slash).length = k := by
  have htail : path.rtakeWhile (fun c => c = slash) = List.replicate k slash := by
    rw [h.eq]
    refine rtakeWhile_append (fun q c hq => by simpa using h.name_last before q c hq) fun c hc => ?_
    simpa using List.eq_of_mem_replicate hc
  rw [htail, List.length_replicate]

/-- Splitting and joining keeps the meaning unless the root or a name is lost. -/
theorem rejoinsCam_iff_keepsComps (B : Borders LuaString) {path : LuaString} (hne : path ≠ []) :
    RejoinsCam B path ↔ keepsComps path = true := by
  rw [rejoinsCam_iff_comps]
  simp only [keepsComps, decide_eq_true_eq]
  refine and_congr_right fun hrel => ?_
  by_cases hroot : path = root
  · have hlist : FsCam.splitList (some root) = [root] :=
      splitList_root (by rw [dirnameCam, if_pos rfl])
    rw [hroot, hlist]
    exact iff_of_true (by simp) (.inl (by decide))
  · obtain ⟨k, rfl⟩ | ⟨before, name, k, hshape⟩ := exists_shape path
    · cases k with
      | zero => exact absurd rfl hne
      | succ k => exact absurd rfl hrel
    · rw [ne_eq, splitList_eq_nil_iff, comps_splitList hroot hshape, hshape.comps_eq,
        slashes_eq hshape, Shape.part]
      by_cases hk : k ≤ 1
      · simp [hk]
      · rw [if_neg hk, List.append_nil]
        by_cases hbefore : comps before = []
        · simp [hk, hbefore]
        · have htwo : comps before ++ [name] = [dot] ++ [dot] ↔ comps before = [dot] ∧ name = dot :=
            List.append_singleton_inj
          rw [List.singleton_append] at htwo
          simp [hk, hbefore, dropDot_concat hbefore, htwo]

end Cam

end PathRejoin
