import Chdkptp.FsCam
import Chdkptp.Fuelled
import Chdkptp.RemoteCapture

/-!
# Splitting paths

`fsutil.splitpath` goes up with `dirname` until it comes to one of three kinds of paths. What
it returns is said by the names of the path: what the path begins with and then its names, but
for a last name with more than one separator behind it.
-/

namespace PathSplit

open Fuelled LuaValue LuaText RemoteCapture LuaSlots FsUtil Separated

/-- `string.gsub(path,'[^SEP]+[SEP]*$','')`. -/
def stripName (windows : Bool) (path : LuaString) : LuaString :=
  let body := path.rdropWhile (isDirSep windows)
  if body = [] then path else body.rdropWhile fun c => !isDirSep windows c

/-- `fsutil.dirname`. -/
def dirname (windows : Bool) (path : LuaString) : LuaString :=
  -- windows - save the drive, if present, and perform dirname on the rest of the path
  let (drive, path) := splitdrive windows path
  -- remove trailing blah/?
  let dn := stripName windows path
  if dn = [] then if drive = [] then dot else drive
  else
    -- remove any trailing /
    let dn := dn.rdropWhile (isDirSep windows)
    -- all /
    if dn = [] then drive ++ [47] else drive ++ dn

/-- `^%a:/?$`. -/
def isDrive : LuaString → Bool
  | [c, 58] => isAlpha c
  | [c, 58, 47] => isAlpha c
  | _ => false

/-- Where the loop of `fsutil.splitpath` is left. -/
def isFirst (windows : Bool) (path : LuaString) : Bool :=
  path = dot ∨ path = [47] ∨ windows ∧ isDrive path

/-- One pass of the loop in `fsutil.splitpath`. -/
def splitPass (windows : Bool) (B : Borders LuaString) (s : Slots LuaString × LuaString) :
    Fuelled LuaError ((Slots LuaString × LuaString) ⊕ Slots LuaString) :=
  let part := basename windows s.2
  let path := dirname windows s.2
  let parts := insertFirst B s.1 part
  if isFirst windows path then pure (.inr (insertFirst B parts (some path)))
  else pure (.inl (parts, path))

/-- `fsutil.splitpath`. -/
def splitpath (windows : Bool) (B : Borders LuaString) (path : LuaString) :
    Fuelled LuaError (Slots LuaString) :=
  repeatUntil (splitPass windows B) ([], path)

/-- One pass of the loop in `fsutil.splitpath_cam`. -/
def splitPassCam (B : Borders LuaString) (s : Slots LuaString × Option LuaString) :
    Fuelled LuaError ((Slots LuaString × Option LuaString) ⊕ Slots LuaString) :=
  let part := FsCam.basenameCam s.2 none true
  let path := FsCam.dirnameCam s.2
  let parts := insertFirst B s.1 part
  if path = some FsCam.root then pure (.inr (insertFirst B parts path))
  else if path = none then pure (.inr parts)
  else pure (.inl (parts, path))

/-- `fsutil.splitpath_cam`, with its loop as it stands. -/
def splitpathCam (B : Borders LuaString) (path : Option LuaString) :
    Fuelled LuaError (Slots LuaString) :=
  repeatUntil (splitPassCam B) ([], path)

/-! ## Drives -/

section Drives

variable {windows : Bool} {path drive rest b : LuaString}

theorem splitdrive_cases (h : splitdrive windows path = (drive, rest)) :
    drive = [] ∧ rest = path ∨
      ∃ c, windows = true ∧ isAlpha c = true ∧ drive = [c, 58] ∧ path = c :: 58 :: rest := by
  unfold splitdrive at h
  split at h
  · rename_i c s
    split at h
    · rename_i hdrive
      cases h
      exact .inr ⟨c, hdrive.1, hdrive.2, rfl, rfl⟩
    · cases h
      exact .inl ⟨rfl, rfl⟩
  · cases h
    exact .inl ⟨rfl, rfl⟩

/-- The drive of a directory is that of the path. -/
theorem splitdrive_isPrefix (h : splitdrive windows path = (drive, rest)) (hb : b <+: rest) :
    splitdrive windows (drive ++ b) = (drive, b) := by
  obtain ⟨rfl, rfl⟩ | ⟨c, hwin, hc, rfl, rfl⟩ := splitdrive_cases h
  · obtain ⟨t, rfl⟩ := hb
    match b with
    | [] => rfl
    | [c] => rfl
    | c :: d :: b =>
      by_cases hd : d = 58
      · subst hd
        by_cases hwin : windows ∧ isAlpha c
        · simp [splitdrive, hwin] at h
        · simp [splitdrive, hwin]
      · simp [splitdrive, hd]
  · simp [splitdrive, hwin, hc]

/-- What a path begins with: a drive, a root or neither. -/
def start (windows : Bool) (path : LuaString) : LuaString :=
  let (drive, rest) := splitdrive windows path
  if rest.head?.any (isDirSep windows) then drive ++ [47] else if drive = [] then dot else drive

theorem isFirst_start (windows : Bool) (path : LuaString) :
    isFirst windows (start windows path) = true := by
  cases h : splitdrive windows path with
  | mk drive rest =>
    simp only [start, h]
    obtain ⟨rfl, -⟩ | ⟨c, hwin, hc, rfl, -⟩ := splitdrive_cases h
    · split <;> simp [isFirst]
    · split <;> simp [isFirst, isDrive, hwin, hc]

/-- Of the paths that do not end in a separator the loop stops at the dot. -/
theorem isFirst_tidy (h : splitdrive windows path = (drive, rest)) (hb : b <+: rest)
    (htidy : Tidy (isDirSep windows) b) :
    isFirst windows (drive ++ b) = true ↔ drive = [] ∧ b = dot := by
  have hsplit := splitdrive_isPrefix h hb
  have hslash : b ≠ [47] := by
    rintro rfl
    exact absurd (htidy.last [] 47 rfl) (by simp)
  obtain ⟨rfl, -⟩ | ⟨c, hwin, hc, rfl, -⟩ := splitdrive_cases h
  · have hdrive : ¬(windows = true ∧ isDrive b = true) := by
      rintro ⟨rfl, hdrive⟩
      unfold isDrive at hdrive
      split at hdrive
      · simp [splitdrive, hdrive] at hsplit
      · simp [splitdrive, hdrive] at hsplit
      · cases hdrive
    simp only [isFirst, List.nil_append, hslash, hdrive, or_false, decide_eq_true_eq, true_and]
  · obtain ⟨d, t, rfl⟩ := List.exists_cons_of_ne_nil htidy.ne_nil
    have hd : isDrive ([c, 58] ++ d :: t) = false := by
      cases t with
      | nil =>
        have hd : d ≠ 47 := fun h => hslash (by rw [h])
        simp [isDrive, hd]
      | cons e t => simp [isDrive]
    rw [List.cons_append, List.cons_append, List.nil_append] at hd ⊢
    simp [isFirst, hd, dot]

end Drives

/-! ## Going up -/

section Dirname

variable {windows : Bool} {path drive rest before name tail : LuaString}

theorem stripName_seps (h : ∀ c ∈ path, isDirSep windows c = true) :
    stripName windows path = path := by
  rw [stripName, List.rdropWhile_eq_nil_iff.mpr h, if_pos rfl]

theorem stripName_ending (h : Ending (isDirSep windows) path before name tail) :
    stripName windows path = before := by
  have hne : before ++ name ≠ [] := by simp [h.name_ne]
  rw [stripName, h.body_eq, if_neg hne, h.before_eq]

theorem dirname_seps (hs : splitdrive windows path = (drive, rest))
    (h : ∀ c ∈ rest, isDirSep windows c = true) : dirname windows path = start windows path := by
  simp only [dirname, start, hs, stripName_seps h, List.rdropWhile_eq_nil_iff.mpr h, if_true]
  cases rest with
  | nil => simp
  | cons c s => simp [h c (by simp)]

/-- A path with one name is in what it begins with. -/
theorem dirname_name (hs : splitdrive windows path = (drive, rest))
    (hend : Ending (isDirSep windows) rest before name tail)
    (h : ∀ c ∈ before, isDirSep windows c = true) : dirname windows path = start windows path := by
  simp only [dirname, start, hs, stripName_ending hend, List.rdropWhile_eq_nil_iff.mpr h, if_true]
  rw [hend.eq]
  cases before with
  | nil =>
    obtain ⟨c, s, rfl⟩ := List.exists_cons_of_ne_nil hend.name_ne
    simp [hend.name_free c (by simp)]
  | cons c s => simp [h c (by simp)]

theorem dirname_names (hs : splitdrive windows path = (drive, rest))
    (hend : Ending (isDirSep windows) rest before name tail)
    (h : before.rdropWhile (isDirSep windows) ≠ []) :
    dirname windows path = drive ++ before.rdropWhile (isDirSep windows) := by
  have hne : before ≠ [] := by
    rintro rfl
    exact h rfl
  simp only [dirname, hs, stripName_ending hend, if_neg hne, if_neg h]

/-- `basename` takes no more than one separator for the end of a name. -/
theorem basename_seps (hs : splitdrive windows path = (drive, rest))
    (h : ∀ c ∈ rest, isDirSep windows c = true) : basename windows path = none := by
  have hnil : ∀ body : LuaString, (∀ c ∈ body, isDirSep windows c = true) →
      body.rtakeWhile (fun c => !isDirSep windows c) = [] := by
    intro body hbody
    rw [List.rtakeWhile_eq_nil_iff]
    intro hne
    simp [hbody _ (List.getLast_mem hne)]
  have hdrop : ∀ c ∈ rest.dropLast, isDirSep windows c = true :=
    fun c hc => h c (List.mem_of_mem_dropLast hc)
  simp only [basename, hs]
  split <;> simp [hnil _ h, hnil _ hdrop]

theorem basename_ending (hs : splitdrive windows path = (drive, rest))
    (h : Ending (isDirSep windows) rest before name tail) :
    basename windows path = if tail.length ≤ 1 then some name else none := by
  simp only [basename, hs]
  obtain rfl | ⟨q, s, rfl⟩ := List.eq_nil_or_concat' tail
  · have heq : rest = before ++ name := by simpa using h.eq
    have hend : endsInSep windows rest = false := by
      by_contra hsep
      obtain ⟨q, s, hs, hq⟩ := (endsInSep_iff rest).mp (by simpa using hsep)
      rw [h.name_last (heq.symm.trans hq)] at hs
      cases hs
    rw [hend, if_neg Bool.false_ne_true, heq]
    simp [h.name_eq, h.name_ne]
  · have hsep : isDirSep windows s = true := h.tail_sep s (by simp)
    have heq : rest = (before ++ name ++ q) ++ [s] := by simpa using h.eq
    have hend : endsInSep windows rest = true := (endsInSep_iff rest).mpr ⟨_, s, hsep, heq⟩
    rw [if_pos hend, heq, List.dropLast_concat]
    obtain rfl | ⟨q', d, rfl⟩ := List.eq_nil_or_concat' q
    · simp [h.name_eq, h.name_ne]
    · have hd : isDirSep windows d = true := h.tail_sep d (by simp)
      rw [← List.append_assoc, List.rtakeWhile_concat_neg _ _ _ (by simp [hd])]
      simp

end Dirname

/-! ## What is returned -/

/-- The last name has more than one separator behind it, and is lost. -/
def lost (windows : Bool) (rest : LuaString) : Bool :=
  names (isDirSep windows) rest ≠ [] ∧ 1 < (rest.rtakeWhile (isDirSep windows)).length

/-- The names that are kept. -/
def kept (windows : Bool) (rest : LuaString) : List LuaString :=
  if lost windows rest then (names (isDirSep windows) rest).dropLast
  else names (isDirSep windows) rest

/-- The path begins with a dot and has another name. -/
def dotted (windows : Bool) (path : LuaString) : Bool :=
  let (drive, rest) := splitdrive windows path
  let ns := names (isDirSep windows) rest
  drive = [] ∧ !rest.head?.any (isDirSep windows) ∧ ns.head? = some dot ∧ 2 ≤ ns.length

/-- The parts of a path. -/
def splitList (windows : Bool) (path : LuaString) : List LuaString :=
  let keeps := kept windows (splitdrive windows path).2
  if dotted windows path then keeps else start windows path :: keeps

section Split

variable {windows : Bool} {path drive rest before name tail : LuaString}

theorem kept_seps (h : ∀ c ∈ rest, isDirSep windows c = true) : kept windows rest = [] := by
  simp [kept, names_seps h]

theorem kept_ending (h : Ending (isDirSep windows) rest before name tail) :
    kept windows rest =
      names (isDirSep windows) before ++ if tail.length ≤ 1 then [name] else [] := by
  rw [kept, lost, h.names_eq, h.tail_eq]
  by_cases htail : tail.length ≤ 1
  · simp [htail]
  · simp [htail, Nat.lt_of_not_le htail]

theorem body_prefix (h : Ending (isDirSep windows) rest before name tail) :
    before.rdropWhile (isDirSep windows) <+: rest := by
  have hbefore : before <+: rest := ⟨name ++ tail, by rw [h.eq, List.append_assoc]⟩
  exact (List.rdropWhile_prefix _ _).trans hbefore

theorem head_of_isPrefix {b : LuaString} (hb : b <+: rest) (hne : b ≠ []) :
    rest.head? = b.head? := by
  obtain ⟨t, rfl⟩ := hb
  cases b with
  | nil => exact absurd rfl hne
  | cons c s => rfl

theorem splitList_eq (hs : splitdrive windows path = (drive, rest)) :
    splitList windows path =
      if drive = [] ∧ rest.head?.any (isDirSep windows) = false ∧
          (names (isDirSep windows) rest).head? = some dot ∧
          2 ≤ (names (isDirSep windows) rest).length then kept windows rest
      else start windows path :: kept windows rest := by
  simp [splitList, dotted, hs]

theorem start_prefix {b : LuaString} (hs : splitdrive windows path = (drive, rest))
    (hb : b <+: rest) (hne : b ≠ []) : start windows (drive ++ b) = start windows path := by
  simp only [start, hs, splitdrive_isPrefix hs hb, head_of_isPrefix hb hne]

/-- A directory that is gone up to has the names before the last one. -/
theorem splitList_names (hs : splitdrive windows path = (drive, rest))
    (hend : Ending (isDirSep windows) rest before name tail) {b : LuaString}
    (hb : before.rdropWhile (isDirSep windows) = b) (htidy : Tidy (isDirSep windows) b)
    (hgo : isFirst windows (drive ++ b) = false) :
    splitList windows path = splitList windows (drive ++ b) ++ (basename windows path).toList := by
  have hprefix : b <+: rest := hb ▸ body_prefix hend
  have hnames : names (isDirSep windows) b = names (isDirSep windows) before :=
    hb ▸ names_rdropWhile before
  have hkept : kept windows b = names (isDirSep windows) b := by
    simp [kept, lost, htidy.tail_eq]
  have hpart : (basename windows path).toList = if tail.length ≤ 1 then [name] else [] := by
    rw [basename_ending hs hend]
    split <;> rfl
  rw [splitList_eq hs, splitList_eq (splitdrive_isPrefix hs hprefix),
    start_prefix hs hprefix htidy.ne_nil, head_of_isPrefix hprefix htidy.ne_nil,
    kept_ending hend, hkept, hend.names_eq, ← hnames, hpart]
  obtain ⟨n, ns, hns⟩ := List.exists_cons_of_ne_nil htidy.names_ne
  -- with one name more the path begins with a dot in the same way, but for the dot itself
  have hsame : (drive = [] ∧ b.head?.any (isDirSep windows) = false ∧
      (n :: ns ++ [name]).head? = some dot ∧ 2 ≤ (n :: ns ++ [name]).length) ↔
      (drive = [] ∧ b.head?.any (isDirSep windows) = false ∧ (n :: ns).head? = some dot ∧
        2 ≤ (n :: ns).length) := by
    constructor
    · rintro ⟨hdrive, hrel, hdot, -⟩
      obtain rfl : n = dot := by simpa using hdot
      refine ⟨hdrive, hrel, rfl, ?_⟩
      by_contra hlen
      obtain rfl : ns = [] := List.length_eq_zero_iff.mp (by rw [List.length_cons] at hlen; omega)
      have hfirst : ∀ c t, b = c :: t → isDirSep windows c = false := by
        rintro c t rfl
        simpa using hrel
      have hbdot : b = dot := htidy.eq_of_names hns hfirst
      rw [(isFirst_tidy hs hprefix htidy).mpr ⟨hdrive, hbdot⟩] at hgo
      cases hgo
    · rintro ⟨hdrive, hrel, hdot, hlen⟩
      exact ⟨hdrive, hrel, hdot, by simp⟩
  rw [hns, if_congr hsame rfl rfl]
  split <;> rfl

/-- The directory of a path that begins with a dot and has two names. -/
theorem splitList_dot (hs : splitdrive windows path = ([], rest))
    (hend : Ending (isDirSep windows) rest before name tail)
    (h : before.rdropWhile (isDirSep windows) = dot) :
    splitList windows path = dot :: (basename windows path).toList := by
  have hprefix : dot <+: rest := h ▸ body_prefix hend
  have hnames : names (isDirSep windows) before = [dot] := by
    rw [← names_rdropWhile, h]
    exact names_free (by simp [dot]) (isPart_dots windows (.inl rfl)).no_sep
  have hpart : (basename windows path).toList = if tail.length ≤ 1 then [name] else [] := by
    rw [basename_ending hs hend]
    split <;> rfl
  have hrel : rest.head?.any (isDirSep windows) = false := by
    rw [head_of_isPrefix hprefix (by simp [dot])]
    simp [dot, isDirSep]
  rw [splitList_eq hs, kept_ending hend, hend.names_eq, hnames, hpart, if_pos]
  · rfl
  · exact ⟨rfl, hrel, rfl, le_rfl⟩

theorem splitList_start (hs : splitdrive windows path = (drive, rest))
    (h : (names (isDirSep windows) rest).length ≤ 1) :
    splitList windows path = start windows path :: kept windows rest := by
  rw [splitList_eq hs, if_neg]
  rintro ⟨-, -, -, hlen⟩
  omega

end Split

/-! ## The loops -/

section Loop

variable {windows : Bool} (B : Borders LuaString) {parts : Slots LuaString} {l : List LuaString}
  {path : LuaString}

theorem splitPass_first (h : isFirst windows (dirname windows path) = true) :
    (splitPass windows B (parts, path)).Yields (.inr (insertFirst B
      (insertFirst B parts (basename windows path)) (some (dirname windows path)))) := by
  simp [splitPass, h]

theorem splitPass_next (h : isFirst windows (dirname windows path) = false) :
    (splitPass windows B (parts, path)).Yields
      (.inl (insertFirst B parts (basename windows path), dirname windows path)) := by
  simp [splitPass, h]

/-- Into an array without holes the loop puts the parts of the path. -/
theorem split_loop (path : LuaString) (h : Same parts (ofList l))
    (hfirst : l = [] ∨ (basename windows path).isSome) :
    ∃ t, (repeatUntil (splitPass windows B) (parts, path)).Yields t ∧
      Same t (ofList (splitList windows path ++ l)) := by
  induction hlen : path.length using Nat.strong_induction_on generalizing path parts l with
  | _ n ih =>
    obtain ⟨drive, rest, hs⟩ : ∃ drive rest, splitdrive windows path = (drive, rest) := ⟨_, _, rfl⟩
    have hpart := FsCam.same_insertPart B h hfirst
    -- where the loop stops
    have hstop : isFirst windows (dirname windows path) = true →
        splitList windows path = dirname windows path :: (basename windows path).toList →
        ∃ t, (repeatUntil (splitPass windows B) (parts, path)).Yields t ∧
          Same t (ofList (splitList windows path ++ l)) := by
      intro hdir hlist
      refine ⟨_, yields_repeat_inr (splitPass_first B hdir), ?_⟩
      rw [hlist]
      exact same_insertFirst B hpart _
    obtain hall | ⟨before, name, tail, hend⟩ := exists_ending (isDirSep windows) rest
    · have hdir := dirname_seps hs hall
      refine hstop (hdir ▸ isFirst_start windows path) ?_
      rw [splitList_start hs (by simp [names_seps hall]), kept_seps hall, basename_seps hs hall, hdir]
      rfl
    · have hbase : (basename windows path).toList = if tail.length ≤ 1 then [name] else [] := by
        rw [basename_ending hs hend]
        split <;> rfl
      by_cases hb : before.rdropWhile (isDirSep windows) = []
      · have hseps := List.rdropWhile_eq_nil_iff.mp hb
        have hdir := dirname_name hs hend hseps
        have hone : (names (isDirSep windows) rest).length ≤ 1 := by
          simp [hend.names_eq, names_seps hseps]
        refine hstop (hdir ▸ isFirst_start windows path) ?_
        rw [splitList_start hs hone, kept_ending hend, names_seps hseps, hbase, hdir,
          List.nil_append]
      · have hdir := dirname_names hs hend hb
        have hprefix := body_prefix hend
        have htidy := tidy_rdropWhile hb
        cases hgo : isFirst windows (dirname windows path) with
        | true =>
          rw [hdir, isFirst_tidy hs hprefix htidy] at hgo
          obtain ⟨rfl, hdot⟩ := hgo
          rw [hdot, List.nil_append] at hdir
          refine hstop (by simp [hdir, isFirst]) ?_
          rw [splitList_dot hs hend hdot, hdir]
        | false =>
          have hlist := splitList_names hs hend rfl htidy (hdir ▸ hgo)
          have hshort : (dirname windows path).length < path.length := by
            have hle := (List.rdropWhile_prefix (isDirSep windows) (l := before)).length_le
            have hlt := hend.before_length
            have hpath := congrArg List.length (@splitdrive_eq windows path)
            simp only [hs, List.length_append] at hpath
            rw [hdir, List.length_append]
            omega
          have hnext : (basename windows (dirname windows path)).isSome := by
            obtain ⟨before', name', hend'⟩ := htidy.ending
            rw [hdir, basename_ending (splitdrive_isPrefix hs hprefix) hend']
            rfl
          rw [← hdir] at hlist
          obtain ⟨t, ht, hsame⟩ := ih _ (hlen ▸ hshort) _ hpart (.inr hnext) rfl
          refine ⟨t, yields_repeat_inl (splitPass_next B hgo) ht, ?_⟩
          rwa [hlist, List.append_assoc]

theorem same_splitpath (windows : Bool) (path : LuaString) :
    ∃ t, (splitpath windows B path).Yields t ∧ Same t (ofList (splitList windows path)) := by
  have hempty : Same ([] : Slots LuaString) (ofList []) := fun i => rfl
  have h := @split_loop windows B [] [] path hempty (.inl rfl)
  rwa [List.append_nil] at h

/-- The first part is what the path begins with. -/
theorem splitList_first (windows : Bool) (path : LuaString) :
    ∃ l, splitList windows path = start windows path :: l := by
  obtain ⟨drive, rest, hs⟩ : ∃ drive rest, splitdrive windows path = (drive, rest) := ⟨_, _, rfl⟩
  rw [splitList_eq hs]
  split
  · rename_i h
    obtain ⟨rfl, hrel, hdot, hlen⟩ := h
    have hstart : start windows path = dot := by simp [start, hs, hrel]
    rw [hstart]
    cases hn : names (isDirSep windows) rest with
    | nil => simp [hn] at hlen
    | cons n ns =>
      obtain rfl : n = dot := by simpa [hn] using hdot
      obtain ⟨m, ms, rfl⟩ := @List.exists_cons_of_ne_nil _ ns (by rintro rfl; simp [hn] at hlen)
      rw [kept, hn]
      split
      · exact ⟨_, List.dropLast_cons_cons⟩
      · exact ⟨_, rfl⟩
  · exact ⟨_, rfl⟩

/-- The loop for paths of the camera is the one of `FsCam`. -/
theorem splitpathCam_yields (B : Borders LuaString) (path : Option LuaString) :
    (splitpathCam B path).Yields (FsCam.splitpathCam B path) := by
  have hloop : ∀ parts path, (repeatUntil (splitPassCam B) (parts, path)).Yields
      (FsCam.splitLoop B parts path) := by
    intro parts path
    fun_induction FsCam.splitLoop B parts path with
    | case1 parts path parts' hd =>
      exact yields_repeat_inr (by simp [splitPassCam, hd, parts'])
    | case2 parts path parts' hd =>
      exact yields_repeat_inr (by simp [splitPassCam, hd, parts'])
    | case3 parts path parts' dir hd hroot hlt ih =>
      exact yields_repeat_inl (by simp [splitPassCam, hd, hroot, parts']) ih
  exact hloop [] path

end Loop

/-- Both loops come to an end, the first one with a dot, a root or a drive. -/
theorem splitpath_ends (windows : Bool) (B : Borders LuaString) (path : LuaString) :
    (∃ t first, (splitpath windows B path).Yields t ∧ slot t 0 = some first ∧
      isFirst windows first = true) ∧ ∃ t, (splitpathCam B (some path)).Yields t := by
  obtain ⟨t, ht, hsame⟩ := same_splitpath B windows path
  obtain ⟨l, hl⟩ := splitList_first windows path
  have hslot : slot t 0 = some (start windows path) := by
    rw [hsame 0, slot_ofList, hl]
    rfl
  exact ⟨⟨t, _, ht, hslot, isFirst_start windows path⟩, _, splitpathCam_yields B (some path)⟩

end PathSplit
