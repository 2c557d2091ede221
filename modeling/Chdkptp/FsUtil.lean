import Chdkptp.FileTree
import Chdkptp.LuaText
import Mathlib.Data.List.DropRight

/-!
# Paths

The path functions of `fsutil` for the separators of the host, and the walk by which
the host finds what a path names. There are no links, so the walk of a path without
`..` only goes down.
-/

namespace FsUtil

open LuaValue LuaText FileTree

def dot : LuaString := [46]

def dotdot : LuaString := [46, 46]

/-- `fsutil.is_dir_sep`, on Windows or not. -/
def isDirSep (windows : Bool) (c : UInt8) : Bool := c = 47 ∨ windows ∧ c = 92

/-- `%a`. -/
def isAlpha (c : UInt8) : Bool := 65 ≤ c ∧ c ≤ 90 ∨ 97 ≤ c ∧ c ≤ 122

/-- `fsutil.splitdrive`. -/
def splitdrive (windows : Bool) : LuaString → LuaString × LuaString
  | c :: 58 :: rest =>
    if windows ∧ isAlpha c then ([c, 58], rest) else ([], c :: 58 :: rest)
  | path => ([], path)

def endsInSep (windows : Bool) (path : LuaString) : Bool := path.getLast?.any (isDirSep windows)

/-- `fsutil.basename` without a suffix: at most one separator may follow the name. -/
def basename (windows : Bool) (path : LuaString) : Option LuaString :=
  let rest := (splitdrive windows path).2
  let body := if endsInSep windows rest then rest.dropLast else rest
  let bn := body.rtakeWhile fun c => !isDirSep windows c
  if bn = [] then none else some bn

/-- The body of the loop in `fsutil.joinpath`. -/
def joinPart (windows : Bool) (r part : LuaString) : LuaString :=
  let v := if part.head?.any (isDirSep windows) then part.tail else part
  (if endsInSep windows r then r else r ++ [47]) ++ v

/-- `fsutil.joinpath` of a first part and more. -/
def joinpath (windows : Bool) (r : LuaString) (parts : List LuaString) : LuaString :=
  parts.foldl (joinPart windows) r

/-! ## What a path names -/

/-- What a file can be called. -/
def isName (windows : Bool) (n : LuaString) : Bool :=
  n ≠ [] ∧ n ≠ dot ∧ n ≠ dotdot ∧ n.all fun c => !isDirSep windows c

abbrev FileName (windows : Bool) := { n : LuaString // isName windows n }

abbrev Place (windows : Bool) := Location (FileName windows)

abbrev Disk (windows : Bool) := FileSystem (FileName windows)

structure Host where
  windows : Bool
  /-- The root of a drive, or its current directory. -/
  origin : (drive : LuaString) → (absolute : Bool) → Place windows
  /-- The order in which `lfs.dir` lists the names in a directory. -/
  order : LuaString → List LuaString → List LuaString
  order_perm : ∀ path names, (order path names).Perm names

variable {windows : Bool}

/-- Follow one component of a path. -/
def stepInto (disk : Disk windows) (l : Place windows) (name : LuaString) :
    Option (Place windows) :=
  if disk.kind l = some .directory then
    if h : isName windows name then
      if (disk.kind (l ++ [⟨name, h⟩])).isSome then some (l ++ [⟨name, h⟩]) else none
    else if name = dotdot then some l.dropLast
    else some l
  else none

def components (windows : Bool) (path : LuaString) : List LuaString :=
  (splitdrive windows path).2.splitOnP (isDirSep windows)

def startOf (h : Host) (path : LuaString) : Place h.windows :=
  h.origin (splitdrive h.windows path).1
    ((splitdrive h.windows path).2.head?.any (isDirSep h.windows))

/-- The place that the host finds under a path. -/
def locate (h : Host) (disk : Disk h.windows) (path : LuaString) : Option (Place h.windows) :=
  if path = [] then none
  else (components h.windows path).foldlM (stepInto disk) (startOf h path)

/-- `lfs.attributes(path, 'mode')`. -/
def attributes (h : Host) (disk : Disk h.windows) (path : LuaString) : Option Kind :=
  (locate h disk path).bind disk.kind

/-- The names that `lfs.dir` lists. -/
def lfsDir (h : Host) (disk : Disk h.windows) (path : LuaString) : Option (List LuaString) :=
  (locate h disk path).bind fun l =>
    if disk.kind l = some .directory then
      some (h.order path (dot :: dotdot :: (disk.names l).map Subtype.val))
    else none

/-- `lfs.rmdir`. -/
def rmdir (h : Host) (disk : Disk h.windows) (path : LuaString) : Option (Disk h.windows) :=
  (locate h disk path).bind fun l =>
    if disk.kind l = some .directory then disk.unlink l else none

/-- `os.remove`, which on Windows does not remove directories. -/
def osRemove (h : Host) (disk : Disk h.windows) (path : LuaString) : Option (Disk h.windows) :=
  (locate h disk path).bind fun l =>
    if h.windows ∧ disk.kind l = some .directory then none else disk.unlink l

/-! ## Names and the paths that end in them -/

/-- What one component of a path can be: not empty and without separators. -/
structure IsPart (windows : Bool) (n : LuaString) : Prop where
  ne_nil : n ≠ []
  no_sep : ∀ c ∈ n, isDirSep windows c = false

theorem FileName.isPart (n : FileName windows) : IsPart windows n.val := by
  have h := n.property
  simp only [isName, decide_eq_true_eq, List.all_eq_true, Bool.not_eq_true'] at h
  exact ⟨h.1, h.2.2.2⟩

theorem FileName.ne_dot (n : FileName windows) : n.val ≠ dot := by
  have h := n.property
  simp only [isName, decide_eq_true_eq] at h
  exact h.2.1

theorem FileName.ne_dotdot (n : FileName windows) : n.val ≠ dotdot := by
  have h := n.property
  simp only [isName, decide_eq_true_eq] at h
  exact h.2.2.1

theorem isPart_dots (windows : Bool) {n : LuaString} (hn : n = dot ∨ n = dotdot) :
    IsPart windows n := by
  have hsep : isDirSep windows 46 = false := by simp [isDirSep]
  rcases hn with rfl | rfl
  · exact ⟨by simp [dot], fun c hc => by simp_all [dot]⟩
  · exact ⟨by simp [dotdot], fun c hc => by simp_all [dotdot]⟩

@[simp] theorem isDirSep_slash (windows : Bool) : isDirSep windows 47 = true := by
  simp [isDirSep]

theorem IsPart.not_endsInSep {n : LuaString} (hn : IsPart windows n) (q : LuaString) :
    endsInSep windows (q ++ n) = false := by
  obtain ⟨c, hc⟩ := List.getLast?_isSome.mpr hn.ne_nil |> Option.isSome_iff_exists.mp
  simp [endsInSep, List.getLast?_append, hc, hn.no_sep c (List.mem_of_getLast? hc)]

/-- What follows the last separator. -/
theorem rtakeWhile_sep {n : LuaString} (hn : ∀ c ∈ n, isDirSep windows c = false)
    (q : LuaString) (s : UInt8) (hs : isDirSep windows s = true) :
    (q ++ s :: n).rtakeWhile (fun c => !isDirSep windows c) = n := by
  have hrev : ∀ c ∈ n.reverse, (!isDirSep windows c) = true := by
    intro c hc
    simp [hn c (List.mem_reverse.mp hc)]
  rw [List.rtakeWhile, List.reverse_append, List.reverse_cons, List.append_assoc,
    List.takeWhile_append_of_pos hrev]
  simp [hs]

theorem endsInSep_iff (path : LuaString) :
    endsInSep windows path = true ↔ ∃ q s, isDirSep windows s = true ∧ path = q ++ [s] := by
  constructor
  · intro h
    obtain ⟨s, hlast, hs⟩ := (Option.any_eq_true _ _).mp h
    exact ⟨path.dropLast, s, hs, (List.dropLast_append_getLast? s hlast).symm⟩
  · rintro ⟨q, s, hs, rfl⟩
    simp [endsInSep, hs]

/-- A name is put behind the separator that the path ends in, or behind a slash. -/
theorem joinPart_eq {n : LuaString} (hn : IsPart windows n) (path : LuaString) :
    ∃ q s, isDirSep windows s = true ∧ joinPart windows path n = q ++ s :: n ∧
      (path = q ++ [s] ∨ endsInSep windows path = false ∧ path = q ∧ s = 47) := by
  have hhead : n.head?.any (isDirSep windows) = false := by
    cases n with
    | nil => rfl
    | cons c n => simp [hn.no_sep c (by simp)]
  cases hend : endsInSep windows path with
  | false => exact ⟨path, 47, by simp, by simp [joinPart, hhead, hend], by simp⟩
  | true =>
    obtain ⟨q, s, hs, rfl⟩ := (endsInSep_iff path).mp hend
    exact ⟨q, s, hs, by simp [joinPart, hhead, hend], .inl rfl⟩

theorem splitdrive_append (path g : LuaString) (hrest : (splitdrive windows path).2 ≠ [])
    (hg : ∀ c, path = [c] → isAlpha c = true → g.head? ≠ some 58) :
    splitdrive windows (path ++ g) =
      ((splitdrive windows path).1, (splitdrive windows path).2 ++ g) := by
  match path with
  | [] => exact absurd rfl hrest
  | [c] =>
    cases g with
    | nil => rfl
    | cons d g =>
      by_cases hd : d = 58
      · have hc : isAlpha c = false := by
          by_contra hc
          exact hg c rfl (by simpa using hc) (by simp [hd])
        simp [splitdrive, hd, hc]
      · simp [splitdrive, hd]
  | c :: d :: path =>
    by_cases hd : d = 58
    · subst hd
      by_cases hdrive : windows ∧ isAlpha c
      · simp [splitdrive, hdrive]
      · simp [splitdrive, hdrive]
    · simp [splitdrive, hd]

theorem splitdrive_eq (path : LuaString) :
    (splitdrive windows path).1 ++ (splitdrive windows path).2 = path := by
  match path with
  | [] => rfl
  | [c] => rfl
  | c :: d :: path =>
    by_cases hd : d = 58
    · subst hd
      by_cases hdrive : windows ∧ isAlpha c
      · simp [splitdrive, hdrive]
      · simp [splitdrive, hdrive]
    · simp [splitdrive, hd]

theorem endsInSep_rest (path : LuaString) (hrest : (splitdrive windows path).2 ≠ []) :
    endsInSep windows (splitdrive windows path).2 = endsInSep windows path := by
  obtain ⟨c, hc⟩ := Option.isSome_iff_exists.mp (List.getLast?_isSome.mpr hrest)
  have hlast : path.getLast? = some c := by
    have heq : (splitdrive windows path).1 ++ (splitdrive windows path).2 = path :=
      splitdrive_eq path
    rw [← heq, List.getLast?_append, hc]
    rfl
  rw [endsInSep, endsInSep, hc, hlast]

theorem isAlpha_sep {c : UInt8} (hc : isDirSep windows c = true) : isAlpha c = false := by
  simp only [isDirSep, decide_eq_true_eq] at hc
  rcases hc with rfl | ⟨-, rfl⟩ <;> rfl

/-- A name is put behind the rest of the path, not behind its drive. -/
theorem splitdrive_joinPart {path n : LuaString} (hrest : (splitdrive windows path).2 ≠ [])
    (hn : IsPart windows n) :
    splitdrive windows (joinPart windows path n) =
      ((splitdrive windows path).1, joinPart windows (splitdrive windows path).2 n) := by
  have hhead : n.head?.any (isDirSep windows) = false := by
    cases n with
    | nil => rfl
    | cons c n => simp [hn.no_sep c (by simp)]
  cases hend : endsInSep windows path with
  | false =>
    have hjoin : joinPart windows path n = path ++ 47 :: n := by simp [joinPart, hhead, hend]
    rw [hjoin, splitdrive_append path _ hrest (by simp)]
    simp [joinPart, hhead, endsInSep_rest path hrest, hend]
  | true =>
    have hjoin : joinPart windows path n = path ++ n := by simp [joinPart, hhead, hend]
    have hone : ∀ c, path = [c] → isAlpha c = true → n.head? ≠ some 58 := by
      rintro c rfl halpha
      have hsep : isDirSep windows c = true := by simpa [endsInSep] using hend
      rw [isAlpha_sep hsep] at halpha
      cases halpha
    rw [hjoin, splitdrive_append path _ hrest hone]
    simp [joinPart, hhead, endsInSep_rest path hrest, hend]

theorem startOf_joinPart (h : Host) {path n : LuaString}
    (hrest : (splitdrive h.windows path).2 ≠ []) (hn : IsPart h.windows n) :
    startOf h (joinPart h.windows path n) = startOf h path := by
  rw [startOf, startOf, splitdrive_joinPart hrest hn]
  obtain ⟨q, s, -, hjoin, heq⟩ := joinPart_eq hn (splitdrive h.windows path).2
  have hhead : (q ++ s :: n).head? = (splitdrive h.windows path).2.head? := by
    rcases heq with heq | ⟨-, heq, -⟩
    · rw [heq]
      cases q <;> rfl
    · cases q with
      | nil => exact absurd heq hrest
      | cons c q => simp [heq]
  rw [hjoin, hhead]

theorem stepInto_nil (disk : Disk windows) (l : Place windows) :
    stepInto disk l [] = if disk.kind l = some .directory then some l else none := by
  simp [stepInto, isName, dotdot]

/-- The walk of a path and one more name. -/
theorem locate_joinPart {h : Host} {disk : Disk h.windows} {path n : LuaString}
    {l : Place h.windows} (hrest : (splitdrive h.windows path).2 ≠ [])
    (hl : locate h disk path = some l) (hn : IsPart h.windows n) :
    locate h disk (joinPart h.windows path n) = stepInto disk l n := by
  have hpath : path ≠ [] := by
    rintro rfl
    exact hrest rfl
  obtain ⟨q, s, hs, hjoin, heq⟩ := joinPart_eq hn (splitdrive h.windows path).2
  have hcomps : components h.windows (joinPart h.windows path n) =
      q.splitOnP (isDirSep h.windows) ++ [n] := by
    rw [components, splitdrive_joinPart hrest hn, hjoin, List.splitOnP_append_cons q n hs,
      List.splitOnP_eq_singleton hn.no_sep]
  have hne : joinPart h.windows path n ≠ [] := by
    obtain ⟨q', s', -, hjoin', -⟩ := joinPart_eq hn path
    simp [hjoin']
  rw [locate, if_neg hpath] at hl
  rw [locate, if_neg hne, hcomps, startOf_joinPart h hrest hn, List.foldlM_append]
  rcases heq with heq | ⟨-, heq, -⟩
  · rw [components, heq, List.splitOnP_append_cons q [] hs, List.splitOnP_nil,
      List.foldlM_append] at hl
    obtain ⟨l', hl', hlast⟩ := Option.bind_eq_some_iff.mp hl
    rw [hl']
    have hsame : l' = l := by
      simp only [List.foldlM_cons, List.foldlM_nil, stepInto_nil] at hlast
      split at hlast
      · simpa using hlast
      · cases hlast
    simp [hsame]
  · rw [components, heq] at hl
    rw [hl]
    simp

theorem basename_joinPart {path n : LuaString} (hrest : (splitdrive windows path).2 ≠ [])
    (hn : IsPart windows n) : basename windows (joinPart windows path n) = some n := by
  obtain ⟨q, s, hs, hjoin, -⟩ := joinPart_eq hn (splitdrive windows path).2
  have hend : endsInSep windows (q ++ s :: n) = false := by
    have hcons := hn.not_endsInSep (q ++ [s])
    rwa [List.append_assoc] at hcons
  rw [basename, splitdrive_joinPart hrest hn]
  simp [hjoin, hend, rtakeWhile_sep hn.no_sep q s hs, hn.ne_nil]

theorem mem_splitOnP_rtakeWhile (body : LuaString) :
    body.rtakeWhile (fun c => !isDirSep windows c) ∈ body.splitOnP (isDirSep windows) := by
  by_cases hsep : ∀ c ∈ body, isDirSep windows c = false
  · have hall : body.rtakeWhile (fun c => !isDirSep windows c) = body := by
      rw [List.rtakeWhile_eq_self_iff]
      intro c hc
      simp [hsep c hc]
    rw [hall, List.splitOnP_eq_singleton hsep]
    exact List.mem_singleton_self body
  · obtain ⟨q, s, n, hs, hn, rfl⟩ :
        ∃ q s n, isDirSep windows s = true ∧ (∀ c ∈ n, isDirSep windows c = false) ∧
          body = q ++ s :: n := by
      induction body with
      | nil => exact absurd (fun c hc => by cases hc) hsep
      | cons c body ih =>
        by_cases hbody : ∀ c ∈ body, isDirSep windows c = false
        · refine ⟨[], c, body, ?_, hbody, rfl⟩
          by_contra hc
          exact hsep (by simpa [hc] using hbody)
        · obtain ⟨q, s, n, hs, hn, rfl⟩ := ih hbody
          exact ⟨c :: q, s, n, hs, hn, rfl⟩
    rw [rtakeWhile_sep hn q s hs, List.splitOnP_append_cons q n hs, List.splitOnP_eq_singleton hn]
    simp

/-- The name that `basename` finds is one of the components. -/
theorem basename_mem {path b : LuaString} (hb : basename windows path = some b) :
    b ∈ components windows path := by
  cases hend : endsInSep windows (splitdrive windows path).2 with
  | false =>
    simp only [basename, hend, Bool.false_eq_true, if_false, Option.ite_none_left_eq_some] at hb
    rw [← Option.some.inj hb.2]
    exact mem_splitOnP_rtakeWhile _
  | true =>
    simp only [basename, hend, if_true, Option.ite_none_left_eq_some] at hb
    obtain ⟨q, s, hs, heq⟩ := (endsInSep_iff (splitdrive windows path).2).mp hend
    have hbody : (splitdrive windows path).2.dropLast = q := by simp [heq]
    rw [← Option.some.inj hb.2, components, hbody, heq, List.splitOnP_append_cons q [] hs]
    exact List.mem_append_left _ (mem_splitOnP_rtakeWhile q)

/-! ## Paths that end in dots -/

/-- `string.sub(s, -k)`. -/
def subEnd (s : LuaString) (k : Nat) : LuaString := if k = 0 then s else s.drop (s.length - k)

/-- The test in `fsutil.rm_r` that passes over a directory's own entries. -/
def endsInDots (path : LuaString) : Bool :=
  subEnd path 2 = 47 :: dot ∨ subEnd path 3 = 47 :: dotdot

theorem subEnd_eq {s t : LuaString} {k : Nat} (hk : k ≠ 0) (h : subEnd s k = t) :
    ∃ q, s = q ++ t := by
  rw [subEnd, if_neg hk] at h
  exact ⟨s.take (s.length - k), by rw [← h, List.take_append_drop]⟩

theorem endsInDots_iff {n : LuaString} (hn : IsPart windows n) (q : LuaString) :
    endsInDots (q ++ 47 :: n) = true ↔ n = dot ∨ n = dotdot := by
  have hlast : ∀ d, d = dot ∨ d = dotdot → (∃ q', q ++ 47 :: n = q' ++ 47 :: d) → n = d := by
    rintro d hd ⟨q', heq⟩
    rw [← rtakeWhile_sep hn.no_sep q 47 (by simp), heq]
    exact rtakeWhile_sep (isPart_dots windows hd).no_sep q' 47 (by simp)
  constructor
  · intro h
    simp only [endsInDots, decide_eq_true_eq] at h
    rcases h with h | h
    · exact .inl (hlast dot (.inl rfl) (subEnd_eq (by simp) h))
    · exact .inr (hlast dotdot (.inr rfl) (subEnd_eq (by simp) h))
  · rintro (rfl | rfl)
    · simp [endsInDots, subEnd, dot]
    · simp [endsInDots, subEnd, dotdot]

/-! ## Walks that only go down -/

/-- A path that `fsutil` can put names behind, that does not lead up and that does not
look like a directory's own entry. -/
structure Plain (windows : Bool) (path : LuaString) : Prop where
  /-- It is more than a drive. -/
  rest : (splitdrive windows path).2 ≠ []
  down : dotdot ∉ components windows path
  slash : windows = true → path.getLast? ≠ some 92
  shown : endsInDots path = false

theorem Plain.joinPart_eq {path n : LuaString} (hp : Plain windows path)
    (hn : IsPart windows n) : ∃ q, joinPart windows path n = q ++ 47 :: n := by
  obtain ⟨q, s, hs, hjoin, heq⟩ := FsUtil.joinPart_eq hn path
  suffices hslash : s = 47 from ⟨q, by rw [hjoin, hslash]⟩
  rcases heq with rfl | ⟨-, -, hslash⟩
  · have hlast := hp.slash
    simp only [isDirSep, decide_eq_true_eq] at hs
    rcases hs with hs | ⟨hw, rfl⟩
    · exact hs
    · exact absurd (by simp) (hlast hw)
  · exact hslash

theorem Plain.endsInDots_iff {path n : LuaString} (hp : Plain windows path)
    (hn : IsPart windows n) :
    endsInDots (joinPart windows path n) = true ↔ n = dot ∨ n = dotdot := by
  obtain ⟨q, hq⟩ := hp.joinPart_eq hn
  rw [hq]
  exact FsUtil.endsInDots_iff hn q

theorem components_joinPart {path n : LuaString} (hrest : (splitdrive windows path).2 ≠ [])
    (hn : IsPart windows n) {d : LuaString} (hd : d ∈ components windows (joinPart windows path n)) :
    d ∈ components windows path ∨ d = n := by
  obtain ⟨q, s, hs, hjoin, heq⟩ := FsUtil.joinPart_eq hn (splitdrive windows path).2
  rw [components, splitdrive_joinPart hrest hn, hjoin, List.splitOnP_append_cons q n hs,
    List.splitOnP_eq_singleton hn.no_sep] at hd
  rcases List.mem_append.mp hd with hd | hd
  · left
    rcases heq with heq | ⟨-, heq, -⟩
    · rw [components, heq, List.splitOnP_append_cons q [] hs]
      exact List.mem_append_left _ hd
    · rw [components, heq]
      exact hd
  · exact .inr (List.mem_singleton.mp hd)

theorem Plain.joinPart {path : LuaString} (hp : Plain windows path) (n : FileName windows) :
    Plain windows (joinPart windows path n.val) := by
  refine ⟨?_, ?_, ?_, ?_⟩
  · rw [splitdrive_joinPart hp.rest n.isPart]
    obtain ⟨q, s, -, hjoin, -⟩ := FsUtil.joinPart_eq n.isPart (splitdrive windows path).2
    simp [hjoin]
  · intro hmem
    rcases components_joinPart hp.rest n.isPart hmem with hmem | heq
    · exact hp.down hmem
    · exact n.ne_dotdot heq.symm
  · intro hw hlast
    obtain ⟨q, hq⟩ := hp.joinPart_eq n.isPart
    have hend := n.isPart.not_endsInSep (q ++ [47])
    rw [List.append_assoc, List.singleton_append, ← hq, endsInSep, hlast] at hend
    simp [isDirSep, hw] at hend
  · by_contra hdots
    rcases (hp.endsInDots_iff n.isPart).mp (by simpa using hdots) with heq | heq
    · exact n.ne_dot heq
    · exact n.ne_dotdot heq

theorem stepInto_down {disk : Disk windows} {l l' : Place windows} {name : LuaString}
    (hname : name ≠ dotdot) (h : stepInto disk l name = some l') :
    disk.kind l = some .directory ∧ l <+: l' ∧ (disk.kind l').isSome := by
  unfold stepInto at h
  split at h
  · rename_i hdir
    refine ⟨hdir, ?_⟩
    split at h
    · split at h
      · rename_i hsome
        cases h
        exact ⟨List.prefix_append l _, hsome⟩
      · cases h
    · cases h
      exact ⟨List.prefix_rfl, by simp [hdir]⟩
  · cases h

theorem stepInto_remove {disk : Disk windows} {gone l l' : Place windows} {name : LuaString}
    (hempty : disk.names gone = []) (hname : name ≠ dotdot) (h : stepInto disk l name = some l')
    (hl : ¬gone <+: l') : stepInto (disk.remove gone hempty) l name = some l' := by
  obtain ⟨hdir, hprefix, -⟩ := stepInto_down hname h
  have hne : l ≠ gone := by
    rintro rfl
    exact hl hprefix
  unfold stepInto at h ⊢
  rw [FileSystem.remove_kind, if_neg hne]
  rw [if_pos hdir] at h ⊢
  split at h
  · rename_i hn
    rw [dif_pos hn]
    split at h
    · rename_i hsome
      cases h
      have hchild : l ++ [⟨name, hn⟩] ≠ gone := by
        rintro rfl
        exact hl List.prefix_rfl
      rw [FileSystem.remove_kind, if_neg hchild, if_pos hsome]
    · cases h
  · rename_i hn
    rw [dif_neg hn, if_neg hname]
    exact h

theorem walk_down {disk : Disk windows} {names : List LuaString} (hdown : dotdot ∉ names)
    {l l' : Place windows} (h : names.foldlM (stepInto disk) l = some l') : l <+: l' := by
  induction names generalizing l with
  | nil =>
    cases h
    exact List.prefix_rfl
  | cons name names ih =>
    obtain ⟨next, hnext, hrest⟩ := Option.bind_eq_some_iff.mp h
    obtain ⟨hname, hnames⟩ := List.ne_and_not_mem_of_not_mem_cons hdown
    exact (stepInto_down hname.symm hnext).2.1.trans (ih hnames hrest)

theorem walk_there {disk : Disk windows} {names : List LuaString} (hdown : dotdot ∉ names)
    (hne : names ≠ []) {l l' : Place windows}
    (h : names.foldlM (stepInto disk) l = some l') : (disk.kind l').isSome := by
  induction names generalizing l with
  | nil => exact absurd rfl hne
  | cons name names ih =>
    obtain ⟨next, hnext, hrest⟩ := Option.bind_eq_some_iff.mp h
    obtain ⟨hname, hnames⟩ := List.ne_and_not_mem_of_not_mem_cons hdown
    cases names with
    | nil =>
      cases hrest
      exact (stepInto_down hname.symm hnext).2.2
    | cons name' names => exact ih hnames (by simp) hrest

/-- A walk does not meet what is removed beside its end. -/
theorem walk_remove {disk : Disk windows} {gone : Place windows} (hempty : disk.names gone = [])
    {names : List LuaString} (hdown : dotdot ∉ names) {l l' : Place windows}
    (h : names.foldlM (stepInto disk) l = some l') (hl : ¬gone <+: l') :
    names.foldlM (stepInto (disk.remove gone hempty)) l = some l' := by
  induction names generalizing l with
  | nil => exact h
  | cons name names ih =>
    obtain ⟨next, hnext, hrest⟩ := Option.bind_eq_some_iff.mp h
    obtain ⟨hname, hnames⟩ := List.ne_and_not_mem_of_not_mem_cons hdown
    have hbeside : ¬gone <+: next := fun hgone => hl (hgone.trans (walk_down hnames hrest))
    rw [List.foldlM_cons, stepInto_remove hempty hname.symm hnext hbeside]
    exact ih hnames hrest

theorem Plain.ne_nil {path : LuaString} (hp : Plain windows path) : path ≠ [] := by
  rintro rfl
  exact hp.rest rfl

theorem Plain.basename_ne {path : LuaString} (hp : Plain windows path) :
    (basename windows path).getD path ≠ dotdot := by
  cases hb : basename windows path with
  | some b =>
    intro heq
    rw [Option.getD_some] at heq
    exact hp.down (heq ▸ basename_mem hb)
  | none =>
    rw [Option.getD_none]
    rintro rfl
    exact hp.down (by simp [components, splitdrive, dotdot, List.splitOnP_eq_singleton, isDirSep])

theorem Plain.there {h : Host} {disk : Disk h.windows} {path : LuaString} {l : Place h.windows}
    (hp : Plain h.windows path) (hl : locate h disk path = some l) : (disk.kind l).isSome := by
  rw [locate, if_neg hp.ne_nil] at hl
  exact walk_there hp.down (List.splitOnP_ne_nil _ _) hl

theorem Plain.locate_remove {h : Host} {disk : Disk h.windows} {path : LuaString}
    {l gone : Place h.windows} (hp : Plain h.windows path) (hl : locate h disk path = some l)
    (hempty : disk.names gone = []) (hgone : ¬gone <+: l) :
    locate h (disk.remove gone hempty) path = some l := by
  rw [locate, if_neg hp.ne_nil] at hl ⊢
  exact walk_remove hempty hp.down hl hgone

theorem Plain.locate_child {h : Host} {disk : Disk h.windows} {path : LuaString}
    {l : Place h.windows} (hp : Plain h.windows path) (hl : locate h disk path = some l)
    {n : FileName h.windows} (hn : n ∈ disk.names l) :
    locate h disk (FsUtil.joinPart h.windows path n.val) = some (l ++ [n]) := by
  have hchild := (disk.mem_names l n).mp hn
  rw [locate_joinPart hp.rest hl n.isPart, stepInto, if_pos (disk.parent l n hchild),
    dif_pos n.property, if_pos hchild]

end FsUtil
