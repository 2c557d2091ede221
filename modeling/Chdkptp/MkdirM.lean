import Chdkptp.PathRejoin
import Chdkptp.RmR

/-!
# Making directories

`fsutil.mkdir_m` makes the directories that the parts of a path name, one joined to the other.
Whether what it leaves is the path is a question of what the parts mean.
-/

namespace MkdirM

open Fuelled LuaValue LuaText RemoteCapture LuaSlots FsUtil Separated PathSplit PathRejoin FileTree
  RmR

/-- Why a host may not make a directory, and what it says then. -/
structure Rights (windows : Bool) where
  refuses : Disk windows → LuaString → Bool
  message : Disk windows → LuaString → LuaString

/-- `lfs.mkdir`; separators behind the name do not count. -/
def lfsMkdir (h : Host) (rights : Rights h.windows) (disk : Disk h.windows) (path : LuaString) :
    Option (Disk h.windows) := do
  let comps := (components h.windows path).rdropWhile fun n => n = []
  let name ← comps.getLast?
  let l ← comps.dropLast.foldlM (stepInto disk) (startOf h path)
  if hn : isName h.windows name then
    if hk : disk.kind l = some .directory ∧ disk.kind (l ++ [⟨name, hn⟩]) = none then
      if rights.refuses disk path then none else some (disk.addDirectory l ⟨name, hn⟩ hk.1 hk.2)
    else none
  else none

def existsError : LuaError :=
  .thrown (bytes "exists".toList) (bytes "path exists, not directory".toList)

/-- `fsutil.joinpath` of two values that may be nil. -/
def joinTwo (windows : Bool) : Option LuaString → Option LuaString → Except LuaError LuaString
  | some r, some v => .ok (joinPart windows r v)
  | some _, none => .error (.text (bytes "joinpath requires at least 2 parts".toList))
  | none, _ => .error (.text (bytes "bad argument".toList))

/-- One pass of the loop in `fsutil.mkdir_m`. -/
def mkdirPass (h : Host) (rights : Rights h.windows) (parts : Slots LuaString)
    (s : Disk h.windows × Option LuaString) (i : Nat) :
    Except LuaError (Disk h.windows × Option LuaString) := do
  let p ← joinTwo h.windows s.2 (slot parts i)
  match attributes h s.1 p with
  | none =>
    match lfsMkdir h rights s.1 p with
    | some disk => .ok (disk, some p)
    | none => .error (.thrown (bytes "lfs".toList) (rights.message s.1 p))
  | some .directory => .ok (s.1, some p)
  | some _ => .error existsError

/-- `fsutil.mkdir_m`: what is on the disk when it returns. -/
def mkdirM (h : Host) (rights : Rights h.windows) (B : Borders LuaString) (disk : Disk h.windows)
    (path : LuaString) : Fuelled LuaError (Disk h.windows) :=
  match attributes h disk path with
  | some .directory => pure disk
  | some _ => liftM (.error existsError : Except LuaError (Disk h.windows))
  | none => do
    let parts ← splitpath h.windows B path
    -- never try to create the initial . or /
    let s ← liftM ((List.range' 1 (B.border parts - 1)).foldlM (mkdirPass h rights parts)
      (disk, slot parts 0))
    pure s.1

/-! ## Walks that end in a directory -/

section Walks

variable {windows : Bool} {disk disk' : Disk windows} {s e l l' : Place windows}
  {comps : List LuaString}

theorem stepInto_directory {n : LuaString} (h : stepInto disk l n = some l') :
    disk.kind l = some .directory := by
  by_contra hno
  rw [stepInto, if_neg hno] at h
  cases h

/-- The components lead from a place to a directory. -/
def Walks (disk : Disk windows) (s : Place windows) (comps : List LuaString) (e : Place windows) :
    Prop :=
  comps.foldlM (stepInto disk) s = some e ∧ disk.kind e = some .directory

theorem Walks.start (h : Walks disk s comps e) : disk.kind s = some .directory := by
  cases comps with
  | nil =>
    obtain ⟨hfold, he⟩ := h
    cases hfold
    exact he
  | cons n comps =>
    obtain ⟨l, hl, -⟩ := Option.bind_eq_some_iff.mp h.1
    exact stepInto_directory hl

theorem walks_cons {n : LuaString} :
    Walks disk s (n :: comps) e ↔ ∃ l, stepInto disk s n = some l ∧ Walks disk l comps e := by
  simp only [Walks, List.foldlM_cons, Option.bind_eq_bind, Option.bind_eq_some_iff]
  constructor
  · rintro ⟨⟨l, hl, hrest⟩, he⟩
    exact ⟨l, hl, hrest, he⟩
  · rintro ⟨l, hl, hrest, he⟩
    exact ⟨⟨l, hl, hrest⟩, he⟩

/-- What is not empty and not a dot. -/
def solid (n : LuaString) : Bool := n ≠ [] ∧ n ≠ dot

theorem stepInto_not_solid {n : LuaString} (hn : solid n = false) :
    stepInto disk s n = if disk.kind s = some .directory then some s else none := by
  have hcases : n = [] ∨ n = dot := by
    by_contra h
    rw [not_or] at h
    simp [solid, h] at hn
  have hname : isName windows n = false := by
    obtain rfl | rfl := hcases <;> simp [isName]
  have hdots : n ≠ dotdot := by
    obtain rfl | rfl := hcases <;> decide
  simp [stepInto, hname, hdots]

/-- Components that are empty or a dot only ask for a directory. -/
theorem walks_iff_solid :
    Walks disk s comps e ↔
      disk.kind s = some .directory ∧ Walks disk s (comps.filter solid) e := by
  induction comps generalizing s with
  | nil => exact ⟨fun h => ⟨h.start, h⟩, fun h => h.2⟩
  | cons n comps ih =>
    cases hn : solid n with
    | false =>
      rw [List.filter_cons_of_neg (by simp [hn]), walks_cons, stepInto_not_solid hn]
      constructor
      · rintro ⟨l, hl, hrest⟩
        obtain ⟨hdir, hsame⟩ := Option.ite_none_right_eq_some.mp hl
        cases hsame
        exact ih.mp hrest
      · rintro ⟨hdir, hrest⟩
        exact ⟨s, by rw [if_pos hdir], ih.mpr ⟨hdir, hrest⟩⟩
    | true =>
      rw [List.filter_cons_of_pos (by simp [hn]), walks_cons, walks_cons]
      constructor
      · rintro ⟨l, hl, hrest⟩
        exact ⟨stepInto_directory hl, l, hl, (ih.mp hrest).2⟩
      · rintro ⟨-, l, hl, hrest⟩
        exact ⟨l, hl, ih.mpr ⟨hrest.start, hrest⟩⟩

/-- What is on the one disk is on the other. -/
def Keeps (disk disk' : Disk windows) : Prop := ∀ l k, disk.kind l = some k → disk'.kind l = some k

theorem stepInto_keeps (hk : Keeps disk disk') {n : LuaString} (h : stepInto disk l n = some l') :
    stepInto disk' l n = some l' := by
  have hdir := stepInto_directory h
  rw [stepInto, if_pos hdir] at h
  rw [stepInto, if_pos (hk l _ hdir)]
  split at h
  · rename_i hn
    obtain ⟨hsome, hl⟩ := Option.ite_none_right_eq_some.mp h
    obtain ⟨k, hkind⟩ := Option.isSome_iff_exists.mp hsome
    rw [dif_pos hn, hk _ k hkind]
    simpa using hl
  · rename_i hn
    rw [dif_neg hn]
    exact h

theorem foldlM_keeps (hk : Keeps disk disk') (h : comps.foldlM (stepInto disk) s = some e) :
    comps.foldlM (stepInto disk') s = some e := by
  induction comps generalizing s with
  | nil => exact h
  | cons n comps ih =>
    obtain ⟨l, hl, hrest⟩ := Option.bind_eq_some_iff.mp h
    exact Option.bind_eq_some_iff.mpr ⟨l, stepInto_keeps hk hl, ih hrest⟩

end Walks

section Attributes

variable {h : Host} {disk disk' : Disk h.windows} {path r : LuaString}

theorem attributes_directory_iff (hne : path ≠ []) :
    attributes h disk path = some .directory ↔
      ∃ e, Walks disk (startOf h path) (components h.windows path) e := by
  simp only [attributes, locate, if_neg hne, Option.bind_eq_some_iff, Walks]

theorem filter_dropDot (ns : List LuaString) :
    ((dropDot ns).filter fun n => n ≠ dot) = ns.filter fun n => n ≠ dot := by
  cases ns with
  | nil => rfl
  | cons n ns =>
    by_cases hn : n = dot
    · subst hn
      rw [dropDot_dot]
      cases ns <;> simp
    · rw [dropDot_other (by simpa using hn)]

/-- The components that count are names, other than dots. -/
theorem filter_solid (windows : Bool) (path : LuaString) :
    (components windows path).filter solid =
      (names (isDirSep windows) (splitdrive windows path).2).filter fun n => n ≠ dot := by
  rw [names, List.filter_filter, components]
  congr 1
  funext n
  cases n <;> simp [solid, dot]

theorem filter_components (windows : Bool) (path : LuaString) :
    (components windows path).filter solid =
      (meaning windows path).names.filter fun n => n ≠ dot := by
  rw [filter_solid]
  simp only [meaning]
  split
  · rw [filter_dropDot]
  · rfl

/-- Paths that mean the same name the same directory. -/
theorem attributes_meaning (hr : r ≠ []) (hne : path ≠ [])
    (hmean : meaning h.windows r = meaning h.windows path) :
    attributes h disk r = some .directory ↔ attributes h disk path = some .directory := by
  have hstart : ∀ path, startOf h path =
      h.origin (meaning h.windows path).drive (meaning h.windows path).absolute := fun path => rfl
  rw [attributes_directory_iff hr, attributes_directory_iff hne]
  simp only [@walks_iff_solid _ _ _ _ (components _ _), filter_components, hstart, hmean]

theorem Walks.append {windows : Bool} {disk : Disk windows} {s l e : Place windows}
    {comps comps' : List LuaString} (hl : comps.foldlM (stepInto disk) s = some l)
    (h : Walks disk l comps' e) : Walks disk s (comps ++ comps') e := by
  refine ⟨?_, h.2⟩
  rw [List.foldlM_append, hl]
  exact h.1

theorem keeps_addDirectory {windows : Bool} {disk : Disk windows} {l : Place windows}
    {n : FileName windows} (hl : disk.kind l = some .directory) (hn : disk.kind (l ++ [n]) = none) :
    Keeps disk (disk.addDirectory l n hl hn) := by
  intro m k hm
  rw [FileSystem.addDirectory_kind, if_neg]
  · exact hm
  · rintro rfl
    rw [hn] at hm
    cases hm

/-- What `lfs.mkdir` does: the last component becomes a directory. -/
theorem lfsMkdir_some {rights : Rights h.windows} (hmk : lfsMkdir h rights disk path = some disk') :
    ∃ comps name tail l, components h.windows path = comps ++ name :: tail ∧
      (∀ n ∈ tail, n = []) ∧ comps.foldlM (stepInto disk) (startOf h path) = some l ∧
      ∃ (hn : isName h.windows name) (hl : disk.kind l = some .directory)
        (hnone : disk.kind (l ++ [⟨name, hn⟩]) = none),
        disk' = disk.addDirectory l ⟨name, hn⟩ hl hnone := by
  obtain ⟨name, hname, hrest⟩ := Option.bind_eq_some_iff.mp hmk
  obtain ⟨l, hl, hadd⟩ := Option.bind_eq_some_iff.mp hrest
  have hwhole : ((components h.windows path).rdropWhile fun n => n = []) ++
      ((components h.windows path).rtakeWhile fun n => n = []) = components h.windows path :=
    List.rdropWhile_append_rtakeWhile
  rw [← List.dropLast_append_getLast? name hname, List.append_assoc] at hwhole
  refine ⟨_, name, _, l, hwhole.symm, fun n hn => by simpa using List.mem_rtakeWhile_imp hn, hl, ?_⟩
  split at hadd
  · rename_i hn
    split at hadd
    · rename_i hk
      split at hadd
      · cases hadd
      · exact ⟨hn, hk.1, hk.2, (Option.some.inj hadd).symm⟩
    · cases hadd
  · cases hadd

/-- A directory that was made is there under its path. -/
theorem attributes_lfsMkdir {rights : Rights h.windows}
    (hmk : lfsMkdir h rights disk path = some disk') :
    attributes h disk' path = some .directory := by
  obtain ⟨comps, name, tail, l, hcomps, htail, hwalk, hn, hl, hnone, rfl⟩ := lfsMkdir_some hmk
  have hkeeps := keeps_addDirectory hl hnone
  have hnew : (disk.addDirectory l ⟨name, hn⟩ hl hnone).kind (l ++ [⟨name, hn⟩]) =
      some .directory := by simp
  have hpart : IsPart h.windows name := FileName.isPart ⟨name, hn⟩
  have hne : path ≠ [] := by
    rintro rfl
    have hmem : name ∈ components h.windows [] := by simp [hcomps]
    exact hpart.ne_nil (by simpa [components, splitdrive] using hmem)
  have hstep : stepInto (disk.addDirectory l ⟨name, hn⟩ hl hnone) l name =
      some (l ++ [⟨name, hn⟩]) := by
    simp [stepInto, hn, hl]
  have hend : Walks (disk.addDirectory l ⟨name, hn⟩ hl hnone) (l ++ [⟨name, hn⟩]) tail
      (l ++ [⟨name, hn⟩]) := by
    have hnil : tail.filter solid = [] := by
      rw [List.filter_eq_nil_iff]
      intro n hn
      simp [solid, htail n hn]
    rw [walks_iff_solid, hnil]
    exact ⟨hnew, rfl, hnew⟩
  rw [attributes_directory_iff hne, hcomps]
  exact ⟨_, Walks.append (foldlM_keeps hkeeps hwalk) (walks_cons.mpr ⟨_, hstep, hend⟩)⟩

/-- A part that exists when the pass is over. -/
theorem mkdirPass_ok {rights : Rights h.windows} {parts : Slots LuaString} {i : Nat}
    {v : LuaString} {s : Disk h.windows × Option LuaString} (hv : slot parts i = some v)
    (hok : mkdirPass h rights parts (disk, some r) i = .ok s) :
    s.2 = some (joinPart h.windows r v) ∧
      attributes h s.1 (joinPart h.windows r v) = some .directory := by
  simp only [mkdirPass, hv, joinTwo, bind, Except.bind] at hok
  split at hok
  · split at hok
    · rename_i hmk
      cases hok
      exact ⟨rfl, attributes_lfsMkdir hmk⟩
    · cases hok
  · rename_i hdir
    cases hok
    exact ⟨rfl, hdir⟩
  · cases hok

/-- The loop over the parts behind the first one. -/
theorem mkdirLoop_ok {rights : Rights h.windows} {parts : Slots LuaString} {l : List LuaString}
    {i : Nat} (hparts : ∀ j, j < l.length → slot parts (i + j) = l[j]?)
    {s : Disk h.windows × Option LuaString}
    (hok : (List.range' i l.length).foldlM (mkdirPass h rights parts) (disk, some r) = .ok s) :
    (l = [] ∧ s.1 = disk) ∨
      attributes h s.1 (joinpath h.windows r l) = some .directory := by
  induction l generalizing i r disk with
  | nil =>
    cases hok
    exact .inl ⟨rfl, rfl⟩
  | cons v l ih =>
    rw [List.length_cons, List.range'_succ, List.foldlM_cons] at hok
    have hv : slot parts i = some v := hparts 0 (by simp)
    have hnext : ∀ j, j < l.length → slot parts (i + 1 + j) = l[j]? := by
      intro j hj
      have hslot := hparts (j + 1) (by simpa using hj)
      rwa [Nat.add_assoc, Nat.add_comm 1 j]
    cases hpass : mkdirPass h rights parts (disk, some r) i with
    | error e =>
      rw [hpass] at hok
      cases hok
    | ok s' =>
      obtain ⟨disk', p⟩ := s'
      obtain ⟨hp, hdir⟩ := mkdirPass_ok hv hpass
      simp only at hp hdir
      rw [hpass, hp] at hok
      right
      obtain ⟨rfl, hsame⟩ | hlast := ih hnext hok
      · rw [hsame]
        exact hdir
      · exact hlast

end Attributes

/-! ## What is left on the disk -/

/-- The call ends, and where it returns the path is a directory. -/
def MakesDirectory (h : Host) (rights : Rights h.windows) (B : Borders LuaString)
    (disk : Disk h.windows) (path : LuaString) : Prop :=
  (mkdirM h rights B disk path).Ends ∧
    ∀ disk', (mkdirM h rights B disk path).Yields disk' →
      attributes h disk' path = some .directory

section Mkdir

variable {h : Host} {rights : Rights h.windows} {B : Borders LuaString} {disk disk' : Disk h.windows}
  {path : LuaString}

theorem mkdirM_ends : (mkdirM h rights B disk path).Ends := by
  unfold mkdirM
  split
  · simp
  · simp
  · rw [ends_bind]
    obtain ⟨t, ht, -⟩ := same_splitpath B h.windows path
    refine ⟨ht.ends, fun t' _ => ?_⟩
    rw [ends_bind]
    exact ⟨ends_lift _, fun s _ => ends_pure _⟩

/-- What is made where the path did not exist. -/
theorem mkdirM_yields {l : List LuaString} {r : LuaString} (hl : splitList h.windows path = r :: l)
    (hnone : attributes h disk path = none) (hy : (mkdirM h rights B disk path).Yields disk') :
    (l = [] ∧ disk' = disk) ∨ attributes h disk' (joinpath h.windows r l) = some .directory := by
  simp only [mkdirM, hnone] at hy
  obtain ⟨parts, hparts, hrest⟩ := yields_bind.mp hy
  obtain ⟨s, hs, hdisk⟩ := yields_bind.mp hrest
  cases yields_pure.mp hdisk
  obtain ⟨t, ht, hsame⟩ := same_splitpath B h.windows path
  obtain rfl := ht.unique hparts
  rw [hl] at hsame
  have hborder : B.border t - 1 = l.length := by
    rw [border_of_same hsame (B.isBorder t)]
    rfl
  have hfirst : slot t 0 = some r := by
    rw [hsame 0, slot_ofList]
    rfl
  rw [yields_lift, hborder, hfirst] at hs
  refine mkdirLoop_ok (fun j hj => ?_) hs
  rw [hsame (1 + j), slot_ofList, Nat.add_comm]
  rfl

/-- Where there is one part nothing is made. -/
theorem mkdirM_first (hnone : attributes h disk path = none) {r : LuaString}
    (hl : splitList h.windows path = [r]) : (mkdirM h rights B disk path).Yields disk := by
  obtain ⟨t, ht, hsame⟩ := same_splitpath B h.windows path
  rw [hl] at hsame
  have hborder : B.border t - 1 = 0 := by
    rw [border_of_same hsame (B.isBorder t)]
    rfl
  simp only [mkdirM, hnone]
  refine yields_bind.mpr ⟨t, ht, yields_bind.mpr ⟨(disk, slot t 0), ?_, yields_pure.mpr rfl⟩⟩
  rw [yields_lift, hborder]
  rfl

/-- The path is kept, and what it begins with is a directory if there is nothing to make. -/
def MakesAll (h : Host) (disk : Disk h.windows) (path : LuaString) : Prop :=
  keepsNames h.windows path = true ∧
    (names (isDirSep h.windows) (splitdrive h.windows path).2 = [] ∨
      lost h.windows (splitdrive h.windows path).2 = true →
      disk.kind (startOf h path) = some .directory)

/-- Where nothing is made the names are dots. -/
theorem dots_of_one (hkeeps : keepsNames h.windows path = true)
    (hone : names (isDirSep h.windows) (splitdrive h.windows path).2 = [] ∨
      lost h.windows (splitdrive h.windows path).2 = true) :
    ∀ n ∈ names (isDirSep h.windows) (splitdrive h.windows path).2, n = dot := by
  obtain hnil | hlost := hone
  · simp [hnil]
  · simp only [keepsNames, hlost, Bool.not_true, Bool.false_eq_true, false_or,
      decide_eq_true_eq] at hkeeps
    obtain ⟨-, -, hdots | hdots⟩ := hkeeps <;> simp [hdots]

/-- A path that keeps its meaning has one part if it has no name or its last name is lost. -/
theorem one_part_iff (hkeeps : keepsNames h.windows path = true) :
    (∃ r, splitList h.windows path = [r]) ↔
      names (isDirSep h.windows) (splitdrive h.windows path).2 = [] ∨
        lost h.windows (splitdrive h.windows path).2 = true := by
  obtain ⟨drive, rest, hs⟩ : ∃ drive rest, splitdrive h.windows path = (drive, rest) := ⟨_, _, rfl⟩
  rw [splitList_eq hs, hs]
  constructor
  · rintro ⟨r, hr⟩
    by_contra hno
    rw [not_or, Bool.not_eq_true] at hno
    have hkept : kept h.windows rest = names (isDirSep h.windows) rest := by simp [kept, hno.2]
    rw [hkept] at hr
    split at hr
    · rename_i hdots
      rw [hr] at hdots
      simp at hdots
    · exact hno.1 (List.cons.inj hr).2
  · rintro (hnil | hlost)
    · simp only at hnil
      simp [hnil, kept]
    · simp only at hlost
      simp only [keepsNames, hs, hlost, Bool.not_true, Bool.false_eq_true, false_or,
        decide_eq_true_eq] at hkeeps
      obtain ⟨hdrive, hrel, hdots | hdots⟩ := hkeeps
      · simp [kept, hlost, hdots]
      · simp [kept, hlost, hdots, hdrive, hrel]

theorem start_of_attributes {k : Kind} (hattr : attributes h disk path = some k) :
    disk.kind (startOf h path) = some .directory := by
  obtain ⟨e, he, -⟩ := Option.bind_eq_some_iff.mp hattr
  rw [locate] at he
  split at he
  · cases he
  · obtain ⟨n, comps, hcomps⟩ : ∃ n comps, components h.windows path = n :: comps :=
      List.exists_cons_of_ne_nil (List.splitOnP_ne_nil _ _)
    rw [hcomps] at he
    obtain ⟨l, hl, -⟩ := Option.bind_eq_some_iff.mp he
    exact stepInto_directory hl

/-- Exactly the paths whose parts mean the path are made, once there is a start. -/
theorem makes_iff (hne : path ≠ [])
    (hdrive : (splitdrive h.windows path).1 ≠ [] →
      (splitdrive h.windows path).2.head?.any (isDirSep h.windows) = true) :
    Rejoins h.windows B path ∧ MakesDirectory h rights B disk path ↔ MakesAll h disk path := by
  rw [rejoins_iff_keepsNames h.windows B hne hdrive, MakesAll]
  refine and_congr_right fun hkeeps => ?_
  constructor
  · rintro ⟨-, hmakes⟩ hone
    cases hattr : attributes h disk path with
    | none =>
      obtain ⟨r, hr⟩ := (one_part_iff hkeeps).mpr hone
      rw [hmakes disk (mkdirM_first hattr hr)] at hattr
      cases hattr
    | some k => exact start_of_attributes hattr
  · intro hstart
    refine ⟨mkdirM_ends, fun disk' hy => ?_⟩
    cases hattr : attributes h disk path with
    | none =>
      obtain ⟨l, hl⟩ := splitList_first h.windows path
      obtain ⟨rfl, rfl⟩ | hmade := mkdirM_yields hl hattr hy
      · have hone := (one_part_iff hkeeps).mp ⟨_, hl⟩
        have hdots := dots_of_one hkeeps hone
        have hnil : (components h.windows path).filter solid = [] := by
          rw [filter_solid, List.filter_eq_nil_iff]
          intro n hn
          simp [hdots n hn]
        rw [attributes_directory_iff hne]
        refine ⟨startOf h path, walks_iff_solid.mpr ⟨hstart hone, ?_⟩⟩
        rw [hnil]
        exact ⟨rfl, hstart hone⟩
      · obtain ⟨r, hr, hmean⟩ := joined h.windows hne hdrive
        rw [hl] at hr
        obtain rfl : joinpath h.windows (PathSplit.start h.windows path) l = r := Option.some.inj hr
        have hr : joinpath h.windows (PathSplit.start h.windows path) l ≠ [] := by
          intro hnil
          rw [hnil] at hmade
          cases hmade
        exact (attributes_meaning hr hne (hmean.mpr hkeeps)).mp hmade
    | some k =>
      simp only [mkdirM, hattr] at hy
      cases k with
      | directory =>
        cases yields_pure.mp hy
        exact hattr
      | file => simp at hy
      | other => simp at hy

end Mkdir

/-! ## A name that is lost -/

/-- A host that makes every directory. -/
def willing (windows : Bool) : Rights windows := ⟨fun _ _ => false, fun _ _ => []⟩

end MkdirM
