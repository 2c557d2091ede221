import Chdkptp.FindFiles

/-!
# Deleting trees

`fsutil.rm_r` lists everything with `find_files` and then removes it path by path. The
listing has the entries `.` and `..` of every directory in it; they are told by the end
of their path.
-/

namespace RmR

open LuaValue LuaText FileTree FsUtil FindFiles

structure RmOpts where
  pretend : Bool
  verbose : Bool

/-- `in_paths`. -/
inductive InPaths where
  | path (p : LuaString)
  | paths (l : List LuaString)

def InPaths.list : InPaths → List LuaString
  | .path p => [p]
  | .paths l => l

inductive RmError where
  | find (e : FsError)
  /-- `find_files` found nothing, and `ipairs` is called with nil. -/
  | noPaths
  | remove (path : LuaString)
  deriving DecidableEq

inductive Call where
  | rmdir (path : LuaString)
  | remove (path : LuaString)
  deriving DecidableEq, Repr

def Call.path : Call → LuaString
  | .rmdir path => path
  | .remove path => path

/-- The text for `info_fn`. -/
def Call.info : Call → LuaString
  | .rmdir path => bytes "lfs.rmdir('".toList ++ path ++ bytes "')\n".toList
  | .remove path => bytes "os.remove('".toList ++ path ++ bytes "')\n".toList

def Call.run (h : Host) (disk : Disk h.windows) : Call → Option (Disk h.windows)
  | .rmdir path => FsUtil.rmdir h disk path
  | .remove path => osRemove h disk path

def callFor (h : Host) (disk : Disk h.windows) (path : LuaString) : Call :=
  if attributes h disk path = some .directory then .rmdir path else .remove path

/-- The disk afterwards, the removals that were made, the lines for `info_fn` and what
`error` was called with. -/
structure Outcome (windows : Bool) where
  disk : Disk windows
  made : List Call
  info : List LuaString
  error : Option RmError

def infoFor (opts : RmOpts) (call : Call) : List LuaString :=
  if opts.pretend ∨ opts.verbose then [call.info] else []

/-- The loop over the paths. -/
def removeAll (h : Host) (opts : RmOpts) : Disk h.windows → List LuaString → Outcome h.windows
  | disk, [] => ⟨disk, [], [], none⟩
  | disk, p :: paths =>
    if endsInDots p then removeAll h opts disk paths
    else
      let call := callFor h disk p
      if opts.pretend then
        let rest := removeAll h opts disk paths
        { rest with info := infoFor opts call ++ rest.info }
      else
        match call.run h disk with
        | none => ⟨disk, [], infoFor opts call, some (.remove p)⟩
        | some disk' =>
          let rest := removeAll h opts disk' paths
          { rest with made := call :: rest.made, info := infoFor opts call ++ rest.info }

/-- `fsutil.rm_r`. -/
def rmR (h : Host) (opts : RmOpts) (disk : Disk h.windows) (inPaths : InPaths) :
    Outcome h.windows :=
  match findFiles h disk findDefaults findFilesFullname inPaths.list with
  | .error e => ⟨disk, [], [], some (.find e)⟩
  | .ok none => ⟨disk, [], [], some .noPaths⟩
  | .ok (some paths) => removeAll h opts disk paths

/-! ## What is removed -/

variable {h : Host} {disk : Disk h.windows} {opts : RmOpts}

/-- Something that is there and empty can be removed by its path. -/
theorem callFor_run {path : LuaString} {l : Place h.windows} (hl : locate h disk path = some l)
    (hempty : disk.names l = []) (hthere : (disk.kind l).isSome) :
    (callFor h disk path).path = path ∧
      (callFor h disk path).run h disk = some (disk.remove l hempty) := by
  have hattr : attributes h disk path = disk.kind l := by simp [attributes, hl]
  have hunlink : disk.unlink l = some (disk.remove l hempty) := disk.unlink_empty hempty hthere
  unfold callFor
  rw [hattr]
  by_cases hdir : disk.kind l = some .directory
  · rw [if_pos hdir]
    exact ⟨rfl, by simp [Call.run, FsUtil.rmdir, hl, hdir, hunlink]⟩
  · rw [if_neg hdir]
    exact ⟨rfl, by simp [Call.run, osRemove, hl, hdir, hunlink]⟩

/-- These paths name these places, and go on naming them while others are removed. -/
def Names (h : Host) (disk : Disk h.windows) (paths : List LuaString)
    (places : List (Place h.windows)) : Prop :=
  List.Forall₂ (fun p l => Plain h.windows p ∧ locate h disk p = some l) paths places

theorem Names.remove {paths : List LuaString} {places : List (Place h.windows)}
    (hn : Names h disk paths places) {l : Place h.windows} (hempty : disk.names l = [])
    (hbeside : ∀ m ∈ places, ¬l <+: m) : Names h (disk.remove l hempty) paths places := by
  rw [Names, List.forall₂_iff_zip] at hn ⊢
  refine ⟨hn.1, fun hmem => ?_⟩
  obtain ⟨hplain, hplace⟩ := hn.2 hmem
  exact ⟨hplain, hplain.locate_remove hplace hempty (hbeside _ (List.of_mem_zip hmem).2)⟩

/-- The loop removes what its paths name, in the order of the paths. -/
theorem removeAll_removes (hopts : opts.pretend = false) (paths : List LuaString)
    (places : List (Place h.windows)) (hr : Removable disk places)
    (hn : Names h disk (paths.filter fun p => !endsInDots p) places) :
    (removeAll h opts disk paths).error = none ∧
      (removeAll h opts disk paths).made.map Call.path = paths.filter (fun p => !endsInDots p) ∧
      ∀ l, (removeAll h opts disk paths).disk.kind l =
        if l ∈ places then none else disk.kind l := by
  induction paths generalizing disk places with
  | nil =>
    cases hn
    exact ⟨rfl, rfl, fun l => by simp [removeAll]⟩
  | cons p paths ih =>
    by_cases hdots : endsInDots p = true
    · rw [List.filter_cons_of_neg (by simp [hdots])] at hn ⊢
      rw [removeAll, if_pos hdots]
      exact ih places hr hn
    · rw [List.filter_cons_of_pos (by simpa using hdots)] at hn ⊢
      cases places with
      | nil => cases hn
      | cons l places =>
        obtain ⟨⟨hplain, hplace⟩, hrest⟩ := List.forall₂_cons.mp hn
        have hempty := hr.head_empty
        obtain ⟨hpath, hrun⟩ := callFor_run hplace hempty (hr.there l (by simp))
        obtain ⟨herror, hmade, hkind⟩ :=
          ih places hr.tail (Names.remove hrest hempty (List.pairwise_cons.mp hr.order).1)
        rw [removeAll, if_neg hdots]
        simp only [hopts, Bool.false_eq_true, if_false, hrun]
        refine ⟨herror, by rw [List.map_cons, hpath, hmade], fun m => ?_⟩
        rw [hkind, FileSystem.remove_kind]
        by_cases hm : m = l
        · simp [hm]
        · simp [hm]

/-- What the walk covers can be removed in its order. -/
theorem removable_covers {roots : List (Place h.windows)} {items : List Cur}
    {places : List (Place h.windows)} (hc : Covers disk roots items places) :
    Removable disk places := by
  refine ⟨fun l hl => ((hc.mem l).mp hl).1, hc.nodup, fun l hl n hn => ?_, hc.order⟩
  obtain ⟨-, r, hr, hrl⟩ := (hc.mem l).mp hl
  exact (hc.mem _).mpr ⟨(disk.mem_names l n).mp hn, r, hr, hrl.trans (List.prefix_append l [n])⟩

theorem rmR_found {inPaths : InPaths} {items : List Cur}
    (hitems : (inPaths.list.mapM (singleitem h disk findDefaults 101 [])).map List.flatten =
      .ok items) :
    rmR h opts disk inPaths =
      if (items.map Cur.full).isEmpty then ⟨disk, [], [], some .noPaths⟩
      else removeAll h opts disk (items.map Cur.full) := by
  have hfound : findFiles h disk findDefaults findFilesFullname inPaths.list =
      .ok (stored (items.map Cur.full)) := by
    cases hm : inPaths.list.mapM (singleitem h disk findDefaults 101 []) with
    | error e =>
      rw [hm] at hitems
      cases hitems
    | ok found =>
      rw [hm] at hitems
      cases hitems
      exact congrArg (Except.map fun items => stored (items.flatten.map findFilesFullname)) hm
  rw [rmR, hfound, stored]
  by_cases hempty : (items.map Cur.full).isEmpty = true
  · rw [if_pos hempty, if_pos hempty]
  · rw [if_neg hempty, if_neg hempty]

theorem Covers.names {roots : List (Place h.windows)} {items : List Cur}
    {places : List (Place h.windows)} (hc : Covers disk roots items places) :
    Names h disk ((items.map Cur.full).filter fun p => !endsInDots p) places := by
  rw [Names, List.filter_map, List.forall₂_map_left_iff]
  exact hc.located

/-- `rm_r` removes what is at and below its paths, every directory behind its contents,
and nothing else, when nothing is nested too deep for `find_files`. -/
theorem rm_r_removes (h : Host) (opts : RmOpts) (disk : Disk h.windows) (inPaths : InPaths)
    (hopts : opts.pretend = false)
    (hpaths : ∀ p ∈ inPaths.list, Plain h.windows p ∧ (locate h disk p).isSome)
    (hapart : inPaths.list.Pairwise fun p q =>
      ∀ a ∈ locate h disk p, ∀ b ∈ locate h disk q, Apart a b)
    (hkinds : ∀ l, Below disk (inPaths.list.filterMap (locate h disk)) l →
      disk.kind l ≠ some .other)
    (hdepth : ∀ r ∈ inPaths.list.filterMap (locate h disk), ∀ l, r <+: l →
      (disk.kind l).isSome → l.length ≤ r.length + 100) :
    ∃ removed : List (Place h.windows),
      List.Forall₂ (fun call l => locate h disk call.path = some l)
        (rmR h opts disk inPaths).made removed ∧
      (∀ l, l ∈ removed ↔ Below disk (inPaths.list.filterMap (locate h disk)) l) ∧
      removed.Nodup ∧
      (removed.Pairwise fun a b => ¬a <+: b) ∧
      (∀ l, (rmR h opts disk inPaths).disk.kind l = if l ∈ removed then none else disk.kind l) ∧
      ((rmR h opts disk inPaths).error = none ↔ inPaths.list ≠ []) := by
  obtain ⟨items, removed, hitems, hc⟩ :=
    walk_covers takesAll_findDefaults inPaths.list hpaths hapart hkinds hdepth
  have hnames : Names h disk ((items.map Cur.full).filter fun p => !endsInDots p) removed :=
    Covers.names hc
  rw [rmR_found hitems]
  by_cases hempty : (items.map Cur.full).isEmpty = true
  · have hnone : items = [] := by simpa using hempty
    subst hnone
    cases hnames
    have hlist : inPaths.list = [] := by
      refine List.eq_nil_iff_forall_not_mem.mpr fun p hp => ?_
      obtain ⟨hplain, hsome⟩ := hpaths p hp
      obtain ⟨l, hl⟩ := Option.isSome_iff_exists.mp hsome
      have hbelow : Below disk (inPaths.list.filterMap (locate h disk)) l :=
        ⟨hplain.there hl, l, List.mem_filterMap.mpr ⟨p, hp, hl⟩, List.prefix_rfl⟩
      cases (hc.mem l).mpr hbelow
    exact ⟨[], .nil, hc.mem, hc.nodup, hc.order, fun l => by simp, by simp [hlist]⟩
  · rw [if_neg hempty]
    obtain ⟨herror, hmade, hkind⟩ :=
      removeAll_removes hopts (items.map Cur.full) removed (removable_covers hc) hnames
    have hlist : inPaths.list ≠ [] := by
      intro hlist
      rw [hlist] at hitems
      cases hitems
      exact hempty rfl
    refine ⟨removed, ?_, hc.mem, hc.nodup, hc.order, hkind, by simp [herror, hlist]⟩
    rw [← hmade, Names, List.forall₂_map_left_iff] at hnames
    exact hnames.imp fun call l hcall => hcall.2

/-- A host with one root, which is the current directory, and sorted directories. -/
def sortedHost : Host := ⟨false, fun _ _ => [], fun _ names => names, fun _ names => .refl names⟩

/-- The file name `d`. -/
def nameD : FileName sortedHost.windows := ⟨[100], by decide⟩

theorem plain_d : Plain sortedHost.windows [100] :=
  ⟨by decide, by decide, by decide, by decide⟩

theorem locate_d (depth : Nat) : locate sortedHost (chain nameD (depth + 1)) [100] = some [nameD] := by
  have hcomps : components sortedHost.windows [100] = [[100]] := by decide
  have hroot : (chain nameD (depth + 1)).kind [] = some .directory := by simp [chain, chainKind]
  have hchild : ((chain nameD (depth + 1)).kind [nameD]).isSome = true := by
    simp [chain, chainKind]
  have hstep : stepInto (chain nameD (depth + 1)) [] [100] = some [nameD] := by
    have hname : isName sortedHost.windows [100] = true := by decide
    rw [stepInto, if_pos hroot, dif_pos hname]
    exact if_pos hchild
  rw [locate, if_neg (List.cons_ne_nil _ _), hcomps]
  exact (List.foldlM_cons ..).trans (by rw [show startOf sortedHost [100] = [] from rfl, hstep]; rfl)

/-- A directory `d` with another one in it. -/
theorem rm_r_removes_witness :
    ∃ removed : List (Place sortedHost.windows),
      List.Forall₂ (fun call l => locate sortedHost (chain nameD 2) call.path = some l)
        (rmR sortedHost ⟨false, false⟩ (chain nameD 2) (.path [100])).made removed ∧
      (∀ l, l ∈ removed ↔
        Below (chain nameD 2) (([[100]] : List LuaString).filterMap
          (locate sortedHost (chain nameD 2))) l) ∧
      removed.Nodup ∧
      (removed.Pairwise fun a b => ¬a <+: b) ∧
      (∀ l, (rmR sortedHost ⟨false, false⟩ (chain nameD 2) (.path [100])).disk.kind l =
        if l ∈ removed then none else (chain nameD 2).kind l) ∧
      ((rmR sortedHost ⟨false, false⟩ (chain nameD 2) (.path [100])).error = none ↔
        ([[100]] : List LuaString) ≠ []) := by
  refine rm_r_removes sortedHost ⟨false, false⟩ (chain nameD 2) (.path [100]) rfl
    (fun p hp => ?_) (List.pairwise_singleton _ _) (fun l hl hother => ?_) fun r hr l hl hthere => ?_
  · rw [List.mem_singleton.mp hp]
    exact ⟨plain_d, by simp [locate_d 1]⟩
  · simp only [chain, chainKind] at hother
    split at hother <;> cases hother
  · have hlen : l.length ≤ 2 := by
      by_contra hlen
      simp [chain, chainKind, hlen] at hthere
    omega

/-! ## The limit of the depth -/

theorem callFor_keeps {path : LuaString} {disk' : Disk h.windows} {m : Place h.windows}
    (hm : reach h path < m.length) (hrun : (callFor h disk path).run h disk = some disk') :
    disk'.kind m = disk.kind m := by
  obtain ⟨l, hl, hunlink⟩ : ∃ l, locate h disk path = some l ∧ disk.unlink l = some disk' := by
    unfold callFor at hrun
    split at hrun
    · obtain ⟨l, hl, hrun⟩ := Option.bind_eq_some_iff.mp hrun
      split at hrun
      · exact ⟨l, hl, hrun⟩
      · cases hrun
    · obtain ⟨l, hl, hrun⟩ := Option.bind_eq_some_iff.mp hrun
      split at hrun
      · cases hrun
      · exact ⟨l, hl, hrun⟩
  obtain ⟨hempty, rfl, -⟩ := FileSystem.unlink_some hunlink
  have hne : m ≠ l := by
    rintro rfl
    exact absurd (locate_length hl) (by omega)
  rw [FileSystem.remove_kind, if_neg hne]

theorem removeAll_keeps (paths : List LuaString) {m : Place h.windows}
    (hpaths : ∀ p ∈ paths, reach h p < m.length) :
    (removeAll h opts disk paths).disk.kind m = disk.kind m := by
  induction paths generalizing disk with
  | nil => rfl
  | cons p paths ih =>
    have hrest : ∀ p ∈ paths, reach h p < m.length := fun q hq =>
      hpaths q (List.mem_cons_of_mem p hq)
    rw [removeAll]
    split
    · exact ih hrest
    · dsimp only
      split
      · exact ih hrest
      · split
        · rfl
        · rename_i disk' hrun
          exact (ih hrest).trans (callFor_keeps (hpaths p (by simp)) hrun)

/-- What lies too deep below every path that is passed in is left. -/
theorem rm_r_keeps (inPaths : InPaths) {m : Place h.windows}
    (hpaths : ∀ p ∈ inPaths.list, (splitdrive h.windows p).2 ≠ [] ∧ reach h p + 100 < m.length) :
    (rmR h opts disk inPaths).disk.kind m = disk.kind m := by
  cases hm : inPaths.list.mapM (singleitem h disk findDefaults 101 []) with
  | error e =>
    have hfound : findFiles h disk findDefaults findFilesFullname inPaths.list = .error e :=
      congrArg (Except.map fun items : List (List Cur) =>
        stored (items.flatten.map findFilesFullname)) hm
    rw [rmR, hfound]
  | ok found =>
    rw [rmR_found (congrArg (Except.map List.flatten) hm)]
    split
    · rfl
    · refine removeAll_keeps _ fun p hp => ?_
      obtain ⟨cur, hcur, rfl⟩ := List.mem_map.mp hp
      obtain ⟨q, hq, items, hitems, hcur⟩ := mem_mapM (congrArg (Except.map List.flatten) hm) hcur
      obtain ⟨hrest, hdeep⟩ := hpaths q hq
      have hreach := singleitem_reach 100 [] q items rfl hrest hitems cur hcur
      omega

/-- Of directories nested 102 deep the innermost one is left. -/
theorem deep_tree_kept :
    Plain sortedHost.windows [100] ∧
    locate sortedHost (chain nameD 102) [100] = some [nameD] ∧
    Below (chain nameD 102) [[nameD]] (List.replicate 102 nameD) ∧
    (rmR sortedHost ⟨false, false⟩ (chain nameD 102) (.path [100])).disk.kind
      (List.replicate 102 nameD) = some .directory := by
  have hthere : (chain nameD 102).kind (List.replicate 102 nameD) = some .directory := by
    simp [chain, chainKind]
  have hreach : reach sortedHost [100] + 100 < (List.replicate 102 nameD).length := by
    rw [List.length_replicate]
    decide
  refine ⟨plain_d, locate_d 101, ⟨by rw [hthere]; rfl, [nameD], by simp, ?_⟩, ?_⟩
  · exact List.prefix_append [nameD] (List.replicate 101 nameD)
  · rw [rm_r_keeps (.path [100]) fun p hp => ?_, hthere]
    rw [List.mem_singleton.mp hp]
    exact ⟨by decide, hreach⟩

end RmR
