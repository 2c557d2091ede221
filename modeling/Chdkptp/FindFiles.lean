import Chdkptp.FsUtil

/-!
# Walking directories

`fs_iter` and `fsutil.find_files`. A directory lists itself and its parent among its
entries; they are items like any other, and only the test in `can_recurse` keeps the
walk from following them.
-/

namespace FindFiles

open LuaValue LuaText FileTree FsUtil

/-- `self.cur`. -/
structure Cur where
  mode : Kind
  full : LuaString
  name : LuaString
  path : List LuaString
  deriving DecidableEq, Repr

/-- The options of `find_files`; patterns are predicates. -/
structure FindOpts where
  dirs : Bool
  dirsfirst : Bool
  maxdepth : Nat
  fmatch : Option (LuaString → Bool)
  dmatch : Option (LuaString → Bool)
  rmatch : Option (LuaString → Bool)
  fsfx : Option LuaString
  fsfxIc : Bool
  martians : Bool

def findDefaults : FindOpts where
  dirs := true
  dirsfirst := false
  maxdepth := 100
  fmatch := none
  dmatch := none
  rmatch := none
  fsfx := none
  fsfxIc := true
  martians := false

inductive FsError where
  /-- `lfs.attributes` fails, and `errlib` throws. -/
  | attributes (path : LuaString)
  | dir (path : LuaString)
  | stackOverflow
  deriving DecidableEq, Repr

/-- `fs_iter:can_recurse`. -/
def canRecurse (rpath : List LuaString) (cur : Cur) : Bool :=
  if cur.mode ≠ .directory ∨ cur.name = dotdot then false
  -- the directory that is passed in may be the current one
  else if rpath.length ≠ 0 ∧ cur.name = dot then false
  else true

def checkFsfx (opts : FindOpts) (cur : Cur) : Bool :=
  match opts.fsfx with
  | none => true
  | some fsfx =>
    if opts.fsfxIc then subEnd (lower cur.full) fsfx.length = lower fsfx
    else subEnd cur.full fsfx.length = fsfx

def checkMatch (opts : FindOpts) (cur : Cur) : Bool :=
  match cur.mode with
  | .file => opts.fmatch.all (fun matches_ => matches_ cur.full) && checkFsfx opts cur
  | .directory => opts.dmatch.all fun matches_ => matches_ cur.full
  | .other => opts.martians

/-- What `ff_item` hands to `ff_func`. -/
def ffItem (opts : FindOpts) (cur : Cur) : List Cur := if checkMatch opts cur then [cur] else []

/-- The `callback` of `find_files`; `recurse` is what `self:recurse()` finds. -/
def callback (opts : FindOpts) (rpath : List LuaString)
    (recurse : Cur → Except FsError (List Cur)) (cur : Cur) : Except FsError (List Cur) :=
  if cur.mode = .directory then
    let before := if opts.dirs ∧ opts.dirsfirst then ffItem opts cur else []
    let after := if opts.dirs ∧ ¬opts.dirsfirst then ffItem opts cur else []
    if rpath.length < opts.maxdepth ∧ canRecurse rpath cur ∧
        opts.rmatch.all (fun matches_ => matches_ cur.full) then
      (recurse cur).map fun inside => before ++ inside ++ after
    else .ok (before ++ after)
  else .ok (ffItem opts cur)

/-- What `fs_iter:singleitem` makes the current item. -/
def curOf (windows : Bool) (mode : Kind) (rpath : List LuaString) (path : LuaString) : Cur :=
  let name := (basename windows path).getD path
  { mode, full := path, name, path := if rpath.length = 0 then [path] else rpath ++ [name] }

/-- `fs_iter:singleitem`, whose calls may be nested that deep. The directory's loop is
`fs_iter:singledir`. -/
def singleitem (h : Host) (disk : Disk h.windows) (opts : FindOpts) :
    Nat → List LuaString → LuaString → Except FsError (List Cur)
  | 0, _, _ => .error .stackOverflow
  | limit + 1, rpath, path =>
    match attributes h disk path with
    | none => .error (.attributes path)
    | some mode =>
      callback opts rpath (fun cur =>
        match lfsDir h disk cur.full with
        | none => .error (.dir cur.full)
        | some names =>
          (names.mapM fun name => singleitem h disk opts limit (rpath ++ cur.path.getLast?.toList)
            (joinpath h.windows cur.full [name])).map List.flatten)
        (curOf h.windows mode rpath path)

/-- `results`, which `ff_store` makes when it stores the first item. -/
def stored {α : Type} (results : List α) : Option (List α) :=
  if results.isEmpty then none else some results

/-- `fs_iter.run` with what `find_files` passes to it. -/
def findFiles {α : Type} (h : Host) (disk : Disk h.windows) (opts : FindOpts) (func : Cur → α)
    (paths : List LuaString) : Except FsError (Option (List α)) :=
  (paths.mapM (singleitem h disk opts (opts.maxdepth + 1) [])).map fun items =>
    stored (items.flatten.map func)

/-- `fsutil.find_files_fullname_fn`. -/
def findFilesFullname (cur : Cur) : LuaString := cur.full

/-! ## Every item once, contents first -/

section Walk

variable {h : Host}

/-- These items are all there is at and below these places, each once and behind what
is in it, and some of the directories' own entries. -/
structure Covers (disk : Disk h.windows) (roots : List (Place h.windows)) (items : List Cur)
    (places : List (Place h.windows)) : Prop where
  located : List.Forall₂ (fun cur l => Plain h.windows cur.full ∧ locate h disk cur.full = some l)
    (items.filter fun cur => !endsInDots cur.full) places
  nodup : places.Nodup
  order : places.Pairwise fun a b => ¬a <+: b
  mem : ∀ l, l ∈ places ↔ Below disk roots l

variable {disk : Disk h.windows}

theorem covers_dots {cur : Cur} (hcur : endsInDots cur.full = true) :
    Covers disk [] [cur] [] := by
  refine ⟨by simp [hcur], List.nodup_nil, List.Pairwise.nil, fun l => ?_⟩
  simp [Below]

theorem Covers.append {roots roots' : List (Place h.windows)} {items items' : List Cur}
    {places places' : List (Place h.windows)} (hc : Covers disk roots items places)
    (hc' : Covers disk roots' items' places')
    (hapart : ∀ a ∈ roots, ∀ b ∈ roots', Apart a b) :
    Covers disk (roots ++ roots') (items ++ items') (places ++ places') := by
  have hbeside : ∀ l ∈ places, ∀ m ∈ places', ¬l <+: m := by
    intro l hl m hm
    obtain ⟨-, a, ha, hal⟩ := (hc.mem l).mp hl
    obtain ⟨-, b, hb, hbm⟩ := (hc'.mem m).mp hm
    exact (hapart a ha b hb).below hal hbm
  constructor
  · rw [List.filter_append]
    exact List.rel_append hc.located hc'.located
  · rw [List.nodup_append]
    refine ⟨hc.nodup, hc'.nodup, ?_⟩
    rintro l hl m hm rfl
    exact hbeside l hl l hm List.prefix_rfl
  · exact List.pairwise_append.mpr ⟨hc.order, hc'.order, hbeside⟩
  · intro l
    rw [List.mem_append, hc.mem, hc'.mem]
    simp only [Below, List.mem_append, or_and_right, exists_or, and_or_left]

/-- A directory behind all that is in it. -/
theorem Covers.behind {l : Place h.windows} {items : List Cur} {places : List (Place h.windows)}
    {roots : List (Place h.windows)} {cur : Cur} (hc : Covers disk roots items places)
    (hroots : ∀ r, r ∈ roots ↔ ∃ n ∈ disk.names l, r = l ++ [n])
    (hp : Plain h.windows cur.full) (hl : locate h disk cur.full = some l) :
    Covers disk [l] (items ++ [cur]) (places ++ [l]) := by
  have hinside : ∀ m ∈ places, ∃ n, l ++ [n] <+: m := by
    intro m hm
    obtain ⟨-, r, hr, hrm⟩ := (hc.mem m).mp hm
    obtain ⟨n, -, rfl⟩ := (hroots r).mp hr
    exact ⟨n, hrm⟩
  have habove : ∀ m ∈ places, ¬m <+: l := by
    intro m hm hml
    obtain ⟨n, hn⟩ := hinside m hm
    have hlen := (hn.trans hml).length_le
    rw [List.length_append, List.length_singleton] at hlen
    omega
  constructor
  · rw [List.filter_append]
    refine List.rel_append hc.located ?_
    simpa [hp.shown] using ⟨hp, hl⟩
  · rw [List.nodup_append]
    refine ⟨hc.nodup, List.nodup_singleton l, ?_⟩
    intro m hm l' hl' heq
    rw [List.mem_singleton.mp hl'] at heq
    exact habove m hm (heq ▸ List.prefix_rfl)
  · refine List.pairwise_append.mpr ⟨hc.order, List.pairwise_singleton _ l, ?_⟩
    intro m hm l' hl'
    rw [List.mem_singleton.mp hl']
    exact habove m hm
  · intro m
    rw [List.mem_append, hc.mem, List.mem_singleton]
    constructor
    · rintro (⟨hm, r, hr, hrm⟩ | rfl)
      · obtain ⟨n, -, rfl⟩ := (hroots r).mp hr
        exact ⟨hm, l, by simp, (List.prefix_append l [n]).trans hrm⟩
      · exact ⟨hp.there hl, m, by simp, List.prefix_rfl⟩
    · rintro ⟨hm, r, hr, hrm⟩
      rw [List.mem_singleton.mp hr] at hrm
      rcases below_cases disk hm hrm with rfl | ⟨n, hn, hnm⟩
      · exact .inr rfl
      · exact .inl ⟨hm, l ++ [n], (hroots _).mpr ⟨n, hn, rfl⟩, hnm⟩

theorem covers_nil : Covers disk [] [] [] :=
  ⟨.nil, List.nodup_nil, List.Pairwise.nil, fun l => by simp [Below]⟩

/-- The loops over a directory and over the paths that are passed in. -/
theorem mapM_covers {α : Type} {f : α → Except FsError (List Cur)}
    (rootsOf : α → List (Place h.windows)) (l : List α)
    (hf : ∀ a ∈ l, ∃ items places, f a = .ok items ∧ Covers disk (rootsOf a) items places)
    (hapart : l.Pairwise fun a b => ∀ x ∈ rootsOf a, ∀ y ∈ rootsOf b, Apart x y) :
    ∃ items places, (l.mapM f).map List.flatten = .ok items ∧
      Covers disk (l.flatMap rootsOf) items places := by
  induction l with
  | nil => exact ⟨[], [], rfl, covers_nil⟩
  | cons a l ih =>
    obtain ⟨hfirst, hrest⟩ := List.pairwise_cons.mp hapart
    obtain ⟨items, places, ha, hc⟩ := hf a (by simp)
    obtain ⟨items', places', hl, hc'⟩ := ih (fun b hb => hf b (List.mem_cons_of_mem a hb)) hrest
    refine ⟨items ++ items', places ++ places', ?_, ?_⟩
    · cases hm : l.mapM f with
      | error e =>
        rw [hm] at hl
        cases hl
      | ok more =>
        rw [hm] at hl
        cases hl
        rw [List.mapM_cons, ha, hm]
        rfl
    · rw [List.flatMap_cons]
      refine hc.append hc' fun x hx y hy => ?_
      obtain ⟨b, hb, hyb⟩ := List.mem_flatMap.mp hy
      exact hfirst b hb x hx y hyb

/-! ## The walk -/

/-- Options with which every file and every directory is stored, behind its contents. -/
structure TakesAll (opts : FindOpts) : Prop where
  dirs : opts.dirs = true
  dirsfirst : opts.dirsfirst = false
  fmatch : opts.fmatch = none
  dmatch : opts.dmatch = none
  rmatch : opts.rmatch = none
  fsfx : opts.fsfx = none

theorem takesAll_findDefaults : TakesAll findDefaults := ⟨rfl, rfl, rfl, rfl, rfl, rfl⟩

variable {opts : FindOpts}

theorem TakesAll.ffItem (ho : TakesAll opts) {cur : Cur} (hmode : cur.mode ≠ .other) :
    ffItem opts cur = [cur] := by
  cases hm : cur.mode with
  | file => simp [FindFiles.ffItem, checkMatch, hm, ho.fmatch, checkFsfx, ho.fsfx]
  | directory => simp [FindFiles.ffItem, checkMatch, hm, ho.dmatch]
  | other => exact absurd hm hmode

theorem TakesAll.callback_item (ho : TakesAll opts) {rpath : List LuaString}
    {recurse : Cur → Except FsError (List Cur)} {cur : Cur} (hmode : cur.mode ≠ .other)
    (hstay : cur.mode = .directory → ¬(rpath.length < opts.maxdepth ∧ canRecurse rpath cur = true)) :
    callback opts rpath recurse cur = .ok [cur] := by
  by_cases hdir : cur.mode = .directory
  · have hnot := hstay hdir
    rw [not_and] at hnot
    simp +contextual [callback, hdir, ho.dirs, ho.dirsfirst, ho.rmatch, ho.ffItem hmode, hnot]
  · simp [callback, hdir, ho.ffItem hmode]

theorem TakesAll.callback_recurse (ho : TakesAll opts) {rpath : List LuaString}
    {recurse : Cur → Except FsError (List Cur)} {cur : Cur} (hmode : cur.mode = .directory)
    (hdepth : rpath.length < opts.maxdepth) (hcan : canRecurse rpath cur = true) :
    callback opts rpath recurse cur = (recurse cur).map fun inside => inside ++ [cur] := by
  have hitem : FindFiles.ffItem opts cur = [cur] := ho.ffItem (by simp [hmode])
  simp [callback, hmode, hdepth, hcan, ho.dirs, ho.dirsfirst, ho.rmatch, hitem]

theorem curOf_path_ne (windows : Bool) (mode : Kind) (rpath : List LuaString) (path : LuaString) :
    ∃ last, (curOf windows mode rpath path).path.getLast? = some last := by
  cases rpath with
  | nil => exact ⟨path, rfl⟩
  | cons r rpath => exact ⟨_, by simp only [curOf]; rw [if_neg (by simp), List.getLast?_concat]⟩

/-- A directory's own entries are listed and not followed. -/
theorem singleitem_dots (ho : TakesAll opts) {rpath : List LuaString} (hrpath : rpath ≠ [])
    {path n : LuaString} {l : Place h.windows} (hrest : (splitdrive h.windows path).2 ≠ [])
    (hl : locate h disk path = some l) (hdir : disk.kind l = some .directory)
    (hn : n = dot ∨ n = dotdot) (limit : Nat) :
    ∃ cur, singleitem h disk opts (limit + 1) rpath (joinPart h.windows path n) = .ok [cur] ∧
      cur.full = joinPart h.windows path n := by
  have hpart := isPart_dots h.windows hn
  have hmode : attributes h disk (joinPart h.windows path n) = some .directory := by
    rw [attributes, locate_joinPart hrest hl hpart]
    rcases hn with rfl | rfl
    · simp [stepInto, hdir, isName, dot, dotdot]
    · have hup : disk.kind l.dropLast = some .directory := by
        cases l using List.reverseRecOn with
        | nil => exact hdir
        | append_singleton l n => simpa using disk.parent l n (by simp [hdir])
      simp [stepInto, hdir, isName, hup]
  have hname : (curOf h.windows .directory rpath (joinPart h.windows path n)).name = n := by
    simp [curOf, basename_joinPart hrest hpart]
  refine ⟨curOf h.windows .directory rpath (joinPart h.windows path n), ?_, rfl⟩
  rw [singleitem, hmode]
  refine ho.callback_item (by simp [curOf]) fun _ => ?_
  rcases hn with hn | hn
  · rw [hn] at hname ⊢
    simp [canRecurse, hname, hrpath]
  · rw [hn] at hname ⊢
    simp [canRecurse, hname]

/-- What `lfs.dir` lists of a directory at a place. -/
def listing (h : Host) (disk : Disk h.windows) (path : LuaString) (l : Place h.windows) :
    List LuaString :=
  h.order path (dot :: dotdot :: (disk.names l).map Subtype.val)

theorem mem_listing {path name : LuaString} {l : Place h.windows} :
    name ∈ listing h disk path l ↔
      (name = dot ∨ name = dotdot) ∨ ∃ n ∈ disk.names l, n.val = name := by
  rw [listing, (h.order_perm path _).mem_iff, List.mem_cons, List.mem_cons, List.mem_map,
    or_assoc]

theorem listing_nodup (path : LuaString) (l : Place h.windows) :
    (listing h disk path l).Nodup := by
  rw [listing, (h.order_perm path _).nodup_iff]
  have hnames : ((disk.names l).map Subtype.val).Nodup :=
    (disk.nodup l).map Subtype.val_injective
  have hdot : dot ∉ (disk.names l).map Subtype.val := by
    intro hmem
    obtain ⟨n, -, hn⟩ := List.mem_map.mp hmem
    exact FileName.ne_dot n hn
  have hdotdot : dotdot ∉ (disk.names l).map Subtype.val := by
    intro hmem
    obtain ⟨n, -, hn⟩ := List.mem_map.mp hmem
    exact FileName.ne_dotdot n hn
  have hne : dot ≠ dotdot := by simp [dot, dotdot]
  refine List.nodup_cons.mpr ⟨?_, List.nodup_cons.mpr ⟨hdotdot, hnames⟩⟩
  rw [List.mem_cons, not_or]
  exact ⟨hne, hdot⟩

/-- Where the entries of a directory lead the walk on. -/
def entryRoots (l : Place h.windows) (name : LuaString) : List (Place h.windows) :=
  if hn : isName h.windows name then [l ++ [⟨name, hn⟩]] else []

@[simp] theorem entryRoots_name (l : Place h.windows) (n : FileName h.windows) :
    entryRoots l n.val = [l ++ [n]] := by
  simp [entryRoots, n.property]

theorem entryRoots_dots (l : Place h.windows) {name : LuaString}
    (hn : name = dot ∨ name = dotdot) : entryRoots l name = [] := by
  rcases hn with rfl | rfl <;> simp [entryRoots, isName]

theorem entryRoots_apart (l : Place h.windows) {a b : LuaString} (hab : a ≠ b) :
    ∀ x ∈ entryRoots l a, ∀ y ∈ entryRoots l b, Apart x y := by
  intro x hx y hy
  unfold entryRoots at hx hy
  split at hx
  · split at hy
    · rw [List.mem_singleton.mp hx, List.mem_singleton.mp hy]
      exact apart_children l fun heq => hab (congrArg Subtype.val heq)
    · cases hy
  · cases hx

theorem mem_entryRoots {path : LuaString} {l r : Place h.windows} :
    r ∈ (listing h disk path l).flatMap (entryRoots l) ↔ ∃ n ∈ disk.names l, r = l ++ [n] := by
  rw [List.mem_flatMap]
  constructor
  · rintro ⟨name, hmem, hr⟩
    rcases mem_listing.mp hmem with hdots | ⟨n, hn, rfl⟩
    · rw [entryRoots_dots l hdots] at hr
      cases hr
    · rw [entryRoots_name] at hr
      exact ⟨n, hn, List.mem_singleton.mp hr⟩
  · rintro ⟨n, hn, rfl⟩
    exact ⟨n.val, mem_listing.mpr (.inr ⟨n, hn, rfl⟩), by simp⟩

/-- An item with nothing in it. -/
theorem singleitem_leaf (ho : TakesAll opts) {rpath : List LuaString} {path : LuaString}
    {l : Place h.windows} {mode : Kind} (hp : Plain h.windows path)
    (hl : locate h disk path = some l) (hmode : disk.kind l = some mode) (hother : mode ≠ .other)
    (hempty : disk.names l = [])
    (hstay : mode = .directory → ¬rpath.length < opts.maxdepth) (limit : Nat) :
    ∃ items places, singleitem h disk opts (limit + 1) rpath path = .ok items ∧
      Covers disk [l] items places := by
  have hattr : attributes h disk path = some mode := by simp [attributes, hl, hmode]
  refine ⟨[curOf h.windows mode rpath path], [l], ?_,
    covers_nil.behind (by simp [hempty]) hp hl⟩
  rw [singleitem, hattr]
  exact ho.callback_item hother fun hdir hrec => hstay hdir hrec.1

/-- The walk from a path stores what is there, when no level lies too deep. -/
theorem singleitem_covers (ho : TakesAll opts) (left : Nat) (rpath : List LuaString)
    (path : LuaString) (l : Place h.windows) (hleft : rpath.length + left = opts.maxdepth)
    (hp : Plain h.windows path) (hl : locate h disk path = some l)
    (hcan : canRecurse rpath (curOf h.windows .directory rpath path) = true)
    (hkinds : ∀ m, l <+: m → disk.kind m ≠ some .other)
    (hdepth : ∀ m, l <+: m → (disk.kind m).isSome → m.length ≤ l.length + left) :
    ∃ items places, singleitem h disk opts (left + 1) rpath path = .ok items ∧
      Covers disk [l] items places := by
  induction left generalizing rpath path l with
  | zero =>
    obtain ⟨mode, hmode⟩ := Option.isSome_iff_exists.mp (hp.there hl)
    have hother : mode ≠ .other := by
      rintro rfl
      exact hkinds l List.prefix_rfl hmode
    have hempty : disk.names l = [] := by
      refine List.eq_nil_iff_forall_not_mem.mpr fun n hn => ?_
      have hlen := hdepth (l ++ [n]) (List.prefix_append l [n]) ((disk.mem_names l n).mp hn)
      rw [List.length_append, List.length_singleton] at hlen
      omega
    exact singleitem_leaf ho hp hl hmode hother hempty (fun _ => by omega) 0
  | succ left ih =>
    obtain ⟨mode, hmode⟩ := Option.isSome_iff_exists.mp (hp.there hl)
    by_cases hdir : mode = .directory
    · subst hdir
      obtain ⟨last, hlast⟩ := curOf_path_ne h.windows .directory rpath path
      have hentry : ∀ name ∈ listing h disk path l,
          ∃ items places, singleitem h disk opts (left + 1) (rpath ++ [last])
            (joinPart h.windows path name) = .ok items ∧
              Covers disk (entryRoots l name) items places := by
        intro name hmem
        rcases mem_listing.mp hmem with hdots | ⟨n, hn, rfl⟩
        · obtain ⟨cur, hcur, hfull⟩ :=
            singleitem_dots ho (List.concat_ne_nil last rpath) hp.rest hl hmode hdots left
          rw [entryRoots_dots l hdots]
          refine ⟨[cur], [], hcur, covers_dots ?_⟩
          rw [hfull]
          exact (hp.endsInDots_iff (isPart_dots h.windows hdots)).mpr hdots
        · rw [entryRoots_name]
          have hchild : ∀ m, l ++ [n] <+: m → l <+: m := fun m hm =>
            (List.prefix_append l [n]).trans hm
          refine ih (rpath ++ [last]) (joinPart h.windows path n.val) (l ++ [n]) ?_ (hp.joinPart n)
            (hp.locate_child hl hn) ?_ (fun m hm => hkinds m (hchild m hm)) fun m hm hthere => ?_
          · rw [List.length_append, List.length_singleton]
            omega
          · simp [canRecurse, curOf, basename_joinPart hp.rest n.isPart, n.ne_dot, n.ne_dotdot]
          · have hlen := hdepth m (hchild m hm) hthere
            rw [List.length_append, List.length_singleton]
            omega
      obtain ⟨items, places, hitems, hc⟩ := mapM_covers (entryRoots l) _ hentry
        ((listing_nodup path l).imp fun hab => entryRoots_apart l hab)
      refine ⟨items ++ [curOf h.windows .directory rpath path], places ++ [l], ?_,
        hc.behind (fun r => mem_entryRoots) hp hl⟩
      have hattr : attributes h disk path = some .directory := by simp [attributes, hl, hmode]
      have hlist : lfsDir h disk path = some (listing h disk path l) := by
        simp [lfsDir, hl, hmode, listing]
      rw [singleitem, hattr]
      refine (ho.callback_recurse rfl (by omega) hcan).trans ?_
      have hfull : (curOf h.windows .directory rpath path).full = path := rfl
      simp only [hfull, hlist, hlast, Option.toList_some, joinpath, List.foldl_cons,
        List.foldl_nil]
      rw [hitems]
      rfl
    · have hempty : disk.names l = [] := by
        refine List.eq_nil_iff_forall_not_mem.mpr fun n hn => ?_
        have hparent := disk.parent l n ((disk.mem_names l n).mp hn)
        rw [hmode] at hparent
        exact hdir (Option.some.inj hparent)
      have hother : mode ≠ .other := by
        rintro rfl
        exact hkinds l List.prefix_rfl hmode
      exact singleitem_leaf ho hp hl hmode hother hempty (fun h => absurd h hdir) (left + 1)

/-- The walk over the paths that are passed in. -/
theorem walk_covers (ho : TakesAll opts) (paths : List LuaString)
    (hpaths : ∀ p ∈ paths, Plain h.windows p ∧ (locate h disk p).isSome)
    (hapart : paths.Pairwise fun p q =>
      ∀ a ∈ locate h disk p, ∀ b ∈ locate h disk q, Apart a b)
    (hkinds : ∀ l, Below disk (paths.filterMap (locate h disk)) l → disk.kind l ≠ some .other)
    (hdepth : ∀ r ∈ paths.filterMap (locate h disk), ∀ l, r <+: l → (disk.kind l).isSome →
      l.length ≤ r.length + opts.maxdepth) :
    ∃ items places,
      (paths.mapM (singleitem h disk opts (opts.maxdepth + 1) [])).map List.flatten = .ok items ∧
        Covers disk (paths.filterMap (locate h disk)) items places := by
  have hroot : ∀ p ∈ paths, ∃ items places,
      singleitem h disk opts (opts.maxdepth + 1) [] p = .ok items ∧
        Covers disk (locate h disk p).toList items places := by
    intro p hmem
    obtain ⟨hp, hsome⟩ := hpaths p hmem
    obtain ⟨l, hl⟩ := Option.isSome_iff_exists.mp hsome
    have hlisted : l ∈ paths.filterMap (locate h disk) := List.mem_filterMap.mpr ⟨p, hmem, hl⟩
    rw [hl, Option.toList_some]
    refine singleitem_covers ho opts.maxdepth [] p l (Nat.zero_add _) hp hl ?_ (fun m hm hother => ?_)
      (hdepth l hlisted)
    · simpa [canRecurse, curOf] using hp.basename_ne
    · exact hkinds m ⟨by simp [hother], l, hlisted, hm⟩ hother
  obtain ⟨items, places, hitems, hc⟩ :=
    mapM_covers (fun p => (locate h disk p).toList) paths hroot (by simpa using hapart)
  refine ⟨items, places, hitems, ?_⟩
  rwa [List.filterMap_eq_flatMap_toList]

/-! ## The limit of the depth -/

theorem stepInto_length {l l' : Place h.windows} {name : LuaString}
    (hs : stepInto disk l name = some l') : l'.length ≤ l.length + 1 := by
  by_cases hname : name = dotdot
  · subst hname
    unfold stepInto at hs
    split at hs
    · simp [isName] at hs
      simp [← hs]
      omega
    · cases hs
  · unfold stepInto at hs
    split at hs
    · split at hs
      · split at hs
        · cases hs
          simp
        · cases hs
      · cases hs
        omega
    · cases hs

theorem walk_length {names : List LuaString} {l l' : Place h.windows}
    (hw : names.foldlM (stepInto disk) l = some l') : l'.length ≤ l.length + names.length := by
  induction names generalizing l with
  | nil =>
    cases hw
    simp
  | cons name names ih =>
    obtain ⟨next, hnext, hrest⟩ := Option.bind_eq_some_iff.mp hw
    have hstep := stepInto_length hnext
    have hlen := ih hrest
    rw [List.length_cons]
    omega

/-- How deep a path leads, on every disk. -/
def reach (h : Host) (path : LuaString) : Nat :=
  (startOf h path).length + (components h.windows path).length

theorem locate_length {path : LuaString} {l : Place h.windows}
    (hl : locate h disk path = some l) : l.length ≤ reach h path := by
  unfold locate at hl
  split at hl
  · cases hl
  · exact walk_length hl

theorem reach_joinPart {path n : LuaString} (hrest : (splitdrive h.windows path).2 ≠ [])
    (hn : IsPart h.windows n) : reach h (joinPart h.windows path n) ≤ reach h path + 1 := by
  obtain ⟨q, s, hs, hjoin, heq⟩ := joinPart_eq hn (splitdrive h.windows path).2
  have hlen : (components h.windows (joinPart h.windows path n)).length ≤
      (components h.windows path).length + 1 := by
    rw [components, splitdrive_joinPart hrest hn, hjoin, List.splitOnP_append_cons q n hs,
      List.splitOnP_eq_singleton hn.no_sep]
    rcases heq with heq | ⟨-, heq, -⟩
    · rw [components, heq, List.splitOnP_append_cons q [] hs]
      simp
    · rw [components, heq]
      simp
  rw [reach, reach, startOf_joinPart h hrest hn]
  omega

theorem rest_joinPart {path n : LuaString} (hrest : (splitdrive h.windows path).2 ≠ [])
    (hn : IsPart h.windows n) : (splitdrive h.windows (joinPart h.windows path n)).2 ≠ [] := by
  rw [splitdrive_joinPart hrest hn]
  obtain ⟨q, s, -, hjoin, -⟩ := joinPart_eq hn (splitdrive h.windows path).2
  simp [hjoin]

theorem lfsDir_isPart {path : LuaString} {names : List LuaString}
    (hd : lfsDir h disk path = some names) {name : LuaString} (hname : name ∈ names) :
    IsPart h.windows name := by
  obtain ⟨l, -, hd⟩ := Option.bind_eq_some_iff.mp hd
  split at hd
  · cases hd
    rcases mem_listing.mp hname with hdots | ⟨n, -, rfl⟩
    · exact isPart_dots h.windows hdots
    · exact n.isPart
  · cases hd

theorem mem_mapM {α : Type} {f : α → Except FsError (List Cur)} {l : List α} {items : List Cur}
    (hm : (l.mapM f).map List.flatten = .ok items) {cur : Cur} (hcur : cur ∈ items) :
    ∃ a ∈ l, ∃ found, f a = .ok found ∧ cur ∈ found := by
  induction l generalizing items with
  | nil =>
    cases hm
    cases hcur
  | cons a l ih =>
    rw [List.mapM_cons] at hm
    cases ha : f a with
    | error e =>
      rw [ha] at hm
      cases hm
    | ok found =>
      cases hl : l.mapM f with
      | error e =>
        rw [ha, hl] at hm
        cases hm
      | ok more =>
        rw [ha, hl] at hm
        cases hm
        rw [List.flatten_cons] at hcur
        rcases List.mem_append.mp hcur with hcur | hcur
        · exact ⟨a, by simp, found, ha, hcur⟩
        · obtain ⟨b, hb, found', hfound, hcur⟩ := ih (by rw [hl]; rfl) hcur
          exact ⟨b, List.mem_cons_of_mem a hb, found', hfound, hcur⟩

theorem mem_ffItem {cur item : Cur} {c : Prop} [Decidable c]
    (hitem : item ∈ if c then FindFiles.ffItem opts cur else []) : item = cur := by
  by_cases hc : c
  · rw [if_pos hc, FindFiles.ffItem] at hitem
    by_cases hmatch : checkMatch opts cur = true
    · rw [if_pos hmatch] at hitem
      exact List.mem_singleton.mp hitem
    · rw [if_neg hmatch] at hitem
      cases hitem
  · rw [if_neg hc] at hitem
    cases hitem

theorem callback_mem {rpath : List LuaString} {recurse : Cur → Except FsError (List Cur)}
    {cur : Cur} {items : List Cur} (hc : callback opts rpath recurse cur = .ok items)
    {item : Cur} (hitem : item ∈ items) :
    item = cur ∨
      rpath.length < opts.maxdepth ∧ ∃ inside, recurse cur = .ok inside ∧ item ∈ inside := by
  by_cases hdir : cur.mode = .directory
  · rw [callback, if_pos hdir] at hc
    by_cases hrec : rpath.length < opts.maxdepth ∧ canRecurse rpath cur ∧
        opts.rmatch.all (fun matches_ => matches_ cur.full)
    · dsimp only at hc
      rw [if_pos hrec] at hc
      cases hr : recurse cur with
      | error e =>
        rw [hr] at hc
        cases hc
      | ok inside =>
        rw [hr] at hc
        rw [← Except.ok.inj hc] at hitem
        rcases List.mem_append.mp hitem with hitem | hitem
        · rcases List.mem_append.mp hitem with hitem | hitem
          · exact .inl (mem_ffItem hitem)
          · exact .inr ⟨hrec.1, inside, rfl, hitem⟩
        · exact .inl (mem_ffItem hitem)
    · dsimp only at hc
      rw [if_neg hrec] at hc
      rw [← Except.ok.inj hc] at hitem
      rcases List.mem_append.mp hitem with hitem | hitem
      · exact .inl (mem_ffItem hitem)
      · exact .inl (mem_ffItem hitem)
  · rw [callback, if_neg hdir] at hc
    rw [← Except.ok.inj hc] at hitem
    exact .inl (mem_ffItem (c := True) (by rwa [if_pos trivial]))

/-- No item lies more than `maxdepth` levels below the path that was passed in. -/
theorem singleitem_reach (left : Nat) (rpath : List LuaString) (path : LuaString)
    (items : List Cur) (hleft : rpath.length + left = opts.maxdepth)
    (hrest : (splitdrive h.windows path).2 ≠ [])
    (hs : singleitem h disk opts (left + 1) rpath path = .ok items) :
    ∀ cur ∈ items, reach h cur.full ≤ reach h path + left := by
  induction left generalizing rpath path items with
  | zero =>
    intro cur hcur
    rw [singleitem] at hs
    split at hs
    · cases hs
    · rcases callback_mem hs hcur with rfl | ⟨hlt, -⟩
      · exact Nat.le_refl _
      · omega
  | succ left ih =>
    intro cur hcur
    rw [singleitem] at hs
    split at hs
    · cases hs
    · rename_i mode hmode
      rcases callback_mem hs hcur with rfl | ⟨-, inside, hinside, hcur⟩
      · exact Nat.le_add_right _ _
      · obtain ⟨last, hlast⟩ := curOf_path_ne h.windows mode rpath path
        split at hinside
        · cases hinside
        · rename_i names hnames
          obtain ⟨name, hname, found, hfound, hcur⟩ := mem_mapM hinside hcur
          have hpart := lfsDir_isPart hnames hname
          have hdeep := ih _ _ _ (by rw [hlast]; simp; omega) (rest_joinPart hrest hpart) hfound cur hcur
          have hstep := reach_joinPart hrest hpart
          omega

end Walk

end FindFiles
