import Chdkptp.FindFiles
import Chdkptp.TreeWalk

/-!
# The items of a walk on the host

`find_files` finds what a walk over the tree takes, where the directory's own entries are places
below it that the walk does not enter.
-/

namespace FindFiles

open LuaValue LuaText FileTree FsUtil TreeWalk

section Items

variable (h : Host) (disk : Disk h.windows) (opts : FindOpts) (start : LuaString)

def kindAt (names : List LuaString) : Kind :=
  (attributes h disk (joinpath h.windows start names)).getD .other

/-- The current item below a start path under these names. -/
def curAt (names : List LuaString) : Cur :=
  curOf h.windows (kindAt h disk start names) (start :: names).dropLast
    (joinpath h.windows start names)

/-- What a start path and names lead to can be entered, as far as names and kinds go. -/
def opens (names : List LuaString) : Bool :=
  canRecurse (start :: names).dropLast (curAt h disk start names) &&
    opts.rmatch.all fun matches_ => matches_ (curAt h disk start names).full

/-- The walk from a start path. -/
def walkFrom : Walk LuaString where
  kids names := (lfsDir h disk (joinpath h.windows start names)).getD []
  enters names := names.length < opts.maxdepth ∧ opens h disk opts start names
  takes names := checkMatch opts (curAt h disk start names) ∧
    (kindAt h disk start names = .directory → opts.dirs)
  first := opts.dirsfirst

/-- The items below a start path, by their names. -/
def itemsFrom : List (List LuaString) :=
  (walkFrom h disk opts start).items (opts.maxdepth + 1) []

end Items

section Walk

variable {h : Host} {disk : Disk h.windows} {opts : FindOpts} {start : LuaString}
  {names : List LuaString}

theorem enters_iff : (walkFrom h disk opts start).enters names = true ↔
    names.length < opts.maxdepth ∧ opens h disk opts start names = true := decide_eq_true_iff

theorem takes_iff : (walkFrom h disk opts start).takes names = true ↔
    checkMatch opts (curAt h disk start names) = true ∧
      (kindAt h disk start names = .directory → opts.dirs = true) := decide_eq_true_iff

theorem if_ffItem {c d : Prop} [Decidable c] [Decidable d] (cur : Cur)
    (hd : d ↔ c ∧ checkMatch opts cur = true) :
    (if c then ffItem opts cur else []) = if d then [cur] else [] := by
  rw [ffItem, ← ite_and]
  exact if_congr hd.symm rfl rfl

/-- The directory before or behind what is in it, and anything else once. -/
theorem callback_items {recurse : Cur → Except FsError (List Cur)} {inside : List Cur}
    (hinside : (walkFrom h disk opts start).enters names = true →
      recurse (curAt h disk start names) = .ok inside) :
    let w := walkFrom h disk opts start
    callback opts (start :: names).dropLast recurse (curAt h disk start names) = .ok
      ((if w.first ∧ w.takes names then [curAt h disk start names] else []) ++
        (if w.enters names then inside else []) ++
        (if ¬w.first ∧ w.takes names then [curAt h disk start names] else [])) := by
  intro w
  have hlength : (start :: names).dropLast.length = names.length := by simp
  have hmode : (curAt h disk start names).mode = kindAt h disk start names := rfl
  rw [callback, hlength, hmode]
  by_cases hkind : kindAt h disk start names = .directory
  · have htakes : w.takes names = true ↔
        checkMatch opts (curAt h disk start names) = true ∧ opts.dirs = true := by
      rw [takes_iff, hkind]
      simp
    have hbefore : (if opts.dirs ∧ opts.dirsfirst then ffItem opts (curAt h disk start names)
        else []) = if w.first ∧ w.takes names then [curAt h disk start names] else [] := by
      refine if_ffItem _ ?_
      rw [htakes]
      simp only [w, walkFrom]
      tauto
    have hbehind : (if opts.dirs ∧ ¬opts.dirsfirst then ffItem opts (curAt h disk start names)
        else []) = if ¬w.first ∧ w.takes names then [curAt h disk start names] else [] := by
      refine if_ffItem _ ?_
      rw [htakes]
      simp only [w, walkFrom]
      tauto
    have henters : w.enters names = true ↔ names.length < opts.maxdepth ∧
        canRecurse (start :: names).dropLast (curAt h disk start names) = true ∧
        (opts.rmatch.all fun matches_ => matches_ (curAt h disk start names).full) = true := by
      rw [enters_iff, opens, Bool.and_eq_true]
    rw [if_pos hkind, hbefore, hbehind]
    by_cases hgo : w.enters names = true
    · rw [if_pos (henters.mp hgo), if_pos hgo, hinside hgo]
      rfl
    · rw [if_neg (fun hc => hgo (henters.mpr hc)), if_neg hgo, List.append_nil]
  · have htakes : w.takes names = checkMatch opts (curAt h disk start names) := by
      rw [Bool.eq_iff_iff, takes_iff]
      simp [hkind]
    have henters : ¬w.enters names = true := by
      rw [enters_iff, opens, canRecurse, hmode]
      simp [hkind]
    rw [if_neg hkind, if_neg henters, htakes, ffItem]
    cases w.first <;> simp

theorem mapM_ok {α β ε : Type} {f : α → Except ε β} {g : α → β} (l : List α)
    (hf : ∀ a ∈ l, f a = .ok (g a)) : l.mapM f = .ok (l.map g) := by
  induction l with
  | nil => rfl
  | cons a l ih =>
    obtain ⟨ha, hl⟩ := List.forall_mem_cons.mp hf
    rw [List.mapM_cons, ha, ih hl]
    rfl

/-- What the walk comes to can be found, and what it enters can be listed. -/
structure Found (h : Host) (disk : Disk h.windows) (opts : FindOpts) (start : LuaString) :
    Prop where
  there : ∀ names, (walkFrom h disk opts start).Reaches [] names →
    (attributes h disk (joinpath h.windows start names)).isSome
  listed : ∀ names, (walkFrom h disk opts start).Reaches [] names →
    (walkFrom h disk opts start).enters names = true →
    (lfsDir h disk (joinpath h.windows start names)).isSome
  path : ∀ names, (walkFrom h disk opts start).Reaches [] names →
    (curAt h disk start names).path = start :: names

/-- From an item on the walk finds what it takes there. -/
theorem singleitem_items (hfound : Found h disk opts start) (limit : Nat)
    (hreach : (walkFrom h disk opts start).Reaches [] names)
    (hdeep : names.length ≤ opts.maxdepth) (hlimit : opts.maxdepth < names.length + limit) :
    singleitem h disk opts limit (start :: names).dropLast (joinpath h.windows start names) =
      .ok (((walkFrom h disk opts start).items limit names).map (curAt h disk start)) := by
  induction limit generalizing names with
  | zero => omega
  | succ limit ih =>
    obtain ⟨mode, hmode⟩ := Option.isSome_iff_exists.mp (hfound.there names hreach)
    have hkind : kindAt h disk start names = mode := by rw [kindAt, hmode, Option.getD_some]
    have hcur : curOf h.windows mode (start :: names).dropLast (joinpath h.windows start names) =
        curAt h disk start names := by rw [curAt, hkind]
    have hcallback : ∀ recurse : Cur → Except FsError (List Cur),
        ((walkFrom h disk opts start).enters names = true →
          recurse (curAt h disk start names) = .ok
            (((walkFrom h disk opts start).kids names).flatMap fun n =>
              ((walkFrom h disk opts start).items limit (names ++ [n])).map
                (curAt h disk start))) →
        callback opts (start :: names).dropLast recurse (curAt h disk start names) = .ok
          (((walkFrom h disk opts start).items (limit + 1) names).map (curAt h disk start)) := by
      intro recurse hrecurse
      rw [callback_items hrecurse, Walk.items, List.map_append, List.map_append,
        apply_ite (List.map _), apply_ite (List.map _), apply_ite (List.map _), List.map_flatMap]
      rfl
    rw [singleitem, hmode]
    dsimp only
    rw [hcur]
    refine hcallback _ fun henters => ?_
    obtain ⟨inside, hinside⟩ := Option.isSome_iff_exists.mp (hfound.listed names hreach henters)
    have hkids : (walkFrom h disk opts start).kids names = inside :=
      congrArg (Option.getD · []) hinside
    have hdown : (start :: names).dropLast ++
        (curAt h disk start names).path.getLast?.toList = start :: names := by
      rw [hfound.path names hreach, List.getLast?_eq_some_getLast (List.cons_ne_nil start names)]
      exact List.dropLast_append_getLast (List.cons_ne_nil start names)
    have hbelow : ∀ n ∈ inside, singleitem h disk opts limit (start :: names)
        (joinpath h.windows (joinpath h.windows start names) [n]) = .ok
          (((walkFrom h disk opts start).items limit (names ++ [n])).map
            (curAt h disk start)) := by
      intro n hn
      have hlength : (names ++ [n]).length = names.length + 1 := by simp
      have hdepth := (enters_iff.mp henters).1
      have hone := ih (.step hreach henters (hkids ▸ hn)) (by omega) (by omega)
      rw [← List.cons_append, List.dropLast_concat] at hone
      rw [← hone, joinpath, joinpath, joinpath, List.foldl_append]
    have hfull : (curAt h disk start names).full = joinpath h.windows start names := rfl
    rw [hfull, hinside, hdown]
    dsimp only
    rw [mapM_ok inside hbelow, hkids, List.flatMap_def]
    rfl

/-- The items of all start paths in turn. -/
theorem findFiles_items {α : Type} (func : Cur → α) {paths : List LuaString}
    (hfound : ∀ start ∈ paths, Found h disk opts start) :
    findFiles h disk opts func paths = .ok (stored (paths.flatMap fun start =>
      (itemsFrom h disk opts start).map fun names => func (curAt h disk start names))) := by
  have hone : ∀ start ∈ paths, singleitem h disk opts (opts.maxdepth + 1) [] start =
      .ok ((itemsFrom h disk opts start).map (curAt h disk start)) := fun start hstart =>
    singleitem_items (hfound start hstart) _ .here (Nat.zero_le _) (by simp)
  rw [findFiles, mapM_ok paths hone]
  simp only [Except.map, ← List.flatMap_def, List.map_flatMap, List.map_map, Function.comp_def]

end Walk

/-! ## Where the walk is -/

section Places

/-- A start path is at a place, and is neither empty nor only a drive. -/
structure StartsAt (h : Host) (disk : Disk h.windows) (start : LuaString)
    (l : Place h.windows) : Prop where
  there : locate h disk start = some l
  found : (disk.kind l).isSome
  rest : (splitdrive h.windows start).2 ≠ []

variable {h : Host} {disk : Disk h.windows} {opts : FindOpts} {start : LuaString}
  {names : List LuaString} {l : Place h.windows}

theorem joinpath_concat (windows : Bool) (start : LuaString) (names : List LuaString)
    (n : LuaString) :
    joinpath windows start (names ++ [n]) = joinPart windows (joinpath windows start names) n := by
  rw [joinpath, List.foldl_append]
  rfl

theorem rest_joinpath (hrest : (splitdrive h.windows start).2 ≠ [])
    (hnames : ∀ n ∈ names, IsPart h.windows n) :
    (splitdrive h.windows (joinpath h.windows start names)).2 ≠ [] := by
  induction names using List.reverseRecOn with
  | nil => exact hrest
  | append_singleton names n ih =>
    rw [joinpath_concat]
    exact rest_joinPart (ih fun m hm => hnames m (by simp [hm])) (hnames n (by simp))

theorem isPart_vals (names : List (FileName h.windows)) :
    ∀ n ∈ names.map Subtype.val, IsPart h.windows n := by
  intro n hn
  obtain ⟨m, -, rfl⟩ := List.mem_map.mp hn
  exact FileName.isPart m

/-- Under names of files the start path leads to the place below its own. -/
theorem StartsAt.locate (hl : StartsAt h disk start l) (names : List (FileName h.windows))
    (hnames : (disk.kind (l ++ names)).isSome) :
    FsUtil.locate h disk (joinpath h.windows start (names.map Subtype.val)) =
      some (l ++ names) := by
  induction names using List.reverseRecOn with
  | nil => exact hl.there.trans (congrArg some (List.append_nil l).symm)
  | append_singleton names n ih =>
    rw [← List.append_assoc] at hnames ⊢
    have hparent := disk.parent (l ++ names) n hnames
    have hup := ih (by rw [hparent]; rfl)
    rw [List.map_append, List.map_singleton, joinpath_concat,
      locate_joinPart (rest_joinpath hl.rest (isPart_vals names)) hup (FileName.isPart n)]
    rw [stepInto, if_pos hparent, dif_pos n.property, if_pos hnames]

theorem StartsAt.attributes (hl : StartsAt h disk start l) (names : List (FileName h.windows))
    (hnames : (disk.kind (l ++ names)).isSome) :
    FsUtil.attributes h disk (joinpath h.windows start (names.map Subtype.val)) =
      disk.kind (l ++ names) := by
  rw [FsUtil.attributes, hl.locate names hnames]
  rfl

theorem curAt_concat (hrest : (splitdrive h.windows start).2 ≠ []) {n : LuaString}
    (hnames : ∀ m ∈ names ++ [n], IsPart h.windows m) :
    (curAt h disk start (names ++ [n])).name = n ∧
      (curAt h disk start (names ++ [n])).path = start :: (names ++ [n]) := by
  have hup := rest_joinpath hrest fun m hm => hnames m (List.mem_append_left [n] hm)
  have hname : (curAt h disk start (names ++ [n])).name = n := by
    rw [curAt, joinpath_concat, curOf]
    dsimp only
    rw [basename_joinPart hup (hnames n (by simp))]
    rfl
  refine ⟨hname, ?_⟩
  have hr : (start :: (names ++ [n])).dropLast = start :: names := by
    rw [← List.cons_append, List.dropLast_concat]
  rw [curAt, curOf] at hname ⊢
  dsimp only at hname ⊢
  rw [hname, hr, if_neg (by simp)]
  rfl

theorem curAt_path (hrest : (splitdrive h.windows start).2 ≠ [])
    (hnames : ∀ m ∈ names, IsPart h.windows m) :
    (curAt h disk start names).path = start :: names := by
  cases names using List.reverseRecOn with
  | nil => rfl
  | append_singleton names n => exact (curAt_concat hrest hnames).2

/-- The names of a place below the start path, or those of one of a directory's own entries. -/
inductive Spot (disk : Disk h.windows) (l : Place h.windows) : List LuaString → Prop where
  | place (names : List (FileName h.windows)) (hthere : (disk.kind (l ++ names)).isSome) :
      Spot disk l (names.map Subtype.val)
  | own (names : List (FileName h.windows)) (n : LuaString) (hn : n = dot ∨ n = dotdot)
      (hdir : disk.kind (l ++ names) = some .directory) : Spot disk l (names.map Subtype.val ++ [n])

theorem Spot.isPart (hspot : Spot disk l names) : ∀ n ∈ names, IsPart h.windows n := by
  cases hspot with
  | place names _ => exact isPart_vals names
  | own names n hn _ =>
    intro m hm
    rcases List.mem_append.mp hm with hm | hm
    · exact isPart_vals names m hm
    · rw [List.mem_singleton.mp hm]
      exact isPart_dots h.windows hn

theorem Spot.attributes (hspot : Spot disk l names) (hl : StartsAt h disk start l) :
    (FsUtil.attributes h disk (joinpath h.windows start names)).isSome := by
  cases hspot with
  | place names hthere =>
    rw [hl.attributes names hthere]
    exact hthere
  | own names n hn hdir =>
    have hup := hl.locate names (by rw [hdir]; rfl)
    rw [joinpath_concat, FsUtil.attributes, locate_joinPart
      (rest_joinpath hl.rest (isPart_vals names)) hup (isPart_dots h.windows hn)]
    rcases hn with rfl | rfl
    · simp [stepInto, hdir, isName, dot, dotdot]
    · have hparent : disk.kind (l ++ names).dropLast = some .directory := by
        cases hplace : l ++ names using List.reverseRecOn with
        | nil => rwa [hplace] at hdir
        | append_singleton m k =>
          rw [List.dropLast_concat]
          exact disk.parent m k (by rw [← hplace, hdir]; rfl)
      simp [stepInto, hdir, isName, hparent]

/-- What the walk enters is a directory with a name of its own. -/
theorem Spot.entered (hspot : Spot disk l names) (hl : StartsAt h disk start l)
    (henters : (walkFrom h disk opts start).enters names = true) :
    ∃ fs : List (FileName h.windows), names = fs.map Subtype.val ∧
      disk.kind (l ++ fs) = some .directory := by
  have hopens := (enters_iff.mp henters).2
  rw [opens, Bool.and_eq_true, canRecurse] at hopens
  have hcan := hopens.1
  cases hspot with
  | place fs hthere =>
    refine ⟨fs, rfl, ?_⟩
    obtain ⟨kind, hkind⟩ := Option.isSome_iff_exists.mp hthere
    have hmode : (curAt h disk start (fs.map Subtype.val)).mode = kind := by
      rw [curAt, curOf, kindAt, hl.attributes fs hthere, hkind]
      rfl
    by_contra hne
    rw [hmode, if_pos (.inl fun heq => hne (hkind.trans (congrArg some heq)))] at hcan
    cases hcan
  | own fs n hn hdir =>
    have hparts : ∀ m ∈ fs.map Subtype.val ++ [n], IsPart h.windows m :=
      (Spot.own fs n hn hdir).isPart
    rw [(curAt_concat hl.rest hparts).1] at hcan
    have hdepth : (start :: (fs.map Subtype.val ++ [n])).dropLast.length ≠ 0 := by simp
    split at hcan
    · cases hcan
    · next hup =>
      rw [if_pos ⟨hdepth, hn.resolve_right fun h => hup (.inr h)⟩] at hcan
      cases hcan

theorem lfsDir_listing {path : LuaString} {m : Place h.windows}
    (hm : FsUtil.locate h disk path = some m) (hdir : disk.kind m = some .directory) :
    lfsDir h disk path = some (listing h disk path m) := by
  simp [lfsDir, hm, hdir, listing]

theorem kids_eq (hl : StartsAt h disk start l) (names : List (FileName h.windows))
    (hdir : disk.kind (l ++ names) = some .directory) :
    (walkFrom h disk opts start).kids (names.map Subtype.val) =
      listing h disk (joinpath h.windows start (names.map Subtype.val)) (l ++ names) := by
  have hthere := hl.locate names (by rw [hdir]; rfl)
  exact congrArg (Option.getD · []) (lfsDir_listing hthere hdir)

theorem reaches_spot (hl : StartsAt h disk start l)
    (hreach : (walkFrom h disk opts start).Reaches [] names) : Spot disk l names := by
  induction hreach with
  | here => exact .place [] (by rw [List.append_nil]; exact hl.found)
  | @step above n _ henters hn ih =>
    obtain ⟨fs, rfl, hdir⟩ := ih.entered hl henters
    rw [kids_eq hl fs hdir] at hn
    rcases mem_listing.mp hn with hdots | ⟨k, hk, rfl⟩
    · exact .own fs n hdots hdir
    · have hthere : (disk.kind (l ++ (fs ++ [k]))).isSome := by
        rw [← List.append_assoc]
        exact (disk.mem_names (l ++ fs) k).mp hk
      have hspot := Spot.place (fs ++ [k]) hthere
      rwa [List.map_append] at hspot

theorem StartsAt.walk_found (hl : StartsAt h disk start l) (opts : FindOpts) :
    Found h disk opts start where
  there names hreach := (reaches_spot hl hreach).attributes hl
  listed names hreach henters := by
    obtain ⟨fs, rfl, hdir⟩ := (reaches_spot hl hreach).entered hl henters
    rw [lfsDir_listing (hl.locate fs (by rw [hdir]; rfl)) hdir]
    rfl
  path names hreach := curAt_path hl.rest (reaches_spot hl hreach).isPart

theorem mem_itemsFrom : names ∈ itemsFrom h disk opts start ↔
    (walkFrom h disk opts start).Reaches [] names ∧
      (walkFrom h disk opts start).takes names = true :=
  Walk.mem_items (fun _ henters => (enters_iff.mp henters).1) (Nat.zero_le _) (by simp)

theorem itemsFrom_ordered (hl : StartsAt h disk start l) :
    (itemsFrom h disk opts start).Pairwise (Walk.Before opts.dirsfirst) := by
  have hkids : ∀ m, (walkFrom h disk opts start).Reaches [] m →
      (walkFrom h disk opts start).enters m = true →
      ((walkFrom h disk opts start).kids m).Nodup := by
    intro m hreach henters
    obtain ⟨fs, rfl, hdir⟩ := (reaches_spot hl hreach).entered hl henters
    rw [kids_eq hl fs hdir]
    exact listing_nodup _ _
  exact Walk.items_ordered _ _ hkids

end Places

end FindFiles
