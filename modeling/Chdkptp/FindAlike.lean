import Chdkptp.CamFind
import Chdkptp.FindActions
import Chdkptp.FindItems

/-!
# The same files on both sides

The host and the camera walk over the same tree. They differ in which directories they enter:
`rmatch` is matched with the full path on the host and with the name on the camera.
-/

namespace FindAlike

open LuaValue LuaText FileTree FsUtil TreeWalk Contracts

/-- What a function is told of an item. -/
structure Item where
  kind : Kind
  full : LuaString
  path : List LuaString
  deriving DecidableEq

def hostItem (cur : FindFiles.Cur) : Item := ⟨cur.mode, cur.full, cur.path⟩

def camItem (cur : CamFind.Cur) : Item := ⟨cur.st, cur.full, cur.path⟩

/-- The items that the function is called for are kept. -/
def recordItem : CamFind.Func (List Item) := fun it items => .ok ⟨⟩ (items ++ [camItem it.cur])

/-- An entry of a directory for itself or its parent. -/
def Item.own (item : Item) : Bool :=
  1 < item.path.length ∧ (item.path.getLast? = some dot ∨ item.path.getLast? = some dotdot)

/-- The options that both have. -/
def hostOpts (opts : CamFind.FindOpts) : FindFiles.FindOpts where
  dirs := opts.dirs
  dirsfirst := opts.dirsfirst
  maxdepth := opts.maxdepth.toNat
  fmatch := opts.fmatch
  dmatch := opts.dmatch
  rmatch := opts.rmatch
  fsfx := none
  fsfxIc := true
  martians := opts.martians

/-- The same tree is at a start path on both sides. -/
structure Shared (h : Host) (disk : Disk h.windows) (fs : CamFind.CamFs)
    (opts : CamFind.FindOpts) (start : LuaString) (l : Place h.windows) : Prop
    extends FindFiles.StartsAt h disk start l where
  sep : endsInSep h.windows start = endsInSep false start
  kinds : ∀ names : List (FileName h.windows),
    (fs.stat (joinpath h.windows start (names.map Subtype.val))).toOption = disk.kind (l ++ names)
  lists : ∀ names : List (FileName h.windows), disk.kind (l ++ names) = some .directory →
    ∃ inside, CamFind.entries fs opts (joinpath h.windows start (names.map Subtype.val)) =
      .ok inside ∧ inside.Perm ((disk.names (l ++ names)).map Subtype.val)

section Alike

variable (h : Host) (disk : Disk h.windows) (fs : CamFind.CamFs) (opts : CamFind.FindOpts)

/-- What the camera can enter, as far as names and kinds go. -/
def camOpens (start : LuaString) (names : List LuaString) : Bool :=
  CamFind.canRecurse (CamFind.curAt fs start names) &&
    CamFind.nameOk opts (CamFind.curAt fs start names)

/-- A directory comes before or behind what is in it. -/
def Ordered (first : Bool) (items : List Item) : Prop :=
  items.Pairwise fun a b => Walk.Before first a.path b.path

/-- Both find the same items, apart from the directories' own entries, and in the same order as to
a directory and what is in it. -/
def SameItems (paths : List LuaString) : Prop :=
  ∃ host cam : LuaString → List Item,
    FindFiles.findFiles h disk (hostOpts opts) hostItem paths =
      .ok (FindFiles.stored (paths.flatMap host)) ∧
    CamFind.findFiles opts recordItem fs (pure ⟨⟩) paths [] = .ok ⟨⟩ (paths.flatMap cam) ∧
    (∀ start ∈ paths, Ordered opts.dirsfirst (host start) ∧ Ordered opts.dirsfirst (cam start)) ∧
    ∀ item, item ∈ paths.flatMap host ∧ item.own = false ↔ item ∈ paths.flatMap cam

/-- All directories above an entry that is to be taken can be entered on the host if and only if
they all can be entered on the camera. -/
def SameWays (start : LuaString) (l : Place h.windows) : Prop :=
  ∀ names : List (FileName h.windows), (disk.kind (l ++ names)).isSome →
    names.length ≤ opts.maxdepth.toNat →
    (CamFind.walkFrom fs opts start).takes (names.map Subtype.val) = true →
    ((∀ above n, above ++ [n] <+: names.map Subtype.val →
        FindFiles.opens h disk (hostOpts opts) start above = true) ↔
      ∀ above n, above ++ [n] <+: names.map Subtype.val →
        camOpens fs opts start above = true)

end Alike

section Shared

variable {h : Host} {disk : Disk h.windows} {fs : CamFind.CamFs} {opts : CamFind.FindOpts}
  {start : LuaString} {l : Place h.windows} {names : List LuaString}

theorem isPart_camera {n : LuaString} (hn : IsPart h.windows n) : IsPart false n := by
  refine ⟨hn.ne_nil, fun c hc => ?_⟩
  have hsep := hn.no_sep c hc
  rw [isDirSep, decide_eq_false_iff_not, not_or] at hsep
  simp [isDirSep, hsep.1]

theorem isName_camera (n : FileName h.windows) : isName false n.val = true := by
  have hpart := isPart_camera (FileName.isPart n)
  have hdots := n.property
  simp only [isName, decide_eq_true_eq, List.all_eq_true, Bool.not_eq_true'] at hdots ⊢
  exact ⟨hdots.1, hdots.2.1, hdots.2.2.1, hpart.no_sep⟩

theorem joinPart_camera {path n : LuaString}
    (hsep : endsInSep h.windows path = endsInSep false path)
    (hn : IsPart h.windows n) : joinPart h.windows path n = joinPart false path n := by
  have hhead : ∀ windows, IsPart windows n → n.head?.any (isDirSep windows) = false := by
    intro windows hn
    cases n with
    | nil => rfl
    | cons c n => exact hn.no_sep c (by simp)
  simp only [joinPart, hsep, hhead _ hn, hhead _ (isPart_camera hn)]

/-- The full paths are the same. -/
theorem fullOf_eq (hsep : endsInSep h.windows start = endsInSep false start)
    (hnames : ∀ n ∈ names, IsPart h.windows n) :
    joinpath h.windows start names = CamFind.fullOf start names := by
  induction names using List.reverseRecOn with
  | nil => rfl
  | append_singleton names n ih =>
    have hup := ih fun m hm => hnames m (by simp [hm])
    have hlast : endsInSep h.windows (joinpath h.windows start names) =
        endsInSep false (joinpath h.windows start names) := by
      cases names using List.reverseRecOn with
      | nil => exact hsep
      | append_singleton names m =>
        have hm := hnames m (by simp)
        obtain ⟨q, s, -, hjoin, -⟩ := joinPart_eq hm (joinpath h.windows start names)
        rw [FindFiles.joinpath_concat, hjoin, ← List.singleton_append, ← List.append_assoc,
          hm.not_endsInSep, (isPart_camera hm).not_endsInSep]
    rw [FindFiles.joinpath_concat, CamFind.fullOf_append, ← hup,
      joinPart_camera hlast (hnames n (by simp))]

theorem Shared.kindAt (hs : Shared h disk fs opts start l) (names : List (FileName h.windows)) :
    CamFind.kindAt fs start (names.map Subtype.val) = (disk.kind (l ++ names)).getD .other := by
  have hkind := hs.kinds names
  rw [fullOf_eq hs.sep (FindFiles.isPart_vals names)] at hkind
  rw [← hkind, CamFind.kindAt]
  cases fs.stat (CamFind.fullOf start (names.map Subtype.val)) <;> rfl

theorem Shared.hostKindAt (hs : Shared h disk fs opts start l) (names : List (FileName h.windows))
    (hthere : (disk.kind (l ++ names)).isSome) :
    FindFiles.kindAt h disk start (names.map Subtype.val) =
      CamFind.kindAt fs start (names.map Subtype.val) := by
  rw [FindFiles.kindAt, hs.toStartsAt.attributes names hthere, hs.kindAt]

theorem Shared.stat (hs : Shared h disk fs opts start l) {names : List (FileName h.windows)}
    {kind : Kind} (hkind : disk.kind (l ++ names) = some kind) :
    fs.stat (CamFind.fullOf start (names.map Subtype.val)) = .ok kind := by
  have hstat := hs.kinds names
  rw [fullOf_eq hs.sep (FindFiles.isPart_vals names), hkind] at hstat
  cases hst : fs.stat (CamFind.fullOf start (names.map Subtype.val)) with
  | error e =>
    rw [hst] at hstat
    cases hstat
  | ok st =>
    rw [hst] at hstat
    exact congrArg _ (Option.some.inj hstat)

/-- What the camera lists. -/
theorem Shared.namesAt (hs : Shared h disk fs opts start l) {names : List (FileName h.windows)}
    (hdir : disk.kind (l ++ names) = some .directory) :
    ∃ inside, CamFind.entries fs opts (CamFind.fullOf start (names.map Subtype.val)) = .ok inside ∧
      inside.Perm ((disk.names (l ++ names)).map Subtype.val) := by
  have hlists := hs.lists names hdir
  rwa [fullOf_eq hs.sep (FindFiles.isPart_vals names)] at hlists

/-- What the camera reaches is below the start path's place. -/
theorem Shared.reaches_place (hs : Shared h disk fs opts start l)
    (hreach : (CamFind.walkFrom fs opts start).Reaches [] names) :
    ∃ places : List (FileName h.windows), names = places.map Subtype.val ∧
      (disk.kind (l ++ places)).isSome := by
  induction hreach with
  | here => exact ⟨[], rfl, by rw [List.append_nil]; exact hs.found⟩
  | @step above n _ henters hn ih =>
    obtain ⟨places, rfl, hthere⟩ := ih
    obtain ⟨kind, hkind⟩ := Option.isSome_iff_exists.mp hthere
    have hdir : disk.kind (l ++ places) = some .directory := by
      have hstat := (hs.stat hkind).symm.trans (CamFind.enters_directory henters)
      rw [hkind, Except.ok.inj hstat]
    obtain ⟨inside, hinside, hperm⟩ := hs.namesAt hdir
    obtain hn : n ∈ CamFind.namesAt fs opts start (places.map Subtype.val) := hn
    rw [CamFind.namesAt, hinside, hperm.mem_iff] at hn
    obtain ⟨k, hk, rfl⟩ := List.mem_map.mp hn
    refine ⟨places ++ [k], by rw [List.map_append]; rfl, ?_⟩
    rw [← List.append_assoc]
    exact (disk.mem_names _ k).mp hk

theorem Shared.present (hs : Shared h disk fs opts start l) : CamFind.Present fs opts start where
  found := by
    obtain ⟨kind, hkind⟩ := Option.isSome_iff_exists.mp hs.found
    rw [← List.append_nil l] at hkind
    exact ⟨kind, hs.stat hkind⟩
  listed names hreach hdir := by
    obtain ⟨places, rfl, hthere⟩ := hs.reaches_place hreach
    obtain ⟨kind, hkind⟩ := Option.isSome_iff_exists.mp hthere
    have hsame := (hs.stat hkind).symm.trans hdir
    rw [Except.ok.inj hsame] at hkind
    obtain ⟨inside, hinside, hperm⟩ := hs.namesAt hkind
    refine ⟨inside, hinside, hperm.nodup_iff.mpr ((disk.nodup _).map Subtype.val_injective), ?_⟩
    intro n hn
    obtain ⟨k, hk, rfl⟩ := List.mem_map.mp (hperm.mem_iff.mp hn)
    obtain ⟨kind', hkind'⟩ := Option.isSome_iff_exists.mp ((disk.mem_names _ k).mp hk)
    rw [List.append_assoc] at hkind'
    have hstat := hs.stat hkind'
    rw [List.map_append, List.map_singleton] at hstat
    exact ⟨isName_camera k, kind', hstat⟩

/-- Both walks take the same of what is there. -/
theorem Shared.takes (hs : Shared h disk fs opts start l) {names : List (FileName h.windows)}
    (hthere : (disk.kind (l ++ names)).isSome) :
    (FindFiles.walkFrom h disk (hostOpts opts) start).takes (names.map Subtype.val) =
      (CamFind.walkFrom fs opts start).takes (names.map Subtype.val) := by
  have hkind := hs.hostKindAt names hthere
  have hfull := fullOf_eq hs.sep (FindFiles.isPart_vals names)
  have hmatch : FindFiles.checkMatch (hostOpts opts)
      (FindFiles.curAt h disk start (names.map Subtype.val)) =
        CamFind.checkMatch opts (CamFind.curAt fs start (names.map Subtype.val)) := by
    have hmode : (FindFiles.curAt h disk start (names.map Subtype.val)).mode =
        (CamFind.curAt fs start (names.map Subtype.val)).st := hkind
    have hpath : (FindFiles.curAt h disk start (names.map Subtype.val)).full =
        (CamFind.curAt fs start (names.map Subtype.val)).full := hfull
    rw [FindFiles.checkMatch, CamFind.checkMatch, hmode, hpath]
    cases (CamFind.curAt fs start (names.map Subtype.val)).st with
    | file => exact Bool.and_true _
    | directory => rfl
    | other => rfl
  rw [Bool.eq_iff_iff, FindFiles.takes_iff, CamFind.takes_iff, hmatch, hkind]
  rfl

/-- The place above one that is there is a directory, and has it among its names. -/
theorem above_place {names : List (FileName h.windows)} (hthere : (disk.kind (l ++ names)).isSome)
    {above : List LuaString} {n : LuaString} (habove : above ++ [n] <+: names.map Subtype.val) :
    ∃ (places : List (FileName h.windows)) (k : FileName h.windows),
      above = places.map Subtype.val ∧ n = k.val ∧ disk.kind (l ++ places) = some .directory ∧
        k ∈ disk.names (l ++ places) := by
  obtain ⟨upto, hupto, heq⟩ := List.prefix_map_iff.mp habove
  obtain ⟨rest, rfl⟩ := hupto
  rw [← List.append_assoc] at hthere
  have hup := kind_above disk (l ++ upto) rest hthere
  obtain ⟨places, k, rfl⟩ := (List.eq_nil_or_concat' upto).resolve_left (by
    rintro rfl
    exact List.concat_ne_nil n above heq)
  rw [List.map_append, List.map_singleton] at heq
  obtain ⟨rfl, hlast⟩ := List.append_inj' heq rfl
  rw [← List.append_assoc] at hup
  exact ⟨places, k, rfl, List.singleton_injective hlast, disk.parent _ k hup,
    (disk.mem_names _ k).mpr hup⟩

theorem Shared.host_reaches (hs : Shared h disk fs opts start l)
    {names : List (FileName h.windows)} (hthere : (disk.kind (l ++ names)).isSome) :
    (FindFiles.walkFrom h disk (hostOpts opts) start).Reaches [] (names.map Subtype.val) ↔
      names.length ≤ opts.maxdepth.toNat ∧ ∀ above n, above ++ [n] <+: names.map Subtype.val →
        FindFiles.opens h disk (hostOpts opts) start above = true := by
  rw [← List.length_map Subtype.val]
  refine Walk.reaches_iff_opens (fun above n hprefix => ?_) fun above n _ => FindFiles.enters_iff
  obtain ⟨places, k, rfl, rfl, hdir, hk⟩ := above_place hthere hprefix
  rw [FindFiles.kids_eq hs.toStartsAt places hdir]
  exact FindFiles.mem_listing.mpr (.inr ⟨k, hk, rfl⟩)

theorem Shared.cam_reaches (hs : Shared h disk fs opts start l)
    {names : List (FileName h.windows)} (hthere : (disk.kind (l ++ names)).isSome) :
    (CamFind.walkFrom fs opts start).Reaches [] (names.map Subtype.val) ↔
      names.length ≤ opts.maxdepth.toNat ∧ ∀ above n, above ++ [n] <+: names.map Subtype.val →
        camOpens fs opts start above = true := by
  rw [← List.length_map Subtype.val]
  refine Walk.reaches_iff_opens (fun above n hprefix => ?_) fun above n _ => ?_
  · obtain ⟨places, k, rfl, rfl, hdir, hk⟩ := above_place hthere hprefix
    obtain ⟨inside, hinside, hperm⟩ := hs.namesAt hdir
    have hmem : k.val ∈ CamFind.namesAt fs opts start (places.map Subtype.val) := by
      rw [CamFind.namesAt, hinside, hperm.mem_iff]
      exact List.mem_map.mpr ⟨k, hk, rfl⟩
    exact hmem
  · rw [CamFind.enters_iff, camOpens, Bool.and_eq_true]
    exact and_congr_left fun _ => by omega

end Shared

/-! ## The items -/

section Items

variable {h : Host} {disk : Disk h.windows} {fs : CamFind.CamFs} {opts : CamFind.FindOpts}
  {start : LuaString} {l : Place h.windows} {item : Item}

/-- The items below a start path, as the function is told of them. -/
def hostItems (h : Host) (disk : Disk h.windows) (opts : CamFind.FindOpts) (start : LuaString) :
    List Item :=
  (FindFiles.itemsFrom h disk (hostOpts opts) start).map fun names =>
    hostItem (FindFiles.curAt h disk start names)

def camItems (fs : CamFind.CamFs) (opts : CamFind.FindOpts) (start : LuaString) : List Item :=
  (CamFind.itemsFrom fs opts start).map fun names => camItem (CamFind.curAt fs start names)

/-- An item that is below a start path. -/
def itemAt (fs : CamFind.CamFs) (start : LuaString) (names : List LuaString) : Item :=
  ⟨CamFind.kindAt fs start names, CamFind.fullOf start names, start :: names⟩

theorem Shared.hostItem_eq (hs : Shared h disk fs opts start l) {names : List (FileName h.windows)}
    (hthere : (disk.kind (l ++ names)).isSome) :
    hostItem (FindFiles.curAt h disk start (names.map Subtype.val)) =
      itemAt fs start (names.map Subtype.val) := by
  have hparts := FindFiles.isPart_vals names
  have hmode : (FindFiles.curAt h disk start (names.map Subtype.val)).mode =
      CamFind.kindAt fs start (names.map Subtype.val) := hs.hostKindAt names hthere
  have hfull : (FindFiles.curAt h disk start (names.map Subtype.val)).full =
      CamFind.fullOf start (names.map Subtype.val) := fullOf_eq hs.sep hparts
  rw [hostItem, itemAt, hmode, hfull, FindFiles.curAt_path hs.rest hparts]

theorem camItem_eq {names : List LuaString} (hnames : ∀ n ∈ names, isName false n = true) :
    camItem (CamFind.curAt fs start names) = itemAt fs start names := by
  rw [camItem, itemAt, CamFind.curAt_path hnames]
  rfl

/-- A place below the start path is not an entry for a directory itself. -/
theorem itemAt_own (names : List (FileName h.windows)) :
    (itemAt fs start (names.map Subtype.val)).own = false := by
  cases names using List.reverseRecOn with
  | nil => rfl
  | append_singleton names n =>
    have hlast : (itemAt fs start ((names ++ [n]).map Subtype.val)).path.getLast? = some n.val := by
      rw [itemAt, List.map_append, List.map_singleton, ← List.cons_append, List.getLast?_concat]
    rw [Item.own, hlast]
    simp [FileName.ne_dot n, FileName.ne_dotdot n]

/-- The host's items other than the directories' own entries. -/
theorem Shared.mem_hostItems (hs : Shared h disk fs opts start l) :
    item ∈ hostItems h disk opts start ∧ item.own = false ↔
      ∃ names : List (FileName h.windows), item = itemAt fs start (names.map Subtype.val) ∧
        (disk.kind (l ++ names)).isSome ∧
        (CamFind.walkFrom fs opts start).takes (names.map Subtype.val) = true ∧
        names.length ≤ opts.maxdepth.toNat ∧ ∀ above n, above ++ [n] <+: names.map Subtype.val →
          FindFiles.opens h disk (hostOpts opts) start above = true := by
  constructor
  · rintro ⟨hmem, hown⟩
    obtain ⟨names, hnames, rfl⟩ := List.mem_map.mp hmem
    obtain ⟨hreach, htakes⟩ := FindFiles.mem_itemsFrom.mp hnames
    cases FindFiles.reaches_spot hs.toStartsAt hreach with
    | place names hthere =>
      rw [hs.takes hthere] at htakes
      exact ⟨names, hs.hostItem_eq hthere, hthere, htakes, (hs.host_reaches hthere).mp hreach⟩
    | own names n hn hdir =>
      have hparts := (FindFiles.Spot.own names n hn hdir).isPart
      have hpath : (FindFiles.curAt h disk start (names.map Subtype.val ++ [n])).path =
          start :: (names.map Subtype.val ++ [n]) := FindFiles.curAt_path hs.rest hparts
      rw [Item.own, hostItem, hpath, ← List.cons_append, List.getLast?_concat] at hown
      rcases hn with rfl | rfl <;> simp at hown
  · rintro ⟨names, rfl, hthere, htakes, hways⟩
    refine ⟨List.mem_map.mpr ⟨names.map Subtype.val, ?_, hs.hostItem_eq hthere⟩, itemAt_own names⟩
    refine FindFiles.mem_itemsFrom.mpr ⟨(hs.host_reaches hthere).mpr hways, ?_⟩
    rw [hs.takes hthere]
    exact htakes

theorem Shared.mem_camItems (hs : Shared h disk fs opts start l) :
    item ∈ camItems fs opts start ↔
      ∃ names : List (FileName h.windows), item = itemAt fs start (names.map Subtype.val) ∧
        (disk.kind (l ++ names)).isSome ∧
        (CamFind.walkFrom fs opts start).takes (names.map Subtype.val) = true ∧
        names.length ≤ opts.maxdepth.toNat ∧ ∀ above n, above ++ [n] <+: names.map Subtype.val →
          camOpens fs opts start above = true := by
  constructor
  · intro hmem
    obtain ⟨names, hnames, rfl⟩ := List.mem_map.mp hmem
    obtain ⟨hreach, htakes⟩ := CamFind.mem_itemsFrom.mp hnames
    have hitem : camItem (CamFind.curAt fs start names) = itemAt fs start names :=
      camItem_eq (CamFind.reaches_names hs.present hreach)
    obtain ⟨places, rfl, hthere⟩ := hs.reaches_place hreach
    exact ⟨places, hitem, hthere, htakes, (hs.cam_reaches hthere).mp hreach⟩
  · rintro ⟨names, rfl, hthere, htakes, hways⟩
    have hreach := (hs.cam_reaches hthere).mpr hways
    exact List.mem_map.mpr ⟨names.map Subtype.val, CamFind.mem_itemsFrom.mpr ⟨hreach, htakes⟩,
      camItem_eq (CamFind.reaches_names hs.present hreach)⟩

theorem hostItem_path (disk : Disk h.windows) {names : List LuaString}
    (hrest : (splitdrive h.windows start).2 ≠ []) (hnames : ∀ n ∈ names, IsPart h.windows n) :
    (hostItem (FindFiles.curAt h disk start names)).path = start :: names := by
  have hpath : (FindFiles.curAt h disk start names).path = start :: names :=
    FindFiles.curAt_path hrest hnames
  exact hpath

theorem before_cons {first : Bool} {a b : List LuaString} (hab : Walk.Before first a b) :
    Walk.Before first (start :: a) (start :: b) := by
  rw [Walk.Before, List.prefix_cons_inj, List.prefix_cons_inj]
  exact hab

theorem Shared.host_ordered (hs : Shared h disk fs opts start l) :
    Ordered opts.dirsfirst (hostItems h disk opts start) := by
  refine List.pairwise_map.mpr ?_
  refine (FindFiles.itemsFrom_ordered hs.toStartsAt).imp_of_mem fun {a b} ha hb hab => ?_
  have hpath : ∀ names ∈ FindFiles.itemsFrom h disk (hostOpts opts) start,
      (hostItem (FindFiles.curAt h disk start names)).path = start :: names := fun names hmem =>
    hostItem_path disk hs.rest
      (FindFiles.reaches_spot hs.toStartsAt (FindFiles.mem_itemsFrom.mp hmem).1).isPart
  rw [hpath a ha, hpath b hb]
  exact before_cons hab

theorem Shared.cam_ordered (hs : Shared h disk fs opts start l) :
    Ordered opts.dirsfirst (camItems fs opts start) := by
  refine List.pairwise_map.mpr ?_
  refine (CamFind.itemsFrom_ordered hs.present).imp_of_mem fun {a b} ha hb hab => ?_
  have hpath : ∀ names ∈ CamFind.itemsFrom fs opts start,
      (camItem (CamFind.curAt fs start names)).path = start :: names := by
    intro names hmem
    rw [camItem_eq (CamFind.reaches_names hs.present (CamFind.mem_itemsFrom.mp hmem).1)]
    rfl
  rw [hpath a ha, hpath b hb]
  exact before_cons hab

theorem onItems_record (items : List CamFind.Cur) (done : List Item) :
    CamFind.onItems recordItem items done = .ok ⟨⟩ (done ++ items.map camItem) := by
  induction items generalizing done with
  | nil => exact congrArg _ (List.append_nil done).symm
  | cons cur items ih =>
    refine (ih (done ++ [camItem cur])).trans ?_
    rw [List.append_assoc]
    rfl

end Items

/-! ## When they are the same -/

section Paths

variable {h : Host} {disk : Disk h.windows} {fs : CamFind.CamFs} {opts : CamFind.FindOpts}
  {paths : List LuaString}

theorem host_found (hshared : ∀ start ∈ paths, ∃ l, Shared h disk fs opts start l) :
    FindFiles.findFiles h disk (hostOpts opts) hostItem paths =
      .ok (FindFiles.stored (paths.flatMap (hostItems h disk opts))) := by
  refine FindFiles.findFiles_items hostItem fun start hmem => ?_
  obtain ⟨l, hs⟩ := hshared start hmem
  exact hs.toStartsAt.walk_found (hostOpts opts)

theorem cam_found (hshared : ∀ start ∈ paths, ∃ l, Shared h disk fs opts start l)
    (hname : ∀ start ∈ paths, CamFind.Nameable fs opts start) :
    CamFind.findFiles opts recordItem fs (pure ⟨⟩) paths [] =
      .ok ⟨⟩ (paths.flatMap (camItems fs opts)) := by
  have hpresent : ∀ start ∈ paths, CamFind.Present fs opts start := by
    intro start hmem
    obtain ⟨l, hs⟩ := hshared start hmem
    exact hs.present
  have hitems : (CamFind.itemsOf fs opts paths).map camItem = paths.flatMap (camItems fs opts) := by
    rw [CamFind.itemsOf, List.map_flatMap]
    simp only [List.map_map]
    rfl
  rw [CamFind.findFiles_eq (pure ⟨⟩) hpresent hname]
  simp only [CamFind.endCallback, onItems_record, hitems, List.nil_append]
  rfl

/-- The items below one start path are the same for both. -/
theorem sameWays_iff {start : LuaString} {l : Place h.windows}
    (hs : Shared h disk fs opts start l) : SameWays h disk fs opts start l ↔
      ∀ item, item ∈ hostItems h disk opts start ∧ item.own = false ↔
        item ∈ camItems fs opts start := by
  constructor
  · intro hways item
    rw [hs.mem_hostItems, hs.mem_camItems]
    refine exists_congr fun names => and_congr_right fun _ => ?_
    refine and_congr_right fun hthere => and_congr_right fun htakes => ?_
    exact and_congr_right fun hdepth => hways names hthere hdepth htakes
  · intro hsame names hthere hdepth htakes
    have hone := hsame (itemAt fs start (names.map Subtype.val))
    have hnames : ∀ {places : List (FileName h.windows)},
        itemAt fs start (names.map Subtype.val) = itemAt fs start (places.map Subtype.val) →
          places = names := by
      intro places heq
      have hpath := congrArg (fun item => item.path.tail) heq
      exact ((List.map_injective_iff.mpr Subtype.val_injective) hpath).symm
    rw [hs.mem_hostItems, hs.mem_camItems] at hone
    constructor
    · intro hopens
      obtain ⟨places, heq, -, -, -, hcam⟩ :=
        hone.mp ⟨names, rfl, hthere, htakes, hdepth, hopens⟩
      rwa [hnames heq] at hcam
    · intro hopens
      obtain ⟨places, heq, -, -, -, hhost⟩ :=
        hone.mpr ⟨names, rfl, hthere, htakes, hdepth, hopens⟩
      rwa [hnames heq] at hhost

theorem path_head {start : LuaString} {l : Place h.windows} (hs : Shared h disk fs opts start l)
    {item : Item} (hitem : item ∈ hostItems h disk opts start ∧ item.own = false ∨
      item ∈ camItems fs opts start) : item.path.head? = some start := by
  rcases hitem with hitem | hitem
  · obtain ⟨names, rfl, -⟩ := hs.mem_hostItems.mp hitem
    rfl
  · obtain ⟨names, rfl, -⟩ := hs.mem_camItems.mp hitem
    rfl

/-- If both find the same, nothing is an error and all ways are open to both or to neither. -/
theorem ways_of_sameItems (hshared : ∀ start ∈ paths, ∃ l, Shared h disk fs opts start l)
    (hboth : SameItems h disk fs opts paths) :
    (∀ start ∈ paths, CamFind.Nameable fs opts start) ∧
      ∀ start ∈ paths, ∀ l, locate h disk start = some l → SameWays h disk fs opts start l := by
  obtain ⟨host, cam, hhost, hcam, -, hsame⟩ := hboth
  have hname : ∀ start ∈ paths, CamFind.Nameable fs opts start := by
    intro start hmem
    by_contra hnot
    exact CamFind.findFiles_nameless (pure ⟨⟩) ⟨start, hmem, hnot⟩ [] _ hcam
  have hhost' : paths.flatMap host = paths.flatMap (hostItems h disk opts) :=
    FindActions.stored_inj (Except.ok.inj (hhost.symm.trans (host_found hshared)))
  have hcam' : paths.flatMap cam = paths.flatMap (camItems fs opts) := by
    have hitems := hcam.symm.trans (cam_found hshared hname)
    injection hitems
  rw [hhost', hcam'] at hsame
  refine ⟨hname, fun start hmem l hl => ?_⟩
  obtain ⟨l', hs⟩ := hshared start hmem
  obtain rfl : l' = l := Option.some.inj (hs.there.symm.trans hl)
  refine (sameWays_iff hs).mpr fun item => ?_
  constructor
  · rintro ⟨hitem, hown⟩
    obtain ⟨start', hmem', hitem'⟩ := List.mem_flatMap.mp
      ((hsame item).mp ⟨List.mem_flatMap.mpr ⟨start, hmem, hitem⟩, hown⟩)
    obtain ⟨_, hs'⟩ := hshared start' hmem'
    have hhead := (path_head hs (.inl ⟨hitem, hown⟩)).symm.trans (path_head hs' (.inr hitem'))
    rwa [Option.some.inj hhead]
  · intro hitem
    obtain ⟨hmemHost, hown⟩ := (hsame item).mpr (List.mem_flatMap.mpr ⟨start, hmem, hitem⟩)
    obtain ⟨start', hmem', hitem'⟩ := List.mem_flatMap.mp hmemHost
    obtain ⟨_, hs'⟩ := hshared start' hmem'
    have hhead := (path_head hs (.inr hitem)).symm.trans (path_head hs' (.inl ⟨hitem', hown⟩))
    rw [Option.some.inj hhead]
    exact ⟨hitem', hown⟩

end Paths

/-! ## A start path with a slash -/

/-- A host on which all paths begin at the root. -/
def rootHost : Host := ⟨false, fun _ _ => [], fun _ names => names, fun _ names => .refl names⟩

/-- `d` -/
def nameD : FileName false := ⟨[100], by decide⟩

/-- `d/` -/
def startD : LuaString := [100, 47]

/-- `d/d` -/
def pathDD : LuaString := [100, 47, 100]

/-- A camera with `d/` and `d/d` in it. -/
def twoDirs : CamFind.CamFs where
  stat path := if path = startD ∨ path = pathDD then .ok .directory else .error []
  listdir path := .ok (if path = startD then [[100]] else [])
  idir := none

theorem length_joinPart {n : LuaString} (hn : IsPart false n) (path : LuaString) :
    path.length < (joinPart false path n).length := by
  obtain ⟨q, s, -, hjoin, hpath⟩ := joinPart_eq hn path
  have hlength := List.length_pos_iff.mpr hn.ne_nil
  rw [hjoin, List.length_append, List.length_cons]
  rcases hpath with rfl | ⟨-, rfl, -⟩
  · rw [List.length_append, List.length_singleton]
    omega
  · omega

theorem length_joinpath (start : LuaString) (names : List (FileName false)) :
    start.length + names.length ≤ (joinpath false start (names.map Subtype.val)).length := by
  induction names using List.reverseRecOn with
  | nil => exact Nat.le_refl _
  | append_singleton names n ih =>
    have hlonger := length_joinPart (FileName.isPart n)
      (joinpath false start (names.map Subtype.val))
    rw [List.map_append, List.map_singleton, FindFiles.joinpath_concat, List.length_append,
      List.length_singleton]
    omega

/-- What is below the start path. -/
theorem joinpath_startD (names : List (FileName false)) :
    joinpath false startD (names.map Subtype.val) = startD ∧ names = [] ∨
      joinpath false startD (names.map Subtype.val) = pathDD ∧ names = [nameD] ∨
      joinpath false startD (names.map Subtype.val) ≠ startD ∧
        joinpath false startD (names.map Subtype.val) ≠ pathDD ∧ names ≠ [] ∧
        names ≠ [nameD] := by
  match names with
  | [] => exact .inl ⟨rfl, rfl⟩
  | [n] =>
    have hjoin : joinpath false startD ([n].map Subtype.val) = startD ++ n.val := by
      have hhead : n.val.head?.any (isDirSep false) = false := by
        have hpart := FileName.isPart n
        cases hn : n.val with
        | nil => rfl
        | cons c rest => exact hpart.no_sep c (by rw [hn]; exact List.mem_cons_self)
      have hend : endsInSep false startD = true := by decide
      simp [joinpath, joinPart, hhead, hend]
    rw [hjoin]
    by_cases hn : n = nameD
    · subst hn
      exact .inr (.inl ⟨rfl, rfl⟩)
    · refine .inr (.inr ⟨?_, ?_, by simp, by simpa using hn⟩)
      · have hne := (FileName.isPart n).ne_nil
        simpa using hne
      · intro heq
        have hval : n.val = nameD.val := List.append_cancel_left heq
        exact hn (Subtype.ext hval)
  | n :: m :: rest =>
    have hlong := length_joinpath startD (n :: m :: rest)
    have hlength : startD.length + (n :: m :: rest).length = rest.length + 4 := by
      simp [startD]
      omega
    refine .inr (.inr ⟨?_, ?_, by simp, by simp⟩)
    · intro heq
      rw [heq, hlength] at hlong
      simp [startD] at hlong
    · intro heq
      rw [heq, hlength] at hlong
      simp [pathDD] at hlong

theorem chain_kind (names : List (FileName false)) :
    (chain nameD 2).kind ([nameD] ++ names) =
      if names = [] ∨ names = [nameD] then some .directory else none := by
  match names with
  | [] => rfl
  | [n] => by_cases hn : n = nameD <;> simp [chain, chainKind, hn]
  | n :: m :: rest => simp [chain, chainKind]

theorem twoDirs_kinds (names : List (FileName false)) :
    (twoDirs.stat (joinpath false startD (names.map Subtype.val))).toOption =
      (chain nameD 2).kind ([nameD] ++ names) := by
  rw [chain_kind, twoDirs]
  dsimp only
  rcases joinpath_startD names with ⟨hpath, rfl⟩ | ⟨hpath, rfl⟩ | ⟨hpath, hpath', hne, hne'⟩
  · rw [if_pos (.inl hpath), if_pos (.inl rfl)]
    rfl
  · rw [if_pos (.inr hpath), if_pos (.inr rfl)]
    rfl
  · rw [if_neg (not_or.mpr ⟨hpath, hpath'⟩), if_neg (not_or.mpr ⟨hne, hne'⟩)]
    rfl

theorem twoDirs_lists (names : List (FileName false))
    (hdir : (chain nameD 2).kind ([nameD] ++ names) = some .directory) :
    ∃ inside, twoDirs.listdir (joinpath false startD (names.map Subtype.val)) = .ok inside ∧
      inside.Perm (((chain nameD 2).names ([nameD] ++ names)).map Subtype.val) := by
  rw [chain_kind] at hdir
  rcases joinpath_startD names with ⟨hpath, rfl⟩ | ⟨hpath, rfl⟩ | ⟨-, -, hne, hne'⟩
  · exact ⟨[[100]], by rw [hpath]; rfl, .refl _⟩
  · exact ⟨[], by rw [hpath]; rfl, .refl _⟩
  · rw [if_neg (not_or.mpr ⟨hne, hne'⟩)] at hdir
    cases hdir

theorem shared_startD (rmatch : Option (LuaString → Bool)) :
    Shared rootHost (chain nameD 2) twoDirs { CamFind.findDefaults with rmatch := rmatch } startD
      [nameD] where
  there := (if_neg (List.cons_ne_nil _ _)).trans rfl
  found := rfl
  rest := by decide
  sep := rfl
  kinds := twoDirs_kinds
  lists := twoDirs_lists

/-- There is a slash in it. -/
def hasSlash (s : LuaString) : Bool := s.contains 47

end FindAlike
