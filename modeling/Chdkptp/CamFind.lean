import Chdkptp.Contracts
import Chdkptp.FileTree
import Chdkptp.RlibPaths
import Chdkptp.TreeWalk

/-!
# Walking directories on the camera

`fs_iter` and `find_files` of the rlibs. One iterator goes through all levels: a directory is
entered by lengthening its `rpath`, and its current item is set back when the walk comes out.
-/

namespace CamFind

open LuaValue LuaText FileTree FsUtil FsCam Contracts TreeWalk

/-- `self.cur`, with what `st.is_file` and `st.is_dir` say. -/
structure Cur where
  st : Kind
  full : LuaString
  name : Option LuaString
  path : List LuaString
  deriving DecidableEq

/-- The members of the iterator that change. -/
structure Iter where
  cur : Cur
  rpath : List LuaString

/-- Before the first item. -/
def Iter.start : Iter := ⟨⟨.other, [], none, []⟩, []⟩

/-- Why a walk ends early: a call returned `false` with an error, or an error was raised. -/
inductive Fault where
  | status (err : Option LuaString)
  | raised (err : LuaString)

/-- The file system of the camera, with `os.idir` if there is one. -/
structure CamFs where
  stat : LuaString → Except LuaString Kind
  listdir : LuaString → Except LuaString (List LuaString)
  idir : Option (LuaString → List LuaString)

/-- The options of `find_files`; patterns are predicates. -/
structure FindOpts where
  dirs : Bool
  dirsfirst : Bool
  maxdepth : Int
  fmatch : Option (LuaString → Bool)
  dmatch : Option (LuaString → Bool)
  rmatch : Option (LuaString → Bool)
  martians : Bool
  useIdir : Bool

def findDefaults : FindOpts where
  dirs := true
  dirsfirst := false
  maxdepth := 100
  fmatch := none
  dmatch := none
  rmatch := none
  martians := false
  useIdir := false

/-- `fs_iter:can_recurse` -/
def canRecurse (cur : Cur) : Bool :=
  cur.st = .directory ∧ cur.name ≠ some dot ∧ cur.name ≠ some dotdot

def checkMatch (opts : FindOpts) (cur : Cur) : Bool :=
  match cur.st with
  | .file => opts.fmatch.all fun matches_ => matches_ cur.full
  | .directory => opts.dmatch.all fun matches_ => matches_ cur.full
  | .other => opts.martians

/-- What `os.idir` goes through if it is used, or the table of `os.listdir`. -/
def entries (fs : CamFs) (opts : FindOpts) (dir : LuaString) :
    Except LuaString (List LuaString) :=
  match fs.idir with
  | some idir => if opts.useIdir then .ok (idir dir) else fs.listdir dir
  | none => fs.listdir dir

/-- `string.match` of a name that is nil. -/
def noName : LuaString :=
  bytes "bad argument #1 to 'match' (string expected, got nil)".toList

def overflow : LuaString := bytes "stack overflow".toList

/-- What `fs_iter:singleitem` makes the current item. -/
def curOf (st : Kind) (rpath : List LuaString) (path : LuaString) : Cur :=
  let name := if path = root then some root else RlibPaths.basename (some path) none
  { st, full := path, name, path := if rpath.length = 0 then [path] else rpath ++ name.toList }

/-- A part of the walk, which acts on the iterator and on what else there is. -/
abbrev WalkM (σ α : Type) := EStateM Fault (Iter × σ) α

/-- A function for the items. -/
abbrev Func (σ : Type) := Iter → EStateM Fault σ PUnit

section Walk

variable {σ : Type} (opts : FindOpts) (func : Func σ) (fs : CamFs)

def self : WalkM σ Iter := fun s => .ok s.1 s

def setSelf (it : Iter) : WalkM σ PUnit := fun s => .ok ⟨⟩ (it, s.2)

def onData (x : EStateM Fault σ PUnit) : WalkM σ PUnit := fun s =>
  match x s.2 with
  | .ok _ d => .ok ⟨⟩ (s.1, d)
  | .error e d => .error e (s.1, d)

/-- `ff_item` -/
def ffItem : WalkM σ PUnit := do
  let it ← self
  doIf (checkMatch opts it.cur) (onData (func it))

/-- `not opts.rmatch or string.match(self.cur.name,opts.rmatch)` -/
def nameMatches (cur : Cur) : Except LuaString Bool :=
  match opts.rmatch, cur.name with
  | none, _ => .ok true
  | some matches_, some name => .ok (matches_ name)
  | some _, none => .error noName

/-- `fs_iter:recurse`, where `can_recurse` is true; `singledir` is for the directory. When it
fails, nothing looks at the iterator any more. -/
def recurse (singledir : LuaString → WalkM σ PUnit) : WalkM σ PUnit := do
  let saved ← self
  setSelf { saved with rpath := saved.rpath ++ saved.cur.path.getLast?.toList }
  singledir saved.cur.full
  let it ← self
  setSelf ⟨saved.cur, it.rpath.dropLast⟩

/-- The part of the `callback` that goes down. -/
def goDown (singledir : LuaString → WalkM σ PUnit) : WalkM σ PUnit := do
  let it ← self
  if (it.rpath.length : Int) < opts.maxdepth ∧ canRecurse it.cur then
    match nameMatches opts it.cur with
    | .error e => throw (.raised e)
    | .ok go => doIf go (recurse singledir)
  else pure ⟨⟩

/-- The `callback` of `find_files`. -/
def callback (singledir : LuaString → WalkM σ PUnit) : WalkM σ PUnit := do
  let it ← self
  if it.cur.st = .directory then do
    doIf (opts.dirs ∧ opts.dirsfirst) (ffItem opts func)
    goDown opts singledir
    doIf (opts.dirs ∧ ¬opts.dirsfirst) (ffItem opts func)
  else ffItem opts func

/-- `fs_iter:singleitem`, whose calls may be nested that deep. The directory's loop is
`fs_iter:singledir`. -/
def singleitem : Nat → LuaString → WalkM σ PUnit
  | 0, _ => throw (.raised overflow)
  | limit + 1, path =>
    match fs.stat path with
    | .error e => throw (.status (some e))
    | .ok st => do
      let it ← self
      setSelf { it with cur := curOf st it.rpath path }
      callback opts func fun dir =>
        match entries fs opts dir with
        | .error e => throw (.status (some e))
        | .ok names => names.forM fun name => singleitem limit (joinPart false dir name)

/-- The loop of `fs_iter.run`. -/
def run (paths : List LuaString) : WalkM σ PUnit :=
  paths.forM fun path => do
    let it ← self
    setSelf { it with rpath := [] }
    singleitem opts func fs (opts.maxdepth.toNat + 1) path

/-- The `end_callback` after the walk, where `bflush` is `ff_bflush`. -/
def endCallback (bflush walk : EStateM Fault σ PUnit) : EStateM Fault σ PUnit := fun d =>
  match walk d with
  | .ok _ d => bflush d
  | .error (.raised e) d => .error (.raised e) d
  | .error (.status e) d =>
    match bflush d with
    | .error (.raised e') d => .error (.raised e') d
    | .error (.status _) d | .ok _ d => .error (.status e) d

/-- `find_files` -/
def findFiles (bflush : EStateM Fault σ PUnit) (paths : List LuaString) :
    EStateM Fault σ PUnit :=
  endCallback bflush fun d =>
    match run opts func fs paths (Iter.start, d) with
    | .ok _ s => .ok ⟨⟩ s.2
    | .error e s => .error e s.2

end Walk

/-! ## The items of a walk -/

/-- The path of what is below a start path under these names. -/
def fullOf (start : LuaString) (names : List LuaString) : LuaString :=
  names.foldl (joinPart false) start

section Items

variable (fs : CamFs) (opts : FindOpts) (start : LuaString)

def kindAt (names : List LuaString) : Kind :=
  match fs.stat (fullOf start names) with
  | .ok st => st
  | .error _ => .other

/-- The current item below a start path under these names. -/
def curAt (names : List LuaString) : Cur :=
  curOf (kindAt fs start names) (start :: names).dropLast (fullOf start names)

/-- The names in a directory. -/
def namesAt (names : List LuaString) : List LuaString :=
  match entries fs opts (fullOf start names) with
  | .ok names => names
  | .error _ => []

/-- The name matches `rmatch`. -/
def nameOk (cur : Cur) : Bool := opts.rmatch.all fun matches_ => cur.name.any matches_

/-- A path that the name can be taken from. -/
def hasName (start : LuaString) : Bool :=
  start = root ∨ (RlibPaths.basename (some start) none).isSome

/-- Where names are to match, a start path that can be entered has one. -/
def Nameable : Prop := opts.rmatch.isSome → 0 < opts.maxdepth → kindAt fs start [] = .directory →
  hasName start = true

/-- The walk from a start path. -/
def walkFrom : Walk LuaString where
  kids := namesAt fs opts start
  enters names := (names.length : Int) < opts.maxdepth ∧ canRecurse (curAt fs start names) ∧
    nameOk opts (curAt fs start names)
  takes names := checkMatch opts (curAt fs start names) ∧
    (kindAt fs start names = .directory → opts.dirs)
  first := opts.dirsfirst

/-- What is at and below a start path: it can be found, a directory can be listed, and what is
listed are different names that can be found. -/
structure Present : Prop where
  found : ∃ st, fs.stat start = .ok st
  listed : ∀ names, (walkFrom fs opts start).Reaches [] names →
    fs.stat (fullOf start names) = .ok .directory →
    ∃ inside, entries fs opts (fullOf start names) = .ok inside ∧ inside.Nodup ∧
      ∀ n ∈ inside, isName false n = true ∧ ∃ st, fs.stat (fullOf start (names ++ [n])) = .ok st

/-- The items below a start path, by their names. -/
def itemsFrom : List (List LuaString) := (walkFrom fs opts start).items (opts.maxdepth.toNat + 1) []

/-- The items of all start paths in turn. -/
def itemsOf (paths : List LuaString) : List Cur :=
  paths.flatMap fun start => (itemsFrom fs opts start).map (curAt fs start)

end Items

/-! ## What the function sees -/

section Does

variable {σ : Type}

/-- The function is called for these items in turn, and ends the walk if it fails. -/
def onItems (func : Func σ) (items : List Cur) : EStateM Fault σ PUnit :=
  items.forM fun cur => func ⟨cur, cur.path.dropLast⟩

/-- How an action and a part of the walk come out alike. -/
def Alike (it' : Iter) :
    EStateM.Result Fault σ PUnit → EStateM.Result Fault (Iter × σ) PUnit → Prop
  | .ok _ d, r => r = .ok ⟨⟩ (it', d)
  | .error e d, r => ∃ it, r = .error e (it, d)

/-- From one state of the iterator to another, a part of the walk does what an action does on the
rest, and fails when it fails. -/
def Does (x : WalkM σ PUnit) (it it' : Iter) (y : EStateM Fault σ PUnit) : Prop :=
  ∀ d, Alike it' (y d) (x (it, d))

variable {x : WalkM σ PUnit} {it it' it₁ : Iter} {y z : EStateM Fault σ PUnit}

theorem does_pure : Does (pure ⟨⟩ : WalkM σ PUnit) it it (pure ⟨⟩) := fun _ => rfl

theorem does_onData : Does (onData y) it it y := by
  intro d
  rw [onData]
  cases y d with
  | ok u d' => exact rfl
  | error e d' => exact ⟨it, rfl⟩

theorem run_bind {ε ρ α β : Type} (x : EStateM ε ρ α) (f : α → EStateM ε ρ β) (s : ρ) :
    (x >>= f) s = match x s with
      | .ok a s' => f a s'
      | .error e s' => .error e s' := rfl

theorem Does.bind {f : PUnit → WalkM σ PUnit} (hx : Does x it it₁ y)
    (hf : Does (f ⟨⟩) it₁ it' z) : Does (x >>= f) it it' (y >>= fun _ => z) := by
  intro d
  have hx := hx d
  rw [run_bind, run_bind]
  cases hy : y d with
  | ok u d' =>
    rw [hy] at hx
    obtain hx : x (it, d) = .ok ⟨⟩ (it₁, d') := hx
    rw [hx]
    exact hf d'
  | error e d' =>
    rw [hy] at hx
    obtain ⟨it₂, hx⟩ := hx
    rw [hx]
    exact ⟨it₂, rfl⟩

theorem Does.seq {x' : WalkM σ PUnit} (hx : Does x it it₁ y) (hx' : Does x' it₁ it' z) :
    Does (x >>= fun _ => x') it it' (y >>= fun _ => z) := hx.bind hx'

theorem does_self {f : Iter → WalkM σ PUnit} (h : Does (f it) it it' y) :
    Does (self >>= f) it it' y := h

theorem does_setSelf {f : PUnit → WalkM σ PUnit} (h : Does (f ⟨⟩) it₁ it' y) :
    Does (setSelf it₁ >>= f) it it' y := h

theorem does_doIf {c : Prop} [Decidable c] (h : c → Does x it it y) :
    Does (doIf c x) it it (doIf c y) := by
  rw [doIf, doIf]
  split
  · next hc => exact h hc
  · exact does_pure

theorem does_forM {ν : Type} {r : List LuaString} {f : ν → WalkM σ PUnit}
    {g : ν → EStateM Fault σ PUnit} (ns : List ν)
    (h : ∀ n ∈ ns, ∀ it : Iter, it.rpath = r → ∃ it', it'.rpath = r ∧ Does (f n) it it' (g n))
    (it : Iter) (hr : it.rpath = r) :
    ∃ it', it'.rpath = r ∧ Does (ns.forM f) it it' (ns.forM g) := by
  induction ns generalizing it with
  | nil => exact ⟨it, hr, does_pure⟩
  | cons n ns ih =>
    obtain ⟨it₁, hr₁, hn⟩ := h n List.mem_cons_self it hr
    obtain ⟨it', hr', hrest⟩ := ih (fun m hm => h m (List.mem_cons_of_mem n hm)) it₁ hr₁
    exact ⟨it', hr', hn.bind hrest⟩

variable {func : Func σ}

theorem onItems_append (a b : List Cur) :
    onItems func (a ++ b) = onItems func a >>= fun _ => onItems func b := by
  rw [onItems, List.forM_eq_forM, List.forM_append]
  rfl

theorem onItems_flatMap {ν : Type} (ns : List ν) (items : ν → List Cur) :
    onItems func (ns.flatMap items) = ns.forM fun n => onItems func (items n) := by
  induction ns with
  | nil => rfl
  | cons n ns ih =>
    rw [List.flatMap_cons, onItems_append, ih]
    rfl

theorem onItems_if {c : Prop} [Decidable c] (cur : Cur) :
    onItems func (if c then [cur] else []) = doIf c (func ⟨cur, cur.path.dropLast⟩) := by
  rw [doIf]
  split
  · exact bind_pure _
  · rfl

end Does

/-! ## Where the walk is -/

section Places

variable {fs : CamFs} {opts : FindOpts} {start : LuaString}

theorem fullOf_append (start : LuaString) (names : List LuaString) (n : LuaString) :
    fullOf start (names ++ [n]) = joinPart false (fullOf start names) n := by
  rw [fullOf, List.foldl_append]
  rfl

theorem isPart_of_isName {n : LuaString} (hn : isName false n = true) : IsPart false n :=
  FileName.isPart ⟨n, hn⟩

theorem lastName_joinPart {n : LuaString} (hn : IsPart false n) (path : LuaString) :
    lastName (joinPart false path n) = some n := by
  obtain ⟨q, s, hs, hjoin, -⟩ := joinPart_eq hn path
  have hlast : (q ++ s :: n).getLast? ≠ some slash := by
    intro hlast
    have hend := hn.not_endsInSep (q ++ [s])
    rw [List.append_assoc, List.singleton_append, endsInSep, hlast] at hend
    cases hend
  have hname : (fun c => decide (c ≠ slash)) = fun c => !isDirSep false c := by
    funext c
    by_cases hc : c = 47 <;> simp [isDirSep, slash, hc]
  simp only [hjoin, lastName, if_neg hlast]
  rw [hname, rtakeWhile_sep hn.no_sep q s hs, if_neg hn.ne_nil]

theorem joinPart_ne_root {n : LuaString} (hn : IsPart false n) (path : LuaString) :
    joinPart false path n ≠ root := by
  obtain ⟨q, s, hs, hjoin, -⟩ := joinPart_eq hn path
  intro hroot
  have hend := hn.not_endsInSep (q ++ [s])
  rw [List.append_assoc, List.singleton_append, ← hjoin, hroot] at hend
  cases hend

theorem curOf_below (st : Kind) {rpath : List LuaString} (hr : rpath ≠ []) (path : LuaString)
    {n : LuaString} (hn : isName false n = true) :
    curOf st rpath (joinPart false path n) =
      ⟨st, joinPart false path n, some n, rpath ++ [n]⟩ := by
  have hpart := isPart_of_isName hn
  have hlength : rpath.length ≠ 0 := fun h => hr (List.eq_nil_of_length_eq_zero h)
  have hname : RlibPaths.basename (some (joinPart false path n)) none = some n := by
    simp [RlibPaths.basename, joinPart_ne_root hpart, lastName_joinPart hpart]
  simp [curOf, joinPart_ne_root hpart, hname, hlength]

theorem curAt_append {names : List LuaString} {n : LuaString} (hn : isName false n = true) :
    curAt fs start (names ++ [n]) = ⟨kindAt fs start (names ++ [n]),
      fullOf start (names ++ [n]), some n, start :: (names ++ [n])⟩ := by
  have hr : (start :: (names ++ [n])).dropLast = start :: names := by
    rw [← List.cons_append, List.dropLast_concat]
  rw [curAt, hr, fullOf_append, curOf_below _ (List.cons_ne_nil _ _) _ hn]
  rfl

theorem curAt_st (names : List LuaString) : (curAt fs start names).st = kindAt fs start names := rfl

theorem curAt_full (names : List LuaString) :
    (curAt fs start names).full = fullOf start names := rfl

/-- The path array is the start path and the names. -/
theorem curAt_path {names : List LuaString} (hnames : ∀ n ∈ names, isName false n = true) :
    (curAt fs start names).path = start :: names := by
  induction names using List.reverseRecOn with
  | nil => rfl
  | append_singleton names n => rw [curAt_append (hnames n (by simp))]

theorem curAt_name : (curAt fs start []).name.isSome = hasName start := by
  by_cases hroot : start = root <;> simp [curAt, curOf, hasName, fullOf, hroot]

theorem enters_iff {names : List LuaString} : (walkFrom fs opts start).enters names = true ↔
    (names.length : Int) < opts.maxdepth ∧ canRecurse (curAt fs start names) = true ∧
      nameOk opts (curAt fs start names) = true := decide_eq_true_iff

theorem takes_iff {names : List LuaString} : (walkFrom fs opts start).takes names = true ↔
    checkMatch opts (curAt fs start names) = true ∧
      (kindAt fs start names = .directory → opts.dirs = true) := decide_eq_true_iff

theorem enters_directory {names : List LuaString}
    (h : (walkFrom fs opts start).enters names = true) :
    fs.stat (fullOf start names) = .ok .directory := by
  have hrecurse := (enters_iff.mp h).2.1
  rw [canRecurse, curAt_st, decide_eq_true_eq] at hrecurse
  have hkind := hrecurse.1
  rw [kindAt] at hkind
  split at hkind
  · next st hst => rw [hst, hkind]
  · cases hkind

/-- A directory that is not where the walk began can be entered. -/
theorem canRecurse_below {names : List LuaString} (hnames : ∀ n ∈ names, isName false n = true)
    (hne : names ≠ []) :
    canRecurse (curAt fs start names) = true ↔ kindAt fs start names = .directory := by
  obtain ⟨above, n, rfl⟩ := List.eq_nil_or_concat' names |>.resolve_left hne
  have hn := hnames n (by simp)
  have hdots := hn
  simp only [isName, decide_eq_true_eq] at hdots
  rw [curAt_append hn, canRecurse]
  simp [hdots.2.1, hdots.2.2.1]

/-- Where the walk can go on there is a name to match. -/
theorem nameMatches_eq {names : List LuaString} (hnames : ∀ n ∈ names, isName false n = true)
    (hstart : Nameable fs opts start) (hdepth : (names.length : Int) < opts.maxdepth)
    (hrecurse : canRecurse (curAt fs start names) = true) :
    nameMatches opts (curAt fs start names) = .ok (nameOk opts (curAt fs start names)) := by
  have hname : opts.rmatch.isSome → (curAt fs start names).name.isSome := by
    intro hrmatch
    cases names using List.reverseRecOn with
    | nil =>
      rw [canRecurse, decide_eq_true_eq] at hrecurse
      rw [curAt_name]
      exact hstart hrmatch hdepth hrecurse.1
    | append_singleton names n =>
      rw [curAt_append (hnames n (by simp))]
      rfl
  rw [nameMatches, nameOk]
  cases hrmatch : opts.rmatch with
  | none => rfl
  | some matches_ =>
    obtain ⟨name, hname⟩ := Option.isSome_iff_exists.mp (hname (by rw [hrmatch]; rfl))
    rw [hname]
    rfl

/-- What can be reached from a start path has proper names. -/
theorem reaches_names {names : List LuaString}
    (htree : Present fs opts start)
    (h : (walkFrom fs opts start).Reaches [] names) : ∀ n ∈ names, isName false n = true := by
  induction h with
  | here => exact fun n hn => absurd hn List.not_mem_nil
  | @step above n hreach henters hn ih =>
    obtain ⟨inside, hinside, -, hchildren⟩ := htree.listed above hreach (enters_directory henters)
    obtain hn : n ∈ namesAt fs opts start above := hn
    rw [namesAt, hinside] at hn
    intro m hm
    rcases List.mem_append.mp hm with hm | hm
    · exact ih m hm
    · rw [List.mem_singleton.mp hm]
      exact (hchildren n hn).1

end Places

/-! ## The walk -/

section Walks

variable {σ : Type} {fs : CamFs} {opts : FindOpts} {start : LuaString} {func : Func σ}
  {names : List LuaString}

theorem does_ffItem (hnames : ∀ n ∈ names, isName false n = true) (r : List LuaString)
    (hr : r = (start :: names).dropLast) :
    Does (ffItem opts func) ⟨curAt fs start names, r⟩ ⟨curAt fs start names, r⟩
      (doIf (checkMatch opts (curAt fs start names))
        (func ⟨curAt fs start names, (curAt fs start names).path.dropLast⟩)) := by
  rw [curAt_path hnames, ← hr]
  exact does_self (does_doIf fun _ => does_onData)

/-- Into the directory and out of it. -/
theorem does_recurse (hnames : ∀ n ∈ names, isName false n = true)
    {singledir : LuaString → WalkM σ PUnit} {y : EStateM Fault σ PUnit}
    (hdir : ∀ it : Iter, it.rpath = start :: names → ∃ it', it'.rpath = start :: names ∧
      Does (singledir (fullOf start names)) it it' y)
    (r : List LuaString) (hr : r = (start :: names).dropLast) :
    Does (recurse singledir) ⟨curAt fs start names, r⟩ ⟨curAt fs start names, r⟩ y := by
  have hin : r ++ (curAt fs start names).path.getLast?.toList = start :: names := by
    rw [curAt_path hnames, hr, List.getLast?_eq_some_getLast (List.cons_ne_nil start names)]
    exact List.dropLast_append_getLast (List.cons_ne_nil start names)
  obtain ⟨it', hout, hdoes⟩ := hdir ⟨curAt fs start names, start :: names⟩ rfl
  refine does_self ?_
  rw [hin]
  refine does_setSelf ?_
  have hback : Does (self >>= fun it => setSelf ⟨curAt fs start names, it.rpath.dropLast⟩) it'
      (⟨curAt fs start names, r⟩ : Iter) (pure ⟨⟩ : EStateM Fault σ PUnit) := by
    intro d
    rw [hr, ← hout]
    rfl
  have hseq := hdoes.seq hback
  rwa [bind_pure_unit] at hseq

theorem doIf_doIf {ε ρ : Type} {a b c : Prop} [Decidable a] [Decidable b] [Decidable c]
    (x : EStateM ε ρ PUnit) (h : a ∧ b ↔ c) : doIf a (doIf b x) = doIf c x := by
  rw [doIf, doIf, doIf]
  by_cases ha : a
  · rw [if_pos ha]
    exact if_congr ((iff_of_eq (true_and b)).symm.trans (by rw [← h, eq_true ha])) rfl rfl
  · rw [if_neg ha, if_neg fun hc => ha (h.mpr hc).1]

/-- What the walk goes through is in the directory. -/
theorem does_goDown (hnames : ∀ n ∈ names, isName false n = true)
    (hstart : Nameable fs opts start)
    {singledir : LuaString → WalkM σ PUnit} {y : EStateM Fault σ PUnit}
    (hdir : (walkFrom fs opts start).enters names = true → ∀ it : Iter,
      it.rpath = start :: names → ∃ it', it'.rpath = start :: names ∧
        Does (singledir (fullOf start names)) it it' y)
    (r : List LuaString) (hr : r = (start :: names).dropLast) :
    Does (goDown opts singledir) ⟨curAt fs start names, r⟩ ⟨curAt fs start names, r⟩
      (doIf ((walkFrom fs opts start).enters names = true) y) := by
  have hlength : r.length = names.length := by rw [hr]; simp
  refine does_self ?_
  rw [hlength]
  by_cases hgo : (names.length : Int) < opts.maxdepth ∧ canRecurse (curAt fs start names) = true
  · have henters : (walkFrom fs opts start).enters names = true ↔
        nameOk opts (curAt fs start names) = true := by
      simp only [walkFrom, decide_eq_true_eq]
      exact ⟨fun h => h.2.2, fun h => ⟨hgo.1, hgo.2, h⟩⟩
    rw [if_pos hgo, nameMatches_eq hnames hstart hgo.1 hgo.2]
    have hdoes : Does (doIf (nameOk opts (curAt fs start names) = true) (recurse singledir))
        ⟨curAt fs start names, r⟩ ⟨curAt fs start names, r⟩
        (doIf (nameOk opts (curAt fs start names) = true) y) :=
      does_doIf fun hok => does_recurse hnames (hdir (henters.mpr hok)) r hr
    have hsame : doIf ((walkFrom fs opts start).enters names = true) y =
        doIf (nameOk opts (curAt fs start names) = true) y := if_congr henters rfl rfl
    rwa [hsame]
  · rw [if_neg hgo, doIf, if_neg]
    · exact does_pure
    · intro henters
      obtain ⟨hdepth, hrecurse, -⟩ := enters_iff.mp henters
      exact hgo ⟨hdepth, hrecurse⟩

/-- The directory before or behind what is below it, and anything else once. -/
theorem does_callback (hnames : ∀ n ∈ names, isName false n = true)
    (hstart : Nameable fs opts start)
    {singledir : LuaString → WalkM σ PUnit} {y : EStateM Fault σ PUnit}
    (hdir : (walkFrom fs opts start).enters names = true → ∀ it : Iter,
      it.rpath = start :: names → ∃ it', it'.rpath = start :: names ∧
        Does (singledir (fullOf start names)) it it' y)
    (r : List LuaString) (hr : r = (start :: names).dropLast) :
    let w := walkFrom fs opts start
    let f := func ⟨curAt fs start names, (curAt fs start names).path.dropLast⟩
    Does (callback opts func singledir) ⟨curAt fs start names, r⟩ ⟨curAt fs start names, r⟩
      (doIf (w.first ∧ w.takes names) f >>= fun _ =>
        doIf (w.enters names = true) y >>= fun _ => doIf (¬w.first ∧ w.takes names) f) := by
  intro w f
  have hitem : Does (ffItem opts func) ⟨curAt fs start names, r⟩ ⟨curAt fs start names, r⟩
      (doIf (checkMatch opts (curAt fs start names)) f) := does_ffItem hnames r hr
  refine does_self ?_
  dsimp only
  rw [curAt_st]
  by_cases hkind : kindAt fs start names = .directory
  · have htakes : w.takes names = true ↔
        checkMatch opts (curAt fs start names) = true ∧ opts.dirs = true := by
      rw [takes_iff, hkind]
      simp
    have hbefore : doIf (w.first ∧ w.takes names) f = doIf (opts.dirs ∧ opts.dirsfirst)
        (doIf (checkMatch opts (curAt fs start names)) f) := by
      refine (doIf_doIf f ?_).symm
      rw [htakes]
      simp only [w, walkFrom]
      tauto
    have hbehind : doIf (¬w.first ∧ w.takes names) f = doIf (opts.dirs ∧ ¬opts.dirsfirst)
        (doIf (checkMatch opts (curAt fs start names)) f) := by
      refine (doIf_doIf f ?_).symm
      rw [htakes]
      simp only [w, walkFrom]
      tauto
    rw [if_pos hkind, hbefore, hbehind]
    exact (does_doIf fun _ => hitem).seq
      ((does_goDown hnames hstart hdir r hr).seq (does_doIf fun _ => hitem))
  · have htakes : w.takes names = true ↔ checkMatch opts (curAt fs start names) = true := by
      rw [takes_iff]
      simp [hkind]
    have henters : ¬w.enters names = true := by
      rw [enters_iff, canRecurse, curAt_st]
      simp [hkind]
    have hone : (doIf (w.first ∧ w.takes names) f >>= fun _ => doIf (w.enters names = true) y >>=
        fun _ => doIf (¬w.first ∧ w.takes names) f) =
          doIf (checkMatch opts (curAt fs start names)) f := by
      have hnone : doIf (w.enters names = true) y = pure ⟨⟩ := if_neg henters
      rw [hnone, pure_bind]
      cases hfirst : w.first with
      | true =>
        have hlast : doIf (¬true = true ∧ w.takes names = true) f = pure ⟨⟩ := if_neg (by simp)
        rw [hlast, bind_pure_unit]
        exact if_congr (by rw [htakes]; simp) rfl rfl
      | false =>
        have hhead : doIf (false = true ∧ w.takes names = true) f = pure ⟨⟩ := if_neg (by simp)
        rw [hhead, pure_bind]
        exact if_congr (by rw [htakes]; simp) rfl rfl
    rw [if_neg hkind, hone]
    exact hitem

/-- From an item on the function is called for what the walk takes there. -/
theorem does_singleitem (htree : Present fs opts start)
    (hstart : Nameable fs opts start) (limit : Nat)
    (hreach : (walkFrom fs opts start).Reaches [] names)
    (hfound : ∃ st, fs.stat (fullOf start names) = .ok st)
    (hdeep : names.length ≤ opts.maxdepth.toNat)
    (hlimit : opts.maxdepth.toNat < names.length + limit)
    (it : Iter) (hr : it.rpath = (start :: names).dropLast) :
    Does (singleitem opts func fs limit (fullOf start names)) it
      ⟨curAt fs start names, it.rpath⟩
      (onItems func (((walkFrom fs opts start).items limit names).map (curAt fs start))) := by
  induction limit generalizing names it with
  | zero => omega
  | succ limit ih =>
    have hnames := reaches_names htree hreach
    obtain ⟨st, hst⟩ := hfound
    have hkind : kindAt fs start names = st := by rw [kindAt, hst]
    have hcur : curOf st it.rpath (fullOf start names) = curAt fs start names := by
      rw [curAt, hkind, hr]
    have hitems : onItems func
        (((walkFrom fs opts start).items (limit + 1) names).map (curAt fs start)) =
        (doIf ((walkFrom fs opts start).first ∧ (walkFrom fs opts start).takes names)
          (func ⟨curAt fs start names, (curAt fs start names).path.dropLast⟩) >>= fun _ =>
        doIf ((walkFrom fs opts start).enters names = true)
          ((namesAt fs opts start names).forM fun n => onItems func
            (((walkFrom fs opts start).items limit (names ++ [n])).map (curAt fs start))) >>=
        fun _ => doIf (¬(walkFrom fs opts start).first ∧ (walkFrom fs opts start).takes names)
          (func ⟨curAt fs start names, (curAt fs start names).path.dropLast⟩)) := by
      have hinside : onItems func (((if (walkFrom fs opts start).enters names = true then
          ((walkFrom fs opts start).kids names).flatMap fun n =>
            (walkFrom fs opts start).items limit (names ++ [n])
          else [])).map (curAt fs start)) = doIf ((walkFrom fs opts start).enters names = true)
          ((namesAt fs opts start names).forM fun n => onItems func
            (((walkFrom fs opts start).items limit (names ++ [n])).map (curAt fs start))) := by
        rw [doIf]
        split
        · rw [List.map_flatMap, onItems_flatMap]
          rfl
        · rfl
      rw [Walk.items, List.map_append, List.map_append, List.append_assoc, onItems_append,
        onItems_append, hinside]
      congr 1
      · rw [← onItems_if, apply_ite (List.map _)]
        rfl
      · rw [← onItems_if, apply_ite (List.map _)]
        rfl
    rw [singleitem, hst, hitems]
    refine does_self (does_setSelf ?_)
    rw [hcur]
    refine does_callback hnames hstart ?_ it.rpath hr
    intro henters it₁ hr₁
    have hdirectory := enters_directory henters
    have hdepth : names.length < opts.maxdepth.toNat := by
      have := (enters_iff.mp henters).1
      omega
    obtain ⟨inside, hinside, -, hchildren⟩ := htree.listed names hreach hdirectory
    have hnamesAt : namesAt fs opts start names = inside := by rw [namesAt, hinside]
    rw [hinside, hnamesAt]
    refine does_forM inside (fun n hn it₂ hr₂ => ?_) it₁ hr₁
    have hbelow : it₂.rpath = (start :: (names ++ [n])).dropLast := by
      rw [hr₂, ← List.cons_append, List.dropLast_concat]
    refine ⟨⟨curAt fs start (names ++ [n]), it₂.rpath⟩, hr₂, ?_⟩
    rw [← fullOf_append]
    have hkid : n ∈ namesAt fs opts start names := by rwa [hnamesAt]
    refine ih (.step hreach henters hkid) (hchildren n hn).2 ?_ ?_ it₂ hbelow
    · rw [List.length_append, List.length_singleton]
      exact hdepth
    · rw [List.length_append, List.length_singleton]
      omega

/-- A whole walk from a start path. -/
theorem does_start (htree : Present fs opts start) (hstart : Nameable fs opts start) (it : Iter)
    (hr : it.rpath = []) :
    Does (singleitem opts func fs (opts.maxdepth.toNat + 1) start) it ⟨curAt fs start [], []⟩
      (onItems func ((itemsFrom fs opts start).map (curAt fs start))) := by
  have hdoes : Does (singleitem opts func fs (opts.maxdepth.toNat + 1) (fullOf start [])) it
      ⟨curAt fs start [], it.rpath⟩
      (onItems func ((itemsFrom fs opts start).map (curAt fs start))) :=
    does_singleitem htree hstart _ .here htree.found (Nat.zero_le _) (by simp) it hr
  rwa [hr] at hdoes

/-- All start paths. -/
theorem does_run {paths : List LuaString} (htree : ∀ start ∈ paths, Present fs opts start)
    (hstart : ∀ start ∈ paths, Nameable fs opts start) (it : Iter) :
    ∃ it', Does (run opts func fs paths) it it' (onItems func (itemsOf fs opts paths)) := by
  induction paths generalizing it with
  | nil => exact ⟨it, does_pure⟩
  | cons start paths ih =>
    obtain ⟨hone, hmore⟩ := List.forall_mem_cons.mp htree
    obtain ⟨hstart, hstarts⟩ := List.forall_mem_cons.mp hstart
    obtain ⟨it', hrest⟩ := ih hmore hstarts ⟨curAt fs start [], []⟩
    refine ⟨it', ?_⟩
    rw [itemsOf, List.flatMap_cons, onItems_append]
    exact Does.seq (does_self (does_setSelf (does_start hone hstart _ rfl))) hrest

/-- The function is called for the items in turn. -/
theorem findFiles_eq (bflush : EStateM Fault σ PUnit) {paths : List LuaString}
    (htree : ∀ start ∈ paths, Present fs opts start)
    (hstart : ∀ start ∈ paths, Nameable fs opts start) :
    findFiles opts func fs bflush paths =
      endCallback bflush (onItems func (itemsOf fs opts paths)) := by
  obtain ⟨it', hdoes⟩ : ∃ it', Does (run opts func fs paths) Iter.start it'
      (onItems func (itemsOf fs opts paths)) := does_run htree hstart Iter.start
  rw [findFiles]
  congr 1
  funext d
  have hd := hdoes d
  cases hy : onItems func (itemsOf fs opts paths) d with
  | ok u d' =>
    rw [hy] at hd
    obtain hd : run opts func fs paths (Iter.start, d) = .ok ⟨⟩ (it', d') := hd
    rw [hd]
  | error e d' =>
    rw [hy] at hd
    obtain ⟨it₁, hd⟩ := hd
    rw [hd]

/-! ## A name that is not there -/

theorem canRecurse_nameless (hkind : kindAt fs start [] = .directory)
    (hnone : (curAt fs start []).name = none) : canRecurse (curAt fs start []) = true := by
  rw [canRecurse, curAt_st, hkind, hnone]
  simp

theorem stat_of_kindAt (hkind : kindAt fs start [] = .directory) :
    fs.stat start = .ok .directory := by
  have hfull : kindAt fs start [] = match fs.stat start with
    | .ok st => st
    | .error _ => .other := rfl
  rw [hfull] at hkind
  split at hkind
  · next st hst => rw [hst, hkind]
  · cases hkind

/-- Where there is no name to match, going down is an error. -/
theorem goDown_nameless {matches_ : LuaString → Bool} (hrmatch : opts.rmatch = some matches_)
    (hdepth : 0 < opts.maxdepth) (hkind : kindAt fs start [] = .directory)
    (hnone : (curAt fs start []).name = none) (singledir : LuaString → WalkM σ PUnit) (d : σ) :
    goDown opts singledir (⟨curAt fs start [], []⟩, d) =
      .error (.raised noName) (⟨curAt fs start [], []⟩, d) := by
  have hmatches : nameMatches opts (curAt fs start []) = .error noName := by
    rw [nameMatches, hrmatch, hnone]
  have hself : goDown opts singledir (⟨curAt fs start [], []⟩, d) =
      (if (0 : Int) < opts.maxdepth ∧ canRecurse (curAt fs start []) = true then
        match nameMatches opts (curAt fs start []) with
        | .error e => throw (.raised e)
        | .ok go => doIf go (recurse singledir)
      else pure ⟨⟩ : WalkM σ PUnit) (⟨curAt fs start [], []⟩, d) := rfl
  rw [hself, if_pos ⟨hdepth, canRecurse_nameless hkind hnone⟩, hmatches]
  rfl

/-- A start path that is to match and has no name is an error, if the function is none before. -/
theorem singleitem_nameless (hnot : ¬Nameable fs opts start) (limit : Nat) (it : Iter)
    (hr : it.rpath = []) (d : σ) :
    ∃ e s, singleitem opts func fs (limit + 1) start (it, d) = .error e s := by
  simp only [Nameable, not_forall] at hnot
  obtain ⟨hrmatch, hdepth, hkind, hname⟩ := hnot
  obtain ⟨matches_, hrmatch⟩ := Option.isSome_iff_exists.mp hrmatch
  have hnone : (curAt fs start []).name = none := by
    rw [← Option.not_isSome_iff_eq_none, curAt_name]
    exact hname
  have hcur : curOf .directory [] start = curAt fs start [] := by
    rw [curAt, hkind]
    rfl
  have hcallback : ∀ singledir : LuaString → WalkM σ PUnit,
      ∃ e s, callback opts func singledir (⟨curAt fs start [], []⟩, d) = .error e s := by
    intro singledir
    have hself : callback opts func singledir (⟨curAt fs start [], []⟩, d) =
        (if (curAt fs start []).st = .directory then
          doIf (opts.dirs ∧ opts.dirsfirst) (ffItem opts func) >>= fun _ =>
            goDown opts singledir >>= fun _ =>
              doIf (opts.dirs ∧ ¬opts.dirsfirst) (ffItem opts func)
        else ffItem opts func : WalkM σ PUnit) (⟨curAt fs start [], []⟩, d) := rfl
    have hitem : Does (doIf (opts.dirs ∧ opts.dirsfirst) (ffItem opts func))
        ⟨curAt fs start [], []⟩ ⟨curAt fs start [], []⟩
        (doIf (opts.dirs ∧ opts.dirsfirst) (doIf (checkMatch opts (curAt fs start []))
          (func ⟨curAt fs start [], (curAt fs start []).path.dropLast⟩))) :=
      does_doIf fun _ => does_ffItem (fun n hn => absurd hn List.not_mem_nil) _ rfl
    have hbefore := hitem d
    rw [hself, curAt_st, if_pos hkind, run_bind]
    cases hy : doIf (opts.dirs ∧ opts.dirsfirst) (doIf (checkMatch opts (curAt fs start []))
        (func ⟨curAt fs start [], (curAt fs start []).path.dropLast⟩)) d with
    | ok u d' =>
      rw [hy] at hbefore
      obtain hbefore : doIf (opts.dirs ∧ opts.dirsfirst) (ffItem opts func)
          (⟨curAt fs start [], []⟩, d) = .ok ⟨⟩ (⟨curAt fs start [], []⟩, d') := hbefore
      rw [hbefore]
      dsimp only
      rw [run_bind, goDown_nameless hrmatch hdepth hkind hnone]
      exact ⟨_, _, rfl⟩
    | error e d' =>
      rw [hy] at hbefore
      obtain ⟨it', hbefore⟩ := hbefore
      rw [hbefore]
      exact ⟨_, _, rfl⟩
  rw [singleitem, stat_of_kindAt hkind]
  obtain ⟨cur, rpath⟩ := it
  obtain rfl : rpath = [] := hr
  obtain ⟨e, s, hfails⟩ := hcallback fun dir =>
    match entries fs opts dir with
    | .error e => throw (.status (some e))
    | .ok names => names.forM fun name =>
      singleitem opts func fs limit (joinPart false dir name)
  refine ⟨e, s, ?_⟩
  rw [← hcur] at hfails
  exact hfails

theorem endCallback_error {bflush walk : EStateM Fault σ PUnit} {e : Fault} {d d₁ : σ}
    (hwalk : walk d = .error e d₁) (d' : σ) : endCallback bflush walk d ≠ .ok ⟨⟩ d' := by
  intro hok
  rw [endCallback, hwalk] at hok
  cases e with
  | raised e => cases hok
  | status e =>
    dsimp only at hok
    split at hok
    · cases hok
    · cases hok
    · cases hok

/-- One start path that fails is enough. -/
theorem findFiles_fails (bflush : EStateM Fault σ PUnit) {paths : List LuaString}
    (hfails : ∃ start ∈ paths, ∀ it d, it.rpath = [] → ∃ e s,
      singleitem opts func fs (opts.maxdepth.toNat + 1) start (it, d) = .error e s) (d d' : σ) :
    findFiles opts func fs bflush paths d ≠ .ok ⟨⟩ d' := by
  have hrun : ∀ it d, ∃ e s, run opts func fs paths (it, d) = .error e s := by
    induction paths with
    | nil =>
      obtain ⟨_, hmem, -⟩ := hfails
      cases hmem
    | cons start paths ih =>
      intro it d
      have hcons : run opts func fs (start :: paths) (it, d) =
          (singleitem opts func fs (opts.maxdepth.toNat + 1) start >>= fun _ =>
            run opts func fs paths) ({ it with rpath := [] }, d) := rfl
      rw [hcons, run_bind]
      cases hfirst : singleitem opts func fs (opts.maxdepth.toNat + 1) start
          ({ it with rpath := [] }, d) with
      | error e s => exact ⟨e, s, rfl⟩
      | ok u s =>
        obtain ⟨start', hmem, hstart'⟩ := hfails
        rcases List.mem_cons.mp hmem with rfl | hmem
        · obtain ⟨e, s', hs⟩ := hstart' { it with rpath := [] } d rfl
          rw [hs] at hfirst
          cases hfirst
        · exact ih ⟨start', hmem, hstart'⟩ s.1 s.2
  obtain ⟨e, s, hs⟩ := hrun Iter.start d
  have hwalk : (match run opts func fs paths (Iter.start, d) with
      | .ok _ s => .ok ⟨⟩ s.2
      | .error e s => .error e s.2 : EStateM.Result Fault σ PUnit) = .error e s.2 := by rw [hs]
  exact endCallback_error hwalk d'

theorem findFiles_nameless (bflush : EStateM Fault σ PUnit) {paths : List LuaString}
    (hnot : ∃ start ∈ paths, ¬Nameable fs opts start) (d d' : σ) :
    findFiles opts func fs bflush paths d ≠ .ok ⟨⟩ d' := by
  obtain ⟨start, hmem, hnot⟩ := hnot
  exact findFiles_fails bflush ⟨start, hmem, fun it d hit =>
    singleitem_nameless hnot opts.maxdepth.toNat it hit d⟩ d d'

/-- A start path that cannot be found. -/
theorem findFiles_absent (bflush : EStateM Fault σ PUnit) {paths : List LuaString}
    (habsent : ∃ start ∈ paths, ¬∃ st, fs.stat start = .ok st) (d d' : σ) :
    findFiles opts func fs bflush paths d ≠ .ok ⟨⟩ d' := by
  obtain ⟨start, hmem, hnot⟩ := habsent
  refine findFiles_fails bflush ⟨start, hmem, fun it d _ => ?_⟩ d d'
  rw [singleitem]
  cases hstat : fs.stat start with
  | error e => exact ⟨_, _, rfl⟩
  | ok st => exact absurd ⟨st, hstat⟩ hnot

end Walks

/-! ## What the items are -/

section Found

variable {fs : CamFs} {opts : FindOpts} {start : LuaString} {names : List LuaString}

theorem mem_itemsFrom : names ∈ itemsFrom fs opts start ↔
    (walkFrom fs opts start).Reaches [] names ∧ (walkFrom fs opts start).takes names = true := by
  have hdeep : ∀ m, (walkFrom fs opts start).enters m = true → m.length < opts.maxdepth.toNat := by
    intro m henters
    have := (enters_iff.mp henters).1
    omega
  exact Walk.mem_items hdeep (Nat.zero_le _) (by simp)

theorem itemsFrom_ordered (htree : Present fs opts start) :
    (itemsFrom fs opts start).Pairwise (Walk.Before opts.dirsfirst) := by
  refine Walk.items_ordered (w := walkFrom fs opts start) _ _ fun m hm henters => ?_
  obtain ⟨inside, hinside, hnodup, -⟩ :=
    htree.listed m hm (enters_directory henters)
  have hkids : (namesAt fs opts start m).Nodup := by
    rw [namesAt, hinside]
    exact hnodup
  exact hkids

end Found

end CamFind
