import Chdkptp.Contracts
import Chdkptp.FindFiles

/-!
# Functions for the files that are found

`find_files` calls a function for each item while it walks. Here the function acts on a state
and may fail; the walk goes over the same items as the one that collects them.
-/

namespace FindActions

open LuaValue FsUtil FindFiles Contracts

variable {ε σ : Type}

/-- A function for the items; it sees how deep the walk is. -/
abbrev Func (ε σ : Type) := List LuaString → Cur → EStateM ε σ PUnit

section Walk

variable (opts : FindOpts) (func : Func ε σ) (fail : FsError → ε)

/-- `ff_item`. -/
def ffItem (rpath : List LuaString) (cur : Cur) : EStateM ε σ PUnit :=
  doIf (checkMatch opts cur) (func rpath cur)

/-- The `callback` of `find_files`. -/
def callback (rpath : List LuaString) (recurse : Cur → EStateM ε σ PUnit) (cur : Cur) :
    EStateM ε σ PUnit :=
  if cur.mode = .directory then do
    doIf (opts.dirs ∧ opts.dirsfirst) (ffItem opts func rpath cur)
    doIf (rpath.length < opts.maxdepth ∧ canRecurse rpath cur ∧
      opts.rmatch.all (fun matches_ => matches_ cur.full)) (recurse cur)
    doIf (opts.dirs ∧ ¬opts.dirsfirst) (ffItem opts func rpath cur)
  else ffItem opts func rpath cur

/-- `fs_iter:singleitem`, whose calls may be nested that deep. -/
def singleitem (h : Host) (disk : Disk h.windows) :
    Nat → List LuaString → LuaString → EStateM ε σ PUnit
  | 0, _, _ => throw (fail .stackOverflow)
  | limit + 1, rpath, path =>
    match attributes h disk path with
    | none => throw (fail (.attributes path))
    | some mode =>
      callback opts func rpath (fun cur =>
        match lfsDir h disk cur.full with
        | none => throw (fail (.dir cur.full))
        | some names =>
          names.forM fun name => singleitem h disk limit (rpath ++ cur.path.getLast?.toList)
            (joinpath h.windows cur.full [name]))
        (curOf h.windows mode rpath path)

/-- `fsutil.find_files`. -/
def findFiles (h : Host) (disk : Disk h.windows) (paths : List LuaString) : EStateM ε σ PUnit :=
  paths.forM fun path => singleitem opts func fail h disk (opts.maxdepth + 1) [] path

end Walk

/-! ## Invariants -/

section Invariant

variable {opts : FindOpts} {func : Func ε σ} {fail : FsError → ε} {I : σ → Prop} {h : Host}
  {disk : Disk h.windows}

theorem callback_keeps {rpath : List LuaString} {recurse : Cur → EStateM ε σ PUnit} {cur : Cur}
    (hfunc : Keeps I (func rpath cur)) (hrecurse : Keeps I (recurse cur)) :
    Keeps I (callback opts func rpath recurse cur) := by
  have hitem : Keeps I (ffItem opts func rpath cur) := keeps_doIf hfunc
  rw [callback]
  split
  · apply Keeps.bind (keeps_doIf hitem)
    intro _
    apply Keeps.bind (keeps_doIf hrecurse)
    intro _
    exact keeps_doIf hitem
  · exact hitem

/-- The walk keeps what the function keeps on every item that there is. -/
theorem singleitem_keeps (hfunc : ∀ rpath path mode, attributes h disk path = some mode →
      Keeps I (func rpath (curOf h.windows mode rpath path)))
    (limit : Nat) (rpath : List LuaString) (path : LuaString) :
    Keeps I (singleitem opts func fail h disk limit rpath path) := by
  induction limit generalizing rpath path with
  | zero => exact keeps_throw _
  | succ limit ih =>
    rw [singleitem]
    split
    · exact keeps_throw _
    · rename_i mode hmode
      apply callback_keeps (hfunc rpath path mode hmode)
      split
      · exact keeps_throw _
      · exact keeps_forM _ fun name _ => ih _ _

theorem findFiles_keeps (hfunc : ∀ rpath path mode, attributes h disk path = some mode →
      Keeps I (func rpath (curOf h.windows mode rpath path))) (paths : List LuaString) :
    Keeps I (findFiles opts func fail h disk paths) :=
  keeps_forM paths fun path _ => singleitem_keeps hfunc _ _ path

end Invariant

/-! ## The items -/

section Items

variable {opts : FindOpts} (func : Func ε σ) (fail : FsError → ε) {h : Host}
  {disk : Disk h.windows}

/-- The function is called for each item in turn. -/
def onItems (items : List Cur) : EStateM ε σ PUnit :=
  items.forM fun cur => func cur.path.dropLast cur

theorem onItems_append (items items' : List Cur) :
    onItems func (items ++ items') = onItems func items >>= fun _ => onItems func items' :=
  List.forM_append

theorem onItems_ffItem {rpath : List LuaString} {cur : Cur} (hpath : cur.path.dropLast = rpath) :
    onItems func (FindFiles.ffItem opts cur) = ffItem opts func rpath cur := by
  rw [FindFiles.ffItem, ffItem, doIf, onItems]
  split
  · simp [hpath]
  · rfl

theorem curOf_dropLast (windows : Bool) (mode : FileTree.Kind) (rpath : List LuaString)
    (path : LuaString) : (curOf windows mode rpath path).path.dropLast = rpath := by
  cases rpath with
  | nil => rfl
  | cons r rpath =>
    rw [curOf]
    exact List.dropLast_concat

theorem onItems_if {c : Prop} [Decidable c] {items : List Cur} {x : EStateM ε σ PUnit}
    (h : onItems func items = x) : onItems func (if c then items else []) = doIf c x := by
  rw [doIf]
  split
  · exact h
  · rfl

theorem map_ok {δ α β : Type} {f : α → β} {x : Except δ α} {b : β} (hx : x.map f = .ok b) :
    ∃ a, x = .ok a ∧ f a = b := by
  cases x with
  | error e => cases hx
  | ok a => exact ⟨a, rfl, Except.ok.inj hx⟩

theorem stored_inj {α : Type} {l l' : List α} (hl : FindFiles.stored l = FindFiles.stored l') :
    l = l' := by
  cases l with
  | nil =>
    cases l' with
    | nil => rfl
    | cons b l' => cases hl
  | cons a l =>
    cases l' with
    | nil => cases hl
    | cons b l' => exact Option.some.inj hl

theorem callback_onItems {rpath : List LuaString} {recurse : Cur → Except FsError (List Cur)}
    {recurse' : Cur → EStateM ε σ PUnit} {cur : Cur} {items : List Cur}
    (hpath : cur.path.dropLast = rpath)
    (hrecurse : ∀ inside, recurse cur = .ok inside → recurse' cur = onItems func inside)
    (hitems : FindFiles.callback opts rpath recurse cur = .ok items) :
    callback opts func rpath recurse' cur = onItems func items := by
  have hitem := @onItems_ffItem ε σ opts func rpath cur hpath
  rw [FindFiles.callback] at hitems
  rw [callback]
  by_cases hdir : cur.mode = .directory
  · simp only [if_pos hdir] at hitems ⊢
    split at hitems
    · rename_i hdeep
      obtain ⟨inside, hinside, rfl⟩ := map_ok hitems
      rw [onItems_append, onItems_append, onItems_if func hitem, onItems_if func hitem,
        ← hrecurse inside hinside, doIf.eq_def (_ ∧ _ ∧ _), if_pos hdeep, bind_assoc]
    · rename_i hflat
      cases hitems
      rw [onItems_append, onItems_if func hitem, onItems_if func hitem,
        doIf.eq_def (_ ∧ _ ∧ _), if_neg hflat, pure_bind]
  · simp only [if_neg hdir] at hitems ⊢
    cases hitems
    exact hitem.symm

/-- Loops over names and over paths. -/
theorem forM_onItems {α : Type} {f : α → Except FsError (List Cur)}
    {g : α → EStateM ε σ PUnit} (hfg : ∀ a items, f a = .ok items → g a = onItems func items)
    (l : List α) {items : List (List Cur)} (h : l.mapM f = .ok items) :
    l.forM g = onItems func items.flatten := by
  induction l generalizing items with
  | nil =>
    cases h
    rfl
  | cons a l ih =>
    rw [List.mapM_cons] at h
    cases hf : f a with
    | error e =>
      rw [hf] at h
      cases h
    | ok first =>
      cases hl : l.mapM f with
      | error e =>
        rw [hf, hl] at h
        cases h
      | ok rest =>
        rw [hf, hl] at h
        cases h
        rw [List.flatten_cons, onItems_append, ← hfg a first hf, ← ih hl]
        rfl

/-- Where the items can be collected, the walk calls the function for each of them. -/
theorem singleitem_onItems (limit : Nat) {rpath : List LuaString} {path : LuaString}
    {items : List Cur} (hitems : FindFiles.singleitem h disk opts limit rpath path = .ok items) :
    singleitem opts func fail h disk limit rpath path = onItems func items := by
  induction limit generalizing rpath path items with
  | zero => cases hitems
  | succ limit ih =>
    rw [FindFiles.singleitem] at hitems
    rw [singleitem]
    cases hmode : attributes h disk path with
    | none =>
      rw [hmode] at hitems
      cases hitems
    | some mode =>
      simp only [hmode] at hitems ⊢
      apply callback_onItems func (curOf_dropLast h.windows mode rpath path) _ hitems
      intro inside hinside
      cases hnames : lfsDir h disk (curOf h.windows mode rpath path).full with
      | none =>
        rw [hnames] at hinside
        cases hinside
      | some names =>
        rw [hnames] at hinside
        obtain ⟨found, hfound, rfl⟩ := map_ok hinside
        exact forM_onItems func (fun name items hitems => ih hitems) names hfound

/-- `find_files` with a function, where it can collect the items. -/
theorem findFiles_onItems {paths : List LuaString} {items : List Cur}
    (hitems : FindFiles.findFiles h disk opts id paths = .ok (FindFiles.stored items)) :
    findFiles opts func fail h disk paths = onItems func items := by
  obtain ⟨found, hfound, hstored⟩ := map_ok hitems
  have hflat : found.flatten = items := by
    rw [List.map_id] at hstored
    exact stored_inj hstored
  rw [← hflat]
  exact forM_onItems func (fun path items hitems => singleitem_onItems func fail _ hitems) paths
    hfound

end Items

end FindActions
