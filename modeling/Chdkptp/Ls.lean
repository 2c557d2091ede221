import Chdkptp.RlibPaths

/-!
# Directory listings on the camera

`ls` hands its entries to a batcher, whose calls of `write_usb_msg` may fail; a batch that could
not be sent is kept for the next try. What the batcher returns is not looked at, so a last batch
that was not sent is missed.
-/

namespace Ls

open LuaValue LuaText

/-! ## The batcher -/

/-- The elements of `self.data`, the messages that have been queued, and how many calls of
`write_usb_msg` there were. -/
structure Batcher (α : Type) where
  data : List α
  queue : List (List α)
  calls : Nat

section Batches

variable {α : Type} (sends : Nat → Bool)

/-- `t.flush` -/
def flush (b : Batcher α) : Bool × Batcher α :=
  if 0 < b.data.length then
    if sends b.calls then (true, ⟨[], b.queue ++ [b.data], b.calls + 1⟩)
    else (false, { b with calls := b.calls + 1 })
  else (true, b)

/-- `t.write` -/
def write (batchsize : Int) (b : Batcher α) (v : α) : Bool × Batcher α :=
  if (b.data ++ [v]).length ≥ batchsize then flush sends { b with data := b.data ++ [v] }
  else (true, { b with data := b.data ++ [v] })

/-- How many elements are kept, and how many calls there were, after so many have been written. -/
def kept (batchsize : Int) : Nat → Nat × Nat
  | 0 => (0, 0)
  | n + 1 =>
    if ((kept batchsize n).1 + 1 : Nat) ≥ batchsize then
      (if sends (kept batchsize n).2 then 0 else (kept batchsize n).1 + 1,
        (kept batchsize n).2 + 1)
    else ((kept batchsize n).1 + 1, (kept batchsize n).2)

/-- Nothing is left for the flush behind the last write, or the call that it makes does not fail. -/
def LastSent (batchsize : Int) (n : Nat) : Prop :=
  (kept sends batchsize n).1 = 0 ∨ sends (kept sends batchsize n).2 = true

instance (batchsize : Int) (n : Nat) : Decidable (LastSent sends batchsize n) :=
  inferInstanceAs (Decidable (_ ∨ _))

/-- After these writes each element is in one message, or kept behind all of them. -/
structure Wrote (batchsize : Int) (items : List α) (b : Batcher α) : Prop where
  parts : items = b.queue.flatten ++ b.data
  left : b.data.length = (kept sends batchsize items.length).1
  calls : b.calls = (kept sends batchsize items.length).2

variable {sends} {batchsize : Int} {items : List α} {b : Batcher α}

theorem wrote_nil : Wrote sends batchsize [] (⟨[], [], 0⟩ : Batcher α) := ⟨rfl, rfl, rfl⟩

theorem Wrote.write (h : Wrote sends batchsize items b) (v : α) :
    Wrote sends batchsize (items ++ [v]) (write sends batchsize b v).2 := by
  have hparts : items ++ [v] = b.queue.flatten ++ (b.data ++ [v]) := by
    rw [h.parts, List.append_assoc]
  have hlength : (b.data ++ [v]).length = (kept sends batchsize items.length).1 + 1 := by
    rw [List.length_append, h.left, List.length_singleton]
  have hcount : (items ++ [v]).length = items.length + 1 := by
    rw [List.length_append, List.length_singleton]
  rw [Ls.write, hlength]
  by_cases hfull : ((kept sends batchsize items.length).1 + 1 : Nat) ≥ batchsize
  · rw [if_pos hfull, flush, if_pos (by rw [hlength]; omega), h.calls]
    cases hsend : sends (kept sends batchsize items.length).2 with
    | true =>
      refine ⟨?_, ?_, ?_⟩
      · rw [hparts]
        simp
      · rw [hcount, kept, if_pos hfull, hsend]
        rfl
      · rw [hcount, kept, if_pos hfull]
        rfl
    | false =>
      refine ⟨hparts, ?_, ?_⟩
      · rw [hcount, kept, if_pos hfull, hsend]
        exact hlength
      · rw [hcount, kept, if_pos hfull]
        rfl
  · rw [if_neg hfull]
    refine ⟨hparts, ?_, ?_⟩
    · rw [hcount, kept, if_neg hfull]
      exact hlength
    · rw [hcount, kept, if_neg hfull]
      exact h.calls

theorem Wrote.foldl (h : Wrote sends batchsize items b) (more : List α) :
    Wrote sends batchsize (items ++ more)
      (more.foldl (fun b v => (Ls.write sends batchsize b v).2) b) := by
  induction more generalizing items b with
  | nil => exact (List.append_nil items).symm ▸ h
  | cons v more ih =>
    have hstep := ih (h.write v)
    rwa [List.append_assoc] at hstep

/-- The last flush sends the rest, or the rest is missed. -/
theorem Wrote.flush (h : Wrote sends batchsize items b) :
    (flush sends b).2.queue.flatten = items ↔ LastSent sends batchsize items.length := by
  rw [LastSent, ← h.left, ← h.calls, List.length_eq_zero_iff, Ls.flush]
  cases hdata : b.data with
  | nil =>
    have hparts := h.parts
    rw [hdata, List.append_nil] at hparts
    rw [if_neg (by simp)]
    exact iff_of_true hparts.symm (.inl rfl)
  | cons v data =>
    rw [if_pos (by simp), or_iff_right (List.cons_ne_nil v data)]
    cases hsend : sends b.calls with
    | true =>
      refine iff_of_true ?_ rfl
      rw [h.parts, hdata]
      simp
    | false =>
      refine iff_of_false ?_ nofun
      intro heq
      have hparts := h.parts
      rw [← heq, hdata] at hparts
      exact List.cons_ne_nil v data (List.self_eq_append_right.mp hparts)

end Batches

/-! ## The listing -/

/-- The result of `os.stat`, with its other fields. -/
structure Stat (φ : Type) where
  isDir : Bool
  rest : φ

/-- `opts.stat` -/
inductive StatOpt where
  | names
  | slash
  | all
  | fields (names : List LuaString)

/-- What is listed: a name, a result of `os.stat` with a name, or some fields of one. -/
inductive Item (φ : Type) where
  | name (v : LuaString)
  | stat (st : Stat φ) (name : LuaString)
  | fields (st : Stat φ) (names : List LuaString)

structure Opts where
  stat : StatOpt
  listall : Bool
  msglimit : Int
  pattern : Option (LuaString → Bool)
  dirsonly : Bool

/-- The options that are passed in. -/
structure OptsIn where
  stat : StatOpt
  listall : Bool
  msglimit : Option Int
  pattern : Option (LuaString → Bool)
  dirsonly : Option Bool

def withDefaults (opts : OptsIn) : Opts where
  stat := opts.stat
  listall := opts.listall
  msglimit := opts.msglimit.getD 50
  pattern := opts.pattern
  dirsonly := opts.dirsonly.getD true

/-- The file system, with `os.idir` if there is one, and which calls of `write_usb_msg` succeed. -/
structure Firmware (φ : Type) where
  stat : LuaString → Except LuaString (Stat φ)
  idir : Option (LuaString → Bool → List LuaString)
  listdir : LuaString → Bool → Except LuaString (List LuaString)
  sends : Nat → Bool

section Listing

variable {φ : Type} (fw : Firmware φ) (opts : Opts)

/-- `b:write(v)`, whose result is not used. -/
def put (b : Batcher (Item φ)) (v : Item φ) : Batcher (Item φ) :=
  (write fw.sends opts.msglimit b v).2

/-- `joinpath` of two parts. -/
def joined (path v : LuaString) : LuaString := FsUtil.joinPart false path v

def matched (v : LuaString) : Bool := opts.pattern.all fun p => p v

/-- `ls_single` -/
def lsSingle (path : LuaString) (b : Batcher (Item φ)) (v : LuaString) :
    Except LuaString (Batcher (Item φ)) :=
  if matched opts v then
    match opts.stat with
    | .names => .ok (put fw opts b (.name v))
    | .slash => (fw.stat (joined path v)).map fun st =>
      put fw opts b (.name (if st.isDir then v ++ [47] else v))
    | .all => (fw.stat (joined path v)).map fun st => put fw opts b (.stat st v)
    | .fields _ => (fw.stat (joined path v)).map fun _ => b
  else .ok b

/-- What `os.idir` goes through, or the table of `os.listdir` without it. -/
def entries (path : LuaString) : Except LuaString (List LuaString) :=
  match fw.idir with
  | some idir => .ok (idir path opts.listall)
  | none => fw.listdir path opts.listall

/-- `ls` -/
def lsWith (path : LuaString) : Except LuaString (Batcher (Item φ)) := do
  let st ← fw.stat path
  if !st.isDir then
    if opts.dirsonly then .error (bytes "not a directory".toList)
    else
      let b := match opts.stat with
        | .all => put fw opts ⟨[], [], 0⟩ (.stat st path)
        | _ => put fw opts ⟨[], [], 0⟩ (.name path)
      pure (flush fw.sends b).2
  else
    let names ← entries fw opts path
    let b ← names.foldlM (lsSingle fw opts path) ⟨[], [], 0⟩
    pure (flush fw.sends b).2

/-- `ls` -/
def ls (path : LuaString) (opts : OptsIn) : Except LuaString (Batcher (Item φ)) :=
  lsWith fw (withDefaults opts) path

/-- `con:listdir`, which returns what the messages hold, or throws. -/
def listdir (path : LuaString) (opts : OptsIn) : Except LuaString (List (Item φ)) :=
  (ls fw path opts).map fun b => b.queue.flatten

/-! ## The entries that should come -/

/-- What the description of `opts.stat` says that is listed for an entry. -/
def itemOf (path v : LuaString) : Except LuaString (Item φ) :=
  match opts.stat with
  | .names => .ok (.name v)
  | .slash => (fw.stat (joined path v)).map fun st => .name (if st.isDir then v ++ [47] else v)
  | .all => (fw.stat (joined path v)).map fun st => .stat st v
  | .fields names => (fw.stat (joined path v)).map fun st => .fields st names

/-- The items of the selected entries, in the order in which they are listed. -/
def selected (path : LuaString) (names : List LuaString) : Except LuaString (List (Item φ)) :=
  (names.filter (matched opts)).mapM (itemOf fw opts path)

def StatOpt.NotFields : StatOpt → Prop
  | .fields _ => False
  | _ => True

/-- When `ls` returns `true` for a directory, all selected entries have been queued once, in order;
and this is what `con:listdir` returns. -/
def Complete (path : LuaString) (opts : OptsIn) : Prop :=
  ∀ st names, fw.stat path = .ok st → st.isDir = true →
    entries fw (withDefaults opts) path = .ok names →
    (∀ b, ls fw path opts = .ok b →
      selected fw (withDefaults opts) path names = .ok b.queue.flatten) ∧
    ∀ items, listdir fw path opts = .ok items →
      selected fw (withDefaults opts) path names = .ok items

/-- Unless something fails before, the last batch is sent; and `opts.stat` is implemented, or there
is nothing to list. -/
def Sent (path : LuaString) (opts : OptsIn) : Prop :=
  ∀ st names items, fw.stat path = .ok st → st.isDir = true →
    entries fw (withDefaults opts) path = .ok names →
    selected fw (withDefaults opts) path names = .ok items →
    LastSent fw.sends (withDefaults opts).msglimit items.length ∧
      (opts.stat.NotFields ∨ items = [])

variable {fw opts}

/-- What `ls_single` does with an item. -/
def putItem (fw : Firmware φ) (opts : Opts) (b : Batcher (Item φ)) (item : Item φ) :
    Batcher (Item φ) :=
  match opts.stat with
  | .fields _ => b
  | _ => put fw opts b item

theorem lsSingle_eq (path : LuaString) (b : Batcher (Item φ)) (v : LuaString) :
    lsSingle fw opts path b v =
      if matched opts v then (itemOf fw opts path v).map (putItem fw opts b) else .ok b := by
  have hput : putItem fw opts b = match opts.stat with
      | .fields _ => fun _ => b
      | _ => put fw opts b := by
    funext item
    rw [putItem]
    cases opts.stat <;> rfl
  rw [lsSingle, itemOf, hput]
  split
  · cases opts.stat with
    | names => rfl
    | slash => cases fw.stat (joined path v) <;> rfl
    | all => cases fw.stat (joined path v) <;> rfl
    | fields names => cases fw.stat (joined path v) <;> rfl
  · rfl

theorem foldlM_lsSingle (path : LuaString) (names : List LuaString) (b : Batcher (Item φ)) :
    names.foldlM (lsSingle fw opts path) b =
      (selected fw opts path names).map fun items => items.foldl (putItem fw opts) b := by
  induction names generalizing b with
  | nil => rfl
  | cons v names ih =>
    rw [List.foldlM_cons, lsSingle_eq, selected]
    by_cases hv : matched opts v
    · rw [if_pos hv, List.filter_cons_of_pos hv, List.mapM_cons]
      cases itemOf fw opts path v with
      | error e => rfl
      | ok item =>
        change names.foldlM (lsSingle fw opts path) (putItem fw opts b item) = _
        rw [ih, selected]
        change _ = Except.map _ (Except.bind (List.mapM _ _) _)
        cases (names.filter (matched opts)).mapM (itemOf fw opts path) <;> rfl
    · rw [if_neg hv, List.filter_cons_of_neg hv]
      exact ih b

/-- The listing of a directory. -/
theorem ls_eq {path : LuaString} {opts : OptsIn} {st : Stat φ} {names : List LuaString}
    (hst : fw.stat path = .ok st) (hdir : st.isDir = true)
    (hnames : entries fw (withDefaults opts) path = .ok names) :
    ls fw path opts = (selected fw (withDefaults opts) path names).map fun items =>
      (flush fw.sends (items.foldl (putItem fw (withDefaults opts)) ⟨[], [], 0⟩)).2 := by
  have hbody : ls fw path opts =
      (names.foldlM (lsSingle fw (withDefaults opts) path) ⟨[], [], 0⟩).map
        fun b => (flush fw.sends b).2 := by
    rw [ls, lsWith, hst]
    change (if !st.isDir then _ else _) = _
    rw [hdir, if_neg (by decide), hnames]
    rfl
  rw [hbody, foldlM_lsSingle]
  cases selected fw (withDefaults opts) path names <;> rfl

/-- What the messages hold is all that should be listed, under the condition. -/
theorem queued_iff (items : List (Item φ)) (opts : Opts) :
    (flush fw.sends (items.foldl (putItem fw opts) ⟨[], [], 0⟩)).2.queue.flatten = items ↔
      LastSent fw.sends opts.msglimit items.length ∧ (opts.stat.NotFields ∨ items = []) := by
  have hput : opts.stat.NotFields → putItem fw opts = put fw opts := by
    intro h
    funext b item
    rw [putItem]
    cases hstat : opts.stat with
    | fields names => exact (hstat ▸ h : StatOpt.NotFields (.fields names)).elim
    | _ => rfl
  by_cases h : opts.stat.NotFields
  · rw [hput h, and_iff_left (.inl h)]
    exact (wrote_nil.foldl items).flush
  · have hkeep : putItem fw opts = fun b _ => b := by
      funext b item
      rw [putItem]
      cases hstat : opts.stat with
      | fields names => rfl
      | _ => exact absurd (hstat ▸ trivial) h
    have hnone : items.foldl (fun b _ => b) (⟨[], [], 0⟩ : Batcher (Item φ)) = ⟨[], [], 0⟩ :=
      List.foldl_fixed' (fun _ => rfl) items
    rw [hkeep, hnone, or_iff_right h]
    constructor
    · intro hempty
      obtain rfl : items = [] := hempty.symm
      exact ⟨.inl rfl, rfl⟩
    · exact fun hempty => hempty.2.symm

/-- A directory with one file on a camera whose queue is full. -/
def slowHost : Firmware PUnit where
  stat _ := .ok ⟨true, ⟨⟩⟩
  idir := some fun _ _ => [bytes "A".toList]
  listdir _ _ := .ok []
  sends _ := false

def noOpts : OptsIn := ⟨.names, false, none, none, none⟩

end Listing

end Ls
