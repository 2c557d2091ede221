import Chdkptp.CamFind
import Chdkptp.MsgBatcher

/-!
# The files that the camera finds

Without a function of its own `find_files` writes the full path of each item to a batcher, which
sends what it has kept when the walk is over.
-/

namespace CamFind

open LuaValue LuaText LuaSerialize FileTree FsUtil FsCam Contracts TreeWalk MsgBatcher ActionSystem

/-! ## Strings on their way -/

def strElement (s : LuaString) : Element := ⟨.str s, by simp⟩

theorem not_reaches_str (heap : Heap) (s : LuaString) (r : Nat) : ¬Reaches heap (.str s) r := by
  intro h
  cases h

theorem survives_str (heap : Heap) (ref : Nat) (s : LuaString) :
    Survives heap ref (strElement s) := by
  have hfits : Fits (withList heap ref [strElement s] none) cameraDefaults 9 (.table ref) := by
    refine fits_list.mpr fun v hv => ?_
    rw [List.mem_singleton.mp hv]
    trivial
  have hmarked : (marked (withList heap ref [strElement s] none) cameraDefaults 9
      (.table ref)).Nodup := by
    rw [marked_list]
    exact List.nodup_singleton ref
  have himage : image (withList heap ref [strElement s] none) cameraDefaults 9 (.table ref) =
      some (.table [(.int 1, .scalar (.str s))]) := by
    rw [image, withList_same]
    rfl
  obtain ⟨text, htext⟩ := serialize_succeeds _ readable_camera rfl rfl hfits hmarked
  exact ⟨text, _, htext, (unserialize_serialize _ readable_camera rfl rfl htext).2.2.trans himage,
    equal_singleton (.scalar (.str s))⟩

theorem writable_str (m : Setting) (s : LuaString) : Writable m (strElement s) :=
  ⟨not_reaches_str m.heap s m.ref, survives_str m.heap m.ref s⟩

theorem equal_str {heap : Heap} {s : LuaString} {tree : Tree} (h : Equal heap (.str s) tree) :
    tree = .scalar (.str s) := by
  cases h
  rfl

/-! ## The default function -/

section Sent

variable (m : Setting) (env : Nat → Env)

/-- A call of the batcher, with what is decided outside in it. -/
def batch (call : Env → MsgBatcher.Script → Option MsgBatcher.Script) :
    EStateM Fault (MsgBatcher.Script × Nat) PUnit := fun s =>
  match call (env s.2) s.1 with
  | none => .error (.raised []) (s.1, s.2 + 1)
  | some s' => if s'.returned then .ok ⟨⟩ (s', s.2 + 1) else .error (.status none) (s', s.2 + 1)

/-- `find_files_fullname_fn` with `ff_bwrite` -/
def fullnameFn : Func (MsgBatcher.Script × Nat) := fun it =>
  batch env fun e s => write m (strElement it.cur.full) e s

/-- `ff_bflush`. A batcher that is not there has nothing to send. -/
def bflush : EStateM Fault (MsgBatcher.Script × Nat) PUnit := batch env fun e s => flush m e s

variable {m env} {t : Nat → Tree} {texts : List LuaString} {s : MsgBatcher.Script} {e : Env}

theorem apart_str (texts : List LuaString) (heap : Heap) (kept : List Element)
    (h : kept <:+ texts.map strElement) : Apart heap kept := by
  refine List.pairwise_iff_forall_sublist.mpr fun {v w} hsub r hv => ?_
  have hmem := h.subset (hsub.subset (List.mem_cons_self))
  obtain ⟨text, -, rfl⟩ := List.mem_map.mp hmem
  exact absurd hv (not_reaches_str heap text r)

theorem kept_suffix {values : List Element} (h : Invariant m t values s) :
    s.batcher.data <:+ values := by
  obtain ⟨sent, -, hvalues, -⟩ := h
  exact ⟨sent, hvalues.symm⟩

theorem flush_returned {s' : MsgBatcher.Script} (he : e.sent = true)
    (h : flush m e s = some s') : s'.returned = true := by
  rw [MsgBatcher.flush] at h
  split at h
  · dsimp only at h
    split at h
    · cases h
    · cases h
      rfl
  · cases h
    rfl

theorem flush_str (he : e.sent = true) (h : Invariant m t (texts.map strElement) s) :
    ∃ s', flush m e s = some s' ∧ s'.returned = true ∧
      Invariant m t (texts.map strElement) s' ∧ s'.batcher.data = [] := by
  have hwritable : ∀ v ∈ texts.map strElement, Writable m v := by
    intro v hv
    obtain ⟨text, -, rfl⟩ := List.mem_map.mp hv
    exact writable_str m text
  obtain ⟨s', hs', hinv, -, hnil⟩ := flush_invariant e h hwritable fun _ =>
    apart_str texts m.heap _ (kept_suffix h)
  have hreturned := flush_returned he hs'
  exact ⟨s', hs', hreturned, hinv, hnil hreturned⟩

theorem write_str (he : e.sent = true) (h : Invariant m t (texts.map strElement) s)
    (text : LuaString) : ∃ s', write m (strElement text) e s = some s' ∧ s'.returned = true ∧
      Invariant m t ((texts ++ [text]).map strElement) s' := by
  have hpush := h.push (strElement text)
  have hvalues : texts.map strElement ++ [strElement text] =
      (texts ++ [text]).map strElement := by
    rw [List.map_append]
    rfl
  rw [hvalues] at hpush
  rw [write]
  split
  · obtain ⟨s', hs', hreturned, hinv, -⟩ := flush_str he hpush
    exact ⟨s', hs', hreturned, hinv⟩
  · exact ⟨_, rfl, rfl, hpush⟩

theorem batch_ok {call : Env → MsgBatcher.Script → Option MsgBatcher.Script} {k : Nat}
    {s' : MsgBatcher.Script} (h : call (env k) s = some s') (hreturned : s'.returned = true) :
    batch env call (s, k) = .ok ⟨⟩ (s', k + 1) := by
  rw [batch]
  simp only [h, hreturned, if_true]

/-- The full paths of the items are written one after the other. -/
theorem fullnames_written (henv : ∀ k, (env k).sent = true) (items : List Cur) (k : Nat)
    (h : Invariant m t (texts.map strElement) s) :
    ∃ s' k', onItems (fullnameFn m env) items (s, k) = .ok ⟨⟩ (s', k') ∧
      Invariant m t ((texts ++ items.map Cur.full).map strElement) s' := by
  induction items generalizing texts s k with
  | nil =>
    rw [List.map_nil, List.append_nil]
    exact ⟨s, k, rfl, h⟩
  | cons cur items ih =>
    obtain ⟨s₁, hs₁, hreturned, hinv⟩ := write_str (henv k) h cur.full
    obtain ⟨s', k', hs', hinv'⟩ := ih (k + 1) hinv
    rw [List.append_assoc] at hinv'
    have hfirst : fullnameFn m env ⟨cur, cur.path.dropLast⟩ (s, k) = .ok ⟨⟩ (s₁, k + 1) :=
      batch_ok hs₁ hreturned
    refine ⟨s', k', ?_, hinv'⟩
    have hcons : onItems (fullnameFn m env) (cur :: items) =
        fullnameFn m env ⟨cur, cur.path.dropLast⟩ >>= fun _ =>
          onItems (fullnameFn m env) items := rfl
    rw [hcons, run_bind, hfirst]
    exact hs'

/-- The host's table has got these texts, and nothing else has changed. -/
structure Received (t : Nat → Tree) (texts : List LuaString) (u : Unbatcher) : Prop where
  index : u.i = texts.length + 1
  filled : ∀ (k : Nat) (text : LuaString), texts[k]? = some text →
    u.t (k + 1) = .scalar (.str text)
  others : ∀ k, k = 0 ∨ texts.length < k → u.t k = t k

theorem received_of_holds {u : Unbatcher} {heap : Heap}
    (h : Holds heap t (texts.map strElement) u) : Received t texts u where
  index := by rw [h.index, List.length_map]
  filled k text htext :=
    equal_str (h.filled k (strElement text) (by rw [List.getElem?_map, htext]; rfl))
  others k hk := h.others k (by rwa [List.length_map])

/-- The full paths reach the host in turn. -/
theorem fullnames_received (m : Setting) (t : Nat → Tree) (henv : ∀ k, (env k).sent = true)
    (items : List Cur) :
    ∃ s k u, endCallback (bflush m env) (onItems (fullnameFn m env) items)
        (MsgBatcher.Script.start, 0) = .ok ⟨⟩ (s, k) ∧
      s.queue.foldlM unbatch ⟨1, t⟩ = .ok u ∧ Received t (items.map Cur.full) u := by
  have hstart : Invariant m t (([] : List LuaString).map strElement) .start := invariant_start
  obtain ⟨s₁, k₁, hs₁, hinv⟩ := fullnames_written henv items 0 hstart
  rw [List.nil_append] at hinv
  obtain ⟨s, hs, hreturned, ⟨sent, u, hvalues, hqueue, hholds⟩, hnil⟩ := flush_str (henv k₁) hinv
  rw [hnil, List.append_nil] at hvalues
  refine ⟨s, k₁ + 1, u, ?_, hqueue, received_of_holds (hvalues ▸ hholds)⟩
  rw [endCallback, hs₁]
  exact batch_ok hs hreturned

end Sent

/-! ## What is found -/

theorem joinpath_names {start : LuaString} {names : List LuaString} (hne : names ≠ []) :
    RlibPaths.joinpath (start :: names) = some (fullOf start names) := by
  cases names with
  | nil => exact absurd rfl hne
  | cons n names => rfl

/-- For each start path that can be found, and has a name if it is to match, the function is
called once for each item that can be reached and is to be taken, and for nothing else, a directory
before or behind what is in it. The path array of an item is the start path and the names down to
it. Without a function the full paths reach the host in this order. -/
theorem findFiles_found (fs : CamFs) (opts : FindOpts) (paths : List LuaString)
    (hpresent : ∀ start ∈ paths, Present fs opts start)
    (hname : ∀ start ∈ paths, Nameable fs opts start) :
    (∀ (σ : Type) (func : Func σ) (bflush : EStateM Fault σ PUnit),
      findFiles opts func fs bflush paths =
        endCallback bflush (onItems func (itemsOf fs opts paths))) ∧
    (∀ start ∈ paths,
      (∀ names, names ∈ itemsFrom fs opts start ↔
        (walkFrom fs opts start).Reaches [] names ∧ (walkFrom fs opts start).takes names = true) ∧
      (itemsFrom fs opts start).Nodup ∧
      (itemsFrom fs opts start).Pairwise (Walk.Before opts.dirsfirst) ∧
      ∀ names ∈ itemsFrom fs opts start, (curAt fs start names).path = start :: names ∧
        (curAt fs start names).full = fullOf start names ∧
        (names ≠ [] →
          RlibPaths.joinpath (curAt fs start names).path = some (curAt fs start names).full)) ∧
    ∀ (m : Setting) (t : Nat → Tree) (env : Nat → Env), (∀ k, (env k).sent = true) →
      ∃ s k u, findFiles opts (fullnameFn m env) fs (bflush m env) paths
          (MsgBatcher.Script.start, 0) = .ok ⟨⟩ (s, k) ∧
        s.queue.foldlM unbatch ⟨1, t⟩ = .ok u ∧
        Received t ((itemsOf fs opts paths).map Cur.full) u := by
  refine ⟨fun σ func bflush => findFiles_eq bflush hpresent hname, ?_, ?_⟩
  · intro start hmem
    have hordered := itemsFrom_ordered (hpresent start hmem)
    refine ⟨fun names => mem_itemsFrom, hordered.imp fun h => h.ne, hordered, ?_⟩
    intro names hnames
    have hpath : (curAt fs start names).path = start :: names :=
      curAt_path (reaches_names (hpresent start hmem) (mem_itemsFrom.mp hnames).1)
    refine ⟨hpath, rfl, fun hne => ?_⟩
    rw [hpath]
    exact joinpath_names hne
  · intro m t env henv
    rw [findFiles_eq (bflush m env) hpresent hname]
    exact fullnames_received m t henv (itemsOf fs opts paths)

/-- `A/.` -/
def rootDot : LuaString := bytes "A/.".toList

/-- `B` -/
def inside : LuaString := bytes "B".toList

/-- Directories without anything in them, except for one in `A/.`. -/
def card : CamFs where
  stat _ := .ok .directory
  listdir path := .ok (if path = rootDot then [inside] else [])
  idir := none

/-- The items that the function is called for are kept. -/
def recordItem : Func (List Cur) := fun it calls => .ok ⟨⟩ (calls ++ [it.cur])

theorem present_card (start : LuaString) : Present card findDefaults start where
  found := ⟨_, rfl⟩
  listed names _ _ := by
    refine ⟨_, rfl, ?_, ?_⟩
    · split <;> simp
    · intro n hn
      split at hn
      · rw [List.mem_singleton.mp hn]
        exact ⟨rfl, _, rfl⟩
      · cases hn

theorem findFiles_found_root : ∃ s k u,
    findFiles findDefaults (fullnameFn twoByTwo fun _ => ⟨true, []⟩) card
      (bflush twoByTwo fun _ => ⟨true, []⟩) [root] (MsgBatcher.Script.start, 0) = .ok ⟨⟩ (s, k) ∧
    s.queue.foldlM unbatch ⟨1, fun _ => .nil⟩ = .ok u ∧
    Received (fun _ => .nil) ((itemsOf card findDefaults [root]).map Cur.full) u :=
  (findFiles_found card findDefaults [root] (fun start _ => present_card start)
    fun _ _ h => by cases h).2.2 twoByTwo (fun _ => .nil) (fun _ => ⟨true, []⟩) fun _ => rfl

/-- A directory that is given twice is an item twice; what is in `A/.` is none; and a start path
without a name is an error if names are to match. -/
theorem not_found_once :
    findFiles findDefaults recordItem card (pure ⟨⟩) [root, root] [] =
      .ok ⟨⟩ [⟨.directory, root, some root, [root]⟩, ⟨.directory, root, some root, [root]⟩] ∧
    card.listdir rootDot = .ok [inside] ∧
    findFiles findDefaults recordItem card (pure ⟨⟩) [rootDot] [] =
      .ok ⟨⟩ [⟨.directory, rootDot, some dot, [rootDot]⟩] ∧
    findFiles { findDefaults with rmatch := some fun _ => true } recordItem card (pure ⟨⟩)
      [root ++ [slash]] [] = .error (.raised noName) [] :=
  ⟨rfl, rfl, rfl, rfl⟩

end CamFind
