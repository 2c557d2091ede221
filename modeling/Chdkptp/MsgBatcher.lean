import Chdkptp.ChdkuExec
import Chdkptp.LuaList

/-!
# Batched messages

The camera's `msg_batcher` collects values and sends them as one table when there are
enough of them; what could not be sent is kept and sent again with what is written
later. The host's `msg_unbatcher` appends the elements of each message to a table. A
run is a sequence of calls of the script with the outcome of each `write_usb_msg`.
-/

namespace MsgBatcher

open ActionSystem LuaValue LuaText LuaSerialize ChdkuExec

/-! ## The batcher -/

structure BatcherOpts where
  batchsize : Int
  dbgmem : Bool

/-- The elements of `self.data`, its note at `_dbg`, and `self.n`. -/
structure Batcher where
  data : List Element
  dbg : Option LuaString
  n : Nat
  count : n = data.length

def Batcher.empty : Batcher := ⟨[], none, 0, rfl⟩

/-- `self.data[self.n]=val`, behind the elements that are there. -/
def Batcher.push (b : Batcher) (v : Element) : Batcher where
  data := b.data ++ [v]
  dbg := b.dbg
  n := b.n + 1
  count := by rw [b.count, List.length_append, List.length_singleton]

/-- What is decided outside in a call: whether `write_usb_msg` succeeds, and the text
about memory. -/
structure Env where
  sent : Bool
  memory : LuaString

/-- The tables of the script and, at `ref`, those that the batcher makes; each new one
takes the place of the last, to which nothing refers. -/
structure Setting where
  heap : Heap
  ref : Nat
  opts : BatcherOpts
  scriptId : Nat

/-- The batcher, the messages that have been queued, and what the last call returned. -/
structure Script where
  batcher : Batcher
  queue : List (Msg LuaString)
  returned : Bool

def message (m : Setting) (text : LuaString) : Msg LuaString where
  scriptId := m.scriptId
  type := .user
  table := true
  value := some text

/-- `self.data._dbg`, if memory is watched. -/
def Batcher.note (opts : BatcherOpts) (env : Env) (b : Batcher) : Batcher :=
  if opts.dbgmem then { b with dbg := some env.memory } else b

@[simp] theorem note_data (opts : BatcherOpts) (env : Env) (b : Batcher) :
    (b.note opts env).data = b.data := by
  unfold Batcher.note
  split_ifs <;> rfl

/-- `t.flush`. There is no result when the table cannot be serialized. -/
def flush (m : Setting) (env : Env) (s : Script) : Option Script :=
  if 0 < s.batcher.n then
    let b := s.batcher.note m.opts env
    match listText m.heap m.ref b.data b.dbg with
    | .error _ => none
    | .ok text =>
      if env.sent then some ⟨.empty, s.queue ++ [message m text], true⟩
      else some ⟨b, s.queue, false⟩
  else some { s with returned := true }

/-- `t.write`. -/
def write (m : Setting) (v : Element) (env : Env) (s : Script) : Option Script :=
  let s := { s with batcher := s.batcher.push v }
  if m.opts.batchsize ≤ s.batcher.n then flush m env s else some { s with returned := true }

inductive Call where
  | write (v : Element) (env : Env)
  | flush (env : Env)

def system (m : Setting) : System Script Call where
  step s
    | .write v env => write m v env s
    | .flush env => flush m env s

def Script.start : Script := ⟨.empty, [], true⟩

/-! ## The unbatcher -/

inductive UnbatchError where
  /-- `wrongmsg_sub`. -/
  | subtype
  /-- `unserialize`. -/
  | unserialize
  /-- `ipairs` of something that is no table. -/
  | chunk

/-- The index and the elements of the table. -/
structure Unbatcher where
  i : Nat
  t : Nat → Tree

def lastIndex (fields : List (Scalar × Tree)) : Nat :=
  fields.foldr
    (fun e last =>
      match e.1 with
      | .int k => max k.toNat last
      | _ => last)
    0

def ipairsFrom (fields : List (Scalar × Tree)) : Nat → Nat → List Tree
  | 0, _ => []
  | fuel + 1, k =>
    match fieldValue fields (.int k) with
    | .nil => []
    | v => v :: ipairsFrom fields fuel (k + 1)

/-- The values that `ipairs` visits. No field is behind the last index. -/
def ipairs (fields : List (Scalar × Tree)) : List Tree := ipairsFrom fields (lastIndex fields) 1

/-- `t[i]=v` and `i=i+1`. -/
def Unbatcher.append (u : Unbatcher) (v : Tree) : Unbatcher where
  i := u.i + 1
  t := fun k => if k = u.i then v else u.t k

/-- The function that `chdku.msg_unbatcher` returns. -/
def unbatch (u : Unbatcher) (msg : Msg LuaString) : Except UnbatchError Unbatcher :=
  if msg.table then
    match msg.value.bind LuaText.unserialize with
    | none => .error .unserialize
    | some (.table fields) => .ok ((ipairs fields).foldl Unbatcher.append u)
    | some _ => .error .chunk
  else .error .subtype

/-! ## What is sent -/

def written (calls : List Call) : List Element :=
  calls.filterMap fun call =>
    match call with
    | .write v _ => some v
    | .flush _ => none

/-- The batches that are handed to `write_usb_msg`, when `batch` has been kept. -/
def attempts (opts : BatcherOpts) : List Element → List Call → List (List Element)
  | _, [] => []
  | batch, .write v env :: calls =>
    if opts.batchsize ≤ (batch ++ [v]).length then
      (batch ++ [v]) :: attempts opts (if env.sent then [] else batch ++ [v]) calls
    else attempts opts (batch ++ [v]) calls
  | batch, .flush env :: calls =>
    if 0 < batch.length then batch :: attempts opts (if env.sent then [] else batch) calls
    else attempts opts batch calls

/-- No table is part of two values of the batch. -/
def Apart (heap : Heap) (batch : List Element) : Prop :=
  batch.Pairwise fun v w => ∀ r, Reaches heap v.val r → ¬Reaches heap w.val r

/-- The batcher's table is not part of the value, which survives as the only element
of a list. -/
structure Writable (m : Setting) (v : Element) : Prop where
  fresh : ¬Reaches m.heap v.val m.ref
  survives : Survives m.heap m.ref v

/-! ## A message on the host -/

theorem le_lastIndex {fields : List (Scalar × Tree)} {k : Nat}
    (h : fieldValue fields (.int k) ≠ .nil) : k ≤ lastIndex fields := by
  induction fields with
  | nil => exact absurd rfl h
  | cons e fields ih =>
    obtain ⟨key, v⟩ := e
    rw [fieldValue_cons] at h
    unfold lastIndex at ih ⊢
    rw [List.foldr_cons]
    split_ifs at h with hkey
    · subst hkey
      exact Nat.le_max_left _ _
    · cases key with
      | bool b => exact ih h
      | str s => exact ih h
      | int n => exact Nat.le_trans (ih h) (Nat.le_max_right _ _)

theorem ipairsFrom_eq {fields : List (Scalar × Tree)} (n fuel k : Nat)
    (hvalues : ∀ i : Nat, i < n → fieldValue fields (.int (k + i : Nat)) ≠ .nil)
    (hend : fieldValue fields (.int (k + n : Nat)) = .nil) (hfuel : n ≤ fuel) :
    ipairsFrom fields fuel k =
      (List.range n).map fun i : Nat => fieldValue fields (.int (k + i : Nat)) := by
  induction n generalizing fuel k with
  | zero =>
    rw [Nat.add_zero] at hend
    cases fuel with
    | zero => rfl
    | succ fuel => simp [ipairsFrom, hend]
  | succ n ih =>
    obtain ⟨fuel, rfl⟩ := Nat.exists_eq_add_of_le' (show 1 ≤ fuel by omega)
    have hrest := ih fuel (k + 1)
      (fun i hi => by rw [Nat.add_assoc, Nat.add_comm 1]; exact hvalues (i + 1) (by omega))
      (by rw [Nat.add_assoc, Nat.add_comm 1]; exact hend) (by omega)
    have hhead : fieldValue fields (.int k) ≠ .nil := hvalues 0 (by omega)
    have hfrom : ipairsFrom fields (fuel + 1) k =
        fieldValue fields (.int k) :: ipairsFrom fields fuel (k + 1) := by
      cases hv : fieldValue fields (.int k) with
      | nil => exact absurd hv hhead
      | scalar s => simp [ipairsFrom, hv]
      | table fs => simp [ipairsFrom, hv]
    rw [hfrom, hrest, List.range_succ_eq_map, List.map_cons, List.map_map]
    congr 1
    refine List.map_congr_left fun i _ => ?_
    rw [Function.comp_apply, Nat.add_assoc, Nat.add_comm 1]

theorem ipairs_eq {fields : List (Scalar × Tree)} {n : Nat}
    (hvalues : ∀ i : Nat, i < n → fieldValue fields (.int (i + 1)) ≠ .nil)
    (hend : fieldValue fields (.int (n + 1)) = .nil) :
    ipairs fields = (List.range n).map fun i : Nat => fieldValue fields (.int (i + 1)) := by
  have hkey (i : Nat) : ((1 + i : Nat) : Int) = i + 1 := by omega
  have hlast : n ≤ lastIndex fields := by
    cases n with
    | zero => exact Nat.zero_le _
    | succ n => exact le_lastIndex (hvalues n (by omega))
  have hfrom := ipairsFrom_eq n (lastIndex fields) 1
    (fun i hi => by rw [hkey]; exact hvalues i hi) (by rw [hkey]; exact hend) hlast
  rw [ipairs, hfrom]
  refine List.map_congr_left fun i _ => ?_
  rw [hkey]

@[simp] theorem append_i (u : Unbatcher) (v : Tree) : (u.append v).i = u.i + 1 := rfl

theorem append_index (vs : List Tree) (u : Unbatcher) :
    (vs.foldl Unbatcher.append u).i = u.i + vs.length := by
  induction vs generalizing u with
  | nil => rfl
  | cons v vs ih =>
    rw [List.foldl_cons, ih, append_i, List.length_cons]
    omega

theorem append_other (vs : List Tree) (u : Unbatcher) (k : Nat)
    (hk : k < u.i ∨ u.i + vs.length ≤ k) : (vs.foldl Unbatcher.append u).t k = u.t k := by
  induction vs generalizing u with
  | nil => rfl
  | cons v vs ih =>
    rw [List.length_cons] at hk
    have hne : k ≠ u.i := by omega
    rw [List.foldl_cons, ih (u.append v) (by rw [append_i]; omega)]
    simp [Unbatcher.append, hne]

theorem append_value (vs : List Tree) (u : Unbatcher) (j : Nat) (v : Tree)
    (h : vs[j]? = some v) : (vs.foldl Unbatcher.append u).t (u.i + j) = v := by
  induction vs generalizing u j with
  | nil => cases h
  | cons w vs ih =>
    rw [List.foldl_cons]
    cases j with
    | zero =>
      cases h
      rw [append_other vs _ _ (Or.inl (by rw [append_i]; omega))]
      simp [Unbatcher.append]
    | succ j =>
      have hrest := ih (u.append w) j h
      have hplace : (u.append w).i + j = u.i + (j + 1) := by
        rw [append_i]
        omega
      rwa [hplace] at hrest

/-- The table has got these values, and nothing else has changed. -/
structure Holds (heap : Heap) (t : Nat → Tree) (values : List Element) (u : Unbatcher) : Prop where
  index : u.i = values.length + 1
  filled : ∀ (k : Nat) (v : Element), values[k]? = some v → Equal heap v.val (u.t (k + 1))
  others : ∀ k, k = 0 ∨ values.length < k → u.t k = t k

variable {m : Setting} {t : Nat → Tree}

/-- The elements of a list are appended. -/
theorem Holds.list {values batch : List Element} {u : Unbatcher} (h : Holds m.heap t values u)
    {fields : List (Scalar × Tree)}
    (hvalues : ∀ (i : Nat) (v : Element), batch[i]? = some v →
      Equal m.heap v.val (fieldValue fields (.int (i + 1))))
    (hend : fieldValue fields (.int (batch.length + 1)) = .nil) :
    Holds m.heap t (values ++ batch) ((ipairs fields).foldl Unbatcher.append u) := by
  have hne : ∀ i : Nat, i < batch.length → fieldValue fields (.int (i + 1)) ≠ .nil := by
    intro i hi hnil
    have hequal := hvalues i _ (List.getElem?_eq_getElem hi)
    rw [hnil] at hequal
    exact (batch[i]).property (equal_nil m.heap hequal)
  have hipairs := ipairs_eq hne hend
  have hlength : (ipairs fields).length = batch.length := by
    rw [hipairs, List.length_map, List.length_range]
  refine ⟨?_, ?_, ?_⟩
  · rw [append_index, h.index, hlength, List.length_append]
    omega
  · intro k v hv
    by_cases hk : k < values.length
    · rw [List.getElem?_append_left hk] at hv
      have hindex := h.index
      rw [append_other _ _ _ (Or.inl (by omega))]
      exact h.filled k v hv
    · rw [List.getElem?_append_right (by omega)] at hv
      have hlt := (List.getElem?_eq_some_iff.mp hv).1
      have hplace : k + 1 = u.i + (k - values.length) := by
        have := h.index
        omega
      have helement : (ipairs fields)[k - values.length]? =
          some (fieldValue fields (.int ((k - values.length : Nat) + 1))) := by
        rw [hipairs, List.getElem?_map, List.getElem?_range hlt]
        rfl
      rw [hplace, append_value _ _ _ _ helement]
      exact hvalues _ v hv
  · intro k hk
    rw [List.length_append] at hk
    have hindex := h.index
    rw [append_other _ _ _ (by rw [hlength]; omega)]
    exact h.others k (by omega)

/-! ## What holds in every run -/

/-- What the queued messages put into the table, followed by what the batcher has kept,
is what has been written. -/
def Invariant (m : Setting) (t : Nat → Tree) (values : List Element) (s : Script) : Prop :=
  ∃ sent u, values = sent ++ s.batcher.data ∧ s.queue.foldlM unbatch ⟨1, t⟩ = .ok u ∧
    Holds m.heap t sent u

theorem invariant_start : Invariant m t [] .start := by
  refine ⟨[], ⟨1, t⟩, rfl, rfl, rfl, ?_, fun k _ => rfl⟩
  intro k v hv
  cases hv

theorem Invariant.push {values : List Element} {s : Script} (h : Invariant m t values s)
    (v : Element) : Invariant m t (values ++ [v]) { s with batcher := s.batcher.push v } := by
  obtain ⟨sent, u, hvalues, hqueue, hholds⟩ := h
  refine ⟨sent, u, ?_, hqueue, hholds⟩
  rw [hvalues, List.append_assoc]
  rfl

/-- A message with the batch is taken by the host. -/
theorem Invariant.send {values : List Element} {s : Script} (h : Invariant m t values s)
    {text : LuaString} {fields : List (Scalar × Tree)}
    (htext : LuaText.unserialize text = some (.table fields))
    (helements : ∀ (i : Nat) (v : Element), s.batcher.data[i]? = some v →
      Equal m.heap v.val (fieldValue fields (.int (i + 1))))
    (hend : fieldValue fields (.int (s.batcher.data.length + 1)) = .nil) (returned : Bool) :
    Invariant m t values ⟨.empty, s.queue ++ [message m text], returned⟩ := by
  obtain ⟨sent, u, hvalues, hqueue, hholds⟩ := h
  have hunbatch : unbatch u (message m text) =
      .ok ((ipairs fields).foldl Unbatcher.append u) := by
    simp [unbatch, message, htext]
  refine ⟨values, (ipairs fields).foldl Unbatcher.append u, ?_, ?_, ?_⟩
  · exact (List.append_nil values).symm
  · rw [List.foldlM_append, hqueue]
    exact (bind_pure _).trans hunbatch
  · rw [hvalues]
    exact hholds.list helements hend

/-- After a flush the batch has been sent or kept; it has been sent if the flush says so. -/
theorem flush_invariant (env : Env) {values : List Element} {s : Script}
    (h : Invariant m t values s) (hwritable : ∀ v ∈ values, Writable m v)
    (hapart : 0 < s.batcher.data.length → Apart m.heap s.batcher.data) :
    ∃ s', flush m env s = some s' ∧ Invariant m t values s' ∧
      s'.batcher.data = (if env.sent then [] else s.batcher.data) ∧
      (s'.returned = true → s'.batcher.data = []) := by
  by_cases hsome : 0 < s.batcher.data.length
  · have hmem : ∀ v ∈ s.batcher.data, Writable m v := by
      obtain ⟨sent, u, hvalues, -⟩ := h
      intro v hv
      exact hwritable v (by rw [hvalues]; exact List.mem_append_right sent hv)
    obtain ⟨text, fields, htext, hread, helements, hend⟩ :=
      list_read (s.batcher.note m.opts env).dbg (fun v hv => (hmem v hv).fresh)
        (fun v hv => (hmem v hv).survives.sound (hmem v hv).fresh) (hapart hsome)
    have hn : 0 < s.batcher.n := by rw [s.batcher.count]; exact hsome
    simp only [flush, hn, if_true, note_data, htext]
    cases env.sent with
    | true => exact ⟨_, rfl, h.send hread helements hend true, rfl, fun _ => rfl⟩
    | false =>
      obtain ⟨sent, u, hvalues, hqueue, hholds⟩ := h
      refine ⟨_, rfl, ⟨sent, u, ?_, hqueue, hholds⟩, note_data m.opts env s.batcher, ?_⟩
      · rw [hvalues, note_data]
      · intro hreturned
        cases hreturned
  · have hnil : s.batcher.data = [] := List.eq_nil_of_length_eq_zero (by omega)
    have hn : ¬0 < s.batcher.n := by rw [s.batcher.count]; exact hsome
    refine ⟨{ s with returned := true }, if_neg hn, h, ?_, fun _ => hnil⟩
    rw [hnil, ite_self]

/-- A call succeeds, whatever `write_usb_msg` does, if the batches stay apart. -/
theorem step_invariant (call : Call) (rest : List Call) {values : List Element} {s : Script}
    (h : Invariant m t values s) (hwritable : ∀ v ∈ values ++ written [call], Writable m v)
    (hapart : ∀ batch ∈ attempts m.opts s.batcher.data (call :: rest), Apart m.heap batch) :
    ∃ s', (system m).step s call = some s' ∧ Invariant m t (values ++ written [call]) s' ∧
      ∀ batch ∈ attempts m.opts s'.batcher.data rest, Apart m.heap batch := by
  cases call with
  | write v env =>
    have hpush := h.push v
    have hsize : (s.batcher.push v).n = (s.batcher.data ++ [v]).length := (s.batcher.push v).count
    rw [attempts] at hapart
    by_cases hfull : m.opts.batchsize ≤ (s.batcher.data ++ [v]).length
    · rw [if_pos hfull, List.forall_mem_cons] at hapart
      obtain ⟨s', hs', hinv, hdata, -⟩ :=
        flush_invariant env hpush hwritable fun _ => hapart.1
      refine ⟨s', ?_, hinv, ?_⟩
      · simp only [system, write, hsize, if_pos hfull]
        exact hs'
      · rw [hdata]
        exact hapart.2
    · rw [if_neg hfull] at hapart
      refine ⟨{ s with batcher := s.batcher.push v, returned := true }, ?_, hpush, hapart⟩
      simp only [system, write, hsize, if_neg hfull]
  | flush env =>
    rw [written, List.filterMap_cons_none rfl, List.filterMap_nil, List.append_nil] at hwritable ⊢
    rw [attempts] at hapart
    by_cases hsome : 0 < s.batcher.data.length
    · rw [if_pos hsome, List.forall_mem_cons] at hapart
      obtain ⟨s', hs', hinv, hdata, -⟩ := flush_invariant env h hwritable fun _ => hapart.1
      refine ⟨s', hs', hinv, ?_⟩
      rw [hdata]
      exact hapart.2
    · rw [if_neg hsome] at hapart
      obtain ⟨s', hs', hinv, hdata, -⟩ :=
        flush_invariant env h hwritable fun hpos => absurd hpos hsome
      have hnil : s.batcher.data = [] := List.eq_nil_of_length_eq_zero (by omega)
      refine ⟨s', hs', hinv, ?_⟩
      rw [hnil, ite_self] at hdata
      rw [hnil] at hapart
      rw [hdata]
      exact hapart

theorem written_cons (call : Call) (calls : List Call) :
    written (call :: calls) = written [call] ++ written calls := by
  cases call <;> rfl

theorem run_invariant (calls rest : List Call) {values : List Element} {s : Script}
    (h : Invariant m t values s) (hwritable : ∀ v ∈ values ++ written calls, Writable m v)
    (hapart : ∀ batch ∈ attempts m.opts s.batcher.data (calls ++ rest), Apart m.heap batch) :
    ∃ s', (system m).run s calls = some s' ∧ Invariant m t (values ++ written calls) s' ∧
      ∀ batch ∈ attempts m.opts s'.batcher.data rest, Apart m.heap batch := by
  induction calls generalizing values s with
  | nil => exact ⟨s, rfl, by simpa [written] using h, hapart⟩
  | cons call calls ih =>
    rw [written_cons, ← List.append_assoc] at hwritable ⊢
    obtain ⟨s₁, hs₁, hinv, hrest⟩ := step_invariant call (calls ++ rest) h
      (fun v hv => hwritable v (List.mem_append_left _ hv)) hapart
    obtain ⟨s', hrun, hinv', hapart'⟩ := ih hinv hwritable hrest
    exact ⟨s', by rw [System.run_cons, hs₁]; exact hrun, hinv', hapart'⟩

/-- If no table is part of two values of one batch, then after any calls with any
failures and a flush that succeeds, the host's table has got what has been written. -/
theorem delivered (m : Setting) (t : Nat → Tree) (calls : List Call) (env : Env)
    (hwritable : ∀ v ∈ written calls, Writable m v)
    (hapart : ∀ batch ∈ attempts m.opts [] (calls ++ [.flush env]), Apart m.heap batch) :
    ∃ s, (system m).run .start (calls ++ [.flush env]) = some s ∧
      (s.returned = true → ∃ u, s.queue.foldlM unbatch ⟨1, t⟩ = .ok u ∧
        Holds m.heap t (written calls) u) := by
  obtain ⟨s, hrun, hinv, hlast⟩ := run_invariant calls [.flush env] (invariant_start (m := m))
    hwritable hapart
  have hflush : 0 < s.batcher.data.length → Apart m.heap s.batcher.data := by
    intro hpos
    rw [attempts, if_pos hpos] at hlast
    exact hlast _ List.mem_cons_self
  obtain ⟨s', hs', hinv', -, hnil⟩ := flush_invariant env hinv hwritable hflush
  refine ⟨s', ?_, ?_⟩
  · rw [System.run_append, hrun]
    simp [system, hs']
  · intro hreturned
    obtain ⟨sent, u, hvalues, hqueue, hholds⟩ := hinv'
    rw [hnil hreturned, List.append_nil, List.nil_append] at hvalues
    exact ⟨u, hqueue, hvalues ▸ hholds⟩

def emptyTable : Table where
  entries := []
  border := 0
  text := []
  nodup := List.nodup_nil
  key_ne := by simp
  value_ne := by simp
  border_value := by simp
  border_next := rfl

/-- All tables of the script are empty; a batch has two elements. -/
def twoByTwo : Setting where
  heap := fun _ => emptyTable
  ref := 1
  opts := ⟨2, false⟩
  scriptId := 1

/-- The table at 0. -/
def shared : Element := ⟨.table 0, by decide⟩

theorem shared_reaches (r : Nat) : Reaches twoByTwo.heap shared.val r ↔ r = 0 := by
  constructor
  · intro h
    cases h with
    | here => rfl
    | key he => cases he
    | value he => cases he
  · rintro rfl
    exact .here 0

theorem shared_writable : Writable twoByTwo shared where
  fresh h := by cases (shared_reaches 1).mp h
  survives := by
    refine ⟨bytes ['{', '{', '}', '}'], .table [(.int 1, .table [])], rfl, rfl, ?_⟩
    refine equal_singleton (.table 0 [] (fun e he => by cases he) fun s => ?_)
    exact .nil

theorem delivered_witness :
    ∃ s, (system twoByTwo).run .start
        [.write shared ⟨false, []⟩, .flush ⟨false, []⟩, .flush ⟨true, []⟩] = some s ∧
      (s.returned = true → ∃ u, s.queue.foldlM unbatch ⟨1, fun _ => .nil⟩ = .ok u ∧
        Holds twoByTwo.heap (fun _ => .nil) [shared] u) := by
  refine delivered twoByTwo (fun _ => .nil) [.write shared ⟨false, []⟩, .flush ⟨false, []⟩]
    ⟨true, []⟩ ?_ ?_
  · intro v hv
    rw [List.mem_singleton.mp hv]
    exact shared_writable
  · intro batch hbatch
    have hone : batch = [shared] := by simpa [attempts, twoByTwo] using hbatch
    rw [hone]
    exact List.pairwise_singleton _ _

/-- A table that is written twice survives alone, but not twice in one batch: the script
ends with the error about a cycle. -/
theorem shared_table_fails :
    Writable twoByTwo shared ∧
      (system twoByTwo).run .start
        [.write shared ⟨true, []⟩, .write shared ⟨true, []⟩, .flush ⟨true, []⟩] = none ∧
      listText twoByTwo.heap twoByTwo.ref [shared, shared] none = .error .cycle :=
  ⟨shared_writable, rfl, rfl⟩

end MsgBatcher
