import Chdkptp.StatusWait

/-!
# What a capture returns

The handlers of `con:capture_get_data` give it the values to return, with a function that
makes a table for the first value of a type. Every handler of a requested type runs once.
That the values of a type come back as its entry depends on how many there are, and on
the border of the entries.
-/

namespace CaptureReturns

open LuaText LuaUtil RequestProgram RemoteCapture StatusWait

/-- Each run of a handler: the type, and the values that it stored. -/
abbrev Log := List (Nat × List Chunk)

def types (log : Log) : List Nat := log.map Prod.fst

/-! ## Storing -/

/-- What `store_return` makes of `rets`. -/
def store (border : Rets → Nat) (i : Nat) (rets : Rets) (val : Chunk) : Rets :=
  if (rets.lookup i).isSome then rets.insert (border rets + 1) (.value val)
  else rets.insert i (.table val)

def storeRun (border : Rets → Nat) (rets : Rets) (e : Nat × List Chunk) : Rets :=
  e.2.foldl (store border e.1) rets

/-- `rets` after these runs. -/
def stored (border : Rets → Nat) (log : Log) : Rets := log.foldl (storeRun border) ∅

/-- The entry of a run that stored one value at most. -/
def addEntry (rets : Rets) (e : Nat × List Chunk) : Rets :=
  (e.2.head?).elim rets fun v => rets.insert e.1 (.table v)

/-- An entry for each type that stored a value, with the first value. -/
def entries (log : Log) : Rets := log.foldl addEntry ∅

@[simp] theorem types_append (log log' : Log) : types (log ++ log') = types log ++ types log' :=
  List.map_append

theorem stored_append (border : Rets → Nat) (log : Log) (e : Nat × List Chunk) :
    stored border (log ++ [e]) = storeRun border (stored border log) e := by
  simp [stored, List.foldl_append]

theorem entries_append (log : Log) (e : Nat × List Chunk) :
    entries (log ++ [e]) = addEntry (entries log) e := by
  simp [entries, List.foldl_append]

theorem lookup_addEntry_ne (rets : Rets) (e : Nat × List Chunk) {i : Nat} (h : i ≠ e.1) :
    (addEntry rets e).lookup i = rets.lookup i := by
  rw [addEntry]
  cases e.2.head? with
  | none => rfl
  | some v => exact AList.lookup_insert_ne h

theorem lookup_entries_none {log : Log} {i : Nat} (h : i ∉ types log) :
    (entries log).lookup i = none := by
  induction log using List.reverseRecOn with
  | nil => rfl
  | append_singleton log e ih =>
    simp only [types_append, List.mem_append, not_or] at h
    have hne : i ≠ e.1 := by
      intro hi
      exact h.2 (by simp [types, hi])
    rw [entries_append, lookup_addEntry_ne _ _ hne, ih h.1]

/-- A run that stores one value at most, the first of its type, adds its entry. -/
theorem storeRun_eq (border : Rets → Nat) {rets : Rets} {e : Nat × List Chunk}
    (hone : e.2.length ≤ 1) (hnone : rets.lookup e.1 = none) :
    storeRun border rets e = addEntry rets e := by
  obtain ⟨i, vs⟩ := e
  cases vs with
  | nil => rfl
  | cons v vs =>
    cases vs with
    | nil => simp [storeRun, addEntry, store, hnone]
    | cons w vs => simp at hone

theorem stored_eq_entries (border : Rets → Nat) {log : Log} (hnodup : (types log).Nodup)
    (hone : ∀ e ∈ log, e.2.length ≤ 1) : stored border log = entries log := by
  induction log using List.reverseRecOn with
  | nil => rfl
  | append_singleton log e ih =>
    rw [types_append, List.nodup_append'] at hnodup
    have hnot : e.1 ∉ types log := fun he => hnodup.2.2 he (by simp [types])
    have hlog : stored border log = entries log :=
      ih hnodup.1 fun e' he' => hone e' (List.mem_append_left _ he')
    rw [stored_append, entries_append, hlog]
    exact storeRun_eq border (hone e (by simp)) (lookup_entries_none hnot)

theorem lookup_entries {log : Log} (hnodup : (types log).Nodup) {e : Nat × List Chunk}
    (he : e ∈ log) : (entries log).lookup e.1 = e.2.head?.map Ret.table := by
  induction log using List.reverseRecOn with
  | nil => cases he
  | append_singleton log e' ih =>
    rw [types_append, List.nodup_append'] at hnodup
    have hnot : e'.1 ∉ types log := fun h => hnodup.2.2 h (by simp [types])
    rw [entries_append]
    rcases List.mem_append.mp he with he | he
    · have hne : e.1 ≠ e'.1 := by
        intro h
        exact hnot (h ▸ List.mem_map_of_mem he)
      rw [lookup_addEntry_ne _ _ hne, ih hnodup.1 he]
    · rw [List.mem_singleton.mp he, addEntry]
      cases e'.2.head? with
      | none => exact lookup_entries_none hnot
      | some v => exact AList.lookup_insert _

/-! ## What is delivered -/

/-- The values in an entry, none for one that is no table. -/
def valuesAt (rets : Rets) (i : Nat) : Option (List Chunk) :=
  match rets.lookup i with
  | none => some []
  | some (.table v) => some [v]
  | some (.value _) => none

/-- Every requested type has had its handler run once, and when values have been stored the
result is a table with the values of each type as its entry. -/
structure Delivered {σ : Type} (opts : CaptureOpts σ) (log : Log) (result : CaptureResult) :
    Prop where
  once : (types log).Nodup
  requested : ∀ i, i ∈ types log ↔ (handlers opts i).isSome
  values : (∃ e ∈ log, e.2 ≠ []) →
    ∃ rets, result = .rets rets ∧ ∀ e ∈ log, valuesAt rets e.1 = some e.2

/-- The last test of `con:capture_get_data`. -/
def resultOf (border : Rets → Nat) (rets : Rets) : CaptureResult :=
  if border rets > 0 then .rets rets else .true_

theorem valuesAt_length {rets : Rets} {i : Nat} {vs : List Chunk} (h : valuesAt rets i = some vs) :
    vs.length ≤ 1 := by
  unfold valuesAt at h
  split at h
  · cases h
    exact Nat.zero_le 1
  · cases h
    exact le_rfl
  · cases h

theorem valuesAt_entries {log : Log} (hnodup : (types log).Nodup) {e : Nat × List Chunk}
    (he : e ∈ log) (hone : e.2.length ≤ 1) : valuesAt (entries log) e.1 = some e.2 := by
  obtain ⟨i, vs⟩ := e
  rw [valuesAt, lookup_entries hnodup he]
  cases vs with
  | nil => rfl
  | cons v vs =>
    cases vs with
    | nil => rfl
    | cons w vs => simp at hone

/-- No more than one value of each type, and a border behind an entry if there is a value. -/
def Returnable (border : Rets → Nat) (log : Log) : Prop :=
  (∀ e ∈ log, e.2.length ≤ 1) ∧ ((∃ e ∈ log, e.2 ≠ []) → 0 < border (entries log))

theorem delivered_stored {σ : Type} {opts : CaptureOpts σ} (border : Rets → Nat) {log : Log}
    (honce : (types log).Nodup) (hrequested : ∀ i, i ∈ types log ↔ (handlers opts i).isSome) :
    Delivered opts log (resultOf border (stored border log)) ↔ Returnable border log := by
  constructor
  · intro h
    have hone : ∀ e ∈ log, e.2.length ≤ 1 := by
      intro e he
      by_cases hempty : e.2 = []
      · simp [hempty]
      · obtain ⟨rets, -, hvalues⟩ := h.values ⟨e, he, hempty⟩
        exact valuesAt_length (hvalues e he)
    refine ⟨hone, fun hsome => ?_⟩
    obtain ⟨rets, hrets, -⟩ := h.values hsome
    rw [resultOf, stored_eq_entries border honce hone] at hrets
    by_contra hborder
    rw [if_neg hborder] at hrets
    cases hrets
  · rintro ⟨hone, hborder⟩
    refine ⟨honce, hrequested, fun hsome => ⟨entries log, ?_, ?_⟩⟩
    · rw [resultOf, stored_eq_entries border honce hone, if_pos (hborder hsome)]
    · intro e he
      exact valuesAt_entries honce he (hone e he)

/-! ## Runs -/

variable {σ ι : Type}

/-- A history of the host lists the runs of the handlers: a sleep adds nothing to it, and
each run of a handler that ends adds its type and the values that it has stored. -/
structure Recorded (host : HostOps σ) (opts : CaptureOpts σ) (history : σ → Log) : Prop where
  sleep : ∀ t s, history (host.sleep t s) = history s
  stores : ∀ (i : Nat) (handler : Handler σ) (imgnum : Int) (m m' : Machine σ),
    handlers opts i = some handler →
    Action.Yields (handler (remotecapDtypes i imgnum)) m () m' →
    ∃ vs, history m'.host = history m.host ++ [(i, vs)] ∧
      m'.rets = storeRun host.border m.rets (i, vs)

/-- The host's history and the values are as before. -/
structure Kept (history : σ → Log) (m m' : Machine σ) : Prop where
  history : history m'.host = history m.host
  rets : m'.rets = m.rets

theorem Kept.refl (history : σ → Log) (m : Machine σ) : Kept history m m := ⟨rfl, rfl⟩

theorem Kept.trans {history : σ → Log} {m m' m'' : Machine σ} (h : Kept history m m')
    (h' : Kept history m' m'') : Kept history m m'' :=
  ⟨h'.history.trans h.history, h'.rets.trans h.rets⟩

theorem yields_request {α : Type} {r : Except CamError α} {m m' : Machine σ} {a : α} :
    Action.Yields (Method.request r) m a m' ↔ r = .ok a ∧ m' = m := by
  cases r with
  | ok b =>
    simp only [Method.request, Action.yields_pure, Except.ok.injEq]
    rw [eq_comm]
  | error e => simp [Method.request, Method.error]

/-- A request to the camera leaves the machine as it is. -/
theorem yields_asked {α : Type} (q : Request) (f : Reply q → Except CamError α) {m m' : Machine σ}
    {a : α} (h : Action.Yields (Action.ask q >>= fun r => Method.request (f r)) m a m') :
    m' = m := by
  obtain ⟨r, t, hask, hr⟩ := Action.yields_bind.mp h
  rw [(yields_request.mp hr).2, Action.yields_ask.mp hask]

theorem yields_scriptStatus {m m' : Machine σ} {status : ScriptStatus}
    (h : Action.Yields Method.scriptStatus m status m') : m' = m :=
  yields_asked .scriptStatus (fun r => r) h

theorem yields_captureReady {m m' : Machine σ} {ready : Int × Int}
    (h : Action.Yields Method.captureReady m ready m') : m' = m :=
  yields_asked .captureReady (fun r => r) h

theorem yields_captureGetChunk {fmt : Nat} {m m' : Machine σ} {chunk : Chunk}
    (h : Action.Yields (Method.captureGetChunk fmt) m chunk m') : m' = m :=
  yields_asked (.captureGetChunk fmt) (fun r => r) h

theorem yields_readReady {opts : WaitOpts} {m m' : Machine σ} {ready : Int × Int}
    (h : Action.Yields (readReady opts) m ready m') : m' = m := by
  rw [readReady] at h
  split at h
  · exact yields_captureReady h
  · exact (Action.yields_pure.mp h).2

variable {host : HostOps σ} {history : σ → Log}

theorem kept_pure {α : Type} {a b : α} {m m' : Machine σ}
    (h : Action.Yields (pure a : Method σ α) m b m') : Kept history m m' := by
  rw [(Action.yields_pure.mp h).2]
  exact .refl history m

theorem kept_sleep (hsleep : ∀ t s, history (host.sleep t s) = history s) (t : Int)
    (m : Machine σ) : Kept history m { m with host := host.sleep t m.host } :=
  ⟨hsleep t m.host, rfl⟩

theorem kept_waitLoop (hsleep : ∀ t s, history (host.sleep t s) = history s) (opts : WaitOpts)
    (poll : Int) (pollstart : Bool) (polls : Nat) (timeleft sleeptime : Int) {m m' : Machine σ}
    {status : WaitStatus}
    (h : Action.Yields (waitLoop host opts poll pollstart polls timeleft sleeptime) m status m') :
    Kept history m m' := by
  induction polls generalizing timeleft sleeptime m with
  | zero => exact absurd h Action.not_yields_throw
  | succ polls ih =>
    rw [waitLoop_succ] at h
    obtain ⟨script, m₁, hscript, hrest⟩ := Action.yields_bind.mp h
    obtain ⟨ready, m₂, hready, hafter⟩ := Action.yields_bind.mp hrest
    rw [yields_readReady hready, yields_scriptStatus hscript] at hafter
    unfold afterPoll at hafter
    split at hafter
    · exact kept_pure hafter
    · split at hafter
      · exact kept_pure hafter
      · split at hafter
        · obtain ⟨u, m₃, hslept, hnext⟩ := Action.yields_bind.mp hafter
          rw [Action.yields_modify.mp hslept] at hnext
          exact (kept_sleep hsleep _ m).trans (ih _ _ hnext)
        · split at hafter
          · exact absurd hafter Action.not_yields_throw
          · exact kept_pure hafter

theorem kept_waitStatus (hsleep : ∀ t s, history (host.sleep t s) = history s) (self : ConInfo)
    (opts : WaitOpts) (polls : Nat) {m m' : Machine σ} {status : WaitStatus}
    (h : Action.Yields (waitStatus host self opts polls) m status m') : Kept history m m' := by
  obtain ⟨u, m₁, hinit, hrest⟩ := Action.yields_bind.mp h
  have hfirst : Kept history m m₁ := by
    rw [Action.yields_modify.mp hinit]
    cases opts.initwait with
    | none => exact .refl history m
    | some t => exact kept_sleep hsleep t m
  split at hrest
  · exact absurd hrest Action.not_yields_throw
  · exact hfirst.trans (kept_waitLoop hsleep _ _ _ _ _ _ hrest)

theorem kept_initSubst (self : ConInfo) (opts : CaptureOpts σ) (m : Machine σ) :
    Kept history m (initSubst host self opts m) := by
  unfold initSubst
  split
  · exact ⟨rfl, rfl⟩
  · exact .refl history m

/-- How far a call is: what is still to get, and what the runs so far have stored. -/
structure Progress (host : HostOps σ) (opts : CaptureOpts σ) (history : σ → Log)
    (toget : Nat → Bool) (m : Machine σ) : Prop where
  once : (types (history m.host)).Nodup
  requested : ∀ i ∈ types (history m.host), (handlers opts i).isSome
  toget_iff : ∀ i, toget i = true ↔ (handlers opts i).isSome ∧ i ∉ types (history m.host)
  rets : m.rets = stored host.border (history m.host)

theorem Progress.kept {opts : CaptureOpts σ} {toget : Nat → Bool} {m m' : Machine σ}
    (h : Progress host opts history toget m) (hkept : Kept history m m') :
    Progress host opts history toget m' := by
  constructor
  · rw [hkept.history]
    exact h.once
  · rw [hkept.history]
    exact h.requested
  · rw [hkept.history]
    exact h.toget_iff
  · rw [hkept.history, hkept.rets]
    exact h.rets

/-- A run of the handler of a type that was to get. -/
theorem Progress.handler {opts : CaptureOpts σ} (hrec : Recorded host opts history)
    {toget : Nat → Bool} {m m' : Machine σ} (h : Progress host opts history toget m) {i : Nat}
    {handler : Handler σ} {imgnum : Int} (htoget : toget i = true)
    (hhandler : handlers opts i = some handler)
    (hrun : Action.Yields (handler (remotecapDtypes i imgnum)) m () m') :
    Progress host opts history (Function.update toget i false) m' := by
  obtain ⟨vs, hhistory, hrets⟩ := hrec.stores i handler imgnum m m' hhandler hrun
  have hnot := ((h.toget_iff i).mp htoget).2
  have htypes : types (history m'.host) = types (history m.host) ++ [i] := by
    rw [hhistory, types_append]
    rfl
  constructor
  · rw [htypes]
    exact List.nodup_append'.mpr ⟨h.once, List.nodup_singleton i,
      List.disjoint_singleton.mpr hnot⟩
  · intro j hj
    rw [htypes, List.mem_append, List.mem_singleton] at hj
    rcases hj with hj | rfl
    · exact h.requested j hj
    · simp [hhandler]
  · intro j
    rw [htypes, List.mem_append, List.mem_singleton]
    by_cases hj : j = i
    · simp [hj]
    · rw [Function.update_of_ne hj, h.toget_iff j]
      simp [hj]
  · rw [hhistory, stored_append, hrets, h.rets]

/-- The types that are available are got; the count is of those still to get. -/
theorem progress_eachType (lcon : ι) {opts : CaptureOpts σ} (hrec : Recorded host opts history)
    (rsdata imgnum : Int) (is : List Nat) {toget toget' : Nat → Bool} {n n' : Nat}
    {m m' : Machine σ} (h : Progress host opts history toget m)
    (hrun : Action.Yields (eachType lcon opts rsdata imgnum is toget n) m (toget', n') m') :
    Progress host opts history toget' m' ∧ n ≤ n' ∧ (∀ i, toget' i = true → toget i = true) ∧
      (n' = n → ∀ i ∈ is, toget' i = false) := by
  induction is generalizing toget n m with
  | nil =>
    rw [eachType, Action.yields_pure] at hrun
    obtain ⟨hsame, rfl⟩ := hrun
    obtain ⟨rfl, rfl⟩ := Prod.mk.inj hsame
    exact ⟨h, le_rfl, fun i hi => hi, fun _ i hi => by cases hi⟩
  | cons i is ih =>
    rw [eachType] at hrun
    split at hrun
    · split at hrun
      · rename_i handler htoget hhandler
        obtain ⟨u, t, hhandled, hrest⟩ := Action.yields_bind.mp hrun
        rw [Action.yields_on] at hhandled
        obtain ⟨hprogress, hle, hmono, hall⟩ := ih (h.handler hrec htoget hhandler hhandled) hrest
        have hdone : toget' i = false := by
          by_contra hnot
          have htrue := hmono i (by simpa using hnot)
          simp at htrue
        refine ⟨hprogress, hle, ?_, ?_⟩
        · intro j hj
          have hupdate := hmono j hj
          by_cases hji : j = i
          · rw [hji]
            exact htoget
          · rwa [Function.update_of_ne hji] at hupdate
        · intro hn j hj
          cases hj with
          | head => exact hdone
          | tail _ hj => exact hall hn j hj
      · exact absurd hrun Action.not_yields_throw
    · obtain ⟨hprogress, hle, hmono, hall⟩ := ih h hrun
      split at hle
      · exact ⟨hprogress, by omega, hmono, by omega⟩
      · rename_i htoget
        refine ⟨hprogress, hle, hmono, ?_⟩
        intro hn j hj
        rw [if_neg htoget] at hall
        cases hj with
        | head =>
          by_contra hnot
          exact htoget (hmono i (by simpa using hnot))
        | tail _ hj => exact hall hn j hj

theorem progress_captureLoop (cams : ι → ConInfo) (con lcon : ι) {opts : CaptureOpts σ}
    (hrec : Recorded host opts history) (polls passes : Nat) {toget : Nat → Bool}
    {m m' : Machine σ} {result : CaptureResult} (h : Progress host opts history toget m)
    (hrun : Action.Yields (captureLoop host cams con lcon opts polls passes toget) m result m') :
    ∃ toget', Progress host opts history toget' m' ∧ (∀ i ∈ [0, 1, 2, 3], toget' i = false) ∧
      result = resultOf host.border m'.rets := by
  induction passes generalizing toget m with
  | zero => exact absurd hrun Action.not_yields_throw
  | succ passes ih =>
    obtain ⟨status, m₁, hwait, hrun₁⟩ := Action.yields_bind.mp hrun
    rw [Action.yields_on] at hwait
    have hwaited := h.kept (kept_waitStatus hrec.sleep _ _ _ hwait)
    dsimp only at hrun₁
    split at hrun₁
    · exact absurd hrun₁ Action.not_yields_throw
    · obtain ⟨u, m₂, hsubst, hrun₂⟩ := Action.yields_bind.mp hrun₁
      rw [Action.yields_modify.mp hsubst] at hrun₂
      obtain ⟨⟨toget', n'⟩, m₃, heach, hrun₃⟩ := Action.yields_bind.mp hrun₂
      obtain ⟨hprogress, -, -, hall⟩ := progress_eachType lcon hrec _ _ _
        (hwaited.kept (kept_initSubst _ opts m₁)) heach
      split at hrun₃
      · rename_i hzero
        rw [Action.yields_local, Prod.mk.injEq, Except.ok.injEq] at hrun₃
        obtain ⟨hresult, rfl⟩ := hrun₃
        exact ⟨toget', hprogress, hall hzero, hresult.symm⟩
      · exact ih hprogress hrun₃

theorem handlers_none {opts : CaptureOpts σ} {i : Nat} (h : i ∉ [0, 1, 2, 3]) :
    handlers opts i = none := by
  obtain ⟨j, rfl⟩ : ∃ j, i = j + 4 := by
    simp only [List.mem_cons, List.not_mem_nil, or_false, not_or] at h
    exact ⟨i - 4, by omega⟩
  rfl

/-- A call that returns has got every requested type once, and returns what was stored. -/
theorem delivered_captureGetData (cams : ι → ConInfo) (con lcon : ι) {opts : CaptureOpts σ}
    (hrec : Recorded host opts history) (passes polls : Nat) {m m' : Machine σ}
    {result : CaptureResult} (hstart : history m.host = [])
    (hrun : Action.Yields (captureGetData host cams con lcon opts passes polls) m result m') :
    (types (history m'.host)).Nodup ∧
      (∀ i, i ∈ types (history m'.host) ↔ (handlers opts i).isSome) ∧
      result = resultOf host.border (stored host.border (history m'.host)) := by
  unfold captureGetData at hrun
  split at hrun
  · exact absurd hrun Action.not_yields_throw
  · obtain ⟨u, m₁, hempty, hloop⟩ := Action.yields_bind.mp hrun
    rw [Action.yields_modify.mp hempty] at hloop
    have hfirst : Progress host opts history (fun i => (handlers opts i).isSome)
        { m with subst := none, rets := ∅ } := by
      constructor
      · simp [hstart, types]
      · simp [hstart, types]
      · simp [hstart, types]
      · rw [hstart]
        rfl
    obtain ⟨toget', hprogress, hall, hresult⟩ :=
      progress_captureLoop cams con lcon hrec polls passes hfirst hloop
    refine ⟨hprogress.once, fun i => ⟨hprogress.requested i, ?_⟩, ?_⟩
    · intro hsome
      by_cases hi : i ∈ [0, 1, 2, 3]
      · by_contra hnot
        have htrue := (hprogress.toget_iff i).mpr ⟨hsome, hnot⟩
        rw [hall i hi] at htrue
        cases htrue
      · rw [handlers_none hi] at hsome
        cases hsome
    · rw [hresult, hprogress.rets]

/-- A call delivers what was stored exactly when it can be returned. -/
theorem delivered_iff (cams : ι → ConInfo) (con lcon : ι) {opts : CaptureOpts σ}
    (hrec : Recorded host opts history) (passes polls : Nat) {m m' : Machine σ}
    {result : CaptureResult} (hstart : history m.host = [])
    (hrun : Action.Yields (captureGetData host cams con lcon opts passes polls) m result m') :
    Delivered opts (history m'.host) result ↔ Returnable host.border (history m'.host) := by
  obtain ⟨honce, hrequested, rfl⟩ :=
    delivered_captureGetData cams con lcon hrec passes polls hstart hrun
  exact delivered_stored host.border honce hrequested

/-! ## Chunks that are stored -/

/-- The runs of handlers, and what the present run has stored. -/
structure Recorder where
  runs : Log
  now : List Chunk

/-- A host that keeps a record; `#` counts to the first hole. -/
def recorder : HostOps Recorder where
  windows := false
  sleep _ := id
  time _ := (0, 0, 0)
  openFile _ s := (.ok (), s)
  seek _ := id
  fwrite _ s := (.ok (), s)
  close := id
  dngHdr _ := false
  processDng raw s := (.ok raw.data, s)
  substRun _ filename := .ok filename
  border rets := (ipairs rets).length

/-- `chdku.rc_handler_store` with a function that stores each chunk and makes a note of it. -/
def notedStore (hdata : HData) (chunk : Chunk) : Method Recorder Unit := do
  storeReturn recorder hdata chunk
  Method.onHost fun s => { s with now := s.now ++ [chunk] }

def storeHandler : Handler Recorder := fun hdata => do
  Method.onHost fun s => { s with now := [] }
  rcHandlerStore recorder (some (notedStore hdata)) hdata
  Method.onHost fun s => { s with runs := s.runs ++ [(hdata.type, s.now)] }

theorem storeReturn_eq (host : HostOps σ) (hdata : HData) (val : Chunk) :
    storeReturn host hdata val =
      Action.modify fun m => { m with rets := store host.border hdata.type m.rets val } := by
  unfold storeReturn store
  congr 1
  funext m
  split <;> rfl

theorem yields_notedStore {hdata : HData} {chunk : Chunk} {u : Unit} {m m' : Machine Recorder}
    (h : Action.Yields (notedStore hdata chunk) m u m') :
    m'.host = ⟨m.host.runs, m.host.now ++ [chunk]⟩ ∧
      m'.rets = store recorder.border hdata.type m.rets chunk := by
  obtain ⟨u', m₁, hstore, hnote⟩ := Action.yields_bind.mp h
  rw [storeReturn_eq, Action.yields_modify] at hstore
  rw [Action.yields_modify.mp hnote, hstore]
  exact ⟨rfl, rfl⟩

/-- All chunks of a run are stored, in order. -/
theorem yields_chunkLoop {hdata : HData} {left n k : Nat} {m m' : Machine Recorder}
    (h : Action.Yields (chunkLoop hdata
      (fun chunk => notedStore hdata { chunk with imgnum := some hdata.imgnum }) left n) m k m') :
    ∃ vs, m'.host = ⟨m.host.runs, m.host.now ++ vs⟩ ∧
      m'.rets = storeRun recorder.border m.rets (hdata.type, vs) := by
  induction left generalizing n m with
  | zero =>
    rw [(Action.yields_pure.mp h).2]
    exact ⟨[], by simp, rfl⟩
  | succ left ih =>
    obtain ⟨chunk, m₁, hchunk, hrest⟩ := Action.yields_bind.mp h
    rw [yields_captureGetChunk hchunk] at hrest
    obtain ⟨u, m₂, heach, hnext⟩ := Action.yields_bind.mp hrest
    obtain ⟨hhost, hrets⟩ := yields_notedStore heach
    split at hnext
    · rw [(Action.yields_pure.mp hnext).2]
      exact ⟨_, hhost, hrets⟩
    · obtain ⟨vs, hhost', hrets'⟩ := ih hnext
      refine ⟨{ chunk with imgnum := some hdata.imgnum } :: vs, ?_, ?_⟩
      · rw [hhost', hhost, List.append_assoc]
        rfl
      · rw [hrets', hrets]
        rfl

theorem remotecapDtypes_type (i : Nat) (imgnum : Int) : (remotecapDtypes i imgnum).type = i := by
  unfold remotecapDtypes
  split <;> rfl

theorem recorded_storeHandler {opts : CaptureOpts Recorder}
    (h : ∀ i handler, handlers opts i = some handler → handler = storeHandler) :
    Recorded recorder opts Recorder.runs := by
  constructor
  · intro t s
    rfl
  · intro i handler imgnum m m' hhandler hrun
    rw [h i handler hhandler] at hrun
    obtain ⟨u₁, m₁, hclear, hrun₁⟩ := Action.yields_bind.mp hrun
    obtain ⟨u₂, m₂, hchunks, hnote⟩ := Action.yields_bind.mp hrun₁
    rw [Action.yields_modify.mp hclear] at hchunks
    obtain ⟨n, m₃, hloop, hend⟩ := Action.yields_bind.mp hchunks
    obtain ⟨vs, hhost, hrets⟩ := yields_chunkLoop hloop
    split at hend
    · exact absurd hend Action.not_yields_throw
    · rw [Action.yields_modify.mp hnote, (Action.yields_pure.mp hend).2, hhost, hrets,
        remotecapDtypes_type]
      exact ⟨vs, rfl, rfl⟩

/-- Options to store what these handlers get. -/
def captureOpts (jpg raw : Bool) : CaptureOpts Recorder where
  timeout := none
  initwait := none
  poll := none
  pollstart := none
  jpg := if jpg then some storeHandler else none
  raw := if raw then some storeHandler else none
  dngHdr := none
  craw := none
  doSubst := false
  shotseq := none

theorem recorded_captureOpts (jpg raw : Bool) :
    Recorded recorder (captureOpts jpg raw) Recorder.runs := by
  refine recorded_storeHandler ?_
  intro i handler h
  unfold handlers at h
  split at h
  · cases jpg <;> simp_all [captureOpts]
  · cases raw <;> simp_all [captureOpts]
  · cases h
  · cases h
  · cases h

/-- A camera with this data available, in so many chunks. -/
def camera (rsdata : Int) (chunks : Nat) (asked : List Request) : (q : Request) → Reply q
  | .scriptStatus => .ok ⟨true, false⟩
  | .captureReady => .ok (rsdata, 17)
  | .captureGetChunk fmt =>
    .ok ⟨2, none, decide (chunks ≤ asked.count (.captureGetChunk fmt) + 1), [0xff, 0xd8], none⟩

def chunkOf (last : Bool) : Chunk := ⟨2, none, last, [0xff, 0xd8], some 17⟩

/-- A call for these types. -/
def call (jpg raw : Bool) : Global Recorder Unit CaptureResult :=
  captureGetData recorder (fun _ => capturing) () () (captureOpts jpg raw) 1 1

theorem delivered_raw : Delivered (captureOpts false true) [(1, [chunkOf true])]
    (.rets (AList.singleton 1 (.table (chunkOf true)))) := by
  have hrun : Action.Yields (call false true) ⟨⟨[], []⟩, none, ∅⟩
      (.rets (AList.singleton 1 (.table (chunkOf true))))
      ⟨⟨[(1, [chunkOf true])], [chunkOf true]⟩, none, AList.singleton 1 (.table (chunkOf true))⟩ :=
    Action.yields_of_run (fun _ => camera 2 1) (fun _ => []) rfl
  refine (delivered_iff _ () () (recorded_captureOpts false true) 1 1 rfl hrun).mpr ⟨?_, ?_⟩
  · decide
  · intro _
    decide

/-- A JPEG in one chunk comes back as true, and one in two chunks without the second. -/
theorem jpg_not_delivered :
    (∃ m', Action.Yields (call true false) ⟨⟨[], []⟩, none, ∅⟩ .true_ m' ∧
      m'.host.runs = [(0, [chunkOf true])] ∧
      ¬Delivered (captureOpts true false) m'.host.runs .true_) ∧
    ∃ m' rets, Action.Yields (call true false) ⟨⟨[], []⟩, none, ∅⟩ (.rets rets) m' ∧
      m'.host.runs = [(0, [chunkOf false, chunkOf true])] ∧
      rets.lookup 0 = some (.table (chunkOf false)) ∧
      ¬Delivered (captureOpts true false) m'.host.runs (.rets rets) := by
  constructor
  · refine ⟨_, Action.yields_of_run (fun _ => camera 1 1) (fun _ => []) rfl,
      rfl, ?_⟩
    intro h
    obtain ⟨rets, hrets, -⟩ := h.values ⟨_, List.mem_singleton_self _, by simp⟩
    cases hrets
  · refine ⟨_, _, Action.yields_of_run (fun _ => camera 1 2) (fun _ => []) rfl,
      rfl, rfl, ?_⟩
    intro h
    obtain ⟨rets, -, hvalues⟩ := h.values ⟨_, List.mem_singleton_self _, by simp⟩
    have hlength := valuesAt_length (hvalues _ (List.mem_singleton_self _))
    exact absurd hlength (by decide)

end CaptureReturns
