import Chdkptp.GuiSched
import Mathlib.Algebra.GroupWithZero.Nat

/-!
# Lost wakeups

While there are jobs the timer should run. A tick stops it when it has counted no job, but
it counts only the jobs that its loops visit: one that was made by a function during the
first loop, or that the traversal passes over, may be left with nothing to wake it.
-/

namespace GuiSched

open ActionSystem TableLoop

/-- There is nothing to do, or the timer runs. -/
def Awake (s : Sched) : Prop := s.pending = [] ∧ s.repeating = [] ∨ s.timer = some true

instance (s : Sched) : Decidable (Awake s) := inferInstanceAs (Decidable (_ ∧ _ ∨ _))

/-- The jobs that run once are numbered below the next number, and there is a timer. -/
structure Numbered (s : Sched) : Prop where
  timer : s.timer.isSome
  fresh : ∀ v ∈ s.pending, v.id < s.nextPending

/-! ## What a function makes -/

def Call.makesPending : Call → Bool
  | .runAfter .. => true
  | _ => false

/-- How many jobs that run once the functions of some visits make. -/
def made (l : List (Nat × Option Callback)) : Nat :=
  (l.map fun v => (v.2.elim 0 fun fn => fn.calls.countP Call.makesPending)).sum

/-- Every visited job is due, and no function throws. -/
def AllRun (l : List (Nat × Option Callback)) : Prop :=
  ∀ v ∈ l, ∃ fn, v.2 = some fn ∧ fn.throws = false

/-- A tick in which every job that the loops visit is one that runs once and is due, while
a job that was there at the beginning or was made by one of their functions is not visited. -/
def Strands (s : Sched) (e : Tick) : Prop :=
  AllRun e.pending ∧ e.repeating = [] ∧
    ∃ id, (id ∈ s.pending.map Pending.id ∨
        s.nextPending ≤ id ∧ id < s.nextPending + made e.pending) ∧
      id ∉ e.pending.map Prod.fst

/-- What calls leave: the timer runs if it ran, and the new jobs have the next numbers. -/
structure Grown (s s' : Sched) (n : Nat) : Prop where
  timer : s'.timer = s.timer ∨ s'.timer = some true
  next : s'.nextPending = s.nextPending + n
  ids : ∀ id, id ∈ s'.pending.map Pending.id ↔
    id ∈ s.pending.map Pending.id ∨ s.nextPending ≤ id ∧ id < s.nextPending + n
  awake : Awake s → Awake s'

theorem Grown.refl (s : Sched) : Grown s s 0 :=
  ⟨.inl rfl, rfl, fun _ => (or_iff_left (by omega)).symm, id⟩

theorem Grown.trans {s s₁ s₂ : Sched} {m n : Nat} (h : Grown s s₁ m) (h' : Grown s₁ s₂ n) :
    Grown s s₂ (m + n) where
  timer := by
    rcases h'.timer with heq | hon
    · exact heq ▸ h.timer
    · exact .inr hon
  next := by rw [h'.next, h.next, Nat.add_assoc]
  ids id := by
    rw [h'.ids, h.ids, h.next, or_assoc]
    exact or_congr Iff.rfl (by omega)
  awake hs := h'.awake (h.awake hs)

theorem Grown.numbered {s s' : Sched} {n : Nat} (h : Grown s s' n) (hs : Numbered s) :
    Numbered s' where
  timer := by
    rcases h.timer with heq | hon
    · exact heq ▸ hs.timer
    · rw [hon]
      rfl
  fresh v hv := by
    rw [h.next]
    rcases (h.ids v.id).mp (List.mem_map_of_mem hv) with hold | ⟨-, hlt⟩
    · obtain ⟨w, hw, hid⟩ := List.mem_map.mp hold
      have := hs.fresh w hw
      omega
    · exact hlt

theorem call_grown {s s' : Sched} {c : Call} {err : Option String} (hs : s.timer.isSome)
    (h : call s c = some (s', err)) :
    err = none ∧ Grown s s' (if c.makesPending then 1 else 0) := by
  obtain ⟨rfl, ⟨now, time, rfl, rfl⟩ | ⟨now, time, rfl, rfl⟩ | ⟨handle, rfl, -, rfl⟩⟩ :=
    call_cases hs h
  · refine ⟨rfl, .inr rfl, rfl, fun id => ?_, fun _ => .inr rfl⟩
    simp only [List.map_append, List.map_cons, List.map_nil, List.mem_append, List.mem_singleton,
      Call.makesPending, if_true]
    exact or_congr Iff.rfl (by omega)
  · exact ⟨rfl, .inr rfl, rfl, (Grown.refl _).ids, fun _ => .inr rfl⟩
  · refine ⟨rfl, .inl rfl, rfl, (Grown.refl _).ids, ?_⟩
    rintro (⟨hpending, hrepeating⟩ | hon)
    · exact .inl ⟨hpending, by rw [cancel, hrepeating]; rfl⟩
    · exact .inr hon

theorem runCalls_grown {throws threw : Bool} {calls : List Call} {s s' : Sched}
    (hs : Numbered s) (h : runCalls throws s calls = some (s', threw)) :
    threw = throws ∧ Grown s s' (calls.countP Call.makesPending) := by
  induction calls generalizing s with
  | nil =>
    cases h
    exact ⟨rfl, Grown.refl _⟩
  | cons c calls ih =>
    obtain ⟨⟨s₁, err⟩, hcall, hrest⟩ := Option.bind_eq_some_iff.mp h
    obtain ⟨rfl, hgrown⟩ := call_grown hs.timer hcall
    obtain ⟨hthrew, hmore⟩ := ih (hgrown.numbered hs) hrest
    refine ⟨hthrew, ?_⟩
    rw [List.countP_cons, Nat.add_comm]
    exact hgrown.trans hmore

theorem runCallback_grown {s s' : Sched} {fn : Callback} {threw : Bool} (hs : Numbered s)
    (h : runCallback s fn = some (s', threw)) :
    threw = fn.throws ∧ Grown s s' (fn.calls.countP Call.makesPending) :=
  runCalls_grown hs h

/-! ## The first loop -/

/-- A job is taken out. -/
def taken (s : Sched) (k : Nat) : Sched :=
  { s with pending := s.pending.filter fun v => v.id ≠ k }

theorem mem_taken {s : Sched} {k id : Nat} :
    id ∈ (taken s k).pending.map Pending.id ↔ id ∈ s.pending.map Pending.id ∧ id ≠ k := by
  simp only [taken, List.mem_map, List.mem_filter, decide_eq_true_eq]
  constructor
  · rintro ⟨v, ⟨hv, hne⟩, rfl⟩
    exact ⟨⟨v, hv, rfl⟩, hne⟩
  · rintro ⟨⟨v, hv, rfl⟩, hne⟩
    exact ⟨v, ⟨hv, hne⟩, rfl⟩

theorem taken_nextPending (s : Sched) (k : Nat) : (taken s k).nextPending = s.nextPending := rfl

theorem taken_numbered {s : Sched} (hs : Numbered s) (k : Nat) : Numbered (taken s k) :=
  ⟨hs.timer, fun v hv => hs.fresh v (List.mem_of_mem_filter hv)⟩

theorem taken_awake {s : Sched} (hs : Awake s) (k : Nat) : Awake (taken s k) := by
  rcases hs with ⟨hpending, hrepeating⟩ | hon
  · exact .inl ⟨by rw [taken, hpending]; rfl, hrepeating⟩
  · exact .inr hon

/-- A visit of the first loop: a job that is due is taken out and run, any other counts. -/
theorem visitPending_cases {now : Rat} {c c' : Counting} {k : Nat} {fn : Option Callback}
    {threw : Bool} (hs : Numbered c.sched)
    (h : visitPending now c k fn = some (c', threw)) :
    (∃ g, fn = some g ∧ threw = g.throws ∧ c'.count = c.count ∧
      Grown (taken c.sched k) c'.sched (g.calls.countP Call.makesPending)) ∨
    (fn = none ∧ threw = false ∧ c' = ⟨c.sched, c.count + 1⟩) := by
  obtain ⟨v, -, h⟩ := Option.bind_eq_some_iff.mp h
  split at h
  · obtain ⟨g, hfn, h⟩ := Option.bind_eq_some_iff.mp h
    obtain ⟨⟨s', t⟩, hrun, h⟩ := Option.bind_eq_some_iff.mp h
    obtain ⟨hthrew, hgrown⟩ := runCallback_grown (taken_numbered hs k) hrun
    cases h
    exact .inl ⟨g, hfn, hthrew, rfl, hgrown⟩
  · split at h
    · rename_i hnone
      cases h
      exact .inr ⟨Option.isNone_iff_eq_none.mp hnone, rfl, rfl⟩
    · cases h

/-- What every visit keeps. -/
structure Kept (s s' : Sched) : Prop where
  numbered : Numbered s'
  awake : Awake s → Awake s'

theorem Kept.trans {s s₁ s₂ : Sched} (h : Kept s s₁) (h' : Kept s₁ s₂) : Kept s s₂ :=
  ⟨h'.numbered, fun ha => h'.awake (h.awake ha)⟩

theorem visitPending_kept {now : Rat} {c c' : Counting} {k : Nat} {fn : Option Callback}
    {threw : Bool} (hs : Numbered c.sched) (h : visitPending now c k fn = some (c', threw)) :
    Kept c.sched c'.sched := by
  rcases visitPending_cases hs h with ⟨g, -, -, -, hgrown⟩ | ⟨-, -, rfl⟩
  · exact ⟨hgrown.numbered (taken_numbered hs k), fun ha => hgrown.awake (taken_awake ha k)⟩
  · exact ⟨hs, id⟩

theorem made_cons (v : Nat × Option Callback) (l : List (Nat × Option Callback)) :
    made (v :: l) = (v.2.elim 0 fun fn => fn.calls.countP Call.makesPending) + made l := by
  simp [made]

/-- The first loop counts nothing and is not ended by an error exactly when every job that
it visits runs. -/
theorem visitsPending_count {now : Rat} {l : List (Nat × Option Callback)} {c c' : Counting}
    {threw : Bool} (hs : Numbered c.sched)
    (h : visits pendingTable (visitPending now) c l = some (c', threw)) :
    c.count ≤ c'.count ∧ (threw = false ∧ c'.count = c.count ↔ AllRun l) := by
  induction l generalizing c with
  | nil =>
    cases h
    simp [AllRun]
  | cons v l ih =>
    obtain ⟨-, c₁, t, hbody, hend⟩ := visits_cons h
    have hkept := visitPending_kept hs hbody
    have hcases := visitPending_cases hs hbody
    have hall : AllRun (v :: l) ↔ (∃ fn, v.2 = some fn ∧ fn.throws = false) ∧ AllRun l :=
      List.forall_mem_cons
    rw [hall]
    rcases hcases with ⟨g, hfn, ht, hcount, -⟩ | ⟨hfn, ht, rfl⟩
    · rcases hend with ⟨rfl, rfl, rfl, rfl⟩ | ⟨rfl, hrest⟩
      · simp [hcount, hfn, ← ht]
      · obtain ⟨hle, hiff⟩ := ih hkept.numbered hrest
        rw [hcount] at hle hiff
        simp [hle, hiff, hfn, ← ht]
    · rcases hend with ⟨rfl, -, -, -⟩ | ⟨-, hrest⟩
      · cases ht
      · obtain ⟨hle, -⟩ := ih hkept.numbered hrest
        simp only at hle
        exact ⟨by omega, iff_of_false (by omega) (by simp [hfn])⟩

/-- When every visited job runs, the jobs that are left are those that were there or were
made, and were not visited. -/
theorem visitsPending_left {now : Rat} {l : List (Nat × Option Callback)} {c c' : Counting}
    {threw : Bool} (hs : Numbered c.sched) (hall : AllRun l)
    (h : visits pendingTable (visitPending now) c l = some (c', threw)) (id : Nat) :
    id ∈ c'.sched.pending.map Pending.id ↔
      (id ∈ c.sched.pending.map Pending.id ∨
        c.sched.nextPending ≤ id ∧ id < c.sched.nextPending + made l) ∧
      id ∉ l.map Prod.fst := by
  induction l generalizing c with
  | nil =>
    cases h
    simp only [made, List.map_nil, List.sum_nil, List.not_mem_nil, not_false_iff, and_true]
    exact (or_iff_left (by omega)).symm
  | cons v l ih =>
    obtain ⟨⟨fn, hfn, hthrows⟩, hall⟩ := List.forall_mem_cons.mp hall
    obtain ⟨hkey, c₁, t, hbody, hend⟩ := visits_cons h
    have hkept := visitPending_kept hs hbody
    have hlt : v.1 < c.sched.nextPending := by
      obtain ⟨w, hw, hid⟩ := List.mem_map.mp hkey
      exact hid ▸ hs.fresh w hw
    rcases visitPending_cases hs hbody with ⟨g, hg, ht, -, hgrown⟩ | ⟨hnone, -⟩
    · obtain rfl : g = fn := Option.some.inj (hg.symm.trans hfn)
      rcases hend with ⟨rfl, -⟩ | ⟨-, hrest⟩
      · rw [hthrows] at ht
        cases ht
      · rw [ih hkept.numbered hall hrest, hgrown.ids, hgrown.next, mem_taken, made_cons,
          hfn, List.map_cons, List.mem_cons]
        simp only [taken_nextPending, Option.elim_some]
        -- a new number is not the one that was taken out
        grind
    · rw [hnone] at hfn
      cases hfn

/-! ## The second loop -/

theorem setLast_grown (s : Sched) (k : Nat) (last : Rat) : Grown s (setLast s k last) 0 where
  timer := .inl rfl
  next := rfl
  ids := (Grown.refl s).ids
  awake hs := by
    rcases hs with ⟨hpending, hrepeating⟩ | hon
    · exact .inl ⟨hpending, by rw [setLast, hrepeating]; rfl⟩
    · exact .inr hon

/-- A visit of the second loop counts. -/
theorem visitRepeating_count {now : Rat} {c c' : Counting} {k : Nat} {rep : Option Repetition}
    {threw : Bool} (hs : Numbered c.sched)
    (h : visitRepeating now c k rep = some (c', threw)) :
    c'.count = c.count + 1 ∧ Kept c.sched c'.sched := by
  obtain ⟨v, -, h⟩ := Option.bind_eq_some_iff.mp h
  split at h
  · obtain ⟨r, -, h⟩ := Option.bind_eq_some_iff.mp h
    obtain ⟨⟨s', t⟩, hrun, h⟩ := Option.bind_eq_some_iff.mp h
    have hset := setLast_grown c.sched k r.last
    obtain ⟨-, hgrown⟩ := runCallback_grown (hset.numbered hs) hrun
    cases h
    exact ⟨rfl, (hset.trans hgrown).numbered hs, (hset.trans hgrown).awake⟩
  · split at h
    · cases h
      exact ⟨rfl, hs, id⟩
    · cases h

theorem visitsRepeating_count {now : Rat} {l : List (Nat × Option Repetition)}
    {c c' : Counting} {threw : Bool} (hs : Numbered c.sched)
    (h : visits repeatingTable (visitRepeating now) c l = some (c', threw)) :
    c'.count = c.count + l.length := by
  induction l generalizing c with
  | nil =>
    cases h
    rfl
  | cons v l ih =>
    obtain ⟨-, c₁, t, hbody, hend⟩ := visits_cons h
    obtain ⟨hcount, hkept⟩ := visitRepeating_count hs hbody
    rcases hend with ⟨-, rfl, rfl, -⟩ | ⟨-, hrest⟩
    · exact hcount
    · rw [ih hkept.numbered hrest, hcount, List.length_cons]
      omega

/-! ## Ticks and runs -/

theorem visitsPending_kept {now : Rat} {l : List (Nat × Option Callback)} {s : Sched}
    {c' : Counting} {threw : Bool} (hs : Numbered s)
    (h : visits pendingTable (visitPending now) ⟨s, 0⟩ l = some (c', threw)) :
    Kept s c'.sched :=
  visits_invariant (fun c : Counting => Kept s c.sched) h ⟨hs, id⟩
    fun _ _ _ _ _ _ hc hbody => hc.trans (visitPending_kept hc.numbered hbody)

theorem visitsRepeating_kept {now : Rat} {l : List (Nat × Option Repetition)} {s : Sched}
    {c' : Counting} {threw : Bool} (hs : Numbered s)
    (h : visits repeatingTable (visitRepeating now) ⟨s, 0⟩ l = some (c', threw)) :
    Kept s c'.sched :=
  visits_invariant (fun c : Counting => Kept s c.sched) h ⟨hs, id⟩
    fun _ _ _ _ _ _ hc hbody => hc.trans (visitRepeating_count hc.numbered hbody).2

/-- A state in which the timer is stopped is awake when no job is left. -/
theorem awake_stopped_iff {s : Sched} (hs : s.repeating = []) :
    Awake { s with timer := s.timer.map fun _ => false } ↔
      ∀ id, id ∉ s.pending.map Pending.id := by
  have hoff : (s.timer.map fun _ => false) ≠ some true := by
    cases s.timer <;> simp
  rw [Awake, or_iff_left hoff, and_iff_left hs, ← List.eq_nil_iff_forall_not_mem,
    List.map_eq_nil_iff]

/-- A tick leaves the timer running while there are jobs exactly when it strands none. -/
theorem tick_awake_iff {s s' : Sched} {e : Tick} (hs : Numbered s) (h : tick s e = some s') :
    Numbered s' ∧ (Awake s → (Awake s' ↔ ¬Strands s e)) := by
  obtain ⟨⟨p, threw⟩, hfirst, h⟩ := Option.bind_eq_some_iff.mp h
  obtain ⟨hfirst, -⟩ := pairs_visits hfirst
  have hp := visitsPending_kept hs hfirst
  obtain ⟨-, hall⟩ := visitsPending_count hs hfirst
  cases threw with
  | true =>
    simp only [if_true] at h
    split at h
    · cases h
      exact ⟨hp.numbered, fun ha => iff_of_true (hp.awake ha) fun hstrands =>
        nomatch (hall.mpr hstrands.1).1⟩
    · cases h
  | false =>
    obtain ⟨⟨r, threw⟩, hsecond, h⟩ := Option.bind_eq_some_iff.mp h
    obtain ⟨hsecond, hcomplete⟩ := pairs_visits hsecond
    have hr := hp.trans (visitsRepeating_kept hp.numbered hsecond)
    have hcount := visitsRepeating_count (c := ⟨p.sched, 0⟩) hp.numbered hsecond
    have hstop : Strands s e → p.count = 0 ∧ r.count = 0 := fun hstrands =>
      ⟨(hall.mpr hstrands.1).2, by rw [hcount, hstrands.2.1]; rfl⟩
    cases threw with
    | true =>
      cases h
      refine ⟨hr.numbered, fun ha => iff_of_true (hr.awake ha) fun hstrands => ?_⟩
      rw [hstrands.2.1] at hsecond
      cases hsecond
    | false =>
      by_cases hzero : p.count = 0 ∧ r.count = 0
      · have hrun : AllRun e.pending := hall.mp ⟨rfl, hzero.1⟩
        have hnone : e.repeating = [] := by
          rw [hzero.2] at hcount
          exact List.eq_nil_of_length_eq_zero (by omega)
        rw [hnone] at hsecond hcomplete
        obtain rfl : (⟨p.sched, 0⟩ : Counting) = r := by
          cases hsecond
          rfl
        have hrepeating : p.sched.repeating = [] := by
          have hvisited := (hcomplete rfl rfl).2
          simpa [repeatingTable, List.eq_nil_iff_forall_not_mem] using hvisited
        simp only [Bool.false_eq_true, if_false, hzero.1, and_self, if_true,
          Option.some.injEq] at h
        rw [← h]
        refine ⟨⟨by simpa using hp.numbered.timer, hp.numbered.fresh⟩, fun _ => ?_⟩
        rw [awake_stopped_iff hrepeating]
        simp only [Strands, hrun, hnone, true_and, not_exists]
        exact forall_congr' fun id => not_congr (visitsPending_left hs hrun hfirst id)
      · simp only [Bool.false_eq_true, if_false, if_neg hzero, Option.some.injEq] at h
        rw [← h]
        exact ⟨hr.numbered, fun ha => iff_of_true (hr.awake ha) (mt hstop hzero)⟩

def Wakes (s : Sched) : Op → Prop
  | .call _ => True
  | .tick e => ¬Strands s e

theorem step_awake_iff {s s' : Sched} {o : Op} (hs : Numbered s) (h : step s o = some s') :
    Numbered s' ∧ (Awake s → (Awake s' ↔ Wakes s o)) := by
  cases o with
  | call c =>
    obtain ⟨⟨s₁, err⟩, hcall, rfl⟩ := Option.map_eq_some_iff.mp h
    obtain ⟨-, hgrown⟩ := call_grown hs.timer hcall
    exact ⟨hgrown.numbered hs, fun ha => iff_of_true (hgrown.awake ha) trivial⟩
  | tick e => exact tick_awake_iff hs h

theorem numbered_start : Numbered start := ⟨rfl, by simp [start]⟩

theorem awake_start : Awake start := .inl ⟨rfl, rfl⟩

/-- In every state of a run there are no jobs or the timer runs exactly when none of its
ticks strands a job. -/
theorem always_awake_iff {ops : List Op} {s' : Sched} (h : system.run start ops = some s') :
    (∀ before after s, ops = before ++ after → system.run start before = some s → Awake s) ↔
      ∀ before e after s, ops = before ++ .tick e :: after →
        system.run start before = some s → ¬Strands s e := by
  rw [system.run_always_iff Numbered Awake Wakes (fun _ _ _ hs h => (step_awake_iff hs h).1)
    (fun _ _ _ hs ha h => (step_awake_iff hs h).2 ha) numbered_start awake_start h]
  constructor
  · intro hall before e after s hops hs
    exact hall before (.tick e) after s hops hs
  · intro hall before o after s hops hs
    cases o with
    | call c => exact trivial
    | tick e => exact hall before e after s hops hs

/-- A job that is due and schedules another one: the tick does not visit that one and stops
the timer. -/
def reschedules : List Op :=
  [.call (.runAfter 0 0), .tick ⟨1, [(0, some ⟨[.runAfter 1 5], false⟩)], []⟩]

theorem rescheduled_job_lost : ∃ s, system.run start reschedules = some s ∧
    s.pending.map Pending.id = [1] ∧ s.timer = some false ∧ ¬Awake s := by
  decide +kernel

theorem always_awake_witness : ∃ s', system.run start [.call (.runAfter 0 0)] = some s' ∧
    ∀ before after s, [Op.call (.runAfter 0 0)] = before ++ after →
      system.run start before = some s → Awake s := by
  have hrun : ∃ s', system.run start [.call (.runAfter 0 0)] = some s' := ⟨_, rfl⟩
  obtain ⟨s', hs'⟩ := hrun
  refine ⟨s', hs', (always_awake_iff hs').mpr fun before e after s hops => ?_⟩
  match before, hops with
  | [], hops => exact nomatch (List.cons.inj hops).1
  | _ :: _, hops => simp at hops

end GuiSched
