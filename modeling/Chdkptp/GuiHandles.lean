import Chdkptp.GuiSched

/-!
# The handles of repeating jobs

`run_repeat` returns a handle whose `cancel` should take this job off, and no other. All
handles share the global variable that the last `run_repeat` has assigned, so a `cancel`
takes off the job that was made last, whichever handle it is called on.
-/

namespace GuiSched

open ActionSystem

/-- What there should be: the number of jobs made, and those that are not cancelled. -/
structure Wanted where
  made : Nat
  live : List Nat
  deriving DecidableEq

namespace Wanted

def after (w : Wanted) : Call → Wanted
  | .runAfter .. => w
  | .runRepeat .. => ⟨w.made + 1, w.live ++ [w.made]⟩
  | .cancel handle => { w with live := w.live.filter fun id => id ≠ handle }

/-- What there should be after some calls, from the start. -/
def afterAll (calls : List Call) : Wanted := calls.foldl after ⟨0, []⟩

/-- Only jobs that have been made are live. -/
def Made (w : Wanted) : Prop := ∀ id ∈ w.live, id < w.made

theorem after_made {w : Wanted} (h : w.Made) (c : Call) : (w.after c).Made := by
  intro id hid
  cases c with
  | runAfter now time => exact h id hid
  | runRepeat now time =>
    simp only [after, List.mem_append, List.mem_singleton] at hid ⊢
    rcases hid with hid | rfl
    · exact Nat.lt_succ_of_lt (h id hid)
    · exact Nat.lt_succ_self _
  | cancel handle => exact h id (List.mem_of_mem_filter hid)

/-- The handle is that of the job that was made last; or neither its job nor the job that
was made last is still there. -/
def Reaches (w : Wanted) : Call → Prop
  | .cancel handle => handle + 1 = w.made ∨ handle ∉ w.live ∧ w.made - 1 ∉ w.live
  | _ => True

end Wanted

def ids (s : Sched) : List Nat := s.repeating.map Repeating.id

/-- The variables that the calls share agree with what has been called for. -/
structure Shares (s : Sched) (w : Wanted) : Prop where
  timer : s.timer.isSome
  made : s.nextHandle = w.made
  last : s.t = if w.made = 0 then none else some (w.made - 1)
  wanted : w.Made

/-- The module beside what there should be. -/
def beside : System (Sched × Wanted) Call where
  step s c := (call s.1 c).map fun r => (r.1, s.2.after c)

theorem beside_step {s s' : Sched × Wanted} {c : Call} (h : beside.step s c = some s') :
    (∃ err, call s.1 c = some (s'.1, err)) ∧ s'.2 = s.2.after c := by
  obtain ⟨⟨s₁, err⟩, hcall, rfl⟩ := Option.map_eq_some_iff.mp h
  exact ⟨⟨err, hcall⟩, rfl⟩

theorem shares_step {s s' : Sched × Wanted} {c : Call} (hs : Shares s.1 s.2)
    (h : beside.step s c = some s') : Shares s'.1 s'.2 := by
  obtain ⟨⟨err, hcall⟩, hafter⟩ := beside_step h
  have hwanted := Wanted.after_made hs.wanted c
  obtain ⟨-, ⟨now, time, rfl, heq⟩ | ⟨now, time, rfl, heq⟩ | ⟨handle, rfl, -, heq⟩⟩ :=
    call_cases hs.timer hcall
  · rw [heq, hafter]
    exact ⟨rfl, hs.made, hs.last, hwanted⟩
  · rw [heq, hafter]
    exact ⟨rfl, congrArg (· + 1) hs.made, by simp [Wanted.after, hs.made], hwanted⟩
  · rw [heq, hafter]
    exact ⟨hs.timer, hs.made, hs.last, hwanted⟩

/-- A `cancel` filters by the job that was made last. -/
theorem ids_cancel {s : Sched} {w : Wanted} (h : Shares s w) (hmade : w.made ≠ 0) :
    ids (cancel s) = (ids s).filter fun id => id ≠ w.made - 1 := by
  have hlast : s.t = some (w.made - 1) := by rw [h.last, if_neg hmade]
  have hsame : (fun j : Repeating => decide (some j.id ≠ some (w.made - 1))) =
      (fun id => decide (id ≠ w.made - 1)) ∘ Repeating.id := by
    funext j
    simp
  rw [ids, cancel, hlast, ids, List.filter_map, ← hsame]

/-- Filters by two numbers leave the same of a list that holds both or neither. -/
theorem filter_ne_eq_iff {l : List Nat} {a b : Nat} :
    (l.filter fun id => id ≠ a) = (l.filter fun id => id ≠ b) ↔ a = b ∨ a ∉ l ∧ b ∉ l := by
  constructor
  · intro h
    by_cases hab : a = b
    · exact .inl hab
    · have ha : a ∈ l → False := fun hmem => by
        have hin : a ∈ l.filter fun id => id ≠ b := List.mem_filter.mpr ⟨hmem, by simpa using hab⟩
        rw [← h] at hin
        simpa using (List.mem_filter.mp hin).2
      have hb : b ∈ l → False := fun hmem => by
        have hin : b ∈ l.filter fun id => id ≠ a :=
          List.mem_filter.mpr ⟨hmem, by simpa using Ne.symm hab⟩
        rw [h] at hin
        simpa using (List.mem_filter.mp hin).2
      exact .inr ⟨ha, hb⟩
  · rintro (rfl | ⟨ha, hb⟩)
    · rfl
    · have hkeep : ∀ c ∉ l, (l.filter fun id => id ≠ c) = l := fun c hc =>
        List.filter_eq_self.mpr fun id hid => by
          simpa using fun heq : id = c => hc (heq ▸ hid)
      rw [hkeep a ha, hkeep b hb]

/-- Where the jobs are as wanted, a call keeps them so exactly when it reaches its job. -/
theorem step_wanted_iff {s s' : Sched × Wanted} {c : Call} (hs : Shares s.1 s.2)
    (hids : ids s.1 = s.2.live) (h : beside.step s c = some s') :
    ids s'.1 = s'.2.live ↔ s.2.Reaches c := by
  obtain ⟨⟨err, hcall⟩, hafter⟩ := beside_step h
  obtain ⟨-, ⟨now, time, rfl, heq⟩ | ⟨now, time, rfl, heq⟩ | ⟨handle, rfl, hlt, heq⟩⟩ :=
    call_cases hs.timer hcall
  · rw [heq, hafter]
    exact iff_of_true hids trivial
  · rw [heq, hafter]
    refine iff_of_true ?_ trivial
    simp only [ids, List.map_append, List.map_cons, List.map_nil, Wanted.after]
    rw [← hids, hs.made, ids]
  · rw [hs.made] at hlt
    rw [heq, hafter, ids_cancel hs (by omega), hids, Wanted.after, Wanted.Reaches,
      filter_ne_eq_iff, and_comm]
    refine or_congr ?_ Iff.rfl
    omega

/-- What there should be runs along with the module. -/
theorem beside_run (s : Sched) (w : Wanted) (calls : List Call) :
    beside.run (s, w) calls =
      (system.run s (calls.map Op.call)).map fun s' => (s', calls.foldl Wanted.after w) := by
  induction calls generalizing s w with
  | nil => rfl
  | cons c calls ih =>
    rw [System.run_cons, List.map_cons, System.run_cons]
    change ((call s c).map _).bind _ = (((call s c).map Prod.fst).bind _).map _
    cases call s c with
    | none => rfl
    | some r => exact ih r.1 (w.after c)

theorem beside_run_start {calls : List Call} {t : Sched × Wanted} :
    beside.run (start, ⟨0, []⟩) calls = some t ↔
      system.run start (calls.map Op.call) = some t.1 ∧ t.2 = Wanted.afterAll calls := by
  rw [beside_run, Option.map_eq_some_iff]
  constructor
  · rintro ⟨s, hs, rfl⟩
    exact ⟨hs, rfl⟩
  · rintro ⟨hs, hw⟩
    exact ⟨t.1, hs, Prod.ext rfl hw.symm⟩

theorem shares_start : Shares start ⟨0, []⟩ := ⟨rfl, rfl, rfl, by simp [Wanted.Made]⟩

/-- After every call the jobs are those that are wanted exactly when every `cancel` reaches
its job. -/
theorem repeating_wanted_iff {calls : List Call} {s' : Sched}
    (h : system.run start (calls.map Op.call) = some s') :
    (∀ before after s, calls = before ++ after →
        system.run start (before.map Op.call) = some s →
        ids s = (Wanted.afterAll before).live) ↔
      ∀ before c after, calls = before ++ c :: after → (Wanted.afterAll before).Reaches c := by
  have hrun : beside.run (start, ⟨0, []⟩) calls = some (s', Wanted.afterAll calls) :=
    beside_run_start.mpr ⟨h, rfl⟩
  have halways := beside.run_always_iff
    (fun t => Shares t.1 t.2) (fun t => ids t.1 = t.2.live) (fun t c => t.2.Reaches c)
    (fun _ _ _ => shares_step) (fun _ _ _ => step_wanted_iff) shares_start rfl hrun
  constructor
  · intro hall before c after hcalls
    have hprefix := hrun
    rw [hcalls, System.run_append] at hprefix
    obtain ⟨t, ht, -⟩ := Option.bind_eq_some_iff.mp hprefix
    have hreach := halways.mp (fun before after t hcalls ht => by
      obtain ⟨hs, hw⟩ := beside_run_start.mp ht
      rw [hw]
      exact hall before after t.1 hcalls hs) before c after t hcalls ht
    rwa [(beside_run_start.mp ht).2] at hreach
  · intro hall before after s hcalls hs
    have ht : beside.run (start, ⟨0, []⟩) before = some (s, Wanted.afterAll before) :=
      beside_run_start.mpr ⟨hs, rfl⟩
    exact halways.mpr (fun before c after t hcalls ht => by
      rw [(beside_run_start.mp ht).2]
      exact hall before c after hcalls) before after _ hcalls ht

/-- Two jobs, of which the first is cancelled: the second goes. -/
def cancelsFirst : List Call := [.runRepeat 0 100, .runRepeat 0 200, .cancel 0]

theorem second_job_cancelled :
    (system.run start (cancelsFirst.map Op.call)).map ids = some [0] ∧
      (Wanted.afterAll cancelsFirst).live = [1] := by
  decide

theorem repeating_wanted_witness : ∃ s',
    system.run start ([Call.runRepeat 0 100, .cancel 0].map Op.call) = some s' ∧
    ∀ before after s, [Call.runRepeat 0 100, .cancel 0] = before ++ after →
      system.run start (before.map Op.call) = some s →
      ids s = (Wanted.afterAll before).live := by
  have hrun : ∃ s', system.run start ([Call.runRepeat 0 100, .cancel 0].map Op.call) = some s' :=
    ⟨_, rfl⟩
  obtain ⟨s', hs'⟩ := hrun
  refine ⟨s', hs', (repeating_wanted_iff hs').mpr fun before c after hcalls => ?_⟩
  match before, hcalls with
  | [], hcalls =>
    obtain ⟨rfl, -⟩ := List.cons.inj hcalls
    exact trivial
  | [_], hcalls =>
    simp only [List.cons_append, List.nil_append, List.cons.injEq] at hcalls
    obtain ⟨rfl, rfl, -⟩ := hcalls
    exact .inl rfl
  | _ :: _ :: _, hcalls => simp at hcalls

end GuiSched
