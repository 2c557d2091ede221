import Chdkptp.Fuelled
import Chdkptp.LuaText
import Chdkptp.Multicam
import Mathlib.Tactic.NormNum

/-!
# Status messages of several cameras

`mc:wait_status_msg` asks the selected cameras again and again, until each has sent its status or
has failed, or until the time is up. That all are through is only noticed in the next pass, in
which none of them is asked.
-/

namespace MulticamStatus

open LuaValue LuaText Multicam Fuelled

variable {V : Type}

/-- The table in which a camera sends its status. -/
structure CamStatus (V : Type) where
  cmd : V
  status : V
  msg : V
  deriving DecidableEq

/-- What `lcon:script_status_pcall` returns. -/
structure ScriptStatus where
  run : Bool
  msg : Bool

/-- What a camera does when it is asked; an error comes with the text that `tostring` makes. -/
structure Poll (V : Type) where
  scriptStatus : Except LuaString ScriptStatus
  readMsgStrict : Except LuaString (CamStatus V)

/-- The entry of a camera in the results. -/
structure Result (V : Type) where
  failed : Bool := false
  done : Bool := false
  err : Option LuaString := none
  status : Option (CamStatus V) := none
  deriving DecidableEq

def Result.settled (r : Result V) : Bool := r.failed || r.done

/-- `results`, by the ids of the cameras. -/
abbrev Results (V : Type) := Rat → Result V

def notRunning : LuaString := bytes "script not running".toList

def timedOut : LuaString := bytes "timeout".toList

section Wait

variable [DecidableEq V] (tostring : V → LuaString) (mc : Mc) (cmd : Option V)

def unexpected (msg : CamStatus V) : LuaString :=
  bytes "status from unexpected cmd:".toList ++ tostring msg.cmd

/-- `mc:get_single_status`. -/
def getSingleStatus (p : Poll V) (r : Result V) : Result V :=
  match p.scriptStatus with
  | .error err => { r with failed := true, err := some err }
  | .ok status =>
    if status.msg then
      match p.readMsgStrict with
      | .error err => { r with failed := true, err := some err }
      | .ok msg =>
        -- there is no return here
        let r := if cmd.any fun c => msg.cmd ≠ c then
          { r with failed := true, err := some (unexpected tostring msg) } else r
        { r with done := true, status := some msg }
    else if status.run = false then { r with failed := true, err := some notRunning }
    else r

/-- The pass over the cameras, with the number of those that were through before. -/
def askAll (poll : Nat → Poll V) (results : Results V) : Results V × Nat :=
  mc.selected.foldl (fun (results, complete) lcon =>
    let r := results (mc.mcId lcon)
    if r.settled then (results, complete + 1)
    else (Function.update results (mc.mcId lcon) (getSingleStatus tostring cmd (poll lcon) r),
      complete)) (results, 0)

/-- What is done with the results when the time is up. -/
def failRest (results : Results V) : Results V :=
  mc.selected.foldl (fun results lcon =>
    let r := results (mc.mcId lcon)
    if r.done then results
    else Function.update results (mc.mcId lcon) { r with failed := true, err := some timedOut })
    results

/-- What is decided outside: what the cameras do in each pass, and how many milliseconds have
gone at its end. -/
structure Course (V : Type) where
  poll : Nat → Nat → Poll V
  elapsed : Nat → Rat

/-- What is returned, and after how many passes. -/
structure Waited (V : Type) where
  passes : Nat
  complete : Bool
  results : Results V

variable (course : Course V) (timeout : Rat)

/-- One pass of the loop. -/
def waitPass (s : Nat × Results V) : Fuelled Empty ((Nat × Results V) ⊕ Waited V) :=
  let asked := askAll tostring mc cmd (course.poll s.1) s.2
  if asked.2 = mc.selected.length then pure (.inr ⟨s.1 + 1, true, asked.1⟩)
  else if timeout < course.elapsed s.1 then pure (.inr ⟨s.1 + 1, false, failRest mc asked.1⟩)
  else pure (.inl (s.1 + 1, asked.1))

/-- `mc:wait_status_msg`. -/
def waitStatusMsg : Fuelled Empty (Waited V) :=
  repeatUntil (waitPass tostring mc cmd course timeout) (0, fun _ => {})

/-! ## What it is for -/

/-- How a camera comes out when it is asked, if it does. -/
def outcome (p : Poll V) : Option (Result V) :=
  match p.scriptStatus, p.readMsgStrict with
  | .error err, _ => some { failed := true, err := some err }
  | .ok ⟨_, true⟩, .error err => some { failed := true, err := some err }
  | .ok ⟨_, true⟩, .ok msg =>
    if cmd = none ∨ cmd = some msg.cmd then some { done := true, status := some msg }
    else some { failed := true, done := true, err := some (unexpected tostring msg),
                status := some msg }
  | .ok ⟨false, false⟩, _ => some { failed := true, err := some notRunning }
  | .ok ⟨true, false⟩, _ => none

/-- The first outcome of a camera in so many passes. -/
def seen (lcon : Nat) : Nat → Option (Result V)
  | 0 => none
  | n + 1 => (seen lcon n).or (outcome tostring cmd (course.poll n lcon))

/-- Every camera was seen done or failed in the first passes. -/
def AllSeen (n : Nat) : Prop :=
  ∀ lcon ∈ mc.selected, (seen tostring cmd course lcon n).isSome = true

/-- What should be returned: each camera has its own outcome, or has timed out. -/
structure Lawful (w : Waited V) : Prop where
  complete : w.complete = true ↔ AllSeen tostring mc cmd course w.passes
  own : ∀ lcon ∈ mc.selected, w.results (mc.mcId lcon) =
    (seen tostring cmd course lcon w.passes).getD { failed := true, err := some timedOut }

end Wait

/-! ## One pass -/

/-- A loop that changes the entry of each of its elements. -/
theorem foldl_update {α β : Type} [DecidableEq β] {γ : Type} (key : α → β) (f : α → γ → γ)
    (l : List α) (hl : (l.map key).Nodup) (t : β → γ) :
    (∀ a ∈ l, l.foldl (fun t a => Function.update t (key a) (f a (t (key a)))) t (key a) =
      f a (t (key a))) ∧
    ∀ k, k ∉ l.map key →
      l.foldl (fun t a => Function.update t (key a) (f a (t (key a)))) t k = t k := by
  induction l generalizing t with
  | nil => exact ⟨fun a ha => absurd ha List.not_mem_nil, fun k _ => rfl⟩
  | cons b l ih =>
    obtain ⟨hb, hl⟩ := List.nodup_cons.mp hl
    obtain ⟨hmem, hother⟩ := ih hl (Function.update t (key b) (f b (t (key b))))
    constructor
    · intro a ha
      rw [List.foldl_cons]
      obtain rfl | ha := List.mem_cons.mp ha
      · rw [hother _ hb, Function.update_self]
      · have hne : key a ≠ key b := fun heq => hb (heq ▸ List.mem_map_of_mem ha)
        rw [hmem a ha, Function.update_of_ne hne]
    · intro k hk
      rw [List.map_cons, List.mem_cons, not_or] at hk
      rw [List.foldl_cons, hother k hk.2, Function.update_of_ne hk.1]

section Passes

variable [DecidableEq V] {tostring : V → LuaString} {mc : Mc} {cmd : Option V}

/-- What a pass does with the entry of a camera. -/
def ask (tostring : V → LuaString) (cmd : Option V) (p : Poll V) (r : Result V) : Result V :=
  if r.settled then r else getSingleStatus tostring cmd p r

theorem askAll_eq (poll : Nat → Poll V) (results : Results V)
    (hids : (mc.selected.map mc.mcId).Nodup) :
    (∀ lcon ∈ mc.selected, (askAll tostring mc cmd poll results).1 (mc.mcId lcon) =
      ask tostring cmd (poll lcon) (results (mc.mcId lcon))) ∧
    (askAll tostring mc cmd poll results).2 =
      mc.selected.countP fun lcon => (results (mc.mcId lcon)).settled := by
  have hfold : ∀ (l : List Nat) (results : Results V) (n : Nat), (l.map mc.mcId).Nodup →
      l.foldl (fun (results, complete) lcon =>
        let r := results (mc.mcId lcon)
        if r.settled then (results, complete + 1)
        else (Function.update results (mc.mcId lcon) (getSingleStatus tostring cmd (poll lcon) r),
          complete)) (results, n) =
        (l.foldl (fun t lcon => Function.update t (mc.mcId lcon)
          (ask tostring cmd (poll lcon) (t (mc.mcId lcon)))) results,
          n + l.countP fun lcon => (results (mc.mcId lcon)).settled) := by
    intro l
    induction l with
    | nil => exact fun results n _ => rfl
    | cons lcon l ih =>
      intro results n hl
      obtain ⟨hnot, hl⟩ := List.nodup_cons.mp hl
      rw [List.foldl_cons, List.foldl_cons, List.countP_cons]
      by_cases hsettled : (results (mc.mcId lcon)).settled = true
      · have hsame : Function.update results (mc.mcId lcon)
            (ask tostring cmd (poll lcon) (results (mc.mcId lcon))) = results := by
          rw [ask, if_pos hsettled, Function.update_eq_self]
        simp only [if_pos hsettled, hsame]
        rw [ih results (n + 1) hl]
        congr 1
        omega
      · have hrest : ∀ x ∈ l, (Function.update results (mc.mcId lcon)
            (getSingleStatus tostring cmd (poll lcon) (results (mc.mcId lcon)))
            (mc.mcId x)).settled = (results (mc.mcId x)).settled := by
          intro x hx
          have hne : mc.mcId x ≠ mc.mcId lcon := fun heq =>
            hnot (heq ▸ List.mem_map_of_mem hx)
          rw [Function.update_of_ne hne]
        simp only [if_neg hsettled]
        rw [ih _ n hl, ask, if_neg hsettled, List.countP_congr fun x hx => by rw [hrest x hx]]
        rfl
  have heq := hfold mc.selected results 0 hids
  rw [askAll, heq]
  constructor
  · exact fun lcon hmem => (foldl_update mc.mcId (fun lcon r => ask tostring cmd (poll lcon) r)
      mc.selected hids results).1 lcon hmem
  · exact Nat.zero_add _

theorem outcome_settled {p : Poll V} {r : Result V} (h : outcome tostring cmd p = some r) :
    r.settled = true := by
  rw [outcome] at h
  split at h
  · cases h
    rfl
  · cases h
    rfl
  · split at h <;> cases h <;> rfl
  · cases h
    rfl
  · cases h

/-- A camera that has not come out yet gets the outcome of this poll. -/
theorem getSingleStatus_start (p : Poll V) :
    getSingleStatus tostring cmd p {} = (outcome tostring cmd p).getD {} := by
  obtain ⟨scriptStatus, readMsgStrict⟩ := p
  cases scriptStatus with
  | error err => rfl
  | ok status =>
    obtain ⟨run, msg⟩ := status
    cases msg with
    | false => cases run <;> rfl
    | true =>
      cases readMsgStrict with
      | error err => rfl
      | ok msg =>
        cases cmd with
        | none => rfl
        | some c =>
          by_cases hc : msg.cmd = c
          · simp [getSingleStatus, outcome, hc]
          · have hc' : ¬c = msg.cmd := fun heq => hc heq.symm
            simp [getSingleStatus, outcome, hc, hc']

variable {course : Course V}

theorem seen_settled {lcon n : Nat} {r : Result V}
    (h : seen tostring cmd course lcon n = some r) : r.settled = true := by
  induction n with
  | zero => cases h
  | succ n ih =>
    rw [seen, Option.or_eq_some_iff] at h
    obtain h | ⟨-, h⟩ := h
    · exact ih h
    · exact outcome_settled h

/-- What was seen stays. -/
theorem seen_mono {lcon m n : Nat} (hmn : m ≤ n) {r : Result V}
    (h : seen tostring cmd course lcon m = some r) :
    seen tostring cmd course lcon n = some r := by
  induction hmn with
  | refl => exact h
  | step _ ih => rw [seen, ih, Option.some_or]

theorem AllSeen.mono {m n : Nat} (hmn : m ≤ n) (h : AllSeen tostring mc cmd course m) :
    AllSeen tostring mc cmd course n := by
  intro lcon hmem
  obtain ⟨r, hr⟩ := Option.isSome_iff_exists.mp (h lcon hmem)
  rw [seen_mono hmn hr]
  rfl

/-- After so many passes each entry is what was seen of its camera. -/
def Inv (tostring : V → LuaString) (mc : Mc) (cmd : Option V) (course : Course V) (n : Nat)
    (results : Results V) : Prop :=
  ∀ lcon ∈ mc.selected, results (mc.mcId lcon) = (seen tostring cmd course lcon n).getD {}

omit [DecidableEq V] in
theorem settled_getD (o : Option (Result V)) (h : ∀ r, o = some r → r.settled = true) :
    (o.getD {}).settled = o.isSome := by
  cases o with
  | none => rfl
  | some r => exact h r rfl

theorem ask_seen (lcon n : Nat) :
    ask tostring cmd (course.poll n lcon) ((seen tostring cmd course lcon n).getD {}) =
      (seen tostring cmd course lcon (n + 1)).getD {} := by
  rw [ask, settled_getD _ fun r hr => seen_settled hr, seen]
  cases seen tostring cmd course lcon n with
  | none => exact getSingleStatus_start _
  | some r => rfl

theorem askAll_inv {n : Nat} {results : Results V} (hids : (mc.selected.map mc.mcId).Nodup)
    (h : Inv tostring mc cmd course n results) :
    Inv tostring mc cmd course (n + 1) (askAll tostring mc cmd (course.poll n) results).1 := by
  intro lcon hmem
  rw [(askAll_eq _ _ hids).1 lcon hmem, h lcon hmem, ask_seen]

/-- All are through if each was seen before the pass. -/
theorem askAll_complete {n : Nat} {results : Results V} (hids : (mc.selected.map mc.mcId).Nodup)
    (h : Inv tostring mc cmd course n results) :
    (askAll tostring mc cmd (course.poll n) results).2 = mc.selected.length ↔
      AllSeen tostring mc cmd course n := by
  rw [(askAll_eq _ _ hids).2, List.countP_eq_length]
  refine forall₂_congr fun lcon hmem => ?_
  rw [h lcon hmem, settled_getD _ fun r hr => seen_settled hr]

/-- What becomes of the entry of a camera when the time is up. -/
def late (r : Result V) : Result V :=
  if r.done then r else { r with failed := true, err := some timedOut }

omit [DecidableEq V] in
theorem failRest_eq (hids : (mc.selected.map mc.mcId).Nodup) (results : Results V) {lcon : Nat}
    (hmem : lcon ∈ mc.selected) :
    failRest mc results (mc.mcId lcon) = late (results (mc.mcId lcon)) := by
  have hfold : failRest mc results = mc.selected.foldl (fun t lcon =>
      Function.update t (mc.mcId lcon) ((fun _ => late) lcon (t (mc.mcId lcon)))) results := by
    rw [failRest]
    congr 1
    funext t lcon
    by_cases hdone : (t (mc.mcId lcon)).done = true
    · simp [late, hdone]
    · simp [late, hdone]
  rw [hfold]
  exact (foldl_update mc.mcId (fun _ => late) mc.selected hids results).1 lcon hmem

end Passes

/-! ## The loop -/

section Loop

variable [DecidableEq V] {tostring : V → LuaString} {mc : Mc} {cmd : Option V} {course : Course V}
  {timeout : Rat}

/-- In this pass the loop is left. -/
def Last (tostring : V → LuaString) (mc : Mc) (cmd : Option V) (course : Course V) (timeout : Rat)
    (n : Nat) : Prop :=
  AllSeen tostring mc cmd course n ∨ timeout < course.elapsed n

/-- The loop from the start of a pass to its last one. -/
theorem yields_last (hids : (mc.selected.map mc.mcId).Nodup) (left : Nat) {n : Nat}
    {results : Results V} (h : Inv tostring mc cmd course n results)
    (hlast : Last tostring mc cmd course timeout (n + left))
    (hbefore : ∀ k, n ≤ k → k < n + left → ¬Last tostring mc cmd course timeout k) :
    ∃ w, (repeatUntil (waitPass tostring mc cmd course timeout) (n, results)).Yields w ∧
      w.passes = n + left + 1 ∧
      (w.complete = true ↔ AllSeen tostring mc cmd course (n + left)) ∧
      ∃ results', Inv tostring mc cmd course (n + left + 1) results' ∧
        w.results = if w.complete then results' else failRest mc results' := by
  induction left generalizing n results with
  | zero =>
    have hinv := askAll_inv hids h
    have hcomplete := askAll_complete hids h
    by_cases hall : AllSeen tostring mc cmd course n
    · refine ⟨⟨n + 1, true, (askAll tostring mc cmd (course.poll n) results).1⟩,
        yields_repeat_inr ?_, rfl, iff_of_true rfl hall, _, hinv, rfl⟩
      dsimp only [waitPass]
      rw [if_pos (hcomplete.mpr hall), yields_pure]
    · have hover : timeout < course.elapsed n := hlast.resolve_left hall
      refine ⟨⟨n + 1, false, failRest mc (askAll tostring mc cmd (course.poll n) results).1⟩,
        yields_repeat_inr ?_, rfl, iff_of_false Bool.false_ne_true hall, _, hinv, rfl⟩
      dsimp only [waitPass]
      rw [if_neg fun heq => hall (hcomplete.mp heq), if_pos hover, yields_pure]
  | succ left ih =>
    have hnot := hbefore n (Nat.le_refl n) (by omega)
    have hgo : (waitPass tostring mc cmd course timeout (n, results)).Yields
        (.inl (n + 1, (askAll tostring mc cmd (course.poll n) results).1)) := by
      dsimp only [waitPass]
      rw [if_neg fun heq => hnot (.inl ((askAll_complete hids h).mp heq)),
        if_neg fun hover => hnot (.inr hover), yields_pure]
    have hplace : n + 1 + left = n + (left + 1) := by omega
    obtain ⟨w, hw, hrest⟩ := ih (askAll_inv hids h) (hplace ▸ hlast)
      fun k hk hlt => hbefore k (by omega) (by omega)
    rw [hplace] at hrest
    exact ⟨w, yields_repeat_inl hgo hw, hrest⟩

/-- The wait returns in the first pass that is the last one. -/
theorem yields_wait (hids : (mc.selected.map mc.mcId).Nodup) {n : Nat}
    (hlast : Last tostring mc cmd course timeout n)
    (hbefore : ∀ k < n, ¬Last tostring mc cmd course timeout k) :
    ∃ w, (waitStatusMsg tostring mc cmd course timeout).Yields w ∧ w.passes = n + 1 ∧
      (w.complete = true ↔ AllSeen tostring mc cmd course n) ∧
      ∃ results, Inv tostring mc cmd course (n + 1) results ∧
        w.results = if w.complete then results else failRest mc results := by
  have hinv : Inv tostring mc cmd course 0 fun _ => {} := fun _ _ => rfl
  have hrun := yields_last hids n hinv ((Nat.zero_add n).symm ▸ hlast)
    fun k _ hk => hbefore k (by omega)
  rwa [Nat.zero_add] at hrun

/-- When the time is up in a pass, each camera was seen before it, or one has not been seen at
all and those that were have sent their status or failed with the text of a timeout. -/
def Timely (tostring : V → LuaString) (mc : Mc) (cmd : Option V) (course : Course V) (n : Nat) :
    Prop :=
  AllSeen tostring mc cmd course n ∨ ¬AllSeen tostring mc cmd course (n + 1) ∧
    ∀ lcon ∈ mc.selected, ∀ r, seen tostring cmd course lcon (n + 1) = some r →
      r.done = true ∨ r.err = some timedOut

omit [DecidableEq V] in
/-- What was seen of a camera is kept when the time is up if it is done or says the same. -/
theorem late_eq_iff {r : Result V} (hsettled : r.settled = true) :
    late r = r ↔ r.done = true ∨ r.err = some timedOut := by
  obtain ⟨failed, done, err, status⟩ := r
  cases done with
  | true => simp [late]
  | false =>
    have hfailed : failed = true := by simpa [Result.settled] using hsettled
    simp [late, hfailed, eq_comm]

theorem Inv.own {n : Nat} {results : Results V} (h : Inv tostring mc cmd course n results)
    (hall : AllSeen tostring mc cmd course n) {lcon : Nat} (hmem : lcon ∈ mc.selected) :
    results (mc.mcId lcon) = (seen tostring cmd course lcon n).getD
      { failed := true, err := some timedOut } := by
  rw [h lcon hmem]
  obtain ⟨r, hr⟩ := Option.isSome_iff_exists.mp (hall lcon hmem)
  rw [hr]
  rfl

/-- For a pass in which the time is up, what is returned is right if it is timely. -/
theorem lawful_late {n : Nat} {results : Results V} (hids : (mc.selected.map mc.mcId).Nodup)
    (h : Inv tostring mc cmd course (n + 1) results) (hnot : ¬AllSeen tostring mc cmd course n) :
    Lawful tostring mc cmd course ⟨n + 1, false, failRest mc results⟩ ↔
      Timely tostring mc cmd course n := by
  have hentry : ∀ lcon ∈ mc.selected, failRest mc results (mc.mcId lcon) =
      late ((seen tostring cmd course lcon (n + 1)).getD {}) := by
    intro lcon hmem
    rw [failRest_eq hids results hmem, h lcon hmem]
  constructor
  · intro hlawful
    refine .inr ⟨fun hall => Bool.false_ne_true (hlawful.complete.mpr hall), ?_⟩
    intro lcon hmem r hr
    have hown : failRest mc results (mc.mcId lcon) =
        (seen tostring cmd course lcon (n + 1)).getD _ :=
      hlawful.own lcon hmem
    rw [hentry lcon hmem, hr] at hown
    exact (late_eq_iff (seen_settled hr)).mp hown
  · rintro (hall | ⟨hnext, htimely⟩)
    · exact absurd hall hnot
    · refine ⟨iff_of_false Bool.false_ne_true hnext, fun lcon hmem => ?_⟩
      refine (hentry lcon hmem).trans ?_
      cases hr : seen tostring cmd course lcon (n + 1) with
      | none => rfl
      | some r => exact (late_eq_iff (seen_settled hr)).mpr (htimely lcon hmem r hr)

/-- If the time is up at last then the wait returns, and what it returns is right exactly if it
is timely in the first pass in which the time is up. -/
theorem wait_status_msg_iff (tostring : V → LuaString) (mc : Mc) (cmd : Option V)
    (course : Course V) (timeout : Rat) (hids : (mc.selected.map mc.mcId).Nodup)
    (htime : ∃ n, timeout < course.elapsed n) :
    (∃ w, (waitStatusMsg tostring mc cmd course timeout).Yields w ∧
      Lawful tostring mc cmd course w) ↔
    ∀ n, timeout < course.elapsed n → (∀ k < n, ¬timeout < course.elapsed k) →
      Timely tostring mc cmd course n := by
  classical
  have hexists : ∃ n, Last tostring mc cmd course timeout n := by
    obtain ⟨n, hn⟩ := htime
    exact ⟨n, .inr hn⟩
  obtain ⟨w, hw, hpasses, hcomplete, results, hinv, hresults⟩ :=
    yields_wait hids (Nat.find_spec hexists) fun k hk => Nat.find_min hexists hk
  have hbefore : ∀ k < Nat.find hexists, ¬Last tostring mc cmd course timeout k :=
    fun k hk => Nat.find_min hexists hk
  have hlast := Nat.find_spec hexists
  generalize Nat.find hexists = n at hpasses hcomplete hinv hbefore hlast
  have hunique : (∃ w, (waitStatusMsg tostring mc cmd course timeout).Yields w ∧
      Lawful tostring mc cmd course w) ↔ Lawful tostring mc cmd course w := by
    constructor
    · rintro ⟨w', hw', hlawful⟩
      rwa [Yields.unique hw hw']
    · exact fun hlawful => ⟨w, hw, hlawful⟩
  rw [hunique]
  obtain ⟨passes, complete, results'⟩ := w
  dsimp only at hpasses hcomplete hresults
  subst hpasses
  by_cases hall : AllSeen tostring mc cmd course n
  · obtain rfl : complete = true := hcomplete.mpr hall
    obtain rfl : results' = results := hresults
    have hnext := hall.mono (Nat.le_succ n)
    refine iff_of_true ⟨iff_of_true rfl hnext, fun lcon hmem => hinv.own hnext hmem⟩ ?_
    intro m hm hfirst
    -- the time is not up before all have been seen
    have hle : n ≤ m := by
      by_contra hlt
      exact hbefore m (by omega) (.inr hm)
    exact .inl (hall.mono hle)
  · obtain rfl : complete = false := Bool.eq_false_iff.mpr fun h => hall (hcomplete.mp h)
    have hover : timeout < course.elapsed n := hlast.resolve_left hall
    obtain rfl : results' = failRest mc results := hresults
    rw [lawful_late hids hinv hall]
    constructor
    · intro htimely m hm hfirst
      have hge : n ≤ m := by
        by_contra hlt
        exact hbefore m (by omega) (.inr hm)
      have hle : m ≤ n := by
        by_contra hlt
        exact hfirst n (by omega) hover
      obtain rfl : m = n := by omega
      exact htimely
    · intro h
      exact h n hover fun k hk hup => hbefore k hk (.inr hup)

end Loop

/-! ## Two cameras -/

/-- Two cameras with ids 1 and 2. -/
def twoCams : Mc :=
  { Multicam.start with cams := [0, 1], selected := [0, 1], mcId := fun lcon => lcon + 1 }

/-- The first camera has no script; the script of the second one runs and says nothing. -/
def silent : Course Unit where
  poll _ lcon := ⟨.ok ⟨lcon ≠ 0, false⟩, .error []⟩
  elapsed n := 250 * n

theorem twoCams_ids : (twoCams.selected.map twoCams.mcId).Nodup := by
  have hids : twoCams.selected.map twoCams.mcId = [1, 2] := by
    norm_num [twoCams]
  rw [hids]
  decide

theorem wait_status_msg_iff_silent :
    (∃ w, (waitStatusMsg (fun _ : Unit => []) twoCams none silent 100).Yields w ∧
      Lawful (fun _ : Unit => []) twoCams none silent w) ↔
    ∀ n, (100 : Rat) < silent.elapsed n → (∀ k < n, ¬(100 : Rat) < silent.elapsed k) →
      Timely (fun _ : Unit => []) twoCams none silent n :=
  wait_status_msg_iff _ _ none silent 100 twoCams_ids ⟨1, by norm_num [silent]⟩

/-- The error of the first camera is lost when the second one does not answer in time. -/
theorem error_lost : ¬∃ w, (waitStatusMsg (fun _ : Unit => []) twoCams none silent 100).Yields w ∧
    Lawful (fun _ : Unit => []) twoCams none silent w := by
  rintro ⟨w, hw, hlawful⟩
  have hfirst : ¬Last (fun _ : Unit => []) twoCams none silent 100 0 := by
    rintro (hall | hover)
    · exact absurd (hall 0 List.mem_cons_self) Bool.false_ne_true
    · norm_num [silent] at hover
  have hsecond : Last (fun _ : Unit => []) twoCams none silent 100 1 := .inr (by norm_num [silent])
  obtain ⟨w', hw', hpasses, hcomplete, results, hinv, hresults⟩ :=
    yields_wait twoCams_ids hsecond fun k hk => by
      obtain rfl : k = 0 := by omega
      exact hfirst
  obtain rfl := Yields.unique hw hw'
  have hnot : ¬AllSeen (fun _ : Unit => []) twoCams none silent 1 := fun hall =>
    absurd (hall 1 (by simp [twoCams])) Bool.false_ne_true
  have hown := hlawful.own 0 List.mem_cons_self
  rw [hpasses, hresults, if_neg fun h => hnot (hcomplete.mp h),
    failRest_eq twoCams_ids results List.mem_cons_self, hinv 0 List.mem_cons_self] at hown
  have hseen : seen (fun _ : Unit => []) none silent 0 2 =
      some { failed := true, err := some notRunning } := rfl
  rw [hseen] at hown
  have herr : timedOut = notRunning := Option.some.inj (congrArg Result.err hown)
  have hlen := congrArg List.length herr
  simp [timedOut, notRunning, bytes] at hlen

end MulticamStatus
