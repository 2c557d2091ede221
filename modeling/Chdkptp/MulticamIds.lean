import Chdkptp.Multicam

/-!
# Unique ids

The ids of the cameras on the list are different and at most `max_id`, as long as no camera
call throws in the middle of a change: a swap passes through a state with equal ids,
`max_id` is raised last, and the selection is restored only after a command that returns.
-/

namespace Multicam

open ActionSystem

/-- The connections on the list are different objects, and there are no others yet. -/
structure Sound (s : Mc) : Prop where
  nodup : s.cams.Nodup
  fresh : ∀ c ∈ s.cams, c < s.next

def Unique (s : Mc) : Prop := ∀ c ∈ s.cams, ∀ d ∈ s.cams, s.mcId c = s.mcId d → c = d

def Bounded (s : Mc) : Prop := ∀ c ∈ s.cams, s.mcId c ≤ s.maxId

structure Inv (s : Mc) : Prop where
  sound : Sound s
  unique : Unique s
  bounded : Bounded s

theorem inv_start : Inv start := by
  refine ⟨⟨List.nodup_nil, ?_⟩, ?_, ?_⟩ <;> simp [start, Unique, Bounded]

/-! ## Connecting -/

theorem addCam_inv {s : Mc} {lcon : Nat} (h : Inv s) (hnot : lcon ∉ s.cams)
    (hnext : lcon < s.next) : Inv (addCam s lcon) := by
  have hold : ∀ c ∈ s.cams, Function.update s.mcId lcon (s.maxId + 1) c = s.mcId c := by
    intro c hc
    have hne : c ≠ lcon := fun heq => hnot (heq ▸ hc)
    exact Function.update_of_ne hne _ _
  have hnew : Function.update s.mcId lcon (s.maxId + 1) lcon = s.maxId + 1 :=
    Function.update_self _ _ _
  have hlt : ∀ c ∈ s.cams, s.mcId c < s.maxId + 1 := fun c hc =>
    (h.bounded c hc).trans_lt (lt_add_one _)
  have hmem : ∀ c, c ∈ (addCam s lcon).cams ↔ c ∈ s.cams ∨ c = lcon := by simp [addCam]
  refine ⟨⟨?_, ?_⟩, ?_, ?_⟩
  · exact List.nodup_append.mpr ⟨h.sound.nodup, List.nodup_singleton _, fun c hc d hd => by
      rw [List.mem_singleton.mp hd]
      exact fun heq => hnot (heq ▸ hc)⟩
  · intro c hc
    rcases (hmem c).mp hc with hc | rfl
    · exact h.sound.fresh c hc
    · exact hnext
  · intro c hc d hd hid
    simp only [addCam] at hid
    rcases (hmem c).mp hc with hc' | hc' <;> rcases (hmem d).mp hd with hd' | hd'
    · rw [hold c hc', hold d hd'] at hid
      exact h.unique c hc' d hd' hid
    · rw [hold c hc', hd', hnew] at hid
      exact absurd hid (hlt c hc').ne
    · rw [hold d hd', hc', hnew] at hid
      exact absurd hid.symm (hlt d hd').ne
    · rw [hc', hd']
  · intro c hc
    simp only [addCam]
    rcases (hmem c).mp hc with hc | rfl
    · rw [hold c hc]
      exact (hlt c hc).le
    · rw [hnew]

/-- The fields that the invariant is about. -/
theorem Inv.congr {s s' : Mc} (h : Inv s) (hcams : s'.cams = s.cams) (hid : s'.mcId = s.mcId)
    (hmax : s'.maxId = s.maxId) (hnext : s.next ≤ s'.next) : Inv s' := by
  refine ⟨⟨hcams ▸ h.sound.nodup, fun c hc => ?_⟩, ?_, ?_⟩
  · exact (h.sound.fresh c (hcams ▸ hc)).trans_le hnext
  · intro c hc d hd heq
    rw [hcams] at hc hd
    rw [hid] at heq
    exact h.unique c hc d hd heq
  · intro c hc
    rw [hcams] at hc
    rw [hid, hmax]
    exact h.bounded c hc

theorem visit_inv {s : Mc} (h : Inv s) (closeTempcons : Bool) (d : Device) :
    Inv (visit closeTempcons s d).1 := by
  have hseen : Inv { s with
      next := s.next + 1
      condev := Function.update s.condev s.next d.condev } :=
    h.congr rfl rfl rfl (Nat.le_succ _)
  have hnew : s.next ∉ s.cams := fun hmem => absurd (h.sound.fresh _ hmem) (lt_irrefl _)
  rw [visit]
  split
  · exact hseen
  · exact hseen
  · split
    · exact hseen
    · split
      · exact hseen
      · exact addCam_inv hseen hnew (Nat.lt_succ_self _)
      · exact hseen

theorem visits_inv {s : Mc} (h : Inv s) (closeTempcons : Bool) (devices : List Device) :
    Inv (visits closeTempcons s devices).1 := by
  induction devices generalizing s with
  | nil => exact h
  | cons d devices ih =>
    have hnext := visit_inv h closeTempcons d
    rw [visits]
    split
    · rename_i s' hvisit
      rw [hvisit] at hnext
      exact hnext
    · rename_i s' hvisit
      rw [hvisit] at hnext
      exact ih hnext

theorem selAll_inv {s : Mc} (h : Inv s) : Inv (selAll s) := h.congr rfl rfl rfl le_rfl

theorem connect_inv {s : Mc} (h : Inv s) (add closeTempcons : Bool)
    (devices : Option (List Device)) : Inv (connect s add closeTempcons devices).1 := by
  have hreset : Inv (if add then s else { s with cams := [], bySerial := true, maxId := 0 }) := by
    cases add with
    | true => exact h
    | false => refine ⟨⟨List.nodup_nil, ?_⟩, ?_, ?_⟩ <;> simp [Unique, Bounded]
  cases devices with
  | none => exact hreset
  | some devices =>
    have hvisits := visits_inv hreset closeTempcons devices
    simp only [connect]
    split
    · rename_i s' hs'
      rw [hs'] at hvisits
      exact hvisits
    · rename_i s' hs'
      rw [hs'] at hvisits
      exact selAll_inv hvisits

/-! ## Setting ids -/

def Sent.throws : Sent → Bool
  | .statusThrows => true
  | .cmdThrows => true
  | _ => false

/-- What `mc:set_id_cam` leaves: the id is set in any case, and a command that throws leaves
the selection at the camera. -/
theorem setIdCam_eq (s : Mc) (lcon : Nat) (id : Rat) (sent : Sent) :
    setIdCam s lcon id sent = ({ s with
      mcId := Function.update s.mcId lcon id
      selected := if sent = .cmdThrows then [lcon] else s.selected }, sent.throws) := by
  cases sent <;> rfl

theorem findId_some {s : Mc} {id : Rat} {c : Nat} (h : findId s id = some c) :
    c ∈ s.cams ∧ s.mcId c = id :=
  ⟨List.mem_of_find?_eq_some h, by simpa using List.find?_some h⟩

theorem findId_none {s : Mc} {id : Rat} (h : findId s id = none) : ∀ c ∈ s.cams, s.mcId c ≠ id := by
  simpa [findId] using h

/-- The property of a state. -/
structure Good (s : Mc) : Prop where
  unique : Unique s
  bounded : Bounded s

/-- A failed `mc:set_id` leaves a selection of several cameras at one. -/
def Reduces (s : Mc) : Op → Prop
  | .connect .. => False
  | op => (step s op).2 = true ∧ (step s op).1.selected.length = 1 ∧ 1 < s.selected.length

def Keeps (s : Mc) (op : Op) : Prop := Good (step s op).1 ∧ ¬Reduces s op

/-- A command that throws does not matter when at most one camera is selected. -/
def Quiet (s : Mc) (sent : Sent) : Prop := sent = .cmdThrows → s.selected.length ≤ 1

/-- Where the id is free, nothing throws or it is at most `max_id`; in a swap the first camera
does not throw. -/
def Meets (s : Mc) : Op → Prop
  | .connect .. => True
  | .setId oldId newId conflicts sent sent' =>
    ∀ lcon, findId s oldId = some lcon →
      match findId s newId with
      | none => (sent'.throws → newId ≤ s.maxId) ∧ Quiet s sent'
      | some conflictCon => conflicts = .swap →
        (conflictCon ≠ lcon → sent.throws = false) ∧ Quiet s sent ∧
          (sent.throws = false → Quiet s sent')

/-- What the last part of `mc:set_id` leaves. -/
theorem setIdLast_eq (s : Mc) (lcon : Nat) (newId : Rat) (sent : Sent) :
    setIdLast s lcon newId sent =
      if sent.throws then
        ({ s with
          mcId := Function.update s.mcId lcon newId
          selected := if sent = .cmdThrows then [lcon] else s.selected }, true)
      else (selAll { s with
        mcId := Function.update s.mcId lcon newId
        maxId := max newId s.maxId }, false) := by
  rw [setIdLast, setIdCam_eq]
  cases sent with
  | statusThrows => rfl
  | cmdThrows => rfl
  | idle | done =>
    simp only [Sent.throws, Bool.false_eq_true, if_false, reduceCtorEq, max_def]
    by_cases hgt : newId > s.maxId
    · rw [if_pos hgt, if_neg (not_le.mpr hgt)]
    · rw [if_neg hgt, if_pos (not_lt.mp hgt)]

theorem setIdLast_cams (s : Mc) (lcon : Nat) (newId : Rat) (sent : Sent) :
    (setIdLast s lcon newId sent).1.cams = s.cams ∧
      (setIdLast s lcon newId sent).1.next = s.next := by
  rw [setIdLast_eq]
  cases sent.throws <;> exact ⟨rfl, rfl⟩

/-- No camera comes or goes. -/
theorem setId_cams (s : Mc) (oldId newId : Rat) (conflicts : Conflicts) (sent sent' : Sent) :
    (setId s oldId newId conflicts sent sent').1.cams = s.cams ∧
      (setId s oldId newId conflicts sent sent').1.next = s.next := by
  rw [setId]
  cases findId s oldId with
  | none => exact ⟨rfl, rfl⟩
  | some lcon =>
    cases findId s newId with
    | none => exact setIdLast_cams s lcon newId sent'
    | some conflictCon =>
      cases conflicts with
      | error => exact ⟨rfl, rfl⟩
      | other => exact ⟨rfl, rfl⟩
      | swap =>
        simp only [setIdCam_eq]
        cases sent.throws with
        | true => exact ⟨rfl, rfl⟩
        | false => exact setIdLast_cams _ lcon newId sent'

/-! ### Free ids -/

theorem rename_unique {s : Mc} (h : Inv s) {lcon : Nat} {newId : Rat}
    (hfree : ∀ c ∈ s.cams, s.mcId c ≠ newId) :
    ∀ c ∈ s.cams, ∀ d ∈ s.cams,
      Function.update s.mcId lcon newId c = Function.update s.mcId lcon newId d → c = d := by
  intro c hc d hd hid
  by_cases hcl : c = lcon <;> by_cases hdl : d = lcon
  · rw [hcl, hdl]
  · rw [hcl, Function.update_self, Function.update_of_ne hdl] at hid
    exact absurd hid.symm (hfree d hd)
  · rw [hdl, Function.update_self, Function.update_of_ne hcl] at hid
    exact absurd hid (hfree c hc)
  · rw [Function.update_of_ne hcl, Function.update_of_ne hdl] at hid
    exact h.unique c hc d hd hid

theorem rename_bounded_iff {s : Mc} (h : Inv s) {lcon : Nat} (hlcon : lcon ∈ s.cams)
    {newId m : Rat} (hm : s.maxId ≤ m) :
    (∀ c ∈ s.cams, Function.update s.mcId lcon newId c ≤ m) ↔ newId ≤ m := by
  constructor
  · intro hall
    have hlast := hall lcon hlcon
    rwa [Function.update_self] at hlast
  · intro hle c hc
    by_cases hcl : c = lcon
    · rw [hcl, Function.update_self]
      exact hle
    · rw [Function.update_of_ne hcl]
      exact (h.bounded c hc).trans hm

/-! ### Swaps -/

/-- After a swap a camera has the id that the other one had. -/
theorem update_swap {s : Mc} {lcon conflictCon : Nat} {oldId newId : Rat}
    (hold : s.mcId lcon = oldId) (hnew : s.mcId conflictCon = newId) :
    Function.update (Function.update s.mcId conflictCon oldId) lcon newId =
      fun c => s.mcId (Equiv.swap lcon conflictCon c) := by
  funext c
  by_cases hcl : c = lcon
  · rw [hcl, Function.update_self, Equiv.swap_apply_left, hnew]
  · rw [Function.update_of_ne hcl]
    by_cases hcc : c = conflictCon
    · rw [hcc, Function.update_self, Equiv.swap_apply_right, hold]
    · rw [Function.update_of_ne hcc, Equiv.swap_apply_of_ne_of_ne hcl hcc]

theorem swap_mem {s : Mc} {lcon conflictCon : Nat} (hlcon : lcon ∈ s.cams)
    (hcon : conflictCon ∈ s.cams) {c : Nat} (hc : c ∈ s.cams) :
    Equiv.swap lcon conflictCon c ∈ s.cams := by
  by_cases hcl : c = lcon
  · rwa [hcl, Equiv.swap_apply_left]
  · by_cases hcc : c = conflictCon
    · rwa [hcc, Equiv.swap_apply_right]
    · rwa [Equiv.swap_apply_of_ne_of_ne hcl hcc]

theorem swap_good {s : Mc} (h : Inv s) {lcon conflictCon : Nat} (hlcon : lcon ∈ s.cams)
    (hcon : conflictCon ∈ s.cams) {s' : Mc} (hcams : s'.cams = s.cams)
    (hid : s'.mcId = fun c => s.mcId (Equiv.swap lcon conflictCon c))
    (hmax : s.maxId ≤ s'.maxId) : Good s' := by
  refine ⟨fun c hc d hd heq => ?_, fun c hc => ?_⟩
  · rw [hcams] at hc hd
    rw [hid] at heq
    exact (Equiv.swap lcon conflictCon).injective
      (h.unique _ (swap_mem hlcon hcon hc) _ (swap_mem hlcon hcon hd) heq)
  · rw [hcams] at hc
    rw [hid]
    exact (h.bounded _ (swap_mem hlcon hcon hc)).trans hmax

/-! ## One operation -/

/-- What is left of the selection. -/
theorem not_reduced_iff (s : Mc) (lcon : Nat) (sent : Sent) :
    ¬((if sent = .cmdThrows then [lcon] else s.selected).length = 1 ∧ 1 < s.selected.length) ↔
      Quiet s sent := by
  rw [Quiet]
  by_cases hcmd : sent = .cmdThrows
  · rw [if_pos hcmd, List.length_singleton]
    simp [hcmd]
  · rw [if_neg hcmd]
    simp only [hcmd, false_imp_iff, iff_true]
    omega

theorem quiet_of_not_throws {s : Mc} {sent : Sent} (h : sent.throws = false) : Quiet s sent := by
  rintro rfl
  cases h

theorem keeps_free_iff {s : Mc} (h : Inv s) {lcon : Nat} {newId : Rat} (hlcon : lcon ∈ s.cams)
    (hfree : ∀ c ∈ s.cams, s.mcId c ≠ newId) (sent : Sent) :
    (Good (setIdLast s lcon newId sent).1 ∧ ¬((setIdLast s lcon newId sent).2 = true ∧
        (setIdLast s lcon newId sent).1.selected.length = 1 ∧ 1 < s.selected.length)) ↔
      (sent.throws → newId ≤ s.maxId) ∧ Quiet s sent := by
  rw [setIdLast_eq]
  cases hthrows : sent.throws with
  | true =>
    simp only [if_true, true_and, forall_const, not_reduced_iff]
    refine and_congr_left fun _ => ⟨fun hgood => ?_, fun hle => ⟨?_, ?_⟩⟩
    · exact (rename_bounded_iff h hlcon le_rfl).mp hgood.bounded
    · exact rename_unique h hfree
    · exact (rename_bounded_iff h hlcon le_rfl).mpr hle
  | false =>
    refine iff_of_true ⟨⟨rename_unique h hfree, ?_⟩, ?_⟩ ⟨by simp, quiet_of_not_throws hthrows⟩
    · exact (rename_bounded_iff h hlcon (le_max_right _ _)).mpr (le_max_left _ _)
    · simp

/-- The second half of a swap. -/
theorem keeps_last_iff {s : Mc} (h : Inv s) {lcon conflictCon : Nat} {oldId newId : Rat}
    (hlcon : lcon ∈ s.cams) (hcon : conflictCon ∈ s.cams) (hold : s.mcId lcon = oldId)
    (hnew : s.mcId conflictCon = newId) (sent : Sent) :
    let s₁ := { s with mcId := Function.update s.mcId conflictCon oldId }
    (Good (setIdLast s₁ lcon newId sent).1 ∧ ¬((setIdLast s₁ lcon newId sent).2 = true ∧
        (setIdLast s₁ lcon newId sent).1.selected.length = 1 ∧ 1 < s.selected.length)) ↔
      Quiet s sent := by
  intro s₁
  rw [setIdLast_eq]
  cases hthrows : sent.throws with
  | true =>
    simp only [if_true, true_and]
    rw [not_reduced_iff s₁]
    exact and_iff_right (swap_good h hlcon hcon rfl (update_swap hold hnew) le_rfl)
  | false =>
    refine iff_of_true ⟨?_, by simp⟩ (quiet_of_not_throws hthrows)
    exact swap_good h hlcon hcon rfl (update_swap hold hnew) (le_max_right _ _)

/-- After the first half alone two cameras have the old id, or nothing has changed. -/
theorem half_good_iff {s s' : Mc} (h : Inv s) {lcon conflictCon : Nat} {oldId : Rat}
    (hlcon : lcon ∈ s.cams) (hcon : conflictCon ∈ s.cams) (hold : s.mcId lcon = oldId)
    (hcams : s'.cams = s.cams) (hid : s'.mcId = Function.update s.mcId conflictCon oldId)
    (hmax : s'.maxId = s.maxId) : Good s' ↔ conflictCon = lcon := by
  constructor
  · intro hgood
    refine hgood.unique _ (hcams ▸ hcon) _ (hcams ▸ hlcon) ?_
    rw [hid, Function.update_self, Function.update_apply]
    split
    · rfl
    · exact hold.symm
  · rintro rfl
    rw [← hold, Function.update_eq_self] at hid
    exact ⟨by simpa [Unique, hcams, hid] using h.unique,
      by simpa [Bounded, hcams, hid, hmax] using h.bounded⟩

theorem keeps_swap_iff {s : Mc} (h : Inv s) {lcon conflictCon : Nat} {oldId newId : Rat}
    (hlcon : findId s oldId = some lcon) (hcon : findId s newId = some conflictCon)
    (sent sent' : Sent) :
    Keeps s (.setId oldId newId .swap sent sent') ↔
      (conflictCon ≠ lcon → sent.throws = false) ∧ Quiet s sent ∧
        (sent.throws = false → Quiet s sent') := by
  obtain ⟨hmem, hold⟩ := findId_some hlcon
  obtain ⟨hmem', hnew⟩ := findId_some hcon
  simp only [Keeps, Reduces, step, setId, hlcon, hcon, setIdCam_eq]
  cases hthrows : sent.throws with
  | true =>
    simp only [true_and, not_reduced_iff, Bool.true_eq_false, imp_false, not_not, false_imp_iff,
      and_true]
    exact and_congr_left fun _ => half_good_iff h hmem hmem' hold rfl rfl rfl
  | false =>
    have hquiet : Quiet s sent := quiet_of_not_throws hthrows
    have hcmd : sent ≠ .cmdThrows := fun heq => by
      rw [heq] at hthrows
      cases hthrows
    simp only [if_neg hcmd, implies_true, hquiet, true_and, forall_const]
    exact keeps_last_iff h hmem hmem' hold hnew sent'

theorem keeps_iff {s : Mc} (h : Inv s) (op : Op) : Keeps s op ↔ Meets s op := by
  cases op with
  | connect add closeTempcons devices =>
    have hinv := connect_inv h add closeTempcons devices
    exact iff_of_true ⟨⟨hinv.unique, hinv.bounded⟩, id⟩ trivial
  | setId oldId newId conflicts sent sent' =>
    have hsame : (step s (.setId oldId newId conflicts sent sent')).1 = s →
        Keeps s (.setId oldId newId conflicts sent sent') := by
      intro hstep
      refine ⟨?_, fun hred => ?_⟩
      · rw [hstep]
        exact ⟨h.unique, h.bounded⟩
      · obtain ⟨-, hone, hmany⟩ := hred
        rw [hstep] at hone
        omega
    cases hlcon : findId s oldId with
    | none => exact iff_of_true (hsame (by simp [step, setId, hlcon])) (by simp [Meets, hlcon])
    | some lcon =>
      cases hcon : findId s newId with
      | none =>
        simp only [Meets, hlcon, hcon, Option.some.injEq, forall_eq']
        simp only [Keeps, Reduces, step, setId, hlcon, hcon]
        exact keeps_free_iff h (findId_some hlcon).1 (findId_none hcon) sent'
      | some conflictCon =>
        simp only [Meets, hlcon, hcon, Option.some.injEq, forall_eq']
        cases conflicts with
        | error =>
          exact iff_of_true (hsame (by simp [step, setId, hlcon, hcon])) fun heq => (by cases heq)
        | other =>
          exact iff_of_true (hsame (by simp [step, setId, hlcon, hcon])) fun heq => (by cases heq)
        | swap =>
          exact (keeps_swap_iff h hlcon hcon sent sent').trans ⟨fun hm _ => hm, fun hm => hm rfl⟩

/-- Where an operation keeps the property, it keeps the whole invariant. -/
theorem Keeps.inv {s : Mc} {op : Op} (h : Inv s) (hkeeps : Keeps s op) : Inv (step s op).1 := by
  cases op with
  | connect add closeTempcons devices => exact connect_inv h add closeTempcons devices
  | setId oldId newId conflicts sent sent' =>
    obtain ⟨hcams, hnext⟩ := setId_cams s oldId newId conflicts sent sent'
    refine ⟨⟨?_, fun c hc => ?_⟩, hkeeps.1.unique, hkeeps.1.bounded⟩
    · exact hcams.symm ▸ h.sound.nodup
    · exact hnext.symm ▸ h.sound.fresh c (hcams ▸ hc)

/-! ## All runs -/

/-- No operation gets stuck. -/
theorem run_ne_none (s : Mc) (ops : List Op) : ∃ s', system.run s ops = some s' := by
  induction ops generalizing s with
  | nil => exact ⟨s, rfl⟩
  | cons op ops ih => exact ih (step s op).1

/-- In a run, each operation leaves different ids of at most `max_id` and no single camera
selected by a failed `mc:set_id` exactly when each meets its condition. -/
theorem ids_unique_iff (ops : List Op) :
    (∀ before op after s, ops = before ++ op :: after → system.run start before = some s →
        Keeps s op) ↔
      ∀ before op after s, ops = before ++ op :: after → system.run start before = some s →
        Meets s op := by
  obtain ⟨s', hrun⟩ := run_ne_none start ops
  refine system.run_steps_iff Inv Keeps Meets (fun s op s' hs hstep => ?_) inv_start hrun
  cases hstep
  exact ⟨keeps_iff hs op, fun hkeeps => hkeeps.inv hs⟩

/-- A camera without a serial at a device. -/
def camera (dev : UInt8) : Device := ⟨([], [dev]), .ok true, none, .ok true, false⟩

/-- The first half of a swap throws: both cameras have the first id. -/
theorem swap_interrupted :
    ∃ s, system.run start [.connect false false (some [camera 1, camera 2]),
      .setId 1 2 .swap .statusThrows .idle] = some s ∧ ¬Unique s := by
  refine ⟨_, rfl, fun hunique => ?_⟩
  have hsame : (0 : Nat) = 1 := hunique 0 (by decide +kernel) 1 (by decide +kernel)
    (by decide +kernel)
  cases hsame

end Multicam
