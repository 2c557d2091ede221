import Chdkptp.FsUtil
import Chdkptp.LuaSlots
import Chdkptp.Separated

/-!
# Paths of the camera

The functions of `fsutil` for paths on the camera, which begin with `A/`. What a path names
is said by its components, what stands between the slashes.
-/

namespace FsCam

open LuaValue LuaText FsUtil LuaSlots
open Separated (rdropWhile_append rtakeWhile_append rdropWhile_last)

def slash : UInt8 := 47

/-- The root directory. -/
def root : LuaString := bytes "A/".toList

/-- `fsutil.remove_sfx`. -/
def removeSfx (ignorecase : Bool) (path sfx : LuaString) : LuaString :=
  if sfx.length ≤ path.length then
    if ignorecase ∧ lower (subEnd path sfx.length) = lower sfx ∨ subEnd path sfx.length = sfx then
      path.take (path.length - sfx.length)
    else path
  else path

/-- `([^/]+)/?$`. -/
def lastName (path : LuaString) : Option LuaString :=
  let body := if path.getLast? = some slash then path.dropLast else path
  let bn := body.rtakeWhile fun c => c ≠ slash
  if bn = [] then none else some bn

/-- `string.gsub(path,'[^/]+/*$','')`. -/
def stripName (path : LuaString) : LuaString :=
  let body := path.rdropWhile fun c => c = slash
  if body = [] then path else body.rdropWhile fun c => c ≠ slash

/-- `string.gsub(path,'/*$','')`. -/
def stripSlashes (path : LuaString) : LuaString := path.rdropWhile fun c => c = slash

/-- `fsutil.basename_cam`, by default without regard to the case of the suffix. -/
def basenameCam (path sfx : Option LuaString) (ignorecase : Bool) : Option LuaString :=
  match path with
  | none => none
  | some path =>
    if path = root then none
    else
      (lastName path).map fun bn =>
        match sfx with
        | some sfx => if sfx.length < bn.length then removeSfx ignorecase bn sfx else bn
        | none => bn

/-- `fsutil.dirname_cam`. -/
def dirnameCam (path : Option LuaString) : Option LuaString :=
  match path with
  | none => none
  | some path =>
    if path = root then some path
    else
      -- remove trailing blah/?
      let dn := stripName path
      if dn = [] then none
      else
        let dn := stripSlashes dn
        if dn = bytes "A".toList then some root
        -- all /, invalid
        else if dn = [] then none
        else some dn

/-- `fsutil.joinpath_cam`, none where it throws. -/
def joinpathCam : List LuaString → Option LuaString
  | r :: v :: parts => some ((v :: parts).foldl (joinPart false) r)
  | _ => none

/-! ## The shape of a path -/

/-- A name without slashes, with what stands before and after it. -/
structure Shape (path before name : LuaString) (k : Nat) : Prop where
  eq : path = before ++ name ++ List.replicate k slash
  name_ne : name ≠ []
  no_slash : slash ∉ name
  before_end : ∀ q c, before = q ++ [c] → c = slash

theorem exists_shape (path : LuaString) :
    (∃ k, path = List.replicate k slash) ∨ ∃ before name k, Shape path before name k := by
  have htail : ∃ k, path.rtakeWhile (fun c => c = slash) = List.replicate k slash :=
    ⟨_, List.eq_replicate_length.mpr fun c hc => by simpa using List.mem_rtakeWhile_imp hc⟩
  obtain ⟨k, hk⟩ := htail
  have hpath : path.rdropWhile (fun c => c = slash) ++ List.replicate k slash = path := by
    rw [← hk]
    exact List.rdropWhile_append_rtakeWhile
  by_cases hbody : path.rdropWhile (fun c => c = slash) = []
  · rw [hbody] at hpath
    exact .inl ⟨k, hpath.symm⟩
  · have hlast := List.rdropWhile_last_not _ _ hbody
    generalize path.rdropWhile (fun c => c = slash) = body at hpath hbody hlast
    have hsplit : body.rdropWhile (fun c => c ≠ slash) ++ body.rtakeWhile (fun c => c ≠ slash) =
        body := List.rdropWhile_append_rtakeWhile
    refine .inr ⟨body.rdropWhile fun c => c ≠ slash, body.rtakeWhile fun c => c ≠ slash, k, ?_, ?_,
      ?_, ?_⟩
    · rw [hsplit, hpath]
    · intro hname
      have hnot := List.rtakeWhile_eq_nil_iff.mp hname hbody
      simp only [decide_eq_true_eq, ne_eq, not_not] at hnot hlast
      exact hlast hnot
    · intro hmem
      simpa using List.mem_rtakeWhile_imp hmem
    · intro q c hq
      simpa using rdropWhile_last hq

namespace Shape

variable {path before name : LuaString} {k : Nat}

theorem name_last (h : Shape path before name k) (a q : LuaString) (c : UInt8)
    (hq : a ++ name = q ++ [c]) : c ≠ slash := by
  rcases List.eq_nil_or_concat' name with hnil | ⟨n, d, hname⟩
  · exact absurd hnil h.name_ne
  · rw [hname, ← List.append_assoc] at hq
    obtain ⟨-, hd⟩ := List.append_inj' hq rfl
    obtain rfl : d = c := by simpa using hd
    rintro rfl
    exact h.no_slash (by simp [hname])

/-- The path without the slashes at its end. -/
theorem body_eq (h : Shape path before name k) :
    path.rdropWhile (fun c => c = slash) = before ++ name := by
  rw [h.eq]
  refine rdropWhile_append (fun q c hq => ?_) fun c hc => ?_
  · simpa using h.name_last before q c hq
  · simpa using List.eq_of_mem_replicate hc

theorem name_all (h : Shape path before name k) :
    ∀ c ∈ name, (fun c => decide (c ≠ slash)) c = true := fun c hc => by
  simpa using fun hslash : c = slash => h.no_slash (hslash ▸ hc)

theorem stripName_eq (h : Shape path before name k) : stripName path = before := by
  have hne : before ++ name ≠ [] := by simp [h.name_ne]
  rw [stripName, h.body_eq, if_neg hne]
  exact rdropWhile_append (fun q c hq => by simpa using h.before_end q c hq) h.name_all

theorem rtake_eq (h : Shape path before name k) :
    (before ++ name).rtakeWhile (fun c => c ≠ slash) = name :=
  rtakeWhile_append (fun q c hq => by simpa using h.before_end q c hq) h.name_all

theorem lastName_eq (h : Shape path before name k) :
    lastName path = if k ≤ 1 then some name else none := by
  rw [lastName, h.eq]
  match k with
  | 0 =>
    have hlast : (before ++ name).getLast? ≠ some slash := by
      intro hslash
      have hwhole := List.dropLast_append_getLast? slash hslash
      exact h.name_last before _ _ hwhole.symm rfl
    simp only [List.replicate_zero, List.append_nil, if_neg hlast, h.rtake_eq, if_neg h.name_ne,
      Nat.zero_le, if_true]
  | 1 =>
    simp only [List.replicate_one, List.getLast?_concat, if_true, List.dropLast_concat, h.rtake_eq,
      if_neg h.name_ne, Nat.le_refl]
  | k + 2 =>
    rw [List.replicate_succ', ← List.append_assoc, List.getLast?_concat, if_pos rfl,
      List.dropLast_concat, List.replicate_succ', ← List.append_assoc,
      List.rtakeWhile_concat_neg _ _ _ (by simp)]
    simp

end Shape

/-! ## Components -/

/-- What stands between slashes, if anything does. -/
def comps (path : LuaString) : List LuaString :=
  (path.splitOnP fun c => c = slash).filter fun n => n ≠ []

theorem comps_append_slash (a b : LuaString) : comps (a ++ slash :: b) = comps a ++ comps b := by
  rw [comps, List.splitOnP_append_cons a b (by simp), List.filter_append]
  rfl

@[simp] theorem comps_nil : comps [] = [] := by
  simp [comps]

theorem comps_name {name : LuaString} (hne : name ≠ []) (hno : slash ∉ name) :
    comps name = [name] := by
  have hall : ∀ c ∈ name, (fun c => decide (c = slash)) c = false := fun c hc => by
    simpa using fun hslash : c = slash => hno (hslash ▸ hc)
  simp [comps, List.splitOnP_eq_singleton hall, hne]

theorem comps_append_slashes (a : LuaString) (k : Nat) :
    comps (a ++ List.replicate k slash) = comps a := by
  induction k with
  | zero => simp
  | succ k ih =>
    rw [List.replicate_succ', ← List.append_assoc, comps_append_slash, ih, comps_nil,
      List.append_nil]

theorem comps_slashes (k : Nat) : comps (List.replicate k slash) = [] := by
  simpa using comps_append_slashes [] k

theorem comps_joinPart (r v : LuaString) : comps (joinPart false r v) = comps r ++ comps v := by
  have hsep : ∀ c, isDirSep false c = true ↔ c = slash := by simp [isDirSep, slash]
  have hr : ∀ w, comps ((if endsInSep false r then r else r ++ [47]) ++ w) = comps r ++ comps w := by
    intro w
    cases hend : endsInSep false r with
    | false =>
      rw [if_neg (by simp), List.append_assoc]
      exact comps_append_slash r w
    | true =>
      obtain ⟨q, c, hc, rfl⟩ := (endsInSep_iff r).mp hend
      obtain rfl := (hsep c).mp hc
      rw [if_pos rfl, List.append_assoc, comps_append_slash q [], comps_nil, List.append_nil]
      exact comps_append_slash q w
  have hv : comps (if v.head?.any (isDirSep false) then v.tail else v) = comps v := by
    cases v with
    | nil => rfl
    | cons c v =>
      by_cases hc : c = slash
      · subst hc
        exact (comps_append_slash [] v).symm
      · have hno : isDirSep false c = false := by simpa using mt (hsep c).mp hc
        simp [hno]
  rw [joinPart, hr, hv]

theorem Shape.comps_eq {path before name : LuaString} {k : Nat} (h : Shape path before name k) :
    comps path = comps before ++ [name] := by
  rw [h.eq, comps_append_slashes, ← comps_name h.name_ne h.no_slash]
  rcases List.eq_nil_or_concat' before with rfl | ⟨q, c, rfl⟩
  · simp
  · obtain rfl := h.before_end q c rfl
    rw [comps_append_slash q [], comps_nil, List.append_nil, List.append_assoc]
    exact comps_append_slash q name

/-! ## Going up -/

/-- A path that does not end in a slash. -/
structure Tidy (path : LuaString) : Prop where
  ne_nil : path ≠ []
  last : ∀ q, path ≠ q ++ [slash]

theorem Tidy.shape {path : LuaString} (h : Tidy path) : ∃ before name, Shape path before name 0 := by
  rcases exists_shape path with ⟨k, hk⟩ | ⟨before, name, k, hshape⟩
  · cases k with
    | zero => exact absurd hk h.ne_nil
    | succ k => exact absurd (List.replicate_succ' ▸ hk) (h.last _)
  · cases k with
    | zero => exact ⟨before, name, hshape⟩
    | succ k =>
      have hend := hshape.eq
      rw [List.replicate_succ', ← List.append_assoc] at hend
      exact absurd hend (h.last _)

theorem Tidy.lastName {path : LuaString} (h : Tidy path) : ∃ name, lastName path = some name := by
  obtain ⟨before, name, hshape⟩ := h.shape
  exact ⟨name, by rw [hshape.lastName_eq]; rfl⟩

theorem stripSlashes_tidy {path : LuaString} (h : stripSlashes path ≠ []) :
    Tidy (stripSlashes path) where
  ne_nil := h
  last q hq := by simpa using rdropWhile_last hq

theorem comps_stripSlashes (path : LuaString) : comps (stripSlashes path) = comps path := by
  have hwhole : stripSlashes path ++ path.rtakeWhile (fun c => c = slash) = path :=
    List.rdropWhile_append_rtakeWhile
  have htail : path.rtakeWhile (fun c => c = slash) =
      List.replicate (path.rtakeWhile fun c => c = slash).length slash :=
    List.eq_replicate_length.mpr fun c hc => by simpa using List.mem_rtakeWhile_imp hc
  rw [htail] at hwhole
  conv_rhs => rw [← hwhole]
  exact (comps_append_slashes _ _).symm

theorem slashes_stripSlashes (k : Nat) : stripSlashes (List.replicate k slash) = [] :=
  List.rdropWhile_eq_nil_iff.mpr fun c hc => by simpa using List.eq_of_mem_replicate hc

theorem slashes_stripName (k : Nat) :
    stripName (List.replicate k slash) = List.replicate k slash := by
  rw [stripName, show (List.replicate k slash).rdropWhile _ = [] from slashes_stripSlashes k,
    if_pos rfl]

theorem slashes_ne_root (k : Nat) : List.replicate k slash ≠ root := by
  intro h
  have hA : byte 'A' ∈ List.replicate k slash := by
    rw [h]
    decide
  exact absurd (List.eq_of_mem_replicate hA) (by decide)

theorem slashes_dirnameCam (k : Nat) : dirnameCam (some (List.replicate k slash)) = none := by
  have hA : ([] : LuaString) ≠ bytes "A".toList := by decide
  simp only [dirnameCam, if_neg (slashes_ne_root k), slashes_stripName, slashes_stripSlashes,
    if_neg hA, if_true, ite_self]

/-- The directory of a path: it has the components before the last one. -/
theorem dirnameCam_cases {path dir : LuaString} (hroot : path ≠ root)
    (h : dirnameCam (some path) = some dir) :
    ∃ before name k, Shape path before name k ∧ comps dir = comps before ∧
      (dir = root ∨ Tidy dir ∧ dir.length < path.length) := by
  simp only [dirnameCam, if_neg hroot] at h
  rcases exists_shape path with ⟨k, rfl⟩ | ⟨before, name, k, hshape⟩
  · have hnone := slashes_dirnameCam k
    simp only [dirnameCam, if_neg hroot] at hnone
    rw [hnone] at h
    cases h
  · rw [hshape.stripName_eq] at h
    split at h
    · cases h
    · split at h
      · rename_i hA
        cases h
        refine ⟨before, name, k, hshape, ?_, .inl rfl⟩
        rw [← comps_stripSlashes before, hA]
        decide
      · split at h
        · cases h
        · rename_i hne
          cases h
          have hshort : (stripSlashes before).length ≤ before.length :=
            (List.rdropWhile_prefix _ _).length_le
          have hname : 0 < name.length := List.length_pos_iff.mpr hshape.name_ne
          have hlen : before.length < path.length := by
            rw [hshape.eq, List.length_append, List.length_append]
            omega
          exact ⟨before, name, k, hshape, comps_stripSlashes before,
            .inr ⟨stripSlashes_tidy hne, by omega⟩⟩

theorem dirnameCam_length {path : Option LuaString} {dir : LuaString}
    (h : dirnameCam path = some dir) (hdir : dir ≠ root) : dir.length < (path.getD []).length := by
  cases path with
  | none => cases h
  | some path =>
    by_cases hroot : path = root
    · rw [dirnameCam, if_pos hroot] at h
      exact absurd ((Option.some.inj h).symm.trans hroot) hdir
    · obtain ⟨-, -, -, -, -, heq | ⟨-, hlt⟩⟩ := dirnameCam_cases hroot h
      · exact absurd heq hdir
      · exact hlt

/-- A path that has no directory has at most one component. -/
theorem comps_of_dirnameCam_none {path before name : LuaString} {k : Nat}
    (hshape : Shape path before name k) (h : dirnameCam (some path) = none) :
    comps before = [] := by
  rw [← comps_stripSlashes]
  by_cases hroot : path = root
  · rw [dirnameCam, if_pos hroot] at h
    cases h
  · simp only [dirnameCam, if_neg hroot, hshape.stripName_eq] at h
    split at h
    · rename_i hnil
      rw [hnil]
      rfl
    · split at h
      · cases h
      · split at h
        · rename_i hnil
          rw [hnil]
          rfl
        · cases h

/-! ## Splitting -/

/-- The loop of `fsutil.splitpath_cam`. -/
def splitLoop (B : Borders LuaString) (parts : Slots LuaString) (path : Option LuaString) :
    Slots LuaString :=
  let parts := insertFirst B parts (basenameCam path none true)
  match hd : dirnameCam path with
  | none => parts
  | some dir =>
    if hroot : dir = root then insertFirst B parts (some dir)
    else
      have := dirnameCam_length hd hroot
      splitLoop B parts (some dir)
termination_by (path.getD []).length

section Loop

variable (B : Borders LuaString) (parts : Slots LuaString) {path : Option LuaString}

theorem splitLoop_none (h : dirnameCam path = none) :
    splitLoop B parts path = insertFirst B parts (basenameCam path none true) := by
  rw [splitLoop]
  split
  · rfl
  · rename_i hd
    rw [h] at hd
    cases hd

theorem splitLoop_root (h : dirnameCam path = some root) :
    splitLoop B parts path =
      insertFirst B (insertFirst B parts (basenameCam path none true)) (some root) := by
  rw [splitLoop]
  split
  · rename_i hd
    rw [h] at hd
    cases hd
  · rename_i dir hd
    obtain rfl : root = dir := Option.some.inj (h.symm.trans hd)
    rw [dif_pos rfl]

theorem splitLoop_dir {dir : LuaString} (h : dirnameCam path = some dir) (hroot : dir ≠ root) :
    splitLoop B parts path =
      splitLoop B (insertFirst B parts (basenameCam path none true)) (some dir) := by
  rw [splitLoop]
  split
  · rename_i hd
    rw [h] at hd
    cases hd
  · rename_i dir' hd
    obtain rfl : dir = dir' := Option.some.inj (h.symm.trans hd)
    rw [dif_neg hroot]

end Loop

/-- `fsutil.splitpath_cam`. -/
def splitpathCam (B : Borders LuaString) (path : Option LuaString) : Slots LuaString :=
  splitLoop B [] path

/-- The parts of a path. -/
def splitList (path : Option LuaString) : List LuaString :=
  match hd : dirnameCam path with
  | none => (basenameCam path none true).toList
  | some dir =>
    if hroot : dir = root then root :: (basenameCam path none true).toList
    else
      have := dirnameCam_length hd hroot
      splitList (some dir) ++ (basenameCam path none true).toList
termination_by (path.getD []).length

theorem splitList_none {path : Option LuaString} (h : dirnameCam path = none) :
    splitList path = (basenameCam path none true).toList := by
  rw [splitList]
  split
  · rfl
  · rename_i hd
    rw [h] at hd
    cases hd

theorem splitList_root {path : Option LuaString} (h : dirnameCam path = some root) :
    splitList path = root :: (basenameCam path none true).toList := by
  rw [splitList]
  split
  · rename_i hd
    rw [h] at hd
    cases hd
  · rename_i dir hd
    obtain rfl : root = dir := Option.some.inj (h.symm.trans hd)
    rw [dif_pos rfl]

theorem splitList_dir {path : Option LuaString} {dir : LuaString} (h : dirnameCam path = some dir)
    (hroot : dir ≠ root) :
    splitList path = splitList (some dir) ++ (basenameCam path none true).toList := by
  rw [splitList]
  split
  · rename_i hd
    rw [h] at hd
    cases hd
  · rename_i dir' hd
    obtain rfl : dir = dir' := Option.some.inj (h.symm.trans hd)
    rw [dif_neg hroot]

/-- Every part is put in front of what is there. -/
theorem filled_splitLoop (B : Borders LuaString) (parts : Slots LuaString)
    (path : Option LuaString) :
    filled (splitLoop B parts path) = filled parts + (splitList path).length := by
  have hpart : ∀ v : Option LuaString, (if v.isSome then 1 else 0) = v.toList.length := by
    intro v
    cases v <;> rfl
  fun_induction splitLoop B parts path with
  | case1 parts path parts' hd =>
    rw [filled_insertFirst, hpart, splitList_none hd]
  | case2 parts path parts' hd =>
    rw [filled_insertFirst, filled_insertFirst, hpart, splitList_root hd]
    simp only [Option.isSome_some, if_true, List.length_cons]
    omega
  | case3 parts path parts' dir hd hroot hlt ih =>
    rw [ih, filled_insertFirst, hpart, splitList_dir hd hroot, List.length_append]
    omega

/-- A directory that is gone up to has a name, unless it is the root. -/
theorem basenameCam_dir {path : Option LuaString} {dir : LuaString}
    (h : dirnameCam path = some dir) (hdir : dir ≠ root) :
    (basenameCam (some dir) none true).isSome := by
  cases path with
  | none => cases h
  | some path =>
    by_cases hroot : path = root
    · rw [dirnameCam, if_pos hroot] at h
      exact absurd ((Option.some.inj h).symm.trans hroot) hdir
    · obtain ⟨-, -, -, -, -, heq | ⟨htidy, -⟩⟩ := dirnameCam_cases hroot h
      · exact absurd heq hdir
      · obtain ⟨name, hname⟩ := htidy.lastName
        simp [basenameCam, hdir, hname]

theorem same_insertPart (B : Borders LuaString) {parts : Slots LuaString} {l : List LuaString}
    (h : Same parts (ofList l)) {part : Option LuaString} (hpart : l = [] ∨ part.isSome) :
    Same (insertFirst B parts part) (ofList (part.toList ++ l)) := by
  cases part with
  | some x => exact same_insertFirst B h x
  | none =>
    obtain rfl : l = [] := hpart.resolve_right (by simp)
    exact same_insertFirst_none B h

/-- Into an array without holes the loop puts the parts of the path. -/
theorem same_splitLoop (B : Borders LuaString) {parts : Slots LuaString} {l : List LuaString}
    {path : Option LuaString} (h : Same parts (ofList l))
    (hfirst : l = [] ∨ (basenameCam path none true).isSome) :
    Same (splitLoop B parts path) (ofList (splitList path ++ l)) := by
  fun_induction splitLoop B parts path generalizing l with
  | case1 parts path parts' =>
    rename_i hd
    rw [splitList_none hd]
    exact same_insertPart B h hfirst
  | case2 parts path parts' =>
    rename_i hd
    rw [splitList_root hd]
    exact same_insertFirst B (same_insertPart B h hfirst) root
  | case3 parts path parts' dir hd hroot hlt =>
    rename_i ih
    rw [splitList_dir hd hroot, List.append_assoc]
    exact ih (same_insertPart B h hfirst) (.inr (basenameCam_dir hd hroot))

theorem same_splitpathCam (B : Borders LuaString) (path : Option LuaString) :
    Same (splitpathCam B path) (ofList (splitList path)) := by
  have hsame : Same (splitLoop B [] path) (ofList (splitList path ++ [])) :=
    same_splitLoop B (fun _ => rfl) (.inl rfl)
  rwa [List.append_nil] at hsame

/-- The name that a path ends in. -/
def Shape.part (name : LuaString) (k : Nat) : List LuaString := if k ≤ 1 then [name] else []

theorem Shape.part_eq {path before name : LuaString} {k : Nat} (h : Shape path before name k)
    (hroot : path ≠ root) : (basenameCam (some path) none true).toList = part name k := by
  simp only [basenameCam, if_neg hroot, h.lastName_eq, part]
  split <;> rfl

theorem Shape.comps_part {path before name : LuaString} {k : Nat} (h : Shape path before name k) :
    (part name k).flatMap comps = part name k := by
  rw [part]
  split
  · rw [List.flatMap_singleton, comps_name h.name_ne h.no_slash]
  · rfl

/-- The parts have the components of the path, but for a name with more than one slash
behind it. -/
theorem comps_splitList {path before name : LuaString} {k : Nat} (hroot : path ≠ root)
    (h : Shape path before name k) :
    (splitList (some path)).flatMap comps = comps before ++ Shape.part name k := by
  induction hlen : path.length using Nat.strong_induction_on generalizing path before name k with
  | _ n ih =>
    cases hd : dirnameCam (some path) with
    | none =>
      rw [splitList_none hd, h.part_eq hroot, h.comps_part, comps_of_dirnameCam_none h hd,
        List.nil_append]
    | some dir =>
      obtain ⟨before', name', k', hshape, hcomps, hdir⟩ := dirnameCam_cases hroot hd
      have hbefore : comps before' = comps before := by
        have hwhole := hshape.comps_eq.symm.trans h.comps_eq
        exact (List.append_inj' hwhole rfl).1
      rw [← hbefore, ← hcomps]
      by_cases hdirroot : dir = root
      · subst hdirroot
        rw [splitList_root hd, List.flatMap_cons, h.part_eq hroot, h.comps_part]
      · obtain ⟨htidy, hlt⟩ := hdir.resolve_left hdirroot
        obtain ⟨b, m, hm⟩ := htidy.shape
        have hrest := ih dir.length (hlen ▸ hlt) hdirroot hm rfl
        rw [splitList_dir hd hdirroot, List.flatMap_append, hrest, h.part_eq hroot, h.comps_part,
          hm.comps_eq]
        rfl

theorem splitList_slashes (k : Nat) : splitList (some (List.replicate k slash)) = [] := by
  have hlast : lastName (List.replicate k slash) = none := by
    cases k with
    | zero => rfl
    | succ k =>
      have hend : (List.replicate k slash).rtakeWhile (fun c => c ≠ slash) = [] :=
        List.rtakeWhile_eq_nil_iff.mpr fun hne => by simp
      rw [lastName, List.replicate_succ', List.getLast?_concat, if_pos rfl, List.dropLast_concat,
        hend, if_pos rfl]
  rw [splitList_none (slashes_dirnameCam k), basenameCam, if_neg (slashes_ne_root k), hlast]
  rfl

/-- The parts of a path name the path or directories that it is in. -/
theorem comps_splitList_prefix (path : LuaString) :
    (splitList (some path)).flatMap comps <+: comps path := by
  by_cases hroot : path = root
  · subst hroot
    have hd : dirnameCam (some root) = some root := by rw [dirnameCam, if_pos rfl]
    rw [splitList_root hd, basenameCam, if_pos rfl]
    exact List.prefix_rfl
  · rcases exists_shape path with ⟨k, rfl⟩ | ⟨before, name, k, hshape⟩
    · rw [splitList_slashes, comps_slashes]
      exact List.prefix_rfl
    · rw [comps_splitList hroot hshape, hshape.comps_eq, List.prefix_append_right_inj, Shape.part]
      split
      · exact List.prefix_rfl
      · exact List.nil_prefix

end FsCam
