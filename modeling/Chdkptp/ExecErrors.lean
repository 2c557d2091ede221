import Chdkptp.Rlibs
import Chdkptp.TextLines
import Mathlib.Algebra.GroupWithZero.Nat

/-!
# Where an error of the camera is

The camera reports an error with a line number of the program that `con:exec` sent: the
code of the libraries, a newline behind each, then the user's code. `format_exec_error`
counts its way back to the library or the user code that the line belongs to.
-/

namespace ExecErrors

open LuaValue LuaText Rlibs TextLines

/-- `t.lines` of `register`: the matches of `'\n'` in the code. -/
def libLines (t : Lib) : Nat := t.code.foldl (fun lines c => if c = 10 then lines + 1 else lines) 0

/-- What the loop over `libs.list` finds, libraries counted from 1. -/
inductive Place where
  | rlib (i : Nat) (errlib : Lib) (errlnum : Nat)
  | user (lnum : Nat)
  deriving DecidableEq

/-- The loop over `libs.list` from the `i`-th library on, with `l` lines before it. -/
def placeFrom (lnum : Nat) : (i l : Nat) → List Lib → Place
  | _, l, [] => .user (lnum - l)
  | i, lprev, lib :: rest =>
    let l := lprev + (libLines lib + 1)
    if l ≥ lnum then .rlib i lib (lnum - lprev) else placeFrom lnum (i + 1) l rest

def place (libs : List Lib) (lnum : Nat) : Place := placeFrom lnum 1 0 libs

/-- `tonumber(string.match(errmsg,'^%s*:(%d+):'))`. -/
def matchLine (errmsg : LuaString) : Option Nat :=
  match errmsg.dropWhile isSpace with
  | [] => none
  | c :: rest =>
    if c = byte ':' ∧ ((rest.dropWhile isDigit).head? = some (byte ':')) then
      digitsValue 10 (rest.takeWhile isDigit)
    else none

/-- The two formats at the end of `format_exec_error`. -/
def placeText (errmsg : LuaString) : Place → LuaString
  | .rlib _ errlib errlnum => errmsg ++ bytes ['\n', 'r', 'l', 'i', 'b', ' '] ++ errlib.name ++
      bytes [':'] ++ numeralText 10 errlnum ++ bytes ['\n']
  | .user lnum => errmsg ++ bytes ['\n', 'u', 's', 'e', 'r', ' ', 'c', 'o', 'd', 'e', ':', ' '] ++
      numeralText 10 lnum ++ bytes ['\n']

/-- `format_exec_error`; without a line number the message is returned as it is. -/
def formatExecError (libs : List Lib) (errmsg : LuaString) : LuaString :=
  match matchLine errmsg with
  | none => errmsg
  | some lnum => placeText errmsg (place libs lnum)

/-- A message of the camera about a line. -/
def ErrorAt (lnum : Nat) (errmsg : LuaString) : Prop :=
  ∃ spaces rest, (∀ c ∈ spaces, isSpace c = true) ∧
    errmsg = spaces ++ byte ':' :: (numeralText 10 lnum ++ byte ':' :: rest)

/-- The program that `con:exec` sends. -/
def program (b : Build) (code : LuaString) : LuaString := rlibGetCode b ++ code

/-- The code of some libraries, each with its newline. -/
def assembled (libs : List Lib) : LuaString := libs.flatMap fun lib => lib.code ++ [10]

/-- Line `l` of the program is line `k` of the `i`-th library. -/
def LineOfLib (b : Build) (code : LuaString) (i : Nat) (lib : Lib) (l k : Nat) : Prop :=
  ∃ before after, b.list = before ++ lib :: after ∧ before.length + 1 = i ∧
    IsLine 10 (assembled before) lib.code ([10] ++ assembled after ++ code) l k

/-- Line `l` of the program is line `k` of the user's code. -/
def LineOfUser (b : Build) (code : LuaString) (l k : Nat) : Prop :=
  IsLine 10 (assembled b.list) code [] l k

/-- The parts are parts of the program. -/
theorem program_eq (b : Build) (code : LuaString) :
    program b code = assembled b.list ++ code ++ [] ∧
    ∀ before lib after, b.list = before ++ lib :: after →
      program b code = assembled before ++ lib.code ++ ([10] ++ assembled after ++ code) := by
  have hprogram : program b code = assembled b.list ++ code := by
    rw [program, rlibGetCode_eq, assembled]
  constructor
  · rw [hprogram, List.append_nil]
  · intro before lib after h
    rw [hprogram, h]
    simp only [assembled, List.flatMap_append, List.flatMap_cons, List.append_assoc]

/-! ## Counting -/

theorem lines_eq (t : Lib) : libLines t = lineEnds 10 t.code := by
  have hfold : ∀ (code : LuaString) (n : Nat),
      code.foldl (fun lines c => if c = 10 then lines + 1 else lines) n = n + code.count 10 := by
    intro code
    induction code with
    | nil => exact fun n => rfl
    | cons c code ih =>
      intro n
      rw [List.foldl_cons, ih]
      by_cases hc : c = 10
      · rw [if_pos hc, hc, List.count_cons_self]
        omega
      · rw [if_neg hc, List.count_cons_of_ne hc]
  rw [libLines, hfold, Nat.zero_add, lineEnds]

/-- A library takes one line more than it has line ends. -/
theorem lineEnds_assembled (libs : List Lib) :
    lineEnds 10 (assembled libs) = (libs.map fun lib => libLines lib + 1).sum := by
  induction libs with
  | nil => rfl
  | cons lib libs ih =>
    have hcons : assembled (lib :: libs) = (lib.code ++ [10]) ++ assembled libs := rfl
    have hnewline : lineEnds (10 : UInt8) [10] = 1 := rfl
    rw [hcons, lineEnds_append, lineEnds_append, ih, ← lines_eq, hnewline, List.map_cons,
      List.sum_cons]

/-- The loop stops in the library whose lines contain the number, or behind them all. -/
theorem placeFrom_cases (lnum i l : Nat) (libs : List Lib) (h : l < lnum) :
    (∃ before lib after, libs = before ++ lib :: after ∧
        placeFrom lnum i l libs =
          .rlib (i + before.length) lib (lnum - (l + lineEnds 10 (assembled before))) ∧
        l + lineEnds 10 (assembled before) < lnum ∧
        lnum ≤ l + lineEnds 10 (assembled before) + (libLines lib + 1)) ∨
      (placeFrom lnum i l libs = .user (lnum - (l + lineEnds 10 (assembled libs))) ∧
        l + lineEnds 10 (assembled libs) < lnum) := by
  induction libs generalizing i l with
  | nil => exact .inr ⟨rfl, h⟩
  | cons lib libs ih =>
    have hcons : lineEnds 10 (assembled (lib :: libs)) =
        libLines lib + 1 + lineEnds 10 (assembled libs) := by
      rw [lineEnds_assembled, lineEnds_assembled, List.map_cons, List.sum_cons]
    simp only [placeFrom]
    by_cases hhere : l + (libLines lib + 1) ≥ lnum
    · rw [if_pos hhere]
      exact .inl ⟨[], lib, libs, rfl, rfl, h, hhere⟩
    · rw [if_neg hhere]
      rcases ih (i + 1) (l + (libLines lib + 1)) (by omega) with
        ⟨before, lib', after, rfl, hplace, hlow, hhigh⟩ | ⟨hplace, hlow⟩
      · left
        have hends : lineEnds 10 (assembled (lib :: before)) =
            libLines lib + 1 + lineEnds 10 (assembled before) := by
          rw [lineEnds_assembled, lineEnds_assembled, List.map_cons, List.sum_cons]
        refine ⟨lib :: before, lib', after, rfl, ?_, by omega, by omega⟩
        rw [hplace, hends, List.length_cons, Nat.add_assoc l, Nat.add_assoc i, Nat.add_comm 1]
      · right
        rw [hplace, hcons, ← Nat.add_assoc l (libLines lib + 1)]
        exact ⟨rfl, hlow⟩

/-- A number among the lines of a library stops the loop there. -/
theorem placeFrom_lib (lnum : Nat) {before : List Lib} (lib : Lib) (after : List Lib) {i l : Nat}
    (hlow : l + lineEnds 10 (assembled before) < lnum)
    (hhigh : lnum ≤ l + lineEnds 10 (assembled before) + (libLines lib + 1)) :
    placeFrom lnum i l (before ++ lib :: after) =
      .rlib (i + before.length) lib (lnum - (l + lineEnds 10 (assembled before))) := by
  induction before generalizing i l with
  | nil =>
    rw [List.nil_append]
    exact if_pos hhigh
  | cons first before ih =>
    have hends : lineEnds 10 (assembled (first :: before)) =
        libLines first + 1 + lineEnds 10 (assembled before) := by
      rw [lineEnds_assembled, lineEnds_assembled, List.map_cons, List.sum_cons]
    rw [hends, ← Nat.add_assoc l (libLines first + 1)] at hlow hhigh
    have hnot : ¬l + (libLines first + 1) ≥ lnum := by omega
    rw [List.cons_append]
    simp only [placeFrom]
    rw [if_neg hnot, ih hlow hhigh, hends, List.length_cons, ← Nat.add_assoc l (libLines first + 1),
      Nat.add_assoc i, Nat.add_comm 1]

/-- A number behind the lines of all libraries does not stop it. -/
theorem placeFrom_user (lnum : Nat) (libs : List Lib) {i l : Nat}
    (h : l + lineEnds 10 (assembled libs) < lnum) :
    placeFrom lnum i l libs = .user (lnum - (l + lineEnds 10 (assembled libs))) := by
  rcases placeFrom_cases lnum i l libs (by omega) with
    ⟨before, lib, after, rfl, _, _, hhigh⟩ | ⟨hplace, _⟩
  · exfalso
    have hends : lineEnds 10 (assembled (before ++ lib :: after)) =
        lineEnds 10 (assembled before) + (libLines lib + 1 + lineEnds 10 (assembled after)) := by
      rw [lineEnds_assembled, lineEnds_assembled, lineEnds_assembled, List.map_append,
        List.map_cons, List.sum_append, List.sum_cons]
    omega
  · exact hplace

/-! ## The message -/

theorem matchLine_errorAt {lnum : Nat} {errmsg : LuaString} (h : ErrorAt lnum errmsg) :
    matchLine errmsg = some lnum := by
  obtain ⟨spaces, rest, hspaces, rfl⟩ := h
  have hcolon : isSpace (byte ':') = false := by decide
  have hend : isDigit (byte ':') = false := by decide
  have hdigits := numeralText_digits lnum
  have hdrop : (spaces ++ byte ':' :: (numeralText 10 lnum ++ byte ':' :: rest)).dropWhile isSpace =
      byte ':' :: (numeralText 10 lnum ++ byte ':' :: rest) := by
    rw [List.dropWhile_append_of_pos hspaces, List.dropWhile_cons_of_neg (by rw [hcolon]; simp)]
  have htail : (numeralText 10 lnum ++ byte ':' :: rest).dropWhile isDigit = byte ':' :: rest := by
    rw [List.dropWhile_append_of_pos hdigits, List.dropWhile_cons_of_neg (by rw [hend]; simp)]
  have hhead : (numeralText 10 lnum ++ byte ':' :: rest).takeWhile isDigit = numeralText 10 lnum := by
    rw [List.takeWhile_append_of_pos hdigits, List.takeWhile_cons_of_neg (by rw [hend]; simp),
      List.append_nil]
  simp only [matchLine, hdrop, htail, hhead, List.head?_cons, and_self, if_true]
  exact digitsValue_numeralText (by decide) (by decide) lnum

/-- A line is attributed to the library, or to the user's code, that it is a line of. -/
theorem error_location (b : Build) (code errmsg : LuaString) (lnum : Nat)
    (hline : HasLine 10 (program b code) lnum) (herr : ErrorAt lnum errmsg) :
    formatExecError b.list errmsg = placeText errmsg (place b.list lnum) ∧
      (∀ i lib k, place b.list lnum = .rlib i lib k ↔ LineOfLib b code i lib lnum k) ∧
      ∀ k, place b.list lnum = .user k ↔ LineOfUser b code lnum k := by
  obtain ⟨hlow, hhigh⟩ := (hasLine_iff 10 _ lnum).mp hline
  rw [(program_eq b code).1, List.append_nil, lineEnds_append] at hhigh
  have hcases := placeFrom_cases lnum 1 0 b.list hlow
  simp only [Nat.zero_add] at hcases
  refine ⟨?_, fun i lib k => ?_, fun k => ?_⟩
  · simp only [formatExecError, matchLine_errorAt herr]
  · constructor
    · intro hplace
      rcases hcases with ⟨before, lib', after, heq, hfound, hl, hh⟩ | ⟨hfound, _⟩
      · rw [place, hfound, Place.rlib.injEq] at hplace
        obtain ⟨rfl, rfl, rfl⟩ := hplace
        refine ⟨before, after, heq, Nat.add_comm _ _, ?_⟩
        rw [isLine_iff, ← lines_eq]
        omega
      · rw [place, hfound] at hplace
        cases hplace
    · rintro ⟨before, after, heq, rfl, hpart⟩
      rw [isLine_iff, ← lines_eq] at hpart
      have hfound : placeFrom lnum 1 0 (before ++ lib :: after) = _ :=
        placeFrom_lib lnum lib after (by omega) (by omega)
      rw [place, heq, hfound, Place.rlib.injEq]
      exact ⟨Nat.add_comm _ _, rfl, by omega⟩
  · constructor
    · intro hplace
      rcases hcases with ⟨before, lib', after, heq, hfound, hl, hh⟩ | ⟨hfound, hl⟩
      · rw [place, hfound] at hplace
        cases hplace
      · rw [place, hfound, Place.user.injEq] at hplace
        subst hplace
        rw [LineOfUser, isLine_iff]
        omega
    · intro hpart
      rw [LineOfUser, isLine_iff] at hpart
      rw [place, placeFrom_user lnum b.list (by omega), Place.user.injEq]
      omega

/-- A library with a newline at its end, and one without. -/
def twoParts : Build :=
  ⟨[⟨bytes ['a'], [], bytes ['x', '\n']⟩, ⟨bytes ['b'], [], bytes ['y']⟩], ∅⟩

theorem error_location_witness :
    formatExecError twoParts.list (bytes [':', '3', ':', '?']) =
        bytes [':', '3', ':', '?', '\n', 'r', 'l', 'i', 'b', ' ', 'b', ':', '1', '\n'] ∧
      LineOfLib twoParts (bytes ['z']) 2 ⟨bytes ['b'], [], bytes ['y']⟩ 3 1 :=
  ⟨by decide +kernel,
    ((error_location twoParts (bytes ['z']) (bytes [':', '3', ':', '?']) 3
      ⟨3, by decide +kernel, by decide +kernel⟩
      ⟨[], bytes ['?'], by decide +kernel, by decide +kernel⟩).2.1 2 _ 1).mp (by decide +kernel)⟩

end ExecErrors
