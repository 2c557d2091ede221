import Chdkptp.ArgParser
import Chdkptp.FsUtil
import Mathlib.Algebra.Order.BigOperators.Group.List
import Mathlib.Algebra.Order.Ring.Nat

/-!
# Commands made of text

`cli:execute` finds the command of a line and gives the rest to the command's parser of
arguments. The shoot command builds such a line for its downloads.
-/

namespace CliDownload

open Fuelled LuaValue LuaText RemoteCapture ArgParser FsUtil

/-! ## Switches and words -/

/-- What a switch is by default. -/
inductive DefValue where
  | bool (b : Bool)
  | num (n : Int)
  | str (s : LuaString)

/-- The value of a switch: the default, true for a switch without a value, or a string. -/
inductive SwValue where
  | default (v : DefValue)
  | given
  | text (s : LuaString)

/-- The results of `argparser:parse`: the named elements and the array elements. -/
structure Args where
  switches : LuaString → Option SwValue
  words : List LuaString

/-- The switches that there are, with their defaults. -/
abbrev Defs := LuaString → Option DefValue

/-- `^-(%a[%w_-]*)`: the name and what follows it. -/
def switchName : LuaString → Option (LuaString × LuaString)
  | 45 :: c :: s =>
    if isAlpha c then
      some (c :: s.takeWhile fun d => isWord d || d = 45, s.dropWhile fun d => isWord d || d = 45)
    else none
  | _ => none

def Args.set (results : Args) (swname : LuaString) (v : SwValue) : Args :=
  { results with
    switches := fun name => if name = swname then some v else results.switches name }

/-- The loop over the words in `argparser:parse`. -/
def parseWord (defs : Defs) (results : Args) (w : LuaString) : Except LuaString Args :=
  match switchName w with
  | none => .ok { results with words := results.words ++ [w] }
  | some (swname, rest) =>
    if (defs swname).isNone then .error (bytes "unknown switch ".toList ++ swname)
    else
      match rest with
      | [] => .ok (results.set swname .given)
      | 61 :: value => .ok (results.set swname (.text value))
      | _ => .error (bytes "invalid switch value ".toList ++ rest)

/-- `argparser:parse`. -/
def parse (defs : Defs) (str : LuaString) : Fuelled LuaError (Except LuaString Args) := do
  match ← parseWords str with
  | .error msg => pure (.error msg)
  | .ok words => pure (words.foldlM (parseWord defs) ⟨fun name => (defs name).map .default, []⟩)

/-! ## Commands -/

/-- The parsers of arguments: `argparser.create`, `nop`, `none` and `argparser_text`. -/
inductive CmdParser where
  | create (defs : Defs)
  | nop
  | none
  | text

/-- What a command gets. -/
inductive CmdArgs where
  | parsed (args : Args)
  | raw (str : LuaString)
  | text (str : LuaString)
  | input (filename : LuaString)

def CmdParser.parse (str : LuaString) : CmdParser → Fuelled LuaError (Except LuaString CmdArgs)
  | .create defs => do
    let r ← CliDownload.parse defs str
    pure (r.map .parsed)
  | .nop => pure (.ok (.raw str))
  | .none =>
    pure (if str.length ≠ 0 then .error (bytes "command takes no arguments".toList)
      else .ok (.raw str))
  | .text =>
    match trimspace str with
    | 60 :: fn => do
      match ← parseWords fn with
      | .error msg => pure (.error msg)
      | .ok [w] => pure (.ok (.input w))
      | .ok _ => pure (.error (bytes "expected exactly one filename".toList))
    | _ => pure (.ok (.text str))

/-- The name of the command in a line and the rest: `^[%c%s]*([!.#=])[%c%s]*` and else
`^[%c%s]*([%w_]+)[%c%s]*`. -/
def commandOf (line : LuaString) : Option (LuaString × LuaString) :=
  match trimspace line with
  | [] => none
  | c :: s =>
    if c ∈ bytes "!.#=".toList then some ([c], trimspace s)
    else if isWord c then
      some ((c :: s).takeWhile isWord, trimspace ((c :: s).dropWhile isWord))
    else none

/-- What `cli:execute` comes to. -/
inductive Executed where
  | call (cmd : LuaString) (args : CmdArgs)
  | parseFailed (msg : LuaString)
  | unknown (cmd : LuaString)
  | badInput
  | blank

/-- `cli:execute` up to the call of the command's function. -/
def execute (names : LuaString → Option CmdParser) (line : LuaString) :
    Fuelled LuaError Executed := do
  match commandOf line with
  | some (cmd, args) =>
    match names cmd with
    | some parser =>
      match ← parser.parse args with
      | .ok args => pure (.call cmd args)
      | .error msg => pure (.parseFailed msg)
    | none => pure (.unknown cmd)
  | none => pure (if line.any fun c => !isBlank c then .badInput else .blank)

/-- The switches of the download command. -/
def downloadDefs : Defs := fun name =>
  if name = bytes "nolua".toList then some (.bool false) else none

def download : LuaString := bytes "download".toList

/-- The commands: `download`, also called `d`, and others. -/
def cmdNames (others : LuaString → Option CmdParser) (cmd : LuaString) : Option CmdParser :=
  if cmd = download ∨ cmd = bytes "d".toList then some (.create downloadDefs) else others cmd

/-- The line that the shoot command executes for a file and its destination. -/
def downloadLine (path dst : LuaString) : LuaString :=
  bytes "download ".toList ++ path ++ bytes " ".toList ++ dst

/-! ## What the words cost -/

/-- A word that stands for itself. -/
structure IsBare (w : LuaString) : Prop where
  ne_nil : w ≠ []
  not_blank : ∀ c ∈ w, isBlank c = false
  not_quote : ∀ c ∈ w, isQuote c = false

theorem foldlM_bare {a : LuaString} (hblank : ∀ c ∈ a, isBlank c = false)
    (hquote : ∀ c ∈ a, isQuote c = false) (r : LuaString) :
    a.foldlM wordStep ⟨r, false, none⟩ = some ⟨r ++ a, false, none⟩ := by
  induction a generalizing r with
  | nil => simp
  | cons c a ih =>
    rw [List.forall_mem_cons] at hblank hquote
    have hstep : wordStep ⟨r, false, none⟩ c = some ⟨r ++ [c], false, none⟩ := by
      simp [wordStep_free, hblank.1, hquote.1]
    rw [List.foldlM_cons, hstep]
    simpa using ih hblank.2 hquote.2 (r ++ [c])

theorem wordStep_length {st st' : WordState} {c : UInt8} (h : wordStep st c = some st') :
    st'.result.length ≤ st.result.length + 1 := by
  unfold wordStep at h
  split_ifs at h <;> cases h <;> simp

/-- A character adds at most itself to a word. -/
theorem foldlM_length {st st' : WordState} {a : LuaString} (h : a.foldlM wordStep st = some st') :
    st'.result.length ≤ st.result.length + a.length := by
  induction a generalizing st with
  | nil =>
    cases h
    simp
  | cons c a ih =>
    obtain ⟨t, ht, hrest⟩ := Option.bind_eq_some_iff.mp h
    have hstep := wordStep_length ht
    have htail := ih hrest
    rw [List.length_cons]
    omega

/-- Where all characters are added none of them is a blank or a quote. -/
theorem foldlM_full {r : LuaString} {st' : WordState} {a : LuaString}
    (h : a.foldlM wordStep ⟨r, false, none⟩ = some st')
    (hlen : st'.result.length = r.length + a.length) :
    (∀ c ∈ a, isBlank c = false) ∧ ∀ c ∈ a, isQuote c = false := by
  induction a generalizing r with
  | nil => simp
  | cons c a ih =>
    obtain ⟨t, ht, hrest⟩ := Option.bind_eq_some_iff.mp h
    rw [wordStep_free] at ht
    split at ht
    · cases ht
    · split at ht
      · cases ht
        have htail := foldlM_length hrest
        simp only [List.length_cons] at hlen htail
        omega
      · cases ht
        rename_i hblank hquote
        have hrest_len : st'.result.length = (r ++ [c]).length + a.length := by
          simp only [List.length_append, List.length_cons, List.length_nil] at hlen ⊢
          omega
        have htail := ih hrest hrest_len
        rw [List.forall_mem_cons, List.forall_mem_cons]
        exact ⟨⟨by simpa using hblank, htail.1⟩, by simpa using hquote, htail.2⟩

theorem WordsOf.of_nil {ws : List LuaString} (h : WordsOf [] ws) : ws = [] := by
  cases h with
  | nil => rfl
  | cons hs _ _ => exact absurd rfl hs

def total (ws : List LuaString) : Nat := (ws.map List.length).sum

/-- The words and a character between any two of them fit into the string; where they fill
it they stand for themselves. -/
theorem words_cost {s : LuaString} {ws : List LuaString} (h : WordsOf s ws)
    (hs : ∀ c t, s = c :: t → isBlank c = false) :
    total ws + ws.length ≤ s.length + 1 ∧
      (total ws + ws.length = s.length + 1 → ∀ w ∈ ws, IsBare w) := by
  induction h with
  | nil => simp [total]
  | @cons s w pos ws hne hw hrest ih =>
    obtain ⟨a, b, rfl, rfl, hfold, hstop⟩ := getWord_iff.mp hw
    have hdrop : (a ++ b).drop (a.length + 1 - 1) = b := by simp
    rw [hdrop] at hrest ih
    have hword : w.length ≤ 0 + a.length := foldlM_length hfold
    have hbare : w.length = a.length → IsBare w := by
      intro hlen
      have hfull := foldlM_full hfold (by simpa using hlen)
      have hsame := foldlM_bare hfull.1 hfull.2 []
      rw [ArgParser.start] at hfold
      rw [hfold, List.nil_append] at hsame
      obtain rfl : w = a := congrArg WordState.result (Option.some.inj hsame)
      refine ⟨?_, hfull.1, hfull.2⟩
      rintro rfl
      obtain ⟨c, t, rfl⟩ := List.exists_cons_of_ne_nil hne
      have hblank := wordStep_free_none.mp (hstop c t rfl)
      rw [hs c t rfl] at hblank
      cases hblank
    have htail := ih fun c t ht => trimspace_head ht
    have hsum : total (w :: ws) = w.length + total ws := by simp [total]
    rw [hsum, List.length_cons, List.length_append]
    cases b with
    | nil =>
      obtain rfl := WordsOf.of_nil hrest
      refine ⟨by simp [total] at hword ⊢; omega, fun hlen => ?_⟩
      simp only [total, List.map_nil, List.sum_nil, List.length_nil] at hlen
      simpa using hbare (by omega)
    | cons c b =>
      -- the blank that stops the word is not in any word
      have hblank : trimspace (c :: b) = trimspace b := by
        simp [trimspace, wordStep_free_none.mp (hstop c b rfl)]
      have hshort := trimspace_length b
      rw [hblank] at htail
      rw [List.length_cons]
      refine ⟨by omega, fun hlen => ?_⟩
      rw [List.forall_mem_cons]
      exact ⟨hbare (by omega), htail.2 (by omega)⟩

/-! ## What download receives -/

theorem parse_iff {defs : Defs} {str : LuaString} {args : Args} :
    (parse defs str).Yields (.ok args) ↔ ∃ ws, WordsOf (trimspace str) ws ∧
      ws.foldlM (parseWord defs) ⟨fun name => (defs name).map .default, []⟩ = .ok args := by
  rw [parse, yields_bind]
  constructor
  · rintro ⟨r, hr, hargs⟩
    cases r with
    | error msg => simp at hargs
    | ok ws => exact ⟨ws, parseWords_iff.mp hr, by simpa using hargs⟩
  · rintro ⟨ws, hws, hargs⟩
    exact ⟨.ok ws, parseWords_iff.mpr hws, by simpa using hargs⟩

theorem foldlM_parseWord {defs : Defs} {ws : List LuaString} {results args : Args}
    (h : ws.foldlM (parseWord defs) results = .ok args) :
    args.words = results.words ++ ws.filter fun w => (switchName w).isNone := by
  induction ws generalizing results with
  | nil =>
    cases h
    simp
  | cons w ws ih =>
    rw [List.foldlM_cons] at h
    cases hw : parseWord defs results w with
    | error msg =>
      rw [hw] at h
      cases h
    | ok t =>
      rw [hw] at h
      rw [ih h]
      unfold parseWord at hw
      split at hw
      · rename_i hnone
        cases hw
        simp [hnone]
      · rename_i hsome
        split at hw
        · cases hw
        · split at hw <;> cases hw <;> simp [hsome, Args.set]

theorem foldlM_words {defs : Defs} {ws : List LuaString} (h : ∀ w ∈ ws, switchName w = none)
    (results : Args) :
    ws.foldlM (parseWord defs) results = .ok { results with words := results.words ++ ws } := by
  induction ws generalizing results with
  | nil => simp [pure, Except.pure]
  | cons w ws ih =>
    rw [List.forall_mem_cons] at h
    have hw : parseWord defs results w = .ok { results with words := results.words ++ [w] } := by
      simp [parseWord, h.1]
    rw [List.foldlM_cons, hw]
    simpa [bind, Except.bind] using ih h.2 { results with words := results.words ++ [w] }

/-- The download command gets the path and the destination as its words. -/
def Receives (others : LuaString → Option CmdParser) (path dst : LuaString) : Prop :=
  ∃ args, (execute (cmdNames others) (downloadLine path dst)).Yields
    (.call download (.parsed args)) ∧ args.words = [path, dst]

theorem commandOf_downloadLine (path dst : LuaString) :
    commandOf (downloadLine path dst) = some (download, trimspace (path ++ 32 :: dst)) := by
  have hline : downloadLine path dst = download ++ 32 :: (path ++ 32 :: dst) := by
    simp [downloadLine, download, bytes, byte]
  have hword : ∀ c ∈ download, isWord c = true := by decide +kernel
  have htrim : trimspace (downloadLine path dst) = downloadLine path dst := rfl
  have htake : (download ++ 32 :: (path ++ 32 :: dst)).takeWhile isWord = download := by
    have hspace : isWord 32 = false := by decide
    simp [List.takeWhile_append_of_pos hword, hspace]
  have hdrop : trimspace ((download ++ 32 :: (path ++ 32 :: dst)).dropWhile isWord) =
      trimspace (path ++ 32 :: dst) := by
    rw [List.dropWhile_append_of_pos hword]
    rfl
  have hpair := congrArg some (Prod.ext htake hdrop : (_, _) = (_, _))
  rw [commandOf, htrim, hline]
  exact hpair

theorem trimspace_trimspace (str : LuaString) : trimspace (trimspace str) = trimspace str :=
  List.dropWhile_idempotent isBlank str

theorem receives_iff_words {others : LuaString → Option CmdParser} {path dst : LuaString} :
    Receives others path dst ↔ ∃ ws args, WordsOf (trimspace (path ++ 32 :: dst)) ws ∧
      ws.foldlM (parseWord downloadDefs) ⟨fun name => (downloadDefs name).map .default, []⟩ =
        .ok args ∧ args.words = [path, dst] := by
  have hexec : ∀ args, (execute (cmdNames others) (downloadLine path dst)).Yields
      (.call download (.parsed args)) ↔
      (parse downloadDefs (trimspace (path ++ 32 :: dst))).Yields (.ok args) := by
    intro args
    have hcmd : cmdNames others download = some (.create downloadDefs) := if_pos (.inl rfl)
    rw [execute, commandOf_downloadLine]
    simp only [hcmd, CmdParser.parse]
    rw [yields_bind]
    constructor
    · rintro ⟨r, hr, hargs⟩
      obtain ⟨r', hr', hmap⟩ := yields_bind.mp hr
      cases yields_pure.mp hmap
      cases r' with
      | error msg => cases yields_pure.mp hargs
      | ok args' =>
        cases yields_pure.mp hargs
        exact hr'
    · intro h
      exact ⟨.ok (.parsed args), yields_bind.mpr ⟨.ok args, h, yields_pure.mpr rfl⟩,
        yields_pure.mpr rfl⟩
  constructor
  · rintro ⟨args, hcall, hwords⟩
    obtain ⟨ws, hws, hfold⟩ := parse_iff.mp ((hexec args).mp hcall)
    rw [trimspace_trimspace] at hws
    exact ⟨ws, args, hws, hfold, hwords⟩
  · rintro ⟨ws, args, hws, hfold, hwords⟩
    rw [← trimspace_trimspace] at hws
    exact ⟨args, (hexec args).mpr (parse_iff.mpr ⟨ws, hws, hfold⟩), hwords⟩

/-- A word that is an argument and stands for itself. -/
structure IsPlain (w : LuaString) : Prop extends IsBare w where
  no_switch : switchName w = none

theorem wordsOf_bare {w b : LuaString} {ws : List LuaString} (hw : IsBare w)
    (hb : ∀ c s, b = c :: s → isBlank c = true) (h : WordsOf (trimspace b) ws) :
    WordsOf (w ++ b) (w :: ws) := by
  have hfold : w.foldlM wordStep ArgParser.start = some ⟨w, false, none⟩ :=
    foldlM_bare hw.not_blank hw.not_quote []
  have hword : getWord (w ++ b) = .ok (w, w.length + 1) :=
    getWord_iff.mpr ⟨w, b, rfl, rfl, hfold, stops_of_blank hb⟩
  exact .cons (by simp [hw.ne_nil]) hword (by simpa using h)

theorem IsBare.trimspace {w : LuaString} (hw : IsBare w) (b : LuaString) :
    trimspace (w ++ b) = w ++ b := by
  obtain ⟨c, s, rfl⟩ := List.exists_cons_of_ne_nil hw.ne_nil
  simp [ArgParser.trimspace, hw.not_blank c (by simp)]

theorem wordsOf_line {path dst : LuaString} (hpath : IsBare path) (hdst : IsBare dst) :
    WordsOf (trimspace (path ++ 32 :: dst)) [path, dst] := by
  have hend : ∀ c s, [] = c :: s → isBlank c = true := fun c s h => by cases h
  have hlast := wordsOf_bare hdst hend .nil
  have hskip : trimspace (32 :: dst) = dst ++ [] := by
    rw [← hdst.trimspace [], List.append_nil]
    rfl
  rw [← hskip] at hlast
  rw [hpath.trimspace]
  refine wordsOf_bare hpath (fun c s h => ?_) hlast
  cases h
  decide

theorem plain_of_receives {others : LuaString → Option CmdParser} {path dst : LuaString}
    (h : Receives others path dst) : IsPlain path ∧ IsPlain dst := by
  obtain ⟨ws, args, hws, hfold, hwords⟩ := receives_iff_words.mp h
  have hfilter := foldlM_parseWord hfold
  rw [hwords, List.nil_append] at hfilter
  have hsub : [path, dst].Sublist ws := by
    rw [hfilter]
    exact List.filter_sublist
  obtain ⟨hcost, hbare⟩ := words_cost hws fun c t h => trimspace_head h
  have hshort := trimspace_length (path ++ 32 :: dst)
  rw [List.length_append, List.length_cons] at hshort
  have htotal : total [path, dst] ≤ total ws :=
    (hsub.map List.length).sum_le_sum fun _ _ => Nat.zero_le _
  have hcount : 2 ≤ ws.length := hsub.length_le
  have hsum : total [path, dst] = path.length + dst.length := by simp [total]
  -- the line has one character more than the two words, so there are no others
  obtain rfl : [path, dst] = ws := by
    apply hsub.eq_of_length
    simp only [List.length_cons, List.length_nil]
    omega
  have hall := hbare (by simp only [List.length_cons, List.length_nil] at *; omega)
  have hnone : ∀ w ∈ [path, dst], switchName w = none := by
    simpa using List.filter_eq_self.mp hfilter.symm
  exact ⟨⟨hall path (by simp), hnone path (by simp)⟩, hall dst (by simp), hnone dst (by simp)⟩

/-- The path and the destination are put into the line as they are. -/
theorem receives_iff (others : LuaString → Option CmdParser) (path dst : LuaString) :
    Receives others path dst ↔ IsPlain path ∧ IsPlain dst := by
  constructor
  · exact plain_of_receives
  · rintro ⟨hpath, hdst⟩
    have hnone : ∀ w ∈ [path, dst], switchName w = none := by
      simp [hpath.no_switch, hdst.no_switch]
    exact receives_iff_words.mpr ⟨[path, dst], _, wordsOf_line hpath.toIsBare hdst.toIsBare,
      foldlM_words hnone _, rfl⟩

/-- A destination with a space in it. -/
theorem not_receives : ¬∀ others path dst, Receives others path dst := by
  intro h
  obtain ⟨-, hdst⟩ :=
    plain_of_receives (h (fun _ => none) (bytes "A/DCIM/100CANON/IMG_0001.JPG".toList)
      (bytes "my dir/IMG_0001.JPG".toList))
  exact absurd (hdst.not_blank 32 (by decide)) (by decide)

end CliDownload
