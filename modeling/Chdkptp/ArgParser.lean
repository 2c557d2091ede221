import Chdkptp.Fuelled
import Chdkptp.LuaQuote
import Chdkptp.RemoteCapture

/-!
# Words of a command line

The parser of arguments of `cli.lua`. A word is read by a machine that goes through the
characters; outside of quotes a blank stops it.
-/

namespace ArgParser

open Fuelled LuaValue LuaText RemoteCapture

/-- `[%c%s]`. -/
def isBlank (c : UInt8) : Bool := isControl c || isSpace c

/-- `argparser:trimspace`. -/
def trimspace (str : LuaString) : LuaString := str.dropWhile isBlank

/-- The local variables of `argparser:get_word`. -/
structure WordState where
  result : LuaString
  esc : Bool
  qchar : Option UInt8
  deriving DecidableEq

def start : WordState := ⟨[], false, none⟩

/-- What is done with one character, none where the loop is left. -/
def wordStep (st : WordState) (c : UInt8) : Option WordState :=
  -- in escape, append next character unconditionally
  if st.esc then some { st with result := st.result ++ [c], esc := false }
  -- inside double quote, start escape and discard backslash
  else if st.qchar = some (byte '"') ∧ c = byte '\\' then some { st with esc := true }
  -- character is the current quote char, close quote and discard
  else if st.qchar = some c then some { st with qchar := none }
  -- hit a space and not inside a quote, end
  else if st.qchar = none ∧ isBlank c then none
  -- hit a quote and not inside a quote, enter quote and discard
  else if st.qchar = none ∧ (c = byte '"' ∨ c = byte '\'') then some { st with qchar := some c }
  -- anything else, copy
  else some { st with result := st.result ++ [c] }

/-- The loop of `argparser:get_word`, at a position. -/
def wordLoop (st : WordState) (pos : Nat) : LuaString → WordState × Nat
  | [] => (st, pos)
  | c :: s =>
    match wordStep st c with
    | none => (st, pos)
    | some st' => wordLoop st' (pos + 1) s

/-- `argparser:get_word`: the word and where it ends, or a message. -/
def getWord (str : LuaString) : Except LuaString (LuaString × Nat) :=
  let (st, pos) := wordLoop start 1 str
  if st.esc then .error (bytes "unexpected \\".toList)
  else
    match st.qchar with
    | some q => .error (bytes "unclosed ".toList ++ [q])
    | none => .ok (st.result, pos)

/-- One pass of the loop in `argparser:parse_words`. -/
def parsePass (s : List LuaString × LuaString) :
    Fuelled LuaError ((List LuaString × LuaString) ⊕ Except LuaString (List LuaString)) :=
  let (words, str) := s
  if str = [] then pure (.inr (.ok words))
  else
    match getWord str with
    | .error msg => pure (.inr (.error msg))
    | .ok (w, pos) => pure (.inl (words ++ [w], trimspace (str.drop (pos - 1))))

/-- `argparser:parse_words`. -/
def parseWords (str : LuaString) : Fuelled LuaError (Except LuaString (List LuaString)) :=
  repeatUntil parsePass ([], trimspace str)

/-! ## One word -/

def isQuote (c : UInt8) : Bool := c = byte '"' ∨ c = byte '\''

/-- Outside of quotes. -/
theorem wordStep_free (r : LuaString) (c : UInt8) :
    wordStep ⟨r, false, none⟩ c =
      if isBlank c then none
      else if isQuote c then some ⟨r, false, some c⟩
      else some ⟨r ++ [c], false, none⟩ := by
  simp [wordStep, isQuote]

theorem wordStep_free_none {r : LuaString} {c : UInt8} :
    wordStep ⟨r, false, none⟩ c = none ↔ isBlank c = true := by
  rw [wordStep_free]
  split
  · simp_all
  · split <;> simp_all

section Word

variable {st st' : WordState} {a b s w : LuaString} {pos : Nat}

/-- What follows the characters that a word is read from: nothing, or a character that
stops the machine. -/
def Stops (st : WordState) (b : LuaString) : Prop := ∀ c s, b = c :: s → wordStep st c = none

theorem wordLoop_append (h : a.foldlM wordStep st = some st') (hb : Stops st' b) (pos : Nat) :
    wordLoop st pos (a ++ b) = (st', pos + a.length) := by
  induction a generalizing st pos with
  | nil =>
    cases h
    cases b with
    | nil => rfl
    | cons c s => simp [wordLoop, hb c s rfl]
  | cons c a ih =>
    obtain ⟨t, ht, hrest⟩ := Option.bind_eq_some_iff.mp h
    rw [List.cons_append, wordLoop, ht]
    simp only [ih hrest, List.length_cons, Nat.add_assoc, Nat.add_comm 1]

theorem wordLoop_cases (st : WordState) (pos : Nat) (s : LuaString) :
    ∃ a b st', s = a ++ b ∧ a.foldlM wordStep st = some st' ∧ Stops st' b ∧
      wordLoop st pos s = (st', pos + a.length) := by
  induction s generalizing st pos with
  | nil => exact ⟨[], [], st, rfl, rfl, fun c s h => (List.cons_ne_nil c s h.symm).elim, rfl⟩
  | cons c s ih =>
    cases hc : wordStep st c with
    | none =>
      refine ⟨[], c :: s, st, rfl, rfl, fun c' s' h => ?_, by simp [wordLoop, hc]⟩
      cases h
      exact hc
    | some t =>
      obtain ⟨a, b, st', rfl, hfold, hstop, hloop⟩ := ih t (pos + 1)
      refine ⟨c :: a, b, st', rfl, ?_, hstop, ?_⟩
      · rw [List.foldlM_cons, hc]
        exact hfold
      · rw [wordLoop, hc]
        simp only [hloop, List.length_cons, Nat.add_assoc, Nat.add_comm 1]

/-- A word is read from some characters, with a stop behind them. -/
theorem getWord_iff :
    getWord s = .ok (w, pos) ↔ ∃ a b, s = a ++ b ∧ pos = a.length + 1 ∧
      a.foldlM wordStep start = some ⟨w, false, none⟩ ∧ Stops ⟨w, false, none⟩ b := by
  constructor
  · intro h
    obtain ⟨a, b, ⟨result, esc, qchar⟩, rfl, hfold, hstop, hloop⟩ := wordLoop_cases start 1 s
    simp only [getWord, hloop] at h
    cases esc with
    | true => cases h
    | false =>
      cases qchar with
      | some q => cases h
      | none =>
        cases h
        exact ⟨a, b, rfl, Nat.add_comm 1 _, hfold, hstop⟩
  · rintro ⟨a, b, rfl, rfl, hfold, hstop⟩
    simp [getWord, wordLoop_append hfold hstop, Nat.add_comm 1]

/-- The first character of a word is not a blank, so the machine goes on. -/
theorem getWord_pos {c : UInt8} (hc : isBlank c = false) (h : getWord (c :: s) = .ok (w, pos)) :
    1 < pos := by
  obtain ⟨a, b, hs, rfl, hfold, hstop⟩ := getWord_iff.mp h
  cases a with
  | cons d a => simp
  | nil =>
    cases hfold
    have hblank := wordStep_free_none.mp (hstop c s hs.symm)
    rw [hc] at hblank
    cases hblank

/-! ## All words -/

/-- The words of a string that does not begin with a blank. -/
inductive WordsOf : LuaString → List LuaString → Prop
  | nil : WordsOf [] []
  | cons {s w pos ws} : s ≠ [] → getWord s = .ok (w, pos) →
      WordsOf (trimspace (s.drop (pos - 1))) ws → WordsOf s (w :: ws)

theorem parsePass_nil (words : List LuaString) :
    (parsePass (words, [])).Yields (.inr (.ok words)) := by
  simp [parsePass]

theorem parsePass_word (words : List LuaString) (hs : s ≠ []) (h : getWord s = .ok (w, pos)) :
    (parsePass (words, s)).Yields (.inl (words ++ [w], trimspace (s.drop (pos - 1)))) := by
  simp [parsePass, hs, h]

theorem parsePass_error (words : List LuaString) {msg : LuaString} (hs : s ≠ [])
    (h : getWord s = .error msg) : (parsePass (words, s)).Yields (.inr (.error msg)) := by
  simp [parsePass, hs, h]

theorem WordsOf.parsed {ws : List LuaString} (h : WordsOf s ws) (words : List LuaString) :
    (repeatUntil parsePass (words, s)).Yields (.ok (words ++ ws)) := by
  induction h generalizing words with
  | nil =>
    rw [List.append_nil]
    exact yields_repeat_inr (parsePass_nil words)
  | @cons s w pos ws hs hw _ ih =>
    have hrest := ih (words ++ [w])
    rw [List.append_assoc] at hrest
    exact yields_repeat_inl (parsePass_word words hs hw) hrest

theorem trimspace_head {str : LuaString} {c : UInt8} (h : trimspace str = c :: s) :
    isBlank c = false := by
  have hhead := List.head?_dropWhile_not isBlank str
  rw [trimspace] at h
  rw [h] at hhead
  simpa using hhead

theorem trimspace_length (str : LuaString) : (trimspace str).length ≤ str.length :=
  (List.dropWhile_suffix isBlank).length_le

/-- Each pass reads at least one character. -/
theorem words_or_error (str : LuaString) (words : List LuaString) :
    (∃ ws, WordsOf (trimspace str) ws) ∨
      ∃ msg, (repeatUntil parsePass (words, trimspace str)).Yields (.error msg) := by
  induction hlen : str.length using Nat.strong_induction_on generalizing str words with
  | _ n ih =>
    cases hs : trimspace str with
    | nil => exact .inl ⟨[], .nil⟩
    | cons c s =>
      have hne : c :: s ≠ [] := List.cons_ne_nil c s
      cases hw : getWord (c :: s) with
      | error msg => exact .inr ⟨msg, yields_repeat_inr (parsePass_error words hne hw)⟩
      | ok r =>
        obtain ⟨w, pos⟩ := r
        have hpos : 1 < pos := getWord_pos (trimspace_head hs) hw
        have hshort : ((c :: s).drop (pos - 1)).length < n := by
          have htrim := trimspace_length str
          rw [hs] at htrim
          simp only [List.length_drop, List.length_cons] at htrim ⊢
          omega
        obtain ⟨ws, hws⟩ | ⟨msg, hmsg⟩ := ih _ hshort _ (words ++ [w]) rfl
        · exact .inl ⟨w :: ws, .cons hne hw hws⟩
        · exact .inr ⟨msg, yields_repeat_inl (parsePass_word words hne hw) hmsg⟩

theorem parseWords_yields (str : LuaString) : ∃ r, (parseWords str).Yields r := by
  obtain ⟨ws, hws⟩ | ⟨msg, hmsg⟩ := words_or_error str []
  · exact ⟨.ok ws, hws.parsed []⟩
  · exact ⟨.error msg, hmsg⟩

theorem parseWords_iff {str : LuaString} {ws : List LuaString} :
    (parseWords str).Yields (.ok ws) ↔ WordsOf (trimspace str) ws := by
  constructor
  · intro h
    obtain ⟨ws', hws⟩ | ⟨msg, hmsg⟩ := words_or_error str []
    · cases h.unique (hws.parsed [])
      exact hws
    · cases h.unique hmsg
  · exact fun h => h.parsed []

end Word

/-! ## Words in quotes -/

/-- What is between two words. -/
structure Gap where
  chars : LuaString
  ne_nil : chars ≠ []
  blank : ∀ c ∈ chars, isBlank c = true

/-- A character inside of double quotes. -/
def escapeChar (c : UInt8) : LuaString :=
  if c = byte '\\' ∨ c = byte '"' then [byte '\\', c] else [c]

def quoteWord (w : LuaString) : LuaString := byte '"' :: (w.flatMap escapeChar ++ [byte '"'])

def joinWords : List LuaString → (Nat → Gap) → LuaString
  | [], _ => []
  | [w], _ => quoteWord w
  | w :: ws, gaps => quoteWord w ++ ((gaps 0).chars ++ joinWords ws fun i => gaps (i + 1))

theorem foldlM_escapeChar (r : LuaString) (c : UInt8) :
    (escapeChar c).foldlM wordStep ⟨r, false, some (byte '"')⟩ =
      some ⟨r ++ [c], false, some (byte '"')⟩ := by
  by_cases hslash : c = byte '\\'
  · simp [escapeChar, wordStep, hslash]
  · by_cases hquote : c = byte '"'
    · simp [escapeChar, wordStep, hquote]
    · simp [escapeChar, wordStep, hslash, hquote, Ne.symm hquote]

theorem foldlM_escaped (w r : LuaString) :
    (w.flatMap escapeChar).foldlM wordStep ⟨r, false, some (byte '"')⟩ =
      some ⟨r ++ w, false, some (byte '"')⟩ := by
  induction w generalizing r with
  | nil => simp
  | cons c w ih =>
    rw [List.flatMap_cons, List.foldlM_append, foldlM_escapeChar]
    simpa using ih (r ++ [c])

theorem foldlM_quoteWord (w : LuaString) :
    (quoteWord w).foldlM wordStep start = some ⟨w, false, none⟩ := by
  have hopen : wordStep start (byte '"') = some ⟨[], false, some (byte '"')⟩ := by decide
  have hclose : wordStep ⟨w, false, some (byte '"')⟩ (byte '"') = some ⟨w, false, none⟩ := by
    have hne : byte '"' ≠ byte '\\' := by decide
    simp [wordStep, hne]
  rw [quoteWord, List.foldlM_cons, hopen]
  simp only [Option.bind_eq_bind, Option.bind_some, List.foldlM_append, foldlM_escaped,
    List.nil_append, List.foldlM_cons, hclose, List.foldlM_nil]
  rfl

theorem stops_of_blank {w b : LuaString} (h : ∀ c s, b = c :: s → isBlank c = true) :
    Stops ⟨w, false, none⟩ b := fun c s hb => wordStep_free_none.mpr (h c s hb)

theorem trimspace_quoteWord (w s : LuaString) : trimspace (quoteWord w ++ s) = quoteWord w ++ s := by
  have hquote : isBlank (byte '"') = false := by decide
  simp [trimspace, quoteWord, hquote]

theorem Gap.trimspace (g : Gap) (s : LuaString) : trimspace (g.chars ++ s) = trimspace s :=
  List.dropWhile_append_of_pos g.blank

theorem Gap.head (g : Gap) (s : LuaString) : ∀ c t, g.chars ++ s = c :: t → isBlank c = true := by
  obtain ⟨chars, hne, hblank⟩ := g
  intro c t h
  cases chars with
  | nil => exact absurd rfl hne
  | cons d chars =>
    obtain ⟨rfl, -⟩ := List.cons.inj h
    exact hblank d (by simp)

/-- A word in quotes in front of what follows it. -/
theorem wordsOf_quoteWord (w : LuaString) {b : LuaString} {ws : List LuaString}
    (hb : ∀ c s, b = c :: s → isBlank c = true) (h : WordsOf (trimspace b) ws) :
    WordsOf (trimspace (quoteWord w ++ b)) (w :: ws) := by
  have hword : getWord (quoteWord w ++ b) = .ok (w, (quoteWord w).length + 1) :=
    getWord_iff.mpr ⟨quoteWord w, b, rfl, rfl, foldlM_quoteWord w, stops_of_blank hb⟩
  rw [trimspace_quoteWord]
  refine .cons (by simp [quoteWord]) hword ?_
  simpa using h

theorem wordsOf_joinWords (words : List LuaString) (gaps : Nat → Gap) :
    WordsOf (trimspace (joinWords words gaps)) words := by
  induction words generalizing gaps with
  | nil => exact .nil
  | cons w ws ih =>
    cases ws with
    | nil =>
      have hend : ∀ c s, [] = c :: s → isBlank c = true := fun c s h => by cases h
      have hlast := wordsOf_quoteWord w hend .nil
      rwa [List.append_nil] at hlast
    | cons v ws =>
      refine wordsOf_quoteWord w ((gaps 0).head _) ?_
      rw [Gap.trimspace]
      exact ih fun i => gaps (i + 1)

/-- Words in quotes are read back, and every string is read to its end. -/
theorem parse_words_inverts :
    (∀ words gaps, (parseWords (joinWords words gaps)).Yields (.ok words)) ∧
      ∀ str, ∃ r, (parseWords str).Yields r :=
  ⟨fun words gaps => parseWords_iff.mpr (wordsOf_joinWords words gaps), parseWords_yields⟩

end ArgParser
