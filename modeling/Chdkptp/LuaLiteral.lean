import Chdkptp.LuaQuote

/-!
# String literals of Lua 5.1

How the lexer of the camera reads a string between quotes. A backslash escapes a letter, up to
three digits or a line break; any other character behind it stands for itself.
-/

namespace LuaLiteral

open LuaValue LuaText

/-! ## The reader -/

/-- Where the reader is within a literal. -/
inductive Part where
  | plain
  /-- Behind a backslash. -/
  | esc
  /-- Within a decimal escape of so many digits. -/
  | dec (n count : Nat)
  /-- Behind an escaped line break that began with `c`. -/
  | newline (c : UInt8)
  deriving DecidableEq

/-- What a character adds to the string and where the reader is then; the quote ends it. -/
def inPlain (q c : UInt8) : Option (LuaString × Option Part) :=
  if c = q then some ([], none)
  else if c = byte '\\' then some ([], some .esc)
  else if isNewline c then none
  else some ([c], some .plain)

def step (q : UInt8) : Part → UInt8 → Option (LuaString × Option Part)
  | .plain, c => inPlain q c
  | .esc, c =>
    if isNewline c then some ([10], some (.newline c))
    else if isDigit c then some ([], some (.dec (c.toNat - 48) 1))
    else some ([(escape c).getD c], some .plain)
  | .dec n count, c =>
    if isDigit c ∧ count < 3 then some ([], some (.dec (10 * n + (c.toNat - 48)) (count + 1)))
    else if n ≤ 255 then (inPlain q c).map fun r => (n.toUInt8 :: r.1, r.2)
    else none
  -- a line break of two characters counts as one
  | .newline c, c' => if isNewline c' ∧ c' ≠ c then some ([], some .plain) else inPlain q c'

/-- The string up to the closing quote, and the text behind it. -/
def readString (q : UInt8) : Part → LuaString → Option (LuaString × LuaString)
  | _, [] => none
  | p, c :: s =>
    match step q p c with
    | none => none
    | some (out, none) => some (out, s)
    | some (out, some p') => (readString q p' s).map fun r => (out ++ r.1, r.2)

/-- Reading a text in which the literal does not end. -/
def pass (q : UInt8) : Part → LuaString → Option (LuaString × Part)
  | p, [] => some ([], p)
  | p, c :: s =>
    match step q p c with
    | some (out, some p') => (pass q p' s).map fun r => (out ++ r.1, r.2)
    | _ => none

example : readString (byte '\'') .plain (bytes "a\\66\\'c', x".toList) =
    some (bytes "aB'c".toList, bytes ", x".toList) := by decide +kernel

section Reader

variable {q : UInt8} {p p' : Part} {s t out content rest : LuaString}

theorem readString_pass (h : pass q p s = some (out, p')) :
    readString q p (s ++ t) = (readString q p' t).map fun r => (out ++ r.1, r.2) := by
  induction s generalizing p out with
  | nil =>
    cases h
    rw [List.nil_append]
    cases readString q p' t <;> rfl
  | cons c s ih =>
    rw [pass] at h
    split at h
    · next o p1 hstep =>
      obtain ⟨⟨o', p2⟩, hpass, heq⟩ := Option.map_eq_some_iff.mp h
      cases heq
      rw [List.cons_append, readString, hstep]
      simp only [ih hpass, Option.map_map]
      congr 1
      funext r
      simp
    · cases h

/-- A literal that ends is either passed or ends within the text. -/
theorem readString_append (h : readString q p (s ++ t) = some (content, rest)) :
    (∃ o p', pass q p s = some (o, p')) ∨
      ∃ rest', readString q p s = some (content, rest') ∧ rest = rest' ++ t := by
  induction s generalizing p content with
  | nil => exact Or.inl ⟨[], p, rfl⟩
  | cons c s ih =>
    rw [List.cons_append, readString] at h
    split at h
    · cases h
    · next o hstep =>
      cases h
      right
      refine ⟨s, ?_, rfl⟩
      rw [readString, hstep]
    · next o p1 hstep =>
      obtain ⟨⟨content', rest1⟩, hread, heq⟩ := Option.map_eq_some_iff.mp h
      cases heq
      obtain ⟨o', p2, hpass⟩ | ⟨rest', hread', rfl⟩ := ih hread
      · left
        refine ⟨o ++ o', p2, ?_⟩
        rw [pass, hstep]
        simp only [hpass, Option.map_some]
      · right
        refine ⟨rest', ?_, rfl⟩
        rw [readString, hstep]
        simp only [hread', Option.map_some]

/-- How many characters are added without another being read. -/
def pending : Part → Nat
  | .dec _ _ => 1
  | _ => 0

theorem length_inPlain {c : UInt8} {r : Option Part} (h : inPlain q c = some (out, r)) :
    out.length + (r.elim 1 pending) ≤ 1 := by
  rw [inPlain] at h
  split at h
  · cases h
    exact Nat.le_refl _
  · split at h
    · cases h
      exact Nat.zero_le _
    · split at h
      · cases h
      · cases h
        exact Nat.le_refl _

/-- A character read adds at most one; the closing quote counts as one. -/
theorem length_step {c : UInt8} {r : Option Part} (h : step q p c = some (out, r)) :
    out.length + (r.elim 1 pending) ≤ 1 + pending p := by
  cases p with
  | plain => exact length_inPlain h
  | esc =>
    rw [step] at h
    split at h
    · cases h
      exact Nat.le_refl _
    · split at h
      · cases h
        exact Nat.le_refl _
      · cases h
        exact Nat.le_refl _
  | dec n count =>
    rw [step] at h
    split at h
    · cases h
      exact Nat.le_succ _
    · split at h
      · obtain ⟨⟨o, r'⟩, hplain, heq⟩ := Option.map_eq_some_iff.mp h
        cases heq
        have hle := length_inPlain hplain
        simp only [List.length_cons, pending]
        omega
      · cases h
  | newline c0 =>
    rw [step] at h
    split at h
    · cases h
      exact Nat.zero_le _
    · exact length_inPlain h

theorem length_readString (h : readString q p s = some (content, rest)) :
    content.length + 1 + rest.length ≤ s.length + pending p := by
  induction s generalizing p content with
  | nil => cases h
  | cons c s ih =>
    rw [readString] at h
    split at h
    · cases h
    · next o hstep =>
      cases h
      have hle := length_step hstep
      simp only [Option.elim] at hle
      rw [List.length_cons]
      omega
    · next o p1 hstep =>
      obtain ⟨⟨content', rest1⟩, hread, heq⟩ := Option.map_eq_some_iff.mp h
      cases heq
      have hle := length_step hstep
      have hrest : content'.length + 1 + rest1.length ≤ s.length + pending p1 := ih hread
      simp only [Option.elim] at hle
      simp only [List.length_append, List.length_cons]
      omega

theorem length_pass (h : pass q p s = some (out, p')) :
    out.length + pending p' ≤ s.length + pending p := by
  induction s generalizing p out with
  | nil =>
    cases h
    exact Nat.le_refl _
  | cons c s ih =>
    rw [pass] at h
    split at h
    · next o p1 hstep =>
      obtain ⟨⟨o', p2⟩, hpass, heq⟩ := Option.map_eq_some_iff.mp h
      cases heq
      have hle := length_step hstep
      have hrest : o'.length + pending p2 ≤ s.length + pending p1 := ih hpass
      simp only [Option.elim] at hle
      simp only [List.length_append, List.length_cons]
      omega
    · cases h

end Reader

/-! ## Strings that stand for themselves -/

/-- Nothing of the string is special between these quotes. -/
def Plain (q : UInt8) (s : LuaString) : Prop :=
  ∀ c ∈ s, c ≠ q ∧ c ≠ byte '\\' ∧ isNewline c = false

instance (q : UInt8) (s : LuaString) : Decidable (Plain q s) :=
  inferInstanceAs (Decidable (∀ c ∈ s, _))

section Plain

variable {q : UInt8} {p : Part} {s t u v out content rest : LuaString}

theorem pass_plain (h : Plain q s) : pass q .plain s = some (s, .plain) := by
  induction s with
  | nil => rfl
  | cons c s ih =>
    obtain ⟨⟨hq, hesc, hline⟩, hs⟩ := List.forall_mem_cons.mp h
    have hstep : step q .plain c = some ([c], some .plain) := by
      rw [step, inPlain, if_neg hq, if_neg hesc, if_neg (by simpa using hline)]
    rw [pass, hstep]
    simp only [ih hs, Option.map_some, List.singleton_append]

theorem readString_plain (h : Plain q s) :
    readString q .plain (s ++ q :: rest) = some (s, rest) := by
  have hclose : readString q .plain (q :: rest) = some ([], rest) := by
    simp [readString, step, inPlain]
  rw [readString_pass (pass_plain h), hclose, Option.map_some, List.append_nil]

theorem pass_append (h : pass q p (s ++ t) = some (out, p')) :
    ∃ o p1 o', pass q p s = some (o, p1) ∧ pass q p1 t = some (o', p') ∧ out = o ++ o' := by
  induction s generalizing p out with
  | nil => exact ⟨[], p, out, rfl, h, rfl⟩
  | cons c s ih =>
    rw [List.cons_append, pass] at h
    split at h
    · next o p1 hstep =>
      obtain ⟨⟨o', p2⟩, hpass, heq⟩ := Option.map_eq_some_iff.mp h
      cases heq
      obtain ⟨a, p3, b, ha, hb, rfl⟩ := ih hpass
      refine ⟨o ++ a, p3, b, ?_, hb, (List.append_assoc _ _ _).symm⟩
      rw [pass, hstep]
      simp only [ha, Option.map_some]
    · cases h

/-- A string that is not plain has a first character that is special. -/
theorem exists_special (h : ¬Plain q s) : ∃ u c v, s = u ++ c :: v ∧ Plain q u ∧
    (c = q ∨ c = byte '\\' ∨ isNewline c = true) := by
  induction s with
  | nil => exact absurd (fun c hc => by cases hc) h
  | cons c s ih =>
    by_cases hc : c ≠ q ∧ c ≠ byte '\\' ∧ isNewline c = false
    · have hs : ¬Plain q s := fun hs => h (List.forall_mem_cons.mpr ⟨hc, hs⟩)
      obtain ⟨u, d, v, rfl, hu, hd⟩ := ih hs
      exact ⟨c :: u, d, v, rfl, List.forall_mem_cons.mpr ⟨hc, hu⟩, hd⟩
    · refine ⟨[], c, s, rfl, by simp [Plain], ?_⟩
      by_contra hnone
      push_neg at hnone
      exact hc ⟨hnone.1, hnone.2.1, by simpa using hnone.2.2⟩

/-- What is passed of a string that is not plain is shorter than it. -/
theorem pass_short (hq : q ≠ byte '\\') (h : pass q .plain s = some (out, p))
    (hplain : ¬Plain q s) : out.length + pending p < s.length := by
  obtain ⟨u, c, v, rfl, hu, hc⟩ := exists_special hplain
  obtain ⟨o, p1, o', ho, ho', rfl⟩ := pass_append h
  rw [pass_plain hu] at ho
  cases ho
  rw [pass, step, inPlain] at ho'
  by_cases hcq : c = q
  · rw [if_pos hcq] at ho'
    cases ho'
  · rw [if_neg hcq] at ho'
    by_cases hesc : c = byte '\\'
    · rw [if_pos hesc] at ho'
      obtain ⟨⟨a, p2⟩, ha, heq⟩ := Option.map_eq_some_iff.mp ho'
      cases heq
      have hle : a.length + pending p2 ≤ v.length + 0 := length_pass ha
      simp only [List.length_append, List.length_cons, List.nil_append]
      omega
    · obtain hc | hc | hline := hc
      · exact absurd hc hcq
      · exact absurd hc hesc
      · rw [if_neg hesc, if_pos hline] at ho'
        cases ho'

def IsQuote (q : UInt8) : Prop := q = byte '"' ∨ q = byte '\''

theorem IsQuote.ne_escape (h : IsQuote q) : q ≠ byte '\\' := by
  obtain rfl | rfl := h <;> decide

theorem IsQuote.step_esc (h : IsQuote q) : step q .esc q = some ([q], some .plain) := by
  obtain rfl | rfl := h <;> decide

/-- A quote that is not escaped ends the string. -/
theorem IsQuote.step_ends (h : IsQuote q) (hp : p ≠ .esc) {r : LuaString × Option Part}
    (hstep : step q p q = some r) : r.2 = none ∧ r.1.length = pending p := by
  have hdigit : isDigit q = false := by obtain rfl | rfl := h <;> decide
  have hline : isNewline q = false := by obtain rfl | rfl := h <;> decide
  have hclose : inPlain q q = some ([], none) := if_pos rfl
  cases p with
  | plain =>
    rw [step, hclose] at hstep
    cases hstep
    exact ⟨rfl, rfl⟩
  | esc => exact absurd rfl hp
  | dec n count =>
    rw [step, if_neg (by simp [hdigit]), hclose] at hstep
    split at hstep
    · cases hstep
      exact ⟨rfl, rfl⟩
    · cases hstep
  | newline c =>
    rw [step, if_neg (by simp [hline]), hclose] at hstep
    cases hstep
    exact ⟨rfl, rfl⟩

/-- A string that ends in a backslash cannot be followed by a quote in what it is read as: there
the quote would stand behind a backslash too, and so on, each time in a shorter string. -/
theorem not_escaped_quote (hq : IsQuote q) (h : pass q .plain s = some (out, .esc)) :
    s ≠ out ++ q :: t := by
  induction hn : s.length using Nat.strong_induction_on generalizing s out t with
  | _ n ih =>
    rintro rfl
    obtain ⟨o, p, o', ho, ho', hout⟩ := pass_append h
    rw [pass] at ho'
    split at ho'
    · next e p2 hstep =>
      by_cases hp : p = .esc
      · subst hp
        rw [hq.step_esc] at hstep
        cases hstep
        obtain ⟨⟨a, p3⟩, -, heq⟩ := Option.map_eq_some_iff.mp ho'
        cases heq
        have hlen : out.length < n := by
          rw [← hn, List.length_append, List.length_cons]
          omega
        exact ih out.length hlen ho rfl hout
      · cases (hq.step_ends hp hstep).1
    · cases ho'

/-- Only a plain string is read back from between quotes, whatever stands behind. -/
theorem plain_of_readString (hq : IsQuote q) {rest' : LuaString}
    (h : readString q .plain (s ++ q :: rest) = some (s, rest')) : Plain q s := by
  by_contra hplain
  obtain ⟨o, p, hpass⟩ | ⟨rest1, hread, -⟩ := readString_append h
  · rw [readString_pass hpass] at h
    obtain ⟨⟨content, rest1⟩, hread, heq⟩ := Option.map_eq_some_iff.mp h
    simp only [Prod.mk.injEq] at heq
    have hshort := pass_short hq.ne_escape hpass hplain
    by_cases hp : p = .esc
    · subst hp
      rw [readString, hq.step_esc] at hread
      obtain ⟨⟨c, r⟩, -, heq'⟩ := Option.map_eq_some_iff.mp hread
      cases heq'
      exact not_escaped_quote hq hpass heq.1.symm
    · rw [readString] at hread
      split at hread
      · cases hread
      · next e hstep =>
        have hlen : e.length = pending p := (hq.step_ends hp hstep).2
        cases hread
        have htotal := congrArg List.length heq.1
        rw [List.length_append] at htotal
        omega
      · next e p2 hstep => cases (hq.step_ends hp hstep).1
  · have hle : s.length + 1 + rest1.length ≤ s.length + 0 := length_readString hread
    omega

end Plain

/-! ## Strings written by `%q` -/

/-- What has been read of a string, and where the reader is. -/
def partOf : Mode → Option (LuaString × Part)
  | .str s => some (s, .plain)
  | .esc s => some (s, .esc)
  | .dec s n count => some (s, .dec n count)
  | .newline s c => some (s, .newline c)
  | _ => none

/-- The string that is read to the end. -/
def finish (m : Mode) (text : LuaString) : Option (LuaString × LuaString) :=
  (partOf m).bind fun r => (readString (byte '"') r.2 text).map fun r' => (r.1 ++ r'.1, r'.2)

section Written

variable {m m' : Mode} {s s' t text : LuaString} {p : Part} {c : UInt8} {ts : List Token}

/-- What a character does in both readers. -/
inductive Agrees (m : Mode) (c : UInt8) : List Token → Mode → Prop where
  | reads {m' : Mode} (hpart : (partOf m').isSome)
      (h : ∀ text, finish m (c :: text) = finish m' text) : Agrees m c [] m'
  | ends {s : LuaString} (h : ∀ text, finish m (c :: text) = some (s, text)) :
      Agrees m c [.str s] .idle

theorem agrees_reads {out : LuaString} {p' : Part} (hm : partOf m = some (s, p))
    (hstep : step (byte '"') p c = some (out, some p')) (hm' : partOf m' = some (s ++ out, p')) :
    Agrees m c [] m' := by
  apply Agrees.reads
  · rw [hm']
    rfl
  · intro text
    simp only [finish, hm, hm', Option.bind_some, readString, hstep, Option.map_map]
    congr 1
    funext r
    simp

theorem agrees_ends {out : LuaString} (hm : partOf m = some (s, p))
    (hstep : step (byte '"') p c = some (out, none)) : Agrees m c [.str (s ++ out)] .idle := by
  apply Agrees.ends
  intro text
  simp only [finish, hm, Option.bind_some, readString, hstep, Option.map_some]

theorem agrees_inString {out : LuaString} (hm : partOf m = some (s, p))
    (hstep : step (byte '"') p c = (inPlain (byte '"') c).map fun r => (out ++ r.1, r.2))
    (h : inString (s ++ out) c = some (ts, m')) : Agrees m c ts m' := by
  rw [inString] at h
  rw [inPlain] at hstep
  by_cases hquote : c = byte '"'
  · rw [if_pos hquote] at h hstep
    cases h
    have hends := agrees_ends hm hstep
    rwa [List.append_nil] at hends
  · rw [if_neg hquote] at h hstep
    by_cases hesc : c = byte '\\'
    · rw [if_pos hesc] at h hstep
      cases h
      exact agrees_reads hm hstep (by rw [List.append_nil]; rfl)
    · rw [if_neg hesc] at h hstep
      by_cases hline : isNewline c = true
      · rw [if_pos hline] at h
        cases h
      · rw [if_neg hline] at h hstep
        cases h
        exact agrees_reads hm hstep (by rw [← List.append_assoc]; rfl)

/-- The two readers agree on a string, where the stricter one takes it. -/
theorem agrees_next (hm : (partOf m).isSome) (h : next m c = some (ts, m')) :
    Agrees m c ts m' := by
  have hsame : ∀ (r : Option (LuaString × Option Part)),
      r = r.map fun r => ([] ++ r.1, r.2) := by
    intro r
    cases r <;> rfl
  cases m with
  | idle => cases hm
  | word w => cases hm
  | str s =>
    refine agrees_inString (s := s) rfl (hsame _) ?_
    rwa [List.append_nil]
  | esc s =>
    rw [next] at h
    by_cases hline : isNewline c = true
    · rw [if_pos hline] at h
      cases h
      exact agrees_reads (s := s) rfl (if_pos hline) rfl
    · rw [if_neg hline] at h
      by_cases hdigit : isDigit c = true
      · rw [if_pos hdigit] at h
        cases h
        have hstep : step (byte '"') .esc c = some ([], some (.dec (c.toNat - 48) 1)) := by
          rw [step, if_neg hline, if_pos hdigit]
        exact agrees_reads (s := s) rfl hstep (by rw [List.append_nil]; rfl)
      · rw [if_neg hdigit] at h
        obtain ⟨e, he, heq⟩ := Option.map_eq_some_iff.mp h
        cases heq
        have hstep : step (byte '"') .esc c = some ([e], some .plain) := by
          rw [step, if_neg hline, if_neg hdigit, he]
          rfl
        exact agrees_reads (s := s) rfl hstep rfl
  | dec s n count =>
    rw [next] at h
    by_cases hdigit : isDigit c = true ∧ count < 3
    · rw [if_pos hdigit] at h
      cases h
      exact agrees_reads (s := s) rfl (if_pos hdigit) (by rw [List.append_nil]; rfl)
    · rw [if_neg hdigit] at h
      split at h
      · next hle =>
        have hstep : step (byte '"') (.dec n count) c =
            (inPlain (byte '"') c).map fun r => ([n.toUInt8] ++ r.1, r.2) := by
          rw [step, if_neg hdigit, if_pos hle]
          rfl
        exact agrees_inString rfl hstep h
      · cases h
  | newline s c0 =>
    rw [next] at h
    by_cases hpair : isNewline c = true ∧ c ≠ c0
    · rw [if_pos hpair] at h
      cases h
      exact agrees_reads (s := s) rfl (if_pos hpair) (by rw [List.append_nil]; rfl)
    · rw [if_neg hpair] at h
      refine agrees_inString (s := s) rfl ((if_neg hpair).trans (hsame _)) ?_
      rwa [List.append_nil]

theorem finish_scan {w : LuaString} (hm : (partOf m).isSome) (h : scan m w = some ([], m')) :
    (partOf m').isSome ∧ ∀ text, finish m (w ++ text) = finish m' text := by
  induction w generalizing m with
  | nil =>
    cases h
    exact ⟨hm, fun text => rfl⟩
  | cons c w ih =>
    rw [scan] at h
    obtain ⟨⟨ts, m1⟩, hnext, hscan⟩ := Option.bind_eq_some_iff.mp h
    obtain ⟨⟨ts', m2⟩, hscan', heq⟩ := Option.map_eq_some_iff.mp hscan
    simp only [Prod.mk.injEq, List.append_eq_nil_iff] at heq
    obtain ⟨⟨rfl, rfl⟩, rfl⟩ := heq
    cases agrees_next hm hnext with
    | reads hpart hsame =>
      obtain ⟨hpart', hrest⟩ := ih hpart hscan'
      exact ⟨hpart', fun text => (hsame (w ++ text)).trans (hrest text)⟩

theorem finish_congr (hm : (partOf m).isSome) (hm' : (partOf m').isSome) {r : List Token × Mode}
    (h : next m c = some r) (h' : next m' c = some r) (text : LuaString) :
    finish m (c :: text) = finish m' (c :: text) := by
  obtain ⟨ts, m1⟩ := r
  cases agrees_next hm h with
  | reads hpart hsame =>
    cases agrees_next hm' h' with
    | reads hpart' hsame' => rw [hsame, hsame']
  | ends hsame =>
    cases agrees_next hm' h' with
    | ends hsame' => rw [hsame, hsame']

/-- The induction is on what is left of the string, as for the lexer of the host. -/
theorem finish_quoteTail {esc : UInt8 → Option UInt8 → LuaString} (hesc : Escapes esc)
    (cs : LuaString) (hm : (partOf m).isSome)
    (hfollow : ∀ d, Follows cs.head? d → next m d = inString s d) (text : LuaString) :
    finish m (quoteTail esc cs ++ text) = some (s ++ cs, text) := by
  induction cs generalizing s m with
  | nil =>
    have hquote : next m (byte '"') = some ([.str s], .idle) := hfollow (byte '"') (Or.inl rfl)
    cases agrees_next hm hquote with
    | ends hends =>
      rw [List.append_nil]
      exact hends text
  | cons c cs ih =>
    obtain ⟨m', hreads, hm'⟩ := hesc.reads s c cs.head?
    obtain ⟨d, rest, heq, hd⟩ := hesc.head c cs.head?
    have hfollows : Follows (c :: cs).head? d := by
      obtain hd | ⟨rfl, hd⟩ := hd
      · exact Or.inr (Or.inl hd)
      · exact Or.inr (Or.inr ⟨rfl, hd⟩)
    obtain ⟨hpart', hrest⟩ := finish_scan (m := .str s) rfl hreads
    have hscan := hreads
    rw [heq, scan] at hscan
    obtain ⟨r, hnext, -⟩ := Option.bind_eq_some_iff.mp hscan
    have hfirst : ∀ u, finish m (d :: u) = finish (.str s) (d :: u) :=
      finish_congr hm rfl ((hfollow d hfollows).trans hnext) hnext
    have hstring : finish m (esc c cs.head? ++ (quoteTail esc cs ++ text)) =
        finish (.str s) (esc c cs.head? ++ (quoteTail esc cs ++ text)) := by
      rw [heq]
      exact hfirst _
    rw [quoteTail, List.append_assoc, hstring, hrest, ih hpart' hm', List.append_assoc]
    rfl

/-- A string that `%q` wrote is read back. -/
theorem readString_quoteTail {esc : UInt8 → Option UInt8 → LuaString} (hesc : Escapes esc)
    (cs text : LuaString) :
    readString (byte '"') .plain (quoteTail esc cs ++ text) = some (cs, text) := by
  have h := finish_quoteTail (m := .str []) hesc cs rfl (fun _ _ => rfl) text
  simp only [finish, partOf, Option.bind_some, List.nil_append] at h
  obtain ⟨r, hr, heq⟩ := Option.map_eq_some_iff.mp h
  cases heq
  exact hr

end Written

end LuaLiteral
