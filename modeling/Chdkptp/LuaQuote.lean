import Chdkptp.LuaText

/-!
# Quoted strings

`string.format` with `%q` writes a string so that the lexer reads it back. The two
versions of Lua escape different characters; for both a character is written in a
way that may depend on the next one.
-/

namespace LuaText

open LuaValue

/-- A string in quotes; how a character is written may depend on the next one. -/
def quoteTail (esc : UInt8 → Option UInt8 → LuaString) : LuaString → LuaString
  | [] => [byte '"']
  | c :: cs => esc c cs.head? ++ quoteTail esc cs

def quote (esc : UInt8 → Option UInt8 → LuaString) (s : LuaString) : LuaString :=
  byte '"' :: quoteTail esc s

/-- The characters that may stand behind a written one when `nx` is the next one of
the string. -/
def Follows (nx : Option UInt8) (d : UInt8) : Prop :=
  d = byte '"' ∨ d = byte '\\' ∨ nx = some d ∧ isNewline d = false

structure Escapes (esc : UInt8 → Option UInt8 → LuaString) : Prop where
  head : ∀ c nx, ∃ d rest, esc c nx = d :: rest ∧
    (d = byte '\\' ∨ d = c ∧ isNewline d = false)
  reads : ∀ s c nx, ∃ m, scan (.str s) (esc c nx) = some ([], m) ∧
    ∀ d, Follows nx d → next m d = inString (s ++ [c]) d

theorem Escapes.follows {esc : UInt8 → Option UInt8 → LuaString} (hesc : Escapes esc)
    (cs : LuaString) : ∃ d rest, quoteTail esc cs = d :: rest ∧ Follows cs.head? d := by
  cases cs with
  | nil => exact ⟨byte '"', [], rfl, Or.inl rfl⟩
  | cons c cs =>
    obtain ⟨d, rest, heq, hd⟩ := hesc.head c cs.head?
    refine ⟨d, rest ++ quoteTail esc cs, by simp [quoteTail, heq], ?_⟩
    rcases hd with hd | ⟨rfl, hd⟩
    · exact Or.inr (Or.inl hd)
    · exact Or.inr (Or.inr ⟨rfl, hd⟩)

/-- The induction is on what is left of the string; the mode need not be that of a
string, but it must take the next character as one. -/
theorem Escapes.scan_tail {esc : UInt8 → Option UInt8 → LuaString} (hesc : Escapes esc)
    (cs s : LuaString) (m : Mode) (hm : ∀ d, Follows cs.head? d → next m d = inString s d) :
    scan m (quoteTail esc cs) = some ([.str (s ++ cs)], .idle) := by
  induction cs generalizing s m with
  | nil =>
    have hquote : next m (byte '"') = some ([.str s], .idle) := hm (byte '"') (Or.inl rfl)
    simp [quoteTail, scan, hquote]
  | cons c cs ih =>
    obtain ⟨m', hreads, hm'⟩ := hesc.reads s c cs.head?
    obtain ⟨d, rest, heq, hd⟩ := hesc.head c cs.head?
    have hfollows : Follows (c :: cs).head? d := by
      rcases hd with hd | ⟨rfl, hd⟩
      · exact Or.inr (Or.inl hd)
      · exact Or.inr (Or.inr ⟨rfl, hd⟩)
    have hsame : scan m (esc c cs.head?) = scan (.str s) (esc c cs.head?) := by
      rw [heq, scan, scan, hm d hfollows]
      rfl
    rw [quoteTail, scan_append, hsame, hreads]
    simp [ih (s ++ [c]) m' hm']

theorem Escapes.closed {esc : UInt8 → Option UInt8 → LuaString} (hesc : Escapes esc)
    (s : LuaString) : Closed (quote esc s) [.str s] := by
  have htail := hesc.scan_tail s [] (.str []) fun d _ => rfl
  have hstart : start (byte '"') = some ([], .str []) := by decide
  simp [Closed, quote, scan, next, hstart, htail]

def isControl (c : UInt8) : Bool := c < 32 ∨ c = 127

def pad3 (w : LuaString) : LuaString := List.replicate (3 - w.length) (byte '0') ++ w

/-- `%q` of Lua 5.2. -/
def escape52 (c : UInt8) (nx : Option UInt8) : LuaString :=
  if c = byte '"' ∨ c = byte '\\' ∨ c = byte '\n' then [byte '\\', c]
  else if isControl c then
    byte '\\' ::
      if (nx.map isDigit).getD false then pad3 (numeralText 10 c.toNat)
      else numeralText 10 c.toNat
  else [c]

/-- `%q` of Lua 5.1. -/
def escape51 (c : UInt8) (_ : Option UInt8) : LuaString :=
  if c = byte '"' ∨ c = byte '\\' ∨ c = byte '\n' then [byte '\\', c]
  else if c = byte '\r' then [byte '\\', byte 'r']
  else if c = 0 then [byte '\\', byte '0', byte '0', byte '0']
  else [c]

/-- The value of digits behind others. -/
def decValue (n : Nat) (w : LuaString) : Nat := w.foldl (fun n c => 10 * n + (c.toNat - 48)) n

theorem scan_dec (s w : LuaString) (n count : Nat) (hw : ∀ c ∈ w, isDigit c = true)
    (hcount : count + w.length ≤ 3) :
    scan (.dec s n count) w = some ([], .dec s (decValue n w) (count + w.length)) := by
  induction w generalizing n count with
  | nil => rfl
  | cons c w ih =>
    rw [List.length_cons] at hcount
    have hc : isDigit c = true := hw c List.mem_cons_self
    have hlt : count < 3 := by omega
    have hrest := ih (10 * n + (c.toNat - 48)) (count + 1)
      (fun d hd => hw d (List.mem_cons_of_mem c hd)) (by omega)
    simp [scan, next, hc, hlt, hrest, decValue]
    omega

/-- The digits of an escape are read to the end, if there are three or another
character follows. -/
theorem reads_decimal (s w : LuaString) (c : UInt8) (nx : Option UInt8) (hne : w ≠ [])
    (hw : ∀ c ∈ w, isDigit c = true) (hlen : w.length ≤ 3) (hval : decValue 0 w = c.toNat)
    (hnx : w.length = 3 ∨ (nx.map isDigit).getD false = false) :
    ∃ m, scan (.str s) (byte '\\' :: w) = some ([], m) ∧
      ∀ d, Follows nx d → next m d = inString (s ++ [c]) d := by
  obtain ⟨a, w, rfl⟩ := List.exists_cons_of_ne_nil hne
  have ha : isDigit a = true := hw a List.mem_cons_self
  have hbreak : isNewline a = false := by
    simp only [isDigit, decide_eq_true_eq, UInt8.le_iff_toNat_le, UInt8.reduceToNat] at ha
    simp only [isNewline, decide_eq_false_iff_not, ← UInt8.toNat_inj, UInt8.reduceToNat]
    omega
  have hesc : next (.str s) (byte '\\') = some ([], .esc s) := by rfl
  have hfirst : next (.esc s) a = some ([], .dec s (a.toNat - 48) 1) := by
    simp [next, hbreak, ha]
  have hdec := scan_dec s w (a.toNat - 48) 1 (fun d hd => hw d (List.mem_cons_of_mem a hd))
    (by rw [List.length_cons] at hlen; omega)
  have hvalue : decValue (a.toNat - 48) w = c.toNat := by simpa [decValue] using hval
  refine ⟨.dec s c.toNat (1 + w.length), ?_, ?_⟩
  · rw [← hvalue]
    simp [scan, hesc, hfirst, hdec]
  · intro d hd
    have hdigit : ¬(isDigit d = true ∧ 1 + w.length < 3) := by
      rintro ⟨hdd, hlt⟩
      rcases hnx with hnx | hnx
      · rw [List.length_cons] at hnx
        omega
      · rcases hd with rfl | rfl | ⟨rfl, -⟩
        · cases hdd
        · cases hdd
        · simp [hdd] at hnx
    have hle : c.toNat ≤ 255 := by have := c.toNat_lt; omega
    simp [next, hdigit, hle]

/-- A backslash and the character, which is a quote, a backslash or a line break. -/
theorem reads_backslash (s : LuaString) (c : UInt8) (nx : Option UInt8)
    (hc : c = byte '"' ∨ c = byte '\\' ∨ c = byte '\n') :
    ∃ m, scan (.str s) [byte '\\', c] = some ([], m) ∧
      ∀ d, Follows nx d → next m d = inString (s ++ [c]) d := by
  rcases hc with rfl | rfl | rfl
  · exact ⟨.str (s ++ [byte '"']), rfl, fun d _ => rfl⟩
  · exact ⟨.str (s ++ [byte '\\']), rfl, fun d _ => rfl⟩
  · refine ⟨.newline (s ++ [10]) 10, rfl, fun d hd => ?_⟩
    have hbreak : isNewline d = false := by
      rcases hd with rfl | rfl | ⟨-, hd⟩
      · rfl
      · rfl
      · exact hd
    simp [next, hbreak, byte]

theorem reads_plain (s : LuaString) (c : UInt8) (nx : Option UInt8) (hquote : c ≠ byte '"')
    (hslash : c ≠ byte '\\') (hbreak : isNewline c = false) :
    ∃ m, scan (.str s) [c] = some ([], m) ∧
      ∀ d, Follows nx d → next m d = inString (s ++ [c]) d := by
  refine ⟨.str (s ++ [c]), ?_, fun d _ => rfl⟩
  simp [scan, next, inString, hquote, hslash, hbreak]

theorem numeralText_escape : ∀ n < 128, (numeralText 10 n).length ≤ 3 ∧
    decValue 0 (numeralText 10 n) = n ∧ (pad3 (numeralText 10 n)).length = 3 ∧
    decValue 0 (pad3 (numeralText 10 n)) = n := by
  decide

theorem isControl_lt {c : UInt8} (h : isControl c = true) : c.toNat < 128 := by
  simp only [isControl, decide_eq_true_eq, UInt8.lt_iff_toNat_lt, ← UInt8.toNat_inj,
    UInt8.reduceToNat] at h
  omega

theorem isNewline_control {c : UInt8} (h : isNewline c = true) : isControl c = true := by
  simp only [isNewline, decide_eq_true_eq] at h
  rcases h with rfl | rfl <;> rfl

theorem pad3_digits (n : Nat) : ∀ c ∈ pad3 (numeralText 10 n), isDigit c = true := by
  intro c hc
  rcases List.mem_append.mp hc with hc | hc
  · rw [List.eq_of_mem_replicate hc]
    rfl
  · exact numeralText_digits n c hc

theorem escapes52 : Escapes escape52 where
  head c nx := by
    unfold escape52
    split_ifs with h1 h2 h3
    · exact ⟨byte '\\', [c], rfl, Or.inl rfl⟩
    · exact ⟨byte '\\', _, rfl, Or.inl rfl⟩
    · exact ⟨byte '\\', _, rfl, Or.inl rfl⟩
    · have hbreak : isNewline c = false := by
        by_contra h
        exact h2 (isNewline_control (eq_true_of_ne_false h))
      exact ⟨c, [], rfl, Or.inr ⟨rfl, hbreak⟩⟩
  reads s c nx := by
    unfold escape52
    split_ifs with h1 h2 h3
    · exact reads_backslash s c nx h1
    · obtain ⟨-, -, hlen, hval⟩ := numeralText_escape c.toNat (isControl_lt h2)
      exact reads_decimal s _ c nx (by simp [pad3, numeralText_ne]) (pad3_digits c.toNat)
        (Nat.le_of_eq hlen) hval (Or.inl hlen)
    · obtain ⟨hlen, hval, -, -⟩ := numeralText_escape c.toNat (isControl_lt h2)
      exact reads_decimal s _ c nx (numeralText_ne 10 c.toNat) (numeralText_digits c.toNat) hlen
        hval (Or.inr (eq_false_of_ne_true h3))
    · rw [not_or, not_or] at h1
      have hbreak : isNewline c = false := by
        by_contra h
        exact h2 (isNewline_control (eq_true_of_ne_false h))
      exact reads_plain s c nx h1.1 h1.2.1 hbreak

theorem escapes51 : Escapes escape51 where
  head c nx := by
    unfold escape51
    split_ifs with h1 h2 h3
    · exact ⟨byte '\\', [c], rfl, Or.inl rfl⟩
    · exact ⟨byte '\\', _, rfl, Or.inl rfl⟩
    · exact ⟨byte '\\', _, rfl, Or.inl rfl⟩
    · rw [not_or, not_or] at h1
      have hbreak : isNewline c = false := decide_eq_false (not_or.mpr ⟨h1.2.2, h2⟩)
      exact ⟨c, [], rfl, Or.inr ⟨rfl, hbreak⟩⟩
  reads s c nx := by
    unfold escape51
    split_ifs with h1 h2 h3
    · exact reads_backslash s c nx h1
    · exact ⟨.str (s ++ [c]), by rw [h2]; rfl, fun d _ => rfl⟩
    · have hdigits : [byte '0', byte '0', byte '0'].all isDigit = true := by decide
      exact reads_decimal s [byte '0', byte '0', byte '0'] c nx (by simp)
        (List.all_eq_true.mp hdigits) (Nat.le_refl 3) (by rw [h3]; rfl) (Or.inl rfl)
    · rw [not_or, not_or] at h1
      have hbreak : isNewline c = false := decide_eq_false (not_or.mpr ⟨h1.2.2, h2⟩)
      exact reads_plain s c nx h1.1 h1.2.1 hbreak

/-! ## Where the versions agree -/

/-- Both versions write the character alike. -/
def alike (c : UInt8) (nx : Option UInt8) : Bool :=
  !isControl c || c = byte '\n' || c = 0 && (nx.map isDigit).getD false

/-- Both versions write the string alike: its control characters are newlines and zero
bytes in front of digits. -/
def writtenAlike : LuaString → Bool
  | [] => true
  | c :: cs => alike c cs.head? && writtenAlike cs

theorem escape_alike {c : UInt8} {nx : Option UInt8} (h : alike c nx = true) :
    escape52 c nx = escape51 c nx := by
  simp only [alike, Bool.or_eq_true, Bool.not_eq_true', decide_eq_true_eq, Bool.and_eq_true] at h
  unfold escape52 escape51
  rcases h with (hcontrol | rfl) | ⟨rfl, hdigit⟩
  · have hreturn : c ≠ byte '\r' := by
      rintro rfl
      exact absurd hcontrol (by decide)
    have hzero : c ≠ 0 := by
      rintro rfl
      exact absurd hcontrol (by decide)
    simp [hcontrol, hreturn, hzero]
  · rfl
  · simp only [hdigit, if_true]
    decide

/-- Only the zero byte is written with digits by both versions. -/
theorem escape_differs {c : UInt8} {nx : Option UInt8} (h : alike c nx = false)
    (hzero : c ≠ 0) (w w' : LuaString) : escape52 c nx ++ w ≠ escape51 c nx ++ w' := by
  simp only [alike, Bool.or_eq_false_iff, Bool.not_eq_false', decide_eq_false_iff_not] at h
  obtain ⟨⟨hcontrol, hbreak⟩, -⟩ := h
  have hplain : ¬(c = byte '"' ∨ c = byte '\\' ∨ c = byte '\n') := by
    rintro (rfl | rfl | rfl)
    · exact absurd hcontrol (by decide)
    · exact absurd hcontrol (by decide)
    · exact hbreak rfl
  unfold escape52 escape51
  rw [if_neg hplain, if_neg hplain, if_pos hcontrol, if_neg hzero]
  by_cases hreturn : c = byte '\r'
  · subst hreturn
    cases (nx.map isDigit).getD false
    · intro heq
      cases heq
    · intro heq
      cases heq
  · rw [if_neg hreturn]
    rintro heq
    have hhead : byte '\\' = c := (List.cons.inj heq).1
    exact hplain (Or.inr (Or.inl hhead.symm))

theorem quoteTail_alike_iff (s : LuaString) :
    quoteTail escape52 s = quoteTail escape51 s ↔ writtenAlike s = true := by
  induction s with
  | nil => simp [writtenAlike, quoteTail]
  | cons c cs ih =>
    rw [quoteTail, quoteTail, writtenAlike, Bool.and_eq_true, ← ih]
    cases h : alike c cs.head? with
    | true => rw [escape_alike h]; simp
    | false =>
      refine iff_of_false ?_ (by simp)
      by_cases hzero : c = 0
      · -- the second zero would have to be written for the next character
        subst hzero
        have hdigit : (cs.head?.map isDigit).getD false = false := by
          by_contra hne
          simp [alike, hne] at h
        have h52 : escape52 0 cs.head? = [byte '\\', byte '0'] := by
          simp only [escape52, hdigit]
          decide
        obtain ⟨d, rest, htail, hd⟩ := escapes52.follows cs
        rw [htail, h52]
        intro heq
        have hsecond : d = byte '0' := (List.cons.inj (List.cons.inj (List.cons.inj heq).2).2).1
        subst hsecond
        rcases hd with hd | hd | ⟨hd, -⟩
        · exact absurd hd (by decide)
        · exact absurd hd (by decide)
        · rw [hd] at hdigit
          exact absurd hdigit (by decide)
      · exact escape_differs h hzero _ _

theorem quote_alike_iff (s : LuaString) :
    quote escape52 s = quote escape51 s ↔ writtenAlike s = true := by
  simp [quote, quoteTail_alike_iff]

end LuaText
