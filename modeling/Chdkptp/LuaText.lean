import Chdkptp.ActionSystem
import Chdkptp.LuaValue

/-!
# Reading Lua text

`util.unserialize` runs the text `return ...` in an empty environment. Of Lua the
model has what a constant expression can be: nil, booleans, integers, double-quoted
strings and table constructors with scalar keys. The lexer is a transducer on bytes
and the parser a pushdown machine on tokens; a text that is not Lua and a text that
uses more of Lua have no result.
-/

namespace LuaText

open ActionSystem LuaValue

def byte (c : Char) : UInt8 := c.toNat.toUInt8

def bytes (cs : List Char) : LuaString := cs.map byte

/-! ## Characters -/

def isSpace (c : UInt8) : Bool := c = 32 ∨ 9 ≤ c ∧ c ≤ 13

def isDigit (c : UInt8) : Bool := 48 ≤ c ∧ c ≤ 57

/-- `%a` and an underscore. -/
def isLetter (c : UInt8) : Bool := 65 ≤ c ∧ c ≤ 90 ∨ 97 ≤ c ∧ c ≤ 122 ∨ c = 95

def isWord (c : UInt8) : Bool := isLetter c || isDigit c

def isNewline (c : UInt8) : Bool := c = 10 ∨ c = 13

/-- `string.lower`. -/
def lower (s : LuaString) : LuaString := s.map fun c => if 65 ≤ c ∧ c ≤ 90 then c + 32 else c

/-! ## Numerals -/

/-- A hexadecimal digit. -/
def digitValue (c : UInt8) : Option Nat :=
  if isDigit c then some (c.toNat - 48)
  else if 97 ≤ c ∧ c ≤ 102 then some (c.toNat - 87)
  else if 65 ≤ c ∧ c ≤ 70 then some (c.toNat - 55)
  else none

def addDigit (base n : Nat) (c : UInt8) : Option Nat :=
  (digitValue c).bind fun d => if d < base then some (base * n + d) else none

def digitsValue (base : Nat) (w : LuaString) : Option Nat :=
  if w = [] then none else w.foldlM (addDigit base) 0

/-- A decimal or, behind `0x`, a hexadecimal integer. -/
def numeral (w : LuaString) : Option Nat :=
  if w.take 2 = bytes ['0', 'x'] ∨ w.take 2 = bytes ['0', 'X'] then digitsValue 16 (w.drop 2)
  else digitsValue 10 w

/-- The digits of a number. -/
def numeralText (base n : Nat) : LuaString := bytes (Nat.toDigits base n)

theorem toDigits_forall (P : Char → Prop) {base : Nat} (hbase : 1 < base)
    (h : ∀ d < base, P (Nat.digitChar d)) (n : Nat) : ∀ c ∈ Nat.toDigits base n, P c := by
  induction n using Nat.strong_induction_on with
  | _ n ih =>
    intro c hc
    rw [Nat.toDigits_eq_if hbase] at hc
    split at hc
    · rw [List.mem_singleton.mp hc]
      exact h n ‹_›
    · rcases List.mem_append.mp hc with hc | hc
      · exact ih (n / base) (Nat.div_lt_self (by omega) hbase) c hc
      · rw [List.mem_singleton.mp hc]
        exact h (n % base) (Nat.mod_lt n (by omega))

theorem digitValue_digitChar : ∀ d < 16, digitValue (byte (Nat.digitChar d)) = some d := by
  decide

theorem isDigit_digitChar : ∀ d < 10, isDigit (byte (Nat.digitChar d)) = true := by decide

theorem isWord_digitChar : ∀ d < 16, isWord (byte (Nat.digitChar d)) = true := by decide

theorem numeralText_digits (n : Nat) : ∀ c ∈ numeralText 10 n, isDigit c = true := by
  intro c hc
  obtain ⟨d, hd, rfl⟩ := List.mem_map.mp hc
  exact toDigits_forall (fun c => isDigit (byte c) = true) (by decide) isDigit_digitChar n d hd

theorem numeralText_word {base : Nat} (h1 : 1 < base) (h16 : base ≤ 16) (n : Nat) :
    ∀ c ∈ numeralText base n, isWord c = true := by
  intro c hc
  obtain ⟨d, hd, rfl⟩ := List.mem_map.mp hc
  exact toDigits_forall (fun c => isWord (byte c) = true) h1
    (fun d hd => isWord_digitChar d (by omega)) n d hd

theorem numeralText_ne (base n : Nat) : numeralText base n ≠ [] := by
  simp [numeralText, bytes, Nat.toDigits_ne_nil]

theorem addDigit_digitChar {base d : Nat} (h16 : base ≤ 16) (hd : d < base) (n : Nat) :
    addDigit base n (byte (Nat.digitChar d)) = some (base * n + d) := by
  simp [addDigit, digitValue_digitChar d (by omega), hd]

theorem foldlM_numeralText {base : Nat} (h1 : 1 < base) (h16 : base ≤ 16) (n : Nat) :
    (numeralText base n).foldlM (addDigit base) 0 = some n := by
  induction n using Nat.strong_induction_on with
  | _ n ih =>
    unfold numeralText
    rw [Nat.toDigits_eq_if h1]
    split
    · simp [bytes, addDigit_digitChar h16 ‹n < base›]
    · have hdiv := ih (n / base) (Nat.div_lt_self (by omega) h1)
      have hmod := addDigit_digitChar h16 (Nat.mod_lt n (by omega)) (n / base)
      simp only [numeralText, bytes] at hdiv
      simp [bytes, List.foldlM_append, hdiv, hmod, Nat.div_add_mod]

theorem digitsValue_numeralText {base : Nat} (h1 : 1 < base) (h16 : base ≤ 16) (n : Nat) :
    digitsValue base (numeralText base n) = some n := by
  rw [digitsValue, if_neg (numeralText_ne base n), foldlM_numeralText h1 h16]

theorem numeral_decimal (n : Nat) : numeral (numeralText 10 n) = some n := by
  have hx : ∀ x ∈ ['x', 'X'], (numeralText 10 n).take 2 ≠ bytes ['0', x] := by
    intro x hx h
    have hmem : byte x ∈ numeralText 10 n :=
      List.mem_of_mem_take (h ▸ (by simp [bytes] : byte x ∈ bytes ['0', x]))
    have hdigit := numeralText_digits n _ hmem
    simp only [List.mem_cons, List.not_mem_nil, or_false] at hx
    rcases hx with rfl | rfl <;> cases hdigit
  rw [numeral, if_neg, digitsValue_numeralText (by decide) (by decide)]
  exact not_or.mpr ⟨hx 'x' (by simp), hx 'X' (by simp)⟩

theorem numeral_hex (n : Nat) : numeral (bytes ['0', 'x'] ++ numeralText 16 n) = some n := by
  have hdigits := digitsValue_numeralText (by decide : 1 < 16) (by decide) n
  simpa [numeral, bytes] using hdigits

/-! ## The lexer -/

inductive Token where
  | sym (c : UInt8)
  | num (n : Nat)
  | str (s : LuaString)
  /-- A name or a reserved word. -/
  | word (w : LuaString)
  deriving DecidableEq, Repr

/-- What has been read of the token at hand. -/
inductive Mode where
  | idle
  | word (w : LuaString)
  | str (s : LuaString)
  /-- Behind a backslash. -/
  | esc (s : LuaString)
  /-- Within a decimal escape of so many digits. -/
  | dec (s : LuaString) (n count : Nat)
  /-- Behind an escaped line break that began with `c`. -/
  | newline (s : LuaString) (c : UInt8)
  deriving DecidableEq, Repr

def symbols : LuaString := bytes ['{', '}', '[', ']', '=', ',', ';', '-']

def wordToken (w : LuaString) : Option Token :=
  if (w.headD 0 |> isDigit) then (numeral w).map .num else some (.word w)

/-- A character where no token is open. -/
def start (c : UInt8) : Option (List Token × Mode) :=
  if isSpace c then some ([], .idle)
  else if isWord c then some ([], .word [c])
  else if c = byte '"' then some ([], .str [])
  else if c ∈ symbols then some ([.sym c], .idle)
  else none

/-- A character of a string. -/
def inString (s : LuaString) (c : UInt8) : Option (List Token × Mode) :=
  if c = byte '"' then some ([.str s], .idle)
  else if c = byte '\\' then some ([], .esc s)
  else if isNewline c then none
  else some ([], .str (s ++ [c]))

/-- The escapes of one letter. -/
def escape (c : UInt8) : Option UInt8 :=
  if c = byte 'a' then some 7
  else if c = byte 'b' then some 8
  else if c = byte 't' then some 9
  else if c = byte 'n' then some 10
  else if c = byte 'v' then some 11
  else if c = byte 'f' then some 12
  else if c = byte 'r' then some 13
  else if c = byte '"' ∨ c = byte '\'' ∨ c = byte '\\' then some c
  else none

def next : Mode → UInt8 → Option (List Token × Mode)
  | .idle, c => start c
  | .word w, c =>
    if isWord c then some ([], .word (w ++ [c]))
    else (wordToken w).bind fun token => (start c).map fun r => (token :: r.1, r.2)
  | .str s, c => inString s c
  | .esc s, c =>
    if isNewline c then some ([], .newline (s ++ [10]) c)
    else if isDigit c then some ([], .dec s (c.toNat - 48) 1)
    else (escape c).map fun e => ([], .str (s ++ [e]))
  | .dec s n count, c =>
    if isDigit c ∧ count < 3 then some ([], .dec s (10 * n + (c.toNat - 48)) (count + 1))
    else if n ≤ 255 then inString (s ++ [n.toUInt8]) c
    else none
  -- a line break of two characters counts as one
  | .newline s c, c' => if isNewline c' ∧ c' ≠ c then some ([], .str s) else inString s c'

def scan : Mode → LuaString → Option (List Token × Mode)
  | m, [] => some ([], m)
  | m, c :: cs => (next m c).bind fun r => (scan r.2 cs).map fun r' => (r.1 ++ r'.1, r'.2)

/-- The token that is open at the end. -/
def flush : Mode → Option (List Token)
  | .idle => some []
  | .word w => (wordToken w).map fun token => [token]
  | _ => none

def lex (s : LuaString) : Option (List Token) :=
  (scan .idle s).bind fun r => (flush r.2).map fun ts => r.1 ++ ts

/-! ## The parser -/

def reserved : List LuaString :=
  [['a', 'n', 'd'], ['b', 'r', 'e', 'a', 'k'], ['d', 'o'], ['e', 'l', 's', 'e'],
    ['e', 'l', 's', 'e', 'i', 'f'], ['e', 'n', 'd'], ['f', 'a', 'l', 's', 'e'], ['f', 'o', 'r'],
    ['f', 'u', 'n', 'c', 't', 'i', 'o', 'n'], ['g', 'o', 't', 'o'], ['i', 'f'], ['i', 'n'],
    ['l', 'o', 'c', 'a', 'l'], ['n', 'i', 'l'], ['n', 'o', 't'], ['o', 'r'],
    ['r', 'e', 'p', 'e', 'a', 't'], ['r', 'e', 't', 'u', 'r', 'n'], ['t', 'h', 'e', 'n'],
    ['t', 'r', 'u', 'e'], ['u', 'n', 't', 'i', 'l'], ['w', 'h', 'i', 'l', 'e']].map bytes

def isReserved (w : LuaString) : Bool := reserved.contains w

theorem isReserved_iff {w : LuaString} : isReserved w = true ↔ w ∈ reserved :=
  List.contains_iff_mem

/-- The fields of a table constructor so far, the last one first, and the number of
those without a key. -/
structure Fields where
  fields : List (Scalar × Tree)
  count : Nat

def Fields.push (f : Fields) (v : Tree) : Fields where
  fields := (.int (f.count + 1), v) :: f.fields
  count := f.count + 1

def Fields.set (f : Fields) (k : Scalar) (v : Tree) : Fields where
  fields := (k, v) :: f.fields
  count := f.count

/-- Where in a table a value goes. -/
inductive Dest where
  | item
  | key
  | field (k : Scalar)

/-- A table that is not closed yet. -/
structure Open where
  fields : Fields
  dest : Dest

/-- What is read next. -/
inductive Expect where
  /-- The word `return`. -/
  | chunk
  | value
  /-- The number behind a minus sign. -/
  | minus
  /-- A field or the end of the table. -/
  | field
  /-- An equals sign behind a name. -/
  | name (w : LuaString)
  /-- The bracket that closes a key. -/
  | bracket (k : Scalar)
  /-- An equals sign behind a key in brackets. -/
  | equals (k : Scalar)
  /-- A separator or the end of the table. -/
  | sep
  | done (v : Tree)

structure Parser where
  expect : Expect
  stack : List Open

/-- A value is complete. -/
def deliver (v : Tree) : List Open → Option Parser
  | [] => some ⟨.done v, []⟩
  | ⟨f, .item⟩ :: stack => some ⟨.sep, ⟨f.push v, .item⟩ :: stack⟩
  | ⟨f, .field k⟩ :: stack => some ⟨.sep, ⟨f.set k v, .item⟩ :: stack⟩
  | ⟨f, .key⟩ :: stack =>
    match v with
    | .scalar k => some ⟨.bracket k, ⟨f, .item⟩ :: stack⟩
    | _ => none

/-- The first token of a value. -/
def begin (stack : List Open) : Token → Option Parser
  | .num n => deliver (.scalar (.int n)) stack
  | .str s => deliver (.scalar (.str s)) stack
  | .word w =>
    if w = bytes ['n', 'i', 'l'] then deliver .nil stack
    else if w = bytes ['t', 'r', 'u', 'e'] then deliver (.scalar (.bool true)) stack
    else if w = bytes ['f', 'a', 'l', 's', 'e'] then deliver (.scalar (.bool false)) stack
    else none
  | .sym c =>
    if c = byte '{' then some ⟨.field, ⟨⟨[], 0⟩, .item⟩ :: stack⟩
    else if c = byte '-' then some ⟨.minus, stack⟩
    else none

/-- The end of the innermost table. -/
def close : List Open → Option Parser
  | [] => none
  | o :: stack => deliver (.table o.fields.fields) stack

def redirect (dest : Dest) : List Open → List Open
  | [] => []
  | o :: stack => { o with dest := dest } :: stack

def accept (p : Parser) (token : Token) : Option Parser :=
  match p.expect, token with
  | .chunk, .word w =>
    if w = bytes ['r', 'e', 't', 'u', 'r', 'n'] then some ⟨.value, p.stack⟩ else none
  | .value, token => begin p.stack token
  | .minus, .num n => deliver (.scalar (.int (-n))) p.stack
  | .field, .sym c =>
    if c = byte '}' then close p.stack
    else if c = byte '[' then some ⟨.value, redirect .key p.stack⟩
    else begin p.stack token
  | .field, .word w => if isReserved w then begin p.stack token else some ⟨.name w, p.stack⟩
  | .field, token => begin p.stack token
  | .name w, .sym c =>
    if c = byte '=' then some ⟨.value, redirect (.field (.str w)) p.stack⟩ else none
  | .bracket k, .sym c => if c = byte ']' then some ⟨.equals k, p.stack⟩ else none
  | .equals k, .sym c =>
    if c = byte '=' then some ⟨.value, redirect (.field k) p.stack⟩ else none
  | .sep, .sym c =>
    if c = byte ',' ∨ c = byte ';' then some ⟨.field, p.stack⟩
    else if c = byte '}' then close p.stack
    else none
  | _, _ => none

def parser : System Parser Token where
  step := accept

@[simp] theorem parser_step (p : Parser) (token : Token) : parser.step p token = accept p token :=
  rfl

/-- The value of a chunk. -/
def load (ts : List Token) : Option Tree :=
  (parser.run ⟨.chunk, []⟩ ts).bind fun p =>
    match p.expect with
    | .done v => some v
    | _ => none

/-- `util.unserialize`; no value stands for false and a message. -/
def unserialize (s : LuaString) : Option Tree :=
  (lex (bytes ['r', 'e', 't', 'u', 'r', 'n', ' '] ++ s)).bind load

/-! ## Lexing a text piece by piece -/

theorem scan_append (m : Mode) (s t : LuaString) :
    scan m (s ++ t) =
      (scan m s).bind fun r => (scan r.2 t).map fun r' => (r.1 ++ r'.1, r'.2) := by
  induction s generalizing m with
  | nil => simp [scan]
  | cons c cs ih =>
    simp only [List.cons_append, scan]
    cases next m c with
    | none => rfl
    | some r =>
      simp only [Option.bind_some, ih]
      cases scan r.2 cs with
      | none => rfl
      | some r' => simp [Function.comp_def]

theorem isSpace_word {c : UInt8} (h : isWord c = true) : isSpace c = false := by
  simp only [isWord, isLetter, isDigit, Bool.or_eq_true, decide_eq_true_eq,
    UInt8.le_iff_toNat_le, ← UInt8.toNat_inj, UInt8.reduceToNat] at h
  simp only [isSpace, decide_eq_false_iff_not, UInt8.le_iff_toNat_le, ← UInt8.toNat_inj,
    UInt8.reduceToNat]
  omega

theorem start_word {c : UInt8} (h : isWord c = true) : start c = some ([], .word [c]) := by
  simp [start, isSpace_word h, h]

theorem scan_word (w₀ w : LuaString) (h : ∀ c ∈ w, isWord c = true) :
    scan (.word w₀) w = some ([], .word (w₀ ++ w)) := by
  induction w generalizing w₀ with
  | nil => simp [scan]
  | cons c w ih =>
    have hc : isWord c = true := h c List.mem_cons_self
    have hrest := ih (w₀ ++ [c]) fun d hd => h d (List.mem_cons_of_mem c hd)
    simp [scan, next, hc, hrest]

theorem lex_word {w : LuaString} (hne : w ≠ []) (h : ∀ c ∈ w, isWord c = true) :
    lex w = (wordToken w).map fun token => [token] := by
  cases w with
  | nil => exact absurd rfl hne
  | cons c w =>
    have hrest := scan_word [c] w fun d hd => h d (List.mem_cons_of_mem c hd)
    simp [lex, scan, next, start_word (h c List.mem_cons_self), hrest, flush, Function.comp_def]

theorem lex_decimal (n : Nat) : lex (numeralText 10 n) = some [.num n] := by
  have hdigits := numeralText_digits n
  have hne := numeralText_ne 10 n
  rw [lex_word hne (numeralText_word (by decide) (by decide) n), wordToken, if_pos,
    numeral_decimal]
  · rfl
  · obtain ⟨c, w, hw⟩ := List.exists_cons_of_ne_nil hne
    rw [hw] at hdigits ⊢
    exact hdigits c List.mem_cons_self

theorem lex_hex (n : Nat) :
    lex (bytes ['0', 'x'] ++ numeralText 16 n) = some [.num n] := by
  have hword : ∀ c ∈ bytes ['0', 'x'] ++ numeralText 16 n, isWord c = true := by
    intro c hc
    rcases List.mem_append.mp hc with hc | hc
    · exact List.all_eq_true.mp (by decide : (bytes ['0', 'x']).all isWord = true) c hc
    · exact numeralText_word (by decide) (by decide) n c hc
  have hdigit : isDigit ((bytes ['0', 'x'] ++ numeralText 16 n).headD 0) = true := by
    simp [bytes, isDigit, byte]
  rw [lex_word (by simp [bytes]) hword, wordToken, if_pos hdigit, numeral_hex]
  rfl

/-- No token is open behind the text. -/
def Closed (t : LuaString) (ts : List Token) : Prop := scan .idle t = some (ts, .idle)

theorem Closed.append {t t' : LuaString} {ts ts' : List Token} (h : Closed t ts)
    (h' : Closed t' ts') : Closed (t ++ t') (ts ++ ts') := by
  unfold Closed at h h' ⊢
  simp [scan_append, h, h']

theorem Closed.lex {t t' : LuaString} {ts ts' : List Token} (h : Closed t ts)
    (h' : lex t' = some ts') : lex (t ++ t') = some (ts ++ ts') := by
  unfold Closed at h
  unfold LuaText.lex at h' ⊢
  obtain ⟨r, hr, hflush⟩ := Option.bind_eq_some_iff.mp h'
  obtain ⟨ts₁, hts, rfl⟩ := Option.map_eq_some_iff.mp hflush
  simp [scan_append, h, hr, hts]

theorem Closed.lex_eq {t : LuaString} {ts : List Token} (h : Closed t ts) :
    LuaText.lex t = some ts := by
  simpa using h.lex (by rfl : LuaText.lex [] = some [])

/-- A character that cannot continue a word ends it. -/
theorem lex_sep {t : LuaString} {ts ts' : List Token} {c : UInt8} (h : lex t = some ts)
    (hc : isWord c = false) (hstart : start c = some (ts', .idle)) :
    Closed (t ++ [c]) (ts ++ ts') := by
  unfold lex at h
  obtain ⟨r, hr, hflush⟩ := Option.bind_eq_some_iff.mp h
  obtain ⟨ts₁, hts, rfl⟩ := Option.map_eq_some_iff.mp hflush
  unfold Closed
  rw [scan_append, hr]
  obtain ⟨ts₀, m⟩ := r
  cases m with
  | idle =>
    cases hts
    simp [scan, next, hstart]
  | word w =>
    obtain ⟨token, htoken, rfl⟩ := Option.map_eq_some_iff.mp hts
    simp [scan, next, hstart, hc, htoken]
  | str s => cases hts
  | esc s => cases hts
  | dec s n count => cases hts
  | newline s c => cases hts

theorem inString_comma (s : LuaString) :
    inString s (byte ',') = some ([], .str (s ++ [byte ','])) := rfl

/-- A comma behind which no token is open stands behind a whole text. -/
theorem closed_comma {t : LuaString} {ts : List Token} (h : Closed (t ++ [byte ',']) ts) :
    ∃ ts', lex t = some ts' ∧ ts = ts' ++ [.sym (byte ',')] := by
  unfold Closed at h
  rw [scan_append] at h
  obtain ⟨⟨ts₀, m⟩, hr, hrest⟩ := Option.bind_eq_some_iff.mp h
  obtain ⟨⟨ts₁, m₁⟩, hcomma, heq⟩ := Option.map_eq_some_iff.mp hrest
  obtain ⟨rfl, rfl⟩ := Prod.mk.injEq .. |>.mp heq
  unfold lex
  simp only [hr, Option.bind_some, Option.map_eq_some_iff]
  cases m with
  | idle =>
    have hts : ts₁ = [.sym (byte ',')] := by
      simpa [scan, next, start, isSpace, isWord, isLetter, isDigit, symbols, bytes, byte,
        eq_comm] using hcomma
    exact ⟨ts₀, ⟨[], rfl, List.append_nil _⟩, by rw [hts]⟩
  | word w =>
    obtain ⟨⟨ts₂, m₂⟩, hnext, hnil⟩ := Option.bind_eq_some_iff.mp hcomma
    have hword : isWord (byte ',') = false := by decide
    have hstart : start (byte ',') = some ([.sym (byte ',')], .idle) := by decide
    simp only [next, hword, Bool.false_eq_true, ↓reduceIte, hstart, Option.map_some,
      Option.bind_eq_some_iff, Option.some.injEq, Prod.mk.injEq] at hnext
    obtain ⟨token, htoken, rfl, rfl⟩ := hnext
    cases hnil
    exact ⟨ts₀ ++ [token], ⟨[token], by simp [flush, htoken], rfl⟩, by simp⟩
  | str s => cases hcomma
  | esc s => cases hcomma
  | dec s n count =>
    obtain ⟨⟨ts₂, m₂⟩, hnext, hnil⟩ := Option.bind_eq_some_iff.mp hcomma
    have hdigit : isDigit (byte ',') = false := by decide
    simp only [next, hdigit, Bool.false_eq_true, false_and, ↓reduceIte, inString_comma] at hnext
    split at hnext
    · cases hnext
      cases hnil
    · cases hnext
  | newline s c =>
    obtain ⟨⟨ts₂, m₂⟩, hnext, hnil⟩ := Option.bind_eq_some_iff.mp hcomma
    have hbreak : isNewline (byte ',') = false := by decide
    simp only [next, hbreak, Bool.false_eq_true, false_and, ↓reduceIte, inString_comma] at hnext
    cases hnext
    cases hnil

end LuaText
