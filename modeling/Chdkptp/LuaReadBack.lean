import Chdkptp.LuaSerialize

/-!
# Reading serialized text

What `unserialize` makes of a serialized value is given directly by recursion on the
value: the elements that `ipairs` reaches, then the other fields, in a table; nothing
if a bare key is a reserved word. A piece of text is described by what it does to
the parser, and the pieces of a table are put together from those of its parts.
-/

namespace LuaSerialize

open LuaValue LuaText Visiting ActionSystem

/-! ## What is read back -/

def itemStep (img : Value → Option Tree) (f : Fields) (v : Value) : Option Fields :=
  (img v).map f.push

def scalarOf : Tree → Option Scalar
  | .scalar k => some k
  | _ => none

def keyImage (opts : Opts) (img : Value → Option Tree) (k : Value) : Option Scalar :=
  match bareKey opts k with
  | some w => if isReserved w then none else some (.str w)
  | none => (img k).bind scalarOf

def fieldStep (opts : Opts) (img : Value → Option Tree) (f : Fields) (e : Value × Value) :
    Option Fields :=
  (keyImage opts img e.1).bind fun k => (img e.2).map (f.set k)

def partsImage (opts : Opts) (img : Value → Option Tree) (t : Table) (f : Fields) :
    Option Fields :=
  ((arrayPart opts t).foldlM (itemStep img) f).bind fun f =>
    (otherPart opts t).foldlM (fieldStep opts img) f

/-- What is read from a value that is written with so many levels left. -/
def image (heap : Heap) (opts : Opts) : Nat → Value → Option Tree
  | _, .nil => some .nil
  | _, .scalar s => some (.scalar s)
  | _, .other _ _ => none
  | 0, .table _ => none
  | left + 1, .table ref =>
    (partsImage opts (image heap opts left) (heap ref) ⟨[], 0⟩).map fun f => .table f.fields

/-! ## Values -/

/-- The parser expects a value for this stack. -/
inductive Ready : Parser → List Open → Prop
  | value (stack : List Open) : Ready ⟨.value, stack⟩ stack
  | field (f : Fields) (stack : List Open) :
      Ready ⟨.field, ⟨f, .item⟩ :: stack⟩ (⟨f, .item⟩ :: stack)

/-- The text of a value. -/
def Reads (r : List LuaString) (img : Option Tree) : Prop :=
  ∃ ts, lex r.flatten = some ts ∧
    ∀ p stack, Ready p stack → parser.run p ts = img.bind fun v => deliver v stack

theorem reads_token {w : LuaString} {token : Token} {v : Tree} (h : lex w = some [token])
    (hv : ∀ p stack, Ready p stack → accept p token = deliver v stack) :
    Reads [w] (some v) := by
  refine ⟨[token], by simpa using h, ?_⟩
  intro p stack hp
  simp [hv p stack hp]

theorem reads_nil : Reads [bytes ['n', 'i', 'l']] (some .nil) := by
  have hlex : lex (bytes ['n', 'i', 'l']) = some [.word (bytes ['n', 'i', 'l'])] := by decide
  exact reads_token hlex fun p stack hp => by cases hp <;> rfl

theorem reads_bool (b : Bool) : Reads [boolText b] (some (.scalar (.bool b))) := by
  have hlex : lex (boolText b) = some [.word (boolText b)] := by cases b <;> decide
  exact reads_token hlex fun p stack hp => by cases b <;> cases hp <;> rfl

theorem reads_str {esc : UInt8 → Option UInt8 → LuaString} (hesc : Escapes esc) (s : LuaString) :
    Reads [quote esc s] (some (.scalar (.str s))) :=
  reads_token (hesc.closed s).lex_eq fun p stack hp => by cases hp <;> rfl

theorem lex_negative (n : Nat) :
    lex (byte '-' :: numeralText 10 n) = some [.sym (byte '-'), .num n] :=
  Closed.lex (by unfold Closed; decide : Closed [byte '-'] [.sym (byte '-')]) (lex_decimal n)

theorem reads_decimal_number (n : Int) : Reads [decimal n] (some (.scalar (.int n))) := by
  unfold decimal
  split_ifs with h
  · refine ⟨_, by simpa using lex_negative n.natAbs, ?_⟩
    intro p stack hp
    have hn : -(n.natAbs : Int) = n := by omega
    have hminus : accept p (.sym (byte '-')) = some ⟨.minus, stack⟩ := by cases hp <;> rfl
    have hnum : accept ⟨.minus, stack⟩ (.num n.natAbs) =
        deliver (.scalar (.int (-(n.natAbs : Int)))) stack := rfl
    rw [hn] at hnum
    simp [hminus, hnum]
  · have hn : (n.natAbs : Int) = n := by omega
    have hv : ∀ p stack, Ready p stack →
        accept p (.num n.natAbs) = deliver (.scalar (.int (n.natAbs : Int))) stack :=
      fun p stack hp => by cases hp <;> rfl
    rw [hn] at hv
    exact reads_token (lex_decimal n.natAbs) hv

/-- The Lua that writes the text writes what the other one reads. -/
structure Readable (opts : Opts) (lua : Lua) : Prop where
  tostring : opts.forceint = false → ∀ n, lua.tostring n = decimal n
  escapes : Escapes lua.escape

theorem reads_number {opts : Opts} {lua : Lua} (h : Readable opts lua) (n : Int) :
    Reads [number lua opts n] (some (.scalar (.int n))) := by
  unfold number round
  split_ifs with hforce hbig
  · have hn : (n.toNat : Int) = n := by omega
    have hv : ∀ p stack, Ready p stack →
        accept p (.num n.toNat) = deliver (.scalar (.int (n.toNat : Int))) stack :=
      fun p stack hp => by cases hp <;> rfl
    rw [hn] at hv
    exact reads_token (lex_hex n.toNat) hv
  · exact reads_decimal_number n
  · rw [h.tostring (eq_false_of_ne_true hforce)]
    exact reads_decimal_number n

/-! ## Fields -/

def comma : Token := .sym (byte ',')

/-- Where the parser is between two fields. -/
def between (expect : Expect) (stack : List Open) (f : Fields) : Parser :=
  ⟨expect, ⟨f, .item⟩ :: stack⟩

/-- A field with the comma behind it; `step` is what it adds to the fields. -/
def ReadsField (r : List LuaString) (step : Fields → Option Fields) : Prop :=
  ∃ ts, Closed r.flatten (ts ++ [comma]) ∧
    ∀ f stack, parser.run (between .field stack f) ts = (step f).map (between .sep stack)

/-- Any number of fields, of which the last one may lack its comma. -/
def ReadsFields (r : List LuaString) (step : Fields → Option Fields) : Prop :=
  ∃ ts, Closed r.flatten ts ∧
    (∀ f stack, parser.run (between .field stack f) ts = (step f).map (between .field stack)) ∧
    ∀ ts', ts = ts' ++ [comma] →
      ∀ f stack, parser.run (between .field stack f) ts' = (step f).map (between .sep stack)

theorem accept_comma (f : Fields) (stack : List Open) :
    accept (between .sep stack f) comma = some (between .field stack f) := rfl

theorem readsFields_blank {r : List LuaString} (h : Closed r.flatten []) :
    ReadsFields r some := by
  refine ⟨[], h, fun f stack => rfl, ?_⟩
  intro ts' hts
  exact absurd hts (by simp)

theorem ReadsFields.field {r r' : List LuaString} {step step' : Fields → Option Fields}
    (h : ReadsFields r step) (h' : ReadsField r' step') :
    ReadsFields (r ++ r') fun f => (step f).bind step' := by
  obtain ⟨ts, hclosed, hrun, -⟩ := h
  obtain ⟨ts', hclosed', hrun'⟩ := h'
  have hsep : ∀ f stack, parser.run (between .field stack f) (ts ++ ts') =
      ((step f).bind step').map (between .sep stack) := by
    intro f stack
    rw [System.run_append, hrun]
    cases step f with
    | none => rfl
    | some f' => simp [hrun']
  refine ⟨ts ++ (ts' ++ [comma]), ?_, ?_, ?_⟩
  · rw [List.flatten_append]
    exact hclosed.append hclosed'
  · intro f stack
    rw [← List.append_assoc, System.run_append, hsep]
    cases hstep : (step f).bind step' with
    | none => simp only [hstep, Option.map_none, Option.bind_none]
    | some f' => simp [hstep, accept_comma, -Option.map_bind]
  · intro ts'' hts f stack
    rw [← List.append_assoc] at hts
    rw [← List.append_cancel_right hts]
    exact hsep f stack

theorem ReadsFields.each {α : Type} {step : Fields → Option Fields}
    {steps : Fields → α → Option Fields} {as : List α} {rs : List (List LuaString)}
    {r : List LuaString} (h : ReadsFields r step)
    (hrs : List.Forall₂ (fun a r => ReadsField r fun f => steps f a) as rs) :
    ReadsFields (r ++ rs.flatten) fun f => (step f).bind fun f' => as.foldlM steps f' := by
  induction hrs generalizing r step with
  | nil => simpa using h
  | cons ha _ ih =>
    have hrest := ih (h.field ha)
    simpa [List.foldlM_cons, Option.bind_assoc] using hrest

theorem closed_spaces (depth : Nat) : Closed (List.replicate depth (byte ' ')) [] := by
  induction depth with
  | zero => rfl
  | succ depth ih =>
    have hspace : Closed [byte ' '] [] := by unfold Closed; decide
    exact hspace.append ih

theorem closed_newline (opts : Opts) (depth : Nat) : Closed (newline opts depth).flatten [] := by
  have hbreak : Closed [byte '\n'] [] := by unfold Closed; decide
  unfold newline
  split_ifs
  · simpa [indent] using hbreak.append (closed_spaces depth)
  · rfl

/-- A character that no word contains, behind the text of a value. -/
theorem Reads.closed {r : List LuaString} {img : Option Tree} (h : Reads r img) :
    ∃ ts, (∀ c, c ∈ [byte ',', byte ']'] → Closed (r.flatten ++ [c]) (ts ++ [.sym c])) ∧
      ∀ p stack, Ready p stack → parser.run p ts = img.bind fun v => deliver v stack := by
  obtain ⟨ts, hlex, hrun⟩ := h
  refine ⟨ts, ?_, hrun⟩
  intro c hc
  rw [List.mem_pair] at hc
  rcases hc with rfl | rfl
  · exact lex_sep hlex (by decide) (by decide)
  · exact lex_sep hlex (by decide) (by decide)

/-- An element of the array part. -/
theorem readsField_item {r blank : List LuaString} {img : Value → Option Tree} {v : Value}
    (h : Reads r (img v)) (hblank : Closed blank.flatten []) :
    ReadsField (r ++ [byte ','] :: blank) fun f => itemStep img f v := by
  obtain ⟨ts, hclosed, hrun⟩ := h.closed
  refine ⟨ts, ?_, ?_⟩
  · simpa [comma] using (hclosed (byte ',') (by simp)).append hblank
  · intro f stack
    rw [between, hrun _ _ (.field f stack)]
    simp only [itemStep]
    cases img v <;> rfl

/-- The text of a key with the equals sign: the parser then waits for the value. -/
def ReadsKey (r : List LuaString) (key : Option Scalar) : Prop :=
  ∃ ts, Closed (r.flatten ++ [byte '=']) ts ∧
    ∀ f stack, parser.run (between .field stack f) ts =
      key.map fun k => ⟨.value, ⟨f, .field k⟩ :: stack⟩

theorem readsField_key {r r' blank : List LuaString} {key : Option Scalar} {img : Option Tree}
    (hblank : Closed blank.flatten []) (hkey : ReadsKey r key) (h : Reads r' img) :
    ReadsField (blank ++ (r ++ ([[byte '=']] ++ (r' ++ [[byte ',']]))))
      fun f => key.bind fun k => img.map (f.set k) := by
  obtain ⟨ts, hclosed, hrun⟩ := hkey
  obtain ⟨ts', hclosed', hrun'⟩ := h.closed
  refine ⟨ts ++ ts', ?_, ?_⟩
  · have htext := hblank.append (hclosed.append (hclosed' (byte ',') (by simp)))
    simpa [comma] using htext
  · intro f stack
    rw [System.run_append, hrun]
    cases key with
    | none => rfl
    | some k =>
      simp only [Option.map_some, Option.bind_some, hrun' _ _ (.value _)]
      cases img <;> rfl

theorem isWord_name {w : LuaString} (h : isName w = true) : ∀ c ∈ w, isWord c = true := by
  cases w with
  | nil => simp
  | cons c cs =>
    rw [isName, Bool.and_eq_true] at h
    intro d hd
    rcases List.mem_cons.mp hd with rfl | hd
    · simp [isWord, h.1]
    · exact List.all_eq_true.mp h.2 d hd

theorem isDigit_letter {c : UInt8} (h : isLetter c = true) : isDigit c = false := by
  simp only [isLetter, decide_eq_true_eq, UInt8.le_iff_toNat_le, ← UInt8.toNat_inj,
    UInt8.reduceToNat] at h
  simp only [isDigit, decide_eq_false_iff_not, UInt8.le_iff_toNat_le, UInt8.reduceToNat]
  omega

theorem lex_name {w : LuaString} (h : isName w = true) : lex w = some [.word w] := by
  have hne : w ≠ [] := by
    rintro rfl
    cases h
  rw [lex_word hne (isWord_name h)]
  obtain ⟨c, cs, rfl⟩ := List.exists_cons_of_ne_nil hne
  rw [isName, Bool.and_eq_true] at h
  simp [wordToken, isDigit_letter h.1]

/-- A reserved word is no key: nil, true and false are values and the others nothing. -/
theorem accept_reserved (stack : List Open) (f : Fields) (w : LuaString) (hw : isReserved w = true) :
    (accept (between .field stack f) (.word w)).bind (fun p => accept p (.sym (byte '='))) =
      none := by
  have hbegin : accept (between .field stack f) (.word w) =
      begin (⟨f, .item⟩ :: stack) (.word w) := by simp [between, accept, hw]
  rw [hbegin]
  simp only [begin]
  split_ifs <;> rfl

theorem accept_name (stack : List Open) (f : Fields) (w : LuaString) (hw : ¬isReserved w = true) :
    accept (between .field stack f) (.word w) = some ⟨.name w, ⟨f, .item⟩ :: stack⟩ := by
  simp [between, accept, hw]

theorem readsKey_bare {w : LuaString} (h : isName w = true) :
    ReadsKey [w] (if isReserved w = true then none else some (.str w)) := by
  have hsep : isWord (byte '=') = false ∧
      start (byte '=') = some ([.sym (byte '=')], .idle) := by decide
  refine ⟨[.word w, .sym (byte '=')], ?_, ?_⟩
  · simpa using lex_sep (lex_name h) hsep.1 hsep.2
  · intro f stack
    split_ifs with hw
    · have hnone := accept_reserved stack f w hw
      simpa using hnone
    · simp only [System.run_cons, parser_step, accept_name stack f w hw]
      rfl

theorem readsKey_bracket {r : List LuaString} {img : Option Tree} (h : Reads r img) :
    ReadsKey ([[byte '[']] ++ (r ++ [[byte ']']])) (img.bind scalarOf) := by
  obtain ⟨ts, hclosed, hrun⟩ := h.closed
  have hopen : Closed [byte '['] [.sym (byte '[')] := by unfold Closed; decide
  have hequals : Closed [byte '='] [.sym (byte '=')] := by unfold Closed; decide
  refine ⟨[.sym (byte '[')] ++ ((ts ++ [.sym (byte ']')]) ++ [.sym (byte '=')]), ?_, ?_⟩
  · have htext := hopen.append ((hclosed (byte ']') (by simp)).append hequals)
    simpa using htext
  · intro f stack
    have hbracket : accept (between .field stack f) (.sym (byte '[')) =
        some ⟨.value, ⟨f, .key⟩ :: stack⟩ := rfl
    simp only [System.run_append, System.run_cons, System.run_nil, parser_step, hbracket,
      Option.bind_some, hrun _ _ (.value _)]
    cases img with
    | none => rfl
    | some v => cases v <;> rfl

/-! ## Tables -/

theorem omitComma_cons (body : List LuaString) :
    omitComma ([byte '{'] :: body) = [byte '{'] :: omitComma body := by
  cases body with
  | nil => rfl
  | cons r rs =>
    unfold omitComma
    rw [List.getLast?_cons_cons]
    split_ifs <;> rfl

theorem run_close {expect : Expect} (h : expect = .sep ∨ expect = .field) (stack : List Open)
    (f : Fields) :
    parser.run (between expect stack f) [.sym (byte '}')] = deliver (.table f.fields) stack := by
  have haccept : accept (between expect stack f) (.sym (byte '}')) =
      deliver (.table f.fields) stack := by
    rcases h with rfl | rfl <;> rfl
  simp [haccept]

/-- What is left of the fields when a comma at the end is omitted. -/
theorem ReadsFields.omitComma {r : List LuaString} {step : Fields → Option Fields}
    (h : ReadsFields r step) :
    ∃ ts, lex (omitComma r).flatten = some ts ∧ ∀ f stack,
      parser.run (between .field stack f) (ts ++ [.sym (byte '}')]) =
        (step f).bind fun f' => deliver (.table f'.fields) stack := by
  obtain ⟨ts, hclosed, hrun, hlast⟩ := h
  unfold LuaSerialize.omitComma
  split_ifs with hcomma
  · have htext : r.flatten = r.dropLast.flatten ++ [byte ','] := by
      have hr := List.dropLast_append_getLast? _ hcomma
      rw [← hr]
      simp
    rw [htext] at hclosed
    obtain ⟨ts', hlex, hts⟩ := closed_comma hclosed
    refine ⟨ts', hlex, fun f stack => ?_⟩
    rw [System.run_append, hlast ts' hts f stack, Option.bind_map]
    simp only [Function.comp_def, run_close (Or.inl rfl)]
  · refine ⟨ts, hclosed.lex_eq, fun f stack => ?_⟩
    rw [System.run_append, hrun, Option.bind_map]
    simp only [Function.comp_def, run_close (Or.inr rfl)]

theorem reads_table {opts : Opts} {depth : Nat} {r : List LuaString}
    {step : Fields → Option Fields} (h : ReadsFields r step) :
    Reads (tablePieces opts depth r) ((step ⟨[], 0⟩).map fun f => .table f.fields) := by
  obtain ⟨ts, hlex, hrun⟩ := h.omitComma
  have hopen : Closed [byte '{'] [.sym (byte '{')] := by unfold Closed; decide
  have hclose : lex [byte '}'] = some [.sym (byte '}')] := by decide
  have hend : lex ((omitComma r).flatten ++ (newline opts (depth - 1)).flatten ++ [byte '}']) =
      some (ts ++ [.sym (byte '}')]) := by
    unfold newline
    split_ifs
    · have hbreak : isWord (byte '\n') = false ∧ start (byte '\n') = some ([], .idle) := by decide
      have hspaces := (lex_sep hlex hbreak.1 hbreak.2).append (closed_spaces (depth - 1))
      simpa [indent] using hspaces.lex hclose
    · have hsep : isWord (byte '}') = false ∧
        start (byte '}') = some ([.sym (byte '}')], .idle) := by decide
      simpa using (lex_sep hlex hsep.1 hsep.2).lex_eq
  refine ⟨.sym (byte '{') :: (ts ++ [.sym (byte '}')]), ?_, ?_⟩
  · rw [tablePieces, omitComma_cons]
    simpa using hopen.lex hend
  · intro p stack hp
    have hbegin : accept p (.sym (byte '{')) = some (between .field stack ⟨[], 0⟩) := by
      cases hp <;> rfl
    rw [System.run_cons, parser_step, hbegin, Option.bind_some, hrun, Option.bind_map]
    rfl

/-! ## The traversal -/

/-- The value is nested at most that deep and contains nothing that has no text. -/
def Fits (heap : Heap) (opts : Opts) : Nat → Value → Prop
  | _, .nil => True
  | _, .scalar _ => True
  | _, .other _ _ => False
  | 0, .table _ => False
  | left + 1, .table ref =>
    (∀ v ∈ arrayPart opts (heap ref), Fits heap opts left v) ∧
      ∀ e ∈ otherPart opts (heap ref), Fits heap opts left e.1 ∧ Fits heap opts left e.2

/-- The tables that are met, in that order. -/
def marked (heap : Heap) (opts : Opts) : Nat → Value → List Nat
  | left + 1, .table ref =>
    ref :: ((arrayPart opts (heap ref)).flatMap (marked heap opts left) ++
      (otherPart opts (heap ref)).flatMap fun e =>
        marked heap opts left e.1 ++ marked heap opts left e.2)
  | _, _ => []

section Parts

variable (opts : Opts) (depth : Nat) {visit : Value → Visit SerializeError Nat LuaString}
  {fits : Value → Prop} {marks : Value → List Nat} {img : Value → Option Tree}

theorem serializeItem_spec (hvisit : ∀ v, Spec (visit v) (fits v) (marks v) (Reads · (img v)))
    (v : Value) :
    Spec (serializeItem opts depth visit v) (fits v) (marks v)
      (ReadsField · fun f => itemStep img f v) := by
  have hblank : Closed (if isTable v then newline opts depth else []).flatten [] := by
    split_ifs
    · exact closed_newline opts depth
    · rfl
  refine ((hvisit v).seq (Spec.output rfl)).conseq (by simp) (by simp) ?_
  rintro r ⟨a, b, rfl, ha, rfl⟩
  exact readsField_item ha hblank

theorem bareKey_eq_some {k : Value} {w : LuaString} :
    bareKey opts k = some w ↔ k = .str w ∧ opts.bracketKeys = false ∧ isName w = true := by
  unfold bareKey
  split
  · rename_i k
    cases hb : opts.bracketKeys <;> cases hn : isName k <;> simp <;> grind
  · rename_i h
    constructor
    · intro hk
      cases hk
    · rintro ⟨rfl, -⟩
      exact absurd rfl (h w)

variable (hvisit : ∀ v, Spec (visit v) (fits v) (marks v) (Reads · (img v)))
  (hfits : ∀ s, fits (.scalar s)) (hmarks : ∀ s, marks (.scalar s) = [])

include hvisit hfits hmarks

theorem serializeKey_spec (k : Value) :
    Spec (serializeKey opts visit k) (fits k) (marks k) (ReadsKey · (keyImage opts img k)) := by
  unfold serializeKey keyImage
  cases hbare : bareKey opts k with
  | some w =>
    obtain ⟨rfl, -, hname⟩ := (bareKey_eq_some opts).mp hbare
    exact (Spec.output (readsKey_bare hname)).conseq (by simp [hfits]) (hmarks _) fun _ h => h
  | none =>
    refine ((Spec.output rfl).seq ((hvisit k).seq (Spec.output rfl))).conseq (by simp)
      (by simp) ?_
    rintro r ⟨a, b, rfl, rfl, c, d, rfl, hc, rfl⟩
    exact readsKey_bracket hc

theorem serializeField_spec (e : Value × Value) :
    Spec (serializeField opts depth visit e) (fits e.1 ∧ fits e.2) (marks e.1 ++ marks e.2)
      (ReadsField · fun f => fieldStep opts img f e) := by
  have hkey := serializeKey_spec opts hvisit hfits hmarks e.1
  refine ((Spec.output rfl).seq (hkey.seq ((Spec.output rfl).seq
    ((hvisit e.2).seq (Spec.output rfl))))).conseq (by simp) (by simp) ?_
  rintro r ⟨a, b, rfl, rfl, k, c, rfl, hk, d, d', rfl, rfl, v, v', rfl, hv, rfl⟩
  exact readsField_key (closed_newline opts depth) hk hv

theorem serializeParts_spec (t : Table) :
    Spec (serializeParts opts depth visit t)
      ((∀ v ∈ arrayPart opts t, fits v) ∧ ∀ e ∈ otherPart opts t, fits e.1 ∧ fits e.2)
      ((arrayPart opts t).flatMap marks ++
        (otherPart opts t).flatMap fun e => marks e.1 ++ marks e.2)
      (ReadsFields · (partsImage opts img t)) := by
  have hblank : Closed (if compact opts t then newline opts depth else []).flatten [] := by
    split_ifs
    · exact closed_newline opts depth
    · rfl
  have hitems := Spec.each (arrayPart opts t) fun v _ =>
    serializeItem_spec opts depth hvisit v
  have hfields := Spec.each (otherPart opts t) fun e _ =>
    serializeField_spec opts depth hvisit hfits hmarks e
  refine ((Spec.output rfl).seq (hitems.seq hfields)).conseq (by simp) (by simp) ?_
  rintro r ⟨a, b, rfl, rfl, c, d, rfl, ⟨rs, rfl, hrs⟩, rs', rfl, hrs'⟩
  rw [← List.append_assoc]
  exact ((readsFields_blank hblank).each hrs).each hrs'

end Parts

section Traversal

variable (heap : Heap) {opts : Opts} {lua : Lua}

@[simp] theorem fits_scalar (left : Nat) (s : Scalar) : Fits heap opts left (.scalar s) := by
  cases left <;> trivial

@[simp] theorem marked_scalar (left : Nat) (s : Scalar) :
    marked heap opts left (.scalar s) = [] := by
  cases left <;> rfl

@[simp] theorem image_scalar (left : Nat) (s : Scalar) :
    image heap opts left (.scalar s) = some (.scalar s) := by
  cases left <;> rfl

variable (hread : Readable opts lua) (hcycle : opts.errCycle = true) (htype : opts.errType = true)

include hread in
theorem serializeR_scalar (left depth : Nat) (s : Scalar) :
    Spec (serializeR heap opts lua left depth (.scalar s)) True []
      (Reads · (some (.scalar s))) := by
  cases s with
  | bool b =>
    have hvisit : serializeR heap opts lua left depth (.scalar (.bool b)) =
        output [boolText b] := by cases left <;> rfl
    rw [hvisit]
    exact Spec.output (reads_bool b)
  | int n =>
    have hvisit : serializeR heap opts lua left depth (.scalar (.int n)) =
        output [number lua opts n] := by cases left <;> rfl
    rw [hvisit]
    exact Spec.output (reads_number hread n)
  | str w =>
    have hvisit : serializeR heap opts lua left depth (.scalar (.str w)) =
        output [quote lua.escape w] := by cases left <;> rfl
    rw [hvisit]
    exact Spec.output (reads_str hread.escapes w)

include hread hcycle htype

/-- Serializing succeeds if the value fits and no table is met twice, and what it
writes is read back as the image of the value. -/
theorem serializeR_spec (left depth : Nat) (v : Value) :
    Spec (serializeR heap opts lua left depth v) (Fits heap opts left v)
      (marked heap opts left v) (Reads · (image heap opts left v)) := by
  induction left generalizing depth v with
  | zero =>
    cases v with
    | nil => exact (Spec.output reads_nil).conseq (by simp [Fits]) rfl fun _ h => h
    | scalar s =>
      exact (serializeR_scalar heap hread 0 depth s).conseq (by simp) rfl fun _ h => h
    | table ref => exact Spec.fail _
    | other type text =>
      simp only [serializeR, htype, if_true]
      exact Spec.fail _
  | succ left ih =>
    cases v with
    | nil => exact (Spec.output reads_nil).conseq (by simp [Fits]) rfl fun _ h => h
    | scalar s =>
      exact (serializeR_scalar heap hread (left + 1) depth s).conseq (by simp) rfl fun _ h => h
    | table ref =>
      have hparts := serializeParts_spec opts depth (ih (depth + 1)) (fits_scalar heap left)
        (marked_scalar heap left) (heap ref)
      simp only [serializeR, hcycle, if_true]
      refine Spec.enter ref .cycle (Spec.mapOutput (hparts.conseq Iff.rfl rfl ?_))
      exact fun r hr => reads_table hr
    | other type text =>
      simp only [serializeR, htype, if_true]
      exact Spec.fail _

/-- What is written is read back as the image of the value. -/
theorem unserialize_serialize {v : Value} {text : LuaString}
    (h : serialize heap opts lua v = .ok text) :
    Fits heap opts (opts.maxdepth - 1).toNat v ∧
      (marked heap opts (opts.maxdepth - 1).toNat v).Nodup ∧
      unserialize text = image heap opts (opts.maxdepth - 1).toNat v := by
  have hspec := serializeR_spec heap hread hcycle htype (opts.maxdepth - 1).toNat 1 v
  unfold serialize at h
  cases hx : serializeR heap opts lua (opts.maxdepth - 1).toNat 1 v [] with
  | error e =>
    rw [hx] at h
    cases h
  | ok x =>
    rw [hx] at h
    cases h
    obtain ⟨hfits, hnodup, -, -, ts, hlex, hrun⟩ := hspec.sound [] x hx
    refine ⟨hfits, hnodup, ?_⟩
    have hreturn : Closed (bytes ['r', 'e', 't', 'u', 'r', 'n', ' '])
        [.word (bytes ['r', 'e', 't', 'u', 'r', 'n'])] := by unfold Closed; decide
    unfold unserialize
    rw [hreturn.lex hlex, Option.bind_some, load, List.cons_append, System.run_cons]
    have hchunk : accept ⟨.chunk, []⟩ (.word (bytes ['r', 'e', 't', 'u', 'r', 'n'])) =
        some ⟨.value, []⟩ := rfl
    rw [parser_step, hchunk, Option.bind_some, List.nil_append, hrun _ _ (.value [])]
    cases image heap opts (opts.maxdepth - 1).toNat v <;> rfl

/-- A value that fits and whose tables are distinct has a text. -/
theorem serialize_succeeds {v : Value} (hfits : Fits heap opts (opts.maxdepth - 1).toNat v)
    (hnodup : (marked heap opts (opts.maxdepth - 1).toNat v).Nodup) :
    ∃ text, serialize heap opts lua v = .ok text := by
  have hspec := serializeR_spec heap hread hcycle htype (opts.maxdepth - 1).toNat 1 v
  obtain ⟨x, hx⟩ := hspec.complete [] hfits hnodup (List.disjoint_nil_right _)
  exact ⟨x.1.flatten, by rw [serialize, hx]; rfl⟩

end Traversal

end LuaSerialize
