import Chdkptp.LuaQuote
import Chdkptp.Visiting

/-!
# Serializing values

`util.serialize` collects pieces of text and concatenates them. A table that is met
again is an error or a note, also when it is only shared; the array part of a table
is written first and without keys.
-/

namespace LuaSerialize

open LuaValue LuaText Visiting

/-- The options, defaults filled in. -/
structure Opts where
  maxdepth : Int
  errType : Bool
  errCycle : Bool
  pretty : Bool
  fixBignum : Bool
  forceint : Bool
  bracketKeys : Bool
  compactArrays : Bool

/-- `util.serialize_defaults`. -/
def serializeDefaults : Opts where
  maxdepth := 10
  errType := true
  errCycle := true
  pretty := true
  fixBignum := true
  forceint := true
  bracketKeys := false
  compactArrays := true

/-- What the Lua that runs the code decides. -/
structure Lua where
  /-- `tostring` of a number. -/
  tostring : Int → LuaString
  /-- `%q` of a character and the one behind it. -/
  escape : UInt8 → Option UInt8 → LuaString

inductive SerializeError where
  | maxDepth
  | cycle
  | unsupportedType (type : LuaString)

def SerializeError.message : SerializeError → LuaString
  | .maxDepth => bytes
    ['s', 'e', 'r', 'i', 'a', 'l', 'i', 'z', 'e', ':', ' ', 'm', 'a', 'x', ' ', 'd', 'e', 'p', 't', 'h']
  | .cycle => bytes
    ['s', 'e', 'r', 'i', 'a', 'l', 'i', 'z', 'e', ':', ' ', 'c', 'y', 'c', 'l', 'e']
  | .unsupportedType type => bytes
    ['s', 'e', 'r', 'i', 'a', 'l', 'i', 'z', 'e', ':', ' ', 'u', 'n', 's', 'u', 'p', 'p', 'o', 'r',
      't', 'e', 'd', ' ', 't', 'y', 'p', 'e', ' '] ++ type

/-- `%d` of an integer. -/
def decimal (n : Int) : LuaString :=
  if n < 0 then byte '-' :: numeralText 10 n.natAbs else numeralText 10 n.natAbs

/-- `util.round`, which leaves integers alone. -/
def round (n : Int) : Int := n

def number (lua : Lua) (opts : Opts) (n : Int) : LuaString :=
  if opts.forceint then
    if opts.fixBignum ∧ n > 0x7FFFFFFF then bytes ['0', 'x'] ++ numeralText 16 (round n).toNat
    else decimal (round n)
  else lua.tostring n

/-- The match with `^[_%a][%a%d_]*$`. -/
def isName : LuaString → Bool
  | c :: cs => isLetter c && cs.all isWord
  | [] => false

/-- The key as it is written without brackets. -/
def bareKey (opts : Opts) : Value → Option LuaString
  | .scalar (.str k) => if !opts.bracketKeys && isName k then some k else none
  | _ => none

def boolText : Bool → LuaString
  | true => bytes ['t', 'r', 'u', 'e']
  | false => bytes ['f', 'a', 'l', 's', 'e']

def indent (depth : Nat) : LuaString := byte '\n' :: List.replicate depth (byte ' ')

/-- A line break, if the output is pretty. -/
def newline (opts : Opts) (depth : Nat) : List LuaString :=
  if opts.pretty then [indent depth] else []

def isTable : Value → Bool
  | .table _ => true
  | _ => false

/-- The array part is written without keys. -/
def compact (opts : Opts) (t : Table) : Bool := opts.compactArrays && 0 < t.border

def arrayPart (opts : Opts) (t : Table) : List Value := if compact opts t then t.ipairs else []

/-- The condition in the loop over `pairs`. -/
def isOther (opts : Opts) (t : Table) : Value → Bool
  | .scalar (.int k) => !opts.compactArrays || k < 1 || t.border < k
  | _ => true

def otherPart (opts : Opts) (t : Table) : List (Value × Value) :=
  t.entries.filter fun e => isOther opts t e.1

def omitComma (r : List LuaString) : List LuaString :=
  if r.getLast? = some [byte ','] then r.dropLast else r

/-- The pieces of a table from those of its parts. -/
def tablePieces (opts : Opts) (depth : Nat) (r : List LuaString) : List LuaString :=
  omitComma ([byte '{'] :: r) ++ newline opts (depth - 1) ++ [[byte '}']]

section Parts

variable (opts : Opts) (depth : Nat) (visit : Value → Visit SerializeError Nat LuaString)

/-- A pass of the loop over `ipairs`. -/
def serializeItem (v : Value) : Visit SerializeError Nat LuaString :=
  seq (visit v) (output ([byte ','] :: if isTable v then newline opts depth else []))

def serializeKey (k : Value) : Visit SerializeError Nat LuaString :=
  match bareKey opts k with
  | some w => output [w]
  | none => seq (output [[byte '[']]) (seq (visit k) (output [[byte ']']]))

/-- A pass of the loop over `pairs`. -/
def serializeField (e : Value × Value) : Visit SerializeError Nat LuaString :=
  seq (output (newline opts depth))
    (seq (serializeKey opts visit e.1)
      (seq (output [[byte '=']]) (seq (visit e.2) (output [[byte ',']]))))

def serializeParts (t : Table) : Visit SerializeError Nat LuaString :=
  seq (output (if compact opts t then newline opts depth else []))
    (seq (each (serializeItem opts depth visit) (arrayPart opts t))
      (each (serializeField opts depth visit) (otherPart opts t)))

end Parts

/-- `serialize_r`. The recursion is on how many levels are left before `maxdepth`. -/
def serializeR (heap : Heap) (opts : Opts) (lua : Lua) :
    Nat → Nat → Value → Visit SerializeError Nat LuaString
  | _, _, .nil => output [bytes ['n', 'i', 'l']]
  | _, _, .scalar (.bool b) => output [boolText b]
  | _, _, .scalar (.int n) => output [number lua opts n]
  | _, _, .scalar (.str s) => output [quote lua.escape s]
  | _, _, .other type text =>
    if opts.errType then fail (.unsupportedType type)
    else output [byte '"' :: text ++ [byte '"']]
  | 0, _, .table _ => fail .maxDepth
  | left + 1, depth, .table ref =>
    enter ref
      (if opts.errCycle then fail .cycle
        else output [bytes ['"', 'c', 'y', 'c', 'l', 'e', ':'] ++ (heap ref).text ++ [byte '"']])
      (mapOutput (tablePieces opts depth)
        (serializeParts opts depth (serializeR heap opts lua left (depth + 1)) (heap ref)))

/-- `serialize`; the first table is at depth 1. -/
def serialize (heap : Heap) (opts : Opts) (lua : Lua) (v : Value) :
    Except SerializeError LuaString :=
  (serializeR heap opts lua (opts.maxdepth - 1).toNat 1 v []).map fun x => x.1.flatten

/-! ## The two copies -/

/-- The Lua of the host. -/
def lua52 (tostring : Int → LuaString) : Lua where
  tostring := tostring
  escape := escape52

/-- The Lua of the camera, whose numbers are integers. -/
def luaCamera : Lua where
  tostring := decimal
  escape := escape51

/-- `serialize_defaults` of the camera's copy, which writes all numbers by `tostring`. -/
def cameraDefaults : Opts where
  maxdepth := 10
  errType := true
  errCycle := true
  pretty := false
  fixBignum := false
  forceint := false
  bracketKeys := false
  compactArrays := true

end LuaSerialize
