import Chdkptp.ByteMemory

/-!
# Raw pixel accessors

The nine `raw_get_pixel_*` / `raw_set_pixel_*` pairs and the format table. Every
getter is a `switch` whose cases or together shifted and masked bytes, every
setter one whose cases assign shifted values into bytes. The cases are kept as
lists of such operands, so a case can be both executed and inspected. `addr[i]`
of the source is the function `addr` applied to `i`.
-/

namespace RawAccess

open ByteMemory

inductive Shift where
  | left (n : Nat)
  | right (n : Nat)
  deriving DecidableEq, Repr

def Shift.apply : Shift → Nat → Nat
  | .left n, v => v <<< n
  | .right n, v => v >>> n

/-- The operand `mask & ((addr[byte] & keep) shifted)` of a getter. -/
structure Load where
  mask : Nat
  byte : Nat
  keep : Nat
  shift : Shift
  deriving DecidableEq, Repr

def Load.eval (t : Load) (b : UInt8) : Nat := t.mask &&& t.shift.apply (b.toNat &&& t.keep)

/-- `addr[byte]` shifted. -/
def plain (byte : Nat) (shift : Shift) : Load := ⟨0xffffffff, byte, 0xff, shift⟩

/-- `mask & (addr[byte] shifted)`. -/
def masked (mask byte : Nat) (shift : Shift) : Load := ⟨mask, byte, 0xff, shift⟩

/-- `(addr[byte] & keep)` shifted. -/
def part (byte keep : Nat) (shift : Shift) : Load := ⟨0xffffffff, byte, keep, shift⟩

/-- The statement `addr[byte] = (addr[byte] & keep) | (value shifted)` of a setter. -/
structure Store where
  byte : Nat
  keep : Nat
  shift : Shift
  deriving DecidableEq, Repr

/-- The assigned byte: the conversion to `uint8_t` drops the high bits. -/
def Store.eval (t : Store) (b : UInt8) (value : Nat) : UInt8 :=
  UInt8.ofNat ((b.toNat &&& t.keep) ||| t.shift.apply value)

/-- `addr[byte] = value` shifted. -/
def assign (byte : Nat) (shift : Shift) : Store := ⟨byte, 0, shift⟩

/-- The selected case of a getter. No case at all is the final `return 0`. -/
def getCase (p : Memory) (addr : Nat → Nat) (loads : List Load) : Nat :=
  loads.foldl (fun v t => v ||| t.eval (p (addr t.byte))) 0

/-- The selected case of a setter, statement by statement. -/
def setCase (p : Memory) (addr : Nat → Nat) (value : Nat) (stores : List Store) : Memory :=
  stores.foldl (fun m t => put m (addr t.byte) (t.eval (m (addr t.byte)) value)) p

/-- `p + y*row_bytes + (x/pixels)*bytes`: two unsigned products added to a pointer. -/
def blockAddr (pixels bytes rowBytes x y i : Nat) : Nat :=
  y * rowBytes % 2 ^ 32 + x / pixels * bytes % 2 ^ 32 + i

/-- `p[y*row_bytes + x*bytes + i]`: one unsigned sum used as an index. -/
def indexAddr (bytes rowBytes x y i : Nat) : Nat :=
  (y * rowBytes + x * bytes + i) % 2 ^ 32

/-! ## 8 bits -/

def load8l : List Load := [plain 0 (.left 0)]

def store8l : List Store := [assign 0 (.left 0)]

def rawGetPixel8l (p : Memory) (rowBytes x y : Nat) : Nat :=
  getCase p (indexAddr 1 rowBytes x y) load8l

def rawSetPixel8l (p : Memory) (rowBytes x y value : Nat) : Memory :=
  setCase p (indexAddr 1 rowBytes x y) value store8l

/-! ## 10 bits -/

def load10l : Nat → List Load
  | 0 => [masked 0x3fc 1 (.left 2), plain 0 (.right 6)]
  | 1 => [masked 0x3f0 0 (.left 4), plain 3 (.right 4)]
  | 2 => [masked 0x3c0 3 (.left 6), plain 2 (.right 2)]
  | 3 => [masked 0x300 2 (.left 8), plain 5 (.left 0)]
  | 4 => [masked 0x3fc 4 (.left 2), plain 7 (.right 6)]
  | 5 => [masked 0x3f0 7 (.left 4), plain 6 (.right 4)]
  | 6 => [masked 0x3c0 6 (.left 6), plain 9 (.right 2)]
  | 7 => [masked 0x300 9 (.left 8), plain 8 (.left 0)]
  | _ => []

def store10l : Nat → List Store
  | 0 => [⟨0, 0x3F, .left 6⟩, assign 1 (.right 2)]
  | 1 => [⟨0, 0xC0, .right 4⟩, ⟨3, 0x0F, .left 4⟩]
  | 2 => [⟨2, 0x03, .left 2⟩, ⟨3, 0xF0, .right 6⟩]
  | 3 => [⟨2, 0xFC, .right 8⟩, assign 5 (.left 0)]
  | 4 => [assign 4 (.right 2), ⟨7, 0x3F, .left 6⟩]
  | 5 => [⟨6, 0x0F, .left 4⟩, ⟨7, 0xC0, .right 4⟩]
  | 6 => [⟨6, 0xF0, .right 6⟩, ⟨9, 0x03, .left 2⟩]
  | 7 => [assign 8 (.left 0), ⟨9, 0xFC, .right 8⟩]
  | _ => []

def rawGetPixel10l (p : Memory) (rowBytes x y : Nat) : Nat :=
  getCase p (blockAddr 8 10 rowBytes x y) (load10l (x % 8))

def rawSetPixel10l (p : Memory) (rowBytes x y value : Nat) : Memory :=
  setCase p (blockAddr 8 10 rowBytes x y) value (store10l (x % 8))

def load10b : Nat → List Load
  | 0 => [masked 0x3fc 0 (.left 2), plain 1 (.right 6)]
  | 1 => [masked 0x3f0 1 (.left 4), plain 2 (.right 4)]
  | 2 => [masked 0x3c0 2 (.left 6), plain 3 (.right 2)]
  | 3 => [masked 0x300 3 (.left 8), plain 4 (.left 0)]
  | _ => []

def store10b : Nat → List Store
  | 0 => [assign 0 (.right 2), ⟨1, 0x3F, .left 6⟩]
  | 1 => [⟨1, 0xC0, .right 4⟩, ⟨2, 0x0F, .left 4⟩]
  | 2 => [⟨3, 0x03, .left 2⟩, ⟨2, 0xF0, .right 6⟩]
  | 3 => [⟨3, 0xFC, .right 8⟩, assign 4 (.left 0)]
  | _ => []

def rawGetPixel10b (p : Memory) (rowBytes x y : Nat) : Nat :=
  getCase p (blockAddr 4 5 rowBytes x y) (load10b (x % 4))

def rawSetPixel10b (p : Memory) (rowBytes x y value : Nat) : Memory :=
  setCase p (blockAddr 4 5 rowBytes x y) value (store10b (x % 4))

/-! ## 12 bits -/

def load12l : Nat → List Load
  | 0 => [plain 1 (.left 4), plain 0 (.right 4)]
  | 1 => [part 0 0x0F (.left 8), plain 3 (.left 0)]
  | 2 => [plain 2 (.left 4), plain 5 (.right 4)]
  | 3 => [part 5 0x0F (.left 8), plain 4 (.left 0)]
  | _ => []

def store12l : Nat → List Store
  | 0 => [⟨0, 0x0F, .left 4⟩, assign 1 (.right 4)]
  | 1 => [⟨0, 0xF0, .right 8⟩, assign 3 (.left 0)]
  | 2 => [assign 2 (.right 4), ⟨5, 0x0F, .left 4⟩]
  | 3 => [assign 4 (.left 0), ⟨5, 0xF0, .right 8⟩]
  | _ => []

def rawGetPixel12l (p : Memory) (rowBytes x y : Nat) : Nat :=
  getCase p (blockAddr 4 6 rowBytes x y) (load12l (x % 4))

def rawSetPixel12l (p : Memory) (rowBytes x y value : Nat) : Memory :=
  setCase p (blockAddr 4 6 rowBytes x y) value (store12l (x % 4))

/-- The getter tests `x&1` with an `if`. -/
def load12b : Nat → List Load
  | 1 => [part 1 0x0F (.left 8), plain 2 (.left 0)]
  | _ => [plain 0 (.left 4), plain 1 (.right 4)]

/-- The or-ed operands are cast to `unsigned char` before the assignment. -/
def store12b : Nat → List Store
  | 0 => [assign 0 (.right 4), ⟨1, 0x0F, .left 4⟩]
  | 1 => [⟨1, 0xF0, .right 8⟩, assign 2 (.left 0)]
  | _ => []

def rawGetPixel12b (p : Memory) (rowBytes x y : Nat) : Nat :=
  getCase p (blockAddr 2 3 rowBytes x y) (load12b (x % 2))

def rawSetPixel12b (p : Memory) (rowBytes x y value : Nat) : Memory :=
  setCase p (blockAddr 2 3 rowBytes x y) value (store12b (x % 2))

/-! ## 14 bits -/

def load14l : Nat → List Load
  | 0 => [plain 1 (.left 6), plain 0 (.right 2)]
  | 1 => [part 0 0x03 (.left 12), plain 3 (.left 4), plain 2 (.right 4)]
  | 2 => [part 2 0x0F (.left 10), plain 5 (.left 2), plain 4 (.right 6)]
  | 3 => [part 4 0x3F (.left 8), plain 7 (.left 0)]
  | 4 => [plain 6 (.left 6), plain 9 (.right 2)]
  | 5 => [part 9 0x03 (.left 12), plain 8 (.left 4), plain 11 (.right 4)]
  | 6 => [part 11 0x0F (.left 10), plain 10 (.left 2), plain 13 (.right 6)]
  | 7 => [part 13 0x3F (.left 8), plain 12 (.left 0)]
  | _ => []

def store14l : Nat → List Store
  | 0 => [⟨0, 0x03, .left 2⟩, assign 1 (.right 6)]
  | 1 => [⟨0, 0xFC, .right 12⟩, ⟨2, 0x0F, .left 4⟩, assign 3 (.right 4)]
  | 2 => [⟨2, 0xF0, .right 10⟩, ⟨4, 0x3F, .left 6⟩, assign 5 (.right 2)]
  | 3 => [⟨4, 0xC0, .right 8⟩, assign 7 (.left 0)]
  | 4 => [assign 6 (.right 6), ⟨9, 0x03, .left 2⟩]
  | 5 => [assign 8 (.right 4), ⟨9, 0xFC, .right 12⟩, ⟨11, 0x0F, .left 4⟩]
  | 6 => [assign 10 (.right 2), ⟨11, 0xF0, .right 10⟩, ⟨13, 0x3F, .left 6⟩]
  | 7 => [assign 12 (.left 0), ⟨13, 0xC0, .right 8⟩]
  | _ => []

def rawGetPixel14l (p : Memory) (rowBytes x y : Nat) : Nat :=
  getCase p (blockAddr 8 14 rowBytes x y) (load14l (x % 8))

def rawSetPixel14l (p : Memory) (rowBytes x y value : Nat) : Memory :=
  setCase p (blockAddr 8 14 rowBytes x y) value (store14l (x % 8))

def load14b : Nat → List Load
  | 0 => [plain 0 (.left 6), plain 1 (.right 2)]
  | 1 => [part 1 0x03 (.left 12), plain 2 (.left 4), plain 3 (.right 4)]
  | 2 => [part 3 0x0F (.left 10), plain 4 (.left 2), plain 5 (.right 6)]
  | 3 => [part 5 0x3F (.left 8), plain 6 (.left 0)]
  | _ => []

def store14b : Nat → List Store
  | 0 => [⟨1, 0x03, .left 2⟩, assign 0 (.right 6)]
  | 1 => [⟨1, 0xFC, .right 12⟩, ⟨3, 0x0F, .left 4⟩, assign 2 (.right 4)]
  | 2 => [⟨3, 0xF0, .right 10⟩, ⟨5, 0x3F, .left 6⟩, assign 4 (.right 2)]
  | 3 => [⟨5, 0xC0, .right 8⟩, assign 6 (.left 0)]
  | _ => []

def rawGetPixel14b (p : Memory) (rowBytes x y : Nat) : Nat :=
  getCase p (blockAddr 4 7 rowBytes x y) (load14b (x % 4))

/-- The block has four pixels, but the source switches on `x%8`: for the upper
four residues no case is selected and nothing is stored. -/
def rawSetPixel14b (p : Memory) (rowBytes x y value : Nat) : Memory :=
  setCase p (blockAddr 4 7 rowBytes x y) value (store14b (x % 8))

/-! ## 16 bits

The little endian pair goes through an `unsigned short` pointer; the two bytes
are spelled out for a little endian host. -/

def load16l : List Load := [plain 0 (.left 0), plain 1 (.left 8)]

def store16l : List Store := [assign 0 (.left 0), assign 1 (.right 8)]

def rawGetPixel16l (p : Memory) (rowBytes x y : Nat) : Nat :=
  getCase p (blockAddr 1 2 rowBytes x y) load16l

def rawSetPixel16l (p : Memory) (rowBytes x y value : Nat) : Memory :=
  setCase p (blockAddr 1 2 rowBytes x y) value store16l

def load16b : List Load := [plain 0 (.left 8), plain 1 (.left 0)]

def store16b : List Store := [assign 0 (.right 8), assign 1 (.left 0)]

def rawGetPixel16b (p : Memory) (rowBytes x y : Nat) : Nat :=
  getCase p (indexAddr 2 rowBytes x y) load16b

def rawSetPixel16b (p : Memory) (rowBytes x y value : Nat) : Memory :=
  setCase p (indexAddr 2 rowBytes x y) value store16b

/-! ## The format table -/

inductive Endian where
  | little | big
  deriving DecidableEq, Repr

/-- The entries of `raw_formats`, named by depth and byte order. -/
inductive RawFormat where
  | raw8l | raw10l | raw10b | raw12l | raw12b | raw14l | raw14b | raw16l | raw16b
  deriving DecidableEq, Repr

def rawFormats : List RawFormat :=
  [.raw8l, .raw10l, .raw10b, .raw12l, .raw12b, .raw14l, .raw14b, .raw16l, .raw16b]

namespace RawFormat

def bpp : RawFormat → Nat
  | raw8l => 8
  | raw10l | raw10b => 10
  | raw12l | raw12b => 12
  | raw14l | raw14b => 14
  | raw16l | raw16b => 16

def endian : RawFormat → Endian
  | raw8l | raw10l | raw12l | raw14l | raw16l => .little
  | raw10b | raw12b | raw14b | raw16b => .big

def blockBytes : RawFormat → Nat
  | raw8l => 1
  | raw10l => 10
  | raw10b => 5
  | raw12l => 6
  | raw12b => 3
  | raw14l => 14
  | raw14b => 7
  | raw16l => 2
  | raw16b => 2

def blockPixels (f : RawFormat) : Nat := f.blockBytes * 8 / f.bpp

def getPixel : RawFormat → Memory → (rowBytes x y : Nat) → Nat
  | raw8l => rawGetPixel8l
  | raw10l => rawGetPixel10l
  | raw10b => rawGetPixel10b
  | raw12l => rawGetPixel12l
  | raw12b => rawGetPixel12b
  | raw14l => rawGetPixel14l
  | raw14b => rawGetPixel14b
  | raw16l => rawGetPixel16l
  | raw16b => rawGetPixel16b

def setPixel : RawFormat → Memory → (rowBytes x y value : Nat) → Memory
  | raw8l => rawSetPixel8l
  | raw10l => rawSetPixel10l
  | raw10b => rawSetPixel10b
  | raw12l => rawSetPixel12l
  | raw12b => rawSetPixel12b
  | raw14l => rawSetPixel14l
  | raw14b => rawSetPixel14b
  | raw16l => rawSetPixel16l
  | raw16b => rawSetPixel16b

/-! What each pair of accessors is made of. -/

def addr : RawFormat → (rowBytes x y i : Nat) → Nat
  | raw8l => indexAddr 1
  | raw10l => blockAddr 8 10
  | raw10b => blockAddr 4 5
  | raw12l => blockAddr 4 6
  | raw12b => blockAddr 2 3
  | raw14l => blockAddr 8 14
  | raw14b => blockAddr 4 7
  | raw16l => blockAddr 1 2
  | raw16b => indexAddr 2

def loads : RawFormat → (x : Nat) → List Load
  | raw8l, _ => load8l
  | raw10l, x => load10l (x % 8)
  | raw10b, x => load10b (x % 4)
  | raw12l, x => load12l (x % 4)
  | raw12b, x => load12b (x % 2)
  | raw14l, x => load14l (x % 8)
  | raw14b, x => load14b (x % 4)
  | raw16l, _ => load16l
  | raw16b, _ => load16b

def stores : RawFormat → (x : Nat) → List Store
  | raw8l, _ => store8l
  | raw10l, x => store10l (x % 8)
  | raw10b, x => store10b (x % 4)
  | raw12l, x => store12l (x % 4)
  | raw12b, x => store12b (x % 2)
  | raw14l, x => store14l (x % 8)
  | raw14b, x => store14b (x % 8)
  | raw16l, _ => store16l
  | raw16b, _ => store16b

theorem getPixel_eq (f : RawFormat) (p : Memory) (rowBytes x y : Nat) :
    f.getPixel p rowBytes x y = getCase p (f.addr rowBytes x y) (f.loads x) := by
  cases f <;> rfl

theorem setPixel_eq (f : RawFormat) (p : Memory) (rowBytes x y value : Nat) :
    f.setPixel p rowBytes x y value = setCase p (f.addr rowBytes x y) value (f.stores x) := by
  cases f <;> rfl

/-- The accessors see a column only through its residue and its block. -/
theorem loads_mod (f : RawFormat) (x : Nat) : f.loads x = f.loads (x % 8) := by
  have h4 : 4 ∣ 8 := by decide
  have h2 : 2 ∣ 8 := by decide
  cases f <;> simp [loads, Nat.mod_mod_of_dvd _ h4, Nat.mod_mod_of_dvd _ h2]

theorem stores_mod (f : RawFormat) (x : Nat) : f.stores x = f.stores (x % 8) := by
  have h4 : 4 ∣ 8 := by decide
  have h2 : 2 ∣ 8 := by decide
  cases f <;> simp [stores, Nat.mod_mod_of_dvd _ h4, Nat.mod_mod_of_dvd _ h2]

end RawFormat

/-- Offsets of the bytes a getter reads and a setter assigns (each assignment
reads only its own byte). -/
def readOffsets (f : RawFormat) (rowBytes x y : Nat) : List Nat :=
  (f.loads x).map (fun t => f.addr rowBytes x y t.byte)

def writeOffsets (f : RawFormat) (rowBytes x y : Nat) : List Nat :=
  (f.stores x).map (fun t => f.addr rowBytes x y t.byte)

/-- `rawimg_find_format`: 8 bits match either byte order. -/
def rawimgFindFormat (bpp : Nat) (endian : Endian) : Option RawFormat :=
  rawFormats.find? (fun f =>
    decide (f.bpp = bpp) && (decide (bpp = 8) || decide (f.endian = endian)))

theorem rawimgFindFormat_bpp {bpp : Nat} {endian : Endian} {f : RawFormat}
    (h : rawimgFindFormat bpp endian = some f) : f.bpp = bpp := by
  have hp := List.find?_some h
  simp only [Bool.and_eq_true, decide_eq_true_eq] at hp
  exact hp.1

end RawAccess
