import Chdkptp.Lbuf
import Chdkptp.PtpSend

/-!
# Elements of Lua buffers

The accessors of `lBuf_t` for one 32-bit value, and reading and writing files.
-/

namespace Lbuf

open ByteMemory PtpUsb PtpSend

/-- What an accessor of one value returns. -/
inductive Got (α : Type) where
  | value (v : α)
  | nil
  | raised
  deriving DecidableEq, Repr

def Got.map {α β : Type} (f : α → β) : Got α → Got β
  | .value v => .value (f v)
  | .nil => .nil
  | .raised => .raised

/-- `int32_t` of 32 bits. -/
def toInt32 (n : UInt32) : Int := if n.toNat < 2 ^ 31 then n.toNat else n.toNat - 2 ^ 32

/-- `get_vals` of one value of four bytes. The test `off > buf->len - size` is
unsigned; in a buffer of fewer than four bytes it lets an offset through, and the
count is then rounded down to none, or wraps and does not fit the Lua stack. -/
def getVals32 (buf : LBuf) (off : Int) : Got UInt32 :=
  if off < 0 then .raised
  else if (buf.len - 4).toNat < off.toNat then .nil
  else if buf.len.toNat < off.toNat + 4 then
    if (buf.len - UInt32.ofNat off.toNat).toNat / 4 = 0 then .nil else .raised
  else .value (dtoh32 buf.bytes off.toNat)

def lbufGetI32 (buf : LBuf) (off : Int) : Got Int := (getVals32 buf off).map toInt32

def lbufGetU32 (buf : LBuf) (off : Int) : Got UInt32 := getVals32 buf off

theorem getVals32_inside (buf : LBuf) (off : Nat) (h : off + 4 ≤ buf.len.toNat) :
    getVals32 buf off = .value (dtoh32 buf.bytes off) := by
  have hlen : (4 : UInt32) ≤ buf.len := by
    rw [UInt32.le_iff_toNat_le]
    simp only [UInt32.reduceToNat]
    omega
  have hsub := UInt32.toNat_sub_of_le _ _ hlen
  simp only [UInt32.reduceToNat] at hsub
  unfold getVals32
  rw [if_neg (by omega), if_neg (by simp only [Int.toNat_natCast]; omega),
    if_neg (by simp only [Int.toNat_natCast]; omega), Int.toNat_natCast]

/-- `set_vals` of one value of four bytes; `none` when it raises. -/
def lbufSetU32 (buf : LBuf) (off : Int) (v : UInt32) : Option LBuf :=
  if off < 0 then none
  else if (buf.len - 4).toNat < off.toNat then some buf
  else if (buf.len - UInt32.ofNat off.toNat).toNat < 4 then some buf
  else some { buf with bytes := put32 buf.bytes off.toNat v }

/-- `lbuf.new(len)` -/
def lbufNew (len : UInt32) : LBuf := ⟨len, fun _ => 0⟩

/-- The bytes of a buffer. -/
def LBuf.contents (buf : LBuf) : List UInt8 := slice buf.bytes 0 buf.len.toNat

@[simp] theorem contents_length (buf : LBuf) : buf.contents.length = buf.len.toNat := by
  simp [LBuf.contents]

/-! ## Files -/

inductive FileError where
  | invalidOffset
  | invalidArgument
  deriving DecidableEq, Repr

/-- `lbuf_fwrite` with its default offset and count; what is written comes behind what
the file holds. -/
def lbufFwrite (buf : LBuf) (file : List UInt8) : Except FileError (List UInt8) :=
  if buf.len ≤ 0 then .error .invalidOffset else .ok (file ++ buf.contents)

/-- What `lbuf_fread` leaves: whether it was not at the end of the file, the buffer and
the rest of the file. -/
structure ReadResult where
  ok : Bool
  buf : LBuf
  file : List UInt8

/-- `lbuf_fread` with its default offset and count. The bytes in front of the end of the
file are stored also when they are too few. -/
def lbufFread (buf : LBuf) (file : List UInt8) : Except FileError ReadResult :=
  if buf.len ≤ 0 then .error .invalidOffset
  else .ok {
    ok := decide (buf.len.toNat ≤ file.length)
    buf := { buf with bytes := blit buf.bytes 0 (file.take buf.len.toNat) }
    file := file.drop buf.len.toNat }

theorem not_le_zero {n : UInt32} (h : n ≠ 0) : ¬n ≤ 0 := fun hle =>
  h (UInt32.le_antisymm hle UInt32.zero_le)

/-- A buffer that the file can fill holds what was in front. -/
theorem lbufFread_append (buf : LBuf) (front file : List UInt8) (hne : buf.len ≠ 0)
    (hlen : front.length = buf.len.toNat) :
    lbufFread buf (front ++ file) =
      .ok ⟨true, { buf with bytes := blit buf.bytes 0 front }, file⟩ := by
  unfold lbufFread
  rw [if_neg (not_le_zero hne), ← hlen]
  simp

theorem lbufFread_end (buf : LBuf) (hne : buf.len ≠ 0) :
    lbufFread buf [] = .ok ⟨false, { buf with bytes := blit buf.bytes 0 [] }, []⟩ := by
  have hlen : buf.len.toNat ≠ 0 := fun h => hne (UInt32.toNat_inj.mp h)
  unfold lbufFread
  rw [if_neg (not_le_zero hne)]
  simp [hlen]

theorem contents_blit (buf : LBuf) (front : List UInt8) (hlen : front.length = buf.len.toNat) :
    LBuf.contents { buf with bytes := blit buf.bytes 0 front } = front := by
  unfold LBuf.contents
  simp only
  rw [← hlen, slice_blit_same]

/-- A list of bytes in a buffer. -/
def LBuf.ofList (l : List UInt8) : LBuf := ⟨UInt32.ofNat l.length, fun i => l.getD i 0⟩

end Lbuf
