import Chdkptp.ByteMemory
import Chdkptp.LittleEndian
import Chdkptp.TracedRead

/-!
# Layouts of bytes

What a memory holds from an offset on, and computations that find their result there without
reading anything else. Numbers are laid out in either byte order.
-/

namespace ByteLayout

open TracedRead LittleEndian

variable {ε α β : Type}

/-! ## Numbers in either order -/

inductive ByteOrder where
  | little
  | big
  deriving DecidableEq, Repr

def toBytes (order : ByteOrder) (size n : Nat) : List UInt8 :=
  match order with
  | .little => bytesOf size n
  | .big => (bytesOf size n).reverse

def toNat (order : ByteOrder) (bs : List UInt8) : Nat :=
  match order with
  | .little => natOf bs
  | .big => natOf bs.reverse

@[simp] theorem toBytes_length (order : ByteOrder) (size n : Nat) :
    (toBytes order size n).length = size := by
  cases order <;> simp [toBytes]

theorem toNat_toBytes (order : ByteOrder) {size n : Nat} (h : n < 256 ^ size) :
    toNat order (toBytes order size n) = n := by
  cases order with
  | little => rw [toBytes, toNat, natOf_bytesOf, Nat.mod_eq_of_lt h]
  | big => rw [toBytes, toNat, List.reverse_reverse, natOf_bytesOf, Nat.mod_eq_of_lt h]

@[simp] theorem toBytes_zero (order : ByteOrder) (size : Nat) :
    toBytes order size 0 = List.replicate size 0 := by
  have hzero : bytesOf size 0 = List.replicate size 0 := by
    induction size with
    | zero => rfl
    | succ size ih =>
      rw [bytesOf, Nat.zero_div, ih]
      rfl
  cases order <;> simp [toBytes, hzero]

/-! ## What a memory holds -/

/-- The memory holds these bytes from an offset on. -/
def Holds (m : Bytes) (o : Nat) (bs : List UInt8) : Prop :=
  ∀ i, (h : i < bs.length) → m ((o + i : Nat) : Int) = bs[i]

@[simp] theorem holds_nil (m : Bytes) (o : Nat) : Holds m o [] := by
  intro i h
  cases h

theorem holds_append {m : Bytes} {o : Nat} {as bs : List UInt8} :
    Holds m o (as ++ bs) ↔ Holds m o as ∧ Holds m (o + as.length) bs := by
  constructor
  · intro h
    constructor
    · intro i hi
      rw [h i (by rw [List.length_append]; omega), List.getElem_append_left hi]
    · intro i hi
      have hboth := h (as.length + i) (by rw [List.length_append]; omega)
      rw [← Nat.add_assoc] at hboth
      rw [hboth, List.getElem_append_right (Nat.le_add_right _ _)]
      congr 1
      omega
  · rintro ⟨ha, hb⟩ i hi
    by_cases hlow : i < as.length
    · rw [ha i hlow, List.getElem_append_left hlow]
    · rw [List.length_append] at hi
      have hrest := hb (i - as.length) (by omega)
      have hplace : o + as.length + (i - as.length) = o + i := by omega
      rw [hplace] at hrest
      rw [hrest, List.getElem_append_right (by omega)]

theorem holds_cons {m : Bytes} {o : Nat} {b : UInt8} {bs : List UInt8} :
    Holds m o (b :: bs) ↔ m o = b ∧ Holds m (o + 1) bs := by
  rw [← List.singleton_append, holds_append]
  constructor
  · rintro ⟨hb, hbs⟩
    exact ⟨hb 0 Nat.one_pos, hbs⟩
  · rintro ⟨hb, hbs⟩
    refine ⟨fun i hi => ?_, hbs⟩
    obtain rfl : i = 0 := by simpa using hi
    exact hb

/-- A list of bytes as a memory, with zeros behind it. -/
def ofList (bs : List UInt8) : Bytes := fun o => bs.getD o.toNat 0

theorem holds_ofList (bs : List UInt8) : Holds (ofList bs) 0 bs := by
  intro i hi
  rw [ofList, Nat.zero_add, Int.toNat_natCast, List.getD_eq_getElem _ _ hi]

/-! ## Computations that stay inside -/

/-- A computation that ends with this result and reads nothing outside these bounds. -/
structure Yields (x : Traced ε α) (m : Bytes) (lo hi : Nat) (a : α) : Prop where
  result : (x m).1 = .ok a
  inside : Traced.Inside lo hi (x m).2

namespace Yields

variable {m : Bytes} {lo hi : Nat} {a : α} {b : β}

theorem pure (a : α) : Yields (Pure.pure a : Traced ε α) m lo hi a :=
  ⟨rfl, Traced.inside_nil _ _⟩

theorem apply {x : Traced ε α} (h : Yields x m lo hi a) : x m = (.ok a, (x m).2) :=
  Prod.ext h.result rfl

theorem bind {x : Traced ε α} {f : α → Traced ε β} (hx : Yields x m lo hi a)
    (hf : Yields (f a) m lo hi b) : Yields (x >>= f) m lo hi b := by
  have happly := Traced.bind_ok hx.apply f
  constructor
  · rw [happly]
    exact hf.result
  · rw [happly]
    exact Traced.inside_append.mpr ⟨hx.inside, hf.inside⟩

theorem byteAt {o : Nat} (hlo : lo ≤ o) (hhi : o < hi) :
    Yields (Traced.byteAt o : Traced ε UInt8) m lo hi (m o) := by
  refine ⟨rfl, Traced.inside_cons.mpr ⟨⟨?_, ?_⟩, Traced.inside_nil _ _⟩⟩
  · exact_mod_cast hlo
  · exact_mod_cast hhi

theorem each {γ : Type} {body : γ → Traced ε α} (f : γ → α) (l : List γ)
    (h : ∀ c ∈ l, Yields (body c) m lo hi (f c)) :
    Yields (Traced.each l body) m lo hi (l.map f) := by
  induction l with
  | nil => exact Yields.pure _
  | cons c l ih =>
    rw [Traced.each]
    refine (h c (by simp)).bind (Yields.bind (ih fun d hd => h d (by simp [hd])) ?_)
    exact Yields.pure _

end Yields

/-! ## Reading numbers -/

/-- So many bytes from an offset on. -/
def bytesAt (n o : Nat) : Traced ε (List UInt8) :=
  Traced.each (List.range n) fun i => Traced.byteAt ((o + i : Nat) : Int)

def numberAt (order : ByteOrder) (size o : Nat) : Traced ε Nat := do
  let bs ← bytesAt size o
  return toNat order bs

section Reading

variable {m : Bytes} {lo hi o : Nat}

theorem yields_bytesAt {bs : List UInt8} (h : Holds m o bs) (hlo : lo ≤ o)
    (hhi : o + bs.length ≤ hi) : Yields (bytesAt bs.length o : Traced ε _) m lo hi bs := by
  have hmap : (List.range bs.length).map (fun i => m ((o + i : Nat) : Int)) = bs := by
    apply List.ext_getElem
    · simp
    · intro i hi hi'
      simpa using h i hi'
  have heach : Yields (bytesAt bs.length o : Traced ε _) m lo hi
      ((List.range bs.length).map fun i => m ((o + i : Nat) : Int)) := by
    refine Yields.each _ _ fun i hi => ?_
    have hlt := List.mem_range.mp hi
    exact Yields.byteAt (by omega) (by omega)
  rwa [hmap] at heach

theorem yields_numberAt {order : ByteOrder} {size n : Nat}
    (h : Holds m o (toBytes order size n)) (hn : n < 256 ^ size) (hlo : lo ≤ o)
    (hhi : o + size ≤ hi) : Yields (numberAt order size o : Traced ε _) m lo hi n := by
  have hbytes : Yields (bytesAt size o : Traced ε _) m lo hi (toBytes order size n) := by
    have hall : Yields (bytesAt (toBytes order size n).length o : Traced ε _) m lo hi _ :=
      yields_bytesAt h hlo (by rw [toBytes_length]; exact hhi)
    rwa [toBytes_length] at hall
  refine hbytes.bind ?_
  rw [toNat_toBytes order hn]
  exact Yields.pure n

end Reading

/-! ## Memories that are written -/

/-- A memory as it is read. -/
def readable (m : ByteMemory.Memory) : Bytes := fun o => m o.toNat

theorem holds_readable {m : ByteMemory.Memory} {o : Nat} {bs : List UInt8}
    (h : ByteMemory.slice m o bs.length = bs) : Holds (readable m) o bs := by
  intro i hi
  have hget := List.getElem_of_eq h (by simpa using hi)
  rw [← hget, readable, Int.toNat_natCast]
  simp [ByteMemory.slice]

end ByteLayout
