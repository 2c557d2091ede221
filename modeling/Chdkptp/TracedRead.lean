import Mathlib.Data.List.Basic

/-!
# Reads and where they go

A computation that reads bytes from a memory, with the offsets that it reads. Offsets
are integers, since a pointer may also lead before what it should point into.
-/

namespace TracedRead

variable {ε α β : Type}

abbrev Bytes := Int → UInt8

/-- The result or the error, and every offset that has been read. -/
def Traced (ε α : Type) := Bytes → Except ε α × List Int

namespace Traced

def pure (a : α) : Traced ε α := fun _ => (.ok a, [])

def bind (x : Traced ε α) (f : α → Traced ε β) : Traced ε β := fun m =>
  match x m with
  | (.ok a, reads) => ((f a m).1, reads ++ (f a m).2)
  | (.error e, reads) => (.error e, reads)

instance : Monad (Traced ε) where
  pure := pure
  bind := bind

def throw (e : ε) : Traced ε α := fun _ => (.error e, [])

def byteAt (o : Int) : Traced ε UInt8 := fun m => (.ok (m o), [o])

/-- The results of a list of computations, each after the one before. -/
def each (l : List β) (body : β → Traced ε α) : Traced ε (List α) :=
  match l with
  | [] => pure []
  | b :: l => do
    let a ← body b
    let as ← each l body
    return a :: as

/-- No read leaves the bytes from `lo` on and before `hi`. -/
def Inside (lo hi : Int) (reads : List Int) : Prop := ∀ o ∈ reads, lo ≤ o ∧ o < hi

@[simp] theorem pure_apply (a : α) (m : Bytes) : (Pure.pure a : Traced ε α) m = (.ok a, []) := rfl

@[simp] theorem throw_apply (e : ε) (m : Bytes) : (throw e : Traced ε α) m = (.error e, []) := rfl

@[simp] theorem byteAt_apply (o : Int) (m : Bytes) :
    (byteAt o : Traced ε UInt8) m = (.ok (m o), [o]) := rfl

theorem bind_ok {x : Traced ε α} {m : Bytes} {a : α} {reads : List Int}
    (h : x m = (.ok a, reads)) (f : α → Traced ε β) :
    (x >>= f) m = ((f a m).1, reads ++ (f a m).2) := by
  change bind x f m = _
  rw [bind, h]

/-- Two results, one after the other. -/
theorem bind_apply {x : Traced ε α} {f : α → Traced ε β} {m : Bytes} {a : α} {r : Except ε β}
    {reads reads' : List Int} (hx : x m = (.ok a, reads)) (hf : f a m = (r, reads')) :
    (x >>= f) m = (r, reads ++ reads') := by
  rw [bind_ok hx, hf]

theorem bind_error {x : Traced ε α} {m : Bytes} {e : ε} {reads : List Int}
    (h : x m = (.error e, reads)) (f : α → Traced ε β) : (x >>= f) m = (.error e, reads) := by
  change bind x f m = _
  rw [bind, h]

@[simp] theorem pure_bind_apply (a : α) (f : α → Traced ε β) (m : Bytes) :
    ((Pure.pure a : Traced ε α) >>= f) m = f a m := by
  rw [bind_ok (pure_apply a m)]
  rfl

@[simp] theorem byteAt_bind_apply (o : Int) (f : UInt8 → Traced ε β) (m : Bytes) :
    (byteAt o >>= f) m = ((f (m o) m).1, o :: (f (m o) m).2) :=
  bind_ok (byteAt_apply o m) f

theorem eq_of_fst {x : Traced ε α} {m : Bytes} {r : Except ε α} (h : (x m).1 = r) :
    ∃ reads, x m = (r, reads) := ⟨(x m).2, Prod.ext h rfl⟩

/-- A result goes through its first part. -/
theorem of_bind_ok {x : Traced ε α} {f : α → Traced ε β} {m : Bytes} {b : β} {reads : List Int}
    (h : (x >>= f) m = (.ok b, reads)) :
    ∃ a first rest, x m = (.ok a, first) ∧ f a m = (.ok b, rest) ∧ reads = first ++ rest := by
  rcases hx : x m with ⟨r, first⟩
  cases r with
  | ok a =>
    rw [bind_ok hx f] at h
    obtain ⟨hb, hreads⟩ := Prod.mk.inj h
    exact ⟨a, first, (f a m).2, rfl, Prod.ext hb rfl, hreads.symm⟩
  | error e =>
    rw [bind_error hx f] at h
    cases h

theorem each_eq {body : β → Traced ε α} {m : Bytes} (f : β → α) (reads : β → List Int)
    (l : List β) (h : ∀ b ∈ l, body b m = (.ok (f b), reads b)) :
    each l body m = (.ok (l.map f), l.flatMap reads) := by
  induction l with
  | nil => rfl
  | cons b l ih =>
    rw [each, bind_ok (h b (by simp)), bind_ok (ih fun c hc => h c (by simp [hc]))]
    simp

theorem inside_nil (lo hi : Int) : Inside lo hi [] := fun _ ho => by cases ho

theorem inside_cons {lo hi o : Int} {l : List Int} :
    Inside lo hi (o :: l) ↔ (lo ≤ o ∧ o < hi) ∧ Inside lo hi l := List.forall_mem_cons

theorem inside_append {lo hi : Int} {l l' : List Int} :
    Inside lo hi (l ++ l') ↔ Inside lo hi l ∧ Inside lo hi l' := by
  simp only [Inside, List.forall_mem_append]

end Traced

end TracedRead
