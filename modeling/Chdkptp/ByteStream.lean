import Mathlib.Order.Basic

/-!
# Byte streams in pieces

A reader of a byte stream gets it in pieces that someone else has chosen: every
call returns some bytes, at most as many as were asked for, or fails. A transport
is the list of what its calls will return. A piece longer than asked for is split
and its rest is returned by the next call, so every sequence of replies that keeps
to the sizes asked for is the one of some transport.
-/

namespace ByteStream

inductive Event where
  | recv (bytes : List UInt8)
  | fail
  deriving DecidableEq, Repr

abbrev Transport := List Event

/-- The bytes still to come. -/
def pending : Transport → List UInt8
  | [] => []
  | .recv bytes :: t => bytes ++ pending t
  | .fail :: t => pending t

/-- Decreases with every successful call that asks for something. -/
def work : Transport → Nat
  | [] => 0
  | .recv bytes :: t => bytes.length + 1 + work t
  | .fail :: t => work t

/-- No call fails before the stream ends. -/
def Reliable (t : Transport) : Prop := Event.fail ∉ t

instance (t : Transport) : Decidable (Reliable t) := inferInstanceAs (Decidable (Event.fail ∉ t))

/-- One call for up to `size` bytes; `none` is a failure, also the one at the end. -/
def read (t : Transport) (size : Nat) : Option (List UInt8) × Transport :=
  match t with
  | [] => (none, [])
  | .fail :: t => (none, t)
  | .recv bytes :: t =>
    if bytes.length ≤ size then (some bytes, t)
    else (some (bytes.take size), .recv (bytes.drop size) :: t)

/-- What a successful call guarantees. -/
structure Received (t : Transport) (size : Nat) (got : List UInt8) (t' : Transport) : Prop where
  length : got.length ≤ size
  stream : got ++ pending t' = pending t
  work : 0 < size → work t' < work t
  reliable : Reliable t → Reliable t'

theorem read_some {t t' : Transport} {size : Nat} {got : List UInt8}
    (h : read t size = (some got, t')) : Received t size got t' := by
  cases t with
  | nil => cases h
  | cons e t =>
    cases e with
    | fail => cases h
    | recv bytes =>
      simp only [read] at h
      split at h
      · rename_i hle
        cases h
        refine ⟨hle, rfl, ?_, ?_⟩
        · intro _
          simp only [work]
          omega
        · intro hr hmem
          exact hr (List.mem_cons_of_mem _ hmem)
      · rename_i hgt
        cases h
        refine ⟨List.length_take_le _ _, ?_, ?_, ?_⟩
        · simp only [pending, ← List.append_assoc, List.take_append_drop]
        · intro hpos
          simp only [work, List.length_drop]
          omega
        · intro hr hmem
          rcases List.mem_cons.mp hmem with h | h
          · cases h
          · exact hr (List.mem_cons_of_mem _ h)

/-- A successful call takes its bytes off the work left. -/
theorem read_work {t t' : Transport} {size : Nat} {got : List UInt8}
    (h : read t size = (some got, t')) : work t' + got.length ≤ work t := by
  cases t with
  | nil => cases h
  | cons e t =>
    cases e with
    | fail => cases h
    | recv bytes =>
      simp only [read] at h
      split at h
      · cases h
        simp only [work]
        omega
      · rename_i hgt
        cases h
        simp only [work, List.length_drop, List.length_take]
        omega

/-- A reliable transport fails only when nothing is left. -/
theorem read_none {t t' : Transport} {size : Nat} (h : read t size = (none, t'))
    (hr : Reliable t) : pending t = [] := by
  cases t with
  | nil => rfl
  | cons e t =>
    cases e with
    | fail => exact absurd List.mem_cons_self hr
    | recv bytes =>
      simp only [read] at h
      split at h <;> cases h

/-- A failing call takes nothing from the stream. -/
theorem read_none_pending {t t' : Transport} {size : Nat} (h : read t size = (none, t')) :
    pending t' = pending t := by
  cases t with
  | nil =>
    cases h
    rfl
  | cons e t =>
    cases e with
    | fail =>
      cases h
      rfl
    | recv bytes =>
      simp only [read] at h
      split at h <;> cases h

end ByteStream
