import Mathlib.Data.List.Pairwise
import Mathlib.Data.List.Basic

/-!
# Conversations

One side asks, the other takes one request after the other and answers each at most once; both
directions are queues. A request has a number that neither side sees. It is followed from the
moment it is asked until its answer is received or lost.
-/

namespace Conversation

variable {α β : Type}

/-- The two queues and what is being worked on, with what has been asked, received and lost so
far. -/
structure Line (α β : Type) where
  inbox : List (Nat × α) := []
  busy : Option (Nat × α) := none
  outbox : List (Nat × β) := []
  asked : List α := []
  received : List Nat := []
  lost : List Nat := []

namespace Line

variable (l : Line α β)

/-- The requests that have been taken or will be, in order. -/
def requests : List (Nat × α) := l.busy.toList ++ l.inbox

/-- The requests whose answers have not been received, in order. -/
def waiting : List Nat := l.outbox.map Prod.fst ++ l.requests.map Prod.fst

def ask (a : α) : Line α β :=
  { l with inbox := l.inbox ++ [(l.asked.length, a)], asked := l.asked ++ [a] }

/-- The next request is taken. -/
def take : Option (Line α β) :=
  match l.busy, l.inbox with
  | none, p :: inbox => some { l with busy := some p, inbox }
  | _, _ => none

/-- What is being worked on is answered. -/
def answer (b : β) : Option (Line α β) :=
  l.busy.map fun p => { l with busy := none, outbox := l.outbox ++ [(p.1, b)] }

/-- Its answer is lost. -/
def lose : Option (Line α β) :=
  l.busy.map fun p => { l with busy := none, lost := l.lost ++ [p.1] }

/-- All requests are lost. -/
def stop : Line α β :=
  { l with busy := none, inbox := [], lost := l.lost ++ l.requests.map Prod.fst }

/-- The next answer is received. -/
def receive : Option ((Nat × β) × Line α β) :=
  match l.outbox with
  | [] => none
  | p :: outbox => some (p, { l with outbox, received := l.received ++ [p.1] })

/-- Answers come in the order of the requests, each once, and no request is forgotten. -/
structure InOrder : Prop where
  sorted : (l.received ++ l.waiting).Pairwise (· < ·)
  accounted : ∀ n, n < l.asked.length ↔ n ∈ l.received ++ l.waiting ∨ n ∈ l.lost
  apart : ∀ n ∈ l.lost, n ∉ l.received ++ l.waiting
  texts : ∀ p ∈ l.requests, l.asked[p.1]? = some p.2

end Line

section Steps

variable {l l' : Line α β}

theorem inOrder_start : ({} : Line α β).InOrder where
  sorted := List.Pairwise.nil
  accounted n := by simp [Line.waiting, Line.requests]
  apart n hn := absurd hn List.not_mem_nil
  texts p hp := absurd hp List.not_mem_nil

/-! ## What each step does -/

theorem waiting_ask (a : α) : (l.ask a).waiting = l.waiting ++ [l.asked.length] := by
  simp [Line.ask, Line.waiting, Line.requests]

theorem take_eq (h : l.take = some l') :
    l'.waiting = l.waiting ∧ l'.requests = l.requests ∧ l'.asked = l.asked ∧
      l'.received = l.received ∧ l'.lost = l.lost := by
  rw [Line.take] at h
  split at h
  · next p inbox hbusy hinbox =>
    cases h
    simp [Line.waiting, Line.requests, hbusy, hinbox]
  · cases h

theorem answer_eq {b : β} (h : l.answer b = some l') :
    l'.waiting = l.waiting ∧ l'.requests ⊆ l.requests ∧ l'.asked = l.asked ∧
      l'.received = l.received ∧ l'.lost = l.lost := by
  obtain ⟨p, hbusy, rfl⟩ := Option.map_eq_some_iff.mp h
  simp [Line.waiting, Line.requests, hbusy]

theorem lose_eq (h : l.lose = some l') :
    ∃ before n after, l.waiting = before ++ n :: after ∧ l'.waiting = before ++ after ∧
      l'.requests ⊆ l.requests ∧ l'.asked = l.asked ∧ l'.received = l.received ∧
      l'.lost = l.lost ++ [n] := by
  obtain ⟨p, hbusy, rfl⟩ := Option.map_eq_some_iff.mp h
  refine ⟨l.outbox.map Prod.fst, p.1, l.inbox.map Prod.fst, ?_⟩
  simp [Line.waiting, Line.requests, hbusy]

theorem receive_eq {p : Nat × β} (h : l.receive = some (p, l')) :
    l.waiting = p.1 :: l'.waiting ∧ l'.requests = l.requests ∧ l'.asked = l.asked ∧
      l'.received = l.received ++ [p.1] ∧ l'.lost = l.lost := by
  rw [Line.receive] at h
  split at h
  · cases h
  · next q outbox houtbox =>
    cases h
    simp [Line.waiting, Line.requests, houtbox]

/-! ## What each step keeps -/

namespace Line.InOrder

theorem ask (h : l.InOrder) (a : α) : (l.ask a).InOrder where
  sorted := by
    rw [waiting_ask, ← List.append_assoc, List.pairwise_append]
    refine ⟨h.sorted, List.pairwise_singleton _ _, ?_⟩
    intro n hn m hm
    obtain rfl := List.mem_singleton.mp hm
    exact (h.accounted n).mpr (.inl hn)
  accounted n := by
    have hold := h.accounted n
    rw [waiting_ask, ← List.append_assoc, List.mem_append (t := [l.asked.length])]
    change n < (l.asked ++ [a]).length ↔ (n ∈ l.received ++ l.waiting ∨ _) ∨ n ∈ l.lost
    rw [List.length_append, List.length_singleton, List.mem_singleton]
    constructor
    · intro hlt
      by_cases heq : n = l.asked.length
      · exact .inl (.inr heq)
      · obtain hin | hlost := hold.mp (by omega)
        · exact .inl (.inl hin)
        · exact .inr hlost
    · rintro ((hin | rfl) | hlost)
      · exact Nat.lt_succ_of_lt (hold.mpr (.inl hin))
      · exact Nat.lt_succ_self _
      · exact Nat.lt_succ_of_lt (hold.mpr (.inr hlost))
  apart n hn hin := by
    rw [waiting_ask, ← List.append_assoc, List.mem_append] at hin
    obtain hin | hin := hin
    · exact h.apart n hn hin
    · rw [List.mem_singleton.mp hin] at hn
      exact absurd ((h.accounted _).mpr (.inr hn)) (Nat.lt_irrefl _)
  texts p hp := by
    have hsplit : p ∈ l.requests ∨ p = (l.asked.length, a) := by
      simpa [Line.ask, Line.requests, or_assoc] using hp
    change (l.asked ++ [a])[p.1]? = some p.2
    obtain hold | rfl := hsplit
    · have hget := h.texts p hold
      rw [List.getElem?_append_left (List.getElem?_eq_some_iff.mp hget).1, hget]
    · exact List.getElem?_concat_length

/-- Nothing of what is waited for has changed. -/
theorem same (h : l.InOrder) (hwaiting : l'.waiting = l.waiting)
    (hrequests : l'.requests ⊆ l.requests) (hasked : l'.asked = l.asked)
    (hreceived : l'.received = l.received) (hlost : l'.lost = l.lost) : l'.InOrder where
  sorted := by
    rw [hreceived, hwaiting]
    exact h.sorted
  accounted n := by
    rw [hasked, hreceived, hwaiting, hlost]
    exact h.accounted n
  apart n hn := by
    rw [hlost] at hn
    rw [hreceived, hwaiting]
    exact h.apart n hn
  texts p hp := by
    rw [hasked]
    exact h.texts p (hrequests hp)

/-- Some of what is waited for has been lost. -/
theorem fewer (h : l.InOrder) (gone : List Nat) (hwaiting : l'.waiting.Sublist l.waiting)
    (hgone : ∀ n, n ∈ l.waiting ↔ n ∈ l'.waiting ∨ n ∈ gone)
    (hapart : ∀ n ∈ gone, n ∉ l'.waiting)
    (hrequests : l'.requests ⊆ l.requests) (hasked : l'.asked = l.asked)
    (hreceived : l'.received = l.received) (hlost : l'.lost = l.lost ++ gone) : l'.InOrder where
  sorted := by
    rw [hreceived]
    exact h.sorted.sublist (List.Sublist.append (List.Sublist.refl _) hwaiting)
  accounted n := by
    rw [hasked, hreceived, hlost, h.accounted n, List.mem_append, List.mem_append,
      List.mem_append, hgone]
    tauto
  apart n hn hin := by
    rw [hreceived, List.mem_append] at hin
    rw [hlost, List.mem_append] at hn
    have hold : n ∈ l.received ++ l.waiting := by
      rw [List.mem_append, hgone]
      tauto
    obtain hn | hn := hn
    · exact h.apart n hn hold
    · obtain hin | hin := hin
      · have hsorted := h.sorted
        rw [List.pairwise_append] at hsorted
        exact absurd (hsorted.2.2 n hin n ((hgone n).mpr (.inr hn))) (Nat.lt_irrefl n)
      · exact hapart n hn hin
  texts p hp := by
    rw [hasked]
    exact h.texts p (hrequests hp)

theorem take (h : l.InOrder) (htake : l.take = some l') : l'.InOrder := by
  obtain ⟨hwaiting, hrequests, hasked, hreceived, hlost⟩ := take_eq htake
  exact h.same hwaiting (hrequests ▸ List.Subset.refl _) hasked hreceived hlost

theorem answer (h : l.InOrder) {b : β} (hanswer : l.answer b = some l') : l'.InOrder := by
  obtain ⟨hwaiting, hrequests, hasked, hreceived, hlost⟩ := answer_eq hanswer
  exact h.same hwaiting hrequests hasked hreceived hlost

/-- What is waited for has no duplicates. -/
theorem nodup (h : l.InOrder) : l.waiting.Nodup :=
  (List.pairwise_append.mp h.sorted).2.1.imp fun hlt => Nat.ne_of_lt hlt

theorem lose (h : l.InOrder) (hlose : l.lose = some l') : l'.InOrder := by
  obtain ⟨before, n, after, hwaiting, hwaiting', hrequests, hasked, hreceived, hlost⟩ :=
    lose_eq hlose
  have hnodup := h.nodup
  rw [hwaiting, List.perm_middle.nodup_iff, List.nodup_cons] at hnodup
  apply h.fewer [n] _ _ _ hrequests hasked hreceived hlost
  · rw [hwaiting, hwaiting']
    exact List.Sublist.append (List.Sublist.refl _) (List.sublist_cons_self _ _)
  · intro m
    rw [hwaiting, hwaiting', List.mem_append, List.mem_append, List.mem_cons, List.mem_singleton]
    tauto
  · intro m hm
    rw [List.mem_singleton.mp hm, hwaiting']
    exact hnodup.1

theorem stop (h : l.InOrder) : l.stop.InOrder := by
  have hwaiting : l.stop.waiting = l.outbox.map Prod.fst := by
    simp [Line.stop, Line.waiting, Line.requests]
  have hnodup := h.nodup
  have hasked : l.stop.asked = l.asked := rfl
  have hreceived : l.stop.received = l.received := rfl
  have hlost : l.stop.lost = l.lost ++ l.requests.map Prod.fst := rfl
  apply h.fewer (l.requests.map Prod.fst) _ _ _ _ hasked hreceived hlost
  · rw [hwaiting]
    exact List.sublist_append_left _ _
  · intro n
    rw [hwaiting, Line.waiting, List.mem_append]
  · intro n hn hin
    rw [hwaiting] at hin
    exact (List.nodup_append.mp hnodup).2.2 n hin n hn rfl
  · intro p hp
    simp [Line.stop, Line.requests] at hp

theorem receive (h : l.InOrder) {p : Nat × β} (hreceive : l.receive = some (p, l')) :
    l'.InOrder := by
  obtain ⟨hwaiting, hrequests, hasked, hreceived, hlost⟩ := receive_eq hreceive
  have hsame : l'.received ++ l'.waiting = l.received ++ l.waiting := by
    rw [hreceived, hwaiting, List.append_assoc, List.singleton_append]
  constructor
  · rw [hsame]
    exact h.sorted
  · intro n
    rw [hasked, hsame, hlost]
    exact h.accounted n
  · intro n hn
    rw [hsame]
    exact h.apart n (hlost ▸ hn)
  · intro q hq
    rw [hasked]
    exact h.texts q (hrequests ▸ hq)

end Line.InOrder

/-! ## From a request to its answer -/

/-- Since the request `own` was asked, if it was, after which `pending` was waited for, nothing
has been received. -/
structure Line.Since (l : Line α β) (pending : List Nat) (own : Option Nat) : Prop where
  fresh : ∀ n ∈ pending ++ own.toList, n ∉ l.received
  all : ∀ n ∈ l.waiting, n ∈ pending ++ own.toList
  older : ∀ s ∈ own, ∀ n ∈ pending, n < s
  known : ∀ n ∈ pending ++ own.toList, n < l.asked.length

/-- Then the first answer was received, to the request `n`. -/
structure Line.Took (l : Line α β) (pending : List Nat) (own : Option Nat) (n : Nat) : Prop where
  received : n ∈ l.received
  one : n ∈ pending ++ own.toList
  older : ∀ s ∈ own, ∀ m ∈ pending, m < s
  rest : n ∈ own → ∀ m ∈ pending, m ∈ l.lost

variable {pending : List Nat} {own : Option Nat}

theorem since_ask (h : l.InOrder) (a : α) :
    (l.ask a).Since l.waiting (some l.asked.length) where
  fresh n hn hin := by
    have hsorted := List.pairwise_append.mp h.sorted
    rw [Option.toList_some, List.mem_append, List.mem_singleton] at hn
    obtain hn | rfl := hn
    · exact absurd (hsorted.2.2 n hin n hn) (Nat.lt_irrefl n)
    · have hlt := (h.accounted _).mpr (.inl (List.mem_append_left _ hin))
      exact absurd hlt (Nat.lt_irrefl _)
  all n hn := by
    rw [waiting_ask] at hn
    exact hn
  older s hs n hn := by
    obtain rfl := Option.mem_some_iff.mp hs
    exact (h.accounted n).mpr (.inl (List.mem_append_right _ hn))
  known n hn := by
    change n < (l.asked ++ [a]).length
    rw [List.length_append, List.length_singleton]
    rw [Option.toList_some, List.mem_append, List.mem_singleton] at hn
    obtain hn | rfl := hn
    · exact Nat.lt_succ_of_lt ((h.accounted n).mpr (.inl (List.mem_append_right _ hn)))
    · exact Nat.lt_succ_self _

/-- If it could not be asked. -/
theorem since_none (h : l.InOrder) : l.Since l.waiting none where
  fresh n hn hin := by
    have hsorted := List.pairwise_append.mp h.sorted
    rw [Option.toList_none, List.append_nil] at hn
    exact absurd (hsorted.2.2 n hin n hn) (Nat.lt_irrefl n)
  all n hn := by
    rw [Option.toList_none, List.append_nil]
    exact hn
  older s hs := absurd hs (Option.not_mem_none s)
  known n hn := by
    rw [Option.toList_none, List.append_nil] at hn
    exact (h.accounted n).mpr (.inl (List.mem_append_right _ hn))

/-- What the other side may do: it waits for no more, and receives nothing. -/
structure Behind (l l' : Line α β) : Prop where
  waiting : l'.waiting ⊆ l.waiting
  asked : l'.asked = l.asked
  received : l'.received = l.received
  lost : l.lost ⊆ l'.lost

theorem Behind.refl (l : Line α β) : Behind l l :=
  ⟨List.Subset.refl _, rfl, rfl, List.Subset.refl _⟩

theorem Behind.trans {l'' : Line α β} (h : Behind l l') (h' : Behind l' l'') : Behind l l'' :=
  ⟨List.Subset.trans h'.waiting h.waiting, h'.asked.trans h.asked, h'.received.trans h.received,
    List.Subset.trans h.lost h'.lost⟩

theorem behind_take (h : l.take = some l') : Behind l l' := by
  obtain ⟨hwaiting, -, hasked, hreceived, hlost⟩ := take_eq h
  exact ⟨hwaiting ▸ List.Subset.refl _, hasked, hreceived, hlost ▸ List.Subset.refl _⟩

theorem behind_answer {b : β} (h : l.answer b = some l') : Behind l l' := by
  obtain ⟨hwaiting, -, hasked, hreceived, hlost⟩ := answer_eq h
  exact ⟨hwaiting ▸ List.Subset.refl _, hasked, hreceived, hlost ▸ List.Subset.refl _⟩

theorem behind_lose (h : l.lose = some l') : Behind l l' := by
  obtain ⟨before, n, after, hwaiting, hwaiting', -, hasked, hreceived, hlost⟩ := lose_eq h
  refine ⟨?_, hasked, hreceived, hlost ▸ List.subset_append_left _ _⟩
  rw [hwaiting, hwaiting']
  intro m hm
  rw [List.mem_append] at hm ⊢
  rw [List.mem_cons]
  tauto

theorem behind_stop (l : Line α β) : Behind l l.stop := by
  refine ⟨?_, rfl, rfl, List.subset_append_left _ _⟩
  have hwaiting : l.stop.waiting = l.outbox.map Prod.fst := by
    simp [Line.stop, Line.waiting, Line.requests]
  rw [hwaiting]
  exact List.subset_append_left _ _

theorem Line.Since.behind (h : l.Since pending own) (hb : Behind l l') : l'.Since pending own where
  fresh n hn := by
    rw [hb.received]
    exact h.fresh n hn
  all n hn := h.all n (hb.waiting hn)
  older := h.older
  known n hn := by
    rw [hb.asked]
    exact h.known n hn

theorem Line.Took.behind {n : Nat} (h : l.Took pending own n) (hb : Behind l l') :
    l'.Took pending own n where
  received := by
    rw [hb.received]
    exact h.received
  one := h.one
  older := h.older
  rest hn m hm := hb.lost (h.rest hn m hm)

/-- What was pending when the answer is received that was asked for has been lost. -/
theorem Line.Since.receive (h : l.Since pending own) (horder : l.InOrder) {p : Nat × β}
    (hreceive : l.receive = some (p, l')) : l'.Took pending own p.1 := by
  obtain ⟨hwaiting, -, -, hreceived, hlost⟩ := receive_eq hreceive
  have hfirst : ∀ m ∈ l.waiting, p.1 ≤ m := by
    intro m hm
    have hsorted := (List.pairwise_append.mp horder.sorted).2.1
    rw [hwaiting] at hsorted hm
    obtain rfl | hm := List.mem_cons.mp hm
    · exact Nat.le_refl _
    · exact Nat.le_of_lt ((List.pairwise_cons.mp hsorted).1 m hm)
  constructor
  · rw [hreceived]
    exact List.mem_append_right _ List.mem_cons_self
  · exact h.all p.1 (hwaiting ▸ List.mem_cons_self)
  · exact h.older
  · intro hown m hm
    rw [hlost]
    have hlt : m < p.1 := h.older p.1 hown m hm
    have hin : m ∈ pending ++ own.toList := List.mem_append_left _ hm
    obtain hin' | hlost' := (horder.accounted m).mp (h.known m hin)
    · obtain hin' | hin' := List.mem_append.mp hin'
      · exact absurd hin' (h.fresh m hin)
      · exact absurd (hfirst m hin') (Nat.not_le_of_lt hlt)
    · exact hlost'

/-- If nothing was pending then nothing is waited for any more. -/
theorem Line.Since.receive_all (h : l.Since [] own) (horder : l.InOrder) {p : Nat × β}
    (hreceive : l.receive = some (p, l')) : l'.waiting = [] := by
  obtain ⟨hwaiting, -, -, -, -⟩ := receive_eq hreceive
  have hnodup := horder.nodup
  have hall : ∀ n ∈ l.waiting, n ∈ own := by
    intro n hn
    have hmem := h.all n hn
    rw [List.nil_append, Option.mem_toList] at hmem
    exact hmem
  rw [hwaiting] at hnodup hall
  apply List.eq_nil_iff_forall_not_mem.mpr
  intro n hn
  have hn' : own = some n := hall n (List.mem_cons_of_mem _ hn)
  have hp : own = some p.1 := hall p.1 List.mem_cons_self
  rw [hp, Option.some.injEq] at hn'
  exact (List.nodup_cons.mp hnodup).1 (hn' ▸ hn)

/-- It is the answer that was asked for exactly if the others have been lost. -/
theorem Line.Took.own_iff {n : Nat} (h : l.Took pending own n) (horder : l.InOrder) :
    own = some n ↔ own.isSome ∧ ∀ m ∈ pending, m ∈ l.lost := by
  constructor
  · rintro rfl
    exact ⟨rfl, h.rest rfl⟩
  · rintro ⟨hown, hpending⟩
    obtain ⟨s, rfl⟩ := Option.isSome_iff_exists.mp hown
    have hone := h.one
    rw [Option.toList_some, List.mem_append, List.mem_singleton] at hone
    obtain hone | rfl := hone
    · exact absurd (List.mem_append_left _ h.received) (horder.apart n (hpending n hone))
    · rfl

end Steps

end Conversation
