import Mathlib.Logic.Function.Basic

/-!
# Programs that ask

A program asks one of several servers and goes on with the answer. Each server answers
from what it has been asked itself. A program that asks only one server does the same
whatever the others would answer.
-/

namespace RequestProgram

variable {ι κ Q α β : Type} {R : Q → Type}

inductive Prog (Q : Type) (R : Q → Type) (α : Type) where
  | done (a : α)
  | ask (q : Q) (next : R q → Prog Q R α)

namespace Prog

def bind : Prog Q R α → (α → Prog Q R β) → Prog Q R β
  | .done a, f => f a
  | .ask q next, f => .ask q fun r => (next r).bind f

@[simp] theorem done_bind (a : α) (f : α → Prog Q R β) : (done a).bind f = f a := rfl

@[simp] theorem ask_bind (q : Q) (next : R q → Prog Q R α) (f : α → Prog Q R β) :
    (ask q next).bind f = .ask q fun r => (next r).bind f := rfl

/-- Ask everything of one server. -/
def on (c : ι) : Prog Q R α → Prog (ι × Q) (fun cq => R cq.2) α
  | .done a => .done a
  | .ask q next => .ask (c, q) fun r => (next r).on c

end Prog

theorem on_bind (c : ι) (p : Prog Q R α) (f : α → Prog Q R β) :
    (p.bind f).on c = (p.on c).bind fun a => (f a).on c := by
  induction p with
  | done a => rfl
  | ask q next ih =>
    simp only [Prog.on, Prog.ask_bind, Prog.ask.injEq, heq_eq_eq, true_and]
    funext r
    exact ih r

/-- What each server answers to a request after the requests before it. -/
abbrev World (ι Q : Type) (R : Q → Type) := ι → List Q → (q : Q) → R q

/-- The program asks this server and no other. -/
inductive Only (c : ι) : Prog (ι × Q) (fun cq => R cq.2) α → Prop where
  | done (a : α) : Only c (.done a)
  | ask (q : Q) (next : R q → Prog (ι × Q) (fun cq => R cq.2) α) (h : ∀ r, Only c (next r)) :
    Only c (.ask (c, q) next)

theorem only_on (c : ι) (p : Prog Q R α) : Only c (p.on c) := by
  induction p with
  | done a => exact .done a
  | ask q next ih => exact .ask q _ ih

theorem Only.bind {c : ι} {p : Prog (ι × Q) (fun cq => R cq.2) α}
    {f : α → Prog (ι × Q) (fun cq => R cq.2) β} (hp : Only c p) (hf : ∀ a, Only c (f a)) :
    Only c (p.bind f) := by
  induction hp with
  | done a => exact hf a
  | ask q next h ih => exact .ask q _ ih

section Run

variable [DecidableEq ι]

def record (asked : ι → List Q) (c : ι) (q : Q) : ι → List Q :=
  Function.update asked c (asked c ++ [q])

/-- The result of a program and its requests, after these requests to each server. -/
def run (world : World ι Q R) :
    (ι → List Q) → Prog (ι × Q) (fun cq => R cq.2) α → α × List (ι × Q)
  | _, .done a => (a, [])
  | asked, .ask (c, q) next =>
    let rest := run world (record asked c q) (next (world c (asked c) q))
    (rest.1, (c, q) :: rest.2)

/-- The requests of such a program, in every world. -/
theorem Only.requests {c : ι} {p : Prog (ι × Q) (fun cq => R cq.2) α} (hp : Only c p)
    (world : World ι Q R) (asked : ι → List Q) : ∀ e ∈ (run world asked p).2, e.1 = c := by
  induction hp generalizing asked with
  | done a =>
    intro e he
    cases he
  | ask q next h ih =>
    intro e he
    cases he with
    | head => rfl
    | tail _ he => exact ih _ _ e he

/-- Such a program does not see what the other servers answer or have been asked. -/
theorem Only.run_eq {c : ι} {p : Prog (ι × Q) (fun cq => R cq.2) α} (hp : Only c p)
    (world world' : World ι Q R) (asked asked' : ι → List Q) (hworld : world c = world' c)
    (hasked : asked c = asked' c) : run world asked p = run world' asked' p := by
  induction hp generalizing asked asked' with
  | done a => rfl
  | ask q next h ih =>
    have hrest := ih (world c (asked c) q) (record asked c q) (record asked' c q)
      (by simp [record, hasked])
    simp only [run]
    rw [← hasked, ← hworld, hrest]

/-- What the servers have been asked after these requests. -/
def recordAll (asked : ι → List Q) (requests : List (ι × Q)) : ι → List Q :=
  requests.foldl (fun asked e => record asked e.1 e.2) asked

theorem run_bind (world : World ι Q R) (asked : ι → List Q)
    (p : Prog (ι × Q) (fun cq => R cq.2) α) (f : α → Prog (ι × Q) (fun cq => R cq.2) β) :
    run world asked (p.bind f) =
      ((run world (recordAll asked (run world asked p).2) (f (run world asked p).1)).1,
        (run world asked p).2 ++
          (run world (recordAll asked (run world asked p).2) (f (run world asked p).1)).2) := by
  induction p generalizing asked with
  | done a => rfl
  | ask cq next ih =>
    obtain ⟨c, q⟩ := cq
    simp only [Prog.ask_bind, run, ih]
    rfl

end Run

/-! ## Results -/

/-- Some answers lead the program to this result. -/
inductive Ends : Prog Q R α → α → Prop where
  | done (a : α) : Ends (.done a) a
  | ask (q : Q) (next : R q → Prog Q R α) (r : R q) (a : α) (h : Ends (next r) a) :
    Ends (.ask q next) a

@[simp] theorem ends_done {a b : α} : Ends (.done a : Prog Q R α) b ↔ b = a := by
  constructor
  · intro h
    cases h
    rfl
  · rintro rfl
    exact .done b

@[simp] theorem ends_ask {q : Q} {next : R q → Prog Q R α} {a : α} :
    Ends (.ask q next) a ↔ ∃ r, Ends (next r) a := by
  constructor
  · intro h
    cases h with
    | ask q next r a h => exact ⟨r, h⟩
  · rintro ⟨r, h⟩
    exact .ask q next r a h

theorem ends_bind {p : Prog Q R α} {f : α → Prog Q R β} {b : β} :
    Ends (p.bind f) b ↔ ∃ a, Ends p a ∧ Ends (f a) b := by
  induction p with
  | done a => simp
  | ask q next ih =>
    simp only [Prog.ask_bind, ends_ask, ih]
    constructor
    · rintro ⟨r, a, hp, hf⟩
      exact ⟨a, ⟨r, hp⟩, hf⟩
    · rintro ⟨a, ⟨r, hp⟩, hf⟩
      exact ⟨r, a, hp, hf⟩

theorem ends_on {c : ι} {p : Prog Q R α} {a : α} : Ends (p.on c) a ↔ Ends p a := by
  induction p with
  | done b => simp [Prog.on]
  | ask q next ih => simp only [Prog.on, ends_ask, ih]

/-- What a run results in is a result. -/
theorem ends_run [DecidableEq ι] (world : World ι Q R) (asked : ι → List Q)
    (p : Prog (ι × Q) (fun cq => R cq.2) α) : Ends p (run world asked p).1 := by
  induction p generalizing asked with
  | done a => exact .done a
  | ask cq next ih =>
    obtain ⟨c, q⟩ := cq
    exact ends_ask.mpr
      ⟨world c (asked c) q, ih (world c (asked c) q) (record asked c q)⟩

/-! ## State and errors -/

/-- A program with a state that lasts beyond an error. -/
def Action (σ ε Q : Type) (R : Q → Type) (α : Type) := σ → Prog Q R (Except ε α × σ)

namespace Action

variable {σ ε : Type}

def pure (a : α) : Action σ ε Q R α := fun s => .done (.ok a, s)

def bind (x : Action σ ε Q R α) (f : α → Action σ ε Q R β) : Action σ ε Q R β := fun s =>
  (x s).bind fun r =>
    match r.1 with
    | .ok a => f a r.2
    | .error e => .done (.error e, r.2)

instance : Monad (Action σ ε Q R) where
  pure := pure
  bind := bind

def throw (e : ε) : Action σ ε Q R α := fun s => .done (.error e, s)

def state : Action σ ε Q R σ := fun s => .done (.ok s, s)

def modify (f : σ → σ) : Action σ ε Q R Unit := fun s => .done (.ok (), f s)

/-- Something that is done with the state alone, and may fail. -/
def local_ (f : σ → Except ε α × σ) : Action σ ε Q R α := fun s => .done (f s)

def ask (q : Q) : Action σ ε Q R (R q) := fun s => .ask q fun r => .done (.ok r, s)

/-- The result of a program or its error. -/
def attempt (x : Action σ ε Q R α) : Action σ ε Q R (Except ε α) := fun s =>
  (x s).bind fun r => .done (.ok r.1, r.2)

def on (c : ι) (x : Action σ ε Q R α) : Action σ ε (ι × Q) (fun cq => R cq.2) α := fun s =>
  (x s).on c

theorem on_bind (c : ι) (x : Action σ ε Q R α) (f : α → Action σ ε Q R β) :
    (x >>= f).on c = x.on c >>= fun a => (f a).on c := by
  funext s
  simp only [on, Bind.bind, bind, RequestProgram.on_bind]
  congr 1
  funext r
  cases r.1 with
  | ok a => rfl
  | error e => rfl

/-- A first part that returns, and the rest. -/
theorem run_bind_ok [DecidableEq ι] {world : World ι Q R} {asked : ι → List Q}
    {x : Action σ ε (ι × Q) (fun cq => R cq.2) α}
    {f : α → Action σ ε (ι × Q) (fun cq => R cq.2) β} {s t : σ} {a : α} {requests : List (ι × Q)}
    (h : run world asked (x s) = ((.ok a, t), requests)) :
    run world asked ((x >>= f) s) =
      ((run world (recordAll asked requests) (f a t)).1,
        requests ++ (run world (recordAll asked requests) (f a t)).2) := by
  simp only [Bind.bind, bind, run_bind, h]

theorem run_ask [DecidableEq ι] (world : World ι Q R) (asked : ι → List Q) (c : ι) (q : Q) (s : σ) :
    run world asked ((ask q : Action σ ε Q R (R q)).on c s) =
      ((.ok (world c (asked c) q), s), [(c, q)]) := rfl

/-- From every state the program asks this server and no other. -/
def Only (c : ι) (x : Action σ ε (ι × Q) (fun cq => R cq.2) α) : Prop :=
  ∀ s, RequestProgram.Only c (x s)

theorem only_on (c : ι) (x : Action σ ε Q R α) : Only c (x.on c) := fun s =>
  RequestProgram.only_on c (x s)

theorem only_pure (c : ι) (a : α) :
    Only c (Pure.pure a : Action σ ε (ι × Q) (fun cq => R cq.2) α) := fun s =>
  RequestProgram.Only.done (Except.ok a, s)

theorem only_throw (c : ι) (e : ε) :
    Only c (throw e : Action σ ε (ι × Q) (fun cq => R cq.2) α) := fun s =>
  RequestProgram.Only.done (Except.error e, s)

theorem only_local (c : ι) (f : σ → Except ε α × σ) :
    Only c (local_ f : Action σ ε (ι × Q) (fun cq => R cq.2) α) := fun s =>
  RequestProgram.Only.done (f s)

theorem Only.bind {c : ι} {x : Action σ ε (ι × Q) (fun cq => R cq.2) α}
    {f : α → Action σ ε (ι × Q) (fun cq => R cq.2) β} (hx : Only c x) (hf : ∀ a, Only c (f a)) :
    Only c (x >>= f) := fun s => by
  refine (hx s).bind fun r => ?_
  cases hr : r.1 with
  | ok a => exact hf a r.2
  | error e => exact RequestProgram.Only.done (Except.error e, r.2)

/-- Some answers lead from the first state to this value and the second state. -/
def Yields (x : Action σ ε Q R α) (s : σ) (a : α) (s' : σ) : Prop := Ends (x s) (.ok a, s')

@[simp] theorem yields_pure {a b : α} {s s' : σ} :
    Yields (Pure.pure a : Action σ ε Q R α) s b s' ↔ b = a ∧ s' = s := by
  simp only [Yields, Pure.pure, pure, ends_done, Prod.mk.injEq, Except.ok.injEq]

@[simp] theorem not_yields_throw {e : ε} {a : α} {s s' : σ} :
    ¬Yields (throw e : Action σ ε Q R α) s a s' := by
  simp [Yields, throw]

@[simp] theorem yields_modify {f : σ → σ} {s s' : σ} {u : Unit} :
    Yields (modify f : Action σ ε Q R Unit) s u s' ↔ s' = f s := by
  simp [Yields, modify]

theorem yields_ask {q : Q} {r : R q} {s s' : σ} :
    Yields (ask q : Action σ ε Q R (R q)) s r s' ↔ s' = s := by
  simp only [Yields, ask, ends_ask, ends_done, Prod.mk.injEq, Except.ok.injEq, exists_eq_left']

theorem yields_local {f : σ → Except ε α × σ} {a : α} {s s' : σ} :
    Yields (local_ f : Action σ ε Q R α) s a s' ↔ f s = (.ok a, s') := by
  rw [Yields, local_, ends_done, eq_comm]

theorem yields_bind {x : Action σ ε Q R α} {f : α → Action σ ε Q R β} {b : β} {s s' : σ} :
    Yields (x >>= f) s b s' ↔ ∃ a t, Yields x s a t ∧ Yields (f a) t b s' := by
  simp only [Yields, Bind.bind, bind, ends_bind]
  constructor
  · rintro ⟨⟨r, t⟩, hx, hf⟩
    cases r with
    | ok a => exact ⟨a, t, hx, hf⟩
    | error e => simp at hf
  · rintro ⟨a, t, hx, hf⟩
    exact ⟨(.ok a, t), hx, hf⟩

theorem yields_of_run [DecidableEq ι] (world : World ι Q R) (asked : ι → List Q)
    {x : Action σ ε (ι × Q) (fun cq => R cq.2) α} {s s' : σ} {a : α}
    (h : (run world asked (x s)).1 = (.ok a, s')) : Yields x s a s' := by
  rw [Yields, ← h]
  exact ends_run world asked (x s)

theorem yields_on {c : ι} {x : Action σ ε Q R α} {a : α} {s s' : σ} :
    Yields (x.on c) s a s' ↔ Yields x s a s' := ends_on

end Action

end RequestProgram
