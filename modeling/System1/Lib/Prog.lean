/-
Programs that talk to an environment: the layer every driver model is written in.

A driver computes, asks its environment for something (a sector, a slice of a
file, a store to memory), looks at the answer and goes on. `Prog` keeps exactly
that shape: a tree whose inner nodes are requests and whose branches are the
possible answers. Nothing in the tree says what the environment does, so one
program can be run against a device that never fails, against one that fails
whenever it likes, and against no device at all.

Three readings of a program are developed here, over an arbitrary signature of
requests and answers.

* `run` executes it against a handler, a deterministic environment with a state.
* `Only P V` says that every request it can ever issue satisfies `P` and every value
  it can return satisfies `V`, whatever the answers are.
* `wp` is the demonic weakest precondition against a relation that bounds the
  answers.

`Outcome.spin` is how a loop that has used up its fuel ends. A program that ends
in `spin` has still issued every request on the way there, so a statement about
requests covers the non-terminating executions too.
-/
import Mathlib.Logic.Basic

set_option autoImplicit false

namespace System1.Lib

/-- How a program ends: with a value, with an error code, or not at all (the fuel
of one of its loops ran out). -/
inductive Outcome (ε α : Type) where
  | done (a : α)
  | fail (e : ε)
  | spin
  deriving DecidableEq, Repr

/-- A program over the requests `Req`, where the answer to `r` has type `Resp r`. -/
inductive Prog {Req : Type} (Resp : Req → Type) (ε α : Type) where
  | done (a : α)
  | fail (e : ε)
  | spin
  | call (r : Req) (k : Resp r → Prog Resp ε α)

namespace Prog

variable {Req : Type} {Resp : Req → Type} {ε α β σ : Type}

protected def bind : Prog Resp ε α → (α → Prog Resp ε β) → Prog Resp ε β
  | .done a, f => f a
  | .fail e, _ => .fail e
  | .spin, _ => .spin
  | .call r k, f => .call r (fun x => (k x).bind f)

instance : Monad (Prog Resp ε) where
  pure := .done
  bind := Prog.bind

/-- The `rc = f(...); if (rc == ...)` idiom: the error becomes a value the caller
can look at. -/
def attempt : Prog Resp ε α → Prog Resp ε (Except ε α)
  | .done a => .done (.ok a)
  | .fail e => .done (.error e)
  | .spin => .spin
  | .call r k => .call r (fun x => (k x).attempt)

/-- A computation that asks nothing. -/
def ofExcept : Except ε α → Prog Resp ε α
  | .ok a => .done a
  | .error e => .fail e

@[simp] theorem done_bind (a : α) (f : α → Prog Resp ε β) :
    ((.done a : Prog Resp ε α) >>= f) = f a := rfl

theorem bind_assoc {γ : Type} (p : Prog Resp ε α) (f : α → Prog Resp ε β)
    (h : β → Prog Resp ε γ) : (p >>= f) >>= h = p >>= fun a => f a >>= h := by
  induction p with
  | done | fail | spin => rfl
  | call r k ih => exact congrArg (call r) (funext ih)

/-! ## Running against a handler -/

/-- Execution against a deterministic environment: the handler maps its state and
a request to the answer and the next state. -/
def run (H : σ → (r : Req) → Resp r × σ) : Prog Resp ε α → σ → Outcome ε α × σ
  | .done a, s => (.done a, s)
  | .fail e, s => (.fail e, s)
  | .spin, s => (.spin, s)
  | .call r k, s => (k (H s r).1).run H (H s r).2

section Run

variable (H : σ → (r : Req) → Resp r × σ)

@[simp] theorem run_call (r : Req) (k : Resp r → Prog Resp ε α) (s : σ) :
    (.call r k : Prog Resp ε α).run H s = (k (H s r).1).run H (H s r).2 := rfl

/-- Sequencing: run the first program, hand its value and its final state on, and
pass an error or a spin through untouched. -/
theorem run_bind (p : Prog Resp ε α) (f : α → Prog Resp ε β) (s : σ) :
    (p >>= f).run H s =
      match p.run H s with
      | (.done a, s') => (f a).run H s'
      | (.fail e, s') => (.fail e, s')
      | (.spin, s') => (.spin, s') := by
  induction p generalizing s with
  | done | fail | spin => rfl
  | call r k ih => exact ih (H s r).1 (H s r).2

theorem run_bind_done {p : Prog Resp ε α} {s s' : σ} {a : α}
    (h : p.run H s = (.done a, s')) (f : α → Prog Resp ε β) :
    (p >>= f).run H s = (f a).run H s' := by
  rw [run_bind, h]

theorem run_bind_fail {p : Prog Resp ε α} {s s' : σ} {e : ε}
    (h : p.run H s = (.fail e, s')) (f : α → Prog Resp ε β) :
    (p >>= f).run H s = (.fail e, s') := by
  rw [run_bind, h]

/-- `attempt` changes how a run ends and nothing else. -/
theorem run_attempt (p : Prog Resp ε α) (s : σ) :
    p.attempt.run H s =
      match p.run H s with
      | (.done a, s') => (.done (.ok a), s')
      | (.fail e, s') => (.done (.error e), s')
      | (.spin, s') => (.spin, s') := by
  induction p generalizing s with
  | done | fail | spin => rfl
  | call r k ih => exact ih (H s r).1 (H s r).2

/-- A handler that never changes its state. -/
theorem run_state {H : σ → (r : Req) → Resp r × σ} (hH : ∀ s r, (H s r).2 = s)
    (p : Prog Resp ε α) (s : σ) : (p.run H s).2 = s := by
  induction p generalizing s with
  | done | fail | spin => rfl
  | call r k ih =>
    rw [run_call, ih, hH]

end Run

/-! ## The requests a program can issue -/

/-- Along every sequence of answers, every request the program issues satisfies `P` and
every value it returns satisfies `V`. -/
def Only (P : Req → Prop) (V : α → Prop) : Prog Resp ε α → Prop
  | .done a => V a
  | .fail _ => True
  | .spin => True
  | .call r k => P r ∧ ∀ x, (k x).Only P V

section Only

variable {P : Req → Prop} {V V' : α → Prop}

section

variable {p : Prog Resp ε α} (hp : p.Only P V)

include hp

/-- Calls of a sequence are calls of its parts. -/
theorem Only.bind {W : β → Prop} {f : α → Prog Resp ε β} (hf : ∀ a, V a → (f a).Only P W) :
    (p >>= f).Only P W := by
  induction p with
  | done a => exact hf a hp
  | fail e => trivial
  | spin => trivial
  | call r k ih => exact ⟨hp.1, fun x => ih x (hp.2 x)⟩

theorem Only.mono (hV : ∀ a, V a → V' a) :
    p.Only P V' := by
  induction p with
  | done a => exact hV a hp
  | fail e => trivial
  | spin => trivial
  | call r k ih => exact ⟨hp.1, fun x => ih x (hp.2 x)⟩

theorem Only.weaken {P' : Req → Prop} (hP : ∀ r, P r → P' r) : p.Only P' V := by
  induction p with
  | done a => exact hp
  | fail e => trivial
  | spin => trivial
  | call r k ih => exact ⟨hP r hp.1, fun x => ih x (hp.2 x)⟩

/-- Catching an error sends no request. -/
theorem Only.attempt :
    p.attempt.Only P fun r => ∀ a, r = .ok a → V a := by
  induction p with
  | done a =>
    intro b hb
    cases hb
    exact hp
  | fail e =>
    intro b hb
    cases hb
  | spin => trivial
  | call r k ih => exact ⟨hp.1, fun x => ih x (hp.2 x)⟩

end

theorem only_true (p : Prog Resp ε α) : p.Only (fun _ => True) fun _ => True := by
  induction p with
  | done | fail | spin => trivial
  | call r k ih => exact ⟨trivial, ih⟩

/-- The value of a run is one the program can return. -/
theorem Only.run {p : Prog Resp ε α} (hp : p.Only P V) (H : σ → (r : Req) → Resp r × σ) {s : σ}
    {a : α} (h : (p.run H s).1 = .done a) : V a := by
  induction p generalizing s with
  | done b =>
    cases h
    exact hp
  | fail e => cases h
  | spin => cases h
  | call r k ih => exact ih _ (hp.2 _) h

/-- Two handlers that answer alike what the program can ask. -/
theorem Only.run_congr {p : Prog Resp ε α} (hp : p.Only P V) {H H' : σ → (r : Req) → Resp r × σ}
    (hH : ∀ s r, P r → H s r = H' s r) (s : σ) : p.run H s = p.run H' s := by
  induction p generalizing s with
  | done | fail | spin => rfl
  | call r k ih =>
    rw [run_call, run_call, hH s r hp.1]
    exact ih _ (hp.2 _) _

theorem only_ofExcept {r : Except ε α} (h : ∀ a, r = .ok a → V a) :
    (ofExcept r : Prog Resp ε α).Only P V := by
  cases r with
  | error e => trivial
  | ok a => exact h a rfl

end Only

/-! ## Weakest preconditions

The environment is a relation `R s r x s'`: in state `s` it may answer request
`r` with `x` and move to `s'`. The precondition is demonic, so it has to hold for
every answer the relation allows. -/

/-- The weakest precondition of a program against the answers `R` allows. -/
def wp (R : σ → (r : Req) → Resp r → σ → Prop) :
    Prog Resp ε α → (Outcome ε α → σ → Prop) → σ → Prop
  | .done a, Q, s => Q (.done a) s
  | .fail e, Q, s => Q (.fail e) s
  | .spin, Q, s => Q .spin s
  | .call r k, Q, s => ∀ x s', R s r x s' → (k x).wp R Q s'

section Wp

variable {R : σ → (r : Req) → Resp r → σ → Prop}

/-- A request followed by what is done with its answer. -/
theorem wp_call_bind {r : Req} {f : Resp r → Prog Resp ε β} {Q : Outcome ε β → σ → Prop}
    {s : σ} (h : ∀ x s', R s r x s' → (f x).wp R Q s') :
    ((.call r .done : Prog Resp ε (Resp r)) >>= f).wp R Q s := h

/-- The consequence rule and the sequencing rule in one: establish `P` after the
first program, continue from it, and let errors and spins through. -/
theorem wp_bind {p : Prog Resp ε α} {f : α → Prog Resp ε β}
    {P : Outcome ε α → σ → Prop} {Q : Outcome ε β → σ → Prop} {s : σ}
    (hp : p.wp R P s) (hdone : ∀ a s', P (.done a) s' → (f a).wp R Q s')
    (hfail : ∀ e s', P (.fail e) s' → Q (.fail e) s')
    (hspin : ∀ s', P .spin s' → Q .spin s') : (p >>= f).wp R Q s := by
  induction p generalizing s with
  | done a => exact hdone a s hp
  | fail e => exact hfail e s hp
  | spin => exact hspin s hp
  | call r k ih => exact fun x s' hx => ih x (hp x s' hx)

/-- What `Q` after `f` asks of the outcome before it. -/
def Before (R : σ → (r : Req) → Resp r → σ → Prop) (f : α → Prog Resp ε β)
    (Q : Outcome ε β → σ → Prop) : Outcome ε α → σ → Prop
  | .done a, s => (f a).wp R Q s
  | .fail e, s => Q (.fail e) s
  | .spin, s => Q .spin s

theorem wp_seq {p : Prog Resp ε α} {f : α → Prog Resp ε β} {Q : Outcome ε β → σ → Prop} {s : σ}
    (hp : p.wp R (Before R f Q) s) : (p >>= f).wp R Q s :=
  wp_bind hp (fun _ _ h => h) (fun _ _ h => h) fun _ h => h

/-- The rule for catching an error. -/
theorem wp_attempt {p : Prog Resp ε α} {Q : Outcome ε (Except ε α) → σ → Prop} {s : σ}
    (hp : p.wp R (fun o s' =>
      match o with
      | .done a => Q (.done (.ok a)) s'
      | .fail e => Q (.done (.error e)) s'
      | .spin => Q .spin s') s) : p.attempt.wp R Q s := by
  induction p generalizing s with
  | done | fail | spin => exact hp
  | call r k ih => exact fun x s' hx => ih x (hp x s' hx)

/-- An invariant of the environment that survives every request satisfying `P` survives
every program that issues only such requests. -/
theorem Only.wp {P : Req → Prop} {V : α → Prop} {p : Prog Resp ε α} {I : σ → Prop}
    (hp : p.Only P V) (hI : ∀ s r x s', P r → I s → R s r x s' → I s') {s : σ} (hs : I s) :
    p.wp R (fun o s' => I s' ∧ ∀ a, o = .done a → V a) s := by
  induction p generalizing s with
  | done a =>
    refine ⟨hs, fun b hb => ?_⟩
    cases hb
    exact hp
  | fail e => exact ⟨hs, fun b hb => by cases hb⟩
  | spin => exact ⟨hs, fun b hb => by cases hb⟩
  | call r k ih => exact fun x s' hx => ih x (hp.2 x) (hI s r x s' hp.1 hs hx)

theorem wp_mono {p : Prog Resp ε α} {P Q : Outcome ε α → σ → Prop} {s : σ}
    (hp : p.wp R P s) (h : ∀ o s', P o s' → Q o s') : p.wp R Q s := by
  induction p generalizing s with
  | done | fail | spin => exact h _ _ hp
  | call r k ih => exact fun x s' hx => ih x (hp x s' hx)

/-- How a program ends that does not spin: in a state with `F`, and if it returns a value
also with `P`. -/
def Exits (F : σ → Prop) (P : α → σ → Prop) : Outcome ε α → σ → Prop
  | .done a, s => F s ∧ P a s
  | .fail _, s => F s
  | .spin, _ => False

section Exits

variable {F G : σ → Prop} {P : α → σ → Prop} {s : σ}

theorem Exits.elim {o : Outcome ε α} (h : Exits F P o s) :
    F s ∧ o ≠ .spin ∧ ∀ a, o = .done a → P a s := by
  cases o with
  | done a => exact ⟨h.1, nofun, fun b hb => by cases hb; exact h.2⟩
  | fail e => exact ⟨h, nofun, nofun⟩
  | spin => exact False.elim h

variable {p : Prog Resp ε α} (hp : p.wp R (Exits F P) s) (hF : ∀ t, F t → G t)

include hp hF

theorem wp_exits_mono {Q : α → σ → Prop} (hP : ∀ a t, F t → P a t → Q a t) :
    p.wp R (Exits G Q) s := by
  refine wp_mono hp ?_
  rintro (a | e | _) t h
  · exact ⟨hF t h.1, hP a t h.1 h.2⟩
  · exact hF t h
  · exact h

theorem wp_exits_bind {f : α → Prog Resp ε β} {Q : β → σ → Prop}
    (hf : ∀ a t, F t → P a t → (f a).wp R (Exits G Q) t) : (p >>= f).wp R (Exits G Q) s :=
  wp_bind hp (fun a t h => hf a t h.1 h.2) (fun _ t h => hF t h) fun _ h => h

end Exits

section

variable {s : σ} (H : σ → (r : Req) → Resp r × σ) (hH : ∀ s r, R s r (H s r).1 (H s r).2)

include H hH

/-- A handler whose every step is allowed by `R` ends in a state the weakest
precondition promises. -/
theorem wp_run {p : Prog Resp ε α} {Q : Outcome ε α → σ → Prop} (hp : p.wp R Q s) :
    Q (p.run H s).1 (p.run H s).2 := by
  induction p generalizing s with
  | done | fail | spin => exact hp
  | call r k ih => exact ih (H s r).1 (hp _ _ (hH s r))

/-- What is promised of a whole program is promised of its rest, wherever an allowed
handler takes the first part. -/
theorem wp_of_bind {p : Prog Resp ε α} {f : α → Prog Resp ε β} {Q : Outcome ε β → σ → Prop} {s' : σ}
    {a : α} (h : (p >>= f).wp R Q s) (hrun : p.run H s = (.done a, s')) : (f a).wp R Q s' := by
  induction p generalizing s with
  | done b =>
    cases hrun
    exact h
  | fail e => cases hrun
  | spin => cases hrun
  | call r k ih => exact ih (H s r).1 (h _ _ (hH s r)) hrun

end

end Wp

end Prog

end System1.Lib
