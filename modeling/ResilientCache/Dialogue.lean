import ResilientCache.Action

/-!
# Dialogues

A bulk primitive of a store is handed a function and decides by itself when to call it and with
what. A `Dialogue Q A ε α` is such a computation with its function left open: it tells notes of
type `ε`, asks questions of type `Q`, goes on with the answers of type `A`, and ends with an `α`.
It may ask never, once or many times.

`run` closes a dialogue with a function that answers its questions and may have effects of its
own; `map` changes what it ends with.
-/

namespace ResilientCache

/-- A computation that asks questions and goes on with their answers. -/
inductive Dialogue (Q A ε α : Type) : Type
  /-- End with a result. -/
  | done (result : α)
  /-- Tell what happened and go on. -/
  | tell (notes : List ε) (next : Dialogue Q A ε α)
  /-- Ask a question and go on with its answer. -/
  | ask (question : Q) (next : A → Dialogue Q A ε α)

namespace Dialogue

variable {Q A ε ε' α β σ τ : Type}

/-- The dialogue with its result changed. -/
def map (f : α → β) : Dialogue Q A ε α → Dialogue Q A ε β
  | done a => done (f a)
  | tell notes next => tell notes (next.map f)
  | ask q next => ask q fun a => (next a).map f

/-- Run a dialogue, its questions answered by an action and its notes read as events. -/
def run (event : ε → ε') (reply : Q → Action τ ε' A) : Dialogue Q A ε α → Action τ ε' α
  | done a => pure a
  | tell notes next => fun t =>
    let r := next.run event reply t
    ⟨r.answer, r.state, notes.map event ++ r.events⟩
  | ask q next => do
    let a ← reply q
    (next a).run event reply

/-- End a dialogue with a run of an action: its notes are told, its answer and state are the
result. -/
def finish (r : Run σ ε α) : Dialogue Q A ε (α × σ) := tell r.events (done (r.answer, r.state))

@[simp] theorem run_done (event : ε → ε') (reply : Q → Action τ ε' A) (a : α) (t : τ) :
    (done a : Dialogue Q A ε α).run event reply t = ⟨a, t, []⟩ := rfl

@[simp] theorem run_tell (event : ε → ε') (reply : Q → Action τ ε' A) (notes : List ε)
    (d : Dialogue Q A ε α) (t : τ) :
    (tell notes d).run event reply t =
      ⟨(d.run event reply t).answer, (d.run event reply t).state,
        notes.map event ++ (d.run event reply t).events⟩ := rfl

@[simp] theorem run_ask (event : ε → ε') (reply : Q → Action τ ε' A) (q : Q)
    (next : A → Dialogue Q A ε α) (t : τ) :
    (ask q next).run event reply t =
      ⟨((next (reply q t).answer).run event reply (reply q t).state).answer,
        ((next (reply q t).answer).run event reply (reply q t).state).state,
        (reply q t).events ++ ((next (reply q t).answer).run event reply (reply q t).state).events⟩ :=
  rfl

/-- Changing the result of a dialogue changes the answer of its runs and nothing else. -/
theorem run_map (event : ε → ε') (reply : Q → Action τ ε' A) (f : α → β)
    (d : Dialogue Q A ε α) (t : τ) :
    (d.map f).run event reply t =
      ⟨f (d.run event reply t).answer, (d.run event reply t).state,
        (d.run event reply t).events⟩ := by
  induction d generalizing t with
  | done a => rfl
  | tell notes next ih => simp [map, ih]
  | ask q next ih => simp [map, ih]

end Dialogue

end ResilientCache
