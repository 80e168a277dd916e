/-!
# Actions

An `Action σ ε α` runs from a state: it answers with an `α`, leaves a new state and tells, in
order, the events that happened. Everything in this library that has an effect is an action, so
that what it did is a value: two actions are equal when they answer, change and tell the same.

`Action.within` runs an action on a part of a larger state.
-/

namespace ResilientCache

/-- What one run of an action came to. -/
structure Run (σ ε α : Type) where
  answer : α
  state : σ
  events : List ε

/-- A state transformer that tells events. -/
def Action (σ ε α : Type) : Type := σ → Run σ ε α

namespace Action

variable {σ τ ε ε' α β : Type}

instance : Monad (Action σ ε) where
  pure a := fun s => ⟨a, s, []⟩
  bind x f := fun s =>
    let r := x s
    let r' := f r.answer r.state
    ⟨r'.answer, r'.state, r.events ++ r'.events⟩

@[simp] theorem pure_apply (a : α) (s : σ) : (pure a : Action σ ε α) s = ⟨a, s, []⟩ := rfl

@[simp] theorem bind_apply (x : Action σ ε α) (f : α → Action σ ε β) (s : σ) :
    (x >>= f) s = ⟨(f (x s).answer (x s).state).answer, (f (x s).answer (x s).state).state,
      (x s).events ++ (f (x s).answer (x s).state).events⟩ := rfl

@[simp] theorem map_apply (f : α → β) (x : Action σ ε α) (s : σ) :
    (f <$> x) s = ⟨f (x s).answer, (x s).state, (x s).events⟩ := by
  show (x >>= fun a => pure (f a)) s = _
  simp

instance : LawfulMonad (Action σ ε) :=
  .mk' _
    (fun x => by funext s; show (x >>= fun a => pure a) s = x s; simp)
    (fun a f => by funext s; simp)
    (fun x f g => by funext s; simp)

/-! ## Basic actions -/

/-- Tell one event. -/
def tell (e : ε) : Action σ ε Unit := fun s => ⟨(), s, [e]⟩

/-- Answer with something about the state. -/
def read (f : σ → α) : Action σ ε α := fun s => ⟨f s, s, []⟩

/-- Change the state. -/
def change (f : σ → σ) : Action σ ε Unit := fun s => ⟨(), f s, []⟩

/-- Replace the state. -/
def set (s : σ) : Action σ ε Unit := fun _ => ⟨(), s, []⟩

@[simp] theorem tell_apply (e : ε) (s : σ) : tell e s = ⟨(), s, [e]⟩ := rfl

@[simp] theorem read_apply (f : σ → α) (s : σ) : (read f : Action σ ε α) s = ⟨f s, s, []⟩ := rfl

@[simp] theorem change_apply (f : σ → σ) (s : σ) :
    (change f : Action σ ε Unit) s = ⟨(), f s, []⟩ := rfl

@[simp] theorem set_apply (s s' : σ) : (set s : Action σ ε Unit) s' = ⟨(), s, []⟩ := rfl

@[simp] theorem discard_apply (x : Action σ ε α) (s : σ) :
    (discard x : Action σ ε Unit) s = ⟨(), (x s).state, (x s).events⟩ :=
  map_apply (fun _ => ()) x s

/-! ## Part and whole -/

/-- Run an action on a part of the state, with its events read as events of the whole. -/
def within (part : σ → τ) (put : σ → τ → σ) (event : ε → ε') (x : Action τ ε α) :
    Action σ ε' α := fun s =>
  let r := x (part s)
  ⟨r.answer, put s r.state, r.events.map event⟩

end Action

end ResilientCache
