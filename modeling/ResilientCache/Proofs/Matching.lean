import ResilientCache.Policy

/-!
# Actions that match

Two actions match (`Action.Matches`) when, started in related states, they answer alike, tell alike
and end in related states. The relation may be another one afterwards. Programs that are put
together from matching parts match (`Matches.bind`, `Matches.forM`), so a simulation between two
programs is proved where they differ and nowhere else.
-/

namespace ResilientCache

variable {σ τ ε K V α β : Type}

/-- Two runs with the same answer, the same events and related states. -/
structure Run.Agrees (R : σ → τ → Prop) (a : Run σ ε α) (b : Run τ ε α) : Prop where
  answer : a.answer = b.answer
  events : a.events = b.events
  state : R a.state b.state

/-- Started in related states, two actions run alike. -/
def Action.Matches (R R' : σ → τ → Prop) (x : Action σ ε α) (y : Action τ ε α) : Prop :=
  ∀ s t, R s t → Run.Agrees R' (x s) (y t)

namespace Action.Matches

variable {R R' R'' : σ → τ → Prop}

theorem pure (a : α) : (Pure.pure a : Action σ ε α).Matches R R (Pure.pure a) :=
  fun _ _ h => ⟨rfl, rfl, h⟩

theorem tell (e : ε) : (Action.tell e).Matches R R (Action.tell e) := fun _ _ h => ⟨rfl, rfl, h⟩

theorem read {f : σ → α} {g : τ → α} (h : ∀ s t, R s t → f s = g t) :
    (Action.read f : Action σ ε α).Matches R R (Action.read g) := fun s t hr => ⟨h s t hr, rfl, hr⟩

theorem change {f : σ → σ} {g : τ → τ} (h : ∀ s t, R s t → R' (f s) (g t)) :
    (Action.change f : Action σ ε Unit).Matches R R' (Action.change g) :=
  fun s t hr => ⟨rfl, rfl, h s t hr⟩

theorem bind {x : Action σ ε α} {y : Action τ ε α} {f : α → Action σ ε β} {g : α → Action τ ε β}
    (hx : x.Matches R R' y) (hf : ∀ a, (f a).Matches R' R'' (g a)) :
    (x >>= f).Matches R R'' (y >>= g) := by
  intro s t h
  obtain ⟨ha, he, hs⟩ := hx s t h
  obtain ⟨ha', he', hs'⟩ := hf (x s).answer _ _ hs
  simp only [bind_apply]
  rw [← ha]
  exact ⟨ha', congr (congrArg _ he) he', hs'⟩

theorem weaken {x : Action σ ε α} {y : Action τ ε α} (h : x.Matches R R' y)
    (hw : ∀ s t, R' s t → R'' s t) : x.Matches R R'' y := fun s t hr =>
  ⟨(h s t hr).answer, (h s t hr).events, hw _ _ (h s t hr).state⟩

theorem discard {x : Action σ ε α} {y : Action τ ε α} (h : x.Matches R R' y) :
    (Functor.discard x : Action σ ε Unit).Matches R R' (Functor.discard y) :=
  h.bind fun _ => pure _

theorem forM {f : α → Action σ ε Unit} {g : α → Action τ ε Unit} :
    ∀ {l : List α}, (∀ a ∈ l, (f a).Matches R R (g a)) → (l.forM f).Matches R R (l.forM g)
  | [], _ => pure _
  | a :: l, h => (h a (by simp)).bind fun _ => forM fun b hb => h b (by simp [hb])

/-- Asking a policy is the same whatever else is going on. -/
theorem lifetime (owner : Owner) (p : Policy K V) (q : LifetimeQuery K V) :
    (p.lifetime owner q).Matches R R (p.lifetime owner q) := by
  refine .bind (tell _) fun _ => ?_
  cases p.answer q with
  | ok granted => exact pure _
  | error fault => exact .bind (tell _) fun _ => pure _

end Action.Matches

end ResilientCache
