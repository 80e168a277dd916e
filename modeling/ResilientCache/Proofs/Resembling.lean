import ResilientCache.Proofs.Degrading

/-!
# Actions that differ in hidden events only

Two actions resemble each other (`Action.Resembles`) when from every state they answer alike, end in
the same state and tell alike, hidden events left out. Which events are hidden is a test; the
relation is kept by everything that actions are put together from, dialogues included
(`Dialogue.Resembles` asks alike and goes on alike). So two programs that differ in one part
resemble each other as soon as this part does.

Stores and caches resemble each other when their parts do. The strategies there are reach the store
through its removals only, so over stores that resemble each other they do too.

Headlines:
* `Resembles.bind`, `Resembles.run`: programs put together from parts.
* `Shipped.forStore_resembles`: the strategies.
* `Store.Resembles.failing`: stores that fail by the same plan.
-/

namespace ResilientCache

variable {σ τ ε ε' Q A K V α β : Type}

/-! ## Visible events -/

/-- The events that are not hidden, in order. -/
def visible (hidden : ε → Bool) (es : List ε) : List ε := es.filter (!hidden ·)

@[simp] theorem visible_append (hidden : ε → Bool) (es es' : List ε) :
    visible hidden (es ++ es') = visible hidden es ++ visible hidden es' := List.filter_append ..

/-- Events that are read as other events stay visible, or hidden. -/
theorem visible_map {hidden : ε → Bool} {hidden' : ε' → Bool} {event : ε → ε'}
    (h : ∀ e, hidden' (event e) = hidden e) (es : List ε) :
    visible hidden' (es.map event) = (visible hidden es).map event := by
  rw [visible, List.filter_map]
  exact congrArg (fun p => (es.filter p).map event) (funext fun e => by simp [h])

/-! ## Actions -/

/-- Two runs with the same answer, the same state and the same visible events. -/
structure Run.Resembles (hidden : ε → Bool) (a b : Run σ ε α) : Prop where
  answer : a.answer = b.answer
  state : a.state = b.state
  events : visible hidden a.events = visible hidden b.events

/-- From every state two actions run alike, hidden events left out. -/
def Action.Resembles (hidden : ε → Bool) (x y : Action σ ε α) : Prop :=
  ∀ s, (x s).Resembles hidden (y s)

namespace Action.Resembles

variable {hidden : ε → Bool} {x y : Action σ ε α}

theorem refl (x : Action σ ε α) : x.Resembles hidden x := fun _ => ⟨rfl, rfl, rfl⟩

theorem bind {f g : α → Action σ ε β} (h : x.Resembles hidden y)
    (hf : ∀ a, (f a).Resembles hidden (g a)) : (x >>= f).Resembles hidden (y >>= g) := by
  intro s
  obtain ⟨ha, hs, he⟩ := h s
  obtain ⟨ha', hs', he'⟩ := hf (x s).answer (x s).state
  rw [bind_apply, bind_apply, ← ha, ← hs]
  exact ⟨ha', hs', by rw [visible_append, visible_append, he, he']⟩

theorem map (f : α → β) (h : x.Resembles hidden y) : (f <$> x).Resembles hidden (f <$> y) := by
  rw [← bind_pure_comp, ← bind_pure_comp]
  exact h.bind fun _ => refl _

theorem discard (h : x.Resembles hidden y) :
    (Functor.discard x : Action σ ε Unit).Resembles hidden (Functor.discard y) := h.map _

theorem within {hidden' : ε' → Bool} (h : x.Resembles hidden y) (part : τ → σ) (put : τ → σ → τ)
    {event : ε → ε'} (hevent : ∀ e, hidden' (event e) = hidden e) :
    (x.within part put event).Resembles hidden' (y.within part put event) := by
  intro t
  obtain ⟨ha, hs, he⟩ := h (part t)
  exact ⟨ha, congrArg (put t) hs, by simp only [Action.within, visible_map hevent, he]⟩

theorem mapM {f g : β → Action σ ε α} (h : ∀ b, (f b).Resembles hidden (g b)) :
    ∀ l : List β, (l.mapM f).Resembles hidden (l.mapM g)
  | [] => by
    rw [List.mapM_nil, List.mapM_nil]
    exact refl _
  | b :: l => by
    rw [List.mapM_cons, List.mapM_cons]
    exact bind (h b) fun _ => bind (mapM h l) fun _ => refl _

theorem forM {f g : β → Action σ ε Unit} (h : ∀ b, (f b).Resembles hidden (g b)) :
    ∀ l : List β, (l.forM f).Resembles hidden (l.forM g)
  | [] => refl _
  | b :: l => bind (h b) fun _ => forM h l

end Action.Resembles

/-! ## Dialogues -/

/-- Two dialogues that ask the same questions and, however these are answered, end alike; their
notes differ in hidden ones only. -/
inductive Dialogue.Resembles (hidden : ε → Bool) : Dialogue Q A ε α → Dialogue Q A ε α → Prop
  | done (a : α) : Resembles hidden (.done a) (.done a)
  | tell {notes notes' : List ε} {next next' : Dialogue Q A ε α}
      (h : visible hidden notes = visible hidden notes') (hnext : Resembles hidden next next') :
      Resembles hidden (.tell notes next) (.tell notes' next')
  | ask (q : Q) {next next' : A → Dialogue Q A ε α} (h : ∀ a, Resembles hidden (next a) (next' a)) :
      Resembles hidden (.ask q next) (.ask q next')

namespace Dialogue.Resembles

variable {hidden : ε → Bool} {d d' : Dialogue Q A ε α}

theorem map (f : α → β) (h : d.Resembles hidden d') : (d.map f).Resembles hidden (d'.map f) := by
  induction h with
  | done a => exact .done _
  | tell h _ ih => exact .tell h ih
  | ask q _ ih => exact .ask q ih

/-- Ending with runs that resemble each other. -/
theorem finish {a b : Run σ ε α} (h : a.Resembles hidden b) :
    (Dialogue.finish a : Dialogue Q A ε (α × σ)).Resembles hidden (Dialogue.finish b) := by
  rw [Dialogue.finish, Dialogue.finish, h.answer, h.state]
  exact .tell h.events (.done _)

/-- Runs of dialogues whose questions are answered alike. -/
theorem run {hidden' : ε' → Bool} {event : ε → ε'} (hevent : ∀ n, hidden' (event n) = hidden n)
    {reply reply' : Q → Action τ ε' A} (hreply : ∀ q, (reply q).Resembles hidden' (reply' q))
    (h : d.Resembles hidden d') : (d.run event reply).Resembles hidden' (d'.run event reply') := by
  induction h with
  | done a => exact .refl _
  | tell h _ ih =>
    intro t
    obtain ⟨ha, hs, he⟩ := ih t
    refine ⟨ha, hs, ?_⟩
    rw [run_tell, run_tell, visible_append, visible_append, visible_map hevent, visible_map hevent,
      h, he]
  | ask q _ ih => exact .bind (hreply q) ih

end Dialogue.Resembles

/-! ## Operations -/

/-- The events that a cache hides: the notes that are hidden. -/
def Event.hides (hidden : Note K V → Bool) : Event K V → Bool
  | .note n => hidden n
  | _ => false

theorem Event.hides_note (hidden : Note K V → Bool) (n : Note K V) :
    Event.hides hidden (.note n) = hidden n := rfl

variable {hidden : Note K V → Bool}

namespace Cache

theorem Op.bind_resembles {x y : Op σ K V α} {f g : α → Op σ K V β}
    (h : x.run.Resembles (Event.hides hidden) y.run)
    (hf : ∀ a, (f a).run.Resembles (Event.hides hidden) (g a).run) :
    (x >>= f).run.Resembles (Event.hides hidden) (y >>= g).run := by
  refine .bind h fun r => ?_
  cases r with
  | ok a => exact hf a
  | error e => exact .refl _

theorem Op.lift_resembles {x y : Action (State σ) (Event K V) α}
    (h : x.Resembles (Event.hides hidden) y) :
    (liftM x : Op σ K V α).run.Resembles (Event.hides hidden) (liftM y : Op σ K V α).run :=
  .bind h fun _ => .refl _

theorem onStore_resembles {x y : Action σ (Note K V) α} (h : x.Resembles hidden y) :
    (onStore x).Resembles (Event.hides hidden) (onStore y) :=
  h.within _ _ (Event.hides_note hidden)

end Cache

/-! ## Stores -/

/-- Stores whose calls resemble each other, and that count alike. -/
structure Store.Resembles (hidden : Note K V → Bool) (a b : Store σ K V) : Prop where
  get : ∀ k, (a.get k).Resembles hidden (b.get k)
  containsKey : ∀ k, (a.containsKey k).Resembles hidden (b.containsKey k)
  put : ∀ k v, (a.put k v).Resembles hidden (b.put k v)
  remove : ∀ k, (a.remove k).Resembles hidden (b.remove k)
  clear : a.clear.Resembles hidden b.clear
  iterate : a.iterate.Resembles hidden b.iterate
  bulkComputeIfAbsent : ∀ ks s,
    (a.bulkComputeIfAbsent ks s).Resembles hidden (b.bulkComputeIfAbsent ks s)
  bulkCompute : ∀ ks s, (a.bulkCompute ks s).Resembles hidden (b.bulkCompute ks s)
  metrics : a.metrics = b.metrics

namespace Plan

variable (plan : Plan)

theorem guard_resembles {x y : Action σ (Note K V) (Except StoreError α)}
    (h : x.Resembles hidden y) : (plan.guard x).Resembles hidden (plan.guard y) := by
  intro s
  obtain ⟨ha, hs, he⟩ := h s.inner
  rw [guard, guard, hs]
  rcases plan s.received with _ | ⟨e, _ | _⟩
  · exact ⟨ha, rfl, he⟩
  · exact ⟨rfl, rfl, rfl⟩
  · exact ⟨rfl, rfl, he⟩

theorem guardBulk_resembles {call call' : σ → BulkCall σ Q K V}
    (h : ∀ s, (call s).Resembles hidden (call' s)) (s : Counted σ) :
    (plan.guardBulk call s).Resembles hidden (plan.guardBulk call' s) := by
  rw [guardBulk, guardBulk]
  rcases plan s.received with _ | ⟨e, _ | _⟩
  · exact (h s.inner).map _
  · exact .done _
  · exact (h s.inner).map _

end Plan

namespace Store.Resembles

variable {a b : Store σ K V}

/-- The same plan strikes stores alike. -/
theorem failing (h : a.Resembles hidden b) (plan : Plan) :
    (a.failing plan).Resembles hidden (b.failing plan) where
  get k := plan.guard_resembles (h.get k)
  containsKey k := plan.guard_resembles (h.containsKey k)
  put k v := plan.guard_resembles (h.put k v)
  remove k := plan.guard_resembles (h.remove k)
  clear := plan.guard_resembles h.clear
  iterate := .bind (plan.guard_resembles (h.iterate.bind fun _ => .refl _)) fun r => by
    cases r <;> exact .refl _
  bulkComputeIfAbsent ks := plan.guardBulk_resembles (h.bulkComputeIfAbsent ks)
  bulkCompute ks := plan.guardBulk_resembles (h.bulkCompute ks)
  metrics := by
    funext s
    exact congrFun h.metrics s.inner

theorem obliterate (h : a.Resembles hidden b) (k : K) :
    (a.obliterate k).Resembles hidden (b.obliterate k) :=
  (h.remove k).bind fun _ => .refl _

theorem obliterateKeys (h : a.Resembles hidden b) : ∀ ks : List K,
    (a.obliterateKeys ks).Resembles hidden (b.obliterateKeys ks)
  | [] => .refl _
  | k :: ks => (h.obliterate k).bind fun r => by
    cases r with
    | ok u => exact obliterateKeys h ks
    | error e => exact .refl _

theorem recover (h : a.Resembles hidden b) (scope : Scope K) :
    (a.recover scope).Resembles hidden (b.recover scope) := by
  cases scope with
  | key k => exact h.obliterate k
  | keys ks => exact h.obliterateKeys ks
  | all => exact h.clear

end Store.Resembles

namespace Strategy

theorem cleanup_resembles {a b : Store σ K V} (h : a.Resembles hidden b) (obliterating : Bool)
    (scope : Scope K) (e : StoreError) :
    (cleanup obliterating a scope e).Resembles hidden (cleanup obliterating b scope e) := by
  cases obliterating with
  | false => exact .refl _
  | true => exact (h.recover scope).bind fun r => by cases r <;> exact .refl _

/-- The strategies there are make the same of a failure over stores that resemble each other. -/
theorem Shipped.forStore_resembles (shipped : Shipped) {a b : Store σ K V}
    (h : a.Resembles hidden b) (call : FailedCall K V) (e : StoreError) :
    (shipped.forStore a call e).Resembles hidden (shipped.forStore b call e) := by
  cases shipped with
  | propagating => exact .refl _
  | robust obliterating =>
    cases call with
    | iterate => exact .refl _
    | _ => exact (cleanup_resembles h obliterating _ e).bind fun _ => .refl _

end Strategy

end ResilientCache
