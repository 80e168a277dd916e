import ResilientCache.Proofs.Availability
import ResilientCache.Proofs.Degrading

/-!
# A failure without recovery leaves no trace

An operation makes one store call, and whatever it will have counted, remembered or written is made
ready before that call. If the call fails before it takes effect, none of it reaches the state: all
that is left is that the store has received one more call (`State.tried`). A strategy that does not
obliterate adds nothing to this. So the operation could as well not have happened.

For the last statement each deed of a run comes with the plan by which its own store calls fail,
numbered from its first (`liveUnder`). Dropping a deed from the run then leaves the failures of the
others where they were.

Headlines:
* `ask_early`: a call whose store call fails early has no effect of its own.
* `serve_early`, `loadAll_struck`: what its caller gets, and that the state is as it was.
* `actUnder_early`: the world after it is the world before it.
* **`failure_atomic`**: both, and so a run goes on as if the operation had not been in it.
-/

namespace ResilientCache

variable {σ τ Q K V α : Type}

namespace Cache

/-- The state after a store call that had no effect: the call was received. -/
def State.tried (s : State (Counted σ)) : State (Counted σ) :=
  { s with store := { s.store with received := s.store.received + 1 } }

/-! ## The store call -/

section

variable {plan : Plan} {e : StoreError} {s : State (Counted σ)}
  (h : plan s.store.received = some { error := e })

include h

theorem askPlain_early (x : Action σ (Note K V) (Except StoreError α)) :
    (askPlain (plan.guard x) s : Run _ (Event K V) _) = ⟨.error (.store e), s.tried, []⟩ := by
  simp [askPlain, onStore, Action.within, Plan.guard_struck x h, State.tried]

theorem bulkCall_early (call : σ → BulkCall σ Q K V)
    (reply : Q → Action τ (Event K V) (Except Fault (Mappings K V))) (start : τ) :
    bulkCall (plan.guardBulk call) reply start s =
      ⟨(.error (.store e), start), s.tried, []⟩ := by
  simp [bulkCall, Plan.guardBulk, h, State.tried]

variable (name : String) (expiry : Policy K V) (shipped : Strategy.Shipped) (store : Store σ K V)

theorem computeOne_early (k : K)
    (remap : Option (Handle V) → Action τ (Event K V) (Option (Handle V))) (start : τ) :
    (unreliable name expiry shipped store plan).computeOne k remap start s =
      ⟨(.error (.store e), start), s.tried, []⟩ := by
  have hcall := bulkCall_early h (store.bulkCompute [k]) (remapEach remap) start
  rw [computeOne, Action.bind_apply]
  simp only [unreliable, Store.failing, hcall]
  rfl

variable [DecidableEq K] [BEq V]

/-- A call whose store call fails early has no effect of its own. -/
theorem ask_early (call : Call K V) :
    (unreliable name expiry shipped store plan).ask call s =
      ⟨.error (.store e), s.tried, []⟩ := by
  have kept {α τ : Type} {x : Action (State (Counted σ)) (Event K V) (Except BulkError α × τ)}
      {start : τ} (hx : x s = ⟨(.error (.store e), start), s.tried, []⟩) :
      askKept x s = ⟨.error (.store e), s.tried, []⟩ := by
    simp [askKept, hx, Except.map]
  have result {α τ : Type} {x : Action (State (Counted σ)) (Event K V) (Except BulkError α × τ)}
      {start : τ} (hx : x s = ⟨(.error (.store e), start), s.tried, []⟩) :
      askResult x s = ⟨.error (.store e), s.tried, []⟩ := by
    simp [askResult, hx]
  cases call with
  | get k => exact askPlain_early h _
  | containsKey k => exact askPlain_early h _
  | put k v => exact result (computeOne_early h name expiry shipped store k _ _)
  | putIfAbsent k v => exact kept (computeOne_early h name expiry shipped store k _ _)
  | remove k => exact askPlain_early h _
  | removeIf k value => exact kept (computeOne_early h name expiry shipped store k _ _)
  | replace k v => exact kept (computeOne_early h name expiry shipped store k _ _)
  | replaceIf k old new => exact kept (computeOne_early h name expiry shipped store k _ _)
  | clear => exact askPlain_early h _
  | getAll ks => exact result (bulkCall_early h _ _ _)
  | getAllPresent ks => exact result (bulkCall_early h _ _ _)
  | putAll entries => exact kept (bulkCall_early h _ _ _)
  | removeAll ks => exact kept (bulkCall_early h _ _ _)

/-! ## The operation -/

/-- A call whose store call fails early is answered as the strategy has it. If the strategy does not
obliterate, nothing else is done. -/
theorem serve_early (hshipped : shipped.obliterates = false)
    (hs : s.lifecycle.status = .available) (call : Call K V) :
    let r := (unreliable name expiry shipped store plan).serve call s
    r.answer = shipped.verdict call e ∧ r.state = s.tried := by
  have hask := ask_early h name expiry shipped store call
  have hserve := serve_of_store_error (unreliable name expiry shipped store plan) call hs
    (congrArg Run.answer hask)
  obtain ⟨hanswer, hstate⟩ :=
    shipped.forStore_apply (store.failing plan) call e (s.tried : State (Counted σ)).store
  rw [hshipped] at hstate
  rw [hask] at hserve
  rw [hserve]
  exact ⟨hanswer, congrArg (fun store => { s.tried with store }) hstate⟩

omit [BEq V] in
/-- A bulk load whose store call fails early is a loading error, over any store and whatever the
strategy. -/
theorem loadAll_struck {c : Cache (Counted σ) K V} (hc : c.store = store.failing plan)
    (hs : s.lifecycle.status = .available) {ks : List K} (hne : ks ≠ []) (replaceExisting : Bool)
    (loader : Loader K V) :
    (c.loadAll ks replaceExisting loader).run s =
      ⟨.error (.loading (.store e)), s.tried, []⟩ := by
  rw [loadAll_apply _ hs (List.isEmpty_eq_false_iff.mpr hne)]
  cases replaceExisting with
  | true =>
    simp only [if_true, hc, Store.failing, bulkCall_early h]
    rfl
  | false =>
    simp only [Bool.false_eq_true, if_false, hc, Store.failing, bulkCall_early h]
    rfl

end

end Cache

/-! ## Runs -/

/-- A world whose store counts its calls from here. -/
def World.renumbered (w : World (Counted σ) K V) : World (Counted σ) K V :=
  { w with cache := { w.cache with store := { w.cache.store with received := 0 } } }

/-- A deed that makes one store call and leaves it at that: a call, or a bulk load of some keys. -/
def Deed.IsSingle : Deed σ K V → Prop
  | .use (.call _) => True
  | .use (.loadAll ks _ _) => ks ≠ []
  | _ => False

/-- A deed with what it was answered. -/
abbrev Answered (σ K V : Type) := (d : Deed σ K V) × d.Answer

namespace Cache

variable [DecidableEq K] [BEq V] (name : String) (expiry : Policy K V)
  (shipped : Strategy.Shipped) (store : Store σ K V)

/-- Do a deed under its plan. -/
def actUnder (plan : Plan) (d : Deed (Counted σ) K V) :
    Action (World (Counted σ) K V) (Event K V) d.Answer :=
  fun w => (unreliable name expiry shipped store plan).act d w.renumbered

/-- Do deeds one after the other, each under its plan, and list what they are answered. -/
def liveUnder : List (Plan × Deed (Counted σ) K V) →
    Action (World (Counted σ) K V) (Event K V) (List (Answered (Counted σ) K V))
  | [] => return []
  | (plan, d) :: rest => do
    let answer ← actUnder name expiry shipped store plan d
    let answers ← liveUnder rest
    return ⟨d, answer⟩ :: answers

theorem liveUnder_append : ∀ (before after : List (Plan × Deed (Counted σ) K V))
    (w : World (Counted σ) K V),
    let earlier := liveUnder name expiry shipped store before w
    (liveUnder name expiry shipped store (before ++ after) w).answer =
      earlier.answer ++ (liveUnder name expiry shipped store after earlier.state).answer
  | [], _, _ => rfl
  | (plan, d) :: before, after, w =>
    congrArg (List.cons _) (liveUnder_append before after
      (actUnder name expiry shipped store plan d w).state)

/-- How many calls the store has received is of no account to a run. -/
theorem liveUnder_congr {w w' : World (Counted σ) K V} (h : w.renumbered = w'.renumbered)
    (turns : List (Plan × Deed (Counted σ) K V)) :
    (liveUnder name expiry shipped store turns w).answer =
      (liveUnder name expiry shipped store turns w').answer := by
  cases turns with
  | nil => rfl
  | cons turn rest =>
    obtain ⟨plan, d⟩ := turn
    have hact : actUnder name expiry shipped store plan d w =
        actUnder name expiry shipped store plan d w' := by
      rw [actUnder, actUnder, h]
    simp only [liveUnder, Action.bind_apply, hact]

/-- A deed whose one store call fails early leaves the world as it was, also if the cache is not
available and refuses it. -/
theorem actUnder_early (hshipped : shipped.obliterates = false) {plan : Plan} {e : StoreError}
    (h : plan 0 = some { error := e }) {d : Deed (Counted σ) K V} (hd : d.IsSingle)
    (w : World (Counted σ) K V) :
    (actUnder name expiry shipped store plan d w).state.renumbered = w.renumbered := by
  have still {s : State (Counted σ)} (hs : s = w.renumbered.cache.tried) :
      World.renumbered { w.renumbered with cache := s } = w.renumbered := by
    rw [hs]
    rfl
  cases d with
  | use u =>
    by_cases hs : w.status = .available
    · cases u with
      | call operation =>
        exact still (serve_early (s := w.renumbered.cache) h name expiry shipped store hshipped hs
          operation).2
      | loadAll ks replaceExisting loader =>
        exact still (congrArg Run.state
          (loadAll_struck (s := w.renumbered.cache) h store rfl hs hd replaceExisting loader))
      | _ => exact hd.elim
    · exact congrArg (·.state.renumbered)
        (use_refused (unreliable name expiry shipped store plan) u (w := w.renumbered) hs)
  | _ => exact hd.elim

/-- **Without recovery a failure is atomic.** Over any store, with the propagating strategy or the
robust one that does not obliterate, an operation whose store call fails before it takes effect
makes no further store call and leaves the state as it was: the store with its content and counts,
the counts of bulk entries, the lifecycle. A call is answered with the very error or as little as it
can answer, as the strategy has it, and a bulk load with a loading error that wraps it. Dropped from
any run, it changes none of the other answers. -/
theorem failure_atomic (hshipped : shipped.obliterates = false) (plan : Plan) (e : StoreError) :
    (∀ s : State (Counted σ), s.lifecycle.status = .available →
      plan s.store.received = some { error := e } →
      let c := unreliable name expiry shipped store plan
      (∀ call : Call K V, (c.serve call s).answer = shipped.verdict call e ∧
        (c.serve call s).state = s.tried) ∧
      ∀ (ks : List K) (replaceExisting : Bool) (loader : Loader K V), ks ≠ [] →
        ((c.loadAll ks replaceExisting loader).run s).answer = .error (.loading (.store e)) ∧
          ((c.loadAll ks replaceExisting loader).run s).state = s.tried) ∧
    ∀ (before after : List (Plan × Deed (Counted σ) K V)) (d : Deed (Counted σ) K V)
      (w : World (Counted σ) K V), d.IsSingle → plan 0 = some { error := e } →
      let answers turns := (liveUnder name expiry shipped store turns w).answer
      ∃ answer later, answers (before ++ (plan, d) :: after) =
          answers before ++ ⟨d, answer⟩ :: later ∧
        answers (before ++ after) = answers before ++ later := by
  refine ⟨fun s hs h => ⟨serve_early h name expiry shipped store hshipped hs, ?_⟩, ?_⟩
  · intro ks replaceExisting loader hne
    rw [loadAll_struck h store rfl hs hne]
    exact ⟨rfl, rfl⟩
  · intro before after d w hd h answers
    let earlier := liveUnder name expiry shipped store before w
    let failed := actUnder name expiry shipped store plan d earlier.state
    have hlater := liveUnder_congr name expiry shipped store
      (actUnder_early name expiry shipped store hshipped h hd earlier.state) after
    refine ⟨failed.answer, (liveUnder name expiry shipped store after earlier.state).answer, ?_,
      liveUnder_append name expiry shipped store before after w⟩
    rw [← hlater]
    exact liveUnder_append name expiry shipped store before ((plan, d) :: after) w

/-- A put is struck before its effect, and the cache degrades without recovery: nobody is told, the
key keeps the value it had, and a later read finds it as if the put had not been made. -/
theorem failure_atomic_put :
    let store : Store (Memory Nat Nat) Nat Nat := .memory .eternal
    let struck : Plan := fun n => if n = 0 then some { error := .plain "down" } else none
    let calm : Plan := fun _ => none
    let s : State (Counted (Memory Nat Nat)) :=
      { store := { inner := { table := { pairs := [(1, .eternal ⟨0, 10⟩)] } } }
        lifecycle := { status := .available } }
    let w : World (Counted (Memory Nat Nat)) Nat Nat :=
      { cache := s, walks := fun _ => { raw := [], quiet := true } }
    let shipped : Strategy.Shipped := .robust false
    let put : Call Nat Nat := .put 1 ⟨1, 20⟩
    let read : Deed (Counted (Memory Nat Nat)) Nat Nat := .use (.call (.get 1))
    let c := unreliable "cache" .eternal shipped store struck
    shipped.obliterates = false ∧ s.lifecycle.status = .available ∧
      struck s.store.received = some { error := .plain "down" } ∧
      (c.serve put s).answer = .ok () ∧ (c.serve put s).state = s.tried ∧
      ((c.loadAll [1, 2] true fun _ => .ok .empty).run s).answer =
        .error (.loading (.store (.plain "down"))) ∧
      ∃ answer, (liveUnder "cache" .eternal shipped store
          [(calm, read), (struck, .use (.call put)), (calm, read)] w).answer =
        [⟨read, .ok (some ⟨0, 10⟩)⟩, ⟨.use (.call put), answer⟩, ⟨read, .ok (some ⟨0, 10⟩)⟩] := by
  intro store struck calm s w shipped put read c
  have hs : s.lifecycle.status = .available := rfl
  have h : struck s.store.received = some { error := .plain "down" } := rfl
  let answers turns := (liveUnder "cache" .eternal shipped store turns w).answer
  obtain ⟨hfailed, hdropped⟩ :=
    failure_atomic "cache" .eternal shipped store rfl struck (.plain "down")
  obtain ⟨hserve, hload⟩ := hfailed s hs h
  obtain ⟨answer, later, hrun, hwithout⟩ :=
    hdropped [(calm, read)] [(calm, read)] (.use (.call put)) w trivial rfl
  have hreads : answers [(calm, read), (calm, read)] =
      answers [(calm, read)] ++ [⟨read, .ok (some ⟨0, 10⟩)⟩] := rfl
  obtain rfl := List.append_cancel_left (hwithout.symm.trans hreads)
  exact ⟨rfl, hs, h, (hserve put).1, (hserve put).2, (hload _ true _ (by simp)).1, answer, hrun⟩

end Cache

end ResilientCache
