import ResilientCache.Lifecycle
import ResilientCache.Policy
import ResilientCache.Strategy
import ResilientCache.Tally

/-!
# Caches

A `Cache` stands between its callers and a store. It is made of a store, a failure strategy and an
expiry policy; its state adds to the store's a lifecycle and the counts of bulk entries.

Every operation is an `Op` and has one shape. It fails at once unless the cache is available
(`checkAvailable`). It then makes one call of the store. If that succeeds, the answer is interpreted
and an outcome is recorded. If it fails, the decision is the strategy's (`consult`), and the
operation's failure outcome is recorded after it was made (`resolve`).

Operations that read and write in one step go through the store's bulk primitive; `computeOne` does
so for a single key. The function handed to the store works on a state of its own, of type `τ`, in
which it keeps what the operation wants to know afterwards.
-/

namespace ResilientCache

/-- A cache over a store whose state is a `σ`. -/
structure Cache (σ K V : Type) where
  name : String := "cache"
  store : Store σ K V
  strategy : Strategy σ K V := .robust true store
  /-- Consulted to drop values that would be expired on arrival. -/
  expiry : Policy K V := .eternal

/-- What changes in a cache. -/
structure Cache.State (σ : Type) where
  store : σ
  lifecycle : Lifecycle := {}
  bulk : BulkCounts := .empty

namespace Cache

/-- An operation of a cache: an action that may end with an error. -/
abbrev Op (σ K V : Type) := ExceptT CacheError (Action (State σ) (Event K V))

variable {σ τ K V α β Q : Type}

/-- What an operation goes on with happens only after a success. -/
theorem Op.bind_apply (x : Op σ K V α) (f : α → Op σ K V β) (s : State σ) :
    (x >>= f : Op σ K V β) s =
      match x s with
      | ⟨.ok a, s', es⟩ => ⟨(f a s').answer, (f a s').state, es ++ (f a s').events⟩
      | ⟨.error e, s', es⟩ => ⟨.error e, s', es⟩ := by
  simp only [bind, ExceptT.bind, ExceptT.mk]
  rcases x s with ⟨a | a, s', es⟩ <;> simp [ExceptT.bindCont, pure]

theorem Op.bind_of_ok {x : Op σ K V α} {s : State σ} {a : α} (h : (x s).answer = .ok a)
    (f : α → Op σ K V β) :
    (x >>= f : Op σ K V β) s =
      ⟨(f a (x s).state).answer, (f a (x s).state).state,
        (x s).events ++ (f a (x s).state).events⟩ := by
  rw [Op.bind_apply]
  rcases hx : x s with ⟨answer, s', es⟩
  rw [hx] at h
  subst h
  rfl

theorem Op.pure_apply (a : α) (s : State σ) : (pure a : Op σ K V α) s = ⟨.ok a, s, []⟩ := rfl

theorem Op.throw_apply (e : CacheError) (s : State σ) :
    (throw e : Op σ K V α) s = ⟨.error e, s, []⟩ := rfl

theorem Op.map_apply (f : α → β) (x : Op σ K V α) (s : State σ) :
    (f <$> x : Op σ K V β) s = ⟨(x s).answer.map f, (x s).state, (x s).events⟩ := by
  rw [← bind_pure_comp, Op.bind_apply]
  rcases x s with ⟨a | a, s', es⟩ <;> simp [Op.pure_apply, Except.map]

/-- An action that is part of an operation succeeds. -/
theorem Op.lift_apply (x : Action (State σ) (Event K V) α) (s : State σ) :
    (liftM x : Op σ K V α) s = ⟨.ok (x s).answer, (x s).state, (x s).events⟩ := by
  show (Except.ok <$> x) s = _
  rw [← bind_pure_comp, Action.bind_apply]
  simp

theorem Op.lift_bind (x : Action (State σ) (Event K V) α) (f : α → Op σ K V β) :
    (liftM x >>= f : Op σ K V β) = ExceptT.mk (x >>= f) := by
  funext s
  rw [Op.bind_apply, Op.lift_apply]
  rfl

/-! ## Parts -/

/-- Run an action of the store. -/
def onStore (x : Action σ (Note K V) α) : Action (State σ) (Event K V) α :=
  x.within State.store (fun s store => { s with store }) .note

/-- Run an action of the lifecycle. -/
def onLifecycle (x : Action Lifecycle (Event K V) α) : Action (State σ) (Event K V) α :=
  x.within State.lifecycle (fun s lifecycle => { s with lifecycle }) id

/-- Call the store of a cache. -/
def callStore (c : Cache σ K V) (call : Store σ K V → Action σ (Note K V) α) : Op σ K V α :=
  ExceptT.lift (onStore (call c.store))

/-- Tell that a terminal outcome was recorded. -/
def record (_ : Cache σ K V) (o : Outcome) : Action (State σ) (Event K V) Unit :=
  Action.tell (.recorded o)

/-- Add to the count of a kind of bulk entries. -/
def addBulk (_ : Cache σ K V) (kind : BulkKind) (n : UInt64) : Action (State σ) (Event K V) Unit :=
  Action.change fun s => { s with bulk := s.bulk.add kind n }

/-- Whether the cache's policy has a value dead on arrival over the value a key holds. -/
def deadOnArrival (c : Cache σ K V) (k : K) (old? : Option V) (new : V) :
    Action τ (Event K V) Bool :=
  (c.expiry.deadOnArrival .cache (.ofWrite k old? new)).within id (fun _ t => t) .note

/-- Fails unless the cache is available. -/
def checkAvailable : Op σ K V Unit := ExceptT.mk (Action.read (·.lifecycle.checkAvailable))

/-! ## Failures -/

/-- Ask the strategy about a failed store call. -/
def consult (c : Cache σ K V) (call : FailedCall K V) (e : StoreError) : Op σ K V call.Answer :=
  ExceptT.mk do
    Action.tell (.consulted call e)
    onStore (c.strategy call e)

theorem consult_apply (c : Cache σ K V) (call : FailedCall K V) (e : StoreError) (s : State σ) :
    c.consult call e s =
      ⟨(c.strategy call e s.store).answer, { s with store := (c.strategy call e s.store).state },
        .consulted call e :: (c.strategy call e s.store).events.map .note⟩ := rfl

/-- Decide about a failed store call, and then record the failure. -/
def resolve (c : Cache σ K V) (call : FailedCall K V) (failure : Outcome) (e : StoreError) :
    Op σ K V call.Answer :=
  ExceptT.mk do
    let decision ← (c.consult call e).run
    c.record failure
    return decision

/-- Decide about a failed bulk primitive, and then record the failure. A failure of the function
that was handed to the store never reaches the strategy. -/
def resolveBulk (c : Cache σ K V) (call : FailedCall K V) (failure : Outcome) :
    BulkError → Op σ K V call.Answer
  | .store e => c.resolve call failure e
  | .function fault => do
    c.record failure
    throw (.compute fault)

/-! ## Bulk primitives -/

/-- Make a bulk call of the store, its questions answered by a function that starts in a state of
its own; the result is paired with the state the function ends in. -/
def bulkCall (call : σ → BulkCall σ Q K V)
    (reply : Q → Action τ (Event K V) (Except Fault (Mappings K V))) (start : τ) :
    Action (State σ) (Event K V) (Except BulkError (Computed K V) × τ) := fun s =>
  let r := (call s.store).run .note reply start
  ⟨(r.answer.1, r.state), { s with store := r.answer.2 }, r.events⟩

/-- Apply a function to the value of every key of a batch. -/
def remapEach (remap : Option (Handle V) → Action τ (Event K V) (Option (Handle V)))
    (batch : Mappings K V) : Action τ (Event K V) (Except Fault (Mappings K V)) := do
  return .ok (← batch.mapM fun (k, current) => return (k, ← remap current))

/-- Recompute one key from its current value as one step of the store. -/
def computeOne (c : Cache σ K V) (k : K)
    (remap : Option (Handle V) → Action τ (Event K V) (Option (Handle V))) (start : τ) :
    Action (State σ) (Event K V) (Except BulkError (Option (Holder V)) × τ) := do
  let (computed, kept) ← bulkCall (c.store.bulkCompute [k]) (remapEach remap) start
  return (computed.map fun all => all.getLast?.bind Prod.snd, kept)

/-! ## Lifecycle -/

/-- Make the cache available. -/
def init (table : HookTable) : Op σ K V Unit :=
  ExceptT.mk (onLifecycle (Lifecycle.move table .init))

/-- Close the cache for good. -/
def close (table : HookTable) : Op σ K V Unit :=
  ExceptT.mk (onLifecycle (Lifecycle.move table .close))

/-- Register a lifecycle hook. -/
def addHook (hook : HookName) : Op σ K V Unit :=
  ExceptT.mk (onLifecycle (Lifecycle.addHook hook))

/-- Remove a lifecycle hook; whether it was registered. -/
def removeHook (hook : HookName) : Op σ K V Bool :=
  ExceptT.mk (onLifecycle (Lifecycle.removeHook hook))

end Cache

end ResilientCache
