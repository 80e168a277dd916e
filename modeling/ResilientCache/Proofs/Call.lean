import ResilientCache.Proofs.Telling

/-!
# The shape of an operation

A `Call` is an operation of a cache that makes one call of the store and leaves the failures of that
call to the failure strategy. `Cache.ask` is its store call alone; `Cache.complete` is what the
operation makes of the result: a report of its answer, its outcome and its counts if the store call
succeeded (`Call.conclude`), the decision of the strategy if the store failed.

Headlines:
* **`serve_eq`**: every call checks availability, asks its store and completes, in this order.
* `ask_tells`, `ask_keeps`: asking the store tells notes only and changes nothing but the store.
* `complete_store`, `complete_fault`: what a call makes of a failed store call.
* `serve_of_store_error`, `serve_refused`: a call whose store call failed, and one that is refused.
* `loadAll_apply`: a bulk load, which is no call, is its bulk call of the store too.
-/

namespace ResilientCache

variable {σ τ K V α β : Type}

/-- An operation whose store failures are left to the strategy. -/
inductive Call (K V : Type)
  | get (k : K)
  | containsKey (k : K)
  | put (k : K) (v : Handle V)
  | putIfAbsent (k : K) (v : Handle V)
  | remove (k : K)
  | removeIf (k : K) (value : V)
  | replace (k : K) (v : Handle V)
  | replaceIf (k : K) (old : V) (new : Handle V)
  | clear
  | getAll (ks : List K)
  | getAllPresent (ks : List K)
  | putAll (entries : List (K × Handle V))
  | removeAll (ks : List K)

/-- What a successful operation reports: its answer, the outcome it records, if it records one, and
what it adds to the counts of bulk entries. -/
structure Success (α : Type) where
  answer : α
  outcome : Option Outcome
  counted : List (BulkKind × UInt64) := []

/-- The outcome that reports a failure of an operation. -/
def Operation.failure : Operation → Outcome
  | get => .get .failure
  | getAll => .getAll .failure
  | put => .put .failure
  | putAll => .putAll .failure
  | remove => .remove .failure
  | removeAll => .removeAll .failure
  | conditionalRemove => .conditionalRemove .failure
  | putIfAbsent => .putIfAbsent .failure
  | replace => .replace .failure
  | clear => .clear .failure

namespace Call

/-- What a call answers. -/
@[reducible] def Answer : Call K V → Type
  | get _ => Option (Handle V)
  | containsKey _ => Bool
  | put _ _ => Unit
  | putIfAbsent _ _ => Option (Handle V)
  | remove _ => Unit
  | removeIf _ _ => Bool
  | replace _ _ => Option (Handle V)
  | replaceIf _ _ _ => Bool
  | clear => Unit
  | getAll _ => KeyMap K (Option (Handle V))
  | getAllPresent _ => KeyMap K (Handle V)
  | putAll _ => Unit
  | removeAll _ => Unit

/-- What a call learns from its store: the store's answer, or for a conditional or bulk write what
the batch function kept. -/
@[reducible] def Reply : Call K V → Type
  | get _ => Option (Holder V)
  | containsKey _ => Bool
  | put _ _ => Option (Holder V)
  | putIfAbsent _ _ => Option (Handle V)
  | remove _ => Bool
  | removeIf _ _ => Outcome.ConditionalRemove
  | replace _ _ => Option (Handle V)
  | replaceIf _ _ _ => Outcome.Replace
  | clear => Unit
  | getAll _ => Computed K V
  | getAllPresent _ => Computed K V
  | putAll _ => Cache.PutProgress K V
  | removeAll _ => Nat

/-- The operation under which a call reports its outcome; `containsKey` reports none. -/
def operation? : Call K V → Option Operation
  | get _ => some .get
  | containsKey _ => none
  | put _ _ => some .put
  | putIfAbsent _ _ => some .putIfAbsent
  | remove _ => some .remove
  | removeIf _ _ => some .conditionalRemove
  | replace _ _ => some .replace
  | replaceIf _ _ _ => some .replace
  | clear => some .clear
  | getAll _ => some .getAll
  | getAllPresent _ => some .getAll
  | putAll _ => some .putAll
  | removeAll _ => some .removeAll

/-- The outcome a call records when its store call fails. -/
def failure? (call : Call K V) : Option Outcome := call.operation?.map Operation.failure

variable [DecidableEq K]

/-- What the strategy is asked when the store call of a call fails: the operation itself with its
own inputs, repeated keys of a read or a removal once. -/
def failed : Call K V → FailedCall K V
  | get k => .get k
  | containsKey k => .containsKey k
  | put k v => .put k v
  | putIfAbsent k v => .putIfAbsent k v
  | remove k => .remove k
  | removeIf k value => .removeIf k value
  | replace k v => .replace k v
  | replaceIf k old new => .replaceIf k old new
  | clear => .clear
  | getAll ks => .getAll ks.eraseDups
  | getAllPresent ks => .getAll ks.eraseDups
  | putAll entries => .putAll entries
  | removeAll ks => .removeAll ks.eraseDups

/-- What a decision of the strategy becomes as the answer of the call. -/
def ofDecision : (call : Call K V) → call.failed.Answer → call.Answer
  | get _, v => v
  | containsKey _, b => b
  | put _ _, u => u
  | putIfAbsent _ _, v => v
  | remove _, u => u
  | removeIf _ _, b => b
  | replace _ _, v => v
  | replaceIf _ _ _, b => b
  | clear, u => u
  | getAll _, ps => Cache.collect true ps
  | getAllPresent _, ps => (Cache.collect false ps).filterMap fun _ v => v
  | putAll _, u => u
  | removeAll _, u => u

/-- What a bulk read reports of the holders it was shown. -/
def found (includeAbsent : Bool) (computed : Computed K V) :
    Success (KeyMap K (Option (Handle V))) :=
  let found := Cache.collect includeAbsent (computed.map fun (k, h) => (k, h.map Holder.value))
  { answer := found
    outcome := some (.getAll .success)
    counted :=
      [(.getAllHits, .ofNat (Cache.hits found)),
        (.getAllMiss, .ofNat (computed.length - Cache.hits found))] }

/-- What a call reports when its store call succeeded. -/
def conclude : (call : Call K V) → call.Reply → Success call.Answer
  | get _, h =>
    { answer := h.map Holder.value
      outcome := some (.get (if h.isSome then .hit else .miss)) }
  | containsKey _, present => { answer := present, outcome := none }
  | put _ _, h => { answer := (), outcome := some (.put (if h.isSome then .put else .noop)) }
  | putIfAbsent _ _, existing =>
    { answer := existing, outcome := some (.putIfAbsent (if existing.isSome then .hit else .put)) }
  | remove _, removed =>
    { answer := (), outcome := some (.remove (if removed then .success else .noop)) }
  | removeIf _ _, outcome =>
    { answer := outcome = .success, outcome := some (.conditionalRemove outcome) }
  | replace _ _, previous =>
    { answer := previous
      outcome := some (.replace (if previous.isSome then .hit else .missNotPresent)) }
  | replaceIf _ _ _, outcome => { answer := outcome = .hit, outcome := some (.replace outcome) }
  | clear, _ => { answer := (), outcome := some (.clear .success) }
  | getAll _, computed => found true computed
  | getAllPresent _, computed =>
    { found false computed with answer := (found false computed).answer.filterMap fun _ v => v }
  | putAll _, progress =>
    { answer := ()
      outcome := some (.putAll .success)
      counted := [(.putAll, .ofNat progress.puts), (.updateAll, .ofNat progress.updates)] }
  | removeAll _, removed =>
    { answer := ()
      outcome := some (.removeAll .success)
      counted := [(.removeAll, .ofNat removed)] }

end Call

namespace Cache

/-! ## Availability -/

theorem checkAvailable_of_available {s : State σ} (h : s.lifecycle.status = .available) :
    (checkAvailable : Op σ K V Unit) s = ⟨.ok (), s, []⟩ := by
  simp [checkAvailable, ExceptT.mk, Lifecycle.checkAvailable, h]

theorem checkAvailable_of_not_available {s : State σ} (h : s.lifecycle.status ≠ .available) :
    (checkAvailable : Op σ K V Unit) s = ⟨.error (.unavailable s.lifecycle.status), s, []⟩ := by
  simp [checkAvailable, ExceptT.mk, Lifecycle.checkAvailable, h]

/-! ## Store calls of the three kinds -/

@[simp] theorem mapError_error {ε ε' : Type} (f : ε → ε') (e : ε) :
    (Except.error e : Except ε α).mapError f = .error (f e) := rfl

/-- A plain call of the store, its failure read as that of a bulk primitive. -/
def askPlain (x : Action σ (Note K V) (Except StoreError α)) :
    Action (State σ) (Event K V) (Except BulkError α) := do
  return (← onStore x).mapError .store

/-- A bulk call of the store for which only what its function kept matters. -/
def askKept (x : Action (State σ) (Event K V) (Except BulkError α × τ)) :
    Action (State σ) (Event K V) (Except BulkError τ) := do
  let (result, kept) ← x
  return result.map fun _ => kept

/-- A bulk call of the store for which only its result matters. -/
def askResult (x : Action (State σ) (Event K V) (Except BulkError α × τ)) :
    Action (State σ) (Event K V) (Except BulkError α) := do
  return (← x).1

theorem askPlain_bind (x : Action σ (Note K V) (Except StoreError α))
    (f : Except BulkError α → Action (State σ) (Event K V) β) :
    askPlain x >>= f = onStore x >>= fun r => f (r.mapError .store) := by
  simp [askPlain]

theorem askKept_bind (x : Action (State σ) (Event K V) (Except BulkError α × τ))
    (f : Except BulkError τ → Action (State σ) (Event K V) β) :
    askKept x >>= f = x >>= fun r => f (r.1.map fun _ => r.2) := by
  simp [askKept]

theorem askResult_bind (x : Action (State σ) (Event K V) (Except BulkError α × τ))
    (f : Except BulkError α → Action (State σ) (Event K V) β) :
    askResult x >>= f = x >>= fun r => f r.1 := by
  simp [askResult]

/-- An operation that makes its store call after the check, and goes on alike. -/
theorem checked_congr (x : Action (State σ) (Event K V) α) {f g : α → Op σ K V β}
    (h : ∀ r, f r = g r) :
    (do checkAvailable; let r ← liftM x; f r : Op σ K V β) =
      (do checkAvailable; ExceptT.mk (x >>= g)) := by
  refine congrArg (bind checkAvailable) (funext fun _ => ?_)
  rw [Op.lift_bind, funext h]

/-! ## Completing a call -/

variable [DecidableEq K]

/-- What a call makes of the result of its store call. -/
def complete (c : Cache σ K V) (call : Call K V) :
    Except BulkError call.Reply → Action (State σ) (Event K V) (Except CacheError call.Answer)
  | .ok reply => fun s =>
    let success := call.conclude reply
    ⟨.ok success.answer, { s with bulk := s.bulk.addAll success.counted },
      success.outcome.toList.map .recorded⟩
  | .error (.store e) => do
    let decision ← (c.consult call.failed e).run
    call.failure?.forM c.record
    return decision.map call.ofDecision
  | .error (.function fault) => do
    call.failure?.forM c.record
    return .error (.compute fault)

/-- A failed store call completes with the decision of the strategy; the failure is recorded after
it. -/
theorem complete_store (c : Cache σ K V) (call : Call K V) (e : StoreError) (s : State σ) :
    c.complete call (.error (.store e)) s =
      ⟨(c.strategy call.failed e s.store).answer.map call.ofDecision,
        { s with store := (c.strategy call.failed e s.store).state },
        .consulted call.failed e :: (c.strategy call.failed e s.store).events.map .note ++
          call.failure?.toList.map .recorded⟩ := by
  cases h : call.failure? <;> simp [complete, h, record, ExceptT.run, consult_apply]

/-- A failed batch function completes with its own fault. -/
theorem complete_fault (c : Cache σ K V) (call : Call K V) (fault : Fault) (s : State σ) :
    c.complete call (.error (.function fault)) s =
      ⟨.error (.compute fault), s, call.failure?.toList.map .recorded⟩ := by
  cases h : call.failure? <;> simp [complete, h, record]

/-- Completing after a failure is resolving it, for the calls that record failures. -/
theorem complete_error (c : Cache σ K V) (call : Call K V) {failure : Outcome}
    (h : call.failure? = some failure) (e : BulkError) :
    c.complete call (.error e) =
      (call.ofDecision <$> c.resolveBulk call.failed failure e : Op σ K V call.Answer) := by
  funext s
  cases e with
  | store e =>
    rw [complete_store, Op.map_apply, h]
    simp [resolveBulk, resolve, ExceptT.mk, ExceptT.run, consult_apply, record]
  | function fault =>
    rw [complete_fault, Op.map_apply, h]
    simp [resolveBulk, Op.bind_apply, Op.lift_apply, Op.throw_apply, record, Except.map]

/-! ## Serving a call -/

variable [BEq V]

/-- Serve a call. -/
def serve (c : Cache σ K V) : (call : Call K V) → Op σ K V call.Answer
  | .get k => c.get k
  | .containsKey k => c.containsKey k
  | .put k v => c.put k v
  | .putIfAbsent k v => c.putIfAbsent k v
  | .remove k => c.remove k
  | .removeIf k value => c.removeIf k value
  | .replace k v => c.replace k v
  | .replaceIf k old new => c.replaceIf k old new
  | .clear => c.clear
  | .getAll ks => c.getAll ks
  | .getAllPresent ks => c.getAllPresent ks
  | .putAll entries => c.putAll entries
  | .removeAll ks => c.removeAll ks

/-- The store call of a call, alone. -/
def ask (c : Cache σ K V) :
    (call : Call K V) → Action (State σ) (Event K V) (Except BulkError call.Reply)
  | .get k => askPlain (c.store.get k)
  | .containsKey k => askPlain (c.store.containsKey k)
  | .put k v => askResult (c.computeOne k (c.accept k · v) ())
  | .putIfAbsent k v => askKept (c.computeOne k (c.keepOrAccept k v) none)
  | .remove k => askPlain (c.store.remove k)
  | .removeIf k value => askKept (c.computeOne k (dropEqual value) .failureKeyMissing)
  | .replace k v => askKept (c.computeOne k (c.acceptOver k v) none)
  | .replaceIf k old new => askKept (c.computeOne k (c.acceptEqual k old new) .missNotPresent)
  | .clear => askPlain c.store.clear
  | .getAll ks => askResult (bulkCall (c.store.bulkComputeIfAbsent ks.eraseDups) answerAbsent ())
  | .getAllPresent ks =>
    askResult (bulkCall (c.store.bulkComputeIfAbsent ks.eraseDups) answerAbsent ())
  | .putAll entries =>
    askKept (bulkCall (c.store.bulkCompute (entries.map Prod.fst).eraseDups)
      (fun batch => return .ok (← batch.mapM c.putPending)) { pending := .ofList entries })
  | .removeAll ks => askKept (bulkCall (c.store.bulkCompute ks.eraseDups) dropAll 0)

/-- **Every operation has one shape**: it checks availability, makes its store call and completes
with the result. -/
theorem serve_eq (c : Cache σ K V) (call : Call K V) :
    c.serve call = (do checkAvailable; ExceptT.mk (c.ask call >>= c.complete call)) := by
  cases call with
  | get k =>
    rw [ask, askPlain_bind]
    refine checked_congr _ fun r => ?_
    rcases r with e | h | h
    · exact ((c.complete_error (.get k) rfl (.store e)).trans (id_map _)).symm
    · rfl
    · rfl
  | containsKey k =>
    rw [ask, askPlain_bind]
    refine checked_congr _ fun r => ?_
    rcases r with e | present
    · funext s
      have h := complete_store c (.containsKey k) e s
      refine .trans ?_ h.symm
      cases hd : (c.strategy (.containsKey k) e s.store).answer <;>
        simp [consult_apply, Call.failed, Call.failure?, Call.operation?, hd, Except.map,
          Call.ofDecision]
    · rfl
  | put k v =>
    rw [ask, askResult_bind]
    refine checked_congr _ fun r => ?_
    rcases r with ⟨e | h | h, _⟩
    · exact ((c.complete_error (.put k v) rfl e).trans (id_map _)).symm
    · rfl
    · rfl
  | putIfAbsent k v =>
    rw [ask, askKept_bind]
    refine checked_congr _ fun r => ?_
    rcases r with ⟨e | _, existing⟩
    · exact ((c.complete_error (.putIfAbsent k v) rfl e).trans (id_map _)).symm
    · rfl
  | remove k =>
    rw [ask, askPlain_bind, serve, remove, removeKey]
    simp only [bind_assoc]
    refine checked_congr _ fun r => ?_
    rcases r with e | _ | _
    · rw [mapError_error, c.complete_error (.remove k) rfl (.store e)]
      simp only [bind_assoc, pure_bind]
      exact bind_pure_comp _ _
    · rfl
    · rfl
  | removeIf k value =>
    rw [ask, askKept_bind]
    refine checked_congr _ fun r => ?_
    rcases r with ⟨e | _, outcome⟩
    · exact ((c.complete_error (.removeIf k value) rfl e).trans (id_map _)).symm
    · rfl
  | replace k v =>
    rw [ask, askKept_bind]
    refine checked_congr _ fun r => ?_
    rcases r with ⟨e | _, previous⟩
    · exact ((c.complete_error (.replace k v) rfl e).trans (id_map _)).symm
    · rfl
  | replaceIf k old new =>
    rw [ask, askKept_bind]
    refine checked_congr _ fun r => ?_
    rcases r with ⟨e | _, outcome⟩
    · exact ((c.complete_error (.replaceIf k old new) rfl e).trans (id_map _)).symm
    · rfl
  | clear =>
    rw [ask, askPlain_bind]
    refine checked_congr _ fun r => ?_
    rcases r with e | _
    · exact ((c.complete_error .clear rfl (.store e)).trans (id_map _)).symm
    · rfl
  | getAll ks =>
    rw [ask, askResult_bind]
    refine checked_congr _ fun r => ?_
    rcases r with ⟨e | computed, _⟩
    · exact (bind_pure_comp _ _).trans (c.complete_error (.getAll ks) rfl e).symm
    · rfl
  | getAllPresent ks =>
    rw [ask, askResult_bind, serve, getAllPresent, getAllWith]
    simp only [bind_assoc]
    refine checked_congr _ fun r => ?_
    rcases r with ⟨e | computed, _⟩
    · refine .trans ?_ (c.complete_error (.getAllPresent ks) rfl e).symm
      simp only [bind_pure_comp, Functor.map_map]
      rfl
    · rfl
  | putAll entries =>
    rw [ask, askKept_bind]
    refine checked_congr _ fun r => ?_
    rcases r with ⟨e | _, progress⟩
    · exact ((c.complete_error (.putAll entries) rfl e).trans (id_map _)).symm
    · rfl
  | removeAll ks =>
    rw [ask, askKept_bind]
    refine checked_congr _ fun r => ?_
    rcases r with ⟨e | _, removed⟩
    · exact ((c.complete_error (.removeAll ks) rfl e).trans (id_map _)).symm
    · rfl

/-! ## Asking the store -/

/-- Asking the store changes nothing but the store. -/
theorem ask_keeps (c : Cache σ K V) (call : Call K V) (s : State σ) :
    (c.ask call s).state = { s with store := (c.ask call s).state.store } := by
  cases call <;> rfl

/-- The store call of a call tells notes only: no outcome, no consultation. -/
theorem ask_tells (c : Cache σ K V) (call : Call K V) : (c.ask call).Tells Event.IsNote := by
  have plain {α : Type} (x : Action σ (Note K V) (Except StoreError α)) :
      (askPlain x).Tells Event.IsNote := .bind (onStore_tells x) fun _ => .pure _
  have kept {α τ : Type} {x : Action (State σ) (Event K V) (Except BulkError α × τ)}
      (h : x.Tells Event.IsNote) : (askKept x).Tells Event.IsNote := .bind h fun _ => .pure _
  have result {α τ : Type} {x : Action (State σ) (Event K V) (Except BulkError α × τ)}
      (h : x.Tells Event.IsNote) : (askResult x).Tells Event.IsNote := .bind h fun _ => .pure _
  cases call with
  | get k => exact plain _
  | containsKey k => exact plain _
  | put k v => exact result (c.computeOne_tells k (fun _ => c.accept_tells _ _ _) _)
  | putIfAbsent k v => exact kept (c.computeOne_tells k (c.keepOrAccept_tells k v) _)
  | remove k => exact plain _
  | removeIf k value => exact kept (c.computeOne_tells k (dropEqual_tells value) _)
  | replace k v => exact kept (c.computeOne_tells k (c.acceptOver_tells k v) _)
  | replaceIf k old new => exact kept (c.computeOne_tells k (c.acceptEqual_tells k old new) _)
  | clear => exact plain _
  | getAll ks => exact result (bulkCall_tells (fun _ => trivial) (fun _ => .pure _) _ _)
  | getAllPresent ks => exact result (bulkCall_tells (fun _ => trivial) (fun _ => .pure _) _ _)
  | putAll entries =>
    exact kept (bulkCall_tells (fun _ => trivial)
      (fun _ => .bind (.mapM c.putPending_tells _) fun _ => .pure _) _ _)
  | removeAll ks =>
    exact kept (bulkCall_tells (fun _ => trivial)
      (fun _ => .bind (.change _) fun _ => .pure _) _ _)

/-! ## The ways a call ends -/

/-- On an available cache a call is its store call, completed. -/
theorem serve_apply (c : Cache σ K V) (call : Call K V) {s : State σ}
    (h : s.lifecycle.status = .available) :
    c.serve call s = (c.ask call >>= c.complete call) s := by
  rw [serve_eq, Op.bind_apply, checkAvailable_of_available h]
  simp [ExceptT.mk]

/-- A call whose store call succeeded reports what it learned. -/
theorem serve_of_ok (c : Cache σ K V) (call : Call K V) {s : State σ}
    (h : s.lifecycle.status = .available) {reply : call.Reply}
    (ha : (c.ask call s).answer = .ok reply) :
    c.serve call s =
      let success := call.conclude reply
      ⟨.ok success.answer,
        { (c.ask call s).state with bulk := s.bulk.addAll success.counted },
        (c.ask call s).events ++ success.outcome.toList.map .recorded⟩ := by
  have hbulk : (c.ask call s).state.bulk = s.bulk := by rw [ask_keeps]
  rw [serve_apply c call h, Action.bind_apply, ha, ← hbulk]
  rfl

/-- A call whose store call failed ends as the strategy decides. -/
theorem serve_of_store_error (c : Cache σ K V) (call : Call K V) {s : State σ}
    (h : s.lifecycle.status = .available) {e : StoreError}
    (ha : (c.ask call s).answer = .error (.store e)) :
    c.serve call s =
      let own := c.ask call s
      let decision := c.strategy call.failed e own.state.store
      ⟨decision.answer.map call.ofDecision, { own.state with store := decision.state },
        own.events ++ (.consulted call.failed e :: decision.events.map .note ++
          call.failure?.toList.map .recorded)⟩ := by
  rw [serve_apply c call h, Action.bind_apply, ha, complete_store]

/-- On a cache that is not available a call is refused, and nothing happens. -/
theorem serve_refused (c : Cache σ K V) (call : Call K V) {s : State σ}
    (h : s.lifecycle.status ≠ .available) :
    c.serve call s = ⟨.error (.unavailable s.lifecycle.status), s, []⟩ := by
  rw [serve_eq, Op.bind_apply, checkAvailable_of_not_available h]

/-- Removing a key and asking whether there was a mapping is the call that removes it. -/
theorem removeKey_state (c : Cache σ K V) (k : K) (s : State σ) :
    ((c.removeKey k).run s).state = ((c.serve (.remove k)).run s).state := by
  have hremove : c.serve (.remove k) = (fun _ => ()) <$> c.removeKey k := bind_pure_comp _ _
  rw [hremove, ExceptT.run, ExceptT.run, Op.map_apply]

/-- A bulk read is one of the two calls that read many keys. -/
theorem getAllWith_state (c : Cache σ K V) (ks : List K) (includeAbsent : Bool) (s : State σ) :
    ((c.getAllWith ks includeAbsent).run s).state =
      ((c.serve (if includeAbsent then .getAll ks else .getAllPresent ks)).run s).state := by
  cases includeAbsent with
  | true => rfl
  | false =>
    have hpresent : c.serve (.getAllPresent ks) =
        (·.filterMap fun _ v => v) <$> c.getAllWith ks false := bind_pure_comp _ _
    exact (congrArg Run.state (Op.map_apply _ (c.getAllWith ks false) s)).symm.trans
      (congrArg (fun x : Op σ K V _ => (x.run s).state) hpresent).symm

/-! ## Bulk loads -/

omit [BEq V] in
/-- What a bulk load of some keys makes of the result of its bulk call. -/
theorem loadAll_apply (c : Cache σ K V) {s : State σ} (hs : s.lifecycle.status = .available)
    {ks : List K} (hne : ks.isEmpty = false) (replaceExisting : Bool) (loader : Loader K V) :
    let r := if replaceExisting then
        bulkCall (c.store.bulkCompute ks) (fun batch => callLoader loader (batch.map Prod.fst)) () s
      else bulkCall (c.store.bulkComputeIfAbsent ks) (callLoader loader) () s
    (c.loadAll ks replaceExisting loader).run s =
      ⟨match r.answer.1 with
        | .ok computed => .ok (.ofList (computed.map fun p => (p.1, p.2.map Holder.value)))
        | .error e => .error (.ofBulk e), r.state, r.events⟩ := by
  have hend (x : Action (State σ) (Event K V) (Except BulkError (Computed K V) × Unit)) :
      ((liftM x >>= fun r => match r.1 with
        | .ok computed => pure (.ofList (computed.map fun p => (p.1, p.2.map Holder.value)))
        | .error e => throw (.ofBulk e) : Op _ K V (KeyMap K (Option (Handle V)))) s) =
        ⟨match (x s).answer.1 with
          | .ok computed => .ok (.ofList (computed.map fun p => (p.1, p.2.map Holder.value)))
          | .error e => .error (.ofBulk e), (x s).state, (x s).events⟩ := by
    rw [Op.bind_apply, Op.lift_apply]
    rcases x s with ⟨⟨e | computed, _⟩, s', es⟩ <;> simp [Op.pure_apply, Op.throw_apply]
  intro r
  rw [loadAll, ExceptT.run, Op.bind_apply, checkAvailable_of_available hs]
  simp only [hne, Bool.false_eq_true, if_false, List.nil_append]
  cases replaceExisting with
  | true => exact hend _
  | false => exact hend _

end Cache

end ResilientCache
