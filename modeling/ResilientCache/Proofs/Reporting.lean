import Mathlib.Data.List.Basic
import ResilientCache.Proofs.Call
import ResilientCache.Store.Faulty
import ResilientCache.Store.Memory

/-!
# What operations report, and whom they consult

`Reports c call s` says how one call on an available cache in state `s` shows: the one outcome it
records, the one consultation of the strategy if the store failed, and where its answer comes from.
A `Move` is anything that can happen to a cache in a run without iterators; `admitted` lists the
calls of a run that found the cache available, with the state each began in.

Nothing is assumed of the store, the strategy or the policy. What carries the proofs is that the
events of a store call are notes (`ask_tells`), and notes neither record nor consult.

Headlines:
* `serve_reports`: every call on an available cache reports.
* `play_reports`: the outcomes and consultations of a run are those of its admitted calls, in order.
* **`operations_report`**: both, and that a bulk load records nothing.
-/

namespace ResilientCache

variable {σ τ K V α β : Type}

/-! ## Outcomes and consultations among events -/

/-- The outcomes among events, in order. -/
def outcomes (es : List (Event K V)) : List Outcome :=
  es.filterMap fun
    | .recorded o => some o
    | _ => none

/-- The consultations of a strategy among events, in order. -/
def consultations (es : List (Event K V)) : List (FailedCall K V × StoreError) :=
  es.filterMap fun
    | .consulted call e => some (call, e)
    | _ => none

@[simp] theorem outcomes_nil : outcomes ([] : List (Event K V)) = [] := rfl

@[simp] theorem consultations_nil : consultations ([] : List (Event K V)) = [] := rfl

@[simp] theorem outcomes_append (es es' : List (Event K V)) :
    outcomes (es ++ es') = outcomes es ++ outcomes es' := List.filterMap_append

@[simp] theorem consultations_append (es es' : List (Event K V)) :
    consultations (es ++ es') = consultations es ++ consultations es' := List.filterMap_append

@[simp] theorem outcomes_consulted (call : FailedCall K V) (e : StoreError)
    (es : List (Event K V)) : outcomes (.consulted call e :: es) = outcomes es := rfl

@[simp] theorem consultations_consulted (call : FailedCall K V) (e : StoreError)
    (es : List (Event K V)) :
    consultations (.consulted call e :: es) = (call, e) :: consultations es := rfl

@[simp] theorem outcomes_recorded (os : List Outcome) :
    outcomes (os.map .recorded : List (Event K V)) = os := by
  induction os with
  | nil => rfl
  | cons o os ih => exact congrArg (o :: ·) ih

@[simp] theorem consultations_recorded (os : List Outcome) :
    consultations (os.map .recorded : List (Event K V)) = [] := by
  induction os with
  | nil => rfl
  | cons o os ih => exact ih

theorem outcomes_of_silent {es : List (Event K V)} (h : ∀ e ∈ es, e.IsSilent) :
    outcomes es = [] := by
  refine List.filterMap_eq_nil_iff.mpr fun e he => ?_
  cases e <;> first | rfl | exact absurd (h _ he) id

theorem consultations_of_silent {es : List (Event K V)} (h : ∀ e ∈ es, e.IsSilent) :
    consultations es = [] := by
  refine List.filterMap_eq_nil_iff.mpr fun e he => ?_
  cases e <;> first | rfl | exact absurd (h _ he) id

@[simp] theorem outcomes_notes (ns : List (Note K V)) : outcomes (ns.map .note) = [] :=
  outcomes_of_silent fun e he => by
    obtain ⟨n, -, rfl⟩ := List.mem_map.mp he
    trivial

@[simp] theorem consultations_notes (ns : List (Note K V)) : consultations (ns.map .note) = [] :=
  consultations_of_silent fun e he => by
    obtain ⟨n, -, rfl⟩ := List.mem_map.mp he
    trivial

/-! ## The outcome of a successful store call -/

/-- An operation's failure is one of its own outcomes. -/
theorem Operation.operation_failure (op : Operation) : op.failure.operation = op := by
  cases op <;> rfl

namespace Cache

section

variable [BEq V]

/-- A comparison never ends in the failure outcome, so the failure is told apart from it. -/
theorem dropEqual_preserves (value : V) : ∀ current,
    (dropEqual value current : Action _ (Event K V) _).Preserves (· ≠ .failure)
  | none => .bind (.set (by decide)) fun _ => .pure _
  | some current => by
    by_cases h : current.value == value
    · simp only [dropEqual, if_pos h]
      exact .bind (.set (by decide)) fun _ => .pure _
    · simp only [dropEqual, if_neg h]
      exact .bind (.set (by decide)) fun _ => .pure _

theorem acceptEqual_preserves (c : Cache σ K V) (k : K) (old : V) (new : Handle V) :
    ∀ current, (c.acceptEqual k old new current).Preserves (· ≠ .failure)
  | none => .bind (.set (by decide)) fun _ => .pure _
  | some current => by
    by_cases h : current.value == old
    · simp only [acceptEqual, if_pos h]
      exact .bind (.set (by decide)) fun _ t ht => by rwa [accept_state]
    · simp only [acceptEqual, if_neg h]
      exact .bind (.set (by decide)) fun _ => .pure _

end

theorem askKept_ok {x : Action (State σ) (Event K V) (Except BulkError α × τ)} {s : State σ}
    {kept : τ} (h : (askKept x s).answer = .ok kept) : (x s).answer.2 = kept := by
  simp only [askKept, Action.bind_apply, Action.pure_apply] at h
  cases hr : (x s).answer.1 with
  | error e => rw [hr] at h; cases h
  | ok a => rw [hr] at h; exact Except.ok.inj h

variable [DecidableEq K]

/-- A successful call records an outcome of its own operation. -/
theorem conclude_operation (call : Call K V) (reply : call.Reply) :
    (call.conclude reply).outcome.map Outcome.operation = call.operation? := by
  cases call <;> rfl

/-- Completing a call whose store call failed records the failure of its operation. -/
theorem outcomes_complete_error (c : Cache σ K V) (call : Call K V) (e : BulkError)
    (s : State σ) :
    outcomes (c.complete call (.error e) s).events = call.failure?.toList := by
  cases e with
  | store e => rw [complete_store, List.cons_append, outcomes_consulted]; simp
  | function fault => rw [complete_fault]; simp

theorem outcomes_complete_ok (c : Cache σ K V) (call : Call K V) (reply : call.Reply)
    (s : State σ) :
    outcomes (c.complete call (.ok reply) s).events = (call.conclude reply).outcome.toList :=
  outcomes_recorded _

variable [BEq V]

/-- A call whose store call succeeded does not record a failure, whatever the store did. -/
theorem conclude_ne_failure (c : Cache σ K V) {call : Call K V} {s : State σ} {reply : call.Reply}
    (h : (c.ask call s).answer = .ok reply) {op : Operation} (hop : call.operation? = some op) :
    (call.conclude reply).outcome ≠ some op.failure := by
  cases call with
  | get k => cases hop; cases reply <;> simp [Call.conclude, Operation.failure]
  | containsKey k => cases hop
  | put k v => cases hop; cases reply <;> simp [Call.conclude, Operation.failure]
  | putIfAbsent k v => cases hop; cases reply <;> simp [Call.conclude, Operation.failure]
  | remove k => cases hop; cases reply <;> simp [Call.conclude, Operation.failure]
  | removeIf k value =>
    cases hop
    have hne := c.computeOne_preserves k (dropEqual_preserves value) .failureKeyMissing
      (by decide) s
    rw [askKept_ok h] at hne
    simpa [Call.conclude, Operation.failure] using hne
  | replace k v => cases hop; cases reply <;> simp [Call.conclude, Operation.failure]
  | replaceIf k old new =>
    cases hop
    have hne := c.computeOne_preserves k (c.acceptEqual_preserves k old new) .missNotPresent
      (by decide) s
    rw [askKept_ok h] at hne
    simpa [Call.conclude, Operation.failure] using hne
  | clear => cases hop; simp [Call.conclude, Operation.failure]
  | getAll ks => cases hop; simp [Call.conclude, Call.found, Operation.failure]
  | getAllPresent ks => cases hop; simp [Call.conclude, Call.found, Operation.failure]
  | putAll entries => cases hop; simp [Call.conclude, Operation.failure]
  | removeAll ks => cases hop; simp [Call.conclude, Operation.failure]

/-! ## One call -/

/-- How a call on an available cache shows: what it records, whom it consults, and whose decision
its answer is. -/
structure Reports (c : Cache σ K V) (call : Call K V) (s : State σ) : Prop where
  /-- One outcome, of the call's own operation, and a failure exactly if the store call failed. -/
  recorded : ∀ op, call.operation? = some op →
    ∃ o ∈ op.outcomes, outcomes (c.serve call s).events = [o] ∧
      (o = op.failure ↔ ∃ e, (c.ask call s).answer = .error e)
  unrecorded : call.operation? = none → outcomes (c.serve call s).events = []
  /-- The strategy decides about a store that failed. -/
  store : ∀ e, (c.ask call s).answer = .error (.store e) →
    consultations (c.serve call s).events = [(call.failed, e)] ∧
      (c.serve call s).answer =
        (c.strategy call.failed e (c.ask call s).state.store).answer.map call.ofDecision
  /-- A failure of the batch function is none of the strategy's business. -/
  function : ∀ fault, (c.ask call s).answer = .error (.function fault) →
    consultations (c.serve call s).events = [] ∧
      (c.serve call s).answer = .error (.compute fault)
  success : ∀ reply, (c.ask call s).answer = .ok reply →
    consultations (c.serve call s).events = [] ∧
      (c.serve call s).answer = .ok (call.conclude reply).answer

/-- The outcomes of a call on an available cache are those its completion records. -/
theorem outcomes_serve (c : Cache σ K V) (call : Call K V) {s : State σ}
    (h : s.lifecycle.status = .available) :
    outcomes (c.serve call s).events =
      outcomes (c.complete call (c.ask call s).answer (c.ask call s).state).events := by
  rw [serve_apply c call h, Action.bind_apply, outcomes_append,
    outcomes_of_silent fun e he => (c.ask_tells call s e he).isSilent, List.nil_append]

theorem consultations_serve (c : Cache σ K V) (call : Call K V) {s : State σ}
    (h : s.lifecycle.status = .available) :
    consultations (c.serve call s).events =
      consultations (c.complete call (c.ask call s).answer (c.ask call s).state).events := by
  rw [serve_apply c call h, Action.bind_apply, consultations_append,
    consultations_of_silent fun e he => (c.ask_tells call s e he).isSilent, List.nil_append]

theorem answer_serve (c : Cache σ K V) (call : Call K V) {s : State σ}
    (h : s.lifecycle.status = .available) :
    (c.serve call s).answer =
      (c.complete call (c.ask call s).answer (c.ask call s).state).answer := by
  rw [serve_apply c call h, Action.bind_apply]

/-- Every call on an available cache reports. -/
theorem serve_reports (c : Cache σ K V) (call : Call K V) {s : State σ}
    (h : s.lifecycle.status = .available) : Reports c call s where
  recorded op hop := by
    rw [outcomes_serve c call h]
    cases ha : (c.ask call s).answer with
    | error e =>
      rw [outcomes_complete_error, Call.failure?, hop]
      exact ⟨op.failure, Outcome.mem_outcomes_iff.mpr op.operation_failure, rfl, by simp⟩
    | ok reply =>
      rw [outcomes_complete_ok]
      have hown := conclude_operation call reply
      have hne := c.conclude_ne_failure ha hop
      rw [hop] at hown
      obtain ⟨o, ho, rfl⟩ := Option.map_eq_some_iff.mp hown
      rw [ho] at hne ⊢
      refine ⟨o, Outcome.mem_outcomes_iff.mpr rfl, rfl, ?_⟩
      simpa using hne
  unrecorded hop := by
    rw [outcomes_serve c call h]
    cases ha : (c.ask call s).answer with
    | error e => rw [outcomes_complete_error, Call.failure?, hop]; rfl
    | ok reply =>
      have hown := conclude_operation call reply
      rw [hop, Option.map_eq_none_iff] at hown
      rw [outcomes_complete_ok, hown]
      rfl
  store e ha := by
    rw [consultations_serve c call h, answer_serve c call h, ha, complete_store]
    simp
  function fault ha := by
    rw [consultations_serve c call h, answer_serve c call h, ha, complete_fault]
    simp
  success reply ha := by
    rw [consultations_serve c call h, answer_serve c call h, ha]
    exact ⟨consultations_recorded _, rfl⟩

end Cache

/-! ## Runs -/

/-- What can happen to a cache in a run without iterators: calls, bulk loads, its lifecycle, and
whatever happens to its store from outside, the passing of time included. -/
inductive Move (σ K V : Type)
  | call (call : Call K V)
  | load (ks : List K) (replaceExisting : Bool) (loader : Loader K V)
  | init (table : HookTable)
  | close (table : HookTable)
  | addHook (hook : HookName)
  | removeHook (hook : HookName)
  | outside (f : σ → σ)

namespace Cache

/-- The call that a move makes of an available cache, with the state it begins in. -/
def admits (s : State σ) : Move σ K V → List (Call K V × State σ)
  | .call call => if s.lifecycle.status = .available then [(call, s)] else []
  | _ => []

theorem available_of_mem_admits {s : State σ} {move : Move σ K V} {p : Call K V × State σ}
    (h : p ∈ admits s move) : p.2.lifecycle.status = .available := by
  unfold admits at h
  split at h
  · split at h
    · obtain rfl := List.mem_singleton.mp h
      assumption
    · cases h
  · cases h

variable [DecidableEq K] [BEq V]

/-- Make one move. -/
def make (c : Cache σ K V) : Move σ K V → Action (State σ) (Event K V) Unit
  | .call call => discard (c.serve call).run
  | .load ks replaceExisting loader => discard (c.loadAll ks replaceExisting loader).run
  | .init table => discard (init table).run
  | .close table => discard (close table).run
  | .addHook hook => discard (addHook hook).run
  | .removeHook hook => discard (removeHook hook).run
  | .outside f => .change fun s => { s with store := f s.store }

/-- Make moves one after the other. -/
def play (c : Cache σ K V) : List (Move σ K V) → Action (State σ) (Event K V) Unit
  | [] => return ()
  | move :: rest => do
    c.make move
    c.play rest

/-- The calls of a run that found the cache available, each with the state it began in. -/
def admitted (c : Cache σ K V) : List (Move σ K V) → State σ → List (Call K V × State σ)
  | [], _ => []
  | move :: rest, s => admits s move ++ c.admitted rest (c.make move s).state

theorem available_of_mem_admitted (c : Cache σ K V) {p : Call K V × State σ} :
    ∀ {moves : List (Move σ K V)} {s : State σ}, p ∈ c.admitted moves s →
      p.2.lifecycle.status = .available
  | [], _, h => by cases h
  | move :: rest, s, h => by
    rcases List.mem_append.mp h with h | h
    · exact available_of_mem_admits h
    · exact c.available_of_mem_admitted h

/-- A move that is not an admitted call neither records nor consults. -/
theorem make_silent (c : Cache σ K V) (move : Move σ K V) (s : State σ) (h : admits s move = []) :
    ∀ e ∈ (c.make move s).events, e.IsSilent := by
  have silent {α : Type} {x : Op σ K V α} (hx : x.run.Tells Event.IsSilent) :
      ∀ e ∈ ((discard x.run : Action _ _ Unit) s).events, e.IsSilent := by
    rw [Action.discard_apply]
    exact hx s
  cases move with
  | call call =>
    have hs : s.lifecycle.status ≠ .available := fun hs => by simp [admits, hs] at h
    simp [make, ExceptT.run, serve_refused c call hs]
  | load ks replaceExisting loader => exact silent (c.loadAll_silent ks replaceExisting loader)
  | init table => exact silent (onLifecycle_tells (move_silent table .init))
  | close table => exact silent (onLifecycle_tells (move_silent table .close))
  | addHook hook => exact silent (onLifecycle_tells (addHook_tells hook))
  | removeHook hook => exact silent (onLifecycle_tells (removeHook_tells hook))
  | outside f => intro e he; cases he

/-- What one move records and whom it consults is what its admitted call does. -/
theorem make_reports (c : Cache σ K V) (move : Move σ K V) (s : State σ) :
    outcomes (c.make move s).events =
        (admits s move).flatMap (fun p => outcomes (c.serve p.1 p.2).events) ∧
      consultations (c.make move s).events =
        (admits s move).flatMap fun p => consultations (c.serve p.1 p.2).events := by
  cases h : admits s move with
  | nil =>
    have silent := c.make_silent move s h
    exact ⟨outcomes_of_silent silent, consultations_of_silent silent⟩
  | cons p rest =>
    unfold admits at h
    split at h
    · split at h
      · cases h
        simp [make, ExceptT.run]
      · cases h
    · cases h

/-- The outcomes and consultations of a run are those of its admitted calls, in order. -/
theorem play_reports (c : Cache σ K V) : ∀ (moves : List (Move σ K V)) (s : State σ),
    outcomes (c.play moves s).events =
        (c.admitted moves s).flatMap (fun p => outcomes (c.serve p.1 p.2).events) ∧
      consultations (c.play moves s).events =
        (c.admitted moves s).flatMap fun p => consultations (c.serve p.1 p.2).events
  | [], _ => ⟨rfl, rfl⟩
  | move :: rest, s => by
    obtain ⟨ho, hc⟩ := c.make_reports move s
    obtain ⟨iho, ihc⟩ := c.play_reports rest (c.make move s).state
    rw [play, Action.bind_apply, outcomes_append, consultations_append, admitted,
      List.flatMap_append, List.flatMap_append]
    exact ⟨congr (congrArg _ ho) iho, congr (congrArg _ hc) ihc⟩

/-- A call on an available cache records one outcome of its own operation, or none. -/
theorem serve_operations (c : Cache σ K V) (call : Call K V) {s : State σ}
    (h : s.lifecycle.status = .available) :
    (outcomes (c.serve call s).events).map Outcome.operation = call.operation?.toList := by
  have hr := c.serve_reports call h
  cases hop : call.operation? with
  | none => rw [hr.unrecorded hop]; rfl
  | some op =>
    obtain ⟨o, ho, hos, -⟩ := hr.recorded op hop
    rw [hos, List.map_singleton, Outcome.mem_outcomes_iff.mp ho]
    rfl

/-- **Every call reports once**: whatever the store, the strategy and the policy do, each call on an
available cache records its one outcome and consults the strategy exactly if the store failed; a
bulk load does neither; and over a whole run the recorded outcomes are, one for one, the operations
of the calls that found the cache available. -/
theorem operations_report (c : Cache σ K V) :
    (∀ (call : Call K V) (s : State σ), s.lifecycle.status = .available → Reports c call s) ∧
      (∀ ks replaceExisting loader s,
        outcomes ((c.loadAll ks replaceExisting loader).run s).events = [] ∧
          consultations ((c.loadAll ks replaceExisting loader).run s).events = []) ∧
      ∀ (moves : List (Move σ K V)) (s : State σ),
        (∀ p ∈ c.admitted moves s, Reports c p.1 p.2) ∧
          outcomes (c.play moves s).events =
            (c.admitted moves s).flatMap (fun p => outcomes (c.serve p.1 p.2).events) ∧
          consultations (c.play moves s).events =
            (c.admitted moves s).flatMap (fun p => consultations (c.serve p.1 p.2).events) ∧
          (outcomes (c.play moves s).events).map Outcome.operation =
            (c.admitted moves s).filterMap fun p => p.1.operation? := by
  refine ⟨fun call s h => c.serve_reports call h, fun ks replaceExisting loader s => ?_,
    fun moves s => ?_⟩
  · have silent := c.loadAll_silent ks replaceExisting loader s
    exact ⟨outcomes_of_silent silent, consultations_of_silent silent⟩
  · obtain ⟨ho, hc⟩ := c.play_reports moves s
    have available {p} (hp : p ∈ c.admitted moves s) := c.available_of_mem_admitted hp
    refine ⟨fun p hp => c.serve_reports p.1 (available hp), ho, hc, ?_⟩
    rw [ho, List.map_flatMap, List.filterMap_eq_flatMap_toList]
    exact List.flatMap_congr fun p hp => c.serve_operations p.1 (available hp)

/-- A propagating cache whose store is down: the failure is recorded once, and the caller gets the
store's error. -/
theorem operations_report_down :
    let e : StoreError := .plain "down"
    let c : Cache (Rig (Memory Nat Nat) Nat Nat) Nat Nat :=
      { store := (Store.memory .eternal).faulty id, strategy := .propagating }
    let s : State (Rig (Memory Nat Nat) Nat Nat) :=
      { store := { inner := {}, outage := fun _ => some { error := e } }
        lifecycle := { status := .available } }
    s.lifecycle.status = .available ∧ Reports c (.get 1) s ∧
      outcomes (c.serve (.get 1) s).events = [.get .failure] ∧
      (c.serve (.get 1) s).answer = .error (.store e) := by
  intro e c s
  have h : s.lifecycle.status = .available := rfl
  have hr := (operations_report c).1 (.get 1) s h
  have ha : (c.ask (.get 1) s).answer = .error (.store e) := rfl
  obtain ⟨o, -, ho, hfailure⟩ := hr.recorded .get rfl
  rw [ho, hfailure.mpr ⟨_, ha⟩]
  exact ⟨h, hr, rfl, (hr.store e ha).2⟩

end Cache

end ResilientCache
