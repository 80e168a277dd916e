import ResilientCache.Proofs.Leaving
import ResilientCache.Proofs.LoadingAsComputing
import ResilientCache.Proofs.Reporting

/-!
# Conditional operations are guarded ones

A conditional operation on one key looks at the live value of the key and then either does what an
unconditional write does, a put or a removal, or nothing. `Guarded.verdict` is the table of the four
of them: by the live value, which write is made, what is answered and which outcome is recorded.

All of them are one bulk computation of their key (`computeOne_apply`), and so is a put. A guarded
operation whose guard holds hands the store a function that decides what the put's decides. One
whose guard does not hold decides that the key keeps what it has: a live holder is then left alone,
stamps and all, and an expired one is dropped as every bulk computation drops it.

Headlines:
* `computeOne_apply`: recomputing one key over a store in memory, in full.
* `askKept_rests`, `askKept_puts`, `askKept_removes`: what a function handed to the store has done
  to its key.
* `ask_guarded`: the store call of a conditional operation is that of the write that it makes.
* **`guarded_calls`**: the four operations follow their table.
-/

namespace ResilientCache

open Memory

variable {σ τ K V : Type}

/-- A write of one key that does not ask what the key holds. -/
inductive Unguarded (K V : Type)
  | put (k : K) (v : Handle V)
  | remove (k : K)

/-- An unconditional write as a call. -/
@[reducible] def Unguarded.call : Unguarded K V → Call K V
  | put k v => .put k v
  | remove k => .remove k

/-- A conditional operation on one key. -/
inductive Guarded (K V : Type)
  | putIfAbsent (k : K) (v : Handle V)
  | replace (k : K) (v : Handle V)
  | replaceIf (k : K) (old : V) (new : Handle V)
  | removeIf (k : K) (value : V)

namespace Guarded

/-- The key of a conditional operation. -/
def key : Guarded K V → K
  | putIfAbsent k _ => k
  | replace k _ => k
  | replaceIf k _ _ => k
  | removeIf k _ => k

/-- A conditional operation as a call. -/
@[reducible] def call : Guarded K V → Call K V
  | putIfAbsent k v => .putIfAbsent k v
  | replace k v => .replace k v
  | replaceIf k old new => .replaceIf k old new
  | removeIf k value => .removeIf k value

/-- What a conditional operation comes to: the unconditional write that it makes, if its guard
holds, what it answers and the outcome that it records. -/
structure Verdict (call : Call K V) where
  made? : Option (Unguarded K V)
  answer : call.Answer
  outcome : Outcome

/-- What a conditional operation comes to by the live value of its key. -/
def verdict [BEq V] : (g : Guarded K V) → Option (Handle V) → Verdict g.call
  | putIfAbsent k v, none => ⟨some (.put k v), none, .putIfAbsent .put⟩
  | putIfAbsent _ _, some current => ⟨none, some current, .putIfAbsent .hit⟩
  | replace k v, some current => ⟨some (.put k v), some current, .replace .hit⟩
  | replace _ _, none => ⟨none, none, .replace .missNotPresent⟩
  | replaceIf k old new, some current =>
    if current.value == old then ⟨some (.put k new), true, .replace .hit⟩
    else ⟨none, false, .replace .missPresent⟩
  | replaceIf _ _ _, none => ⟨none, false, .replace .missNotPresent⟩
  | removeIf k value, some current =>
    if current.value == value then ⟨some (.remove k), true, .conditionalRemove .success⟩
    else ⟨none, false, .conditionalRemove .failureKeyPresent⟩
  | removeIf _ _, none => ⟨none, false, .conditionalRemove .failureKeyMissing⟩

end Guarded

variable [DecidableEq K]

theorem KeyMap.get?_ofList_one {α : Type} (k : K) (a : α) :
    (KeyMap.ofList [(k, a)]).get? k = some a := by
  rw [KeyMap.get?_ofList_cons, if_pos rfl]
  rfl

namespace Memory

/-- A purge of a key that is live changes nothing. -/
theorem purge_of_live {m : Memory K V} {k : K} {held : Holder V} (h : m.live? k = some held) :
    m.purge k = m := by
  obtain ⟨hget, hfresh⟩ := Option.filter_eq_some_iff.mp h
  have hlives : held.isExpired m.now = false := by simpa using hfresh
  simp [purge, hget, hlives]

end Memory

variable [DecidableEq (Handle V)]

namespace Cache

/-- In a state a call does what another one does: it leaves the same state and tells the same, up
to the outcome that each of them records in the end. -/
def ActsAs [BEq V] (c : Cache σ K V) (call call' : Call K V) (s : State σ) : Prop :=
  (c.serve call s).state = (c.serve call' s).state ∧
    ∃ es o o', (c.serve call s).events = es ++ [.recorded o] ∧
      (c.serve call' s).events = es ++ [.recorded o']

variable {policy : Policy K V} {c : Cache (Memory K V) K V} {s : State (Memory K V)}

omit [DecidableEq K] [DecidableEq (Handle V)] in
/-- What a cache accepts, and what it tells about it, does not depend on what is kept meanwhile. -/
theorem accept_apply (c : Cache σ K V) (k : K) (old? : Option (Handle V)) (v : Handle V) (t : τ) :
    c.accept k old? v t =
      ⟨(c.accept k old? v ()).answer, t, (c.accept k old? v ()).events⟩ := by
  simp only [accept, deadOnArrival, Policy.deadOnArrival, Policy.lifetime, Action.within,
    Action.bind_apply]
  cases c.expiry.answer (.ofWrite k (old?.map (·.value)) v.value) <;> rfl

/-! ## Recomputing one key -/

/-- Recomputing one key purges it, asks for it once, with its live value, and settles what was
answered. -/
theorem computeOne_apply (hc : c.store = .memory policy) (k : K)
    (remap : Option (Handle V) → Action τ (Event K V) (Option (Handle V))) (start : τ)
    (s : State (Memory K V)) :
    c.computeOne k remap start s =
      let asked := remap ((s.store.live? k).map Holder.value) start
      let settled := settle policy (.ofList [(k, asked.answer)]) k (s.store.purge k)
      ⟨(.ok (settled.state.table.get? k), asked.state), { s with store := settled.state },
        asked.events ++ settled.events.map .note⟩ := by
  have hbatch : s.store.batch [k] = [(k, (s.store.live? k).map Holder.value)] := rfl
  simp only [computeOne, hc, bulkCall, bulkCompute_run, hbatch, Action.bind_apply]
  simp [remapEach, settleAll, computed, Except.map, purgeAll]

/-- The store call of a call that recomputes its key came to what its function kept, and left the
key the live holder that it has. -/
theorem askKept_rests (hc : c.store = .memory policy) {k : K} {current? : Option (Handle V)}
    (hcurrent : (s.store.live? k).map Holder.value = current?)
    {remap : Option (Handle V) → Action τ (Event K V) (Option (Handle V))} {start kept : τ}
    (h : remap current? start = ⟨current?, kept, []⟩) :
    askKept (c.computeOne k remap start) s =
      ⟨.ok kept, { s with store := s.store.purge k }, []⟩ := by
  have hget : (s.store.purge k).table.get? k = s.store.live? k := by rw [get?_purge, if_pos rfl]
  have hdecided := KeyMap.get?_ofList_one k current?
  have hrests : settle policy (.ofList [(k, current?)]) k (s.store.purge k) =
      ⟨(), s.store.purge k, []⟩ := by
    subst hcurrent
    cases hlive : s.store.live? k with
    | none =>
      rw [hlive, Option.map_none] at hdecided
      simp [settle, hdecided, KeyMap.contains, hget, hlive]
    | some held =>
      rw [hlive] at hdecided
      exact settle_kept policy (hget.trans hlive) hdecided
  simp [askKept, computeOne_apply hc, hcurrent, h, hrests, Except.map]

variable [BEq V]

/-- A function that decides and tells what a put does has the put's done to its key. -/
theorem askKept_puts (hc : c.store = .memory policy) {k : K} {v : Handle V}
    {current? : Option (Handle V)} (hcurrent : (s.store.live? k).map Holder.value = current?)
    {remap : Option (Handle V) → Action τ (Event K V) (Option (Handle V))} {start kept : τ}
    (h : remap current? start =
      ⟨(c.accept k current? v ()).answer, kept, (c.accept k current? v ()).events⟩) :
    askKept (c.computeOne k remap start) s =
      ⟨.ok kept, (c.ask (.put k v) s).state, (c.ask (.put k v) s).events⟩ := by
  simp [askKept, ask, askResult, computeOne_apply hc, hcurrent, h, Except.map]

/-- A function that decides that a live key shall not be mapped has the removal's done to it. -/
theorem askKept_removes (hc : c.store = .memory policy) {k : K} {current : Handle V}
    (hcurrent : (s.store.live? k).map Holder.value = some current)
    {remap : Option (Handle V) → Action τ (Event K V) (Option (Handle V))} {start kept : τ}
    (h : remap (some current) start = ⟨none, kept, []⟩) :
    askKept (c.computeOne k remap start) s =
      ⟨.ok kept, (c.ask (.remove k) s).state, (c.ask (.remove k) s).events⟩ := by
  obtain ⟨held, hlive, rfl⟩ := Option.map_eq_some_iff.mp hcurrent
  have hdecided := KeyMap.get?_ofList_one k (none : Option (Handle V))
  have hsettled : settle policy (.ofList [(k, none)]) k s.store =
      ⟨(), s.store.takeOut k, []⟩ := by
    simp [settle, hdecided, KeyMap.contains, get?_of_live? hlive]
  simp [askKept, ask, askPlain, onStore, Action.within, hc, Store.memory, computeOne_apply hc,
    hlive, h, purge_of_live hlive, hsettled, Except.map]

/-- A conditional operation asks of its store what the write asks that it makes, or else that its
key be purged. -/
theorem ask_guarded (hc : c.store = .memory policy) (g : Guarded K V)
    {current? : Option (Handle V)}
    (hcurrent : (s.store.live? g.key).map Holder.value = current?) :
    ∃ reply, g.call.conclude reply =
        ⟨(g.verdict current?).answer, some (g.verdict current?).outcome, []⟩ ∧
      c.ask g.call s = match (g.verdict current?).made? with
        | some made => ⟨.ok reply, (c.ask made.call s).state, (c.ask made.call s).events⟩
        | none => ⟨.ok reply, { s with store := s.store.purge g.key }, []⟩ := by
  cases g with
  | putIfAbsent k v =>
    cases current? with
    | none => exact ⟨none, rfl, askKept_puts hc hcurrent (c.accept_apply k none v none)⟩
    | some current => exact ⟨some current, rfl, askKept_rests hc hcurrent rfl⟩
  | replace k v =>
    cases current? with
    | none => exact ⟨none, rfl, askKept_rests hc hcurrent rfl⟩
    | some current =>
      refine ⟨some current, rfl, askKept_puts (k := k) hc hcurrent ?_⟩
      simp [acceptOver, c.accept_apply k (some current) v none]
  | replaceIf k old new =>
    cases current? with
    | none => exact ⟨.missNotPresent, rfl, askKept_rests hc hcurrent rfl⟩
    | some current =>
      by_cases hequal : current.value == old
      · simp only [Guarded.verdict, if_pos hequal]
        refine ⟨.hit, rfl, askKept_puts (k := k) hc hcurrent ?_⟩
        simp [acceptEqual, hequal, c.accept_apply k (some current) new Outcome.Replace.hit]
      · simp only [Guarded.verdict, if_neg hequal]
        exact ⟨.missPresent, rfl, askKept_rests hc hcurrent (by simp [acceptEqual, hequal])⟩
  | removeIf k value =>
    cases current? with
    | none => exact ⟨.failureKeyMissing, rfl, askKept_rests hc hcurrent rfl⟩
    | some current =>
      by_cases hequal : current.value == value
      · simp only [Guarded.verdict, if_pos hequal]
        exact ⟨.success, rfl, askKept_removes hc hcurrent (by simp [dropEqual, hequal])⟩
      · simp only [Guarded.verdict, if_neg hequal]
        exact ⟨.failureKeyPresent, rfl, askKept_rests hc hcurrent (by simp [dropEqual, hequal])⟩

/-! ## Serving conditional operations -/

omit [DecidableEq (Handle V)] in
/-- A call whose store call succeeded ends with its one outcome, if it counts nothing. -/
theorem serve_of_one (hs : s.lifecycle.status = .available) {call : Call K V} {reply : call.Reply}
    {answer : call.Answer} {o : Outcome} (hreply : call.conclude reply = ⟨answer, some o, []⟩)
    (ha : (c.ask call s).answer = .ok reply) :
    c.serve call s =
      ⟨.ok answer, (c.ask call s).state, (c.ask call s).events ++ [.recorded o]⟩ := by
  have hbulk : (c.ask call s).state.bulk = s.bulk := by rw [ask_keeps]
  rw [serve_of_ok c call hs ha, hreply]
  simp [← hbulk, BulkCounts.addAll]

/-- An unconditional write succeeds, with one outcome, and counts nothing. -/
theorem ask_unguarded (hc : c.store = .memory policy) (made : Unguarded K V)
    (s : State (Memory K V)) :
    ∃ reply answer o, made.call.conclude reply = ⟨answer, some o, []⟩ ∧
      (c.ask made.call s).answer = .ok reply := by
  obtain ⟨⟨reply, ha⟩, -⟩ := ask_leaves hc made.call s
  cases made with
  | put k v => exact ⟨reply, _, _, rfl, ha⟩
  | remove k => exact ⟨reply, _, _, rfl, ha⟩

/-- **Conditional operations are guarded puts and removals**: over a store that does not fail, under
any policies, each of them answers and records what its table says by the live value of its key.
Where the table makes a put or a removal, the operation does what that call does: it leaves the same
state and tells the same, up to the outcome that is recorded. Where it makes none, the operation
tells that outcome only; the state is untouched if the key is live, and if it is not, the key is
left unmapped, an expired mapping of it dropped. -/
theorem guarded_calls (hc : c.store = .memory policy) (hs : s.lifecycle.status = .available)
    (g : Guarded K V) :
    let held? := s.store.live? g.key
    let verdict := g.verdict (held?.map Holder.value)
    let r := c.serve g.call s
    r.answer = .ok verdict.answer ∧ outcomes r.events = [verdict.outcome] ∧
      (∀ made, verdict.made? = some made → c.ActsAs g.call made.call s) ∧
      (verdict.made? = none →
        r.events = [.recorded verdict.outcome] ∧ (held?.isSome → r.state = s) ∧
        (held? = none → r.state = { s with store := s.store.purge g.key } ∧
          r.state.store.table.get? g.key = none)) := by
  intro held? verdict r
  obtain ⟨reply, hreply, hask⟩ := ask_guarded hc g (s := s) (rfl : held?.map Holder.value = _)
  have hanswer : (c.ask g.call s).answer = .ok reply := by
    rw [hask]
    split <;> rfl
  have hr : r = _ := serve_of_one hs hreply hanswer
  refine ⟨congrArg Run.answer hr, ?_, fun made hmade => ?made, fun hmade => ?rests⟩
  · rw [hr, outcomes_append, outcomes_of_silent fun e he => (c.ask_tells g.call s e he).isSilent]
    rfl
  case made =>
    obtain ⟨_, _, _, hreply', hanswer'⟩ := ask_unguarded hc made s
    have hr' := serve_of_one hs hreply' hanswer'
    simp only [verdict] at hmade
    rw [hmade] at hask
    rw [hask] at hr
    exact ⟨by rw [hr']; exact congrArg Run.state hr, _, _, _, congrArg Run.events hr, by rw [hr']⟩
  case rests =>
    simp only [verdict] at hmade
    rw [hmade] at hask
    rw [hask] at hr
    refine ⟨congrArg Run.events hr, fun hlive => ?_, fun hnone => ⟨congrArg Run.state hr, ?_⟩⟩
    · obtain ⟨held, hheld⟩ := Option.isSome_iff_exists.mp hlive
      rw [hr, purge_of_live hheld]
    · rw [hr]
      exact (get?_purge s.store g.key g.key).trans ((if_pos rfl).trans hnone)

/-- A compare that holds although the handles differ, with a new value that the cache denies: the
key is removed, as a put of that value would remove it, and the replacement is recorded as a hit. A
compare that fails half-way through the lifetime of a mapping leaves its deadline where it was. A
removal finds nothing where the mapping has expired. -/
theorem guarded_calls_replaceIf :
    let expiry : Policy Nat Nat :=
      { creation := fun _ _ => .ok .max
        update := fun _ _ new => if new = 0 then .error (.text "no lifetime") else .ok none }
    let c : Cache (Memory Nat Nat) Nat Nat :=
      { store := .memory (.timeToLive (.ofMillis 100)), expiry }
    let s : State (Memory Nat Nat) :=
      { store :=
          { table := .ofList [(1, ⟨⟨0, 10⟩, 0, some 100⟩), (2, ⟨⟨1, 20⟩, 0, some 50⟩)]
            now := 50 }
        lifecycle := { status := .available } }
    let denied := c.serve (.replaceIf 1 10 ⟨2, 0⟩) s
    let rejected := c.serve (.replaceIf 1 11 ⟨3, 12⟩) s
    let expired := c.serve (.removeIf 2 20) s
    (denied.answer = .ok true ∧ denied.state = (c.serve (.put 1 ⟨2, 0⟩) s).state ∧
      outcomes denied.events = [.replace .hit] ∧ denied.state.store.table.get? 1 = none) ∧
    (rejected.answer = .ok false ∧ rejected.state = s ∧
      rejected.events = [.recorded (.replace .missPresent)]) ∧
    expired.answer = .ok false ∧ expired.state.store.table.get? 2 = none ∧
      outcomes expired.events = [.conditionalRemove .failureKeyMissing] := by
  intro expiry c s denied rejected expired
  have hguarded (g : Guarded Nat Nat) := guarded_calls (c := c) (s := s) rfl rfl g
  obtain ⟨hdenied, hhit, hput, -⟩ := hguarded (.replaceIf 1 10 ⟨2, 0⟩)
  obtain ⟨hrejected, -, -, hrest⟩ := hguarded (.replaceIf 1 11 ⟨3, 12⟩)
  obtain ⟨hexpired, hmissing, -, hgone⟩ := hguarded (.removeIf 2 20)
  obtain ⟨hevents, hstate, -⟩ := hrest rfl
  have hunmapped : (c.serve (.put 1 ⟨2, 0⟩) s).state.store.table.get? 1 = none := by
    decide +kernel
  have hsame := (hput (.put 1 ⟨2, 0⟩) rfl).1
  refine ⟨⟨hdenied, hsame, hhit, ?_⟩, ⟨hrejected, hstate rfl, hevents⟩, hexpired,
    ((hgone rfl).2.2 rfl).2, hmissing⟩
  exact (congrArg (fun s => s.store.table.get? 1) hsame).trans hunmapped

end Cache

end ResilientCache
