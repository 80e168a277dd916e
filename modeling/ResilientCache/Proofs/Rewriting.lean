import ResilientCache.Proofs.Leaving
import ResilientCache.Proofs.Reporting
import ResilientCache.Proofs.Stamps

/-!
# Putting through a cache and putting directly

A put through a cache is a bulk computation of its one key; a put of the store itself is a write. If
the policy of the cache is eternal, so that it has no say, the two do the same to every key, with
one exception: a bulk computation leaves a key alone that is decided to hold the very handle it
holds. A put of that handle through the cache therefore keeps the stamps of the mapping, and is
recorded as a put all the same, where a put of the store writes the mapping anew.

Headlines:
* `serve_put`: what a put through a cache records is whether its key is mapped afterwards.
* **`put_rewrites`**: a put of any other handle is the put of the store, and starts a new lifetime.
-/

namespace ResilientCache

open Memory

variable {τ K V : Type} [DecidableEq K] [DecidableEq (Handle V)]

namespace Memory

/-- A put of the store is a write over the live holder of its key, and answers whether it mapped
it. -/
theorem put_memory (policy : Policy K V) (k : K) (v : Handle V) (m : Memory K V) :
    let r := (Store.memory policy).put k v m
    r.answer = .ok (if (rewritten? policy m.now k (m.live? k) v).isSome then .put else .noop) ∧
      ∀ k', r.state.table.get? k' =
        if k = k' then rewritten? policy m.now k (m.live? k) v else m.table.get? k' := by
  refine ⟨?_, (Backend.serve_leaves policy (.put k v) m).2⟩
  have hanswer := write_answer policy k v (m.purge k)
  rw [purge_now, get?_purge, if_pos rfl] at hanswer
  exact congrArg Except.ok hanswer

omit [DecidableEq K] [DecidableEq (Handle V)] in
/-- Under a time to live every write starts a new lifetime, if that is not the empty one. -/
theorem rewritten?_timeToLive (d : Duration) (now : Instant) (k : K) (held? : Option (Holder V))
    (v : Handle V) :
    rewritten? (.timeToLive d) now k held? v =
      if d = .zero then none else some ⟨v, now, now.deadline d⟩ := by
  cases held? <;> rfl

end Memory

namespace Cache

variable {policy : Policy K V} {c : Cache (Memory K V) K V} {s : State (Memory K V)}

/-- Recomputing one key ends with what the key holds afterwards. -/
theorem computeOne_lists (hc : c.store = .memory policy) {k : K}
    {remap : Option (Handle V) → Action τ (Event K V) (Option (Handle V))} {start : τ}
    {h? : Option (Holder V)} (h : (c.computeOne k remap start s).answer.1 = .ok h?) :
    h? = (c.computeOne k remap start s).state.store.table.get? k := by
  simp only [computeOne, hc, Action.bind_apply, Action.pure_apply] at h ⊢
  rcases hr : (bulkCall ((Store.memory policy).bulkCompute [k]) (remapEach remap) start s).answer.1
    with e | computed
  · rw [hr] at h
    cases h
  · rw [hr] at h
    have hlisted := bulkCompute_lists policy Event.note [k] s.store start hr
    rw [hlisted] at h
    cases h
    rfl

variable [BEq V]

section

variable (hc : c.store = .memory policy) (hs : s.lifecycle.status = .available)

include hc hs

/-- A put through a cache succeeds, and records whether its key is mapped afterwards. -/
theorem serve_put (k : K) (v : Handle V) :
    let r := c.serve (.put k v) s
    r.answer = .ok () ∧
      outcomes r.events =
        [.put (if (r.state.store.table.get? k).isSome then .put else .noop)] := by
  obtain ⟨⟨reply, ha⟩, -⟩ := ask_leaves hc (.put k v) s
  have hreply : reply = (c.ask (.put k v) s).state.store.table.get? k := computeOne_lists hc ha
  refine ⟨?_, ?_⟩
  · rw [serve_of_ok c _ hs ha]
  · rw [outcomes_serve c _ hs, ha, outcomes_complete_ok, serve_of_ok c _ hs ha, hreply]
    rfl

end

/-- Without a policy of the cache, a put leaves its key what a bulk computation makes of the
handle, and the other keys alone. -/
theorem leaves_put (hexpiry : c.expiry = .eternal) (m : Memory K V) (k : K) (v : Handle V)
    (k' : K) :
    c.leaves policy m (.put k v) k' =
      if k = k' then settled? policy m.now k (m.live? k) (some (some v))
      else m.table.get? k' := by
  have hw : (Call.put k v).Recomputes := trivial
  rw [leaves_of_recomputes hw, decided, accepted?_eternal hexpiry]
  by_cases hk : k = k'
  · subst hk
    rw [if_pos rfl, if_pos rfl]
  · rw [if_neg hk, if_neg (Ne.symm hk)]

/-- **A put through a cache is a put of its store**, unless the key is live with the very handle
that is put. Then it leaves of every key what the store's own put would have left, is recorded as a
put exactly if that one would have answered so, and under a time to live a recorded put starts a new
lifetime. The handle that the key holds is left with its stamps, and recorded as a put in any case;
the store's own put would have written it anew. -/
theorem put_rewrites (hc : c.store = .memory policy) (hexpiry : c.expiry = .eternal)
    (hs : s.lifecycle.status = .available) (k : K) (v : Handle V) :
    let direct := (Store.memory policy).put k v s.store
    let r := c.serve (.put k v) s
    r.answer = .ok () ∧
    ((s.store.live? k).map Holder.value ≠ some v →
      (∀ k', r.state.store.table.get? k' = direct.state.table.get? k') ∧
      (∃ status, direct.answer = .ok status ∧
        outcomes r.events = [.put (if status = .put then .put else .noop)]) ∧
      ∀ d, policy = .timeToLive d → outcomes r.events = [.put .put] →
        r.state.store.table.get? k = some ⟨v, s.store.now, s.store.now.deadline d⟩) ∧
    ∀ held, s.store.live? k = some held → held.value = v →
      r.state.store.table.get? k = some held ∧ outcomes r.events = [.put .put] ∧
      direct.state.table.get? k = rewritten? policy s.store.now k (some held) v := by
  intro direct r
  obtain ⟨hanswer, hrecorded⟩ := serve_put hc hs k v
  obtain ⟨hdirect, hstored⟩ := put_memory policy k v s.store
  have hleaves (k' : K) := ((serve_leaves hc hs (.put k v)).2 k').trans
    (leaves_put hexpiry s.store k v k')
  have hk := hleaves k
  rw [if_pos rfl, settled?] at hk
  refine ⟨hanswer, fun hother => ?other, fun held hlive hheld => ?held⟩
  case other =>
    rw [if_neg hother] at hk
    refine ⟨fun k' => ?_, ⟨_, hdirect, ?_⟩, ?_⟩
    · rw [hstored, hleaves, settled?, if_neg hother]
    · rw [hrecorded, hk]
      cases rewritten? policy s.store.now k (s.store.live? k) v <;> rfl
    · rintro d rfl hput
      rw [rewritten?_timeToLive] at hk
      split at hk
      · rw [hrecorded, hk] at hput
        cases hput
      · exact hk
  case held =>
    rw [hlive, Option.map_some, hheld, if_pos rfl] at hk
    refine ⟨hk, ?_, ?_⟩
    · rw [hrecorded, hk]
      rfl
    · rw [hstored, if_pos rfl, hlive]

/-- Half-way through a time to live of a hundred milliseconds another handle with an equal value is
put: the mapping expires a hundred milliseconds from then. -/
theorem put_rewrites_refreshed :
    let c : Cache (Memory Nat Nat) Nat Nat :=
      { store := .memory (.timeToLive (.ofMillis 100)), strategy := .propagating }
    let s : State (Memory Nat Nat) :=
      { store := { table := { pairs := [(1, ⟨⟨0, 10⟩, 0, some 100⟩)] }, now := 50 }
        lifecycle := { status := .available } }
    let r := c.serve (.put 1 ⟨1, 10⟩) s
    s.lifecycle.status = .available ∧ (s.store.live? 1).map Holder.value ≠ some ⟨1, 10⟩ ∧
      outcomes r.events = [.put .put] ∧
      r.state.store.table.get? 1 = some ⟨⟨1, 10⟩, 50, some 150⟩ := by
  intro c s r
  have hother : (s.store.live? 1).map Holder.value ≠ some ⟨1, 10⟩ := by decide +kernel
  have hput : outcomes r.events = [.put .put] := by decide +kernel
  obtain ⟨-, h, -⟩ := put_rewrites (c := c) (s := s) rfl rfl rfl 1 ⟨1, 10⟩
  have hstamped := (h hother).2.2 (.ofMillis 100) rfl hput
  have hdeadline : s.store.now.deadline (.ofMillis 100) = some 150 := by decide +kernel
  rw [hdeadline] at hstamped
  exact ⟨rfl, hother, hput, hstamped⟩

/-- A put of the very handle that the key holds is recorded and leaves the expiration where it was;
a put of the store moves it. -/
theorem put_keeps_lifetime :
    let store : Store (Memory Nat Nat) Nat Nat := .memory (.timeToLive (.ofMillis 100))
    let c : Cache (Memory Nat Nat) Nat Nat := { store, strategy := .propagating }
    let written := (c.serve (.put 1 ⟨0, 10⟩)
      { store := {}, lifecycle := { status := .available } }).state
    let s := { written with store.now := written.store.now.advance (.ofMillis 50) }
    let r := c.serve (.put 1 ⟨0, 10⟩) s
    let direct := store.put 1 ⟨0, 10⟩ s.store
    outcomes r.events = [.put .put] ∧ direct.answer = .ok .put ∧
      r.state.store.table.get? 1 = some ⟨⟨0, 10⟩, 0, some 100⟩ ∧
      direct.state.table.get? 1 = some ⟨⟨0, 10⟩, 50, some 150⟩ := by
  decide +kernel

end Cache

end ResilientCache
