import ResilientCache.Proofs.Tables
import ResilientCache.Store.Memory

/-!
# The store in memory, key by key

What each step of the store in memory does to the holder of every key. Purging shows only what is
live: after it a purged key holds its live holder or nothing, and no key's live holder changes.

A bulk primitive purges its keys, asks its one question and settles what it is answered: that is
`bulkCompute_eq` and `bulkComputeIfAbsent_eq`, and nothing else about the primitives is unfolded.

Headlines: `get?_purgeAll`, `live?_purgeAll`, `bulkCompute_eq`, `bulkComputeIfAbsent_eq`.
-/

namespace ResilientCache

variable {τ K V : Type}

namespace Memory

/-- What a memory has counted, expirations left out. -/
def counts (m : Memory K V) : Metrics := { m.metrics with expirations := 0 }

variable [DecidableEq K]

/-! ## Purging -/

@[simp] theorem purge_now (m : Memory K V) (k : K) : (m.purge k).now = m.now := by
  unfold purge
  split
  · rfl
  · split <;> rfl

@[simp] theorem purge_counts (m : Memory K V) (k : K) : (m.purge k).counts = m.counts := by
  unfold purge
  split
  · rfl
  · split <;> rfl

/-- A purge leaves a key its live holder. -/
theorem get?_purge (m : Memory K V) (k k' : K) :
    (m.purge k).table.get? k' = if k = k' then m.live? k else m.table.get? k' := by
  by_cases hk : k = k'
  · subst hk
    rw [if_pos rfl]
    unfold purge live?
    cases hget : m.table.get? k with
    | none => simpa using hget
    | some h => cases he : h.isExpired m.now <;> simp [he, hget, Option.filter]
  · rw [if_neg hk]
    unfold purge
    split
    · rfl
    · split
      · rw [KeyMap.get?_erase, if_neg hk]
      · rfl

@[simp] theorem live?_purge (m : Memory K V) (k k' : K) : (m.purge k).live? k' = m.live? k' := by
  unfold live?
  rw [get?_purge, purge_now]
  split
  · subst ‹k = k'›
    simp [live?, Option.filter_filter]
  · rfl

@[simp] theorem purgeAll_now (ks : List K) (m : Memory K V) : (m.purgeAll ks).now = m.now := by
  induction ks generalizing m with
  | nil => rfl
  | cons k ks ih => exact (ih _).trans (m.purge_now k)

@[simp] theorem purgeAll_counts (ks : List K) (m : Memory K V) :
    (m.purgeAll ks).counts = m.counts := by
  induction ks generalizing m with
  | nil => rfl
  | cons k ks ih => exact (ih _).trans (m.purge_counts k)

@[simp] theorem live?_purgeAll (ks : List K) (m : Memory K V) (k : K) :
    (m.purgeAll ks).live? k = m.live? k := by
  induction ks generalizing m with
  | nil => rfl
  | cons k' ks ih => exact (ih _).trans (m.live?_purge k' k)

/-- After a purge of some keys each of them holds its live holder, and the others what they held. -/
theorem get?_purgeAll (ks : List K) (m : Memory K V) (k : K) :
    (m.purgeAll ks).table.get? k = if k ∈ ks then m.live? k else m.table.get? k := by
  induction ks generalizing m with
  | nil => rfl
  | cons k' ks ih =>
    rw [purgeAll, List.foldl_cons, ← purgeAll, ih, live?_purge, get?_purge]
    by_cases hk : k ∈ ks
    · simp [hk]
    · by_cases hk' : k' = k
      · subst hk'
        simp
      · simp [hk, hk', Ne.symm hk']

theorem live?_drop (m : Memory K V) (k k' : K) :
    (m.drop k).live? k' = if k = k' then none else m.live? k' := by
  unfold live? drop
  rw [KeyMap.get?_erase]
  split <;> rfl

/-! ## Writing -/

/-- The holder that a write of a value to a key installs, unless the value is dead on arrival. -/
def written? (policy : Policy K V) (m : Memory K V) (k : K) (v : Handle V) : Option (Holder V) :=
  holderFor (m.table.get? k) v m.now
    (policy.granted (.ofWrite k ((m.table.get? k).map (·.value.value)) v.value))

theorem write_of_some {policy : Policy K V} {m : Memory K V} {k : K} {v : Handle V} {h : Holder V}
    (hw : m.written? policy k v = some h) :
    (write policy k v m).answer = .put ∧ (write policy k v m).state = m.install k h := by
  unfold written? at hw
  simp [write, hw]

/-- Under the eternal policy a write never fails to install, and what lived for ever goes on to. -/
theorem written?_eternal (m : Memory K V) (k : K) (v : Handle V) :
    m.written? .eternal k v = some ⟨v, m.now, (m.table.get? k).bind Holder.expires⟩ := by
  unfold written?
  cases m.table.get? k with
  | none =>
    have hmax : Duration.max ≠ Duration.zero := by decide
    simp [LifetimeQuery.ofWrite, Policy.granted, Policy.answer, Policy.eternal, holderFor,
      Except.map, hmax, Instant.deadline]
  | some old => rfl

/-- What is decided for a key is written, unless it is the very handle that the key holds. -/
theorem settle_of_value [DecidableEq (Handle V)] (policy : Policy K V)
    {decided : KeyMap K (Option (Handle V))} {k : K} {v : Handle V}
    (hd : decided.get? k = some (some v)) (m : Memory K V) :
    settle policy decided k m =
      if m.value? k = some v then ⟨(), m, []⟩
      else ⟨(), (write policy k v m).state, (write policy k v m).events⟩ := by
  by_cases hv : m.value? k = some v
  · simp [settle, hd, hv]
  · simp [settle, hd, hv]

/-! ## Reading -/

/-- A read finds the live holder of its key. -/
theorem get_memory [DecidableEq (Handle V)] (policy : Policy K V) (k : K) (m : Memory K V) :
    (Store.memory policy).get k m =
      ⟨.ok (m.live? k),
        if (m.live? k).isSome then (m.purge k).countHit else (m.purge k).countMiss, []⟩ := by
  have hk := get?_purge m k k
  rw [if_pos rfl] at hk
  simp [Store.memory, hk]

/-- A read changes no live holder. -/
theorem live?_get [DecidableEq (Handle V)] (policy : Policy K V) (k : K) (m : Memory K V) (k' : K) :
    ((Store.memory policy).get k m).state.live? k' = m.live? k' := by
  rw [get_memory]
  have hcount (m' : Memory K V) : m'.countHit.live? k' = m'.live? k' ∧
      m'.countMiss.live? k' = m'.live? k' := ⟨rfl, rfl⟩
  dsimp only
  split
  · exact (hcount _).1.trans (live?_purge m k k')
  · exact (hcount _).2.trans (live?_purge m k k')

/-! ## Bulk primitives -/

/-- What a bulk primitive makes of the answer to its one question: it settles some keys, or fails
with the batch function. -/
def settling {Q : Type}
    (each : KeyMap K (Option (Handle V)) → K → Action (Memory K V) (Note K V) Unit)
    (settled requested : List K) (m : Memory K V) :
    Except Fault (Mappings K V) → BulkCall (Memory K V) Q K V
  | .error fault => .done (.error (.function fault), m)
  | .ok pairs => .finish (settleAll (each (.ofList pairs)) settled requested m)

section

variable {Q ε' : Type} (event : Note K V → ε')
  (reply : Q → Action τ ε' (Except Fault (Mappings K V)))
  (each : KeyMap K (Option (Handle V)) → K → Action (Memory K V) (Note K V) Unit)
  (settled requested : List K) (m : Memory K V) (t : τ)

@[simp] theorem run_settling_error (fault : Fault) :
    (settling each settled requested m (.error fault)).run event reply t =
      ⟨(.error (.function fault), m), t, []⟩ := rfl

@[simp] theorem run_settling_ok (pairs : Mappings K V) :
    (settling each settled requested m (.ok pairs)).run event reply t =
      let r := settleAll (each (.ofList pairs)) settled requested m
      ⟨(r.answer, r.state), t, r.events.map event⟩ := by
  simp [settling, Dialogue.finish]

/-- Whatever the answer was, what is made of it is only noted. -/
theorem run_settling_notes (answer : Except Fault (Mappings K V)) :
    ∃ notes : List (Note K V),
      ((settling each settled requested m answer).run event reply t).events = notes.map event := by
  cases answer with
  | error fault => exact ⟨[], rfl⟩
  | ok pairs => exact ⟨_, congrArg Run.events (run_settling_ok ..)⟩

end

section

variable [DecidableEq (Handle V)] (policy : Policy K V) (ks : List K) (m : Memory K V)

/-- A bulk computation purges its keys, asks once with all of them, and settles them all. -/
theorem bulkCompute_eq :
    (Store.memory policy).bulkCompute ks m =
      .ask (ks.eraseDups.map fun k => (k, (m.purgeAll ks).value? k))
        (settling (settle policy) ks.eraseDups ks (m.purgeAll ks)) :=
  congrArg (Dialogue.ask _) (funext fun r => by cases r <;> rfl)

/-- A bulk load purges its keys and asks once with those that are absent, if there are any. -/
theorem bulkComputeIfAbsent_eq :
    (Store.memory policy).bulkComputeIfAbsent ks m =
      if ((m.purgeAll ks).table.missing ks).isEmpty then
        .done (.ok ((m.purgeAll ks).computed ks), m.purgeAll ks)
      else .ask ((m.purgeAll ks).table.missing ks)
        (settling (load policy) ((m.purgeAll ks).table.missing ks) ks (m.purgeAll ks)) :=
  congrArg (ite _ _) (congrArg (Dialogue.ask _) (funext fun r => by cases r <;> rfl))

variable {ε' : Type} {event : Note K V → ε'}

/-- A bulk computation ends well when its function does. -/
theorem bulkCompute_ok {reply : Mappings K V → Action τ ε' (Except Fault (Mappings K V))}
    (hr : ∀ q t, ∃ pairs, (reply q t).answer = .ok pairs) (t : τ) :
    ∃ computed,
      (((Store.memory policy).bulkCompute ks m).run event reply t).answer.1 = .ok computed := by
  obtain ⟨pairs, h⟩ := hr (ks.eraseDups.map fun k => (k, (m.purgeAll ks).value? k)) t
  rw [bulkCompute_eq, Dialogue.run_ask, h, run_settling_ok]
  exact ⟨_, rfl⟩

theorem bulkComputeIfAbsent_ok
    {reply : List K → Action τ ε' (Except Fault (Mappings K V))}
    (hr : ∀ q t, ∃ pairs, (reply q t).answer = .ok pairs) (t : τ) :
    ∃ computed, (((Store.memory policy).bulkComputeIfAbsent ks m).run event reply t).answer.1 =
      .ok computed := by
  rw [bulkComputeIfAbsent_eq]
  split
  · exact ⟨_, rfl⟩
  · obtain ⟨pairs, h⟩ := hr ((m.purgeAll ks).table.missing ks) t
    rw [Dialogue.run_ask, h, run_settling_ok]
    exact ⟨_, rfl⟩

end

end Memory

end ResilientCache
