import Mathlib.Algebra.BigOperators.Group.List.Basic
import ResilientCache.Proofs.Settling

/-!
# What a bulk computation counts

What an action on a key adds to the counts of a store in memory is said by the clock and by what
that key holds (`CountsByKey`), as what it leaves of the key is (`ActsByKey`). Counts are added up,
so acting on distinct keys one after the other counts what each of them counts, whatever their
order.

A bulk computation counts an expiration for each of its keys that held an expired mapping
(`lapsed`), and then, by what was decided for the key, the removal of its live mapping or a put
(`settledCount`). A key that is left alone, or whose value is dead on arrival, counts no more.

Headlines:
* `metrics_forM`: acting on distinct keys counts what each of them counts.
* **`bulkCompute_counts`**: what a bulk computation counts.
-/

namespace ResilientCache

variable {τ ε' K V : Type}

/-! ## Counts are added up -/

attribute [ext] Metrics

namespace Metrics

instance : Add Metrics where
  add a b :=
    { hits := a.hits + b.hits
      misses := a.misses + b.misses
      puts := a.puts + b.puts
      removes := a.removes + b.removes
      expirations := a.expirations + b.expirations }

instance : Zero Metrics := ⟨{}⟩

instance : AddCommMonoid Metrics where
  add_assoc a b c := by ext <;> exact Nat.add_assoc ..
  add_comm a b := by ext <;> exact Nat.add_comm ..
  zero_add a := by ext <;> exact Nat.zero_add _
  add_zero a := by ext <;> exact Nat.add_zero _
  nsmul := nsmulRec

@[simp] theorem removes_add (a b : Metrics) : (a + b).removes = a.removes + b.removes := rfl

end Metrics

namespace Memory

/-! ## Key by key -/

/-- What is counted when a key that held something is purged. -/
def lapsed (now : Instant) (held? : Option (Holder V)) : Metrics :=
  { expirations := (held?.any (·.isExpired now)).toNat }

/-- What is counted when a key with a live mapping, or none, is brought to what was decided for
it. -/
def settledCount [DecidableEq (Handle V)] (policy : Policy K V) (now : Instant) (k : K)
    (live? : Option (Holder V)) : Option (Option (Handle V)) → Metrics
  | none => 0
  | some none => { removes := live?.isSome.toNat }
  | some (some v) =>
    if live?.map Holder.value = some v then 0
    else { puts := (rewritten? policy now k live? v).isSome.toNat }

variable [DecidableEq K]

/-- An action on a key adds to the counts what `counted` says. -/
def CountsByKey (each : K → Action (Memory K V) (Note K V) Unit)
    (counted : Instant → K → Option (Holder V) → Metrics) : Prop :=
  ∀ k m, (each k m).state.metrics = m.metrics + counted m.now k (m.table.get? k)

/-- Acting on distinct keys one after the other counts what each of them counts. -/
theorem metrics_forM {each : K → Action (Memory K V) (Note K V) Unit}
    {after : Instant → K → Option (Holder V) → Option (Holder V)}
    {counted : Instant → K → Option (Holder V) → Metrics} (h : ActsByKey each after)
    (hcounts : CountsByKey each counted) {ks : List K} (hnodup : ks.Nodup) (m : Memory K V) :
    (ks.forM each m).state.metrics =
      m.metrics + (ks.map fun k => counted m.now k (m.table.get? k)).sum := by
  induction ks generalizing m with
  | nil => exact (add_zero m.metrics).symm
  | cons k ks ih =>
    obtain ⟨hk, hnodup⟩ := List.nodup_cons.mp hnodup
    obtain ⟨hnow, hget⟩ := h k m
    have hrest : (ks.map fun k' =>
          counted (each k m).state.now k' ((each k m).state.table.get? k')) =
        ks.map fun k' => counted m.now k' (m.table.get? k') := by
      refine List.map_congr_left fun k' hk' => ?_
      rw [hnow, hget, if_neg fun heq : k = k' => hk (heq ▸ hk')]
    calc (ks.forM each (each k m).state).state.metrics
      _ = (each k m).state.metrics + (ks.map fun k' => counted m.now k' (m.table.get? k')).sum := by
        rw [ih hnodup, hrest]
      _ = m.metrics + ((k :: ks).map fun k' => counted m.now k' (m.table.get? k')).sum := by
        rw [hcounts, List.map_cons, List.sum_cons, add_assoc]

/-! ## Purging -/

theorem purge_metrics (m : Memory K V) (k : K) :
    (m.purge k).metrics = m.metrics + lapsed m.now (m.table.get? k) := by
  unfold purge lapsed
  cases m.table.get? k with
  | none => exact (add_zero m.metrics).symm
  | some h => cases he : h.isExpired m.now <;> simp [he] <;> rfl

/-- Purging keys is acting on them one after the other. -/
theorem purgeAll_eq_forM (ks : List K) (m : Memory K V) :
    m.purgeAll ks =
      (ks.forM (fun k => (Action.change (·.purge k) : Action _ (Note K V) Unit)) m).state := by
  induction ks generalizing m with
  | nil => rfl
  | cons k ks ih => exact ih (m.purge k)

theorem purgeAll_metrics {ks : List K} (hnodup : ks.Nodup) (m : Memory K V) :
    (m.purgeAll ks).metrics =
      m.metrics + (ks.map fun k => lapsed m.now (m.table.get? k)).sum := by
  have hpurge : ActsByKey (fun k => (Action.change (·.purge k) : Action _ (Note K V) Unit))
      fun now _ held? => held?.filter fun h => !h.isExpired now :=
    fun k m => ⟨m.purge_now k, m.get?_purge k⟩
  have hcounts : CountsByKey (fun k => (Action.change (·.purge k) : Action _ (Note K V) Unit))
      fun now _ held? => lapsed now held? :=
    fun k m => m.purge_metrics k
  rw [purgeAll_eq_forM, metrics_forM hpurge hcounts hnodup]

/-! ## Settling -/

variable [DecidableEq (Handle V)] (policy : Policy K V)

omit [DecidableEq (Handle V)] in
theorem write_metrics (k : K) (v : Handle V) (m : Memory K V) :
    (write policy k v m).state.metrics =
      m.metrics + { puts := (rewritten? policy m.now k (m.table.get? k) v).isSome.toNat } := by
  rw [write_state]
  cases rewritten? policy m.now k (m.table.get? k) v <;> rfl

theorem settle_counts (decided : KeyMap K (Option (Handle V))) :
    CountsByKey (settle policy decided)
      fun now k held? => settledCount policy now k held? (decided.get? k) := by
  intro k m
  dsimp only
  rcases hd : decided.get? k with _ | _ | v
  · simp only [settle, hd]
    exact (add_zero m.metrics).symm
  · simp only [settle, hd, Action.change_apply, settledCount]
    rw [← KeyMap.contains]
    cases m.table.contains k with
    | true => rfl
    | false => exact (add_zero m.metrics).symm
  · rw [settle_of_value policy hd, settledCount]
    by_cases hv : m.value? k = some v
    · rw [if_pos hv, if_pos (show (m.table.get? k).map Holder.value = some v from hv)]
      exact (add_zero m.metrics).symm
    · rw [if_neg hv, if_neg (show (m.table.get? k).map Holder.value ≠ some v from hv)]
      exact write_metrics policy k v m

/-! ## Bulk computations -/

/-- What a bulk computation counts for one of its keys, by what was decided for it. -/
def recount (m : Memory K V) (k : K) (decision : Option (Option (Handle V))) : Metrics :=
  lapsed m.now (m.table.get? k) + settledCount policy m.now k (m.live? k) decision

/-- Of keys that shall not be mapped the live ones are counted as removed. -/
theorem recount_removes (m : Memory K V) (ks : List K) :
    (ks.map fun k => m.recount policy k (some none)).sum.removes =
      (ks.filter fun k => (m.live? k).isSome).length := by
  induction ks with
  | nil => rfl
  | cons k ks ih =>
    rw [List.map_cons, List.sum_cons, Metrics.removes_add, ih, List.filter_cons]
    cases hlive : (m.live? k).isSome <;>
      simp [recount, lapsed, settledCount, hlive, Nat.add_comm]

/-- **A bulk computation of distinct keys counts what each of them counts.** -/
theorem bulkCompute_counts (event : Note K V → ε') {ks : List K} (hnodup : ks.Nodup)
    {m : Memory K V} {reply : Mappings K V → Action τ ε' (Except Fault (Mappings K V))} {t : τ}
    {pairs : Mappings K V} (hr : (reply (m.batch ks) t).answer = .ok pairs) :
    (((Store.memory policy).bulkCompute ks m).run event reply t).answer.2.metrics =
      m.metrics + (ks.map fun k => m.recount policy k ((KeyMap.ofList pairs).get? k)).sum := by
  have hlive : (ks.map fun k => settledCount policy (m.purgeAll ks).now k
        ((m.purgeAll ks).table.get? k) ((KeyMap.ofList pairs).get? k)) =
      ks.map fun k => settledCount policy m.now k (m.live? k) ((KeyMap.ofList pairs).get? k) := by
    refine List.map_congr_left fun k hk => ?_
    rw [purgeAll_now, get?_purgeAll, if_pos hk]
  rw [bulkCompute_run]
  simp only [hr, run_settling_ok]
  calc (settleAll (settle policy (.ofList pairs)) ks.eraseDups ks (m.purgeAll ks)).state.metrics
    _ = (ks.forM (settle policy (.ofList pairs)) (m.purgeAll ks)).state.metrics := by
      rw [eraseDups_of_nodup hnodup]
      rfl
    _ = _ := by
      rw [metrics_forM (settle_byKey policy _) (settle_counts policy _) hnodup, hlive,
        purgeAll_metrics hnodup, add_assoc, ← List.sum_map_add]
      rfl

end Memory

end ResilientCache
