import ResilientCache.Proofs.Call
import ResilientCache.Proofs.Counting

/-!
# What a write leaves of every key

The writes of a cache that depend on what a key holds go through one bulk computation, whose batch
function decides for every key by the live value that the key has. `Cache.decided` says what each of
them decides, the cache's own policy having its say (`accepted?`). Over a store in memory the key is
then brought to what was decided for it, under the policy of the store, and every other key is left
as it was (`Settled`). The store counts what each of the keys that were asked for counts
(`Recounted`).

Both policies are any functions of their arguments, and may fail.

Headlines:
* `putPending_answers`: what `putAll` decides for a whole batch.
* **`serve_recounts`**, `serve_settles`: every such write settles what it decided, and counts it.
-/

namespace ResilientCache

open Memory

variable {σ τ K V α : Type} [DecidableEq K]

/-- A call that recomputes its keys from the values they have. -/
def Call.Recomputes : Call K V → Prop
  | put _ _ => True
  | putIfAbsent _ _ => True
  | removeIf _ _ => True
  | replace _ _ => True
  | replaceIf _ _ _ => True
  | putAll _ => True
  | removeAll _ => True
  | _ => False

/-- The keys that a call recomputes, each once. -/
def Call.keys : Call K V → List K
  | put k _ => [k]
  | putIfAbsent k _ => [k]
  | removeIf k _ => [k]
  | replace k _ => [k]
  | replaceIf k _ _ => [k]
  | putAll entries => (entries.map Prod.fst).eraseDups
  | removeAll ks => ks.eraseDups
  | _ => []

namespace Cache

/-! ## Decisions -/

/-- The handle that a cache lets a key be mapped to: none if its policy denies the value. -/
def accepted? (c : Cache σ K V) (k : K) (old? : Option (Handle V)) (v : Handle V) :
    Option (Handle V) :=
  if c.expiry.granted (.ofWrite k (old?.map (·.value)) v.value) = some .zero then none else some v

omit [DecidableEq K] in
theorem accepted?_of_denied {c : Cache σ K V} {k : K} {old? : Option (Handle V)} {v : Handle V}
    (h : c.expiry.Denies (.ofWrite k (old?.map (·.value)) v.value)) :
    c.accepted? k old? v = none :=
  if_pos (Policy.denies_iff.mp h)

omit [DecidableEq K] in
theorem accepted?_of_not_denied {c : Cache σ K V} {k : K} {old? : Option (Handle V)} {v : Handle V}
    (h : ¬ c.expiry.Denies (.ofWrite k (old?.map (·.value)) v.value)) :
    c.accepted? k old? v = some v :=
  if_neg fun hzero => h (Policy.denies_iff.mpr hzero)

omit [DecidableEq K] in
/-- The eternal policy denies nothing. -/
theorem accepted?_eternal {c : Cache σ K V} (h : c.expiry = .eternal) (k : K)
    (old? : Option (Handle V)) (v : Handle V) : c.accepted? k old? v = some v := by
  have hmax : Duration.max ≠ Duration.zero := by decide
  cases old? <;>
    simp [accepted?, h, LifetimeQuery.ofWrite, Policy.granted, Policy.answer, Policy.eternal,
      Except.map, hmax]

/-- What a call decides for a key, by the value that the key has: nothing, that it shall not be
mapped, or the handle it shall be mapped to. -/
def decided [BEq V] (c : Cache σ K V) :
    Call K V → K → Option (Handle V) → Option (Option (Handle V))
  | .put k v, k', old? => if k' = k then some (c.accepted? k old? v) else none
  | .putIfAbsent k v, k', old? => if k' = k then some (old?.or (c.accepted? k none v)) else none
  | .removeIf k value, k', old? =>
    if k' = k then some (old?.filter fun current => !(current.value == value)) else none
  | .replace k v, k', old? =>
    if k' = k then some (old?.bind fun current => c.accepted? k (some current) v) else none
  | .replaceIf k old new, k', old? =>
    if k' = k then
      some (old?.bind fun current =>
        if current.value == old then c.accepted? k (some current) new else some current)
    else none
  | .putAll entries, k', old? => ((KeyMap.ofList entries).get? k').map (c.accepted? k' old?)
  | .removeAll ks, k', _ => if k' ∈ ks then some none else none
  | _, _, _ => none

section

variable (c : Cache σ K V) (k : K) (old? : Option (Handle V)) (v : Handle V)

omit [DecidableEq K] in
theorem accept_decides (t : τ) : (c.accept k old? v t).answer = c.accepted? k old? v :=
  accept_answer c k old? v t

omit [DecidableEq K] in
theorem keepOrAccept_decides (kept : Option (Handle V)) :
    (c.keepOrAccept k v old? kept).answer = old?.or (c.accepted? k none v) := by
  cases old? with
  | none => exact (c.accept_decides k none v kept).trans (Option.none_or).symm
  | some current => rfl

omit [DecidableEq K] in
theorem acceptOver_decides (kept : Option (Handle V)) :
    (c.acceptOver k v old? kept).answer =
      old?.bind fun current => c.accepted? k (some current) v := by
  cases old? with
  | none => rfl
  | some current => exact c.accept_decides k (some current) v kept

variable [BEq V]

omit [DecidableEq K] in
theorem dropEqual_decides (value : V) (kept : Outcome.ConditionalRemove) :
    (dropEqual value old? kept : Run _ (Event K V) _).answer =
      old?.filter fun current => !(current.value == value) := by
  cases old? with
  | none => rfl
  | some current => by_cases hv : current.value == value <;> simp [dropEqual, hv, Option.filter]

omit [DecidableEq K] in
theorem acceptEqual_decides (old : V) (kept : Outcome.Replace) :
    (c.acceptEqual k old v old? kept).answer = old?.bind fun current =>
      if current.value == old then c.accepted? k (some current) v else some current := by
  cases old? with
  | none => rfl
  | some current => by_cases hv : current.value == old <;> simp [acceptEqual, accepted?, hv]

end

/-- What `putAll` decides for a key of its batch: its pending value as the cache accepts it, or what
the key has. What is pending for other keys stays so. -/
theorem putPending_apply (c : Cache σ K V) (k : K) (old? : Option (Handle V))
    (p : PutProgress K V) :
    let r := c.putPending (k, old?) p
    r.answer = (k, (p.pending.get? k).elim old? (c.accepted? k old?)) ∧
      ∀ k', k' ≠ k → r.state.pending.get? k' = p.pending.get? k' := by
  cases hv : p.pending.get? k with
  | none => simp [putPending, hv]
  | some v =>
    have herased (k' : K) (hk : k' ≠ k) : (p.pending.erase k).get? k' = p.pending.get? k' := by
      rw [KeyMap.get?_erase, if_neg hk.symm]
    unfold accepted?
    by_cases hdead : c.expiry.granted (.ofWrite k (old?.map (·.value)) v.value) = some .zero
    · simp only [putPending, hv, hdead, Action.bind_apply, Action.read_apply, Action.change_apply,
        accept_answer, accept_state, if_true, Action.pure_apply, Option.elim_some]
      exact ⟨trivial, herased⟩
    · simp only [putPending, hv, hdead, Action.bind_apply, Action.read_apply, Action.change_apply,
        accept_answer, accept_state, if_false, Action.pure_apply, Option.elim_some]
      cases old? <;> exact ⟨trivial, herased⟩

/-- A batch of distinct keys is decided key by key. -/
theorem putPending_answers (c : Cache σ K V) (old? : K → Option (Handle V)) :
    ∀ (ks : List K) (p : PutProgress K V), ks.Nodup →
      ((ks.map fun k => (k, old? k)).mapM c.putPending p).answer =
        ks.map fun k => (k, (p.pending.get? k).elim (old? k) (c.accepted? k (old? k)))
  | [], _, _ => rfl
  | k :: ks, p, hnodup => by
    obtain ⟨hk, hnodup⟩ := List.nodup_cons.mp hnodup
    obtain ⟨hhead, hpending⟩ := c.putPending_apply k (old? k) p
    have ih := putPending_answers c old? ks (c.putPending (k, old? k) p).state hnodup
    simp only [List.map_cons, List.mapM_cons, Action.bind_apply, Action.pure_apply, hhead, ih]
    refine congrArg _ (List.map_congr_left fun k' hk' => ?_)
    have hne : k' ≠ k := by
      rintro rfl
      exact hk hk'
    rw [hpending k' hne]

/-! ## Settling -/

/-- From one state to another every key was brought to what was decided for it; the others hold what
they held, and the clock has not moved. -/
structure Settled (policy : Policy K V) [DecidableEq (Handle V)]
    (decided : K → Option (Option (Handle V))) (s s' : State (Memory K V)) : Prop where
  now : s'.store.now = s.store.now
  entry : ∀ k, s'.store.table.get? k = match decided k with
    | none => s.store.table.get? k
    | some v? => settled? policy s.store.now k (s.store.live? k) (some v?)

/-- Some keys were recomputed from one state to another: they were settled, and what was decided for
them was counted. -/
structure Recounted (policy : Policy K V) [DecidableEq (Handle V)] (ks : List K)
    (decided : K → Option (Option (Handle V))) (s s' : State (Memory K V)) : Prop
    extends Settled policy decided s s' where
  counts : s'.store.metrics =
    s.store.metrics + (ks.map fun k => s.store.recount policy k (decided k)).sum

variable [DecidableEq (Handle V)] {policy : Policy K V} {c : Cache (Memory K V) K V}

/-- A bulk computation of distinct keys recomputes them as its batch function decides. -/
theorem bulkCall_recounts (policy : Policy K V) {ks : List K} (hnodup : ks.Nodup)
    (reply : Mappings K V → Action τ (Event K V) (Except Fault (Mappings K V))) (start : τ)
    (s : State (Memory K V)) (f : K → Option (Handle V))
    (hr : (reply (s.store.batch ks) start).answer = .ok (ks.map fun k => (k, f k)))
    {decided : K → Option (Option (Handle V))}
    (hd : ∀ k, decided k = if k ∈ ks then some (f k) else none) :
    let r := bulkCall ((Store.memory policy).bulkCompute ks) reply start s
    (∃ computed, r.answer.1 = .ok computed) ∧ Recounted policy ks decided s r.state := by
  have hcounts := bulkCompute_counts policy Event.note hnodup hr
  obtain ⟨m', notes, hrun, hnow, hget⟩ := bulkCompute_settles policy Event.note reply hr
  simp only [hrun] at hcounts
  simp only [bulkCall, hrun]
  refine ⟨⟨_, rfl⟩, ⟨hnow, fun k => ?_⟩, ?_⟩
  · show m'.table.get? k = _
    rw [hget, hd, KeyMap.get?_ofList_map]
    by_cases hk : k ∈ ks <;> simp [hk]
  · refine hcounts.trans (congrArg (_ + List.sum ·) (List.map_congr_left fun k hk => ?_))
    rw [hd, KeyMap.get?_ofList_map]

/-- Recomputing one key settles what its function answers about what the key has. -/
theorem computeOne_recounts (hc : c.store = .memory policy) (k : K)
    (remap : Option (Handle V) → Action τ (Event K V) (Option (Handle V))) (start : τ)
    (s : State (Memory K V)) {decided : K → Option (Option (Handle V))}
    (hd : ∀ k', decided k' = if k' = k then
      some (remap ((s.store.live? k').map Holder.value) start).answer else none) :
    let r := c.computeOne k remap start s
    (∃ h?, r.answer.1 = .ok h?) ∧ Recounted policy [k] decided s r.state := by
  have hreply : (remapEach remap (s.store.batch [k]) start).answer =
      .ok ([k].map fun k => (k, (remap ((s.store.live? k).map Holder.value) start).answer)) := by
    simp [remapEach, batch]
  obtain ⟨⟨computed, hok⟩, hrecounted⟩ :=
    bulkCall_recounts policy (List.nodup_singleton k) (remapEach remap) start s _ hreply fun k' =>
      (hd k').trans (by simp only [List.mem_singleton])
  simp only [computeOne, hc, Action.bind_apply, Action.pure_apply]
  exact ⟨⟨_, congrArg (Except.map _) hok⟩, hrecounted⟩

variable [BEq V]

/-- The store call of a write recomputes its keys as the write decides. -/
theorem ask_recounts (hc : c.store = .memory policy) {call : Call K V} (hw : call.Recomputes)
    (s : State (Memory K V)) :
    (∃ reply, (c.ask call s).answer = .ok reply) ∧
      Recounted policy call.keys
        (fun k => c.decided call k ((s.store.live? k).map Holder.value)) s
        (c.ask call s).state := by
  have kept {α τ : Type} {x : Action (State (Memory K V)) (Event K V) (Except BulkError α × τ)}
      {ks : List K} {decided : K → Option (Option (Handle V))}
      (h : (∃ a, (x s).answer.1 = .ok a) ∧ Recounted policy ks decided s (x s).state) :
      (∃ reply, (askKept x s).answer = .ok reply) ∧
        Recounted policy ks decided s (askKept x s).state := by
    obtain ⟨⟨a, ha⟩, hrecounted⟩ := h
    exact ⟨⟨_, congrArg (Except.map _) ha⟩, hrecounted⟩
  cases call with
  | put k v =>
    exact computeOne_recounts hc k _ () s fun k' => by rw [accept_decides, decided]
  | putIfAbsent k v =>
    exact kept (computeOne_recounts hc k _ none s fun k' => by rw [keepOrAccept_decides, decided])
  | removeIf k value =>
    exact kept (computeOne_recounts hc k _ _ s fun k' => by rw [dropEqual_decides, decided])
  | replace k v =>
    exact kept (computeOne_recounts hc k _ none s fun k' => by rw [acceptOver_decides, decided])
  | replaceIf k old new =>
    exact kept (computeOne_recounts hc k _ _ s fun k' => by rw [acceptEqual_decides, decided])
  | putAll entries =>
    have hnodup := nodup_eraseDups (entries.map Prod.fst)
    have hpending (k : K) : k ∈ (entries.map Prod.fst).eraseDups ↔
        ((KeyMap.ofList entries).get? k).isSome = true := by
      rw [KeyMap.isSome_get?_ofList, List.mem_eraseDups]
    have hanswers := c.putPending_answers (fun k => (s.store.live? k).map Holder.value)
      (entries.map Prod.fst).eraseDups { pending := .ofList entries } hnodup
    rw [← batch_of_nodup _ hnodup] at hanswers
    simp only [ask, hc]
    refine kept (bulkCall_recounts policy hnodup _ _ s _ (congrArg Except.ok hanswers)
      fun k => ?_)
    simp only [decided, hpending]
    cases (KeyMap.ofList entries).get? k with
    | none => rfl
    | some v => rfl
  | removeAll ks =>
    have hnodup := nodup_eraseDups ks
    have hdrop : (dropAll (s.store.batch ks.eraseDups) 0 : Run Nat (Event K V) _).answer =
        .ok (ks.eraseDups.map fun k => (k, none)) := by
      rw [batch_of_nodup _ hnodup]
      simp [dropAll, Function.comp_def]
    simp only [ask, hc]
    refine kept (bulkCall_recounts policy hnodup _ _ s _ hdrop fun k => ?_)
    rw [decided]
    simp only [List.mem_eraseDups]
  | _ => exact hw.elim

/-- The store call of a write settles what the write decides. -/
theorem ask_settles (hc : c.store = .memory policy) {call : Call K V} (hw : call.Recomputes)
    (s : State (Memory K V)) :
    (∃ reply, (c.ask call s).answer = .ok reply) ∧
      Settled policy (fun k => c.decided call k ((s.store.live? k).map Holder.value)) s
        (c.ask call s).state :=
  (ask_recounts hc hw s).imp_right Recounted.toSettled

/-- A write answers, and recomputes its keys as it decides. -/
theorem serve_recounts (hc : c.store = .memory policy) {call : Call K V} (hw : call.Recomputes)
    {s : State (Memory K V)} (hs : s.lifecycle.status = .available) :
    (∃ answer, (c.serve call s).answer = .ok answer) ∧
      Recounted policy call.keys
        (fun k => c.decided call k ((s.store.live? k).map Holder.value)) s
        (c.serve call s).state := by
  obtain ⟨⟨reply, ha⟩, hrecounted⟩ := ask_recounts hc hw s
  rw [serve_of_ok c call hs ha]
  exact ⟨⟨_, rfl⟩, ⟨hrecounted.now, hrecounted.entry⟩, hrecounted.counts⟩

/-- **A write leaves of every key what it decided for it**, and every other key as it was. -/
theorem serve_settles (hc : c.store = .memory policy) {call : Call K V} (hw : call.Recomputes)
    {s : State (Memory K V)} (hs : s.lifecycle.status = .available) :
    Settled policy (fun k => c.decided call k ((s.store.live? k).map Holder.value)) s
      (c.serve call s).state :=
  (serve_recounts hc hw hs).2.toSettled

end Cache

end ResilientCache
