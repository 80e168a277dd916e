import ResilientCache.Proofs.Asking
import ResilientCache.Proofs.Histories
import ResilientCache.Proofs.Loading
import ResilientCache.Proofs.Walking

/-!
# What the operations of a cache leave of every key

The store is one in memory under any policy, so no call of it fails. `Cache.leaves` is then a call
as a function, the way `Request.leaves` is for the store: what it leaves of every key, by the live
holder of the key and the two policies. A read is answered by live holders, and leaves of its keys
exactly these: expired mappings are dropped by every read but `containsKey`.

The order in which the store lists what it holds matters to walks and to `removeAllEntries` only
(`serve_listed` and the like).

Headlines:
* **`ask_leaves`**, **`serve_leaves`**: every call.
* `serve_now`, `loadAll_now`: no operation moves the clock.
* `getAllWith_live`, `serve_get`, `serve_containsKey`: what the reads answer.
* `loadAll_state`: bulk loads, whatever their loader answers.
-/

namespace ResilientCache

open Memory

variable {K V : Type} [DecidableEq K]

namespace Cache

/-! ## The order of the raw iteration -/

section

variable (c : Cache (Memory K V) K V) (order : Memory K V → List (K × Holder V))

omit [DecidableEq K] in
/-- The cache with the raw iteration of its store in some order. -/
def listed : Cache (Memory K V) K V := { c with store := c.store.listedBy order }

theorem serve_listed [BEq V] (call : Call K V) :
    (c.listed order).serve call = c.serve call := by
  cases call <;> rfl

end

variable [DecidableEq (Handle V)] [BEq V] {policy : Policy K V} {c : Cache (Memory K V) K V}

/-! ## Calls -/

/-- What a call leaves of a key. -/
def leaves (c : Cache (Memory K V) K V) (policy : Policy K V) (m : Memory K V) :
    Call K V → K → Option (Holder V)
  | .get k, k' => if k = k' then m.live? k else m.table.get? k'
  | .containsKey _, k => m.table.get? k
  | .remove k, k' => if k = k' then none else m.table.get? k'
  | .clear, _ => none
  | .getAll ks, k => if k ∈ ks then m.live? k else m.table.get? k
  | .getAllPresent ks, k => if k ∈ ks then m.live? k else m.table.get? k
  | call, k =>
    match c.decided call k ((m.live? k).map Holder.value) with
    | none => m.table.get? k
    | some v? => settled? policy m.now k (m.live? k) (some v?)

/-- A write leaves a key what it decided for it. -/
theorem leaves_of_recomputes {call : Call K V} (hw : call.Recomputes) (m : Memory K V) (k : K) :
    c.leaves policy m call k =
      match c.decided call k ((m.live? k).map Holder.value) with
      | none => m.table.get? k
      | some v? => settled? policy m.now k (m.live? k) (some v?) := by
  cases call <;> first | rfl | exact hw.elim

omit [DecidableEq K] [DecidableEq (Handle V)] [BEq V] in
theorem askPlain_apply {σ α : Type} (x : Action σ (Note K V) (Except StoreError α)) (s : State σ) :
    askPlain x s = ⟨(x s.store).answer.mapError .store, { s with store := (x s.store).state },
      (x s.store).events.map .note⟩ := by
  simp [askPlain, onStore, Action.within]

omit [BEq V] in
/-- The bulk call of a read is answered with the live value of every requested key, and leaves of
these keys what is live. -/
theorem askAbsent_live (policy : Policy K V) (ks : List K) (s : State (Memory K V)) :
    let r := bulkCall ((Store.memory policy).bulkComputeIfAbsent ks)
      (answerAbsent (K := K) (V := V)) () s
    (∃ computed, r.answer.1 = .ok computed ∧
      (computed.map fun p => (p.1, p.2.map Holder.value)) =
        ks.map fun k => (k, (s.store.live? k).map Holder.value)) ∧
    ∀ k, r.state.store.table.get? k = if k ∈ ks then s.store.live? k else s.store.table.get? k := by
  -- the batch function answers no value for every absent key, so they stay absent
  have hreloaded (k : K) : s.store.reloaded? policy ks k
      (.ok ((s.store.absent ks).map fun k => (k, (none : Option (Handle V))))) =
        if k ∈ ks then s.store.live? k else s.store.table.get? k := by
    rw [← get?_purgeAll, get?_purgeAll_absent, reloaded?, KeyMap.get?_ofList_map]
    by_cases hk : k ∈ s.store.absent ks <;> simp [hk, loaded?]
  have hlisted : ∃ m', (((Store.memory policy).bulkComputeIfAbsent ks s.store).run Event.note
      (answerAbsent (K := K) (V := V)) ()).answer = (.ok (m'.computed ks), m') := by
    by_cases hnone : s.store.absent ks = []
    · obtain ⟨m', hrun, -⟩ := bulkComputeIfAbsent_idle policy Event.note answerAbsent hnone
      exact ⟨m', congrArg Run.answer hrun⟩
    · obtain ⟨m', notes, hrun, -⟩ :=
        bulkComputeIfAbsent_loads policy Event.note answerAbsent hnone rfl
      exact ⟨m', congrArg Run.answer hrun⟩
  obtain ⟨m', hm'⟩ := hlisted
  have hget := (bulkComputeIfAbsent_leaves policy Event.note ks s.store () answerAbsent).2
  rw [hm'] at hget
  have hget' (k : K) := (hget k).trans (hreloaded k)
  simp only [bulkCall, hm']
  refine ⟨⟨_, rfl, ?_⟩, hget'⟩
  rw [computed, List.map_map]
  refine List.map_congr_left fun k hk => ?_
  rw [Function.comp_apply, hget', if_pos hk]

/-- **The store call of every call succeeds, and leaves every key what it is said to leave.** -/
theorem ask_leaves (hc : c.store = .memory policy) (call : Call K V) (s : State (Memory K V)) :
    (∃ reply, (c.ask call s).answer = .ok reply) ∧
      ∀ k, (c.ask call s).state.store.table.get? k = c.leaves policy s.store call k := by
  have write (hw : call.Recomputes) : (∃ reply, (c.ask call s).answer = .ok reply) ∧
      ∀ k, (c.ask call s).state.store.table.get? k = c.leaves policy s.store call k := by
    obtain ⟨hok, hsettled⟩ := ask_settles hc hw s
    exact ⟨hok, fun k => (hsettled.entry k).trans (leaves_of_recomputes hw s.store k).symm⟩
  have read (ks : List K) :
      let r := askResult (bulkCall (c.store.bulkComputeIfAbsent ks.eraseDups) answerAbsent ()) s
      (∃ computed, r.answer = .ok computed) ∧
        ∀ k, r.state.store.table.get? k =
          if k ∈ ks then s.store.live? k else s.store.table.get? k := by
    obtain ⟨⟨computed, hok, -⟩, hget⟩ := askAbsent_live policy ks.eraseDups s
    rw [hc]
    exact ⟨⟨computed, hok⟩, fun k => (hget k).trans (by simp only [List.mem_eraseDups])⟩
  cases call with
  | get k =>
    rw [ask, hc, askPlain_apply]
    exact ⟨⟨s.store.live? k, by rw [get_memory]; rfl⟩,
      (Backend.serve_leaves policy (.get k) s.store).2⟩
  | containsKey k =>
    rw [ask, hc]
    exact ⟨⟨_, rfl⟩, fun _ => rfl⟩
  | remove k =>
    rw [ask, hc]
    exact ⟨⟨_, rfl⟩, (Backend.serve_leaves policy (.remove k) s.store).2⟩
  | clear =>
    rw [ask, hc]
    exact ⟨⟨_, rfl⟩, fun _ => rfl⟩
  | getAll ks => exact read ks
  | getAllPresent ks => exact read ks
  | put k v => exact write trivial
  | putIfAbsent k v => exact write trivial
  | removeIf k value => exact write trivial
  | replace k v => exact write trivial
  | replaceIf k old new => exact write trivial
  | putAll entries => exact write trivial
  | removeAll ks => exact write trivial

/-- The store call of a call takes no time. -/
theorem ask_now (hc : c.store = .memory policy) (call : Call K V) (s : State (Memory K V)) :
    (c.ask call s).state.store.now = s.store.now := by
  have write (hw : call.Recomputes) : (c.ask call s).state.store.now = s.store.now :=
    (ask_settles hc hw s).2.now
  have read (ks : List K) :
      (askResult (bulkCall (c.store.bulkComputeIfAbsent ks) answerAbsent ()) s).state.store.now =
        s.store.now := by
    rw [hc]
    exact (bulkComputeIfAbsent_leaves policy Event.note ks s.store () answerAbsent).1
  cases call with
  | get k =>
    rw [ask, hc, askPlain_apply]
    exact (Backend.serve_leaves policy (.get k) s.store).1
  | remove k =>
    rw [ask, hc]
    exact (Backend.serve_leaves policy (.remove k) s.store).1
  | containsKey k =>
    rw [ask, hc]
    rfl
  | clear =>
    rw [ask, hc]
    rfl
  | getAll ks => exact read _
  | getAllPresent ks => exact read _
  | _ => exact write trivial

section

variable (hc : c.store = .memory policy) {s : State (Memory K V)}
  (hs : s.lifecycle.status = .available)

include hc hs

/-- On an available cache every call succeeds, and leaves every key what it is said to leave. -/
theorem serve_leaves (call : Call K V) :
    (∃ reply, (c.ask call s).answer = .ok reply ∧
      (c.serve call s).answer = .ok (call.conclude reply).answer) ∧
    ∀ k, (c.serve call s).state.store.table.get? k = c.leaves policy s.store call k := by
  obtain ⟨⟨reply, ha⟩, hget⟩ := ask_leaves hc call s
  rw [serve_of_ok c call hs ha]
  exact ⟨⟨reply, ha, rfl⟩, hget⟩

theorem serve_now (call : Call K V) : (c.serve call s).state.store.now = s.store.now := by
  obtain ⟨⟨reply, ha⟩, -⟩ := ask_leaves hc call s
  rw [serve_of_ok c call hs ha]
  exact ask_now hc call s

/-! ## Reads -/

theorem serve_get (k : K) :
    (c.serve (.get k) s).answer = .ok ((s.store.live? k).map Holder.value) := by
  have ha : (c.ask (.get k) s).answer = .ok (s.store.live? k) := by
    rw [ask, hc, askPlain_apply, get_memory]
    rfl
  rw [serve_of_ok c _ hs ha]
  rfl

theorem serve_containsKey (k : K) :
    (c.serve (.containsKey k) s).answer = .ok (s.store.live? k).isSome := by
  have ha : (c.ask (.containsKey k) s).answer = .ok (s.store.live? k).isSome := by
    rw [ask, hc]
    rfl
  rw [serve_of_ok c _ hs ha]
  rfl

omit [BEq V] in
/-- A bulk read finds the live value of every requested key. -/
theorem getAllWith_live (ks : List K) (includeAbsent : Bool) :
    ∃ found, ((c.getAllWith ks includeAbsent).run s).answer = .ok found ∧ ∀ k, found.get? k =
      if k ∈ ks ∧ (includeAbsent || (s.store.live? k).isSome) = true then
        some ((s.store.live? k).map Holder.value)
      else none := by
  obtain ⟨⟨computed, hok, hlive⟩, -⟩ := askAbsent_live policy ks.eraseDups s
  rw [← hc] at hok
  refine ⟨collect includeAbsent (computed.map fun p => (p.1, p.2.map Holder.value)), ?_,
    fun k => ?_⟩
  · rcases hr : bulkCall (c.store.bulkComputeIfAbsent ks.eraseDups)
      (answerAbsent (K := K) (V := V)) () s with ⟨⟨r, u⟩, s', es⟩
    rw [hr] at hok
    cases hok
    rw [getAllWith, ExceptT.run, Op.bind_apply, checkAvailable_of_available hs]
    simp [Op.bind_apply, Op.lift_apply, Op.map_apply, Except.map, hr]
  · rw [hlive, get?_collect]
    simp

theorem serve_getAll (ks : List K) :
    ∃ found, (c.serve (.getAll ks) s).answer = .ok found ∧ ∀ k, found.get? k =
      if k ∈ ks then some ((s.store.live? k).map Holder.value) else none := by
  obtain ⟨found, ha, hget⟩ := getAllWith_live hc hs ks true
  exact ⟨found, ha, fun k => (hget k).trans (by simp)⟩

theorem serve_getAllPresent (ks : List K) :
    ∃ found, (c.serve (.getAllPresent ks) s).answer = .ok found ∧ ∀ k, found.get? k =
      if k ∈ ks then (s.store.live? k).map Holder.value else none := by
  obtain ⟨found, ha, hget⟩ := getAllWith_live hc hs ks false
  have hpresent : c.serve (.getAllPresent ks) =
      (·.filterMap fun _ v => v) <$> c.getAllWith ks false := bind_pure_comp _ _
  refine ⟨found.filterMap fun _ v => v, ?_, fun k => ?_⟩
  · rw [hpresent, Op.map_apply]
    exact congrArg (Except.map _) ha
  · rw [KeyMap.get?_filterMap, hget]
    cases s.store.live? k <;> by_cases hk : k ∈ ks <;> simp [hk]

/-! ## Bulk loads -/

omit [BEq V] in
/-- What a bulk load of some keys leaves of each, by what its loader answers to the keys it is asked
for. -/
theorem loadAll_state {ks : List K} (hne : ks ≠ []) (replaceExisting : Bool)
    (loader : Loader K V) (k : K) :
    let batch := s.store.wanted ks replaceExisting
    let answer := (loader batch).map (normalize batch)
    ((c.loadAll ks replaceExisting loader).run s).state.store.table.get? k =
      if replaceExisting then s.store.recomputed? policy ks k answer
      else s.store.reloaded? policy ks k answer := by
  rw [loadAll_apply c hs (List.isEmpty_eq_false_iff.mpr hne), hc]
  cases replaceExisting with
  | true =>
    have hbatch : (s.store.batch ks).map Prod.fst = ks.eraseDups := by
      simp [batch, Function.comp_def]
    have hget := (bulkCompute_leaves policy Event.note ks s.store ()
      fun batch => callLoader loader (batch.map Prod.fst)).2 k
    rw [hbatch] at hget
    exact hget
  | false =>
    exact (bulkComputeIfAbsent_leaves policy Event.note ks s.store () (callLoader loader)).2 k

omit [BEq V] in
theorem loadAll_now {ks : List K} (hne : ks ≠ []) (replaceExisting : Bool) (loader : Loader K V) :
    ((c.loadAll ks replaceExisting loader).run s).state.store.now = s.store.now := by
  rw [loadAll_apply c hs (List.isEmpty_eq_false_iff.mpr hne), hc]
  cases replaceExisting with
  | true => exact (bulkCompute_leaves policy Event.note ks s.store () _).1
  | false => exact (bulkComputeIfAbsent_leaves policy Event.note ks s.store () _).1

end

end Cache

end ResilientCache
