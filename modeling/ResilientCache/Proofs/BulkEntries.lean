import ResilientCache.Proofs.Leaving
import ResilientCache.Proofs.Reporting

/-!
# The entries that bulk operations count

A successful bulk operation adds to the counts of bulk entries. Over a store in memory `getAll`
counts the requested keys that are present and those that are absent, `removeAll` the keys that are
present. `putAll` counts a key when its batch function lets the value through, as added if the key is
absent and as overwritten if it is present.

The store has its own say only afterwards. A value that the cache lets through and the store denies
(`Cache.Overruled`) is counted all the same, although its key is not mapped to it.

Headlines:
* **`getAll_agrees`**: what bulk reads answer, leave and count.
* `removeAll_counts`: what a bulk removal counts.
* **`putAll_counts`**: what a bulk put counts.
-/

namespace ResilientCache

open Memory

/-- Additions to two kinds reach each of them. -/
theorem BulkCounts.get_addAll_pair (counts : BulkCounts) {a b : BulkKind} (h : a ≠ b)
    (n m : UInt64) :
    (counts.addAll [(a, n), (b, m)]).get a = counts.get a + n ∧
      (counts.addAll [(a, n), (b, m)]).get b = counts.get b + m := by
  simp [addAll, get_add, h, h.symm]

variable {σ K V : Type} [DecidableEq K]

namespace Cache

/-! ## Reading -/

/-- Of distinct keys with their values a bulk read finds those that have one. -/
theorem hits_collect {α : Type} (includeAbsent : Bool) {found : List (K × Option α)}
    (h : (found.map Prod.fst).Nodup) :
    hits (collect includeAbsent found) = found.countP (·.2.isSome) := by
  have hkeys : ((found.filter fun p => includeAbsent || p.2.isSome).map Prod.fst).Nodup :=
    h.sublist (List.filter_sublist.map Prod.fst)
  have hpairs := KeyMap.perm_pairs_ofList hkeys
  rw [hits, ← List.countP_eq_length_filter, KeyMap.values, collect, List.countP_map,
    hpairs.countP_eq, List.countP_filter]
  refine List.countP_congr fun p _ => ?_
  cases hp : p.2 <;> simp [hp]

variable [DecidableEq (Handle V)] [BEq V]

omit [DecidableEq (Handle V)] in
/-- A bulk read counts what its store listed, whatever that was. -/
theorem getAllWith_bulk (c : Cache σ K V) {s : State σ} (hs : s.lifecycle.status = .available)
    (ks : List K) (includeAbsent : Bool) {computed : Computed K V}
    (h : (bulkCall (c.store.bulkComputeIfAbsent ks.eraseDups) answerAbsent () s).answer.1 =
      .ok computed) :
    ((c.getAllWith ks includeAbsent).run s).state.bulk =
      s.bulk.addAll (Call.found includeAbsent computed).counted := by
  rw [getAllWith_state]
  cases includeAbsent with
  | true =>
    have hask : (c.ask (.getAll ks) s).answer = .ok computed := h
    exact congrArg (·.state.bulk) (c.serve_of_ok (.getAll ks) hs hask)
  | false =>
    have hask : (c.ask (.getAllPresent ks) s).answer = .ok computed := h
    exact congrArg (·.state.bulk) (c.serve_of_ok (.getAllPresent ks) hs hask)

variable {policy : Policy K V} {c : Cache (Memory K V) K V} {s : State (Memory K V)}

/-- Over a store in memory it counts the keys that are present and those that are absent. -/
theorem getAllWith_counts (hc : c.store = .memory policy) (hs : s.lifecycle.status = .available)
    (ks : List K) (includeAbsent : Bool) :
    ((c.getAllWith ks includeAbsent).run s).state.bulk = s.bulk.addAll
      [(.getAllHits, .ofNat (ks.eraseDups.countP fun k => (s.store.live? k).isSome)),
        (.getAllMiss, .ofNat (ks.eraseDups.countP fun k => (s.store.live? k).isNone))] := by
  obtain ⟨⟨computed, hok, hlive⟩, -⟩ := askAbsent_live policy ks.eraseDups s
  rw [← hc] at hok
  have hlength : computed.length = ks.eraseDups.length := by simpa using congrArg List.length hlive
  have hfound : hits (collect includeAbsent
      (computed.map fun p => (p.1, p.2.map Holder.value))) =
        ks.eraseDups.countP fun k => (s.store.live? k).isSome := by
    have hkeys : ((ks.eraseDups.map fun k => (k, (s.store.live? k).map Holder.value)).map
        Prod.fst).Nodup := by
      simpa [Function.comp_def] using nodup_eraseDups ks
    rw [hlive, hits_collect includeAbsent hkeys, List.countP_map]
    simp [Function.comp_def]
  have hmissed : computed.length - ks.eraseDups.countP (fun k => (s.store.live? k).isSome) =
      ks.eraseDups.countP fun k => (s.store.live? k).isNone := by
    have hsplit := List.length_eq_countP_add_countP (fun k => (s.store.live? k).isSome)
      (l := ks.eraseDups)
    simp only [Bool.not_eq_true, Option.isSome_eq_false_iff, Bool.decide_eq_true] at hsplit
    omega
  rw [getAllWith_bulk c hs ks includeAbsent hok, Call.found]
  simp only [hfound, hmissed]

/-- What a bulk read of some keys does, if these are what reads of them answer: live mappings stay
as they are, nothing is installed, and the distinct keys found and those missed are counted. -/
structure ReadsOnly (ks : List K) (answers : K → Option (Handle V))
    (s s' : State (Memory K V)) : Prop where
  kept : ∀ k h, s.store.live? k = some h → s'.store.table.get? k = some h
  held : ∀ k h, s'.store.table.get? k = some h → s.store.table.get? k = some h
  hits : s'.bulk.get .getAllHits =
    s.bulk.get .getAllHits + .ofNat (ks.eraseDups.countP fun k => (answers k).isSome)
  misses : s'.bulk.get .getAllMiss =
    s.bulk.get .getAllMiss + .ofNat (ks.eraseDups.countP fun k => (answers k).isNone)

theorem getAllWith_readsOnly (hc : c.store = .memory policy)
    (hs : s.lifecycle.status = .available) (ks : List K) (includeAbsent : Bool) :
    ReadsOnly ks (fun k => (s.store.live? k).map Holder.value) s
      ((c.getAllWith ks includeAbsent).run s).state := by
  have hbulk := getAllWith_counts hc hs ks includeAbsent
  have hget (k : K) : ((c.getAllWith ks includeAbsent).run s).state.store.table.get? k =
      if k ∈ ks then s.store.live? k else s.store.table.get? k := by
    rw [getAllWith_state]
    cases includeAbsent <;> exact (serve_leaves hc hs _).2 k
  have hcounted := s.bulk.get_addAll_pair (a := .getAllHits) (b := .getAllMiss) (by decide)
  refine ⟨fun k h hlive => ?_, fun k h hheld => ?_, ?_, ?_⟩
  · rw [hget, hlive, get?_of_live? hlive, ite_self]
  · rw [hget] at hheld
    split at hheld
    · exact get?_of_live? hheld
    · exact hheld
  · simpa only [hbulk, Option.isSome_map] using (hcounted _ _).1
  · simpa only [hbulk, Option.isNone_map] using (hcounted _ _).2

/-- **Bulk reads agree with single reads.** `getAll` answers every requested key with what a read of
it answers, `getAllPresent` the present keys of them, and they do no more than read and count.
Whatever a store lists, repeated, missing or foreign keys included, no more keys are found than it
listed, so the count of those missed is a true difference. -/
theorem getAll_agrees (hc : c.store = .memory policy) (hs : s.lifecycle.status = .available)
    (ks : List K) :
    (∃ answers : K → Option (Handle V),
      (∀ k, (c.serve (.get k) s).answer = .ok (answers k)) ∧
      (∃ found, (c.serve (.getAll ks) s).answer = .ok found ∧
        ∀ k, found.get? k = if k ∈ ks then some (answers k) else none) ∧
      (∃ found, (c.serve (.getAllPresent ks) s).answer = .ok found ∧
        ∀ k, found.get? k = if k ∈ ks then answers k else none) ∧
      ReadsOnly ks answers s (c.serve (.getAll ks) s).state ∧
      ReadsOnly ks answers s (c.serve (.getAllPresent ks) s).state) ∧
    ∀ (σ : Type) (d : Cache σ K V) (t : State σ) (includeAbsent : Bool) (computed : Computed K V),
      t.lifecycle.status = .available →
      (bulkCall (d.store.bulkComputeIfAbsent ks.eraseDups) answerAbsent () t).answer.1 =
        .ok computed →
      let found := collect includeAbsent (computed.map fun p => (p.1, p.2.map Holder.value))
      let t' := ((d.getAllWith ks includeAbsent).run t).state
      hits found ≤ computed.length ∧
      t'.bulk.get .getAllHits = t.bulk.get .getAllHits + .ofNat (hits found) ∧
      t'.bulk.get .getAllMiss =
        t.bulk.get .getAllMiss + .ofNat (computed.length - hits found) := by
  refine ⟨⟨fun k => (s.store.live? k).map Holder.value, serve_get hc hs, serve_getAll hc hs ks,
    serve_getAllPresent hc hs ks, ?all, ?present⟩, ?any⟩
  case all => exact getAllWith_state c ks true s ▸ getAllWith_readsOnly hc hs ks true
  case present => exact getAllWith_state c ks false s ▸ getAllWith_readsOnly hc hs ks false
  case any =>
    intro σ d t includeAbsent computed ht h found t'
    have hbulk : t'.bulk = t.bulk.addAll (Call.found includeAbsent computed).counted :=
      getAllWith_bulk d ht ks includeAbsent h
    rw [hbulk]
    refine ⟨?_, t.bulk.get_addAll_pair (by decide) _ _⟩
    simpa using hits_le_length includeAbsent (computed.map fun p => (p.1, p.2.map Holder.value))

/-- Of three keys, one of them asked for twice, one is live, one has expired and one was never
mapped. A store that lists a foreign key twice over is believed once. -/
theorem getAll_agrees_expired :
    let c : Cache (Memory Nat Nat) Nat Nat := { store := .memory (.timeToLive (.ofMillis 100)) }
    let s : State (Memory Nat Nat) :=
      { store :=
          { table := .ofList [(1, ⟨⟨0, 10⟩, 0, some 100⟩), (2, .eternal ⟨1, 20⟩)], now := 100 }
        lifecycle := { status := .available } }
    let listed : Computed Nat Nat := [(7, some (.eternal ⟨2, 70⟩)), (7, some (.eternal ⟨2, 70⟩))]
    let d : Cache (Memory Nat Nat) Nat Nat :=
      { c with store.bulkComputeIfAbsent := fun _ m => .done (.ok listed, m) }
    s.lifecycle.status = .available ∧
      (∃ found, (c.serve (.getAll [2, 1, 2, 3]) s).answer = .ok found ∧
        found.get? 1 = some none ∧ found.get? 2 = some (some ⟨1, 20⟩) ∧ found.get? 4 = none) ∧
      (c.serve (.getAll [2, 1, 2, 3]) s).state.bulk.get .getAllHits = 1 ∧
      (c.serve (.getAll [2, 1, 2, 3]) s).state.bulk.get .getAllMiss = 2 ∧
      (bulkCall (d.store.bulkComputeIfAbsent [2, 1, 2, 3].eraseDups) answerAbsent () s).answer.1 =
        .ok listed ∧
      ((d.getAllWith [2, 1, 2, 3] true).run s).state.bulk.get .getAllHits = 1 ∧
      ((d.getAllWith [2, 1, 2, 3] true).run s).state.bulk.get .getAllMiss = 1 := by
  intro c s listed d
  obtain ⟨⟨answers, hget, ⟨found, hfound, hall⟩, -, hreads, -⟩, hany⟩ :=
    getAll_agrees (c := c) (s := s) rfl rfl [2, 1, 2, 3]
  have h1 : answers 1 = none := Except.ok.inj ((hget 1).symm.trans rfl)
  have h2 : answers 2 = some ⟨1, 20⟩ := Except.ok.inj ((hget 2).symm.trans rfl)
  have h3 : answers 3 = none := Except.ok.inj ((hget 3).symm.trans rfl)
  have hkeys : [2, 1, 2, 3].eraseDups = [2, 1, 3] := by decide
  have hzero (kind : BulkKind) : s.bulk.get kind = 0 := BulkCounts.get_empty kind
  obtain ⟨-, hhits, hmisses⟩ := hany _ d s true listed rfl rfl
  refine ⟨rfl, ⟨found, hfound, ?_, ?_, ?_⟩, ?_, ?_, rfl, hhits, hmisses⟩
  · simpa [h1] using hall 1
  · simpa [h2] using hall 2
  · simpa using hall 4
  · simpa [hkeys, hzero, h1, h2, h3, List.countP_cons] using hreads.hits
  · simpa [hkeys, hzero, h1, h2, h3, List.countP_cons] using hreads.misses

/-! ## Writing and removing -/

omit [DecidableEq (Handle V)] [BEq V] in
/-- Whether `putAll` lets the value that is pending for a key through, over what the key has. -/
def passes (c : Cache σ K V) (pending : KeyMap K (Handle V)) (k : K)
    (old? : Option (Handle V)) : Bool :=
  ((pending.get? k).bind (c.accepted? k old?)).isSome

omit [DecidableEq (Handle V)] [BEq V] in
/-- `putAll` counts a key when it decides about it. -/
theorem putPending_counts (c : Cache σ K V) (k : K) (old? : Option (Handle V))
    (p : PutProgress K V) :
    let r := c.putPending (k, old?) p
    r.state.puts = p.puts + (if c.passes p.pending k old? && old?.isNone then 1 else 0) ∧
      r.state.updates =
        p.updates + (if c.passes p.pending k old? && old?.isSome then 1 else 0) := by
  cases hv : p.pending.get? k with
  | none => simp [putPending, passes, hv]
  | some v =>
    unfold passes accepted?
    by_cases hdead : c.expiry.granted (.ofWrite k (old?.map (·.value)) v.value) = some .zero
    · simp [putPending, hv, hdead]
    · cases old? <;> simp_all [putPending]

omit [DecidableEq (Handle V)] [BEq V] in
theorem passes_congr (c : Cache σ K V) {pending pending' : KeyMap K (Handle V)} {k : K}
    (h : pending.get? k = pending'.get? k) (old? : Option (Handle V)) :
    c.passes pending k old? = c.passes pending' k old? := by
  rw [passes, passes, h]

omit [DecidableEq (Handle V)] [BEq V] in
/-- A batch of distinct keys counts each of them by itself. -/
theorem putPending_totals (c : Cache σ K V) (old? : K → Option (Handle V)) :
    ∀ (ks : List K) (p : PutProgress K V), ks.Nodup →
      let r := (ks.map fun k => (k, old? k)).mapM c.putPending p
      r.state.puts =
          p.puts + ks.countP (fun k => c.passes p.pending k (old? k) && (old? k).isNone) ∧
        r.state.updates =
          p.updates + ks.countP (fun k => c.passes p.pending k (old? k) && (old? k).isSome)
  | [], _, _ => ⟨rfl, rfl⟩
  | k :: ks, p, hnodup => by
    obtain ⟨hk, hnodup⟩ := List.nodup_cons.mp hnodup
    obtain ⟨hputs, hupdates⟩ := c.putPending_counts k (old? k) p
    obtain ⟨ihputs, ihupdates⟩ :=
      putPending_totals c old? ks (c.putPending (k, old? k) p).state hnodup
    -- what is pending for the other keys is not touched
    have hpasses (k' : K) (hk' : k' ∈ ks) :
        c.passes (c.putPending (k, old? k) p).state.pending k' (old? k') =
          c.passes p.pending k' (old? k') := by
      refine c.passes_congr ((c.putPending_apply k (old? k) p).2 k' ?_) _
      rintro rfl
      exact hk hk'
    have hcount (kind : Option (Handle V) → Bool) :
        ks.countP (fun k' => c.passes (c.putPending (k, old? k) p).state.pending k' (old? k') &&
            kind (old? k')) =
          ks.countP (fun k' => c.passes p.pending k' (old? k') && kind (old? k')) :=
      List.countP_congr fun k' hk' => by rw [hpasses k' hk']
    simp only [List.map_cons, List.mapM_cons, Action.bind_apply, Action.pure_apply,
      List.countP_cons]
    constructor
    · rw [ihputs, hputs, hcount Option.isNone]
      omega
    · rw [ihupdates, hupdates, hcount Option.isSome]
      omega

variable {policy : Policy K V} {c : Cache (Memory K V) K V} {s : State (Memory K V)}

omit [BEq V] in
/-- The batch function of a bulk computation is asked once, and what it keeps is what it makes of
that question. -/
theorem bulkCall_kept {τ : Type} (policy : Policy K V) (ks : List K)
    (reply : Mappings K V → Action τ (Event K V) (Except Fault (Mappings K V))) (start : τ)
    (s : State (Memory K V)) :
    (bulkCall ((Store.memory policy).bulkCompute ks) reply start s).answer.2 =
      (reply (s.store.batch ks) start).state := by
  simp only [bulkCall, bulkCompute_run]
  cases (reply (s.store.batch ks) start).answer with
  | error fault => rw [run_settling_error]
  | ok pairs => rw [run_settling_ok]

/-- What a bulk removal counts: the keys that are present. -/
theorem removeAll_counts (hc : c.store = .memory policy) (hs : s.lifecycle.status = .available)
    (ks : List K) :
    (c.serve (.removeAll ks) s).state.bulk =
      s.bulk.addAll [(.removeAll, .ofNat (s.store.present ks).length)] := by
  have hw : (Call.removeAll ks : Call K V).Recomputes := trivial
  obtain ⟨⟨removed, ha⟩, -⟩ := ask_recounts hc hw s
  have hremoved := askKept_ok ha
  rw [hc, bulkCall_kept, batch_of_nodup _ (nodup_eraseDups ks)] at hremoved
  have hlength : removed = (s.store.present ks).length := by
    rw [← hremoved]
    simp [dropAll, present, List.filter_map, Function.comp_def]
  rw [c.serve_of_ok _ hs ha, hlength]
  rfl

/-- What a bulk put counts: the keys whose value the cache lets through, as added if they are
absent and as overwritten if they are present. -/
theorem putAll_tallies (hc : c.store = .memory policy) (hs : s.lifecycle.status = .available)
    (entries : List (K × Handle V)) :
    let passed k := c.passes (.ofList entries) k ((s.store.live? k).map Holder.value)
    (c.serve (.putAll entries) s).state.bulk = s.bulk.addAll
      [(.putAll, .ofNat ((entries.map Prod.fst).eraseDups.countP fun k =>
          passed k && (s.store.live? k).isNone)),
        (.updateAll, .ofNat ((entries.map Prod.fst).eraseDups.countP fun k =>
          passed k && (s.store.live? k).isSome))] := by
  intro passed
  have hw : (Call.putAll entries).Recomputes := trivial
  obtain ⟨⟨progress, ha⟩, -⟩ := ask_recounts hc hw s
  have hprogress := askKept_ok ha
  have hnodup := nodup_eraseDups (entries.map Prod.fst)
  rw [hc, bulkCall_kept, batch_of_nodup _ hnodup] at hprogress
  obtain ⟨hputs, hupdates⟩ := c.putPending_totals (fun k => (s.store.live? k).map Holder.value)
    _ { pending := .ofList entries } hnodup
  simp only [Option.isNone_map, Option.isSome_map, Nat.zero_add] at hputs hupdates
  rw [c.serve_of_ok _ hs ha, ← hputs, ← hupdates, ← hprogress]
  rfl

omit [DecidableEq K] [DecidableEq (Handle V)] [BEq V] in
theorem map_value_value (held? : Option (Holder V)) :
    (held?.map Holder.value).map (·.value) = held?.map (·.value.value) := Option.map_map ..

/-- The store denies a key the new value that `putAll` lets through for it. -/
def Overruled (c : Cache (Memory K V) K V) (policy : Policy K V) (m : Memory K V)
    (entries : List (K × Handle V)) (k : K) : Prop :=
  ∃ v ∈ (KeyMap.ofList entries).get? k,
    let query : LifetimeQuery K V := .ofWrite k ((m.live? k).map (·.value.value)) v.value
    (m.live? k).map Holder.value ≠ some v ∧ ¬ c.expiry.Denies query ∧ policy.Denies query

instance (c : Cache (Memory K V) K V) (policy : Policy K V) (m : Memory K V)
    (entries : List (K × Handle V)) (k : K) : Decidable (c.Overruled policy m entries k) :=
  inferInstanceAs (Decidable (∃ v ∈ (KeyMap.ofList entries).get? k, _))

omit [DecidableEq (Handle V)] [BEq V] in
theorem passes_of_overruled {m : Memory K V} {entries : List (K × Handle V)} {k : K}
    (h : c.Overruled policy m entries k) :
    c.passes (.ofList entries) k ((m.live? k).map Holder.value) = true := by
  obtain ⟨v, hv, -, haccepted, -⟩ := h
  rw [← map_value_value] at haccepted
  rw [passes, Option.mem_def.mp hv, Option.bind_some, accepted?_of_not_denied haccepted]
  rfl

/-- A key of a bulk put is mapped to its value exactly if the cache lets the value through and the
store does not deny it. A key that was absent is mapped to nothing else. -/
theorem putAll_stores (hc : c.store = .memory policy) (hs : s.lifecycle.status = .available)
    {entries : List (K × Handle V)} {k : K} (hk : k ∈ entries.map Prod.fst) :
    let after := (c.serve (.putAll entries) s).state.store.table.get? k
    (after.map Holder.value = (KeyMap.ofList entries).get? k ↔
      c.passes (.ofList entries) k ((s.store.live? k).map Holder.value) = true ∧
        ¬ c.Overruled policy s.store entries k) ∧
    (s.store.live? k = none →
      (after.isSome = true ↔ after.map Holder.value = (KeyMap.ofList entries).get? k)) := by
  intro after
  obtain ⟨v, hv⟩ := Option.isSome_iff_exists.mp ((KeyMap.isSome_get?_ofList entries k).mpr hk)
  have hw : (Call.putAll entries).Recomputes := trivial
  have hafter : after = settled? policy s.store.now k (s.store.live? k)
      (some (c.accepted? k ((s.store.live? k).map Holder.value) v)) := by
    have hentry := (serve_settles hc hw hs).entry k
    rwa [decided, hv] at hentry
  have hpasses : c.passes (.ofList entries) k ((s.store.live? k).map Holder.value) =
      (c.accepted? k ((s.store.live? k).map Holder.value) v).isSome := by
    rw [passes, hv, Option.bind_some]
  rw [hv, hpasses, hafter]
  simp only [Overruled, hv, Option.mem_some_iff, exists_eq_left']
  by_cases hdead : c.expiry.Denies (.ofWrite k ((s.store.live? k).map (·.value.value)) v.value)
  · have hnone : c.accepted? k ((s.store.live? k).map Holder.value) v = none :=
      accepted?_of_denied (map_value_value _ ▸ hdead)
    simp [hnone, settled?]
  · have hsome : c.accepted? k ((s.store.live? k).map Holder.value) v = some v :=
      accepted?_of_not_denied (map_value_value _ ▸ hdead)
    rw [hsome, settled?]
    by_cases hsame : (s.store.live? k).map Holder.value = some v
    · rw [if_pos hsame]
      refine ⟨by simp [hsame], fun hnone => ?_⟩
      rw [hnone] at hsame
      cases hsame
    · rw [if_neg hsame]
      by_cases hdenied :
          policy.Denies (.ofWrite k ((s.store.live? k).map (·.value.value)) v.value)
      · simp [rewritten?_of_denied hdenied, hsame, hdead, hdenied]
      · obtain ⟨held, hheld, hvalue, -⟩ : ∃ held, rewritten? policy s.store.now k
            (s.store.live? k) v = some held ∧ held.value = v ∧ held.created = s.store.now :=
          rewritten?_of_not_denied hdenied
        simp [hheld, hvalue, hdenied]

/-- Of the keys whose value is let through, some are mapped to it, and the others were overruled. -/
theorem countP_passes (hc : c.store = .memory policy) (hs : s.lifecycle.status = .available)
    (entries : List (K × Handle V)) (asked : K → Bool) :
    let r := c.serve (.putAll entries) s
    let keys := (entries.map Prod.fst).eraseDups
    keys.countP (fun k =>
        c.passes (.ofList entries) k ((s.store.live? k).map Holder.value) && asked k) =
      keys.countP (fun k => asked k &&
          (r.state.store.table.get? k).map Holder.value = (KeyMap.ofList entries).get? k) +
        keys.countP fun k => asked k && c.Overruled policy s.store entries k := by
  intro r keys
  rw [List.countP_eq_countP_filter_add _ _ (fun k => decide (c.Overruled policy s.store entries k)),
    Nat.add_comm, List.countP_filter, List.countP_filter]
  congr 1
  · refine List.countP_congr fun k hk => ?_
    have hstored := (putAll_stores hc hs (List.mem_eraseDups.mp hk)).1
    simp only [Bool.and_eq_true, Bool.not_eq_true', decide_eq_true_eq, decide_eq_false_iff_not]
    tauto
  · refine List.countP_congr fun k _ => ?_
    have hpasses : c.Overruled policy s.store entries k →
        c.passes (.ofList entries) k ((s.store.live? k).map Holder.value) = true :=
      passes_of_overruled
    simp only [Bool.and_eq_true, decide_eq_true_eq]
    tauto

/-- **A bulk put counts what the cache let through**, whatever the store then made of it. Among the
distinct keys that were absent it counts as added those that are mapped afterwards, and those whose
value the store denied; among the keys that were present it counts as overwritten those that are
mapped to their new value afterwards, and those whose value the store denied. So it counts what it
stored exactly if the store denied nothing. -/
theorem putAll_counts (hc : c.store = .memory policy) (hs : s.lifecycle.status = .available)
    (entries : List (K × Handle V)) :
    let r := c.serve (.putAll entries) s
    let keys := (entries.map Prod.fst).eraseDups
    let absent k := (s.store.live? k).isNone
    let present k := (s.store.live? k).isSome
    let mapped k := (r.state.store.table.get? k).isSome
    let stored k :=
      (r.state.store.table.get? k).map Holder.value = (KeyMap.ofList entries).get? k
    let overruled k := c.Overruled policy s.store entries k
    r.answer = .ok () ∧
    r.state.bulk.get .putAll = s.bulk.get .putAll +
      .ofNat (keys.countP (fun k => absent k && mapped k) +
        keys.countP fun k => absent k && overruled k) ∧
    r.state.bulk.get .updateAll = s.bulk.get .updateAll +
      .ofNat (keys.countP (fun k => present k && stored k) +
        keys.countP fun k => present k && overruled k) := by
  intro r keys absent present mapped stored overruled
  have hw : (Call.putAll entries).Recomputes := trivial
  obtain ⟨⟨⟨⟩, hanswer⟩, -⟩ := serve_recounts hc hw hs
  -- an absent key is mapped to its value or to nothing
  have hmapped : keys.countP (fun k => absent k && mapped k) =
      keys.countP fun k => absent k && stored k := by
    refine List.countP_congr fun k hk => ?_
    have hnew := (putAll_stores hc hs (List.mem_eraseDups.mp hk)).2
    simp only [Bool.and_eq_true, decide_eq_true_eq, absent, Option.isNone_iff_eq_none]
    exact and_congr_right hnew
  have hbulk : r.state.bulk = _ := putAll_tallies hc hs entries
  rw [countP_passes hc hs entries absent, countP_passes hc hs entries present, ← hmapped] at hbulk
  rw [hbulk]
  exact ⟨hanswer, s.bulk.get_addAll_pair (by decide) _ _⟩

/-- A store that denies the value 0: of two new keys and two old ones one each is counted although
its value was not stored. -/
theorem putAll_counts_overruled :
    let policy : Policy Nat Nat :=
      { creation := fun _ v => .ok (if v = 0 then .zero else .max)
        update := fun _ _ new => .ok (if new = 0 then some .zero else none) }
    let c : Cache (Memory Nat Nat) Nat Nat := { store := .memory policy }
    let s : State (Memory Nat Nat) :=
      { store := { table := .ofList [(1, .eternal ⟨0, 10⟩), (2, .eternal ⟨1, 20⟩)] }
        lifecycle := { status := .available } }
    let entries : List (Nat × Handle Nat) :=
      [(1, ⟨2, 11⟩), (2, ⟨3, 0⟩), (3, ⟨4, 0⟩), (3, ⟨5, 30⟩), (4, ⟨6, 0⟩)]
    let r := c.serve (.putAll entries) s
    s.lifecycle.status = .available ∧ r.answer = .ok () ∧
      [1, 2, 3, 4].map (fun k => (r.state.store.table.get? k).map Holder.value) =
        [some ⟨2, 11⟩, none, some ⟨5, 30⟩, none] ∧
      r.state.bulk.get .putAll = 2 ∧ r.state.bulk.get .updateAll = 2 := by
  intro policy c s entries r
  obtain ⟨hanswer, hputs, hupdates⟩ := putAll_counts (c := c) (s := s) rfl rfl entries
  refine ⟨rfl, hanswer, by decide +kernel, hputs.trans ?_, hupdates.trans ?_⟩
  · decide +kernel
  · decide +kernel

/-- A store that grants every value the empty lifetime: nothing is mapped, and one added mapping is
counted. A single put of the same value is recorded as a no-op. -/
theorem putAll_counts_unstored :
    let c : Cache (Memory Nat String) Nat String := { store := .memory (.timeToLive .zero) }
    let s : State (Memory Nat String) :=
      { store := {}, lifecycle := { status := .available } }
    let all := c.serve (.putAll [(1, ⟨0, "one"⟩)]) s
    let one := c.serve (.put 1 ⟨0, "one"⟩) s
    s.store.live? 1 = none ∧ all.answer = .ok () ∧
      all.state.store.table.get? 1 = none ∧
      all.state.bulk.get .putAll = s.bulk.get .putAll + 1 ∧
      one.state.store.table.get? 1 = none ∧ outcomes one.events = [.put .noop] := by
  intro c s all one
  exact ⟨rfl, rfl, by decide +kernel, by decide +kernel, by decide +kernel, by decide +kernel⟩

end Cache

end ResilientCache
