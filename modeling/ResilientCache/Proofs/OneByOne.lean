import ResilientCache.Proofs.BulkEntries

/-!
# Many keys at once, and one after the other

A bulk write recomputes its keys in one step of the store. Serving the same keys one after the
other does the same, in whatever order: what is done to a key depends on that key alone, and
recomputations of distinct keys add up (`Recounted.cons`).

Single removals are no recomputations. They take out what they find, live or not, and a key that
comes again finds nothing, so of repeated keys only the first one counts.

Headlines:
* `serveEach_puts`, **`putAll_eq_puts`**: a bulk put is single puts of the last values.
* `serveEach_removes`, **`removeAll_eq_removes`**: a bulk removal is single removals, repetitions
  and all.
-/

namespace ResilientCache

open Memory

variable {σ K V : Type} [DecidableEq K] [BEq V]

namespace Cache

/-! ## Calls one after the other -/

/-- Serve calls one after the other. -/
def serveEach (c : Cache σ K V) (calls : List (Call K V)) :
    Action (State σ) (Event K V) Unit := c.play (calls.map .call)

theorem serveEach_cons (c : Cache σ K V) (call : Call K V) (calls : List (Call K V))
    (s : State σ) :
    c.serveEach (call :: calls) s =
      let first := c.serve call s
      let rest := c.serveEach calls first.state
      ⟨(), rest.state, first.events ++ rest.events⟩ := by
  simp [serveEach, play, make, ExceptT.run]

/-- On a cache that is not available nothing comes of any calls. -/
theorem serveEach_refused (c : Cache σ K V) {s : State σ} (hs : s.lifecycle.status ≠ .available) :
    ∀ calls : List (Call K V), c.serveEach calls s = ⟨(), s, []⟩
  | [] => rfl
  | call :: calls => by
    rw [serveEach_cons, c.serve_refused call hs]
    dsimp only
    rw [c.serveEach_refused hs calls]
    rfl

/-- A call leaves a cache available. -/
theorem serve_available (c : Cache σ K V) (call : Call K V) {s : State σ}
    (hs : s.lifecycle.status = .available) :
    (c.serve call s).state.lifecycle.status = .available :=
  (congrArg Lifecycle.status (c.serve_livesBy call s rfl)).trans hs

variable [DecidableEq (Handle V)] {policy : Policy K V} {c : Cache (Memory K V) K V}
  {s s₁ s₂ : State (Memory K V)}

/-! ## Puts -/

omit [BEq V] in
/-- A key that nothing was decided for has the live holder that it had. -/
theorem Settled.live?_eq {decided : K → Option (Option (Handle V))}
    (h : Settled policy decided s s₁) {k : K} (hk : decided k = none) :
    s₁.store.live? k = s.store.live? k := by
  have hentry := h.entry k
  rw [hk] at hentry
  rw [live?, live?, hentry, h.now]

omit [BEq V] in
/-- Recomputations of distinct keys add up. -/
theorem Recounted.cons {k : K} {ks : List K} {decided decided' : K → Option (Option (Handle V))}
    (h : Recounted policy [k] decided s s₁) (h' : Recounted policy ks decided' s₁ s₂)
    (hk : k ∉ ks) (hother : ∀ k', k' ≠ k → decided k' = none) (hfirst : decided' k = none) :
    Recounted policy (k :: ks) (fun k' => if k' = k then decided k else decided' k') s s₂ := by
  have hget (k' : K) (hne : k' ≠ k) : s₁.store.table.get? k' = s.store.table.get? k' := by
    rw [h.entry, hother k' hne]
  have hlive (k' : K) (hne : k' ≠ k) : s₁.store.live? k' = s.store.live? k' :=
    h.live?_eq (hother k' hne)
  refine ⟨⟨h'.now.trans h.now, fun k' => ?_⟩, ?_⟩
  · by_cases hne : k' = k
    · subst hne
      rw [h'.entry, hfirst, if_pos rfl]
      exact h.entry k'
    · rw [h'.entry, if_neg hne, hget k' hne, hlive k' hne, h.now]
  · have hrest : (ks.map fun k' => s₁.store.recount policy k' (decided' k')) =
        ks.map fun k' =>
          s.store.recount policy k' (if k' = k then decided k else decided' k') := by
      refine List.map_congr_left fun k' hk' => ?_
      have hne : k' ≠ k := by
        rintro rfl
        exact hk hk'
      rw [recount, recount, if_neg hne, hget k' hne, hlive k' hne, h.now]
    rw [h'.counts, h.counts, hrest, List.map_cons, List.map_nil, List.sum_singleton, List.map_cons,
      List.sum_cons, if_pos rfl, add_assoc]

omit [BEq V] in
/-- What a recomputation leaves and counts does not depend on the order of its keys. -/
theorem Recounted.agree {ks ks' : List K} {decided : K → Option (Option (Handle V))}
    (h : Recounted policy ks decided s s₁) (h' : Recounted policy ks' decided s s₂)
    (hks : ks.Perm ks') :
    s₁.store.now = s₂.store.now ∧
      (∀ k, s₁.store.table.get? k = s₂.store.table.get? k) ∧
      s₁.store.metrics = s₂.store.metrics := by
  refine ⟨h.now.trans h'.now.symm, fun k => (h.entry k).trans (h'.entry k).symm, ?_⟩
  rw [h.counts, h'.counts, (hks.map _).sum_eq]

/-- Puts of distinct keys, one after the other, recompute these keys as a bulk put decides. -/
theorem serveEach_puts (hc : c.store = .memory policy) :
    ∀ {puts : List (K × Handle V)} {s : State (Memory K V)},
      s.lifecycle.status = .available → (puts.map Prod.fst).Nodup →
      Recounted policy (puts.map Prod.fst)
        (fun k => c.decided (.putAll puts) k ((s.store.live? k).map Holder.value)) s
        (c.serveEach (puts.map fun p => .put p.1 p.2) s).state
  | [], s, _, _ => ⟨⟨rfl, fun _ => rfl⟩, (add_zero s.store.metrics).symm⟩
  | (k, v) :: puts, s, hs, hnodup => by
    obtain ⟨hk, hnodup⟩ := List.nodup_cons.mp hnodup
    have hw : (Call.put k v).Recomputes := trivial
    obtain ⟨-, hfirst⟩ := serve_recounts hc hw hs
    have hrest := serveEach_puts hc (c.serve_available (.put k v) hs) hnodup
    have hnone : (KeyMap.ofList puts).get? k = none := by
      rw [← Option.not_isSome_iff_eq_none, KeyMap.isSome_get?_ofList]
      exact hk
    have hother (k' : K) (hne : k' ≠ k) :
        c.decided (.put k v) k' ((s.store.live? k').map Holder.value) = none := by
      rw [decided, if_neg hne]
    show Recounted policy (k :: puts.map Prod.fst) _ s
      (c.serveEach (.put k v :: puts.map fun p => .put p.1 p.2) s).state
    rw [serveEach_cons]
    convert hfirst.cons hrest hk hother (by rw [decided, hnone]; rfl) using 1
    funext k'
    by_cases hne : k' = k
    · subst hne
      rw [if_pos rfl, decided, decided, if_pos rfl, KeyMap.get?_ofList_cons, hnone, if_pos rfl]
      rfl
    · rw [if_neg hne, hfirst.live?_eq (hother k' hne), decided, decided, KeyMap.get?_ofList_cons,
        if_neg (Ne.symm hne), Option.or_none]

/-- **A bulk put is single puts**: it leaves the same holders and the same metrics as a put of the
last value of each distinct key, in any order of the keys. -/
theorem putAll_eq_puts (hc : c.store = .memory policy) (s : State (Memory K V))
    (entries puts : List (K × Handle V)) (hputs : puts.Perm (KeyMap.ofList entries).pairs) :
    let all := c.serve (.putAll entries) s
    let each := c.serveEach (puts.map fun p => .put p.1 p.2) s
    (s.lifecycle.status = .available → all.answer = .ok ()) ∧
      all.state.store.now = each.state.store.now ∧
      (∀ k, all.state.store.table.get? k = each.state.store.table.get? k) ∧
      all.state.store.metrics = each.state.store.metrics := by
  intro all each
  by_cases hs : s.lifecycle.status = .available
  · have hw : (Call.putAll entries).Recomputes := trivial
    obtain ⟨⟨⟨⟩, hanswer⟩, hall⟩ := serve_recounts hc hw hs
    have hkeys : (puts.map Prod.fst).Perm (KeyMap.ofList entries).keys := hputs.map Prod.fst
    have hnodup : (puts.map Prod.fst).Nodup := hkeys.nodup_iff.mpr (KeyMap.ofList entries).nodup
    have heach := serveEach_puts hc hs hnodup
    have hperm : (Call.putAll entries).keys.Perm (puts.map Prod.fst) := by
      refine (List.perm_ext_iff_of_nodup (nodup_eraseDups _) hnodup).mpr fun k => ?_
      rw [List.mem_eraseDups, hkeys.mem_iff, KeyMap.mem_keys_iff, KeyMap.isSome_get?_ofList]
    have hdecided : c.decided (.putAll puts) = c.decided (.putAll entries) := by
      funext k old?
      rw [decided, decided, KeyMap.get?_ofList_of_perm hputs]
    rw [hdecided] at heach
    exact ⟨fun _ => hanswer, hall.agree heach hperm⟩
  · have hall : all = _ := c.serve_refused (.putAll entries) hs
    have heach : each = _ := c.serveEach_refused hs _
    rw [hall, heach]
    exact ⟨fun h => absurd h hs, rfl, fun _ => rfl, rfl⟩

/-- A value that is put twice, one that the cache denies, the very handle that a key holds and a key
whose mapping has expired: the bulk put counts what the single puts count, in another order. -/
theorem putAll_eq_puts_shuffled :
    let expiry : Policy Nat Nat :=
      { creation := fun _ _ => .ok .max
        update := fun _ _ new => if new = 0 then .error (.text "no lifetime") else .ok none }
    let c : Cache (Memory Nat Nat) Nat Nat :=
      { store := .memory (.timeToLive (.ofMillis 100)), expiry }
    let s : State (Memory Nat Nat) :=
      { store :=
          { table := .ofList [(1, ⟨⟨0, 10⟩, 0, some 100⟩), (2, .eternal ⟨1, 20⟩),
              (3, .eternal ⟨2, 30⟩)]
            now := 100 }
        lifecycle := { status := .available } }
    let entries : List (Nat × Handle Nat) :=
      [(1, ⟨3, 11⟩), (2, ⟨1, 20⟩), (3, ⟨4, 0⟩), (1, ⟨5, 12⟩)]
    let puts : List (Nat × Handle Nat) := [(3, ⟨4, 0⟩), (1, ⟨5, 12⟩), (2, ⟨1, 20⟩)]
    puts.Perm (KeyMap.ofList entries).pairs ∧ (c.serve (.putAll entries) s).answer = .ok () ∧
      [1, 2, 3].map (c.serveEach (puts.map fun p => .put p.1 p.2) s).state.store.table.get? =
        [some ⟨⟨5, 12⟩, 100, some 200⟩, some (.eternal ⟨1, 20⟩), none] ∧
      (c.serveEach (puts.map fun p => .put p.1 p.2) s).state.store.metrics =
        { puts := 1, removes := 1, expirations := 1 } := by
  intro expiry c s entries puts
  have hputs : puts.Perm (KeyMap.ofList entries).pairs := by decide +kernel
  obtain ⟨hanswer, -, hget, hmetrics⟩ := putAll_eq_puts (c := c) rfl s entries puts hputs
  have hall : [1, 2, 3].map (c.serve (.putAll entries) s).state.store.table.get? =
      [some ⟨⟨5, 12⟩, 100, some 200⟩, some (.eternal ⟨1, 20⟩), none] := by decide +kernel
  have hcounted : (c.serve (.putAll entries) s).state.store.metrics =
      { puts := 1, removes := 1, expirations := 1 } := by decide +kernel
  exact ⟨hputs, hanswer rfl, (List.map_congr_left fun k _ => (hget k).symm).trans hall,
    hmetrics.symm.trans hcounted⟩

/-! ## Removals -/

/-- A removal takes its key out, live or not, and counts and records it if it was live. -/
theorem serve_remove (hc : c.store = .memory policy) (hs : s.lifecycle.status = .available)
    (k : K) :
    let r := c.serve (.remove k) s
    r.state.store.now = s.store.now ∧
      (∀ k', r.state.store.table.get? k' = if k = k' then none else s.store.table.get? k') ∧
      r.state.store.metrics.removes =
        s.store.metrics.removes + (if (s.store.live? k).isSome then 1 else 0) ∧
      outcomes r.events =
        [.remove (if (s.store.live? k).isSome then .success else .noop)] := by
  have ha : (c.ask (.remove k) s).answer = .ok (s.store.live? k).isSome := by
    rw [ask, hc]
    rfl
  have hstore : (c.serve (.remove k) s).state.store =
      if (s.store.live? k).isSome then s.store.takeOut k else s.store.drop k := by
    rw [c.serve_of_ok _ hs ha, ask, hc]
    rfl
  refine ⟨serve_now hc hs _, (serve_leaves hc hs (.remove k)).2, ?_, ?_⟩
  · rw [hstore]
    split <;> rfl
  · rw [outcomes_serve c _ hs, ha, outcomes_complete_ok]
    rfl

/-- Removals, one after the other and repeated or not, leave none of their keys mapped, and those
that succeed are as many as there were live keys among theirs. -/
theorem serveEach_removes (hc : c.store = .memory policy) :
    ∀ (ks : List K) {s : State (Memory K V)}, s.lifecycle.status = .available →
      let r := c.serveEach (ks.map .remove) s
      r.state.store.now = s.store.now ∧
      (∀ k, r.state.store.table.get? k = if k ∈ ks then none else s.store.table.get? k) ∧
      r.state.store.metrics.removes =
        s.store.metrics.removes + (s.store.present ks).length ∧
      (outcomes r.events).count (.remove .success) = (s.store.present ks).length
  | [], s, _ => ⟨rfl, fun _ => rfl, rfl, rfl⟩
  | k :: ks, s, hs => by
    obtain ⟨hnow, hget, hremoves, hrecorded⟩ := serve_remove hc hs k
    obtain ⟨hnow', hget', hremoves', hcount⟩ :=
      serveEach_removes hc ks (c.serve_available (.remove k) hs)
    have hlive (k' : K) : (c.serve (.remove k) s).state.store.live? k' =
        if k = k' then none else s.store.live? k' := by
      rw [live?, hget, hnow]
      split <;> rfl
    rw [List.map_cons, serveEach_cons, length_present_cons hlive ks]
    refine ⟨hnow'.trans hnow, fun k' => ?_, ?_, ?_⟩
    · rw [hget', hget]
      by_cases hk : k = k' <;> simp [hk, eq_comm]
    · rw [hremoves', hremoves, Nat.add_assoc]
    · rw [outcomes_append, hrecorded, List.count_append, hcount]
      cases (s.store.live? k).isSome <;> rfl

/-- A bulk removal leaves none of its keys mapped, and counts those that were live. -/
theorem serve_removeAll (hc : c.store = .memory policy) (hs : s.lifecycle.status = .available)
    (ks : List K) :
    let r := c.serve (.removeAll ks) s
    r.answer = .ok () ∧ r.state.store.now = s.store.now ∧
      (∀ k, r.state.store.table.get? k = if k ∈ ks then none else s.store.table.get? k) ∧
      r.state.store.metrics.removes =
        s.store.metrics.removes + (s.store.present ks).length := by
  have hw : (Call.removeAll ks : Call K V).Recomputes := trivial
  obtain ⟨⟨⟨⟩, hanswer⟩, hall⟩ := serve_recounts hc hw hs
  refine ⟨hanswer, hall.now, fun k => ?_, ?_⟩
  · rw [hall.entry, decided]
    by_cases hk : k ∈ ks <;> simp [hk, settled?]
  · have hdropped : (ks.eraseDups.map fun k => s.store.recount policy k
        (c.decided (.removeAll ks) k ((s.store.live? k).map Holder.value))) =
          ks.eraseDups.map fun k => s.store.recount policy k (some none) := by
      refine List.map_congr_left fun k hk => ?_
      rw [decided, if_pos (List.mem_eraseDups.mp hk)]
    have hcounts := congrArg Metrics.removes hall.counts
    rwa [Call.keys, hdropped, Metrics.removes_add, recount_removes] at hcounts

/-- **A bulk removal is single removals**: it leaves the same holders and counts as many removes as
removals of all of its keys, with their repetitions, in any order, and adds to the count of removed
entries as many as there are successes among those. -/
theorem removeAll_eq_removes (hc : c.store = .memory policy) (s : State (Memory K V))
    (ks order : List K) (horder : order.Perm ks) :
    let all := c.serve (.removeAll ks) s
    let each := c.serveEach (order.map .remove) s
    (s.lifecycle.status = .available → all.answer = .ok ()) ∧
      all.state.store.now = each.state.store.now ∧
      (∀ k, all.state.store.table.get? k = each.state.store.table.get? k) ∧
      all.state.store.metrics.removes = each.state.store.metrics.removes ∧
      all.state.bulk.get .removeAll = s.bulk.get .removeAll +
        .ofNat ((outcomes each.events).count (.remove .success)) := by
  intro all each
  by_cases hs : s.lifecycle.status = .available
  · obtain ⟨hanswer, hnow, hget, hremoves⟩ := serve_removeAll hc hs ks
    obtain ⟨hnow', hget', hremoves', hcount⟩ := serveEach_removes hc order hs
    have hpresent : (s.store.present order).length = (s.store.present ks).length := by
      refine ((List.perm_ext_iff_of_nodup (nodup_present ..) (nodup_present ..)).mpr
        fun k => ?_).length_eq
      rw [mem_present, mem_present, horder.mem_iff]
    refine ⟨fun _ => hanswer, hnow.trans hnow'.symm, fun k => ?_, ?_, ?_⟩
    · rw [hget, hget']
      simp only [horder.mem_iff]
    · rw [hremoves, hremoves', hpresent]
    · rw [hcount, hpresent, removeAll_counts hc hs ks]
      simp [BulkCounts.addAll, BulkCounts.get_add]
  · have hall : all = _ := c.serve_refused (.removeAll ks) hs
    have heach : each = _ := c.serveEach_refused hs _
    rw [hall, heach]
    exact ⟨fun h => absurd h hs, rfl, fun _ => rfl, rfl, (UInt64.add_zero _).symm⟩

/-- A live key that comes twice, one whose mapping has expired and one that was never mapped: both
ways one removal is counted, and nothing stays of the three. -/
theorem removeAll_eq_removes_repeated :
    let c : Cache (Memory Nat Nat) Nat Nat := { store := .memory .eternal }
    let s : State (Memory Nat Nat) :=
      { store :=
          { table := .ofList [(1, .eternal ⟨0, 10⟩), (2, ⟨⟨1, 20⟩, 0, some 100⟩),
              (4, .eternal ⟨2, 40⟩)]
            now := 100 }
        lifecycle := { status := .available } }
    let ks := [1, 2, 1, 3]
    let order := [3, 1, 2, 1]
    order.Perm ks ∧ (c.serve (.removeAll ks) s).answer = .ok () ∧
      [1, 2, 3, 4].map (c.serve (.removeAll ks) s).state.store.table.get? =
        [none, none, none, some (.eternal ⟨2, 40⟩)] ∧
      (c.serve (.removeAll ks) s).state.store.metrics.removes = 1 ∧
      outcomes (c.serveEach (order.map .remove) s).events =
        [.remove .noop, .remove .success, .remove .noop, .remove .noop] ∧
      (c.serve (.removeAll ks) s).state.bulk.get .removeAll = 1 := by
  intro c s ks order
  have horder : order.Perm ks := by decide
  obtain ⟨hanswer, -, hget, hremoves, hentries⟩ :=
    removeAll_eq_removes (c := c) rfl s ks order horder
  have heach : [1, 2, 3, 4].map (c.serveEach (order.map .remove) s).state.store.table.get? =
      [none, none, none, some (.eternal ⟨2, 40⟩)] := by decide +kernel
  have hremoved : (c.serveEach (order.map .remove) s).state.store.metrics.removes = 1 := by
    decide +kernel
  have hrecorded : outcomes (c.serveEach (order.map .remove) s).events =
      [.remove .noop, .remove .success, .remove .noop, .remove .noop] := by decide +kernel
  refine ⟨horder, hanswer rfl, (List.map_congr_left fun k _ => hget k).trans heach,
    hremoves.trans hremoved, hrecorded, hentries.trans ?_⟩
  rw [hrecorded]
  decide +kernel

end Cache

end ResilientCache
