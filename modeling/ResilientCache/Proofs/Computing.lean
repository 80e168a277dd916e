import ResilientCache.Proofs.Settling

/-!
# What a bulk computation comes to

A bulk computation of the store in memory runs over its keys three times: to collect the batch that
its function is asked with, to settle what the function answered, and to list what the keys hold in
the end. Keys may come repeatedly in the request, and both repeatedly and unasked for in the answer.

Every requested key is settled once, by the last pair that the answer has for it (`last?`), so no key
sees what was decided for another. This fixes what the keys hold (`Recomputed`) and also which
questions the policy is asked, in which order (`events_forM`). Pairs for keys that were not requested
are never looked at (`settling_requested`).

Headline: **`bulkCompute_pointwise`**, what a bulk computation asks, answers, leaves and tells.
-/

namespace ResilientCache

variable {τ ε' K V : Type}

/-- What a policy tells when a store asks it a question: a failure is logged. -/
def Policy.tells (p : Policy K V) (q : LifetimeQuery K V) : List (Note K V) :=
  .asked .store q :: match p.answer q with
    | .ok _ => []
    | .error fault => [.logged (.expiryFailed fault)]

theorem Policy.lifetime_events {σ : Type} (p : Policy K V) (q : LifetimeQuery K V) (s : σ) :
    (p.lifetime .store q s).events = p.tells q := by
  simp only [lifetime, tells, Action.bind_apply, Action.tell_apply]
  cases p.answer q <;> rfl

namespace Memory

/-! ## The answer of a batch function -/

variable [DecidableEq K]

/-- What the last of the pairs for a key says, if there is one. -/
def last? (pairs : Mappings K V) (k : K) : Option (Option (Handle V)) :=
  (pairs.reverse.find? fun p => p.1 = k).map Prod.snd

/-- The last pair for a key is the one that the map of the pairs has. -/
theorem get?_ofList_last (pairs : Mappings K V) (k : K) :
    (KeyMap.ofList pairs).get? k = last? pairs k :=
  KeyMap.get?_ofList pairs k

theorem isSome_last? (pairs : Mappings K V) (k : K) :
    (last? pairs k).isSome = true ↔ k ∈ pairs.map Prod.fst := by
  rw [← get?_ofList_last, KeyMap.isSome_get?_ofList]

theorem mem_of_last? {pairs : Mappings K V} {k : K} {v? : Option (Handle V)}
    (h : last? pairs k = some v?) : (k, v?) ∈ pairs := by
  rw [← get?_ofList_last] at h
  exact KeyMap.mem_of_get?_ofList h

theorem last?_append (before after : Mappings K V) (k : K) :
    last? (before ++ after) k = (last? after k).or (last? before k) := by
  rw [last?, List.reverse_append, List.find?_append, Option.map_or]
  rfl

/-- Dropping pairs for other keys does not change which one is the last for a key. -/
theorem last?_filter (asked : K → Bool) {k : K} (hk : asked k = true) (pairs : Mappings K V) :
    last? (pairs.filter fun p => asked p.1) k = last? pairs k := by
  unfold last?
  rw [← List.filter_reverse, List.find?_filter]
  congr 2
  funext p
  by_cases hp : p.1 = k
  · simp [hp, hk]
  · simp [hp]

/-! ## Key by key -/

/-- What acting on distinct keys one after the other tells, if each tells by what its key holds. -/
theorem events_forM {each : K → Action (Memory K V) (Note K V) Unit}
    {after : Instant → K → Option (Holder V) → Option (Holder V)} (h : ActsByKey each after)
    (tells : K → Option (Holder V) → List (Note K V))
    (htells : ∀ k m, (each k m).events = tells k (m.table.get? k)) {ks : List K}
    (hnodup : ks.Nodup) (m : Memory K V) :
    (ks.forM each m).events = ks.flatMap fun k => tells k (m.table.get? k) := by
  induction ks generalizing m with
  | nil => rfl
  | cons k ks ih =>
    obtain ⟨hk, hnodup⟩ := List.nodup_cons.mp hnodup
    have hrest : (ks.flatMap fun k' => tells k' ((each k m).state.table.get? k')) =
        ks.flatMap fun k' => tells k' (m.table.get? k') := by
      refine List.flatMap_congr fun k' hk' => ?_
      rw [(h k m).2, if_neg fun heq : k = k' => hk (heq ▸ hk')]
    rw [List.flatMap_cons, ← hrest, ← htells, ← ih hnodup]
    rfl

variable [DecidableEq (Handle V)]

/-- The question that is put to the policy to settle a key that held something. -/
def query? (k : K) (held? : Option (Holder V)) :
    Option (Option (Handle V)) → Option (LifetimeQuery K V)
  | some (some v) =>
    if held?.map Holder.value = some v then none
    else some (.ofWrite k (held?.map (·.value.value)) v.value)
  | _ => none

omit [DecidableEq (Handle V)] in
/-- A write tells what the policy tells when it is asked. -/
theorem write_events (policy : Policy K V) (k : K) (v : Handle V) (m : Memory K V) :
    (write policy k v m).events =
      policy.tells (.ofWrite k ((m.table.get? k).map (·.value.value)) v.value) := by
  simp only [write, Action.bind_apply, Action.read_apply, Policy.lifetime_answer,
    Policy.lifetime_state, Policy.lifetime_events, List.nil_append]
  cases holderFor (m.table.get? k) v m.now
    (policy.granted (.ofWrite k ((m.table.get? k).map (·.value.value)) v.value)) <;>
    simp

theorem settle_events (policy : Policy K V) (decided : KeyMap K (Option (Handle V))) (k : K)
    (m : Memory K V) :
    (settle policy decided k m).events =
      (query? k (m.table.get? k) (decided.get? k)).toList.flatMap policy.tells := by
  rcases hd : decided.get? k with _ | _ | v
  · simp only [settle, hd]
    rfl
  · simp only [settle, hd]
    rfl
  · rw [settle_of_value policy hd, query?]
    by_cases hv : m.value? k = some v
    · rw [if_pos hv, if_pos (show (m.table.get? k).map Holder.value = some v from hv)]
      rfl
    · rw [if_neg hv, if_neg (show (m.table.get? k).map Holder.value ≠ some v from hv)]
      simp [write_events]

/-- Settling a key looks at what was decided for it, and at no other decision. -/
theorem settle_congr (policy : Policy K V) {decided decided' : KeyMap K (Option (Handle V))} {k : K}
    (h : decided.get? k = decided'.get? k) : settle policy decided k = settle policy decided' k := by
  simp only [settle, h]

omit [DecidableEq (Handle V)] in
theorem settleAll_congr {each each' : K → Action (Memory K V) (Note K V) Unit} {ks : List K}
    (h : ∀ k ∈ ks, each k = each' k) (requested : List K) :
    settleAll each ks requested = settleAll each' ks requested := by
  have hforM : ks.forM each = ks.forM each' := by
    induction ks with
    | nil => rfl
    | cons k ks ih =>
      obtain ⟨hk, hks⟩ := List.forall_mem_cons.mp h
      show (each k >>= fun _ => ks.forM each) = (each' k >>= fun _ => ks.forM each')
      rw [hk, ih hks]
  rw [settleAll, settleAll, hforM]

/-! ## Bulk computations -/

/-- The pairs for requested keys. -/
def requested (ks : List K) (pairs : Mappings K V) : Mappings K V :=
  pairs.filter fun p => p.1 ∈ ks

/-- What a bulk computation leaves of a store, by the last pairs that its function answered. -/
structure Recomputed (policy : Policy K V) (m : Memory K V) (ks : List K) (pairs : Mappings K V)
    (m' : Memory K V) : Prop where
  now : m'.now = m.now
  /-- Keys that were not requested are left alone. -/
  unrequested : ∀ k, k ∉ ks → m'.table.get? k = m.table.get? k
  /-- A key without a pair keeps its live mapping. -/
  kept : ∀ k ∈ ks, last? pairs k = none → m'.table.get? k = m.live? k
  removed : ∀ k ∈ ks, last? pairs k = some none → m'.table.get? k = none
  /-- A key that is answered the very handle that it holds keeps its holder. -/
  untouched : ∀ k ∈ ks, ∀ held, m.live? k = some held → last? pairs k = some (some held.value) →
    m'.table.get? k = some held
  /-- Any other value is held from now on for the time that the policy grants; a policy that fails,
  or grants no time, removes the key. -/
  rewritten : ∀ k ∈ ks, ∀ v, last? pairs k = some (some v) →
    (m.live? k).map Holder.value ≠ some v →
    m'.table.get? k =
      match policy.answer (.ofWrite k ((m.live? k).map (·.value.value)) v.value) with
      | .error _ => none
      | .ok none => some ⟨v, m.now, (m.live? k).bind Holder.expires⟩
      | .ok (some ttl) => if ttl = .zero then none else some ⟨v, m.now, m.now.deadline ttl⟩

omit [DecidableEq K] [DecidableEq (Handle V)] in
theorem rewritten?_eq (policy : Policy K V) (now : Instant) (k : K) (held? : Option (Holder V))
    (v : Handle V) :
    rewritten? policy now k held? v =
      match policy.answer (.ofWrite k (held?.map (·.value.value)) v.value) with
      | .error _ => none
      | .ok none => some ⟨v, now, held?.bind Holder.expires⟩
      | .ok (some ttl) => if ttl = .zero then none else some ⟨v, now, now.deadline ttl⟩ := by
  unfold rewritten? Policy.granted
  generalize policy.answer _ = answer
  rcases answer with fault | _ | ttl
  · simp [holderFor]
  · rfl
  · rfl

/-- A store is recomputed if every requested key is settled by the last pair for it. -/
theorem Recomputed.of_settled {policy : Policy K V} {m m' : Memory K V} {ks : List K}
    {pairs : Mappings K V} (hnow : m'.now = m.now)
    (hget : ∀ k, m'.table.get? k =
      if k ∈ ks then settled? policy m.now k (m.live? k) (last? pairs k) else m.table.get? k) :
    Recomputed policy m ks pairs m' where
  now := hnow
  unrequested k hk := by rw [hget, if_neg hk]
  kept k hk hlast := by
    rw [hget, if_pos hk, hlast]
    rfl
  removed k hk hlast := by
    rw [hget, if_pos hk, hlast]
    rfl
  untouched k hk held hlive hlast := by
    rw [hget, if_pos hk, hlast, hlive]
    exact if_pos rfl
  rewritten k hk v hlast hother := by
    rw [hget, if_pos hk, hlast, ← rewritten?_eq]
    exact if_neg hother

section

variable (policy : Policy K V) (event : Note K V → ε') (ks : List K) (m : Memory K V) (t : τ)

/-- The distinct requested keys are settled by the last pairs for them. -/
theorem settleAll_recomputed (pairs : Mappings K V) :
    let r := settleAll (settle policy (.ofList pairs)) ks.eraseDups ks (m.purgeAll ks)
    r.answer = .ok (ks.map fun k => (k, r.state.table.get? k)) ∧
      r.events = (ks.eraseDups.filterMap fun k =>
        query? k (m.live? k) (last? pairs k)).flatMap policy.tells ∧
      Recomputed policy m ks pairs r.state := by
  intro r
  have hbyKey := settle_byKey policy (KeyMap.ofList pairs)
  obtain ⟨ha, hnow, hget⟩ := settleAll_byKey hbyKey (nodup_eraseDups ks) ks (m.purgeAll ks)
  refine ⟨ha, ?_, .of_settled (hnow.trans (purgeAll_now ks m)) fun k => (hget k).trans ?_⟩
  · have hevents : r.events = (ks.eraseDups.forM (settle policy (.ofList pairs))
        (m.purgeAll ks)).events := List.append_nil _
    rw [hevents, events_forM hbyKey
        (fun k held? => (query? k held? ((KeyMap.ofList pairs).get? k)).toList.flatMap policy.tells)
        (settle_events policy (.ofList pairs)) (nodup_eraseDups ks),
      List.filterMap_eq_flatMap_toList, List.flatMap_assoc]
    refine List.flatMap_congr fun k hk => ?_
    rw [get?_purgeAll, if_pos (List.mem_eraseDups.mp hk), get?_ofList_last]
  · rw [get?_purgeAll, purgeAll_now, get?_ofList_last]
    by_cases hk : k ∈ ks <;> simp [hk]

/-- Pairs for keys that were not requested are not looked at. -/
theorem settling_requested {Q : Type} (reply reply' : Q → Action τ ε' (Except Fault (Mappings K V)))
    (answer : Except Fault (Mappings K V)) :
    (settling (settle policy) ks.eraseDups ks m (answer.map (requested ks))).run event reply' t =
      (settling (settle policy) ks.eraseDups ks m answer).run event reply t := by
  cases answer with
  | error fault => rfl
  | ok pairs =>
    have hsame : settleAll (settle policy (.ofList (requested ks pairs))) ks.eraseDups ks =
        settleAll (settle policy (.ofList pairs)) ks.eraseDups ks := by
      refine settleAll_congr (fun k hk => settle_congr policy ?_) ks
      rw [get?_ofList_last, get?_ofList_last]
      exact last?_filter (fun k => k ∈ ks) (decide_eq_true (List.mem_eraseDups.mp hk)) pairs
    rw [Except.map, run_settling_ok, run_settling_ok, hsame]

end

/-- **A bulk computation acts pointwise.** Its function is asked once, with the distinct requested
keys in the order of their first places, each with its live value. If it fails, the computation fails
with its error, and no live mapping has changed. If it answers with pairs, the last pair for each
requested key decides what becomes of the key (`Recomputed`); the policy is asked about the keys that
are given another value than they have, and about no others; and every requested place is answered
with what its key holds in the end. Pairs for keys that were not requested have no effect. -/
theorem bulkCompute_pointwise (policy : Policy K V) (event : Note K V → ε') (ks : List K)
    (m : Memory K V) (reply : Mappings K V → Action τ ε' (Except Fault (Mappings K V))) (t : τ) :
    let asked := reply (ks.eraseDups.map fun k => (k, (m.live? k).map Holder.value)) t
    let r := ((Store.memory policy).bulkCompute ks m).run event reply t
    match asked.answer with
    | .error fault => ∃ m',
        r = ⟨(.error (.function fault), m'), asked.state, asked.events⟩ ∧ m'.now = m.now ∧
          ∀ k, m'.live? k = m.live? k
    | .ok pairs =>
      let questions := ks.eraseDups.filterMap fun k => query? k (m.live? k) (last? pairs k)
      (∃ m',
        r = ⟨(.ok (ks.map fun k => (k, m'.table.get? k)), m'), asked.state,
          asked.events ++ (questions.flatMap policy.tells).map event⟩ ∧
          Recomputed policy m ks pairs m') ∧
        r = ((Store.memory policy).bulkCompute ks m).run event
          (fun batch => Except.map (requested ks) <$> reply batch) t := by
  intro asked r
  have hasked : reply (m.batch ks) t = asked := rfl
  have hrun := bulkCompute_run policy event ks m reply t
  rw [hasked] at hrun
  cases hanswer : asked.answer with
  | error fault =>
    refine ⟨m.purgeAll ks, hrun.trans ?_, purgeAll_now ks m, live?_purgeAll ks m⟩
    simp only [hanswer, run_settling_error, List.append_nil]
  | ok pairs =>
    obtain ⟨ha, hevents, hrecomputed⟩ := settleAll_recomputed policy ks m pairs
    refine ⟨⟨_, hrun.trans ?_, hrecomputed⟩, hrun.trans ?_⟩
    · simp only [hanswer, run_settling_ok, ha, hevents]
    · have hsame := settling_requested policy event ks (m.purgeAll ks) asked.state reply
        (fun batch => Except.map (requested ks) <$> reply batch) asked.answer
      rw [bulkCompute_run]
      simp only [Action.map_apply, hasked, hsame]

end Memory

end ResilientCache
