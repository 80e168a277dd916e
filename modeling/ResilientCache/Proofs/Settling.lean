import ResilientCache.Proofs.Memory

/-!
# What a bulk primitive leaves of every key

A bulk primitive of the store in memory treats its keys one after the other, and each of them by
itself: what a key holds afterwards depends on what it held, on what was decided for it, and on the
policy, and on nothing about the other keys (`ActsByKey`). `rewritten?` is what a write leaves of a
key, `settled?` what a bulk computation leaves of it, `loaded?` what a bulk load leaves of it.

The policy is any function of its arguments; one that fails, or grants the empty lifetime, denies
the value (`Policy.Denies`), and the key then holds nothing.

Headlines:
* `get?_forM`: acting on distinct keys one after the other acts on each of them.
* **`bulkCompute_settles`**, **`bulkComputeIfAbsent_loads`**: what the bulk primitives ask, answer
  and leave of every key.
-/

namespace ResilientCache

variable {τ ε' K V : Type}

/-! ## Denied values -/

/-- A policy grants a value no time: its answer is the empty lifetime, or it fails. -/
def Policy.Denies (p : Policy K V) (q : LifetimeQuery K V) : Prop :=
  p.answer q = .ok (some .zero) ∨ ∃ fault, p.answer q = .error fault

theorem Policy.denies_iff {p : Policy K V} {q : LifetimeQuery K V} :
    p.Denies q ↔ p.granted q = some .zero := by
  unfold Policy.Denies Policy.granted
  cases p.answer q <;> simp

instance (p : Policy K V) (q : LifetimeQuery K V) : Decidable (p.Denies q) :=
  decidable_of_iff _ Policy.denies_iff.symm

namespace Memory

/-- What a write of a value leaves of a key that held something. -/
def rewritten? (policy : Policy K V) (now : Instant) (k : K) (held? : Option (Holder V))
    (v : Handle V) : Option (Holder V) :=
  holderFor held? v now (policy.granted (.ofWrite k (held?.map (·.value.value)) v.value))

theorem rewritten?_of_denied {policy : Policy K V} {now : Instant} {k : K}
    {held? : Option (Holder V)} {v : Handle V}
    (h : policy.Denies (.ofWrite k (held?.map (·.value.value)) v.value)) :
    rewritten? policy now k held? v = none := by
  rw [rewritten?, Policy.denies_iff.mp h]
  rfl

/-- A value that is not denied is held from now on. -/
theorem rewritten?_of_not_denied {policy : Policy K V} {now : Instant} {k : K}
    {held? : Option (Holder V)} {v : Handle V}
    (h : ¬ policy.Denies (.ofWrite k (held?.map (·.value.value)) v.value)) :
    ∃ held, rewritten? policy now k held? v = some held ∧ held.value = v ∧ held.created = now := by
  rw [Policy.denies_iff] at h
  unfold rewritten?
  cases hg : policy.granted (.ofWrite k (held?.map (·.value.value)) v.value) with
  | none => exact ⟨_, rfl, rfl, rfl⟩
  | some ttl =>
    have hne : ttl ≠ .zero := by
      rintro rfl
      exact h hg
    exact ⟨_, if_neg hne, rfl, rfl⟩

/-- What a bulk computation leaves of a key, by what was decided for it. -/
def settled? [DecidableEq (Handle V)] (policy : Policy K V) (now : Instant) (k : K)
    (held? : Option (Holder V)) : Option (Option (Handle V)) → Option (Holder V)
  | none => held?
  | some none => none
  | some (some v) =>
    if held?.map Holder.value = some v then held? else rewritten? policy now k held? v

/-- What a bulk load leaves of a key, by what was loaded for it. -/
def loaded? (policy : Policy K V) (now : Instant) (k : K) (held? : Option (Holder V)) :
    Option (Option (Handle V)) → Option (Holder V)
  | some (some v) => rewritten? policy now k held? v
  | _ => held?

variable [DecidableEq K]

/-! ## Key by key -/

/-- An action on a key leaves the clock and the other keys alone, and of the key what `after`
says. -/
def ActsByKey (each : K → Action (Memory K V) (Note K V) Unit)
    (after : Instant → K → Option (Holder V) → Option (Holder V)) : Prop :=
  ∀ k m, (each k m).state.now = m.now ∧
    ∀ k', (each k m).state.table.get? k' =
      if k = k' then after m.now k (m.table.get? k) else m.table.get? k'

/-- Acting on distinct keys one after the other acts on each of them. -/
theorem get?_forM {each : K → Action (Memory K V) (Note K V) Unit}
    {after : Instant → K → Option (Holder V) → Option (Holder V)} (h : ActsByKey each after)
    {ks : List K} (hnodup : ks.Nodup) (m : Memory K V) :
    (ks.forM each m).state.now = m.now ∧
      ∀ k, (ks.forM each m).state.table.get? k =
        if k ∈ ks then after m.now k (m.table.get? k) else m.table.get? k := by
  induction ks generalizing m with
  | nil => exact ⟨rfl, fun _ => rfl⟩
  | cons k' ks ih =>
    obtain ⟨hk', hnodup⟩ := List.nodup_cons.mp hnodup
    obtain ⟨hnow, hget⟩ := h k' m
    obtain ⟨hnow', hget'⟩ := ih hnodup (each k' m).state
    refine ⟨hnow'.trans hnow, fun k => (hget' k).trans ?_⟩
    rw [hnow, hget]
    -- the first key does not come again, so what it was left as stays
    by_cases hk : k' = k
    · subst hk
      simp [hk']
    · simp [hk, Ne.symm hk]

/-- A write installs what it leaves of its key, or drops the key. -/
theorem write_state (policy : Policy K V) (k : K) (v : Handle V) (m : Memory K V) :
    (write policy k v m).state =
      match rewritten? policy m.now k (m.table.get? k) v with
      | some h => m.install k h
      | none => m.drop k := by
  simp only [write, rewritten?, Action.bind_apply, Action.read_apply, Policy.lifetime_answer,
    Policy.lifetime_state]
  cases holderFor (m.table.get? k) v m.now
    (policy.granted (.ofWrite k ((m.table.get? k).map (·.value.value)) v.value)) <;> rfl

/-- It answers which of the two it did. -/
theorem write_answer (policy : Policy K V) (k : K) (v : Handle V) (m : Memory K V) :
    (write policy k v m).answer =
      if (rewritten? policy m.now k (m.table.get? k) v).isSome then .put else .noop := by
  cases hw : rewritten? policy m.now k (m.table.get? k) v <;> rw [rewritten?] at hw <;>
    simp [write, hw]

theorem write_byKey (policy : Policy K V) (k : K) (v : Handle V) (m : Memory K V) :
    (write policy k v m).state.now = m.now ∧
      ∀ k', (write policy k v m).state.table.get? k' =
        if k = k' then rewritten? policy m.now k (m.table.get? k) v else m.table.get? k' := by
  rw [write_state]
  cases rewritten? policy m.now k (m.table.get? k) v with
  | none => exact ⟨rfl, fun k' => KeyMap.get?_erase ..⟩
  | some h => exact ⟨rfl, fun k' => KeyMap.get?_insert ..⟩

/-- A key may be said to hold what it holds. -/
theorem get?_eq_ite {m : Memory K V} {k : K} {held? : Option (Holder V)}
    (h : held? = m.table.get? k) (k' : K) :
    m.table.get? k' = if k = k' then held? else m.table.get? k' := by
  by_cases hk : k = k'
  · rw [if_pos hk, h, hk]
  · rw [if_neg hk]

/-- A bulk load writes what was loaded for a key. -/
theorem load_byKey (policy : Policy K V) (loaded : KeyMap K (Option (Handle V))) :
    ActsByKey (load policy loaded)
      fun now k held? => loaded? policy now k held? (loaded.get? k) := by
  intro k m
  unfold load
  dsimp only
  rcases loaded.get? k with _ | _ | v
  · exact ⟨rfl, get?_eq_ite rfl⟩
  · exact ⟨rfl, get?_eq_ite rfl⟩
  · dsimp only
    rw [Action.discard_apply]
    exact write_byKey policy k v m

/-- A bulk computation brings a key to what was decided for it. -/
theorem settle_byKey [DecidableEq (Handle V)] (policy : Policy K V)
    (decided : KeyMap K (Option (Handle V))) :
    ActsByKey (settle policy decided)
      fun now k held? => settled? policy now k held? (decided.get? k) := by
  intro k m
  dsimp only
  rcases hd : decided.get? k with _ | _ | v
  · simp only [settle, hd]
    exact ⟨rfl, get?_eq_ite rfl⟩
  · simp only [settle, hd, Action.change_apply]
    cases hc : m.table.contains k with
    | true => exact ⟨rfl, fun k' => KeyMap.get?_erase ..⟩
    | false =>
      rw [KeyMap.contains, Option.isSome_eq_false_iff, Option.isNone_iff_eq_none] at hc
      exact ⟨rfl, get?_eq_ite hc.symm⟩
  · rw [settle_of_value policy hd, settled?]
    by_cases hv : m.value? k = some v
    · rw [if_pos hv, if_pos (show (m.table.get? k).map Holder.value = some v from hv)]
      exact ⟨rfl, get?_eq_ite rfl⟩
    · rw [if_neg hv, if_neg (show (m.table.get? k).map Holder.value ≠ some v from hv)]
      exact write_byKey policy k v m

/-! ## Absent keys and present ones -/

/-- Those of some keys that have no live mapping, each once, in the order of their first places. -/
def absent (m : Memory K V) (ks : List K) : List K :=
  ks.eraseDups.filter fun k => (m.live? k).isNone

theorem mem_absent {m : Memory K V} {ks : List K} {k : K} :
    k ∈ m.absent ks ↔ k ∈ ks ∧ m.live? k = none := by
  simp [absent]

theorem nodup_absent (m : Memory K V) (ks : List K) : (m.absent ks).Nodup :=
  (nodup_eraseDups ks).filter _

/-- Those of some keys that have a live mapping, each once, in the order of their first places. -/
def present (m : Memory K V) (ks : List K) : List K :=
  ks.eraseDups.filter fun k => (m.live? k).isSome

theorem mem_present {m : Memory K V} {ks : List K} {k : K} :
    k ∈ m.present ks ↔ k ∈ ks ∧ (m.live? k).isSome := by
  simp [present]

theorem nodup_present (m : Memory K V) (ks : List K) : (m.present ks).Nodup :=
  (nodup_eraseDups ks).filter _

/-- A key that is taken out was present once, and is not present any more. -/
theorem length_present_cons {m m' : Memory K V} {k : K}
    (h : ∀ k', m'.live? k' = if k = k' then none else m.live? k') (ks : List K) :
    (m.present (k :: ks)).length =
      (if (m.live? k).isSome then 1 else 0) + (m'.present ks).length := by
  have hlater (k' : K) : k' ∈ m'.present ks ↔ k' ≠ k ∧ k' ∈ ks ∧ (m.live? k').isSome := by
    rw [mem_present, h]
    by_cases hk : k = k' <;> simp [hk, Ne.symm]
  by_cases hlive : (m.live? k).isSome
  · have hperm : (m.present (k :: ks)).Perm (k :: m'.present ks) := by
      have hnodup : (k :: m'.present ks).Nodup :=
        List.nodup_cons.mpr ⟨fun hk => ((hlater k).mp hk).1 rfl, nodup_present ..⟩
      refine (List.perm_ext_iff_of_nodup (nodup_present ..) hnodup).mpr fun k' => ?_
      rw [mem_present, List.mem_cons, List.mem_cons, hlater]
      by_cases hk : k' = k
      · subst hk
        simp [hlive]
      · simp [hk]
    rw [hperm.length_eq, if_pos hlive, List.length_cons, Nat.add_comm]
  · have hperm : (m.present (k :: ks)).Perm (m'.present ks) := by
      refine (List.perm_ext_iff_of_nodup (nodup_present ..) (nodup_present ..)).mpr fun k' => ?_
      rw [mem_present, List.mem_cons, hlater]
      by_cases hk : k' = k
      · subst hk
        simp [hlive]
      · simp [hk]
    rw [hperm.length_eq, if_neg hlive, Nat.zero_add]

/-- A live holder is held. -/
theorem get?_of_live? {m : Memory K V} {k : K} {h : Holder V} (hk : m.live? k = some h) :
    m.table.get? k = some h :=
  (Option.filter_eq_some_iff.mp hk).1

/-- What a purge of some keys leaves without a mapping is what had no live one. -/
theorem missing_purgeAll (m : Memory K V) (ks : List K) :
    (m.purgeAll ks).table.missing ks = m.absent ks := by
  refine List.filter_congr fun k hk => ?_
  rw [KeyMap.contains, get?_purgeAll, if_pos (List.mem_eraseDups.mp hk)]
  cases m.live? k <;> rfl

/-- A purge of some keys drops those that are absent, and keeps the others as they are. -/
theorem get?_purgeAll_absent (m : Memory K V) (ks : List K) (k : K) :
    (m.purgeAll ks).table.get? k = if k ∈ m.absent ks then none else m.table.get? k := by
  rw [get?_purgeAll]
  by_cases hk : k ∈ ks
  · rw [if_pos hk]
    cases hl : m.live? k with
    | none => rw [if_pos (mem_absent.mpr ⟨hk, hl⟩)]
    | some h =>
      have hne : k ∉ m.absent ks := by
        intro ha
        cases hl.symm.trans (mem_absent.mp ha).2
      rw [if_neg hne, get?_of_live? hl]
  · have hne : k ∉ m.absent ks := fun ha => hk (mem_absent.mp ha).1
    rw [if_neg hk, if_neg hne]

/-- What a bulk computation asks: every requested key once, with its live value. -/
def batch (m : Memory K V) (ks : List K) : Mappings K V :=
  ks.eraseDups.map fun k => (k, (m.live? k).map Holder.value)

/-- A request without repeated keys asks for each of them. -/
theorem batch_of_nodup (m : Memory K V) {ks : List K} (h : ks.Nodup) :
    m.batch ks = ks.map fun k => (k, (m.live? k).map Holder.value) := by
  rw [batch, eraseDups_of_nodup h]

theorem batch_purgeAll (m : Memory K V) (ks : List K) :
    (ks.eraseDups.map fun k => (k, (m.purgeAll ks).value? k)) = m.batch ks := by
  refine List.map_congr_left fun k hk => ?_
  rw [value?, get?_purgeAll, if_pos (List.mem_eraseDups.mp hk)]

/-! ## Bulk primitives -/

section

variable [DecidableEq (Handle V)] (policy : Policy K V) (event : Note K V → ε') {ks : List K}
  {m : Memory K V} {t : τ} {pairs : Mappings K V}

omit [DecidableEq (Handle V)] in
/-- The end of a bulk primitive lists what it leaves of the requested keys. -/
theorem settleAll_byKey {each : K → Action (Memory K V) (Note K V) Unit}
    {after : Instant → K → Option (Holder V) → Option (Holder V)} (h : ActsByKey each after)
    {settled : List K} (hnodup : settled.Nodup) (requested : List K) (m : Memory K V) :
    let r := settleAll each settled requested m
    r.answer = .ok (r.state.computed requested) ∧ r.state.now = m.now ∧
      ∀ k, r.state.table.get? k =
        if k ∈ settled then after m.now k (m.table.get? k) else m.table.get? k :=
  ⟨rfl, get?_forM h hnodup m⟩

/-- A bulk computation asks once, with every requested key and its live value, and settles its keys
by the answer. -/
theorem bulkCompute_run (ks : List K) (m : Memory K V)
    (reply : Mappings K V → Action τ ε' (Except Fault (Mappings K V))) (t : τ) :
    ((Store.memory policy).bulkCompute ks m).run event reply t =
      let asked := reply (m.batch ks) t
      let r := (settling (settle policy) ks.eraseDups ks (m.purgeAll ks) asked.answer).run event reply
        asked.state
      ⟨r.answer, r.state, asked.events ++ r.events⟩ := by
  rw [bulkCompute_eq, batch_purgeAll, Dialogue.run_ask]

/-- A bulk computation leaves of each requested key what was decided for it. -/
theorem bulkCompute_settles (reply : Mappings K V → Action τ ε' (Except Fault (Mappings K V)))
    (hr : (reply (ks.eraseDups.map fun k => (k, (m.live? k).map Holder.value)) t).answer =
      .ok pairs) :
    ∃ (m' : Memory K V) (notes : List (Note K V)),
      ((Store.memory policy).bulkCompute ks m).run event reply t =
        ⟨(.ok (m'.computed ks), m'),
          (reply (ks.eraseDups.map fun k => (k, (m.live? k).map Holder.value)) t).state,
          (reply (ks.eraseDups.map fun k => (k, (m.live? k).map Holder.value)) t).events ++
            notes.map event⟩ ∧
      m'.now = m.now ∧
      ∀ k, m'.table.get? k =
        if k ∈ ks then settled? policy m.now k (m.live? k) ((KeyMap.ofList pairs).get? k)
        else m.table.get? k := by
  obtain ⟨ha, hnow, hget⟩ := settleAll_byKey (settle_byKey policy (.ofList pairs))
    (nodup_eraseDups ks) ks (m.purgeAll ks)
  generalize hs : settleAll (settle policy (.ofList pairs)) ks.eraseDups ks (m.purgeAll ks) = r
    at ha hnow hget
  refine ⟨r.state, r.events, ?_, hnow.trans (purgeAll_now ks m), fun k => ?_⟩
  · rw [bulkCompute_run, batch]
    simp only [hr, run_settling_ok, hs, ha]
  · rw [hget, get?_purgeAll, purgeAll_now]
    by_cases hk : k ∈ ks <;> simp [hk]

/-- A bulk load with nothing to load asks nothing, and leaves every key as it was. -/
theorem bulkComputeIfAbsent_idle (reply : List K → Action τ ε' (Except Fault (Mappings K V)))
    (hnone : m.absent ks = []) :
    ∃ m', ((Store.memory policy).bulkComputeIfAbsent ks m).run event reply t =
        ⟨(.ok (m'.computed ks), m'), t, []⟩ ∧
      m'.now = m.now ∧ ∀ k, m'.table.get? k = m.table.get? k := by
  refine ⟨m.purgeAll ks, ?_, purgeAll_now ks m, fun k => ?_⟩
  · rw [bulkComputeIfAbsent_eq, missing_purgeAll, hnone]
    rfl
  · rw [get?_purgeAll_absent, hnone]
    rfl

/-- A bulk load asks once, with the absent keys, writes what was loaded for them, and leaves every
other key as it was. -/
theorem bulkComputeIfAbsent_loads
    (reply : List K → Action τ ε' (Except Fault (Mappings K V))) (hsome : m.absent ks ≠ [])
    (hr : (reply (m.absent ks) t).answer = .ok pairs) :
    ∃ (m' : Memory K V) (notes : List (Note K V)),
      ((Store.memory policy).bulkComputeIfAbsent ks m).run event reply t =
        ⟨(.ok (m'.computed ks), m'), (reply (m.absent ks) t).state,
          (reply (m.absent ks) t).events ++ notes.map event⟩ ∧
      m'.now = m.now ∧
      ∀ k, m'.table.get? k =
        if k ∈ m.absent ks then loaded? policy m.now k none ((KeyMap.ofList pairs).get? k)
        else m.table.get? k := by
  obtain ⟨ha, hnow, hget⟩ := settleAll_byKey (load_byKey policy (.ofList pairs))
    (m.nodup_absent ks) ks (m.purgeAll ks)
  generalize hs : settleAll (load policy (.ofList pairs)) (m.absent ks) ks (m.purgeAll ks) = r
    at ha hnow hget
  refine ⟨r.state, r.events, ?_, hnow.trans (purgeAll_now ks m), fun k => ?_⟩
  · rw [bulkComputeIfAbsent_eq, missing_purgeAll, List.isEmpty_eq_false_iff.mpr hsome,
      if_neg Bool.false_ne_true, Dialogue.run_ask, hr, run_settling_ok]
    dsimp only
    rw [hs, ha]
  · rw [hget, get?_purgeAll_absent, purgeAll_now]
    by_cases hk : k ∈ m.absent ks <;> simp [hk]

end

end Memory

end ResilientCache
