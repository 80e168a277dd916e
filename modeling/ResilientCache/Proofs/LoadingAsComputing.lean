import ResilientCache.Proofs.Computing

/-!
# A bulk load as a bulk computation

The two bulk primitives of the store in memory are two views of one: a bulk load does what a bulk
computation does whose function keeps the handle of every key that has a value, and leaves the others
to the loader (`keeping`). The two differ in the keys they settle and in how: a load settles the
absent keys, by writing what was loaded; a computation settles all of them. But a key that is decided
to keep its handle is not touched (`settle_kept`), and an absent key is settled as it is loaded
(`settle_absent`).

Headline: **`bulkComputeIfAbsent_eq_bulkCompute`**, a bulk load is a bulk computation in everything it
answers, leaves, counts and tells.
-/

namespace ResilientCache

variable {τ ε' K V : Type} [DecidableEq K]

/-- The batch function that keeps the handle of every key that has a value and asks a loader for the
others, if there are any. Of the pairs that the loader answers it passes on those for keys that it
was asked for. -/
def keeping (loader : List K → Action τ ε' (Except Fault (Mappings K V))) (batch : Mappings K V) :
    Action τ ε' (Except Fault (Mappings K V)) := do
  let present := batch.filter fun p => p.2.isSome
  let absent := (batch.filter fun p => p.2.isNone).map Prod.fst
  if absent.isEmpty then return .ok present
  return (← loader absent).map fun pairs => present ++ pairs.filter fun p => p.1 ∈ absent

namespace Memory

/-! ## The batch of a computation -/

/-- The keys without a value in the batch are the absent keys. -/
theorem batch_absent (m : Memory K V) (ks : List K) :
    ((m.batch ks).filter fun p => p.2.isNone).map Prod.fst = m.absent ks := by
  rw [batch, List.filter_map, List.map_map, absent]
  simp only [Function.comp_def, Option.isNone_map, List.map_id']

/-- The pairs that keep the live handles of requested keys. -/
def keptPairs (m : Memory K V) (ks : List K) : Mappings K V :=
  (m.batch ks).filter fun p => p.2.isSome

/-- What the function answers when the loader answers some pairs. -/
def keepingPairs (m : Memory K V) (ks : List K) (pairs : Mappings K V) : Mappings K V :=
  m.keptPairs ks ++ pairs.filter fun p => p.1 ∈ m.absent ks

theorem mem_keptPairs {m : Memory K V} {ks : List K} {k : K} {v? : Option (Handle V)} :
    (k, v?) ∈ m.keptPairs ks ↔ k ∈ ks ∧ ∃ held, m.live? k = some held ∧ v? = some held.value := by
  simp only [keptPairs, batch, List.mem_filter, List.mem_map, List.mem_eraseDups, Prod.mk.injEq]
  constructor
  · rintro ⟨⟨k', hk, rfl, rfl⟩, hsome⟩
    obtain ⟨held, hlive⟩ := Option.isSome_iff_exists.mp (Option.isSome_map.symm.trans hsome)
    exact ⟨hk, held, hlive, by rw [hlive]; rfl⟩
  · rintro ⟨hk, held, hlive, rfl⟩
    exact ⟨⟨k, hk, rfl, by rw [hlive]; rfl⟩, rfl⟩

theorem keeping_batch (loader : List K → Action τ ε' (Except Fault (Mappings K V)))
    (m : Memory K V) (ks : List K) (t : τ) :
    keeping loader (m.batch ks) t =
      if (m.absent ks).isEmpty then ⟨.ok (m.keptPairs ks), t, []⟩
      else
        let asked := loader (m.absent ks) t
        ⟨asked.answer.map (m.keepingPairs ks), asked.state, asked.events⟩ := by
  rw [keeping, batch_absent]
  by_cases hnone : (m.absent ks).isEmpty
  · rw [if_pos hnone, if_pos hnone]
    rfl
  · rw [if_neg hnone, if_neg hnone]
    simp only [Action.bind_apply, Action.pure_apply, List.append_nil]
    rfl

/-- The last pair for a live key keeps its handle. -/
theorem last?_kept {m : Memory K V} {ks : List K} {k : K} {held : Holder V} (hk : k ∈ ks)
    (hlive : m.live? k = some held) (pairs : Mappings K V) :
    last? (m.keepingPairs ks pairs) k = some (some held.value) := by
  have hloaded : last? (pairs.filter fun p => p.1 ∈ m.absent ks) k = none := by
    rw [← Option.not_isSome_iff_eq_none, isSome_last?]
    intro hmem
    obtain ⟨p, hp, rfl⟩ := List.mem_map.mp hmem
    have habsent : p.1 ∈ m.absent ks := of_decide_eq_true (List.mem_filter.mp hp).2
    cases hlive.symm.trans (mem_absent.mp habsent).2
  have hkept : (k, some held.value) ∈ m.keptPairs ks := mem_keptPairs.mpr ⟨hk, held, hlive, rfl⟩
  obtain ⟨v?, hlast⟩ := Option.isSome_iff_exists.mp
    ((isSome_last? _ _).mpr (List.mem_map_of_mem (f := Prod.fst) hkept))
  obtain ⟨-, held', hlive', rfl⟩ := mem_keptPairs.mp (mem_of_last? hlast)
  cases hlive.symm.trans hlive'
  rw [keepingPairs, last?_append, hloaded, Option.none_or, hlast]

/-- The last pair for an absent key is the last one that was loaded for it. -/
theorem last?_absent {m : Memory K V} {ks : List K} {k : K} (hk : k ∈ m.absent ks)
    (pairs : Mappings K V) :
    last? (m.keepingPairs ks pairs) k = last? pairs k := by
  have hkept : last? (m.keptPairs ks) k = none := by
    rw [← Option.not_isSome_iff_eq_none, isSome_last?]
    intro hmem
    obtain ⟨⟨k', v?⟩, hp, rfl⟩ := List.mem_map.mp hmem
    obtain ⟨-, held, hlive, -⟩ := mem_keptPairs.mp hp
    cases hlive.symm.trans (mem_absent.mp hk).2
  rw [keepingPairs, last?_append, hkept, Option.or_none,
    last?_filter (fun k => k ∈ m.absent ks) (decide_eq_true hk)]

/-! ## Settling and loading -/

variable [DecidableEq (Handle V)] (policy : Policy K V)

/-- A key that is decided to keep its handle is not touched. -/
theorem settle_kept {decided : KeyMap K (Option (Handle V))} {m : Memory K V} {k : K}
    {held : Holder V} (hheld : m.table.get? k = some held)
    (h : decided.get? k = some (some held.value)) : settle policy decided k m = ⟨(), m, []⟩ := by
  rw [settle_of_value policy h, value?, hheld]
  exact if_pos rfl

/-- An absent key is settled as it is loaded. -/
theorem settle_absent {decided loaded : KeyMap K (Option (Handle V))} {m : Memory K V} {k : K}
    (hnone : m.table.get? k = none) (h : decided.get? k = loaded.get? k) :
    settle policy decided k m = load policy loaded k m := by
  rcases hl : loaded.get? k with _ | _ | v
  · simp only [settle, load, h, hl]
  · simp [settle, load, h, hl, KeyMap.contains, hnone]
  · rw [settle_of_value policy (h.trans hl), value?, hnone, if_neg (by simp), load, hl]
    exact (Action.discard_apply _ _).symm

/-- Settling keys is loading the absent ones, if the others are decided to keep their handles. -/
theorem forM_settle {decided loaded : KeyMap K (Option (Handle V))} {ks : List K}
    (hnodup : ks.Nodup) (m : Memory K V)
    (hkept : ∀ k ∈ ks, ∀ held, m.table.get? k = some held →
      decided.get? k = some (some held.value))
    (hloaded : ∀ k ∈ ks, m.table.get? k = none → decided.get? k = loaded.get? k) :
    ks.forM (settle policy decided) m =
      (ks.filter fun k => !m.table.contains k).forM (load policy loaded) m := by
  induction ks generalizing m with
  | nil => rfl
  | cons k ks ih =>
    obtain ⟨hfresh, hnodup⟩ := List.nodup_cons.mp hnodup
    have hcons (each : K → Action (Memory K V) (Note K V) Unit) (ks : List K) :
        (k :: ks).forM each m =
          ⟨(), (ks.forM each (each k m).state).state,
            (each k m).events ++ (ks.forM each (each k m).state).events⟩ := rfl
    cases hk : m.table.get? k with
    | some held =>
      have hsettle := settle_kept policy hk (hkept k List.mem_cons_self held hk)
      have hrest := ih hnodup m (fun k' hk' => hkept k' (List.mem_cons_of_mem _ hk'))
        fun k' hk' => hloaded k' (List.mem_cons_of_mem _ hk')
      rw [List.filter_cons_of_neg (by simp [KeyMap.contains, hk]), ← hrest, hcons, hsettle]
      rfl
    | none =>
      have hsettle := settle_absent policy hk (hloaded k List.mem_cons_self hk)
      -- loading the key leaves the others what they hold
      have hother (k' : K) (hk' : k' ∈ ks) :
          (load policy loaded k m).state.table.get? k' = m.table.get? k' := by
        rw [(load_byKey policy loaded k m).2, if_neg fun heq : k = k' => hfresh (heq ▸ hk')]
      have hrest := ih hnodup (load policy loaded k m).state
        (fun k' hk' held hheld =>
          hkept k' (List.mem_cons_of_mem _ hk') held (by rwa [← hother k' hk']))
        fun k' hk' hnone =>
          hloaded k' (List.mem_cons_of_mem _ hk') (by rwa [← hother k' hk'])
      have hsame : (ks.filter fun k' => !(load policy loaded k m).state.table.contains k') =
          ks.filter fun k' => !m.table.contains k' :=
        List.filter_congr fun k' hk' => by rw [KeyMap.contains, hother k' hk', KeyMap.contains]
      rw [List.filter_cons_of_pos (by simp [KeyMap.contains, hk]), hcons, hcons, hsettle, hrest,
        hsame]

/-! ## The two primitives -/

variable (event : Note K V → ε') (ks : List K) (m : Memory K V)

/-- The computation settles its keys as the load does. -/
theorem settleAll_keeping (pairs : Mappings K V) :
    settleAll (settle policy (.ofList (m.keepingPairs ks pairs))) ks.eraseDups ks (m.purgeAll ks) =
      settleAll (load policy (.ofList pairs)) (m.absent ks) ks (m.purgeAll ks) := by
  have hpurged (k : K) (hk : k ∈ ks.eraseDups) :
      (m.purgeAll ks).table.get? k = m.live? k := by
    rw [get?_purgeAll, if_pos (List.mem_eraseDups.mp hk)]
  have hforM : ks.eraseDups.forM (settle policy (.ofList (m.keepingPairs ks pairs)))
      (m.purgeAll ks) =
        ((m.purgeAll ks).table.missing ks).forM (load policy (.ofList pairs)) (m.purgeAll ks) := by
    refine forM_settle policy (nodup_eraseDups ks) _ (fun k hk held hheld => ?_) fun k hk hnone => ?_
    · rw [hpurged k hk] at hheld
      rw [get?_ofList_last, last?_kept (List.mem_eraseDups.mp hk) hheld]
    · rw [hpurged k hk] at hnone
      rw [get?_ofList_last, get?_ofList_last,
        last?_absent (mem_absent.mpr ⟨List.mem_eraseDups.mp hk, hnone⟩)]
  rw [missing_purgeAll] at hforM
  simp only [settleAll, Action.bind_apply, hforM]

/-- **A bulk load is a bulk computation**: one whose function keeps the handle of every requested key
that has a value, and asks the loader for the others, once and in the order of their first places, if
there are any. For every state of the store, every policy, every request and every loader, which may
answer any pairs or fail, the two give the same answer, leave the same store with the same holders and
counts, ask the loader the same, and tell the same. -/
theorem bulkComputeIfAbsent_eq_bulkCompute
    (loader : List K → Action τ ε' (Except Fault (Mappings K V))) (t : τ) :
    ((Store.memory policy).bulkComputeIfAbsent ks m).run event loader t =
      ((Store.memory policy).bulkCompute ks m).run event (keeping loader) t := by
  rw [bulkCompute_run, bulkComputeIfAbsent_eq, missing_purgeAll, keeping_batch]
  cases hnone : (m.absent ks).isEmpty with
  | true =>
    -- nothing is loaded, so all keys are kept
    have hkept := settleAll_keeping policy ks m []
    rw [List.isEmpty_iff.mp hnone, keepingPairs, List.filter_nil, List.append_nil] at hkept
    simp only [if_true, run_settling_ok, hkept]
    rfl
  | false =>
    simp only [Bool.false_eq_true, if_false, Dialogue.run_ask]
    cases hloaded : (loader (m.absent ks) t).answer with
    | error fault => rfl
    | ok pairs =>
      simp only [Except.map, run_settling_ok, settleAll_keeping]

end Memory

end ResilientCache
