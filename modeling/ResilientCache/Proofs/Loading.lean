import ResilientCache.Proofs.Refinement
import ResilientCache.Proofs.Settling

/-!
# Bulk loads load what is requested

A bulk load whose loader answers, over a store in memory under any policy. In absent-only mode the
loader is asked for the requested keys without a live mapping (`Memory.absent`), in replacing mode
for all requested keys; either way it is asked once, with each key once, and it may answer fewer
keys or more.

`LoadsRequested` says what comes of it, for the batch the loader is asked for and what it answered.
Both modes leave every key of the batch as a bulk computation leaves a key for which the loader's
value was decided, and every other key as it was (`Leaves`); what comes of a load is read off that
once (`loads_requested`).

Headline: **`bulk_loads_requested`**.
-/

namespace ResilientCache

open Memory

variable {K V : Type}

/-- The batches that loaders were called with, in order. -/
def loaderCalls (es : List (Event K V)) : List (List K) :=
  es.filterMap fun
    | .loaderCalled ks => some ks
    | _ => none

@[simp] theorem loaderCalls_append (es es' : List (Event K V)) :
    loaderCalls (es ++ es') = loaderCalls es ++ loaderCalls es' := List.filterMap_append

@[simp] theorem loaderCalls_notes (ns : List (Note K V)) : loaderCalls (ns.map .note) = [] := by
  refine List.filterMap_eq_nil_iff.mpr fun e he => ?_
  obtain ⟨n, -, rfl⟩ := List.mem_map.mp he
  rfl

/-- Loading an absent key is settling it: it holds no handle that could be the same. -/
theorem Memory.loaded?_none [DecidableEq (Handle V)] (policy : Policy K V) (now : Instant) (k : K)
    (v? : Option (Handle V)) :
    loaded? policy now k none (some v?) = settled? policy now k none (some v?) := by
  cases v? <;> rfl

variable [DecidableEq K]

/-- The keys that a bulk load of some keys has to ask its loader for. -/
def Memory.wanted (m : Memory K V) (ks : List K) (replaceExisting : Bool) : List K :=
  if replaceExisting then ks.eraseDups else m.absent ks

/-- What is loaded for exactly a batch is decided for its keys. -/
theorem get?_normalize (batch : List K) (loaded : KeyMap K (Handle V)) (k : K) :
    (KeyMap.ofList (normalize batch loaded)).get? k =
      if k ∈ batch then some (loaded.get? k) else none :=
  KeyMap.get?_ofList_map ..

namespace Cache

/-- A loader that answers is called with its batch. -/
theorem callLoader_apply (answer : List K → KeyMap K (Handle V)) (batch : List K) :
    callLoader (fun batch => .ok (answer batch)) batch () =
      ⟨.ok (normalize batch (answer batch)), (), [.loaderCalled batch]⟩ := rfl

variable [DecidableEq (Handle V)]

/-- What comes of a bulk load of some keys whose loader was to be asked for a batch of them and
answered it. -/
structure LoadsRequested (policy : Policy K V) (ks batch : List K) (loaded : KeyMap K (Handle V))
    (s : State (Memory K V))
    (r : Run (State (Memory K V)) (Event K V) (Except CacheError (KeyMap K (Option (Handle V))))) :
    Prop where
  /-- The loader is called once with the batch, and not at all if it is empty. -/
  asked : loaderCalls r.events = if batch.isEmpty then [] else [batch]
  /-- Every other key holds what it held, whether it was requested or the loader answered it. -/
  untouched : ∀ k, k ∉ batch → r.state.store.table.get? k = s.store.table.get? k
  omitted : ∀ k ∈ batch, loaded.get? k = none → r.state.store.table.get? k = none
  /-- A handle that the key already holds is left as it is. -/
  same : ∀ k ∈ batch, ∀ h, s.store.live? k = some h → loaded.get? k = some h.value →
    r.state.store.table.get? k = some h
  /-- Another value that the policy denies removes the key. -/
  denied : ∀ k ∈ batch, ∀ v, loaded.get? k = some v →
    (s.store.live? k).map Holder.value ≠ some v →
    policy.Denies (.ofWrite k ((s.store.live? k).map (·.value.value)) v.value) →
      r.state.store.table.get? k = none
  /-- A value that the policy does not deny is held, from now on. -/
  installed : ∀ k ∈ batch, ∀ v, loaded.get? k = some v →
    (s.store.live? k).map Holder.value ≠ some v →
    ¬ policy.Denies (.ofWrite k ((s.store.live? k).map (·.value.value)) v.value) →
      ∃ held, r.state.store.table.get? k = some held ∧ held.value = v ∧
        held.created = s.store.now
  /-- The answer has exactly the requested keys, each with the value it holds afterwards. -/
  answered : ∃ found, r.answer = .ok found ∧ ∀ k, found.get? k =
    if k ∈ ks then some ((r.state.store.table.get? k).map Holder.value) else none
  /-- Nothing is recorded or counted, and the strategy is not consulted. -/
  silent : outcomes r.events = [] ∧ consultations r.events = [] ∧ r.state.bulk = s.bulk ∧
    r.state.lifecycle = s.lifecycle ∧ r.state.store.now = s.store.now

variable {policy : Policy K V} {c : Cache (Memory K V) K V} {s : State (Memory K V)} {ks : List K}

/-- A run is that of a bulk load that asked its loader for a batch, if there was anything to ask
for, and left every key of the batch as what was loaded for it settles the key. -/
def Leaves (policy : Policy K V) (ks batch : List K) (loaded : KeyMap K (Handle V))
    (s : State (Memory K V))
    (r : Run (State (Memory K V)) (Event K V) (Except CacheError (KeyMap K (Option (Handle V))))) :
    Prop :=
  ∃ (m' : Memory K V) (notes : List (Note K V)),
    r = ⟨.ok (.ofList ((m'.computed ks).map fun p => (p.1, p.2.map Holder.value))),
      { s with store := m' },
      (if batch.isEmpty then [] else [.loaderCalled batch]) ++ notes.map .note⟩ ∧
    m'.now = s.store.now ∧
    ∀ k, m'.table.get? k =
      if k ∈ batch then settled? policy s.store.now k (s.store.live? k) (some (loaded.get? k))
      else s.store.table.get? k

/-- In replacing mode the loader is asked for all requested keys. -/
theorem replacing_leaves (hc : c.store = .memory policy) (hs : s.lifecycle.status = .available)
    (hne : ks ≠ []) (answer : List K → KeyMap K (Handle V)) :
    Leaves policy ks ks.eraseDups (answer ks.eraseDups) s
      ((c.loadAll ks true fun batch => .ok (answer batch)).run s) := by
  have hsome : ks.eraseDups.isEmpty = false :=
    (isEmpty_eraseDups ks).trans (List.isEmpty_eq_false_iff.mpr hne)
  -- the store offers the live value of every key; the loader sees the keys alone
  have hbatch : (ks.eraseDups.map fun k => (k, (s.store.live? k).map Holder.value)).map Prod.fst =
      ks.eraseDups := by
    simp [Function.comp_def]
  have hreply := callLoader_apply answer
    ((ks.eraseDups.map fun k => (k, (s.store.live? k).map Holder.value)).map Prod.fst)
  obtain ⟨m', notes, hrun, hnow, hget⟩ := bulkCompute_settles policy Event.note
    (fun batch => callLoader (fun batch => .ok (answer batch)) (batch.map Prod.fst))
    (congrArg Run.answer hreply)
  rw [hreply, hbatch] at hrun
  refine ⟨m', notes, ?_, hnow, fun k => ?_⟩
  · rw [loadAll_apply c hs (List.isEmpty_eq_false_iff.mpr hne) true, hsome]
    simp only [if_true, bulkCall, hc, hrun]
    rfl
  · rw [hget, hbatch, get?_normalize]
    by_cases hk : k ∈ ks <;> simp [hk]

/-- In absent-only mode the loader is asked for the absent keys, and not at all if there are
none. -/
theorem absentOnly_leaves (hc : c.store = .memory policy) (hs : s.lifecycle.status = .available)
    (hne : ks ≠ []) (answer : List K → KeyMap K (Handle V)) :
    Leaves policy ks (s.store.absent ks) (answer (s.store.absent ks)) s
      ((c.loadAll ks false fun batch => .ok (answer batch)).run s) := by
  rw [loadAll_apply c hs (List.isEmpty_eq_false_iff.mpr hne) false]
  by_cases hnone : s.store.absent ks = []
  · obtain ⟨m', hrun, hnow, hget⟩ := bulkComputeIfAbsent_idle policy Event.note
      (callLoader fun batch => .ok (answer batch)) (t := ()) hnone
    rw [hnone]
    refine ⟨m', [], ?_, hnow, hget⟩
    simp only [Bool.false_eq_true, if_false, bulkCall, hc, hrun]
    rfl
  · have hreply := callLoader_apply answer (s.store.absent ks)
    obtain ⟨m', notes, hrun, hnow, hget⟩ := bulkComputeIfAbsent_loads policy Event.note
      (callLoader fun batch => .ok (answer batch)) hnone (congrArg Run.answer hreply)
    rw [hreply] at hrun
    refine ⟨m', notes, ?_, hnow, fun k => ?_⟩
    · rw [List.isEmpty_eq_false_iff.mpr hnone]
      simp only [Bool.false_eq_true, if_false, bulkCall, hc, hrun]
    · rw [hget, get?_normalize]
      by_cases hk : k ∈ s.store.absent ks
      · rw [if_pos hk, if_pos hk, if_pos hk, loaded?_none, (mem_absent.mp hk).2]
      · rw [if_neg hk, if_neg hk]

/-- In either mode a bulk load of some keys leaves what its loader answered about the keys that it
wanted. -/
theorem loadAll_leaves (hc : c.store = .memory policy) (hs : s.lifecycle.status = .available)
    (hne : ks ≠ []) (replaceExisting : Bool) (answer : List K → KeyMap K (Handle V)) :
    let batch := s.store.wanted ks replaceExisting
    Leaves policy ks batch (answer batch) s
      ((c.loadAll ks replaceExisting fun batch => .ok (answer batch)).run s) := by
  cases replaceExisting with
  | true => exact replacing_leaves hc hs hne answer
  | false => exact absentOnly_leaves hc hs hne answer

/-- What comes of a bulk load, in either mode, is what it leaves of every key. -/
theorem loads_requested (replaceExisting : Bool) (loader : Loader K V) {batch : List K}
    {loaded : KeyMap K (Handle V)}
    (h : Leaves policy ks batch loaded s ((c.loadAll ks replaceExisting loader).run s)) :
    LoadsRequested policy ks batch loaded s ((c.loadAll ks replaceExisting loader).run s) := by
  obtain ⟨m', notes, hrun, hnow, hget⟩ := h
  have hsilent := c.loadAll_silent ks replaceExisting loader s
  have hrecorded := outcomes_of_silent hsilent
  have hconsulted := consultations_of_silent hsilent
  rw [hrun] at hrecorded hconsulted ⊢
  have hbatch (k : K) (hk : k ∈ batch) : m'.table.get? k =
      settled? policy s.store.now k (s.store.live? k) (some (loaded.get? k)) := by
    rw [hget, if_pos hk]
  constructor
  · rw [loaderCalls_append, loaderCalls_notes, List.append_nil]
    cases batch <;> rfl
  · intro k hk
    exact (hget k).trans (if_neg hk)
  · intro k hk hnone
    show m'.table.get? k = none
    rw [hbatch k hk, hnone]
    rfl
  · intro k hk h hlive hsame
    show m'.table.get? k = some h
    rw [hbatch k hk, hsame, hlive]
    exact if_pos rfl
  · intro k hk v hv hother hdenied
    show m'.table.get? k = none
    rw [hbatch k hk, hv, settled?, if_neg hother]
    exact rewritten?_of_denied hdenied
  · intro k hk v hv hother hgranted
    show ∃ held, m'.table.get? k = some held ∧ _
    rw [hbatch k hk, hv, settled?, if_neg hother]
    exact rewritten?_of_not_denied hgranted
  · refine ⟨_, rfl, fun k => ?_⟩
    rw [computed, List.map_map]
    exact KeyMap.get?_ofList_map (fun k => (m'.table.get? k).map Holder.value) ks k
  · exact ⟨hrecorded, hconsulted, rfl, rfl, hnow⟩

/-- **Bulk loads load what is requested**: over a store in memory in any state and under any
policy, a bulk load of some keys whose loader answers is answered for exactly these keys. In
absent-only mode it asks for the requested keys without a live mapping, leaves the others untouched,
and installs exactly the values that were loaded and that the policy does not deny; in replacing
mode it asks for all requested keys, and brings each of them to what was loaded for it. -/
theorem bulk_loads_requested (hc : c.store = .memory policy)
    (hs : s.lifecycle.status = .available) (hne : ks ≠ [])
    (answer : List K → KeyMap K (Handle V)) :
    let absent := s.store.absent ks
    let absentOnly := (c.loadAll ks false fun batch => .ok (answer batch)).run s
    let replacing := (c.loadAll ks true fun batch => .ok (answer batch)).run s
    LoadsRequested policy ks absent (answer absent) s absentOnly ∧
      (∀ k ∈ ks, ∀ h, s.store.live? k = some h →
        absentOnly.state.store.table.get? k = some h) ∧
      (∀ k ∈ ks, s.store.live? k = none →
        ((absentOnly.state.store.table.get? k).isSome ↔
          ∃ v, (answer absent).get? k = some v ∧ ¬ policy.Denies (.creation k v.value))) ∧
      LoadsRequested policy ks ks.eraseDups (answer ks.eraseDups) s replacing := by
  intro absent absentOnly replacing
  have habsent : LoadsRequested policy ks absent (answer absent) s absentOnly :=
    loads_requested false _ (absentOnly_leaves hc hs hne answer)
  refine ⟨habsent, fun k _ h hlive => ?_, fun k hk hdead => ?_,
    loads_requested true _ (replacing_leaves hc hs hne answer)⟩
  · have hk : k ∉ absent := by
      intro hk
      cases hlive.symm.trans (mem_absent.mp hk).2
    rw [habsent.untouched k hk]
    exact get?_of_live? hlive
  · have hbatch : k ∈ absent := mem_absent.mpr ⟨hk, hdead⟩
    have hother (v : Handle V) : (s.store.live? k).map Holder.value ≠ some v := by
      rw [hdead]
      exact nofun
    have hcreation (v : Handle V) :
        LifetimeQuery.ofWrite k ((s.store.live? k).map (·.value.value)) v.value =
          .creation k v.value := by
      rw [hdead]
      rfl
    cases hloaded : (answer absent).get? k with
    | none =>
      rw [habsent.omitted k hbatch hloaded]
      simp
    | some v =>
      by_cases hdenied : policy.Denies (.creation k v.value)
      · rw [habsent.denied k hbatch v hloaded (hother v) (by rwa [hcreation])]
        simpa using hdenied
      · obtain ⟨held, hheld, -⟩ :=
          habsent.installed k hbatch v hloaded (hother v) (by rwa [hcreation])
        rw [hheld]
        simpa using hdenied

/-- A load of four keys, one of them twice. The first is live, the second has expired, the policy
fails for the third, and the loader omits the fourth and answers one that was not requested. -/
theorem bulk_loads_requested_mixed :
    let policy : Policy Nat Nat :=
      { creation := fun k _ => if k = 3 then .error (.text "unknown") else .ok .max
        update := fun _ _ _ => .ok none }
    let c : Cache (Memory Nat Nat) Nat Nat := { store := .memory policy, strategy := .propagating }
    let held : KeyMap Nat (Holder Nat) :=
      { pairs := [(1, .eternal ⟨0, 10⟩), (2, ⟨⟨1, 20⟩, 0, some 5⟩)], nodup := by decide }
    let s : State (Memory Nat Nat) :=
      { store := { table := held, now := 7 }, lifecycle := { status := .available } }
    let ks := [2, 1, 2, 3, 4]
    let answer : List Nat → KeyMap Nat (Handle Nat) := fun _ =>
      .ofList [(1, ⟨5, 11⟩), (2, ⟨6, 21⟩), (3, ⟨7, 31⟩), (9, ⟨8, 91⟩)]
    let absentOnly := (c.loadAll ks false fun batch => .ok (answer batch)).run s
    let replacing := (c.loadAll ks true fun batch => .ok (answer batch)).run s
    s.lifecycle.status = .available ∧ ks ≠ [] ∧ loaderCalls absentOnly.events = [[2, 3, 4]] ∧
      absentOnly.state.store.table.get? 1 = some (.eternal ⟨0, 10⟩) ∧
      (absentOnly.state.store.table.get? 2).isSome ∧
      loaderCalls replacing.events = [[2, 1, 3, 4]] ∧
      replacing.state.store.table.get? 4 = none ∧
      ∃ h, replacing.state.store.table.get? 1 = some h ∧ h.value = ⟨5, 11⟩ := by
  intro policy c held s ks answer
  have hc : c.store = .memory policy := rfl
  have hs : s.lifecycle.status = .available := rfl
  have hne : ks ≠ [] := by simp [ks]
  obtain ⟨habsent, hkept, hinstalled, hreplaced⟩ := bulk_loads_requested hc hs hne answer
  have hupdate : ¬ policy.Denies (.update 1 10 11) := by
    simp [policy, Policy.Denies, Policy.answer]
  have hcreation : ¬ policy.Denies (.creation 2 21) := by
    have hmax : Duration.max ≠ Duration.zero := by decide
    simp [policy, Policy.Denies, Policy.answer, Except.map, hmax]
  obtain ⟨h, hget, hvalue, -⟩ := hreplaced.installed 1 (by decide) ⟨5, 11⟩ (by decide) (by decide)
    hupdate
  refine ⟨hs, hne, ?_, hkept 1 (by decide) _ (by decide),
    (hinstalled 2 (by decide) (by decide)).mpr ⟨⟨6, 21⟩, by decide, hcreation⟩, ?_,
    hreplaced.omitted 4 (by decide) (by decide), h, hget, hvalue⟩
  · rw [habsent.asked]
    decide
  · rw [hreplaced.asked]
    decide

end Cache

end ResilientCache
