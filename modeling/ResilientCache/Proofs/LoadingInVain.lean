import ResilientCache.Proofs.Atomicity
import ResilientCache.Proofs.Loading

/-!
# Bulk loads that fail

A bulk load fails with its loader, or with a store that fails before its call takes effect. In both
cases nothing is installed: the store has at most dropped requested mappings that had expired
(`CameToNothing`). The caller gets one loading error. Its cause is the store's error or that of the
loader, and a loader that fails with a loading error keeps it as it is.

A loader may itself load from another cache, and pass the error of that load on. A `Tower` is a
stack of caches in which the loader of each one loads from the next; keys, values, policies, modes
and states may differ from floor to floor. What carries the last statement is that a loader is
called at most once by a load, and that its failure then is the load's (`loadAll_passes`); the
induction is on the way from the load that failed up to the top (`Tower.Meets`).

Headlines:
* `Plan.guardBulk_run`, `Memory.loading_fails`, `Memory.loading_hands`: what a bulk load asks of its
  store, and what is left when its loader fails.
* `loadAll_fails`, `loadAll_struck`: the two ways in which a bulk load fails.
* `Tower.load_of_meets`: a loading error surfaces at the top of a tower as it was below.
* **`failed_loads_atomic`**.
-/

namespace ResilientCache

open Memory

variable {σ τ Q ε' K V : Type}

/-! ## Bulk calls that take effect -/

namespace Plan

/-- A plan lets a call take effect, whether or not it fails afterwards. -/
def Admits (plan : Plan) (n : Nat) : Prop := ∀ strike, plan n = some strike → strike.late = true

/-- A bulk call that takes effect does what the store's own does. The plan may turn a success into a
failure, and leaves a failure as it is. -/
theorem guardBulk_run {plan : Plan} {s : Counted σ} (h : plan.Admits s.received)
    (call : σ → BulkCall σ Q K V) (event : Note K V → ε')
    (reply : Q → Action τ ε' (Except Fault (Mappings K V))) (t : τ) :
    ∃ after : Except BulkError (Computed K V) → Except BulkError (Computed K V),
      (∀ e, after (.error e) = .error e) ∧
      (plan.guardBulk call s).run event reply t =
        let r := (call s.inner).run event reply t
        ⟨(after r.answer.1, ⟨r.answer.2, s.received + 1⟩), r.state, r.events⟩ := by
  rw [guardBulk]
  cases hplan : plan s.received with
  | none => exact ⟨id, fun _ => rfl, by rw [Dialogue.run_map]; rfl⟩
  | some strike =>
    rcases strike with ⟨e, late⟩
    obtain rfl : late = true := h _ hplan
    exact ⟨(·.bind fun _ => .error (.store e)), fun _ => rfl, by rw [Dialogue.run_map]⟩

end Plan

variable [DecidableEq K] [DecidableEq (Handle V)]

namespace Memory

/-- What a bulk load in either mode asks of a store in memory. -/
def loading (policy : Policy K V) (m : Memory K V) (ks : List K) (replaceExisting : Bool)
    (loader : Loader K V) : Run Unit (Event K V) (Except BulkError (Computed K V) × Memory K V) :=
  if replaceExisting then
    ((Store.memory policy).bulkCompute ks m).run .note
      (fun batch => Cache.callLoader loader (batch.map Prod.fst)) ()
  else ((Store.memory policy).bulkComputeIfAbsent ks m).run .note (Cache.callLoader loader) ()

variable (policy : Policy K V) (m : Memory K V) {ks : List K} {replaceExisting : Bool}
  {loader : Loader K V}

omit [DecidableEq (Handle V)] in
theorem map_fst_batch (ks : List K) : (m.batch ks).map Prod.fst = ks.eraseDups := by
  simp [batch, Function.comp_def]

/-- A bulk load hands its loader the keys that it wants, and does not call it if there are none. -/
theorem loading_hands (hne : ks ≠ []) :
    loaderCalls (m.loading policy ks replaceExisting loader).events =
      if (m.wanted ks replaceExisting).isEmpty then [] else [m.wanted ks replaceExisting] := by
  cases replaceExisting with
  | true =>
    have hsome : (m.wanted ks true).isEmpty = false :=
      (isEmpty_eraseDups ks).trans (List.isEmpty_eq_false_iff.mpr hne)
    let reply (batch : Mappings K V) : Action Unit (Event K V) _ :=
      Cache.callLoader loader (batch.map Prod.fst)
    obtain ⟨notes, hnotes⟩ := run_settling_notes Event.note reply (settle policy) ks.eraseDups ks
      (m.purgeAll ks) () (reply (m.batch ks) ()).answer
    rw [hsome, loading, if_pos rfl, bulkCompute_run]
    dsimp only
    rw [loaderCalls_append, hnotes, loaderCalls_notes, map_fst_batch]
    rfl
  | false =>
    rw [loading, if_neg Bool.false_ne_true, bulkComputeIfAbsent_eq, missing_purgeAll, wanted,
      if_neg Bool.false_ne_true]
    by_cases hnone : (m.absent ks).isEmpty
    · rw [if_pos hnone, if_pos hnone]
      rfl
    · let reply : List K → Action Unit (Event K V) _ := Cache.callLoader loader
      obtain ⟨notes, hnotes⟩ := run_settling_notes Event.note reply (load policy) (m.absent ks) ks
        (m.purgeAll ks) () (reply (m.absent ks) ()).answer
      rw [if_neg hnone, if_neg hnone, Dialogue.run_ask]
      dsimp only
      rw [loaderCalls_append, hnotes, loaderCalls_notes]
      rfl

/-- A bulk load whose loader fails leaves its store with the requested keys purged. -/
theorem loading_fails {fault : Fault} (hwanted : m.wanted ks replaceExisting ≠ [])
    (h : loader (m.wanted ks replaceExisting) = .error fault) :
    m.loading policy ks replaceExisting loader =
      ⟨(.error (.function fault), m.purgeAll ks), (),
        [.loaderCalled (m.wanted ks replaceExisting)]⟩ := by
  have hcall : (Cache.callLoader loader (m.wanted ks replaceExisting) () : Run Unit (Event K V) _) =
      ⟨.error fault, (), [.loaderCalled (m.wanted ks replaceExisting)]⟩ := by
    simp [Cache.callLoader, h, Except.map]
  cases replaceExisting with
  | true =>
    have hasked : m.wanted ks true = (m.batch ks).map Prod.fst := (m.map_fst_batch ks).symm
    rw [hasked] at hcall ⊢
    rw [loading, if_pos rfl, bulkCompute_run, hcall]
    simp
  | false =>
    rw [wanted, if_neg Bool.false_ne_true] at hcall hwanted ⊢
    rw [loading, if_neg Bool.false_ne_true, bulkComputeIfAbsent_eq, missing_purgeAll,
      List.isEmpty_eq_false_iff.mpr hwanted, if_neg Bool.false_ne_true, Dialogue.run_ask, hcall]
    simp

end Memory

namespace Cache

variable {policy : Policy K V} {plan : Plan} {c : Cache (Counted (Memory K V)) K V}
  {s : State (Counted (Memory K V))} {ks : List K} {replaceExisting : Bool} {loader : Loader K V}

/-! ## Loads over a store that fails by plan -/

/-- A bulk load whose store call takes effect asks its store, and answers as that ends. -/
theorem loadAll_run (hc : c.store = (Store.memory policy).failing plan)
    (hs : s.lifecycle.status = .available) (hne : ks ≠ []) (h : plan.Admits s.store.received)
    (replaceExisting : Bool) (loader : Loader K V) :
    ∃ after : Except BulkError (Computed K V) → Except BulkError (Computed K V),
      (∀ e, after (.error e) = .error e) ∧
      let r := s.store.inner.loading policy ks replaceExisting loader
      (c.loadAll ks replaceExisting loader).run s =
        ⟨match after r.answer.1 with
          | .ok computed => .ok (.ofList (computed.map fun p => (p.1, p.2.map Holder.value)))
          | .error e => .error (.ofBulk e),
          { s with store := ⟨r.answer.2, s.store.received + 1⟩ }, r.events⟩ := by
  have hload := loadAll_apply c hs (List.isEmpty_eq_false_iff.mpr hne) replaceExisting loader
  cases replaceExisting with
  | true =>
    obtain ⟨after, hafter, hrun⟩ := Plan.guardBulk_run h ((Store.memory policy).bulkCompute ks)
      Event.note (fun batch => callLoader loader (batch.map Prod.fst)) ()
    simp only [if_true, hc, Store.failing, bulkCall, hrun] at hload
    exact ⟨after, hafter, hload⟩
  | false =>
    obtain ⟨after, hafter, hrun⟩ := Plan.guardBulk_run h
      ((Store.memory policy).bulkComputeIfAbsent ks) Event.note (callLoader loader) ()
    simp only [Bool.false_eq_true, if_false, hc, Store.failing, bulkCall, hrun] at hload
    exact ⟨after, hafter, hload⟩

/-- A bulk load whose loader fails. -/
theorem loadAll_fails (hc : c.store = (Store.memory policy).failing plan)
    (hs : s.lifecycle.status = .available) (hne : ks ≠ []) (h : plan.Admits s.store.received)
    (hwanted : s.store.inner.wanted ks replaceExisting ≠ []) {fault : Fault}
    (hloader : loader (s.store.inner.wanted ks replaceExisting) = .error fault) :
    (c.loadAll ks replaceExisting loader).run s =
      ⟨.error (.ofBulk (.function fault)),
        { s with store := ⟨s.store.inner.purgeAll ks, s.store.received + 1⟩ },
        [.loaderCalled (s.store.inner.wanted ks replaceExisting)]⟩ := by
  obtain ⟨after, hafter, hrun⟩ := loadAll_run hc hs hne h replaceExisting loader
  rw [hrun, loading_fails policy s.store.inner hwanted hloader]
  simp only [hafter]

/-- A bulk load came to nothing: it dropped at most requested mappings that had expired, and left
every other mapping, the counts and the lifecycle alone. Nobody was told. -/
structure CameToNothing (ks : List K) (s : State (Counted (Memory K V)))
    (r : Run (State (Counted (Memory K V))) (Event K V)
      (Except CacheError (KeyMap K (Option (Handle V))))) : Prop where
  live : ∀ k, r.state.store.inner.live? k = s.store.inner.live? k
  held : ∀ k, r.state.store.inner.table.get? k = s.store.inner.table.get? k ∨
    k ∈ ks ∧ s.store.inner.live? k = none ∧ r.state.store.inner.table.get? k = none
  now : r.state.store.inner.now = s.store.inner.now
  /-- The store may have counted expirations, and nothing else. -/
  counts : r.state.store.inner.counts = s.store.inner.counts
  bulk : r.state.bulk = s.bulk
  lifecycle : r.state.lifecycle = s.lifecycle
  recorded : outcomes r.events = []
  consulted : consultations r.events = []

omit [DecidableEq (Handle V)] in
/-- A purge of the requested keys is all that a load may leave. -/
theorem cameToNothing_of_purged {r : Run (State (Counted (Memory K V))) (Event K V)
      (Except CacheError (KeyMap K (Option (Handle V))))} {requested : List K} {received : Nat}
    (hrequested : requested ⊆ ks)
    (hstate : r.state = { s with store := ⟨s.store.inner.purgeAll requested, received⟩ })
    (hsilent : ∀ e ∈ r.events, e.IsSilent) : CameToNothing ks s r := by
  refine ⟨?_, fun k => ?_, ?_, ?_, ?_, ?_, outcomes_of_silent hsilent,
    consultations_of_silent hsilent⟩
  all_goals rw [hstate]
  · exact live?_purgeAll requested s.store.inner
  · show (s.store.inner.purgeAll requested).table.get? k = _ ∨
      _ ∧ _ ∧ (s.store.inner.purgeAll requested).table.get? k = none
    rw [get?_purgeAll]
    by_cases hk : k ∈ requested
    · rw [if_pos hk]
      cases hlive : s.store.inner.live? k with
      | none => exact .inr ⟨hrequested hk, rfl, rfl⟩
      | some held => exact .inl (get?_of_live? hlive).symm
    · exact .inl (if_neg hk)
  · exact purgeAll_now requested s.store.inner
  · exact purgeAll_counts requested s.store.inner

/-- A loader is called by an available cache, with the keys that the load wants. -/
theorem of_mem_loaderCalls (hc : c.store = (Store.memory policy).failing plan) {batch : List K}
    (h : batch ∈ loaderCalls ((c.loadAll ks replaceExisting loader).run s).events) :
    s.lifecycle.status = .available ∧ ks ≠ [] ∧ plan.Admits s.store.received ∧
      batch = s.store.inner.wanted ks replaceExisting ∧ batch ≠ [] := by
  by_cases hs : s.lifecycle.status = .available
  case neg =>
    rw [loadAll, ExceptT.run, Op.bind_apply, checkAvailable_of_not_available hs] at h
    cases h
  by_cases hne : ks = []
  case pos =>
    rw [loadAll, ExceptT.run, Op.bind_apply, checkAvailable_of_available hs, hne] at h
    cases h
  by_cases hplan : plan.Admits s.store.received
  case neg =>
    obtain ⟨⟨e, late⟩, hstrike, hearly⟩ : ∃ strike, plan s.store.received = some strike ∧
        strike.late ≠ true := by
      simpa [Plan.Admits] using hplan
    obtain rfl : late = false := Bool.eq_false_iff.mpr hearly
    rw [loadAll_struck hstrike _ hc hs hne] at h
    cases h
  obtain ⟨_, _, hrun⟩ := loadAll_run hc hs hne hplan replaceExisting loader
  rw [hrun] at h
  replace h : batch ∈ loaderCalls (s.store.inner.loading policy ks replaceExisting loader).events :=
    h
  rw [loading_hands policy s.store.inner hne] at h
  cases hnone : (s.store.inner.wanted ks replaceExisting).isEmpty with
  | true =>
    rw [hnone] at h
    cases h
  | false =>
    rw [hnone] at h
    obtain rfl := List.mem_singleton.mp h
    exact ⟨hs, hne, hplan, rfl, List.isEmpty_eq_false_iff.mp hnone⟩

/-- The failure of a loader is the failure of the load that called it. -/
theorem loadAll_passes (hc : c.store = (Store.memory policy).failing plan) {batch : List K}
    {fault : Fault} (h : batch ∈ loaderCalls ((c.loadAll ks replaceExisting loader).run s).events)
    (hloader : loader batch = .error fault) :
    ((c.loadAll ks replaceExisting loader).run s).answer = .error (.ofBulk (.function fault)) := by
  obtain ⟨hs, hne, hplan, rfl, hwanted⟩ := of_mem_loaderCalls hc h
  rw [loadAll_fails hc hs hne hplan hwanted hloader]

end Cache

/-! ## Loaders that load -/

/-- A cache over a store in memory that fails by plan, in some state, and the mode in which it is
loaded. -/
structure Floor (K V : Type) [DecidableEq K] [DecidableEq (Handle V)] where
  cache : Cache (Counted (Memory K V)) K V
  policy : Policy K V
  plan : Plan
  store_eq : cache.store = (Store.memory policy).failing plan
  state : Cache.State (Counted (Memory K V))
  replaceExisting : Bool := false

/-- Load keys into the cache of a floor. -/
def Floor.load (floor : Floor K V) (ks : List K) (loader : Loader K V) :
    Run (Cache.State (Counted (Memory K V))) (Event K V)
      (Except CacheError (KeyMap K (Option (Handle V)))) :=
  (floor.cache.loadAll ks floor.replaceExisting loader).run floor.state

/-- Caches that load from one another. The loader on the ground is any; every other loader loads
keys of its own choice from the next cache below, goes on in any way with what it is answered there,
and passes an error on. -/
inductive Tower : Type → Type → Type 1
  | ground {K V : Type} [DecidableEq K] [DecidableEq (Handle V)] (floor : Floor K V)
      (loader : Loader K V) : Tower K V
  | raised {K V K' V' : Type} [DecidableEq K] [DecidableEq (Handle V)] (floor : Floor K V)
      (request : List K → List K')
      (next : List K → KeyMap K' (Option (Handle V')) → Except Fault (KeyMap K (Handle V)))
      (below : Tower K' V') : Tower K V

/-- What a loader answers that loads elsewhere: what it makes of what it found there, or the error
that it passes on. -/
def passOn {α β : Type} (next : α → Except Fault β) : Except CacheError α → Except Fault β
  | .ok found => next found
  | .error e => .error (.cache e)

namespace Tower

/-- Load keys at the top of a tower. -/
def load {K V : Type} : Tower K V → List K →
    Run (Cache.State (Counted (Memory K V))) (Event K V)
      (Except CacheError (KeyMap K (Option (Handle V))))
  | ground floor loader, ks => floor.load ks loader
  | raised floor request next below, ks =>
    floor.load ks fun batch => passOn (next batch) (below.load (request batch)).answer

/-- A load at the top of a tower meets an error: it fails with it, or it calls its loader, and the
load that the loader makes below meets it. -/
inductive Meets : {K V : Type} → Tower K V → List K → CacheError → Prop
  | here {K V : Type} {tower : Tower K V} {ks : List K} {e : CacheError}
      (h : (tower.load ks).answer = .error e) : Meets tower ks e
  | deeper {K V K' V' : Type} [DecidableEq K] [DecidableEq (Handle V)] {floor : Floor K V}
      {request : List K → List K'}
      {next : List K → KeyMap K' (Option (Handle V')) → Except Fault (KeyMap K (Handle V))}
      {below : Tower K' V'} {ks batch : List K} {e : CacheError}
      (hcalled : batch ∈ loaderCalls ((raised floor request next below).load ks).events)
      (h : Meets below (request batch) e) : Meets (raised floor request next below) ks e

/-- A loading error surfaces at the top of a tower as it was where the load failed. -/
theorem load_of_meets {K V : Type} {tower : Tower K V} {ks : List K} {e : CacheError}
    (h : tower.Meets ks e) {cause : Fault} (he : e = .loading cause) :
    (tower.load ks).answer = .error e := by
  induction h with
  | here h => exact h
  | @deeper K V K' V' _ _ floor request next below ks batch e hcalled _ ih =>
    -- the loader passes on what the load below, by induction, surfaced
    have hloader : passOn (next batch) (below.load (request batch)).answer = .error (.cache e) := by
      rw [ih he]
      rfl
    subst he
    exact Cache.loadAll_passes floor.store_eq hcalled hloader

end Tower

/-! ## Failed loads -/

/-- A failure of a loader that is not a loading error is wrapped in one. -/
theorem CacheError.ofBulk_of_ne {fault : Fault} (h : ∀ cause, fault ≠ .cache (.loading cause)) :
    ofBulk (.function fault) = .loading fault := by
  rw [ofBulk.eq_def]
  split
  · rename_i heq
    cases heq
  · rename_i cause heq
    obtain rfl := BulkError.function.inj heq
    exact absurd rfl (h cause)
  · rename_i heq
    obtain rfl := BulkError.function.inj heq
    rfl

namespace Cache

variable {policy : Policy K V} {plan : Plan} {c : Cache (Counted (Memory K V)) K V}
  {s : State (Counted (Memory K V))} {ks : List K}

/-- **A bulk load that fails is one loading error, and leaves nothing behind**, in either mode and
whatever the strategy. If the loader fails, with what it was called with, the error wraps the
loader's own, unless that is a loading error, which stays as it is; if the store fails before its
call takes effect, the error wraps the store's. Every live mapping is as before and none is
installed, requested mappings that had expired being all that may be gone; the strategy is not
consulted, no outcome is recorded and no count of bulk entries changes. Where caches load from one
another, through any number of floors, a loading error that one of the loads met surfaces at the top
as it was. -/
theorem failed_loads_atomic (hc : c.store = (Store.memory policy).failing plan)
    (hs : s.lifecycle.status = .available) (hne : ks ≠ []) (replaceExisting : Bool)
    (loader : Loader K V) :
    let wanted := s.store.inner.wanted ks replaceExisting
    let r := (c.loadAll ks replaceExisting loader).run s
    (∀ fault, plan.Admits s.store.received → wanted ≠ [] → loader wanted = .error fault →
      (∀ cause, fault = .cache (.loading cause) → r.answer = .error (.loading cause)) ∧
      ((∀ cause, fault ≠ .cache (.loading cause)) → r.answer = .error (.loading fault)) ∧
      CameToNothing ks s r) ∧
    (∀ e, plan s.store.received = some { error := e } →
      r.answer = .error (.loading (.store e)) ∧ CameToNothing ks s r) ∧
    ∀ (K' V' : Type) (tower : Tower K' V') (requested : List K') (cause : Fault),
      tower.Meets requested (.loading cause) →
        (tower.load requested).answer = .error (.loading cause) := by
  intro wanted r
  have hsilent := c.loadAll_silent ks replaceExisting loader s
  refine ⟨fun fault hplan hwanted hloader => ?fails, fun e he => ?struck, ?passed⟩
  case fails =>
    have hr : r = _ := loadAll_fails hc hs hne hplan hwanted hloader
    have hanswer : r.answer = .error (.ofBulk (.function fault)) := by rw [hr]
    refine ⟨?_, fun hother => ?_, ?_⟩
    · rintro cause rfl
      rw [hanswer, CacheError.ofBulk_loading]
    · rw [hanswer, CacheError.ofBulk_of_ne hother]
    · exact cameToNothing_of_purged (List.Subset.refl ks) (congrArg Run.state hr) hsilent
  case struck =>
    have hr : r = _ := loadAll_struck he _ hc hs hne replaceExisting loader
    exact ⟨by rw [hr], cameToNothing_of_purged (List.nil_subset ks) (congrArg Run.state hr) hsilent⟩
  case passed =>
    exact fun K' V' tower requested cause h => Tower.load_of_meets h rfl

/-- Three caches of different keys and values load from one another, in both modes, and the loader
on the ground fails. At the top the caller gets the ground's own error in one layer, and of its
mappings an expired one is gone and a live one stays. -/
theorem failed_loads_atomic_nested :
    let calm : Plan := fun _ => none
    let up : Lifecycle := { status := .available }
    let ground : Floor Nat Bool :=
      { cache := { store := (Store.memory .eternal).failing calm }, policy := .eternal, plan := calm
        store_eq := rfl, state := { store := { inner := {} }, lifecycle := up } }
    let middle : Floor Bool Nat :=
      { cache := { store := (Store.memory .eternal).failing calm }, policy := .eternal, plan := calm
        store_eq := rfl, replaceExisting := true
        state := { store := { inner := { table := .ofList [(true, .eternal ⟨0, 7⟩)] } }
                   lifecycle := up } }
    let top : Floor Nat Nat :=
      { cache := { store := (Store.memory .eternal).failing calm }, policy := .eternal, plan := calm
        store_eq := rfl
        state := { store := { inner :=
                     { table := .ofList [(1, .eternal ⟨1, 10⟩), (2, ⟨⟨2, 20⟩, 0, some 50⟩)]
                       now := 50 } }
                   lifecycle := up } }
    let below : Tower Bool Nat :=
      .raised middle (·.map Bool.toNat) (fun _ _ => .ok .empty)
        (.ground ground fun _ => .error (.text "unreachable"))
    let loader : Loader Nat Nat := fun batch =>
      passOn (fun _ => .ok .empty) (below.load (batch.map fun k => k == 2)).answer
    let tower : Tower Nat Nat := .raised top (·.map fun k => k == 2) (fun _ _ => .ok .empty) below
    let r := tower.load [1, 2, 3]
    loader [2, 3] = .error (.cache (.loading (.text "unreachable"))) ∧
      r.answer = .error (.loading (.text "unreachable")) ∧ loaderCalls r.events = [[2, 3]] ∧
      r.state.store.inner.live? 1 = some (.eternal ⟨1, 10⟩) ∧
      r.state.store.inner.table.get? 2 = none ∧ consultations r.events = [] := by
  intro calm up ground middle top below loader tower r
  have hcalled : [2, 3] ∈ loaderCalls r.events := by decide +kernel
  have hbelow : [true, false] ∈ loaderCalls (below.load [true, false]).events := by decide +kernel
  have hloader : loader [2, 3] = .error (.cache (.loading (.text "unreachable"))) := rfl
  have hne : [1, 2, 3] ≠ [] := by decide
  obtain ⟨hfails, -, hpassed⟩ :=
    failed_loads_atomic (s := top.state) top.store_eq rfl hne false loader
  obtain ⟨-, -, hnothing⟩ := hfails _ (fun _ h => nomatch h) (by decide +kernel) hloader
  have hmeets : tower.Meets [1, 2, 3] (.loading (.text "unreachable")) :=
    .deeper hcalled (.deeper hbelow (.here rfl))
  have hr : r = (top.cache.loadAll [1, 2, 3] false loader).run top.state := rfl
  replace hnothing : CameToNothing [1, 2, 3] top.state r := by
    rw [hr]
    exact hnothing
  have hlive : top.state.store.inner.live? 1 = some (.eternal ⟨1, 10⟩) := by decide +kernel
  have hexpired : r.state.store.inner.table.get? 2 = none := by decide +kernel
  have hasked : loaderCalls r.events = [[2, 3]] := by decide +kernel
  exact ⟨hloader, hpassed _ _ tower _ _ hmeets, hasked, (hnothing.live 1).trans hlive, hexpired,
    hnothing.consulted⟩

end Cache

end ResilientCache
