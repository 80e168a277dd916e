import ResilientCache.Proofs.Call
import ResilientCache.Proofs.Failing
import ResilientCache.Proofs.Memory

/-!
# What the default strategy makes of a failure

A cache that is given no strategy gets the robust one over its own store. Whatever call of that
store is struck, before its effect or after it, the operation `Degrades`: its caller gets
`Call.degraded`, as little as the call can answer; the mappings in its `Call.scope` are removed by
force; one error is logged, which carries the second failure if a removal fails as well.

The store call of an operation runs a batch function that never fails by itself (`bulkCompute_ok`),
so a strike is what the cache sees (`ask_struck`), also after the call took its full effect.

Headlines:
* `ask_struck`: every operation sees the strike of its own store call.
* `robust_apply`: the robust strategy cleans up and gives the degraded answer.
* `Shipped.forStore_apply`: what each of the strategies makes of a failed call.
* `covers_iff_concerns`: the recovery of an operation is meant for its own keys, all of them.
* **`robust_degrades`**: every call degrades, however its recovery goes.
-/

namespace ResilientCache

variable {σ τ Q K V α : Type}

namespace Cache

/-! ## Struck calls -/

/-- A store call was struck: it failed with the error of the strike, and it took its full effect or
none. -/
structure Struck (strike : Strike) (s : State (Counted σ)) (answer : Except BulkError α)
    (s' : State (Counted σ)) (full : State σ) : Prop where
  answer : answer = .error (.store strike.error)
  received : s'.store.received = s.store.received + 1
  effect : s'.store.inner = if strike.late then full.store else s.store.inner

/-- The same state over a store whose calls are not counted. -/
def State.inner (s : State (Counted σ)) : State σ := { s with store := s.store.inner }

variable {plan : Plan} {strike : Strike} {s : State (Counted σ)}

theorem askPlain_struck (h : plan s.store.received = some strike) (n : Note K V)
    (x : Action σ (Note K V) (Except StoreError α)) :
    let r := askPlain (do Action.tell n; plan.guard x) s
    Struck strike s r.answer r.state (askPlain x s.inner).state := by
  obtain ⟨e, late⟩ := strike
  constructor <;>
    cases late <;>
    simp [askPlain, onStore, Action.within, Plan.guard_struck x h, State.inner]

theorem bulkCall_struck (h : plan s.store.received = some strike) (n : Note K V)
    (call : σ → BulkCall σ Q K V)
    {reply : Q → Action τ (Event K V) (Except Fault (Mappings K V))} {start : τ}
    (hok : ∃ computed, ((call s.store.inner).run .note reply start).answer.1 = .ok computed) :
    let r := bulkCall (fun s => .tell [n] (plan.guardBulk call s)) reply start s
    Struck strike s r.answer.1 r.state (bulkCall call reply start s.inner).state := by
  obtain ⟨computed, hok⟩ := hok
  obtain ⟨e, late⟩ := strike
  cases late with
  | false => constructor <;> simp [bulkCall, Plan.guardBulk, h]
  | true =>
    constructor <;>
      simp [bulkCall, Plan.guardBulk, h, Dialogue.run_map, hok, Except.bind, State.inner]

theorem askKept_struck {x : Action (State (Counted σ)) (Event K V) (Except BulkError α × τ)}
    {full : State σ} (h : Struck strike s (x s).answer.1 (x s).state full) :
    Struck strike s (askKept x s).answer (askKept x s).state full :=
  ⟨by simp [askKept, h.answer, Except.map], h.received, h.effect⟩

theorem askResult_struck {x : Action (State (Counted σ)) (Event K V) (Except BulkError α × τ)}
    {full : State σ} (h : Struck strike s (x s).answer.1 (x s).state full) :
    Struck strike s (askResult x s).answer (askResult x s).state full :=
  ⟨h.answer, h.received, h.effect⟩

section

variable [DecidableEq K] [DecidableEq (Handle V)]

/-- A cache with the default strategy over a store in memory that fails by plan. Its store calls
are told. -/
def overFailing (name : String) (policy expiry : Policy K V) (plan : Plan) :
    Cache (Counted (Memory K V)) K V :=
  { name, store := ((Store.memory policy).failing plan).audited, expiry }

/-- A cache with the default strategy over a store in memory. -/
def overMemory (name : String) (policy expiry : Policy K V) : Cache (Memory K V) K V :=
  { name, store := Store.memory policy, expiry }

variable (name : String) (policy expiry : Policy K V)

theorem computeOne_struck {s : State (Counted (Memory K V))}
    (h : plan s.store.received = some strike) (k : K)
    (remap : Option (Handle V) → Action τ (Event K V) (Option (Handle V))) (start : τ) :
    let r := (overFailing name policy expiry plan).computeOne k remap start s
    Struck strike s r.answer.1 r.state
      ((overMemory name policy expiry).computeOne k remap start s.inner).state := by
  have hok : ∃ computed, (((Store.memory policy).bulkCompute [k] s.store.inner).run Event.note
      (remapEach remap) start).answer.1 = .ok computed :=
    Memory.bulkCompute_ok policy [k] s.store.inner (fun _ _ => ⟨_, rfl⟩) start
  have hs := bulkCall_struck h (.called (.bulkCompute [k]))
    ((Store.memory policy).bulkCompute [k]) hok
  exact ⟨congrArg (Except.map _) hs.answer, hs.received, hs.effect⟩

/-- The store call of every call, struck. -/
theorem ask_struck [BEq V] {s : State (Counted (Memory K V))}
    (h : plan s.store.received = some strike) (call : Call K V) :
    let r := (overFailing name policy expiry plan).ask call s
    Struck strike s r.answer r.state ((overMemory name policy expiry).ask call s.inner).state := by
  cases call with
  | get k => exact askPlain_struck h _ _
  | containsKey k => exact askPlain_struck h _ _
  | put k v => exact askResult_struck (computeOne_struck name policy expiry h k _ _)
  | putIfAbsent k v => exact askKept_struck (computeOne_struck name policy expiry h k _ _)
  | remove k => exact askPlain_struck h _ _
  | removeIf k value => exact askKept_struck (computeOne_struck name policy expiry h k _ _)
  | replace k v => exact askKept_struck (computeOne_struck name policy expiry h k _ _)
  | replaceIf k old new => exact askKept_struck (computeOne_struck name policy expiry h k _ _)
  | clear => exact askPlain_struck h _ _
  | getAll ks =>
    exact askResult_struck (bulkCall_struck h _ _
      (Memory.bulkComputeIfAbsent_ok policy _ _ (fun _ _ => ⟨_, rfl⟩) _))
  | getAllPresent ks =>
    exact askResult_struck (bulkCall_struck h _ _
      (Memory.bulkComputeIfAbsent_ok policy _ _ (fun _ _ => ⟨_, rfl⟩) _))
  | putAll entries =>
    exact askKept_struck (bulkCall_struck h _ _
      (Memory.bulkCompute_ok policy _ _ (fun _ _ => ⟨_, rfl⟩) _))
  | removeAll ks =>
    exact askKept_struck (bulkCall_struck h _ _
      (Memory.bulkCompute_ok policy _ _ (fun _ _ => ⟨_, rfl⟩) _))

end

end Cache

/-! ## What a degraded call comes to -/

namespace Call

variable [DecidableEq K]

/-- The mappings that a failure of a call puts in doubt. -/
def scope : Call K V → Scope K
  | get k => .key k
  | containsKey k => .key k
  | put k _ => .key k
  | putIfAbsent k _ => .key k
  | remove k => .key k
  | removeIf k _ => .key k
  | replace k _ => .key k
  | replaceIf k _ _ => .key k
  | clear => .all
  | getAll ks => .keys ks.eraseDups
  | getAllPresent ks => .keys ks.eraseDups
  | putAll entries => .keys (entries.map Prod.fst)
  | removeAll ks => .keys ks.eraseDups

/-- Whether a key is one of a call's own; `clear` is about every key. -/
def Concerns : Call K V → K → Prop
  | get k, k' => k' = k
  | containsKey k, k' => k' = k
  | put k _, k' => k' = k
  | putIfAbsent k _, k' => k' = k
  | remove k, k' => k' = k
  | removeIf k _, k' => k' = k
  | replace k _, k' => k' = k
  | replaceIf k _ _, k' => k' = k
  | clear, _ => True
  | getAll ks, k' => k' ∈ ks
  | getAllPresent ks, k' => k' ∈ ks
  | putAll entries, k' => k' ∈ entries.map Prod.fst
  | removeAll ks, k' => k' ∈ ks

/-- As little as a call can answer: nothing, `false`, or every requested key without a value. -/
def degraded : (call : Call K V) → call.Answer
  | get _ => none
  | containsKey _ => false
  | put _ _ => ()
  | putIfAbsent _ _ => none
  | remove _ => ()
  | removeIf _ _ => false
  | replace _ _ => none
  | replaceIf _ _ _ => false
  | clear => ()
  | getAll ks => .ofList (ks.eraseDups.map fun k => (k, none))
  | getAllPresent _ => .empty
  | putAll _ => ()
  | removeAll _ => ()

/-- The recovery of a call's scope is meant for its own keys. -/
theorem covers_iff_concerns (call : Call K V) (k : K) :
    (∃ r ∈ call.scope.removals, r.Covers k) ↔ call.Concerns k := by
  have one (k' : K) : (∃ r ∈ (Scope.key k').removals, r.Covers k) ↔ k = k' := by
    simp [Scope.removals, Removal.Covers, eq_comm]
  have many (ks : List K) : (∃ r ∈ (Scope.keys ks).removals, r.Covers k) ↔ k ∈ ks := by
    refine ⟨?_, fun hk => ⟨.key k, List.mem_map_of_mem hk, rfl⟩⟩
    rintro ⟨r, hr, hk⟩
    obtain ⟨k', hk', rfl⟩ := List.mem_map.mp hr
    exact Eq.subst (motive := (· ∈ ks)) hk hk'
  cases call with
  | clear => exact ⟨fun _ => trivial, fun _ => ⟨.all, List.mem_singleton.mpr rfl, trivial⟩⟩
  | getAll ks => exact (many _).trans List.mem_eraseDups
  | getAllPresent ks => exact (many _).trans List.mem_eraseDups
  | putAll entries => exact many _
  | removeAll ks => exact (many _).trans List.mem_eraseDups
  | _ => exact one _

end Call

namespace Strategy

theorem cleanup_of_recovered {store : Store σ K V} {scope : Scope K} {s s' : σ}
    {ns : List (Note K V)} (h : store.recover scope s = ⟨.ok (), s', ns⟩) (e : StoreError) :
    cleanup true store scope e s = ⟨(), s', ns ++ [.logged (.recovered scope e)]⟩ := by
  simp [cleanup, h]

theorem cleanup_of_stuck {store : Store σ K V} {scope : Scope K} {s s' : σ}
    {ns : List (Note K V)} {second : StoreError}
    (h : store.recover scope s = ⟨.error second, s', ns⟩) (e : StoreError) :
    cleanup true store scope e s = ⟨(), s', ns ++ [.logged (.inconsistent scope e second)]⟩ := by
  simp [cleanup, h]

variable [DecidableEq K]

/-- The robust strategy cleans up the scope of a failed call and answers the caller as little as the
call allows. -/
theorem robust_apply (obliterating : Bool) (store : Store σ K V) (call : Call K V)
    (e : StoreError) (s : σ) :
    let r := Strategy.robust obliterating store call.failed e s
    r.answer.map call.ofDecision = .ok call.degraded ∧
      r.state = (cleanup obliterating store call.scope e s).state ∧
      r.events = (cleanup obliterating store call.scope e s).events := by
  have simple {α : Type} (a : α) (scope : Scope K) :
      (do cleanup obliterating store scope e; return .ok a :
        Action σ (Note K V) (Except CacheError α)) s =
        ⟨.ok a, (cleanup obliterating store scope e s).state,
          (cleanup obliterating store scope e s).events⟩ := by
    simp
  cases call with
  | getAll ks =>
    have hall : Cache.collect true (ks.eraseDups.map fun k => (k, (none : Option (Handle V)))) =
        .ofList (ks.eraseDups.map fun k => (k, none)) :=
      congrArg KeyMap.ofList (List.filter_eq_self.mpr fun _ _ => rfl)
    refine ⟨?_, congrArg Run.state (simple _ _), congrArg Run.events (simple _ _)⟩
    exact congrArg Except.ok hall
  | getAllPresent ks =>
    have hnone : Cache.collect false (ks.eraseDups.map fun k => (k, (none : Option (Handle V)))) =
        .empty :=
      congrArg KeyMap.ofList (List.filter_eq_nil_iff.mpr fun p hp => by
        obtain ⟨k, -, rfl⟩ := List.mem_map.mp hp
        simp)
    refine ⟨?_, congrArg Run.state (simple _ _), congrArg Run.events (simple _ _)⟩
    exact congrArg (fun m => Except.ok (m.filterMap fun _ v => v)) hnone
  | _ =>
    exact ⟨congrArg _ (congrArg Run.answer (simple _ _)), congrArg Run.state (simple _ _),
      congrArg Run.events (simple _ _)⟩

/-! ## The strategies there are -/

/-- The choice of a failure strategy. -/
inductive Shipped
  | propagating
  | robust (obliterating : Bool)

namespace Shipped

/-- The chosen strategy, over a store that it may clean up. -/
def forStore (store : Store σ K V) : Shipped → Strategy σ K V
  | propagating => Strategy.propagating
  | robust obliterating => Strategy.robust obliterating store

/-- Whether the strategy removes the mappings that a failure has put in doubt. -/
def obliterates : Shipped → Bool
  | propagating => false
  | robust obliterating => obliterating

/-- What a call whose store call failed is answered. -/
def verdict (call : Call K V) (e : StoreError) : Shipped → Except CacheError call.Answer
  | propagating => .error (.store e)
  | robust _ => .ok call.degraded

/-- Asked about a failed call, a strategy gives its verdict, and leaves the store alone unless it
recovers the scope of the call. -/
theorem forStore_apply (shipped : Shipped) (store : Store σ K V) (call : Call K V) (e : StoreError)
    (s : σ) :
    let r := shipped.forStore store call.failed e s
    r.answer.map call.ofDecision = shipped.verdict call e ∧
      r.state = if shipped.obliterates then (store.recover call.scope s).state else s := by
  cases shipped with
  | propagating => cases call <;> exact ⟨rfl, rfl⟩
  | robust obliterating =>
    obtain ⟨hanswer, hstate, -⟩ := Strategy.robust_apply obliterating store call e s
    refine ⟨hanswer, hstate.trans ?_⟩
    cases obliterating with
    | false => rfl
    | true =>
      rcases hr : store.recover call.scope s with ⟨second | u, s', ns⟩
      · rw [cleanup_of_stuck hr]
        rfl
      · rw [cleanup_of_recovered hr]
        rfl

end Shipped

end Strategy

/-- A cache with one of the strategies there are, over a store that fails by plan. -/
def Cache.unreliable (name : String) (expiry : Policy K V)
    (shipped : Strategy.Shipped) (store : Store σ K V) (plan : Plan) : Cache (Counted σ) K V where
  name
  store := store.failing plan
  strategy := shipped.forStore (store.failing plan)
  expiry

/-! ## Degrading -/

namespace Cache

variable [DecidableEq K] [BEq V]

/-- A call whose store call failed degrades: the caller gets as little as the call can answer. The
strategy tries some removals, of which some are made, and logs one entry. -/
structure Degrades (c : Cache (Counted (Memory K V)) K V) (call : Call K V)
    (s : State (Counted (Memory K V))) (e : StoreError) (tried made : List (Removal K))
    (entry : LogEntry K) : Prop where
  answer : (c.serve call s).answer = .ok call.degraded
  events : (c.serve call s).events =
    (c.ask call s).events ++ .consulted call.failed e ::
      ((tried.map fun r => .note (.called r.call)) ++ [.note (.logged entry)] ++
        call.failure?.toList.map .recorded)
  level : entry.level = .error
  /-- Removals leave the keys they are not meant for as the failed call left them. -/
  table : ∀ k, (c.serve call s).state.store.inner.table.get? k =
    if ∃ r ∈ made, r.Covers k then none else (c.ask call s).state.store.inner.table.get? k

variable (name : String) (policy expiry : Policy K V) {plan : Plan} {strike : Strike}
  {s : State (Counted (Memory K V))}

/-- A call whose store call failed degrades as its recovery went. -/
theorem degrades_of_recovery {c : Cache (Counted (Memory K V)) K V} (call : Call K V)
    {e : StoreError} (hc : c.strategy = .robust true c.store)
    (hs : s.lifecycle.status = .available)
    (ha : (c.ask call s).answer = .error (.store e)) {tried made : List (Removal K)}
    {n : Nat} {entry : LogEntry K} (hlevel : entry.level = .error)
    (h : Strategy.cleanup true c.store call.scope e (c.ask call s).state.store =
      ⟨(), ⟨made.foldl Memory.forced (c.ask call s).state.store.inner, n⟩,
        (tried.map fun r => .called r.call) ++ [.logged entry]⟩) :
    Degrades c call s e tried made entry := by
  obtain ⟨hanswer, hstate, hevents⟩ :=
    Strategy.robust_apply true c.store call e (c.ask call s).state.store
  have hserve := c.serve_of_store_error call hs ha
  simp only [hc, hanswer, hstate, hevents, h] at hserve
  refine ⟨congrArg Run.answer hserve, ?_, hlevel, fun k => ?_⟩
  · refine (congrArg Run.events hserve).trans ?_
    simp
  · refine (congrArg (fun r => r.state.store.inner.table.get? k) hserve).trans ?_
    exact Memory.get?_foldl_forced k made _

variable [DecidableEq (Handle V)]

/-- **The default strategy degrades every failed call**, for each call, for every state of the
memory, and wherever its own store call is struck: the caller gets the degraded answer, one error
is logged, and the keys of the call are removed, up to the first removal that is struck too. -/
theorem robust_degrades (plan : Plan) (call : Call K V) (hs : s.lifecycle.status = .available)
    (h : plan s.store.received = some strike) :
    let c := overFailing name policy expiry plan
    let removals := call.scope.removals
    Struck strike s (c.ask call s).answer (c.ask call s).state
        ((overMemory name policy expiry).ask call s.inner).state ∧
      ((∀ i < removals.length, plan (s.store.received + 1 + i) = none) →
        Degrades c call s strike.error removals removals (.recovered call.scope strike.error) ∧
          ∀ k, call.Concerns k → (c.serve call s).state.store.inner.table.get? k = none) ∧
      ∀ j < removals.length, (∀ i < j, plan (s.store.received + 1 + i) = none) →
        ∀ second, plan (s.store.received + 1 + j) = some second →
          Degrades c call s strike.error (removals.take (j + 1))
            (removals.take (if second.late then j + 1 else j))
            (.inconsistent call.scope strike.error second.error) := by
  intro c removals
  have hstruck := ask_struck name policy expiry h call
  refine ⟨hstruck, fun hpass => ?_, fun j hj hpass second hsecond => ?_⟩
  · rw [← hstruck.received] at hpass
    have hrecover := Store.forceAll_pass policy plan removals _ hpass
    rw [← Store.recover_eq] at hrecover
    have hd := degrades_of_recovery call rfl hs hstruck.answer rfl
      (Strategy.cleanup_of_recovered hrecover strike.error)
    refine ⟨hd, fun k hk => ?_⟩
    rw [hd.table k, if_pos ((call.covers_iff_concerns k).mpr hk)]
  · rw [← hstruck.received] at hpass hsecond
    have hrecover := Store.forceAll_struck policy plan removals _ j second hj hpass hsecond
    rw [← Store.recover_eq] at hrecover
    exact degrades_of_recovery call rfl hs hstruck.answer rfl
      (Strategy.cleanup_of_stuck hrecover strike.error)

/-- A bulk put fails after it took its full effect. Its recovery removes both keys; or it removes
the first one and is struck at the second. -/
theorem robust_degrades_torn :
    let e : StoreError := .plain "torn"
    let once : Plan := fun n => if n = 0 then some { error := e, late := true } else none
    let twice : Plan := fun n => if n = 2 then some { error := .plain "down" } else once n
    let call : Call Nat Nat := .putAll [(1, ⟨0, 10⟩), (2, ⟨1, 20⟩)]
    let s : State (Counted (Memory Nat Nat)) :=
      { store := { inner := {} }, lifecycle := { status := .available } }
    Degrades (overFailing "cache" .eternal .eternal once) call s e [.key 1, .key 2]
        [.key 1, .key 2] (.recovered (.keys [1, 2]) e) ∧
      Degrades (overFailing "cache" .eternal .eternal twice) call s e [.key 1, .key 2] [.key 1]
        (.inconsistent (.keys [1, 2]) e (.plain "down")) := by
  intro e once twice call s
  have hs : s.lifecycle.status = .available := rfl
  have honce := robust_degrades "cache" .eternal .eternal once call hs rfl
  have htwice := robust_degrades "cache" .eternal .eternal twice call hs rfl
  exact ⟨(honce.2.1 (by decide)).1, htwice.2.2 1 (by decide) (by decide) _ rfl⟩

end Cache

end ResilientCache
