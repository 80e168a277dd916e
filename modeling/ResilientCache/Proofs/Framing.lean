import ResilientCache.Proofs.Degrading
import ResilientCache.Proofs.Settling
import ResilientCache.Proofs.Walking

/-!
# What an operation leaves alone

A store frames its calls if each of them leaves every key alone that the call is not about
(`Store.Frames`): what the store holds for the key, live or not, is the very same holder afterwards.
The store in memory frames its calls, since it treats its keys one by one (`ActsByKey`), and so does
every store that fails by plan over one that does (`Frames.failing`).

Everything that a cache does on top of such a store stays within its own keys: the call itself, what
a batch function or a loader answers, and the recovery after a failure, as far as it gets. What a
step of a walk does to the store in memory is said by `Memory.Sheds`: mappings only go, and they go
because they had expired, or because reading their key failed and the strategy removed it.

Headlines:
* `Store.memory_frames`, `Frames.failing`: the stores.
* `Shipped.preserves`: a strategy stays within the keys of the call that failed.
* `use_frames`: every use stays within its keys.
* `nextEntry_sheds`, `step_sheds`, `iterate_sheds`: what the steps of a walk remove.
* **`keys_framed`**: both, whatever fails.
-/

namespace ResilientCache

open Memory

variable {σ τ ε ε' Q A K V α β : Type}

/-! ## What a dialogue ends with -/

/-- Whatever its questions are answered, a dialogue ends with a result that satisfies `P`. -/
def Dialogue.Ends (P : α → Prop) : Dialogue Q A ε α → Prop
  | .done a => P a
  | .tell _ next => next.Ends P
  | .ask _ next => ∀ a, (next a).Ends P

namespace Dialogue.Ends

theorem run {P : α → Prop} (event : ε → ε') (reply : Q → Action τ ε' A) :
    ∀ {d : Dialogue Q A ε α}, d.Ends P → ∀ t, P (d.run event reply t).answer
  | .done _, h, _ => h
  | .tell _ next, h, t => run event reply (d := next) h t
  | .ask q next, h, t => run event reply (d := next (reply q t).answer) (h _) (reply q t).state

theorem map {P : β → Prop} (f : α → β) :
    ∀ {d : Dialogue Q A ε α}, (d.Ends fun a => P (f a)) → (d.map f).Ends P
  | .done _, h => h
  | .tell _ next, h => map f (d := next) h
  | .ask _ next, h => fun a => map f (d := next a) (h a)

end Dialogue.Ends

/-! ## Stores -/

/-- The calls of a store leave the keys alone that they are not about. What a state holds for a key
is given by `held`. -/
structure Store.Frames (store : Store σ K V) (held : σ → K → Option (Holder V)) : Prop where
  get : ∀ {k k'}, k' ≠ k → ∀ held?, (store.get k).Preserves fun s => held s k' = held?
  containsKey : ∀ k k' held?, (store.containsKey k).Preserves fun s => held s k' = held?
  put : ∀ {k k'}, k' ≠ k → ∀ v held?, (store.put k v).Preserves fun s => held s k' = held?
  remove : ∀ {k k'}, k' ≠ k → ∀ held?, (store.remove k).Preserves fun s => held s k' = held?
  iterate : ∀ k' held?, store.iterate.Preserves fun s => held s k' = held?
  bulkComputeIfAbsent : ∀ {ks k'}, k' ∉ ks → ∀ s,
    (store.bulkComputeIfAbsent ks s).Ends fun r => held r.2 k' = held s k'
  bulkCompute : ∀ {ks k'}, k' ∉ ks → ∀ s,
    (store.bulkCompute ks s).Ends fun r => held r.2 k' = held s k'

section Memory

variable [DecidableEq K]

/-- The end of a bulk primitive leaves the keys alone that it does not settle. -/
theorem Memory.settling_ends
    {each : KeyMap K (Option (Handle V)) → K → Action (Memory K V) (Note K V) Unit}
    {after : KeyMap K (Option (Handle V)) → Instant → K → Option (Holder V) → Option (Holder V)}
    (h : ∀ decided, ActsByKey (each decided) (after decided)) {settled : List K}
    (hnodup : settled.Nodup) (requested : List K) {k : K} (hk : k ∉ settled) (m : Memory K V)
    (r : Except Fault (Mappings K V)) :
    (settling each settled requested m r : BulkCall _ Q K V).Ends fun r =>
      r.2.table.get? k = m.table.get? k := by
  cases r with
  | error fault => exact rfl
  | ok pairs =>
    exact ((settleAll_byKey (h (.ofList pairs)) hnodup requested m).2.2 k).trans (if_neg hk)

variable [DecidableEq (Handle V)]

/-- The store in memory frames its calls. -/
theorem Store.memory_frames (policy : Policy K V) :
    (Store.memory policy).Frames fun m k => m.table.get? k where
  get := by
    intro k k' hne held? m hm
    have hcount : ((Store.memory policy).get k m).state.table = (m.purge k).table := by
      rw [get_memory]
      cases (m.live? k).isSome <;> rfl
    show ((Store.memory policy).get k m).state.table.get? k' = held?
    rw [hcount, get?_purge, if_neg hne.symm, hm]
  containsKey k k' held? m hm := hm
  put := by
    intro k k' hne v held? m hm
    show (write policy k v (m.purge k)).state.table.get? k' = held?
    rw [(write_byKey policy k v (m.purge k)).2, if_neg hne.symm, get?_purge, if_neg hne.symm, hm]
  remove := by
    intro k k' hne held? m hm
    have hforced := get?_forced m (.key k) k'
    rw [if_neg (show ¬ (Removal.key k).Covers k' from hne.symm), hm] at hforced
    exact hforced
  iterate k' held? m hm := hm
  bulkComputeIfAbsent := by
    intro ks k' hk m
    have hpurged : (m.purgeAll ks).table.get? k' = m.table.get? k' := by
      rw [get?_purgeAll, if_neg hk]
    rw [bulkComputeIfAbsent_eq, missing_purgeAll]
    split
    · exact hpurged
    · intro r
      rw [← hpurged]
      exact settling_ends (load_byKey policy) (nodup_absent m ks) ks
        (fun ha => hk (mem_absent.mp ha).1) _ r
  bulkCompute := by
    intro ks k' hk m
    have hpurged : (m.purgeAll ks).table.get? k' = m.table.get? k' := by
      rw [get?_purgeAll, if_neg hk]
    rw [bulkCompute_eq]
    intro r
    rw [← hpurged]
    exact settling_ends (settle_byKey policy) (nodup_eraseDups ks) ks
      (fun ha => hk (List.mem_eraseDups.mp ha)) _ r

theorem Store.memory_listedBy_frames (policy : Policy K V)
    (order : Memory K V → List (K × Holder V)) :
    ((Store.memory policy).listedBy order).Frames fun m k => m.table.get? k where
  get := (Store.memory_frames policy).get
  containsKey := (Store.memory_frames policy).containsKey
  put := (Store.memory_frames policy).put
  remove := (Store.memory_frames policy).remove
  iterate _ _ _ hm := hm
  bulkComputeIfAbsent := (Store.memory_frames policy).bulkComputeIfAbsent
  bulkCompute := (Store.memory_frames policy).bulkCompute

end Memory

namespace Plan

variable (plan : Plan)

/-- A call under a plan takes its effect or none. -/
theorem guard_effect (call : Action σ (Note K V) (Except StoreError α)) (s : Counted σ) :
    (plan.guard call s).state.inner = (call s.inner).state ∨
      (plan.guard call s).state.inner = s.inner := by
  cases hp : plan s.received with
  | none =>
    rw [guard_pass call hp]
    exact .inl rfl
  | some strike =>
    rw [guard_struck call hp]
    split
    · exact .inl rfl
    · exact .inr rfl

theorem guard_preserves {I : σ → Prop} {call : Action σ (Note K V) (Except StoreError α)}
    (h : call.Preserves I) : (plan.guard call).Preserves fun s => I s.inner := by
  intro s hs
  rcases plan.guard_effect call s with heffect | heffect
  · rw [heffect]
    exact h s.inner hs
  · rw [heffect]
    exact hs

theorem guardBulk_ends {P : σ → Prop} {call : σ → BulkCall σ Q K V} {s : Counted σ}
    (h : (call s.inner).Ends fun r => P r.2) (hs : P s.inner) :
    (plan.guardBulk call s).Ends fun r => P r.2.inner := by
  unfold guardBulk
  split
  · exact .map _ h
  · exact .map _ h
  · exact hs

end Plan

/-- A store that fails by plan frames its calls if the store does. -/
theorem Store.Frames.failing {store : Store σ K V} {held : σ → K → Option (Holder V)}
    (h : store.Frames held) (plan : Plan) :
    (store.failing plan).Frames fun s k => held s.inner k where
  get hne held? := plan.guard_preserves (h.get hne held?)
  containsKey k k' held? := plan.guard_preserves (h.containsKey k k' held?)
  put hne v held? := plan.guard_preserves (h.put hne v held?)
  remove hne held? := plan.guard_preserves (h.remove hne held?)
  iterate k' held? := by
    refine .bind (plan.guard_preserves (.bind (h.iterate k' held?) fun _ => .pure _)) fun r => ?_
    cases r <;> exact .pure _
  bulkComputeIfAbsent {_ k'} hk s :=
    plan.guardBulk_ends (P := fun s' => held s' k' = held s.inner k')
      (h.bulkComputeIfAbsent hk s.inner) rfl
  bulkCompute {_ k'} hk s :=
    plan.guardBulk_ends (P := fun s' => held s' k' = held s.inner k') (h.bulkCompute hk s.inner) rfl

/-! ## Recovery -/

namespace Store

variable {store : Store σ K V} {held : σ → K → Option (Holder V)} (h : store.Frames held) {k : K}
  {held? : Option (Holder V)}

include h

theorem force_preserves {r : Removal K} (hr : ¬ r.Covers k) :
    (store.force r).Preserves fun s => held s k = held? := by
  cases r with
  | key k' => exact .bind (h.remove (Ne.symm hr) held?) fun _ => .pure _
  | all => exact absurd trivial hr

theorem forceAll_preserves : ∀ rs : List (Removal K), (∀ r ∈ rs, ¬ r.Covers k) →
    (store.forceAll rs).Preserves fun s => held s k = held?
  | [], _ => .pure _
  | r :: rs, hrs => by
    refine .bind (force_preserves h (hrs r List.mem_cons_self)) fun answer => ?_
    cases answer with
    | ok _ => exact forceAll_preserves rs fun r' hr' => hrs r' (List.mem_cons_of_mem r hr')
    | error e => exact .pure _

/-- However far the recovery of a call's scope gets, it stays within the keys of the call. -/
theorem recover_preserves [DecidableEq K] {call : Call K V} (hk : ¬ call.Concerns k) :
    (store.recover call.scope).Preserves fun s => held s k = held? := by
  rw [recover_eq]
  exact forceAll_preserves h _ fun r hr hcovers =>
    hk ((call.covers_iff_concerns k).mp ⟨r, hr, hcovers⟩)

end Store

/-- A strategy stays within the keys of the call that failed. -/
theorem Strategy.Shipped.preserves [DecidableEq K] {store : Store σ K V}
    {held : σ → K → Option (Holder V)} (h : store.Frames held) (shipped : Strategy.Shipped)
    (e : StoreError) {call : Call K V} {k : K} (hk : ¬ call.Concerns k)
    {held? : Option (Holder V)} :
    (shipped.forStore store call.failed e).Preserves fun s => held s k = held? := by
  intro s hs
  rw [(shipped.forStore_apply store call e s).2]
  split
  · exact Store.recover_preserves h hk s hs
  · exact hs

namespace Cache

/-! ## Operations -/

/-- The store of a cache holds this for a key. -/
def State.Has (held : σ → K → Option (Holder V)) (k : K) (held? : Option (Holder V))
    (s : State σ) : Prop := held s.store k = held?

section

variable {held : σ → K → Option (Holder V)} {k : K} {held? : Option (Holder V)}

theorem onStore_has {x : Action σ (Note K V) α} (h : x.Preserves fun s => held s k = held?) :
    (onStore x).Preserves (State.Has held k held?) := fun s hs => h s.store hs

/-- A bulk call leaves alone what its dialogue leaves alone, whatever its function answers. -/
theorem bulkCall_has {call : σ → BulkCall σ Q K V}
    (h : ∀ s, (call s).Ends fun r => held r.2 k = held s k)
    (reply : Q → Action τ (Event K V) (Except Fault (Mappings K V))) (start : τ) :
    (bulkCall call reply start).Preserves (State.Has held k held?) :=
  fun s hs => (((h s.store).run Event.note reply start : _ = _).trans hs : held _ k = held?)

theorem checkAvailable_has :
    (checkAvailable : Op σ K V Unit).run.Preserves (State.Has held k held?) := fun _ h => h

variable {c : Cache σ K V} (hstore : c.store.Frames held)

include hstore

theorem computeOne_has {k' : K} (hk : k ≠ k')
    (remap : Option (Handle V) → Action τ (Event K V) (Option (Handle V))) (start : τ) :
    (c.computeOne k' remap start).Preserves (State.Has held k held?) :=
  .bind (bulkCall_has (hstore.bulkCompute (by simpa using hk)) _ _) fun _ => .pure _

variable [DecidableEq K]

/-- The store call of a call leaves the other keys alone. -/
theorem ask_has [BEq V] {call : Call K V} (hk : ¬ call.Concerns k) :
    (c.ask call).Preserves (State.Has held k held?) := by
  have plain {α : Type} {x : Action σ (Note K V) (Except StoreError α)}
      (h : x.Preserves fun s => held s k = held?) :
      (askPlain x).Preserves (State.Has held k held?) := .bind (onStore_has h) fun _ => .pure _
  have kept {α τ : Type} {x : Action (State σ) (Event K V) (Except BulkError α × τ)}
      (h : x.Preserves (State.Has held k held?)) :
      (askKept x).Preserves (State.Has held k held?) := .bind h fun _ => .pure _
  have result {α τ : Type} {x : Action (State σ) (Event K V) (Except BulkError α × τ)}
      (h : x.Preserves (State.Has held k held?)) :
      (askResult x).Preserves (State.Has held k held?) := .bind h fun _ => .pure _
  have batch {ks : List K} (hks : k ∉ ks) : k ∉ ks.eraseDups := fun h =>
    hks (List.mem_eraseDups.mp h)
  cases call with
  | get k' => exact plain (hstore.get hk held?)
  | containsKey k' => exact plain (hstore.containsKey k' k held?)
  | put k' v => exact result (computeOne_has hstore hk _ _)
  | putIfAbsent k' v => exact kept (computeOne_has hstore hk _ _)
  | remove k' => exact plain (hstore.remove hk held?)
  | removeIf k' value => exact kept (computeOne_has hstore hk _ _)
  | replace k' v => exact kept (computeOne_has hstore hk _ _)
  | replaceIf k' old new => exact kept (computeOne_has hstore hk _ _)
  | clear => exact absurd trivial hk
  | getAll ks => exact result (bulkCall_has (hstore.bulkComputeIfAbsent (batch hk)) _ _)
  | getAllPresent ks => exact result (bulkCall_has (hstore.bulkComputeIfAbsent (batch hk)) _ _)
  | putAll entries => exact kept (bulkCall_has (hstore.bulkCompute (batch hk)) _ _)
  | removeAll ks => exact kept (bulkCall_has (hstore.bulkCompute (batch hk)) _ _)

theorem loadAll_has {ks : List K} (hk : k ∉ ks) (replaceExisting : Bool) (loader : Loader K V) :
    (c.loadAll ks replaceExisting loader).run.Preserves (State.Has held k held?) := by
  refine Op.bind_preserves checkAvailable_has fun _ => ?_
  split
  · exact .pure _
  · cases replaceExisting with
    | true =>
      refine Op.bind_preserves
        (Op.lift_preserves (bulkCall_has (hstore.bulkCompute hk) _ _)) fun r => ?_
      rcases r with ⟨e | computed, _⟩ <;> exact .pure _
    | false =>
      refine Op.bind_preserves
        (Op.lift_preserves (bulkCall_has (hstore.bulkComputeIfAbsent hk) _ _)) fun r => ?_
      rcases r with ⟨e | computed, _⟩ <;> exact .pure _

variable {shipped : Strategy.Shipped} (hstrategy : c.strategy = shipped.forStore c.store)

include hstrategy

/-- What a call makes of its store call leaves the other keys alone, a recovery included. -/
theorem complete_has {call : Call K V} (hk : ¬ call.Concerns k) :
    ∀ r, (c.complete call r).Preserves (State.Has held k held?)
  | .ok _ => fun _ h => h
  | .error (.store e) => fun s h => by
    rw [complete_store, hstrategy]
    exact shipped.preserves hstore e hk s.store h
  | .error (.function fault) => fun s h => by
    rw [complete_fault]
    exact h

variable [BEq V]

theorem serve_has (call : Call K V) (hk : ¬ call.Concerns k) :
    (c.serve call).run.Preserves (State.Has held k held?) := by
  rw [serve_eq]
  exact Op.bind_preserves checkAvailable_has fun _ =>
    .bind (ask_has hstore hk) fun r => complete_has hstore hstrategy hk r

theorem removeKey_has {k' : K} (hk : k ≠ k') :
    (c.removeKey k').run.Preserves (State.Has held k held?) := by
  intro s hs
  rw [removeKey_state]
  exact serve_has hstore hstrategy (.remove k') hk s hs

theorem getAllWith_has {ks : List K} (hk : k ∉ ks) (includeAbsent : Bool) :
    (c.getAllWith ks includeAbsent).run.Preserves (State.Has held k held?) := by
  intro s hs
  rw [getAllWith_state]
  cases includeAbsent with
  | true => exact serve_has hstore hstrategy (.getAll ks) hk s hs
  | false => exact serve_has hstore hstrategy (.getAllPresent ks) hk s hs

/-- Removing the entry that a walk offered last is removing its key. -/
theorem cursorRemove_has {cur : Cursor K V} (hk : cur.current ≠ some k) :
    (cur.remove c).Preserves (State.Has held k held?) := by
  refine .bind checkAvailable_has fun r => ?_
  cases r with
  | error e => exact .pure _
  | ok _ =>
    cases hcur : cur.current with
    | none => exact .pure _
    | some k' =>
      have hne : k ≠ k' := by
        rintro rfl
        exact hk hcur
      exact .bind (serve_has hstore hstrategy (.remove k') hne) fun _ => .pure _

end

end Cache

/-- Whether a key is one of a use's own. The uses that go through a raw iteration have no keys of
their own: they may come by any. -/
def Use.Concerns (w : World σ K V) : Use K V → K → Prop
  | call operation, k => operation.Concerns k
  | removeKey k', k => k = k'
  | getAllWith ks _, k => k ∈ ks
  | loadAll ks _ _, k => k ∈ ks
  | remove i, k => (w.walks i).current = some k
  | removeAllEntries, _ => True
  | iterate _ _, _ => True
  | hasNext _, _ => True
  | nextEntry _, _ => True

/-- **A use stays within its keys**, whatever fails. -/
theorem Cache.use_frames [DecidableEq K] [BEq V] {held : σ → K → Option (Holder V)}
    {c : Cache σ K V} (hstore : c.store.Frames held) {shipped : Strategy.Shipped}
    (hstrategy : c.strategy = shipped.forStore c.store) (u : Use K V) (w : World σ K V) {k : K}
    (hk : ¬ u.Concerns w k) :
    held (c.use u w).state.cache.store k = held w.cache.store k := by
  have onCache {α : Type} {x : Action (State σ) (Event K V) α}
      (h : x.Preserves (State.Has held k (held w.cache.store k))) :
      held (onCache x w).state.cache.store k = held w.cache.store k := by
    rw [onCache_apply]
    exact h w.cache rfl
  cases u with
  | call operation => exact onCache (serve_has hstore hstrategy operation hk)
  | removeKey k' => exact onCache (removeKey_has hstore hstrategy hk)
  | getAllWith ks includeAbsent => exact onCache (getAllWith_has hstore hstrategy hk includeAbsent)
  | loadAll ks replaceExisting loader =>
    exact onCache (loadAll_has hstore hk replaceExisting loader)
  | remove i =>
    rw [use, onWalk_apply]
    exact cursorRemove_has hstore hstrategy hk w.cache rfl
  | removeAllEntries => exact absurd trivial hk
  | iterate i quiet => exact absurd trivial hk
  | hasNext i => exact absurd trivial hk
  | nextEntry i => exact absurd trivial hk

/-! ## Steps of a walk -/

namespace Memory

variable [DecidableEq K]

/-- From one memory to another mappings have only gone, those that had expired and those that are
excused; every other key holds what it held. -/
structure Sheds (excused : K → Prop) (m m' : Memory K V) : Prop where
  now : m'.now = m.now
  entry : ∀ k, m'.table.get? k = m.table.get? k ∨
    m'.table.get? k = none ∧ (m.live? k = none ∨ excused k)

namespace Sheds

variable {excused excused' : K → Prop} {m m' m'' : Memory K V}

theorem refl (m : Memory K V) : m.Sheds excused m := ⟨rfl, fun _ => .inl rfl⟩

theorem of_table (hnow : m'.now = m.now) (htable : m'.table = m.table) : m.Sheds excused m' :=
  ⟨hnow, fun _ => .inl (by rw [htable])⟩

theorem mono (h : m.Sheds excused m') (hle : ∀ k, excused k → excused' k) :
    m.Sheds excused' m' :=
  ⟨h.now, fun k => (h.entry k).imp_right fun hgone => ⟨hgone.1, hgone.2.imp_right (hle k)⟩⟩

theorem trans (h : m.Sheds excused m') (h' : m'.Sheds excused m'') : m.Sheds excused m'' := by
  refine ⟨h'.now.trans h.now, fun k => ?_⟩
  rcases h.entry k with hsame | ⟨hgone, hwhy⟩
  · have hlive : m'.live? k = m.live? k := by rw [live?, live?, hsame, h.now]
    rcases h'.entry k with hsame' | ⟨hgone', hwhy'⟩
    · exact .inl (hsame'.trans hsame)
    · rw [hlive] at hwhy'
      exact .inr ⟨hgone', hwhy'⟩
  · rcases h'.entry k with hsame' | ⟨hgone', -⟩
    · exact .inr ⟨hsame'.trans hgone, hwhy⟩
    · exact .inr ⟨hgone', hwhy⟩

/-- A purge drops a key that is not live. -/
theorem purge (m : Memory K V) (k : K) : m.Sheds excused (m.purge k) := by
  refine ⟨purge_now m k, fun k' => ?_⟩
  rw [get?_purge]
  by_cases hk : k = k'
  · subst hk
    rw [if_pos rfl]
    cases hlive : m.live? k with
    | none => exact .inr ⟨rfl, .inl rfl⟩
    | some h => exact .inl (get?_of_live? hlive).symm
  · exact .inl (if_neg hk)

/-- A removal by force drops its key. -/
theorem forced (m : Memory K V) {k : K} (hk : excused k) : m.Sheds excused (m.forced (.key k)) := by
  refine ⟨?_, fun k' => ?_⟩
  · rw [Memory.forced]
    split <;> rfl
  · rw [get?_forced]
    by_cases hcovers : (Removal.key k).Covers k'
    · obtain rfl : k = k' := hcovers
      exact .inr ⟨if_pos rfl, .inr hk⟩
    · exact .inl (if_neg hcovers)

/-- A read drops its key if it is not live, and nothing else. -/
theorem get [DecidableEq (Handle V)] (policy : Policy K V) (k : K) (m : Memory K V) :
    m.Sheds excused ((Store.memory policy).get k m).state := by
  rw [get_memory]
  refine (Sheds.purge m k).trans ?_
  dsimp only
  split
  · exact .of_table rfl rfl
  · exact .of_table rfl rfl

end Sheds

end Memory

/-- The obliterating strategy was consulted about a failed read of a key. -/
def Strategy.Shipped.Excuses (shipped : Strategy.Shipped) (es : List (Event K V)) (k : K) : Prop :=
  shipped.obliterates = true ∧ ∃ e, .consulted (.get k) e ∈ es

/-- An action on a cache over a store in memory that fails by plan only removes mappings: those that
had expired, and those whose key the strategy removed after a failed read. -/
def Action.Sheds [DecidableEq K] (shipped : Strategy.Shipped)
    (x : Action (Cache.State (Counted (Memory K V))) (Event K V) α) : Prop :=
  ∀ s, Memory.Sheds (shipped.Excuses (x s).events) s.store.inner (x s).state.store.inner

namespace Action.Sheds

variable [DecidableEq K] {shipped : Strategy.Shipped}

/-- An action that leaves the store alone removes nothing. -/
theorem of_still {x : Action (Cache.State (Counted (Memory K V))) (Event K V) α}
    (h : ∀ s, (x s).state.store.inner = s.store.inner) : x.Sheds shipped := by
  intro s
  rw [h]
  exact .refl _

theorem pure (a : α) :
    (Pure.pure a : Action (Cache.State (Counted (Memory K V))) (Event K V) α).Sheds shipped :=
  of_still fun _ => rfl

theorem bind {x : Action (Cache.State (Counted (Memory K V))) (Event K V) α}
    {f : α → Action (Cache.State (Counted (Memory K V))) (Event K V) β} (hx : x.Sheds shipped)
    (hf : ∀ a, (f a).Sheds shipped) : (x >>= f).Sheds shipped := by
  intro s
  have left : ∀ k, shipped.Excuses (x s).events k → shipped.Excuses ((x >>= f) s).events k :=
    fun k h => ⟨h.1, h.2.imp fun e he => List.mem_append_left _ he⟩
  have right : ∀ k, shipped.Excuses (f (x s).answer (x s).state).events k →
      shipped.Excuses ((x >>= f) s).events k :=
    fun k h => ⟨h.1, h.2.imp fun e he => List.mem_append_right _ he⟩
  exact ((hx s).mono left).trans ((hf _ _).mono right)

end Action.Sheds

namespace Cache

variable [DecidableEq K]

theorem Op.bind_sheds {shipped : Strategy.Shipped} {x : Op (Counted (Memory K V)) K V α}
    {f : α → Op (Counted (Memory K V)) K V β} (hx : x.run.Sheds shipped)
    (hf : ∀ a, (f a).run.Sheds shipped) : (x >>= f).run.Sheds shipped := by
  refine .bind hx fun r => ?_
  cases r with
  | ok a => exact hf a
  | error e => exact .pure _

variable [DecidableEq (Handle V)]

/-- A cache with one of the strategies there are, over a store in memory that fails by plan and
shows its raw iteration in some order. -/
def overUnreliable (name : String) (policy expiry : Policy K V) (shipped : Strategy.Shipped)
    (order : Memory K V → List (K × Holder V)) (plan : Plan) : Cache (Counted (Memory K V)) K V :=
  unreliable name expiry shipped ((Store.memory policy).listedBy order) plan

section

variable {name : String} {policy expiry : Policy K V} {shipped : Strategy.Shipped}
  {order : Memory K V → List (K × Holder V)} {plan : Plan}

/-- Consulted about a failed read, a strategy removes the key of the read at most. -/
theorem consult_get_sheds (k : K) (e : StoreError) :
    ((overUnreliable name policy expiry shipped order plan).consult (.get k) e).run.Sheds
      shipped := by
  intro s
  set c := overUnreliable name policy expiry shipped order plan
  have hstate : ((c.consult (.get k) e).run s).state.store =
      if shipped.obliterates then (c.store.recover (.key k) s.store).state else s.store :=
    (shipped.forStore_apply c.store (.get k) e s.store).2
  rw [hstate]
  split
  · have hexcused : shipped.Excuses ((c.consult (.get k) e).run s).events k :=
      ⟨‹_›, e, List.mem_cons_self⟩
    have hforce : c.store.recover (.key k) =
        plan.guard (((Store.memory policy).listedBy order).force (.key k)) := by
      rw [Store.recover_eq, Scope.removals, Store.forceAll_singleton]
      exact Store.force_failing _ plan (.key k)
    rw [hforce]
    rcases plan.guard_effect (((Store.memory policy).listedBy order).force (.key k)) s.store with
      heffect | heffect
    · rw [heffect]
      exact Sheds.forced s.store.inner hexcused
    · rw [heffect]
      exact .refl _
  · exact .refl _

theorem resolve_get_sheds (k : K) (failure : Outcome) (e : StoreError) :
    ((overUnreliable name policy expiry shipped order plan).resolve (.get k) failure e).run.Sheds
      shipped :=
  .bind (consult_get_sheds k e) fun _ =>
    .bind (.of_still fun _ => rfl) fun _ => .pure _

/-- A read removes its key at most. -/
theorem lookup_sheds (k : K) (observed : Bool) :
    ((overUnreliable name policy expiry shipped order plan).lookup k observed).run.Sheds
      shipped := by
  have call : ((overUnreliable name policy expiry shipped order plan).callStore
      (·.get k)).run.Sheds shipped := by
    intro s
    show Memory.Sheds _ s.store.inner (plan.guard ((Store.memory policy).get k) s.store).state.inner
    rcases plan.guard_effect ((Store.memory policy).get k) s.store with heffect | heffect
    · rw [heffect]
      exact Sheds.get policy k s.store.inner
    · rw [heffect]
      exact .refl _
  have recorded (o : Outcome) (a : Option (Handle V)) :
      (do (overUnreliable name policy expiry shipped order plan).record o
          return a : Op (Counted (Memory K V)) K V _).run.Sheds shipped := .of_still fun _ => rfl
  refine Op.bind_sheds (.of_still fun _ => rfl) fun _ => Op.bind_sheds call fun r => ?_
  rcases r with e | h | h <;> cases observed
  · exact consult_get_sheds k e
  · exact resolve_get_sheds k _ e
  · exact .pure _
  · exact recorded _ _
  · exact .pure _
  · exact recorded _ _

theorem seek_sheds (cur : Cursor K V) (steps : List (RawStep K V)) :
    (Cursor.seek (overUnreliable name policy expiry shipped order plan) cur steps).Sheds
      shipped := by
  induction steps with
  | nil => exact .pure _
  | cons step rest ih =>
    obtain e | ⟨k, h⟩ := step
    · exact .pure _
    · refine .bind (lookup_sheds k false) fun r => ?_
      rcases r with e | v | v
      · exact .pure _
      · exact ih
      · exact .pure _

/-- Beginning a walk looks ahead for its first entry. -/
theorem iterate_sheds (quiet : Bool) :
    ((overUnreliable name policy expiry shipped order plan).iterate quiet).run.Sheds shipped := by
  have call : ((overUnreliable name policy expiry shipped order plan).callStore
      (·.iterate)).run.Sheds shipped := by
    refine .of_still fun s => ?_
    have still : ((overUnreliable name policy expiry shipped order plan).store.iterate).Preserves
        fun s' => s'.inner = s.store.inner := by
      refine .bind (plan.guard_preserves (I := (· = s.store.inner)) fun _ h => h) fun r => ?_
      cases r <;> exact .pure _
    exact still s.store rfl
  exact Op.bind_sheds (.of_still fun _ => rfl) fun _ => Op.bind_sheds call fun raw =>
    .bind (seek_sheds { raw, quiet } raw) fun _ => .pure _

theorem offer_sheds (cur : Cursor K V) (e : Entry K V) :
    (cur.offer (overUnreliable name policy expiry shipped order plan) e).Sheds shipped := by
  unfold Cursor.offer
  cases cur.quiet
  · exact .bind (.of_still fun _ => rfl) fun _ =>
      .bind (seek_sheds _ _) fun _ => .pure _
  · exact .bind (seek_sheds _ _) fun _ => .pure _

/-- A failure of the raw iteration puts no mapping in doubt. -/
theorem surface_sheds (cur : Cursor K V) (held : HeldBack) :
    (cur.surface (overUnreliable name policy expiry shipped order plan) held).Sheds shipped := by
  have consult (e : StoreError) : ((overUnreliable name policy expiry shipped order plan).consult
      .iterate e).run.Sheds shipped := by
    refine .of_still fun s => ?_
    cases shipped <;> rfl
  unfold Cursor.surface
  cases cur.quiet <;> cases held with
  | raw e => first
    | exact .bind (.of_still fun _ => rfl) fun _ => .bind (consult e) fun _ => .pure _
    | exact .bind (consult e) fun _ => .pure _
  | decided e => exact .of_still fun _ => rfl

theorem nextEntry_sheds (cur : Cursor K V) :
    (cur.nextEntry (overUnreliable name policy expiry shipped order plan)).Sheds shipped := by
  refine .bind (.of_still fun _ => rfl) fun r => ?_
  cases r with
  | error e => exact .pure _
  | ok _ =>
    by_cases h : cur.terminated
    · simp only [h]
      exact .pure _
    · simp only [h]
      cases cur.ahead with
      | nothing => exact .pure _
      | entry e => exact offer_sheds cur e
      | failure held => exact surface_sheds cur held

theorem step_sheds (cur : Cursor K V) :
    (cur.step (overUnreliable name policy expiry shipped order plan)).Sheds shipped := by
  unfold Cursor.step
  by_cases h : cur.terminated
  · rw [if_pos h]
    exact .pure _
  · rw [if_neg h]
    refine .bind (nextEntry_sheds cur) fun r => ?_
    obtain ⟨answer, cur'⟩ := r
    split <;> exact .pure _

end

end Cache

/-- A step of a walk: its beginning, the question whether it goes on, and each advance. -/
def Deed.IsStep : Deed σ K V → Prop
  | .use (.iterate _ _) => True
  | .use (.hasNext _) => True
  | .use (.nextEntry _) => True
  | .next _ => True
  | _ => False

namespace Cache

variable [DecidableEq K] [DecidableEq (Handle V)] [BEq V]

/-- A step of a walk only removes mappings, and only for a reason. -/
theorem act_sheds (name : String) (policy expiry : Policy K V) (shipped : Strategy.Shipped)
    (order : Memory K V → List (K × Holder V)) (plan : Plan)
    {d : Deed (Counted (Memory K V)) K V} (hd : d.IsStep) (w : World (Counted (Memory K V)) K V) :
    let r := (overUnreliable name policy expiry shipped order plan).act d w
    Sheds (shipped.Excuses r.events) w.cache.store.inner r.state.cache.store.inner := by
  cases d with
  | use u =>
    cases u with
    | iterate i quiet =>
      have hevents : ((overUnreliable name policy expiry shipped order plan).beginWalk i quiet
          w).events = _ := congrArg Run.events (beginWalk_apply _ i quiet w)
      intro r
      show Sheds (shipped.Excuses ((overUnreliable name policy expiry shipped order
        plan).beginWalk i quiet w).events) _ ((overUnreliable name policy expiry shipped order
        plan).beginWalk i quiet w).state.cache.store.inner
      rw [beginWalk_cache, hevents]
      exact iterate_sheds quiet w.cache
    | hasNext i =>
      have asked : (do return (← (w.walks i).hasNext.run, w.walks i) :
          Action (State (Counted (Memory K V))) (Event K V) _).Sheds shipped :=
        .bind (Op.bind_sheds (.of_still fun _ => rfl) fun _ => .pure _) fun _ => .pure _
      rw [act, use, onWalk_apply]
      exact asked w.cache
    | nextEntry i =>
      rw [act, use, onWalk_apply]
      exact nextEntry_sheds (w.walks i) w.cache
    | _ => exact hd.elim
  | next i =>
    rw [act, onWalk_apply]
    exact step_sheds (w.walks i) w.cache
  | _ => exact hd.elim

/-- **Nothing happens to a key that an operation is not about.** Over a store in memory in any
state, under any policies, whatever its loader answers, whichever of its store calls and of the
removals that recover from them fail, before or after their effect, and with any of the strategies
there are: a use leaves every key that is not one of its own with the very holder it had, live or
not; and a step of a walk changes a key in one way only: it removes a mapping that has expired, or
one whose read failed and that the obliterating strategy was to remove. -/
theorem keys_framed (name : String) (policy expiry : Policy K V) (shipped : Strategy.Shipped)
    (order : Memory K V → List (K × Holder V)) (plan : Plan) (w : World (Counted (Memory K V)) K V)
    (k : K) :
    let c := overUnreliable name policy expiry shipped order plan
    let before := w.cache.store.inner
    (∀ u : Use K V, ¬ u.Concerns w k →
      (c.use u w).state.cache.store.inner.table.get? k = before.table.get? k) ∧
    ∀ d : Deed (Counted (Memory K V)) K V, d.IsStep →
      let r := c.act d w
      let after := r.state.cache.store.inner
      after.table.get? k = before.table.get? k ∨
        after.table.get? k = none ∧ ∃ h, before.table.get? k = some h ∧
          (h.isExpired before.now = true ∨
            shipped = .robust true ∧ ∃ e, .consulted (.get k) e ∈ r.events) := by
  intro c before
  have hstore : c.store.Frames fun s k => s.inner.table.get? k :=
    (Store.memory_listedBy_frames policy order).failing plan
  refine ⟨fun u hk => use_frames hstore rfl u w hk, fun d hd => ?_⟩
  intro r after
  rcases (act_sheds name policy expiry shipped order plan hd w).entry k with hsame | ⟨hgone, hwhy⟩
  · exact .inl hsame
  · cases hbefore : before.table.get? k with
    | none => exact .inl hgone
    | some h =>
      refine .inr ⟨hgone, h, rfl, ?_⟩
      rcases hwhy with hdead | ⟨hobliterates, hconsulted⟩
      · left
        simpa [Memory.live?, show w.cache.store.inner.table.get? k = some h from hbefore,
          Option.filter] using hdead
      · right
        cases shipped with
        | propagating => cases hobliterates
        | robust obliterating =>
          obtain rfl : obliterating = true := hobliterates
          exact ⟨rfl, hconsulted⟩

/-- A bulk put of two keys takes its effect and fails, and of its recovery the second removal fails
too: a third key keeps its holder. A walk removes that key when it cannot read it. -/
theorem keys_framed_torn :
    let torn : Plan := fun n =>
      if n = 0 then some { error := .plain "torn", late := true }
      else if n = 2 then some { error := .plain "down" } else none
    let unread : Plan := fun n => if n = 1 then some { error := .plain "unread" } else none
    let failing (plan : Plan) : Cache (Counted (Memory Nat Nat)) Nat Nat :=
      overUnreliable "cache" .eternal .eternal (.robust true) (fun m => m.table.pairs) plan
    let table : KeyMap Nat (Holder Nat) := { pairs := [(3, .eternal ⟨0, 30⟩)] }
    let w : World (Counted (Memory Nat Nat)) Nat Nat :=
      { cache := { store := { inner := { table } }, lifecycle := { status := .available } }
        walks := fun _ => { raw := [], quiet := true } }
    let put : Use Nat Nat := .call (.putAll [(1, ⟨1, 10⟩), (2, ⟨2, 20⟩)])
    let walk : Deed (Counted (Memory Nat Nat)) Nat Nat := .use (.iterate 0 true)
    ¬ put.Concerns w 3 ∧ walk.IsStep ∧
      ((failing torn).use put w).state.cache.store.inner.table.get? 3 = some (.eternal ⟨0, 30⟩) ∧
      (((failing torn).use put w).state.cache.store.inner.table.get? 2).isSome ∧
      ((failing unread).act walk w).state.cache.store.inner.table.get? 3 = none ∧
      ∃ e, .consulted (.get 3) e ∈ ((failing unread).act walk w).events := by
  intro torn unread failing table w put walk
  have hput : ¬ put.Concerns w 3 := by
    show 3 ∉ [1, 2]
    decide
  have hgone : ((failing unread).act walk w).state.cache.store.inner.table.get? 3 = none := rfl
  have hleft : (((failing torn).use put w).state.cache.store.inner.table.get? 2).isSome := by
    decide
  have hframed := (keys_framed "cache" .eternal .eternal (.robust true) (fun m => m.table.pairs)
    torn w 3).1 put hput
  have hshed := (keys_framed "cache" .eternal .eternal (.robust true) (fun m => m.table.pairs)
    unread w 3).2 walk trivial
  refine ⟨hput, trivial, hframed, hleft, hgone, ?_⟩
  rcases hshed with hsame | ⟨-, h, hheld, hexpired | ⟨-, hconsulted⟩⟩
  · cases hsame.symm.trans hgone
  · obtain rfl : Holder.eternal ⟨0, 30⟩ = h := Option.some.inj hheld
    cases hexpired
  · exact hconsulted

end Cache

end ResilientCache
