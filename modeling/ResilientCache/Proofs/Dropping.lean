import ResilientCache.Proofs.Degrading
import ResilientCache.Proofs.Leaving
import ResilientCache.Proofs.LoadingOnce
import ResilientCache.Proofs.Sharing

/-!
# Expired mappings that are dropped

A mapping that has expired stays in the table until something touches its key, and as long as it
does, a clock that is set back brings it to life again. The incidents that touch a key are said to
purge it (`Incident.Purges`): `containsKey` does not, and neither does a listing of the store.

An incident writes a key that has no live mapping if it hands the store a value for it, which
neither the policy of the cache nor that of the store denies (`Incident.Writes`). An incident that
purges such a key and does not write it leaves nothing held under it, and a key under which nothing
is held stays so until it is written. Walks look keys up as they go; those that have met no failure
(`Cursor.Sound`) never consult the failure strategy, and bring in nothing.

The store is one in memory, in any order, shared by a cache and others, under any policies.

Headlines:
* `Request.leaves_absent`, `Cache.leaves_absent`: requests and calls.
* `use_lacks`, `use_absent`: what one use does.
* `history_sound`: walks that have met no failure go on to meet none.
* **`occur_absent`**, **`history_lacks`**: one incident, and many.
-/

namespace ResilientCache

open Memory

variable {K V : Type} [DecidableEq K]

/-! ## What is left of a key that has no live mapping -/

namespace Memory

variable {policy : Policy K V} {now : Instant} {m : Memory K V} {ks : List K} {k : K}

/-- What is not held is not live. -/
theorem live?_of_get? (h : m.table.get? k = none) : m.live? k = none := by
  rw [live?, h]
  rfl

omit [DecidableEq K] in
theorem settled?_absent [DecidableEq (Handle V)] {v? : Option (Option (Handle V))}
    (h : ∀ v, v? = some (some v) → policy.Denies (.creation k v.value)) :
    settled? policy now k none v? = none := by
  rcases v? with _ | _ | v
  · rfl
  · rfl
  · rw [settled?, Option.map_none, if_neg (Option.some_ne_none v).symm]
    exact rewritten?_of_denied (h v rfl)

omit [DecidableEq K] in
theorem loaded?_absent {v? : Option (Option (Handle V))}
    (h : ∀ v, v? = some (some v) → policy.Denies (.creation k v.value)) :
    loaded? policy now k none v? = none := by
  rcases v? with _ | _ | v
  · rfl
  · rfl
  · exact rewritten?_of_denied (h v rfl)

variable {answer : Except Fault (Mappings K V)} (hlive : m.live? k = none)
  (htouched : k ∈ ks ∨ m.table.get? k = none)
  (hkept : ∀ pairs v, answer = .ok pairs → k ∈ ks → (KeyMap.ofList pairs).get? k = some (some v) →
    policy.Denies (.creation k v.value))

include hlive htouched hkept

theorem recomputed?_absent [DecidableEq (Handle V)] : m.recomputed? policy ks k answer = none := by
  by_cases hk : k ∈ ks
  · cases answer with
    | error fault => rw [recomputed?, if_pos hk, hlive]
    | ok pairs =>
      rw [recomputed?, if_pos hk, hlive]
      exact settled?_absent fun v => hkept pairs v rfl hk
  · have hheld := htouched.resolve_left hk
    cases answer <;> rw [recomputed?, if_neg hk, hheld]

theorem reloaded?_absent : m.reloaded? policy ks k answer = none := by
  by_cases hk : k ∈ ks
  · have habsent : k ∈ m.absent ks := mem_absent.mpr ⟨hk, hlive⟩
    cases answer with
    | error fault => rw [reloaded?, if_pos habsent]
    | ok pairs =>
      rw [reloaded?, if_pos habsent]
      exact loaded?_absent fun v => hkept pairs v rfl hk
  · have hheld := htouched.resolve_left hk
    have habsent : k ∉ m.absent ks := fun h => hk (mem_absent.mp h).1
    cases answer <;> rw [reloaded?, if_neg habsent, hheld]

end Memory

/-! ## Requests -/

/-- A request drops a mapping of a key that has expired. -/
def Request.Purges : Request K V → K → Prop
  | .get k, k' => k = k'
  | .put k _, k' => k = k'
  | .remove k, k' => k = k'
  | .clear, _ => True
  | .bulkCompute ks _, k => k ∈ ks
  | .bulkComputeIfAbsent ks _, k => k ∈ ks
  | _, _ => False

/-- A request hands the store a value for a key that has no live mapping. -/
def Request.Gives (m : Memory K V) : Request K V → K → Handle V → Prop
  | .put k v, k', v' => k = k' ∧ v = v'
  | .bulkCompute ks f, k, v =>
    k ∈ ks ∧ ∃ pairs, f (m.batch ks) = .ok pairs ∧ (KeyMap.ofList pairs).get? k = some (some v)
  | .bulkComputeIfAbsent ks f, k, v =>
    k ∈ ks ∧ ∃ pairs, f (m.absent ks) = .ok pairs ∧ (KeyMap.ofList pairs).get? k = some (some v)
  | _, _, _ => False

/-- A request that purges a key without a live mapping, or finds nothing held under it, leaves
nothing held under it, unless it writes it. -/
theorem Request.leaves_absent [DecidableEq (Handle V)] {policy : Policy K V} {m : Memory K V}
    {k : K} (hlive : m.live? k = none) (r : Request K V)
    (htouched : r.Purges k ∨ m.table.get? k = none)
    (hkept : ∀ v, r.Gives m k v → policy.Denies (.creation k v.value)) :
    r.leaves policy m k = none := by
  cases r with
  | get k' =>
    by_cases hk : k' = k
    · subst hk
      rw [leaves, if_pos rfl, hlive]
    · rw [leaves, if_neg hk, htouched.resolve_left hk]
  | put k' v =>
    by_cases hk : k' = k
    · subst hk
      rw [leaves, if_pos rfl, hlive]
      exact rewritten?_of_denied (hkept v ⟨rfl, rfl⟩)
    · rw [leaves, if_neg hk, htouched.resolve_left hk]
  | remove k' =>
    by_cases hk : k' = k
    · rw [leaves, if_pos hk]
    · rw [leaves, if_neg hk, htouched.resolve_left hk]
  | clear => rfl
  | bulkCompute ks f =>
    exact recomputed?_absent hlive htouched fun pairs v hp hk hv => hkept v ⟨hk, pairs, hp, hv⟩
  | bulkComputeIfAbsent ks f =>
    exact reloaded?_absent hlive htouched fun pairs v hp hk hv => hkept v ⟨hk, pairs, hp, hv⟩
  | containsKey k' => exact htouched.resolve_left id
  | len => exact htouched.resolve_left id
  | isEmpty => exact htouched.resolve_left id

variable [DecidableEq (Handle V)] [BEq V]

/-! ## Calls -/

/-- A call drops a mapping of a key that has expired. -/
def Call.Purges : Call K V → K → Prop
  | .containsKey _, _ => False
  | call, k => call.Concerns k

namespace Cache

variable {policy : Policy K V} {c : Cache (Memory K V) K V}
  {order : Memory K V → List (K × Holder V)} {k : K}

omit [DecidableEq (Handle V)] in
/-- A write decides something for every key that it concerns. -/
theorem decided_of_concerns {call : Call K V} (hw : call.Recomputes) (hk : call.Concerns k)
    (old? : Option (Handle V)) : ∃ v?, c.decided call k old? = some v? := by
  have one {k' : K} {v? : Option (Handle V)} (hk : k = k') :
      ∃ u?, (if k = k' then some v? else none) = some u? := ⟨v?, if_pos hk⟩
  cases call with
  | put k' v => exact one hk
  | putIfAbsent k' v => exact one hk
  | removeIf k' value => exact one hk
  | replace k' v => exact one hk
  | replaceIf k' old new => exact one hk
  | putAll entries =>
    obtain ⟨v, hv⟩ := Option.isSome_iff_exists.mp ((KeyMap.isSome_get?_ofList entries k).mpr hk)
    exact ⟨_, congrArg (Option.map _) hv⟩
  | removeAll ks => exact ⟨none, if_pos hk⟩
  | _ => exact hw.elim

omit [DecidableEq (Handle V)] in
/-- A call that is no write decides for no value. -/
theorem not_decided {call : Call K V} (hw : ¬ call.Recomputes) {old? : Option (Handle V)}
    {v : Handle V} : c.decided call k old? ≠ some (some v) := by
  have hnone : c.decided call k old? = none := by
    cases call <;> first | rfl | exact absurd trivial hw
  rw [hnone]
  exact (Option.some_ne_none _).symm

/-- A call that purges a key without a live mapping, or finds nothing held under it, leaves nothing
held under it, unless it writes it. -/
theorem leaves_absent {m : Memory K V} (hlive : m.live? k = none) (call : Call K V)
    (htouched : call.Purges k ∨ m.table.get? k = none)
    (hkept : ∀ v, c.decided call k none = some (some v) → policy.Denies (.creation k v.value)) :
    c.leaves policy m call k = none := by
  have write (hw : call.Recomputes) (htouched : call.Concerns k ∨ m.table.get? k = none) :
      c.leaves policy m call k = none := by
    rw [leaves_of_recomputes hw, hlive, Option.map_none]
    cases hd : c.decided call k none with
    | none =>
      refine htouched.resolve_left fun hk => ?_
      obtain ⟨v?, hsome⟩ := c.decided_of_concerns hw hk none
      cases hd.symm.trans hsome
    | some v? => exact settled?_absent fun v hv => hkept v (hd.trans hv)
  have read (ks : List K) (htouched : k ∈ ks ∨ m.table.get? k = none) :
      (if k ∈ ks then m.live? k else m.table.get? k) = none := by
    split
    · exact hlive
    · exact htouched.resolve_left ‹_›
  cases call with
  | get k' =>
    by_cases hk : k' = k
    · subst hk
      rw [leaves, if_pos rfl, hlive]
    · rw [leaves, if_neg hk, htouched.resolve_left (Ne.symm hk)]
  | remove k' =>
    by_cases hk : k' = k
    · rw [leaves, if_pos hk]
    · rw [leaves, if_neg hk, htouched.resolve_left (Ne.symm hk)]
  | containsKey k' => exact htouched.resolve_left id
  | clear => rfl
  | getAll ks => exact read ks htouched
  | getAllPresent ks => exact read ks htouched
  | put k' v => exact write trivial htouched
  | putIfAbsent k' v => exact write trivial htouched
  | removeIf k' value => exact write trivial htouched
  | replace k' v => exact write trivial htouched
  | replaceIf k' old new => exact write trivial htouched
  | putAll entries => exact write trivial htouched
  | removeAll ks => exact write trivial htouched

end Cache

/-! ## Uses -/

/-- A use drops a mapping of a key that has expired. -/
def Use.Purges : Use K V → K → Prop
  | call operation, k => operation.Purges k
  | removeKey k', k => k = k'
  | getAllWith ks _, k => k ∈ ks
  | loadAll ks _ _, k => k ∈ ks
  | _, _ => False

/-- A use hands the store a value for a key that has no live mapping: a call that decides for it, or
a bulk load whose loader returns it for the keys that it is asked for. -/
def Use.Gives {σ : Type} (c : Cache σ K V) (m : Memory K V) : Use K V → K → Handle V → Prop
  | call operation, k, v => c.decided operation k none = some (some v)
  | loadAll ks replaceExisting loader, k, v =>
    k ∈ ks ∧ ∃ loaded, loader (m.wanted ks replaceExisting) = .ok loaded ∧ loaded.get? k = some v
  | _, _, _ => False

/-- The store under a cache holds nothing under some keys, and no walk has met a failure. -/
structure World.Lacks (gone : K → Prop) (w : World (Memory K V) K V) : Prop where
  held : ∀ k, gone k → w.cache.store.table.get? k = none
  sound : ∀ i, (w.walks i).Sound

namespace Cache

variable {policy : Policy K V} {c : Cache (Memory K V) K V} (hc : c.store = .memory policy)
  (order : Memory K V → List (K × Holder V)) {gone : K → Prop} {k : K}

/-- An available cache whose store holds nothing under some keys. -/
structure State.Vacant (gone : K → Prop) (s : State (Memory K V)) : Prop where
  available : s.lifecycle.status = .available
  held : ∀ k, gone k → s.store.table.get? k = none

omit [DecidableEq K] [DecidableEq (Handle V)] [BEq V] in
/-- The raw iteration of the store shows what it holds, in some order. -/
theorem callStore_iterate (c : Cache (Memory K V) K V) (s : State (Memory K V)) :
    (c.listed order).callStore (·.iterate) s = ⟨.ok ((order s.store).map .ok), s, []⟩ := rfl

include hc

theorem serve_absent {s : State (Memory K V)} (hs : s.lifecycle.status = .available)
    (hlive : s.store.live? k = none) (call : Call K V)
    (htouched : call.Purges k ∨ s.store.table.get? k = none)
    (hkept : ∀ v, c.decided call k none = some (some v) → policy.Denies (.creation k v.value)) :
    (c.serve call s).state.store.table.get? k = none :=
  ((serve_leaves hc hs call).2 k).trans (leaves_absent hlive call htouched hkept)

theorem loadAll_absent {s : State (Memory K V)} (hs : s.lifecycle.status = .available)
    (hlive : s.store.live? k = none) {ks : List K} {replaceExisting : Bool} {loader : Loader K V}
    (htouched : k ∈ ks ∨ s.store.table.get? k = none)
    (hkept : ∀ v, (Use.loadAll ks replaceExisting loader).Gives c s.store k v →
      policy.Denies (.creation k v.value)) :
    ((c.loadAll ks replaceExisting loader).run s).state.store.table.get? k = none := by
  by_cases hne : ks = []
  · subst hne
    rw [loadAll, ExceptT.run, Op.bind_apply, checkAvailable_of_available hs]
    exact htouched.resolve_left List.not_mem_nil
  have hgiven : ∀ pairs v, (loader (s.store.wanted ks replaceExisting)).map
      (normalize (s.store.wanted ks replaceExisting)) = .ok pairs → k ∈ ks →
      (KeyMap.ofList pairs).get? k = some (some v) → policy.Denies (.creation k v.value) := by
    intro pairs v hpairs hk hv
    cases hl : loader (s.store.wanted ks replaceExisting) with
    | error fault =>
      rw [hl] at hpairs
      cases hpairs
    | ok loaded =>
      rw [hl] at hpairs
      cases hpairs
      rw [get?_normalize] at hv
      split at hv
      · exact hkept v ⟨hk, loaded, hl, Option.some.inj hv⟩
      · cases hv
  rw [loadAll_state hc hs hne]
  cases replaceExisting with
  | true => exact recomputed?_absent hlive htouched hgiven
  | false => exact reloaded?_absent hlive htouched hgiven

/-! ## Keys under which nothing is held -/

theorem serve_vacant {s : State (Memory K V)} (h : s.Vacant gone) (call : Call K V)
    (hkept : ∀ k v, gone k → c.decided call k none = some (some v) →
      policy.Denies (.creation k v.value)) : (c.serve call s).state.Vacant gone := by
  refine ⟨?_, fun k hk => ?_⟩
  · have hlives : State.LivesBy s.lifecycle (c.serve call s).state := c.serve_livesBy call s rfl
    exact (congrArg Lifecycle.status hlives).trans h.available
  · have hheld := h.held k hk
    exact serve_absent hc h.available (live?_of_get? hheld) call (.inr hheld) (hkept k · hk)

/-- A call that is no write brings in no key. -/
theorem serve_vacant_of_read {s : State (Memory K V)} (h : s.Vacant gone) (call : Call K V)
    (hw : ¬ call.Recomputes) : (c.serve call s).state.Vacant gone :=
  serve_vacant hc h call fun _ _ _ hv => absurd hv (not_decided hw)

/-- Removing keys brings in none. -/
theorem removeEach_vacant (ks : List K) :
    ((c.listed order).removeEach ks).run.Preserves (State.Vacant gone) := by
  have remove (k : K) : ((c.listed order).remove k).run.Preserves (State.Vacant gone) :=
    fun s h => serve_vacant_of_read hc h (.remove k) id
  induction ks with
  | nil => exact .pure _
  | cons k ks ih => exact Op.bind_preserves (remove k) fun _ => ih

theorem removeAllEntries_vacant :
    (c.listed order).removeAllEntries.run.Preserves (State.Vacant gone) := by
  intro s h
  have hrun : (c.listed order).removeAllEntries s =
      (c.listed order).removeEach ((order s.store).map Prod.fst) s := by
    rw [removeAllEntries, Op.bind_apply, checkAvailable_of_available h.available]
    simp only [Op.bind_apply, callStore_iterate, List.nil_append, ExceptT.lift, ExceptT.mk,
      Action.map_apply, rawKeys_apply]
  rw [ExceptT.run, hrun]
  exact removeEach_vacant hc order _ s h

omit [BEq V] in
theorem lookup_vacant (k : K) (s : State (Memory K V)) (h : s.Vacant gone) :
    ((c.listed order).lookup k false s).state.Vacant gone ∧
      ∃ v?, ((c.listed order).lookup k false s).answer = .ok v? := by
  have hlisted : (c.listed order).store = (Store.memory policy).listedBy order := by
    rw [listed, hc]
  obtain ⟨es, hrun⟩ := lookup_run hlisted h.available k false
  rw [hrun]
  refine ⟨⟨h.available, fun k' hk' => ?_⟩, _, rfl⟩
  have hheld := h.held k' hk'
  exact ((Backend.serve_leaves policy (.get k) s.store).2 k').trans
    (Request.leaves_absent (live?_of_get? hheld) (.get k) (.inr hheld) fun _ => False.elim)

omit [DecidableEq K] [DecidableEq (Handle V)] [BEq V] hc in
/-- A walk that begins meets no failure, if no look-up fails. -/
theorem iterate_sound {I : State (Memory K V) → Prop}
    (hlookup : ∀ k s, I s → I ((c.listed order).lookup k false s).state ∧
      ∃ v?, ((c.listed order).lookup k false s).answer = .ok v?)
    {s : State (Memory K V)} (hs : s.lifecycle.status = .available) (h : I s) (quiet : Bool) :
    let r := ((c.listed order).iterate quiet).run s
    I r.state ∧ ∀ cur, r.answer = .ok cur → cur.Sound := by
  have hseek := Cursor.seek_sound hlookup { raw := (order s.store).map .ok, quiet }
    (order s.store) h
  rw [iterate, ExceptT.run, Op.bind_apply, checkAvailable_of_available hs]
  simp only [Op.bind_apply, callStore_iterate, List.nil_append, ExceptT.lift, ExceptT.mk,
    Action.map_apply]
  refine ⟨hseek.1, fun cur hcur => ?_⟩
  cases hcur
  exact hseek.2

theorem cursorRemove_vacant {s : State (Memory K V)} (h : s.Vacant gone) {cur : Cursor K V}
    (hcur : cur.Sound) :
    let r := cur.remove (c.listed order) s
    r.state.Vacant gone ∧ r.answer.2.Sound := by
  dsimp only
  rw [cur.remove_apply (c.listed order) h.available]
  cases cur.current with
  | none => exact ⟨h, hcur⟩
  | some k => exact ⟨serve_vacant_of_read hc h (.remove k) id, hcur.raw, hcur.ahead⟩

/-! ## Worlds -/

variable {w : World (Memory K V) K V}

/-- A use brings in no key that it does not write, and its walks meet no failure. -/
theorem use_lacks (hw : w.Lacks gone) (u : Use K V)
    (hkept : ∀ k v, gone k → w.status = .available → u.Gives c w.cache.store k v →
      policy.Denies (.creation k v.value)) :
    ((c.listed order).use u w).state.Lacks gone := by
  by_cases hs : w.status = .available
  swap
  · rw [use_refused _ u hs]
    exact hw
  have h : w.cache.Vacant gone := ⟨hs, hw.held⟩
  have onCache {α : Type} {x : Action (State (Memory K V)) (Event K V) α}
      (hx : ∀ k, gone k → (x w.cache).state.store.table.get? k = none) :
      (onCache x w).state.Lacks gone := by
    rw [onCache_apply]
    exact ⟨hx, hw.sound⟩
  have onWalk {α : Type} {i : Nat}
      {x : Cursor K V → Action (State (Memory K V)) (Event K V) (α × Cursor K V)}
      (hx : (x (w.walks i) w.cache).state.Vacant gone ∧ (x (w.walks i) w.cache).answer.2.Sound) :
      (onWalk i x w).state.Lacks gone := by
    rw [onWalk_apply]
    exact ⟨hx.1.held, World.sound_setWalk hw.sound hx.2 i⟩
  cases u with
  | call operation =>
    refine onCache fun k hk => ?_
    rw [serve_listed]
    exact (serve_vacant hc h operation fun k v hk => hkept k v hk hs).held k hk
  | removeKey k' =>
    refine onCache fun k hk => ?_
    rw [removeKey_state, serve_listed]
    exact (serve_vacant_of_read hc h (.remove k') id).held k hk
  | getAllWith ks includeAbsent =>
    refine onCache fun k hk => ?_
    rw [getAllWith_state, serve_listed]
    cases includeAbsent <;> exact (serve_vacant_of_read hc h _ id).held k hk
  | loadAll ks replaceExisting loader =>
    refine onCache fun k hk => ?_
    have hheld := h.held k hk
    exact loadAll_absent hc hs (live?_of_get? hheld) (.inr hheld) fun v => hkept k v hk hs
  | removeAllEntries => exact onCache (removeAllEntries_vacant hc order w.cache h).held
  | iterate i quiet =>
    obtain ⟨hafter, hsound⟩ := iterate_sound order (lookup_vacant hc order) hs h quiet
    rw [use, beginWalk_apply]
    dsimp only
    split
    · exact ⟨hafter.held, World.sound_setWalk hw.sound (hsound _ ‹_›) i⟩
    · exact ⟨hafter.held, hw.sound⟩
  | hasNext i =>
    refine onWalk ?_
    rw [Action.bind_apply, ExceptT.run, Cursor.hasNext, Op.bind_apply,
      checkAvailable_of_available hs]
    exact ⟨h, hw.sound i⟩
  | nextEntry i => exact onWalk (Cursor.nextEntry_sound (lookup_vacant hc order) (hw.sound i) h)
  | remove i => exact onWalk (cursorRemove_vacant hc order h (hw.sound i))

/-- A use that purges a key without a live mapping leaves nothing held under it, unless it writes
it. -/
theorem use_absent (hs : w.status = .available) (hlive : w.cache.store.live? k = none) (u : Use K V)
    (hpurges : u.Purges k)
    (hkept : ∀ v, u.Gives c w.cache.store k v → policy.Denies (.creation k v.value)) :
    ((c.listed order).use u w).state.cache.store.table.get? k = none := by
  have read (call : Call K V) (hw : ¬ call.Recomputes) (hpurges : call.Purges k) :
      (c.serve call w.cache).state.store.table.get? k = none :=
    serve_absent hc hs hlive call (.inl hpurges) fun _ hv => absurd hv (not_decided hw)
  cases u with
  | call operation =>
    rw [use, onCache_apply, serve_listed]
    exact serve_absent hc hs hlive operation (.inl hpurges) hkept
  | removeKey k' =>
    rw [use, onCache_apply]
    dsimp only
    rw [removeKey_state, serve_listed]
    exact read (.remove k') id hpurges
  | getAllWith ks includeAbsent =>
    rw [use, onCache_apply]
    dsimp only
    rw [getAllWith_state, serve_listed]
    cases includeAbsent with
    | true => exact read (.getAll ks) id hpurges
    | false => exact read (.getAllPresent ks) id hpurges
  | loadAll ks replaceExisting loader =>
    rw [use, onCache_apply]
    exact loadAll_absent hc hs hlive (.inl hpurges) hkept
  | _ => exact hpurges.elim

end Cache

/-! ## Incidents -/

/-- An incident drops a mapping of a key that has expired. -/
def Incident.Purges (w : World (Memory K V) K V) : Incident (Memory K V) K V → K → Prop
  | .deed (.use u), k => w.status = .available ∧ u.Purges k
  | .turn (.request r), k => r.Purges k
  | _, _ => False

/-- An incident hands the store a value for a key that has no live mapping. -/
def Incident.Gives (c : Cache (Memory K V) K V) (w : World (Memory K V) K V) :
    Incident (Memory K V) K V → K → Handle V → Prop
  | .deed (.use u), k, v => w.status = .available ∧ u.Gives c w.cache.store k v
  | .turn (.request r), k, v => r.Gives w.cache.store k v
  | _, _, _ => False

/-- An incident is none that changes the store but by its calls or by the clock. -/
def Incident.IsOwn : Incident (Memory K V) K V → Prop
  | .deed d => d.IsOwn
  | .turn _ => True

namespace Cache

variable (c : Cache (Memory K V) K V) (order : Memory K V → List (K × Holder V))
  {w : World (Memory K V) K V} {gone : K → Prop} {k : K}

/-- The cache under its policies, over a store in memory. -/
def withPolicies (p : Policies K V) : Cache (Memory K V) K V :=
  { c with store := .memory p.store, expiry := p.cache }

/-- The same over a store in memory whose raw iteration comes in some order. -/
def shared (p : Policies K V) : Cache (Memory K V) K V := (c.withPolicies p).listed order

/-- An incident writes a key that has no live mapping. -/
def Writes (p : Policies K V) (w : World (Memory K V) K V) (x : Incident (Memory K V) K V) (k : K) :
    Prop :=
  ∃ v, x.Gives (c.shared order p) w k v ∧ ¬ p.store.Denies (.creation k v.value)

variable {c order}

theorem denied_of_not_writes {p : Policies K V} {x : Incident (Memory K V) K V}
    (h : ¬ c.Writes order p w x k) (v : Handle V) (hv : x.Gives (c.shared order p) w k v) :
    p.store.Denies (.creation k v.value) := by
  by_contra hdenied
  exact h ⟨v, hv, hdenied⟩

/-- An incident brings in no key that it does not write, and walks meet no failure in it. -/
theorem occur_lacks (hw : w.Lacks gone) (p : Policies K V) {x : Incident (Memory K V) K V}
    (hown : x.IsOwn) (hkept : ∀ k, gone k → ¬ c.Writes order p w x k) :
    (occur (c.shared order) .whole p x w).state.Lacks gone := by
  cases x with
  | deed d =>
    show ((c.shared order p).act d w).state.Lacks gone
    cases d with
    | use u =>
      refine use_lacks rfl order hw u fun k v hk hs hv => ?_
      exact denied_of_not_writes (hkept k hk) v ⟨hs, hv⟩
    | next i =>
      by_cases hs : w.status = .available
      · obtain ⟨hafter, hsound⟩ := Cursor.step_sound (lookup_vacant (c := c.withPolicies p) rfl order)
          (hw.sound i) (s := w.cache) ⟨hs, hw.held⟩
        rw [act, onWalk_apply]
        exact ⟨hafter.held, World.sound_setWalk hw.sound hsound i⟩
      · rw [act, onWalk_apply, step_refused _ _ hs]
        refine ⟨hw.held, World.sound_setWalk hw.sound ?_ i⟩
        exact ⟨(hw.sound i).raw, (hw.sound i).ahead⟩
    | move t table => cases t <;> exact ⟨hw.held, hw.sound⟩
    | addHook hook => exact ⟨hw.held, hw.sound⟩
    | removeHook hook => exact ⟨hw.held, hw.sound⟩
    | outside f =>
      obtain ⟨t, ht⟩ := hown w.cache.store
      refine ⟨fun k hk => ?_, hw.sound⟩
      show (f w.cache.store).table.get? k = none
      rw [ht]
      exact hw.held k hk
  | turn t =>
    cases t with
    | clock move => exact ⟨hw.held, hw.sound⟩
    | iterate => exact ⟨hw.held, hw.sound⟩
    | request r =>
      refine ⟨fun k hk => ?_, hw.sound⟩
      have hheld := hw.held k hk
      exact ((Backend.serve_leaves p.store r w.cache.store).2 k).trans
        (r.leaves_absent (live?_of_get? hheld) (.inr hheld) (denied_of_not_writes (hkept k hk)))

variable (c order) in
/-- Walks meet no failure. -/
theorem occur_sound (hw : ∀ i, (w.walks i).Sound) (p : Policies K V)
    {x : Incident (Memory K V) K V} (hown : x.IsOwn) :
    ∀ i, ((occur (c.shared order) .whole p x w).state.walks i).Sound := by
  have hlacks : w.Lacks fun _ => False := ⟨fun _ => False.elim, hw⟩
  exact (occur_lacks hlacks p hown fun _ => False.elim).sound

/-- **An incident that purges a key without a live mapping leaves nothing held under it**, unless it
writes it. -/
theorem occur_absent (hlive : w.cache.store.live? k = none) (p : Policies K V)
    {x : Incident (Memory K V) K V} (hpurges : x.Purges w k) (hkept : ¬ c.Writes order p w x k) :
    (occur (c.shared order) .whole p x w).state.cache.store.table.get? k = none := by
  cases x with
  | deed d =>
    cases d with
    | use u =>
      refine use_absent (c := c.withPolicies p) rfl order hpurges.1 hlive u hpurges.2 fun v hv => ?_
      exact denied_of_not_writes hkept v ⟨hpurges.1, hv⟩
    | _ => exact hpurges.elim
  | turn t =>
    cases t with
    | request r =>
      exact ((Backend.serve_leaves p.store r w.cache.store).2 k).trans
        (r.leaves_absent hlive (.inl hpurges) (denied_of_not_writes hkept))
    | _ => exact hpurges.elim

/-! ## Histories -/

variable (c order)

/-- No incident of a history writes a key. -/
def Unwritten (k : K) :
    List (Policies K V × Incident (Memory K V) K V) → World (Memory K V) K V → Prop
  | [], _ => True
  | (p, x) :: rest, w => ¬ c.Writes order p w x k ∧
      Unwritten k rest (occur (c.shared order) .whole p x w).state

variable {c order}

/-- **A key under which nothing is held stays so until it is written**, and walks meet no
failure. -/
theorem history_lacks : ∀ (incidents : List (Policies K V × Incident (Memory K V) K V))
    {w : World (Memory K V) K V}, w.Lacks gone → (∀ x ∈ incidents, x.2.IsOwn) →
    (∀ k, gone k → c.Unwritten order k incidents w) →
    (history (c.shared order) .whole incidents w).state.Lacks gone
  | [], _, hw, _, _ => hw
  | (p, x) :: rest, w, hw, hown, hkept => by
    obtain ⟨hx, hrest⟩ := List.forall_mem_cons.mp hown
    rw [history_cons]
    exact history_lacks rest (occur_lacks hw p hx fun k hk => (hkept k hk).1) hrest
      fun k hk => (hkept k hk).2

variable (c order) in
theorem history_sound (incidents : List (Policies K V × Incident (Memory K V) K V))
    (hw : ∀ i, (w.walks i).Sound) (hown : ∀ x ∈ incidents, x.2.IsOwn) :
    ∀ i, ((history (c.shared order) .whole incidents w).state.walks i).Sound := by
  have hlacks : w.Lacks fun _ => False := ⟨fun _ => False.elim, hw⟩
  exact (history_lacks incidents hlacks hown fun _ => False.elim).sound

end Cache

end ResilientCache
