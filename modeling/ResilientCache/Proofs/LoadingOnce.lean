import ResilientCache.Proofs.Availability
import ResilientCache.Proofs.Loading

/-!
# No key is loaded twice

A cache without expiration over a store in memory, in the middle of anything: calls, bulk loads of
overlapping keys, walks begun and advanced, moves of the clock and of the lifecycle, in any order
(`Deed.IsOwn`). The store holds a map all along, no mapping of which will ever expire.

A mapping goes only by a deed that removes its key (`Deed.Removes`), so what one deed makes of the
world is `World.Retains`. An absent-only loader is handed the requested keys that are not mapped
(`handed_iff`), and a key that it returned a value for, or that was put, is mapped afterwards
(`Supplies.maps`). Hence what has been loaded or put is not asked for again until it was removed.

Headlines:
* `act_retains`: what one deed keeps.
* `loadAll_hands`: what a loader is handed.
* `maps_of_neverRemoved`: a run keeps every key that none of its deeds removes.
* **`keys_loaded_once`**: no key is loaded twice.
-/

namespace ResilientCache

open Memory

variable {σ K V α β : Type}

/-! ## Removing and supplying -/

/-- A call is one that removes a key. -/
def Call.Removes : Call K V → K → Prop
  | remove k', k => k = k'
  | removeIf k' _, k => k = k'
  | removeAll ks, k => k ∈ ks
  | clear, _ => True
  | _, _ => False

/-- A call is one that maps a key, or keeps the mapping it has. -/
def Call.Puts : Call K V → K → Prop
  | put k' _, k => k = k'
  | putIfAbsent k' _, k => k = k'
  | putAll entries, k => k ∈ entries.map Prod.fst
  | _, _ => False

section OnMap

variable [DecidableEq K] [BEq V] {m : KeyMap K (Handle V)} {k : K}

/-- On a map a key is lost only by a call that removes it. -/
theorem Call.contains_onMap (call : Call K V) (h : m.contains k = true) (hk : ¬ call.Removes k) :
    (call.onMap m).map.contains k = true := by
  cases call with
  | put k' v => exact (m.contains_insert k' k v).mpr (.inr h)
  | putIfAbsent k' v =>
    simp only [onMap]
    split
    · exact h
    · exact (m.contains_insert k' k v).mpr (.inr h)
  | remove k' => exact (m.contains_erase_of_ne (Ne.symm hk)).trans h
  | removeIf k' value =>
    simp only [onMap]
    split
    · exact h
    · split
      · exact (m.contains_erase_of_ne (Ne.symm hk)).trans h
      · exact h
  | replace k' v =>
    simp only [onMap]
    split
    · exact (m.contains_insert k' k v).mpr (.inr h)
    · exact h
  | replaceIf k' old new =>
    simp only [onMap]
    split
    · exact h
    · split
      · exact (m.contains_insert k' k new).mpr (.inr h)
      · exact h
  | clear => exact absurd trivial hk
  | putAll entries => exact (KeyMap.contains_foldl_insert entries m k).mpr (.inr h)
  | removeAll ks =>
    have hkept : (ks.foldl KeyMap.erase m).get? k = m.get? k := by
      rw [KeyMap.get?_foldl_erase]
      exact if_neg hk
    exact (congrArg Option.isSome hkept).trans h
  | _ => exact h

theorem Call.contains_onMap_of_puts (call : Call K V) (hk : call.Puts k) :
    (call.onMap m).map.contains k = true := by
  cases call with
  | put k' v => exact (m.contains_insert k' k v).mpr (.inl (Eq.symm hk))
  | putIfAbsent k' v =>
    obtain rfl : k = k' := hk
    simp only [onMap]
    split
    · assumption
    · exact (m.contains_insert k k v).mpr (.inl rfl)
  | putAll entries => exact (KeyMap.contains_foldl_insert entries m k).mpr (.inl hk)
  | _ => exact hk.elim

omit [BEq V] in
/-- On a map a bulk load brings the keys of its batch to what its loader answered. -/
theorem Loader.get?_onMap (loader : Loader K V) (ks : List K) (replaceExisting : Bool)
    {batch : List K} (hbatch : batch = if replaceExisting then ks.eraseDups else m.missing ks)
    {loaded : KeyMap K (Handle V)} (hloaded : loader batch = .ok loaded) (hk : k ∈ batch) :
    (loader.onMap m ks replaceExisting).map.get? k = loaded.get? k := by
  have hne : batch.isEmpty = false := List.isEmpty_eq_false_iff.mpr (List.ne_nil_of_mem hk)
  simp only [Loader.onMap, ← hbatch, hne, Bool.false_eq_true, if_false, hloaded, Effect.ofLoad]
  rw [Cache.get?_load, if_pos hk]

omit [BEq V] in
/-- Every other key, and every key if the loader failed, is left as it was. -/
theorem Loader.get?_onMap_of_idle (loader : Loader K V) (ks : List K) (replaceExisting : Bool)
    {batch : List K} (hbatch : batch = if replaceExisting then ks.eraseDups else m.missing ks)
    (hk : k ∈ batch → ∃ fault, loader batch = .error fault) :
    (loader.onMap m ks replaceExisting).map.get? k = m.get? k := by
  simp only [Loader.onMap, ← hbatch]
  cases hr : (if batch.isEmpty then .ok .empty else loader batch) with
  | error fault => rfl
  | ok loaded =>
    have hnot : k ∉ batch := by
      intro hmem
      obtain ⟨fault, hfault⟩ := hk hmem
      rw [List.isEmpty_eq_false_iff.mpr (List.ne_nil_of_mem hmem), hfault] at hr
      cases hr
    show (m.load loaded batch).get? k = m.get? k
    rw [Cache.get?_load, if_neg hnot]

omit [BEq V] in
/-- On a map a bulk load loses only keys that its loader omits in replacing mode. -/
theorem Loader.contains_onMap (loader : Loader K V) (ks : List K) {replaceExisting : Bool}
    (h : m.contains k = true)
    (hk : ¬ (replaceExisting = true ∧ k ∈ ks ∧
      ∃ loaded, loader ks.eraseDups = .ok loaded ∧ loaded.get? k = none)) :
    (loader.onMap m ks replaceExisting).map.contains k = true := by
  cases replaceExisting with
  | false =>
    -- a key that is mapped is not missing
    have hnot : k ∉ m.missing ks := fun hmem => by simp [KeyMap.missing, h] at hmem
    rw [KeyMap.contains, loader.get?_onMap_of_idle ks false rfl fun hmem => absurd hmem hnot]
    exact h
  | true =>
    by_cases hmem : k ∈ ks.eraseDups
    · cases hr : loader ks.eraseDups with
      | error fault =>
        rw [KeyMap.contains, loader.get?_onMap_of_idle ks true rfl fun _ => ⟨fault, hr⟩]
        exact h
      | ok loaded =>
        rw [KeyMap.contains, loader.get?_onMap ks true rfl hr hmem]
        cases hl : loaded.get? k with
        | none => exact absurd ⟨rfl, List.mem_eraseDups.mp hmem, loaded, hr, hl⟩ hk
        | some v => rfl
    · rw [KeyMap.contains, loader.get?_onMap_of_idle ks true rfl fun h => absurd h hmem]
      exact h

end OnMap

/-! ## What is kept -/

namespace Memory

variable [DecidableEq K]

/-- No mapping of the memory will ever expire. -/
def Everlasting (m : Memory K V) : Prop := ∃ ref, m.Holds ref

/-- From one memory to another no mapping was lost that was not removed, and none will ever
expire. -/
structure Retains (removed : K → Prop) (m m' : Memory K V) : Prop where
  everlasting : m'.Everlasting
  kept : ∀ k, m.table.contains k = true → ¬ removed k → m'.table.contains k = true

namespace Retains

variable {removed : K → Prop} {m m' : Memory K V} {ref ref' : KeyMap K (Handle V)}

theorem of_holds (h : m.Holds ref) (h' : m'.Holds ref')
    (hkept : ∀ k, ref.contains k = true → ¬ removed k → ref'.contains k = true) :
    m.Retains removed m' := by
  refine ⟨⟨ref', h'⟩, fun k hk hremoved => ?_⟩
  rw [h'.contains]
  exact hkept k ((h.contains k).symm.trans hk) hremoved

/-- Two memories that hold the same map. -/
theorem of_same (h : m.Holds ref) (h' : m'.Holds ref) : m.Retains removed m' :=
  of_holds h h' fun _ hk _ => hk

theorem refl (h : m.Everlasting) : m.Retains removed m := ⟨h, fun _ hk _ => hk⟩

end Retains

end Memory

/-- A walk that has met no failure, and will meet none. -/
structure Cursor.Sound (cur : Cursor K V) : Prop where
  raw : ∃ ps : List (K × Holder V), cur.raw = ps.map .ok
  ahead : cur.ahead.isFailure = false

namespace Cursor

variable {c : Cache σ K V} {I : Cache.State σ → Prop}
  (hlookup : ∀ k s, I s →
    I (c.lookup k false s).state ∧ ∃ v?, (c.lookup k false s).answer = .ok v?)

include hlookup

/-- Looking ahead along entries meets no failure, if no look-up fails. -/
theorem seek_sound (cur : Cursor K V) : ∀ (ps : List (K × Holder V)) {s : Cache.State σ}, I s →
    let r := cur.seek c (ps.map .ok) s
    I r.state ∧ r.answer.Sound
  | [], _, h => ⟨h, ⟨[], rfl⟩, rfl⟩
  | p :: ps, s, h => by
    obtain ⟨hkept, v?, ha⟩ := hlookup p.1 s h
    simp only [List.map_cons, Cursor.seek, Action.bind_apply, ExceptT.run, ha]
    cases v? with
    | none => exact seek_sound cur ps hkept
    | some v => exact ⟨hkept, ⟨ps, rfl⟩, rfl⟩

theorem nextEntry_sound {cur : Cursor K V} (hcur : cur.Sound) {s : Cache.State σ} (h : I s) :
    let r := cur.nextEntry c s
    I r.state ∧ r.answer.2.Sound := by
  by_cases hs : s.lifecycle.status = .available
  swap
  · rw [c.nextEntry_refused cur hs]
    exact ⟨h, hcur⟩
  rw [cur.nextEntry_apply c hs]
  by_cases hterminated : cur.terminated
  · rw [if_pos hterminated]
    exact ⟨h, hcur⟩
  · rw [if_neg hterminated]
    cases hahead : cur.ahead with
    | nothing => exact ⟨h, hcur⟩
    | entry e =>
      obtain ⟨ps, hraw⟩ := hcur.raw
      dsimp only
      rw [Cursor.offer_apply, hraw]
      exact seek_sound hlookup _ ps h
    | failure held =>
      have hfailed := hcur.ahead
      rw [hahead] at hfailed
      cases hfailed

theorem step_sound {cur : Cursor K V} (hcur : cur.Sound) {s : Cache.State σ} (h : I s) :
    let r := cur.step c s
    I r.state ∧ r.answer.2.Sound := by
  obtain ⟨hkept, hsound⟩ := nextEntry_sound hlookup hcur h
  dsimp only
  rw [cur.step_apply]
  by_cases hterminated : cur.terminated
  · rw [if_pos hterminated]
    exact ⟨h, hcur⟩
  · rw [if_neg hterminated]
    refine ⟨hkept, ?_⟩
    dsimp only
    split
    all_goals
      rename_i hanswer
      rw [hanswer] at hsound
    · exact hsound
    · exact hsound
    · exact ⟨hsound.raw, hsound.ahead⟩

end Cursor

namespace Cache

variable [DecidableEq K] [DecidableEq (Handle V)] [BEq V] (c : Cache (Memory K V) K V)
  (order : Memory K V → List (K × Holder V)) {s : State (Memory K V)} {ref : KeyMap K (Handle V)}

/-! ## Operations -/

theorem serve_retains (h : s.store.Everlasting) (call : Call K V) :
    s.store.Retains call.Removes ((c.everlasting order).serve call s).state.store := by
  obtain ⟨ref, h⟩ := h
  by_cases hs : s.lifecycle.status = .available
  · have hfollows := (c.serve_follows order ⟨hs, h⟩ call).serving
    exact .of_holds h hfollows.holds fun k hk hremoved => call.contains_onMap hk hremoved
  · rw [serve_refused _ call hs]
    exact .refl ⟨ref, h⟩

theorem loadAll_retains (h : s.store.Everlasting) (ks : List K) (replaceExisting : Bool)
    (loader : Loader K V) :
    s.store.Retains
      (fun k => replaceExisting = true ∧ k ∈ ks ∧
        ∃ loaded, loader ks.eraseDups = .ok loaded ∧ loaded.get? k = none)
      (((c.everlasting order).loadAll ks replaceExisting loader).run s).state.store := by
  obtain ⟨ref, h⟩ := h
  by_cases hs : s.lifecycle.status = .available
  · have hfollows := (c.loadAll_follows order ⟨hs, h⟩ ks replaceExisting loader).serving
    exact .of_holds h hfollows.holds fun k hk hremoved => loader.contains_onMap ks hk hremoved
  · rw [loadAll, ExceptT.run, refused _ hs]
    exact .refl ⟨ref, h⟩

/-- The removal of all entries may remove any, and leaves none that will expire. -/
theorem removeAllEntries_retains (h : s.store.Everlasting) :
    s.store.Retains (fun _ => True) ((c.everlasting order).removeAllEntries.run s).state.store := by
  have remove (k : K) : ((c.everlasting order).remove k).run.Preserves
      fun s : State (Memory K V) => s.store.Everlasting :=
    fun s h => (c.serve_retains order h (.remove k)).everlasting
  have removeEach (ks : List K) : ((c.everlasting order).removeEach ks).run.Preserves
      fun s : State (Memory K V) => s.store.Everlasting := by
    induction ks with
    | nil => exact .pure _
    | cons k ks ih => exact Op.bind_preserves (remove k) fun _ => ih
  have keys (steps : List (RawStep K V)) :
      (rawKeys steps : Action (State (Memory K V)) (Event K V) (List K)).Preserves
        fun s => s.store.Everlasting := by
    induction steps with
    | nil => exact .pure _
    | cons step rest ih =>
      obtain e | p := step
      · exact .bind (fun _ h => h) fun _ => ih
      · exact .bind ih fun _ => .pure _
  refine ⟨?_, fun k _ hk => absurd trivial hk⟩
  exact Op.bind_preserves (fun _ h => h) (fun _ => Op.bind_preserves (fun _ h => h) fun steps =>
    Op.bind_preserves (Op.lift_preserves (keys steps)) removeEach) s h

/-! ## Steps of a walk -/

omit [BEq V] in
/-- A look-up changes no mapping and does not fail. -/
theorem lookup_still (k : K) (s : State (Memory K V)) (h : Serving s ref) :
    Serving ((c.everlasting order).lookup k false s).state ref ∧
      ∃ v?, ((c.everlasting order).lookup k false s).answer = .ok v? := by
  obtain ⟨ha, -, hserving⟩ := Cursor.lookup_serves c order h k
  exact ⟨hserving, _, ha⟩

omit [BEq V] in
theorem iterate_still (h : Serving s ref) (quiet : Bool) :
    let r := ((c.everlasting order).iterate quiet).run s
    Serving r.state ref ∧ ∀ cur, r.answer = .ok cur → cur.Sound := by
  have hseek := Cursor.seek_sound (c.lookup_still order)
    { raw := (order s.store).map .ok, quiet } (order s.store) h
  rw [iterate, ExceptT.run, Op.bind_apply, checkAvailable_of_available h.available]
  simp only [Op.bind_apply, iterate_apply, List.nil_append, ExceptT.lift, ExceptT.mk,
    Action.map_apply]
  refine ⟨hseek.1, fun cur hcur => ?_⟩
  cases hcur
  exact hseek.2

/-- The removal of the entry that was offered last removes its key. -/
theorem cursorRemove_retains (h : Serving s ref) {cur : Cursor K V} (hcur : cur.Sound) :
    let r := cur.remove (c.everlasting order) s
    s.store.Retains (fun k => cur.current = some k) r.state.store ∧ r.answer.2.Sound := by
  dsimp only
  rw [cur.remove_apply (c.everlasting order) h.available]
  cases hcurrent : cur.current with
  | none => exact ⟨.refl ⟨ref, h.holds⟩, hcur⟩
  | some k =>
    have hretains := c.serve_retains order ⟨ref, h.holds⟩ (.remove k)
    refine ⟨⟨hretains.everlasting, fun k' hk' hremoved => ?_⟩, hcur.raw, hcur.ahead⟩
    refine hretains.kept k' hk' ?_
    rintro rfl
    exact hremoved rfl

end Cache

/-! ## Deeds -/

/-- A deed that is the cache's own, or the passing of time. -/
def Deed.IsOwn : Deed (Memory K V) K V → Prop
  | outside f => ∀ m, ∃ t, f m = { m with now := t }
  | _ => True

/-- A use is one that removes a key. A bulk load does if it is to replace what is held, and its
loader omits the key. -/
def Use.Removes [DecidableEq K] (w : World σ K V) : Use K V → K → Prop
  | call operation, k => operation.Removes k
  | removeKey k', k => k = k'
  | loadAll ks replaceExisting loader, k =>
    replaceExisting = true ∧ k ∈ ks ∧
      ∃ loaded, loader ks.eraseDups = .ok loaded ∧ loaded.get? k = none
  | removeAllEntries, _ => True
  | remove i, k => (w.walks i).current = some k
  | _, _ => False

/-- A deed is one that removes a key. -/
def Deed.Removes [DecidableEq K] (w : World σ K V) : Deed σ K V → K → Prop
  | use u, k => u.Removes w k
  | _, _ => False

namespace World

/-- A walk that is sound may take the place of another. -/
theorem sound_setWalk {w : World σ K V} (hw : ∀ j, (w.walks j).Sound) {cur : Cursor K V}
    (hcur : cur.Sound) (i : Nat) : ∀ j, ((w.setWalk i cur).walks j).Sound := by
  intro j
  by_cases hj : i = j
  · subst hj
    rwa [walks_setWalk]
  · rw [walks_setWalk_of_ne w hj]
    exact hw j

variable [DecidableEq K]

/-- The store of a cache maps a key. -/
def Maps (w : World (Memory K V) K V) (k : K) : Prop := w.cache.store.table.contains k = true

instance (w : World (Memory K V) K V) (k : K) : Decidable (w.Maps k) :=
  inferInstanceAs (Decidable (_ = true))

/-- No mapping will ever expire, and no walk has met a failure. -/
structure Calm (w : World (Memory K V) K V) : Prop where
  everlasting : w.cache.store.Everlasting
  walks : ∀ i, (w.walks i).Sound

/-- From one world to another no mapping was lost that was not removed, and all is calm. -/
structure Retains (removed : K → Prop) (w w' : World (Memory K V) K V) : Prop where
  store : w.cache.store.Retains removed w'.cache.store
  walks : ∀ i, (w'.walks i).Sound

namespace Retains

variable {removed : K → Prop} {w w' : World (Memory K V) K V}

theorem calm (h : w.Retains removed w') : w'.Calm := ⟨h.store.everlasting, h.walks⟩

theorem refl (h : w.Calm) : w.Retains removed w := ⟨.refl h.everlasting, h.walks⟩

theorem setWalk (h : w.Retains removed w') {cur : Cursor K V} (hcur : cur.Sound) (i : Nat) :
    w.Retains removed (w'.setWalk i cur) := ⟨h.store, sound_setWalk h.walks hcur i⟩

end Retains

end World

namespace Cache

section

variable [DecidableEq K] {removed : K → Prop} {w : World (Memory K V) K V}

theorem onCache_retains (hw : w.Calm) {x : Action (State (Memory K V)) (Event K V) α}
    (h : w.cache.store.Retains removed (x w.cache).state.store) :
    w.Retains removed (onCache x w).state := by
  rw [onCache_apply]
  exact ⟨h, hw.walks⟩

theorem onWalk_retains (hw : w.Calm) {i : Nat}
    {x : Cursor K V → Action (State (Memory K V)) (Event K V) (α × Cursor K V)}
    (h : w.cache.store.Retains removed (x (w.walks i) w.cache).state.store ∧
      (x (w.walks i) w.cache).answer.2.Sound) :
    w.Retains removed (onWalk i x w).state := by
  have hretains : w.Retains removed { w with cache := (x (w.walks i) w.cache).state } :=
    ⟨h.1, hw.walks⟩
  rw [onWalk_apply]
  exact hretains.setWalk h.2 i

end

variable [DecidableEq K] [DecidableEq (Handle V)] [BEq V] (c : Cache (Memory K V) K V)
  (order : Memory K V → List (K × Holder V)) {w : World (Memory K V) K V}

theorem use_retains (hw : w.Calm) (u : Use K V) :
    w.Retains (u.Removes w) ((c.everlasting order).use u w).state := by
  by_cases hs : w.status = .available
  swap
  · rw [use_refused _ u hs]
    exact .refl hw
  obtain ⟨ref, h⟩ := hw.everlasting
  have hserving : Serving w.cache ref := ⟨hs, h⟩
  cases u with
  | call operation => exact onCache_retains hw (c.serve_retains order hw.everlasting operation)
  | removeKey k =>
    refine onCache_retains hw ?_
    rw [removeKey_state]
    exact c.serve_retains order hw.everlasting (.remove k)
  | getAllWith ks includeAbsent =>
    refine onCache_retains hw ?_
    rw [getAllWith_state]
    cases includeAbsent with
    | true => exact c.serve_retains order hw.everlasting (.getAll ks)
    | false => exact c.serve_retains order hw.everlasting (.getAllPresent ks)
  | loadAll ks replaceExisting loader =>
    exact onCache_retains hw (c.loadAll_retains order hw.everlasting ks replaceExisting loader)
  | removeAllEntries => exact onCache_retains hw (c.removeAllEntries_retains order hw.everlasting)
  | iterate i quiet =>
    obtain ⟨hafter, hsound⟩ := c.iterate_still order hserving quiet
    rw [use, beginWalk_apply]
    have hretains : w.Retains (Use.Removes w (.iterate i quiet : Use K V))
        { w with cache := (((c.everlasting order).iterate quiet).run w.cache).state } :=
      ⟨.of_same h hafter.holds, hw.walks⟩
    dsimp only
    split
    · exact hretains.setWalk (hsound _ ‹_›) i
    · exact hretains
  | hasNext i =>
    refine onWalk_retains hw ?_
    rw [Action.bind_apply, ExceptT.run, Cursor.hasNext, Op.bind_apply,
      checkAvailable_of_available hs]
    exact ⟨.refl hw.everlasting, hw.walks i⟩
  | nextEntry i =>
    obtain ⟨hafter, hsound⟩ := Cursor.nextEntry_sound (c.lookup_still order) (hw.walks i) hserving
    exact onWalk_retains hw ⟨.of_same h hafter.holds, hsound⟩
  | remove i =>
    exact onWalk_retains hw (c.cursorRemove_retains order hserving (hw.walks i))

/-- What one deed keeps: every mapping that it does not remove. -/
theorem act_retains (hw : w.Calm) {d : Deed (Memory K V) K V} (hd : d.IsOwn) :
    w.Retains (d.Removes w) ((c.everlasting order).act d w).state := by
  have lifecycle {α : Type} (x : Action Lifecycle (Event K V) α) :
      w.Retains (d.Removes w) (onCache (onLifecycle x) w).state :=
    onCache_retains hw (.refl hw.everlasting)
  cases d with
  | use u => exact c.use_retains order hw u
  | next i =>
    refine onWalk_retains hw ?_
    by_cases hs : w.status = .available
    · obtain ⟨ref, h⟩ := hw.everlasting
      obtain ⟨hafter, hsound⟩ := Cursor.step_sound (c.lookup_still order) (hw.walks i) ⟨hs, h⟩
      exact ⟨.of_same h hafter.holds, hsound⟩
    · rw [step_refused _ _ hs]
      exact ⟨.refl hw.everlasting, (hw.walks i).raw, (hw.walks i).ahead⟩
  | move t table => cases t <;> exact lifecycle _
  | addHook hook => exact lifecycle _
  | removeHook hook => exact lifecycle _
  | outside f =>
    obtain ⟨t, ht⟩ := hd w.cache.store
    obtain ⟨ref, h⟩ := hw.everlasting
    refine ⟨.of_same h ?_, hw.walks⟩
    show Holds (f w.cache.store) ref
    rw [ht]
    exact h.setNow t

/-! ## What loaders are handed -/

omit [DecidableEq (Handle V)] [BEq V] in
/-- A bulk primitive that asks a loader hands it one batch, and notes what it makes of the
answer. -/
theorem loaderCalls_ask {Q : Type} (loader : Loader K V) (batchOf : Q → List K) (q : Q)
    (each : KeyMap K (Option (Handle V)) → K → Action (Memory K V) (Note K V) Unit)
    (settled requested : List K) (m : Memory K V) :
    loaderCalls (((Dialogue.ask q (settling each settled requested m) :
      BulkCall (Memory K V) Q K V).run Event.note (fun q => callLoader loader (batchOf q))
        ()).events) = [batchOf q] := by
  obtain ⟨notes, hnotes⟩ := run_settling_notes Event.note
    (fun q => callLoader loader (batchOf q)) each settled requested m
    (callLoader loader (batchOf q) ()).state (callLoader loader (batchOf q) ()).answer
  rw [Dialogue.run_ask]
  dsimp only
  rw [loaderCalls_append, hnotes, loaderCalls_notes]
  rfl

omit c order in
omit [BEq V] in
/-- The loader of a bulk load is called once with the keys that it has to be asked for, if there are
any, whatever it answers. -/
theorem loadAll_asks {c : Cache (Memory K V) K V} {policy : Policy K V}
    (hc : c.store = .memory policy) {s : State (Memory K V)} (hs : s.lifecycle.status = .available)
    (ks : List K) (replaceExisting : Bool) (loader : Loader K V) :
    loaderCalls ((c.loadAll ks replaceExisting loader).run s).events =
      if (s.store.wanted ks replaceExisting).isEmpty then []
      else [s.store.wanted ks replaceExisting] := by
  cases hne : ks.isEmpty with
  | true =>
    obtain rfl := List.isEmpty_iff.mp hne
    rw [loadAll, ExceptT.run, Op.bind_apply, checkAvailable_of_available hs]
    cases replaceExisting <;> rfl
  | false =>
    rw [loadAll_apply c hs hne, hc]
    cases replaceExisting with
    | true =>
      have hbatch : ks.eraseDups.isEmpty = false := (isEmpty_eraseDups ks).trans hne
      have hasked := loaderCalls_ask loader (List.map Prod.fst) (s.store.batch ks) (settle policy)
        ks.eraseDups ks (s.store.purgeAll ks)
      simp only [wanted, if_true, hbatch, Bool.false_eq_true, if_false, bulkCall, bulkCompute_eq,
        batch_purgeAll]
      simpa [batch, Function.comp_def] using hasked
    | false =>
      simp only [wanted, Bool.false_eq_true, if_false, bulkCall, bulkComputeIfAbsent_eq,
        missing_purgeAll]
      split
      · rfl
      · exact loaderCalls_ask loader id (s.store.absent ks) (load policy) (s.store.absent ks) ks
          (s.store.purgeAll ks)

omit [BEq V] in
/-- The loader of a bulk load is handed the requested keys, those that are mapped only if they are
to be replaced, and it is not called if there are none. -/
theorem loadAll_hands {s : State (Memory K V)} {ref : KeyMap K (Handle V)} (h : Serving s ref)
    (ks : List K) (replaceExisting : Bool) (loader : Loader K V) :
    let batch := if replaceExisting then ks.eraseDups else ref.missing ks
    loaderCalls (((c.everlasting order).loadAll ks replaceExisting loader).run s).events =
      if batch.isEmpty then [] else [batch] := by
  have habsent : s.store.absent ks = ref.missing ks := by
    rw [← missing_purgeAll, h.holds.purgeAll, h.holds.missing]
  rw [← habsent]
  exact loadAll_asks (c := { c with store := .memory .eternal, expiry := .eternal }) rfl h.available
    ks replaceExisting loader

/-- If the loader of a bulk load is called, the cache serves a map, which decides the batch. -/
theorem use_hands (hw : w.Calm) (ks : List K) (replaceExisting : Bool) (loader : Loader K V) :
    let calls :=
      loaderCalls ((c.everlasting order).use (.loadAll ks replaceExisting loader) w).events
    calls = [] ∨ ∃ ref, Serving w.cache ref ∧
      calls = [if replaceExisting then ks.eraseDups else ref.missing ks] := by
  intro calls
  by_cases hs : w.status = .available
  · obtain ⟨ref, h⟩ := hw.everlasting
    have hserving : Serving w.cache ref := ⟨hs, h⟩
    have hcalls : calls = loaderCalls
        (((c.everlasting order).loadAll ks replaceExisting loader).run w.cache).events := by
      show loaderCalls (onCache _ w).events = _
      rw [onCache_apply]
    rw [hcalls, c.loadAll_hands order hserving]
    cases List.isEmpty (if replaceExisting then ks.eraseDups else ref.missing ks) with
    | true => exact .inl rfl
    | false => exact .inr ⟨ref, hserving, rfl⟩
  · have hrefused := use_refused (c.everlasting order) (.loadAll ks replaceExisting loader) hs
    exact .inl (congrArg (fun r => loaderCalls (Run.events r)) hrefused)

theorem serving_of_called (hw : w.Calm) {ks : List K} {replaceExisting : Bool}
    {loader : Loader K V} {batch : List K}
    (hcalled : batch ∈ loaderCalls
      ((c.everlasting order).use (.loadAll ks replaceExisting loader) w).events) :
    ∃ ref, Serving w.cache ref ∧
      batch = if replaceExisting then ks.eraseDups else ref.missing ks := by
  rcases c.use_hands order hw ks replaceExisting loader with hnone | ⟨ref, hserving, hone⟩
  · rw [hnone] at hcalled
    cases hcalled
  · rw [hone] at hcalled
    exact ⟨ref, hserving, List.mem_singleton.mp hcalled⟩

/-- An absent-only loader is handed the requested keys that are not mapped, and no other. -/
theorem handed_iff (hw : w.Calm) (hs : w.status = .available) (ks : List K) (loader : Loader K V)
    (k : K) :
    (∃ batch ∈ loaderCalls ((c.everlasting order).use (.loadAll ks false loader) w).events,
      k ∈ batch) ↔ k ∈ ks ∧ ¬ w.Maps k := by
  obtain ⟨ref, h⟩ := hw.everlasting
  have hcalls := c.loadAll_hands order ⟨hs, h⟩ ks false loader
  have hmissing : k ∈ ref.missing ks ↔ k ∈ ks ∧ ¬ w.Maps k := by
    rw [World.Maps, h.contains]
    simp [KeyMap.missing]
  rw [use, onCache_apply, ← hmissing, hcalls]
  cases hempty : (ref.missing ks).isEmpty with
  | true => simp [List.isEmpty_iff.mp hempty]
  | false => simp [hempty]

/-- A key that an absent-only loader is handed is not mapped. -/
theorem unmapped_of_handed (hw : w.Calm) {ks : List K} {loader : Loader K V} {batch : List K}
    {k : K} (hcalled : batch ∈ loaderCalls
      ((c.everlasting order).use (.loadAll ks false loader) w).events) (hk : k ∈ batch) :
    ¬ w.Maps k := by
  obtain ⟨ref, hserving, -⟩ := c.serving_of_called order hw hcalled
  exact ((c.handed_iff order hw hserving.available ks loader k).mp ⟨batch, hcalled, hk⟩).2

/-! ## Supplying and removing -/

/-- A deed supplies a key: it is a call that puts it and goes well, or a bulk load whose loader was
handed the key and returned a value for it. -/
inductive Supplies (c : Cache (Memory K V) K V) (w : World (Memory K V) K V) (k : K) :
    Deed (Memory K V) K V → Prop
  | put {call : Call K V} {answer : call.Answer} (hk : call.Puts k)
      (hok : (c.use (.call call) w).answer = .ok answer) : Supplies c w k (.use (.call call))
  | load {ks : List K} {replaceExisting : Bool} {loader : Loader K V} {batch : List K}
      {loaded : KeyMap K (Handle V)} {v : Handle V}
      (hcalled : batch ∈ loaderCalls (c.use (.loadAll ks replaceExisting loader) w).events)
      (hk : k ∈ batch) (hloaded : loader batch = .ok loaded) (hv : loaded.get? k = some v) :
      Supplies c w k (.use (.loadAll ks replaceExisting loader))

/-- A deed has removed a key: it is one that does, and the key was mapped before it and is not
mapped after it. -/
structure Removed (c : Cache (Memory K V) K V) (w : World (Memory K V) K V) (k : K)
    (d : Deed (Memory K V) K V) : Prop where
  removes : d.Removes w k
  before : w.Maps k
  after : ¬ (c.act d w).state.Maps k

/-- A key that was supplied is mapped. -/
theorem Supplies.maps {k : K} {d : Deed (Memory K V) K V}
    (h : (c.everlasting order).Supplies w k d) (hw : w.Calm) :
    ((c.everlasting order).act d w).state.Maps k := by
  cases h with
  | @put call answer hk hok =>
    have hs : w.status = .available := by
      by_contra hs
      rw [use_refused _ _ hs] at hok
      cases hok
    obtain ⟨ref, h⟩ := hw.everlasting
    have hafter := (c.serve_follows order (s := w.cache) ⟨hs, h⟩ call).serving
    exact (hafter.holds.contains k).trans (call.contains_onMap_of_puts hk)
  | @load ks replaceExisting loader batch loaded v hcalled hk hloaded hv =>
    obtain ⟨ref, hserving, hbatch⟩ := c.serving_of_called order hw hcalled
    have hafter := (c.loadAll_follows order hserving ks replaceExisting loader).serving
    have hget := loader.get?_onMap ks replaceExisting hbatch hloaded hk
    refine (hafter.holds.contains k).trans ?_
    show Option.isSome ((loader.onMap ref ks replaceExisting).map.get? k) = true
    rw [hget, hv]
    rfl

/-- A key that is mapped stays so through a deed that does not remove it. -/
theorem maps_of_not_removed {k : K} {d : Deed (Memory K V) K V} (hw : w.Calm) (hd : d.IsOwn)
    (hk : w.Maps k) (h : ¬ (c.everlasting order).Removed w k d) :
    ((c.everlasting order).act d w).state.Maps k := by
  by_contra hgone
  refine h ⟨?_, hk, hgone⟩
  by_contra hremoves
  exact hgone ((c.act_retains order hw hd).store.kept k hk hremoves)

/-- No deed of a run removes a key. -/
def NeverRemoved (c : Cache (Memory K V) K V) (deeds : List (Deed (Memory K V) K V))
    (w : World (Memory K V) K V) (k : K) : Prop :=
  ∀ before d after, deeds = before ++ d :: after → ¬ c.Removed (c.live before w).state k d

namespace NeverRemoved

variable {c : Cache (Memory K V) K V} {d : Deed (Memory K V) K V}
  {rest : List (Deed (Memory K V) K V)} {k : K}

omit [DecidableEq (Handle V)] in
theorem head (h : c.NeverRemoved (d :: rest) w k) : ¬ c.Removed w k d := h [] d rest rfl

omit [DecidableEq (Handle V)] in
theorem tail (h : c.NeverRemoved (d :: rest) w k) :
    c.NeverRemoved rest (c.act d w).state k := by
  intro before d' after hsplit
  have hkept := h (d :: before) d' after (congrArg (d :: ·) hsplit)
  rwa [live_cons] at hkept

omit [DecidableEq (Handle V)] in
/-- Absent-only loads remove nothing. -/
theorem of_absentOnly {deeds : List (Deed (Memory K V) K V)}
    (h : ∀ d ∈ deeds, ∃ ks loader, d = .use (.loadAll ks false loader)) :
    c.NeverRemoved deeds w k := by
  intro before d after hsplit hremoved
  have hmem : d ∈ deeds := by
    rw [hsplit]
    exact List.mem_append_right before List.mem_cons_self
  obtain ⟨ks, loader, rfl⟩ := h d hmem
  exact Bool.false_ne_true hremoved.removes.1

end NeverRemoved

/-! ## Runs -/

/-- All is calm after a run. -/
theorem live_calm : ∀ (deeds : List (Deed (Memory K V) K V)) {w : World (Memory K V) K V},
    w.Calm → (∀ d ∈ deeds, d.IsOwn) → ((c.everlasting order).live deeds w).state.Calm
  | [], _, hw, _ => hw
  | d :: rest, w, hw, hown => by
    obtain ⟨hd, hrest⟩ := List.forall_mem_cons.mp hown
    rw [live_cons]
    exact live_calm rest (c.act_retains order hw hd).calm hrest

/-- A key that is mapped stays so through a run that never removes it. -/
theorem maps_of_neverRemoved {k : K} : ∀ (deeds : List (Deed (Memory K V) K V))
    {w : World (Memory K V) K V}, w.Calm → (∀ d ∈ deeds, d.IsOwn) → w.Maps k →
    (c.everlasting order).NeverRemoved deeds w k →
    ((c.everlasting order).live deeds w).state.Maps k
  | [], _, _, _, hk, _ => hk
  | d :: rest, w, hw, hown, hk, hkept => by
    obtain ⟨hd, hrest⟩ := List.forall_mem_cons.mp hown
    have hmaps := c.maps_of_not_removed order hw hd hk hkept.head
    rw [live_cons]
    exact maps_of_neverRemoved rest (c.act_retains order hw hd).calm hrest hmaps hkept.tail

/-! ## What is loaded -/

/-- The keys of a batch that a loader returns values for. -/
def returned (loader : Loader K V) (batch : List K) : List K :=
  match loader batch with
  | .ok loaded => batch.filter fun k => loaded.contains k
  | .error _ => []

/-- The keys that a deed loads: if it is an absent-only load, those that its loader is handed and
returns values for. -/
def loads (c : Cache (Memory K V) K V) (w : World (Memory K V) K V) :
    Deed (Memory K V) K V → List K
  | .use (.loadAll ks false loader) =>
    (loaderCalls (c.use (.loadAll ks false loader) w).events).flatMap (returned loader)
  | _ => []

/-- The keys that are loaded in a run, in order. -/
def loadedKeys (c : Cache (Memory K V) K V) :
    List (Deed (Memory K V) K V) → World (Memory K V) K V → List K
  | [], _ => []
  | d :: rest, w => c.loads w d ++ c.loadedKeys rest (c.act d w).state

omit [DecidableEq (Handle V)] [BEq V] in
theorem mem_returned {loader : Loader K V} {batch : List K} {k : K} :
    k ∈ returned loader batch ↔
      k ∈ batch ∧ ∃ loaded v, loader batch = .ok loaded ∧ loaded.get? k = some v := by
  unfold returned
  cases hr : loader batch with
  | error fault => simp
  | ok loaded => simp [KeyMap.contains, Option.isSome_iff_exists]

/-- A key that a deed loads was not mapped, and the deed supplies it. -/
theorem supplies_of_loads {k : K} {d : Deed (Memory K V) K V} (hw : w.Calm)
    (hk : k ∈ (c.everlasting order).loads w d) :
    ¬ w.Maps k ∧ (c.everlasting order).Supplies w k d := by
  unfold loads at hk
  split at hk
  · obtain ⟨batch, hcalled, hk⟩ := List.mem_flatMap.mp hk
    obtain ⟨hmem, loaded, v, hloaded, hv⟩ := mem_returned.mp hk
    exact ⟨c.unmapped_of_handed order hw hcalled hmem, .load hcalled hmem hloaded hv⟩
  · cases hk

/-- One deed loads no key twice. -/
theorem nodup_loads (hw : w.Calm) (d : Deed (Memory K V) K V) :
    ((c.everlasting order).loads w d).Nodup := by
  unfold loads
  split
  · rename_i ks loader
    rcases c.use_hands order hw ks false loader with hnone | ⟨ref, -, hone⟩
    · rw [hnone]
      exact List.nodup_nil
    · rw [hone, List.flatMap_singleton]
      unfold returned
      split
      · exact ((nodup_eraseDups ks).filter _).filter _
      · exact List.nodup_nil
  · exact List.nodup_nil

/-- A key that is mapped is not loaded in a run that never removes it. -/
theorem not_loaded_of_maps {k : K} : ∀ (deeds : List (Deed (Memory K V) K V))
    {w : World (Memory K V) K V}, w.Calm → (∀ d ∈ deeds, d.IsOwn) → w.Maps k →
    (c.everlasting order).NeverRemoved deeds w k → k ∉ (c.everlasting order).loadedKeys deeds w
  | [], _, _, _, _, _ => List.not_mem_nil
  | d :: rest, w, hw, hown, hk, hkept => by
    obtain ⟨hd, hrest⟩ := List.forall_mem_cons.mp hown
    have hmaps := c.maps_of_not_removed order hw hd hk hkept.head
    intro hmem
    rcases List.mem_append.mp hmem with hmem | hmem
    · exact (c.supplies_of_loads order hw hmem).1 hk
    · exact not_loaded_of_maps rest (c.act_retains order hw hd).calm hrest hmaps hkept.tail hmem

/-- A run that never removes a key loads it once at most. -/
theorem count_loadedKeys_le {k : K} : ∀ (deeds : List (Deed (Memory K V) K V))
    {w : World (Memory K V) K V}, w.Calm → (∀ d ∈ deeds, d.IsOwn) →
    (c.everlasting order).NeverRemoved deeds w k →
    ((c.everlasting order).loadedKeys deeds w).count k ≤ 1
  | [], _, _, _, _ => by simp [loadedKeys]
  | d :: rest, w, hw, hown, hkept => by
    obtain ⟨hd, hrest⟩ := List.forall_mem_cons.mp hown
    have hcalm := (c.act_retains order hw hd).calm
    rw [loadedKeys, List.count_append]
    by_cases hmem : k ∈ (c.everlasting order).loads w d
    · -- the key is mapped from here on, and so is not loaded again
      have hmaps := (c.supplies_of_loads order hw hmem).2.maps c order hw
      have hfirst := List.nodup_iff_count_le_one.mp (c.nodup_loads order hw d) k
      have hnever := List.count_eq_zero.mpr
        (c.not_loaded_of_maps order rest hcalm hrest hmaps hkept.tail)
      omega
    · have hfirst := List.count_eq_zero.mpr hmem
      have hlater := count_loadedKeys_le rest hcalm hrest hkept.tail
      omega

/-- Absent-only loads alone load no key twice. -/
theorem nodup_loadedKeys (hw : w.Calm) {deeds : List (Deed (Memory K V) K V)}
    (h : ∀ d ∈ deeds, ∃ ks loader, d = .use (.loadAll ks false loader)) :
    ((c.everlasting order).loadedKeys deeds w).Nodup := by
  have hown : ∀ d ∈ deeds, d.IsOwn := by
    intro d hd
    obtain ⟨ks, loader, rfl⟩ := h d hd
    exact trivial
  exact List.nodup_iff_count_le_one.mpr fun k =>
    c.count_loadedKeys_le order deeds hw hown (.of_absentOnly h)

/-- **No key is loaded twice**: in a run of a cache without expiration over a store in memory, from
a world in which all is calm and of deeds that are the cache's own, an absent-only loader is handed
the requested keys that are not mapped. Once a key was supplied, by a put or by a loader that was
handed it and returned a value, that is the case only after a deed has removed it; hence a run that
never removes a key loads it once at most; and in a run of absent-only loads alone, whatever keys
they ask for and in whatever order they are served, no key is loaded twice. -/
theorem keys_loaded_once {w : World (Memory K V) K V} (hw : w.Calm) :
    let e := c.everlasting order
    (∀ (before : List (Deed (Memory K V) K V)) (ks : List K) (loader : Loader K V) (k : K),
      (∀ d ∈ before, d.IsOwn) →
      let later := (e.live before w).state
      later.status = .available →
        ((∃ batch ∈ loaderCalls (e.use (.loadAll ks false loader) later).events, k ∈ batch) ↔
          k ∈ ks ∧ ¬ later.Maps k)) ∧
    (∀ (before between : List (Deed (Memory K V) K V)) (supply : Deed (Memory K V) K V) (k : K),
      (∀ d ∈ before ++ supply :: between, d.IsOwn) →
      e.Supplies (e.live before w).state k supply →
      let later := (e.live (before ++ supply :: between) w).state
      ∀ (ks : List K) (loader : Loader K V) (batch : List K),
        batch ∈ loaderCalls (e.use (.loadAll ks false loader) later).events → k ∈ batch →
        ∃ kept d rest, between = kept ++ d :: rest ∧
          e.Removed (e.live (before ++ supply :: kept) w).state k d) ∧
    (∀ (deeds : List (Deed (Memory K V) K V)) (k : K), (∀ d ∈ deeds, d.IsOwn) →
      e.NeverRemoved deeds w k → (e.loadedKeys deeds w).count k ≤ 1) ∧
    ∀ deeds : List (Deed (Memory K V) K V),
      (∀ d ∈ deeds, ∃ ks loader, d = .use (.loadAll ks false loader)) →
        (e.loadedKeys deeds w).Nodup := by
  intro e
  refine ⟨fun before ks loader k hown => ?_, fun before between supply k hown hsupplied => ?_,
    fun deeds k hown hkept => c.count_loadedKeys_le order deeds hw hown hkept,
    fun deeds h => c.nodup_loadedKeys order hw h⟩
  · intro later hs
    exact c.handed_iff order (c.live_calm order before hw hown) hs ks loader k
  · intro later ks loader batch hcalled hk
    obtain ⟨hbefore, hafter⟩ := List.forall_mem_append.mp hown
    obtain ⟨hsupply, hbetween⟩ := List.forall_mem_cons.mp hafter
    have hcalm := c.live_calm order before hw hbefore
    have hmaps := hsupplied.maps c order hcalm
    have hcalm' := (c.act_retains order hcalm hsupply).calm
    have hlater : later = (e.live between (e.act supply (e.live before w).state).state).state := by
      show (e.live _ _).state = _
      rw [live_append, live_cons]
    have hunmapped : ¬ later.Maps k := by
      refine c.unmapped_of_handed order ?_ hcalled hk
      exact c.live_calm order _ hw hown
    rw [hlater] at hunmapped
    by_contra hnone
    refine hunmapped (c.maps_of_neverRemoved order between hcalm' hbetween hmaps ?_)
    intro kept d rest hsplit hremoved
    refine hnone ⟨kept, d, rest, hsplit, ?_⟩
    rw [live_append, live_cons]
    exact hremoved

/-- Three loads that overlap, of which the second fails and the others omit keys: each key is loaded
by the first that returns a value for it. Loaded, read and removed, a key is asked for again. -/
theorem keys_loaded_once_overlapping :
    let c : Cache (Memory Nat Nat) Nat Nat :=
      { store := .memory .eternal, strategy := .propagating }
    let e := c.everlasting fun m => m.table.pairs
    let w : World (Memory Nat Nat) Nat Nat :=
      { cache := { store := {}, lifecycle := { status := .available } }
        walks := fun _ => { raw := [], quiet := true } }
    let knows (known : List Nat) : Loader Nat Nat := fun ks =>
      .ok (.ofList ((ks.filter (· ∈ known)).map fun k => (k, ⟨k, 10 * k⟩)))
    let down : Loader Nat Nat := fun _ => .error (.text "down")
    let load (ks : List Nat) (loader : Loader Nat Nat) : Deed (Memory Nat Nat) Nat Nat :=
      .use (.loadAll ks false loader)
    let loads := [load [1, 2, 3] (knows [1, 3]), load [3, 4] down,
      load [4, 3, 2, 5] (knows [1, 2, 3, 4])]
    let supply := load [1, 2] (knows [1])
    let between := [.use (.call (.get 1)), .use (.call (.remove 1)), .use (.call (.put 3 ⟨0, 0⟩))]
    let later := (e.live ([] ++ supply :: between) w).state
    w.Calm ∧ (∀ d ∈ loads, ∃ ks loader, d = .use (.loadAll ks false loader)) ∧
      e.loadedKeys loads w = [1, 3, 4, 2] ∧ (e.loadedKeys loads w).Nodup ∧
      (∀ d ∈ [] ++ supply :: between, d.IsOwn) ∧ e.Supplies w 1 supply ∧
      later.status = .available ∧ ¬ later.Maps 1 ∧
      (∃ batch ∈ loaderCalls (e.use (.loadAll [2, 1, 3] false down) later).events, 1 ∈ batch) ∧
      ∃ kept d rest, between = kept ++ d :: rest ∧
        e.Removed (e.live ([] ++ supply :: kept) w).state 1 d := by
  intro c e w knows down load loads supply between later
  have hw : w.Calm := ⟨⟨.empty, .empty⟩, fun _ => ⟨⟨[], rfl⟩, rfl⟩⟩
  obtain ⟨handed, until_removed, -, nodup⟩ := keys_loaded_once c (fun m => m.table.pairs) hw
  have hloads : ∀ d ∈ loads, ∃ ks loader, d = .use (.loadAll ks false loader) := by
    simp [loads, load]
  have hown : ∀ d ∈ [] ++ supply :: between, d.IsOwn := by
    simp [supply, load, between, Deed.IsOwn]
  have hgiven : [1, 2] ∈ loaderCalls (e.use (.loadAll [1, 2] false (knows [1])) w).events := by
    decide
  have hreturned : knows [1] [1, 2] = .ok (.ofList [(1, ⟨1, 10⟩)]) := rfl
  have hsupplies : e.Supplies w 1 supply := .load hgiven (by decide) hreturned rfl
  have hs : later.status = .available := by decide
  have hunmapped : ¬ later.Maps 1 := by decide
  obtain ⟨batch, hcalled, hk⟩ := (handed ([] ++ supply :: between) [2, 1, 3] down 1 hown hs).mpr
    ⟨by decide, hunmapped⟩
  exact ⟨hw, hloads, by decide, nodup loads hloads, hown, hsupplies, hs, hunmapped,
    ⟨batch, hcalled, hk⟩, until_removed [] between supply 1 hown hsupplies _ down batch hcalled hk⟩

end Cache

end ResilientCache
