import ResilientCache.Proofs.Asking
import ResilientCache.Proofs.World

/-!
# A cache without expiration is a map

A cache without an expiry policy, over a store in memory without one, does every `Task` as the map
does that the store holds. What carries this through a run is `Serving`: the cache is available, the
store holds the map, and no mapping of it will ever expire.

A call is answered as its store call is (`ask_holds`). A bulk load is one bulk call whose batch
function is the loader (`replacing_loads`, `absent_loads`). The removal of all entries and a walk go
through the raw iteration of the store, which may come in any order: the one removes keys that are
all mapped (`removeEach_serves`), the other looks every key up before it offers the entry, and
`Cursor.facing` says where it stands (`Cursor.step_serves`, `Cursor.take_serves`).

Headlines:
* `serve_follows`, `loadAll_follows`, `removeAllEntries_follows`, `walk_follows`: the tasks.
* **`everlasting_refines_map`**: every sequence of tasks refines the map.
-/

namespace ResilientCache

open Memory Cache

variable {K V : Type} [DecidableEq K] [DecidableEq (Handle V)]

namespace Cache

variable [BEq V] (c : Cache (Memory K V) K V) (order : Memory K V → List (K × Holder V))
  {s : State (Memory K V)} {ref : KeyMap K (Handle V)}

/-! ## Tasks -/

/-- An available cache whose store holds a map. -/
structure Serving (s : State (Memory K V)) (ref : KeyMap K (Handle V)) : Prop where
  available : s.lifecycle.status = .available
  holds : s.store.Holds ref

/-- A task goes as on the map, and leaves the cache serving what the task makes of the map. -/
structure Follows (c : Cache (Memory K V) K V) (task : Task K V) (s : State (Memory K V))
    (ref : KeyMap K (Handle V)) : Prop where
  answer : task.SameAnswer (c.perform task s).answer (task.onMap ref).answer
  outcomes : outcomes (c.perform task s).events = (task.onMap ref).outcomes
  serving : Serving (c.perform task s).state (task.onMap ref).map

theorem serve_follows (h : Serving s ref) (call : Call K V) :
    (c.everlasting order).Follows (.call call) s ref := by
  obtain ⟨reply, ha, ho, hsame, hholds⟩ := c.ask_holds order h.holds call
  have hserve := serve_apply (c.everlasting order) call h.available
  rw [Action.bind_apply, ha] at hserve
  constructor
  · rw [perform, ExceptT.run, hserve]
    exact hsame
  · rw [perform, ExceptT.run, outcomes_serve _ _ h.available, ha, outcomes_complete_ok]
    exact ho
  · rw [perform, ExceptT.run, hserve]
    refine ⟨?_, hholds⟩
    show ((c.everlasting order).ask call s).state.lifecycle.status = _
    rw [ask_keeps]
    exact h.available

theorem moveClock_follows (h : Serving s ref) (move : ClockMove) :
    (c.everlasting order).Follows (.moveClock move) s ref :=
  ⟨trivial, rfl, h.available, h.holds.setNow _⟩

/-! ## Bulk loads -/

omit [DecidableEq (Handle V)] [BEq V] in
theorem get?_load (loaded : KeyMap K (Handle V)) (k : K) :
    ∀ (ks : List K) (m : KeyMap K (Handle V)),
      (m.load loaded ks).get? k = if k ∈ ks then loaded.get? k else m.get? k
  | [], m => rfl
  | k' :: ks, m => by
    rw [KeyMap.load, List.foldl_cons, ← KeyMap.load, get?_load loaded k ks, KeyMap.get?_put?]
    by_cases hk : k' = k
    · simp [hk]
    · simp [hk, Ne.symm hk]

omit [DecidableEq (Handle V)] [BEq V] in
/-- What a loader answers about a batch is decided for exactly that batch. -/
theorem callLoader_answer (loader : Loader K V) (batch : List K) :
    (callLoader loader batch ()).answer =
      (loader batch).map fun loaded => batch.map fun k => (k, loaded.get? k) := rfl

/-- What is left of a bulk load: a failure of the loader that changed nothing, or the requested keys
with what the map holds after the loader's answer. -/
def Loads (ks : List K) (ref : KeyMap K (Handle V)) (batch : List K)
    (r : Run (State (Memory K V)) (Event K V) (Except BulkError (Computed K V) × Unit)) :
    Except Fault (KeyMap K (Handle V)) → Prop
  | .error fault => r.answer.1 = .error (.function fault) ∧ r.state.store.Holds ref
  | .ok loaded => Listed ks (ref.load loaded batch) (r.answer.1, r.state.store)

omit [BEq V] in
/-- Loading in replacing mode: the loader decides every requested key. -/
theorem replacing_loads (h : s.store.Holds ref) (ks : List K) (loader : Loader K V) :
    Loads ks ref ks.eraseDups
      (bulkCall ((Store.memory .eternal).bulkCompute ks)
        (fun batch => callLoader loader (batch.map Prod.fst)) () s) (loader ks.eraseDups) := by
  have hbatch : (ks.eraseDups.map fun k => (k, ref.get? k)).map Prod.fst = ks.eraseDups := by
    simp [Function.comp_def]
  have hr := callLoader_answer loader ((ks.eraseDups.map fun k => (k, ref.get? k)).map Prod.fst)
  cases hl : loader ks.eraseDups with
  | error fault =>
    have hu := bulkCompute_unchanged Event.note
      (fun batch => callLoader loader (batch.map Prod.fst)) h (hr.trans (by rw [hbatch, hl]; rfl))
    refine ⟨congrArg Prod.fst hu, ?_⟩
    show Holds (Prod.snd _) ref
    rw [hu]
    exact h
  | ok loaded =>
    have hb := (bulkCompute_holds Event.note
      (fun batch => callLoader loader (batch.map Prod.fst)) h
      (hr.trans (by rw [hbatch, hl]; rfl))).1
    refine hb.congr fun k => ?_
    rw [KeyMap.get?_settle, KeyMap.get?_ofList_map, get?_load]
    by_cases hk : k ∈ ks <;> simp [hk]

omit [BEq V] in
/-- Loading what is absent: the loader decides the keys without a mapping, if there are any. -/
theorem absent_loads (h : s.store.Holds ref) (ks : List K) (loader : Loader K V) :
    Loads ks ref (ref.missing ks)
      (bulkCall ((Store.memory .eternal).bulkComputeIfAbsent ks) (callLoader loader) () s)
      (if (ref.missing ks).isEmpty then .ok .empty else loader (ref.missing ks)) := by
  have hr := callLoader_answer loader (ref.missing ks)
  cases hmissing : (ref.missing ks).isEmpty with
  | true =>
    rw [if_pos rfl, List.isEmpty_iff.mp hmissing]
    exact bulkComputeIfAbsent_none Event.note (callLoader loader) h hmissing
  | false =>
    rw [if_neg Bool.false_ne_true]
    cases hl : loader (ref.missing ks) with
    | error fault =>
      have hu := bulkComputeIfAbsent_unchanged Event.note (callLoader loader) h hmissing
        (hr.trans (by rw [hl]; rfl))
      refine ⟨congrArg Prod.fst hu, ?_⟩
      show Holds (Prod.snd _) ref
      rw [hu]
      exact h
    | ok loaded =>
      have hb := bulkComputeIfAbsent_holds Event.note (callLoader loader) h hmissing
        (hr.trans (by rw [hl]; rfl))
      refine hb.congr fun k => ?_
      rw [KeyMap.get?_settle, KeyMap.get?_present, KeyMap.get?_ofList_map, get?_load]
      by_cases hk : k ∈ ref.missing ks
      · have habsent : ref.get? k = none := by
          simpa [KeyMap.contains] using (List.mem_filter.mp hk).2
        rw [if_pos hk, if_pos hk, if_pos hk, habsent]
        cases loaded.get? k <;> rfl
      · rw [if_neg hk, if_neg hk]

omit [DecidableEq (Handle V)] in
/-- A bulk load whose bulk call goes as on the map. -/
theorem follows_of_loads {c : Cache (Memory K V) K V} {ks : List K} {replaceExisting : Bool}
    {loader : Loader K V}
    {r : Run (State (Memory K V)) (Event K V) (Except BulkError (Computed K V) × Unit)}
    {batch : List K} {loaded : Except Fault (KeyMap K (Handle V))}
    (hrun : (c.loadAll ks replaceExisting loader).run s =
      ⟨match r.answer.1 with
        | .ok computed => .ok (.ofList (computed.map fun p => (p.1, p.2.map Holder.value)))
        | .error e => .error (.ofBulk e), r.state, r.events⟩)
    (hs : r.state.lifecycle.status = .available)
    (honMap : loader.onMap ref ks replaceExisting = .ofLoad ref ks batch loaded)
    (hloads : Loads ks ref batch r loaded) :
    c.Follows (.loadAll ks replaceExisting loader) s ref := by
  have hsilent : outcomes ((c.loadAll ks replaceExisting loader).run s).events = [] :=
    outcomes_of_silent (c.loadAll_silent ks replaceExisting loader s)
  have htask : (Task.loadAll ks replaceExisting loader).onMap ref =
    .ofLoad ref ks batch loaded := honMap
  cases loaded with
  | error fault =>
    obtain ⟨ha, hholds⟩ := hloads
    constructor
    · rw [htask, perform, hrun, ha]
      rfl
    · rw [htask]
      exact hsilent
    · rw [htask, perform, hrun]
      exact ⟨hs, hholds⟩
  | ok loaded =>
    obtain ⟨⟨computed, ha, hlisted⟩, hholds⟩ := hloads
    constructor
    · rw [htask, perform, hrun, show r.answer.1 = .ok computed from ha]
      simp only [hlisted]
      exact fun _ => rfl
    · rw [htask]
      exact hsilent
    · rw [htask, perform, hrun]
      exact ⟨hs, hholds⟩

theorem loadAll_follows (h : Serving s ref) (ks : List K) (replaceExisting : Bool)
    (loader : Loader K V) :
    (c.everlasting order).Follows (.loadAll ks replaceExisting loader) s ref := by
  cases hne : ks.isEmpty with
  | true =>
    obtain rfl := List.isEmpty_iff.mp hne
    have hrun : ((c.everlasting order).loadAll [] replaceExisting loader).run s =
        ⟨.ok .empty, s, []⟩ := by
      rw [loadAll, ExceptT.run, Op.bind_apply, checkAvailable_of_available h.available]
      rfl
    have honMap : (Task.loadAll [] replaceExisting loader).onMap ref = ⟨.ok .empty, [], ref⟩ := by
      cases replaceExisting <;> rfl
    constructor
    · rw [honMap, perform, hrun]
      exact fun _ => rfl
    · rw [honMap, perform, hrun]
      rfl
    · rw [honMap, perform, hrun]
      exact h
  | false =>
    have hrun := loadAll_apply (c.everlasting order) h.available hne replaceExisting loader
    cases replaceExisting with
    | true =>
      refine follows_of_loads hrun h.available ?_ (replacing_loads h.holds ks loader)
      have hbatch : ks.eraseDups.isEmpty = false := (isEmpty_eraseDups ks).trans hne
      simp only [Loader.onMap, if_true, hbatch, Bool.false_eq_true, if_false]
    | false => exact follows_of_loads hrun h.available rfl (absent_loads h.holds ks loader)

/-! ## Entry by entry -/

omit [BEq V] in
/-- The raw iteration of a store shows what it holds. -/
theorem iterate_apply (s : State (Memory K V)) :
    (c.everlasting order).callStore (·.iterate) s = ⟨.ok ((order s.store).map .ok), s, []⟩ := rfl

omit [DecidableEq K] [DecidableEq (Handle V)] [BEq V] in
theorem rawKeys_apply (s : State (Memory K V)) : ∀ ps : List (K × Holder V),
    rawKeys (ps.map .ok) s = ⟨ps.map Prod.fst, s, []⟩
  | [] => rfl
  | p :: ps => by
    simp only [List.map_cons, rawKeys, Action.bind_apply, rawKeys_apply s ps, Action.pure_apply,
      List.append_nil]

theorem remove_serves (h : Serving s ref) {k : K} (hk : ref.contains k = true) :
    let r := (c.everlasting order).remove k s
    r.answer = .ok () ∧ outcomes r.events = [.remove .success] ∧ Serving r.state (ref.erase k) := by
  obtain ⟨ha, ho, hserving⟩ := c.serve_follows order h (.remove k)
  refine ⟨?_, ho.trans ?_, hserving⟩
  · have ha : SameUpTo _ ((c.everlasting order).remove k s).answer (.ok ()) := ha
    cases hr : ((c.everlasting order).remove k s).answer with
    | ok _ => rfl
    | error e =>
      rw [hr] at ha
      exact ha.elim
  · show [Outcome.remove (if ref.contains k then .success else .noop)] = _
    rw [hk]
    rfl

/-- Keys that are mapped are removed one after the other. -/
theorem removeEach_serves : ∀ (ks : List K) {s : State (Memory K V)} {ref : KeyMap K (Handle V)},
    Serving s ref → ks.Nodup → (∀ k ∈ ks, ref.contains k = true) →
      let r := (c.everlasting order).removeEach ks s
      r.answer = .ok () ∧ outcomes r.events = .replicate ks.length (.remove .success) ∧
        Serving r.state (ks.foldl KeyMap.erase ref)
  | [], _, _, h, _, _ => ⟨rfl, rfl, h⟩
  | k :: ks, s, ref, h, hnodup, hmem => by
    obtain ⟨hk, hnodup⟩ := List.nodup_cons.mp hnodup
    obtain ⟨ha, ho, hserving⟩ := c.remove_serves order h (hmem k List.mem_cons_self)
    have hrest (k' : K) (hk' : k' ∈ ks) : (ref.erase k).contains k' = true := by
      have hne : k ≠ k' := by
        rintro rfl
        exact hk hk'
      rw [KeyMap.contains, KeyMap.get?_erase, if_neg hne]
      exact hmem k' (List.mem_cons_of_mem k hk')
    obtain ⟨ha', ho', hserving'⟩ := removeEach_serves ks hserving hnodup hrest
    have hrun : (c.everlasting order).removeEach (k :: ks) s = _ :=
      Op.bind_of_ok ha fun _ => (c.everlasting order).removeEach ks
    rw [hrun]
    refine ⟨ha', ?_, hserving'⟩
    rw [outcomes_append, ho, ho']
    rfl

section

variable (horder : ∀ mem : Memory K V, (order mem).Perm mem.table.pairs)

include horder

omit [DecidableEq (Handle V)] [BEq V] in
/-- The raw iteration, read as pairs of a key and a handle, shows each pair of the map once. -/
theorem perm_order (h : s.store.Holds ref) :
    ((order s.store).map fun p => (p.1, p.2.value)).Perm ref.pairs :=
  ((horder s.store).map _).trans h.perm

omit [DecidableEq (Handle V)] [BEq V] in
/-- What the raw iteration shows is what the map says. -/
theorem get?_of_mem_order (h : s.store.Holds ref) {p : K × Holder V} (hp : p ∈ order s.store) :
    ref.get? p.1 = some p.2.value :=
  KeyMap.mem_pairs_iff.mp ((perm_order order horder h).mem_iff.mp (List.mem_map_of_mem hp))

omit [DecidableEq (Handle V)] [BEq V] in
/-- The keys that the raw iteration shows are those of the map, each once. -/
theorem perm_order_keys (h : s.store.Holds ref) :
    ((order s.store).map Prod.fst).Perm ref.keys := by
  have hkeys := (perm_order order horder h).map Prod.fst
  rwa [List.map_map] at hkeys

theorem removeAllEntries_follows (h : Serving s ref) :
    (c.everlasting order).Follows .removeAllEntries s ref := by
  have hperm := perm_order_keys order horder h.holds
  obtain ⟨ha, ho, hserving⟩ := c.removeEach_serves order ((order s.store).map Prod.fst) h
    (hperm.nodup_iff.mpr ref.nodup) fun k hk => KeyMap.mem_keys_iff.mp (hperm.mem_iff.mp hk)
  have hrun : (c.everlasting order).removeAllEntries s =
      (c.everlasting order).removeEach ((order s.store).map Prod.fst) s := by
    rw [removeAllEntries, Op.bind_apply, checkAvailable_of_available h.available]
    simp only [Op.bind_apply, iterate_apply, List.nil_append, ExceptT.lift, ExceptT.mk,
      Action.map_apply, rawKeys_apply]
  constructor
  · rw [perform, ExceptT.run, hrun]
    exact ha
  · rw [perform, ExceptT.run, hrun, ho, hperm.length_eq, KeyMap.keys, List.length_map]
    rfl
  · rw [perform, ExceptT.run, hrun]
    refine ⟨hserving.available, hserving.holds.congr fun k => ?_⟩
    rw [KeyMap.get?_foldl_erase, Task.onMap, KeyMap.get?_empty]
    split
    · rfl
    · rename_i hk
      rwa [hperm.mem_iff, KeyMap.mem_keys_iff, Option.not_isSome_iff_eq_none] at hk

end

end Cache

namespace Cursor

variable (c : Cache (Memory K V) K V) (order : Memory K V → List (K × Holder V))
  {s : State (Memory K V)} {ref : KeyMap K (Handle V)}

/-- A cursor over what is left of the raw iteration, the first entry of it ahead. -/
def facing (quiet : Bool) (current : Option K) : List (K × Holder V) → Cursor K V
  | [] => { raw := [], current, quiet }
  | p :: ps => { raw := ps.map .ok, ahead := .entry ⟨p.1, p.2.value⟩, current, quiet }

theorem lookup_serves (h : Serving s ref) (k : K) :
    let r := (c.everlasting order).lookup k false s
    r.answer = .ok (ref.get? k) ∧ r.events = [] ∧ Serving r.state ref := by
  obtain ⟨ha, he, hholds⟩ := get_holds h.holds k
  generalize hr : (Store.memory .eternal).get k s.store = r at ha he hholds
  have hcall : (c.everlasting order).callStore (·.get k) s =
      ⟨.ok (.ok (s.store.table.get? k)), { s with store := r.state }, []⟩ := by
    refine (Op.lift_apply (onStore ((Store.memory .eternal).get k)) s).trans ?_
    simp only [onStore, Action.within, hr, ha, he, List.map_nil]
  have hlookup : (c.everlasting order).lookup k false s =
      ⟨.ok (ref.get? k), { s with store := r.state }, []⟩ := by
    rw [lookup, Op.bind_apply, checkAvailable_of_available h.available, ← h.holds.value]
    simp only [Op.bind_apply, hcall]
    cases hk : s.store.table.get? k <;> simp [Memory.value?, hk, Op.pure_apply]
  rw [hlookup]
  exact ⟨rfl, rfl, h.available, hholds⟩

theorem seek_serves (cur : Cursor K V) (hcur : cur.terminated = false) :
    ∀ ps : List (K × Holder V), Serving s ref → (∀ p ∈ ps, ref.get? p.1 = some p.2.value) →
      let r := cur.seek (c.everlasting order) (ps.map .ok) s
      r.answer = facing cur.quiet cur.current ps ∧ r.events = [] ∧ Serving r.state ref
  | [], h, _ => by
    refine ⟨?_, rfl, h⟩
    show { cur with raw := [], ahead := .nothing } = facing cur.quiet cur.current []
    rw [facing, ← hcur]
  | p :: ps, h, hmem => by
    obtain ⟨ha, he, hserving⟩ := lookup_serves c order h p.1
    rw [hmem p List.mem_cons_self] at ha
    simp only [List.map_cons, seek, Action.bind_apply, ExceptT.run, ha, he, Action.pure_apply]
    refine ⟨?_, rfl, hserving⟩
    rw [facing, ← hcur]

/-- The entry ahead is offered, and the cursor then faces the rest. -/
theorem offer_serves (quiet : Bool) (current : Option K) {p : K × Holder V}
    {ps : List (K × Holder V)} (h : Serving s ref)
    (hmem : ∀ p ∈ ps, ref.get? p.1 = some p.2.value) :
    let r := (facing quiet current (p :: ps)).offer (c.everlasting order) ⟨p.1, p.2.value⟩ s
    r.answer = (.ok ⟨p.1, p.2.value⟩, facing quiet (some p.1) ps) ∧
      outcomes r.events = (if quiet then [] else [.get .hit]) ∧ Serving r.state ref := by
  obtain ⟨ha, he, hserving⟩ := seek_serves c order
    { facing quiet current (p :: ps) with current := some p.1 } rfl ps h hmem
  rw [offer_apply]
  refine ⟨congrArg (Except.ok _, ·) ha, ?_, hserving⟩
  refine (congrArg (fun es => outcomes (_ ++ es)) he).trans ?_
  cases quiet <;> rfl

/-- A step of a walk offers the entry ahead. -/
theorem step_serves (quiet : Bool) (current : Option K) {p : K × Holder V}
    {ps : List (K × Holder V)} (h : Serving s ref)
    (hmem : ∀ p ∈ ps, ref.get? p.1 = some p.2.value) :
    let r := (facing quiet current (p :: ps)).step (c.everlasting order) s
    r.answer = (some (.ok ⟨p.1, p.2.value⟩), facing quiet (some p.1) ps) ∧
      outcomes r.events = (if quiet then [] else [.get .hit]) ∧ Serving r.state ref := by
  have hnext : (facing quiet current (p :: ps)).nextEntry (c.everlasting order) s =
      (facing quiet current (p :: ps)).offer (c.everlasting order) ⟨p.1, p.2.value⟩ s :=
    nextEntry_apply _ _ h.available
  obtain ⟨ha, ho, hserving⟩ := offer_serves c order quiet current h hmem
  rw [step_apply, hnext]
  refine ⟨?_, ho, hserving⟩
  dsimp only
  rw [ha]
  rfl

/-- A walk offers what is left, and then faces nothing. -/
theorem take_serves : ∀ (n : Nat) (ps : List (K × Holder V)) (quiet : Bool) (current : Option K)
    {s : State (Memory K V)}, ps.length < n → Serving s ref →
    (∀ p ∈ ps, ref.get? p.1 = some p.2.value) →
      let r := (facing quiet current ps).take (c.everlasting order) n s
      (∃ last, r.answer = (ps.map fun p => .ok ⟨p.1, p.2.value⟩, facing quiet last [])) ∧
        outcomes r.events = (if quiet then [] else .replicate ps.length (.get .hit)) ∧
        Serving r.state ref
  | n + 1, [], quiet, current, s, _, h, _ => by
    have hstep : (facing quiet current []).step (c.everlasting order) s =
        ⟨(none, facing quiet current []), s, []⟩ := by
      rw [step_apply, nextEntry_apply _ _ h.available]
      rfl
    refine ⟨⟨current, ?_⟩, ?_, ?_⟩
    · rw [take, Action.bind_apply, hstep]
      rfl
    · rw [take, Action.bind_apply, hstep]
      cases quiet <;> rfl
    · rw [take, Action.bind_apply, hstep]
      exact h
  | n + 1, p :: ps, quiet, current, s, hlt, h, hmem => by
    have hrest : ∀ p ∈ ps, ref.get? p.1 = some p.2.value := fun p hp =>
      hmem p (List.mem_cons_of_mem _ hp)
    obtain ⟨ha, ho, hserving⟩ := step_serves c order quiet current (p := p) h hrest
    obtain ⟨⟨last, ha'⟩, ho', hserving'⟩ := take_serves n ps quiet (some p.1)
      (Nat.lt_of_succ_lt_succ hlt) hserving hrest
    simp only [take, Action.bind_apply, ha, Action.pure_apply, ha', List.append_nil,
      outcomes_append, ho, ho']
    refine ⟨⟨last, rfl⟩, ?_, hserving'⟩
    cases quiet <;> rfl

end Cursor

namespace Cache

variable (c : Cache (Memory K V) K V) {order : Memory K V → List (K × Holder V)}
  (horder : ∀ mem : Memory K V, (order mem).Perm mem.table.pairs)
  {s : State (Memory K V)} {ref : KeyMap K (Handle V)}

include horder

/-- A walk begins in front of everything that the raw iteration shows. -/
theorem beginWalk_serves (h : Serving s ref) (quiet : Bool) :
    let r := (c.everlasting order).iterate quiet s
    r.answer = .ok (.facing quiet none (order s.store)) ∧ r.events = [] ∧
      Serving r.state ref := by
  obtain ⟨ha, he, hserving⟩ := Cursor.seek_serves c order
    { raw := (order s.store).map .ok, quiet } rfl (order s.store) h
    fun p hp => get?_of_mem_order order horder h.holds hp
  rw [iterate, Op.bind_apply, checkAvailable_of_available h.available]
  simp only [Op.bind_apply, iterate_apply, List.nil_append, ExceptT.lift, ExceptT.mk,
    Action.map_apply, ha, he]
  exact ⟨trivial, trivial, hserving⟩

variable [BEq V]

theorem walk_follows (h : Serving s ref) (quiet : Bool) :
    (c.everlasting order).Follows (.walk quiet) s ref := by
  obtain ⟨ha, he, hserving⟩ := c.beginWalk_serves horder h quiet
  have hbound : (order s.store).length <
      (Cursor.facing quiet none (order s.store)).stepBound := by
    cases order s.store <;> simp [Cursor.facing, Cursor.stepBound]
  obtain ⟨⟨last, ha'⟩, ho', hserving'⟩ := Cursor.take_serves c order _ _ quiet none hbound
    hserving fun p hp => get?_of_mem_order order horder h.holds hp
  generalize hr : (Cursor.facing quiet none (order s.store)).take (c.everlasting order) _ _ = r
    at ha' ho' hserving'
  have hrun : (c.everlasting order).walk quiet s =
      ⟨.ok ((order s.store).map fun p => .ok ⟨p.1, p.2.value⟩, false), r.state, r.events⟩ := by
    rw [walk, Op.bind_of_ok ha, he]
    simp only [Op.bind_apply, ExceptT.lift, ExceptT.mk, Action.map_apply, Cursor.drain, hr, ha',
      Cursor.hasNext, checkAvailable_of_available hserving'.available, List.nil_append]
    simp [Op.pure_apply, Cursor.facing, Lookahead.isSome]
  constructor
  · rw [perform, ExceptT.run, hrun]
    have hperm := (perm_order order horder h.holds).map fun p =>
      (.ok ⟨p.1, p.2⟩ : Except CacheError (Entry K V))
    rw [List.map_map] at hperm
    exact ⟨hperm, rfl⟩
  · have hlength := (perm_order order horder h.holds).length_eq
    rw [List.length_map] at hlength
    rw [perform, ExceptT.run, hrun, ho', hlength]
    rfl
  · rw [perform, ExceptT.run, hrun]
    exact hserving'

/-! ## Every task -/

theorem perform_follows (h : Serving s ref) (task : Task K V) :
    (c.everlasting order).Follows task s ref := by
  cases task with
  | call operation => exact c.serve_follows order h operation
  | removeAllEntries => exact c.removeAllEntries_follows order horder h
  | loadAll ks replaceExisting loader => exact c.loadAll_follows order h ks replaceExisting loader
  | walk quiet => exact c.walk_follows horder h quiet
  | moveClock move => exact c.moveClock_follows order h move

omit horder in
omit [DecidableEq (Handle V)] [BEq V] in
/-- The live content of a store that holds a map is that map. -/
theorem content_of_holds {mem : Memory K V} (h : mem.Holds ref) : mem.Content ref := fun k => by
  rw [h.live?]
  exact h.value k

/-- **A cache without expiration is a map**: in front of a store in memory that holds a map, neither
with an expiry policy, every sequence of tasks is answered and reported as on the map, and after
every task the live content of the store is what the map has become. -/
theorem everlasting_refines_map : ∀ (tasks : List (Task K V)) {s : State (Memory K V)}
    {ref : KeyMap K (Handle V)}, s.lifecycle.status = .available → s.store.Holds ref →
      (c.everlasting order).Refines tasks s ref
  | [], _, _, _, h => content_of_holds h
  | task :: tasks, _, _, hs, h => by
    obtain ⟨ha, ho, hs', h'⟩ := perform_follows c horder ⟨hs, h⟩ task
    exact ⟨content_of_holds h, ha, ho, everlasting_refines_map tasks hs' h'⟩

omit horder in
/-- A fresh cache whose store iterates backwards: a key put twice, a load that omits a key, a walk
and the removal of all entries go as on a map. -/
theorem everlasting_refines_map_backwards :
    let c : Cache (Memory Nat Nat) Nat Nat := { store := .memory .eternal }
    let order : Memory Nat Nat → List (Nat × Holder Nat) := fun mem => mem.table.pairs.reverse
    let s : State (Memory Nat Nat) := { store := {}, lifecycle := { status := .available } }
    let tasks : List (Task Nat Nat) :=
      [.call (.putAll [(1, ⟨0, 10⟩), (2, ⟨1, 20⟩), (1, ⟨2, 30⟩)]),
        .moveClock (.advance (.ofMillis 99)),
        .loadAll [2, 3] true fun _ => .ok (.ofList [(3, ⟨3, 40⟩)]),
        .walk false, .removeAllEntries]
    (∀ mem, (order mem).Perm mem.table.pairs) ∧ s.lifecycle.status = .available ∧
      s.store.Holds .empty ∧ (c.everlasting order).Refines tasks s .empty := by
  intro c order s tasks
  have horder : ∀ mem, (order mem).Perm mem.table.pairs := fun mem => mem.table.pairs.reverse_perm
  exact ⟨horder, rfl, .empty, everlasting_refines_map c horder tasks rfl .empty⟩

end Cache

end ResilientCache
