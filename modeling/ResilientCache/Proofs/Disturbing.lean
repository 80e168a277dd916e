import ResilientCache.Proofs.Dropping

/-!
# What disturbs a live mapping

A live mapping stays the very same one, holder and all, until something disturbs it: the clock is
moved, its key is removed, or another value is written to the key. Which incidents may do that is
said without a look at what they leave: a write disturbs a key if it decides for it anything but the
handle that is there (`Call.Disturbs`, `Request.Disturbs`), a put that goes to the store directly in
any case, a bulk load if it is to replace what is held and its loader does not return that handle.
Reads disturb nothing, and no step of a walk does, as long as walks meet no failure.

The store is one in memory, in any order, shared by a cache and others, under any policies.

Headlines:
* `Request.leaves_live`, `Cache.leaves_live`: requests and calls.
* `use_keeps`: uses.
* **`occur_keeps`**: a live mapping that an incident does not disturb stays as it is.
-/

namespace ResilientCache

open Memory

variable {K V : Type} [DecidableEq K] [DecidableEq (Handle V)] {k : K} {h : Holder V}

/-! ## Requests and calls -/

/-- A request takes a handle from a key, or writes to the key. -/
def Request.Disturbs (m : Memory K V) : Request K V → K → Handle V → Prop
  | .put k' _, k, _ => k = k'
  | .remove k', k, _ => k = k'
  | .clear, _, _ => True
  | .bulkCompute ks f, k, v =>
    k ∈ ks ∧ ∃ pairs v?, f (m.batch ks) = .ok pairs ∧ (KeyMap.ofList pairs).get? k = some v? ∧
      v? ≠ some v
  | _, _, _ => False

/-- A call takes a handle from a key: it removes the key, or decides something else for it. -/
def Call.Disturbs {σ : Type} [BEq V] (c : Cache σ K V) : Call K V → K → Handle V → Prop
  | .remove k', k, _ => k = k'
  | .clear, _, _ => True
  | call, k, v => ∃ v?, c.decided call k (some v) = some v? ∧ v? ≠ some v

namespace Memory

variable {policy : Policy K V} {m m' : Memory K V}

omit [DecidableEq K] in
/-- What is decided for a key leaves it alone if it is the handle that is there. -/
theorem settled?_same {now : Instant} {decision : Option (Option (Handle V))}
    (hsame : ∀ v?, decision = some v? → v? = some h.value) :
    settled? policy now k (some h) decision = some h := by
  cases decision with
  | none => rfl
  | some v? =>
    obtain rfl := hsame v? rfl
    exact if_pos rfl

omit [DecidableEq (Handle V)] in
/-- What is live stays so while it is held and the clock stands still. -/
theorem live?_of_held (hnow : m'.now = m.now) (hlive : m.live? k = some h)
    (hheld : m'.table.get? k = some h) : m'.live? k = some h := by
  rw [live?, hheld, hnow]
  rwa [live?, get?_of_live? hlive] at hlive

/-- Recomputing keys from what they have leaves a live mapping alone if nothing else is answered for
its key. -/
theorem recomputed?_live (hlive : m.live? k = some h) {ks : List K}
    {answer : Except Fault (Mappings K V)}
    (hsame : ∀ pairs v?, k ∈ ks → answer = .ok pairs → (KeyMap.ofList pairs).get? k = some v? →
      v? = some h.value) : m.recomputed? policy ks k answer = some h := by
  have hheld := get?_of_live? hlive
  by_cases hk : k ∈ ks
  · cases answer with
    | error fault => rw [recomputed?, if_pos hk, hlive]
    | ok pairs =>
      rw [recomputed?, if_pos hk, hlive]
      exact settled?_same fun v? hv => hsame pairs v? hk rfl hv
  · cases answer <;> rw [recomputed?, if_neg hk, hheld]

omit [DecidableEq (Handle V)] in
/-- A bulk load of absent keys leaves every live mapping alone. -/
theorem reloaded?_live (hlive : m.live? k = some h) {ks : List K}
    {answer : Except Fault (Mappings K V)} : m.reloaded? policy ks k answer = some h := by
  have habsent : k ∉ m.absent ks := by
    intro hk
    cases hlive.symm.trans (mem_absent.mp hk).2
  cases answer <;> rw [reloaded?, if_neg habsent, get?_of_live? hlive]

end Memory

section

variable {m : Memory K V} (hlive : m.live? k = some h) {policy : Policy K V}

include hlive

/-- A request leaves a live mapping alone that it does not disturb. -/
theorem Request.leaves_live (r : Request K V) (hr : ¬ r.Disturbs m k h.value) :
    r.leaves policy m k = some h := by
  have hheld := get?_of_live? hlive
  cases r with
  | get k' =>
    rw [leaves]
    split
    · subst ‹k' = k›
      exact hlive
    · exact hheld
  | put k' v => rw [leaves, if_neg (Ne.symm hr), hheld]
  | remove k' => rw [leaves, if_neg (Ne.symm hr), hheld]
  | clear => exact absurd trivial hr
  | bulkCompute ks f =>
    refine recomputed?_live hlive fun pairs v? hk hpairs hv => ?_
    by_contra hother
    exact hr ⟨hk, pairs, v?, hpairs, hv, hother⟩
  | bulkComputeIfAbsent ks f => exact reloaded?_live hlive
  | _ => exact hheld

/-- So does a call. -/
theorem Cache.leaves_live [BEq V] {c : Cache (Memory K V) K V} (call : Call K V)
    (hcall : ¬ call.Disturbs c k h.value) : c.leaves policy m call k = some h := by
  have hheld := get?_of_live? hlive
  have write (hw : call.Recomputes)
      (hsame : ∀ v?, c.decided call k (some h.value) = some v? → v? = some h.value) :
      c.leaves policy m call k = some h := by
    rw [leaves_of_recomputes hw, hlive, Option.map_some]
    cases hd : c.decided call k (some h.value) with
    | none => exact hheld
    | some v? => exact settled?_same fun _ hv => hsame _ (hd.trans hv)
  have decides (hother : ¬ ∃ v?, c.decided call k (some h.value) = some v? ∧ v? ≠ some h.value) :
      ∀ v?, c.decided call k (some h.value) = some v? → v? = some h.value := by
    intro v? hv
    by_contra hne
    exact hother ⟨v?, hv, hne⟩
  cases call with
  | get k' =>
    rw [leaves]
    split
    · subst ‹k' = k›
      exact hlive
    · exact hheld
  | containsKey k' => exact hheld
  | remove k' => rw [leaves, if_neg (Ne.symm hcall), hheld]
  | clear => exact absurd trivial hcall
  | getAll ks =>
    rw [leaves]
    split
    · exact hlive
    · exact hheld
  | getAllPresent ks =>
    rw [leaves]
    split
    · exact hlive
    · exact hheld
  | _ => exact write trivial (decides hcall)

end

variable [BEq V]

/-! ## Uses -/

/-- A use takes a handle from a key. -/
def Use.Disturbs {σ : Type} (c : Cache σ K V) (w : World σ K V) :
    Use K V → K → Handle V → Prop
  | call operation, k, v => operation.Disturbs c k v
  | removeKey k', k, _ => k = k'
  | loadAll ks replaceExisting loader, k, v =>
    replaceExisting = true ∧ k ∈ ks ∧
      ∃ loaded, loader ks.eraseDups = .ok loaded ∧ loaded.get? k ≠ some v
  | removeAllEntries, _, _ => True
  | remove i, k, _ => (w.walks i).current = some k
  | _, _, _ => False

namespace Cache

variable {policy : Policy K V} {c : Cache (Memory K V) K V}

/-- An available cache with a live mapping. -/
structure State.Keeps (k : K) (h : Holder V) (s : State (Memory K V)) : Prop where
  available : s.lifecycle.status = .available
  live : s.store.live? k = some h

variable (hc : c.store = .memory policy) (order : Memory K V → List (K × Holder V))
  {s : State (Memory K V)}

include hc

theorem serve_keeps (hs : s.Keeps k h) (call : Call K V) (hcall : ¬ call.Disturbs c k h.value) :
    (c.serve call s).state.store.live? k = some h := by
  refine live?_of_held (serve_now hc hs.available call) hs.live ?_
  exact ((serve_leaves hc hs.available call).2 k).trans (leaves_live hs.live call hcall)

omit [BEq V] in
theorem loadAll_keeps (hs : s.Keeps k h) {ks : List K} {replaceExisting : Bool}
    {loader : Loader K V}
    (hload : ¬ (replaceExisting = true ∧ k ∈ ks ∧
      ∃ loaded, loader ks.eraseDups = .ok loaded ∧ loaded.get? k ≠ some h.value)) :
    ((c.loadAll ks replaceExisting loader).run s).state.store.live? k = some h := by
  by_cases hne : ks = []
  · subst hne
    rw [loadAll, ExceptT.run, Op.bind_apply, checkAvailable_of_available hs.available]
    exact hs.live
  refine live?_of_held (loadAll_now hc hs.available hne replaceExisting loader) hs.live ?_
  rw [loadAll_state hc hs.available hne]
  cases replaceExisting with
  | false => exact reloaded?_live hs.live
  | true =>
    refine recomputed?_live hs.live fun pairs v? hk hpairs hv => ?_
    by_contra hother
    refine hload ⟨rfl, hk, ?_⟩
    have hbatch : s.store.wanted ks true = ks.eraseDups := rfl
    rw [hbatch] at hpairs
    cases hl : loader ks.eraseDups with
    | error fault =>
      rw [hl] at hpairs
      cases hpairs
    | ok loaded =>
      rw [hl] at hpairs
      cases hpairs
      rw [get?_normalize, if_pos (List.mem_eraseDups.mpr hk)] at hv
      refine ⟨loaded, rfl, fun hsame => hother ?_⟩
      exact (Option.some.inj hv).symm.trans hsame

omit [BEq V] in
theorem lookup_keeps (k' : K) (s : State (Memory K V)) (hs : s.Keeps k h) :
    ((c.listed order).lookup k' false s).state.Keeps k h ∧
      ∃ v?, ((c.listed order).lookup k' false s).answer = .ok v? := by
  have hlisted : (c.listed order).store = (Store.memory policy).listedBy order := by
    rw [listed, hc]
  obtain ⟨ha, hlifecycle, hlive⟩ := lookup_listed hlisted hs.available k' false
  exact ⟨⟨hlifecycle ▸ hs.available, (hlive k).trans hs.live⟩, _, ha⟩

/-! ## Worlds -/

variable {w : World (Memory K V) K V}

/-- A use leaves a live mapping alone that it does not disturb. -/
theorem use_keeps (hlive : w.cache.store.live? k = some h) (hw : ∀ i, (w.walks i).Sound)
    (u : Use K V) (hu : ¬ u.Disturbs (c.listed order) w k h.value) :
    ((c.listed order).use u w).state.cache.store.live? k = some h := by
  by_cases hs : w.status = .available
  swap
  · rw [use_refused _ u hs]
    exact hlive
  have hkeeps : w.cache.Keeps k h := ⟨hs, hlive⟩
  have read (call : Call K V) (hcall : ¬ call.Disturbs c k h.value) :
      ((c.listed order).serve call w.cache).state.store.live? k = some h := by
    rw [serve_listed]
    exact serve_keeps hc hkeeps call hcall
  cases u with
  | call operation =>
    rw [use, onCache_apply]
    exact read operation hu
  | removeKey k' =>
    rw [use, onCache_apply]
    dsimp only
    rw [removeKey_state]
    exact read (.remove k') hu
  | getAllWith ks includeAbsent =>
    rw [use, onCache_apply]
    dsimp only
    rw [getAllWith_state]
    cases includeAbsent <;> exact read _ (by rintro ⟨_, ⟨⟩, -⟩)
  | loadAll ks replaceExisting loader =>
    rw [use, onCache_apply]
    exact loadAll_keeps hc hkeeps hu
  | removeAllEntries => exact absurd trivial hu
  | iterate i quiet =>
    show ((c.listed order).beginWalk i quiet w).state.cache.store.live? k = some h
    rw [beginWalk_cache]
    exact (iterate_sound order (lookup_keeps hc order) hs hkeeps quiet).1.live
  | hasNext i =>
    rw [use, onWalk_apply, Action.bind_apply, ExceptT.run, Cursor.hasNext, Op.bind_apply,
      checkAvailable_of_available hs]
    exact hlive
  | nextEntry i =>
    rw [use, onWalk_apply]
    exact (Cursor.nextEntry_sound (lookup_keeps hc order) (hw i) hkeeps).1.live
  | remove i =>
    rw [use, onWalk_apply]
    dsimp only
    rw [Cursor.remove_apply _ _ hs]
    cases hcur : (w.walks i).current with
    | none => exact hlive
    | some k' =>
      refine read (.remove k') ?_
      rintro rfl
      exact hu hcur

end Cache

/-! ## Incidents -/

/-- An incident takes a handle from a key, writes to the key, or moves the clock. -/
def Incident.Disturbs {σ : Type} (c : Cache σ K V) (m : Memory K V) (w : World σ K V) :
    Incident σ K V → K → Handle V → Prop
  | .deed (.use u), k, v => u.Disturbs c w k v
  | .deed (.outside _), _, _ => True
  | .turn (.clock _), _, _ => True
  | .turn (.request r), k, v => r.Disturbs m k v
  | _, _, _ => False

namespace Cache

variable {c : Cache (Memory K V) K V} {order : Memory K V → List (K × Holder V)}
  {w : World (Memory K V) K V}

/-- **A live mapping that an incident does not disturb stays as it is.** -/
theorem occur_keeps (hlive : w.cache.store.live? k = some h) (hw : ∀ i, (w.walks i).Sound)
    (p : Policies K V) (x : Incident (Memory K V) K V)
    (hx : ¬ x.Disturbs (c.shared order p) w.cache.store w k h.value) :
    (occur (c.shared order) .whole p x w).state.cache.store.live? k = some h := by
  cases x with
  | deed d =>
    show ((c.shared order p).act d w).state.cache.store.live? k = some h
    cases d with
    | use u => exact use_keeps (c := c.withPolicies p) rfl order hlive hw u hx
    | next i =>
      rw [act, onWalk_apply]
      by_cases hs : w.status = .available
      · exact (Cursor.step_sound (lookup_keeps (c := c.withPolicies p) rfl order) (hw i)
          (s := w.cache) ⟨hs, hlive⟩).1.live
      · rw [step_refused _ _ hs]
        exact hlive
    | move t table => cases t <;> exact hlive
    | addHook hook => exact hlive
    | removeHook hook => exact hlive
    | outside f => exact absurd trivial hx
  | turn t =>
    cases t with
    | clock move => exact absurd trivial hx
    | iterate => exact hlive
    | request r =>
      obtain ⟨hnow, hleaves⟩ := Backend.serve_leaves p.store r w.cache.store
      exact live?_of_held hnow hlive ((hleaves k).trans (r.leaves_live hlive hx))

end Cache

end ResilientCache
