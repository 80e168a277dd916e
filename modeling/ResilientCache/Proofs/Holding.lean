import ResilientCache.Proofs.Memory

/-!
# A memory without expiration holds a map

`mem.Holds ref` says that a memory maps the same keys to the same handles as `ref` and that none of
its mappings will ever expire. Under the eternal policy every step of the store in memory keeps this
up: a write inserts (`write_holds`), settling settles (`settleEach_holds`), and a bulk primitive
asks about what the map holds and leaves what the map makes of the answer (`bulkCompute_holds`,
`bulkComputeIfAbsent_holds`).

The relation looks at a map through its view only, so maps with the same view are held alike
(`Holds.congr`).
-/

namespace ResilientCache.Memory

variable {τ K V : Type} [DecidableEq K]

/-- A memory holds the mappings of a map, none of which expires. -/
structure Holds (mem : Memory K V) (ref : KeyMap K (Handle V)) : Prop where
  value : ∀ k, mem.value? k = ref.get? k
  eternal : ∀ k h, mem.table.get? k = some h → h.expires = none

namespace Holds

variable {mem : Memory K V} {ref : KeyMap K (Handle V)}

theorem congr (h : mem.Holds ref) {ref' : KeyMap K (Handle V)}
    (he : ∀ k, ref.get? k = ref'.get? k) : mem.Holds ref' :=
  ⟨fun k => (h.value k).trans (he k), h.eternal⟩

theorem empty : ({} : Memory K V).Holds .empty := ⟨fun _ => rfl, fun _ _ h => by cases h⟩

theorem countHit (h : mem.Holds ref) : mem.countHit.Holds ref := ⟨h.value, h.eternal⟩

theorem countMiss (h : mem.Holds ref) : mem.countMiss.Holds ref := ⟨h.value, h.eternal⟩

theorem setNow (h : mem.Holds ref) (t : Instant) : Holds { mem with now := t } ref :=
  ⟨h.value, h.eternal⟩

theorem live? (h : mem.Holds ref) (k : K) : mem.live? k = mem.table.get? k := by
  unfold Memory.live?
  cases hget : mem.table.get? k with
  | none => rfl
  | some held => simp [Option.filter, Holder.isExpired, h.eternal k held hget]

/-- Nothing is ever purged. -/
theorem purge (h : mem.Holds ref) (k : K) : mem.purge k = mem := by
  unfold Memory.purge
  cases hget : mem.table.get? k with
  | none => rfl
  | some held => simp [Holder.isExpired, h.eternal k held hget]

theorem purgeAll (h : mem.Holds ref) (ks : List K) : mem.purgeAll ks = mem := by
  induction ks with
  | nil => rfl
  | cons k ks ih =>
    rw [Memory.purgeAll, List.foldl_cons, h.purge k]
    exact ih

theorem contains (h : mem.Holds ref) (k : K) : mem.table.contains k = ref.contains k := by
  rw [KeyMap.contains, KeyMap.contains, ← h.value]
  cases hget : mem.table.get? k <;> simp [value?, hget]

theorem missing (h : mem.Holds ref) (ks : List K) : mem.table.missing ks = ref.missing ks :=
  List.filter_congr fun k _ => by rw [h.contains]

theorem batch (h : mem.Holds ref) (ks : List K) :
    (ks.map fun k => (k, mem.value? k)) = ks.map fun k => (k, ref.get? k) :=
  List.map_congr_left fun k _ => congrArg (k, ·) (h.value k)

/-- The values of the holders that a bulk primitive lists. -/
theorem computed (h : mem.Holds ref) (ks : List K) :
    ((mem.computed ks).map fun p => (p.1, p.2.map Holder.value)) =
      ks.map fun k => (k, ref.get? k) := by
  rw [Memory.computed, List.map_map]
  exact List.map_congr_left fun k _ => congrArg (k, ·) (h.value k)

/-- The mappings of the memory, in its own order, are those of the map. -/
theorem perm (h : mem.Holds ref) :
    (mem.table.pairs.map fun p => (p.1, p.2.value)).Perm ref.pairs := by
  have hpairs : (mem.table.filterMap fun _ held => some held.value).pairs =
      mem.table.pairs.map fun p => (p.1, p.2.value) :=
    congrFun List.filterMap_eq_map _
  rw [← hpairs]
  refine KeyMap.perm_of_get?_eq fun k => ?_
  rw [KeyMap.get?_filterMap, ← h.value, value?]
  cases mem.table.get? k <;> rfl

/-! ## Changes -/

/-- Changing one key in the memory and in the map. -/
theorem update (h : mem.Holds ref) {mem' : Memory K V} {k : K} (held? : Option (Holder V))
    (hmem : ∀ k', mem'.table.get? k' = if k = k' then held? else mem.table.get? k')
    (heternal : ∀ held ∈ held?, held.expires = none) :
    mem'.Holds (ref.put? k (held?.map Holder.value)) := by
  constructor
  · intro k'
    rw [value?, hmem, KeyMap.get?_put?, ← h.value]
    split <;> rfl
  · intro k' held hget
    rw [hmem] at hget
    split at hget
    · exact heternal held hget
    · exact h.eternal k' held hget

theorem install (h : mem.Holds ref) (k : K) {held : Holder V} (he : held.expires = none) :
    (mem.install k held).Holds (ref.insert k held.value) :=
  h.update (some held) (fun _ => KeyMap.get?_insert ..) fun _ hm => by cases hm; exact he

theorem drop (h : mem.Holds ref) (k : K) : (mem.drop k).Holds (ref.erase k) :=
  h.update none (fun _ => KeyMap.get?_erase ..) fun _ hm => by cases hm

theorem takeOut (h : mem.Holds ref) (k : K) : (mem.takeOut k).Holds (ref.erase k) :=
  h.update none (fun _ => KeyMap.get?_erase ..) fun _ hm => by cases hm

theorem clear (mem : Memory K V) : ({ mem with table := {} } : Memory K V).Holds .empty :=
  ⟨fun _ => rfl, fun _ _ h => by cases h⟩

end Holds

/-! ## Writing -/

variable {mem : Memory K V} {ref : KeyMap K (Handle V)}

/-- A write under the eternal policy inserts. -/
theorem write_holds (h : mem.Holds ref) (k : K) (v : Handle V) :
    (write .eternal k v mem).answer = .put ∧
      (write .eternal k v mem).state.Holds (ref.insert k v) := by
  obtain ⟨ha, hs⟩ := write_of_some (written?_eternal mem k v)
  refine ⟨ha, ?_⟩
  rw [hs]
  refine h.install k ?_
  cases hget : mem.table.get? k with
  | none => rfl
  | some old => exact h.eternal k old hget

/-! ## Batches -/

/-- Loading a key inserts the value that was loaded for it, if there is one. -/
theorem load_holds (h : mem.Holds ref) (loaded : KeyMap K (Option (Handle V))) (k : K) :
    (load .eternal loaded k mem).state.Holds (.settleKey loaded.present ref k) := by
  have hp := loaded.get?_present k
  rcases hl : loaded.get? k with _ | _ | v <;> rw [hl] at hp
  · simp only [load, hl, KeyMap.settleKey, hp]
    exact h
  · simp only [load, hl, KeyMap.settleKey, hp]
    exact h
  · simp only [load, hl, KeyMap.settleKey, hp, Action.discard_apply]
    exact (write_holds h k v).2

/-- Loading keys one after the other inserts what was loaded for them. -/
theorem loadEach_holds (loaded : KeyMap K (Option (Handle V))) :
    ∀ (ks : List K) {mem : Memory K V} {ref : KeyMap K (Handle V)}, mem.Holds ref →
      (ks.forM (load .eternal loaded) mem).state.Holds (ref.settle loaded.present ks)
  | [], _, _, h => h
  | k :: ks, _, _, h => loadEach_holds loaded ks (load_holds h loaded k)

variable [DecidableEq (Handle V)]

/-- Settling a key brings it to what is decided for it. -/
theorem settle_holds (h : mem.Holds ref) (decided : KeyMap K (Option (Handle V))) (k : K) :
    (settle .eternal decided k mem).state.Holds (.settleKey decided ref k) := by
  have same {v? : Option (Handle V)} (hk : ref.get? k = v?) : mem.Holds (ref.put? k v?) :=
    h.congr fun k' => (KeyMap.get?_put?_self hk k').symm
  rcases hd : decided.get? k with _ | _ | v
  · simp only [settle, hd, KeyMap.settleKey]
    exact h
  · simp only [settle, hd, KeyMap.settleKey, Action.change_apply]
    cases hc : mem.table.contains k with
    | true => exact h.takeOut k
    | false =>
      rw [h.contains, KeyMap.contains, Option.isSome_eq_false_iff, Option.isNone_iff_eq_none] at hc
      exact same hc
  · rw [settle_of_value .eternal hd, KeyMap.settleKey, hd]
    split
    · exact same ((h.value k).symm.trans ‹_›)
    · exact (write_holds h k v).2

/-- Settling keys one after the other brings them all to what is decided for them. -/
theorem settleEach_holds (decided : KeyMap K (Option (Handle V))) :
    ∀ (ks : List K) {mem : Memory K V} {ref : KeyMap K (Handle V)}, mem.Holds ref →
      (ks.forM (settle .eternal decided) mem).state.Holds (ref.settle decided ks)
  | [], _, _, h => h
  | k :: ks, _, _, h => settleEach_holds decided ks (settle_holds h decided k)

/-! ## Bulk primitives -/

/-- A bulk primitive has ended well: it lists some keys with the values of a map, which the memory
holds afterwards. -/
structure Listed (requested : List K) (ref : KeyMap K (Handle V))
    (r : Except BulkError (Computed K V) × Memory K V) : Prop where
  listed : ∃ computed, r.1 = .ok computed ∧
    (computed.map fun p => (p.1, p.2.map Holder.value)) = requested.map fun k => (k, ref.get? k)
  holds : r.2.Holds ref

omit [DecidableEq (Handle V)] in
theorem Listed.congr {requested : List K} {r : Except BulkError (Computed K V) × Memory K V}
    (h : Listed requested ref r) {ref' : KeyMap K (Handle V)}
    (he : ∀ k, ref.get? k = ref'.get? k) : Listed requested ref' r := by
  obtain ⟨computed, hok, hlisted⟩ := h.listed
  refine ⟨⟨computed, hok, hlisted.trans ?_⟩, h.holds.congr he⟩
  exact List.map_congr_left fun k _ => congrArg (k, ·) (he k)

omit [DecidableEq (Handle V)] in
theorem settleAll_listed {each : K → Action (Memory K V) (Note K V) Unit} {ks requested : List K}
    (h : (ks.forM each mem).state.Holds ref) :
    let r := settleAll each ks requested mem
    Listed requested ref (r.answer, r.state) :=
  ⟨⟨_, rfl, h.computed requested⟩, h⟩

section

variable {ε' : Type} (event : Note K V → ε') {t : τ} {fault : Fault} {pairs : Mappings K V}
  {ks : List K}

/-- What the batch function of a bulk computation answers is settled. -/
theorem bulkCompute_holds (reply : Mappings K V → Action τ ε' (Except Fault (Mappings K V)))
    (h : mem.Holds ref)
    (hr : (reply (ks.eraseDups.map fun k => (k, ref.get? k)) t).answer = .ok pairs) :
    let r := ((Store.memory .eternal).bulkCompute ks mem).run event reply t
    Listed ks (ref.settle (.ofList pairs) ks.eraseDups) r.answer ∧
      r.state = (reply (ks.eraseDups.map fun k => (k, ref.get? k)) t).state := by
  simp only [bulkCompute_eq, h.purgeAll, h.batch, Dialogue.run_ask, hr, run_settling_ok]
  exact ⟨settleAll_listed (settleEach_holds (.ofList pairs) _ h), trivial⟩

/-- A bulk computation whose batch function fails changes nothing. -/
theorem bulkCompute_unchanged (reply : Mappings K V → Action τ ε' (Except Fault (Mappings K V)))
    (h : mem.Holds ref)
    (hr : (reply (ks.eraseDups.map fun k => (k, ref.get? k)) t).answer = .error fault) :
    (((Store.memory .eternal).bulkCompute ks mem).run event reply t).answer =
      (.error (.function fault), mem) := by
  simp only [bulkCompute_eq, h.purgeAll, h.batch, Dialogue.run_ask, hr, run_settling_error]

/-- A bulk load with nothing to load asks nothing and changes nothing. -/
theorem bulkComputeIfAbsent_none (reply : List K → Action τ ε' (Except Fault (Mappings K V)))
    (h : mem.Holds ref) (hnone : (ref.missing ks).isEmpty) :
    Listed ks ref
      (((Store.memory .eternal).bulkComputeIfAbsent ks mem).run event reply t).answer := by
  simp only [bulkComputeIfAbsent_eq, h.purgeAll, h.missing, hnone, if_true, Dialogue.run_done]
  exact ⟨⟨_, rfl, h.computed ks⟩, h⟩

/-- What the batch function of a bulk load answers is inserted. -/
theorem bulkComputeIfAbsent_holds (reply : List K → Action τ ε' (Except Fault (Mappings K V)))
    (h : mem.Holds ref) (hsome : (ref.missing ks).isEmpty = false)
    (hr : (reply (ref.missing ks) t).answer = .ok pairs) :
    Listed ks (ref.settle (KeyMap.ofList pairs).present (ref.missing ks))
      (((Store.memory .eternal).bulkComputeIfAbsent ks mem).run event reply t).answer := by
  simp only [bulkComputeIfAbsent_eq, h.purgeAll, h.missing, hsome, Bool.false_eq_true, if_false,
    Dialogue.run_ask, hr, run_settling_ok]
  exact settleAll_listed (loadEach_holds (.ofList pairs) _ h)

/-- A bulk load whose batch function fails changes nothing. -/
theorem bulkComputeIfAbsent_unchanged
    (reply : List K → Action τ ε' (Except Fault (Mappings K V))) (h : mem.Holds ref)
    (hsome : (ref.missing ks).isEmpty = false)
    (hr : (reply (ref.missing ks) t).answer = .error fault) :
    (((Store.memory .eternal).bulkComputeIfAbsent ks mem).run event reply t).answer =
      (.error (.function fault), mem) := by
  simp only [bulkComputeIfAbsent_eq, h.purgeAll, h.missing, hsome, Bool.false_eq_true, if_false,
    Dialogue.run_ask, hr, run_settling_error]

end

end ResilientCache.Memory
