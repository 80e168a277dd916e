import ResilientCache.Proofs.Holding
import ResilientCache.Proofs.Reference
import ResilientCache.Proofs.Writing

/-!
# Calls without expiration

A store in memory under the eternal policy, called by a cache whose own policy is eternal too,
answers every call as the map that it holds, and holds afterwards what the call makes of that map
(`ask_holds`). The raw iteration of the store may come in any order.

`AsksLike` is said of the store call of an operation: what is concluded from its reply is the
answer and the outcome of `Call.onMap`. The calls for one key go through `computeOne_holds`, the
bulk reads through `askAbsent_listed`, the bulk writes and removals through `ask_batch`.

Headlines:
* `computeOne_holds`: one key is mapped to what its function answers about what it holds.
* `ask_holds`: every call is answered by the store as by the map.
-/

namespace ResilientCache

open Memory

variable {τ K V α : Type} [DecidableEq K] [DecidableEq (Handle V)]

/-- The store in memory whose mappings never expire, its raw iteration in some order. -/
def Store.everlasting (order : Memory K V → List (K × Holder V)) : Store (Memory K V) K V :=
  { Store.memory .eternal with iterate := Action.read fun mem => (order mem).map .ok }

namespace Cache

/-- A cache over such a store, which has no expiry of its own either. -/
def everlasting (c : Cache (Memory K V) K V) (order : Memory K V → List (K × Holder V)) :
    Cache (Memory K V) K V :=
  { c with store := .everlasting order, expiry := .eternal }

variable (c : Cache (Memory K V) K V) (order : Memory K V → List (K × Holder V))
  {s : State (Memory K V)} {ref : KeyMap K (Handle V)}

/-! ## Single keys -/

/-- No value is dead on arrival. -/
theorem accepted?_everlasting (k : K) (old? : Option (Handle V)) (v : Handle V) :
    (c.everlasting order).accepted? k old? v = some v :=
  accepted?_eternal rfl k old? v

theorem accept_everlasting (k : K) (old? : Option (Handle V)) (v : Handle V) (t : τ) :
    ((c.everlasting order).accept k old? v t).answer = some v :=
  (accept_decides (c.everlasting order) k old? v t).trans (c.accepted?_everlasting order k old? v)

/-- Recomputing one key maps it to what its function answers about what it holds. -/
theorem computeOne_holds (h : s.store.Holds ref) (k : K)
    (remap : Option (Handle V) → Action τ (Event K V) (Option (Handle V))) (start : τ) :
    let r := (c.everlasting order).computeOne k remap start s
    ∃ h?, r.answer = (.ok h?, (remap (ref.get? k) start).state) ∧
      h?.map Holder.value = (remap (ref.get? k) start).answer ∧
      r.state.store.Holds (ref.put? k (remap (ref.get? k) start).answer) := by
  have hreply : (remapEach remap ([k].eraseDups.map fun k => (k, ref.get? k)) start) =
      ⟨.ok [(k, (remap (ref.get? k) start).answer)], (remap (ref.get? k) start).state,
        (remap (ref.get? k) start).events⟩ := by
    simp [remapEach]
  have hview (k' : K) :
      (ref.settle (.ofList [(k, (remap (ref.get? k) start).answer)]) [k].eraseDups).get? k' =
        (ref.put? k (remap (ref.get? k) start).answer).get? k' := by
    rw [KeyMap.get?_settle, KeyMap.get?_put?, eraseDups_singleton]
    by_cases hk : k = k'
    · subst hk
      simp [KeyMap.get?_ofList]
    · simp [hk, Ne.symm hk]
  obtain ⟨⟨⟨computed, hok, hlisted⟩, hholds⟩, hkept⟩ :=
    bulkCompute_holds Event.note (remapEach remap) h (congrArg Run.answer hreply)
  rw [hreply] at hkept
  rw [List.map_singleton, hview, KeyMap.get?_put?, if_pos rfl] at hlisted
  obtain ⟨⟨k', h?⟩, rfl, hpair⟩ := List.map_eq_singleton_iff.mp hlisted
  have hlast := congrArg (Except.map fun all : Computed K V => all.getLast?.bind Prod.snd) hok
  exact ⟨h?, Prod.ext hlast hkept, congrArg Prod.snd hpair, hholds.congr hview⟩

/-- The store call of a call answers as the map would, and leaves the store with its map. -/
def AsksLike [BEq V] (c : Cache (Memory K V) K V) (call : Call K V) (s : State (Memory K V))
    (ref : KeyMap K (Handle V)) : Prop :=
  ∃ reply, (c.ask call s).answer = .ok reply ∧
    (call.conclude reply).outcome.toList = (call.onMap ref).outcomes ∧
    call.SameAnswer (call.conclude reply).answer (call.onMap ref).answer ∧
    (c.ask call s).state.store.Holds (call.onMap ref).map

/-- A call that goes by what the batch function of its one key kept. -/
theorem askKept_holds (h : s.store.Holds ref) (k : K)
    (remap : Option (Handle V) → Action τ (Event K V) (Option (Handle V))) (start : τ) :
    let r := askKept ((c.everlasting order).computeOne k remap start) s
    r.answer = .ok (remap (ref.get? k) start).state ∧
      r.state.store.Holds (ref.put? k (remap (ref.get? k) start).answer) := by
  obtain ⟨h?, ha, -, hholds⟩ := computeOne_holds c order h k remap start
  refine ⟨?_, hholds⟩
  simp [askKept, ha, Except.map]

/-- A look-up answers what the table maps the key to, and counts. -/
theorem get_holds {mem : Memory K V} (h : mem.Holds ref) (k : K) :
    let r := (Store.memory .eternal).get k mem
    r.answer = .ok (mem.table.get? k) ∧ r.events = [] ∧ r.state.Holds ref := by
  simp only [Store.memory, Action.bind_apply, Action.change_apply, Action.read_apply, h.purge,
    Action.pure_apply]
  refine ⟨trivial, rfl, ?_⟩
  show (if (mem.table.get? k).isSome then mem.countHit else mem.countMiss).Holds ref
  split
  · exact h.countHit
  · exact h.countMiss

variable [BEq V]

theorem ask_get (h : s.store.Holds ref) (k : K) :
    (c.everlasting order).AsksLike (.get k) s ref := by
  obtain ⟨ha, -, hholds⟩ := get_holds h k
  refine ⟨s.store.table.get? k, ?_, ?_, h.value k, hholds⟩
  · show Except.mapError .store ((Store.memory .eternal).get k s.store).answer = _
    rw [ha]
    rfl
  · have hc : (s.store.table.get? k).isSome = ref.contains k := h.contains k
    simp only [Call.conclude, Call.onMap, hc]
    rfl

theorem ask_containsKey (h : s.store.Holds ref) (k : K) :
    (c.everlasting order).AsksLike (.containsKey k) s ref := by
  refine ⟨(s.store.live? k).isSome, rfl, rfl, ?_, h⟩
  rw [h.live?]
  exact h.contains k

theorem ask_put (h : s.store.Holds ref) (k : K) (v : Handle V) :
    (c.everlasting order).AsksLike (.put k v) s ref := by
  obtain ⟨h?, ha, hvalue, hholds⟩ :=
    computeOne_holds c order h k ((c.everlasting order).accept k · v) ()
  rw [accept_everlasting] at hvalue hholds
  obtain ⟨held, rfl, -⟩ := Option.map_eq_some_iff.mp hvalue
  exact ⟨some held, congrArg Prod.fst ha, rfl, rfl, hholds⟩

theorem ask_putIfAbsent (h : s.store.Holds ref) (k : K) (v : Handle V) :
    (c.everlasting order).AsksLike (.putIfAbsent k v) s ref := by
  obtain ⟨ha, hholds⟩ := askKept_holds c order h k ((c.everlasting order).keepOrAccept k v) none
  cases hk : ref.get? k with
  | none =>
    rw [hk, keepOrAccept, accept_state] at ha
    rw [hk, keepOrAccept, accept_everlasting] at hholds
    have he : (Call.putIfAbsent k v).onMap ref = ⟨none, [.putIfAbsent .put], ref.insert k v⟩ := by
      simp [Call.onMap, KeyMap.contains, hk]
    rw [AsksLike, he]
    exact ⟨none, ha, rfl, rfl, hholds⟩
  | some current =>
    rw [hk] at ha hholds
    have he : (Call.putIfAbsent k v).onMap ref = ⟨some current, [.putIfAbsent .hit], ref⟩ := by
      simp [Call.onMap, KeyMap.contains, hk]
    rw [AsksLike, he]
    exact ⟨some current, ha, rfl, rfl, hholds.congr (KeyMap.get?_put?_self hk)⟩

theorem ask_remove (h : s.store.Holds ref) (k : K) :
    (c.everlasting order).AsksLike (.remove k) s ref := by
  refine ⟨(s.store.live? k).isSome, rfl, ?_, rfl, ?_⟩
  · have hc : (s.store.live? k).isSome = ref.contains k := by
      rw [h.live?]
      exact h.contains k
    simp only [Call.conclude, Call.onMap, hc]
    rfl
  · show (if _ then _ else _ : Memory K V).Holds (ref.erase k)
    split
    · exact h.takeOut k
    · exact h.drop k

theorem ask_removeIf (h : s.store.Holds ref) (k : K) (value : V) :
    (c.everlasting order).AsksLike (.removeIf k value) s ref := by
  obtain ⟨ha, hholds⟩ := askKept_holds c order h k (dropEqual value) .failureKeyMissing
  cases hk : ref.get? k with
  | none =>
    rw [hk] at ha hholds
    have he : (Call.removeIf k value).onMap ref =
        ⟨false, [.conditionalRemove .failureKeyMissing], ref⟩ := by
      simp [Call.onMap, hk]
    rw [AsksLike, he]
    exact ⟨.failureKeyMissing, ha, rfl, rfl, hholds.congr (KeyMap.get?_put?_self hk)⟩
  | some current =>
    rw [hk] at ha hholds
    by_cases hv : current.value == value
    · simp only [dropEqual, if_pos hv] at ha hholds
      have he : (Call.removeIf k value).onMap ref =
          ⟨true, [.conditionalRemove .success], ref.erase k⟩ := by
        simp [Call.onMap, hk, hv]
      rw [AsksLike, he]
      exact ⟨.success, ha, rfl, rfl, hholds⟩
    · simp only [dropEqual, if_neg hv] at ha hholds
      have he : (Call.removeIf k value).onMap ref =
          ⟨false, [.conditionalRemove .failureKeyPresent], ref⟩ := by
        simp [Call.onMap, hk, hv]
      rw [AsksLike, he]
      exact ⟨.failureKeyPresent, ha, rfl, rfl, hholds.congr (KeyMap.get?_put?_self hk)⟩

theorem ask_replace (h : s.store.Holds ref) (k : K) (v : Handle V) :
    (c.everlasting order).AsksLike (.replace k v) s ref := by
  obtain ⟨ha, hholds⟩ := askKept_holds c order h k ((c.everlasting order).acceptOver k v) none
  cases hk : ref.get? k with
  | none =>
    rw [hk] at ha hholds
    have he : (Call.replace k v).onMap ref = ⟨none, [.replace .missNotPresent], ref⟩ := by
      simp [Call.onMap, KeyMap.contains, hk]
    rw [AsksLike, he]
    exact ⟨none, ha, rfl, rfl, hholds.congr (KeyMap.get?_put?_self hk)⟩
  | some current =>
    have hover : ((c.everlasting order).acceptOver k v (some current) none).answer = some v :=
      c.accept_everlasting order k (some current) v (none : Option (Handle V))
    rw [hk, hover] at hholds
    rw [hk] at ha
    have he : (Call.replace k v).onMap ref = ⟨some current, [.replace .hit], ref.insert k v⟩ := by
      simp [Call.onMap, KeyMap.contains, hk]
    rw [AsksLike, he]
    exact ⟨some current, ha, rfl, rfl, hholds⟩

theorem ask_replaceIf (h : s.store.Holds ref) (k : K) (old : V) (new : Handle V) :
    (c.everlasting order).AsksLike (.replaceIf k old new) s ref := by
  obtain ⟨ha, hholds⟩ :=
    askKept_holds c order h k ((c.everlasting order).acceptEqual k old new) .missNotPresent
  cases hk : ref.get? k with
  | none =>
    rw [hk] at ha hholds
    have he : (Call.replaceIf k old new).onMap ref =
        ⟨false, [.replace .missNotPresent], ref⟩ := by
      simp [Call.onMap, hk]
    rw [AsksLike, he]
    exact ⟨.missNotPresent, ha, rfl, rfl, hholds.congr (KeyMap.get?_put?_self hk)⟩
  | some current =>
    rw [hk] at ha hholds
    by_cases hv : current.value == old
    · simp only [acceptEqual, if_pos hv, Action.bind_apply, Action.set_apply, accept_state,
        accept_everlasting] at ha hholds
      have he : (Call.replaceIf k old new).onMap ref =
          ⟨true, [.replace .hit], ref.insert k new⟩ := by
        simp [Call.onMap, hk, hv]
      rw [AsksLike, he]
      exact ⟨.hit, ha, rfl, rfl, hholds⟩
    · simp only [acceptEqual, if_neg hv] at ha hholds
      have he : (Call.replaceIf k old new).onMap ref =
          ⟨false, [.replace .missPresent], ref⟩ := by
        simp [Call.onMap, hk, hv]
      rw [AsksLike, he]
      exact ⟨.missPresent, ha, rfl, rfl, hholds.congr (KeyMap.get?_put?_self hk)⟩

theorem ask_clear (s : State (Memory K V)) (ref : KeyMap K (Handle V)) :
    (c.everlasting order).AsksLike .clear s ref :=
  ⟨(), rfl, rfl, rfl, Holds.clear s.store⟩

/-! ## Batches -/

/-- The keys of a bulk read with what a map says about them. -/
theorem get?_collect (includeAbsent : Bool) (f : K → Option α) (ks : List K) (k : K) :
    (collect includeAbsent (ks.map fun k => (k, f k))).get? k =
      if k ∈ ks ∧ (includeAbsent || (f k).isSome) = true then some (f k) else none := by
  have hfilter : (ks.map fun k => (k, f k)).filter (fun p => includeAbsent || p.2.isSome) =
      (ks.filter fun k => includeAbsent || (f k).isSome).map fun k => (k, f k) := by
    rw [List.filter_map]
    rfl
  rw [collect, hfilter, KeyMap.get?_ofList_map]
  simp [List.mem_filter]

omit [BEq V] in
/-- A bulk read installs nothing. -/
theorem askAbsent_listed (h : s.store.Holds ref) (ks : List K) :
    let r := askResult (bulkCall ((Store.memory .eternal).bulkComputeIfAbsent ks)
      (answerAbsent (K := K) (V := V)) ()) s
    ∃ computed, r.answer = .ok computed ∧
      (computed.map fun p => (p.1, p.2.map Holder.value)) = ks.map (fun k => (k, ref.get? k)) ∧
      r.state.store.Holds ref := by
  have hl : Listed ks ref (((Store.memory .eternal).bulkComputeIfAbsent ks s.store).run Event.note
      answerAbsent ()).answer := by
    cases hmissing : (ref.missing ks).isEmpty with
    | true => exact bulkComputeIfAbsent_none _ _ h hmissing
    | false =>
      refine (bulkComputeIfAbsent_holds _ answerAbsent h hmissing rfl).congr fun k => ?_
      have hnone : (KeyMap.ofList ((ref.missing ks).map fun k => (k, (none : Option (Handle V))))
          ).present.get? k = none := by
        rw [KeyMap.get?_present, KeyMap.get?_ofList_map]
        split <;> rfl
      rw [KeyMap.get?_settle, hnone, Option.getD_none, ite_self]
  obtain ⟨⟨computed, hok, hlisted⟩, hholds⟩ := hl
  exact ⟨computed, hok, hlisted, hholds⟩

theorem ask_getAll (h : s.store.Holds ref) (ks : List K) :
    (c.everlasting order).AsksLike (.getAll ks) s ref := by
  obtain ⟨computed, ha, hlisted, hholds⟩ := askAbsent_listed h ks.eraseDups
  refine ⟨computed, ha, rfl, fun k => ?_, hholds⟩
  show (collect true (computed.map _)).get? k = (KeyMap.ofList _).get? k
  rw [hlisted, get?_collect, KeyMap.get?_ofList_map]
  simp

theorem ask_getAllPresent (h : s.store.Holds ref) (ks : List K) :
    (c.everlasting order).AsksLike (.getAllPresent ks) s ref := by
  obtain ⟨computed, ha, hlisted, hholds⟩ := askAbsent_listed h ks.eraseDups
  refine ⟨computed, ha, rfl, fun k => ?_, hholds⟩
  show ((collect false (computed.map _)).filterMap _).get? k = (ref.filter _).get? k
  rw [hlisted, KeyMap.get?_filterMap, get?_collect, KeyMap.get?_filter]
  cases hk : ref.get? k with
  | none => simp
  | some v => by_cases hmem : k ∈ ks <;> simp [hmem, Option.filter]

omit [BEq V] in
/-- A bulk write or removal leaves what its batch function decides for the requested keys. -/
theorem ask_batch (h : s.store.Holds ref) (ks : List K)
    (reply : Mappings K V → Action τ (Event K V) (Except Fault (Mappings K V))) (start : τ)
    (f : K → Option (Handle V))
    (hr : (reply (ks.eraseDups.map fun k => (k, ref.get? k)) start).answer =
      .ok (ks.eraseDups.map fun k => (k, f k))) {ref' : KeyMap K (Handle V)}
    (hview : ∀ k, ref'.get? k = if k ∈ ks then f k else ref.get? k) :
    let r := askKept (bulkCall ((Store.memory .eternal).bulkCompute ks) reply start) s
    ∃ kept, r.answer = .ok kept ∧ r.state.store.Holds ref' := by
  obtain ⟨⟨⟨computed, hok, -⟩, hholds⟩, -⟩ := bulkCompute_holds Event.note reply h hr
  have hcall : (bulkCall ((Store.memory .eternal).bulkCompute ks) reply start s).answer.1 =
      .ok computed := hok
  refine ⟨_, by simp [askKept, hcall, Except.map]; rfl, hholds.congr fun k => ?_⟩
  rw [KeyMap.get?_settle, KeyMap.get?_ofList_map, hview]
  by_cases hk : k ∈ ks <;> simp [hk]

theorem ask_putAll (h : s.store.Holds ref) (entries : List (K × Handle V)) :
    (c.everlasting order).AsksLike (.putAll entries) s ref := by
  have hr := (c.everlasting order).putPending_answers ref.get?
    (entries.map Prod.fst).eraseDups.eraseDups { pending := .ofList entries } (nodup_eraseDups _)
  have hview (k : K) : (entries.foldl (fun m entry => m.insert entry.1 entry.2) ref).get? k =
      if k ∈ (entries.map Prod.fst).eraseDups then
        ((KeyMap.ofList entries).get? k).elim (ref.get? k)
          ((c.everlasting order).accepted? k (ref.get? k))
      else ref.get? k := by
    rw [KeyMap.get?_foldl_insert, ← KeyMap.get?_ofList]
    simp only [List.mem_eraseDups, ← KeyMap.isSome_get?_ofList]
    cases (KeyMap.ofList entries).get? k with
    | none => rfl
    | some v => exact (c.accepted?_everlasting order k (ref.get? k) v).symm
  obtain ⟨kept, ha, hholds⟩ := ask_batch h (entries.map Prod.fst).eraseDups
    (fun batch => return .ok (← batch.mapM (c.everlasting order).putPending)) _ _
    (congrArg Except.ok hr) hview
  exact ⟨kept, ha, rfl, rfl, hholds⟩

theorem ask_removeAll (h : s.store.Holds ref) (ks : List K) :
    (c.everlasting order).AsksLike (.removeAll ks) s ref := by
  have hr : (dropAll (ks.eraseDups.eraseDups.map fun k => (k, ref.get? k)) 0 :
      Run Nat (Event K V) _).answer = .ok (ks.eraseDups.eraseDups.map fun k => (k, none)) := by
    simp [dropAll, Function.comp_def]
  have hview (k : K) : (ks.foldl KeyMap.erase ref).get? k =
      if k ∈ ks.eraseDups then none else ref.get? k := by
    rw [KeyMap.get?_foldl_erase]
    simp
  obtain ⟨kept, ha, hholds⟩ := ask_batch h ks.eraseDups dropAll 0 (fun _ => none) hr hview
  exact ⟨kept, ha, rfl, rfl, hholds⟩

/-- The store call of every call goes as on the map. -/
theorem ask_holds (h : s.store.Holds ref) (call : Call K V) :
    (c.everlasting order).AsksLike call s ref := by
  cases call with
  | get k => exact c.ask_get order h k
  | containsKey k => exact c.ask_containsKey order h k
  | put k v => exact c.ask_put order h k v
  | putIfAbsent k v => exact c.ask_putIfAbsent order h k v
  | remove k => exact c.ask_remove order h k
  | removeIf k value => exact c.ask_removeIf order h k value
  | replace k v => exact c.ask_replace order h k v
  | replaceIf k old new => exact c.ask_replaceIf order h k old new
  | clear => exact c.ask_clear order s ref
  | getAll ks => exact c.ask_getAll order h ks
  | getAllPresent ks => exact c.ask_getAllPresent order h ks
  | putAll entries => exact c.ask_putAll order h entries
  | removeAll ks => exact c.ask_removeAll order h ks

end Cache

end ResilientCache
