import ResilientCache.Proofs.Loading
import ResilientCache.Proofs.Writing

/-!
# Values that are dead on arrival

A cache asks its own policy about every value that a call is about to write, over the live value of
the key or for a new mapping; a value to which the policy grants no time is not stored, and what the
key held is removed in its place. A policy that fails grants no time.

A bulk load does not ask. Its values go from the loader to the store, which has a policy of its own,
so a value that the policy of the cache denies is kept from the store only if the policy of the
store denies it too (`load_keeps_denied`).

Headlines:
* `decided_of_denied`: a call that writes a denied value decides that its key shall not be mapped.
* **`dead_on_arrival_unmapped`**: what calls and bulk loads leave of a key for which the value they
  write is denied.
-/

namespace ResilientCache

open Memory

variable {K V : Type} [DecidableEq K]

/-- A call writes a value to a key that has this live value, or none. -/
def Call.Writes [BEq V] (k : K) (old? : Option V) (v : Handle V) : Call K V → Prop
  | put k' v' => k' = k ∧ v' = v
  | putIfAbsent k' v' => k' = k ∧ v' = v ∧ old? = none
  | replace k' v' => k' = k ∧ v' = v ∧ old?.isSome
  | replaceIf k' old v' => k' = k ∧ v' = v ∧ old?.any (· == old)
  | putAll entries => (KeyMap.ofList entries).get? k = some v
  | _ => False

namespace Cache

variable [BEq V] {policy : Policy K V} {c : Cache (Memory K V) K V}
  {s : State (Memory K V)} {k : K} {v : Handle V}

/-- A call that writes a denied value decides that its key shall not be mapped. -/
theorem decided_of_denied {call : Call K V} {old? : Option (Handle V)}
    (hw : call.Writes k (old?.map (·.value)) v)
    (h : c.expiry.Denies (.ofWrite k (old?.map (·.value)) v.value)) :
    call.Recomputes ∧ c.decided call k old? = some none := by
  have hnone := accepted?_of_denied h
  cases call with
  | put k' v' =>
    obtain ⟨rfl, rfl⟩ := hw
    exact ⟨trivial, by rw [decided, if_pos rfl, hnone]⟩
  | putIfAbsent k' v' =>
    obtain ⟨rfl, rfl, hold⟩ := hw
    obtain rfl := Option.map_eq_none_iff.mp hold
    exact ⟨trivial, by rw [decided, if_pos rfl, hnone, Option.none_or]⟩
  | replace k' v' =>
    obtain ⟨rfl, rfl, hold⟩ := hw
    obtain ⟨current, rfl⟩ := Option.isSome_iff_exists.mp (by simpa using hold)
    exact ⟨trivial, by rw [decided, if_pos rfl, Option.bind_some, hnone]⟩
  | replaceIf k' old v' =>
    obtain ⟨rfl, rfl, hany⟩ := hw
    obtain ⟨_, hold, hequal⟩ := (Option.any_eq_true _ _).mp hany
    obtain ⟨current, rfl, rfl⟩ := Option.map_eq_some_iff.mp hold
    exact ⟨trivial, by rw [decided, if_pos rfl, Option.bind_some, if_pos hequal, hnone]⟩
  | putAll entries =>
    have hpending : (KeyMap.ofList entries).get? k = some v := hw
    exact ⟨trivial, by rw [decided, hpending, Option.map_some, hnone]⟩
  | _ => exact hw.elim

variable [DecidableEq (Handle V)]

/-- **What the cache's policy denies is not left stored by a call**, whatever the policy of the
store: the key of the value is unmapped afterwards. A bulk load leaves the key unmapped exactly if
the policy of the store denies the value that it writes. -/
theorem dead_on_arrival_unmapped (hc : c.store = .memory policy)
    (hs : s.lifecycle.status = .available)
    (hdead : c.expiry.Denies (.ofWrite k ((s.store.live? k).map (·.value.value)) v.value)) :
    (∀ call : Call K V, call.Writes k ((s.store.live? k).map (·.value.value)) v →
      (c.serve call s).state.store.table.get? k = none) ∧
    ∀ (ks : List K) (replaceExisting : Bool) (answer : List K → KeyMap K (Handle V)),
      let batch := s.store.wanted ks replaceExisting
      k ∈ batch → (answer batch).get? k = some v →
      (s.store.live? k).map Holder.value ≠ some v →
      let r := (c.loadAll ks replaceExisting fun batch => .ok (answer batch)).run s
      (r.state.store.table.get? k = none ↔
        policy.Denies (.ofWrite k ((s.store.live? k).map (·.value.value)) v.value)) := by
  have hvalue : (s.store.live? k).map (·.value.value) =
      ((s.store.live? k).map Holder.value).map (·.value) := by
    rw [Option.map_map]
    rfl
  refine ⟨fun call hw => ?_, ?_⟩
  · rw [hvalue] at hw hdead
    obtain ⟨hrecomputes, hdecided⟩ := decided_of_denied hw hdead
    rw [(serve_settles hc hrecomputes hs).entry k]
    simp only [hdecided, settled?]
  · intro ks replaceExisting answer batch hk hv hother r
    have hne : ks ≠ [] := by
      rintro rfl
      have hnil : batch = [] := by cases replaceExisting <;> rfl
      rw [hnil] at hk
      cases hk
    have hload : LoadsRequested policy ks batch (answer batch) s r :=
      loads_requested replaceExisting _ (loadAll_leaves hc hs hne replaceExisting answer)
    refine ⟨fun hnone => ?_, hload.denied k hk v hv hother⟩
    by_contra hgranted
    obtain ⟨held, hheld, -⟩ := hload.installed k hk v hv hother hgranted
    cases hheld.symm.trans hnone

/-- A bulk put of two values, one of which the cache's policy denies over the value that its key
holds: that key is unmapped, although the store would have held the value for ever. -/
theorem dead_on_arrival_unmapped_putAll :
    let expiry : Policy Nat Nat :=
      { creation := fun _ _ => .ok .max
        update := fun _ _ new => if new = 0 then .error (.text "no lifetime") else .ok none }
    let c : Cache (Memory Nat Nat) Nat Nat :=
      { store := .memory .eternal, strategy := .propagating, expiry }
    let s : State (Memory Nat Nat) :=
      { store := { table := { pairs := [(1, .eternal ⟨0, 10⟩)] } }
        lifecycle := { status := .available } }
    let call : Call Nat Nat := .putAll [(2, ⟨1, 20⟩), (1, ⟨2, 0⟩)]
    s.lifecycle.status = .available ∧ c.expiry.Denies (.update 1 10 0) ∧
      call.Writes 1 (some 10) ⟨2, 0⟩ ∧ (c.serve call s).state.store.table.get? 1 = none := by
  intro expiry c s call
  have hs : s.lifecycle.status = .available := rfl
  have hdead : c.expiry.Denies (.update 1 10 0) := .inr ⟨.text "no lifetime", rfl⟩
  have hw : call.Writes 1 (some 10) ⟨2, 0⟩ := by
    show (KeyMap.ofList [(2, ⟨1, 20⟩), (1, (⟨2, 0⟩ : Handle Nat))]).get? 1 = some ⟨2, 0⟩
    decide
  have hunmapped := dead_on_arrival_unmapped (c := c) (s := s) (k := 1) (v := ⟨2, 0⟩) rfl hs hdead
  exact ⟨hs, hdead, hw, hunmapped.1 call hw⟩

/-- A bulk load stores a value to which the policy of the cache grants no time, in either mode, if
the policy of the store is the eternal one. -/
theorem load_keeps_denied :
    let c : Cache (Memory Nat String) Nat String :=
      { store := .memory .eternal, expiry := .timeToLive .zero }
    let s : State (Memory Nat String) :=
      { store := {}, lifecycle := { status := .available } }
    let loader : Loader Nat String := fun _ => .ok (.ofList [(1, ⟨0, "one"⟩)])
    s.lifecycle.status = .available ∧ c.expiry.Denies (.creation 1 "one") ∧
      ((c.loadAll [1] false loader).run s).state.store.table.get? 1 =
        some (.eternal ⟨0, "one"⟩) ∧
      ((c.loadAll [1] true loader).run s).state.store.table.get? 1 =
        some (.eternal ⟨0, "one"⟩) := by
  intro c s loader
  exact ⟨rfl, .inl rfl, by decide, by decide⟩

end Cache

end ResilientCache
