import ResilientCache.Cache.Basic
import ResilientCache.Store.Audit
import ResilientCache.Store.Memory

/-!
# Stores that fail by plan

`store.failing plan` is `store`, except that a `Plan` may strike any of its calls: a struck call
fails, either before it takes effect or after it took its whole effect. Calls are numbered in the
order in which they come, so a plan can strike one call of an operation and let another pass.

A recovery is a sequence of removals by force. `forceAll_pass` and `forceAll_struck` say what it
tries and what it has removed when no removal is struck, and when one is.

Headlines:
* `recover_eq`: recovering a scope is forcing its removals, one after the other.
* **`forceAll_struck`**: the first struck removal ends a recovery; what came before it is gone.
* `get?_foldl_forced`: what is left of a table after removals.
-/

namespace ResilientCache

variable {σ τ Q K V α : Type}

/-! ## Plans -/

/-- A failure set for one call of a store. -/
structure Strike where
  error : StoreError
  /-- Whether the call takes effect first. -/
  late : Bool := false

/-- What strikes each call of a store, by its number. -/
abbrev Plan := Nat → Option Strike

/-- A store's state, and how many calls it has received. -/
structure Counted (σ : Type) where
  inner : σ
  received : Nat := 0

namespace Plan

/-- A plain call under a plan. -/
def guard (plan : Plan) (call : Action σ (Note K V) (Except StoreError α)) :
    Action (Counted σ) (Note K V) (Except StoreError α) := fun s =>
  let r := call s.inner
  match plan s.received with
  | none => ⟨r.answer, ⟨r.state, s.received + 1⟩, r.events⟩
  | some ⟨e, true⟩ => ⟨.error e, ⟨r.state, s.received + 1⟩, r.events⟩
  | some ⟨e, false⟩ => ⟨.error e, ⟨s.inner, s.received + 1⟩, []⟩

/-- A bulk primitive under a plan. -/
def guardBulk (plan : Plan) (call : σ → BulkCall σ Q K V) (s : Counted σ) :
    BulkCall (Counted σ) Q K V :=
  match plan s.received with
  | none => (call s.inner).map fun r => (r.1, ⟨r.2, s.received + 1⟩)
  | some ⟨e, true⟩ =>
    (call s.inner).map fun r => (r.1.bind fun _ => .error (.store e), ⟨r.2, s.received + 1⟩)
  | some ⟨e, false⟩ => .done (.error (.store e), ⟨s.inner, s.received + 1⟩)

end Plan

/-- The store whose calls fail by plan. -/
def Store.failing (store : Store σ K V) (plan : Plan) : Store (Counted σ) K V where
  get k := plan.guard (store.get k)
  containsKey k := plan.guard (store.containsKey k)
  put k v := plan.guard (store.put k v)
  remove k := plan.guard (store.remove k)
  clear := plan.guard store.clear
  iterate := do
    match ← plan.guard (do return .ok (← store.iterate)) with
    | .ok steps => return steps
    | .error e => return [.error e]
  bulkComputeIfAbsent ks := plan.guardBulk (store.bulkComputeIfAbsent ks)
  bulkCompute ks := plan.guardBulk (store.bulkCompute ks)
  metrics s := store.metrics s.inner

namespace Plan

variable {plan : Plan} {s : Counted σ} {strike : Strike}

theorem guard_pass (call : Action σ (Note K V) (Except StoreError α))
    (h : plan s.received = none) :
    plan.guard call s =
      ⟨(call s.inner).answer, ⟨(call s.inner).state, s.received + 1⟩, (call s.inner).events⟩ := by
  simp only [guard, h]

/-- A struck call fails with the error of the strike, having taken its whole effect or none. -/
theorem guard_struck (call : Action σ (Note K V) (Except StoreError α))
    (h : plan s.received = some strike) :
    plan.guard call s =
      if strike.late then
        ⟨.error strike.error, ⟨(call s.inner).state, s.received + 1⟩, (call s.inner).events⟩
      else ⟨.error strike.error, ⟨s.inner, s.received + 1⟩, []⟩ := by
  obtain ⟨e, late⟩ := strike
  cases late <;> simp [guard, h]

end Plan

/-! ## Removals by force -/

/-- A removal by force: of one key, or of everything. -/
inductive Removal (K : Type)
  | key (k : K)
  | all

/-- The removals that recover a scope, in order. -/
def Scope.removals : Scope K → List (Removal K)
  | key k => [.key k]
  | keys ks => ks.map .key
  | all => [.all]

namespace Removal

/-- The store call a removal makes. -/
def call : Removal K → StoreCall K V
  | key k => .remove k
  | all => .clear

/-- Whether a removal is meant for a key. -/
def Covers : Removal K → K → Prop
  | key k, k' => k = k'
  | all, _ => True

instance [DecidableEq K] : (r : Removal K) → (k : K) → Decidable (r.Covers k)
  | key k, k' => inferInstanceAs (Decidable (k = k'))
  | all, _ => isTrue trivial

end Removal

namespace Store

/-- Make one removal. -/
def force (store : Store σ K V) : Removal K → Action σ (Note K V) (Except StoreError Unit)
  | .key k => store.obliterate k
  | .all => store.obliterateAll

/-- Make removals one after the other; the first failure ends it. -/
def forceAll (store : Store σ K V) : List (Removal K) → Action σ (Note K V) (Except StoreError Unit)
  | [] => return .ok ()
  | r :: rest => do
    match ← store.force r with
    | .ok () => store.forceAll rest
    | .error e => return .error e

theorem forceAll_of_ok (store : Store σ K V) {r : Removal K} {s s' : σ} {ns : List (Note K V)}
    (h : store.force r s = ⟨.ok (), s', ns⟩) (rs : List (Removal K)) :
    store.forceAll (r :: rs) s =
      ⟨(store.forceAll rs s').answer, (store.forceAll rs s').state,
        ns ++ (store.forceAll rs s').events⟩ := by
  simp [forceAll, h]

theorem forceAll_of_error (store : Store σ K V) {r : Removal K} {s s' : σ} {e : StoreError}
    {ns : List (Note K V)} (h : store.force r s = ⟨.error e, s', ns⟩) (rs : List (Removal K)) :
    store.forceAll (r :: rs) s = ⟨.error e, s', ns⟩ := by
  simp [forceAll, h]

theorem forceAll_singleton (store : Store σ K V) (r : Removal K) :
    store.forceAll [r] = store.force r := by
  funext s
  rcases hr : store.force r s with ⟨e | u, s', ns⟩
  · rw [forceAll_of_error store hr]
  · rw [forceAll_of_ok store hr]
    simp [forceAll]

theorem obliterateKeys_eq (store : Store σ K V) : ∀ ks : List K,
    store.obliterateKeys ks = store.forceAll (ks.map .key)
  | [] => rfl
  | k :: ks => by
    rw [obliterateKeys, List.map_cons, forceAll, store.obliterateKeys_eq ks]
    rfl

/-- Recovering a scope is forcing its removals. -/
theorem recover_eq (store : Store σ K V) (scope : Scope K) :
    store.recover scope = store.forceAll scope.removals := by
  cases scope with
  | key k => exact (store.forceAll_singleton (.key k)).symm
  | keys ks => exact store.obliterateKeys_eq ks
  | all => exact (store.forceAll_singleton .all).symm

end Store

/-! ## Recovery of a failing store in memory -/

namespace Memory

variable [DecidableEq K]

/-- The memory after a removal. -/
def forced (m : Memory K V) : Removal K → Memory K V
  | .key k => if (m.live? k).isSome then m.takeOut k else m.drop k
  | .all => { m with table := .empty }

@[simp] theorem table_forced_key (m : Memory K V) (k : K) :
    (m.forced (.key k)).table = m.table.erase k := by
  rw [forced]
  split <;> rfl

/-- A removal leaves the keys it is not meant for as they are. -/
theorem get?_forced (m : Memory K V) (r : Removal K) (k : K) :
    (m.forced r).table.get? k = if r.Covers k then none else m.table.get? k := by
  cases r with
  | key k' =>
    rw [table_forced_key, KeyMap.get?_erase]
    rfl
  | all => exact (if_pos trivial).symm

/-- What is left of a table after removals: the keys that none of them is meant for. -/
theorem get?_foldl_forced (k : K) : ∀ (rs : List (Removal K)) (m : Memory K V),
    (rs.foldl forced m).table.get? k = if ∃ r ∈ rs, r.Covers k then none else m.table.get? k
  | [], m => by simp
  | r :: rs, m => by
    rw [List.foldl_cons, get?_foldl_forced k rs, get?_forced]
    by_cases hr : r.Covers k <;> simp [hr]

end Memory

namespace Store

theorem force_audited (store : Store σ K V) (r : Removal K) :
    store.audited.force r = (do Action.tell (.called r.call); store.force r) := by
  cases r with
  | key k =>
    funext s
    simp [force, obliterate, audited, Removal.call]
  | all => rfl

/-- Forcing a removal is one call of the store, also under a plan. -/
theorem force_failing (store : Store σ K V) (plan : Plan) (r : Removal K) :
    (store.failing plan).force r = plan.guard (store.force r) := by
  cases r with
  | key k =>
    funext s
    simp only [force, obliterate, failing, Action.bind_apply, Action.pure_apply, List.append_nil]
    cases h : plan s.received with
    | none => simp [Plan.guard_pass, h]
    | some strike => cases hl : strike.late <;> simp [Plan.guard_struck _ h, hl, Except.map]
  | all => rfl

variable [DecidableEq K] [DecidableEq (Handle V)] (policy : Policy K V) (plan : Plan)

theorem force_memory (r : Removal K) (m : Memory K V) :
    (Store.memory policy).force r m = ⟨.ok (), m.forced r, []⟩ := by
  cases r <;> rfl

/-- A removal that no strike prevents. -/
theorem force_pass (r : Removal K) {s : Counted (Memory K V)} (h : plan s.received = none) :
    ((Store.memory policy).failing plan).audited.force r s =
      ⟨.ok (), ⟨s.inner.forced r, s.received + 1⟩, [.called r.call]⟩ := by
  rw [force_audited, force_failing, Action.bind_apply, Action.tell_apply, Plan.guard_pass _ h,
    force_memory]
  rfl

/-- A removal that is struck. -/
theorem force_struck (r : Removal K) {s : Counted (Memory K V)} {strike : Strike}
    (h : plan s.received = some strike) :
    ((Store.memory policy).failing plan).audited.force r s =
      ⟨.error strike.error,
        ⟨if strike.late then s.inner.forced r else s.inner, s.received + 1⟩,
        [.called r.call]⟩ := by
  rw [force_audited, force_failing, Action.bind_apply, Action.tell_apply, Plan.guard_struck _ h,
    force_memory]
  split <;> rfl

/-- A recovery that no strike disturbs tries and makes every removal. -/
theorem forceAll_pass : ∀ (rs : List (Removal K)) (s : Counted (Memory K V)),
    (∀ i < rs.length, plan (s.received + i) = none) →
    ((Store.memory policy).failing plan).audited.forceAll rs s =
      ⟨.ok (), ⟨rs.foldl Memory.forced s.inner, s.received + rs.length⟩,
        rs.map fun r => .called r.call⟩
  | [], _, _ => rfl
  | r :: rs, s, h => by
    have hr := force_pass policy plan r (h 0 (by simp))
    have ih := forceAll_pass rs ⟨s.inner.forced r, s.received + 1⟩ fun i hi => by
      rw [Nat.add_assoc, Nat.add_comm 1 i]
      exact h (i + 1) (by simpa using hi)
    rw [forceAll_of_ok _ hr, ih]
    simp [Nat.add_assoc, Nat.add_comm]

/-- The first struck removal ends a recovery: no later one is tried, and those before it are made;
the struck one itself is made if the strike is late. -/
theorem forceAll_struck : ∀ (rs : List (Removal K)) (s : Counted (Memory K V)) (j : Nat)
    (strike : Strike), j < rs.length → (∀ i < j, plan (s.received + i) = none) →
    plan (s.received + j) = some strike →
    ((Store.memory policy).failing plan).audited.forceAll rs s =
      ⟨.error strike.error,
        ⟨(rs.take (if strike.late then j + 1 else j)).foldl Memory.forced s.inner,
          s.received + (j + 1)⟩,
        (rs.take (j + 1)).map fun r => .called r.call⟩
  | r :: rs, s, 0, strike, _, _, h => by
    rw [forceAll_of_error _ (force_struck policy plan r h)]
    cases hl : strike.late <;> simp
  | r :: rs, s, j + 1, strike, hj, hpass, h => by
    have hr := force_pass policy plan r (hpass 0 (by omega))
    have ih := forceAll_struck rs ⟨s.inner.forced r, s.received + 1⟩ j strike
      (by simpa using hj)
      (fun i hi => by
        rw [Nat.add_assoc, Nat.add_comm 1 i]
        exact hpass (i + 1) (by omega))
      (by rw [Nat.add_assoc, Nat.add_comm 1 j]; exact h)
    have count : s.received + 1 + (j + 1) = s.received + (j + 1 + 1) := by omega
    rw [forceAll_of_ok _ hr, ih]
    cases hl : strike.late <;> simp [count]

end Store

end ResilientCache
