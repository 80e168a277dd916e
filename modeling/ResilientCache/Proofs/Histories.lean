import ResilientCache.Proofs.Settling
import ResilientCache.Proofs.Sweeping
import ResilientCache.Proofs.Telling

/-!
# Histories of the store in memory

A `Turn` is what can happen to a store in memory: its clock is moved, what it holds is listed, or it
serves a request. `Backend.after` takes turns one after the other. Each turn comes with the policy
in force, so a policy may change its mind between two calls; within a call it is asked about a key
at most once.

`Request.leaves` is the store as a function: what a request leaves of every key, by what its batch
function answers and the policy grants, a failure of either included. So a request leaves a key what
it held, or nothing, or what a write over its live holder makes of it, and that is all an invariant
of the held mappings has to look at (`leaves_cases`).

Headlines:
* `bulkCompute_leaves`, `bulkComputeIfAbsent_leaves`: the bulk primitives, whatever they are
  answered.
* **`serve_leaves`**: every request leaves every key what `leaves` says.
* `leaves_cases`, `after_keeps`: what is invariant over every history.
-/

namespace ResilientCache

variable {τ ε' K V : Type}

/-! ## What a request leaves of every key -/

namespace Memory

variable [DecidableEq K]

/-- What a bulk computation leaves of a key, by what its function answers to the whole batch. -/
def recomputed? [DecidableEq (Handle V)] (policy : Policy K V) (m : Memory K V) (ks : List K)
    (k : K) :
    Except Fault (Mappings K V) → Option (Holder V)
  | .error _ => if k ∈ ks then m.live? k else m.table.get? k
  | .ok pairs =>
    if k ∈ ks then settled? policy m.now k (m.live? k) ((KeyMap.ofList pairs).get? k)
    else m.table.get? k

/-- What a bulk load leaves of a key, by what its function answers to the absent keys. -/
def reloaded? (policy : Policy K V) (m : Memory K V) (ks : List K) (k : K) :
    Except Fault (Mappings K V) → Option (Holder V)
  | .error _ => if k ∈ m.absent ks then none else m.table.get? k
  | .ok pairs =>
    if k ∈ m.absent ks then loaded? policy m.now k none ((KeyMap.ofList pairs).get? k)
    else m.table.get? k

section

variable [DecidableEq (Handle V)] (policy : Policy K V) (event : Note K V → ε') (ks : List K)
  (m : Memory K V) (t : τ)

/-- Whatever a bulk computation is answered, it leaves the clock alone and every key what is made of
the answer. -/
theorem bulkCompute_leaves (reply : Mappings K V → Action τ ε' (Except Fault (Mappings K V))) :
    let m' := (((Store.memory policy).bulkCompute ks m).run event reply t).answer.2
    m'.now = m.now ∧
      ∀ k, m'.table.get? k = m.recomputed? policy ks k (reply (m.batch ks) t).answer := by
  cases hr : (reply (m.batch ks) t).answer with
  | error fault =>
    simp only [bulkCompute_run, hr, run_settling_error]
    exact ⟨purgeAll_now ks m, get?_purgeAll ks m⟩
  | ok pairs =>
    obtain ⟨m', notes, hrun, hnow, hget⟩ := bulkCompute_settles policy event reply hr
    rw [hrun]
    exact ⟨hnow, hget⟩

/-- A bulk load with nothing to load leaves every key as it was; otherwise it leaves every key what
is made of the answer. -/
theorem bulkComputeIfAbsent_leaves (reply : List K → Action τ ε' (Except Fault (Mappings K V))) :
    let m' := (((Store.memory policy).bulkComputeIfAbsent ks m).run event reply t).answer.2
    m'.now = m.now ∧
      ∀ k, m'.table.get? k = m.reloaded? policy ks k (reply (m.absent ks) t).answer := by
  by_cases hnone : m.absent ks = []
  · obtain ⟨m', hrun, hnow, hget⟩ :=
      bulkComputeIfAbsent_idle policy event (t := t) reply hnone
    rw [hrun]
    refine ⟨hnow, fun k => (hget k).trans ?_⟩
    cases (reply (m.absent ks) t).answer <;> simp [reloaded?, hnone]
  cases hr : (reply (m.absent ks) t).answer with
  | error fault =>
    rw [bulkComputeIfAbsent_eq, missing_purgeAll, List.isEmpty_eq_false_iff.mpr hnone,
      if_neg Bool.false_ne_true, Dialogue.run_ask, hr, run_settling_error]
    exact ⟨purgeAll_now ks m, get?_purgeAll_absent m ks⟩
  | ok pairs =>
    obtain ⟨m', notes, hrun, hnow, hget⟩ := bulkComputeIfAbsent_loads policy event reply hnone hr
    rw [hrun]
    exact ⟨hnow, hget⟩

variable {computed : Computed K V}

/-- A bulk computation that ends well lists what it leaves of the requested keys. -/
theorem bulkCompute_lists {reply : Mappings K V → Action τ ε' (Except Fault (Mappings K V))}
    (h : (((Store.memory policy).bulkCompute ks m).run event reply t).answer.1 = .ok computed) :
    computed = (((Store.memory policy).bulkCompute ks m).run event reply t).answer.2.computed
      ks := by
  rw [bulkCompute_eq, Dialogue.run_ask] at h ⊢
  generalize (reply (ks.eraseDups.map fun k => (k, (m.purgeAll ks).value? k)) t).answer = answer
    at h ⊢
  cases answer with
  | error fault => cases h
  | ok pairs =>
    rw [run_settling_ok] at h ⊢
    cases h
    rfl

/-- So does a bulk load. -/
theorem bulkComputeIfAbsent_lists {reply : List K → Action τ ε' (Except Fault (Mappings K V))}
    (h : (((Store.memory policy).bulkComputeIfAbsent ks m).run event reply t).answer.1 =
      .ok computed) :
    computed =
      (((Store.memory policy).bulkComputeIfAbsent ks m).run event reply t).answer.2.computed
        ks := by
  rw [bulkComputeIfAbsent_eq] at h ⊢
  split at h
  · rw [if_pos ‹_›]
    cases h
    rfl
  · rw [if_neg ‹_›]
    rw [Dialogue.run_ask] at h ⊢
    generalize (reply ((m.purgeAll ks).table.missing ks) t).answer = answer at h ⊢
    cases answer with
    | error fault => cases h
    | ok pairs =>
      rw [run_settling_ok] at h ⊢
      cases h
      rfl

end

end Memory

open Memory in
/-- What a request leaves of a key. -/
def Request.leaves [DecidableEq K] [DecidableEq (Handle V)] (policy : Policy K V) (m : Memory K V) :
    Request K V → K → Option (Holder V)
  | .get k, k' => if k = k' then m.live? k else m.table.get? k'
  | .put k v, k' =>
    if k = k' then rewritten? policy m.now k (m.live? k) v else m.table.get? k'
  | .remove k, k' => if k = k' then none else m.table.get? k'
  | .clear, _ => none
  | .bulkCompute ks f, k => m.recomputed? policy ks k (f (m.batch ks))
  | .bulkComputeIfAbsent ks f, k => m.reloaded? policy ks k (f (m.absent ks))
  | .containsKey _, k => m.table.get? k
  | .len, k => m.table.get? k
  | .isEmpty, k => m.table.get? k

namespace Memory

variable [DecidableEq K] [DecidableEq (Handle V)] (policy : Policy K V) (m : Memory K V)

/-- A request leaves a key what it held, or nothing, or what a write over its live holder makes of
it. -/
theorem leaves_cases (r : Request K V) (k : K) :
    r.leaves policy m k = m.table.get? k ∨ r.leaves policy m k = none ∨
      ∃ v, r.leaves policy m k = rewritten? policy m.now k (m.live? k) v := by
  -- what is live is held, so a purge is one of the first two cases
  have hlive : m.live? k = m.table.get? k ∨ m.live? k = none := by
    cases hl : m.live? k with
    | none => exact .inr rfl
    | some h => exact .inl (get?_of_live? hl).symm
  cases r with
  | get k' =>
    rw [Request.leaves]
    split
    · subst ‹k' = k›
      exact hlive.imp_right .inl
    · exact .inl rfl
  | put k' v =>
    rw [Request.leaves]
    split
    · subst ‹k' = k›
      exact .inr (.inr ⟨v, rfl⟩)
    · exact .inl rfl
  | remove k' =>
    rw [Request.leaves]
    split
    · exact .inr (.inl rfl)
    · exact .inl rfl
  | clear => exact .inr (.inl rfl)
  | bulkCompute ks f =>
    rw [Request.leaves]
    cases f (m.batch ks) with
    | error fault =>
      rw [recomputed?]
      split
      · exact hlive.imp_right .inl
      · exact .inl rfl
    | ok pairs =>
      rw [recomputed?]
      split
      · rcases (KeyMap.ofList pairs).get? k with _ | _ | v
        · exact hlive.imp_right .inl
        · exact .inr (.inl rfl)
        · rw [settled?]
          split
          · exact hlive.imp_right .inl
          · exact .inr (.inr ⟨v, rfl⟩)
      · exact .inl rfl
  | bulkComputeIfAbsent ks f =>
    rw [Request.leaves]
    cases f (m.absent ks) with
    | error fault =>
      rw [reloaded?]
      split
      · exact .inr (.inl rfl)
      · exact .inl rfl
    | ok pairs =>
      rw [reloaded?]
      split
      · rw [(mem_absent.mp ‹k ∈ m.absent ks›).2]
        rcases (KeyMap.ofList pairs).get? k with _ | _ | v
        · exact .inr (.inl rfl)
        · exact .inr (.inl rfl)
        · exact .inr (.inr ⟨v, rfl⟩)
      · exact .inl rfl
  | containsKey _ => exact .inl rfl
  | len => exact .inl rfl
  | isEmpty => exact .inl rfl

end Memory

/-! ## Turns -/

namespace Backend

/-- What can happen to a store in memory. -/
inductive Turn (K V : Type)
  /-- Its clock is moved. -/
  | clock (move : ClockMove)
  /-- What it holds is listed. -/
  | iterate
  | request (r : Request K V)

/-- What a turn is answered. -/
@[reducible] def Turn.Answer : Turn K V → Type
  | .clock _ => Unit
  | .iterate => List (RawStep K V)
  | .request r => r.Answer

/-- Take a turn. -/
def turn (b : Backend K V) : (t : Turn K V) → Action (Memory K V) (Sight K V) t.Answer
  | .clock move => .change fun m => { m with now := m.now.move move }
  | .iterate => plain b.store.iterate
  | .request r => b.serve r

variable [DecidableEq K] [DecidableEq (Handle V)]

/-- The memory after turns, each of them under the policy then in force. -/
def after : List (Policy K V × Turn K V) → Memory K V → Memory K V
  | [], m => m
  | (policy, t) :: rest, m => after rest ((lazy policy).turn t m).state

open Memory in
/-- **A request leaves every key what it is said to leave**, and the clock alone. -/
theorem serve_leaves (policy : Policy K V) (r : Request K V) (m : Memory K V) :
    ((lazy policy).serve r m).state.now = m.now ∧
      ∀ k, ((lazy policy).serve r m).state.table.get? k = r.leaves policy m k := by
  cases r with
  | get k =>
    show ((Store.memory policy).get k m).state.now = _ ∧
      ∀ k', ((Store.memory policy).get k m).state.table.get? k' = _
    rw [get_memory]
    dsimp only
    cases (m.live? k).isSome <;> exact ⟨purge_now m k, get?_purge m k⟩
  | put k v =>
    obtain ⟨hnow, hget⟩ := write_byKey policy k v (m.purge k)
    refine ⟨hnow.trans (purge_now m k), fun k' => (hget k').trans ?_⟩
    rw [purge_now, get?_purge, if_pos rfl, get?_purge, Request.leaves]
    split <;> rfl
  | remove k =>
    show (if (m.live? k).isSome then m.takeOut k else m.drop k).now = _ ∧
      ∀ k', (if (m.live? k).isSome then m.takeOut k else m.drop k).table.get? k' = _
    cases (m.live? k).isSome <;> exact ⟨rfl, fun k' => KeyMap.get?_erase ..⟩
  | bulkCompute ks f => exact bulkCompute_leaves policy Sight.note ks m () _
  | bulkComputeIfAbsent ks f => exact bulkComputeIfAbsent_leaves policy Sight.note ks m () _
  | clear => exact ⟨rfl, fun _ => rfl⟩
  | containsKey k => exact ⟨rfl, fun _ => rfl⟩
  | len => exact ⟨rfl, fun _ => rfl⟩
  | isEmpty => exact ⟨rfl, fun _ => rfl⟩

/-! ## Invariants -/

/-- What every clock reading, and every request under an allowed policy, keeps is kept by every
history under allowed policies. -/
theorem after_keeps {I : Memory K V → Prop} {allowed : Policy K V → Prop}
    (hclock : ∀ m t, I m → I { m with now := t })
    (hserve : ∀ policy, allowed policy → ∀ r, ((lazy policy).serve r).Preserves I) :
    ∀ (turns : List (Policy K V × Turn K V)) (m : Memory K V),
      (∀ turn ∈ turns, allowed turn.1) → I m → I (after turns m)
  | [], _, _, hm => hm
  | (policy, t) :: rest, m, hall, hm => by
    obtain ⟨hpolicy, hrest⟩ := List.forall_mem_cons.mp hall
    refine after_keeps hclock hserve rest _ hrest ?_
    cases t with
    | clock move => exact hclock m _ hm
    | iterate => exact hm
    | request r => exact hserve policy hpolicy r m hm

end Backend

end ResilientCache
