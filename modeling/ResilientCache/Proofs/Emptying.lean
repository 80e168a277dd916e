import Mathlib.Data.List.Perm.Subperm
import ResilientCache.Proofs.Failing
import ResilientCache.Proofs.Reporting

/-!
# Removing every entry that an iteration shows

`removeAllEntries` collects the keys that the raw iteration of the store lists, and removes them one
after the other. What the iteration lists is what the store holds, in any order, or some of it: its
steps may fail anywhere, and it may end early (`listed`). Mappings that have expired are listed and
removed like the others, but recorded as no-ops.

The removals are calls of the store of their own, which a plan may strike. The iteration is call
number `received`, so the removal of the `i`-th listed entry is call number `received + 1 + i`.
The state in the middle of the loop is that some entries are gone, and the rest of the loop runs on
it (`removeEach_past`): at the end of the list nothing is left to do, and at a removal that fails
under the propagating strategy the loop ends.

Headlines:
* `rawKeys_run`: the keys of a raw iteration, and the warnings for its failed steps.
* `askPlain_called`, `askPlain_called_early`: an audited call that a plan lets pass, and one that it
  strikes.
* `remove_pass`, `remove_struck`: one removal.
* `removeEach_past`: the loop beyond some removals.
* **`removeAllEntries_removes_listed`**.
-/

namespace ResilientCache

open Memory

variable {σ K V : Type}

/-! ## Raw iterations -/

/-- A store in memory whose raw iteration takes given steps. -/
def Store.showing (store : Store (Memory K V) K V) (steps : Memory K V → List (RawStep K V)) :
    Store (Memory K V) K V :=
  { store with iterate := Action.read steps }

/-- The entries that a raw iteration lists. -/
def listed (steps : List (RawStep K V)) : List (K × Holder V) :=
  steps.filterMap fun
    | .ok p => some p
    | .error _ => none

/-- The failures of the steps of a raw iteration. -/
def stepFailures (steps : List (RawStep K V)) : List StoreError :=
  steps.filterMap fun
    | .ok _ => none
    | .error e => some e

/-- The warning for a failed step that is skipped. -/
def skipped (e : StoreError) : Event K V := .note (.logged (.skippedEntry e))

namespace Cache

/-- A raw iteration gives the keys of the entries it lists, and a warning for each failed step. -/
theorem rawKeys_run (s : State σ) : ∀ steps : List (RawStep K V),
    rawKeys steps s =
      ⟨(listed steps).map Prod.fst, s, (stepFailures steps).map skipped⟩
  | [] => rfl
  | .ok p :: rest => by
    simp only [rawKeys, Action.bind_apply, rawKeys_run s rest, Action.pure_apply, List.append_nil]
    rfl
  | .error e :: rest => by
    simp only [rawKeys, Action.bind_apply, rawKeys_run s rest, Action.tell_apply]
    rfl

end Cache

/-- What an entry's removal tells: the call of the store, and whether a live mapping was removed. -/
def removal (now : Instant) (p : K × Holder V) : List (Event K V) :=
  [.note (.called (.remove p.1)),
    .recorded (.remove (if p.2.isExpired now then .noop else .success))]

variable [DecidableEq K]

namespace Memory

/-- A memory after the removal of some entries, one after the other. -/
def without (m : Memory K V) (ps : List (K × Holder V)) : Memory K V :=
  (ps.map fun p => Removal.key p.1).foldl forced m

theorem now_without (m : Memory K V) (p : K × Holder V) : (m.without [p]).now = m.now := by
  show (if (m.live? p.1).isSome then m.takeOut p.1 else m.drop p.1).now = m.now
  split <;> rfl

/-- What is left after the removal of held entries: those that were not among them. -/
theorem mem_without {m : Memory K V} {ps : List (K × Holder V)} (h : ps ⊆ m.table.pairs)
    (p : K × Holder V) : p ∈ (m.without ps).table.pairs ↔ p ∈ m.table.pairs ∧ p ∉ ps := by
  have hcovers : (∃ r ∈ ps.map fun q => Removal.key q.1, r.Covers p.1) ↔ p.1 ∈ ps.map Prod.fst := by
    simp [Removal.Covers]
  have hget : (m.without ps).table.get? p.1 =
      if p.1 ∈ ps.map Prod.fst then none else m.table.get? p.1 := by
    rw [without, get?_foldl_forced]
    simp only [hcovers]
  rw [KeyMap.mem_pairs_iff, KeyMap.mem_pairs_iff, hget]
  by_cases hp : p ∈ ps
  · rw [if_pos (List.mem_map_of_mem hp)]
    exact ⟨fun hleft => absurd hleft.symm (Option.some_ne_none p.2), fun hne => absurd hp hne.2⟩
  · -- a removed entry of the same key would be this very entry
    have hkey : m.table.get? p.1 = some p.2 → p.1 ∉ ps.map Prod.fst := by
      intro hget hmem
      obtain ⟨q, hq, hqp⟩ := List.mem_map.mp hmem
      have hheld : m.table.get? q.1 = some q.2 := KeyMap.mem_pairs_iff.mp (h hq)
      rw [hqp, hget] at hheld
      exact hp (Prod.ext hqp.symm (Option.some.inj hheld) ▸ hq)
    constructor
    · intro hleft
      split at hleft
      · cases hleft
      · exact ⟨hleft, hp⟩
    · rintro ⟨hget, -⟩
      rw [if_neg (hkey hget), hget]

/-- After the removal of all entries, in any order, nothing is left. -/
theorem table_without_of_perm {m : Memory K V} {ps : List (K × Holder V)}
    (h : ps.Perm m.table.pairs) : (m.without ps).table = {} := by
  have hnone : (m.without ps).table.pairs = [] := by
    refine List.eq_nil_iff_forall_not_mem.mpr fun p hp => ?_
    obtain ⟨hheld, hne⟩ := (mem_without h.subset p).mp hp
    exact hne (h.mem_iff.mpr hheld)
  rcases hm : (m.without ps).table with ⟨pairs, nodup⟩
  rw [hm] at hnone
  subst hnone
  rfl

end Memory

namespace Cache

variable [DecidableEq (Handle V)] [BEq V] {policy : Policy K V}
  {steps : Memory K V → List (RawStep K V)} {plan : Plan}
  {c : Cache (Counted (Memory K V)) K V} {s : State (Counted (Memory K V))}

/-! ## One removal -/

section

variable {τ α : Type} {call : StoreCall K V} {x : Action τ (Note K V) (Except StoreError α)}
  {s : State (Counted τ)}

omit [DecidableEq K] [DecidableEq (Handle V)] [BEq V]

/-- An audited call of the store that is not struck. -/
theorem askPlain_called (hplan : plan s.store.received = none) :
    askPlain (do Action.tell (.called call); plan.guard x) s =
      let r := x s.store.inner
      ⟨r.answer.mapError .store, { s with store := ⟨r.state, s.store.received + 1⟩ },
        .note (.called call) :: r.events.map .note⟩ := by
  simp [askPlain, onStore, Action.within, Plan.guard_pass _ hplan]

/-- An audited call of the store that is struck before it takes effect. -/
theorem askPlain_called_early {e : StoreError}
    (hplan : plan s.store.received = some { error := e }) :
    askPlain (do Action.tell (.called call); plan.guard x) s =
      ⟨.error (.store e), { s with store := ⟨s.store.inner, s.store.received + 1⟩ },
        [.note (.called call)]⟩ := by
  simp [askPlain, onStore, Action.within, Plan.guard_struck _ hplan, Except.mapError]

end

section

variable (hc : c.store = (((Store.memory policy).showing steps).failing plan).audited)
  (hs : s.lifecycle.status = .available)

include hc hs

/-- The removal of a held entry that is not struck. -/
theorem remove_pass {p : K × Holder V} (hp : s.store.inner.table.get? p.1 = some p.2)
    (hplan : plan s.store.received = none) :
    c.remove p.1 s =
      ⟨.ok (), { s with store := ⟨s.store.inner.without [p], s.store.received + 1⟩ },
        removal s.store.inner.now p⟩ := by
  have hask : c.ask (.remove p.1) s =
      ⟨.ok (s.store.inner.live? p.1).isSome,
        { s with store := ⟨s.store.inner.forced (.key p.1), s.store.received + 1⟩ },
        [.note (.called (.remove p.1))]⟩ := by
    rw [ask, hc]
    exact askPlain_called hplan
  have hlive : (s.store.inner.live? p.1).isSome = !p.2.isExpired s.store.inner.now := by
    rw [live?, hp, Option.filter]
    cases p.2.isExpired s.store.inner.now <;> rfl
  have hserve := serve_of_ok c (.remove p.1) hs (congrArg Run.answer hask)
  rw [hask, hlive] at hserve
  refine hserve.trans ?_
  cases hexpired : p.2.isExpired s.store.inner.now <;>
    simp [Call.conclude, removal, without, hexpired, BulkCounts.addAll]

/-- A removal that fails before it takes effect, under the propagating strategy. -/
theorem remove_struck (hstrategy : c.strategy = .propagating) (k : K) {e : StoreError}
    (hplan : plan s.store.received = some { error := e }) :
    c.remove k s =
      ⟨.error (.store e), { s with store := ⟨s.store.inner, s.store.received + 1⟩ },
        [.note (.called (.remove k)), .consulted (.remove k) e, .recorded (.remove .failure)]⟩ := by
  have hask : c.ask (.remove k) s =
      ⟨.error (.store e), { s with store := ⟨s.store.inner, s.store.received + 1⟩ },
        [.note (.called (.remove k))]⟩ := by
    rw [ask, hc]
    exact askPlain_called_early hplan
  have hserve := serve_of_store_error c (.remove k) hs (congrArg Run.answer hask)
  rw [hask, hstrategy] at hserve
  exact hserve

end

/-! ## One removal after the other -/

/-- Once some held entries were removed, the loop goes on with the other keys in the state without
those entries. -/
theorem removeEach_past
    (hc : c.store = (((Store.memory policy).showing steps).failing plan).audited) (rest : List K) :
    ∀ {ps : List (K × Holder V)} {s : State (Counted (Memory K V))},
    s.lifecycle.status = .available → (ps.map Prod.fst).Nodup → ps ⊆ s.store.inner.table.pairs →
    (∀ i < ps.length, plan (s.store.received + i) = none) →
    c.removeEach (ps.map Prod.fst ++ rest) s =
      let r := c.removeEach rest
        { s with store := ⟨s.store.inner.without ps, s.store.received + ps.length⟩ }
      ⟨r.answer, r.state, ps.flatMap (removal s.store.inner.now) ++ r.events⟩
  | [], s, _, _, _, _ => rfl
  | p :: ps, s, hs, hnodup, hheld, hplan => by
    obtain ⟨hp, hnodup⟩ := List.nodup_cons.mp hnodup
    obtain ⟨hpheld, hheld⟩ := List.cons_subset.mp hheld
    have hfirst := remove_pass hc hs (KeyMap.mem_pairs_iff.mp hpheld) (hplan 0 (by simp))
    -- the others have other keys, so they are held still
    have hrest : ps ⊆ (s.store.inner.without [p]).table.pairs := by
      intro q hq
      refine (mem_without (by simpa using hpheld) q).mpr ⟨hheld hq, fun hqp => hp ?_⟩
      rw [List.mem_singleton] at hqp
      exact hqp ▸ List.mem_map_of_mem hq
    have ih := removeEach_past hc rest
      (s := { s with store := ⟨s.store.inner.without [p], s.store.received + 1⟩ }) hs hnodup hrest
      fun i hi => by
        have hnext := hplan (i + 1) (by simpa using hi)
        rwa [Nat.add_assoc, Nat.add_comm 1 i]
    have hrun : c.removeEach ((p :: ps).map Prod.fst ++ rest) s = _ :=
      Op.bind_of_ok (congrArg Run.answer hfirst) fun _ => c.removeEach (ps.map Prod.fst ++ rest)
    have hcount : s.store.received + 1 + ps.length = s.store.received + (ps.length + 1) := by omega
    rw [hrun, hfirst]
    dsimp only
    rw [ih, now_without, hcount, List.flatMap_cons, List.append_assoc]
    rfl

/-! ## All of them -/

section

variable (hc : c.store = (((Store.memory policy).showing steps).failing plan).audited)
  (hs : s.lifecycle.status = .available) (hplan : plan s.store.received = none)

include hc hs hplan

omit [BEq V] in
/-- Removing every entry is iterating, and then removing the keys that the iteration lists. -/
theorem removeAllEntries_run :
    c.removeAllEntries s =
      let raw := steps s.store.inner
      let r := c.removeEach ((listed raw).map Prod.fst)
        { s with store := ⟨s.store.inner, s.store.received + 1⟩ }
      ⟨r.answer, r.state,
        .note (.called .iterate) :: (stepFailures raw).map skipped ++ r.events⟩ := by
  have hiterate : c.store.iterate s.store =
      ⟨steps s.store.inner, ⟨s.store.inner, s.store.received + 1⟩, [.called .iterate]⟩ := by
    simp only [hc, Store.audited, Store.failing, Action.bind_apply, Action.tell_apply,
      Plan.guard_pass _ hplan]
    rfl
  have hcall : c.callStore (·.iterate) s =
      ⟨.ok (steps s.store.inner), { s with store := ⟨s.store.inner, s.store.received + 1⟩ },
        [.note (.called .iterate)]⟩ := by
    simp only [callStore, ExceptT.lift, ExceptT.mk, Action.map_apply, onStore, Action.within,
      hiterate]
    rfl
  rw [removeAllEntries, Op.bind_apply, checkAvailable_of_available hs]
  simp only [Op.bind_apply, hcall, ExceptT.lift, ExceptT.mk, Action.map_apply, rawKeys_run]
  simp

/-- Clearing empties the table. -/
theorem table_clear : (c.serve .clear s).state.store.inner.table = {} := by
  have hask : c.ask .clear s =
      ⟨.ok (), { s with store := ⟨{ s.store.inner with table := {} }, s.store.received + 1⟩ },
        [.note (.called .clear)]⟩ := by
    rw [ask, hc]
    exact askPlain_called hplan
  rw [serve_of_ok c .clear hs (congrArg Run.answer hask), hask]

end

/-- **Removing every entry removes what the iteration lists**, whatever it lists of what the store
holds: in any order, with failed steps anywhere, or cut short. If no removal fails, the call
succeeds under any strategy. It warns once for each failed step, records of each listed entry
whether it was live, and leaves exactly the entries that were not listed; if all were, the table is
empty as after a `clear`. If under the propagating strategy a removal fails before it takes effect,
the call ends with that error: the entries that were listed before are gone, all others are there,
and no later key was touched. -/
theorem removeAllEntries_removes_listed
    (hc : c.store = (((Store.memory policy).showing steps).failing plan).audited)
    (hs : s.lifecycle.status = .available) (hplan : plan s.store.received = none)
    (hlisted : (listed (steps s.store.inner)).Subperm s.store.inner.table.pairs) :
    let m := s.store.inner
    let entries := listed (steps m)
    let begun : List (Event K V) := .note (.called .iterate) :: (stepFailures (steps m)).map skipped
    let r := c.removeAllEntries s
    ((∀ i < entries.length, plan (s.store.received + 1 + i) = none) →
      r.answer = .ok () ∧ r.events = begun ++ entries.flatMap (removal m.now) ∧
      (∀ p, p ∈ r.state.store.inner.table.pairs ↔ p ∈ m.table.pairs ∧ p ∉ entries) ∧
      (entries.Perm m.table.pairs → r.state.store.inner.table = {} ∧
        (c.serve .clear s).state.store.inner.table = {})) ∧
    ∀ (before : List (K × Holder V)) (p : K × Holder V) (after : List (K × Holder V))
      (e : StoreError), c.strategy = .propagating → entries = before ++ p :: after →
      (∀ i < before.length, plan (s.store.received + 1 + i) = none) →
      plan (s.store.received + 1 + before.length) = some { error := e } →
        r.answer = .error (.store e) ∧
        r.events = begun ++ before.flatMap (removal m.now) ++
          [.note (.called (.remove p.1)), .consulted (.remove p.1) e,
            .recorded (.remove .failure)] ∧
        ∀ q, q ∈ r.state.store.inner.table.pairs ↔ q ∈ m.table.pairs ∧ q ∉ before := by
  intro m entries begun r
  have hrun : r = _ := removeAllEntries_run hc hs hplan
  have hheld : entries ⊆ m.table.pairs := hlisted.subset
  have hnodup : (entries.map Prod.fst).Nodup := by
    obtain ⟨held, hperm, hsub⟩ := hlisted
    exact (hperm.map Prod.fst).nodup_iff.mp ((hsub.map Prod.fst).nodup m.table.nodup)
  refine ⟨fun hpass => ?all, fun before p after e hstrategy hsplit hpass hstruck => ?struck⟩
  case all =>
    have hloop := removeEach_past hc []
      (s := { s with store := ⟨s.store.inner, s.store.received + 1⟩ }) hs hnodup hheld hpass
    rw [List.append_nil] at hloop
    rw [hrun]
    dsimp only
    rw [hloop]
    exact ⟨rfl, congrArg _ (List.append_nil _), mem_without hheld,
      fun hall => ⟨table_without_of_perm hall, table_clear hc hs hplan⟩⟩
  case struck =>
    have hbefore : before ⊆ m.table.pairs := fun q hq =>
      hheld (hsplit ▸ List.mem_append_left _ hq)
    rw [hsplit, List.map_append] at hnodup
    have hloop := removeEach_past hc ((p :: after).map Prod.fst)
      (s := { s with store := ⟨s.store.inner, s.store.received + 1⟩ }) hs
      (List.nodup_append.mp hnodup).1 hbefore hpass
    have hlast := remove_struck
      (s := { s with store := ⟨m.without before, s.store.received + 1 + before.length⟩ }) hc hs
      hstrategy p.1 hstruck
    rw [List.map_cons, removeEach, Op.bind_apply, hlast] at hloop
    rw [hrun]
    dsimp only
    rw [show listed (steps s.store.inner) = _ from hsplit, List.map_append, List.map_cons, hloop]
    exact ⟨rfl, (List.append_assoc ..).symm, mem_without hbefore⟩

/-- The iteration shows three of four entries, with a failed step between them and one after them.
When no removal fails the fourth is left, and the expired one is recorded as a no-op. When the
second removal fails only the first entry is gone, and the third is not touched. -/
theorem removeAllEntries_removes_listed_cut :
    let gap : StoreError := .plain "gap"
    let down : StoreError := .plain "down"
    let held (k : Nat) : Nat × Holder Nat := (k, ⟨⟨k, 10 * k⟩, 0, if k = 2 then some 50 else none⟩)
    let raw : List (RawStep Nat Nat) :=
      [.ok (held 3), .error gap, .ok (held 2), .ok (held 1), .error gap]
    let c (plan : Plan) : Cache (Counted (Memory Nat Nat)) Nat Nat :=
      { store := (((Store.memory .eternal).showing fun _ => raw).failing plan).audited
        strategy := .propagating }
    let s : State (Counted (Memory Nat Nat)) :=
      { store := { inner := { table := .ofList [held 1, held 2, held 3, held 4], now := 50 } }
        lifecycle := { status := .available } }
    let calm := (c fun _ => none).removeAllEntries s
    let struck := (c fun n => if n = 2 then some { error := down } else none).removeAllEntries s
    (listed raw).Subperm s.store.inner.table.pairs ∧
      calm.answer = .ok () ∧ outcomes calm.events = [.remove .success, .remove .noop,
        .remove .success] ∧
      calm.state.store.inner.table.pairs = [held 4] ∧
      struck.answer = .error (.store down) ∧
      (∀ q, q ∈ struck.state.store.inner.table.pairs ↔
        q ∈ s.store.inner.table.pairs ∧ q ∉ [held 3]) := by
  intro gap down held raw c s calm struck
  have hlisted : (listed raw).Subperm s.store.inner.table.pairs :=
    List.subperm_of_subset (by decide +kernel) (by decide +kernel)
  obtain ⟨hcalm, -⟩ := removeAllEntries_removes_listed (c := c fun _ => none) (s := s) rfl rfl rfl
    hlisted
  obtain ⟨-, hstruck⟩ := removeAllEntries_removes_listed
    (c := c fun n => if n = 2 then some { error := down } else none) (s := s) rfl rfl rfl hlisted
  obtain ⟨hanswer, -, -⟩ := hcalm fun _ _ => rfl
  obtain ⟨hfailed, -, hleft⟩ := hstruck [held 3] (held 2) [held 1] down rfl rfl (by decide) rfl
  have hrecorded : outcomes calm.events = [.remove .success, .remove .noop, .remove .success] := by
    decide +kernel
  have hfourth : calm.state.store.inner.table.pairs = [held 4] := by decide +kernel
  refine ⟨hlisted, hanswer, hrecorded, hfourth, ?_⟩
  simp only [struck]
  exact ⟨hfailed, hleft⟩

end Cache

end ResilientCache
