import ResilientCache.Proofs.Rewriting

/-!
# Reading back what was reported as held

A put that is recorded as such, a bulk load and the bulk primitives of the store all report that a
key holds a value. A read of the key at the same reading of the clock finds the value only if its
mapping has not expired at that very reading. A mapping that was live before and was left alone has
not; nor has one that keeps the expiration of the live mapping it replaces. For any other it depends
on the lifetime that was granted: the clock counts whole milliseconds and stops at its last reading,
so a lifetime under a millisecond, and any lifetime that begins at the last reading, is over as it
begins (`Duration.Lasts`). Such a lifetime is not the empty one, so nothing denies the value.

Headlines:
* `Memory.Shown.live_iff`: whether a holder that is shown is live.
* **`reports_read_back`**: when a reported value is read back, for every kind of report.
-/

namespace ResilientCache

open Memory

variable {K V : Type}

/-! ## Lifetimes -/

/-- A lifetime that begins at a reading of the clock is not over at that reading: it never ends, or
it is a millisecond at least and the clock can still advance. -/
def Duration.Lasts (now : Instant) (ttl : Duration) : Prop :=
  ttl = .max ∨ 1 ≤ ttl.millis ∧ now.toNat + 1 < UInt64.size

/-- What lasts is what has not reached its deadline when it begins. -/
theorem Duration.lasts_iff {now : Instant} {ttl : Duration} :
    ttl.Lasts now ↔ ∀ t, now.deadline ttl = some t → now < t := by
  unfold Duration.Lasts Instant.deadline
  by_cases hmax : ttl = .max
  · simp [hmax]
  · have hnow := now.toNat_lt_size
    simp only [hmax, false_or, if_false, Option.some.injEq, forall_eq', UInt64.lt_iff_toNat_lt,
      Instant.toNat_plus]
    omega

namespace Memory

/-! ## Holders that are shown -/

variable [DecidableEq K]

/-- A value written to a key now is read back now: the key is live with that very handle already,
or the policy keeps the expiration, or it grants a lifetime that lasts. -/
def Survives (policy : Policy K V) (m : Memory K V) (k : K) (v : Handle V) : Prop :=
  (m.live? k).map Holder.value = some v ∨
    ∀ ttl, policy.granted (.ofWrite k ((m.live? k).map (·.value.value)) v.value) = some ttl →
      ttl.Lasts m.now

/-- What a bulk primitive shows of a key that is mapped: the live holder it had, or what a write of
another handle over it installed. -/
def Shown (policy : Policy K V) (m : Memory K V) (k : K) (h : Holder V) : Prop :=
  m.live? k = some h ∨
    (m.live? k).map Holder.value ≠ some h.value ∧
      rewritten? policy m.now k (m.live? k) h.value = some h

variable {policy : Policy K V} {m : Memory K V} {k : K} {h : Holder V}

omit [DecidableEq K] in
/-- What is written holds the value that was written. -/
theorem value_rewritten? {now : Instant} {held? : Option (Holder V)} {v : Handle V}
    (hw : rewritten? policy now k held? v = some h) : h.value = v := by
  by_cases hdenied : policy.Denies (.ofWrite k (held?.map (·.value.value)) v.value)
  · rw [rewritten?_of_denied hdenied] at hw
    cases hw
  · obtain ⟨held, hheld, hvalue, -⟩ : ∃ held, rewritten? policy now k held? v = some held ∧
        held.value = v ∧ held.created = now := rewritten?_of_not_denied hdenied
    cases hheld.symm.trans hw
    exact hvalue

/-- A holder that is shown is live exactly if its value survives. -/
theorem Shown.live_iff (hshown : m.Shown policy k h) :
    h.isExpired m.now = false ↔ m.Survives policy k h.value := by
  unfold Survives
  rcases hshown with hlive | ⟨hother, hwritten⟩
  · have hexpired := (Option.filter_eq_some_iff.mp hlive).2
    simp [hlive, by simpa using hexpired]
  · obtain ⟨-, hexpires⟩ := rewritten?_stamps hwritten
    rw [Holder.isExpired_eq_false_iff]
    simp only [hother, false_or]
    cases hg : policy.granted (.ofWrite k ((m.live? k).map (·.value.value)) h.value.value) with
    | none =>
      -- the expiration that is kept belongs to a holder that is live now
      rw [hg] at hexpires
      refine iff_of_true (fun t ht => ?_) fun ttl httl => by cases httl
      obtain ⟨old, hlive, hold⟩ := Option.bind_eq_some_iff.mp (hexpires.symm.trans ht)
      have hexpired := (Option.filter_eq_some_iff.mp hlive).2
      exact Holder.isExpired_eq_false_iff.mp (by simpa using hexpired) t hold
    | some ttl =>
      rw [hg] at hexpires
      simp only [Option.some.injEq, forall_eq', Duration.lasts_iff, hexpires.2]

/-! ## What the bulk primitives show -/

theorem shown_of_settled? [DecidableEq (Handle V)] {decision : Option (Option (Handle V))}
    (hk : settled? policy m.now k (m.live? k) decision = some h) : m.Shown policy k h := by
  rcases decision with _ | _ | v
  · exact .inl hk
  · cases hk
  · rw [settled?] at hk
    split at hk
    · exact .inl hk
    · obtain rfl := value_rewritten? hk
      exact .inr ⟨‹_›, hk⟩

theorem shown_of_recomputed? [DecidableEq (Handle V)] {ks : List K} (hmem : k ∈ ks)
    {answer : Except Fault (Mappings K V)} (hk : m.recomputed? policy ks k answer = some h) :
    m.Shown policy k h := by
  cases answer with
  | error fault =>
    rw [recomputed?, if_pos hmem] at hk
    exact .inl hk
  | ok pairs =>
    rw [recomputed?, if_pos hmem] at hk
    exact shown_of_settled? hk

theorem shown_of_reloaded? {ks : List K} (hmem : k ∈ ks) {answer : Except Fault (Mappings K V)}
    (hk : m.reloaded? policy ks k answer = some h) : m.Shown policy k h := by
  by_cases habsent : k ∈ m.absent ks
  · have hnone := (mem_absent.mp habsent).2
    cases answer with
    | error fault =>
      rw [reloaded?, if_pos habsent] at hk
      cases hk
    | ok pairs =>
      rw [reloaded?, if_pos habsent] at hk
      rcases hload : (KeyMap.ofList pairs).get? k with _ | _ | v
      · rw [hload] at hk
        cases hk
      · rw [hload] at hk
        cases hk
      · rw [hload, loaded?] at hk
        obtain rfl := value_rewritten? hk
        refine .inr ⟨?_, ?_⟩ <;> rw [hnone]
        · exact (Option.some_ne_none h.value).symm
        · exact hk
  · -- a requested key that is not absent is live
    obtain ⟨held, hlive⟩ : ∃ held, m.live? k = some held := by
      rw [← Option.ne_none_iff_exists']
      exact fun hnone => habsent (mem_absent.mpr ⟨hmem, hnone⟩)
    have hheld := get?_of_live? hlive
    cases answer <;> rw [reloaded?, if_neg habsent, hheld] at hk <;> exact .inl (hk ▸ hlive)

/-- A bulk primitive listed a holder of a key: the key holds it, and it is one that is shown. -/
structure Lists (policy : Policy K V) (m m' : Memory K V) (k : K) (h : Holder V) : Prop where
  now : m'.now = m.now
  held : m'.table.get? k = some h
  shown : m.Shown policy k h

theorem mem_computed {ks : List K} (hmem : (k, some h) ∈ m.computed ks) :
    k ∈ ks ∧ m.table.get? k = some h := by
  obtain ⟨k', hk', hpair⟩ := List.mem_map.mp hmem
  obtain ⟨rfl, hheld⟩ := Prod.mk.inj hpair
  exact ⟨hk', hheld⟩

/-- A value that a bulk load answers for a key is that of a holder that was listed. -/
theorem mem_of_found {computed : Computed K V} {v : Handle V}
    (hfound : (KeyMap.ofList (computed.map fun p => (p.1, p.2.map Holder.value))).get? k =
      some (some v)) :
    ∃ h, (k, some h) ∈ computed ∧ h.value = v := by
  obtain ⟨⟨k', h?⟩, hmem, hpair⟩ := List.mem_map.mp (KeyMap.mem_of_get?_ofList hfound)
  obtain ⟨rfl, hvalue⟩ := Prod.mk.inj hpair
  obtain ⟨h, rfl, rfl⟩ := Option.map_eq_some_iff.mp hvalue
  exact ⟨h, hmem, rfl⟩

section

variable [DecidableEq (Handle V)] {τ ε' : Type} {event : Note K V → ε'} {ks : List K} {t : τ}
  {computed : Computed K V}

theorem bulkCompute_shows {reply : Mappings K V → Action τ ε' (Except Fault (Mappings K V))}
    (hok : (((Store.memory policy).bulkCompute ks m).run event reply t).answer.1 = .ok computed)
    (hmem : (k, some h) ∈ computed) :
    m.Lists policy (((Store.memory policy).bulkCompute ks m).run event reply t).answer.2 k h := by
  obtain ⟨hnow, hget⟩ := bulkCompute_leaves policy event ks m t reply
  rw [bulkCompute_lists policy event ks m t hok] at hmem
  obtain ⟨hk, hheld⟩ := mem_computed hmem
  exact ⟨hnow, hheld, shown_of_recomputed? hk ((hget k).symm.trans hheld)⟩

theorem bulkComputeIfAbsent_shows {reply : List K → Action τ ε' (Except Fault (Mappings K V))}
    (hok : (((Store.memory policy).bulkComputeIfAbsent ks m).run event reply t).answer.1 =
      .ok computed)
    (hmem : (k, some h) ∈ computed) :
    m.Lists policy (((Store.memory policy).bulkComputeIfAbsent ks m).run event reply t).answer.2
      k h := by
  obtain ⟨hnow, hget⟩ := bulkComputeIfAbsent_leaves policy event ks m t reply
  rw [bulkComputeIfAbsent_lists policy event ks m t hok] at hmem
  obtain ⟨hk, hheld⟩ := mem_computed hmem
  exact ⟨hnow, hheld, shown_of_reloaded? hk ((hget k).symm.trans hheld)⟩

end

end Memory

/-! ## Reading back -/

namespace Cache

variable [DecidableEq K] [DecidableEq (Handle V)] [BEq V] {policy : Policy K V}
  {c : Cache (Memory K V) K V} {s s' : State (Memory K V)} {k : K}

/-- A read of a key is answered with a value if something holds, and with nothing if not. -/
def ReadsBack (c : Cache (Memory K V) K V) (s : State (Memory K V)) (k : K) (v : Handle V)
    (p : Prop) : Prop :=
  (p → (c.serve (.get k) s).answer = .ok (some v)) ∧
    (¬ p → (c.serve (.get k) s).answer = .ok none)

/-- What was listed is read back exactly if it survives. -/
theorem readsBack_of_lists (hc : c.store = .memory policy) (hs : s'.lifecycle.status = .available)
    {h : Holder V} (hlists : s.store.Lists policy s'.store k h) :
    c.ReadsBack s' k h.value (s.store.Survives policy k h.value) := by
  have hlive : s'.store.live? k = if h.isExpired s.store.now then none else some h := by
    rw [live?, hlists.held, hlists.now]
    cases hexpired : h.isExpired s.store.now <;> simp [Option.filter, hexpired]
  unfold ReadsBack
  rw [← hlists.shown.live_iff, serve_get hc hs, hlive]
  cases h.isExpired s.store.now <;> simp

variable (hc : c.store = .memory policy) (hs : s.lifecycle.status = .available)

include hc hs

/-- A put that is recorded as such leaves its key with the value that was put, under one of the
holders that are shown. -/
theorem put_lists {v : Handle V}
    (hput : outcomes (c.serve (.put k v) s).events = [.put .put]) :
    ∃ h, h.value = v ∧ s.store.Lists policy (c.serve (.put k v) s).state.store k h := by
  have hw : (Call.put k v).Recomputes := trivial
  obtain ⟨-, hrecorded⟩ := serve_put hc hs k v
  have hsettled := serve_settles hc hw hs
  have hk := hsettled.entry k
  simp only [decided, if_true] at hk
  cases hget : (c.serve (.put k v) s).state.store.table.get? k with
  | none =>
    rw [hget, hput] at hrecorded
    cases hrecorded
  | some h =>
    rw [hget] at hk
    refine ⟨h, ?_, hsettled.now, hget, shown_of_settled? hk.symm⟩
    unfold accepted? at hk
    split at hk
    · cases hk
    · rw [settled?] at hk
      split at hk
      · rename_i hsame
        rw [← hk] at hsame
        exact Option.some.inj hsame
      · exact value_rewritten? hk.symm

omit [BEq V] in
/-- A value in the answer of a bulk load is that of a holder that is shown. -/
theorem loadAll_lists {ks : List K} {replaceExisting : Bool} {loader : Loader K V}
    {found : KeyMap K (Option (Handle V))} {v : Handle V}
    (hok : ((c.loadAll ks replaceExisting loader).run s).answer = .ok found)
    (hfound : found.get? k = some (some v)) :
    ∃ h, h.value = v ∧
      s.store.Lists policy ((c.loadAll ks replaceExisting loader).run s).state.store k h := by
  cases hempty : ks.isEmpty with
  | true =>
    rw [loadAll, ExceptT.run, Op.bind_apply, checkAvailable_of_available hs, if_pos hempty] at hok
    cases hok
    cases hfound
  | false =>
    rw [loadAll_apply c hs hempty, hc] at hok ⊢
    cases replaceExisting with
    | true =>
      simp only [if_true] at hok ⊢
      split at hok
      · cases hok
        obtain ⟨h, hmem, hvalue⟩ := mem_of_found hfound
        exact ⟨h, hvalue, bulkCompute_shows ‹_› hmem⟩
      · cases hok
    | false =>
      simp only [Bool.false_eq_true, if_false] at hok ⊢
      split at hok
      · cases hok
        obtain ⟨h, hmem, hvalue⟩ := mem_of_found hfound
        exact ⟨h, hvalue, bulkComputeIfAbsent_shows ‹_› hmem⟩
      · cases hok

/-- **What is reported is read back as far as its lifetime lasts.** A put that is recorded as such,
a bulk load whose answer has a value, and a bulk primitive of the store that lists a holder are
each followed by a read of the key at the same reading of the clock. It finds the value if the key
was live with that handle before, or the policy of the store lets the expiration stand, or the
lifetime it grants never ends, or this lifetime has a whole millisecond and the clock is not at its
end. It finds nothing otherwise. -/
theorem reports_read_back :
    (∀ (k : K) (v : Handle V), outcomes (c.serve (.put k v) s).events = [.put .put] →
      c.ReadsBack (c.serve (.put k v) s).state k v (s.store.Survives policy k v)) ∧
    (∀ (ks : List K) (replaceExisting : Bool) (loader : Loader K V)
        (found : KeyMap K (Option (Handle V))) (k : K) (v : Handle V),
      let r := (c.loadAll ks replaceExisting loader).run s
      r.answer = .ok found → found.get? k = some (some v) →
        c.ReadsBack r.state k v (s.store.Survives policy k v)) ∧
    (∀ (ks : List K) (f : Mappings K V → Except Fault (Mappings K V)) (computed : Computed K V)
        (k : K) (h : Holder V),
      let r := (Backend.lazy policy).serve (.bulkCompute ks f) s.store
      r.answer = .ok computed → (k, some h) ∈ computed →
        c.ReadsBack { s with store := r.state } k h.value (s.store.Survives policy k h.value)) ∧
    ∀ (ks : List K) (f : List K → Except Fault (Mappings K V)) (computed : Computed K V)
        (k : K) (h : Holder V),
      let r := (Backend.lazy policy).serve (.bulkComputeIfAbsent ks f) s.store
      r.answer = .ok computed → (k, some h) ∈ computed →
        c.ReadsBack { s with store := r.state } k h.value (s.store.Survives policy k h.value) := by
  refine ⟨?put, ?load, ?recomputed, ?loaded⟩
  case put =>
    intro k v hput
    obtain ⟨h, rfl, hlists⟩ := put_lists hc hs hput
    have hlives : State.LivesBy s.lifecycle (c.serve (.put k h.value) s).state :=
      c.serve_livesBy (.put k h.value) s rfl
    exact readsBack_of_lists hc ((congrArg Lifecycle.status hlives).trans hs) hlists
  case load =>
    intro ks replaceExisting loader found k v r hok hfound
    obtain ⟨h, rfl, hlists⟩ := loadAll_lists hc hs hok hfound
    have hlives : State.LivesBy s.lifecycle r.state :=
      c.loadAll_livesBy ks replaceExisting loader s rfl
    exact readsBack_of_lists hc ((congrArg Lifecycle.status hlives).trans hs) hlists
  case recomputed =>
    intro ks f computed k h r hok hmem
    refine readsBack_of_lists hc ?_ (bulkCompute_shows hok hmem)
    exact hs
  case loaded =>
    intro ks f computed k h r hok hmem
    refine readsBack_of_lists hc ?_ (bulkComputeIfAbsent_shows hok hmem)
    exact hs

omit hc hs in
/-- A put under a time to live of a millisecond is read back. -/
theorem reports_read_back_millisecond :
    let policy : Policy Nat Nat := .timeToLive (.ofMillis 1)
    let c : Cache (Memory Nat Nat) Nat Nat :=
      { store := .memory policy, strategy := .propagating }
    let s : State (Memory Nat Nat) := { store := {}, lifecycle := { status := .available } }
    let r := c.serve (.put 1 ⟨0, 10⟩) s
    s.lifecycle.status = .available ∧ outcomes r.events = [.put .put] ∧
      s.store.Survives policy 1 ⟨0, 10⟩ ∧
      (c.serve (.get 1) r.state).answer = .ok (some ⟨0, 10⟩) := by
  intro policy c s r
  have hput : outcomes r.events = [.put .put] := by decide +kernel
  have hsurvives : s.store.Survives policy 1 ⟨0, 10⟩ := by
    refine .inr fun ttl httl => .inr ?_
    cases httl
    decide +kernel
  have hread := (reports_read_back (c := c) (s := s) rfl rfl).1 1 ⟨0, 10⟩ hput
  exact ⟨rfl, hput, hsurvives, hread.1 hsurvives⟩

omit hc hs in
/-- A put under a time to live of a nanosecond is recorded, and is gone at the same reading of the
clock; so is a put under any time to live at the last reading. -/
theorem put_gone_at_once :
    let gone (ttl : Duration) (now : Instant) :=
      let c : Cache (Memory Nat Nat) Nat Nat :=
        { store := .memory (.timeToLive ttl), strategy := .propagating }
      let r := c.serve (.put 1 ⟨0, 10⟩)
        { store := { now }, lifecycle := { status := .available } }
      outcomes r.events = [.put .put] ∧ r.state.store.now = now ∧
        (c.serve (.get 1) r.state).answer.toOption = some none
    gone (.ofParts 0 1) 0 ∧ gone (.ofMillis 100) 18446744073709551615 := by
  decide +kernel

end Cache

end ResilientCache
