import ResilientCache.Proofs.Histories

/-!
# Timestamps of held mappings

A holder is stamped when it is written: with the reading of the clock, and with the expiration that
the policy grants it. A write that keeps the expiration of the holder it replaces is made over a
holder that is live at that very reading, so the kept expiration is not in the past. This is what
makes `Policy.Stamps`, a property of holders that every write hands on, hold of everything held
after any history (`held_after`), and it is all that the three kinds of policy below need.

Clocks saturate when they compute an expiration and wrap around when they are moved, so `saturated`
and not the sum of the readings appears in the exact law.

Headlines:
* `rewritten?_stamps`: the two ways in which a written holder is stamped.
* `held_after`: what every write hands on holds of every held mapping.
* **`timestamps_exact`**: expirations are not below creations, exact under a time to live, and
  absent under the eternal policy.
-/

namespace ResilientCache

variable {K V : Type}

/-! ## Saturation -/

namespace Instant

/-- A number as a reading of the clock, the last one if it is past it. -/
def saturated (n : Nat) : Nat := min n (UInt64.size - 1)

theorem toNat_plus_saturated (now : Instant) (millis : Nat) :
    (now.plus millis).toNat = saturated (now.toNat + saturated millis) := by
  rw [toNat_plus]
  unfold saturated
  omega

/-- The reading at which something stops being live is the saturated sum. -/
theorem toNat_of_deadline {now t : Instant} {ttl : Duration} (h : now.deadline ttl = some t) :
    t.toNat = saturated (now.toNat + saturated ttl.millis) := by
  unfold deadline at h
  split at h
  · cases h
  · cases h
    exact toNat_plus_saturated ..

end Instant

namespace Holder

/-- A holder is live before its expiration, and always if it has none. -/
theorem isExpired_eq_false_iff {h : Holder V} {now : Instant} :
    h.isExpired now = false ↔ ∀ t, h.expires = some t → now < t := by
  cases he : h.expires <;> simp [isExpired, he]

end Holder

/-! ## Stamps -/

namespace Memory

/-- A written holder is stamped with the clock. Its expiration is the one it replaces, if the policy
lets that stand, and otherwise the deadline of the lifetime it was granted. -/
theorem rewritten?_stamps {policy : Policy K V} {now : Instant} {k : K} {held? : Option (Holder V)}
    {v : Handle V} {h : Holder V} (hw : rewritten? policy now k held? v = some h) :
    h.created = now ∧
      match policy.granted (.ofWrite k (held?.map (·.value.value)) v.value) with
      | none => h.expires = held?.bind Holder.expires
      | some ttl => ttl ≠ .zero ∧ h.expires = now.deadline ttl := by
  unfold rewritten? at hw
  cases hg : policy.granted (.ofWrite k (held?.map (·.value.value)) v.value) with
  | none =>
    rw [hg] at hw
    cases hw
    exact ⟨rfl, rfl⟩
  | some ttl =>
    rw [hg, holderFor] at hw
    split at hw
    · cases hw
    · cases hw
      exact ⟨rfl, ‹ttl ≠ .zero›, rfl⟩

/-- Everything a memory holds, live or not, has a property. -/
def AllHeld [DecidableEq K] (P : Holder V → Prop) (m : Memory K V) : Prop :=
  ∀ k h, m.table.get? k = some h → P h

end Memory

namespace Policy

/-- Every write under a policy hands a property of holders on: if what is replaced is live and has
it, or there is nothing to replace, then what is written has it. -/
def Stamps (p : Policy K V) (P : Holder V → Prop) : Prop :=
  ∀ now k held? v h, (∀ old, held? = some old → P old ∧ old.isExpired now = false) →
    Memory.rewritten? p now k held? v = some h → P h

/-- Whatever the policy, no expiration is below the creation. -/
theorem stamps_ordered (p : Policy K V) :
    p.Stamps fun h => ∀ t, h.expires = some t → h.created ≤ t := by
  intro now k held? v h hold hw t ht
  obtain ⟨hcreated, hexpires⟩ := Memory.rewritten?_stamps hw
  rw [hcreated]
  split at hexpires
  · -- the expiration that is kept belongs to a holder that is live now
    rw [hexpires] at ht
    obtain ⟨old, hheld, hold'⟩ := Option.bind_eq_some_iff.mp ht
    exact UInt64.le_of_lt (Holder.isExpired_eq_false_iff.mp (hold old hheld).2 t hold')
  · exact Instant.le_of_deadline (hexpires.2.symm.trans ht)

/-- Under a time to live every written holder expires at the deadline of its creation, and there is
none if the lifetime is empty. -/
theorem timeToLive_stamps (d : Duration) :
    (timeToLive d : Policy K V).Stamps fun h => d ≠ .zero ∧ h.expires = h.created.deadline d := by
  intro now k held? v h _ hw
  obtain ⟨hcreated, hexpires⟩ := Memory.rewritten?_stamps hw
  have hgranted : (timeToLive d : Policy K V).granted
      (.ofWrite k (held?.map (·.value.value)) v.value) = some d := by
    cases held? <;> rfl
  rw [hgranted] at hexpires
  rwa [hcreated]

/-- Under the eternal policy no written holder expires. -/
theorem eternal_stamps : (eternal : Policy K V).Stamps fun h => h.expires = none := by
  intro now k held? v h hold hw
  obtain ⟨-, hexpires⟩ := Memory.rewritten?_stamps hw
  cases held? with
  | none => exact hexpires.2.trans (Instant.deadline_eq_none_iff.mpr rfl)
  | some old => exact hexpires.trans (hold old rfl).1

end Policy

namespace Backend

open Memory

variable [DecidableEq K] [DecidableEq (Handle V)]

/-- A request hands on what every write under its policy does. -/
theorem serve_holds {policy : Policy K V} {P : Holder V → Prop} (hstamps : policy.Stamps P)
    (r : Request K V) : ((lazy policy).serve r).Preserves (AllHeld P) := by
  intro m hm k h hk
  rw [(serve_leaves policy r m).2] at hk
  rcases leaves_cases policy m r k with hsame | hnone | ⟨v, hwritten⟩
  · exact hm k h (hsame.symm.trans hk)
  · cases hnone.symm.trans hk
  · refine hstamps m.now k _ v h (fun old hold => ?_) (hwritten.symm.trans hk)
    have hlive := Option.filter_eq_some_iff.mp hold
    exact ⟨hm k old hlive.1, by simpa using hlive.2⟩

/-- What every write under every policy of a history hands on holds of everything that is held after
it. -/
theorem held_after {P : Holder V → Prop} (turns : List (Policy K V × Turn K V)) (start : Instant)
    (hstamps : ∀ turn ∈ turns, turn.1.Stamps P) : AllHeld P (after turns { now := start }) :=
  after_keeps (fun _ _ hm => hm) (fun _ => serve_holds) turns { now := start } hstamps
    fun _ _ hk => by cases hk

/-- After a history under one time to live, everything held expires at its deadline, and nothing is
held if the lifetime is empty. -/
theorem held_timeToLive {d : Duration} {turns : List (Policy K V × Turn K V)} (start : Instant)
    (hd : ∀ turn ∈ turns, turn.1 = .timeToLive d) :
    AllHeld (fun h => d ≠ .zero ∧ h.expires = h.created.deadline d) (after turns { now := start }) :=
  held_after turns start fun turn hturn => hd turn hturn ▸ Policy.timeToLive_stamps d

/-- A read finds a held mapping exactly while it has not expired. -/
theorem get_held_iff {m : Memory K V} {k : K} {h : Holder V} (hk : m.table.get? k = some h)
    (policy : Policy K V) (t : Instant) :
    ((Store.memory policy).get k { m with now := t }).answer = .ok (some h) ↔
      h.isExpired t = false := by
  rw [get_memory]
  simp [live?, hk, Option.filter_eq_some_iff]

/-- **Timestamps of held mappings**, after any history of a store that began empty. No expiration is
below its creation. Under a time to live, the expiration is the creation plus the whole milliseconds
of the lifetime, both saturated, and absent for the longest lifetime; the mapping reads as live
exactly before it; and an empty lifetime leaves nothing held. Under the eternal policy there is no
expiration. -/
theorem timestamps_exact (turns : List (Policy K V × Turn K V)) (start : Instant) :
    let m := after turns { now := start }
    (∀ k h t, m.table.get? k = some h → h.expires = some t → h.created ≤ t) ∧
    (∀ d, (∀ turn ∈ turns, turn.1 = .timeToLive d) →
      (d = .zero → m.rawSize = 0) ∧
      ∀ k h, m.table.get? k = some h →
        (h.expires = none ↔ d = .max) ∧
        (∀ t, h.expires = some t →
          t.toNat = Instant.saturated (h.created.toNat + Instant.saturated d.millis)) ∧
        ∀ policy t, ((Store.memory policy).get k { m with now := t }).answer = .ok (some h) ↔
          d = .max ∨ t.toNat < Instant.saturated (h.created.toNat + Instant.saturated d.millis)) ∧
    ((∀ turn ∈ turns, turn.1 = .eternal) →
      ∀ k h, m.table.get? k = some h → h.expires = none) := by
  intro m
  refine ⟨?ordered, ?exact, ?eternal⟩
  case ordered =>
    have hheld := held_after turns start fun turn _ => turn.1.stamps_ordered
    exact fun k h t hk => hheld k h hk t
  case exact =>
    intro d hd
    have hheld := held_timeToLive start hd
    refine ⟨?_, fun k h hk => ?_⟩
    · rintro rfl
      refine List.length_eq_zero_iff.mpr (List.eq_nil_iff_forall_not_mem.mpr ?_)
      rintro ⟨k, h⟩ hmem
      exact (hheld k h (KeyMap.mem_pairs_iff.mp hmem)).1 rfl
    · have hexpires := (hheld k h hk).2
      have hnone : h.expires = none ↔ d = .max := by
        rw [hexpires, Instant.deadline_eq_none_iff]
      have hsome (t : Instant) (ht : h.expires = some t) :=
        Instant.toNat_of_deadline (hexpires.symm.trans ht)
      refine ⟨hnone, hsome, fun policy t => ?_⟩
      rw [get_held_iff hk, Holder.isExpired_eq_false_iff, ← hnone]
      cases hexp : h.expires with
      | none => simp
      | some t' => simp [UInt64.lt_iff_toNat_lt, ← hsome t' hexp]
  case eternal =>
    intro hd
    exact held_after turns start fun turn hturn => hd turn hturn ▸ Policy.eternal_stamps

/-- A time to live of five milliseconds, two milliseconds before the clock wraps around: the
expiration stops at the last reading. A failed batch function in between changes no stamp. -/
theorem timestamps_exact_saturated :
    let policy : Policy Nat Nat := .timeToLive (.ofMillis 5)
    let turns : List (Policy Nat Nat × Turn Nat Nat) :=
      [(policy, .request (.put 1 ⟨0, 10⟩)), (policy, .clock (.advance (.ofMillis 1))),
        (policy, .request (.bulkCompute [1] fun _ => .error (.text "down")))]
    let m := after turns { now := 18446744073709551613 }
    m.table.get? 1 = some ⟨⟨0, 10⟩, 18446744073709551613, some 18446744073709551615⟩ ∧
      ((Store.memory policy).get 1 { m with now := 18446744073709551614 }).answer =
        .ok (some ⟨⟨0, 10⟩, 18446744073709551613, some 18446744073709551615⟩) := by
  intro policy turns m
  have hturns : ∀ turn ∈ turns, turn.1 = .timeToLive (.ofMillis 5) := by simp [turns, policy]
  have hk : m.table.get? 1 =
    some ⟨⟨0, 10⟩, 18446744073709551613, some 18446744073709551615⟩ := by decide +kernel
  have h := ((timestamps_exact turns 18446744073709551613).2.1 _ hturns).2 1 _ hk
  exact ⟨hk, (h.2.2 policy 18446744073709551614).mpr (.inr (by decide +kernel))⟩

end Backend

end ResilientCache
