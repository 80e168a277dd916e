import ResilientCache.Proofs.Histories

/-!
# What a store in memory has counted

A mapping enters the table of a store in memory when a put is counted, and leaves it at most once:
by an expiration or a removal that is counted, by an overwrite, or by a drop or a `clear` that is
counted nowhere. So what a store holds, what it has removed and what has expired are together no
more than what was put. `Accounted` says so between two moments of a history, and that every `get`
counted one hit or one miss.

The primitive changes of a memory keep the account one by one; everything else is put together from
them, whatever the policy and the batch function answer.

Headlines:
* `Accounted.purge`, `Accounted.install`, `Accounted.takeOut`: the changes that count.
* `serve_accounted`, `after_accounted`: a request, and a history, keep the account.
* **`metrics_account`**: the account of a store that began empty.
-/

namespace ResilientCache

variable {τ ε' K V : Type}

namespace KeyMap

variable {β : Type} [DecidableEq K]

theorem size_erase_le (m : KeyMap K β) (k : K) : (m.erase k).size ≤ m.size :=
  List.length_filter_le _ _

theorem size_erase_lt {m : KeyMap K β} {k : K} (h : m.contains k = true) :
    (m.erase k).size < m.size := by
  obtain ⟨b, hb⟩ := Option.isSome_iff_exists.mp h
  exact List.length_filter_lt_length_iff_exists.mpr
    ⟨(k, b), mem_pairs_iff.mpr hb, by simp⟩

end KeyMap

namespace Memory

/-- The mappings a memory has to show for its puts: those it holds, has removed, or has seen
expire. -/
def shown (m : Memory K V) : Nat := m.rawSize + m.metrics.removes + m.metrics.expirations

/-- How many lookups a memory has counted. -/
def lookups (m : Memory K V) : Nat := m.metrics.hits + m.metrics.misses

/-- What happened to a memory between two moments: it has no more to show than it had, and one
mapping more for each put, and it has counted a lookup for each of some gets. -/
structure Accounted (start : Memory K V) (gets : Nat) (m : Memory K V) : Prop where
  mappings : m.shown + start.metrics.puts ≤ m.metrics.puts + start.shown
  lookups : m.lookups = start.lookups + gets

namespace Accounted

variable {start m : Memory K V} {gets : Nat}

theorem refl (m : Memory K V) : Accounted m 0 m := ⟨Nat.le_of_eq (Nat.add_comm ..), rfl⟩

/-- A change that looks nothing up keeps the account if it shows no more than it puts. -/
theorem step (h : Accounted start gets m) {m' : Memory K V}
    (hmappings : m'.shown + m.metrics.puts ≤ m'.metrics.puts + m.shown)
    (hlookups : m'.lookups = m.lookups) : Accounted start gets m' := by
  obtain ⟨hm, hl⟩ := h
  exact ⟨by omega, hlookups.trans hl⟩

theorem countHit (h : Accounted start gets m) : Accounted start (gets + 1) m.countHit :=
  ⟨h.mappings, (Nat.add_right_comm ..).trans (congrArg (· + 1) h.lookups)⟩

theorem countMiss (h : Accounted start gets m) : Accounted start (gets + 1) m.countMiss :=
  ⟨h.mappings, congrArg (· + 1) h.lookups⟩

theorem clear (h : Accounted start gets m) : Accounted start gets { m with table := {} } := by
  refine h.step ?_ rfl
  simp only [shown, rawSize, KeyMap.size, List.length_nil]
  omega

theorem clock (h : Accounted start gets m) (t : Instant) :
    Accounted start gets { m with now := t } := ⟨h.mappings, h.lookups⟩

variable [DecidableEq K]

theorem install (h : Accounted start gets m) (k : K) (held : Holder V) :
    Accounted start gets (m.install k held) := by
  refine h.step ?_ rfl
  have := Cache.size_insert_le m.table k held
  simp only [shown, rawSize, Memory.install]
  omega

theorem drop (h : Accounted start gets m) (k : K) : Accounted start gets (m.drop k) := by
  refine h.step ?_ rfl
  have := m.table.size_erase_le k
  simp only [shown, rawSize, Memory.drop]
  omega

/-- What is counted as removed is taken from what was held. -/
theorem takeOut (h : Accounted start gets m) {k : K} (hk : m.table.contains k = true) :
    Accounted start gets (m.takeOut k) := by
  refine h.step ?_ rfl
  have := KeyMap.size_erase_lt hk
  simp only [shown, rawSize, Memory.takeOut]
  omega

/-- What is counted as expired is taken from what was held. -/
theorem purge (h : Accounted start gets m) (k : K) : Accounted start gets (m.purge k) := by
  unfold Memory.purge
  cases hk : m.table.get? k with
  | none => exact h
  | some held =>
    dsimp only
    split
    · refine h.step ?_ rfl
      have hheld : m.table.contains k = true := by rw [KeyMap.contains, hk, Option.isSome_some]
      have := KeyMap.size_erase_lt hheld
      simp only [shown, rawSize]
      omega
    · exact h

theorem purgeAll (h : Accounted start gets m) (ks : List K) :
    Accounted start gets (m.purgeAll ks) := by
  induction ks generalizing m with
  | nil => exact h
  | cons k ks ih => exact ih (h.purge k)

end Accounted

/-! ## Writes and batches -/

variable [DecidableEq K] {start : Memory K V} {gets : Nat} (policy : Policy K V)

theorem write_accounted (k : K) (v : Handle V) :
    (write policy k v).Preserves (Accounted start gets) := by
  intro m h
  rw [write_state]
  split
  · exact h.install k _
  · exact h.drop k

theorem load_accounted (loaded : KeyMap K (Option (Handle V))) (k : K) :
    (load policy loaded k).Preserves (Accounted start gets) := by
  unfold load
  split
  · exact (write_accounted policy k _).discard
  · exact .pure _

theorem settle_accounted [DecidableEq (Handle V)] (decided : KeyMap K (Option (Handle V))) (k : K) :
    (settle policy decided k).Preserves (Accounted start gets) := by
  unfold settle
  split
  · exact .pure _
  · refine .change fun m h => ?_
    split
    · exact h.takeOut ‹_›
    · exact h
  · refine .bind (.read _) fun held? => ?_
    split
    · exact .pure _
    · exact (write_accounted policy k _).discard

/-- Settling what a bulk primitive was answered keeps the account, a failure included. -/
theorem settling_accounted {Q : Type} {event : Note K V → ε'}
    {reply : Q → Action τ ε' (Except Fault (Mappings K V))}
    {each : KeyMap K (Option (Handle V)) → K → Action (Memory K V) (Note K V) Unit}
    (heach : ∀ decided k, (each decided k).Preserves (Accounted start gets))
    (settled requested : List K) {m : Memory K V} (h : Accounted start gets m)
    (answer : Except Fault (Mappings K V)) (t : τ) :
    Accounted start gets
      ((settling each settled requested m answer).run event reply t).answer.2 := by
  cases answer with
  | error fault => exact h
  | ok pairs =>
    rw [run_settling_ok]
    have hall : (settleAll (each (.ofList pairs)) settled requested).Preserves
        (Accounted start gets) :=
      .bind (.forM (heach (.ofList pairs)) settled) fun _ => .bind (.read _) fun _ => .pure _
    exact hall m h

end Memory

/-! ## Requests and histories -/

namespace Backend

open Memory

/-- Whether a turn is a get. -/
def Turn.isGet : Turn K V → Bool
  | .request (.get _) => true
  | _ => false

variable [DecidableEq K] [DecidableEq (Handle V)] {start m : Memory K V} {gets : Nat}

/-- A request keeps the account of the mappings, and one that is a get adds a lookup. -/
theorem serve_accounted (policy : Policy K V) (r : Request K V) (h : Accounted start gets m) :
    Accounted start (gets + (Turn.request r).isGet.toNat) ((lazy policy).serve r m).state := by
  cases r with
  | get k =>
    show Accounted start (gets + 1) ((Store.memory policy).get k m).state
    rw [get_memory]
    dsimp only
    split
    · exact (h.purge k).countHit
    · exact (h.purge k).countMiss
  | put k v => exact write_accounted policy k v _ (h.purge k)
  | remove k =>
    show Accounted start gets (if (m.live? k).isSome then m.takeOut k else m.drop k)
    split
    · obtain ⟨held, hlive⟩ := Option.isSome_iff_exists.mp ‹(m.live? k).isSome = true›
      exact h.takeOut (Option.isSome_iff_exists.mpr ⟨held, get?_of_live? hlive⟩)
    · exact h.drop k
  | clear => exact h.clear
  | bulkCompute ks f =>
    show Accounted start gets
      (((Store.memory policy).bulkCompute ks m).run Sight.note _ ()).answer.2
    rw [bulkCompute_eq, Dialogue.run_ask]
    exact settling_accounted (settle_accounted policy) _ _ (h.purgeAll ks) _ _
  | bulkComputeIfAbsent ks f =>
    show Accounted start gets
      (((Store.memory policy).bulkComputeIfAbsent ks m).run Sight.note _ ()).answer.2
    rw [bulkComputeIfAbsent_eq]
    split
    · exact h.purgeAll ks
    · rw [Dialogue.run_ask]
      exact settling_accounted (load_accounted policy) _ _ (h.purgeAll ks) _ _
  | containsKey k => exact h
  | len => exact h
  | isEmpty => exact h

/-- Every stretch of a history keeps the account. -/
theorem after_accounted : ∀ (turns : List (Policy K V × Turn K V)) (m : Memory K V) (gets : Nat),
    Accounted start gets m →
      Accounted start (gets + turns.countP (·.2.isGet)) (after turns m)
  | [], _, _, h => h
  | (policy, t) :: rest, m, gets, h => by
    have hstep : Accounted start (gets + t.isGet.toNat) ((lazy policy).turn t m).state := by
      cases t with
      | clock move => exact h.clock _
      | iterate => exact h
      | request r => exact serve_accounted policy r h
    have hrest := after_accounted rest _ _ hstep
    rw [after, List.countP_cons]
    cases hget : t.isGet <;>
      simpa [hget, Nat.add_assoc, Nat.add_comm, Nat.add_left_comm] using hrest

/-- **The counts of a store account for its mappings**: after any history of a store that began
empty, what it holds, what it has removed and what has expired are together no more than what was
put, and hits and misses are together as many as the gets. -/
theorem metrics_account (turns : List (Policy K V × Turn K V)) (start : Instant) :
    let m := after turns { now := start }
    m.rawSize + m.metrics.removes + m.metrics.expirations ≤ m.metrics.puts ∧
      m.metrics.hits + m.metrics.misses = turns.countP (·.2.isGet) := by
  obtain ⟨hmappings, hlookups⟩ := after_accounted turns _ 0 (.refl { now := start })
  exact ⟨hmappings, hlookups.trans (by simp [lookups])⟩

end Backend

end ResilientCache
