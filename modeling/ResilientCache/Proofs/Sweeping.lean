import ResilientCache.Proofs.Matching
import ResilientCache.Proofs.Memory

/-!
# Lazy expiration cannot be observed

`Store.sweeping` is the reference: it drops every expired mapping before each call and then goes by
what its table holds, without a look at the clock. A `Backend` is a store in memory with its size; a
`Request` is a call of it, and `Backend.run` serves requests, each at its own reading of the clock.

`Memory.Alike` relates the two memories. Between calls they hold the same live mappings. Within a
call they hold the very same on the keys of the call, also what was just written and is no longer
live: `Alike.enter` is where the memory purges these keys and the reference sweeps everything.

Headlines:
* `write_matches`, `settleAll_matches`: from then on both do the same.
* `serve_matches`, `run_matches`: every request, and every run of requests, matches.
* **`lazy_expiration_unobservable`**: answers, batches, notes and counts are those of the reference.
-/

namespace ResilientCache

variable {K V : Type}

theorem Holder.isExpired_mono {h : Holder V} {now later : Instant} (hle : now ≤ later)
    (he : h.isExpired now = true) : h.isExpired later = true := by
  obtain ⟨t, ht, hnow⟩ := isExpired_iff.mp he
  exact isExpired_iff.mpr ⟨t, ht, UInt64.le_trans hnow hle⟩

/-! ## The reference -/

namespace Memory

/-- Drop every mapping that has expired. -/
def sweep (m : Memory K V) : Memory K V :=
  { m with
    table := m.table.filter fun _ h => !h.isExpired m.now
    metrics.expirations := m.metrics.expirations + (m.rawSize - m.size) }

end Memory

/-- The store in memory that drops every expired mapping before each call, and then goes by what its
table holds. -/
def Store.sweeping [DecidableEq K] [DecidableEq (Handle V)] (policy : Policy K V) :
    Store (Memory K V) K V where
  get k := do
    Action.change Memory.sweep
    let found ← Action.read (·.table.get? k)
    Action.change fun m => if found.isSome then m.countHit else m.countMiss
    return .ok found
  containsKey k := do
    Action.change Memory.sweep
    return .ok (← Action.read (·.table.contains k))
  put k v := do
    Action.change Memory.sweep
    return .ok (← Memory.write policy k v)
  remove k := do
    Action.change Memory.sweep
    let present ← Action.read (·.table.contains k)
    Action.change fun m => if present then m.takeOut k else m
    return .ok present
  clear := do
    Action.change Memory.sweep
    Action.change fun m => { m with table := .empty }
    return .ok ()
  iterate := do
    Action.change Memory.sweep
    Action.read fun m => m.table.pairs.map .ok
  bulkComputeIfAbsent ks m :=
    let m := m.sweep
    let absent := m.table.missing ks
    if absent.isEmpty then .done (.ok (m.computed ks), m)
    else .ask absent (Memory.settling (Memory.load policy) absent ks m)
  bulkCompute ks m :=
    let m := m.sweep
    let keys := ks.eraseDups
    .ask (keys.map fun k => (k, m.value? k)) (Memory.settling (Memory.settle policy) keys ks m)
  metrics m := m.metrics

/-! ## Runs of store calls -/

/-- A call of a store in memory. A bulk call comes with its batch function. -/
inductive Request (K V : Type)
  | get (k : K)
  | containsKey (k : K)
  | put (k : K) (v : Handle V)
  | remove (k : K)
  | clear
  | bulkCompute (ks : List K) (f : Mappings K V → Except Fault (Mappings K V))
  | bulkComputeIfAbsent (ks : List K) (f : List K → Except Fault (Mappings K V))
  | len
  | isEmpty

/-- What a request is answered. -/
@[reducible] def Request.Answer : Request K V → Type
  | get _ => Except StoreError (Option (Holder V))
  | containsKey _ => Except StoreError Bool
  | put _ _ => Except StoreError PutStatus
  | remove _ => Except StoreError Bool
  | clear => Except StoreError Unit
  | bulkCompute _ _ => Except BulkError (Computed K V)
  | bulkComputeIfAbsent _ _ => Except BulkError (Computed K V)
  | len => Nat
  | isEmpty => Bool

/-- What is seen of a request beside its answer: the notes of the store and the batches its batch
function is handed. -/
inductive Sight (K V : Type)
  | note (n : Note K V)
  | handed (batch : Mappings K V)
  | handedKeys (batch : List K)

/-- A store in memory with its size. -/
structure Backend (K V : Type) where
  store : Store (Memory K V) K V
  len : Action (Memory K V) (Sight K V) Nat
  isEmpty : Action (Memory K V) (Sight K V) Bool

namespace Backend

/-- A plain call of the store, seen. -/
def plain {α : Type} (x : Action (Memory K V) (Note K V) α) : Action (Memory K V) (Sight K V) α :=
  x.within id (fun _ m => m) .note

/-- A bulk call of the store, seen: its batch function tells what it is handed. -/
def bulk {Q : Type} (call : Memory K V → BulkCall (Memory K V) Q K V) (handed : Q → Sight K V)
    (f : Q → Except Fault (Mappings K V)) :
    Action (Memory K V) (Sight K V) (Except BulkError (Computed K V)) := fun m =>
  let reply : Q → Action Unit (Sight K V) _ := fun batch => do
    Action.tell (handed batch)
    return f batch
  let r := (call m).run Sight.note reply ()
  ⟨r.answer.1, r.answer.2, r.events⟩

theorem bulk_done {Q : Type} {call : Memory K V → BulkCall (Memory K V) Q K V}
    {handed : Q → Sight K V} {f : Q → Except Fault (Mappings K V)} {m : Memory K V}
    {result : Except BulkError (Computed K V) × Memory K V} (h : call m = .done result) :
    bulk call handed f m = ⟨result.1, result.2, []⟩ := by
  simp [bulk, h]

/-- Serve a request. -/
def serve (b : Backend K V) : (r : Request K V) → Action (Memory K V) (Sight K V) r.Answer
  | .get k => plain (b.store.get k)
  | .containsKey k => plain (b.store.containsKey k)
  | .put k v => plain (b.store.put k v)
  | .remove k => plain (b.store.remove k)
  | .clear => plain b.store.clear
  | .bulkCompute ks f => bulk (b.store.bulkCompute ks) .handed f
  | .bulkComputeIfAbsent ks f => bulk (b.store.bulkComputeIfAbsent ks) .handedKeys f
  | .len => b.len
  | .isEmpty => b.isEmpty

/-- Serve requests one after the other, each at its own reading of the clock. -/
def run (b : Backend K V) : List (Instant × Request K V) →
    Action (Memory K V) (Sight K V) (List (Σ r : Request K V, r.Answer))
  | [] => return []
  | (t, r) :: rest => do
    Action.change fun m => { m with now := t }
    let answer ← b.serve r
    return ⟨r, answer⟩ :: (← b.run rest)

variable [DecidableEq K] [DecidableEq (Handle V)]

/-- The store in memory as it is: expired mappings stay until a call touches their key. -/
def lazy (policy : Policy K V) : Backend K V where
  store := Store.memory policy
  len := Action.read Memory.size
  isEmpty := Action.read Memory.isEmpty

/-- The reference: no call ever sees an expired mapping. -/
def eager (policy : Policy K V) : Backend K V where
  store := Store.sweeping policy
  len := do Action.change Memory.sweep; Action.read Memory.rawSize
  isEmpty := do Action.change Memory.sweep; Action.read fun m => m.rawSize = 0

end Backend

/-! ## Memories that look alike -/

namespace Memory

variable [DecidableEq K]

theorem get?_sweep (m : Memory K V) (k : K) : m.sweep.table.get? k = m.live? k :=
  KeyMap.get?_filter ..

/-- At a reading of the clock two memories hold the same live mappings, and they have counted the
same, expirations left out. On some keys they hold the very same, live or not. -/
structure Alike (t : Instant) (on : K → Prop) (m e : Memory K V) : Prop where
  now : m.now = t
  now' : e.now = t
  counts : m.counts = e.counts
  live : ∀ k, m.live? k = e.live? k
  held : ∀ k, on k → m.table.get? k = e.table.get? k

namespace Alike

variable {t : Instant} {on : K → Prop} {m e : Memory K V}

theorem weaken (h : Alike t on m e) : Alike t (fun _ => False) m e :=
  ⟨h.now, h.now', h.counts, h.live, fun _ hk => hk.elim⟩

theorem refl (m : Memory K V) : Alike m.now on m m :=
  ⟨rfl, rfl, rfl, fun _ => rfl, fun _ _ => rfl⟩

theorem countHit (h : Alike t on m e) : Alike t on m.countHit e.countHit :=
  ⟨h.now, h.now', congrArg (fun c : Metrics => { c with hits := c.hits + 1 }) h.counts, h.live,
    h.held⟩

theorem countMiss (h : Alike t on m e) : Alike t on m.countMiss e.countMiss :=
  ⟨h.now, h.now', congrArg (fun c : Metrics => { c with misses := c.misses + 1 }) h.counts, h.live,
    h.held⟩

/-- Changing one key alike in both memories keeps them alike. -/
theorem update (h : Alike t on m e) {m' e' : Memory K V} {k : K} {held? : Option (Holder V)}
    (hnow : m'.now = m.now ∧ e'.now = e.now) (hcounts : m'.counts = e'.counts)
    (hm : ∀ k', m'.table.get? k' = if k = k' then held? else m.table.get? k')
    (he : ∀ k', e'.table.get? k' = if k = k' then held? else e.table.get? k') :
    Alike t on m' e' := by
  refine ⟨hnow.1.trans h.now, hnow.2.trans h.now', hcounts, fun k' => ?_, fun k' hk' => ?_⟩
  · have hl := h.live k'
    unfold live? at hl ⊢
    rw [hm, he, hnow.1, hnow.2]
    split
    · rw [h.now, h.now']
    · exact hl
  · rw [hm, he, h.held k' hk']

theorem install (h : Alike t on m e) (k : K) (held : Holder V) :
    Alike t on (m.install k held) (e.install k held) :=
  h.update ⟨rfl, rfl⟩ (congrArg (fun c : Metrics => { c with puts := c.puts + 1 }) h.counts)
    (fun _ => KeyMap.get?_insert ..) (fun _ => KeyMap.get?_insert ..)

theorem drop (h : Alike t on m e) (k : K) : Alike t on (m.drop k) (e.drop k) :=
  h.update ⟨rfl, rfl⟩ h.counts (fun _ => KeyMap.get?_erase ..) (fun _ => KeyMap.get?_erase ..)

theorem takeOut (h : Alike t on m e) (k : K) : Alike t on (m.takeOut k) (e.takeOut k) :=
  h.update ⟨rfl, rfl⟩ (congrArg (fun c : Metrics => { c with removes := c.removes + 1 }) h.counts)
    (fun _ => KeyMap.get?_erase ..) (fun _ => KeyMap.get?_erase ..)

/-- Time may pass: what has expired stays expired. -/
theorem advance (h : Alike t on m e) {t' : Instant} (ht : t ≤ t') :
    Alike t' on { m with now := t' } { e with now := t' } := by
  have later (m : Memory K V) (hm : m.now = t) (k : K) :
      ({ m with now := t' } : Memory K V).live? k =
        (m.live? k).filter fun held => !held.isExpired t' := by
    unfold live?
    rw [Option.filter_filter]
    refine congrArg (fun p => (m.table.get? k).filter p) (funext fun held => ?_)
    have hmono := held.isExpired_mono ht
    rw [← hm] at hmono
    cases h1 : held.isExpired m.now <;> cases h2 : held.isExpired t' <;> simp_all
  refine ⟨rfl, rfl, h.counts, fun k => ?_, h.held⟩
  rw [later m h.now, later e h.now', h.live]

/-- Entering a call: the memory purges the keys of the call, the reference sweeps everything. From
then on both hold the same for these keys. -/
theorem enter (h : Alike t on m e) (ks : List K) : Alike t (· ∈ ks) (m.purgeAll ks) e.sweep := by
  refine ⟨(m.purgeAll_now ks).trans h.now, h.now', (m.purgeAll_counts ks).trans h.counts,
    fun k => ?_, fun k hk => ?_⟩
  · rw [live?_purgeAll, h.live]
    unfold live?
    rw [get?_sweep, live?, Option.filter_filter]
    simp [sweep]
  · rw [get?_purgeAll, if_pos hk, h.live, get?_sweep]

end Alike

/-! ## Matching steps -/

section

variable {t : Instant} {ks : List K}

/-- Two actions on memories that agree on some keys. -/
abbrev Matches {ε α : Type} (t : Instant) (ks : List K) (x y : Action (Memory K V) ε α) : Prop :=
  Action.Matches (Alike t (· ∈ ks)) (Alike t (· ∈ ks)) x y

theorem write_matches (policy : Policy K V) {k : K} (hk : k ∈ ks) (v : Handle V) :
    Matches t ks (write policy k v) (write policy k v) := by
  refine .bind (.read fun m e h => h.held k hk) fun old? =>
    .bind (.lifetime _ _ _) fun granted =>
      .bind (.read fun m e h => h.now.trans h.now'.symm) fun now => ?_
  cases holderFor old? v now granted with
  | some held => exact .bind (.change fun m e h => h.install k held) fun _ => .pure _
  | none => exact .bind (.change fun m e h => h.drop k) fun _ => .pure _

theorem load_matches (policy : Policy K V) (loaded : KeyMap K (Option (Handle V))) {k : K}
    (hk : k ∈ ks) : Matches t ks (load policy loaded k) (load policy loaded k) := by
  unfold load
  split
  · exact (write_matches policy hk _).discard
  · exact .pure _

theorem settle_matches [DecidableEq (Handle V)] (policy : Policy K V)
    (decided : KeyMap K (Option (Handle V))) {k : K} (hk : k ∈ ks) :
    Matches t ks (settle policy decided k) (settle policy decided k) := by
  unfold settle
  split
  · exact .pure _
  · refine .change fun m e h => ?_
    have hcontains : m.table.contains k = e.table.contains k := by
      rw [KeyMap.contains, KeyMap.contains, h.held k hk]
    rw [hcontains]
    split
    · exact h.takeOut k
    · exact h
  · refine .bind (.read fun m e h => ?_) fun held? => ?_
    · rw [value?, value?, h.held k hk]
    · split
      · exact .pure _
      · exact (write_matches policy hk _).discard

theorem settleAll_matches {each : K → Action (Memory K V) (Note K V) Unit} {settled : List K}
    (hsettled : ∀ k ∈ settled, Matches t ks (each k) (each k)) :
    Matches t ks (settleAll each settled ks) (settleAll each settled ks) := by
  refine .bind (.forM hsettled) fun _ => .bind (.read fun m e h => ?_) fun _ => .pure _
  exact List.map_congr_left fun k hk => by rw [h.held k hk]

end

/-! ## Size -/

omit [DecidableEq K] in
theorem size_eq_rawSize_sweep (m : Memory K V) : m.size = m.sweep.rawSize := by
  show ((m.table.pairs.map Prod.snd).filter _).length = (m.table.pairs.filter _).length
  rw [List.filter_map, List.length_map]
  rfl

/-- The live mappings of a memory are as many as the reference holds after a sweep. -/
theorem Alike.len_eq {t : Instant} {on : K → Prop} {m e : Memory K V} (h : Alike t on m e) :
    m.size = e.sweep.rawSize := by
  rw [size_eq_rawSize_sweep]
  refine KeyMap.size_eq_of_get?_eq fun k => ?_
  rw [get?_sweep, get?_sweep, h.live]

end Memory

/-! ## Matching requests -/

namespace Backend

open Memory

variable [DecidableEq K] {t : Instant}

/-- Two memories that hold the same live mappings at a reading of the clock. -/
abbrev Same (t : Instant) : Memory K V → Memory K V → Prop := Alike t fun _ => False

/-- An action of the store in memory, and what stands for it in the reference. -/
abbrev Simulates {ε α : Type} (t : Instant) (x y : Action (Memory K V) ε α) : Prop :=
  x.Matches (Same t) (Same t) y

/-- Leaving a call: what the memories agree on beside the live mappings is forgotten. -/
theorem leave {ε α : Type} (ks : List K) {x y : Action (Memory K V) ε α}
    (h : x.Matches (Same t) (Alike t (· ∈ ks)) y) : Simulates t x y :=
  .weaken h fun _ _ h => h.weaken

theorem plain_matches {α : Type} {x y : Action (Memory K V) (Note K V) α}
    (h : Simulates t x y) : Simulates t (plain x) (plain y) := fun m e hm =>
  ⟨(h m e hm).answer, congrArg (List.map Sight.note) (h m e hm).events, (h m e hm).state⟩

/-- Two bulk calls that hand the same batch to their function and settle keys that both hold alike
match. -/
theorem bulk_matches {Q : Type} {call call' : Memory K V → BulkCall (Memory K V) Q K V}
    (handed : Q → Sight K V) (f : Q → Except Fault (Mappings K V)) {ks settled : List K}
    {each : KeyMap K (Option (Handle V)) → K → Action (Memory K V) (Note K V) Unit}
    (hsettled : ∀ decided, ∀ k ∈ settled, Memory.Matches t ks (each decided k) (each decided k))
    {q : Q} {m e m' e' : Memory K V} (h : Alike t (· ∈ ks) m' e')
    (hcall : call m = .ask q (settling each settled ks m'))
    (hcall' : call' e = .ask q (settling each settled ks e')) :
    Run.Agrees (Same t) (bulk call handed f m) (bulk call' handed f e) := by
  cases hf : f q with
  | error fault =>
    simp only [bulk, hcall, hcall', Dialogue.run_ask, Action.bind_apply, Action.pure_apply, hf]
    exact ⟨rfl, rfl, h.weaken⟩
  | ok pairs =>
    obtain ⟨ha, he, hs⟩ := settleAll_matches (hsettled (.ofList pairs)) m' e' h
    simp only [bulk, hcall, hcall', Dialogue.run_ask, Action.bind_apply, Action.pure_apply, hf]
    exact ⟨ha, congrArg (fun ns => [handed q] ++ (ns.map Sight.note ++ [])) he, hs.weaken⟩

variable [DecidableEq (Handle V)] (policy : Policy K V)

theorem get_matches (k : K) :
    Simulates t ((Store.memory policy).get k) ((Store.sweeping policy).get k) := by
  have enter : (Action.change (·.purge k) : Action (Memory K V) (Note K V) Unit).Matches (Same t)
      (Alike t (· ∈ [k])) (Action.change sweep) := .change fun m e h => h.enter [k]
  refine leave [k] (.bind enter fun _ => .bind (.read fun m e h => h.held k (by simp)) fun found =>
    .bind (.change fun m e h => ?_) fun _ => .pure _)
  split
  · exact h.countHit
  · exact h.countMiss

theorem containsKey_matches (k : K) :
    Simulates t ((Store.memory policy).containsKey k) ((Store.sweeping policy).containsKey k) := by
  intro m e h
  have hpresent : e.sweep.table.contains k = (m.live? k).isSome := by
    rw [KeyMap.contains, get?_sweep, h.live]
  exact ⟨congrArg Except.ok hpresent.symm, rfl, (h.enter []).weaken⟩

theorem put_matches (k : K) (v : Handle V) :
    Simulates t ((Store.memory policy).put k v) ((Store.sweeping policy).put k v) := by
  have enter : (Action.change (·.purge k) : Action (Memory K V) (Note K V) Unit).Matches (Same t)
      (Alike t (· ∈ [k])) (Action.change sweep) := .change fun m e h => h.enter [k]
  exact leave [k] (.bind enter fun _ => .bind (write_matches policy (by simp) v) fun _ => .pure _)

theorem remove_matches (k : K) :
    Simulates t ((Store.memory policy).remove k) ((Store.sweeping policy).remove k) := by
  intro m e h
  have hpresent : e.sweep.table.contains k = (m.live? k).isSome := by
    rw [KeyMap.contains, get?_sweep, h.live]
  have h' : Same t m e.sweep := (h.enter []).weaken
  refine ⟨congrArg Except.ok hpresent.symm, rfl, ?_⟩
  show Same t (if (m.live? k).isSome then m.takeOut k else m.drop k)
    (if e.sweep.table.contains k then e.sweep.takeOut k else e.sweep)
  rw [hpresent]
  split
  · exact h'.takeOut k
  · rename_i hdead
    have hnone : m.live? k = none := by simpa using hdead
    refine ⟨h'.now, h'.now', h'.counts, fun k' => ?_, fun _ hk => hk.elim⟩
    rw [live?_drop, ← h'.live]
    split
    · subst ‹k = k'›
      exact hnone.symm
    · rfl

theorem clear_matches :
    Simulates t (Store.memory policy).clear (Store.sweeping policy).clear :=
  fun _ _ h => ⟨rfl, rfl, h.now, h.now', h.counts, fun _ => rfl, fun _ _ => rfl⟩

theorem bulkCompute_matches (ks : List K) (f : Mappings K V → Except Fault (Mappings K V)) :
    Simulates t (bulk ((Store.memory policy).bulkCompute ks) Sight.handed f)
      (bulk ((Store.sweeping policy).bulkCompute ks) Sight.handed f) := by
  intro m e h
  have h' := h.enter ks
  have hbatch : (ks.eraseDups.map fun k => (k, (m.purgeAll ks).value? k)) =
      ks.eraseDups.map fun k => (k, e.sweep.value? k) :=
    List.map_congr_left fun k hk => by
      rw [value?, value?, h'.held k (List.mem_eraseDups.mp hk)]
  have hm := bulkCompute_eq policy ks m
  rw [hbatch] at hm
  exact bulk_matches _ _
    (fun decided k hk => settle_matches policy decided (List.mem_eraseDups.mp hk)) h' hm rfl

theorem bulkComputeIfAbsent_matches (ks : List K) (f : List K → Except Fault (Mappings K V)) :
    Simulates t (bulk ((Store.memory policy).bulkComputeIfAbsent ks) Sight.handedKeys f)
      (bulk ((Store.sweeping policy).bulkComputeIfAbsent ks) Sight.handedKeys f) := by
  intro m e h
  have h' := h.enter ks
  have habsent : (m.purgeAll ks).table.missing ks = e.sweep.table.missing ks :=
    List.filter_congr fun k hk => by
      rw [KeyMap.contains, KeyMap.contains, h'.held k (List.mem_eraseDups.mp hk)]
  have hcomputed : (m.purgeAll ks).computed ks = e.sweep.computed ks :=
    List.map_congr_left fun k hk => by rw [h'.held k hk]
  have hm := bulkComputeIfAbsent_eq policy ks m
  rw [habsent, hcomputed] at hm
  have he : (Store.sweeping policy).bulkComputeIfAbsent ks e =
    if (e.sweep.table.missing ks).isEmpty then .done (.ok (e.sweep.computed ks), e.sweep)
    else .ask (e.sweep.table.missing ks)
      (settling (load policy) (e.sweep.table.missing ks) ks e.sweep) := rfl
  cases hempty : (e.sweep.table.missing ks).isEmpty with
  | true =>
    rw [if_pos hempty] at hm he
    rw [bulk_done hm, bulk_done he]
    exact ⟨rfl, rfl, h'.weaken⟩
  | false =>
    rw [hempty, if_neg Bool.false_ne_true] at hm he
    refine bulk_matches _ _ (fun decided k hk => load_matches policy decided ?_) h' hm he
    exact List.mem_eraseDups.mp (List.mem_of_mem_filter hk)

/-- Every request matches. -/
theorem serve_matches (r : Request K V) :
    Simulates t ((lazy policy).serve r) ((eager policy).serve r) := by
  cases r with
  | get k => exact plain_matches (get_matches policy k)
  | containsKey k => exact plain_matches (containsKey_matches policy k)
  | put k v => exact plain_matches (put_matches policy k v)
  | remove k => exact plain_matches (remove_matches policy k)
  | clear => exact plain_matches (clear_matches policy)
  | bulkCompute ks f => exact bulkCompute_matches policy ks f
  | bulkComputeIfAbsent ks f => exact bulkComputeIfAbsent_matches policy ks f
  | len => exact fun m e h => ⟨h.len_eq, rfl, (h.enter []).weaken⟩
  | isEmpty =>
    exact fun m e h => ⟨congrArg (fun n => decide (n = 0)) h.len_eq, rfl, (h.enter []).weaken⟩

/-- Every run of requests matches, as long as the clock does not go back. -/
theorem run_matches : ∀ (requests : List (Instant × Request K V)) (t : Instant) (m e : Memory K V),
    Same t m e → (t :: requests.map Prod.fst).Pairwise (· ≤ ·) →
    ∃ t', Run.Agrees (Same t') ((lazy policy).run requests m) ((eager policy).run requests e)
  | [], t, _, _, h, _ => ⟨t, rfl, rfl, h⟩
  | (t', r) :: rest, t, m, e, h, ht => by
    obtain ⟨hnow, hrest⟩ := List.pairwise_cons.mp ht
    obtain ⟨ha, he, hs⟩ := serve_matches policy r _ _ (h.advance (hnow t' (by simp)))
    obtain ⟨t'', iha, ihe, ihs⟩ := run_matches rest t' _ _ hs hrest
    refine ⟨t'', ?_, ?_, ihs⟩
    · simp [run, ha, iha]
    · simp [run, he, ihe]

/-- **Lazy expiration cannot be observed**: under a clock that does not go back, every run of store
calls is answered and seen like a run over a store that drops every expired mapping before each
call; the counts are the same but for the expirations, and so are the live mappings. -/
theorem lazy_expiration_unobservable (m : Memory K V) (requests : List (Instant × Request K V))
    (h : (m.now :: requests.map Prod.fst).Pairwise (· ≤ ·)) :
    let run := (lazy policy).run requests m
    let reference := (eager policy).run requests m
    run.answer = reference.answer ∧ run.events = reference.events ∧
      run.state.counts = reference.state.counts ∧
      ∀ k, run.state.live? k = reference.state.live? k := by
  obtain ⟨t, ha, he, hs⟩ := run_matches policy requests m.now m m (.refl m) h
  exact ⟨ha, he, hs.counts, hs.live⟩

/-- A mapping that has expired is still held after `containsKey`, and no answer shows it. -/
theorem lazy_expiration_unobservable_lingering :
    let policy : Policy Nat Nat := .timeToLive (.ofMillis 5)
    let requests : List (Instant × Request Nat Nat) := [(0, .put 1 ⟨0, 10⟩), (9, .containsKey 1)]
    let run := (lazy policy).run requests {}
    let reference := (eager policy).run requests {}
    (0 :: requests.map Prod.fst).Pairwise (· ≤ ·) ∧ run.answer = reference.answer ∧
      run.state.rawSize = 1 ∧ reference.state.rawSize = 0 := by
  intro policy requests run reference
  have hclock : (0 :: requests.map Prod.fst).Pairwise (· ≤ ·) := by decide
  exact ⟨hclock, (lazy_expiration_unobservable policy {} requests hclock).1, rfl, rfl⟩

end Backend

end ResilientCache
