import ResilientCache.Proofs.Framing
import ResilientCache.Proofs.Replacing
import ResilientCache.Proofs.Sharing

/-!
# Failing policies read as the empty lifetime

`Policy.infallible` is a policy that grants the empty lifetime where another one fails, and
otherwise what it grants. The two are asked the same questions and grant the same; only the failure
is logged. So they cannot be told apart, in the store or in the cache, but for these log entries
(`Note.logsExpiry`), which are the hidden events of this module.

A policy is asked in one place of the store in memory, where a value is written, and in one place of
the cache, where a value is accepted. Everything above resembles itself by what holds of all
programs put together from these.

Headlines:
* `lifetime_resembles`: the question itself.
* `Store.memory_resembles`, `underPlan_resembles`: stores and caches.
* **`failures_read_as_zero`**: every history of a cache and of other callers of its store.
-/

namespace ResilientCache

variable {σ τ K V : Type}

/-! ## The question -/

/-- The log entry about a policy that failed. -/
def Note.logsExpiry : Note K V → Bool
  | .logged (.expiryFailed _) => true
  | _ => false

namespace Policy

/-- The policy that grants the empty lifetime where another one fails. -/
def infallible (p : Policy K V) : Policy K V where
  creation k v :=
    match p.creation k v with
    | .ok ttl => .ok ttl
    | .error _ => .ok .zero
  update k old new :=
    match p.update k old new with
    | .ok ttl => .ok ttl
    | .error _ => .ok (some .zero)

@[simp] theorem granted_infallible (p : Policy K V) (q : LifetimeQuery K V) :
    p.infallible.granted q = p.granted q := by
  cases q with
  | creation k v => simp only [granted, answer, infallible]; cases p.creation k v <;> rfl
  | update k old new => simp only [granted, answer, infallible]; cases p.update k old new <;> rfl

/-- What is seen of a question is the question. -/
theorem visible_lifetime (owner : Owner) (p : Policy K V) (q : LifetimeQuery K V) (s : σ) :
    visible Note.logsExpiry (p.lifetime owner q s).events = [.asked owner q] := by
  simp only [lifetime]
  cases p.answer q <;> rfl

/-- Policies that grant the same cannot be told apart by asking them. -/
theorem lifetime_resembles {p p' : Policy K V} (h : ∀ q, p.granted q = p'.granted q) (owner : Owner)
    (q : LifetimeQuery K V) :
    (p.lifetime owner q : Action σ (Note K V) _).Resembles Note.logsExpiry
      (p'.lifetime owner q) := fun s =>
  ⟨by rw [lifetime_answer, lifetime_answer, h], by rw [lifetime_state, lifetime_state],
    by rw [visible_lifetime, visible_lifetime]⟩

end Policy

/-! ## The store in memory -/

section

variable [DecidableEq K] {p p' : Policy K V} (h : ∀ q, p.granted q = p'.granted q)

include h

namespace Memory

theorem write_resembles (k : K) (v : Handle V) :
    (write p k v).Resembles Note.logsExpiry (write p' k v) := by
  refine .bind (.refl _) fun old? => .bind (Policy.lifetime_resembles h _ _) fun granted =>
    .bind (.refl _) fun now => ?_
  cases holderFor old? v now granted <;> exact .refl _

theorem load_resembles (loaded : KeyMap K (Option (Handle V))) (k : K) :
    (load p loaded k).Resembles Note.logsExpiry (load p' loaded k) := by
  unfold load
  split
  · exact (write_resembles h k _).discard
  · exact .refl _

theorem settle_resembles [DecidableEq (Handle V)] (decided : KeyMap K (Option (Handle V))) (k : K) :
    (settle p decided k).Resembles Note.logsExpiry (settle p' decided k) := by
  unfold settle
  split
  · exact .refl _
  · exact .refl _
  · refine .bind (.refl _) fun held? => ?_
    split
    · exact .refl _
    · exact (write_resembles h k _).discard

omit h in
/-- Settling the same keys in ways that resemble each other. -/
theorem settling_resembles {Q : Type}
    {each each' : KeyMap K (Option (Handle V)) → K → Action (Memory K V) (Note K V) Unit}
    (heach : ∀ decided k, (each decided k).Resembles Note.logsExpiry (each' decided k))
    (settled requested : List K) (m : Memory K V) : ∀ answer,
    (settling each settled requested m answer : BulkCall _ Q K V).Resembles Note.logsExpiry
      (settling each' settled requested m answer)
  | .error _ => .done _
  | .ok pairs =>
    .finish ((Action.Resembles.forM (heach (.ofList pairs)) settled).bind (fun _ => .refl _) m)

end Memory

/-- Stores in memory whose policies grant the same. -/
theorem Store.memory_resembles [DecidableEq (Handle V)] :
    (Store.memory p).Resembles Note.logsExpiry (Store.memory p') where
  get _ := .refl _
  containsKey _ := .refl _
  put k v := .bind (.refl _) fun _ => (Memory.write_resembles h k v).bind fun _ => .refl _
  remove _ := .refl _
  clear := .refl _
  iterate := .refl _
  bulkComputeIfAbsent ks m := by
    rw [Memory.bulkComputeIfAbsent_eq, Memory.bulkComputeIfAbsent_eq]
    split
    · exact .done _
    · exact .ask _ (Memory.settling_resembles (Memory.load_resembles h) _ ks _)
  bulkCompute ks m := by
    rw [Memory.bulkCompute_eq, Memory.bulkCompute_eq]
    exact .ask _ (Memory.settling_resembles (Memory.settle_resembles h) _ ks _)
  metrics := rfl

theorem Store.memory_listedBy_resembles [DecidableEq (Handle V)]
    (order : Memory K V → List (K × Holder V)) :
    ((Store.memory p).listedBy order).Resembles Note.logsExpiry
      ((Store.memory p').listedBy order) :=
  { Store.memory_resembles h with iterate := .refl _ }

end

/-! ## Direct calls -/

/-- The sights that are hidden: the notes that are. -/
def Sight.hides (hidden : Note K V → Bool) : Sight K V → Bool
  | .note n => hidden n
  | _ => false

theorem Sight.hides_note (hidden : Note K V → Bool) (n : Note K V) :
    Sight.hides hidden (.note n) = hidden n := rfl

namespace Backend

theorem plain_resembles {α : Type} {x y : Action (Memory K V) (Note K V) α}
    {hidden : Note K V → Bool} (h : x.Resembles hidden y) :
    (plain x).Resembles (Sight.hides hidden) (plain y) :=
  h.within _ _ (Sight.hides_note hidden)

theorem bulk_resembles {Q : Type} {call call' : Memory K V → BulkCall (Memory K V) Q K V}
    {hidden : Note K V → Bool} (h : ∀ m, (call m).Resembles hidden (call' m))
    (handed : Q → Sight K V) (f : Q → Except Fault (Mappings K V)) :
    (bulk call handed f).Resembles (Sight.hides hidden) (bulk call' handed f) := by
  intro m
  obtain ⟨ha, -, he⟩ := (h m).run (Sight.hides_note hidden)
    (fun batch => .refl (do Action.tell (handed batch); return f batch)) ()
  exact ⟨congrArg Prod.fst ha, congrArg Prod.snd ha, he⟩

variable [DecidableEq K] [DecidableEq (Handle V)] {p p' : Policy K V}

theorem serve_resembles (h : ∀ q, p.granted q = p'.granted q) (r : Request K V) :
    ((lazy p).serve r).Resembles (Sight.hides Note.logsExpiry) ((lazy p').serve r) := by
  have hstore := Store.memory_resembles h
  cases r with
  | get k => exact plain_resembles (hstore.get k)
  | containsKey k => exact plain_resembles (hstore.containsKey k)
  | put k v => exact plain_resembles (hstore.put k v)
  | remove k => exact plain_resembles (hstore.remove k)
  | clear => exact plain_resembles hstore.clear
  | bulkCompute ks f => exact bulk_resembles (hstore.bulkCompute ks) _ f
  | bulkComputeIfAbsent ks f => exact bulk_resembles (hstore.bulkComputeIfAbsent ks) _ f
  | len => exact .refl _
  | isEmpty => exact .refl _

theorem turn_resembles (h : ∀ q, p.granted q = p'.granted q) (t : Turn K V) :
    ((lazy p).turn t).Resembles (Sight.hides Note.logsExpiry) ((lazy p').turn t) := by
  cases t with
  | clock move => exact .refl _
  | iterate => exact plain_resembles (Store.memory_resembles h).iterate
  | request r => exact serve_resembles h r

end Backend

/-! ## Histories -/

/-- The happenings that are hidden: the log entries about policies that failed. -/
def Happening.logsExpiry : Happening K V → Bool
  | .event e => e.hides Note.logsExpiry
  | .sight s => s.hides Note.logsExpiry

theorem Happening.logsExpiry_event (e : Event K V) :
    Happening.logsExpiry (.event e) = e.hides Note.logsExpiry := rfl

theorem Happening.logsExpiry_sight (s : Sight K V) :
    Happening.logsExpiry (.sight s) = s.hides Note.logsExpiry := rfl

theorem Seat.onMemory_resembles {α : Type} (seat : Seat σ K V)
    {x y : Action (Memory K V) (Sight K V) α} (h : x.Resembles (Sight.hides Note.logsExpiry) y) :
    (seat.onMemory x).Resembles Happening.logsExpiry (seat.onMemory y) :=
  h.within _ _ Happening.logsExpiry_sight

/-- The policies, with the failures of the cache's or of the store's read as the empty lifetime. -/
def Policies.infallible (inCache inStore : Bool) (p : Policies K V) : Policies K V where
  cache := if inCache then p.cache.infallible else p.cache
  store := if inStore then p.store.infallible else p.store

namespace Policies

variable (inCache inStore : Bool) (p : Policies K V) (q : LifetimeQuery K V)

theorem granted_cache : p.cache.granted q = (p.infallible inCache inStore).cache.granted q := by
  cases inCache <;> simp [infallible]

theorem granted_store : p.store.granted q = (p.infallible inCache inStore).store.granted q := by
  cases inStore <;> simp [infallible]

end Policies

namespace Cache

variable [DecidableEq K] [DecidableEq (Handle V)] (name : String) (shipped : Strategy.Shipped)
  (order : Memory K V → List (K × Holder V)) (plan : Plan)

/-- A cache of the kinds there are, under its policies. -/
def underPlan (p : Policies K V) : Cache (Counted (Memory K V)) K V :=
  overUnreliable name p.store p.cache shipped order plan

section

variable {p p' : Policies K V} (hcache : ∀ q, p.cache.granted q = p'.cache.granted q)
  (hstore : ∀ q, p.store.granted q = p'.store.granted q)

include hcache hstore

/-- Caches whose policies grant the same, and those of their stores. -/
theorem underPlan_resembles :
    (underPlan name shipped order plan p).Resembles Note.logsExpiry
      (underPlan name shipped order plan p') := by
  have hfailing := (Store.memory_listedBy_resembles hstore order).failing plan
  exact ⟨hfailing, shipped.forStore_resembles hfailing,
    fun _ q => Policy.lifetime_resembles hcache .cache q⟩

theorem occur_resembles [BEq V] (x : Incident (Counted (Memory K V)) K V) :
    (occur (underPlan name shipped order plan) .counted p x).Resembles Happening.logsExpiry
      (occur (underPlan name shipped order plan) .counted p' x) := by
  cases x with
  | deed d =>
    have hdeed := act_resembles (underPlan_resembles name shipped order plan hcache hstore) d
    exact hdeed.within id (fun _ w => w) Happening.logsExpiry_event
  | turn t => exact Seat.counted.onMemory_resembles (Backend.turn_resembles hstore t)

end

/-- **A failing policy reads as one that grants the empty lifetime**, in the cache, the store or
both: whatever happens to the cache and past it, and whatever strikes the store, every answer is the
same, the cache, its walks and the store end the same, and the same is told and seen, but for the
log entries about policies that failed. -/
theorem failures_read_as_zero [BEq V] (inCache inStore : Bool)
    (incidents : List (Policies K V × Incident (Counted (Memory K V)) K V))
    (w : World (Counted (Memory K V)) K V) :
    let cache := underPlan name shipped order plan
    let run := history cache .counted incidents w
    let reference := history cache .counted
      (incidents.map fun (p, x) => (p.infallible inCache inStore, x)) w
    run.answer = reference.answer ∧ run.state = reference.state ∧
      visible Happening.logsExpiry run.events = visible Happening.logsExpiry reference.events := by
  have hhistory : (history (underPlan name shipped order plan) .counted incidents).Resembles
      Happening.logsExpiry (history (underPlan name shipped order plan) .counted
        (incidents.map fun (p, x) => (p.infallible inCache inStore, x))) := by
    induction incidents with
    | nil => exact .refl _
    | cons incident rest ih =>
      obtain ⟨p, x⟩ := incident
      exact (occur_resembles name shipped order plan (p.granted_cache inCache inStore)
        (p.granted_store inCache inStore) x).bind fun _ => ih.bind fun _ => .refl _
  obtain ⟨hanswer, hstate, hevents⟩ := hhistory w
  exact ⟨hanswer, hstate, hevents⟩

end Cache

end ResilientCache
