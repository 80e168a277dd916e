import ResilientCache.Proofs.Histories
import ResilientCache.Proofs.Failing
import ResilientCache.Proofs.World

/-!
# A store in memory shared by a cache and others

A cache need not be the only one to call its store. An `Incident` is a deed of the cache, or a turn
that somebody else takes with the store in memory under it; `Cache.history` lets incidents happen
one after the other. Each comes with the policies in force, so policies may change their minds from
one incident to the next; within one, the cache and the store each ask about a key at most once.

The cache is given for all policies at once, and may stand over a store with a state of its own
around the memory: a `Seat` says where the memory stands in it.
-/

namespace ResilientCache

variable {σ K V α : Type}

/-- The policy of a cache and that of its store. -/
structure Policies (K V : Type) where
  cache : Policy K V
  store : Policy K V

/-- Where the memory stands in the state of a store. -/
structure Seat (σ K V : Type) where
  memory : σ → Memory K V
  put : σ → Memory K V → σ

namespace Seat

/-- A store that is a memory. -/
def whole : Seat (Memory K V) K V := ⟨id, fun _ m => m⟩

/-- A memory whose calls are counted. -/
def counted : Seat (Counted (Memory K V)) K V := ⟨Counted.inner, fun s m => { s with inner := m }⟩

end Seat

/-- What can happen to a cache and the store in memory under it. -/
inductive Incident (σ K V : Type)
  | deed (d : Deed σ K V)
  /-- A turn with the store that is not the cache's. -/
  | turn (t : Backend.Turn K V)

/-- What an incident is answered. -/
@[reducible] def Incident.Answer : Incident σ K V → Type
  | deed d => d.Answer
  | turn t => t.Answer

/-- What is told or seen of an incident. -/
inductive Happening (K V : Type)
  | event (e : Event K V)
  | sight (s : Sight K V)

/-- Run an action on the memory under a cache. -/
def Seat.onMemory (seat : Seat σ K V) (x : Action (Memory K V) (Sight K V) α) :
    Action (World σ K V) (Happening K V) α :=
  x.within (fun w => seat.memory w.cache.store)
    (fun w m => { w with cache := { w.cache with store := seat.put w.cache.store m } }) .sight

namespace Cache

variable [DecidableEq K] [DecidableEq (Handle V)] [BEq V] (under : Policies K V → Cache σ K V)
  (seat : Seat σ K V)

/-- Let an incident happen. -/
def occur (p : Policies K V) :
    (x : Incident σ K V) → Action (World σ K V) (Happening K V) x.Answer
  | .deed d => ((under p).act d).within id (fun _ w => w) .event
  | .turn t => seat.onMemory ((Backend.lazy p.store).turn t)

/-- Let incidents happen one after the other. -/
def history : List (Policies K V × Incident σ K V) →
    Action (World σ K V) (Happening K V) (List (Σ x : Incident σ K V, x.Answer))
  | [] => return []
  | (p, x) :: rest => do
    let answer ← occur under seat p x
    return ⟨x, answer⟩ :: (← history rest)

theorem history_cons (p : Policies K V) (x : Incident σ K V)
    (rest : List (Policies K V × Incident σ K V)) (w : World σ K V) :
    (history under seat ((p, x) :: rest) w).state =
      (history under seat rest (occur under seat p x w).state).state := rfl

theorem history_append : ∀ (before after : List (Policies K V × Incident σ K V)) (w : World σ K V),
    (history under seat (before ++ after) w).state =
      (history under seat after (history under seat before w).state).state
  | [], _, _ => rfl
  | (p, x) :: before, after, w => by
    rw [List.cons_append, history_cons, history_append before, history_cons]

end Cache

end ResilientCache
