import ResilientCache.Cache.Cursor
import ResilientCache.Proofs.Call
import ResilientCache.Proofs.Reporting
import ResilientCache.Proofs.Tables

/-!
# The reference map

A `Task` is anything a caller can do with a cache: a call, a bulk load, the removal of all entries,
a walk over the entries to its end, a move of the clock. `Cache.perform` does it with a cache over a
store in memory; `Task.onMap` says what it comes to on a finite map from keys to handles: what is
answered, which outcomes are recorded, and which map is left.

`Cache.Refines` is the comparison of the two along a sequence of tasks: before and after each of
them the live content of the store is the map, and each is answered and reported as on the map. Maps
in answers are compared by what they map keys to, the entries of a walk up to their order.
-/

namespace ResilientCache

variable {σ K V α : Type}

/-! ## Tasks -/

/-- Something a caller does with a cache, or that the clock does meanwhile. -/
inductive Task (K V : Type)
  | call (operation : Call K V)
  | removeAllEntries
  | loadAll (ks : List K) (replaceExisting : Bool) (loader : Loader K V)
  /-- A walk over the entries to its end. -/
  | walk (quiet : Bool)
  | moveClock (move : ClockMove)

/-- What a task is answered. A walk answers what it was offered, and whether there is still more. -/
@[reducible] def Task.Answer : Task K V → Type
  | call operation => Except CacheError operation.Answer
  | removeAllEntries => Except CacheError Unit
  | loadAll _ _ _ => Except CacheError (KeyMap K (Option (Handle V)))
  | walk _ => Except CacheError (List (Except CacheError (Entry K V)) × Bool)
  | moveClock _ => Unit

namespace Cache

/-- Walk over the entries of a cache to the end. -/
def walk (c : Cache σ K V) (quiet : Bool) :
    Op σ K V (List (Except CacheError (Entry K V)) × Bool) := do
  let cur ← c.iterate quiet
  let (results, cur) ← ExceptT.lift (cur.drain c)
  return (results, ← cur.hasNext)

/-- Do a task with a cache over a store in memory. -/
def perform [DecidableEq K] [BEq V] (c : Cache (Memory K V) K V) :
    (task : Task K V) → Action (State (Memory K V)) (Event K V) task.Answer
  | .call operation => (c.serve operation).run
  | .removeAllEntries => c.removeAllEntries.run
  | .loadAll ks replaceExisting loader => (c.loadAll ks replaceExisting loader).run
  | .walk quiet => (c.walk quiet).run
  | .moveClock move =>
    .change fun s => { s with store := { s.store with now := s.store.now.move move } }

end Cache

/-! ## Tasks on a map -/

/-- What a task comes to on a map. -/
structure Effect (K V α : Type) where
  answer : α
  outcomes : List Outcome := []
  map : KeyMap K (Handle V)

variable [DecidableEq K]

/-- A map with some keys at what was loaded for them, and unmapped if nothing was. -/
def KeyMap.load (m loaded : KeyMap K (Handle V)) (ks : List K) : KeyMap K (Handle V) :=
  ks.foldl (fun m k => m.put? k (loaded.get? k)) m

/-- A bulk load of some keys on a map, by what was loaded for a batch of them. -/
def Effect.ofLoad (m : KeyMap K (Handle V)) (ks batch : List K) :
    Except Fault (KeyMap K (Handle V)) →
      Effect K V (Except CacheError (KeyMap K (Option (Handle V))))
  | .error fault => { answer := .error (.ofBulk (.function fault)), map := m }
  | .ok loaded =>
    { answer := .ok (.ofList (ks.map fun k => (k, (m.load loaded batch).get? k)))
      map := m.load loaded batch }

/-- A bulk load on a map. The loader is handed all keys, or those without a mapping, and decides
them; if there is none to decide, it is not called. -/
def Loader.onMap (loader : Loader K V) (m : KeyMap K (Handle V)) (ks : List K)
    (replaceExisting : Bool) : Effect K V (Except CacheError (KeyMap K (Option (Handle V)))) :=
  let batch := if replaceExisting then ks.eraseDups else m.missing ks
  .ofLoad m ks batch (if batch.isEmpty then .ok .empty else loader batch)

variable [BEq V]

/-- A call on a map. -/
def Call.onMap (m : KeyMap K (Handle V)) : (call : Call K V) → Effect K V call.Answer
  | get k =>
    { answer := m.get? k
      outcomes := [.get (if m.contains k then .hit else .miss)]
      map := m }
  | containsKey k => { answer := m.contains k, map := m }
  | put k v => { answer := (), outcomes := [.put .put], map := m.insert k v }
  | putIfAbsent k v =>
    { answer := m.get? k
      outcomes := [.putIfAbsent (if m.contains k then .hit else .put)]
      map := if m.contains k then m else m.insert k v }
  | remove k =>
    { answer := ()
      outcomes := [.remove (if m.contains k then .success else .noop)]
      map := m.erase k }
  | removeIf k value =>
    match m.get? k with
    | none =>
      { answer := false, outcomes := [.conditionalRemove .failureKeyMissing], map := m }
    | some current =>
      if current.value == value then
        { answer := true, outcomes := [.conditionalRemove .success], map := m.erase k }
      else { answer := false, outcomes := [.conditionalRemove .failureKeyPresent], map := m }
  | replace k v =>
    { answer := m.get? k
      outcomes := [.replace (if m.contains k then .hit else .missNotPresent)]
      map := if m.contains k then m.insert k v else m }
  | replaceIf k old new =>
    match m.get? k with
    | none => { answer := false, outcomes := [.replace .missNotPresent], map := m }
    | some current =>
      if current.value == old then
        { answer := true, outcomes := [.replace .hit], map := m.insert k new }
      else { answer := false, outcomes := [.replace .missPresent], map := m }
  | clear => { answer := (), outcomes := [.clear .success], map := .empty }
  | getAll ks =>
    { answer := .ofList (ks.map fun k => (k, m.get? k))
      outcomes := [.getAll .success]
      map := m }
  | getAllPresent ks =>
    { answer := m.filter fun k _ => decide (k ∈ ks)
      outcomes := [.getAll .success]
      map := m }
  | putAll entries =>
    { answer := ()
      outcomes := [.putAll .success]
      map := entries.foldl (fun m entry => m.insert entry.1 entry.2) m }
  | removeAll ks =>
    { answer := (), outcomes := [.removeAll .success], map := ks.foldl KeyMap.erase m }

/-- A task on a map. -/
def Task.onMap (m : KeyMap K (Handle V)) : (task : Task K V) → Effect K V task.Answer
  | call operation => { operation.onMap m with answer := .ok (operation.onMap m).answer }
  | removeAllEntries =>
    { answer := .ok (), outcomes := .replicate m.size (.remove .success), map := .empty }
  | loadAll ks replaceExisting loader => loader.onMap m ks replaceExisting
  | walk quiet =>
    { answer := .ok (m.pairs.map fun p => .ok ⟨p.1, p.2⟩, false)
      outcomes := if quiet then [] else .replicate m.size (.get .hit)
      map := m }
  | moveClock _ => { answer := (), map := m }

/-! ## Comparison -/

/-- Two results that are the same error, or answers alike. -/
def SameUpTo (alike : α → α → Prop) : Except CacheError α → Except CacheError α → Prop
  | .ok a, .ok b => alike a b
  | .error e, .error e' => e = e'
  | _, _ => False

/-- Two answers of a call are the same; maps are compared by their views. -/
def Call.SameAnswer : (call : Call K V) → call.Answer → call.Answer → Prop
  | getAll _, m, m' => ∀ k, m.get? k = m'.get? k
  | getAllPresent _, m, m' => ∀ k, m.get? k = m'.get? k
  | _, a, b => a = b

/-- Two answers of a task are the same; the order of a walk means nothing. -/
def Task.SameAnswer : (task : Task K V) → task.Answer → task.Answer → Prop
  | call operation, a, b => SameUpTo operation.SameAnswer a b
  | removeAllEntries, a, b => a = b
  | loadAll _ _ _, a, b => SameUpTo (fun m m' => ∀ k, m.get? k = m'.get? k) a b
  | walk _, a, b => SameUpTo (fun r r' => r.1.Perm r'.1 ∧ r.2 = r'.2) a b
  | moveClock _, _, _ => True

/-- The live content of a store in memory is a map. -/
def Memory.Content (mem : Memory K V) (m : KeyMap K (Handle V)) : Prop :=
  ∀ k, (mem.live? k).map Holder.value = m.get? k

/-- Along some tasks a cache over a store in memory does what a map would. -/
def Cache.Refines (c : Cache (Memory K V) K V) :
    List (Task K V) → State (Memory K V) → KeyMap K (Handle V) → Prop
  | [], s, m => s.store.Content m
  | task :: rest, s, m =>
    s.store.Content m ∧
      task.SameAnswer (c.perform task s).answer (task.onMap m).answer ∧
      outcomes (c.perform task s).events = (task.onMap m).outcomes ∧
      c.Refines rest (c.perform task s).state (task.onMap m).map

end ResilientCache
