import ResilientCache.KeyMap
import ResilientCache.Policy
import ResilientCache.Store.Basic

/-!
# The store in memory

`Store.memory policy` keeps its mappings in a table beside a clock and counters. Its calls do not
fail.

Expiration is lazy: an expired mapping stays in the table until a call touches its key, when
`purge` drops it and counts one expiration. `remove` takes a mapping out whether it is live or not,
and counts it only if it was.

A bulk primitive purges the requested keys, asks its one question, and then settles the requested
keys one after the other. If the batch function fails, only the purges remain.
-/

namespace ResilientCache

/-- The state of a store in memory. -/
structure Memory (K V : Type) where
  table : KeyMap K (Holder V) := {}
  metrics : Metrics := {}
  now : Instant := 0

namespace Memory

variable {K V : Type}

/-! ## Counters -/

/-- One more live mapping was found. -/
def countHit (m : Memory K V) : Memory K V :=
  { m with metrics.hits := m.metrics.hits + 1 }

/-- One more key was found without a live mapping. -/
def countMiss (m : Memory K V) : Memory K V :=
  { m with metrics.misses := m.metrics.misses + 1 }

/-! ## Size -/

/-- How many mappings are held, expired ones included. -/
def rawSize (m : Memory K V) : Nat := m.table.size

/-- How many live mappings are held. -/
def size (m : Memory K V) : Nat := (m.table.values.filter fun h => !h.isExpired m.now).length

/-- Whether no live mapping is held. -/
def isEmpty (m : Memory K V) : Bool := m.size = 0

variable [DecidableEq K]

/-! ## Single mappings -/

/-- The live holder of a key. -/
def live? (m : Memory K V) (k : K) : Option (Holder V) :=
  (m.table.get? k).filter fun h => !h.isExpired m.now

/-- Drop a key whose mapping has expired, and count the expiration. -/
def purge (m : Memory K V) (k : K) : Memory K V :=
  match m.table.get? k with
  | none => m
  | some h =>
    if h.isExpired m.now then
      { m with table := m.table.erase k, metrics.expirations := m.metrics.expirations + 1 }
    else m

/-- Install a holder and count the put. -/
def install (m : Memory K V) (k : K) (h : Holder V) : Memory K V :=
  { m with table := m.table.insert k h, metrics.puts := m.metrics.puts + 1 }

/-- Drop whatever a key is mapped to. -/
def drop (m : Memory K V) (k : K) : Memory K V := { m with table := m.table.erase k }

/-- Remove a live mapping and count it. -/
def takeOut (m : Memory K V) (k : K) : Memory K V :=
  { m with table := m.table.erase k, metrics.removes := m.metrics.removes + 1 }

/-- The holder of a value under the lifetime it was granted; `none` if it is dead on arrival. -/
def holderFor (old? : Option (Holder V)) (v : Handle V) (now : Instant) :
    Option Duration → Option (Holder V)
  | none => some ⟨v, now, old?.bind Holder.expires⟩
  | some ttl => if ttl = .zero then none else some ⟨v, now, now.deadline ttl⟩

/-- Write a value to a key over what it holds, for the lifetime the policy grants: install its
holder, or drop the key if the value is dead on arrival. -/
def write (policy : Policy K V) (k : K) (v : Handle V) :
    Action (Memory K V) (Note K V) PutStatus := do
  let old? ← Action.read (·.table.get? k)
  let granted ← policy.lifetime .store (.ofWrite k (old?.map (·.value.value)) v.value)
  match holderFor old? v (← Action.read Memory.now) granted with
  | some h =>
    Action.change (·.install k h)
    return .put
  | none =>
    Action.change (·.drop k)
    return .noop

/-! ## Batches -/

/-- Drop those of some keys whose mappings have expired. -/
def purgeAll (m : Memory K V) (ks : List K) : Memory K V := ks.foldl purge m

/-- The value a key holds. -/
def value? (m : Memory K V) (k : K) : Option (Handle V) := (m.table.get? k).map Holder.value

/-- The holders of the requested keys. -/
def computed (m : Memory K V) (ks : List K) : Computed K V := ks.map fun k => (k, m.table.get? k)

/-- Write the value that was loaded for a key, if there is one. -/
def load (policy : Policy K V) (loaded : KeyMap K (Option (Handle V))) (k : K) :
    Action (Memory K V) (Note K V) Unit :=
  match loaded.get? k with
  | some (some v) => discard (write policy k v)
  | _ => return ()

/-- Bring a key to what a batch function decided for it. No decision leaves it as it is, and so does
the very handle it holds. -/
def settle [DecidableEq (Handle V)] (policy : Policy K V)
    (decided : KeyMap K (Option (Handle V))) (k : K) : Action (Memory K V) (Note K V) Unit :=
  match decided.get? k with
  | none => return ()
  | some none => Action.change fun m => if m.table.contains k then m.takeOut k else m
  | some (some v) => do
    if (← Action.read (·.value? k)) = some v then return ()
    else discard (write policy k v)

/-- End a bulk primitive: settle keys one after the other and list the requested ones. -/
def settleAll (each : K → Action (Memory K V) (Note K V) Unit) (ks requested : List K) :
    Action (Memory K V) (Note K V) (Except BulkError (Computed K V)) := do
  ks.forM each
  return .ok (← Action.read (·.computed requested))

end Memory

/-! ## The store -/

/-- The store in memory whose mappings live as long as a policy grants. -/
def Store.memory {K V : Type} [DecidableEq K] [DecidableEq (Handle V)] (policy : Policy K V) :
    Store (Memory K V) K V where
  get k := do
    Action.change (·.purge k)
    let found ← Action.read (·.table.get? k)
    Action.change fun m => if found.isSome then m.countHit else m.countMiss
    return .ok found
  containsKey k := return .ok (← Action.read (·.live? k)).isSome
  put k v := do
    Action.change (·.purge k)
    return .ok (← Memory.write policy k v)
  remove k := do
    let live := (← Action.read (·.live? k)).isSome
    Action.change fun m => if live then m.takeOut k else m.drop k
    return .ok live
  clear := do
    Action.change fun m => { m with table := {} }
    return .ok ()
  iterate := Action.read fun m => m.table.pairs.map .ok
  bulkComputeIfAbsent ks m :=
    let m := m.purgeAll ks
    let absent := ks.eraseDups.filter fun k => !m.table.contains k
    if absent.isEmpty then .done (.ok (m.computed ks), m)
    else .ask absent fun
      | .error fault => .done (.error (.function fault), m)
      | .ok pairs => .finish (Memory.settleAll (Memory.load policy (.ofList pairs)) absent ks m)
  bulkCompute ks m :=
    let m := m.purgeAll ks
    let keys := ks.eraseDups
    .ask (keys.map fun k => (k, m.value? k)) fun
      | .error fault => .done (.error (.function fault), m)
      | .ok pairs => .finish (Memory.settleAll (Memory.settle policy (.ofList pairs)) keys ks m)
  metrics m := m.metrics

end ResilientCache
