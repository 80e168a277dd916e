import ResilientCache.Cache.Basic

/-!
# Operations on one key

Reads (`get`, `containsKey`) and `remove` are one plain call of the store. The writes that depend on
what the key holds (`put`, `putIfAbsent`, `removeIf`, `replace`, `replaceIf`) are one bulk call for
the single key, whose function decides what the key shall hold: `none` unmaps it, and the handle it
holds leaves it as it is.

A value that is dead on arrival under the cache's policy is never written; what the key held is
removed in its place.
-/

namespace ResilientCache.Cache

variable {σ τ K V : Type}

/-! ## Reads -/

/-- The value of a key. Only an observed read records an outcome. -/
def lookup (c : Cache σ K V) (k : K) (observed : Bool) : Op σ K V (Option (Handle V)) := do
  checkAvailable
  match ← c.callStore (·.get k) with
  | .ok (some h) =>
    if observed then c.record (.get .hit)
    return some h.value
  | .ok none =>
    if observed then c.record (.get .miss)
    return none
  | .error e => if observed then c.resolve (.get k) (.get .failure) e else c.consult (.get k) e

/-- The value of a key. -/
def get (c : Cache σ K V) (k : K) : Op σ K V (Option (Handle V)) := c.lookup k true

/-- Whether a key is mapped. No outcome is recorded. -/
def containsKey (c : Cache σ K V) (k : K) : Op σ K V Bool := do
  checkAvailable
  match ← c.callStore (·.containsKey k) with
  | .ok present => return present
  | .error e => c.consult (.containsKey k) e

/-! ## Removal -/

/-- Remove a key; whether a mapping was removed. -/
def removeKey (c : Cache σ K V) (k : K) : Op σ K V Bool := do
  checkAvailable
  match ← c.callStore (·.remove k) with
  | .ok true =>
    c.record (.remove .success)
    return true
  | .ok false =>
    c.record (.remove .noop)
    return false
  | .error e =>
    c.resolve (.remove k) (.remove .failure) e
    return false

/-- Remove a key. -/
def remove (c : Cache σ K V) (k : K) : Op σ K V Unit := do
  let _ ← c.removeKey k
  return ()

/-- Remove every mapping. -/
def clear (c : Cache σ K V) : Op σ K V Unit := do
  checkAvailable
  match ← c.callStore (·.clear) with
  | .ok () => c.record (.clear .success)
  | .error e => c.resolve .clear (.clear .failure) e

/-! ## Writes -/

/-- The handle to write over what a key holds: none if its value is dead on arrival. -/
def accept (c : Cache σ K V) (k : K) (old? : Option (Handle V)) (v : Handle V) :
    Action τ (Event K V) (Option (Handle V)) := do
  return if ← c.deadOnArrival k (old?.map (·.value)) v.value then none else some v

@[simp] theorem accept_answer (c : Cache σ K V) (k : K) (old? : Option (Handle V)) (v : Handle V)
    (t : τ) :
    (c.accept k old? v t).answer =
      if c.expiry.granted (.ofWrite k (old?.map (·.value)) v.value) = some .zero then none
      else some v := by
  simp [accept, deadOnArrival, Action.within]

@[simp] theorem accept_state (c : Cache σ K V) (k : K) (old? : Option (Handle V)) (v : Handle V)
    (t : τ) : (c.accept k old? v t).state = t := by
  simp [accept, deadOnArrival, Action.within]

/-- Install or overwrite the mapping of a key. -/
def put (c : Cache σ K V) (k : K) (v : Handle V) : Op σ K V Unit := do
  checkAvailable
  match ← c.computeOne k (c.accept k · v) () with
  | (.ok (some _), _) => c.record (.put .put)
  | (.ok none, _) => c.record (.put .noop)
  | (.error e, _) => c.resolveBulk (.put k v) (.put .failure) e

/-- Keep what a key holds and remember it; write if it holds nothing. -/
def keepOrAccept (c : Cache σ K V) (k : K) (v : Handle V) :
    Option (Handle V) → Action (Option (Handle V)) (Event K V) (Option (Handle V))
  | some current => do
    Action.set (some current)
    return some current
  | none => c.accept k none v

/-- Install a mapping unless the key has one. Answers with the value that was there; `none` means
that this call installed its own, or tried to. -/
def putIfAbsent (c : Cache σ K V) (k : K) (v : Handle V) : Op σ K V (Option (Handle V)) := do
  checkAvailable
  match ← c.computeOne k (c.keepOrAccept k v) none with
  | (.ok _, existing) =>
    c.record (.putIfAbsent (if existing.isSome then .hit else .put))
    return existing
  | (.error e, _) => c.resolveBulk (.putIfAbsent k v) (.putIfAbsent .failure) e

/-- Write over what a key holds and remember it; leave it unmapped if it holds nothing. -/
def acceptOver (c : Cache σ K V) (k : K) (v : Handle V) :
    Option (Handle V) → Action (Option (Handle V)) (Event K V) (Option (Handle V))
  | none => return none
  | some current => do
    let next ← c.accept k (some current) v
    Action.set (some current)
    return next

/-- Replace the value of a key if it is mapped. Answers with the value that was there. -/
def replace (c : Cache σ K V) (k : K) (v : Handle V) : Op σ K V (Option (Handle V)) := do
  checkAvailable
  match ← c.computeOne k (c.acceptOver k v) none with
  | (.ok _, previous) =>
    c.record (.replace (if previous.isSome then .hit else .missNotPresent))
    return previous
  | (.error e, _) => c.resolveBulk (.replace k v) (.replace .failure) e

variable [BEq V]

/-- Unmap a key that holds a value equal to the given one, and note how the comparison went. -/
def dropEqual (value : V) :
    Option (Handle V) → Action Outcome.ConditionalRemove (Event K V) (Option (Handle V))
  | none => do
    Action.set .failureKeyMissing
    return none
  | some current => do
    if current.value == value then
      Action.set .success
      return none
    else
      Action.set .failureKeyPresent
      return some current

/-- Remove a key only while it maps to a value equal to the given one; whether it was removed. -/
def removeIf (c : Cache σ K V) (k : K) (value : V) : Op σ K V Bool := do
  checkAvailable
  match ← c.computeOne k (dropEqual value) .failureKeyMissing with
  | (.ok _, outcome) =>
    c.record (.conditionalRemove outcome)
    return outcome = .success
  | (.error e, _) => c.resolveBulk (.removeIf k value) (.conditionalRemove .failure) e

/-- Write over a value equal to the given one, and note how the comparison went. -/
def acceptEqual (c : Cache σ K V) (k : K) (old : V) (new : Handle V) :
    Option (Handle V) → Action Outcome.Replace (Event K V) (Option (Handle V))
  | none => do
    Action.set .missNotPresent
    return none
  | some current => do
    if current.value == old then
      Action.set .hit
      c.accept k (some current) new
    else
      Action.set .missPresent
      return some current

/-- Replace the value of a key only while it is equal to the given one; whether it was replaced. -/
def replaceIf (c : Cache σ K V) (k : K) (old : V) (new : Handle V) : Op σ K V Bool := do
  checkAvailable
  match ← c.computeOne k (c.acceptEqual k old new) .missNotPresent with
  | (.ok _, outcome) =>
    c.record (.replace outcome)
    return outcome = .hit
  | (.error e, _) => c.resolveBulk (.replaceIf k old new) (.replace .failure) e

end ResilientCache.Cache
