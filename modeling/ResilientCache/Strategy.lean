import ResilientCache.Store.Recovery

/-!
# Failure strategies

Whenever a store call fails, the cache hands the failed call and the error to its `Strategy` and
returns whatever the strategy decides: an answer, given to the caller as if the operation had
succeeded, or an error.

* `Strategy.robust` degrades: it removes the mappings that the failure has put in doubt (unless it
  is told to leave the store alone), logs, and answers a miss, `false` or nothing.
* `Strategy.propagating` surfaces every failure.

An iteration cannot invent an entry, so both end a failed iteration with an error.
-/

namespace ResilientCache

variable {σ K V : Type}

/-- Decides what a failed store call is answered. It may act on the store and log. -/
abbrev Strategy (σ K V : Type) :=
  (call : FailedCall K V) → StoreError → Action σ (Note K V) (Except CacheError call.Answer)

namespace Strategy

/-- Clean up after a failure in some scope, and log how that went. -/
def cleanup (obliterating : Bool) (store : Store σ K V) (scope : Scope K) (e : StoreError) :
    Action σ (Note K V) Unit := do
  if obliterating then
    match ← store.recover scope with
    | .ok () => Action.tell (.logged (.recovered scope e))
    | .error second => Action.tell (.logged (.inconsistent scope e second))
  else Action.tell (.logged (.degraded scope e))

/-- Clean up, log and answer as little as the operation allows. With `obliterating` the mappings in
doubt are removed from the store, without it the store is left alone. -/
def robust (obliterating : Bool) (store : Store σ K V) : Strategy σ K V
  | .get k, e => do cleanup obliterating store (.key k) e; return .ok none
  | .containsKey k, e => do cleanup obliterating store (.key k) e; return .ok false
  | .put k _, e => do cleanup obliterating store (.key k) e; return .ok ()
  | .remove k, e => do cleanup obliterating store (.key k) e; return .ok ()
  | .clear, e => do cleanup obliterating store .all e; return .ok ()
  | .iterate, e => do Action.tell (.logged (.iterationFailed e)); return .error (.iteration e)
  | .putIfAbsent k _, e => do cleanup obliterating store (.key k) e; return .ok none
  | .removeIf k _, e => do cleanup obliterating store (.key k) e; return .ok false
  | .replace k _, e => do cleanup obliterating store (.key k) e; return .ok none
  | .replaceIf k _ _, e => do cleanup obliterating store (.key k) e; return .ok false
  | .getAll ks, e => do
    cleanup obliterating store (.keys ks) e
    return .ok (ks.map fun k => (k, none))
  | .putAll entries, e => do
    cleanup obliterating store (.keys (entries.map Prod.fst)) e
    return .ok ()
  | .removeAll ks, e => do cleanup obliterating store (.keys ks) e; return .ok ()

/-- Surface every failure as it is. -/
def propagating : Strategy σ K V
  | .iterate, e => return .error (.iteration e)
  | _, e => return .error (.store e)

end Strategy

end ResilientCache
