import ResilientCache.Store.Basic

/-!
# Recovery of a store

When a store call fails half-way, the mappings it touched may be left in an unknown state. They are
then removed by force, through the store's own `remove` and `clear`, so that they cannot be served
for ever.
-/

namespace ResilientCache.Store

variable {σ K V : Type}

/-- Remove every mapping. -/
def obliterateAll (store : Store σ K V) : Action σ (Note K V) (Except StoreError Unit) := store.clear

/-- Remove the mapping of a key, if there is one. -/
def obliterate (store : Store σ K V) (k : K) : Action σ (Note K V) (Except StoreError Unit) := do
  return (← store.remove k).map fun _ => ()

/-- Remove the mappings of some keys one after the other; the first failure ends it. -/
def obliterateKeys (store : Store σ K V) : List K → Action σ (Note K V) (Except StoreError Unit)
  | [] => return .ok ()
  | k :: ks => do
    match ← store.obliterate k with
    | .ok () => store.obliterateKeys ks
    | .error e => return .error e

/-- Remove every mapping in a scope. -/
def recover (store : Store σ K V) : Scope K → Action σ (Note K V) (Except StoreError Unit)
  | .key k => store.obliterate k
  | .keys ks => store.obliterateKeys ks
  | .all => store.obliterateAll

end ResilientCache.Store
