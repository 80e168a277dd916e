import ResilientCache.Cache.Bulk

/-!
# Bulk loading

`loadAll` brings values into the store from a loader. In absent-only mode the loader is handed the
keys without a mapping; in replacing mode it is handed every key and what it answers overwrites what
was there. Either way the loader runs within one step of the store.

A loader may answer more or fewer keys than it was asked for: `normalize` brings its answer back to
exactly the batch. A load that fails, in the loader or in the store, is a loading error; it neither
consults the failure strategy nor records an outcome.
-/

namespace ResilientCache

variable {σ K V : Type} [DecidableEq K]

/-- Finds the values of a batch of keys, or fails. -/
abbrev Loader (K V : Type) := List K → Except Fault (KeyMap K (Handle V))

/-- A loader's answer for exactly some keys, in their order; `none` for keys it left out. -/
def normalize (ks : List K) (loaded : KeyMap K (Handle V)) : Mappings K V :=
  ks.map fun k => (k, loaded.get? k)

namespace Cache

/-- Call a loader with a batch of keys and normalize its answer. -/
def callLoader (loader : Loader K V) (batch : List K) :
    Action Unit (Event K V) (Except Fault (Mappings K V)) := do
  Action.tell (.loaderCalled batch)
  return (loader batch).map (normalize batch)

/-- Load keys into the store. Every requested key is in the answer, with its resulting value. -/
def loadAll (c : Cache σ K V) (ks : List K) (replaceExisting : Bool) (loader : Loader K V) :
    Op σ K V (KeyMap K (Option (Handle V))) := do
  checkAvailable
  if ks.isEmpty then return .empty
  let load := callLoader loader
  let (result, _) ←
    if replaceExisting then
      bulkCall (c.store.bulkCompute ks) (fun batch => load (batch.map Prod.fst)) ()
    else bulkCall (c.store.bulkComputeIfAbsent ks) load ()
  match result with
  | .ok computed => return .ofList (computed.map fun (k, h) => (k, h.map Holder.value))
  | .error e => throw (.ofBulk e)

end Cache

end ResilientCache
