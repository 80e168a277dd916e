import ResilientCache.Cache.Single
import ResilientCache.KeyMap

/-!
# Operations on many keys

`putAll`, `removeAll` and `getAll` serve all their keys in one bulk call of the store; repeated keys
are requested once, at their first place. `removeAllEntries` walks the store's raw iteration and
removes one key after the other.

A successful bulk operation adds to the counts of bulk entries: `putAll` what it added and what it
overwrote, `removeAll` what it removed, `getAll` what it found and what it missed.

Headline: `hits_le_length`, so the keys missed are never fewer than none.
-/

namespace ResilientCache.Cache

variable {σ K V α : Type} [DecidableEq K]

/-! ## Writing -/

/-- What `putAll` has still to write, and what it has written so far. -/
structure PutProgress (K V : Type) where
  pending : KeyMap K (Handle V)
  puts : Nat := 0
  updates : Nat := 0

/-- Write the pending value of one key of a batch over what the key holds. A key without a pending
value keeps what it holds. -/
def putPending (c : Cache σ K V) (held : K × Option (Handle V)) :
    Action (PutProgress K V) (Event K V) (K × Option (Handle V)) := do
  let (k, existing) := held
  match (← Action.read PutProgress.pending).get? k with
  | none => return (k, existing)
  | some v =>
    Action.change fun p => { p with pending := p.pending.erase k }
    match ← c.accept k existing v with
    | none => return (k, none)
    | some v =>
      Action.change fun p =>
        if existing.isSome then { p with updates := p.updates + 1 }
        else { p with puts := p.puts + 1 }
      return (k, some v)

/-- Install or overwrite mappings; of several values for a key the last one counts. -/
def putAll (c : Cache σ K V) (entries : List (K × Handle V)) : Op σ K V Unit := do
  checkAvailable
  let keys := (entries.map Prod.fst).eraseDups
  let write := fun batch => return .ok (← batch.mapM c.putPending)
  match ← bulkCall (c.store.bulkCompute keys) write { pending := .ofList entries } with
  | (.ok _, progress) =>
    c.addBulk .putAll (.ofNat progress.puts)
    c.addBulk .updateAll (.ofNat progress.updates)
    c.record (.putAll .success)
  | (.error e, _) => c.resolveBulk (.putAll entries) (.putAll .failure) e

/-! ## Removing -/

/-- Unmap every key of a batch, and count those that held a value. -/
def dropAll (batch : Mappings K V) :
    Action Nat (Event K V) (Except Fault (Mappings K V)) := do
  Action.change (· + (batch.filter (·.2.isSome)).length)
  return .ok (batch.map fun (k, _) => (k, none))

/-- Remove keys. -/
def removeAll (c : Cache σ K V) (ks : List K) : Op σ K V Unit := do
  checkAvailable
  let keys := ks.eraseDups
  match ← bulkCall (c.store.bulkCompute keys) dropAll 0 with
  | (.ok _, removed) =>
    c.addBulk .removeAll (.ofNat removed)
    c.record (.removeAll .success)
  | (.error e, _) => c.resolveBulk (.removeAll keys) (.removeAll .failure) e

/-- The keys of a raw iteration; a step that failed is logged and left out. -/
def rawKeys : List (RawStep K V) → Action (State σ) (Event K V) (List K)
  | [] => return []
  | .ok (k, _) :: rest => return k :: (← rawKeys rest)
  | .error e :: rest => do
    Action.tell (.note (.logged (.skippedEntry e)))
    rawKeys rest

/-- Remove keys one after the other; the first error ends it. -/
def removeEach (c : Cache σ K V) : List K → Op σ K V Unit
  | [] => return ()
  | k :: rest => do
    c.remove k
    c.removeEach rest

/-- Remove every entry that an iteration of the store shows, one key at a time. -/
def removeAllEntries (c : Cache σ K V) : Op σ K V Unit := do
  checkAvailable
  let steps ← c.callStore (·.iterate)
  let keys ← ExceptT.lift (rawKeys steps)
  c.removeEach keys

/-! ## Reading -/

/-- The map of some keys with their values, absent ones only if they are asked for. -/
def collect (includeAbsent : Bool) (found : List (K × Option α)) : KeyMap K (Option α) :=
  .ofList (found.filter fun p => includeAbsent || p.2.isSome)

/-- How many keys of a map have a value. -/
def hits (m : KeyMap K (Option α)) : Nat := (m.values.filter Option.isSome).length

/-- Answer every key of a batch with no value. -/
def answerAbsent (batch : List K) : Action Unit (Event K V) (Except Fault (Mappings K V)) :=
  return .ok (batch.map fun k => (k, none))

/-- Look keys up in one step. With `includeAbsent` every requested key is in the answer, otherwise
only those that are present. -/
def getAllWith (c : Cache σ K V) (ks : List K) (includeAbsent : Bool) :
    Op σ K V (KeyMap K (Option (Handle V))) := do
  checkAvailable
  let keys := ks.eraseDups
  match ← bulkCall (c.store.bulkComputeIfAbsent keys) answerAbsent () with
  | (.ok computed, _) =>
    let found := collect includeAbsent (computed.map fun (k, h) => (k, h.map Holder.value))
    c.addBulk .getAllHits (.ofNat (hits found))
    c.addBulk .getAllMiss (.ofNat (computed.length - hits found))
    c.record (.getAll .success)
    return found
  | (.error e, _) =>
    return collect includeAbsent (← c.resolveBulk (.getAll keys) (.getAll .failure) e)

/-- Every requested key, mapped to `none` when it is absent. -/
def getAll (c : Cache σ K V) (ks : List K) : Op σ K V (KeyMap K (Option (Handle V))) :=
  c.getAllWith ks true

/-- The requested keys that are present. -/
def getAllPresent (c : Cache σ K V) (ks : List K) : Op σ K V (KeyMap K (Handle V)) := do
  return (← c.getAllWith ks false).filterMap fun _ v => v

/-! ## Counting what was found -/

theorem size_insert_le (m : KeyMap K α) (k : K) (a : α) : (m.insert k a).size ≤ m.size + 1 := by
  simpa [KeyMap.size, KeyMap.insert, KeyMap.erase, KeyMap.filter] using List.length_filter_le _ _

theorem size_foldl_insert_le (ps : List (K × α)) (m : KeyMap K α) :
    (ps.foldl (fun m p => m.insert p.1 p.2) m).size ≤ m.size + ps.length := by
  induction ps generalizing m with
  | nil => simp
  | cons p ps ih =>
    have := ih (m.insert p.1 p.2)
    have := size_insert_le m p.1 p.2
    simp only [List.foldl_cons, List.length_cons]
    omega

/-- No more keys are found than the store listed, whatever it listed. -/
theorem hits_le_length (includeAbsent : Bool) (found : List (K × Option α)) :
    hits (collect includeAbsent found) ≤ found.length := by
  refine Nat.le_trans (List.length_filter_le _ _) ?_
  refine Nat.le_trans (m := (found.filter fun p => includeAbsent || p.2.isSome).length) ?_
    (List.length_filter_le _ _)
  simpa [KeyMap.values, KeyMap.size, collect, KeyMap.ofList] using
    size_foldl_insert_le (found.filter fun p => includeAbsent || p.2.isSome) KeyMap.empty

end ResilientCache.Cache
