import ResilientCache.Cache.Single

/-!
# Iterating over a cache

A `Cursor` walks the raw iteration that the store gave when the cursor was made, one entry ahead of
its caller. A raw entry is offered only if looking its key up still finds a value, so mappings that
expired or were removed since are skipped.

A failure met on the way is held back and surfaces from the next call of `nextEntry`, which ends the
walk. A failed raw step is decided by the failure strategy when it surfaces; a failed look-up was
already decided when it was met.

`step` is the same walk as a sequence: it ends where there are no more entries and after the first
error.
-/

namespace ResilientCache

/-- A failure that a cursor holds back. -/
inductive HeldBack
  /-- The raw iteration failed; the strategy has not seen it yet. -/
  | raw (e : StoreError)
  /-- Looking a key up failed, and the strategy has decided. -/
  | decided (e : CacheError)
deriving DecidableEq

/-- What a cursor has found ahead of its caller. -/
inductive Lookahead (K V : Type)
  | nothing
  | entry (e : Entry K V)
  | failure (held : HeldBack)

namespace Lookahead

/-- Whether there is anything ahead. -/
def isSome {K V : Type} : Lookahead K V → Bool
  | nothing => false
  | _ => true

/-- Whether a failure is ahead. -/
def isFailure {K V : Type} : Lookahead K V → Bool
  | failure _ => true
  | _ => false

end Lookahead

/-- A walk over the entries of a cache. -/
structure Cursor (K V : Type) where
  /-- What is left of the raw iteration. -/
  raw : List (RawStep K V)
  ahead : Lookahead K V := .nothing
  /-- The key of the entry that was offered last, until it is removed. -/
  current : Option K := none
  /-- A quiet walk records no outcomes. -/
  quiet : Bool
  terminated : Bool := false

namespace Cursor

variable {σ K V : Type}

/-- Look along raw steps for an entry that is still live, or a failure. -/
def seek (c : Cache σ K V) (cur : Cursor K V) :
    List (RawStep K V) → Action (Cache.State σ) (Event K V) (Cursor K V)
  | [] => return { cur with raw := [], ahead := .nothing }
  | .error e :: rest => return { cur with raw := rest, ahead := .failure (.raw e) }
  | .ok (k, _) :: rest => do
    match ← (c.lookup k false).run with
    | .ok (some v) => return { cur with raw := rest, ahead := .entry ⟨k, v⟩ }
    | .ok none => seek c cur rest
    | .error e => return { cur with raw := rest, ahead := .failure (.decided e) }

/-- Whether `nextEntry` will offer an entry or surface a failure. -/
def hasNext (cur : Cursor K V) : Cache.Op σ K V Bool := do
  Cache.checkAvailable
  return !cur.terminated && cur.ahead.isSome

/-- Surface a failure that was held back, and end the walk. -/
def surface (c : Cache σ K V) (cur : Cursor K V) (held : HeldBack) :
    Action (Cache.State σ) (Event K V) (Except CacheError (Entry K V) × Cursor K V) := do
  if !cur.quiet then c.record (.get .failure)
  let decision ← match held with
    | .raw e => (c.consult .iterate e).run
    | .decided e => pure (.error e)
  return (decision, { cur with ahead := .nothing, current := none, terminated := true })

/-- Offer an entry, and look for the one after it. -/
def offer (c : Cache σ K V) (cur : Cursor K V) (e : Entry K V) :
    Action (Cache.State σ) (Event K V) (Except CacheError (Entry K V) × Cursor K V) := do
  if !cur.quiet then c.record (.get .hit)
  return (.ok e, ← seek c { cur with current := some e.key } cur.raw)

/-- The next entry of a walk, or the failure that was held back. -/
def nextEntry (c : Cache σ K V) (cur : Cursor K V) :
    Action (Cache.State σ) (Event K V) (Except CacheError (Entry K V) × Cursor K V) := do
  match ← (Cache.checkAvailable : Cache.Op σ K V Unit).run with
  | .error e => return (.error e, cur)
  | .ok () =>
    if cur.terminated then return (.error .noSuchElement, cur)
    match cur.ahead with
    | .nothing => return (.error .noSuchElement, cur)
    | .entry e => cur.offer c e
    | .failure held => cur.surface c held

/-- Remove the entry that was offered last. -/
def remove (c : Cache σ K V) (cur : Cursor K V) :
    Action (Cache.State σ) (Event K V) (Except CacheError Unit × Cursor K V) := do
  match ← (Cache.checkAvailable : Cache.Op σ K V Unit).run, cur.current with
  | .error e, _ => return (.error e, cur)
  | .ok (), none =>
    return (.error (.illegalState "remove() needs a preceding call to next_entry()"), cur)
  | .ok (), some k => return (← (c.remove k).run, { cur with current := none })

/-- The walk as a sequence: nothing after the last entry, and nothing after the first error. -/
def step (c : Cache σ K V) (cur : Cursor K V) :
    Action (Cache.State σ) (Event K V) (Option (Except CacheError (Entry K V)) × Cursor K V) := do
  if cur.terminated then return (none, cur)
  match ← cur.nextEntry c with
  | (.ok entry, cur) => return (some (.ok entry), cur)
  | (.error .noSuchElement, cur) => return (none, cur)
  | (.error e, cur) => return (some (.error e), { cur with terminated := true })

/-- At most so many steps of a walk, up to its end. -/
def take (c : Cache σ K V) : Nat → Cursor K V →
    Action (Cache.State σ) (Event K V) (List (Except CacheError (Entry K V)) × Cursor K V)
  | 0, cur => return ([], cur)
  | n + 1, cur => do
    match ← cur.step c with
    | (none, cur) => return ([], cur)
    | (some result, cur) =>
      let (results, cur) ← take c n cur
      return (result :: results, cur)

/-- How many steps a walk can still make: one per raw step, and one for what is looked ahead. -/
def stepBound (cur : Cursor K V) : Nat := cur.raw.length + 2

/-- Everything that is left of a walk. -/
def drain (c : Cache σ K V) (cur : Cursor K V) :
    Action (Cache.State σ) (Event K V) (List (Except CacheError (Entry K V)) × Cursor K V) :=
  take c cur.stepBound cur

end Cursor

/-- Begin a walk over the live entries of a cache. -/
def Cache.iterate {σ K V : Type} (c : Cache σ K V) (quiet : Bool) : Op σ K V (Cursor K V) := do
  checkAvailable
  let raw ← c.callStore (·.iterate)
  ExceptT.lift (Cursor.seek c { raw, quiet } raw)

end ResilientCache
