import ResilientCache.Simulation.Step

/-!
# Sessions

A session runs the steps of a simulation one after the other: on one cache, over one audited store
in memory that stands on a test rig, with a clock that moves only when a step says so.

Everything a step tells is kept except what the simulation was not set up to see: questions to
policies that were not configured, outcomes that are not recorded, consultations of a strategy that
was not scripted, and the runs of plain hooks.
-/

namespace ResilientCache.Simulation

/-- The store's state in a session. -/
abbrev Stand (K : Type) := Rig (Memory K String) K String

/-- The state of a session. -/
structure Session (K : Type) where
  cache : Cache.State (Stand K)
  tally : Tally := .empty
  cursors : KeyMap String (Cursor K String) := {}
  handles : KeyMap String (Handle String) := {}
  hooks : KeyMap String HookScript := {}
  /-- The number of the next new handle. -/
  fresh : Nat := 0

/-- A step under way, which may end with a fault. -/
abbrev Job (K : Type) := ExceptT Fault (Action (Session K) (Report K))

variable {K α : Type}

/-! ## Order -/

section Order

variable [Ord K]

/-- Pairs sorted by key. -/
def sortPairs {β : Type} (ps : List (K × β)) : List (K × β) :=
  ps.mergeSort fun a b => (compare a.1 b.1).isLE

/-- A map's pairs sorted by key. -/
def sortedPairs {β : Type} (m : KeyMap K β) : List (K × β) := sortPairs m.pairs

/-- The steps of a raw iteration sorted by key. -/
def sortSteps {V : Type} (steps : List (RawStep K V)) : List (RawStep K V) :=
  steps.mergeSort fun
    | .ok a, .ok b => (compare a.1 b.1).isLE
    | _, _ => true

end Order

variable [DecidableEq K] [Ord K]

/-! ## The cache of a session -/

namespace Setup

/-- The policy of the store: the one that was configured, if there is a clock. -/
def storePolicy (u : Setup K) : Policy K String :=
  if u.clock.isSome then u.storeExpiry.getD .eternal else .eternal

/-- The store of a session. -/
def store (u : Setup K) : Store (Stand K) K String :=
  ((Store.memory u.storePolicy).faulty sortSteps).audited

/-- The cache of a session, its scripted strategy's handles numbered from `base`. -/
def cache (u : Setup K) (base : Nat) : Cache (Stand K) K String where
  name := u.name
  store := u.store
  strategy := match u.strategy with
    | .robust obliterating => .robust obliterating u.store
    | .propagating => .propagating
    | .scripted script => script.strategy base
  expiry := u.cacheExpiry.getD .eternal

/-- How many handles the strategy of a session may need in one step. -/
def handles (u : Setup K) : Nat :=
  match u.strategy with
  | .scripted script => script.handles
  | _ => 0

/-- A session that has not begun. -/
def start (u : Setup K) : Session K :=
  { cache := { store := { inner := { now := u.clock.getD 0 } } } }

end Setup

namespace Job

/-! ## Running parts -/

/-- Run an action on the state of the cache. -/
def onState (x : Action (Cache.State (Stand K)) (Event K String) α) : Job K α :=
  ExceptT.lift (x.within Session.cache (fun s cache => { s with cache }) .event)

/-- Run an operation of the cache. -/
def onCache (op : Cache.Op (Stand K) K String α) : Job K α := do
  match ← onState op.run with
  | .ok a => return a
  | .error e => throw (.cache e)

/-- Run a call of the store. -/
def onStore (call : Action (Stand K) (Note K String) (Except StoreError α)) : Job K α := do
  match ← onState (Cache.onStore call) with
  | .ok a => return a
  | .error e => throw (.store e)

/-- Run a bulk call of the store, its questions reported and answered by a function. -/
def onBulk {Q : Type} (call : Stand K → BulkCall (Stand K) Q K String) (report : Q → Report K)
    (function : Q → Except Fault (Mappings K String)) : Job K (Computed K String) := do
  let reply (q : Q) : Action Unit (Report K) (Except Fault (Mappings K String)) := do
    Action.tell (report q)
    return function q
  let run : Action (Session K) (Report K) (Except BulkError (Computed K String)) := fun s =>
    let r := (call s.cache.store).run (fun n => .event (.note n)) reply ()
    ⟨r.answer.1, { s with cache.store := r.answer.2 }, r.events⟩
  match ← ExceptT.lift run with
  | .ok computed => return computed
  | .error e => throw (.bulk e)

/-- Something about the session. -/
def see (f : Session K → α) : Job K α := ExceptT.lift (Action.read f)

/-- Change the session. -/
def change (f : Session K → Session K) : Job K Unit := ExceptT.lift (Action.change f)

/-- Change the test rig. -/
def changeRig (f : Stand K → Stand K) : Job K Unit :=
  change fun s => { s with cache.store := f s.cache.store }

/-! ## Handles -/

/-- Numbers for so many new handles; the first of them. -/
def reserve (n : Nat) : Job K Nat := do
  let base ← see Session.fresh
  change fun s => { s with fresh := s.fresh + n }
  return base

/-- The handle of a value. -/
def resolve : ValueRef → Job K (Handle String)
  | .fresh text => return ⟨← reserve 1, text⟩
  | .shared id => do
    match (← see Session.handles).get? id with
    | some h => return h
    | none => return ⟨← reserve 1, ""⟩

/-- The handles of entries. -/
def resolveAll (entries : List (K × ValueRef)) : Job K (List (K × Handle String)) :=
  entries.mapM fun (k, v) => return (k, ← resolve v)

/-- A scripted function with its handles. It may be asked for so many keys. -/
def resolveBatch (b : BatchScript K) (keys : Nat) : Job K (Batch K) := do
  let give ← b.give.mapM fun (k, v) => return (k, ← v.mapM resolve)
  let widened ← see (·.cache.store.widen.length)
  let base ← reserve (keys + widened)
  return { b with give, base }

/-- Keep a handle under a name, if both are there. -/
def keep (id : Option String) (h : Option (Handle String)) : Job K Unit := do
  match id, h with
  | some id, some h => change fun s => { s with handles := s.handles.insert id h }
  | _, _ => return ()

/-- A failed call with its inputs. -/
def resolveCall (inputs : CallInputs K) : FailedOp → Job K (FailedCall K String)
  | .get => return .get inputs.key
  | .containsKey => return .containsKey inputs.key
  | .put => return .put inputs.key (← resolve inputs.value)
  | .remove => return .remove inputs.key
  | .clear => return .clear
  | .iterate => return .iterate
  | .putIfAbsent => return .putIfAbsent inputs.key (← resolve inputs.value)
  | .removeIf => return .removeIf inputs.key (← resolve inputs.value).value
  | .replace => return .replace inputs.key (← resolve inputs.value)
  | .replaceIf =>
    return .replaceIf inputs.key (← resolve inputs.old).value (← resolve inputs.value)
  | .getAll => return .getAll inputs.keys
  | .putAll => return .putAll (← resolveAll inputs.entries)
  | .removeAll => return .removeAll inputs.keys

end Job

/-! ## Answers -/

/-- A value as an answer. -/
def Answer.ofValue (h : Option (Handle String)) : Answer K := .value (h.map Handle.value)

/-- A map of values as an answer. -/
def Answer.ofMap (m : KeyMap K (Option (Handle String))) : Answer K :=
  .pairs ((sortedPairs m).map fun (k, v) => (k, v.map Handle.value))

/-- An entry as an answer. -/
def Answer.ofEntry (e : Entry K String) : Answer K := .entry e.key e.value.value

/-- What a failed call is answered, as an answer. -/
def Answer.ofCall : (call : FailedCall K String) → call.Answer → Answer K
  | .get _, v => .ofValue v
  | .containsKey _, b => .bool b
  | .put _ _, _ => .unit
  | .remove _, _ => .unit
  | .clear, _ => .unit
  | .iterate, e => .ofEntry e
  | .putIfAbsent _ _, v => .ofValue v
  | .removeIf _ _, b => .bool b
  | .replace _ _, v => .ofValue v
  | .replaceIf _ _ _, b => .bool b
  | .getAll _, ps => .pairs (ps.map fun (k, v) => (k, v.map Handle.value))
  | .putAll _, _ => .unit
  | .removeAll _, _ => .unit

namespace Session

/-- What can be seen of a session's cache and store. -/
def snapshot (s : Session K) : Snapshot K where
  lifecycle := s.cache.lifecycle
  bulk := s.cache.bulk.reading
  tally := s.tally.reading
  entries := sortedPairs s.cache.store.inner.table
  size := s.cache.store.inner.size
  isEmpty := s.cache.store.inner.isEmpty
  metrics := s.cache.store.inner.metrics

/-- How each hook of a session ends in each transition. -/
def hookTable (s : Session K) : HookTable := fun hook t =>
  match s.hooks.get? hook with
  | none => .ok ()
  | some script => script.result t

/-- Whether a session is set up to see what was reported. -/
def sees (u : Setup K) (s : Session K) : Report K → Bool
  | .event (.note (.asked .store _)) => u.clock.isSome && u.storeExpiry.isSome
  | .event (.note (.asked .cache _)) => u.cacheExpiry.isSome
  | .event (.recorded _) => u.recording
  | .event (.consulted _ _) => match u.strategy with
    | .scripted _ => true
    | _ => false
  | .event (.hookRan _ hook _) => !((s.hooks.get? hook).any HookScript.plain)
  | _ => true

end Session

/-! ## Steps -/

namespace Step

variable [KeyText K]

/-- Do something with a cursor, if there is one under the name, and keep where it got to. -/
def withCursor (id : String)
    (f : Cursor K String → Action (Cache.State (Stand K)) (Event K String) (α × Cursor K String))
    (answer : α → Job K (Answer K)) : Job K (Answer K) := do
  match (← Job.see Session.cursors).get? id with
  | none => return .noCursor
  | some cur =>
    let (result, cur) ← Job.onState (f cur)
    Job.change fun s => { s with cursors := s.cursors.insert id cur }
    answer result

/-- Go on with the answer of an operation, or end with its error. -/
def settled (answer : α → Answer K) : Except CacheError α → Job K (Answer K)
  | .ok a => return answer a
  | .error e => throw (.cache e)

/-- Carry out a step. -/
def perform (u : Setup K) (step : Step K) : Job K (Answer K) := do
  let c := u.cache (← Job.reserve u.handles)
  match step with
  | init =>
    Job.onCache (Cache.init (← Job.see Session.hookTable))
    return .unit
  | close =>
    Job.onCache (Cache.close (← Job.see Session.hookTable))
    return .unit
  | checkAvailable =>
    Job.onCache Cache.checkAvailable
    return .unit
  | status => return .text (← Job.see (·.cache.lifecycle.status)).name
  | name => return .texts [c.name, c.name]
  | hookCount => return .number (.ofNat (← Job.see (·.cache.lifecycle.hooks.length)))
  | addHook id script =>
    Job.change fun s =>
      let plain := ((s.hooks.get? id).map HookScript.plain).getD script.plain
      { s with hooks := s.hooks.insert id { script with plain } }
    Job.onCache (Cache.addHook id)
    return .unit
  | setHook id script =>
    Job.change fun s => match s.hooks.get? id with
      | none => s
      | some known => { s with hooks := s.hooks.insert id { script with plain := known.plain } }
    return .unit
  | removeHook id => return .bool (← Job.onCache (Cache.removeHook id))
  | get k keep =>
    let found ← Job.onCache (c.get k)
    Job.keep keep found
    return .ofValue found
  | containsKey k => return .bool (← Job.onCache (c.containsKey k))
  | put k v =>
    Job.onCache (c.put k (← Job.resolve v))
    return .unit
  | putIfAbsent k v keep =>
    let existing ← Job.onCache (c.putIfAbsent k (← Job.resolve v))
    Job.keep keep existing
    return .ofValue existing
  | remove k =>
    Job.onCache (c.remove k)
    return .unit
  | removeKey k => return .bool (← Job.onCache (c.removeKey k))
  | removeIf k value => return .bool (← Job.onCache (c.removeIf k (← Job.resolve value).value))
  | replace k v keep =>
    let previous ← Job.onCache (c.replace k (← Job.resolve v))
    Job.keep keep previous
    return .ofValue previous
  | replaceIf k old new =>
    let old ← Job.resolve old
    return .bool (← Job.onCache (c.replaceIf k old.value (← Job.resolve new)))
  | clear =>
    Job.onCache c.clear
    return .unit
  | getAll ks => return .ofMap (← Job.onCache (c.getAll ks))
  | getAllPresent ks =>
    let found ← Job.onCache (c.getAllPresent ks)
    return .pairs ((sortedPairs found).map fun (k, v) => (k, some v.value))
  | getAllWith ks includeAbsent => return .ofMap (← Job.onCache (c.getAllWith ks includeAbsent))
  | putAll entries =>
    Job.onCache (c.putAll (← Job.resolveAll entries))
    return .unit
  | removeAll ks =>
    Job.onCache (c.removeAll ks)
    return .unit
  | removeAllEntries =>
    Job.onCache c.removeAllEntries
    return .unit
  | loadAll ks replaceExisting loader =>
    let batch ← Job.resolveBatch loader ks.length
    return .ofMap (← Job.onCache (c.loadAll ks replaceExisting batch.loader))
  | iterate id quiet =>
    let cur ← Job.onCache (c.iterate quiet)
    Job.change fun s => { s with cursors := s.cursors.insert id cur }
    return .unit
  | hasNext id =>
    withCursor id (fun cur => do return (← (cur.hasNext : Cache.Op _ K String Bool).run, cur))
      (settled .bool)
  | nextEntry id => withCursor id (·.nextEntry c) (settled .ofEntry)
  | next id =>
    withCursor id (·.step c) fun
      | none => return .ended
      | some result => settled .ofEntry result
  | removeCurrent id => withCursor id (·.remove c) (settled fun _ => .unit)
  | drain id =>
    withCursor id (·.drain c) fun results =>
      return .walk (results.map fun r => r.map fun e => (e.key, e.value.value))
  | bulkEntries => return .bulk (← Job.see (·.cache.bulk.reading))
  | addBulk kind n =>
    Job.onState (c.addBulk kind n)
    return .bulk (← Job.see (·.cache.bulk.reading))
  | record o =>
    Job.onState (c.record o)
    return .unit
  | deadOnArrival k value old =>
    let old? ← old.mapM Job.resolve
    let new ← Job.resolve value
    return .bool (← Job.onState (c.deadOnArrival k (old?.map Handle.value) new.value))
  | lifetime k value old =>
    let old? ← old.mapM Job.resolve
    let new ← Job.resolve value
    let q := .ofWrite k (old?.map Handle.value) new.value
    Job.onState (Action.tell (.note (.asked .cache q)))
    match c.expiry.answer q with
    | .ok granted => return .lifetime granted
    | .error fault => throw fault
  | consult op inputs e =>
    let call ← Job.resolveCall inputs op
    return .ofCall call (← Job.onCache (c.consult call e))
  | storeGet k =>
    let found ← Job.onStore (u.store.get k)
    let now ← Job.see (·.cache.store.inner.now)
    return .held (found.map fun h => (h, h.isExpired now))
  | storeContains k => return .bool (← Job.onStore (u.store.containsKey k))
  | storePut k v => return .text (← Job.onStore (u.store.put k (← Job.resolve v))).name
  | storeRemove k => return .bool (← Job.onStore (u.store.remove k))
  | storeClear =>
    Job.onStore u.store.clear
    return .unit
  | storeIterate => return .steps (← Job.onState (Cache.onStore u.store.iterate))
  | storeMetrics =>
    let stand ← Job.see (·.cache.store)
    return .metrics (u.store.metrics stand) stand.inner.metrics
  | storeLoad ks function =>
    let batch ← Job.resolveBatch function ks.length
    return .computed (← Job.onBulk (u.store.bulkComputeIfAbsent ks) .keysAsked batch.replyToKeys)
  | storeCompute ks function =>
    let batch ← Job.resolveBatch function ks.length
    return .computed (← Job.onBulk (u.store.bulkCompute ks) .mappingsAsked batch.replyToMappings)
  | obliterate k =>
    Job.onStore (u.store.obliterate k)
    return .unit
  | obliterateKeys ks =>
    Job.onStore (u.store.obliterateKeys ks)
    return .unit
  | obliterateAll =>
    Job.onStore u.store.obliterateAll
    return .unit
  | moveClock move =>
    if u.clock.isSome then
      Job.changeRig fun rig => { rig with inner.now := rig.inner.now.move move }
    return .number (← Job.see (·.cache.store.inner.now))
  | now => return .number (← Job.see (·.cache.store.inner.now))
  | fail op o =>
    Job.changeRig (·.setOutage op (some o))
    return .unit
  | heal op =>
    Job.changeRig fun rig => match op with
      | some op => rig.setOutage op none
      | none => { rig with outage := fun _ => none }
    return .unit
  | phantom k v =>
    let v ← Job.resolve v
    Job.changeRig fun rig => { rig with phantoms := rig.phantoms ++ [(k, v)] }
    return .unit
  | breaks bs =>
    Job.changeRig fun rig => { rig with breaks := bs }
    return .unit
  | widen ks =>
    Job.changeRig fun rig => { rig with widen := ks }
    return .unit
  | bare on =>
    Job.changeRig fun rig => { rig with bare := on }
    return .unit
  | handle id v =>
    Job.keep (some id) (some (← Job.resolve v))
    return .unit
  | state => return .snapshot (← Job.see Session.snapshot)
  | describe subject cursor =>
    let s ← Job.see id
    match subject with
    | .cursor => match s.cursors.get? cursor with
      | none => return .noCursor
      | some cur => return .text cur.describe
    | .base => return .text (c.describeBase s.cache)
    | .cache => return .text (c.describe s.cache)
    | .lifecycle => return .text s.cache.lifecycle.describe
    | .store =>
      return .text (Store.describe s.cache.store.inner.rawSize s.cache.store.inner.metrics)
    | .recovery => return .text Store.describeRecovery

end Step

/-! ## Runs -/

namespace Session

variable [KeyText K]

/-- The outcomes among reports, in order. -/
def outcomes (reports : List (Report K)) : List Outcome :=
  reports.filterMap fun
    | .event (.recorded o) => some o
    | _ => none

/-- Run one step. Outcomes that are seen are counted. -/
def advance (u : Setup K) (s : Session K) (step : Step K) : StepResult K × Session K :=
  let r := (step.perform u).run s
  let seen := r.events.filter (r.state.sees u)
  (⟨r.answer, seen⟩, { r.state with tally := r.state.tally.recordAll (outcomes seen) })

/-- Run steps one after the other. -/
def run (u : Setup K) (s : Session K) : List (Step K) → List (StepResult K) × Session K
  | [] => ([], s)
  | step :: rest =>
    let (result, s) := s.advance u step
    let (results, s) := run u s rest
    (result :: results, s)

end Session

/-- Run a simulation: the result of every step, and what can be seen at the end. -/
def Setup.simulate [KeyText K] (u : Setup K) (steps : List (Step K)) :
    List (StepResult K) × Snapshot K :=
  let s := if u.warm then (u.start.advance u .init).2 else u.start
  let (results, s) := s.run u steps
  (results, s.snapshot)

end ResilientCache.Simulation
