import ResilientCache.Describe
import ResilientCache.Simulation.Script
import ResilientCache.Store.Audit
import ResilientCache.Store.Faulty
import ResilientCache.Store.Memory

/-!
# Steps of a simulation

A simulation is set up by a `Setup` and driven by `Step`s. A step is answered by an `Answer` or a
fault, and what happened during it is a list of `Report`s.
-/

namespace ResilientCache.Simulation

variable {K : Type}

/-! ## Setting up -/

/-- Which failure strategy a simulated cache has. -/
inductive StrategyChoice (K : Type)
  | robust (obliterating : Bool)
  | propagating
  | scripted (script : StrategyScript K)

/-- How a simulation is set up. -/
structure Setup (K : Type) where
  name : String := "cache"
  /-- Where the clock starts, if the simulation has one. Without a clock nothing ever expires. -/
  clock : Option Instant := none
  storeExpiry : Option (Policy K String) := none
  cacheExpiry : Option (Policy K String) := none
  strategy : StrategyChoice K := .robust true
  /-- Whether the recorded outcomes are seen and counted. -/
  recording : Bool := true
  /-- Whether the cache is made available before the first step. -/
  warm : Bool := true

/-! ## Steps -/

/-- The inputs of a failed call. Each kind of call uses those it has. -/
structure CallInputs (K : Type) where
  key : K
  value : ValueRef := .fresh ""
  old : ValueRef := .fresh ""
  keys : List K := []
  entries : List (K × ValueRef) := []

/-- What can be asked to describe itself. -/
inductive Subject
  | cursor | base | cache | lifecycle | store | recovery
deriving DecidableEq, Repr

/-- A step of a simulation. -/
inductive Step (K : Type)
  -- the cache's life
  | init
  | close
  | checkAvailable
  | status
  | name
  | hookCount
  | addHook (id : String) (script : HookScript)
  | setHook (id : String) (script : HookScript)
  | removeHook (id : String)
  -- one key
  | get (k : K) (keep : Option String)
  | containsKey (k : K)
  | put (k : K) (v : ValueRef)
  | putIfAbsent (k : K) (v : ValueRef) (keep : Option String)
  | remove (k : K)
  | removeKey (k : K)
  | removeIf (k : K) (value : ValueRef)
  | replace (k : K) (v : ValueRef) (keep : Option String)
  | replaceIf (k : K) (old new : ValueRef)
  -- many keys
  | clear
  | getAll (ks : List K)
  | getAllPresent (ks : List K)
  | getAllWith (ks : List K) (includeAbsent : Bool)
  | putAll (entries : List (K × ValueRef))
  | removeAll (ks : List K)
  | removeAllEntries
  | loadAll (ks : List K) (replaceExisting : Bool) (loader : BatchScript K)
  -- iteration
  | iterate (id : String) (quiet : Bool)
  | hasNext (id : String)
  | nextEntry (id : String)
  | next (id : String)
  | removeCurrent (id : String)
  | drain (id : String)
  -- counters, policy and strategy of the cache
  | bulkEntries
  | addBulk (kind : BulkKind) (n : UInt64)
  | record (o : Outcome)
  | deadOnArrival (k : K) (value : ValueRef) (old : Option ValueRef)
  | lifetime (k : K) (value : ValueRef) (old : Option ValueRef)
  | consult (op : FailedOp) (inputs : CallInputs K) (e : StoreError)
  -- the store itself
  | storeGet (k : K)
  | storeContains (k : K)
  | storePut (k : K) (v : ValueRef)
  | storeRemove (k : K)
  | storeClear
  | storeIterate
  | storeMetrics
  | storeLoad (ks : List K) (function : BatchScript K)
  | storeCompute (ks : List K) (function : BatchScript K)
  | obliterate (k : K)
  | obliterateKeys (ks : List K)
  | obliterateAll
  -- the surroundings
  | moveClock (move : ClockMove)
  | now
  | fail (op : StoreOp) (o : Outage)
  | heal (op : Option StoreOp)
  | phantom (k : K) (v : ValueRef)
  | breaks (bs : List Break)
  | widen (ks : List K)
  | bare (on : Bool)
  | handle (id : String) (v : ValueRef)
  | state
  | describe (subject : Subject) (cursor : String)

/-! ## Answers -/

/-- What can be seen of a cache and its store. -/
structure Snapshot (K : Type) where
  lifecycle : Lifecycle
  bulk : BulkCounts
  tally : Tally
  /-- Everything the store holds, sorted by key. -/
  entries : List (K × Holder String)
  size : Nat
  isEmpty : Bool
  metrics : Metrics

/-- What a step is answered. -/
inductive Answer (K : Type)
  | unit
  | bool (b : Bool)
  | text (s : String)
  | texts (ss : List String)
  | number (n : UInt64)
  | value (v : Option String)
  | pairs (ps : List (K × Option String))
  | entry (k : K) (value : String)
  | ended
  | noCursor
  | walk (results : List (Except CacheError (K × String)))
  | steps (raw : List (RawStep K String))
  | held (h : Option (Holder String × Bool))
  | computed (result : Computed K String)
  | bulk (c : BulkCounts)
  | lifetime (d : Option Duration)
  | metrics (shown own : Metrics)
  | snapshot (s : Snapshot K)

/-! ## Reports -/

/-- One thing that happened during a step. -/
inductive Report (K : Type)
  /-- The cache told something. -/
  | event (e : Event K String)
  /-- A batch function was called with keys. -/
  | keysAsked (ks : List K)
  /-- A batch function was called with keys and their current values. -/
  | mappingsAsked (batch : Mappings K String)

/-- What came of a step: its answer or fault, and what was seen to happen. -/
structure StepResult (K : Type) where
  answer : Except Fault (Answer K)
  reports : List (Report K)

end ResilientCache.Simulation
