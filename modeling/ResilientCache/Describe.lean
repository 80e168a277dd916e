import ResilientCache.Cache.Cursor

/-!
# Descriptions

The parts of a cache describe themselves for debugging, in one form: the name of what is described,
and its fields between braces. A description that leaves fields out ends with two dots.
-/

namespace ResilientCache

/-- A description: a name and its fields; `complete` if no field is left out. -/
def description (name : String) (fields : List (String × String)) (complete : Bool) : String :=
  let items := fields.map (fun (field, text) => field ++ ": " ++ text)
  name ++ " \x7b " ++ ", ".intercalate (if complete then items else items ++ [".."]) ++ " \x7d"

/-- A list of counters in a description. -/
def describeCounters (counts : List UInt64) : String :=
  bracketed (counts.map fun n => toString n.toNat)

namespace Status

/-- How a status is described. -/
def describe : Status → String
  | uninitialized => "Uninitialized"
  | available => "Available"
  | closed => "Closed"

end Status

namespace Lifecycle

/-- How a lifecycle is described. -/
def describe (l : Lifecycle) : String :=
  description "StatusTransitioner"
    [("status", l.status.describe), ("hooks", toString l.hooks.length)] true

end Lifecycle

namespace BulkCounts

/-- The counts in the order of the kinds, as a description's field. -/
def describeFields (c : BulkCounts) : List (String × String) :=
  [("counts", describeCounters (BulkKind.all.map c.get))]

/-- How the counters of bulk entries are described. -/
def describe (c : BulkCounts) : String := description "BulkMethodEntries" c.describeFields true

/-- How a reading of the counters of bulk entries is described. -/
def describeReading (c : BulkCounts) : String :=
  description "BulkEntriesSnapshot" c.describeFields true

end BulkCounts

namespace Tally

/-- How a tally is described: a reading of its whole table. -/
def describe (t : Tally) : String :=
  description "OutcomeCounters" [("snapshot", description "OutcomeSnapshot"
    [("counts", bracketed (t.reading.cells.toList.map fun row =>
      describeCounters row.toList))] true)] true

end Tally

namespace Cache

variable {σ K V : Type}

/-- How what all caches have in common is described. -/
def describeBase (c : Cache σ K V) (s : State σ) : String :=
  description "CacheBase" [("name", quote c.name), ("status", s.lifecycle.describe),
    ("bulk_entries", s.bulk.describe)] false

/-- How a cache is described. -/
def describe (c : Cache σ K V) (s : State σ) : String :=
  description "Cache" [("base", c.describeBase s)] true

end Cache

/-- How a truth value is described. -/
def describeBool : Bool → String
  | true => "true"
  | false => "false"

namespace Cursor

/-- How a cursor is described. -/
def describe {K V : Type} [KeyText K] (cur : Cursor K V) : String :=
  description "CacheEntryIter" [
    ("current", match cur.current with
      | none => "None"
      | some k => "Some(" ++ KeyText.shown k ++ ")"),
    ("pending_failure", describeBool cur.ahead.isFailure),
    ("quiet", describeBool cur.quiet),
    ("terminated", describeBool cur.terminated)] false

end Cursor

namespace Metrics

/-- How a store's counters are described. -/
def describe (m : Metrics) : String :=
  description "StoreMetrics" (m.reading.map fun (name, n) => (name, toString n.toNat)) true

end Metrics

namespace Store

/-- How a store that holds so many mappings is described. -/
def describe (held : Nat) (m : Metrics) : String :=
  description "HashMapStore" [("entries", toString held), ("metrics", m.describe)] true

/-- How the recovery of a store is described. -/
def describeRecovery : String := description "StoreRecovery" [] false

end Store

namespace Strategy

/-- How the robust strategy is described. -/
def describeRobust (obliterating : Bool) : String :=
  description "RobustResilienceStrategy" [("obliterate", describeBool obliterating)] false

/-- How the propagating strategy is described. -/
def describePropagating : String := "PropagatingResilienceStrategy"

end Strategy

end ResilientCache
