import ResilientCache.Tally

/-!
# Text exposition of the counters

A counter is exposed to a monitoring system as a family of samples: a line that gives the family's
name and type, then a line per sample with its labels and its value. Label values are written as
they are, without quoting.
-/

namespace ResilientCache

/-- Who exposes counters: a prefix for the names of families, and the cache they belong to. -/
structure Exposition where
  namePrefix : String
  cache : String

namespace Exposition

/-- The name of a family: the prefix, if there is one, an underscore and the family's own name. -/
def familyName (x : Exposition) (own : String) : String :=
  if x.namePrefix.isEmpty then own else x.namePrefix ++ "_" ++ own

/-- One `name="value"` item of a sample. -/
def label (name value : String) : String := name ++ "=\"" ++ value ++ "\""

/-- A sample: the family's name, the labels in braces, and the value. -/
def sample (family : String) (labels : List String) (value : UInt64) : String :=
  family ++ "\x7b" ++ ",".intercalate labels ++ "\x7d " ++ toString value.toNat ++ "\n"

/-- A family of samples under its type line. -/
def family (name : String) (samples : List (List String × UInt64)) : String :=
  "# TYPE " ++ name ++ " counter\n" ++
    String.join (samples.map fun (labels, value) => sample name labels value)

/-- The family of a tally: a sample per outcome. -/
def outcomes (x : Exposition) (t : Tally) : String :=
  family (x.familyName "operations_total") <| t.toList.map fun (o, n) =>
    ([label "cache" x.cache, label "operation" o.operation.name, label "outcome" o.label], n)

/-- The family of bulk counts: a sample per kind. -/
def bulkEntries (x : Exposition) (c : BulkCounts) : String :=
  family (x.familyName "bulk_entries_total") <| c.toList.map fun (kind, n) =>
    ([label "cache" x.cache, label "kind" kind.name], n)

end Exposition

end ResilientCache
