import ResilientCache.Outcome

/-!
# Counters

A `Tally` counts outcomes in a table of ten rows and four columns; the cell of an outcome is its
`slot`. A `BulkCounts` counts the entries that bulk operations handled, by kind. All counters are
64-bit words and wrap around. What is shown of counters is a `reading`, a copy of them at one
moment: of a tally cell by cell, of bulk counts kind by kind.

Headlines: `cell_record` and `get_add` say what recording does to every counter, `reading_eq` that
a reading shows what was counted.
-/

namespace ResilientCache

/-! ## Outcomes -/

/-- How often each outcome was recorded. -/
structure Tally where
  cells : Vector (Vector UInt64 4) 10
deriving DecidableEq

namespace Tally

/-- The tally before anything was recorded. -/
def empty : Tally := ⟨.replicate 10 (.replicate 4 0)⟩

/-- The counter in a row and a column of the table. -/
def cell (t : Tally) (row : Fin 10) (column : Fin 4) : UInt64 := t.cells[row][column]

/-- How often an outcome was recorded. -/
def count (t : Tally) (o : Outcome) : UInt64 := t.cells[o.slot.1][o.slot.2]

/-- The tally after one more recording of an outcome. -/
def record (t : Tally) (o : Outcome) : Tally :=
  ⟨t.cells.set o.slot.1 (t.cells[o.slot.1].set o.slot.2 (t.count o + 1))⟩

/-- The tally after recording outcomes one after the other. -/
def recordAll (t : Tally) (os : List Outcome) : Tally := os.foldl record t

/-- The tally after recording each outcome so many times. -/
def recordTimes (t : Tally) (records : List (Outcome × Nat)) : Tally :=
  t.recordAll (records.flatMap fun record => .replicate record.2 record.1)

/-- The sum of an operation's row, as a word: it wraps around like the counters. That is what adding
words comes to where overflow is not checked; a sum that checks for it stops instead of wrapping. -/
def total (t : Tally) (op : Operation) : UInt64 := t.cells[op.row].foldl (· + ·) 0

/-- Every outcome with its count, grouped by operation. -/
def toList (t : Tally) : List (Outcome × UInt64) := Outcome.all.map fun o => (o, t.count o)

/-- A copy of the table as it stands. -/
def reading (t : Tally) : Tally := ⟨.ofFn fun row => .ofFn fun column => t.cells[row][column]⟩

@[simp] theorem reading_eq (t : Tally) : t.reading = t := by
  cases t with
  | mk cells =>
    refine congrArg mk (Vector.ext fun row hrow => ?_)
    rw [Vector.getElem_ofFn]
    exact Vector.ext fun column hcolumn => Vector.getElem_ofFn hcolumn

/-- The sum of a row goes through its cells. -/
theorem total_eq (t : Tally) (op : Operation) :
    t.total op = ((List.finRange 4).map (t.cell op.row)).foldl (· + ·) 0 := by
  have hrow : t.cells[op.row].toList = (List.finRange 4).map (t.cell op.row) :=
    List.ext_getElem (by simp) fun _ _ _ => by simp [cell]
  rw [total, ← Vector.foldl_toList, hrow]

/-- Before anything was recorded every cell holds zero. -/
theorem cell_empty (row : Fin 10) (column : Fin 4) : empty.cell row column = 0 := by
  simp [empty, cell]

/-- Recording an outcome adds one to the cell of its slot and leaves the other cells alone. -/
theorem cell_record (t : Tally) (o : Outcome) (row : Fin 10) (column : Fin 4) :
    (t.record o).cell row column =
      if o.slot = (row, column) then t.cell row column + 1 else t.cell row column := by
  have hslot : o.slot = (row, column) ↔ o.slot.1.val = row.val ∧ o.slot.2.val = column.val := by
    rw [Prod.ext_iff, Fin.ext_iff, Fin.ext_iff]
  by_cases hrow : o.slot.1.val = row.val
  · by_cases hcolumn : o.slot.2.val = column.val
    · simp [record, cell, count, hslot.mpr ⟨hrow, hcolumn⟩]
    · simp [record, cell, hslot, hrow, hcolumn]
  · simp [record, cell, hslot, hrow]

end Tally

/-! ## Entries of bulk operations -/

/-- What is counted of the entries that bulk operations handle. -/
inductive BulkKind
  /-- Requested keys that were present. -/
  | getAllHits
  /-- Requested keys that were absent. -/
  | getAllMiss
  /-- Mappings added by a bulk put. -/
  | putAll
  /-- Mappings overwritten by a bulk put. -/
  | updateAll
  /-- Mappings removed by a bulk remove. -/
  | removeAll
deriving DecidableEq, Repr

namespace BulkKind

/-- Every kind, in the order in which tables list them. -/
def all : List BulkKind := [getAllHits, getAllMiss, putAll, updateAll, removeAll]

/-- The word for a kind in reports. -/
def name : BulkKind → String
  | getAllHits => "get_all_hits"
  | getAllMiss => "get_all_miss"
  | putAll => "put_all"
  | updateAll => "update_all"
  | removeAll => "remove_all"

/-- The place of a kind in a table of counts. -/
def index : BulkKind → Fin 5
  | getAllHits => 0
  | getAllMiss => 1
  | putAll => 2
  | updateAll => 3
  | removeAll => 4

/-- The kind of a name. -/
def ofName? (s : String) : Option BulkKind := all.find? fun kind => kind.name = s

theorem mem_all (kind : BulkKind) : kind ∈ all := by cases kind <;> decide

theorem index_injective {a b : BulkKind} (h : a.index = b.index) : a = b := by
  have key : ∀ a ∈ all, ∀ b ∈ all, a.index = b.index → a = b := by decide
  exact key a (mem_all a) b (mem_all b) h

/-- No place in a table of counts is left over. -/
theorem exists_index : ∀ i : Fin 5, ∃ kind ∈ all, kind.index = i := by decide

end BulkKind

/-- How many entries of each kind bulk operations handled. -/
structure BulkCounts where
  cells : Vector UInt64 5
deriving DecidableEq

namespace BulkCounts

/-- The counts before anything was added. -/
def empty : BulkCounts := ⟨.replicate 5 0⟩

/-- The count of a kind. -/
def get (c : BulkCounts) (kind : BulkKind) : UInt64 := c.cells[kind.index]

/-- The counts after an addition to one kind. -/
def add (c : BulkCounts) (kind : BulkKind) (n : UInt64) : BulkCounts :=
  ⟨c.cells.set kind.index (c.get kind + n)⟩

/-- The counts after several additions. -/
def addAll (c : BulkCounts) (additions : List (BulkKind × UInt64)) : BulkCounts :=
  additions.foldl (fun c addition => c.add addition.1 addition.2) c

/-- Every kind with its count. -/
def toList (c : BulkCounts) : List (BulkKind × UInt64) := BulkKind.all.map fun k => (k, c.get k)

/-- The counts with that of one kind replaced. -/
def set (c : BulkCounts) (kind : BulkKind) (n : UInt64) : BulkCounts :=
  ⟨c.cells.set kind.index n⟩

/-- A copy of the counts as they stand. -/
def reading (c : BulkCounts) : BulkCounts :=
  BulkKind.all.foldl (fun copy kind => copy.set kind (c.get kind)) empty

@[simp] theorem get_empty (kind : BulkKind) : empty.get kind = 0 := by simp [empty, get]

theorem get_set (c : BulkCounts) (a b : BulkKind) (n : UInt64) :
    (c.set a n).get b = if a = b then n else c.get b := by
  by_cases h : a = b
  · subst h
    simp [set, get]
  · have hi : a.index.val ≠ b.index.val := fun hi => h (BulkKind.index_injective (Fin.ext hi))
    simp [set, get, h, hi]

/-- An addition to one kind leaves the other kinds alone. -/
theorem get_add (c : BulkCounts) (a b : BulkKind) (n : UInt64) :
    (c.add a n).get b = if a = b then c.get b + n else c.get b := by
  show (c.set a (c.get a + n)).get b = _
  rw [get_set]
  by_cases h : a = b
  · rw [if_pos h, if_pos h, h]
  · rw [if_neg h, if_neg h]

/-- Copying kinds one after the other copies these and leaves the other kinds alone. -/
theorem get_copied (c : BulkCounts) (kind : BulkKind) (kinds : List BulkKind)
    (copy : BulkCounts) :
    (kinds.foldl (fun copy kind => copy.set kind (c.get kind)) copy).get kind =
      if kind ∈ kinds then c.get kind else copy.get kind := by
  induction kinds generalizing copy with
  | nil => rfl
  | cons a kinds ih =>
    rw [List.foldl_cons, ih, get_set]
    by_cases hin : kind ∈ kinds
    · simp [hin]
    · by_cases ha : a = kind
      · simp [ha]
      · simp [hin, ha, Ne.symm ha]

@[simp] theorem get_reading (c : BulkCounts) (kind : BulkKind) :
    c.reading.get kind = c.get kind := by
  rw [reading, get_copied, if_pos (BulkKind.mem_all kind)]

/-- Counts that agree on every kind are the same. -/
theorem ext_get {c c' : BulkCounts} (h : ∀ kind, c.get kind = c'.get kind) : c = c' := by
  obtain ⟨cells⟩ := c
  obtain ⟨cells'⟩ := c'
  refine congrArg mk (Vector.ext fun i hi => ?_)
  obtain ⟨kind, -, hkind⟩ := BulkKind.exists_index ⟨i, hi⟩
  simpa [get, hkind] using h kind

@[simp] theorem reading_eq (c : BulkCounts) : c.reading = c := ext_get c.get_reading

end BulkCounts

end ResilientCache
