/-!
# Outcomes

Each operation of a cache ends with one outcome out of the enumeration of its kind. Ten kinds of
operation report outcomes; no kind has more than four.

An outcome is shown as `operation.label`, and has a `slot`, a row and a column in a rectangular
table: the row is its operation's place in `Operation.all`, the column its own place among the
outcomes of the operation.

Headlines: `mem_outcomes_iff` (an operation lists exactly its own outcomes) and `slot_injective`.
-/

namespace ResilientCache

namespace Outcome

/-- Outcomes of `get`. -/
inductive Get
  | hit | miss | failure
deriving DecidableEq, Repr

/-- Outcomes of `getAll`. -/
inductive GetAll
  | success | failure
deriving DecidableEq, Repr

/-- Outcomes of `put`. -/
inductive Put
  | put | noop | failure
deriving DecidableEq, Repr

/-- Outcomes of `putAll`. -/
inductive PutAll
  | success | failure
deriving DecidableEq, Repr

/-- Outcomes of `remove`. -/
inductive Remove
  | success | noop | failure
deriving DecidableEq, Repr

/-- Outcomes of `removeAll`. -/
inductive RemoveAll
  | success | failure
deriving DecidableEq, Repr

/-- Outcomes of `removeIf`. -/
inductive ConditionalRemove
  | success | failureKeyMissing | failureKeyPresent | failure
deriving DecidableEq, Repr

/-- Outcomes of `putIfAbsent`. -/
inductive PutIfAbsent
  | put | hit | failure
deriving DecidableEq, Repr

/-- Outcomes of `replace` and `replaceIf`. -/
inductive Replace
  | hit | missPresent | missNotPresent | failure
deriving DecidableEq, Repr

/-- Outcomes of `clear`. -/
inductive Clear
  | success | failure
deriving DecidableEq, Repr

end Outcome

/-- One outcome of one operation. -/
inductive Outcome
  | get (o : Outcome.Get)
  | getAll (o : Outcome.GetAll)
  | put (o : Outcome.Put)
  | putAll (o : Outcome.PutAll)
  | remove (o : Outcome.Remove)
  | removeAll (o : Outcome.RemoveAll)
  | conditionalRemove (o : Outcome.ConditionalRemove)
  | putIfAbsent (o : Outcome.PutIfAbsent)
  | replace (o : Outcome.Replace)
  | clear (o : Outcome.Clear)
deriving DecidableEq, Repr

/-- The kinds of operation that report outcomes. -/
inductive Operation
  | get | getAll | put | putAll | remove | removeAll | conditionalRemove | putIfAbsent | replace
  | clear
deriving DecidableEq, Repr

/-! ## Operations -/

namespace Operation

/-- Every kind of operation, in the order in which tables list them. -/
def all : List Operation :=
  [get, getAll, put, putAll, remove, removeAll, conditionalRemove, putIfAbsent, replace, clear]

/-- The word for an operation in reports. -/
def name : Operation → String
  | get => "get"
  | getAll => "get_all"
  | put => "put"
  | putAll => "put_all"
  | remove => "remove"
  | removeAll => "remove_all"
  | conditionalRemove => "conditional_remove"
  | putIfAbsent => "put_if_absent"
  | replace => "replace"
  | clear => "clear"

/-- The row of an operation in a table of counts. -/
def row : Operation → Fin 10
  | get => 0
  | getAll => 1
  | put => 2
  | putAll => 3
  | remove => 4
  | removeAll => 5
  | conditionalRemove => 6
  | putIfAbsent => 7
  | replace => 8
  | clear => 9

/-- Every outcome an operation can end with. -/
def outcomes : Operation → List Outcome
  | get => [.get .hit, .get .miss, .get .failure]
  | getAll => [.getAll .success, .getAll .failure]
  | put => [.put .put, .put .noop, .put .failure]
  | putAll => [.putAll .success, .putAll .failure]
  | remove => [.remove .success, .remove .noop, .remove .failure]
  | removeAll => [.removeAll .success, .removeAll .failure]
  | conditionalRemove =>
    [.conditionalRemove .success, .conditionalRemove .failureKeyMissing,
      .conditionalRemove .failureKeyPresent, .conditionalRemove .failure]
  | putIfAbsent => [.putIfAbsent .put, .putIfAbsent .hit, .putIfAbsent .failure]
  | replace =>
    [.replace .hit, .replace .missPresent, .replace .missNotPresent, .replace .failure]
  | clear => [.clear .success, .clear .failure]

/-- The operation of a name. -/
def ofName? (s : String) : Option Operation := all.find? fun op => op.name = s

theorem mem_all (op : Operation) : op ∈ all := by cases op <;> decide

/-- The rows of a table are the operations in their order. -/
theorem map_row_all : all.map row = List.finRange 10 := by decide

end Operation

/-! ## Outcomes -/

namespace Outcome

/-- The operation an outcome belongs to. -/
def operation : Outcome → Operation
  | get _ => .get
  | getAll _ => .getAll
  | put _ => .put
  | putAll _ => .putAll
  | remove _ => .remove
  | removeAll _ => .removeAll
  | conditionalRemove _ => .conditionalRemove
  | putIfAbsent _ => .putIfAbsent
  | replace _ => .replace
  | clear _ => .clear

/-- The word for an outcome in reports. -/
def label : Outcome → String
  | get .hit => "hit"
  | get .miss => "miss"
  | get .failure => "failure"
  | getAll .success => "success"
  | getAll .failure => "failure"
  | put .put => "put"
  | put .noop => "noop"
  | put .failure => "failure"
  | putAll .success => "success"
  | putAll .failure => "failure"
  | remove .success => "success"
  | remove .noop => "noop"
  | remove .failure => "failure"
  | removeAll .success => "success"
  | removeAll .failure => "failure"
  | conditionalRemove .success => "success"
  | conditionalRemove .failureKeyMissing => "failure_key_missing"
  | conditionalRemove .failureKeyPresent => "failure_key_present"
  | conditionalRemove .failure => "failure"
  | putIfAbsent .put => "put"
  | putIfAbsent .hit => "hit"
  | putIfAbsent .failure => "failure"
  | replace .hit => "hit"
  | replace .missPresent => "miss_present"
  | replace .missNotPresent => "miss_not_present"
  | replace .failure => "failure"
  | clear .success => "success"
  | clear .failure => "failure"

/-- The column of an outcome in its operation's row of a table of counts. -/
def column : Outcome → Fin 4
  | get .hit => 0
  | get .miss => 1
  | get .failure => 2
  | getAll .success => 0
  | getAll .failure => 1
  | put .put => 0
  | put .noop => 1
  | put .failure => 2
  | putAll .success => 0
  | putAll .failure => 1
  | remove .success => 0
  | remove .noop => 1
  | remove .failure => 2
  | removeAll .success => 0
  | removeAll .failure => 1
  | conditionalRemove .success => 0
  | conditionalRemove .failureKeyMissing => 1
  | conditionalRemove .failureKeyPresent => 2
  | conditionalRemove .failure => 3
  | putIfAbsent .put => 0
  | putIfAbsent .hit => 1
  | putIfAbsent .failure => 2
  | replace .hit => 0
  | replace .missPresent => 1
  | replace .missNotPresent => 2
  | replace .failure => 3
  | clear .success => 0
  | clear .failure => 1

/-- The cell of an outcome in a table of counts. -/
def slot (o : Outcome) : Fin 10 × Fin 4 := (o.operation.row, o.column)

/-- An outcome as reports show it. -/
def shown (o : Outcome) : String := o.operation.name ++ "." ++ o.label

/-- Every outcome, grouped by operation. -/
def all : List Outcome := Operation.all.flatMap Operation.outcomes

/-- The outcome that is shown as `s`. -/
def ofShown? (s : String) : Option Outcome := all.find? fun o => o.shown = s

/-- An operation lists exactly the outcomes that belong to it. -/
theorem mem_outcomes_iff {o : Outcome} {op : Operation} : o ∈ op.outcomes ↔ o.operation = op := by
  constructor
  · cases op <;> simp only [Operation.outcomes, List.mem_cons, List.not_mem_nil, or_false] <;>
      rintro (rfl | rfl | rfl | rfl) <;> rfl
  · rintro rfl
    cases o with
    | _ o => cases o <;> decide

theorem mem_all (o : Outcome) : o ∈ all :=
  List.mem_flatMap.2 ⟨o.operation, Operation.mem_all _, mem_outcomes_iff.2 rfl⟩

/-- No two outcomes share a cell. -/
theorem slot_injective {o o' : Outcome} (h : o.slot = o'.slot) : o = o' := by
  have key : ∀ a ∈ all, ∀ b ∈ all, a.slot = b.slot → a = b := by decide
  exact key o (mem_all o) o' (mem_all o') h

end Outcome

end ResilientCache
