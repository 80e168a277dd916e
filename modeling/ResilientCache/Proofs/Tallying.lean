import Mathlib.Algebra.BigOperators.Group.List.Basic
import Mathlib.Algebra.Ring.Nat
import Mathlib.Data.List.FinRange
import ResilientCache.Tally

/-!
# What counters show of what was recorded

The table of a tally counts slots: its cell in a row and a column holds how often outcomes of that
slot were recorded, as a 64-bit word (`cell_recordAll`). Everything that a tally shows is read off
that. No two outcomes share a slot, so a counter holds the records of its own outcome; the row of an
operation holds the records of the operation, split by column, so its total holds all of them
(`sum_countP_classes`); a cell that is the slot of no outcome is never written. The counts of bulk
entries are sums of additions, each to its own kind.

`Tally.Counts` and `BulkCounts.Sums` say what counters owe to what was recorded. They hold of the
counters themselves and of a reading of them.

Headlines:
* `cell_recordAll`, `get_addAll`: what any sequence of records leaves in each cell.
* **`counters_faithful`**: what the counters and their readings show of it.
-/

namespace ResilientCache

/-! ## Sums -/

/-- What is counted is split by a class that every element has one of. -/
theorem sum_countP_classes {α : Type} {n : Nat} (classOf : α → Fin n) (p : α → Bool)
    (l : List α) :
    ((List.finRange n).map fun i => l.countP fun a => p a && classOf a = i).sum = l.countP p := by
  induction l with
  | nil => simp
  | cons a l ih =>
    have hother : ∀ i, i ≠ classOf a → i ∈ List.finRange n →
        (if (p a && classOf a = i) = true then 1 else 0) = 0 := by
      intro i hi _
      simp [Ne.symm hi]
    have hone : (List.finRange n).count (classOf a) = 1 :=
      List.count_eq_one_of_mem (List.nodup_finRange n) (List.mem_finRange _)
    have hhead := List.sum_map_eq_nsmul_single (classOf a) _ hother
    simp only [List.countP_cons]
    rw [List.sum_map_add, ih, hhead, hone]
    simp

/-- Words that are added up wrap around as their sum does. -/
theorem foldl_ofNat (l : List Nat) (w : UInt64) :
    (l.map UInt64.ofNat).foldl (· + ·) w = w + .ofNat l.sum := by
  induction l generalizing w with
  | nil => simp
  | cons n l ih =>
    rw [List.map_cons, List.foldl_cons, ih, List.sum_cons, UInt64.ofNat_add, UInt64.add_assoc]

/-- A table over distinct entries lists each of them once. -/
theorem filter_tabulated {α β : Type} [DecidableEq α] {l : List α} (hl : l.Nodup) {a : α}
    (ha : a ∈ l) (f : α → β) : (l.map fun b => (b, f b)).filter (·.1 = a) = [(a, f a)] := by
  have hone : l.filter (fun b => decide (b = a)) = [a] := by
    rw [List.filter_eq, List.count_eq_one_of_mem hl ha, List.replicate_one]
  rw [List.filter_map]
  exact congrArg (List.map _) hone

/-! ## Outcomes -/

theorem Operation.row_inj {op op' : Operation} : op.row = op'.row ↔ op = op' := by
  have hnodup : (all.map row).Nodup := map_row_all ▸ List.nodup_finRange 10
  exact ⟨List.inj_on_of_nodup_map hnodup (mem_all op) (mem_all op'), fun h => h ▸ rfl⟩

theorem Outcome.nodup_all : Outcome.all.Nodup := by decide

namespace Tally

/-- What a tally owes to the outcomes that were recorded. -/
structure Counts (t : Tally) (os : List Outcome) : Prop where
  /-- The counter of an outcome holds how often it was recorded. -/
  count : ∀ o, (t.count o).toNat = os.count o % UInt64.size
  /-- The total of an operation is how often an outcome of it was recorded. -/
  total : ∀ op, (t.total op).toNat = os.countP (·.operation = op) % UInt64.size
  /-- A cell that is the slot of no outcome holds nothing. -/
  vacant : ∀ row column, (∀ o : Outcome, o.slot ≠ (row, column)) → t.cell row column = 0
  /-- Every outcome is listed once, with what its counter holds. -/
  listed : ∀ o, t.toList.filter (·.1 = o) = [(o, t.count o)]

/-- Each cell counts the records of its slot, whatever else is recorded in between. -/
theorem cell_recordAll (t : Tally) (os : List Outcome) (row : Fin 10) (column : Fin 4) :
    (t.recordAll os).cell row column =
      t.cell row column + .ofNat (os.countP fun o => o.slot = (row, column)) := by
  induction os generalizing t with
  | nil => simp [recordAll]
  | cons o os ih =>
    show ((t.record o).recordAll os).cell row column = _
    rw [ih, cell_record, List.countP_cons, UInt64.ofNat_add]
    by_cases h : o.slot = (row, column)
    · simp only [h, if_true, decide_true]
      ac_rfl
    · simp [h]

variable (os : List Outcome)

/-- From the start on a cell holds the number of records of its slot. -/
theorem cell_recorded (row : Fin 10) (column : Fin 4) :
    (empty.recordAll os).cell row column =
      .ofNat (os.countP fun o => o.slot = (row, column)) := by
  rw [cell_recordAll, cell_empty, UInt64.zero_add]

theorem count_recorded (o : Outcome) :
    (empty.recordAll os).count o = .ofNat (os.count o) := by
  refine (cell_recorded os o.slot.1 o.slot.2).trans ?_
  refine congrArg UInt64.ofNat (List.countP_congr fun a _ => ?_)
  have hslot : a.slot = o.slot ↔ a = o := ⟨Outcome.slot_injective, fun h => h ▸ rfl⟩
  simp [hslot]

theorem total_recorded (op : Operation) :
    (empty.recordAll os).total op = .ofNat (os.countP (·.operation = op)) := by
  have hcells (column : Fin 4) : (empty.recordAll os).cell op.row column =
      .ofNat (os.countP fun o => decide (o.operation = op) && o.column = column) := by
    rw [cell_recorded]
    refine congrArg UInt64.ofNat (List.countP_congr fun o _ => ?_)
    simp [Outcome.slot, Operation.row_inj]
  rw [total_eq, funext hcells, ← sum_countP_classes Outcome.column,
    ← UInt64.zero_add (.ofNat _), ← foldl_ofNat, List.map_map]
  rfl

theorem counts_recorded : (empty.recordAll os).Counts os where
  count o := by rw [count_recorded, UInt64.toNat_ofNat']
  total op := by rw [total_recorded, UInt64.toNat_ofNat']
  vacant row column h := by
    have hnone : (os.countP fun o => o.slot = (row, column)) = 0 :=
      List.countP_eq_zero.mpr fun o _ => by simpa using h o
    rw [cell_recorded, hnone]
    rfl
  listed o := filter_tabulated Outcome.nodup_all (Outcome.mem_all o) _

end Tally

/-! ## Entries of bulk operations -/

namespace BulkCounts

/-- What additions add to a kind. -/
def added (additions : List (BulkKind × UInt64)) (kind : BulkKind) : Nat :=
  ((additions.filter (·.1 = kind)).map (·.2.toNat)).sum

/-- What counts of bulk entries owe to the additions that were made. -/
structure Sums (c : BulkCounts) (additions : List (BulkKind × UInt64)) : Prop where
  /-- The count of a kind is the sum of the additions to it. -/
  sum : ∀ kind, (c.get kind).toNat = added additions kind % UInt64.size
  /-- Every kind is listed once, with its count. -/
  listed : ∀ kind, c.toList.filter (·.1 = kind) = [(kind, c.get kind)]

/-- Each kind sums up what is added to it, whatever else is added in between. -/
theorem get_addAll (c : BulkCounts) (additions : List (BulkKind × UInt64)) (kind : BulkKind) :
    (c.addAll additions).get kind = c.get kind + .ofNat (added additions kind) := by
  induction additions generalizing c with
  | nil => simp [addAll, added]
  | cons addition additions ih =>
    show ((c.add addition.1 addition.2).addAll additions).get kind = _
    rw [ih, get_add]
    by_cases h : addition.1 = kind
    · have hadded : added (addition :: additions) kind =
          addition.2.toNat + added additions kind := by simp [added, h]
      rw [if_pos h, hadded, UInt64.ofNat_add, UInt64.ofNat_toNat, UInt64.add_assoc]
    · have hadded : added (addition :: additions) kind = added additions kind := by
        simp [added, h]
      rw [if_neg h, hadded]

theorem sums_added (additions : List (BulkKind × UInt64)) :
    (empty.addAll additions).Sums additions where
  sum kind := by rw [get_addAll, get_empty, UInt64.zero_add, UInt64.toNat_ofNat']
  listed kind := filter_tabulated (by decide) (BulkKind.mem_all kind) _

example : (empty.addAll [(.putAll, 18446744073709551615), (.removeAll, 7), (.putAll, 1)]).get
    .putAll = 0 := by decide

end BulkCounts

/-- **Counters show what was recorded.** After any sequence of outcomes and of bulk additions, of
any length, every counter, every total and every listing is what the sequence says, up to the size
of a word, in the counters themselves and in a reading of them. -/
theorem counters_faithful (os : List Outcome) (additions : List (BulkKind × UInt64)) :
    let t := Tally.empty.recordAll os
    let c := BulkCounts.empty.addAll additions
    (t.Counts os ∧ t.reading.Counts os) ∧ c.Sums additions ∧ c.reading.Sums additions := by
  intro t c
  have ht : t.Counts os := Tally.counts_recorded os
  have hc : c.Sums additions := BulkCounts.sums_added additions
  rw [Tally.reading_eq, BulkCounts.reading_eq]
  exact ⟨⟨ht, ht⟩, hc, hc⟩

end ResilientCache
