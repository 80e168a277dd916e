import Mathlib.Algebra.Ring.Nat
import ResilientCache.Proofs.Scraping

/-!
# An exposition read back

A text is read as lines, the first of which gives the name and type of a family, and every other one
a sample (`Family.ofText?`). A family is read back whenever its values are escaped. An exposition
writes the name of the cache as it is, in the first label of each sample (`labelled`). A line feed
in the name makes more lines than samples, since each line feed of a text ends a line; a quote or a
backslash in it makes the first value read another one than the name. So an exposition is read back
for exactly the names that need no escaping; with the name escaped beforehand it is for every name.

Headlines:
* `lines?_eq_some_iff`: the lines of a text are the pieces that its line feeds end.
* `ofText?_eq_some_iff`, **`ofText?_family`**: when a family is read back.
* `ofText?_labelled_iff`: a family that labels its samples with a value as it is.
* **`reads_back_iff_plain`**: an exposition of outcomes, and one of bulk entries, is read back if
  and only if the cache's name is plain.
-/

namespace ResilientCache

namespace Exposition

/-! ## Lines -/

/-- The lines of a text, each of which a line feed ends. -/
def lines? : List Char → Option (List (List Char))
  | [] => some []
  | '\n' :: cs => (lines? cs).map ([] :: ·)
  | c :: cs =>
    match lines? cs with
    | some (l :: ls) => some ((c :: l) :: ls)
    | _ => none

/-- Lines as a text. -/
def unlines (ls : List (List Char)) : List Char := ls.flatMap (· ++ ['\n'])

theorem unlines_cons (l : List Char) (ls : List (List Char)) :
    unlines (l :: ls) = l ++ '\n' :: unlines ls := by
  simp [unlines]

theorem lines?_append {l : List Char} (h : '\n' ∉ l) (cs : List Char) :
    lines? (l ++ '\n' :: cs) = (lines? cs).map (l :: ·) := by
  induction l with
  | nil => rfl
  | cons c l ih =>
    simp only [List.mem_cons, not_or] at h
    rw [List.cons_append, lines?.eq_3 _ _ (Ne.symm h.1), ih h.2]
    cases lines? cs <;> rfl

theorem lines?_unlines {ls : List (List Char)} (h : ∀ l ∈ ls, '\n' ∉ l) :
    lines? (unlines ls) = some ls := by
  induction ls with
  | nil => rfl
  | cons l ls ih =>
    obtain ⟨hl, hls⟩ := List.forall_mem_cons.mp h
    rw [unlines_cons, lines?_append hl, ih hls]
    rfl

theorem unlines_of_lines? {cs : List Char} {ls : List (List Char)} (h : lines? cs = some ls) :
    unlines ls = cs ∧ ∀ l ∈ ls, '\n' ∉ l := by
  fun_induction lines? cs generalizing ls with
  | case1 =>
    cases h
    exact ⟨rfl, by simp⟩
  | case2 cs ih =>
    obtain ⟨ls, hls, rfl⟩ := Option.map_eq_some_iff.mp h
    obtain ⟨htext, hfeed⟩ := ih hls
    rw [unlines_cons, htext]
    exact ⟨rfl, List.forall_mem_cons.mpr ⟨by simp, hfeed⟩⟩
  | case3 c cs hc l ls hls ih =>
    cases h
    obtain ⟨htext, hfeed⟩ := ih hls
    obtain ⟨hl, hrest⟩ := List.forall_mem_cons.mp hfeed
    rw [unlines_cons] at htext ⊢
    refine ⟨by rw [List.cons_append, htext], List.forall_mem_cons.mpr ⟨?_, hrest⟩⟩
    simpa using ⟨Ne.symm hc, hl⟩
  | case4 => cases h

/-- The lines of a text are the pieces that its line feeds end. -/
theorem lines?_eq_some_iff {cs : List Char} {ls : List (List Char)} :
    lines? cs = some ls ↔ unlines ls = cs ∧ ∀ l ∈ ls, '\n' ∉ l :=
  ⟨unlines_of_lines?, fun ⟨htext, hfeed⟩ => htext ▸ lines?_unlines hfeed⟩

/-- A text has a line feed for each of its pieces, and those within the pieces. -/
theorem count_unlines (ls : List (List Char)) :
    (unlines ls).count '\n' = ls.length + (ls.map (·.count '\n')).sum := by
  induction ls with
  | nil => rfl
  | cons l ls ih =>
    rw [unlines_cons, List.count_append, List.count_cons_self, ih, List.map_cons, List.sum_cons,
      List.length_cons]
    omega

theorem sum_count_eq_zero_iff {ls : List (List Char)} :
    (ls.map (·.count '\n')).sum = 0 ↔ ∀ l ∈ ls, '\n' ∉ l := by
  rw [List.sum_eq_zero_iff_forall_eq_nat, List.forall_mem_map]
  exact forall_congr' fun l => forall_congr' fun _ => List.count_eq_zero

/-- A text that has as many lines as it was put together from has no line feed within them. -/
theorem newline_notMem_of_lines? {ls ls' : List (List Char)}
    (h : lines? (unlines ls) = some ls') (hlength : ls'.length = ls.length) :
    ∀ l ∈ ls, '\n' ∉ l := by
  obtain ⟨htext, hfeed'⟩ := lines?_eq_some_iff.mp h
  have hcount := count_unlines ls
  rw [← htext, count_unlines, sum_count_eq_zero_iff.mpr hfeed'] at hcount
  exact sum_count_eq_zero_iff.mp (by omega)

theorem length_lines?_iff {ls : List (List Char)} :
    (lines? (unlines ls)).map List.length = some ls.length ↔ ∀ l ∈ ls, '\n' ∉ l := by
  constructor
  · intro h
    obtain ⟨ls', hls', hlength⟩ := Option.map_eq_some_iff.mp h
    exact newline_notMem_of_lines? hls' hlength
  · intro h
    rw [lines?_unlines h]
    rfl

/-! ## Families -/

/-- The name of a counter's family, from the line that gives its name and type. -/
def readType (line : List Char) : Option String :=
  match "# TYPE ".toList.isPrefixOf? line with
  | none => none
  | some rest =>
    match readName isMetricChar rest with
    | none => none
    | some (name, rest) => if rest = " counter".toList then some (.ofList name) else none

/-- The first line of a family. -/
def typeLine (name : String) : List Char :=
  "# TYPE ".toList ++ (name.toList ++ " counter".toList)

theorem readType_typeLine {name : String} (h : isName isMetricChar name.toList) :
    readType (typeLine name) = some name := by
  have hname : readName isMetricChar (name.toList ++ " counter".toList) =
      some (name.toList, " counter".toList) := readName_append h (by decide) _
  have hrest : "# TYPE ".toList.isPrefixOf? (typeLine name) =
      some (name.toList ++ " counter".toList) := rfl
  rw [readType, hrest]
  simp only [hname, if_true, String.ofList_toList]

/-- A family as it is read: its name, and its samples in order. -/
structure Family where
  name : String
  samples : List Sample
deriving DecidableEq

/-- Read a family: a line that gives its name and type, and a line per sample. -/
def Family.ofText? (text : String) : Option Family :=
  match lines? text.toList with
  | some (first :: rest) =>
    (readType first).bind fun name =>
      (rest.mapM readSample).map fun samples => ⟨name, samples⟩
  | _ => none

/-- A list is read through if every part of it is read. -/
theorem mapM_eq_some_iff {α β : Type} {f : α → Option β} {l : List α} {l' : List β} :
    l.mapM f = some l' ↔ l.map f = l'.map some := by
  induction l generalizing l' with
  | nil => cases l' <;> simp
  | cons a l ih =>
    rw [List.mapM_cons, List.map_cons]
    cases l' with
    | nil => cases f a <;> simp [bind, Option.bind_eq_some_iff]
    | cons b l' =>
      cases f a with
      | none => simp
      | some b' =>
        simp only [bind, pure, Option.bind_some, Option.bind_eq_some_iff, Option.some.injEq,
          List.cons.injEq, List.map_cons, ← ih]
        constructor
        · rintro ⟨l'', hl'', rfl, rfl⟩
          exact ⟨rfl, hl''⟩
        · rintro ⟨rfl, hl'⟩
          exact ⟨l', hl', rfl, rfl⟩

/-- The lines of a family. -/
def familyLines (name : String) (samples : List (List String × UInt64)) : List (List Char) :=
  typeLine name :: samples.map fun s => line name s.1 s.2

theorem toList_family (name : String) (samples : List (List String × UInt64)) :
    (family name samples).toList = unlines (familyLines name samples) := by
  have hsamples : (String.join (samples.map fun s => sample name s.1 s.2)).toList =
      unlines (samples.map fun s => line name s.1 s.2) := by
    simp only [String.toList_join, unlines, List.flatMap_map, toList_sample]
  have htype : ("# TYPE " ++ name ++ " counter\n").toList = typeLine name ++ ['\n'] := by
    have htail : " counter\n".toList = " counter".toList ++ ['\n'] := rfl
    unfold typeLine
    rw [String.toList_append, String.toList_append, htail]
    simp only [List.append_assoc]
  rw [family, familyLines, unlines_cons, String.toList_append, hsamples, htype, List.append_assoc,
    List.singleton_append]

theorem newline_notMem_of_isName {name : String} {allowed : Char → Bool}
    (hallowed : allowed '\n' = false) (h : isName allowed name.toList) : '\n' ∉ name.toList :=
  fun hfeed => by simpa [hallowed] using allowed_of_isName h _ hfeed

theorem newline_notMem_typeLine {name : String} (h : isName isMetricChar name.toList) :
    '\n' ∉ typeLine name := by
  have hname := newline_notMem_of_isName (by decide) h
  unfold typeLine
  rw [List.mem_append, List.mem_append]
  simp only [hname, false_or]
  decide

/-- **A family is read back** if and only if no line feed stands within one of its lines, and each
of its lines is read as its sample. -/
theorem ofText?_eq_some_iff {name : String} (hname : isName isMetricChar name.toList)
    {samples : List (List String × UInt64)} {read : List Sample}
    (hlength : read.length = samples.length) :
    Family.ofText? (family name samples) = some ⟨name, read⟩ ↔
      (∀ s ∈ samples, '\n' ∉ line name s.1 s.2) ∧
        samples.map (fun s => readSample (line name s.1 s.2)) = read.map some := by
  rw [Family.ofText?, toList_family]
  constructor
  · intro h
    split at h
    · rename_i first rest hlines
      obtain ⟨type, -, h⟩ := Option.bind_eq_some_iff.mp h
      obtain ⟨read', hread, h⟩ := Option.map_eq_some_iff.mp h
      cases h
      have hrest := congrArg List.length (mapM_eq_some_iff.mp hread)
      rw [List.length_map, List.length_map] at hrest
      have hfeed := newline_notMem_of_lines? hlines (by simp [familyLines, hrest, hlength])
      rw [lines?_unlines hfeed] at hlines
      cases hlines
      refine ⟨fun s hs => hfeed _ (List.mem_cons_of_mem _ (List.mem_map_of_mem hs)), ?_⟩
      rw [← mapM_eq_some_iff.mp hread, List.map_map]
      rfl
    · cases h
  · rintro ⟨hfeed, hread⟩
    have hlines : ∀ l ∈ familyLines name samples, '\n' ∉ l :=
      List.forall_mem_cons.mpr ⟨newline_notMem_typeLine hname, List.forall_mem_map.mpr hfeed⟩
    have hmap : (samples.map fun s => line name s.1 s.2).mapM readSample = some read := by
      rw [mapM_eq_some_iff, ← hread, List.map_map]
      rfl
    rw [lines?_unlines hlines, familyLines]
    simp only [readType_typeLine hname, Option.bind_some, hmap, Option.map_some]

/-! ## Families with escaped values -/

theorem newline_mem_intercalate_iff (labels : List String) :
    '\n' ∈ (",".intercalate labels).toList ↔ ∃ l ∈ labels, '\n' ∈ l.toList := by
  induction labels with
  | nil => simp
  | cons l labels ih =>
    cases labels with
    | nil => simp
    | cons l' labels =>
      rw [String.intercalate_cons_cons, String.toList_append, String.toList_append,
        List.mem_append, List.mem_append, ih]
      simp

theorem newline_mem_line_iff {metric : String} (hmetric : isName isMetricChar metric.toList)
    (labels : List String) (n : UInt64) :
    '\n' ∈ line metric labels n ↔ ∃ l ∈ labels, '\n' ∈ l.toList := by
  have hname := newline_notMem_of_isName (by decide) hmetric
  have hdigits : '\n' ∉ Nat.toDigits 10 n.toNat := fun h => by
    simpa using Nat.isDigit_of_mem_toDigits (by decide) (by decide) h
  rw [← newline_mem_intercalate_iff]
  simp [line, hname, hdigits]

theorem newline_mem_label_iff {name : String} (hname : isName isLabelChar name.toList)
    (value : String) : '\n' ∈ (label name value).toList ↔ '\n' ∈ value.toList := by
  have hfeed := newline_notMem_of_isName (by decide) hname
  simp [toList_label, hfeed]

/-- The samples of a metric. -/
def samplesOf (metric : String) (items : List (List (String × String) × UInt64)) : List Sample :=
  items.map fun item => ⟨metric, item.1, item.2.toNat⟩

/-- **A family is read back** if the values of its labels are escaped. -/
theorem ofText?_family {name : String} (hname : isName isMetricChar name.toList)
    {items : List (List (String × String) × UInt64)}
    (hitems : ∀ item ∈ items, item.1 ≠ [] ∧ ∀ l ∈ item.1, isName isLabelChar l.1.toList) :
    Family.ofText? (family name (items.map fun item => (written item.1, item.2))) =
      some ⟨name, samplesOf name items⟩ := by
  rw [ofText?_eq_some_iff hname (by simp [samplesOf])]
  constructor
  · rw [List.forall_mem_map]
    intro item hitem hfeed
    rw [newline_mem_line_iff hname] at hfeed
    obtain ⟨text, htext, hfeed⟩ := hfeed
    obtain ⟨l, hl, rfl⟩ := List.mem_map.mp htext
    rw [newline_mem_label_iff ((hitems item hitem).2 l hl), quoted, String.toList_ofList] at hfeed
    exact newline_notMem_escaped _ hfeed
  · rw [samplesOf, List.map_map, List.map_map]
    refine List.map_congr_left fun item hitem => ?_
    exact readSample_line hname (hitems item hitem).1 (hitems item hitem).2 item.2

/-! ## Families that label their samples with a value as it is -/

/-- Labels as they are. -/
def unquoted (ls : List (String × String)) : List String := ls.map fun l => label l.1 l.2

/-- Labels that are written the same with and without escaping. -/
def PlainLabels (ls : List (String × String)) : Prop :=
  ∀ l ∈ ls, isName isLabelChar l.1.toList ∧ Plain l.2.toList

instance (ls : List (String × String)) : Decidable (PlainLabels ls) :=
  inferInstanceAs (Decidable (∀ l ∈ ls, _))

theorem quoted_of_plain {value : String} (h : Plain value.toList) : quoted value = value := by
  rw [quoted, escaped_of_plain h, String.ofList_toList]

theorem unquoted_of_plain {ls : List (String × String)} (h : PlainLabels ls) :
    unquoted ls = written ls :=
  List.map_congr_left fun l hl => by rw [quoted_of_plain (h l hl).2]

/-- A family whose samples all begin with the same label, every value as it is. -/
def labelled (name key value : String) (items : List (List (String × String) × UInt64)) : String :=
  family name (items.map fun item => (unquoted ((key, value) :: item.1), item.2))

/-- What a family is meant to say whose samples all begin with the same label. -/
def labelledFamily (name key value : String) (items : List (List (String × String) × UInt64)) :
    Family :=
  ⟨name, samplesOf name (items.map fun item => ((key, value) :: item.1, item.2))⟩

section Labelled

variable {name key value : String} {items : List (List (String × String) × UInt64)}

theorem ofText?_labelled_quoted (hname : isName isMetricChar name.toList)
    (hkey : isName isLabelChar key.toList) (hitems : ∀ item ∈ items, PlainLabels item.1) :
    Family.ofText? (labelled name key (quoted value) items) =
      some (labelledFamily name key value items) := by
  have hwritten : (items.map fun item => (unquoted ((key, quoted value) :: item.1), item.2)) =
      (items.map fun item => ((key, value) :: item.1, item.2)).map
        fun item => (written item.1, item.2) := by
    rw [List.map_map]
    refine List.map_congr_left fun item hitem => ?_
    show (label key (quoted value) :: unquoted item.1, item.2) = _
    rw [unquoted_of_plain (hitems item hitem)]
    rfl
  rw [labelled, hwritten]
  refine ofText?_family hname (List.forall_mem_map.mpr fun item hitem => ?_)
  exact ⟨List.cons_ne_nil _ _,
    List.forall_mem_cons.mpr ⟨hkey, fun l hl => (hitems item hitem l hl).1⟩⟩

theorem newline_mem_labelled_iff (hname : isName isMetricChar name.toList)
    (hkey : isName isLabelChar key.toList) {ls : List (String × String)} (hls : PlainLabels ls)
    (n : UInt64) :
    '\n' ∈ line name (unquoted ((key, value) :: ls)) n ↔ '\n' ∈ value.toList := by
  rw [newline_mem_line_iff hname, unquoted, List.map_cons]
  constructor
  · rintro ⟨text, htext, hfeed⟩
    obtain rfl | htext := List.mem_cons.mp htext
    · exact (newline_mem_label_iff hkey value).mp hfeed
    · obtain ⟨l, hl, rfl⟩ := List.mem_map.mp htext
      exact absurd ((newline_mem_label_iff (hls l hl).1 l.2).mp hfeed) (hls l hl).2.2.2
  · intro h
    exact ⟨_, List.mem_cons_self, (newline_mem_label_iff hkey value).mpr h⟩

/-- Written as it is, a value leaves each sample on one line if and only if it has no line feed. -/
theorem length_lines?_labelled_iff (hname : isName isMetricChar name.toList)
    (hkey : isName isLabelChar key.toList) (hne : items ≠ [])
    (hitems : ∀ item ∈ items, PlainLabels item.1) :
    (lines? (labelled name key value items).toList).map List.length = some (1 + items.length) ↔
      '\n' ∉ value.toList := by
  have hlength : 1 + items.length = (familyLines name
      (items.map fun item => (unquoted ((key, value) :: item.1), item.2))).length := by
    simp [familyLines, Nat.add_comm]
  rw [labelled, toList_family, hlength, length_lines?_iff, familyLines, List.forall_mem_cons,
    List.map_map, List.forall_mem_map]
  constructor
  · rintro ⟨-, hfeed⟩ hvalue
    obtain ⟨item, hitem⟩ := List.exists_mem_of_ne_nil items hne
    exact hfeed item hitem ((newline_mem_labelled_iff hname hkey (hitems item hitem) _).mpr hvalue)
  · intro hvalue
    refine ⟨newline_notMem_typeLine hname, fun item hitem hfeed => hvalue ?_⟩
    exact (newline_mem_labelled_iff hname hkey (hitems item hitem) _).mp hfeed

/-- Written as it is, a value is read back if and only if it needs no escaping. -/
theorem ofText?_labelled_iff (hname : isName isMetricChar name.toList)
    (hkey : isName isLabelChar key.toList) (hne : items ≠ [])
    (hitems : ∀ item ∈ items, PlainLabels item.1) :
    Family.ofText? (labelled name key value items) =
      some (labelledFamily name key value items) ↔ Plain value.toList := by
  constructor
  · intro h
    rw [labelled, labelledFamily, ofText?_eq_some_iff hname (by simp [samplesOf])] at h
    obtain ⟨hfeed, hread⟩ := h
    obtain ⟨item, items, rfl⟩ := List.exists_cons_of_ne_nil hne
    obtain ⟨hitem, -⟩ := List.forall_mem_cons.mp hitems
    -- The first sample decides: no line feed is in its line, and it is read as it should be.
    have hline := hfeed _ List.mem_cons_self
    obtain ⟨hsample, -⟩ := List.cons.inj hread
    obtain ⟨hslash, hquote⟩ := notMem_of_readSample hname hkey hsample rfl
    exact ⟨hslash, hquote, fun hvalue =>
      hline ((newline_mem_labelled_iff hname hkey hitem _).mpr hvalue)⟩
  · intro h
    have hquoted : Family.ofText? (labelled name key (quoted value) items) =
        some (labelledFamily name key value items) := ofText?_labelled_quoted hname hkey hitems
    rwa [quoted_of_plain h] at hquoted

end Labelled

/-! ## Expositions -/

theorem isName_append {allowed : Char → Bool} {a b : List Char} (ha : isName allowed a)
    (hb : b.all allowed) : isName allowed (a ++ b) := by
  unfold isName at *
  cases a with
  | nil => simp at ha
  | cons c a => simp_all

theorem isName_familyName {x : Exposition} {own : String}
    (hvalid : x.namePrefix = "" ∨ isName isMetricChar x.namePrefix.toList)
    (hown : isName isMetricChar own.toList) : isName isMetricChar (x.familyName own).toList := by
  unfold familyName
  split
  · exact hown
  · rename_i hempty
    have hname : isName isMetricChar x.namePrefix.toList := by
      obtain h | h := hvalid
      · simp [h] at hempty
      · exact h
    rw [String.toList_append, String.toList_append, List.append_assoc]
    refine isName_append hname ?_
    unfold isName at hown
    simp_all [isMetricChar, isLabelChar]

/-- What an exposition of a tally is meant to say. -/
def outcomeFamily (x : Exposition) (t : Tally) : Family where
  name := x.familyName "operations_total"
  samples := t.toList.map fun (o, n) =>
    { metric := x.familyName "operations_total"
      labels := [("cache", x.cache), ("operation", o.operation.name), ("outcome", o.label)]
      value := n.toNat }

/-- What an exposition of bulk counts is meant to say. -/
def bulkFamily (x : Exposition) (c : BulkCounts) : Family where
  name := x.familyName "bulk_entries_total"
  samples := c.toList.map fun (kind, n) =>
    { metric := x.familyName "bulk_entries_total"
      labels := [("cache", x.cache), ("kind", kind.name)]
      value := n.toNat }

/-- The labels of outcomes after the cache's, with their counts. -/
def outcomeItems (t : Tally) : List (List (String × String) × UInt64) :=
  t.toList.map fun (o, n) => ([("operation", o.operation.name), ("outcome", o.label)], n)

/-- The labels of kinds after the cache's, with their counts. -/
def bulkItems (c : BulkCounts) : List (List (String × String) × UInt64) :=
  c.toList.map fun (kind, n) => ([("kind", kind.name)], n)

theorem outcomes_eq (x : Exposition) (t : Tally) :
    x.outcomes t = labelled (x.familyName "operations_total") "cache" x.cache (outcomeItems t) := by
  rw [outcomes, labelled, outcomeItems, List.map_map]
  rfl

theorem bulkEntries_eq (x : Exposition) (c : BulkCounts) :
    x.bulkEntries c =
      labelled (x.familyName "bulk_entries_total") "cache" x.cache (bulkItems c) := by
  rw [bulkEntries, labelled, bulkItems, List.map_map]
  rfl

theorem outcomeFamily_eq (x : Exposition) (t : Tally) :
    x.outcomeFamily t =
      labelledFamily (x.familyName "operations_total") "cache" x.cache (outcomeItems t) := by
  rw [outcomeFamily, labelledFamily, samplesOf, outcomeItems, List.map_map, List.map_map]
  rfl

theorem bulkFamily_eq (x : Exposition) (c : BulkCounts) :
    x.bulkFamily c =
      labelledFamily (x.familyName "bulk_entries_total") "cache" x.cache (bulkItems c) := by
  rw [bulkFamily, labelledFamily, samplesOf, bulkItems, List.map_map, List.map_map]
  rfl

/-- The words of reports need no escaping. -/
theorem plainLabels_outcome (o : Outcome) :
    PlainLabels [("operation", o.operation.name), ("outcome", o.label)] := by
  have names : ∀ op ∈ Operation.all, Plain op.name.toList := by decide +kernel
  have labels : ∀ o ∈ Outcome.all, Plain o.label.toList := by decide +kernel
  have operation : isName isLabelChar "operation".toList := by decide
  have outcome : isName isLabelChar "outcome".toList := by decide
  intro l hl
  simp only [List.mem_cons, List.not_mem_nil, or_false] at hl
  obtain rfl | rfl := hl
  · exact ⟨operation, names o.operation o.operation.mem_all⟩
  · exact ⟨outcome, labels o o.mem_all⟩

theorem plainLabels_kind (kind : BulkKind) : PlainLabels [("kind", kind.name)] := by
  have key : ∀ kind ∈ BulkKind.all, PlainLabels [("kind", kind.name)] := by decide +kernel
  exact key kind kind.mem_all

/-- How a text that is written for a cache's name gives a family back: the lines are those of the
family for the names without a line feed, what they say is the family for plain names, and for
every name once it is escaped. -/
structure ReadBack (text : String → String) (cache : String) (family : Family) : Prop where
  lines : (lines? (text cache).toList).map List.length = some (1 + family.samples.length) ↔
    '\n' ∉ cache.toList
  plain : Family.ofText? (text cache) = some family ↔ Plain cache.toList
  escaped : Family.ofText? (text (quoted cache)) = some family

theorem readBack_labelled {name key : String} {items : List (List (String × String) × UInt64)}
    (hname : isName isMetricChar name.toList) (hkey : isName isLabelChar key.toList)
    (hne : items ≠ []) (hitems : ∀ item ∈ items, PlainLabels item.1) (cache : String) :
    ReadBack (fun cache => labelled name key cache items) cache
      (labelledFamily name key cache items) where
  lines := by
    have hlength : (labelledFamily name key cache items).samples.length = items.length := by
      simp [labelledFamily, samplesOf]
    rw [hlength]
    exact length_lines?_labelled_iff hname hkey hne hitems
  plain := ofText?_labelled_iff hname hkey hne hitems
  escaped := ofText?_labelled_quoted hname hkey hitems

section Prefix

variable (x : Exposition)
  (hvalid : x.namePrefix = "" ∨ isName isMetricChar x.namePrefix.toList)
include hvalid

theorem readBack_outcomes (t : Tally) :
    ReadBack (fun cache => ({ x with cache } : Exposition).outcomes t) x.cache
      (x.outcomeFamily t) := by
  simp only [outcomes_eq, outcomeFamily_eq]
  refine readBack_labelled (isName_familyName hvalid (by decide)) (by decide) ?_ ?_ x.cache
  · simp [outcomeItems, Tally.toList, List.ne_nil_of_mem (Outcome.mem_all (.get .hit))]
  · exact List.forall_mem_map.mpr fun item _ => plainLabels_outcome item.1

theorem readBack_bulkEntries (c : BulkCounts) :
    ReadBack (fun cache => ({ x with cache } : Exposition).bulkEntries c) x.cache
      (x.bulkFamily c) := by
  simp only [bulkEntries_eq, bulkFamily_eq]
  refine readBack_labelled (isName_familyName hvalid (by decide)) (by decide) ?_ ?_ x.cache
  · simp [bulkItems, BulkCounts.toList, List.ne_nil_of_mem (BulkKind.mem_all .putAll)]
  · exact List.forall_mem_map.mpr fun item _ => plainLabels_kind item.1

/-- **An exposition is read back** for exactly the names of caches that need no escaping, whatever
was counted, and if the name is escaped beforehand, for every name: the type line, a line per
sample, and in each the metric, the labels and the count. -/
theorem reads_back_iff_plain (t : Tally) (c : BulkCounts) :
    ReadBack (fun cache => ({ x with cache } : Exposition).outcomes t) x.cache
        (x.outcomeFamily t) ∧
      ReadBack (fun cache => ({ x with cache } : Exposition).bulkEntries c) x.cache
        (x.bulkFamily c) :=
  ⟨readBack_outcomes x hvalid t, readBack_bulkEntries x hvalid c⟩

end Prefix

/-- A name with a comma, a blank and an equals sign in it is plain: the outcomes of its cache are read
back from what is exposed. -/
theorem reads_back_iff_plain_people :
    let x : Exposition := ⟨"guard", "people, kind=a"⟩
    let t := Tally.empty.record (.get .hit)
    isName isMetricChar x.namePrefix.toList ∧ Plain x.cache.toList ∧
      Family.ofText? (x.outcomes t) = some (x.outcomeFamily t) := by
  intro x t
  have hvalid : isName isMetricChar x.namePrefix.toList := by decide
  have hplain : Plain x.cache.toList := by decide
  obtain ⟨houtcomes, -⟩ := reads_back_iff_plain x (Or.inr hvalid) t .empty
  exact ⟨hvalid, hplain, houtcomes.plain.mpr hplain⟩

/-- A quote in the name ends the label's value, so the name is not what is read. -/
theorem quote_ends_name :
    let x : Exposition := ⟨"", "a\"b"⟩
    let c := BulkCounts.empty.add .putAll 1
    Family.ofText? (x.bulkEntries c) ≠ some (x.bulkFamily c) := by
  intro x c hread
  have hplain : Plain x.cache.toList := (readBack_bulkEntries x (Or.inl rfl) c).plain.mp hread
  exact absurd hplain (by decide)

end Exposition

end ResilientCache
