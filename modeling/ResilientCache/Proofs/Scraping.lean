import Mathlib.Data.List.TakeWhile
import ResilientCache.Exposition

/-!
# Reading a sample

A scraper reads the text exposition format line by line. A line with a sample is the metric's name,
labels in braces with commas between them, a blank and a count. A label is a name, an equals sign
and a value in quotes. The value ends at the first quote that no backslash escapes; in it a
backslash, a quote and a line feed are written as a backslash and a character (`escaped`), and a
backslash that starts none of the three is an error.

What the format writes is read back, whatever the values are: one lemma for each thing that is read,
about the text it begins, so that they chain. A value that is written as it is, without escaping, is
read back only if nothing in it needed that. The value that is read has its first quote no later
than the text has, and each two backslashes before that cost it a place at least
(`length_beforeQuote_readValue`); so a value that comes back has no backslash before its first
quote, and ends there.

Headlines:
* `readValue_escaped`, `readLabels_labels`, `readSample_line`: each part is read back.
* `notMem_of_readValue`, **`notMem_of_readSample`**: a value that is not escaped is read back only
  if no backslash and no quote is in it.
-/

namespace ResilientCache

namespace Exposition

/-! ## Names -/

/-- The characters of a label's name. -/
def isLabelChar (c : Char) : Bool := c.isAlphanum || c == '_'

/-- The characters of a metric's name. -/
def isMetricChar (c : Char) : Bool := isLabelChar c || c == ':'

/-- A name is made of allowed characters, has a first one, and does not begin with a digit. -/
def isName (allowed : Char → Bool) (name : List Char) : Bool :=
  name.all allowed && name.head?.any fun c => !c.isDigit

/-- The longest run of allowed characters, if it is a name, and what follows it. -/
def readName (allowed : Char → Bool) (cs : List Char) : Option (List Char × List Char) :=
  let name := cs.takeWhile allowed
  if isName allowed name then some (name, cs.dropWhile allowed) else none

theorem allowed_of_isName {allowed : Char → Bool} {name : List Char} (h : isName allowed name) :
    ∀ c ∈ name, allowed c := by
  unfold isName at h
  simp only [Bool.and_eq_true, List.all_eq_true] at h
  exact h.1

theorem readName_append {allowed : Char → Bool} {name : List Char} (h : isName allowed name)
    {c : Char} (hc : allowed c = false) (rest : List Char) :
    readName allowed (name ++ c :: rest) = some (name, c :: rest) := by
  have hall := allowed_of_isName h
  unfold readName
  rw [List.takeWhile_append_of_pos hall, List.dropWhile_append_of_pos hall]
  simp [hc, h]

theorem length_readName {allowed : Char → Bool} {cs name rest : List Char}
    (h : readName allowed cs = some (name, rest)) : rest.length ≤ cs.length := by
  unfold readName at h
  dsimp only at h
  split at h
  · obtain ⟨-, rfl⟩ := Prod.mk.inj (Option.some.inj h)
    exact (List.dropWhile_sublist allowed).length_le
  · cases h

/-! ## Label values -/

/-- What a backslash and a character after it stand for. -/
def unescape? : Char → Option Char
  | '\\' => some '\\'
  | '"' => some '"'
  | 'n' => some '\n'
  | _ => none

/-- The value of a label after its opening quote, and what follows the closing one. -/
def readValue : List Char → Option (List Char × List Char)
  | [] => none
  | '"' :: rest => some ([], rest)
  | '\\' :: c :: rest =>
    (unescape? c).bind fun c => (readValue rest).map fun p => (c :: p.1, p.2)
  | c :: rest => (readValue rest).map fun p => (c :: p.1, p.2)

/-- A character of a label's value as the format writes it. -/
def escapeLabel : Char → List Char
  | '\\' => ['\\', '\\']
  | '"' => ['\\', '"']
  | '\n' => ['\\', 'n']
  | c => [c]

/-- A value as the format writes it. -/
def escaped (value : List Char) : List Char := value.flatMap escapeLabel

/-- A value that the format writes as it is. -/
def Plain (value : List Char) : Prop := '\\' ∉ value ∧ '"' ∉ value ∧ '\n' ∉ value

instance (value : List Char) : Decidable (Plain value) :=
  inferInstanceAs (Decidable (_ ∧ _ ∧ _))

theorem readValue_cons {c : Char} (hslash : c ≠ '\\') (hquote : c ≠ '"') (cs : List Char) :
    readValue (c :: cs) = (readValue cs).map fun p => (c :: p.1, p.2) := by
  rw [readValue.eq_4]
  · exact hquote
  · rintro _ _ rfl
    exact absurd rfl hslash

/-- A value without backslashes and quotes is read as it stands. -/
theorem readValue_append {value : List Char} (hslash : '\\' ∉ value) (hquote : '"' ∉ value)
    (rest : List Char) : readValue (value ++ '"' :: rest) = some (value, rest) := by
  induction value with
  | nil => rfl
  | cons c value ih =>
    simp only [List.mem_cons, not_or] at hslash hquote
    rw [List.cons_append, readValue_cons (Ne.symm hslash.1) (Ne.symm hquote.1),
      ih hslash.2 hquote.2]
    rfl

theorem readValue_escapeLabel (c : Char) (cs : List Char) :
    readValue (escapeLabel c ++ cs) = (readValue cs).map fun p => (c :: p.1, p.2) := by
  unfold escapeLabel
  split
  · rfl
  · rfl
  · rfl
  · rename_i hslash hquote _
    exact readValue_cons hslash hquote cs

/-- Every value is read back from what the format writes for it. -/
theorem readValue_escaped (value rest : List Char) :
    readValue (escaped value ++ '"' :: rest) = some (value, rest) := by
  induction value with
  | nil => rfl
  | cons c value ih =>
    show readValue ((escapeLabel c ++ escaped value) ++ _) = _
    rw [List.append_assoc, readValue_escapeLabel, ih]
    rfl

theorem escaped_of_plain {value : List Char} (h : Plain value) : escaped value = value := by
  induction value with
  | nil => rfl
  | cons c value ih =>
    obtain ⟨hslash, hquote, hfeed⟩ := h
    simp only [List.mem_cons, not_or] at hslash hquote hfeed
    have hc : escapeLabel c = [c] := by
      unfold escapeLabel
      split
      · exact absurd rfl hslash.1
      · exact absurd rfl hquote.1
      · exact absurd rfl hfeed.1
      · rfl
    show escapeLabel c ++ escaped value = _
    rw [hc, ih ⟨hslash.2, hquote.2, hfeed.2⟩, List.singleton_append]

/-- What the format writes for a value has no line feed in it. -/
theorem newline_notMem_escaped (value : List Char) : '\n' ∉ escaped value := by
  intro h
  obtain ⟨c, -, hc⟩ := List.mem_flatMap.mp h
  unfold escapeLabel at hc
  split at hc
  · simp at hc
  · simp at hc
  · simp at hc
  · rename_i hfeed
    exact hfeed (List.mem_singleton.mp hc).symm

theorem length_readValue {cs value rest : List Char} (h : readValue cs = some (value, rest)) :
    rest.length < cs.length := by
  fun_induction readValue cs generalizing value with
  | case1 => cases h
  | case2 => cases h; simp
  | case3 c cs ih =>
    obtain ⟨d, hd, h⟩ := Option.bind_eq_some_iff.mp h
    obtain ⟨p, hp, h⟩ := Option.map_eq_some_iff.mp h
    cases h
    have := ih hp
    simp only [List.length_cons]
    omega
  | case4 c cs _ _ ih =>
    obtain ⟨p, hp, h⟩ := Option.map_eq_some_iff.mp h
    cases h
    have := ih hp
    simp only [List.length_cons]
    omega

/-! ## Values that are not escaped -/

/-- What stands before the first quote of a text. -/
def beforeQuote (cs : List Char) : List Char := cs.takeWhile (· != '"')

theorem beforeQuote_cons {c : Char} (h : c ≠ '"') (cs : List Char) :
    beforeQuote (c :: cs) = c :: beforeQuote cs := by
  simp [beforeQuote, h]

theorem unescape?_ne_quote {c d : Char} (h : unescape? c = some d) (hc : c ≠ '"') : d ≠ '"' := by
  unfold unescape? at h
  split at h
  · cases h; decide
  · exact absurd rfl hc
  · cases h; decide
  · cases h

/-- The value that is read has its first quote where the text has its own, or before that: two
backslashes on the way cost a place at least. -/
theorem length_beforeQuote_readValue {a rest value rest' : List Char} (ha : '"' ∉ a)
    (h : readValue (a ++ '"' :: rest) = some (value, rest')) :
    2 * (beforeQuote value).length + a.count '\\' ≤ 2 * a.length := by
  generalize hcs : a ++ '"' :: rest = cs at h
  fun_induction readValue cs generalizing a value with
  | case1 => cases h
  | case2 tail =>
    cases h
    have : a.count '\\' ≤ a.length := List.count_le_length
    simp only [beforeQuote, List.takeWhile_nil, List.length_nil]
    omega
  | case3 c tail ih =>
    obtain ⟨d, hd, h⟩ := Option.bind_eq_some_iff.mp h
    obtain ⟨p, hp, h⟩ := Option.map_eq_some_iff.mp h
    cases h
    match a, hcs with
    | [x], hcs =>
      -- The backslash escapes the quote, so the value read has its first quote here.
      obtain ⟨rfl, -⟩ := List.cons.inj (List.cons.inj hcs).2
      cases hd
      have : [x].count '\\' ≤ 1 := List.count_le_length
      simp only [beforeQuote, List.takeWhile_cons_of_neg, bne_self_eq_false, Bool.false_eq_true,
        not_false_eq_true, List.length_nil, List.length_singleton]
      omega
    | y :: x :: a, hcs =>
      obtain ⟨rfl, htail⟩ := List.cons.inj (List.cons.inj hcs).2
      simp only [List.mem_cons, not_or] at ha
      have hbefore := ih ha.2.2 htail hp
      have hcount : (y :: x :: a).count '\\' ≤ a.count '\\' + 2 := by
        rw [List.count_cons, List.count_cons]
        split <;> split <;> omega
      rw [beforeQuote_cons (unescape?_ne_quote hd (Ne.symm ha.2.1))]
      simp only [List.length_cons]
      omega
  | case4 c tail hquote hslash ih =>
    obtain ⟨p, hp, h⟩ := Option.map_eq_some_iff.mp h
    cases h
    match a, hcs with
    | [], hcs => exact absurd (List.cons.inj hcs).1.symm hquote
    | x :: a, hcs =>
      obtain ⟨rfl, htail⟩ := List.cons.inj hcs
      simp only [List.mem_cons, not_or] at ha
      have hbefore := ih ha.2 htail hp
      have hx : x ≠ '\\' := by
        rintro rfl
        cases tail with
        | nil => simp at htail
        | cons c tail => exact hslash c tail rfl rfl
      rw [beforeQuote_cons hquote, List.count_cons_of_ne hx]
      simp only [List.length_cons]
      omega

theorem quote_notMem_beforeQuote (value : List Char) : '"' ∉ beforeQuote value := by
  intro h
  simpa using List.mem_takeWhile_imp h

/-- A text up to a quote after it goes on with a quote where its own first one is. -/
theorem exists_beforeQuote (value rest : List Char) :
    ∃ tail, value ++ '"' :: rest = beforeQuote value ++ '"' :: tail := by
  induction value with
  | nil => exact ⟨rest, rfl⟩
  | cons c value ih =>
    by_cases h : c = '"'
    · subst h
      exact ⟨value ++ '"' :: rest, rfl⟩
    · obtain ⟨tail, htail⟩ := ih
      rw [beforeQuote_cons h, List.cons_append, htail]
      exact ⟨tail, rfl⟩

/-- A value that is not escaped is read back only if nothing in it ends it or escapes anything. -/
theorem notMem_of_readValue {value rest rest' : List Char}
    (h : readValue (value ++ '"' :: rest) = some (value, rest')) :
    '\\' ∉ value ∧ '"' ∉ value := by
  obtain ⟨tail, htail⟩ := exists_beforeQuote value rest
  have hquote := quote_notMem_beforeQuote value
  rw [htail] at h
  have hlength := length_beforeQuote_readValue hquote h
  have hslash : '\\' ∉ beforeQuote value := List.count_eq_zero.mp (by omega)
  -- So the value ends at its own first quote, if it has one.
  rw [readValue_append hslash hquote] at h
  obtain ⟨heq, -⟩ := Prod.mk.inj (Option.some.inj h)
  rw [heq] at hslash hquote
  exact ⟨hslash, hquote⟩

/-! ## Labels -/

/-- A label: its name, an equals sign and its value in quotes. -/
def readLabel (cs : List Char) : Option ((String × String) × List Char) :=
  match readName isLabelChar cs with
  | some (name, '=' :: '"' :: rest) =>
    (readValue rest).map fun p => ((String.ofList name, String.ofList p.1), p.2)
  | _ => none

theorem length_readLabel {cs rest : List Char} {l : String × String}
    (h : readLabel cs = some (l, rest)) : rest.length < cs.length := by
  unfold readLabel at h
  split at h
  · rename_i hname
    obtain ⟨p, hp, h⟩ := Option.map_eq_some_iff.mp h
    cases h
    have hvalue := length_readValue hp
    have hrest := length_readName hname
    simp only [List.length_cons] at hrest
    omega
  · cases h

/-- Labels with commas between them up to the closing brace, and what follows that. -/
def readLabels (cs : List Char) : Option (List (String × String) × List Char) :=
  match _h : readLabel cs with
  | some (l, '}' :: rest) => some ([l], rest)
  | some (l, ',' :: rest) => (readLabels rest).map fun p => (l :: p.1, p.2)
  | _ => none
termination_by cs.length
decreasing_by
  have := length_readLabel _h
  simp only [List.length_cons] at this
  omega

theorem readLabels_last {cs rest : List Char} {l : String × String}
    (h : readLabel cs = some (l, '}' :: rest)) : readLabels cs = some ([l], rest) := by
  rw [readLabels]
  split
  · rename_i hlast
    cases h.symm.trans hlast
    rfl
  · rename_i hmore
    cases h.symm.trans hmore
  · rename_i hother _
    exact absurd h (hother l rest)

theorem readLabels_more {cs rest : List Char} {l : String × String}
    (h : readLabel cs = some (l, ',' :: rest)) :
    readLabels cs = (readLabels rest).map fun p => (l :: p.1, p.2) := by
  rw [readLabels]
  split
  · rename_i hlast
    cases h.symm.trans hlast
  · rename_i hmore
    cases h.symm.trans hmore
    rfl
  · rename_i _ hother
    exact absurd h (hother l rest)

theorem toList_label (name value : String) :
    (label name value).toList = name.toList ++ '=' :: '"' :: (value.toList ++ ['"']) := by
  simp [label]

/-- A value between the quotes of a label. -/
def quoted (value : String) : String := .ofList (escaped value.toList)

theorem readLabel_label {l : String × String} (h : isName isLabelChar l.1.toList)
    (rest : List Char) :
    readLabel ((label l.1 (quoted l.2)).toList ++ rest) = some (l, rest) := by
  have hname := readName_append h (c := '=') (by decide)
    ('"' :: (escaped l.2.toList ++ '"' :: rest))
  have htext : (label l.1 (quoted l.2)).toList ++ rest =
      l.1.toList ++ '=' :: '"' :: (escaped l.2.toList ++ '"' :: rest) := by
    simp [toList_label, quoted]
  rw [readLabel, htext, hname]
  simp [readValue_escaped]

/-- Labels as the format writes them. -/
def written (ls : List (String × String)) : List String :=
  ls.map fun l => label l.1 (quoted l.2)

theorem readLabels_labels {ls : List (String × String)} (hne : ls ≠ [])
    (h : ∀ l ∈ ls, isName isLabelChar l.1.toList) (rest : List Char) :
    readLabels ((",".intercalate (written ls)).toList ++ '}' :: rest) = some (ls, rest) := by
  induction ls with
  | nil => exact absurd rfl hne
  | cons l ls ih =>
    obtain ⟨hl, hls⟩ := List.forall_mem_cons.mp h
    cases ls with
    | nil => exact readLabels_last (readLabel_label hl ('}' :: rest))
    | cons l' ls =>
      have htext : (",".intercalate (written (l :: l' :: ls))).toList ++ '}' :: rest =
          (label l.1 (quoted l.2)).toList ++
            ',' :: ((",".intercalate (written (l' :: ls))).toList ++ '}' :: rest) := by
        simp [written]
      rw [htext, readLabels_more (readLabel_label hl _), ih (by simp) hls]
      rfl

/-! ## Samples -/

/-- A sample: a metric, its labels, and a count. -/
structure Sample where
  metric : String
  labels : List (String × String)
  value : Nat
deriving DecidableEq

/-- A whole number. -/
def readCount (digits : List Char) : Option Nat :=
  if digits ≠ [] ∧ digits.all Char.isDigit then some (Nat.ofDigitChars 10 digits 0) else none

theorem readCount_toDigits (n : Nat) : readCount (Nat.toDigits 10 n) = some n := by
  have hdigits : (Nat.toDigits 10 n).all Char.isDigit :=
    List.all_eq_true.mpr fun c hc => Nat.isDigit_of_mem_toDigits (by decide) (by decide) hc
  rw [readCount, if_pos ⟨Nat.toDigits_ne_nil, hdigits⟩, Nat.ofDigitChars_ten_toDigits]

/-- The labels of a sample after the opening brace, then a blank and a count. -/
def readFields (metric : String) (cs : List Char) : Option Sample :=
  match readLabels cs with
  | some (labels, ' ' :: digits) => (readCount digits).map fun n => ⟨metric, labels, n⟩
  | _ => none

/-- A line of a family: the metric's name, labels in braces, a blank and a count. -/
def readSample (line : List Char) : Option Sample :=
  match readName isMetricChar line with
  | some (metric, '{' :: rest) => readFields (.ofList metric) rest
  | _ => none

theorem readSample_append {metric : String} (h : isName isMetricChar metric.toList)
    (rest : List Char) :
    readSample (metric.toList ++ '{' :: rest) = readFields metric rest := by
  rw [readSample, readName_append h (by decide)]
  simp only [String.ofList_toList]

/-- The line of a sample. -/
def line (metric : String) (labels : List String) (value : UInt64) : List Char :=
  metric.toList ++ '{' :: ((",".intercalate labels).toList ++
    '}' :: ' ' :: Nat.toDigits 10 value.toNat)

theorem toList_sample (metric : String) (labels : List String) (value : UInt64) :
    (sample metric labels value).toList = line metric labels value ++ ['\n'] := by
  simp [sample, line]

theorem readSample_line {metric : String} (hmetric : isName isMetricChar metric.toList)
    {ls : List (String × String)} (hne : ls ≠ [])
    (hls : ∀ l ∈ ls, isName isLabelChar l.1.toList) (value : UInt64) :
    readSample (line metric (written ls) value) = some ⟨metric, ls, value.toNat⟩ := by
  rw [line, readSample_append hmetric, readFields, readLabels_labels hne hls]
  simp only [readCount_toDigits, Option.map_some]

/-! ## Samples that are not escaped -/

/-- The first label that is read stands at the front of the labels. -/
theorem head?_readLabels {cs rest : List Char} {ls : List (String × String)}
    (h : readLabels cs = some (ls, rest)) :
    ∃ l rest', readLabel cs = some (l, rest') ∧ ls.head? = some l := by
  rw [readLabels] at h
  split at h
  · rename_i l tail hlabel
    cases h
    exact ⟨l, _, hlabel, rfl⟩
  · rename_i l tail hlabel
    obtain ⟨p, -, hp⟩ := Option.map_eq_some_iff.mp h
    cases hp
    exact ⟨l, _, hlabel, rfl⟩
  · cases h

/-- After the opening quote of a first label comes its value, and its closing quote. -/
theorem exists_firstValue (name value : String) (labels : List String) (rest : List Char) :
    ∃ tail, (",".intercalate (label name value :: labels)).toList ++ rest =
      name.toList ++ '=' :: '"' :: (value.toList ++ '"' :: tail) := by
  cases labels with
  | nil => exact ⟨rest, by simp [toList_label]⟩
  | cons l labels =>
    refine ⟨',' :: ((",".intercalate (l :: labels)).toList ++ rest), ?_⟩
    rw [String.intercalate_cons_cons]
    simp [toList_label]

/-- **A sample whose first value is not escaped** is read back only if no backslash and no quote is
in the value. -/
theorem notMem_of_readSample {metric name value : String} {labels : List String} {n : UInt64}
    {s : Sample} (hmetric : isName isMetricChar metric.toList)
    (hname : isName isLabelChar name.toList)
    (h : readSample (line metric (label name value :: labels) n) = some s)
    (hs : s.labels.head? = some (name, value)) :
    '\\' ∉ value.toList ∧ '"' ∉ value.toList := by
  obtain ⟨tail, htail⟩ := exists_firstValue name value labels
    ('}' :: ' ' :: Nat.toDigits 10 n.toNat)
  rw [line, htail, readSample_append hmetric, readFields] at h
  split at h
  · rename_i ls digits hlabels
    obtain ⟨count, -, rfl⟩ := Option.map_eq_some_iff.mp h
    obtain ⟨l, rest, hlabel, hl⟩ := head?_readLabels hlabels
    obtain rfl : l = (name, value) := Option.some.inj (hl.symm.trans hs)
    rw [readLabel, readName_append hname (by decide)] at hlabel
    obtain ⟨⟨read, rest'⟩, hread, heq⟩ := Option.map_eq_some_iff.mp hlabel
    obtain ⟨heq, -⟩ := Prod.mk.inj heq
    obtain ⟨-, hvalue⟩ := Prod.mk.inj heq
    have hself : read = value.toList := by rw [← hvalue, String.toList_ofList]
    rw [hself] at hread
    exact notMem_of_readValue hread
  · cases h

end Exposition

end ResilientCache
