/-!
# Finite maps

`KeyMap K β` is a finite map from keys to `β`, held as a list of pairs without repeated keys. Its
view is `get?`, and one equation per operation says what the operation does to the view. The order
of the pairs means nothing; callers that show a map sort it.

Main statements: `get?_insert`, `get?_erase`, `get?_ofList`, `mem_pairs_iff`.
-/

namespace ResilientCache

/-- A finite map: pairs of a key and what it is mapped to, no key twice. -/
structure KeyMap (K β : Type) where
  pairs : List (K × β) := []
  nodup : (pairs.map Prod.fst).Nodup := by simp

namespace KeyMap

variable {K β γ : Type}

/-- The map without keys. -/
def empty : KeyMap K β := {}

instance : Inhabited (KeyMap K β) := ⟨empty⟩

/-- The keys of a map. -/
def keys (m : KeyMap K β) : List K := m.pairs.map Prod.fst

/-- What the keys of a map are mapped to. -/
def values (m : KeyMap K β) : List β := m.pairs.map Prod.snd

/-- How many keys are mapped. -/
def size (m : KeyMap K β) : Nat := m.pairs.length

@[simp] theorem pairs_empty : (empty : KeyMap K β).pairs = [] := rfl

theorem nodup_filter {ps : List (K × β)} (h : (ps.map Prod.fst).Nodup) (p : K × β → Bool) :
    ((ps.filter p).map Prod.fst).Nodup :=
  (List.Sublist.map Prod.fst List.filter_sublist).nodup h

/-- The pairs of a map that satisfy a test. -/
def filter (p : K → β → Bool) (m : KeyMap K β) : KeyMap K β where
  pairs := m.pairs.filter fun q => p q.1 q.2
  nodup := nodup_filter m.nodup _

theorem sublist_filterMap (f : K → β → Option γ) (ps : List (K × β)) :
    ((ps.filterMap fun p => (f p.1 p.2).map (p.1, ·)).map Prod.fst).Sublist
      (ps.map Prod.fst) := by
  induction ps with
  | nil => exact .slnil
  | cons p ps ih =>
    rw [List.filterMap_cons]
    cases hf : f p.1 p.2 with
    | none => simpa [hf] using .cons _ ih
    | some c => simpa [hf] using ih

/-- A map with each value replaced, or its key dropped. -/
def filterMap (f : K → β → Option γ) (m : KeyMap K β) : KeyMap K γ where
  pairs := m.pairs.filterMap fun p => (f p.1 p.2).map (p.1, ·)
  nodup := (sublist_filterMap f m.pairs).nodup m.nodup

section Lookup

variable [DecidableEq K]

/-- What a key is mapped to. -/
def get? (m : KeyMap K β) (k : K) : Option β :=
  (m.pairs.find? fun p => p.1 = k).map Prod.snd

/-- Whether a key is mapped. -/
def contains (m : KeyMap K β) (k : K) : Bool := (m.get? k).isSome

/-- The map without a key. -/
def erase (m : KeyMap K β) (k : K) : KeyMap K β := m.filter fun k' _ => k' ≠ k

/-- The map with a key mapped to something, whatever it was mapped to before. -/
def insert (m : KeyMap K β) (k : K) (b : β) : KeyMap K β where
  pairs := (k, b) :: (m.erase k).pairs
  nodup := by
    refine List.nodup_cons.2 ⟨?_, (m.erase k).nodup⟩
    simp [erase, filter]

/-- The map of a list of pairs, in which a later pair overrides an earlier one of the same key. -/
def ofList (ps : List (K × β)) : KeyMap K β := ps.foldl (fun m p => m.insert p.1 p.2) empty

/-! ## The view -/

/-- A pair is in the list of a map exactly when looking its key up finds it. -/
theorem mem_pairs_iff {m : KeyMap K β} {k : K} {b : β} : (k, b) ∈ m.pairs ↔ m.get? k = some b := by
  obtain ⟨ps, h⟩ := m
  simp only [get?]
  induction ps with
  | nil => simp
  | cons p ps ih =>
    obtain ⟨k', b'⟩ := p
    obtain ⟨hk, h⟩ := List.nodup_cons.1 h
    have hmem : ∀ b, (k', b) ∉ ps := fun b hb => hk (List.mem_map.2 ⟨_, hb, rfl⟩)
    rw [List.mem_cons, List.find?_cons]
    by_cases hkk : k' = k
    · subst hkk
      simp [hmem, eq_comm]
    · simp [hkk, Ne.symm hkk, ih h]

theorem mem_keys_iff {m : KeyMap K β} {k : K} : k ∈ m.keys ↔ (m.get? k).isSome := by
  simp only [keys, List.mem_map, Prod.exists, exists_and_right, exists_eq_right]
  simp [mem_pairs_iff, Option.isSome_iff_exists]

@[simp] theorem get?_empty (k : K) : (empty : KeyMap K β).get? k = none := rfl

theorem get?_filter (p : K → β → Bool) (m : KeyMap K β) (k : K) :
    (m.filter p).get? k = (m.get? k).filter (p k) := by
  ext b
  rw [← mem_pairs_iff]
  simp [filter, mem_pairs_iff, Option.filter_eq_some_iff]

@[simp] theorem get?_erase (m : KeyMap K β) (k k' : K) :
    (m.erase k).get? k' = if k = k' then none else m.get? k' := by
  rw [erase, get?_filter]
  split
  · subst ‹k = k'›
    cases m.get? k <;> simp
  · cases m.get? k' <;> simp [Ne.symm ‹k ≠ k'›]

@[simp] theorem get?_insert (m : KeyMap K β) (k k' : K) (b : β) :
    (m.insert k b).get? k' = if k = k' then some b else m.get? k' := by
  by_cases h : k = k'
  · simp [get?, insert, h]
  · have : (m.erase k).get? k' = m.get? k' := by rw [get?_erase, if_neg h]
    simp only [if_neg h, ← this]
    simp [get?, insert, h]

theorem get?_foldl_insert (ps : List (K × β)) (m : KeyMap K β) (k : K) :
    (ps.foldl (fun m p => m.insert p.1 p.2) m).get? k =
      ((ps.reverse.find? fun p => p.1 = k).map Prod.snd).or (m.get? k) := by
  induction ps generalizing m with
  | nil => simp
  | cons p ps ih =>
    rw [List.foldl_cons, ih, get?_insert, List.reverse_cons, List.find?_append]
    cases hf : ps.reverse.find? (fun q => q.1 = k) with
    | some q => simp
    | none => by_cases hp : p.1 = k <;> simp [hp]

/-- The last pair for a key decides what `ofList` maps it to. -/
theorem get?_ofList (ps : List (K × β)) (k : K) :
    (ofList ps).get? k = (ps.reverse.find? fun p => p.1 = k).map Prod.snd := by
  simp [ofList, get?_foldl_insert]

end Lookup

end KeyMap

end ResilientCache
