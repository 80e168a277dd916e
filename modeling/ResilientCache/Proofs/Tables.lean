import Mathlib.Data.List.Nodup
import ResilientCache.KeyMap

/-!
# More about finite maps

A request names each of its keys once (`nodup_eraseDups`).

Two maps with the same view differ in the order of their pairs only (`perm_of_get?_eq`), so they
have the same size. `settle` brings some keys of a map to what another map decides for them, the way
a bulk primitive of a store does; `get?_settle` is its view.
-/

namespace ResilientCache

/-- Requested keys are served once each. -/
theorem nodup_eraseDups {α : Type} [DecidableEq α] : ∀ l : List α, l.eraseDups.Nodup
  | [] => .nil
  | a :: l => by
    rw [List.eraseDups_cons, List.nodup_cons]
    exact ⟨by simp [List.mem_eraseDups], nodup_eraseDups _⟩
termination_by l => l.length
decreasing_by exact Nat.lt_succ_of_le (List.length_filter_le _ l)

/-- Nothing is requested only if no key was given. -/
@[simp] theorem isEmpty_eraseDups {α : Type} [DecidableEq α] (l : List α) :
    l.eraseDups.isEmpty = l.isEmpty := by
  cases l with
  | nil => rfl
  | cons a l => rw [List.eraseDups_cons, List.isEmpty_cons, List.isEmpty_cons]

@[simp] theorem eraseDups_singleton {α : Type} [DecidableEq α] (a : α) :
    [a].eraseDups = [a] := by
  rw [List.eraseDups_cons, List.filter_nil, List.eraseDups_nil]

/-- A request without repeated keys is served as it is. -/
theorem eraseDups_of_nodup {α : Type} [DecidableEq α] {l : List α} (h : l.Nodup) :
    l.eraseDups = l := by
  induction l with
  | nil => rfl
  | cons a l ih =>
    obtain ⟨ha, hl⟩ := List.nodup_cons.mp h
    have hother : l.filter (fun b => !b == a) = l :=
      List.filter_eq_self.mpr fun b hb => by simpa using fun heq : b = a => ha (heq ▸ hb)
    rw [List.eraseDups_cons, hother, ih hl]

namespace KeyMap

variable {K β γ : Type}

theorem nodup_pairs (m : KeyMap K β) : m.pairs.Nodup := .of_map _ m.nodup

variable [DecidableEq K]

/-! ## Views -/

/-- Maps with the same view list the same pairs. -/
theorem perm_of_get?_eq {m m' : KeyMap K β} (h : ∀ k, m.get? k = m'.get? k) :
    m.pairs.Perm m'.pairs := by
  refine (List.perm_ext_iff_of_nodup m.nodup_pairs m'.nodup_pairs).mpr ?_
  rintro ⟨k, b⟩
  rw [mem_pairs_iff, mem_pairs_iff, h]

theorem size_eq_of_get?_eq {m m' : KeyMap K β} (h : ∀ k, m.get? k = m'.get? k) :
    m.size = m'.size :=
  (perm_of_get?_eq h).length_eq

theorem get?_filterMap (f : K → β → Option γ) (m : KeyMap K β) (k : K) :
    (m.filterMap f).get? k = (m.get? k).bind (f k) := by
  ext c
  rw [← mem_pairs_iff, Option.bind_eq_some_iff]
  constructor
  · intro h
    obtain ⟨⟨k', b⟩, hp, hc⟩ := List.mem_filterMap.mp h
    obtain ⟨c', hc', he⟩ := Option.map_eq_some_iff.mp hc
    cases he
    exact ⟨b, mem_pairs_iff.mp hp, hc'⟩
  · rintro ⟨b, hb, hc⟩
    exact List.mem_filterMap.mpr ⟨(k, b), mem_pairs_iff.mpr hb, by simp [hc]⟩

/-- The map of a function on some keys. -/
theorem get?_ofList_map (f : K → β) (ks : List K) (k : K) :
    (ofList (ks.map fun k => (k, f k))).get? k = if k ∈ ks then some (f k) else none := by
  rw [get?_ofList, ← List.map_reverse, List.find?_map, Option.map_map]
  cases hf : ks.reverse.find? ((fun p : K × β => decide (p.1 = k)) ∘ fun k => (k, f k)) with
  | none =>
    have hk : k ∉ ks := fun hk => by
      have := List.find?_eq_none.mp hf k (List.mem_reverse.mpr hk)
      simp at this
    simp [hk]
  | some k' =>
    have he : k' = k := by simpa using List.find?_some hf
    have hk : k ∈ ks := he ▸ List.mem_reverse.mp (List.mem_of_find?_eq_some hf)
    simp [hk, he]

/-- What a map of a list of pairs maps a key to is one of the pairs. -/
theorem mem_of_get?_ofList {ps : List (K × β)} {k : K} {b : β}
    (h : (ofList ps).get? k = some b) : (k, b) ∈ ps := by
  rw [get?_ofList] at h
  obtain ⟨p, hp, rfl⟩ := Option.map_eq_some_iff.mp h
  have hk : p.1 = k := by simpa using List.find?_some hp
  subst hk
  exact List.mem_reverse.mp (List.mem_of_find?_eq_some hp)

theorem isSome_get?_ofList (ps : List (K × β)) (k : K) :
    ((ofList ps).get? k).isSome = true ↔ k ∈ ps.map Prod.fst := by
  rw [get?_ofList, Option.isSome_map, List.find?_isSome]
  simp

/-- The order of pairs with distinct keys does not matter. -/
theorem get?_ofList_of_perm {ps : List (K × β)} {m : KeyMap K β} (h : ps.Perm m.pairs) (k : K) :
    (ofList ps).get? k = m.get? k := by
  cases hps : (ofList ps).get? k with
  | some b => exact (mem_pairs_iff.mp (h.mem_iff.mp (mem_of_get?_ofList hps))).symm
  | none =>
    cases hm : m.get? k with
    | none => rfl
    | some b =>
      have hk : k ∈ ps.map Prod.fst := List.mem_map_of_mem (h.mem_iff.mpr (mem_pairs_iff.mpr hm))
      rw [← isSome_get?_ofList, hps] at hk
      cases hk

/-- The map of pairs with distinct keys lists these pairs. -/
theorem perm_pairs_ofList {ps : List (K × β)} (h : (ps.map Prod.fst).Nodup) :
    (ofList ps).pairs.Perm ps := by
  have hget (k : K) : (ofList ps).get? k = (⟨ps, h⟩ : KeyMap K β).get? k :=
    get?_ofList_of_perm (.refl ps) k
  exact perm_of_get?_eq hget

/-- A pair counts unless a later one has its key. -/
theorem get?_ofList_cons (p : K × β) (ps : List (K × β)) (k : K) :
    (ofList (p :: ps)).get? k =
      ((ofList ps).get? k).or (if p.1 = k then some p.2 else none) := by
  rw [ofList, List.foldl_cons, get?_foldl_insert, ← get?_ofList, get?_insert, get?_empty]

theorem contains_insert (m : KeyMap K β) (k k' : K) (b : β) :
    (m.insert k b).contains k' = true ↔ k = k' ∨ m.contains k' = true := by
  rw [contains, get?_insert, contains]
  by_cases hk : k = k' <;> simp [hk]

theorem contains_erase_of_ne (m : KeyMap K β) {k k' : K} (hk : k ≠ k') :
    (m.erase k).contains k' = m.contains k' := by
  rw [contains, get?_erase, if_neg hk, contains]

theorem contains_foldl_insert (ps : List (K × β)) (m : KeyMap K β) (k : K) :
    (ps.foldl (fun m p => m.insert p.1 p.2) m).contains k = true ↔
      k ∈ ps.map Prod.fst ∨ m.contains k = true := by
  rw [contains, get?_foldl_insert, ← get?_ofList, Option.isSome_or, Bool.or_eq_true,
    isSome_get?_ofList, contains]

theorem get?_foldl_erase (k : K) : ∀ (ks : List K) (m : KeyMap K β),
    (ks.foldl erase m).get? k = if k ∈ ks then none else m.get? k
  | [], m => rfl
  | k' :: ks, m => by
    rw [List.foldl_cons, get?_foldl_erase k ks, get?_erase]
    by_cases hk : k' = k
    · simp [hk]
    · simp [hk, Ne.symm hk]

/-- Those of some keys that are not mapped, each once. -/
def missing (m : KeyMap K β) (ks : List K) : List K := ks.eraseDups.filter fun k => !m.contains k

/-! ## Settling -/

/-- Map a key to something, or unmap it. -/
def put? (m : KeyMap K β) (k : K) : Option β → KeyMap K β
  | none => m.erase k
  | some b => m.insert k b

@[simp] theorem get?_put? (m : KeyMap K β) (k k' : K) (b? : Option β) :
    (m.put? k b?).get? k' = if k = k' then b? else m.get? k' := by
  cases b? with
  | none => exact get?_erase ..
  | some b => exact get?_insert ..

/-- Mapping a key to what it is mapped to changes nothing. -/
theorem get?_put?_self {m : KeyMap K β} {k : K} {b? : Option β} (h : m.get? k = b?) (k' : K) :
    (m.put? k b?).get? k' = m.get? k' := by
  rw [get?_put?]
  split
  · subst ‹k = k'›
    exact h.symm
  · rfl

/-- Bring a key to what is decided for it; without a decision it stays as it is. -/
def settleKey (decided : KeyMap K (Option β)) (m : KeyMap K β) (k : K) : KeyMap K β :=
  match decided.get? k with
  | none => m
  | some b? => m.put? k b?

/-- Bring some keys to what is decided for them. -/
def settle (m : KeyMap K β) (decided : KeyMap K (Option β)) (ks : List K) : KeyMap K β :=
  ks.foldl (settleKey decided) m

theorem get?_settleKey (decided : KeyMap K (Option β)) (m : KeyMap K β) (k k' : K) :
    (settleKey decided m k).get? k' =
      if k = k' then (decided.get? k).getD (m.get? k) else m.get? k' := by
  unfold settleKey
  cases hd : decided.get? k with
  | none =>
    by_cases hk : k = k'
    · subst hk
      simp
    · simp [hk]
  | some b? => simp

theorem get?_settle (decided : KeyMap K (Option β)) (k : K) : ∀ (ks : List K) (m : KeyMap K β),
    (m.settle decided ks).get? k = if k ∈ ks then (decided.get? k).getD (m.get? k) else m.get? k
  | [], m => rfl
  | k' :: ks, m => by
    rw [settle, List.foldl_cons, ← settle, get?_settle decided k ks, get?_settleKey]
    by_cases hk : k' = k
    · subst hk
      cases hd : decided.get? k' <;> simp
    · have hne : k ≠ k' := Ne.symm hk
      simp [hk, hne]

/-- The decisions to map a key to something. -/
def present (decided : KeyMap K (Option β)) : KeyMap K (Option β) :=
  decided.filter fun _ b? => b?.isSome

theorem get?_present (decided : KeyMap K (Option β)) (k : K) :
    decided.present.get? k = (decided.get? k).filter Option.isSome := get?_filter ..

end KeyMap

end ResilientCache
