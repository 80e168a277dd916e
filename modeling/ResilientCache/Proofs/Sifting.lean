import ResilientCache.Proofs.Leaving
import ResilientCache.Proofs.Surfacing

/-!
# Taking out entries while walking

The loop `Cache.sift` asks a walk whether there is a next entry, takes it, and removes it through the
walk if it passes a test. It ends over every store and under every strategy: a turn that goes well
leaves the walk fewer entries to offer, since one step of the raw iteration at least is used up
(`turn_offers`).

Over a store in memory a walk looks ahead before the entry it has offered is removed, and looking
ahead drops the keys that have expired. So in the middle of a turn there are three kinds of keys:
those still before the walk and the one just offered are as they were in the beginning; all others
are done with, they hold what the loop is to leave them (`Swept`). A turn takes one key from the first
kind to the last, after the expired ones that the walk passes over (`Sifting.turn`).

Headlines:
* `Sifting.turn`, `Sifting.sift`: what a turn and the whole loop make of the store.
* **`sift_exact`**: the loop visits every live entry once, and takes out those that pass the test.
-/

namespace ResilientCache

open Memory

variable {σ K V : Type}

/-! ## How far a walk can go -/

namespace Cursor

/-- How often a walk can still offer an entry, at most. -/
def offers (cur : Cursor K V) : Nat :=
  if cur.terminated then 0 else cur.raw.length + if cur.ahead.isSome then 1 else 0

variable (c : Cache σ K V) (cur : Cursor K V)

/-- Looking ahead does not forget which entry was offered last. -/
theorem seek_current (steps : List (RawStep K V)) (s : Cache.State σ) :
    (cur.seek c steps s).answer.current = cur.current := by
  induction steps generalizing s with
  | nil => rfl
  | cons step steps ih =>
    rcases step with e | ⟨k, h⟩
    · rfl
    · rw [seek, Action.bind_apply]
      rcases (c.lookup k false).run s with ⟨e | _ | v, s', es⟩
      · rfl
      · exact ih s'
      · rfl

/-- What is found ahead is one of the steps looked along. -/
theorem seek_offers (steps : List (RawStep K V)) (s : Cache.State σ) :
    (cur.seek c steps s).answer.offers ≤ steps.length := by
  induction steps generalizing s with
  | nil =>
    simp [seek, offers, Lookahead.isSome]
  | cons step steps ih =>
    have stops (ahead : Lookahead K V) :
        ({ cur with raw := steps, ahead } : Cursor K V).offers ≤ (step :: steps).length := by
      unfold offers
      split
      · exact Nat.zero_le _
      · exact Nat.add_le_add_left (by split <;> decide) _
    rcases step with e | ⟨k, h⟩
    · exact stops _
    · rw [seek, Action.bind_apply]
      rcases (c.lookup k false).run s with ⟨e | _ | v, s', es⟩
      · exact stops _
      · exact Nat.le_succ_of_le (ih s')
      · exact stops _

/-- A walk that is given a next entry has fewer left. -/
theorem nextEntry_offers {s : Cache.State σ} {e : Entry K V}
    (h : (cur.nextEntry c s).answer.1 = .ok e) :
    (cur.nextEntry c s).answer.2.offers < cur.offers := by
  by_cases hs : s.lifecycle.status = .available
  case neg =>
    rw [c.nextEntry_refused cur hs] at h
    cases h
  rw [cur.nextEntry_apply c hs] at h ⊢
  by_cases hterminated : cur.terminated
  · rw [if_pos hterminated] at h
    cases h
  rw [if_neg hterminated] at h ⊢
  cases hahead : cur.ahead with
  | nothing =>
    rw [hahead] at h
    cases h
  | entry e =>
    have hseek := seek_offers c { cur with current := some e.key } cur.raw s
    have hoffers : cur.offers = cur.raw.length + 1 := by
      simp [offers, hterminated, hahead, Lookahead.isSome]
    simp only [offer_apply]
    omega
  | failure held =>
    -- a failure may be answered with an entry, and the walk is over
    simp [surface_apply, offers, hterminated, hahead, Lookahead.isSome]

end Cursor

namespace Cache

variable [DecidableEq K] [BEq V]

/-! ## The loop -/

/-- One turn of the loop: take the next entry, and remove it if it passes the test. -/
def turn (c : Cache σ K V) (test : Entry K V → Bool) (i : Nat) :
    Action (World σ K V) (Event K V) (Except CacheError (Entry K V)) := do
  match ← c.use (.nextEntry i) with
  | .error failure => return .error failure
  | .ok e =>
    if test e then return (← c.use (.remove i)).map fun _ => e
    else return .ok e

section

variable {c : Cache σ K V} {test : Entry K V → Bool} {i : Nat} {w : World σ K V}

/-- Asking whether there is a next entry changes nothing. -/
theorem hasNext_state (c : Cache σ K V) (i : Nat) (w : World σ K V) :
    (c.use (.hasNext i) w).state = w := by
  by_cases hw : w.status = .available
  · rw [hasNext_held hw]
  · rw [c.use_refused _ hw]

/-- A turn that goes well leaves the walk fewer entries to offer. -/
theorem turn_offers {e : Entry K V} (h : (c.turn test i w).answer = .ok e) :
    ((c.turn test i w).state.walks i).offers < (w.walks i).offers := by
  rw [turn, Action.bind_apply] at h ⊢
  rcases hnext : c.use (.nextEntry i) w with ⟨failure | e', w', es⟩
  · rw [hnext] at h
    cases h
  have hrun := hnext
  rw [use, onWalk_apply] at hrun
  have hoffers : (w'.walks i).offers < (w.walks i).offers := by
    have hstate := congrArg Run.state hrun
    dsimp only at hstate
    rw [← hstate, World.walks_setWalk]
    exact (w.walks i).nextEntry_offers c (congrArg Run.answer hrun)
  dsimp only
  by_cases htest : test e'
  · rw [if_pos htest, Action.bind_apply]
    -- what a removal makes of the walk leaves it in its place
    have hrests := (c.act_rests i (d := .use (.remove i)) id id w').samePlace
    obtain ⟨hraw, hahead, hterminated⟩ := hrests
    have hsame : ((c.use (.remove i) w').state.walks i).offers = (w'.walks i).offers := by
      unfold Cursor.offers
      rw [← hraw, ← hahead, ← hterminated]
      rfl
    exact hsame ▸ hoffers
  · rw [if_neg htest]
    exact hoffers

/-- The loop: as long as there is a next entry, take a turn. It answers with the entries that were
visited, or with the first error. -/
def sift (c : Cache σ K V) (test : Entry K V → Bool) (i : Nat) (w : World σ K V) :
    Run (World σ K V) (Event K V) (Except CacheError (List (Entry K V))) :=
  let more := c.use (.hasNext i) w
  match more.answer with
  | .error failure => ⟨.error failure, more.state, more.events⟩
  | .ok false => ⟨.ok [], more.state, more.events⟩
  | .ok true =>
    let turn := c.turn test i more.state
    match _h : turn.answer with
    | .error failure => ⟨.error failure, turn.state, more.events ++ turn.events⟩
    | .ok e =>
      let rest := c.sift test i turn.state
      ⟨rest.answer.map (e :: ·), rest.state, more.events ++ turn.events ++ rest.events⟩
termination_by (w.walks i).offers
decreasing_by
  have hsame : more.state = w := c.hasNext_state i w
  exact Nat.lt_of_lt_of_eq (turn_offers ‹_›) (by rw [hsame])

/-- The loop ends where there is no next entry. -/
theorem sift_done (h : c.use (.hasNext i) w = ⟨.ok false, w, []⟩) :
    c.sift test i w = ⟨.ok [], w, []⟩ := by
  rw [sift, h]

/-- The loop goes on after a turn that went well. -/
theorem sift_turn {e : Entry K V} (h : c.use (.hasNext i) w = ⟨.ok true, w, []⟩)
    (hturn : (c.turn test i w).answer = .ok e) :
    c.sift test i w =
      let turn := c.turn test i w
      let rest := c.sift test i turn.state
      ⟨rest.answer.map (e :: ·), rest.state, turn.events ++ rest.events⟩ := by
  rw [sift, h]
  dsimp only
  split
  · cases hturn.symm.trans ‹_›
  · cases hturn.symm.trans ‹_›
    rfl

end

end Cache

/-! ## A store on the way -/

namespace Memory

variable [DecidableEq K]

/-- The live entries of some keys. -/
def entries (m : Memory K V) (ks : List K) : List (Entry K V) :=
  ks.filterMap fun k => (m.live? k).map fun h => ⟨k, h.value⟩

/-- What the loop is to leave of a key: its live holder, unless the entry passes the test. -/
def sifted? (test : Entry K V → Bool) (m : Memory K V) (k : K) : Option (Holder V) :=
  (m.live? k).filter fun h => !test ⟨k, h.value⟩

theorem mem_entries {m : Memory K V} {ks : List K} {e : Entry K V} :
    e ∈ m.entries ks ↔ e.key ∈ ks ∧ (m.live? e.key).map Holder.value = some e.value := by
  obtain ⟨k, v⟩ := e
  simp only [entries, List.mem_filterMap, Option.map_eq_some_iff, Entry.mk.injEq]
  constructor
  · rintro ⟨k', hk', h, hlive, rfl, rfl⟩
    exact ⟨hk', h, hlive, rfl⟩
  · rintro ⟨hk, h, hlive, rfl⟩
    exact ⟨k, hk, h, hlive, rfl, rfl⟩

theorem entries_cons_none {m : Memory K V} {k : K} (h : m.live? k = none) (ks : List K) :
    m.entries (k :: ks) = m.entries ks := by
  simp [entries, h]

theorem entries_cons_some {m : Memory K V} {e : Entry K V}
    (h : (m.live? e.key).map Holder.value = some e.value) (ks : List K) :
    m.entries (e.key :: ks) = e :: m.entries ks := by
  obtain ⟨holder, hlive, hvalue⟩ := Option.map_eq_some_iff.mp h
  simp [entries, hlive, hvalue]

theorem entries_keys (m : Memory K V) (ks : List K) :
    ((m.entries ks).map Entry.key).Sublist ks := by
  induction ks with
  | nil => exact .refl _
  | cons k ks ih =>
    cases hlive : m.live? k with
    | none =>
      rw [entries_cons_none hlive]
      exact .cons k ih
    | some held =>
      rw [entries_cons_some (e := ⟨k, held.value⟩) (by rw [hlive]; rfl), List.map_cons]
      exact .cons_cons k ih

theorem sifted?_of_live {test : Entry K V → Bool} {m : Memory K V} {k : K} {held : Holder V}
    (h : m.live? k = some held) :
    m.sifted? test k = if test ⟨k, held.value⟩ then none else some held := by
  rw [sifted?, h, Option.filter_some]
  cases test ⟨k, held.value⟩ <;> rfl

/-- How far the loop has come with a store that was `start` in the beginning: the keys still before
it are as they were, and all others hold what the loop is to leave them. -/
structure Swept (test : Entry K V → Bool) (start : Memory K V) (ks : List K) (m : Memory K V) :
    Prop where
  now : m.now = start.now
  holds : ∀ k, m.table.get? k = if k ∈ ks then start.table.get? k else start.sifted? test k

namespace Swept

variable {test : Entry K V → Bool} {start m m' : Memory K V} {ks ks' : List K} {k : K}

theorem live? (h : Swept test start ks m) (hk : k ∈ ks) : m.live? k = start.live? k := by
  rw [Memory.live?, Memory.live?, h.holds, if_pos hk, h.now]

/-- A store that holds the same is swept as far. -/
theorem of_same (h : Swept test start ks m) (hnow : m'.now = m.now)
    (hsame : ∀ k, m'.table.get? k = m.table.get? k) : Swept test start ks m' :=
  ⟨hnow.trans h.now, fun k => (hsame k).trans (h.holds k)⟩

/-- A key is done with when it holds what the loop is to leave it. -/
theorem done (h : Swept test start ks m) (hnow : m'.now = m.now)
    (hother : ∀ k', k' ≠ k → m'.table.get? k' = m.table.get? k')
    (hkey : m'.table.get? k = start.sifted? test k) (hfresh : k ∉ ks')
    (hks : ∀ k', k' ∈ ks ↔ k' = k ∨ k' ∈ ks') : Swept test start ks' m' := by
  refine ⟨hnow.trans h.now, fun k' => ?_⟩
  by_cases hk : k' = k
  · subst hk
    rw [hkey, if_neg hfresh]
  · rw [hother k' hk, h.holds]
    simp only [hks, hk, false_or]

end Swept

end Memory

namespace Cache

variable {policy : Policy K V} {order : Memory K V → List (K × Holder V)}
  {c : Cache (Memory K V) K V} [DecidableEq K] [DecidableEq (Handle V)] [BEq V]

section

variable (hc : c.store = (Store.memory policy).listedBy order) {s : State (Memory K V)}
  (hs : s.lifecycle.status = .available)

include hc hs

omit [BEq V] in
/-- A look-up purges its key. -/
theorem lookup_purges (k : K) :
    let r := c.lookup k false s
    r.answer = .ok ((s.store.live? k).map Holder.value) ∧ r.state.lifecycle = s.lifecycle ∧
      r.state.store.now = s.store.now ∧
      ∀ k', r.state.store.table.get? k' =
        if k = k' then s.store.live? k else s.store.table.get? k' := by
  obtain ⟨es, hrun⟩ := lookup_run hc hs k false
  obtain ⟨hnow, hget⟩ := Backend.serve_leaves policy (.get k) s.store
  rw [hrun]
  exact ⟨rfl, rfl, hnow, hget⟩

/-- A removal drops its key. -/
theorem remove_drops (k : K) :
    let r := (c.remove k).run s
    r.answer = .ok () ∧ r.state.lifecycle = s.lifecycle ∧ r.state.store.now = s.store.now ∧
      ∀ k', r.state.store.table.get? k' = if k = k' then none else s.store.table.get? k' := by
  obtain ⟨plain, hplain, rfl⟩ :
      ∃ plain : Cache (Memory K V) K V, plain.store = .memory policy ∧ c = plain.listed order := by
    refine ⟨{ c with store := .memory policy }, rfl, ?_⟩
    rw [listed, ← hc]
  obtain ⟨⟨reply, -, hanswer⟩, hget⟩ := serve_leaves hplain hs (.remove k)
  exact ⟨hanswer, remove_livesBy _ k s rfl, serve_now hplain hs (.remove k), hget⟩

variable {test : Entry K V → Bool} {start : Memory K V}

omit [BEq V] in
/-- Looking along a raw iteration finishes with the keys that are not live, and stops at the first
that is. The key of an entry that was offered before is left as it is. -/
theorem seek_sweeps (cur : Cursor K V) (hcur : cur.terminated = false) (pending : List K)
    (ps : List (K × Holder V)) (hnodup : (pending ++ ps.map Prod.fst).Nodup)
    (h : Swept test start (pending ++ ps.map Prod.fst) s.store) :
    let r := cur.seek c (ps.map .ok) s
    r.state.lifecycle = s.lifecycle ∧
      ∃ ks, r.answer.Faces start ks ∧ ks <:+ ps.map Prod.fst ∧
        start.entries ks = start.entries (ps.map Prod.fst) ∧
        Swept test start (pending ++ ks) r.state.store := by
  induction ps generalizing s with
  | nil => exact ⟨rfl, [], .done hcur rfl, List.suffix_refl _, rfl, h⟩
  | cons p ps ih =>
    obtain ⟨ha, hl, hnow, hget⟩ := c.lookup_purges hc hs p.1
    have hlive : s.store.live? p.1 = start.live? p.1 :=
      h.live? (List.mem_append_right _ List.mem_cons_self)
    rw [List.map_cons] at hnodup h ⊢
    simp only [List.map_cons, Cursor.seek, Action.bind_apply, ExceptT.run, ha]
    cases hp : s.store.live? p.1 with
    | none =>
      have hgone : start.live? p.1 = none := hlive.symm.trans hp
      have hmiddle := List.nodup_middle.mp hnodup
      obtain ⟨hfresh, hnodup'⟩ := List.nodup_cons.mp hmiddle
      have hswept : Swept test start (pending ++ ps.map Prod.fst)
          (c.lookup p.1 false s).state.store := by
        refine h.done (k := p.1) hnow (fun k' hk' => ?_) ?_ hfresh fun k' =>
          List.perm_middle.mem_iff.trans List.mem_cons
        · rw [hget, if_neg hk'.symm]
        · rw [hget, if_pos rfl, hp, sifted?, hgone]
          rfl
      obtain ⟨hl', ks, hfaces, hsuffix, hentries, hswept'⟩ :=
        ih (by rw [hl]; exact hs) hnodup' hswept
      exact ⟨hl'.trans hl, ks, hfaces, hsuffix.trans (List.suffix_cons _ _),
        hentries.trans (entries_cons_none hgone _).symm, hswept'⟩
    | some held =>
      have hvalue : (start.live? p.1).map Holder.value = some held.value := by
        rw [← hlive, hp]
        rfl
      refine ⟨hl, _, .entry ⟨p.1, held.value⟩ ps hcur rfl rfl hvalue, List.suffix_refl _, rfl,
        h.of_same hnow fun k' => (hget k').trans ?_⟩
      split
      · rw [← ‹p.1 = k'›, hp, get?_of_live? hp]
      · rfl

end

/-! ## One turn -/

/-- What is known of the loop before a turn: `ks` are the keys still before the walk. -/
structure Sifting (test : Entry K V → Bool) (start : Memory K V) (i : Nat) (ks : List K)
    (w : World (Memory K V) K V) : Prop where
  available : w.status = .available
  faces : (w.walks i).Faces start ks
  nodup : ks.Nodup
  swept : Swept test start ks w.cache.store

section

variable {test : Entry K V → Bool} {start : Memory K V} {i : Nat} {k : K} {ks : List K}
  {w : World (Memory K V) K V}

/-- A walk that begins faces the live entries of the store. -/
theorem begin_sifting (hc : c.store = (Store.memory policy).listedBy order)
    (horder : ∀ mem : Memory K V, (order mem).Perm mem.table.pairs)
    (test : Entry K V → Bool) (hw : w.status = .available) (i : Nat) (quiet : Bool) :
    let r := c.use (.iterate i quiet) w
    ∃ ks, w.cache.store.entries ks = w.cache.store.entries ((order w.cache.store).map Prod.fst) ∧
      Sifting test w.cache.store i ks r.state := by
  have hkeys : ((order w.cache.store).map Prod.fst).Perm w.cache.store.table.keys :=
    (horder w.cache.store).map Prod.fst
  have hnodup : ((order w.cache.store).map Prod.fst).Nodup :=
    hkeys.nodup_iff.mpr w.cache.store.table.nodup
  have hswept : Swept test w.cache.store ([] ++ (order w.cache.store).map Prod.fst)
      w.cache.store := by
    refine ⟨rfl, fun k => ?_⟩
    by_cases hk : k ∈ (order w.cache.store).map Prod.fst
    · exact (if_pos hk).symm
    · have hnone : w.cache.store.table.get? k = none := by
        rwa [hkeys.mem_iff, KeyMap.mem_keys_iff, Option.not_isSome_iff_eq_none] at hk
      simp [hk, sifted?, live?, hnone]
  obtain ⟨hl, ks, hfaces, hsuffix, hentries, hswept'⟩ := c.seek_sweeps hc hw
    { raw := (order w.cache.store).map .ok, quiet } rfl [] (order w.cache.store) hnodup hswept
  have hbegin := c.begin_run i quiet hw
  rw [iterate_listed hc] at hbegin
  dsimp only
  rw [hbegin]
  refine ⟨ks, hentries, ?_, ?_, hsuffix.sublist.nodup hnodup, ?_⟩
  · exact (congrArg Lifecycle.status hl).trans hw
  · rw [World.walks_setWalk]
    exact hfaces
  · exact hswept'

/-- What is known of the loop in the middle of a turn: the entry of a key was offered, and the key is
as it was. -/
structure Offered (test : Entry K V → Bool) (start : Memory K V) (i : Nat) (k : K) (ks : List K)
    (w : World (Memory K V) K V) : Prop where
  available : w.status = .available
  faces : (w.walks i).Faces start ks
  current : (w.walks i).current = some k
  nodup : (k :: ks).Nodup
  swept : Swept test start (k :: ks) w.cache.store

/-- The walk offers the first key that it faces, and has looked ahead when it does. -/
theorem Sifting.next (hc : c.store = (Store.memory policy).listedBy order)
    (h : Sifting test start i (k :: ks) w) :
    ∃ v ks', (c.use (.nextEntry i) w).answer = .ok ⟨k, v⟩ ∧
      (start.live? k).map Holder.value = some v ∧ ks' <:+ ks ∧
      start.entries ks' = start.entries ks ∧
      Offered test start i k ks' (c.use (.nextEntry i) w).state := by
  obtain ⟨havailable, hfaces, hnodup, hswept⟩ := h
  cases hfaces with
  | entry e ps going ahead raw live =>
    obtain ⟨hl, ks', hfaces', hsuffix, hentries, hswept'⟩ := c.seek_sweeps hc havailable
      { w.walks i with current := some e.key } going [e.key] ps hnodup hswept
    have hcurrent := Cursor.seek_current c { w.walks i with current := some e.key }
      (ps.map .ok) w.cache
    have hoffer : (w.walks i).nextEntry c w.cache = (w.walks i).offer c e w.cache := by
      rw [(w.walks i).nextEntry_apply c havailable, going, ahead]
      rfl
    rw [← raw] at hl hfaces' hswept' hcurrent
    rw [use, onWalk_apply, hoffer, Cursor.offer_apply]
    refine ⟨e.value, ks', rfl, live, hsuffix, hentries, ?_, ?_, ?_,
      (List.Sublist.cons_cons e.key hsuffix.sublist).nodup hnodup, hswept'⟩
    · exact (congrArg Lifecycle.status hl).trans havailable
    · rw [World.walks_setWalk]
      exact hfaces'
    · rw [World.walks_setWalk]
      exact hcurrent

omit [DecidableEq (Handle V)] [BEq V] in
/-- An entry that does not pass the test is left as it is. -/
theorem Offered.keep (h : Offered test start i k ks w) {held : Holder V}
    (hlive : start.live? k = some held) (htest : test ⟨k, held.value⟩ = false) :
    Sifting test start i ks w := by
  obtain ⟨hfresh, hnodup⟩ := List.nodup_cons.mp h.nodup
  refine ⟨h.available, h.faces, hnodup,
    h.swept.done rfl (fun _ _ => rfl) ?_ hfresh fun _ => List.mem_cons⟩
  rw [h.swept.holds, if_pos List.mem_cons_self, get?_of_live? hlive, sifted?_of_live hlive, htest]
  rfl

/-- An entry that passes the test is removed. -/
theorem Offered.remove (hc : c.store = (Store.memory policy).listedBy order)
    (h : Offered test start i k ks w) {held : Holder V}
    (hlive : start.live? k = some held) (htest : test ⟨k, held.value⟩ = true) :
    (c.use (.remove i) w).answer = .ok () ∧
      Sifting test start i ks (c.use (.remove i) w).state := by
  obtain ⟨hfresh, hnodup⟩ := List.nodup_cons.mp h.nodup
  obtain ⟨hanswer, hl, hnow, hget⟩ := c.remove_drops hc h.available k
  rw [use, onWalk_apply, (w.walks i).remove_apply c h.available, h.current]
  refine ⟨hanswer, (congrArg Lifecycle.status hl).trans h.available, ?_, hnodup,
    h.swept.done hnow (fun k' hk' => (hget k').trans (if_neg hk'.symm)) ?_ hfresh
      fun _ => List.mem_cons⟩
  · rw [World.walks_setWalk]
    exact h.faces.of_samePlace ⟨rfl, rfl, rfl⟩
  · rw [sifted?_of_live hlive, htest]
    exact (hget k).trans (if_pos rfl)

/-- A turn visits the first key that the walk faces, and is done with it. -/
theorem Sifting.turn (hc : c.store = (Store.memory policy).listedBy order)
    (h : Sifting test start i (k :: ks) w) :
    ∃ e ks', (c.turn test i w).answer = .ok e ∧ ks' <:+ ks ∧
      start.entries (k :: ks) = e :: start.entries ks' ∧
      Sifting test start i ks' (c.turn test i w).state := by
  obtain ⟨v, ks', hanswer, hvalue, hsuffix, hentries, hoffered⟩ := h.next hc
  obtain ⟨held, hlive, rfl⟩ := Option.map_eq_some_iff.mp hvalue
  refine ⟨⟨k, held.value⟩, ks', ?_⟩
  rw [entries_cons_some (e := ⟨k, held.value⟩) hvalue, hentries, Cache.turn, Action.bind_apply,
    hanswer]
  dsimp only
  by_cases htest : test ⟨k, held.value⟩
  · obtain ⟨hremoved, hsifting⟩ := hoffered.remove hc hlive htest
    rw [if_pos htest, Action.bind_apply, hremoved]
    exact ⟨rfl, hsuffix, rfl, hsifting⟩
  · rw [if_neg htest]
    exact ⟨rfl, hsuffix, rfl, hoffered.keep hlive (Bool.eq_false_iff.mpr htest)⟩

/-! ## The whole loop -/

/-- The loop visits the live entries among the keys before the walk, and is done with all keys. -/
theorem Sifting.sift (hc : c.store = (Store.memory policy).listedBy order) {ks : List K}
    {w : World (Memory K V) K V} (h : Sifting test start i ks w) :
    (c.sift test i w).answer = .ok (start.entries ks) ∧
      Swept test start [] (c.sift test i w).state.cache.store := by
  have hmore := use_hasNext_faces (c := c) h.available h.faces
  cases ks with
  | nil =>
    rw [sift_done hmore]
    exact ⟨rfl, h.swept⟩
  | cons k ks =>
    obtain ⟨e, ks', hanswer, hsuffix, hentries, hturned⟩ := h.turn hc
    have hshorter : ks'.length < (k :: ks).length := Nat.lt_succ_of_le hsuffix.length_le
    obtain ⟨hrest, hswept⟩ := Sifting.sift hc hturned
    rw [sift_turn hmore hanswer, hentries]
    exact ⟨by dsimp only; rw [hrest]; rfl, hswept⟩
termination_by ks.length

end

/-! ## Nothing to remove -/

/-- A walk has nothing to remove: it is an error to ask it, and nothing happens. -/
def RemovesNothing (c : Cache σ K V) (i : Nat) (w : World σ K V) : Prop :=
  c.use (.remove i) w =
    ⟨.error (.illegalState "remove() needs a preceding call to next_entry()"), w, []⟩

omit [DecidableEq (Handle V)] in
/-- A walk that has nothing to remove does not until it is asked for its next entry. -/
theorem live_removesNothing {c : Cache σ K V} {i : Nat} {w : World σ K V}
    (hw : w.status = .available) (h : (w.walks i).current = none) {deeds : List (Deed σ K V)}
    (hd : ∀ d ∈ deeds, d.Spares i ∧ ¬ d.Asks i) : c.RemovesNothing i (c.live deeds w).state := by
  have hcurrent : ((c.live deeds w).state.walks i).current = none := by
    rcases live_rests (c := c) (w := w) hd with hrests | hrests
    · rw [hrests, h]
    · rw [hrests]
  have havailable := live_available (c := c) (fun d hd' => (hd d hd').1) hw
  refine onWalk_idle ?_
  rw [Cursor.remove_apply c _ havailable, hcurrent]

/-! ## Taking out what passes a test -/

/-- What the loop comes to over a store that was `start` in the beginning: the entries it has visited,
and the store it leaves. -/
structure SiftsExactly (test : Entry K V → Bool) (start : Memory K V) (visited : List (Entry K V))
    (done : Memory K V) : Prop where
  visits : ∀ e, e ∈ visited ↔ (start.live? e.key).map Holder.value = some e.value
  /-- No key is visited twice. -/
  distinct : (visited.map Entry.key).Nodup
  /-- The live holders whose entries do not pass the test are there as they were, and no others. -/
  leaves : ∀ k, done.table.get? k = (start.live? k).filter fun held => !test ⟨k, held.value⟩
  now : done.now = start.now

/-- **Taking out entries while walking is exact.** Over a store in memory whose raw iteration comes in
any order, under any policies and any strategy, a walk begins well on an available cache. The loop
that takes its entries one after the other and removes those that pass a test ends well: it visits
every live entry once, and leaves those that do not pass as they were, and nothing else, expired or
not. Before the first entry is taken, and after one was removed until the next is taken, there is
nothing to remove, whatever else is done short of closing the cache or beginning the walk anew. -/
theorem sift_exact {c : Cache (Memory K V) K V}
    (hc : c.store = (Store.memory policy).listedBy order)
    (horder : ∀ mem : Memory K V, (order mem).Perm mem.table.pairs) (test : Entry K V → Bool)
    (i : Nat) (quiet : Bool) {start : World (Memory K V) K V} (hstart : start.status = .available) :
    let begun := c.use (.iterate i quiet) start
    let sifted := c.sift test i begun.state
    begun.answer = .ok () ∧
      (∃ visited, sifted.answer = .ok visited ∧
        SiftsExactly test start.cache.store visited sifted.state.cache.store) ∧
      ∀ deeds : List (Deed (Memory K V) K V), (∀ d ∈ deeds, d.Spares i ∧ ¬ d.Asks i) →
        c.RemovesNothing i (c.live deeds begun.state).state ∧
          ∀ w : World (Memory K V) K V, w.status = .available →
            c.RemovesNothing i (c.live deeds (c.use (.remove i) w).state).state := by
  intro begun sifted
  have hanswer : begun.answer = .ok () := congrArg Run.answer (c.begin_run i quiet hstart)
  obtain ⟨ks, hentries, hsifting⟩ := begin_sifting hc horder test hstart i quiet
  obtain ⟨hvisited, hswept⟩ := hsifting.sift hc
  have hkeys : ((order start.cache.store).map Prod.fst).Perm start.cache.store.table.keys :=
    (horder start.cache.store).map Prod.fst
  refine ⟨hanswer, ⟨_, hvisited, ?_, ?_, fun k => hswept.holds k, hswept.now⟩, fun deeds hd => ?_⟩
  · intro e
    rw [hentries, mem_entries, hkeys.mem_iff, KeyMap.mem_keys_iff]
    refine and_iff_right_of_imp fun hlive => ?_
    obtain ⟨held, hlive, -⟩ := Option.map_eq_some_iff.mp hlive
    rw [get?_of_live? hlive]
    rfl
  · exact (entries_keys _ ks).nodup hsifting.nodup
  · refine ⟨live_removesNothing hsifting.available ?_ hd, fun w hw => ?_⟩
    · show (begun.state.walks i).current = none
      rw [show begun = _ from c.begin_run i quiet hstart, World.walks_setWalk, Cursor.seek_current]
    · have havailable := c.act_available i (d := .use (.remove i)) trivial hw
      refine live_removesNothing havailable ?_ hd
      rw [act, use, onWalk_apply, World.walks_setWalk, (w.walks i).remove_apply c hw]
      cases hcurrent : (w.walks i).current with
      | none => exact hcurrent
      | some k => rfl

/-- Of three mappings the first has expired and the last passes the test: the second is left. -/
theorem sift_exact_three :
    let c : Cache (Memory Nat Nat) Nat Nat :=
      { store := (Store.memory .eternal).listedBy (·.table.pairs.reverse)
        strategy := .propagating }
    let kept : Holder Nat := ⟨⟨1, 20⟩, 3, some 7⟩
    let held : KeyMap Nat (Holder Nat) :=
      { pairs := [(1, ⟨⟨0, 10⟩, 0, some 4⟩), (2, kept), (3, .eternal ⟨2, 30⟩)]
        nodup := by decide }
    let start : World (Memory Nat Nat) Nat Nat :=
      { cache := { store := { table := held, now := 5 }, lifecycle := { status := .available } }
        walks := fun _ => { raw := [], quiet := true } }
    let test : Entry Nat Nat → Bool := fun e => decide (25 < e.value.value)
    let begun := (c.use (.iterate 0 false) start).state
    let visited : List (Entry Nat Nat) := [⟨3, ⟨2, 30⟩⟩, ⟨2, ⟨1, 20⟩⟩]
    (∀ mem : Memory Nat Nat, mem.table.pairs.reverse.Perm mem.table.pairs) ∧
      start.status = .available ∧ (c.sift test 0 begun).answer = .ok visited ∧
      SiftsExactly test start.cache.store visited (c.sift test 0 begun).state.cache.store ∧
      (c.sift test 0 begun).state.cache.store.table.get? 2 = some kept ∧
      c.RemovesNothing 0 begun := by
  intro c kept held start test begun visited
  have hc : c.store = (Store.memory .eternal).listedBy (·.table.pairs.reverse) := rfl
  have horder (mem : Memory Nat Nat) : mem.table.pairs.reverse.Perm mem.table.pairs :=
    List.reverse_perm _
  have hstart : start.status = .available := rfl
  obtain ⟨-, ⟨visited', hvisited, hsifts⟩, hnothing⟩ :=
    sift_exact hc horder test 0 false hstart
  have hrun : (c.sift test 0 begun).answer = .ok visited := by decide +kernel
  obtain rfl : visited' = visited := Except.ok.inj (hvisited.symm.trans hrun)
  refine ⟨horder, hstart, hrun, hsifts, ?_, (hnothing [] nofun).1⟩
  rw [hsifts.leaves]
  rfl

end Cache

end ResilientCache
