import Mathlib.Data.List.Induction
import ResilientCache.Proofs.Availability
import ResilientCache.Proofs.Memory

/-!
# A walk among everything else

A walk over a cache goes on while other things happen to it: between two steps of the walk keys are
written, removed and expire. The store is one in memory under any policy, its raw iteration in any
order; a run may do anything but close the cache or begin another walk in the place of this one
(`Deed.Spares`).

What a walk still has before it are keys: that of the entry ahead, and those left of the raw
iteration (`Cursor.Faces`). Looking for the next entry passes over keys that are not live and stops
at the first that is, with the value it has then (`seek_faces`). So the keys that were yielded and
those still faced are, in their order, among those the raw iteration showed (`Walking`), and a key
that is live whenever the walk looks is never passed over.

Headlines:
* `Walking.act`: what one deed makes of a walk.
* `Walking.live`: what a run makes of it.
* **`faithful_walk`**: a walk yields distinct keys that were held when it began, each with the value
  it had when the walk looked ahead, and all that stay live.
-/

namespace ResilientCache

open Memory

variable {σ K V : Type}

/-- A store in memory with its raw iteration in some order. -/
def Store.listedBy (store : Store (Memory K V) K V) (order : Memory K V → List (K × Holder V)) :
    Store (Memory K V) K V :=
  { store with iterate := Action.read fun mem => (order mem).map .ok }

/-! ## Places -/

/-- A walk that goes on stands before some keys: before the key of the entry it has ahead, which
`last` maps to the value it has there, and those left of the raw iteration; or before none. -/
inductive Cursor.Faces [DecidableEq K] (last : Memory K V) (cur : Cursor K V) : List K → Prop
  | done (going : cur.terminated = false) (ahead : cur.ahead = .nothing) : Faces last cur []
  | entry (e : Entry K V) (ps : List (K × Holder V)) (going : cur.terminated = false)
      (ahead : cur.ahead = .entry e) (raw : cur.raw = ps.map .ok)
      (live : (last.live? e.key).map Holder.value = some e.value) :
      Faces last cur (e.key :: ps.map Prod.fst)

/-- Two walks stand at the same place. -/
def Cursor.SamePlace (cur cur' : Cursor K V) : Prop :=
  cur'.raw = cur.raw ∧ cur'.ahead = cur.ahead ∧ cur'.terminated = cur.terminated

/-- A walk has not moved; it may have forgotten which entry it offered last. -/
def Cursor.Rests (cur cur' : Cursor K V) : Prop := cur' = cur ∨ cur' = { cur with current := none }

theorem Cursor.Rests.trans {cur cur' cur'' : Cursor K V} (h : cur.Rests cur')
    (h' : cur'.Rests cur'') : cur.Rests cur'' := by
  rcases h with rfl | rfl
  · exact h'
  · exact .inr (h'.elim id id)

theorem Cursor.Rests.samePlace {cur cur' : Cursor K V} (h : cur.Rests cur') :
    cur.SamePlace cur' := by
  rcases h with rfl | rfl <;> exact ⟨rfl, rfl, rfl⟩

theorem Cursor.Faces.of_samePlace [DecidableEq K] {last : Memory K V} {cur cur' : Cursor K V}
    {ks : List K} (h : cur.Faces last ks) (hsame : cur.SamePlace cur') : cur'.Faces last ks := by
  obtain ⟨hraw, hahead, hgoing⟩ := hsame
  cases h with
  | done going ahead => exact .done (hgoing.trans going) (hahead.trans ahead)
  | entry e ps going ahead raw live =>
    exact .entry e ps (hgoing.trans going) (hahead.trans ahead) (hraw.trans raw) live

/-! ## Deeds that concern a walk -/

/-- A deed that does not end a run of a walk: it neither closes the cache nor begins another walk in
its place. -/
def Deed.Spares (i : Nat) : Deed σ K V → Prop
  | .move .close _ => False
  | .use (.iterate j _) => j ≠ i
  | _ => True

/-- A deed that begins a walk under a name. -/
def Deed.Begins (i : Nat) : Deed σ K V → Prop
  | .use (.iterate j _) => j = i
  | _ => False

theorem Deed.Spares.not_begins {i : Nat} {d : Deed σ K V} (h : d.Spares i) : ¬ d.Begins i := by
  cases d with
  | use u =>
    cases u with
    | iterate j quiet => exact h
    | _ => exact id
  | _ => exact id

/-- A deed that asks a walk for its next entry. -/
def Deed.Asks (i : Nat) : Deed σ K V → Prop
  | .use (.nextEntry j) => j = i
  | .next j => j = i
  | _ => False

namespace Cache

/-- Removing the entry that was offered last leaves a walk at rest. -/
theorem remove_rests (c : Cache σ K V) (cur : Cursor K V) (s : State σ) :
    cur.Rests (cur.remove c s).answer.2 := by
  rw [Cursor.remove, Action.bind_apply]
  cases (ExceptT.run (checkAvailable : Op σ K V Unit) s).answer with
  | error e => exact .inl rfl
  | ok u =>
    cases hcur : cur.current with
    | none => exact .inl rfl
    | some k => exact .inr rfl

section

variable [DecidableEq K] [BEq V] (c : Cache σ K V) (i : Nat)

/-- The entry that a walk offers in a deed, if it offers one. -/
def offered : Deed σ K V → World σ K V → Option (Entry K V)
  | .use (.nextEntry j), w => if j = i then (c.use (.nextEntry j) w).answer.toOption else none
  | .next j, w => if j = i then (c.act (.next j) w).answer.bind Except.toOption else none
  | _, _ => none

/-- What a walk yields in a run. -/
def yields : List (Deed σ K V) → World σ K V → List (Entry K V)
  | [], _ => []
  | d :: rest, w => (c.offered i d w).toList ++ yields rest (c.act d w).state

theorem yields_append : ∀ (before after : List (Deed σ K V)) (w : World σ K V),
    c.yields i (before ++ after) w =
      c.yields i before w ++ c.yields i after (c.live before w).state
  | [], _, _ => rfl
  | d :: before, after, w => by
    rw [List.cons_append, yields, yields, live_cons, yields_append before after, List.append_assoc]

theorem yields_concat (before : List (Deed σ K V)) (d : Deed σ K V) (w : World σ K V) :
    c.yields i (before ++ [d]) w =
      c.yields i before w ++ (c.offered i d (c.live before w).state).toList := by
  rw [yields_append, yields, yields, List.append_nil]

/-- A run is over, or has not begun, with a step in which a walk looked ahead. -/
def Advanced (before : List (Deed σ K V)) (w : World σ K V) : Prop :=
  before = [] ∨ ∃ earlier d, before = earlier ++ [d] ∧
    (c.offered i d (c.live earlier w).state).isSome

theorem offered_of_not_asks {d : Deed σ K V} (h : ¬ d.Asks i) (w : World σ K V) :
    c.offered i d w = none := by
  cases d with
  | use u =>
    cases u with
    | nextEntry j => exact if_neg h
    | _ => rfl
  | next j => exact if_neg h
  | _ => rfl

/-- A deed that does not begin a walk anew, and does not ask it, leaves it at rest. -/
theorem act_rests {d : Deed σ K V} (hbegins : ¬ d.Begins i) (hasks : ¬ d.Asks i)
    (w : World σ K V) : (w.walks i).Rests ((c.act d w).state.walks i) := by
  have other {j : Nat} (hj : j ≠ i) (w' : World σ K V) (hw : w'.walks = w.walks)
      (cur : Cursor K V) : (w.walks i).Rests ((w'.setWalk j cur).walks i) := by
    rw [World.walks_setWalk_of_ne _ hj, hw]
    exact .inl rfl
  cases d with
  | use u =>
    cases u with
    | iterate j quiet =>
      rw [act, use, beginWalk, Action.bind_apply]
      cases (onCache (c.iterate quiet).run w).answer with
      | error e => exact .inl rfl
      | ok cur => exact other hbegins _ rfl cur
    | hasNext j =>
      rw [act, use, onWalk_apply]
      by_cases hj : j = i
      · subst hj
        dsimp only
        rw [World.walks_setWalk]
        exact .inl rfl
      · exact other hj _ rfl _
    | nextEntry j =>
      rw [act, use, onWalk_apply]
      exact other hasks _ rfl _
    | remove j =>
      rw [act, use, onWalk_apply]
      by_cases hj : j = i
      · subst hj
        dsimp only
        rw [World.walks_setWalk]
        exact c.remove_rests _ _
      · exact other hj _ rfl _
    | _ => exact .inl rfl
  | next j =>
    rw [act, onWalk_apply]
    exact other hasks _ rfl _
  | move t table => cases t <;> exact .inl rfl
  | _ => exact .inl rfl

theorem act_samePlace {d : Deed σ K V} (hbegins : ¬ d.Begins i) (hasks : ¬ d.Asks i)
    (w : World σ K V) : (w.walks i).SamePlace ((c.act d w).state.walks i) :=
  (c.act_rests i hbegins hasks w).samePlace

/-- A deed that spares a walk leaves the cache available. -/
theorem act_available {d : Deed σ K V} (hspares : d.Spares i) {w : World σ K V}
    (h : w.status = .available) : (c.act d w).state.status = .available := by
  rcases c.act_status d w with ⟨t, ⟨table, rfl, -⟩, hs, ht⟩ | ⟨-, hs⟩
  · cases t with
    | init => exact ht
    | close => exact hspares.elim
  · exact hs.trans h

variable {c i} in
theorem live_available {deeds : List (Deed σ K V)} (hd : ∀ d ∈ deeds, d.Spares i)
    {w : World σ K V} (hw : w.status = .available) :
    (c.live deeds w).state.status = .available := by
  induction deeds generalizing w with
  | nil => exact hw
  | cons d rest ih =>
    obtain ⟨hfirst, hrest⟩ := List.forall_mem_cons.mp hd
    rw [live_cons]
    exact ih hrest (c.act_available i hfirst hw)

/-- Beginning a walk on an available cache is looking along the raw iteration for its first entry. -/
theorem begin_run (quiet : Bool) {w : World σ K V} (hw : w.status = .available) :
    let asked := c.store.iterate w.cache.store
    let r := Cursor.seek c { raw := asked.answer, quiet } asked.answer
      { w.cache with store := asked.state }
    c.use (.iterate i quiet) w =
      ⟨.ok (), World.setWalk { w with cache := r.state } i r.answer,
        asked.events.map .note ++ r.events⟩ := by
  intro asked r
  have hcall : c.callStore (·.iterate) w.cache =
      ⟨.ok asked.answer, { w.cache with store := asked.state }, asked.events.map .note⟩ :=
    Op.lift_apply (onStore c.store.iterate) w.cache
  have hiterate : c.iterate quiet w.cache =
      ⟨.ok r.answer, r.state, asked.events.map .note ++ r.events⟩ := by
    rw [iterate, Op.bind_apply, checkAvailable_of_available hw]
    simp only [Op.bind_apply, hcall, List.nil_append, ExceptT.lift, ExceptT.mk, Action.map_apply]
    rfl
  show c.beginWalk i quiet w = _
  rw [beginWalk_apply, ExceptT.run, hiterate]
  rfl

end

variable [DecidableEq K] [DecidableEq (Handle V)] {policy : Policy K V}
  {order : Memory K V → List (K × Holder V)} {c : Cache (Memory K V) K V}

/-! ## Looking ahead -/

section

variable (hc : c.store = (Store.memory policy).listedBy order) {s : State (Memory K V)}
  (hs : s.lifecycle.status = .available)

include hc hs

omit hs in
/-- The raw iteration shows what the store holds, in some order. -/
theorem iterate_listed (m : Memory K V) : c.store.iterate m = ⟨(order m).map .ok, m, []⟩ := by
  rw [hc]
  rfl

/-- A read of an available cache is a read of its store, answered with the live value. -/
theorem lookup_run (k : K) (observed : Bool) : ∃ es, c.lookup k observed s =
    ⟨.ok ((s.store.live? k).map Holder.value),
      { s with store := ((Store.memory policy).get k s.store).state }, es⟩ := by
  have hget : c.store.get k s.store = (Store.memory policy).get k s.store := by
    rw [hc]
    rfl
  have hcall : c.callStore (·.get k) s =
      ⟨.ok (.ok (s.store.live? k)),
        { s with store := ((Store.memory policy).get k s.store).state }, []⟩ := by
    refine (Op.lift_apply (onStore (c.store.get k)) s).trans ?_
    simp [onStore, Action.within, hget, get_memory]
  rw [lookup, Op.bind_apply, checkAvailable_of_available hs]
  simp only [Op.bind_apply, hcall]
  cases s.store.live? k <;> cases observed <;>
    simp [Op.pure_apply, Op.lift_apply, Op.bind_apply, record]

/-- It changes no live holder. -/
theorem lookup_listed (k : K) (observed : Bool) :
    let r := c.lookup k observed s
    r.answer = .ok ((s.store.live? k).map Holder.value) ∧ r.state.lifecycle = s.lifecycle ∧
      ∀ k', r.state.store.live? k' = s.store.live? k' := by
  obtain ⟨es, hrun⟩ := lookup_run hc hs k observed
  rw [hrun]
  exact ⟨rfl, rfl, live?_get policy k s.store⟩

/-- Looking along a raw iteration passes over the keys that are not live, and stops at the first
that is; no live holder changes. -/
theorem seek_faces (cur : Cursor K V) (hcur : cur.terminated = false)
    (ps : List (K × Holder V)) :
    let r := cur.seek c (ps.map .ok) s
    r.state.lifecycle = s.lifecycle ∧ (∀ k, r.state.store.live? k = s.store.live? k) ∧
      ∃ ks, r.answer.Faces r.state.store ks ∧ ks.Sublist (ps.map Prod.fst) ∧
        ∀ k ∈ ps.map Prod.fst, (s.store.live? k).isSome → k ∈ ks := by
  induction ps generalizing s with
  | nil => exact ⟨rfl, fun _ => rfl, [], .done hcur rfl, .refl _, fun k hk => nomatch hk⟩
  | cons p ps ih =>
    obtain ⟨ha, hl, hlive⟩ := c.lookup_listed hc hs p.1 false
    simp only [List.map_cons, Cursor.seek, Action.bind_apply, ExceptT.run, ha]
    cases hp : s.store.live? p.1 with
    | none =>
      -- the key is passed over
      obtain ⟨hl', hlive', ks, hfaces, hsub, hkept⟩ := ih (by rw [hl]; exact hs)
      refine ⟨hl'.trans hl, fun k => (hlive' k).trans (hlive k), ks, hfaces, .cons _ hsub, ?_⟩
      intro k hk hkl
      rcases List.mem_cons.mp hk with rfl | hk
      · rw [hp] at hkl
        cases hkl
      · exact hkept k hk (by rwa [hlive])
    | some h =>
      have hvalue := congrArg (Option.map Holder.value) ((hlive p.1).trans hp)
      exact ⟨hl, hlive, _, .entry ⟨p.1, h.value⟩ ps hcur rfl rfl hvalue, .refl _, fun k hk _ => hk⟩

variable {last : Memory K V} {cur : Cursor K V} {ks : List K}

omit [DecidableEq (Handle V)] hc in
/-- A walk has a next entry exactly if it still faces a key. -/
theorem hasNext_faces (h : cur.Faces last ks) :
    (cur.hasNext : Op _ K V Bool) s = ⟨.ok !ks.isEmpty, s, []⟩ := by
  rw [Cursor.hasNext, Op.bind_apply, checkAvailable_of_available hs]
  cases h with
  | done going ahead => simp [Op.pure_apply, going, ahead, Lookahead.isSome]
  | entry e ps going ahead raw live => simp [Op.pure_apply, going, ahead, Lookahead.isSome]

omit [DecidableEq (Handle V)] hc in
/-- A walk that faces nothing is at its end. -/
theorem nextEntry_done (h : cur.Faces last []) :
    cur.nextEntry c s = ⟨(.error .noSuchElement, cur), s, []⟩ := by
  obtain ⟨going, ahead⟩ := h
  rw [cur.nextEntry_apply c hs, going, ahead]
  rfl

/-- A walk offers the first key it faces, with the value the key had when it looked ahead, and looks
ahead again. -/
theorem nextEntry_faces {k : K} (h : cur.Faces last (k :: ks)) :
    let r := cur.nextEntry c s
    (∃ v, r.answer.1 = .ok ⟨k, v⟩ ∧ (last.live? k).map Holder.value = some v) ∧
      r.state.lifecycle = s.lifecycle ∧ (∀ k', r.state.store.live? k' = s.store.live? k') ∧
      ∃ ks', r.answer.2.Faces r.state.store ks' ∧ ks'.Sublist ks ∧
        ∀ k' ∈ ks, (s.store.live? k').isSome → k' ∈ ks' := by
  cases h with
  | entry e ps going ahead raw live =>
    have hseek := c.seek_faces hc hs { cur with current := some e.key } going ps
    have hoffer : cur.nextEntry c s = cur.offer c e s := by
      rw [cur.nextEntry_apply c hs, going, ahead]
      rfl
    rw [← raw] at hseek
    rw [hoffer, Cursor.offer_apply]
    exact ⟨⟨e.value, rfl, live⟩, hseek⟩

omit [DecidableEq (Handle V)] hc in
theorem step_done (h : cur.Faces last []) : cur.step c s = ⟨(none, cur), s, []⟩ := by
  have hnext := c.nextEntry_done hs h
  obtain ⟨going, -⟩ := h
  rw [cur.step_apply, going, hnext]
  rfl

omit [DecidableEq K] [DecidableEq (Handle V)] hc hs in
/-- As a sequence, a walk goes on with the entry that it is offered. -/
theorem step_of_offer (going : cur.terminated = false) {e : Entry K V}
    (h : (cur.nextEntry c s).answer.1 = .ok e) :
    (cur.step c s).answer = (some (.ok e), (cur.nextEntry c s).answer.2) ∧
      (cur.step c s).state = (cur.nextEntry c s).state := by
  rcases hr : cur.nextEntry c s with ⟨⟨first, cur'⟩, s', es⟩
  obtain rfl : first = .ok e := by rwa [hr] at h
  rw [cur.step_apply, going, hr]
  exact ⟨rfl, rfl⟩

end

variable [BEq V]

/-! ## One deed -/

/-- What is known of a walk in the middle of a run. The keys it has yielded and those it still faces
are among those it began with, and `last` is the store when it looked ahead. -/
structure Walking (i : Nat) (held : List K) (yielded : List (Entry K V)) (last : Memory K V)
    (ks : List K) (w : World (Memory K V) K V) : Prop where
  available : w.status = .available
  faces : (w.walks i).Faces last ks
  sublist : (yielded.map Entry.key ++ ks).Sublist held

section

variable {i : Nat} {d : Deed (Memory K V) K V} {w : World (Memory K V) K V} {last : Memory K V}
  {k : K} {ks : List K}

omit [DecidableEq (Handle V)] in
/-- Asking a walk that faces nothing changes nothing. -/
theorem ask_done (hd : d.Asks i) (hw : w.status = .available) (h : (w.walks i).Faces last []) :
    c.offered i d w = none ∧ (c.act d w).state = w := by
  cases d with
  | use u =>
    cases u with
    | nextEntry j =>
      obtain rfl : j = i := hd
      have hact : c.use (.nextEntry j) w = ⟨.error .noSuchElement, w, []⟩ :=
        onWalk_idle (c.nextEntry_done hw h)
      rw [offered, if_pos rfl, act, hact]
      exact ⟨rfl, rfl⟩
    | _ => exact hd.elim
  | next j =>
    obtain rfl : j = i := hd
    have hact : c.act (.next j) w = ⟨none, w, []⟩ := onWalk_idle (c.step_done hw h)
    rw [offered, if_pos rfl, hact]
    exact ⟨rfl, rfl⟩
  | _ => exact hd.elim

/-- Asking a walk that faces a key offers it, as `nextEntry` does. -/
theorem ask_faces (hc : c.store = (Store.memory policy).listedBy order) (hd : d.Asks i)
    (hw : w.status = .available) (h : (w.walks i).Faces last (k :: ks)) :
    let r := (w.walks i).nextEntry c w.cache
    ∃ v, (last.live? k).map Holder.value = some v ∧ c.offered i d w = some ⟨k, v⟩ ∧
      (c.act d w).state = World.setWalk { w with cache := r.state } i r.answer.2 := by
  obtain ⟨⟨v, hv, hlast⟩, -⟩ := c.nextEntry_faces hc hw h
  refine ⟨v, hlast, ?_⟩
  cases d with
  | use u =>
    cases u with
    | nextEntry j =>
      obtain rfl : j = i := hd
      rw [offered, if_pos rfl, act, use, onWalk_apply]
      dsimp only
      rw [hv]
      exact ⟨rfl, rfl⟩
    | _ => exact hd.elim
  | next j =>
    obtain rfl : j = i := hd
    have going : (w.walks j).terminated = false := by
      cases h
      assumption
    obtain ⟨hanswer, hstate⟩ := step_of_offer going hv
    rw [offered, if_pos rfl, act, onWalk_apply]
    dsimp only
    rw [hanswer, hstate]
    exact ⟨rfl, rfl⟩
  | _ => exact hd.elim

/-- A deed leaves a walk as it is, or the walk offers the first key it faces, with the value that
the key had when the walk looked ahead, and looks ahead again. -/
theorem Walking.act (hc : c.store = (Store.memory policy).listedBy order) {held : List K}
    {yielded : List (Entry K V)} (h : Walking i held yielded last ks w) (hd : d.Spares i) :
    (c.offered i d w = none ∧ Walking i held yielded last ks (c.act d w).state) ∨
      ∃ e ks', c.offered i d w = some e ∧ (last.live? e.key).map Holder.value = some e.value ∧
        Walking i held (yielded ++ [e]) (c.act d w).state.cache.store ks' (c.act d w).state ∧
        ∀ k ∈ ks, (w.cache.store.live? k).isSome → k = e.key ∨ k ∈ ks' := by
  obtain ⟨hw, hfaces, hsub⟩ := h
  have havailable := c.act_available i hd hw
  by_cases hasks : d.Asks i
  · cases ks with
    | nil =>
      obtain ⟨hnone, hstate⟩ := ask_done (c := c) hasks hw hfaces
      rw [hstate]
      exact .inl ⟨hnone, hw, hfaces, hsub⟩
    | cons k ks =>
      obtain ⟨v, hlast, hoffered, hstate⟩ := ask_faces hc hasks hw hfaces
      obtain ⟨-, -, -, ks', hfaces', hsub', hkept⟩ := c.nextEntry_faces hc hw hfaces
      refine .inr ⟨⟨k, v⟩, ks', hoffered, hlast, ⟨havailable, ?_, ?_⟩, ?_⟩
      · rw [hstate, World.walks_setWalk, World.setWalk_cache]
        exact hfaces'
      · rw [List.map_append, List.append_assoc]
        exact (List.Sublist.append_left (.cons_cons k hsub') _).trans hsub
      · intro k' hk' hlive
        rcases List.mem_cons.mp hk' with rfl | hk'
        · exact .inl rfl
        · exact .inr (hkept k' hk' hlive)
  · have hfaces' := hfaces.of_samePlace (c.act_samePlace i hd.not_begins hasks w)
    exact .inl ⟨c.offered_of_not_asks i hasks w, havailable, hfaces', hsub⟩

/-! ## Runs -/

/-- What a run makes of a walk: it has looked ahead last at the end of some part of the run, and
what it faced and stayed live it has yielded or faces still. -/
theorem Walking.live (hc : c.store = (Store.memory policy).listedBy order) {held : List K}
    (h : Walking i held [] w.cache.store ks w) (deeds : List (Deed (Memory K V) K V))
    (hd : ∀ d ∈ deeds, d.Spares i) :
    ∃ seen since ks', deeds = seen ++ since ∧ c.Advanced i seen w ∧
      c.yields i since (c.live seen w).state = [] ∧
      Walking i held (c.yields i deeds w) (c.live seen w).state.cache.store ks'
        (c.live deeds w).state ∧
      ∀ k ∈ ks, (∀ before, before <+: deeds →
          ((c.live before w).state.cache.store.live? k).isSome) →
        k ∈ (c.yields i deeds w).map Entry.key ∨ k ∈ ks' := by
  induction deeds using List.reverseRecOn with
  | nil => exact ⟨[], [], ks, rfl, .inl rfl, rfl, h, fun k hk _ => .inr hk⟩
  | append_singleton before d ih =>
    obtain ⟨hbefore, hlast⟩ := List.forall_mem_append.mp hd
    obtain ⟨seen, since, ks', rfl, hseen, hsince, hwalk, hkept⟩ := ih hbefore
    rw [live_concat, yields_concat]
    rcases hwalk.act hc (hlast d (List.mem_singleton_self d)) with
      ⟨hnone, hwalk'⟩ | ⟨e, ks'', hsome, -, hwalk', hkept'⟩
    · refine ⟨seen, since ++ [d], ks', List.append_assoc _ _ _, hseen, ?_, ?_, ?_⟩
      · rw [live_append] at hnone
        rw [yields_concat, hsince, hnone]
        rfl
      · rw [hnone]
        simpa using hwalk'
      · intro k hk hlive
        rw [hnone]
        simpa using hkept k hk fun b hb => hlive b (hb.trans (List.prefix_append _ _))
    · -- the walk has looked ahead again at the end of the whole run
      refine ⟨seen ++ since ++ [d], [], ks'', (List.append_nil _).symm,
        .inr ⟨seen ++ since, d, rfl, ?_⟩, rfl, ?_, ?_⟩
      · rw [hsome]
        rfl
      · rw [hsome, live_concat]
        exact hwalk'
      · intro k hk hlive
        rw [hsome, List.map_append, List.mem_append]
        rcases hkept k hk fun b hb => hlive b (hb.trans (List.prefix_append _ _)) with hy | hf
        · exact .inl (.inl hy)
        · rcases hkept' k hf (hlive _ (List.prefix_append _ _)) with rfl | hf
          · exact .inl (.inr (List.mem_singleton_self _))
          · exact .inr hf

/-- A walk begins in front of the live part of what the raw iteration shows. -/
theorem begin_walking (hc : c.store = (Store.memory policy).listedBy order)
    (hw : w.status = .available) (i : Nat) (quiet : Bool) :
    let r := c.use (.iterate i quiet) w
    r.answer = .ok () ∧ (∀ k, r.state.cache.store.live? k = w.cache.store.live? k) ∧
      ∃ ks, Walking i ((order w.cache.store).map Prod.fst) [] r.state.cache.store ks r.state ∧
        ∀ k ∈ (order w.cache.store).map Prod.fst, (w.cache.store.live? k).isSome → k ∈ ks := by
  obtain ⟨hl, hlive, ks, hfaces, hsub, hkept⟩ := c.seek_faces hc hw
    { raw := (order w.cache.store).map .ok, quiet } rfl (order w.cache.store)
  have hbegin := c.begin_run i quiet hw
  rw [iterate_listed hc] at hbegin
  rw [hbegin]
  refine ⟨rfl, hlive, ks, ⟨?_, ?_, hsub⟩, hkept⟩
  · exact (congrArg Lifecycle.status hl).trans hw
  · rw [World.walks_setWalk]
    exact hfaces

omit [DecidableEq (Handle V)] in
/-- Asking a walk whether there is a next entry asks whether it faces a key, and changes nothing. -/
theorem use_hasNext_faces (hw : w.status = .available) (h : (w.walks i).Faces last ks) :
    c.use (.hasNext i) w = ⟨.ok !ks.isEmpty, w, []⟩ := by
  refine onWalk_idle ?_
  rw [Action.bind_apply, ExceptT.run, hasNext_faces hw h]
  rfl

/-- `hasNext` tells whether a walk still faces a key, and so whether it will offer one. -/
theorem Walking.hasNext (hc : c.store = (Store.memory policy).listedBy order) {held : List K}
    {yielded : List (Entry K V)} (h : Walking i held yielded last ks w) :
    (c.use (.hasNext i) w).answer = .ok !ks.isEmpty ∧
      ((∃ e, (c.use (.nextEntry i) w).answer = .ok e) ↔ ks ≠ []) := by
  constructor
  · rw [use_hasNext_faces h.available h.faces]
  · rw [use, onWalk_apply]
    cases ks with
    | nil => simp [c.nextEntry_done h.available h.faces]
    | cons k ks =>
      obtain ⟨⟨v, hv, -⟩, -⟩ := c.nextEntry_faces hc h.available h.faces
      simp [hv]

end

/-! ## Faithful walks -/

/-- What a walk yields in a run that follows its beginning: `start` is the world in which it began,
and `begun` the world with the walk. -/
structure FaithfulWalk (c : Cache (Memory K V) K V) (i : Nat) (start begun : World (Memory K V) K V)
    (deeds : List (Deed (Memory K V) K V)) : Prop where
  /-- No key is yielded twice. -/
  distinct : ((c.yields i deeds begun).map Entry.key).Nodup
  /-- What is yielded was held when the walk began. -/
  held : ∀ e ∈ c.yields i deeds begun, e.key ∈ start.cache.store.table.keys
  bounded : (c.yields i deeds begun).length ≤ start.cache.store.rawSize
  /-- The walk tells whether there is a next entry; there is none if as many were yielded as were
  held. -/
  ends : ∃ more, (c.use (.hasNext i) (c.live deeds begun).state).answer = .ok more ∧
    (more = true ↔ ∃ e, (c.use (.nextEntry i) (c.live deeds begun).state).answer = .ok e) ∧
    ((c.yields i deeds begun).length = start.cache.store.rawSize → more = false)
  /-- An entry is what a read of its key was answered when the walk last looked ahead. -/
  fresh : ∀ before d after e, deeds = before ++ d :: after →
    c.offered i d (c.live before begun).state = some e →
      ∃ seen since, before = seen ++ since ∧ c.Advanced i seen begun ∧
        c.yields i since (c.live seen begun).state = [] ∧
        (c.get e.key (c.live seen begun).state.cache).answer = .ok (some e.value)
  /-- A key that was held and stayed live up to the end of the walk is yielded once. -/
  complete : ∀ k ∈ start.cache.store.table.keys, ∀ upto, upto <+: deeds →
    (c.use (.hasNext i) (c.live upto begun).state).answer = .ok false →
    (∀ before, before <+: upto → ((c.live before begun).state.cache.store.live? k).isSome) →
      ((c.yields i deeds begun).map Entry.key).count k = 1

/-- **Walks are faithful**: over a store in memory whose raw iteration comes in any order, under any
policies and any strategy, a walk begins well on an available cache; and in every run that does not
close the cache and does not begin another walk in its place, whatever else is done in it, the walk
yields distinct keys that were held when it began, each with the value that a read was answered when
the walk last looked ahead, and exactly once each of those keys that stays live. -/
theorem faithful_walk (hc : c.store = (Store.memory policy).listedBy order)
    (horder : ∀ mem : Memory K V, (order mem).Perm mem.table.pairs) (i : Nat) (quiet : Bool)
    {start : World (Memory K V) K V} (hstart : start.status = .available)
    (deeds : List (Deed (Memory K V) K V)) (hd : ∀ d ∈ deeds, d.Spares i) :
    (c.use (.iterate i quiet) start).answer = .ok () ∧
      c.FaithfulWalk i start (c.use (.iterate i quiet) start).state deeds := by
  obtain ⟨hanswer, hsame, ks, hbegun, hfaced⟩ := begin_walking hc hstart i quiet
  generalize hb : (c.use (.iterate i quiet) start).state = begun at hsame hbegun ⊢
  refine ⟨hanswer, ?_⟩
  have hkeys : ((order start.cache.store).map Prod.fst).Perm start.cache.store.table.keys :=
    (horder start.cache.store).map Prod.fst
  have hnodup := hkeys.nodup_iff.mpr start.cache.store.table.nodup
  obtain ⟨_, _, ks', -, -, -, hwalk, -⟩ := hbegun.live hc deeds hd
  have hsub := (List.sublist_append_left _ ks').trans hwalk.sublist
  have hdistinct : ((c.yields i deeds begun).map Entry.key).Nodup := hsub.nodup hnodup
  have hsize : ((order start.cache.store).map Prod.fst).length = start.cache.store.rawSize := by
    rw [hkeys.length_eq, KeyMap.keys, List.length_map]
    rfl
  constructor
  · exact hdistinct
  · intro e he
    exact hkeys.mem_iff.mp (hsub.subset (List.mem_map_of_mem he))
  · rw [← hsize, ← List.length_map (f := Entry.key)]
    exact hsub.length_le
  · obtain ⟨hnext, hoffers⟩ := hwalk.hasNext hc
    refine ⟨_, hnext, ?_, ?_⟩
    · rw [hoffers]
      cases ks' <;> simp
    · intro hall
      have hlength := hwalk.sublist.length_le
      rw [List.length_append, List.length_map, hall, hsize] at hlength
      have hempty : ks' = [] := List.eq_nil_of_length_eq_zero (by omega)
      rw [hempty]
      rfl
  · rintro before d after e rfl hoffered
    obtain ⟨hbefore, hlater⟩ := List.forall_mem_append.mp hd
    obtain ⟨seen, since, ks'', rfl, hseen, hsince, hwalk', -⟩ := hbegun.live hc before hbefore
    refine ⟨seen, since, rfl, hseen, hsince, ?_⟩
    have hseens : ∀ d ∈ seen, d.Spares i := fun d hd' => hbefore d (List.mem_append_left _ hd')
    obtain ⟨hread, -⟩ := c.lookup_listed hc (live_available hseens hbegun.available) e.key true
    rcases hwalk'.act hc (hlater d List.mem_cons_self) with ⟨hnone, -⟩ | ⟨e', -, hsome, hlast, -⟩
    · cases hnone.symm.trans hoffered
    · obtain rfl : e' = e := Option.some.inj (hsome.symm.trans hoffered)
      rw [hlast] at hread
      exact hread
  · intro k hk upto hupto hend hlive
    obtain ⟨rest, rfl⟩ := hupto
    have hupto' : ∀ d ∈ upto, d.Spares i := fun d hd' => hd d (List.mem_append_left _ hd')
    obtain ⟨_, _, ks'', -, -, -, hwalk', hkept⟩ := hbegun.live hc upto hupto'
    have hempty : ks'' = [] := by
      have hnext := (hwalk'.hasNext hc).1
      rw [hend] at hnext
      cases ks'' with
      | nil => rfl
      | cons k' ks'' => cases hnext
    have hstartlive := hlive [] (List.nil_prefix)
    have hk' : k ∈ ks := hfaced k (hkeys.mem_iff.mpr hk) (by rwa [← hsame])
    rcases hkept k hk' hlive with hy | hf
    · refine List.count_eq_one_of_mem hdistinct ?_
      rw [yields_append, List.map_append]
      exact List.mem_append_left _ hy
    · rw [hempty] at hf
      cases hf

/-- While a walk has looked ahead to the second of two keys, that key is dropped and a third one is
written: the walk yields the first two, the second as it was, and ends. -/
theorem faithful_walk_meanwhile :
    let c : Cache (Memory Nat Nat) Nat Nat :=
      { store := (Store.memory .eternal).listedBy (·.table.pairs), strategy := .propagating }
    let held : KeyMap Nat (Holder Nat) :=
      { pairs := [(1, .eternal ⟨0, 10⟩), (2, .eternal ⟨1, 20⟩)], nodup := by decide }
    let start : World (Memory Nat Nat) Nat Nat :=
      { cache := { store := { table := held }, lifecycle := { status := .available } }
        walks := fun _ => { raw := [], quiet := true } }
    let begun := (c.use (.iterate 0 true) start).state
    let deeds : List (Deed (Memory Nat Nat) Nat Nat) :=
      [.use (.nextEntry 0), .outside (·.drop 2), .use (.call (.put 3 ⟨2, 30⟩)), .next 0,
        .use (.nextEntry 0)]
    start.status = .available ∧ (∀ d ∈ deeds, d.Spares 0) ∧ c.FaithfulWalk 0 start begun deeds ∧
      c.yields 0 deeds begun = [⟨1, ⟨0, 10⟩⟩, ⟨2, ⟨1, 20⟩⟩] ∧
      ((c.yields 0 deeds begun).map Entry.key).count 1 = 1 := by
  intro c held start begun deeds
  have hc : c.store = (Store.memory .eternal).listedBy (·.table.pairs) := rfl
  have hstart : start.status = .available := rfl
  have hd : ∀ d ∈ deeds, d.Spares 0 := by simp [deeds, Deed.Spares]
  have hwalk := (faithful_walk hc (fun _ => .refl _) 0 true hstart deeds hd).2
  have hyields : c.yields 0 deeds begun = [⟨1, ⟨0, 10⟩⟩, ⟨2, ⟨1, 20⟩⟩] := by decide
  refine ⟨hstart, hd, hwalk, hyields, ?_⟩
  rw [hyields]
  decide

end Cache

end ResilientCache
