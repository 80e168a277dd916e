import ResilientCache.Proofs.Dropping

/-!
# Absence is stable

Whoever is told that a key is absent will not find it later, until somebody writes it, wherever the
clock is moved in between. A key is reported absent by a read that finds no value for it, to a
loader that is handed it because it is not mapped, and to a batch function that is handed it without
a value (`ReportsAbsent`). Whatever reports a key absent purges it, so after a report nothing is
held under the key, and no clock can bring it back.

`containsKey` is no report: it purges nothing, and a key that it does not find may live again.

A walk that begins then never offers the key, even if it is written later: the walk goes along what
the store showed when it began (`Cursor.Avoids`).

Headlines:
* `ReportsAbsent.purges`: what is reported absent is not live, and purged.
* `nextEntry_avoids`, `history_avoids`: walks.
* **`absence_stable`**: every history.
-/

namespace ResilientCache

open Memory

variable {σ Q A ε α K V : Type}

/-! ## Walks that will not offer a key -/

theorem ok_of_toOption {x : Except ε α} {a : α} (h : x.toOption = some a) : x = .ok a := by
  cases x with
  | error e => cases h
  | ok b => exact congrArg _ (Option.some.inj h)

/-- A walk has a key neither ahead nor in what is left of its raw iteration. -/
structure Cursor.Avoids (k : K) (cur : Cursor K V) : Prop where
  raw : ∀ h, .ok (k, h) ∉ cur.raw
  ahead : ∀ v, cur.ahead ≠ .entry ⟨k, v⟩

theorem Cursor.Avoids.of_samePlace {k : K} {cur cur' : Cursor K V} (h : cur.Avoids k)
    (hsame : cur.SamePlace cur') : cur'.Avoids k :=
  ⟨hsame.1 ▸ h.raw, hsame.2.1 ▸ h.ahead⟩

namespace Cache

section

variable (c : Cache σ K V) {k : K} {cur : Cursor K V}

/-- Looking along raw steps without a key does not find it. -/
theorem seek_avoids (cur : Cursor K V) : ∀ (steps : List (RawStep K V)) (s : State σ),
    (∀ h, .ok (k, h) ∉ steps) → (cur.seek c steps s).answer.Avoids k
  | [], _, _ => ⟨fun _ => List.not_mem_nil, fun _ hv => by cases hv⟩
  | .error e :: rest, _, h =>
    ⟨fun h' hmem => h h' (List.mem_cons_of_mem _ hmem), fun _ hv => by cases hv⟩
  | .ok (k', h') :: rest, s, h => by
    have hrest (h'' : Holder V) : .ok (k, h'') ∉ rest :=
      fun hmem => h h'' (List.mem_cons_of_mem _ hmem)
    rw [Cursor.seek, Action.bind_apply]
    rcases ((c.lookup k' false).run s).answer with e | v | v
    · exact ⟨hrest, fun _ hv => by cases hv⟩
    · exact seek_avoids cur rest _ hrest
    · refine ⟨hrest, fun v' hahead => h h' ?_⟩
      obtain ⟨rfl, -⟩ := Entry.mk.inj (Lookahead.entry.inj hahead)
      exact List.mem_cons_self

/-- A walk that avoids a key offers another one, if any, and goes on to avoid it. -/
theorem nextEntry_avoids (hsound : cur.Sound) (h : cur.Avoids k) (s : State σ) :
    let r := cur.nextEntry c s
    (∀ v, r.answer.1 ≠ .ok ⟨k, v⟩) ∧ r.answer.2.Avoids k := by
  by_cases hs : s.lifecycle.status = .available
  swap
  · rw [c.nextEntry_refused cur hs]
    exact ⟨fun _ hv => (by cases hv), h⟩
  rw [cur.nextEntry_apply c hs]
  by_cases hterminated : cur.terminated
  · rw [if_pos hterminated]
    exact ⟨fun _ hv => (by cases hv), h⟩
  · rw [if_neg hterminated]
    cases hahead : cur.ahead with
    | nothing => exact ⟨fun _ hv => (by cases hv), h⟩
    | entry e =>
      dsimp only
      rw [Cursor.offer_apply]
      refine ⟨fun v hv => h.ahead v ?_, c.seek_avoids _ _ s h.raw⟩
      rw [hahead, Except.ok.inj hv]
    | failure held =>
      have hfailed := hsound.ahead
      rw [hahead] at hfailed
      cases hfailed

theorem step_avoids (hsound : cur.Sound) (h : cur.Avoids k) (s : State σ) :
    let r := cur.step c s
    (∀ v, r.answer.1 ≠ some (.ok ⟨k, v⟩)) ∧ r.answer.2.Avoids k := by
  obtain ⟨hoffers, havoids⟩ := c.nextEntry_avoids hsound h s
  dsimp only
  rw [cur.step_apply]
  by_cases hterminated : cur.terminated
  · rw [if_pos hterminated]
    exact ⟨fun _ hv => (by cases hv), h⟩
  · rw [if_neg hterminated]
    dsimp only
    split
    all_goals
      rename_i hanswer
      rw [hanswer] at hoffers havoids
    · exact ⟨fun v hv => hoffers v (Option.some.inj hv), havoids⟩
    · exact ⟨fun _ hv => (by cases hv), havoids⟩
    · exact ⟨fun _ hv => (by cases hv), havoids.raw, havoids.ahead⟩

variable [DecidableEq K] [BEq V] {i : Nat} {w : World σ K V}

/-- A walk that avoids a key does not offer it, whatever is done next. -/
theorem offered_avoids (hsound : (w.walks i).Sound) (h : (w.walks i).Avoids k) (d : Deed σ K V)
    (v : Handle V) : c.offered i d w ≠ some ⟨k, v⟩ := by
  cases d with
  | use u =>
    cases u with
    | nextEntry j =>
      by_cases hj : j = i
      · subst hj
        rw [offered, if_pos rfl, use, onWalk_apply]
        intro hoffered
        exact (c.nextEntry_avoids hsound h w.cache).1 v (ok_of_toOption hoffered)
      · rw [offered, if_neg hj]
        exact (Option.some_ne_none _).symm
    | _ => exact (Option.some_ne_none _).symm
  | next j =>
    by_cases hj : j = i
    · subst hj
      rw [offered, if_pos rfl, act, onWalk_apply]
      intro hoffered
      obtain ⟨r, hr, hv⟩ := Option.bind_eq_some_iff.mp hoffered
      rw [ok_of_toOption hv] at hr
      exact (c.step_avoids hsound h w.cache).1 v hr
    · rw [offered, if_neg hj]
      exact (Option.some_ne_none _).symm
  | _ => exact (Option.some_ne_none _).symm

theorem act_avoids (hsound : (w.walks i).Sound) (h : (w.walks i).Avoids k) {d : Deed σ K V}
    (hbegins : ¬ d.Begins i) : ((c.act d w).state.walks i).Avoids k := by
  by_cases hasks : d.Asks i
  swap
  · exact h.of_samePlace (c.act_samePlace i hbegins hasks w)
  cases d with
  | use u =>
    cases u with
    | nextEntry j =>
      obtain rfl : j = i := hasks
      rw [act, use, onWalk_apply]
      dsimp only
      rw [World.walks_setWalk]
      exact (c.nextEntry_avoids hsound h w.cache).2
    | _ => exact hasks.elim
  | next j =>
    obtain rfl : j = i := hasks
    rw [act, onWalk_apply]
    dsimp only
    rw [World.walks_setWalk]
    exact (c.step_avoids hsound h w.cache).2
  | _ => exact hasks.elim

end

end Cache

/-- An incident that begins a walk under a name. -/
def Incident.Begins (i : Nat) : Incident σ K V → Prop
  | .deed d => d.Begins i
  | .turn _ => False

variable [DecidableEq K] [DecidableEq (Handle V)]

namespace Cache

variable [BEq V] {c : Cache (Memory K V) K V} {order : Memory K V → List (K × Holder V)}
  {w : World (Memory K V) K V} {gone : K → Prop} {k : K}

/-- A walk that begins while nothing is held under a key avoids it. -/
theorem begin_avoids (horder : ∀ m, (order m).Perm m.table.pairs)
    (hk : w.cache.store.table.get? k = none) (hs : w.status = .available) (p : Policies K V)
    (i : Nat) (quiet : Bool) :
    (((c.shared order p).act (.use (.iterate i quiet)) w).state.walks i).Avoids k := by
  have hraw (h : Holder V) : (.ok (k, h) : RawStep K V) ∉
      (order w.cache.store).map (.ok : K × Holder V → RawStep K V) := by
    intro hmem
    obtain ⟨q, hq, hqk⟩ := List.mem_map.mp hmem
    cases hqk
    cases hk.symm.trans (KeyMap.mem_pairs_iff.mp ((horder _).mem_iff.mp hq))
  have hseek := (c.shared order p).seek_avoids
    { raw := (order w.cache.store).map .ok, quiet } _ w.cache hraw
  have hrun : (((c.shared order p).iterate quiet).run w.cache).answer =
      .ok (Cursor.seek (c.shared order p) { raw := (order w.cache.store).map .ok, quiet }
        ((order w.cache.store).map .ok) w.cache).answer := by
    rw [iterate, ExceptT.run, Op.bind_apply, checkAvailable_of_available hs]
    simp only [Op.bind_apply, shared, callStore_iterate, ExceptT.lift, ExceptT.mk, Action.map_apply]
  rw [act, use, beginWalk_apply]
  dsimp only
  rw [hrun]
  dsimp only
  rwa [World.walks_setWalk]

/-- A walk goes on to avoid a key in whatever happens, unless it is begun anew. -/
theorem history_avoids {i : Nat} : ∀ (incidents : List (Policies K V × Incident (Memory K V) K V))
    {w : World (Memory K V) K V}, (∀ j, (w.walks j).Sound) → (w.walks i).Avoids k →
    (∀ x ∈ incidents, x.2.IsOwn ∧ ¬ x.2.Begins i) →
    let w' := (history (c.shared order) .whole incidents w).state
    (w'.walks i).Sound ∧ (w'.walks i).Avoids k
  | [], _, hw, havoids, _ => ⟨hw i, havoids⟩
  | (p, x) :: rest, w, hw, havoids, hall => by
    obtain ⟨⟨hown, hbegins⟩, hrest⟩ := List.forall_mem_cons.mp hall
    refine history_avoids rest (c.occur_sound order hw p hown) ?_ hrest
    cases x with
    | deed d => exact (c.shared order p).act_avoids (hw i) havoids hbegins
    | turn t => exact havoids

end Cache

/-! ## Reports -/

/-- The question that a dialogue asks first, if it asks any. -/
def Dialogue.question? : Dialogue Q A ε α → Option Q
  | done _ => none
  | tell _ next => next.question?
  | ask q _ => some q

/-- The keys that a use has the store recompute from the values they have. -/
def Use.recomputed? : Use K V → Option (List K)
  | call (.put k _) => some [k]
  | call (.putIfAbsent k _) => some [k]
  | call (.removeIf k _) => some [k]
  | call (.replace k _) => some [k]
  | call (.replaceIf k _ _) => some [k]
  | call (.putAll entries) => some (entries.map Prod.fst).eraseDups
  | call (.removeAll ks) => some ks.eraseDups
  | loadAll ks true _ => some ks
  | _ => none

omit [DecidableEq (Handle V)] in
/-- A use purges every key that it has recomputed. -/
theorem Use.purges_of_recomputed? {u : Use K V} {ks : List K} (h : u.recomputed? = some ks) {k : K}
    (hk : k ∈ ks) : u.Purges k := by
  cases u with
  | call operation =>
    cases operation with
    | put k' v => cases h; exact List.mem_singleton.mp hk
    | putIfAbsent k' v => cases h; exact List.mem_singleton.mp hk
    | removeIf k' value => cases h; exact List.mem_singleton.mp hk
    | replace k' v => cases h; exact List.mem_singleton.mp hk
    | replaceIf k' old new => cases h; exact List.mem_singleton.mp hk
    | putAll entries => cases h; exact List.mem_eraseDups.mp hk
    | removeAll ks' => cases h; exact List.mem_eraseDups.mp hk
    | _ => cases h
  | loadAll ks' replaceExisting loader =>
    cases replaceExisting with
    | true => cases h; exact hk
    | false => cases h
  | _ => cases h

/-- A bulk computation asks with every requested key and its live value. -/
theorem Memory.question?_bulkCompute (policy : Policy K V) (ks : List K) (m : Memory K V) :
    ((Store.memory policy).bulkCompute ks m).question? = some (m.batch ks) := by
  rw [bulkCompute_eq, batch_purgeAll]
  rfl

omit [DecidableEq (Handle V)] in
/-- A key without a value in the batch of a bulk computation is requested, and not live. -/
theorem Memory.mem_batch_none {m : Memory K V} {ks : List K} {k : K} (h : (k, none) ∈ m.batch ks) :
    k ∈ ks ∧ m.live? k = none := by
  obtain ⟨k', hk', hpair⟩ := List.mem_map.mp h
  obtain ⟨rfl, hvalue⟩ := Prod.mk.inj hpair
  exact ⟨List.mem_eraseDups.mp hk', Option.map_eq_none_iff.mp hvalue⟩

namespace Backend

omit [DecidableEq (Handle V)] in
/-- A bulk call that asks at once hands its function that question, and nothing else. -/
theorem bulk_hands {call : Memory K V → BulkCall (Memory K V) Q K V} (handed : Q → Sight K V)
    (f : Q → Except Fault (Mappings K V)) {m m' : Memory K V} {q : Q}
    {each : KeyMap K (Option (Handle V)) → K → Action (Memory K V) (Note K V) Unit}
    {settled requested : List K} (h : call m = .ask q (settling each settled requested m')) :
    ∃ notes : List (Note K V), (bulk call handed f m).events = handed q :: notes.map .note := by
  obtain ⟨notes, hnotes⟩ := run_settling_notes Sight.note
    (fun q => do Action.tell (handed q); return f q) each settled requested m' () (f q)
  refine ⟨notes, ?_⟩
  rw [bulk, h, Dialogue.run_ask]
  exact congrArg (handed q :: ·) hnotes

theorem handed_eq {policy : Policy K V} {ks : List K}
    {f : Mappings K V → Except Fault (Mappings K V)} {m : Memory K V} {batch : Mappings K V}
    (h : .handed batch ∈ ((lazy policy).serve (.bulkCompute ks f) m).events) :
    batch = m.batch ks := by
  obtain ⟨notes, hevents⟩ := bulk_hands .handed f (bulkCompute_eq policy ks m)
  rw [batch_purgeAll] at hevents
  have hmem : Sight.handed batch ∈ Sight.handed (m.batch ks) :: notes.map .note := hevents ▸ h
  simpa using hmem

theorem handedKeys_eq {policy : Policy K V} {ks : List K} {f : List K → Except Fault (Mappings K V)}
    {m : Memory K V} {batch : List K}
    (h : .handedKeys batch ∈ ((lazy policy).serve (.bulkComputeIfAbsent ks f) m).events) :
    batch = m.absent ks := by
  have hcall := bulkComputeIfAbsent_eq policy ks m
  rw [missing_purgeAll] at hcall
  by_cases hnone : (m.absent ks).isEmpty
  · rw [if_pos hnone] at hcall
    have hmem : .handedKeys batch ∈
      (bulk ((Store.memory policy).bulkComputeIfAbsent ks) .handedKeys f m).events := h
    rw [bulk_done hcall] at hmem
    cases hmem
  · rw [if_neg hnone] at hcall
    obtain ⟨notes, hevents⟩ := bulk_hands .handedKeys f hcall
    have hmem : Sight.handedKeys batch ∈ Sight.handedKeys (m.absent ks) :: notes.map .note :=
      hevents ▸ h
    simpa using hmem

end Backend

namespace Cache

variable [BEq V] {c : Cache (Memory K V) K V} {order : Memory K V → List (K × Holder V)}
  {p : Policies K V} {w : World (Memory K V) K V} {gone : K → Prop} {k : K}

variable (c order p w k) in
/-- An incident reports a key absent: a read finds no value for it, a loader is handed it because it
has none, or a batch function is handed it without one. -/
inductive ReportsAbsent : Incident (Memory K V) K V → Prop
  | get (h : ((c.shared order p).use (.call (.get k)) w).answer = .ok none) :
      ReportsAbsent (.deed (.use (.call (.get k))))
  | getAll {ks : List K} {found : KeyMap K (Option (Handle V))} (hk : k ∈ ks)
      (h : ((c.shared order p).use (.call (.getAll ks)) w).answer = .ok found)
      (habsent : found.get? k = some none) : ReportsAbsent (.deed (.use (.call (.getAll ks))))
  | getAllPresent {ks : List K} {found : KeyMap K (Handle V)} (hk : k ∈ ks)
      (h : ((c.shared order p).use (.call (.getAllPresent ks)) w).answer = .ok found)
      (habsent : found.get? k = none) : ReportsAbsent (.deed (.use (.call (.getAllPresent ks))))
  | getAllWith {ks : List K} {includeAbsent : Bool} {found : KeyMap K (Option (Handle V))}
      (hk : k ∈ ks)
      (h : ((c.shared order p).use (.getAllWith ks includeAbsent) w).answer = .ok found)
      (habsent : (found.get? k).join = none) :
      ReportsAbsent (.deed (.use (.getAllWith ks includeAbsent)))
  | loader {ks batch : List K} {loader : Loader K V}
      (h : batch ∈ loaderCalls ((c.shared order p).use (.loadAll ks false loader) w).events)
      (hk : k ∈ batch) : ReportsAbsent (.deed (.use (.loadAll ks false loader)))
  /-- The batch function of a use that recomputes keys. -/
  | recomputed {u : Use K V} {ks : List K} {batch : Mappings K V} (hs : w.status = .available)
      (hu : u.recomputed? = some ks)
      (h : ((c.shared order p).store.bulkCompute ks w.cache.store).question? = some batch)
      (hk : (k, none) ∈ batch) : ReportsAbsent (.deed (.use u))
  | read (h : ((Backend.lazy p.store).serve (.get k) w.cache.store).answer = .ok none) :
      ReportsAbsent (.turn (.request (.get k)))
  | handed {ks : List K} {f : Mappings K V → Except Fault (Mappings K V)} {batch : Mappings K V}
      (h : .handed batch ∈
        ((Backend.lazy p.store).serve (.bulkCompute ks f) w.cache.store).events)
      (hk : (k, none) ∈ batch) : ReportsAbsent (.turn (.request (.bulkCompute ks f)))
  | handedKeys {ks batch : List K} {f : List K → Except Fault (Mappings K V)}
      (h : .handedKeys batch ∈
        ((Backend.lazy p.store).serve (.bulkComputeIfAbsent ks f) w.cache.store).events)
      (hk : k ∈ batch) : ReportsAbsent (.turn (.request (.bulkComputeIfAbsent ks f)))

omit [DecidableEq (Handle V)] in
/-- A use that succeeds is one of an available cache. -/
theorem available_of_ok {c : Cache (Memory K V) K V} {u : Use K V} {a : u.Answer}
    (h : (c.use u w).answer = .ok a) : w.status = .available := by
  by_contra hs
  rw [use_refused _ u hs] at h
  cases h

/-- An absent-only loader is called by an available cache, with the absent keys. -/
theorem use_loadAll_asks {ks batch : List K} {loader : Loader K V}
    (h : batch ∈ loaderCalls ((c.shared order p).use (.loadAll ks false loader) w).events) :
    w.status = .available ∧ batch = w.cache.store.absent ks := by
  have hs : w.status = .available := by
    by_contra hs
    rw [use_refused _ _ hs] at h
    cases h
  have hasks := loadAll_asks (c := c.withPolicies p) rfl hs ks false loader
  rw [use, onCache_apply] at h
  have hmem := hasks ▸ h
  split at hmem
  · cases hmem
  · exact ⟨hs, List.mem_singleton.mp hmem⟩

/-- **What is reported absent is not live, and purged.** -/
theorem ReportsAbsent.purges {x : Incident (Memory K V) K V} (h : c.ReportsAbsent order p w k x) :
    w.cache.store.live? k = none ∧ x.Purges w k := by
  cases h with
  | get h =>
    have hs := available_of_ok h
    have hfound : _ = _ := (serve_get (c := c.withPolicies p) rfl hs k).symm.trans h
    exact ⟨Option.map_eq_none_iff.mp (Except.ok.inj hfound), hs, rfl⟩
  | @getAll ks found hk h habsent =>
    have hs := available_of_ok h
    obtain ⟨found', hfound, hget⟩ := serve_getAll (c := c.withPolicies p) rfl hs ks
    cases Except.ok.inj (hfound.symm.trans h)
    rw [hget, if_pos hk] at habsent
    exact ⟨Option.map_eq_none_iff.mp (Option.some.inj habsent), hs, hk⟩
  | @getAllPresent ks found hk h habsent =>
    have hs := available_of_ok h
    obtain ⟨found', hfound, hget⟩ := serve_getAllPresent (c := c.withPolicies p) rfl hs ks
    cases Except.ok.inj (hfound.symm.trans h)
    rw [hget, if_pos hk] at habsent
    exact ⟨Option.map_eq_none_iff.mp habsent, hs, hk⟩
  | @getAllWith ks includeAbsent found hk h habsent =>
    have hs := available_of_ok h
    obtain ⟨found', hfound, hget⟩ := getAllWith_live (c := c.withPolicies p) rfl hs ks includeAbsent
    cases Except.ok.inj (hfound.symm.trans h)
    refine ⟨?_, hs, hk⟩
    rw [hget] at habsent
    cases hl : w.cache.store.live? k with
    | none => rfl
    | some held => simp [hk, hl] at habsent
  | loader h hk =>
    obtain ⟨hs, rfl⟩ := use_loadAll_asks h
    exact ⟨(mem_absent.mp hk).2, hs, (mem_absent.mp hk).1⟩
  | @recomputed u ks batch hs hu h hk =>
    obtain rfl := Option.some.inj ((question?_bulkCompute p.store ks w.cache.store).symm.trans h)
    obtain ⟨hmem, hlive⟩ := mem_batch_none hk
    exact ⟨hlive, hs, u.purges_of_recomputed? hu hmem⟩
  | read h =>
    have hfound : ((Store.memory p.store).get k w.cache.store).answer = .ok none := h
    rw [get_memory] at hfound
    exact ⟨Except.ok.inj hfound, rfl⟩
  | handed h hk =>
    rw [Backend.handed_eq h] at hk
    exact ⟨(mem_batch_none hk).2, (mem_batch_none hk).1⟩
  | handedKeys h hk =>
    rw [Backend.handedKeys_eq h] at hk
    exact ⟨(mem_absent.mp hk).2, (mem_absent.mp hk).1⟩

/-! ## Stable absence -/

variable (c order k w) in
/-- Nobody finds a key, whatever the policies are then: no read of an available cache, no call of
the store, no listing of it, and no walk that begins, however it goes on. -/
structure FindsNone : Prop where
  get (p : Policies K V) (hs : w.status = .available) :
    ((c.shared order p).use (.call (.get k)) w).answer = .ok none
  containsKey (p : Policies K V) (hs : w.status = .available) :
    ((c.shared order p).use (.call (.containsKey k)) w).answer = .ok false
  getAll (p : Policies K V) (hs : w.status = .available) (ks : List K) (hk : k ∈ ks) :
    ∃ found, ((c.shared order p).use (.call (.getAll ks)) w).answer = .ok found ∧
      found.get? k = some none
  getAllPresent (p : Policies K V) (hs : w.status = .available) (ks : List K) :
    ∃ found, ((c.shared order p).use (.call (.getAllPresent ks)) w).answer = .ok found ∧
      found.get? k = none
  storeGet (p : Policies K V) :
    ((Backend.lazy p.store).serve (.get k) w.cache.store).answer = .ok none
  storeContainsKey (p : Policies K V) :
    ((Backend.lazy p.store).serve (.containsKey k) w.cache.store).answer = .ok false
  storeIterate (p : Policies K V) (h : Holder V) :
    .ok (k, h) ∉ ((Backend.lazy p.store).turn .iterate w.cache.store).answer
  /-- Until its name is given to another walk, this one never offers the key. -/
  walk (p : Policies K V) (hs : w.status = .available) (i : Nat) (quiet : Bool)
    (later : List (Policies K V × Incident (Memory K V) K V))
    (hlater : ∀ x ∈ later, x.2.IsOwn ∧ ¬ x.2.Begins i) (q : Policies K V)
    (d : Deed (Memory K V) K V) (v : Handle V) :
    let begun : Policies K V × Incident (Memory K V) K V := (p, .deed (.use (.iterate i quiet)))
    (c.shared order q).offered i d
      (history (c.shared order) .whole (begun :: later) w).state ≠ some ⟨k, v⟩

/-- Where nothing is held under a key, nobody finds it. -/
theorem findsNone_of_lacks (horder : ∀ m, (order m).Perm m.table.pairs)
    (hw : w.Lacks (· = k)) : c.FindsNone order w k := by
  have hheld : w.cache.store.table.get? k = none := hw.held k rfl
  have hlive : w.cache.store.live? k = none := live?_of_get? hheld
  constructor
  case get =>
    intro p hs
    have ha := serve_get (c := c.withPolicies p) rfl hs k
    rw [hlive] at ha
    exact ha
  case containsKey =>
    intro p hs
    have ha := serve_containsKey (c := c.withPolicies p) rfl hs k
    rw [hlive] at ha
    exact ha
  case getAll =>
    intro p hs ks hk
    obtain ⟨found, ha, hget⟩ := serve_getAll (c := c.withPolicies p) rfl hs ks
    exact ⟨found, ha, (hget k).trans (by rw [if_pos hk, hlive, Option.map_none])⟩
  case getAllPresent =>
    intro p hs ks
    obtain ⟨found, ha, hget⟩ := serve_getAllPresent (c := c.withPolicies p) rfl hs ks
    exact ⟨found, ha, (hget k).trans (by rw [hlive, Option.map_none, ite_self])⟩
  case storeGet =>
    intro p
    show ((Store.memory p.store).get k w.cache.store).answer = .ok none
    rw [get_memory, hlive]
  case storeContainsKey =>
    intro p
    show Except.ok (w.cache.store.live? k).isSome = _
    rw [hlive]
    rfl
  case storeIterate =>
    intro p h hmem
    obtain ⟨q, hq, hqk⟩ := List.mem_map.mp hmem
    cases hqk
    cases hheld.symm.trans (KeyMap.mem_pairs_iff.mp hq)
  case walk =>
    intro p hs i quiet later hlater q d v
    have hbegun := c.occur_sound order hw.sound p (x := .deed (.use (.iterate i quiet))) trivial
    obtain ⟨hsound, havoids⟩ := history_avoids later hbegun
      (begin_avoids horder hheld hs p i quiet) hlater
    exact (c.shared order q).offered_avoids hsound havoids d v

/-- **Absence is stable.** After a history in which a key was reported absent by some incident, and
not written by it or since, nobody finds the key, whatever the policies were and are, and however
the clock was moved. -/
theorem absence_stable (horder : ∀ m, (order m).Perm m.table.pairs)
    (hw : ∀ i, (w.walks i).Sound)
    {before meanwhile : List (Policies K V × Incident (Memory K V) K V)}
    {report : Incident (Memory K V) K V}
    (hown : ∀ x ∈ before ++ (p, report) :: meanwhile, x.2.IsOwn)
    (hreport : c.ReportsAbsent order p (history (c.shared order) .whole before w).state k report)
    (hkept : c.Unwritten order k ((p, report) :: meanwhile)
      (history (c.shared order) .whole before w).state) :
    c.FindsNone order
      (history (c.shared order) .whole (before ++ (p, report) :: meanwhile) w).state k := by
  obtain ⟨hbefore, hrest⟩ := List.forall_mem_append.mp hown
  obtain ⟨hreported, hmeanwhile⟩ := List.forall_mem_cons.mp hrest
  -- the report purges the key, and no walk meets a failure in it
  obtain ⟨hlive, hpurges⟩ := hreport.purges
  have hgone := occur_absent hlive p hpurges hkept.1
  have hsound := c.occur_sound order (c.history_sound order before hw hbefore) p hreported
  rw [history_append, history_cons]
  refine findsNone_of_lacks horder (history_lacks meanwhile ⟨?_, hsound⟩ hmeanwhile ?_)
  · rintro k' rfl
    exact hgone
  · rintro k' rfl
    exact hkept.2

/-- A mapping that was granted five milliseconds is read after ten. The clock is then set back to
the moment when it was written, and wraps around: the key stays absent. -/
theorem absence_stable_backwards :
    let c : Cache (Memory Nat Nat) Nat Nat :=
      { store := .memory .eternal, strategy := .propagating }
    let order : Memory Nat Nat → List (Nat × Holder Nat) := fun m => m.table.pairs
    let w : World (Memory Nat Nat) Nat Nat :=
      { cache := { store := { now := 100 }, lifecycle := { status := .available } }
        walks := fun _ => { raw := [], quiet := true } }
    let p : Policies Nat Nat := ⟨.eternal, .timeToLive (.ofMillis 5)⟩
    let before : List (Policies Nat Nat × Incident (Memory Nat Nat) Nat Nat) :=
      [(p, .deed (.use (.call (.put 1 ⟨0, 10⟩)))), (p, .turn (.clock (.advance (.ofMillis 10))))]
    let meanwhile : List (Policies Nat Nat × Incident (Memory Nat Nat) Nat Nat) :=
      [(p, .turn (.clock (.set 100))),
        (p, .turn (.clock (.advance (.ofMillis 18446744073709551615))))]
    let report : Incident (Memory Nat Nat) Nat Nat := .deed (.use (.call (.get 1)))
    let w' := (history (c.shared order) .whole (before ++ (p, report) :: meanwhile) w).state
    (history (c.shared order) .whole before w).state.cache.store.rawSize = 1 ∧
      w'.cache.store.now = 99 ∧ ((c.shared order p).use (.call (.get 1)) w').answer = .ok none := by
  intro c order w p before meanwhile report w'
  have hown : ∀ x ∈ before ++ (p, report) :: meanwhile, x.2.IsOwn := by
    simp [before, meanwhile, report, Incident.IsOwn, Deed.IsOwn]
  have hreport :
      c.ReportsAbsent order p (history (c.shared order) .whole before w).state 1 report :=
    .get (by rfl)
  have hkept : c.Unwritten order 1 ((p, report) :: meanwhile)
      (history (c.shared order) .whole before w).state := by
    refine ⟨?_, ?_, ?_, trivial⟩
    · rintro ⟨v, ⟨-, hdecided⟩, -⟩
      cases hdecided
    · rintro ⟨v, hgives, -⟩
      exact hgives
    · rintro ⟨v, hgives, -⟩
      exact hgives
  have hnone := absence_stable (w := w) (fun _ => .refl _) (fun _ => ⟨⟨[], rfl⟩, rfl⟩) hown hreport
    hkept
  exact ⟨by rfl, by decide +kernel, hnone.get p (by rfl)⟩

/-- `containsKey` is no report: the mapping that it takes for absent is still held, and found once the
clock is set back. -/
example :
    let policy : Policy Nat Nat := .timeToLive (.ofMillis 5)
    let m := Backend.after [(policy, .request (.put 1 ⟨0, 10⟩)),
      (policy, .clock (.advance (.ofMillis 10)))] { now := 100 }
    let m' := Backend.after [(policy, .request (.containsKey 1)), (policy, .clock (.set 100))] m
    ((Backend.lazy policy).serve (.containsKey 1) m).answer = .ok false ∧
      ((Backend.lazy policy).serve (.get 1) m').answer = .ok (some ⟨⟨0, 10⟩, 100, some 105⟩) := by
  decide +kernel

end Cache

end ResilientCache
