import Mathlib.Data.List.Induction
import ResilientCache.Proofs.Hooks
import ResilientCache.Proofs.Keeping
import ResilientCache.Store.Audit
import ResilientCache.Store.Memory

/-!
# Nothing is done while a cache is not available

A use of a cache that is not available is refused with the status it has, and nothing happens: not
by way of the store, a policy, a loader or the strategy, nor to any count. An audited store tells
each of its calls, so that no event is no call.

The status follows the transitions that went well (`Cache.Goes`). A run that begins before `init`
therefore does its work (`Event.IsWork`) between the `init` that went well and the `close` that did.
What carries the induction is that a cache that has become available was opened by an `init`, and
not closed since (`opened_of_available`).

Headlines:
* `use_refused`, `next_refused`: what is refused, and with what.
* `act_status`: how a deed moves the status.
* **`availability_gates`**: both, over whole runs.
-/

namespace ResilientCache

variable {σ K V α : Type}

/-- An event of work on the contents of a cache: its store, a policy, a loader or the strategy was
called, or an outcome was recorded. -/
def Event.IsWork : Event K V → Prop
  | .note (.called _) => True
  | .note (.asked _ _) => True
  | .note (.logged _) => False
  | .recorded _ => True
  | .consulted _ _ => True
  | .loaderCalled _ => True
  | .hookRan _ _ _ => False

namespace Cache

/-! ## Refusals -/

/-- An operation that begins by asking for availability ends there if it is not given. -/
theorem refused (f : Unit → Op σ K V α) {s : State σ} (h : s.lifecycle.status ≠ .available) :
    (do let u ← checkAvailable; f u : Op σ K V α) s =
      ⟨.error (.unavailable s.lifecycle.status), s, []⟩ := by
  rw [Op.bind_apply, checkAvailable_of_not_available h]

theorem nextEntry_refused (c : Cache σ K V) (cur : Cursor K V) {s : State σ}
    (h : s.lifecycle.status ≠ .available) :
    cur.nextEntry c s = ⟨(.error (.unavailable s.lifecycle.status), cur), s, []⟩ := by
  have hc := checkAvailable_of_not_available (K := K) (V := V) h
  simp [Cursor.nextEntry, ExceptT.run, hc]

theorem cursorRemove_refused (c : Cache σ K V) (cur : Cursor K V) {s : State σ}
    (h : s.lifecycle.status ≠ .available) :
    cur.remove c s = ⟨(.error (.unavailable s.lifecycle.status), cur), s, []⟩ := by
  have hc := checkAvailable_of_not_available (K := K) (V := V) h
  simp [Cursor.remove, ExceptT.run, hc]

/-- A walk taken as a sequence ends with the refusal, and is over once it has ended. -/
theorem step_refused (c : Cache σ K V) (cur : Cursor K V) {s : State σ}
    (h : s.lifecycle.status ≠ .available) :
    cur.step c s =
      ⟨(if cur.terminated then none else some (.error (.unavailable s.lifecycle.status)),
        { cur with terminated := true }), s, []⟩ := by
  by_cases ht : cur.terminated
  · obtain ⟨raw, ahead, current, quiet, terminated⟩ := cur
    cases ht
    rfl
  · simp [Cursor.step, ht, c.nextEntry_refused cur h]

variable [DecidableEq K] [BEq V]

/-- A use of a cache that is not available is refused, and nothing happens. -/
theorem use_refused (c : Cache σ K V) (u : Use K V) {w : World σ K V}
    (h : w.status ≠ .available) : c.use u w = ⟨.error (.unavailable w.status), w, []⟩ := by
  cases u with
  | call operation => rw [use, onCache_apply, ExceptT.run, c.serve_refused operation h]; rfl
  | removeKey k => rw [use, onCache_apply, ExceptT.run, removeKey, refused _ h]; rfl
  | getAllWith ks includeAbsent =>
    rw [use, onCache_apply, ExceptT.run, getAllWith, refused _ h]; rfl
  | loadAll ks replaceExisting loader =>
    rw [use, onCache_apply, ExceptT.run, loadAll, refused _ h]; rfl
  | removeAllEntries => rw [use, onCache_apply, ExceptT.run, removeAllEntries, refused _ h]; rfl
  | iterate i quiet =>
    rw [use, beginWalk, Action.bind_apply, onCache_apply, ExceptT.run, iterate, refused _ h]; rfl
  | hasNext i =>
    refine onWalk_idle ?_
    rw [Action.bind_apply, ExceptT.run, Cursor.hasNext, refused _ h]; rfl
  | nextEntry i => exact onWalk_idle (c.nextEntry_refused _ h)
  | remove i => exact onWalk_idle (c.cursorRemove_refused _ h)

/-- A walk taken as a sequence leaves a cache that is not available as it is. -/
theorem next_refused (c : Cache σ K V) (i : Nat) {w : World σ K V} (h : w.status ≠ .available) :
    (c.act (.next i) w).state.cache = w.cache ∧ (c.act (.next i) w).events = [] := by
  rw [act, onWalk_apply, c.step_refused _ h]
  exact ⟨rfl, rfl⟩

/-- A deed done to a cache that is not available is no work. -/
theorem act_idle (c : Cache σ K V) (d : Deed σ K V) {w : World σ K V} (h : w.status ≠ .available) :
    ∀ e ∈ (c.act d w).events, ¬ e.IsWork := by
  have lifecycle {α : Type} {x : Action Lifecycle (Event K V) α}
      (hx : x.Tells fun e => ¬ e.IsWork) :
      ∀ e ∈ (onCache (onLifecycle x) w).events, ¬ e.IsWork := by
    rw [onCache_apply]
    exact onLifecycle_tells hx w.cache
  have move (t : Transition) (table : HookTable) :
      (Lifecycle.move table t : Action _ (Event K V) _).Tells fun e => ¬ e.IsWork :=
    move_tells (fun _ => id) (fun _ _ _ => id) table t
  have silent {es : List (Event K V)} (hes : es = []) : ∀ e ∈ es, ¬ e.IsWork := by
    rintro e he
    rw [hes] at he
    cases he
  cases d with
  | use u => exact silent (by rw [act, c.use_refused u h])
  | next i => exact silent (c.next_refused i h).2
  | move t table =>
    cases t with
    | init => exact lifecycle (move .init table)
    | close => exact lifecycle (move .close table)
  | addHook hook => exact lifecycle (addHook_tells hook)
  | removeHook hook => exact lifecycle (removeHook_tells hook)
  | outside f => exact silent rfl

/-! ## The status -/

/-- A deed is a transition that went well. -/
def Goes (c : Cache σ K V) (t : Transition) (d : Deed σ K V) (w : World σ K V) : Prop :=
  ∃ table, d = .move t table ∧ (c.act (.move t table) w).answer = .ok ()

theorem Goes.unique {c : Cache σ K V} {t t' : Transition} {d : Deed σ K V} {w : World σ K V}
    (h : c.Goes t d w) (h' : c.Goes t' d w) : t = t' := by
  obtain ⟨table, rfl, -⟩ := h
  obtain ⟨table', hd, -⟩ := h'
  cases hd
  rfl

omit [DecidableEq K] [BEq V] in
/-- A transition goes well from its source to its target, or it leaves the lifecycle alone. -/
theorem move_goes (table : HookTable) (t : Transition) (l : Lifecycle) :
    let r : Run Lifecycle (Event K V) _ := Lifecycle.move table t l
    r.answer = .ok () ∧ l.status = t.source ∧ r.state.status = t.target ∨
      r.answer ≠ .ok () ∧ r.state = l := by
  intro r
  rcases Lifecycle.move_cases (K := K) (V := V) table t l with
    ⟨-, hm⟩ | ⟨-, fault, -, hm⟩ | ⟨hs, -, hm⟩
  · have hr : r = _ := hm
    rw [hr]
    exact .inr ⟨nofun, rfl⟩
  · have hr : r = _ := hm
    rw [hr]
    exact .inr ⟨nofun, rfl⟩
  · have hr : r = _ := hm
    rw [hr]
    exact .inl ⟨rfl, hs, rfl⟩

/-- A deed moves the status as the transition it is, if it goes well; no other deed moves it. -/
theorem act_status (c : Cache σ K V) (d : Deed σ K V) (w : World σ K V) :
    (∃ t, c.Goes t d w ∧ w.status = t.source ∧ (c.act d w).state.status = t.target) ∨
      (∀ t, ¬ c.Goes t d w) ∧ (c.act d w).state.status = w.status := by
  have still (hd : ∀ t table, d ≠ .move t table)
      (hl : (c.act d w).state.cache.lifecycle.status = w.cache.lifecycle.status) :
      (∀ t, ¬ c.Goes t d w) ∧ (c.act d w).state.status = w.status :=
    ⟨fun t ⟨table, hm, _⟩ => hd t table hm, hl⟩
  cases d with
  | use u => exact .inr (still nofun (congrArg Lifecycle.status (c.use_lifecycle u w)))
  | next i =>
    exact .inr (still nofun (congrArg Lifecycle.status
      (onWalk_lifecycle (fun cur _ => c.step_livesBy cur) w)))
  | move t table =>
    have goes : (c.act (.move t table) w).answer =
          (Lifecycle.move table t w.cache.lifecycle : Run _ (Event K V) _).answer ∧
        (c.act (.move t table) w).state.status =
          (Lifecycle.move table t w.cache.lifecycle : Run _ (Event K V) _).state.status := by
      cases t <;> exact ⟨rfl, rfl⟩
    rcases move_goes (K := K) (V := V) table t w.cache.lifecycle with ⟨ha, hs, hm⟩ | ⟨ha, hm⟩
    · exact .inl ⟨t, ⟨table, rfl, goes.1.trans ha⟩, hs, goes.2.trans hm⟩
    · refine .inr ⟨?_, goes.2.trans (congrArg Lifecycle.status hm)⟩
      rintro t' ⟨table', hd, hok⟩
      cases hd
      exact ha (goes.1.symm.trans hok)
  | addHook hook =>
    refine .inr (still nofun ?_)
    rw [act, onCache_apply]
    show (Lifecycle.addHook hook w.cache.lifecycle : Run _ (Event K V) _).state.status = _
    rw [Lifecycle.addHook_apply]
    split
    · rfl
    · exact Lifecycle.withHook_status _ _
  | removeHook hook =>
    refine .inr (still nofun ?_)
    rw [act, onCache_apply]
    show (Lifecycle.removeHook hook w.cache.lifecycle : Run _ (Event K V) _).state.status = _
    rw [Lifecycle.removeHook_apply]
    split <;> rfl
  | outside f => exact .inr (still nofun rfl)

/-- A transition that went well moves the status from its source to its target. -/
theorem Goes.status {c : Cache σ K V} {t : Transition} {d : Deed σ K V} {w : World σ K V}
    (h : c.Goes t d w) : w.status = t.source ∧ (c.act d w).state.status = t.target := by
  rcases c.act_status d w with ⟨t', h', hs⟩ | ⟨hnone, -⟩
  · obtain rfl := h.unique h'
    exact hs
  · exact absurd h (hnone t)

theorem status_of_not_goes (c : Cache σ K V) {d : Deed σ K V} {w : World σ K V}
    (h : ∀ t, ¬ c.Goes t d w) : (c.act d w).state.status = w.status := by
  rcases c.act_status d w with ⟨t, hg, -⟩ | ⟨-, hs⟩
  · exact absurd hg (h t)
  · exact hs

/-! ## Runs -/

/-- A deed at the end of a run. -/
theorem live_concat (c : Cache σ K V) (before : List (Deed σ K V)) (d : Deed σ K V)
    (w : World σ K V) :
    (c.live (before ++ [d]) w).state = (c.act d (c.live before w).state).state := by
  rw [live_append, live_cons]
  rfl

/-- A cache that became available was opened by an `init` that went well, and since then no `close`
went well. -/
theorem opened_of_available (c : Cache σ K V) {w : World σ K V} (hw : w.status = .uninitialized)
    (before : List (Deed σ K V)) (h : (c.live before w).state.status = .available) :
    ∃ idle opening since, before = idle ++ opening :: since ∧
      c.Goes .init opening (c.live idle w).state ∧
      ∀ some d rest, since = some ++ d :: rest →
        ¬ c.Goes .close d (c.live (idle ++ opening :: some) w).state := by
  induction before using List.reverseRecOn with
  | nil => cases hw.symm.trans h
  | append_singleton before d ih =>
    rw [live_concat] at h
    rcases c.act_status d (c.live before w).state with ⟨t, hg, -, ht⟩ | ⟨hg, hs⟩
    · cases t with
      | init => exact ⟨before, d, [], rfl, hg, fun some d' rest hs => by simp at hs⟩
      | close => cases ht.symm.trans h
    · obtain ⟨idle, opening, since, rfl, hopen, hsince⟩ := ih (hs.symm.trans h)
      refine ⟨idle, opening, since ++ [d], by simp, hopen, fun some d' rest hsplit => ?_⟩
      -- the deed in question is the last one, or one of the run before it
      rcases List.eq_nil_or_concat rest with rfl | ⟨rest', last, rfl⟩
      · obtain ⟨rfl, hd⟩ := List.append_inj' hsplit rfl
        cases hd
        exact hg .close
      · rw [List.concat_eq_append, ← List.cons_append, ← List.append_assoc] at hsplit
        exact hsince some d' rest' (List.append_inj' hsplit rfl).1

/-- A closed cache stays closed, and does no work. -/
theorem closed_for_good (c : Cache σ K V) (deeds : List (Deed σ K V)) :
    ∀ w : World σ K V, w.status = .closed →
      (c.live deeds w).state.status = .closed ∧ ∀ e ∈ (c.live deeds w).events, ¬ e.IsWork := by
  induction deeds with
  | nil => exact fun w hw => ⟨hw, fun e he => nomatch he⟩
  | cons d rest ih =>
    intro w hw
    have hd : (c.act d w).state.status = .closed := by
      rcases c.act_status d w with ⟨t, -, hs, -⟩ | ⟨-, hs⟩
      · cases t <;> cases hw.symm.trans hs
      · exact hs.trans hw
    obtain ⟨hrest, hidle⟩ := ih _ hd
    rw [live_cons]
    refine ⟨hrest, fun e he => ?_⟩
    rcases List.mem_append.mp he with he | he
    · exact c.act_idle d (by rw [hw]; decide) e he
    · exact hidle e he

/-- **Availability gates everything**: a use of a cache that is not available is refused with its
status, and nothing happens; the status moves by an `init` that went well from uninitialized to
available, by a `close` that went well from available to closed, and by nothing else; in a run from
an uninitialized cache, a deed that does work comes after an `init` that went well, with no `close`
that went well between them; and a closed cache stays closed and does no work. -/
theorem availability_gates (c : Cache σ K V) :
    (∀ (u : Use K V) (w : World σ K V), w.status ≠ .available →
      c.use u w = ⟨.error (.unavailable w.status), w, []⟩) ∧
    (∀ (d : Deed σ K V) (w : World σ K V),
      (c.Goes .init d w →
        w.status = .uninitialized ∧ (c.act d w).state.status = .available) ∧
      (c.Goes .close d w → w.status = .available ∧ (c.act d w).state.status = .closed) ∧
      (¬ c.Goes .init d w → ¬ c.Goes .close d w → (c.act d w).state.status = w.status)) ∧
    (∀ (w : World σ K V) (before : List (Deed σ K V)) (d : Deed σ K V),
      w.status = .uninitialized → (∃ e ∈ (c.act d (c.live before w).state).events, e.IsWork) →
      ∃ idle opening since, before = idle ++ opening :: since ∧
        c.Goes .init opening (c.live idle w).state ∧
        ∀ some d' rest, since = some ++ d' :: rest →
          ¬ c.Goes .close d' (c.live (idle ++ opening :: some) w).state) ∧
    (∀ (deeds : List (Deed σ K V)) (w : World σ K V), w.status = .closed →
      (c.live deeds w).state.status = .closed ∧ ∀ e ∈ (c.live deeds w).events, ¬ e.IsWork) := by
  refine ⟨fun u w => c.use_refused u, fun d w => ⟨Goes.status, Goes.status, fun hi hc => ?_⟩,
    fun w before d hw hwork => ?_, c.closed_for_good⟩
  · refine c.status_of_not_goes fun t => ?_
    cases t with
    | init => exact hi
    | close => exact hc
  · have ha : (c.live before w).state.status = .available := by
      by_contra hne
      obtain ⟨e, he, hew⟩ := hwork
      exact c.act_idle d hne e he hew
    exact c.opened_of_available hw before ha

/-- A key is read in vain before `init`, written after it, and a walk begun then is refused after
`close`. -/
theorem availability_gates_life :
    let c : Cache (Memory Nat Nat) Nat Nat :=
      { store := (Store.memory .eternal).audited, strategy := .propagating }
    let well : HookTable := fun _ _ => .ok ()
    let w : World (Memory Nat Nat) Nat Nat :=
      { cache := { store := {} }, walks := fun _ => { raw := [], quiet := true } }
    let put : Deed (Memory Nat Nat) Nat Nat := .use (.call (.put 1 ⟨0, 5⟩))
    let opened := [.use (.call (.get 1)), .move .init well]
    let closed := (c.live (opened ++ [put, .use (.iterate 0 true), .move .close well]) w).state
    w.status = .uninitialized ∧
      c.use (.call (.get 1)) w = ⟨.error (.unavailable w.status), w, []⟩ ∧
      (∃ idle opening since, opened = idle ++ opening :: since ∧
        c.Goes .init opening (c.live idle w).state) ∧
      closed.status = .closed ∧
      c.use (.nextEntry 0) closed = ⟨.error (.unavailable closed.status), closed, []⟩ ∧
      (c.live [.move .init well, put] closed).state.status = .closed := by
  intro c well w put opened closed
  obtain ⟨refused, -, between, stays⟩ := availability_gates c
  have hw : w.status = .uninitialized := rfl
  have hclosed : closed.status = .closed := by decide
  have hwork : ∃ e ∈ (c.act put (c.live opened w).state).events, e.IsWork :=
    ⟨.note (.called (.bulkCompute [1])), List.mem_cons_self, trivial⟩
  obtain ⟨idle, opening, since, hsplit, hopen, -⟩ := between w opened put hw hwork
  have hafter := (stays [.move .init well, put] closed hclosed).1
  exact ⟨hw, refused _ w (by rw [hw]; decide), ⟨idle, opening, since, hsplit, hopen⟩, hclosed,
    refused _ closed (by rw [hclosed]; decide), hafter⟩

end Cache

end ResilientCache
