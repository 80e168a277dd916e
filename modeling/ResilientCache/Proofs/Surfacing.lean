import ResilientCache.Proofs.Meeting

/-!
# Failures on a walk

A walk over any store is asked for its entries in a run of anything else, under one of the strategies
there are. Over every run, what the walk met shows, in order, what its caller was shown and what it
holds back (`Tracks`), and an error is the last thing that is met: so a failure that surfaces does
so once, and nothing is looked up after it.

A walk may be asked as an iterator or as a sequence; both show the same (`ask_advances`).

Headlines:
* `Tracks.act`, `Tracks.live`: what one deed and a run make of a walk.
* `Tracks.pursues`: what the walk does to the cache in a run.
* **`failures_surface_once`**: every failure that surfaces does so once, and ends the walk.
-/

namespace ResilientCache

variable {σ K V : Type}

namespace Cache

/-! ## Asking a walk in a run -/

variable [DecidableEq K] [BEq V]

/-- A deed that asks a walk for its next entry, with the world in which it is done. -/
def asking (i : Nat) : Deed σ K V → World σ K V → List (Deed σ K V × World σ K V)
  | .use (.nextEntry j), w => if j = i then [(.use (.nextEntry j), w)] else []
  | .next j, w => if j = i then [(.next j, w)] else []
  | _, _ => []

/-- The deeds of a run that ask a walk for its next entry, each with the world in which it is
done. -/
def askings (c : Cache σ K V) (i : Nat) :
    List (Deed σ K V) → World σ K V → List (Deed σ K V × World σ K V)
  | [], _ => []
  | d :: rest, w => asking i d w ++ c.askings i rest (c.act d w).state

/-- What the caller is shown by a deed that asks a walk: an entry or an error, if there is one. -/
def shown (c : Cache σ K V) :
    Deed σ K V × World σ K V → Option (Element K V)
  | (.use (.nextEntry i), w) =>
    match (c.use (.nextEntry i) w).answer with
    | .error .noSuchElement => none
    | answer => some answer
  | (.next i, w) => (c.act (.next i) w).answer
  | _ => none

section

variable {c : Cache σ K V} {i : Nat} {d : Deed σ K V} {w : World σ K V}
  {shipped : Strategy.Shipped} {store : Store σ K V}

omit [DecidableEq K] [BEq V] in
theorem asking_of_asks (h : d.Asks i) (w : World σ K V) : asking i d w = [(d, w)] := by
  cases d with
  | use u =>
    cases u with
    | nextEntry j => exact if_pos h
    | _ => exact h.elim
  | next j => exact if_pos h
  | _ => exact h.elim

omit [DecidableEq K] [BEq V] in
theorem asking_of_not_asks (h : ¬ d.Asks i) (w : World σ K V) : asking i d w = [] := by
  cases d with
  | use u =>
    cases u with
    | nextEntry j => exact if_neg h
    | _ => rfl
  | next j => exact if_neg h
  | _ => rfl

theorem askings_append (before after : List (Deed σ K V)) (w : World σ K V) :
    c.askings i (before ++ after) w =
      c.askings i before w ++ c.askings i after (c.live before w).state := by
  induction before generalizing w with
  | nil => rfl
  | cons first rest ih =>
    rw [List.cons_append, askings, askings, live_cons, ih, List.append_assoc]

theorem askings_concat (before : List (Deed σ K V)) (d : Deed σ K V) (w : World σ K V) :
    c.askings i (before ++ [d]) w =
      c.askings i before w ++ asking i d (c.live before w).state := by
  rw [askings_append, askings, askings, List.append_nil]

omit [DecidableEq K] [BEq V] in
/-- As a sequence, a walk shows what it holds back, and is left as by its next entry. -/
theorem step_advances (hstrategy : c.strategy = shipped.forStore store) {cur : Cursor K V}
    {s : State σ} (hs : s.lifecycle.status = .available)
    (hdecided : ∀ e, cur.ahead = .failure (.decided e) → ∃ cause, e = .store cause) :
    let r := cur.nextEntry c s
    cur.step c s = ⟨(cur.held, r.answer.2), r.state, r.events⟩ := by
  have hanswer := nextEntry_answer hstrategy hs cur
  have hover := (nextEntry_advances hstrategy hs cur hdecided).1.terminated
  have hne := cur.held_ne hdecided
  rw [cur.step_apply]
  cases hterminated : cur.terminated with
  | true =>
    rw [cur.nextEntry_apply c hs, Cursor.held, hterminated]
    rfl
  | false =>
    rcases hr : cur.nextEntry c s with ⟨⟨first, cur'⟩, s', es⟩
    rw [hr] at hanswer hover
    obtain rfl : first = cur.held.getD (.error .noSuchElement) := hanswer
    rcases hheld : cur.held with _ | e | e
    · rfl
    · -- the walk is over already
      have hcur' : { cur' with terminated := true } = cur' := by
        obtain ⟨raw, ahead, current, quiet, terminated⟩ := cur'
        obtain rfl : terminated = true := hover.mpr (.inr ⟨e, hheld⟩)
        rfl
      rw [hheld] at hne
      cases e <;> first | exact absurd rfl hne | simp [hcur']
    · rfl

/-- Whether a walk is asked as an iterator or as a sequence, it shows what it holds back. -/
theorem ask_advances (hstrategy : c.strategy = shipped.forStore store) (hasks : d.Asks i)
    (hw : w.status = .available)
    (hdecided : ∀ e, (w.walks i).ahead = .failure (.decided e) → ∃ cause, e = .store cause) :
    let r := (w.walks i).nextEntry c w.cache
    (c.act d w).state = World.setWalk { w with cache := r.state } i r.answer.2 ∧
      (c.act d w).events = r.events ∧ c.shown (d, w) = (w.walks i).held := by
  cases d with
  | use u =>
    cases u with
    | nextEntry j =>
      obtain rfl : j = i := hasks
      have hne := (w.walks j).held_ne hdecided
      rw [shown, act, use, onWalk_apply]
      refine ⟨rfl, rfl, ?_⟩
      dsimp only
      rw [nextEntry_answer hstrategy hw (w.walks j)]
      rcases hheld : (w.walks j).held with _ | e | e
      · rfl
      · rw [hheld] at hne
        cases e <;> first | exact absurd rfl hne | rfl
      · rfl
    | _ => exact hasks.elim
  | next j =>
    obtain rfl : j = i := hasks
    rw [shown, act, onWalk_apply, step_advances hstrategy hw hdecided]
    exact ⟨rfl, rfl, rfl⟩
  | _ => exact hasks.elim

end

/-- What a walk meets in deeds that ask it. -/
def metIn (c : Cache σ K V) (i : Nat) (asked : List (Deed σ K V × World σ K V)) : List (Met K V) :=
  asked.flatMap fun p => (p.2.walks i).met c p.2.cache

/-- What the caller of a walk is shown by deeds that ask it. -/
def shownIn (c : Cache σ K V) (asked : List (Deed σ K V × World σ K V)) :
    List (Element K V) :=
  asked.filterMap c.shown

/-- What is told in deeds that ask a walk. -/
def toldIn (c : Cache σ K V) (asked : List (Deed σ K V × World σ K V)) : List (Event K V) :=
  asked.flatMap fun p => (c.act p.1 p.2).events

/-! ## One deed -/

/-- What is known of a walk in the middle of a run: what it met shows what its caller was shown and
what it holds back, nothing was met after an error, and its events are those of what it met and what
it showed. -/
structure Tracks (shipped : Strategy.Shipped) (quiet : Bool) (raw : List (RawStep K V))
    (met : List (Met K V)) (shown : List (Element K V)) (es : List (Event K V))
    (cur : Cursor K V) : Prop where
  raw : raw = met.map Met.raw ++ cur.raw
  shows : met.filterMap (Met.shows shipped) = shown ++ cur.held.toList
  ends : ∀ m ∈ met.dropLast, ∀ e, m.shows shipped ≠ some (.error e)
  consulted : consultations es = met.filterMap Met.consulted ++ shown.filterMap Element.consulted
  recorded : outcomes es = if quiet then [] else shown.map Element.recorded
  mode : cur.quiet = quiet
  decided : ∀ e, cur.ahead = .failure (.decided e) → ∃ cause, e = .store cause
  terminated : cur.terminated = true ↔ ∃ e, .error e ∈ shown
  current : cur.terminated = true → cur.current = none

namespace Tracks

variable {shipped : Strategy.Shipped} {quiet : Bool} {raw : List (RawStep K V)}
  {met : List (Met K V)} {shown : List (Element K V)} {es : List (Event K V)}
  {cur cur' : Cursor K V}

section

omit [DecidableEq K] [BEq V]

/-- A walk that holds an entry back has met nothing that surfaces as an error. -/
theorem no_error (h : Tracks shipped quiet raw met shown es cur) {entry : Entry K V}
    (hheld : cur.held = some (.ok entry)) {m : Met K V} (hm : m ∈ met) (e : CacheError) :
    m.shows shipped ≠ some (.error e) := by
  intro herror
  have hshows := h.shows
  rw [hheld] at hshows
  rcases List.eq_nil_or_concat' met with rfl | ⟨init, last, rfl⟩
  · cases hm
  · rcases List.mem_append.mp hm with hm | hm
    · exact h.ends m (by rwa [List.dropLast_concat]) e herror
    · -- the error would be what was met last, and what was met last shows the entry
      obtain rfl := List.mem_singleton.mp hm
      rw [List.filterMap_append, List.filterMap_cons_some herror] at hshows
      have hlast := congrArg List.getLast? hshows
      simp at hlast

/-- A walk that goes on has shown no error, so the strategy has seen no failed raw step. -/
theorem consulted_going (h : Tracks shipped quiet raw met shown es cur)
    (hgoing : cur.terminated = false) : shown.filterMap Element.consulted = [] := by
  refine List.filterMap_eq_nil_iff.mpr fun x hx => ?_
  rcases x with e | entry
  · have hover := h.terminated.mpr ⟨e, hx⟩
    rw [hgoing] at hover
    cases hover
  · rfl

/-- A walk at rest is as it was. -/
theorem rest (h : Tracks shipped quiet raw met shown es cur) (hrests : cur.Rests cur') :
    Tracks shipped quiet raw met shown es cur' := by
  rcases hrests with rfl | rfl
  · exact h
  · exact ⟨h.raw, h.shows, h.ends, h.consulted, h.recorded, h.mode, h.decided, h.terminated,
      fun _ => rfl⟩

/-- A walk that is asked shows what it holds back, and goes on from what it meets. -/
theorem advance (h : Tracks shipped quiet raw met shown es cur) {new : List (Met K V)}
    {es' : List (Event K V)} (hnew : Advances shipped new cur cur' es')
    (hidle : new ≠ [] → ∃ entry, cur.held = some (.ok entry)) :
    Tracks shipped quiet raw (met ++ new) (shown ++ cur.held.toList) (es ++ es') cur' where
  raw := by rw [h.raw, hnew.raw, List.map_append, List.append_assoc]
  shows := by rw [List.filterMap_append, h.shows, hnew.shows]
  ends := by
    intro m hm e
    by_cases hempty : new = []
    · rw [hempty, List.append_nil] at hm
      exact h.ends m hm e
    · obtain ⟨entry, hheld⟩ := hidle hempty
      rw [List.dropLast_append_of_ne_nil hempty] at hm
      rcases List.mem_append.mp hm with hm | hm
      · exact h.no_error hheld hm e
      · rw [hnew.passed m hm]
        exact (Option.some_ne_none _).symm
  consulted := by
    rw [consultations_append, h.consulted, hnew.consulted, List.filterMap_append,
      List.filterMap_append]
    by_cases hempty : new = []
    · rw [hempty]
      simp
    · -- only a walk that goes on meets anything
      obtain ⟨entry, hheld⟩ := hidle hempty
      have hgoing : cur.terminated = false := by
        rw [Cursor.held] at hheld
        split at hheld
        · cases hheld
        · exact Bool.eq_false_iff.mpr ‹_›
      rw [h.consulted_going hgoing]
      simp
  recorded := by
    rw [outcomes_append, h.recorded, hnew.recorded, h.mode]
    cases quiet <;> simp
  mode := hnew.quiet.trans h.mode
  decided := hnew.decided
  terminated := by
    rw [hnew.terminated, h.terminated]
    simp only [List.mem_append, Option.mem_toList, exists_or]
  current := hnew.current h.current

end

variable {c : Cache σ K V} {i : Nat} {d : Deed σ K V} {w : World σ K V} {store : Store σ K V}
  (hstrategy : c.strategy = shipped.forStore store)

include hstrategy

/-- What one deed makes of a walk. -/
theorem act (hw : w.status = .available)
    (h : Tracks shipped quiet raw met shown es (w.walks i)) (hd : d.Spares i) :
    Tracks shipped quiet raw (met ++ c.metIn i (asking i d w)) (shown ++ c.shownIn (asking i d w))
      (es ++ c.toldIn (asking i d w)) ((c.act d w).state.walks i) := by
  by_cases hasks : d.Asks i
  · obtain ⟨hadvances, -⟩ := nextEntry_advances hstrategy hw (w.walks i) h.decided
    obtain ⟨hstate, hevents, hshown⟩ := ask_advances hstrategy hasks hw h.decided
    have hheld : c.shownIn (asking i d w) = (w.walks i).held.toList := by
      rw [asking_of_asks hasks, shownIn, List.filterMap_cons, hshown]
      cases (w.walks i).held <;> rfl
    rw [hheld, asking_of_asks hasks, hstate, World.walks_setWalk, metIn, toldIn,
      List.flatMap_singleton, List.flatMap_singleton, hevents]
    refine h.advance hadvances fun hmet => ?_
    unfold Cursor.met at hmet
    split at hmet
    · exact ⟨_, ‹_›⟩
    · exact absurd rfl hmet
  · rw [asking_of_not_asks hasks]
    simpa [metIn, shownIn, toldIn] using h.rest (c.act_rests i hd.not_begins hasks w)

/-- What a run makes of a walk. -/
theorem live (hw : w.status = .available)
    (h : Tracks shipped quiet raw met shown es (w.walks i)) (deeds : List (Deed σ K V))
    (hd : ∀ d ∈ deeds, d.Spares i) :
    let asked := c.askings i deeds w
    Tracks shipped quiet raw (met ++ c.metIn i asked) (shown ++ c.shownIn asked)
      (es ++ c.toldIn asked) ((c.live deeds w).state.walks i) := by
  induction deeds using List.reverseRecOn with
  | nil => simpa [askings, metIn, shownIn, toldIn, Cache.live] using h
  | append_singleton before d ih =>
    obtain ⟨hbefore, hlast⟩ := List.forall_mem_append.mp hd
    have hact := act hstrategy (live_available hbefore hw) (ih hbefore)
      (hlast d (List.mem_singleton_self d))
    rw [live_concat, askings_concat]
    simpa [metIn, shownIn, toldIn] using hact

/-- In a run, the deeds that ask a walk do to the cache what asking it does, and no more. -/
theorem pursues (hw : w.status = .available)
    (h : Tracks shipped quiet raw met shown es (w.walks i)) (deeds : List (Deed σ K V))
    (hd : ∀ d ∈ deeds, d.Spares i) :
    ∀ p ∈ c.askings i deeds w, (c.act p.1 p.2).state.cache = (p.2.walks i).pursue c p.2.cache := by
  induction deeds using List.reverseRecOn with
  | nil => exact fun p hp => nomatch hp
  | append_singleton before d ih =>
    obtain ⟨hbefore, -⟩ := List.forall_mem_append.mp hd
    intro p hp
    rw [askings_concat] at hp
    rcases List.mem_append.mp hp with hp | hp
    · exact ih hbefore p hp
    · by_cases hasks : d.Asks i
      · rw [asking_of_asks hasks] at hp
        obtain rfl := List.mem_singleton.mp hp
        have hdecided := (live hstrategy hw h before hbefore).decided
        have havailable : (c.live before w).state.status = .available :=
          live_available hbefore hw
        rw [(ask_advances hstrategy hasks havailable hdecided).1]
        exact nextEntry_pursues havailable _ hdecided
      · rw [asking_of_not_asks hasks] at hp
        cases hp

end Tracks

/-! ## Failures surface once -/

section

variable {c : Cache σ K V} {i : Nat} {w : World σ K V}

/-- Deeds that do not ask a walk leave it at rest. -/
theorem live_rests {deeds : List (Deed σ K V)} (hd : ∀ d ∈ deeds, d.Spares i ∧ ¬ d.Asks i) :
    (w.walks i).Rests ((c.live deeds w).state.walks i) := by
  induction deeds generalizing w with
  | nil => exact .inl rfl
  | cons d rest ih =>
    obtain ⟨⟨hspares, hasks⟩, hrest⟩ := List.forall_mem_cons.mp hd
    rw [live_cons]
    exact (c.act_rests i hspares.not_begins hasks w).trans (ih hrest)

/-- A walk tells whether it holds something back. -/
theorem hasNext_held (hw : w.status = .available) :
    c.use (.hasNext i) w = ⟨.ok (w.walks i).held.isSome, w, []⟩ := by
  refine onWalk_idle ?_
  rw [Action.bind_apply, ExceptT.run, Cursor.hasNext, Op.bind_apply,
    checkAvailable_of_available hw, Cursor.held]
  cases (w.walks i).terminated <;> rcases (w.walks i).ahead with _ | e | e | e <;> rfl

/-- A walk that begins has met what it found when it first looked ahead. -/
theorem begin_tracks {shipped : Strategy.Shipped} {store : Store σ K V}
    (hstrategy : c.strategy = shipped.forStore store) (hw : w.status = .available) (i : Nat)
    (quiet : Bool) :
    let raw := (c.store.iterate w.cache.store).answer
    let opened : State σ :=
      { w.cache with store := (c.store.iterate w.cache.store).state }
    let r := c.use (.iterate i quiet) w
    r.answer = .ok () ∧ r.state.status = .available ∧
      r.state.cache =
        (c.lookEach ((Cursor.meets c raw opened).filterMap Met.key?) opened).state ∧
      Tracks shipped quiet raw (Cursor.meets c raw opened) [] r.events (r.state.walks i) := by
  intro raw opened r
  obtain ⟨rest, ahead, hcursor, hlooks, hconsulted, hrecorded, hlifecycle⟩ :=
    seek_meets hstrategy (s := opened) hw { raw, quiet } raw
  have hbegin : r = ⟨.ok (),
      World.setWalk { w with cache := (Cursor.seek c { raw, quiet } raw opened).state } i
        { raw := rest, ahead, quiet },
      (c.store.iterate w.cache.store).events.map .note ++
        (Cursor.seek c { raw, quiet } raw opened).events⟩ := by
    rw [← hcursor]
    exact c.begin_run i quiet hw
  rw [hbegin]
  refine ⟨rfl, (congrArg Lifecycle.status hlifecycle).trans hw,
    seek_looks c { raw, quiet } raw opened, ?_⟩
  rw [World.walks_setWalk]
  constructor
  · exact hlooks.raw
  · exact hlooks.shows
  · intro m hm e
    rw [hlooks.passed m hm]
    exact (Option.some_ne_none _).symm
  · rw [consultations_append, consultations_notes, hconsulted]
    exact (List.append_nil _).symm
  · rw [outcomes_append, outcomes_notes, hrecorded]
    cases quiet <;> rfl
  · rfl
  · exact hlooks.decided
  · simp
  · intro hterminated
    cases hterminated

end

/-- How a walk deals with the failures it meets, after a run: `raw` is what the raw iteration showed,
`met` what the walk met, `shown` what its caller was shown, `es` the events of the walk's own deeds,
and `w` the world after the run. -/
structure SurfacesOnce (c : Cache σ K V) (shipped : Strategy.Shipped) (i : Nat) (quiet : Bool)
    (raw : List (RawStep K V)) (met : List (Met K V))
    (shown : List (Element K V)) (es : List (Event K V)) (w : World σ K V) :
    Prop where
  /-- The raw steps are taken up in their order: those that were not met are left. -/
  ordered : met.map Met.raw ++ (w.walks i).raw = raw
  /-- Only what was met last can surface as an error: nothing is looked up after that. -/
  ends : ∀ m ∈ met.dropLast, ∀ e, m.shows shipped ≠ some (.error e)
  /-- What was met shows, each thing once and in order, what the caller was shown and what the walk
  holds back. The walk tells whether it holds something back, and this is what its next entry comes
  to, whatever is done before it is asked. -/
  foretold : ∃ held : Option (Element K V),
    met.filterMap (Met.shows shipped) = shown ++ held.toList ∧
    held ≠ some (.error .noSuchElement) ∧
    c.use (.hasNext i) w = ⟨.ok held.isSome, w, []⟩ ∧
    ∀ between : List (Deed σ K V), (∀ d ∈ between, d.Spares i ∧ ¬ d.Asks i) →
      (c.use (.nextEntry i) (c.live between w).state).answer =
        held.getD (.error .noSuchElement)
  /-- The strategy is asked once about every failure it sees: about a failed look-up when it is met,
  about a failed raw step when it surfaces. -/
  consulted : consultations es =
    met.filterMap Met.consulted ++ shown.filterMap Element.consulted
  /-- One outcome is recorded for everything that is shown, none if the walk is quiet. -/
  recorded : outcomes es = if quiet then [] else shown.map Element.recorded
  /-- After an error the walk is over. -/
  finished : ∀ e, .error e ∈ shown →
    c.use (.hasNext i) w = ⟨.ok false, w, []⟩ ∧
    c.use (.nextEntry i) w = ⟨.error .noSuchElement, w, []⟩ ∧
    c.use (.remove i) w =
      ⟨.error (.illegalState "remove() needs a preceding call to next_entry()"), w, []⟩

/-- **Failures surface once, and end the walk.** Over any store, whatever steps its raw iteration has
and whichever look-ups fail, under each of the strategies there are, a walk begins well on an
available cache; and in every run that does not close the cache and does not begin another walk in
its place, whatever else is done in it, the walk takes up raw steps in their order and shows each
failure that surfaces once, as the last thing it shows. A failed raw step surfaces, and so does a
failed look-up if the strategy propagates it; a robust strategy makes the walk pass it over. To the
cache, the walk does nothing but look up the keys that it meets, and hand the failed raw step that
surfaces to the strategy. -/
theorem failures_surface_once {c : Cache σ K V} {shipped : Strategy.Shipped} {store : Store σ K V}
    (hstrategy : c.strategy = shipped.forStore store) (i : Nat) (quiet : Bool)
    {start : World σ K V} (hstart : start.status = .available) (deeds : List (Deed σ K V))
    (hd : ∀ d ∈ deeds, d.Spares i) :
    let raw := (c.store.iterate start.cache.store).answer
    let opened : State σ :=
      { start.cache with store := (c.store.iterate start.cache.store).state }
    let begun := c.use (.iterate i quiet) start
    let asked := c.askings i deeds begun.state
    begun.answer = .ok () ∧
      begun.state.cache =
        (c.lookEach ((Cursor.meets c raw opened).filterMap Met.key?) opened).state ∧
      (∀ p ∈ asked, (c.act p.1 p.2).state.cache = (p.2.walks i).pursue c p.2.cache) ∧
      c.SurfacesOnce shipped i quiet raw (Cursor.meets c raw opened ++ c.metIn i asked)
        (c.shownIn asked) (begun.events ++ c.toldIn asked) (c.live deeds begun.state).state := by
  intro raw opened begun asked
  obtain ⟨hanswer, hbegun, hlooks, htracks⟩ := begin_tracks hstrategy hstart i quiet
  refine ⟨hanswer, hlooks, htracks.pursues hstrategy hbegun deeds hd, ?_⟩
  have hrun : Tracks shipped quiet raw (Cursor.meets c raw opened ++ c.metIn i asked)
      (c.shownIn asked) (begun.events ++ c.toldIn asked)
      ((c.live deeds begun.state).state.walks i) :=
    htracks.live hstrategy hbegun deeds hd
  have hw : (c.live deeds begun.state).state.status = .available := live_available hd hbegun
  generalize (c.live deeds begun.state).state = w at hrun hw ⊢
  constructor
  · exact hrun.raw.symm
  · exact hrun.ends
  · refine ⟨(w.walks i).held, hrun.shows, (w.walks i).held_ne hrun.decided, hasNext_held hw,
      fun between hbetween => ?_⟩
    have hlater : (c.live between w).state.status = .available :=
      live_available (fun d hd' => (hbetween d hd').1) hw
    rw [use, onWalk_apply]
    dsimp only
    rw [nextEntry_answer hstrategy hlater, (live_rests hbetween).held]
  · exact hrun.consulted
  · exact hrun.recorded
  · intro e he
    have hterminated := hrun.terminated.mpr ⟨e, he⟩
    have hheld : (w.walks i).held = none := if_pos hterminated
    refine ⟨?_, ?_, ?_⟩
    · rw [hasNext_held hw, hheld]
      rfl
    · refine onWalk_idle ?_
      rw [Cursor.nextEntry_apply _ _ hw, if_pos hterminated]
    · refine onWalk_idle ?_
      rw [Cursor.remove_apply _ _ hw, hrun.current hterminated]

/-- The raw iteration fails before its last step, and so does the look-up of the second key. A robust
strategy passes the second key over and the raw failure surfaces; if failures are propagated, it is
the failed look-up that surfaces. -/
theorem failures_surface_once_either :
    let store : Store (Memory Nat Nat) Nat Nat :=
      { Store.memory .eternal with
        get := fun k => if k = 2 then return .error (.plain "down") else (Store.memory .eternal).get k
        iterate := Action.read fun mem =>
          match mem.table.pairs.map .ok with
          | one :: two :: rest => one :: two :: .error (.plain "torn") :: rest
          | steps => steps }
    let held : KeyMap Nat (Holder Nat) :=
      { pairs := [(1, .eternal ⟨0, 10⟩), (2, .eternal ⟨1, 20⟩), (3, .eternal ⟨2, 30⟩)]
        nodup := by decide }
    let start : World (Memory Nat Nat) Nat Nat :=
      { cache := { store := { table := held }, lifecycle := { status := .available } }
        walks := fun _ => { raw := [], quiet := true } }
    let deeds : List (Deed (Memory Nat Nat) Nat Nat) :=
      [.use (.nextEntry 0), .use (.call (.remove 1)), .next 0, .use (.nextEntry 0)]
    let surfaces (shipped : Strategy.Shipped) (failure : CacheError) : Prop :=
      let c : Cache (Memory Nat Nat) Nat Nat := { store, strategy := shipped.forStore store }
      let begun := c.use (.iterate 0 false) start
      let asked := c.askings 0 deeds begun.state
      let raw := (store.iterate start.cache.store).answer
      c.shownIn asked = [.ok ⟨1, ⟨0, 10⟩⟩, .error failure] ∧
        ∃ met, c.SurfacesOnce shipped 0 false raw met (c.shownIn asked)
          (begun.events ++ c.toldIn asked) (c.live deeds begun.state).state
    start.status = .available ∧ (∀ d ∈ deeds, d.Spares 0) ∧
      surfaces (.robust false) (.iteration (.plain "torn")) ∧
      surfaces .propagating (.store (.plain "down")) := by
  intro store held start deeds surfaces
  have hstart : start.status = .available := rfl
  have hd : ∀ d ∈ deeds, d.Spares 0 := by simp [deeds, Deed.Spares]
  have hmet (shipped : Strategy.Shipped) :=
    let c : Cache (Memory Nat Nat) Nat Nat := { store, strategy := shipped.forStore store }
    have hstrategy : c.strategy = shipped.forStore store := rfl
    (failures_surface_once hstrategy 0 false hstart deeds hd).2.2.2
  exact ⟨hstart, hd, ⟨by decide +kernel, _, hmet (.robust false)⟩,
    ⟨by decide +kernel, _, hmet .propagating⟩⟩

end Cache

end ResilientCache
