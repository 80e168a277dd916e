import ResilientCache.Proofs.Surfacing

/-!
# A walk as a sequence, to its end and after

As a sequence a walk shows entries and then ends: with nothing, if there are no more, or with an
error. The cache may be closed at any time, also after the end. What the walk shows next depends on
three things only (`next_shows`): a walk that is over shows nothing; on an available cache it shows
what it holds back; otherwise it shows once that the cache is not available, and is over.

A walk that has ended holds nothing back, and this does not change whatever else happens
(`Sequenced`). So an entry never comes after the end. An error may come after it, but only one and
only from a cache that was closed since: a walk that ran out of entries is not over, and every call
on it looks first whether the cache is available.

Headlines:
* `Sequenced.act`, `Sequenced.live`: what one deed and a run make of a walk that is asked as a
  sequence.
* **`sequence_ends`**: what comes after the end.
-/

namespace ResilientCache

variable {σ K V : Type}

/-- A deed that leaves a walk to be taken as a sequence: it does not begin another walk in its place,
and does not ask for its next entry in the other way. -/
def Deed.Sequences (i : Nat) : Deed σ K V → Prop
  | .use (.iterate j _) => j ≠ i
  | .use (.nextEntry j) => j ≠ i
  | _ => True

/-- Such a deed asks for the next element of the sequence, or leaves the walk at rest. -/
theorem Deed.Sequences.cases {i : Nat} {d : Deed σ K V} (h : d.Sequences i) :
    d = .next i ∨ ¬ d.Begins i ∧ ¬ d.Asks i := by
  cases d with
  | use u =>
    cases u with
    | iterate j quiet => exact .inr ⟨h, id⟩
    | nextEntry j => exact .inr ⟨id, h⟩
    | _ => exact .inr ⟨id, id⟩
  | next j =>
    by_cases hj : j = i
    · exact .inl (hj ▸ rfl)
    · exact .inr ⟨id, hj⟩
  | _ => exact .inr ⟨id, id⟩

namespace Cache

variable [DecidableEq K] [BEq V]

/-- The elements that a walk shows in a run in which it is asked as a sequence; `none` is its end. -/
def elements (c : Cache σ K V) (i : Nat) (deeds : List (Deed σ K V)) (w : World σ K V) :
    List (Option (Element K V)) :=
  (c.askings i deeds w).map c.shown

/-- Whether an element is an error. -/
def isError : Option (Element K V) → Bool
  | some (.error _) => true
  | _ => false

section

variable {c : Cache σ K V} {i : Nat} {d : Deed σ K V} {w : World σ K V}

theorem elements_append (before after : List (Deed σ K V)) (w : World σ K V) :
    c.elements i (before ++ after) w =
      c.elements i before w ++ c.elements i after (c.live before w).state := by
  rw [elements, askings_append, List.map_append]
  rfl

theorem elements_next (deeds : List (Deed σ K V)) (w : World σ K V) :
    c.elements i (.next i :: deeds) w =
      (c.act (.next i) w).answer :: c.elements i deeds (c.act (.next i) w).state := by
  rw [elements, askings, asking_of_asks (show Deed.Asks i (.next i) from rfl)]
  rfl

theorem elements_of_not_asks (h : ¬ d.Asks i) (deeds : List (Deed σ K V)) (w : World σ K V) :
    c.elements i (d :: deeds) w = c.elements i deeds (c.act d w).state := by
  rw [elements, askings, asking_of_not_asks h]
  rfl

/-- A cache that has been available is never uninitialized again. -/
theorem act_opened (c : Cache σ K V) (d : Deed σ K V) (hw : w.status ≠ .uninitialized) :
    (c.act d w).state.status ≠ .uninitialized := by
  rcases c.act_status d w with ⟨t, -, -, ht⟩ | ⟨-, hs⟩
  · rw [ht]
    cases t <;> decide
  · rwa [hs]

/-! ## One deed -/

/-- What is known of a walk that has shown some elements of its sequence. -/
structure Sequenced (i : Nat) (shown : List (Option (Element K V))) (w : World σ K V) : Prop where
  opened : w.status ≠ .uninitialized
  decided : ∀ e, (w.walks i).ahead = .failure (.decided e) → ∃ cause, e = .store cause
  /-- It is over if it has shown an error, and only then. -/
  terminated : (w.walks i).terminated = true ↔ ∃ e, some (.error e) ∈ shown
  /-- It holds nothing back if it has ended. -/
  ended : none ∈ shown → (w.walks i).held = none
  once : shown.countP isError ≤ 1

variable {shown : List (Option (Element K V))}

omit [DecidableEq K] [BEq V] in
theorem Sequenced.countP_eq_zero (h : Sequenced i shown w) (hgoing : (w.walks i).terminated = false) :
    shown.countP isError = 0 := by
  rw [List.countP_eq_zero]
  intro x hx herror
  obtain ⟨e, rfl⟩ : ∃ e, x = some (.error e) := by
    rcases x with _ | e | entry
    · cases herror
    · exact ⟨e, rfl⟩
    · cases herror
  rw [h.terminated.mpr ⟨e, hx⟩] at hgoing
  cases hgoing

variable {shipped : Strategy.Shipped} {store : Store σ K V}
  (hstrategy : c.strategy = shipped.forStore store)

include hstrategy

/-- What a walk shows next as a sequence. -/
theorem next_shows (h : Sequenced i shown w) :
    (c.act (.next i) w).answer =
      if (w.walks i).terminated then none
      else if w.status = .available then (w.walks i).held
      else some (.error (.unavailable w.status)) := by
  rw [act, onWalk_apply]
  by_cases hterminated : (w.walks i).terminated
  · rw [Cursor.step_apply, if_pos hterminated, if_pos hterminated]
  · by_cases hw : w.status = .available
    · rw [step_advances hstrategy hw h.decided, if_neg hterminated, if_pos hw]
    · rw [step_refused _ _ hw, if_neg hterminated, if_neg hterminated, if_neg hw]
      rfl

/-- Asking for the next element keeps what is known of the walk. -/
theorem Sequenced.next (h : Sequenced i shown w) :
    Sequenced i (shown ++ [(c.act (.next i) w).answer]) (c.act (.next i) w).state := by
  have hopened : (c.act (.next i) w).state.status ≠ .uninitialized := c.act_opened _ h.opened
  have hanswer := next_shows hstrategy h
  generalize (c.act (.next i) w).answer = element at hanswer ⊢
  by_cases hterminated : (w.walks i).terminated
  case pos =>
    -- a walk that is over stays as it is
    have hact : c.act (.next i) w = ⟨none, w, []⟩ :=
      onWalk_idle (by rw [Cursor.step_apply, if_pos hterminated])
    rw [if_pos hterminated] at hanswer
    rw [hact, hanswer]
    refine ⟨h.opened, h.decided, ?_, fun _ => if_pos hterminated, ?_⟩
    · simpa using h.terminated
    · simpa [isError] using h.once
  case neg =>
    have hgoing : (w.walks i).terminated = false := Bool.eq_false_iff.mpr hterminated
    have hnone : ¬ ∃ e, some (.error e) ∈ shown := fun he => hterminated (h.terminated.mpr he)
    have honce : (shown ++ [element]).countP isError ≤ 1 := by
      rw [List.countP_append, h.countP_eq_zero hgoing, Nat.zero_add]
      exact List.countP_le_length
    rw [if_neg hterminated] at hanswer
    by_cases hw : w.status = .available
    case pos =>
      rw [if_pos hw] at hanswer
      obtain ⟨hadvances, -⟩ := nextEntry_advances hstrategy hw (w.walks i) h.decided
      refine ⟨hopened, ?_, ?_, fun hend => ?_, honce⟩ <;>
        rw [act, onWalk_apply, step_advances hstrategy hw h.decided] <;>
        dsimp only <;>
        rw [World.walks_setWalk]
      · exact hadvances.decided
      · rw [hadvances.terminated, hanswer]
        simp only [hgoing, Bool.false_eq_true, false_or, List.mem_append, List.mem_singleton,
          exists_or, hnone, eq_comm]
      · -- what has ended holds nothing back, so it does not look ahead
        have hheld : (w.walks i).held = none := by
          rcases List.mem_append.mp hend with hend | hend
          · exact h.ended hend
          · exact hanswer.symm.trans (List.mem_singleton.mp hend).symm
        have hshows := hadvances.shows
        rw [Cursor.met, hheld] at hshows
        exact Option.toList_eq_nil_iff.mp hshows.symm
    case neg =>
      rw [if_neg hw] at hanswer
      refine ⟨hopened, ?_, ?_, fun _ => ?_, honce⟩ <;>
        rw [act, onWalk_apply, step_refused _ _ hw] <;>
        dsimp only <;>
        rw [World.walks_setWalk]
      · exact h.decided
      · rw [hanswer]
        simp
      · exact if_pos rfl

/-- What one deed makes of a walk that is asked as a sequence. -/
theorem Sequenced.act (h : Sequenced i shown w) (hd : d.Sequences i) :
    Sequenced i (shown ++ c.elements i [d] w) (c.act d w).state := by
  rcases hd.cases with rfl | ⟨hbegins, hasks⟩
  · rw [elements_next]
    exact h.next hstrategy
  · rw [elements_of_not_asks hasks, elements, askings, List.map_nil, List.append_nil]
    have hrests := c.act_rests i hbegins hasks w
    obtain ⟨-, hahead, hterminated⟩ := hrests.samePlace
    exact ⟨c.act_opened d h.opened, by rw [hahead]; exact h.decided,
      by rw [hterminated]; exact h.terminated, by rw [hrests.held]; exact h.ended, h.once⟩

/-! ## Runs -/

/-- What a run makes of a walk that is asked as a sequence. -/
theorem Sequenced.live (h : Sequenced i shown w) (deeds : List (Deed σ K V))
    (hd : ∀ d ∈ deeds, d.Sequences i) :
    Sequenced i (shown ++ c.elements i deeds w) (c.live deeds w).state := by
  induction deeds generalizing shown w with
  | nil => simpa [elements, askings, Cache.live] using h
  | cons d rest ih =>
    obtain ⟨hfirst, hrest⟩ := List.forall_mem_cons.mp hd
    have hrun := ih (h.act hstrategy hfirst) hrest
    rw [List.append_assoc] at hrun
    rw [live_cons, ← List.singleton_append, elements_append]
    simpa [Cache.live] using hrun

end

/-! ## After the end -/

/-- How the sequence of a walk ends in a run that follows its beginning. -/
structure SequenceEnds (c : Cache σ K V) (i : Nat) (begun : World σ K V)
    (deeds : List (Deed σ K V)) : Prop where
  /-- After an error nothing is shown any more. -/
  after_error : ∀ before between after e, deeds = before ++ .next i :: (between ++ .next i :: after) →
    (c.act (.next i) (c.live before begun).state).answer = some (.error e) →
      (c.act (.next i) (c.live (before ++ .next i :: between) begun).state).answer = none
  /-- After the last entry nothing is shown as long as the cache is not closed. On a closed cache the
  first thing shown is that it is not available, and then nothing. -/
  after_last : ∀ before between after, deeds = before ++ .next i :: (between ++ .next i :: after) →
    (c.act (.next i) (c.live before begun).state).answer = none →
      let later := (c.live (before ++ .next i :: between) begun).state
      let failed := ∃ e, some (.error e) ∈ c.elements i (before ++ .next i :: between) begun
      ((later.status = .available ∨ failed) ∧ (c.act (.next i) later).answer = none) ∨
        (later.status = .closed ∧ ¬ failed ∧
          (c.act (.next i) later).answer = some (.error (.unavailable .closed)))
  one_error : (c.elements i deeds begun).countP isError ≤ 1

/-- **The sequence of a walk ends.** Over any store and under each of the strategies there are, a walk
begins well on an available cache. In every run that does not begin another walk in its place, and
asks it as a sequence only, whatever else is done in it, the closing of the cache included: after an
error the walk shows nothing any more; after there was nothing to show, it shows nothing either, but
for the one error that the cache has been closed; and it shows one error at most. -/
theorem sequence_ends {c : Cache σ K V} {shipped : Strategy.Shipped} {store : Store σ K V}
    (hstrategy : c.strategy = shipped.forStore store) (i : Nat) (quiet : Bool)
    {start : World σ K V} (hstart : start.status = .available) (deeds : List (Deed σ K V))
    (hd : ∀ d ∈ deeds, d.Sequences i) :
    let begun := c.use (.iterate i quiet) start
    begun.answer = .ok () ∧ c.SequenceEnds i begun.state deeds := by
  intro begun
  obtain ⟨hanswer, hbegun, -, htracks⟩ := begin_tracks hstrategy hstart i quiet
  have hsequenced : Sequenced i [] begun.state := by
    refine ⟨by rw [hbegun]; decide, htracks.decided, ?_, nofun, Nat.zero_le _⟩
    simpa using htracks.terminated
  have hrun (before : List (Deed σ K V)) (hbefore : ∀ d ∈ before, d.Sequences i) :
      Sequenced i (c.elements i before begun.state) (c.live before begun.state).state :=
    hsequenced.live hstrategy before hbefore
  -- the element that is asked for first is among those shown before the second
  have hshown (before between : List (Deed σ K V)) :
      (c.act (.next i) (c.live before begun.state).state).answer ∈
        c.elements i (before ++ .next i :: between) begun.state := by
    rw [elements_append, elements_next]
    exact List.mem_append_right _ List.mem_cons_self
  have hprefix {before between after : List (Deed σ K V)}
      (hsplit : deeds = before ++ .next i :: (between ++ .next i :: after)) :
      Sequenced i (c.elements i (before ++ .next i :: between) begun.state)
        (c.live (before ++ .next i :: between) begun.state).state := by
    refine hrun _ fun d hd' => hd d ?_
    rw [hsplit, ← List.cons_append, ← List.append_assoc]
    exact List.mem_append_left _ hd'
  refine ⟨hanswer, ?_, ?_, (hrun deeds hd).once⟩
  · intro before between after e hsplit hfirst
    have hknown := hprefix hsplit
    have hover := hknown.terminated.mpr ⟨e, hfirst ▸ hshown before between⟩
    rw [next_shows hstrategy hknown, if_pos hover]
  · intro before between after hsplit hfirst later failed
    have hknown := hprefix hsplit
    have hheld := hknown.ended (hfirst ▸ hshown before between)
    have hnext := next_shows hstrategy hknown
    rw [hheld] at hnext
    by_cases hfailed : failed
    · rw [if_pos (hknown.terminated.mpr hfailed)] at hnext
      exact .inl ⟨.inr hfailed, hnext⟩
    · rw [if_neg fun hover => hfailed (hknown.terminated.mp hover)] at hnext
      have hopened : later.status ≠ .uninitialized := hknown.opened
      cases hstatus : later.status with
      | uninitialized => exact absurd hstatus hopened
      | available => exact .inl ⟨.inl rfl, hnext.trans (if_pos hstatus)⟩
      | closed =>
        refine .inr ⟨rfl, hfailed, hnext.trans ?_⟩
        rw [show (c.live (before ++ .next i :: between) begun.state).state.status = .closed from
          hstatus]
        rfl

/-- A walk over one entry that is closed after its end: the sequence shows the entry, its end, the one
error that a closed cache answers, and its end again. -/
theorem sequence_ends_twice :
    let store : Store (Memory Nat Nat) Nat Nat := .memory .eternal
    let c : Cache (Memory Nat Nat) Nat Nat := { store, strategy := .propagating }
    let held : KeyMap Nat (Holder Nat) :=
      { pairs := [(1, .eternal ⟨0, 10⟩)], nodup := by decide }
    let start : World (Memory Nat Nat) Nat Nat :=
      { cache := { store := { table := held }, lifecycle := { status := .available } }
        walks := fun _ => { raw := [], quiet := true } }
    let deeds : List (Deed (Memory Nat Nat) Nat Nat) :=
      [.next 0, .next 0, .move .close fun _ _ => .ok (), .next 0, .next 0]
    let begun := c.use (.iterate 0 false) start
    c.strategy = Strategy.Shipped.propagating.forStore store ∧ start.status = .available ∧
      (∀ d ∈ deeds, d.Sequences 0) ∧
      c.elements 0 deeds begun.state =
        [some (.ok ⟨1, ⟨0, 10⟩⟩), none, some (.error (.unavailable .closed)), none] ∧
      begun.answer = .ok () ∧ c.SequenceEnds 0 begun.state deeds := by
  intro store c held start deeds begun
  have hstrategy : c.strategy = Strategy.Shipped.propagating.forStore store := rfl
  have hstart : start.status = .available := rfl
  have hd : ∀ d ∈ deeds, d.Sequences 0 := by simp [deeds, Deed.Sequences]
  exact ⟨hstrategy, hstart, hd, by decide +kernel,
    sequence_ends hstrategy 0 false hstart deeds hd⟩

/-- The end is not silent: there was nothing to show, the cache is closed, and the walk shows an
error. -/
theorem closing_speaks_after_end :
    let c : Cache (Memory Nat Nat) Nat Nat := { store := .memory .eternal, strategy := .propagating }
    let start : World (Memory Nat Nat) Nat Nat :=
      { cache := { store := {}, lifecycle := { status := .available } }
        walks := fun _ => { raw := [], quiet := true } }
    let begun := c.use (.iterate 0 false) start
    let ended := c.act (.next 0) begun.state
    let closed := c.act (.move .close fun _ _ => .ok ()) ended.state
    begun.answer = .ok () ∧ ended.answer = none ∧ closed.answer = .ok () ∧
      (c.act (.next 0) closed.state).answer = some (.error (.unavailable .closed)) := by
  decide +kernel

end Cache

end ResilientCache
