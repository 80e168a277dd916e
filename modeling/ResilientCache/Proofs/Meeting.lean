import ResilientCache.Proofs.Degrading
import ResilientCache.Proofs.Reporting
import ResilientCache.Proofs.Walking

/-!
# What a walk meets

The store is any store: its raw iteration is any finite list of steps, some of which failed, and any
look-up may fail. A walk takes up the raw steps in their order. What it meets is a failed step, or
what the store answered about the key of a good one (`Met`), and each of these shows its caller an
entry, an error, or nothing (`Met.shows`). The walk is one step ahead of its caller: what it shows
was met at an earlier step, and it holds back at most one thing (`Cursor.held`).

Asking a walk for its next entry shows what it holds back and, if that is an entry, has the walk look
ahead: it meets raw steps until there is something to show (`Advances`).

Headlines:
* `seek_looks`, `seek_meets`: what looking ahead looks up and meets, and where it stops.
* `nextEntry_answer`, `nextEntry_pursues`: what asking a walk answers, and what it does to the cache.
* **`nextEntry_advances`**: how asking a walk moves it.
-/

namespace ResilientCache

variable {σ K V : Type}

/-! ## What a walk meets -/

/-- An element of a walk, as its caller is shown it: an entry or an error. -/
abbrev Element (K V : Type) := Except CacheError (Entry K V)

/-- What a walk meets when it takes up a raw step: that the step failed, or what the store answered
when it was asked for the key that the step shows. -/
inductive Met (K V : Type)
  | broken (e : StoreError)
  | looked (k : K) (listed : Holder V) (answer : Except StoreError (Option (Holder V)))
deriving DecidableEq

namespace Met

/-- The raw step that was taken up. -/
def raw : Met K V → RawStep K V
  | broken e => .error e
  | looked k listed _ => .ok (k, listed)

/-- What the caller of a walk is shown of what it met: the failure of a raw step, the entry of a key
that is live, and the failure of a look-up if the strategy propagates it. -/
def shows (shipped : Strategy.Shipped) : Met K V → Option (Element K V)
  | broken e => some (.error (.iteration e))
  | looked k _ (.ok (some h)) => some (.ok ⟨k, h.value⟩)
  | looked _ _ (.ok none) => none
  | looked _ _ (.error e) =>
    match shipped with
    | .propagating => some (.error (.store e))
    | .robust _ => none

/-- The key that was looked up. -/
def key? : Met K V → Option K
  | broken _ => none
  | looked k _ _ => some k

/-- What the strategy is asked when something is met: it sees a failed look-up at once. -/
def consulted : Met K V → Option (FailedCall K V × StoreError)
  | looked k _ (.error e) => some (.get k, e)
  | _ => none

end Met

/-- What the strategy is asked when something is shown: it sees a failed raw step only then. -/
def Element.consulted : Element K V → Option (FailedCall K V × StoreError)
  | .error (.iteration e) => some (.iterate, e)
  | _ => none

/-- The outcome of showing something. -/
def Element.recorded : Element K V → Outcome
  | .ok _ => .get .hit
  | .error _ => .get .failure

/-- What is ahead, as the caller will be shown it. -/
def Lookahead.pending : Lookahead K V → Option (Element K V)
  | nothing => none
  | entry e => some (.ok e)
  | failure (.raw e) => some (.error (.iteration e))
  | failure (.decided e) => some (.error e)

namespace Cursor

/-- What a walk holds back. -/
def held (cur : Cursor K V) : Option (Element K V) :=
  if cur.terminated then none else cur.ahead.pending

theorem Rests.held {cur cur' : Cursor K V} (h : cur.Rests cur') : cur'.held = cur.held := by
  rcases h with rfl | rfl <;> rfl

/-- What a walk holds back is not that there is nothing. -/
theorem held_ne (cur : Cursor K V)
    (hdecided : ∀ e, cur.ahead = .failure (.decided e) → ∃ cause, e = .store cause) :
    cur.held ≠ some (.error .noSuchElement) := by
  unfold held
  split
  · simp
  · rcases hahead : cur.ahead with _ | e | e | e
    · simp [Lookahead.pending]
    · simp [Lookahead.pending]
    · simp [Lookahead.pending]
    · obtain ⟨cause, rfl⟩ := hdecided e hahead
      simp [Lookahead.pending]

/-- What looking along raw steps meets, up to what it stops at. -/
def meets (c : Cache σ K V) : List (RawStep K V) → Cache.State σ → List (Met K V)
  | [], _ => []
  | .error e :: _, _ => [.broken e]
  | .ok (k, listed) :: rest, s =>
    let r := (c.lookup k false).run s
    .looked k listed (c.store.get k s.store).answer ::
      match r.answer with
      | .ok none => meets c rest r.state
      | _ => []

/-- What a walk meets when it is asked for its next entry: it looks ahead if it has one to offer. -/
def met (c : Cache σ K V) (cur : Cursor K V) (s : Cache.State σ) : List (Met K V) :=
  match cur.held with
  | some (.ok _) => meets c cur.raw s
  | _ => []

end Cursor

/-- Look keys up, one after the other. -/
def Cache.lookEach (c : Cache σ K V) (ks : List K) : Action (Cache.State σ) (Event K V) Unit :=
  ks.forM fun k => discard (c.lookup k false).run

/-- What a walk does to the cache when it is asked for its next entry: it hands a failed raw step
that surfaces to the strategy, or it looks up the keys that it meets. -/
def Cursor.pursue (c : Cache σ K V) (cur : Cursor K V) (s : Cache.State σ) : Cache.State σ :=
  match cur.held with
  | some (.error (.iteration e)) => (c.consult .iterate e s).state
  | some (.ok _) => (c.lookEach ((meets c cur.raw s).filterMap Met.key?) s).state
  | _ => s

namespace Cache

/-! ## Looking ahead -/

theorem lookEach_cons (c : Cache σ K V) (k : K) (ks : List K) (s : State σ) :
    (c.lookEach (k :: ks) s).state = (c.lookEach ks ((c.lookup k false).run s).state).state := rfl

/-- Looking along raw steps looks up the keys that are met, and does nothing else to the cache. -/
theorem seek_looks (c : Cache σ K V) (cur : Cursor K V) (raw : List (RawStep K V)) (s : State σ) :
    (Cursor.seek c cur raw s).state =
      (c.lookEach ((Cursor.meets c raw s).filterMap Met.key?) s).state := by
  induction raw generalizing s with
  | nil => rfl
  | cons step rest ih =>
    rcases step with e | ⟨k, listed⟩
    · rfl
    · have hmet : (Cursor.meets c (.ok (k, listed) :: rest) s).filterMap Met.key? =
          k :: (match ((c.lookup k false).run s).answer with
            | .ok none => Cursor.meets c rest ((c.lookup k false).run s).state
            | _ => []).filterMap Met.key? := rfl
      rw [hmet, lookEach_cons, Cursor.seek, Action.bind_apply]
      rcases (c.lookup k false).run s with ⟨e | _ | v, s', es⟩
      · rfl
      · exact ih s'
      · rfl

/-- Raw steps are taken up in their order, up to the first of which there is something to show; that
is then ahead, and the rest is left. -/
structure Looks (shipped : Strategy.Shipped) (raw : List (RawStep K V)) (met : List (Met K V))
    (ahead : Lookahead K V) (rest : List (RawStep K V)) : Prop where
  raw : raw = met.map Met.raw ++ rest
  shows : met.filterMap (Met.shows shipped) = ahead.pending.toList
  passed : ∀ m ∈ met.dropLast, m.shows shipped = none
  /-- What the strategy has decided about a failed look-up is the failure itself. -/
  decided : ∀ e, ahead = .failure (.decided e) → ∃ cause, e = .store cause

namespace Looks

variable {shipped : Strategy.Shipped} {raw rest : List (RawStep K V)} {met : List (Met K V)}
  {ahead : Lookahead K V} {m : Met K V}

theorem nothing : Looks shipped (K := K) (V := V) [] [] .nothing [] where
  raw := rfl
  shows := rfl
  passed := fun _ hm => nomatch hm
  decided := fun _ he => nomatch he

theorem stop (hshows : m.shows shipped = ahead.pending)
    (hdecided : ∀ e, ahead = .failure (.decided e) → ∃ cause, e = .store cause)
    (rest : List (RawStep K V)) : Looks shipped (m.raw :: rest) [m] ahead rest where
  raw := rfl
  shows := by
    rw [← hshows]
    cases hm : m.shows shipped <;> simp [hm]
  passed := fun _ hm => nomatch hm
  decided := hdecided

theorem pass (hnone : m.shows shipped = none) (h : Looks shipped raw met ahead rest) :
    Looks shipped (m.raw :: raw) (m :: met) ahead rest where
  raw := congrArg (m.raw :: ·) h.raw
  shows := by rw [List.filterMap_cons_none hnone, h.shows]
  passed := by
    intro m' hm'
    cases met with
    | nil => cases hm'
    | cons next met =>
      rcases List.mem_cons.mp hm' with rfl | hm'
      · exact hnone
      · exact h.passed m' hm'
  decided := h.decided

end Looks

section

variable {c : Cache σ K V} {s : State σ}

/-- An unobserved read of an available cache is a read of its store; if that fails, the strategy
answers. -/
theorem lookup_apply (hs : s.lifecycle.status = .available) (k : K) :
    let r := c.store.get k s.store
    let s' : State σ := { s with store := r.state }
    (c.lookup k false).run s =
      match r.answer with
      | .ok h? => ⟨.ok (h?.map Holder.value), s', r.events.map .note⟩
      | .error e =>
        let r' := (c.consult (.get k) e).run s'
        ⟨r'.answer, r'.state, r.events.map .note ++ r'.events⟩ := by
  have hcall : c.callStore (·.get k) s =
      ⟨.ok (c.store.get k s.store).answer,
        { s with store := (c.store.get k s.store).state },
        (c.store.get k s.store).events.map .note⟩ :=
    Op.lift_apply (onStore (c.store.get k)) s
  rw [lookup, ExceptT.run, Op.bind_apply, checkAvailable_of_available hs]
  simp only [Op.bind_apply, hcall]
  rcases (c.store.get k s.store).answer with e | _ | h <;> simp [Op.pure_apply, ExceptT.run]

variable {shipped : Strategy.Shipped} {store : Store σ K V}
  (hstrategy : c.strategy = shipped.forStore store)

include hstrategy

/-- An unobserved read shows what the walk is to show, and asks the strategy about a failure. -/
theorem lookup_meets (hs : s.lifecycle.status = .available) (k : K) (listed : Holder V) :
    let r := (c.lookup k false).run s
    let m := Met.looked k listed (c.store.get k s.store).answer
    (m.shows shipped = match r.answer with
      | .ok v? => v?.map fun v => .ok ⟨k, v⟩
      | .error e => some (.error e)) ∧
    (∀ e, r.answer = .error e → ∃ cause, e = .store cause) ∧
    consultations r.events = m.consulted.toList ∧ outcomes r.events = [] ∧
    r.state.lifecycle = s.lifecycle := by
  have happly := lookup_apply (c := c) hs k
  dsimp only at happly ⊢
  rw [happly]
  rcases (c.store.get k s.store).answer with e | h?
  · dsimp only
    simp only [ExceptT.run, consult_apply, hstrategy]
    cases shipped with
    | propagating =>
      refine ⟨rfl, ?_, ?_, ?_, trivial⟩
      · intro e' he'
        cases he'
        exact ⟨e, rfl⟩
      · simp [Met.consulted]
      · simp
    | robust obliterating =>
      refine ⟨rfl, ?_, ?_, ?_, trivial⟩
      · intro e' he'
        cases he'
      · simp [Met.consulted]
      · simp
  · refine ⟨?_, ?_, ?_, ?_, rfl⟩
    · cases h? <;> rfl
    · intro e he
      cases he
    · exact (consultations_notes _).trans (by cases h? <;> rfl)
    · exact outcomes_notes _

/-- What looking along raw steps comes to: it takes them up in their order, and stops at the first
of which there is something to show. The strategy is asked about every failed look-up on the way,
and nothing is recorded. -/
theorem seek_meets (hs : s.lifecycle.status = .available) (cur : Cursor K V)
    (raw : List (RawStep K V)) :
    let r := Cursor.seek c cur raw s
    let met := Cursor.meets c raw s
    ∃ rest ahead, r.answer = { cur with raw := rest, ahead } ∧ Looks shipped raw met ahead rest ∧
      consultations r.events = met.filterMap Met.consulted ∧ outcomes r.events = [] ∧
      r.state.lifecycle = s.lifecycle := by
  induction raw generalizing s with
  | nil => exact ⟨[], .nothing, rfl, .nothing, rfl, rfl, rfl⟩
  | cons step rest ih =>
    rcases step with e | ⟨k, listed⟩
    · have hstop : Looks shipped (.error e :: rest) [.broken e] (.failure (.raw e)) rest :=
        .stop (m := .broken e) rfl (by rintro _ ⟨⟩) rest
      exact ⟨rest, .failure (.raw e), rfl, hstop, rfl, rfl, rfl⟩
    · obtain ⟨hshows, hstore, hconsulted, hrecorded, hlifecycle⟩ :=
        lookup_meets hstrategy hs k listed
      have hraw : (.ok (k, listed) : RawStep K V) =
        (Met.looked k listed (c.store.get k s.store).answer).raw := rfl
      rw [Cursor.seek, Cursor.meets, Action.bind_apply]
      generalize Met.looked k listed (c.store.get k s.store).answer = m
        at hshows hconsulted hraw ⊢
      rw [hraw]
      have hfirst (met : List (Met K V)) :
          (m :: met).filterMap Met.consulted = m.consulted.toList ++ met.filterMap Met.consulted := by
        cases hm : m.consulted <;> simp [hm]
      rcases hr : (c.lookup k false).run s with ⟨e | _ | v, s', es⟩ <;>
        rw [hr] at hshows hstore hconsulted hrecorded hlifecycle <;>
        dsimp only at hshows hstore hconsulted hrecorded hlifecycle ⊢
      · refine ⟨rest, .failure (.decided e), rfl, .stop hshows ?_ rest, ?_, ?_, hlifecycle⟩
        · rintro _ ⟨⟩
          exact hstore e rfl
        · simpa [hfirst] using hconsulted
        · simpa using hrecorded
      · obtain ⟨left, ahead, hcursor, hlooks, hconsulted', hrecorded', hlifecycle'⟩ :=
          ih (hlifecycle ▸ hs)
        refine ⟨left, ahead, hcursor, hlooks.pass hshows, ?_, ?_, hlifecycle'.trans hlifecycle⟩
        · rw [consultations_append, hfirst, hconsulted, hconsulted']
        · rw [outcomes_append, hrecorded, hrecorded']
          rfl
      · refine ⟨rest, .entry ⟨k, v⟩, rfl, .stop hshows (by rintro _ ⟨⟩) rest, ?_, ?_, hlifecycle⟩
        · simpa [hfirst] using hconsulted
        · simpa using hrecorded

/-! ## The next entry -/

/-- What the caller is shown next is what the walk holds back; there is nothing otherwise. -/
theorem nextEntry_answer (hs : s.lifecycle.status = .available) (cur : Cursor K V) :
    (cur.nextEntry c s).answer.1 = cur.held.getD (.error .noSuchElement) := by
  rw [cur.nextEntry_apply c hs, Cursor.held]
  cases hterminated : cur.terminated with
  | true => rfl
  | false =>
    simp only [Bool.false_eq_true, if_false]
    rcases cur.ahead with _ | e | e | e
    · rfl
    · exact congrArg (fun r => r.answer.1) (cur.offer_apply c e s)
    · refine (congrArg (fun r => r.answer.1) (cur.surface_apply c (.raw e) s)).trans ?_
      simp only [consult_apply, hstrategy]
      cases shipped <;> rfl
    · exact congrArg (fun r => r.answer.1) (cur.surface_apply c (.decided e) s)

omit hstrategy in
/-- To the cache, asking a walk is handing a failed raw step to the strategy, or looking keys up. -/
theorem nextEntry_pursues (hs : s.lifecycle.status = .available) (cur : Cursor K V)
    (hdecided : ∀ e, cur.ahead = .failure (.decided e) → ∃ cause, e = .store cause) :
    (cur.nextEntry c s).state = cur.pursue c s := by
  rw [cur.nextEntry_apply c hs, Cursor.pursue, Cursor.held]
  cases cur.terminated with
  | true => rfl
  | false =>
    rcases hahead : cur.ahead with _ | e | e | e
    · rfl
    · exact (congrArg Run.state (cur.offer_apply c e s)).trans
        (seek_looks c { cur with current := some e.key } cur.raw s)
    · exact congrArg Run.state (cur.surface_apply c (.raw e) s)
    · obtain ⟨cause, rfl⟩ := hdecided e hahead
      exact congrArg Run.state (cur.surface_apply c (.decided (.store cause)) s)

/-- Asking a walk shows what it holds back and, if that is an entry, looks ahead. -/
structure Advances (shipped : Strategy.Shipped) (met : List (Met K V)) (cur cur' : Cursor K V)
    (es : List (Event K V)) : Prop where
  raw : cur.raw = met.map Met.raw ++ cur'.raw
  shows : met.filterMap (Met.shows shipped) = cur'.held.toList
  passed : ∀ m ∈ met.dropLast, m.shows shipped = none
  consulted : consultations es =
    met.filterMap Met.consulted ++ cur.held.toList.filterMap Element.consulted
  recorded : outcomes es = if cur.quiet then [] else cur.held.toList.map Element.recorded
  quiet : cur'.quiet = cur.quiet
  decided : ∀ e, cur'.ahead = .failure (.decided e) → ∃ cause, e = .store cause
  terminated : cur'.terminated = true ↔ cur.terminated = true ∨ ∃ e, cur.held = some (.error e)
  current : (cur.terminated = true → cur.current = none) → cur'.terminated = true →
    cur'.current = none

omit hstrategy in
/-- A walk that holds nothing back stays as it is. -/
theorem advances_idle {cur : Cursor K V} (hheld : cur.held = none)
    (hdecided : ∀ e, cur.ahead = .failure (.decided e) → ∃ cause, e = .store cause) :
    Advances shipped [] cur cur [] where
  raw := rfl
  shows := by rw [hheld]; rfl
  passed := fun _ hm => nomatch hm
  consulted := by rw [hheld]; rfl
  recorded := by rw [hheld]; cases cur.quiet <;> rfl
  quiet := rfl
  decided := hdecided
  terminated := by simp [hheld]
  current := id

/-- A walk that holds an entry back offers it, and looks ahead. -/
theorem offer_advances (hs : s.lifecycle.status = .available) {cur : Cursor K V}
    (hgoing : cur.terminated = false) {e : Entry K V} (hahead : cur.ahead = .entry e) :
    let r := cur.offer c e s
    Advances shipped (Cursor.meets c cur.raw s) cur r.answer.2 r.events ∧
      r.state.lifecycle = s.lifecycle := by
  obtain ⟨rest, ahead, hcursor, hlooks, hconsulted, hrecorded, hlifecycle⟩ :=
    seek_meets hstrategy hs { cur with current := some e.key } cur.raw
  have hheld : cur.held = some (.ok e) := by
    rw [Cursor.held, hgoing, hahead]
    rfl
  rw [Cursor.offer_apply]
  dsimp only
  rw [hcursor]
  refine ⟨?_, hlifecycle⟩
  constructor
  · exact hlooks.raw
  · rw [hlooks.shows, Cursor.held, hgoing]
    rfl
  · exact hlooks.passed
  · rw [consultations_append, hconsulted, hheld]
    cases cur.quiet <;> exact (List.append_nil _).symm
  · rw [outcomes_append, hrecorded, hheld]
    cases cur.quiet <;> rfl
  · rfl
  · exact hlooks.decided
  · simp [hheld]
  · intro _ hterminated
    rw [hgoing] at hterminated
    cases hterminated

omit hstrategy in
/-- A walk that holds a failure back surfaces it, and is over. -/
theorem surface_advances {cur : Cursor K V} (hgoing : cur.terminated = false) {back : HeldBack}
    (hahead : cur.ahead = .failure back)
    (hdecided : ∀ e, cur.ahead = .failure (.decided e) → ∃ cause, e = .store cause) :
    let r := cur.surface c back s
    Advances shipped [] cur r.answer.2 r.events ∧ r.state.lifecycle = s.lifecycle := by
  have hheld : cur.held = (Lookahead.failure back).pending := by
    rw [Cursor.held, hgoing, hahead]
    rfl
  have hfailed : ∃ e, cur.held = some (.error e) := by
    cases back <;> exact ⟨_, hheld⟩
  rw [Cursor.surface_apply]
  refine ⟨?_, ?_⟩
  · constructor
    · rfl
    · rfl
    · intro m hm
      cases hm
    · have hsilent : consultations (if cur.quiet then [] else [.recorded (.get .failure)] :
          List (Event K V)) = [] := by
        cases cur.quiet <;> rfl
      rw [consultations_append, hsilent, hheld]
      cases back with
      | raw e =>
        dsimp only
        rw [consult_apply, consultations_consulted, consultations_notes]
        rfl
      | decided e =>
        obtain ⟨cause, rfl⟩ := hdecided e hahead
        rfl
    · have hfailure : outcomes (if cur.quiet then [] else [.recorded (.get .failure)] :
          List (Event K V)) = if cur.quiet then [] else [.get .failure] := by
        cases cur.quiet <;> rfl
      rw [outcomes_append, hfailure, hheld]
      cases back with
      | raw e =>
        dsimp only
        rw [consult_apply, outcomes_consulted, outcomes_notes, List.append_nil]
        rfl
      | decided e => exact List.append_nil _
    · rfl
    · rintro _ ⟨⟩
    · simp [hfailed]
    · exact fun _ _ => rfl
  · cases back <;> rfl

theorem nextEntry_advances (hs : s.lifecycle.status = .available) (cur : Cursor K V)
    (hdecided : ∀ e, cur.ahead = .failure (.decided e) → ∃ cause, e = .store cause) :
    let r := cur.nextEntry c s
    Advances shipped (cur.met c s) cur r.answer.2 r.events ∧ r.state.lifecycle = s.lifecycle := by
  rw [cur.nextEntry_apply c hs, Cursor.met]
  cases hterminated : cur.terminated with
  | true =>
    have hheld : cur.held = none := if_pos hterminated
    rw [hheld]
    exact ⟨advances_idle hheld hdecided, rfl⟩
  | false =>
    have hheld : cur.held = cur.ahead.pending := if_neg (by simp [hterminated])
    rw [hheld]
    cases hahead : cur.ahead with
    | nothing => exact ⟨advances_idle (hheld.trans (congrArg _ hahead)) hdecided, rfl⟩
    | entry e => exact offer_advances hstrategy hs hterminated hahead
    | failure back =>
      cases back <;> exact surface_advances hterminated hahead hdecided

end

end Cache

end ResilientCache
