import ResilientCache.Proofs.Disturbing

/-!
# A walk shows what it found when it looked ahead

A walk looks ahead: it fetches its first entry when it begins, and the next one whenever it offers
one. What it offers is therefore what a look-up of the key was answered when the entry was fetched,
at the end of the walk's step before, and not when the entry is offered. A look-up right before that
answers the same unless the key was disturbed since (`Incident.Disturbs`): removed, written, or left
to the clock.

The store is one in memory, in any order, shared by a cache and others; policies may change from one
incident to the next.

Headlines:
* `Walking.occur`, `Walking.history`: what incidents make of a walk.
* `first_change`: what changes in a history changes in one of its incidents.
* **`offers_what_it_fetched`**: where the entries of a walk come from.
-/

namespace ResilientCache

open Memory

variable {K V : Type} [DecidableEq K] [DecidableEq (Handle V)] [BEq V]

/-- An incident that does not end a run of a walk. -/
def Incident.Spares {σ : Type} (i : Nat) : Incident σ K V → Prop
  | .deed d => d.Spares i
  | .turn _ => True

namespace Cache

section

variable (c : Cache (Memory K V) K V) (order : Memory K V → List (K × Holder V)) (i : Nat)

/-- The world after a history. -/
def afterAll (incidents : List (Policies K V × Incident (Memory K V) K V))
    (w : World (Memory K V) K V) : World (Memory K V) K V :=
  (history (c.shared order) .whole incidents w).state

/-- The entry that a walk offers in an incident, if it offers one. -/
def offering (p : Policies K V) :
    Incident (Memory K V) K V → World (Memory K V) K V → Option (Entry K V)
  | .deed d, w => (c.shared order p).offered i d w
  | .turn _, _ => none

/-- What a walk offers in a history. -/
def offerings : List (Policies K V × Incident (Memory K V) K V) → World (Memory K V) K V →
    List (Entry K V)
  | [], _ => []
  | (p, x) :: rest, w =>
    (c.offering order i p x w).toList ++ offerings rest (c.afterAll order [(p, x)] w)

/-- At the end of a history a walk has just fetched: it has only begun, or the last incident is one in
which it made an offer and looked ahead. -/
def JustFetched (incidents : List (Policies K V × Incident (Memory K V) K V))
    (w : World (Memory K V) K V) : Prop :=
  incidents = [] ∨ ∃ earlier p x, incidents = earlier ++ [(p, x)] ∧
    (c.offering order i p x (c.afterAll order earlier w)).isSome

/-- A look-up finds an entry, whatever the policies are. -/
def Finds (w : World (Memory K V) K V) (e : Entry K V) : Prop :=
  ∀ p, ((c.shared order p).use (.call (.get e.key)) w).answer = .ok (some e.value)

end

variable {c : Cache (Memory K V) K V} {order : Memory K V → List (K × Holder V)} {i : Nat}
  {w : World (Memory K V) K V}

theorem afterAll_append (before after : List (Policies K V × Incident (Memory K V) K V)) :
    c.afterAll order (before ++ after) w = c.afterAll order after (c.afterAll order before w) :=
  history_append _ _ before after w

theorem offerings_append : ∀ (before after : List (Policies K V × Incident (Memory K V) K V))
    (w : World (Memory K V) K V), c.offerings order i (before ++ after) w =
      c.offerings order i before w ++ c.offerings order i after (c.afterAll order before w)
  | [], _, _ => rfl
  | (p, x) :: before, after, w => by
    rw [List.cons_append, offerings, offerings, offerings_append before after, List.append_assoc]
    rfl

/-- On an available cache a look-up finds what is live. -/
theorem finds_iff (hs : w.status = .available) (e : Entry K V) :
    c.Finds order w e ↔ (w.cache.store.live? e.key).map Holder.value = some e.value := by
  have hget (p : Policies K V) : ((c.shared order p).use (.call (.get e.key)) w).answer =
      .ok ((w.cache.store.live? e.key).map Holder.value) :=
    serve_get (c := c.withPolicies p) rfl hs e.key
  constructor
  · intro hfinds
    have hfound := hfinds ⟨.eternal, .eternal⟩
    rw [hget] at hfound
    exact Except.ok.inj hfound
  · intro hlive p
    rw [hget, hlive]

/-! ## Incidents -/

variable {held : List K} {yielded : List (Entry K V)} {last : Memory K V} {ks : List K}

/-- An incident leaves a walk as it is, or the walk offers what its key had when the walk fetched
it, and fetches the next entry. -/
theorem Walking.occur (h : Walking i held yielded last ks w) (p : Policies K V)
    {x : Incident (Memory K V) K V} (hx : x.Spares i) :
    let w' := c.afterAll order [(p, x)] w
    (c.offering order i p x w = none ∧ Walking i held yielded last ks w') ∨
      ∃ e ks', c.offering order i p x w = some e ∧
        (last.live? e.key).map Holder.value = some e.value ∧
        Walking i held (yielded ++ [e]) w'.cache.store ks' w' := by
  cases x with
  | deed d =>
    have hc : (c.shared order p).store = (Store.memory p.store).listedBy order := rfl
    rcases h.act hc hx with hnone | ⟨e, ks', hoffered, hvalue, hwalk, -⟩
    · exact .inl hnone
    · exact .inr ⟨e, ks', hoffered, hvalue, hwalk⟩
  | turn t =>
    refine .inl ⟨rfl, ?_⟩
    cases t <;> exact ⟨h.available, h.faces, h.sublist⟩

/-! ## Histories -/

variable (c order) in
/-- What a history makes of a walk: it has fetched last at the end of some part of the history. -/
theorem Walking.history (h : Walking i held [] w.cache.store ks w)
    (incidents : List (Policies K V × Incident (Memory K V) K V))
    (hspares : ∀ x ∈ incidents, x.2.Spares i) :
    ∃ fetch since yielded ks', incidents = fetch ++ since ∧ c.JustFetched order i fetch w ∧
      c.offerings order i since (c.afterAll order fetch w) = [] ∧
      Walking i held yielded (c.afterAll order fetch w).cache.store ks'
        (c.afterAll order incidents w) := by
  induction incidents using List.reverseRecOn with
  | nil => exact ⟨[], [], [], ks, rfl, .inl rfl, rfl, h⟩
  | append_singleton before px ih =>
    obtain ⟨p, x⟩ := px
    obtain ⟨hbefore, hlast⟩ := List.forall_mem_append.mp hspares
    obtain ⟨fetch, since, yielded, ks', rfl, hfetch, hsince, hwalk⟩ := ih hbefore
    rcases hwalk.occur p (hlast (p, x) (List.mem_singleton_self _)) with
      ⟨hnone, hwalk'⟩ | ⟨e, ks'', hsome, -, hwalk'⟩
    · refine ⟨fetch, since ++ [(p, x)], yielded, ks', List.append_assoc _ _ _, hfetch, ?_, ?_⟩
      · rw [afterAll_append] at hnone
        rw [offerings_append, hsince, offerings, hnone]
        rfl
      · rw [afterAll_append]
        exact hwalk'
    · -- the walk has fetched at the end of the whole history
      refine ⟨fetch ++ since ++ [(p, x)], [], yielded ++ [e], ks'', (List.append_nil _).symm,
        .inr ⟨fetch ++ since, p, x, rfl, ?_⟩, rfl, ?_⟩
      · rw [hsome]
        rfl
      · rw [afterAll_append]
        exact hwalk'

/-- What holds before a history and not after it stops to hold in one of its incidents. -/
theorem first_change {P : World (Memory K V) K V → Prop}
    {incidents : List (Policies K V × Incident (Memory K V) K V)} (h : P w)
    (h' : ¬ P (c.afterAll order incidents w)) :
    ∃ earlier p x later, incidents = earlier ++ (p, x) :: later ∧
      P (c.afterAll order earlier w) ∧ ¬ P (c.afterAll order (earlier ++ [(p, x)]) w) := by
  induction incidents using List.reverseRecOn with
  | nil => exact absurd h h'
  | append_singleton before px ih =>
    by_cases hbefore : P (c.afterAll order before w)
    · exact ⟨before, px.1, px.2, [], rfl, hbefore, h'⟩
    · obtain ⟨earlier, p, x, later, rfl, hchange⟩ := ih hbefore
      exact ⟨earlier, p, x, later ++ [px], by simp, hchange⟩

theorem afterAll_available {incidents : List (Policies K V × Incident (Memory K V) K V)}
    (hspares : ∀ x ∈ incidents, x.2.Spares i) (hw : w.status = .available) :
    (c.afterAll order incidents w).status = .available := by
  induction incidents generalizing w with
  | nil => exact hw
  | cons px rest ih =>
    obtain ⟨p, x⟩ := px
    obtain ⟨hx, hrest⟩ := List.forall_mem_cons.mp hspares
    refine ih hrest ?_
    cases x with
    | deed d => exact (c.shared order p).act_available i hx hw
    | turn t => exact hw

/-! ## Ceasing to find an entry -/

variable {e : Entry K V}

/-- In an incident of a history a look-up ceases to find an entry, and the incident takes the handle
from the key, writes to the key, or moves the clock. -/
def Ceases (c : Cache (Memory K V) K V) (order : Memory K V → List (K × Holder V))
    (w : World (Memory K V) K V) (e : Entry K V)
    (incidents : List (Policies K V × Incident (Memory K V) K V)) : Prop :=
  ∃ earlier p x later, incidents = earlier ++ (p, x) :: later ∧
    let w' := c.afterAll order earlier w
    c.Finds order w' e ∧ ¬ c.Finds order (c.afterAll order [(p, x)] w') e ∧
      x.Disturbs (c.shared order p) w'.cache.store w' e.key e.value

/-- An incident in which a look-up ceases to find an entry disturbs its key. -/
theorem disturbs_of_ceases (hs : w.status = .available) (hw : ∀ j, (w.walks j).Sound)
    {p : Policies K V} {x : Incident (Memory K V) K V} (hx : x.Spares i)
    (hfinds : c.Finds order w e) (hceases : ¬ c.Finds order (c.afterAll order [(p, x)] w) e) :
    x.Disturbs (c.shared order p) w.cache.store w e.key e.value := by
  obtain ⟨holder, hlive, hvalue⟩ := Option.map_eq_some_iff.mp ((finds_iff hs e).mp hfinds)
  by_contra hquiet
  have hafter : (c.afterAll order [(p, x)] w).status = .available :=
    afterAll_available (List.forall_mem_singleton.mpr hx) hs
  have hkept := occur_keeps hlive hw p x (by rwa [hvalue])
  exact hceases ((finds_iff hafter e).mpr
    ((congrArg (Option.map Holder.value) hkept).trans (congrArg some hvalue)))

/-- After a history a look-up still finds an entry, or it ceased to in an incident that disturbs its
key. -/
theorem finds_or_ceases (hs : w.status = .available) (hw : ∀ j, (w.walks j).Sound)
    (hfinds : c.Finds order w e) {incidents : List (Policies K V × Incident (Memory K V) K V)}
    (hown : ∀ x ∈ incidents, x.2.IsOwn) (hspares : ∀ x ∈ incidents, x.2.Spares i) :
    c.Finds order (c.afterAll order incidents w) e ∨ c.Ceases order w e incidents := by
  by_cases hstill : c.Finds order (c.afterAll order incidents w) e
  · exact .inl hstill
  obtain ⟨earlier, p, x, later, rfl, hbefore, hafter⟩ :=
    first_change (P := fun w => c.Finds order w e) hfinds hstill
  obtain ⟨hspares, hlater⟩ := List.forall_mem_append.mp hspares
  obtain ⟨hown, -⟩ := List.forall_mem_append.mp hown
  rw [afterAll_append] at hafter
  have havailable : (c.afterAll order earlier w).status = .available :=
    afterAll_available hspares hs
  have hsound := c.history_sound order earlier hw hown
  have hx : x.Spares i := hlater (p, x) List.mem_cons_self
  exact .inr ⟨earlier, p, x, later, rfl, hbefore, hafter,
    disturbs_of_ceases havailable hsound hx hbefore hafter⟩

/-! ## Where entries come from -/

/-- Where an entry comes from that a walk offers: it was fetched some time after the walk had begun,
and is offered after what happened since. -/
structure ComesFrom (c : Cache (Memory K V) K V) (order : Memory K V → List (K × Holder V))
    (i : Nat) (begun : World (Memory K V) K V) (e : Entry K V)
    (fetch since : List (Policies K V × Incident (Memory K V) K V)) : Prop where
  /-- It was fetched in the step of the walk before, which is its beginning or its last offer. -/
  fetched : c.JustFetched order i fetch begun
  silent : c.offerings order i since (c.afterAll order fetch begun) = []
  /-- A look-up found it then. -/
  found : c.Finds order (c.afterAll order fetch begun) e
  /-- A look-up finds it still, unless its key was disturbed since. -/
  still : c.Finds order (c.afterAll order (fetch ++ since) begun) e ∨
    c.Ceases order (c.afterAll order fetch begun) e since

/-- **A walk offers what it fetched**: over a store in memory whose raw iteration comes in any order,
under any policies and any strategy, a walk begins well on an available cache; and whatever happens
then but that the cache is closed or another walk begun in its place, every entry that the walk
offers is what a look-up of its key was answered when the walk fetched it. A look-up right before
the offer is answered the same, unless an incident since has removed the key, written to it, or let
it expire. -/
theorem offers_what_it_fetched (i : Nat) (quiet : Bool) (p : Policies K V)
    {start : World (Memory K V) K V} (hstart : start.status = .available)
    (hsound : ∀ j, (start.walks j).Sound) :
    let r := (c.shared order p).use (.iterate i quiet) start
    r.answer = .ok () ∧
      ∀ incidents : List (Policies K V × Incident (Memory K V) K V),
        (∀ x ∈ incidents, x.2.IsOwn) → (∀ x ∈ incidents, x.2.Spares i) →
        ∀ (q : Policies K V) (x : Incident (Memory K V) K V), x.Spares i → ∀ e,
          c.offering order i q x (c.afterAll order incidents r.state) = some e →
            ∃ fetch since, incidents = fetch ++ since ∧
              c.ComesFrom order i r.state e fetch since := by
  intro r
  have hc : (c.shared order p).store = (Store.memory p.store).listedBy order := rfl
  obtain ⟨hanswer, -, ks, hbegun, -⟩ := begin_walking hc hstart i quiet
  have hwalks : ∀ j, (r.state.walks j).Sound :=
    c.occur_sound order hsound p (x := .deed (.use (.iterate i quiet))) trivial
  refine ⟨hanswer, fun incidents hown hspares q x hx e hoffered => ?_⟩
  obtain ⟨fetch, since, yielded, ks', rfl, hfetched, hsilent, hwalk⟩ :=
    hbegun.history c order incidents hspares
  obtain ⟨hownFetch, hownSince⟩ := List.forall_mem_append.mp hown
  obtain ⟨hsparesFetch, hsparesSince⟩ := List.forall_mem_append.mp hspares
  have hfetch : (c.afterAll order fetch r.state).status = .available :=
    afterAll_available hsparesFetch hbegun.available
  have hfound : c.Finds order (c.afterAll order fetch r.state) e := by
    rcases hwalk.occur q hx with ⟨hnone, -⟩ | ⟨e', -, hsome, hvalue, -⟩
    · cases hnone.symm.trans hoffered
    · obtain rfl : e' = e := Option.some.inj (hsome.symm.trans hoffered)
      exact (finds_iff hfetch e').mpr hvalue
  refine ⟨fetch, since, rfl, hfetched, hsilent, hfound, ?_⟩
  rw [afterAll_append]
  exact finds_or_ceases hfetch (c.history_sound order fetch hwalks hownFetch) hfound hownSince
    hsparesSince

/-- A walk has fetched the second of two entries when its key is removed. It offers the entry all the
same, and the removal is the incident in which a look-up ceased to find it. -/
theorem offers_what_it_fetched_removed :
    let c : Cache (Memory Nat Nat) Nat Nat := { store := .memory .eternal, strategy := .propagating }
    let order : Memory Nat Nat → List (Nat × Holder Nat) := fun m => m.table.pairs
    let p : Policies Nat Nat := ⟨.eternal, .eternal⟩
    let held : KeyMap Nat (Holder Nat) :=
      { pairs := [(1, .eternal ⟨0, 10⟩), (2, .eternal ⟨1, 20⟩)], nodup := by decide }
    let start : World (Memory Nat Nat) Nat Nat :=
      { cache := { store := { table := held }, lifecycle := { status := .available } }
        walks := fun _ => { raw := [], quiet := true } }
    let begun := ((c.shared order p).use (.iterate 0 true) start).state
    let incidents : List (Policies Nat Nat × Incident (Memory Nat Nat) Nat Nat) :=
      [(p, .deed (.use (.nextEntry 0))), (p, .deed (.use (.call (.remove 2))))]
    let next : Incident (Memory Nat Nat) Nat Nat := .deed (.use (.nextEntry 0))
    let e : Entry Nat Nat := ⟨2, ⟨1, 20⟩⟩
    start.status = .available ∧ (∀ j, (start.walks j).Sound) ∧
      (∀ x ∈ incidents, x.2.IsOwn) ∧ (∀ x ∈ incidents, x.2.Spares 0) ∧ next.Spares 0 ∧
      c.offering order 0 p next (c.afterAll order incidents begun) = some e ∧
      ∃ fetch since, incidents = fetch ++ since ∧ c.ComesFrom order 0 begun e fetch since ∧
        c.Ceases order (c.afterAll order fetch begun) e since := by
  intro c order p held start begun incidents next e
  have hstart : start.status = .available := rfl
  have hsound : ∀ j, (start.walks j).Sound := fun _ => ⟨⟨[], rfl⟩, rfl⟩
  have hown : ∀ x ∈ incidents, x.2.IsOwn := by simp [incidents, Incident.IsOwn, Deed.IsOwn]
  have hspares : ∀ x ∈ incidents, x.2.Spares 0 := by
    simp [incidents, Incident.Spares, Deed.Spares]
  have hoffered : c.offering order 0 p next (c.afterAll order incidents begun) = some e := by
    decide +kernel
  obtain ⟨fetch, since, hsplit, hfrom⟩ := (offers_what_it_fetched (c := c) 0 true p hstart
    hsound).2 incidents hown hspares p next trivial e hoffered
  refine ⟨hstart, hsound, hown, hspares, trivial, hoffered, fetch, since, hsplit, hfrom, ?_⟩
  rcases hfrom.still with hfinds | hceases
  · have hread := hfinds p
    rw [← hsplit] at hread
    have hgone : ((c.shared order p).use (.call (.get 2)) (c.afterAll order incidents begun)).answer =
      .ok none := by decide +kernel
    cases hgone.symm.trans hread
  · exact hceases

/-- So a walk may offer an entry that is gone: a look-up right before does not find it. -/
theorem offers_what_is_gone :
    let c : Cache (Memory Nat Nat) Nat Nat := { store := .memory .eternal, strategy := .propagating }
    let start : World (Memory Nat Nat) Nat Nat :=
      { cache := { store := {}, lifecycle := { status := .available } }
        walks := fun _ => { raw := [], quiet := true } }
    let w := (c.live [.use (.call (.put 1 ⟨0, 10⟩)), .use (.iterate 0 false),
      .use (.call (.remove 1))] start).state
    (c.use (.call (.get 1)) w).answer = .ok none ∧
      (c.use (.nextEntry 0) w).answer = .ok ⟨1, ⟨0, 10⟩⟩ := by
  decide +kernel

end Cache

end ResilientCache
