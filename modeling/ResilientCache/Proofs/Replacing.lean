import ResilientCache.Proofs.Resembling
import ResilientCache.Proofs.World

/-!
# A cache with a part replaced

Two caches resemble each other (`Cache.Resembles`) when their stores do, their strategies decide
alike, and their policies grant alike; hidden notes are left out. Every operation, every step of a
walk and every deed of one cache then resembles that of the other: a cache does not look into its
parts.

The proofs follow the definitions of the operations, since nothing but the structure of each
operation is used. Calls go through their one shape: what is asked of the store (`ask_resembles`)
and what is made of the result (`complete_resembles`).

Headlines:
* `serve_resembles`, `loadAll_resembles`, `removeAllEntries_resembles`: the operations.
* `seek_resembles`, `nextEntry_resembles`, `step_resembles`: the steps of a walk.
* **`act_resembles`**: every deed.
-/

namespace ResilientCache

variable {σ τ Q K V α β : Type} {hidden : Note K V → Bool}

/-- Caches whose parts resemble each other. -/
structure Cache.Resembles (hidden : Note K V → Bool) (c c' : Cache σ K V) : Prop where
  store : c.store.Resembles hidden c'.store
  strategy : ∀ call e, (c.strategy call e).Resembles hidden (c'.strategy call e)
  lifetime : ∀ (τ : Type) (q : LifetimeQuery K V),
    (c.expiry.lifetime .cache q : Action τ (Note K V) _).Resembles hidden
      (c'.expiry.lifetime .cache q)

namespace Cache

/-- Bulk calls whose functions resemble each other. -/
theorem bulkCall_resembles {call call' : σ → BulkCall σ Q K V}
    {reply reply' : Q → Action τ (Event K V) (Except Fault (Mappings K V))}
    (hcall : ∀ s, (call s).Resembles hidden (call' s))
    (hreply : ∀ q, (reply q).Resembles (Event.hides hidden) (reply' q)) (start : τ) :
    (bulkCall call reply start).Resembles (Event.hides hidden) (bulkCall call' reply' start) := by
  intro s
  obtain ⟨ha, hs, he⟩ := (hcall s.store).run (Event.hides_note hidden) hreply start
  refine ⟨?_, ?_, he⟩
  · simp only [bulkCall, ha, hs]
  · simp only [bulkCall, ha]

theorem remapEach_resembles
    {remap remap' : Option (Handle V) → Action τ (Event K V) (Option (Handle V))}
    (h : ∀ current, (remap current).Resembles (Event.hides hidden) (remap' current))
    (batch : Mappings K V) :
    (remapEach remap batch).Resembles (Event.hides hidden) (remapEach remap' batch) :=
  .bind (.mapM (fun _ => (h _).bind fun _ => .refl _) batch) fun _ => .refl _

section

variable {c c' : Cache σ K V} (h : c.Resembles hidden c')

include h

/-! ## Deciding about a value -/

theorem deadOnArrival_resembles (k : K) (old? : Option V) (new : V) :
    (c.deadOnArrival k old? new : Action τ (Event K V) Bool).Resembles (Event.hides hidden)
      (c'.deadOnArrival k old? new) :=
  .within ((h.lifetime τ _).bind fun _ => .refl _) _ _ (Event.hides_note hidden)

theorem accept_resembles (k : K) (old? : Option (Handle V)) (v : Handle V) :
    (c.accept k old? v : Action τ (Event K V) _).Resembles (Event.hides hidden)
      (c'.accept k old? v) :=
  (deadOnArrival_resembles h k _ _).bind fun _ => .refl _

theorem keepOrAccept_resembles (k : K) (v : Handle V) : ∀ current,
    (c.keepOrAccept k v current).Resembles (Event.hides hidden) (c'.keepOrAccept k v current)
  | some _ => .refl _
  | none => accept_resembles h k none v

theorem acceptOver_resembles (k : K) (v : Handle V) : ∀ current,
    (c.acceptOver k v current).Resembles (Event.hides hidden) (c'.acceptOver k v current)
  | some _ => (accept_resembles h k _ v).bind fun _ => .refl _
  | none => .refl _

theorem acceptEqual_resembles [BEq V] (k : K) (old : V) (new : Handle V) : ∀ current,
    (c.acceptEqual k old new current).Resembles (Event.hides hidden)
      (c'.acceptEqual k old new current)
  | none => .refl _
  | some current => by
    by_cases he : current.value == old
    · simp only [acceptEqual, if_pos he]
      exact .bind (.refl _) fun _ => accept_resembles h k _ new
    · simp only [acceptEqual, if_neg he]
      exact .refl _

theorem putPending_resembles [DecidableEq K] (held : K × Option (Handle V)) :
    (c.putPending held).Resembles (Event.hides hidden) (c'.putPending held) := by
  refine .bind (.refl _) fun pending => ?_
  cases pending.get? held.1 with
  | none => exact .refl _
  | some v =>
    refine .bind (.refl _) fun _ => (accept_resembles h held.1 held.2 v).bind fun next => ?_
    cases next <;> exact .refl _

theorem computeOne_resembles (k : K)
    {remap remap' : Option (Handle V) → Action τ (Event K V) (Option (Handle V))}
    (hremap : ∀ current, (remap current).Resembles (Event.hides hidden) (remap' current))
    (start : τ) :
    (c.computeOne k remap start).Resembles (Event.hides hidden) (c'.computeOne k remap' start) :=
  (bulkCall_resembles (h.store.bulkCompute [k]) (remapEach_resembles hremap) start).bind
    fun _ => .refl _

/-! ## Calls -/

theorem consult_resembles (call : FailedCall K V) (e : StoreError) :
    (c.consult call e).run.Resembles (Event.hides hidden) (c'.consult call e).run :=
  .bind (.refl _) fun _ => onStore_resembles (h.strategy call e)

theorem resolve_resembles (call : FailedCall K V) (failure : Outcome) (e : StoreError) :
    (c.resolve call failure e).run.Resembles (Event.hides hidden)
      (c'.resolve call failure e).run :=
  (consult_resembles h call e).bind fun _ => .refl _

theorem resolveBulk_resembles (call : FailedCall K V) (failure : Outcome) : ∀ e,
    (c.resolveBulk call failure e).run.Resembles (Event.hides hidden)
      (c'.resolveBulk call failure e).run
  | .store e => resolve_resembles h call failure e
  | .function _ => .refl _

omit h in
theorem callStore_resembles {call : Store σ K V → Action σ (Note K V) α}
    (hcall : (call c.store).Resembles hidden (call c'.store)) :
    (c.callStore call).run.Resembles (Event.hides hidden) (c'.callStore call).run :=
  Op.lift_resembles (onStore_resembles hcall)

theorem ask_resembles [DecidableEq K] [BEq V] (call : Call K V) :
    (c.ask call).Resembles (Event.hides hidden) (c'.ask call) := by
  have plain {α : Type} {x y : Action σ (Note K V) (Except StoreError α)}
      (hxy : x.Resembles hidden y) : (askPlain x).Resembles (Event.hides hidden) (askPlain y) :=
    (onStore_resembles hxy).bind fun _ => .refl _
  have kept {α τ : Type} {x y : Action (State σ) (Event K V) (Except BulkError α × τ)}
      (hxy : x.Resembles (Event.hides hidden) y) :
      (askKept x).Resembles (Event.hides hidden) (askKept y) := hxy.bind fun _ => .refl _
  have result {α τ : Type} {x y : Action (State σ) (Event K V) (Except BulkError α × τ)}
      (hxy : x.Resembles (Event.hides hidden) y) :
      (askResult x).Resembles (Event.hides hidden) (askResult y) := hxy.bind fun _ => .refl _
  cases call with
  | get k => exact plain (h.store.get k)
  | containsKey k => exact plain (h.store.containsKey k)
  | put k v => exact result (computeOne_resembles h k (fun _ => accept_resembles h k _ v) _)
  | putIfAbsent k v => exact kept (computeOne_resembles h k (keepOrAccept_resembles h k v) _)
  | remove k => exact plain (h.store.remove k)
  | removeIf k value => exact kept (computeOne_resembles h k (fun _ => .refl _) _)
  | replace k v => exact kept (computeOne_resembles h k (acceptOver_resembles h k v) _)
  | replaceIf k old new =>
    exact kept (computeOne_resembles h k (acceptEqual_resembles h k old new) _)
  | clear => exact plain h.store.clear
  | getAll ks =>
    exact result (bulkCall_resembles (h.store.bulkComputeIfAbsent _) (fun _ => .refl _) _)
  | getAllPresent ks =>
    exact result (bulkCall_resembles (h.store.bulkComputeIfAbsent _) (fun _ => .refl _) _)
  | putAll entries =>
    exact kept (bulkCall_resembles (h.store.bulkCompute _)
      (fun batch => .bind (.mapM (putPending_resembles h) batch) fun _ => .refl _) _)
  | removeAll ks =>
    exact kept (bulkCall_resembles (h.store.bulkCompute _) (fun _ => .refl _) _)

theorem complete_resembles [DecidableEq K] (call : Call K V) : ∀ r,
    (c.complete call r).Resembles (Event.hides hidden) (c'.complete call r)
  | .ok _ => .refl _
  | .error (.store e) => (consult_resembles h call.failed e).bind fun _ => .refl _
  | .error (.function _) => .refl _

theorem serve_resembles [DecidableEq K] [BEq V] (call : Call K V) :
    (c.serve call).run.Resembles (Event.hides hidden) (c'.serve call).run := by
  rw [serve_eq, serve_eq]
  exact Op.bind_resembles (.refl _) fun _ => (ask_resembles h call).bind (complete_resembles h call)

/-! ## Other operations -/

theorem lookup_resembles (k : K) (observed : Bool) :
    (c.lookup k observed).run.Resembles (Event.hides hidden) (c'.lookup k observed).run := by
  refine Op.bind_resembles (.refl _) fun _ =>
    Op.bind_resembles (callStore_resembles (h.store.get k)) fun r => ?_
  rcases r with e | _ | _
  · cases observed with
    | true => exact resolve_resembles h _ _ e
    | false => exact consult_resembles h _ e
  · exact .refl _
  · exact .refl _

theorem removeKey_resembles (k : K) :
    (c.removeKey k).run.Resembles (Event.hides hidden) (c'.removeKey k).run := by
  refine Op.bind_resembles (.refl _) fun _ =>
    Op.bind_resembles (callStore_resembles (h.store.remove k)) fun r => ?_
  rcases r with e | _ | _
  · exact Op.bind_resembles (resolve_resembles h _ _ e) fun _ => .refl _
  · exact .refl _
  · exact .refl _

theorem remove_resembles (k : K) :
    (c.remove k).run.Resembles (Event.hides hidden) (c'.remove k).run :=
  Op.bind_resembles (removeKey_resembles h k) fun _ => .refl _

theorem removeEach_resembles : ∀ ks : List K,
    (c.removeEach ks).run.Resembles (Event.hides hidden) (c'.removeEach ks).run
  | [] => .refl _
  | k :: ks => Op.bind_resembles (remove_resembles h k) fun _ => removeEach_resembles ks

theorem removeAllEntries_resembles :
    c.removeAllEntries.run.Resembles (Event.hides hidden) c'.removeAllEntries.run :=
  Op.bind_resembles (.refl _) fun _ =>
    Op.bind_resembles (callStore_resembles h.store.iterate) fun _ =>
      Op.bind_resembles (.refl _) fun ks => removeEach_resembles h ks

theorem getAllWith_resembles [DecidableEq K] (ks : List K) (includeAbsent : Bool) :
    (c.getAllWith ks includeAbsent).run.Resembles (Event.hides hidden)
      (c'.getAllWith ks includeAbsent).run := by
  refine Op.bind_resembles (.refl _) fun _ => Op.bind_resembles (Op.lift_resembles
    (bulkCall_resembles (h.store.bulkComputeIfAbsent _) (fun _ => .refl _) _)) fun r => ?_
  rcases r with ⟨e | computed, _⟩
  · exact Op.bind_resembles (resolveBulk_resembles h _ _ e) fun _ => .refl _
  · exact .refl _

theorem loadAll_resembles [DecidableEq K] (ks : List K) (replaceExisting : Bool)
    (loader : Loader K V) :
    (c.loadAll ks replaceExisting loader).run.Resembles (Event.hides hidden)
      (c'.loadAll ks replaceExisting loader).run := by
  refine Op.bind_resembles (.refl _) fun _ => ?_
  cases ks.isEmpty with
  | true => exact .refl _
  | false =>
    cases replaceExisting with
    | true =>
      refine Op.bind_resembles (Op.lift_resembles
        (bulkCall_resembles (h.store.bulkCompute ks) (fun _ => .refl _) _)) fun r => ?_
      rcases r with ⟨e | computed, _⟩ <;> exact .refl _
    | false =>
      refine Op.bind_resembles (Op.lift_resembles
        (bulkCall_resembles (h.store.bulkComputeIfAbsent ks) (fun _ => .refl _) _)) fun r => ?_
      rcases r with ⟨e | computed, _⟩ <;> exact .refl _

/-! ## Steps of a walk -/

theorem seek_resembles (cur : Cursor K V) : ∀ steps : List (RawStep K V),
    (cur.seek c steps).Resembles (Event.hides hidden) (cur.seek c' steps)
  | [] => .refl _
  | .error _ :: _ => .refl _
  | .ok (k, _) :: rest => (lookup_resembles h k false).bind fun r => by
    rcases r with e | _ | v
    · exact .refl _
    · exact seek_resembles cur rest
    · exact .refl _

theorem iterate_resembles (quiet : Bool) :
    (c.iterate quiet).run.Resembles (Event.hides hidden) (c'.iterate quiet).run :=
  Op.bind_resembles (.refl _) fun _ =>
    Op.bind_resembles (callStore_resembles h.store.iterate) fun raw =>
      Op.lift_resembles (seek_resembles h _ raw)

theorem surface_resembles (cur : Cursor K V) (held : HeldBack) :
    (cur.surface c held).Resembles (Event.hides hidden) (cur.surface c' held) := by
  obtain ⟨raw, ahead, current, quiet, terminated⟩ := cur
  cases held with
  | raw e =>
    cases quiet with
    | true => exact (consult_resembles h .iterate e).bind fun _ => .refl _
    | false => exact .bind (.refl _) fun _ => (consult_resembles h .iterate e).bind fun _ => .refl _
  | decided e => cases quiet <;> exact .refl _

theorem offer_resembles (cur : Cursor K V) (e : Entry K V) :
    (cur.offer c e).Resembles (Event.hides hidden) (cur.offer c' e) := by
  intro s
  obtain ⟨ha, hs, he⟩ := seek_resembles h { cur with current := some e.key } cur.raw s
  rw [cur.offer_apply c, cur.offer_apply c']
  exact ⟨congrArg (Prod.mk (Except.ok e)) ha, hs, by rw [visible_append, visible_append, he]⟩

theorem nextEntry_resembles (cur : Cursor K V) :
    (cur.nextEntry c).Resembles (Event.hides hidden) (cur.nextEntry c') := by
  refine .bind (.refl _) fun r => ?_
  cases r with
  | error e => exact .refl _
  | ok u =>
    dsimp only
    split
    · exact .refl _
    · cases cur.ahead with
      | nothing => exact .refl _
      | entry e => exact offer_resembles h cur e
      | failure held => exact surface_resembles h cur held

theorem cursorRemove_resembles (cur : Cursor K V) :
    (cur.remove c).Resembles (Event.hides hidden) (cur.remove c') := by
  refine .bind (.refl _) fun r => ?_
  cases r with
  | error e => exact .refl _
  | ok u =>
    cases cur.current with
    | none => exact .refl _
    | some k => exact (remove_resembles h k).bind fun _ => .refl _

theorem step_resembles (cur : Cursor K V) :
    (cur.step c).Resembles (Event.hides hidden) (cur.step c') := by
  intro s
  obtain ⟨ha, hs, he⟩ := nextEntry_resembles h cur s
  rw [cur.step_apply c, cur.step_apply c']
  split
  · exact ⟨rfl, rfl, rfl⟩
  · exact ⟨by dsimp only; rw [ha], hs, he⟩

/-! ## Deeds -/

omit h in
theorem onCache_resembles {x y : Action (State σ) (Event K V) α}
    (hxy : x.Resembles (Event.hides hidden) y) :
    (onCache x).Resembles (Event.hides hidden) (onCache y) :=
  hxy.within _ _ fun _ => rfl

omit h in
theorem onWalk_resembles (i : Nat)
    {x y : Cursor K V → Action (State σ) (Event K V) (α × Cursor K V)}
    (hxy : ∀ cur, (x cur).Resembles (Event.hides hidden) (y cur)) :
    (onWalk i x).Resembles (Event.hides hidden) (onWalk i y) :=
  .bind (.refl _) fun cur => (onCache_resembles (hxy cur)).bind fun _ => .refl _

theorem use_resembles [DecidableEq K] [BEq V] (u : Use K V) :
    (c.use u).Resembles (Event.hides hidden) (c'.use u) := by
  cases u with
  | call operation => exact onCache_resembles (serve_resembles h operation)
  | removeKey k => exact onCache_resembles (removeKey_resembles h k)
  | getAllWith ks includeAbsent => exact onCache_resembles (getAllWith_resembles h ks includeAbsent)
  | loadAll ks replaceExisting loader =>
    exact onCache_resembles (loadAll_resembles h ks replaceExisting loader)
  | removeAllEntries => exact onCache_resembles (removeAllEntries_resembles h)
  | iterate i quiet =>
    refine (onCache_resembles (iterate_resembles h quiet)).bind fun r => ?_
    cases r <;> exact .refl _
  | hasNext i => exact .refl _
  | nextEntry i => exact onWalk_resembles i (nextEntry_resembles h)
  | remove i => exact onWalk_resembles i (cursorRemove_resembles h)

/-- **Every deed of one cache resembles that of the other.** -/
theorem act_resembles [DecidableEq K] [BEq V] (d : Deed σ K V) :
    (c.act d).Resembles (Event.hides hidden) (c'.act d) := by
  cases d with
  | use u => exact use_resembles h u
  | next i => exact onWalk_resembles i (step_resembles h)
  | move t table => cases t <;> exact .refl _
  | addHook hook => exact .refl _
  | removeHook hook => exact .refl _
  | outside f => exact .refl _

end

end Cache

end ResilientCache
