import ResilientCache.Proofs.World

/-!
# Operations leave the lifecycle alone

`Preserves (State.LivesBy l)` says of an operation that it leaves a cache with the lifecycle `l`
with this lifecycle. Every operation on the contents of a cache does so, whatever the store, the
strategy and the policies are: each of them works on the store, adds to the counts of bulk entries,
or tells something.

Headline: **`use_lifecycle`**.
-/

namespace ResilientCache

variable {σ τ Q K V α β : Type}

namespace Cache

section

variable {I : State σ → Prop}

/-- What is done after an operation is done only after its success. -/
theorem Op.bind_preserves {x : Op σ K V α} {f : α → Op σ K V β} (hx : x.run.Preserves I)
    (hf : ∀ a, (f a).run.Preserves I) : (x >>= f).run.Preserves I := by
  refine .bind hx fun r => ?_
  cases r with
  | ok a => exact hf a
  | error e => exact .pure _

theorem Op.lift_preserves {x : Action (State σ) (Event K V) α} (hx : x.Preserves I) :
    (liftM x : Op σ K V α).run.Preserves I :=
  .bind hx fun _ => .pure _

end

/-- The lifecycle of a cache is this one. -/
def State.LivesBy (l : Lifecycle) (s : State σ) : Prop := s.lifecycle = l

variable (c : Cache σ K V) {l : Lifecycle}

/-! ## Parts -/

theorem checkAvailable_livesBy :
    (checkAvailable : Op σ K V Unit).run.Preserves (State.LivesBy l) := fun _ h => h

theorem callStore_livesBy (call : Store σ K V → Action σ (Note K V) α) :
    (c.callStore call).run.Preserves (State.LivesBy l) := fun _ h => h

theorem bulkCall_livesBy (call : σ → BulkCall σ Q K V)
    (reply : Q → Action τ (Event K V) (Except Fault (Mappings K V))) (start : τ) :
    (bulkCall call reply start).Preserves (State.LivesBy l) := fun _ h => h

theorem record_livesBy (o : Outcome) : (c.record o).Preserves (State.LivesBy l) := fun _ h => h

theorem addBulk_livesBy (kind : BulkKind) (n : UInt64) :
    (c.addBulk kind n).Preserves (State.LivesBy l) := fun _ h => h

theorem consult_livesBy (call : FailedCall K V) (e : StoreError) :
    (c.consult call e).run.Preserves (State.LivesBy l) := fun _ h => h

theorem resolve_livesBy (call : FailedCall K V) (failure : Outcome) (e : StoreError) :
    (c.resolve call failure e).run.Preserves (State.LivesBy l) :=
  .bind (c.consult_livesBy call e) fun _ => .bind (c.record_livesBy failure) fun _ => .pure _

theorem resolveBulk_livesBy (call : FailedCall K V) (failure : Outcome) :
    ∀ e, (c.resolveBulk call failure e).run.Preserves (State.LivesBy l)
  | .store e => c.resolve_livesBy call failure e
  | .function _ => Op.bind_preserves (Op.lift_preserves (c.record_livesBy failure)) fun _ => .pure _

/-! ## Single keys and walks -/

theorem lookup_livesBy (k : K) (observed : Bool) :
    (c.lookup k observed).run.Preserves (State.LivesBy l) := by
  refine Op.bind_preserves checkAvailable_livesBy fun _ =>
    Op.bind_preserves (c.callStore_livesBy _) fun r => ?_
  rcases r with e | h | h <;> cases observed
  · exact c.consult_livesBy _ e
  · exact c.resolve_livesBy _ _ e
  · exact .pure _
  · exact Op.bind_preserves (Op.lift_preserves (c.record_livesBy _)) fun _ => .pure _
  · exact .pure _
  · exact Op.bind_preserves (Op.lift_preserves (c.record_livesBy _)) fun _ => .pure _

theorem removeKey_livesBy (k : K) : (c.removeKey k).run.Preserves (State.LivesBy l) := by
  refine Op.bind_preserves checkAvailable_livesBy fun _ =>
    Op.bind_preserves (c.callStore_livesBy _) fun r => ?_
  rcases r with e | _ | _
  · exact Op.bind_preserves (c.resolve_livesBy _ _ e) fun _ => .pure _
  · exact Op.bind_preserves (Op.lift_preserves (c.record_livesBy _)) fun _ => .pure _
  · exact Op.bind_preserves (Op.lift_preserves (c.record_livesBy _)) fun _ => .pure _

theorem remove_livesBy (k : K) : (c.remove k).run.Preserves (State.LivesBy l) :=
  Op.bind_preserves (c.removeKey_livesBy k) fun _ => .pure _

theorem rawKeys_livesBy : ∀ steps : List (RawStep K V),
    (rawKeys steps : Action (State σ) (Event K V) (List K)).Preserves (State.LivesBy l)
  | [] => .pure _
  | .ok _ :: rest => .bind (rawKeys_livesBy rest) fun _ => .pure _
  | .error _ :: rest => .bind (fun _ h => h) fun _ => rawKeys_livesBy rest

theorem removeEach_livesBy (ks : List K) :
    (c.removeEach ks).run.Preserves (State.LivesBy l) := by
  induction ks with
  | nil => exact .pure _
  | cons k ks ih => exact Op.bind_preserves (c.remove_livesBy k) fun _ => ih

theorem removeAllEntries_livesBy : c.removeAllEntries.run.Preserves (State.LivesBy l) :=
  Op.bind_preserves checkAvailable_livesBy fun _ =>
    Op.bind_preserves (c.callStore_livesBy _) fun steps =>
      Op.bind_preserves (Op.lift_preserves (rawKeys_livesBy steps)) fun ks =>
        c.removeEach_livesBy ks

theorem seek_livesBy (cur : Cursor K V) (steps : List (RawStep K V)) :
    (Cursor.seek c cur steps).Preserves (State.LivesBy l) := by
  induction steps with
  | nil => exact .pure _
  | cons step rest ih =>
    obtain e | ⟨k, h⟩ := step
    · exact .pure _
    · refine .bind (c.lookup_livesBy k false) fun r => ?_
      rcases r with e | v | v
      · exact .pure _
      · exact ih
      · exact .pure _

theorem iterate_livesBy (quiet : Bool) : (c.iterate quiet).run.Preserves (State.LivesBy l) :=
  Op.bind_preserves checkAvailable_livesBy fun _ =>
    Op.bind_preserves (c.callStore_livesBy _) fun raw =>
      Op.lift_preserves (c.seek_livesBy { raw, quiet } raw)

theorem offer_livesBy (cur : Cursor K V) (e : Entry K V) :
    (cur.offer c e).Preserves (State.LivesBy l) := by
  unfold Cursor.offer
  cases cur.quiet
  · exact .bind (c.record_livesBy _) fun _ => .bind (c.seek_livesBy _ _) fun _ => .pure _
  · exact .bind (c.seek_livesBy _ _) fun _ => .pure _

theorem surface_livesBy (cur : Cursor K V) (held : HeldBack) :
    (cur.surface c held).Preserves (State.LivesBy l) := by
  intro s h
  cases held with
  | raw e =>
    cases hq : cur.quiet <;>
      simpa [Cursor.surface, hq, record, ExceptT.run, consult_apply, State.LivesBy] using h
  | decided e =>
    cases hq : cur.quiet <;> simpa [Cursor.surface, hq, record, State.LivesBy] using h

theorem nextEntry_livesBy (cur : Cursor K V) :
    (cur.nextEntry c).Preserves (State.LivesBy l) := by
  refine .bind checkAvailable_livesBy fun r => ?_
  cases r with
  | error e => exact .pure _
  | ok _ =>
    by_cases h : cur.terminated
    · simp only [h]
      exact .pure _
    · simp only [h]
      cases cur.ahead with
      | nothing => exact .pure _
      | entry e => exact c.offer_livesBy cur e
      | failure held => exact c.surface_livesBy cur held

theorem cursorRemove_livesBy (cur : Cursor K V) :
    (cur.remove c).Preserves (State.LivesBy l) := by
  refine .bind checkAvailable_livesBy fun r => ?_
  cases r with
  | error e => exact .pure _
  | ok _ =>
    cases cur.current with
    | none => exact .pure _
    | some k => exact .bind (c.remove_livesBy k) fun _ => .pure _

theorem step_livesBy (cur : Cursor K V) : (cur.step c).Preserves (State.LivesBy l) := by
  unfold Cursor.step
  by_cases h : cur.terminated
  · rw [if_pos h]
    exact .pure _
  · rw [if_neg h]
    refine .bind (c.nextEntry_livesBy cur) fun r => ?_
    obtain ⟨answer, cur'⟩ := r
    split <;> exact .pure _

/-! ## Many keys and calls -/

section

variable [DecidableEq K]

theorem getAllWith_livesBy (ks : List K) (includeAbsent : Bool) :
    (c.getAllWith ks includeAbsent).run.Preserves (State.LivesBy l) := by
  refine Op.bind_preserves checkAvailable_livesBy fun _ =>
    Op.bind_preserves (Op.lift_preserves (bulkCall_livesBy _ _ _)) fun r => ?_
  rcases r with ⟨e | computed, _⟩
  · exact Op.bind_preserves (c.resolveBulk_livesBy _ _ e) fun _ => .pure _
  · exact Op.bind_preserves (Op.lift_preserves (c.addBulk_livesBy _ _)) fun _ =>
      Op.bind_preserves (Op.lift_preserves (c.addBulk_livesBy _ _)) fun _ =>
        Op.bind_preserves (Op.lift_preserves (c.record_livesBy _)) fun _ => .pure _

theorem loadAll_livesBy (ks : List K) (replaceExisting : Bool) (loader : Loader K V) :
    (c.loadAll ks replaceExisting loader).run.Preserves (State.LivesBy l) := by
  refine Op.bind_preserves checkAvailable_livesBy fun _ => ?_
  split
  · exact .pure _
  · cases replaceExisting with
    | true =>
      refine Op.bind_preserves (Op.lift_preserves (bulkCall_livesBy _ _ _)) fun r => ?_
      rcases r with ⟨e | computed, _⟩ <;> exact .pure _
    | false =>
      refine Op.bind_preserves (Op.lift_preserves (bulkCall_livesBy _ _ _)) fun r => ?_
      rcases r with ⟨e | computed, _⟩ <;> exact .pure _

theorem complete_livesBy (call : Call K V) :
    ∀ r, (c.complete call r).Preserves (State.LivesBy l)
  | .ok _ => fun _ h => h
  | .error (.store e) => fun s h => by rw [complete_store]; exact h
  | .error (.function fault) => fun s h => by rw [complete_fault]; exact h

end

variable [DecidableEq K] [BEq V]

theorem serve_livesBy (call : Call K V) : (c.serve call).run.Preserves (State.LivesBy l) := by
  rw [serve_eq]
  refine Op.bind_preserves checkAvailable_livesBy fun _ => .bind (fun s h => ?_) fun _ =>
    c.complete_livesBy call _
  rw [ask_keeps]
  exact h

/-! ## Uses -/

omit [DecidableEq K] [BEq V] in
/-- An operation that leaves the lifecycle alone does so in a world. -/
theorem onCache_lifecycle {x : Action (State σ) (Event K V) α}
    (h : ∀ l, x.Preserves (State.LivesBy l)) (w : World σ K V) :
    (onCache x w).state.cache.lifecycle = w.cache.lifecycle := by
  rw [onCache_apply]
  exact h _ w.cache rfl

omit [DecidableEq K] [BEq V] in
theorem onWalk_lifecycle {i : Nat}
    {x : Cursor K V → Action (State σ) (Event K V) (α × Cursor K V)}
    (h : ∀ cur l, (x cur).Preserves (State.LivesBy l)) (w : World σ K V) :
    (onWalk i x w).state.cache.lifecycle = w.cache.lifecycle := by
  rw [onWalk_apply]
  exact h _ _ w.cache rfl

/-- No use touches the lifecycle. -/
theorem use_lifecycle (u : Use K V) (w : World σ K V) :
    (c.use u w).state.cache.lifecycle = w.cache.lifecycle := by
  cases u with
  | call operation => exact onCache_lifecycle (fun _ => c.serve_livesBy operation) w
  | removeKey k => exact onCache_lifecycle (fun _ => c.removeKey_livesBy k) w
  | getAllWith ks includeAbsent =>
    exact onCache_lifecycle (fun _ => c.getAllWith_livesBy ks includeAbsent) w
  | loadAll ks replaceExisting loader =>
    exact onCache_lifecycle (fun _ => c.loadAll_livesBy ks replaceExisting loader) w
  | removeAllEntries => exact onCache_lifecycle (fun _ => c.removeAllEntries_livesBy) w
  | iterate i quiet =>
    rw [use, beginWalk_cache]
    exact c.iterate_livesBy quiet w.cache rfl
  | hasNext i =>
    exact onWalk_lifecycle (fun cur _ => .bind (Op.bind_preserves checkAvailable_livesBy
      fun _ => .pure _) fun _ => .pure _) w
  | nextEntry i => exact onWalk_lifecycle (fun cur _ => c.nextEntry_livesBy cur) w
  | remove i => exact onWalk_lifecycle (fun cur _ => c.cursorRemove_livesBy cur) w

end Cache

end ResilientCache
