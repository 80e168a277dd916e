import ResilientCache.Cache.Load

/-!
# What actions tell and keep

`x.Tells P` says that every event an action tells, from whatever state it runs, satisfies `P`;
`x.Preserves I` says that it keeps an invariant of its state. The lemmas follow the ways in which
actions are put together, dialogues included; from them come the facts the operations rest on: the
functions that a cache hands to its store tell notes only (`Event.IsNote`), and so do the bulk calls
that run them, however often the store calls its function. Bulk loads and the lifecycle may tell
more, but they neither record outcomes nor consult the strategy (`Event.IsSilent`).
-/

namespace ResilientCache

variable {σ τ ε ε' Q A K V α β : Type}

/-! ## Telling -/

/-- Every event an action tells satisfies `P`. -/
def Action.Tells (P : ε → Prop) (x : Action σ ε α) : Prop := ∀ s, ∀ e ∈ (x s).events, P e

namespace Action.Tells

variable {P : ε → Prop}

theorem pure (a : α) : (Pure.pure a : Action σ ε α).Tells P := fun _ _ h => absurd h (by simp)

theorem read (f : σ → α) : (Action.read f : Action σ ε α).Tells P :=
  fun _ _ h => absurd h (by simp)

theorem change (f : σ → σ) : (Action.change f : Action σ ε Unit).Tells P :=
  fun _ _ h => absurd h (by simp)

theorem set (s : σ) : (Action.set s : Action σ ε Unit).Tells P := fun _ _ h => absurd h (by simp)

theorem tell {e : ε} (h : P e) : (Action.tell e : Action σ ε Unit).Tells P := by
  intro s e' he
  rw [tell_apply, List.mem_singleton] at he
  exact he ▸ h

theorem bind {x : Action σ ε α} {f : α → Action σ ε β} (hx : x.Tells P) (hf : ∀ a, (f a).Tells P) :
    (x >>= f).Tells P := by
  intro s e he
  rw [bind_apply, List.mem_append] at he
  rcases he with he | he
  · exact hx s e he
  · exact hf _ _ e he

theorem within {P' : ε' → Prop} {x : Action τ ε' α} (hx : x.Tells P') (part : σ → τ)
    (put : σ → τ → σ) {event : ε' → ε} (h : ∀ e, P' e → P (event e)) :
    (x.within part put event).Tells P := by
  intro s e he
  obtain ⟨e', he', rfl⟩ := List.mem_map.mp he
  exact h e' (hx _ e' he')

theorem mapM {f : α → Action σ ε β} (hf : ∀ a, (f a).Tells P) :
    ∀ l : List α, (l.mapM f).Tells P
  | [] => by rw [List.mapM_nil]; exact pure _
  | a :: l => by
    rw [List.mapM_cons]
    exact bind (hf a) fun _ => bind (mapM hf l) fun _ => pure _

/-- A dialogue tells its notes and what its questions are answered with. -/
theorem run {event : ε' → ε} {reply : Q → Action τ ε A} (hn : ∀ n, P (event n))
    (hr : ∀ q, (reply q).Tells P) : ∀ d : Dialogue Q A ε' α, (d.run event reply).Tells P
  | .done a => pure a
  | .tell notes next => by
    intro t e he
    rw [Dialogue.run_tell, List.mem_append] at he
    rcases he with he | he
    · obtain ⟨n, -, rfl⟩ := List.mem_map.mp he
      exact hn n
    · exact run hn hr next t e he
  | .ask q next => bind (hr q) fun a => run hn hr (next a)

end Action.Tells

/-! ## Preserving -/

/-- An action keeps an invariant of its state. -/
def Action.Preserves (I : σ → Prop) (x : Action σ ε α) : Prop := ∀ s, I s → I (x s).state

namespace Action.Preserves

variable {I : σ → Prop}

theorem pure (a : α) : (Pure.pure a : Action σ ε α).Preserves I := fun _ h => h

theorem read (f : σ → α) : (Action.read f : Action σ ε α).Preserves I := fun _ h => h

theorem change {f : σ → σ} (h : ∀ s, I s → I (f s)) :
    (Action.change f : Action σ ε Unit).Preserves I := h

theorem set {s : σ} (h : I s) : (Action.set s : Action σ ε Unit).Preserves I := fun _ _ => h

theorem bind {x : Action σ ε α} {f : α → Action σ ε β} (hx : x.Preserves I)
    (hf : ∀ a, (f a).Preserves I) : (x >>= f).Preserves I :=
  fun s h => hf _ _ (hx s h)

theorem mapM {f : α → Action σ ε β} (hf : ∀ a, (f a).Preserves I) :
    ∀ l : List α, (l.mapM f).Preserves I
  | [] => by rw [List.mapM_nil]; exact pure _
  | a :: l => by
    rw [List.mapM_cons]
    exact bind (hf a) fun _ => bind (mapM hf l) fun _ => pure _

theorem discard {x : Action σ ε α} (hx : x.Preserves I) :
    (Functor.discard x : Action σ ε Unit).Preserves I :=
  bind hx fun _ => pure _

theorem forM {f : α → Action σ ε Unit} (hf : ∀ a, (f a).Preserves I) :
    ∀ l : List α, (l.forM f).Preserves I
  | [] => pure _
  | a :: l => bind (hf a) fun _ => forM hf l

/-- A dialogue keeps what the answers to its questions keep. -/
theorem run {event : ε' → ε} {reply : Q → Action σ ε A} (hr : ∀ q, (reply q).Preserves I) :
    ∀ d : Dialogue Q A ε' α, (d.run event reply).Preserves I
  | .done a => pure a
  | .tell _ next => fun s h => run hr next s h
  | .ask q next => bind (hr q) fun a => run hr (next a)

end Action.Preserves

/-! ## Notes -/

/-- An event that is a note of the store, of a policy or of the log. -/
def Event.IsNote : Event K V → Prop
  | .note _ => True
  | _ => False

/-- An event that neither records an outcome nor consults the strategy. -/
def Event.IsSilent : Event K V → Prop
  | .recorded _ => False
  | .consulted _ _ => False
  | _ => True

theorem Event.IsNote.isSilent {e : Event K V} (h : e.IsNote) : e.IsSilent := by
  cases e <;> trivial

namespace Cache

theorem Op.bind_tells {P : Event K V → Prop} {x : Op σ K V α} {f : α → Op σ K V β}
    (hx : x.run.Tells P) (hf : ∀ a, (f a).run.Tells P) : (x >>= f).run.Tells P := by
  refine .bind hx fun r => ?_
  cases r with
  | ok a => exact hf a
  | error e => exact .pure _

theorem Op.lift_tells {P : Event K V → Prop} {x : Action (State σ) (Event K V) α}
    (hx : x.Tells P) : (liftM x : Op σ K V α).run.Tells P :=
  .bind hx fun _ => .pure _

theorem onStore_tells (x : Action σ (Note K V) α) : (onStore x).Tells Event.IsNote := by
  intro s e he
  obtain ⟨n, -, rfl⟩ := List.mem_map.mp he
  trivial

theorem bulkCall_tells {P : Event K V → Prop} (hn : ∀ n, P (.note n))
    {reply : Q → Action τ (Event K V) (Except Fault (Mappings K V))} (hr : ∀ q, (reply q).Tells P)
    (call : σ → BulkCall σ Q K V) (start : τ) : (bulkCall call reply start).Tells P :=
  fun s => Action.Tells.run hn hr (call s.store) start

theorem deadOnArrival_tells (c : Cache σ K V) (k : K) (old? : Option V) (new : V) :
    (c.deadOnArrival k old? new : Action τ (Event K V) Bool).Tells Event.IsNote := by
  intro s e he
  obtain ⟨n, -, rfl⟩ := List.mem_map.mp he
  trivial

theorem accept_tells (c : Cache σ K V) (k : K) (old? : Option (Handle V)) (v : Handle V) :
    (c.accept k old? v : Action τ (Event K V) _).Tells Event.IsNote :=
  .bind (c.deadOnArrival_tells _ _ _) fun _ => .pure _

theorem keepOrAccept_tells (c : Cache σ K V) (k : K) (v : Handle V) :
    ∀ current, (c.keepOrAccept k v current).Tells Event.IsNote
  | some _ => .bind (.set _) fun _ => .pure _
  | none => c.accept_tells _ _ _

theorem acceptOver_tells (c : Cache σ K V) (k : K) (v : Handle V) :
    ∀ current, (c.acceptOver k v current).Tells Event.IsNote
  | some _ => .bind (c.accept_tells _ _ _) fun _ => .bind (.set _) fun _ => .pure _
  | none => .pure _

theorem remapEach_tells {remap : Option (Handle V) → Action τ (Event K V) (Option (Handle V))}
    (h : ∀ current, (remap current).Tells Event.IsNote) (batch : Mappings K V) :
    (remapEach remap batch).Tells Event.IsNote :=
  .bind (.mapM (fun _ => .bind (h _) fun _ => .pure _) _) fun _ => .pure _

theorem computeOne_tells (c : Cache σ K V) (k : K)
    {remap : Option (Handle V) → Action τ (Event K V) (Option (Handle V))}
    (h : ∀ current, (remap current).Tells Event.IsNote) (start : τ) :
    (c.computeOne k remap start).Tells Event.IsNote :=
  .bind (bulkCall_tells (fun _ => trivial) (remapEach_tells h) _ _) fun _ => .pure _

/-- What the function of a single key keeps is kept by the store call that runs it. -/
theorem computeOne_preserves (c : Cache σ K V) (k : K)
    {remap : Option (Handle V) → Action τ (Event K V) (Option (Handle V))} {I : τ → Prop}
    (h : ∀ current, (remap current).Preserves I) (start : τ) (hs : I start) (s : State σ) :
    I (c.computeOne k remap start s).answer.2 :=
  Action.Preserves.run (fun batch : Mappings K V =>
    .bind (.mapM (fun _ => .bind (h _) fun _ => .pure _) batch) fun _ => .pure _)
    (c.store.bulkCompute [k] s.store) start hs

section

variable [BEq V]

theorem dropEqual_tells (value : V) :
    ∀ current, (dropEqual value current : Action _ (Event K V) _).Tells Event.IsNote
  | none => .bind (.set _) fun _ => .pure _
  | some current => by
    by_cases h : current.value == value
    · simp only [dropEqual, if_pos h]
      exact .bind (.set _) fun _ => .pure _
    · simp only [dropEqual, if_neg h]
      exact .bind (.set _) fun _ => .pure _

theorem acceptEqual_tells (c : Cache σ K V) (k : K) (old : V) (new : Handle V) :
    ∀ current, (c.acceptEqual k old new current).Tells Event.IsNote
  | none => .bind (.set _) fun _ => .pure _
  | some current => by
    by_cases h : current.value == old
    · simp only [acceptEqual, if_pos h]
      exact .bind (.set _) fun _ => c.accept_tells _ _ _
    · simp only [acceptEqual, if_neg h]
      exact .bind (.set _) fun _ => .pure _

end

section

variable [DecidableEq K]

theorem putPending_tells (c : Cache σ K V) (held : K × Option (Handle V)) :
    (c.putPending held).Tells Event.IsNote := by
  obtain ⟨k, existing⟩ := held
  refine .bind (.read _) fun pending => ?_
  cases pending.get? k with
  | none => exact .pure _
  | some v =>
    refine .bind (.change _) fun _ => .bind (c.accept_tells _ _ _) fun next => ?_
    cases next with
    | none => exact .pure _
    | some v => exact .bind (.change _) fun _ => .pure _

end

/-! ## Silence -/

/-- A bulk load neither records nor consults, available or not. -/
theorem loadAll_silent [DecidableEq K] (c : Cache σ K V) (ks : List K) (replaceExisting : Bool)
    (loader : Loader K V) : (c.loadAll ks replaceExisting loader).run.Tells Event.IsSilent := by
  have load (batch : List K) : (callLoader loader batch).Tells Event.IsSilent :=
    .bind (.tell trivial) fun _ => .pure _
  refine Op.bind_tells (.read _) fun _ => ?_
  split
  · exact .pure _
  cases replaceExisting with
  | true =>
    refine Op.bind_tells (Op.lift_tells (bulkCall_tells (fun _ => trivial) (fun _ => load _) _ _))
      fun r => ?_
    rcases r with ⟨e | computed, _⟩ <;> exact .pure _
  | false =>
    refine Op.bind_tells (Op.lift_tells (bulkCall_tells (fun _ => trivial) (fun _ => load _) _ _))
      fun r => ?_
    rcases r with ⟨e | computed, _⟩ <;> exact .pure _

theorem onLifecycle_tells {x : Action Lifecycle (Event K V) α} {P : Event K V → Prop}
    (hx : x.Tells P) : (onLifecycle x : Action (State σ) (Event K V) α).Tells P :=
  .within hx _ _ fun _ h => h

/-! ## The lifecycle -/

section

variable {P : Event K V → Prop}

theorem undoHooks_tells (hl : ∀ entry, P (.note (.logged entry)))
    (hh : ∀ t hook result, P (.hookRan t hook result)) (table : HookTable) (t : Transition) :
    ∀ hooks, (undoHooks table t hooks : Action τ (Event K V) Unit).Tells P
  | [] => .pure _
  | hook :: rest => by
    refine .bind (.bind (.tell (hh _ _ _)) fun _ => .pure _) fun r => ?_
    cases r with
    | ok _ => exact undoHooks_tells hl hh table t rest
    | error fault => exact .bind (.tell (hl _)) fun _ => undoHooks_tells hl hh table t rest

theorem runHooks_tells (hl : ∀ entry, P (.note (.logged entry)))
    (hh : ∀ t hook result, P (.hookRan t hook result)) (table : HookTable) (t : Transition) :
    ∀ (ran hooks : List HookName), (runHooks table t ran hooks : Action τ (Event K V) _).Tells P
  | _, [] => .pure _
  | ran, hook :: rest => by
    refine .bind (.bind (.tell (hh _ _ _)) fun _ => .pure _) fun r => ?_
    cases r with
    | ok _ => exact runHooks_tells hl hh table t (hook :: ran) rest
    | error fault =>
      exact .bind (.tell (hl _)) fun _ =>
        .bind (undoHooks_tells hl hh table t ran) fun _ => .pure _

/-- A transition logs and runs hooks, and nothing else. -/
theorem move_tells (hl : ∀ entry, P (.note (.logged entry)))
    (hh : ∀ t hook result, P (.hookRan t hook result)) (table : HookTable) (t : Transition) :
    (Lifecycle.move table t : Action _ (Event K V) _).Tells P := by
  refine .bind (.read _) fun l => ?_
  split
  · exact .pure _
  · refine .bind (.tell (hl _)) fun _ => .bind (runHooks_tells hl hh table t _ _) fun r => ?_
    cases r with
    | error fault => exact .pure _
    | ok _ => exact .bind (.change _) fun _ => .bind (.tell (hl _)) fun _ => .pure _

/-- A change of the registry tells nothing. -/
theorem addHook_tells (hook : HookName) :
    (Lifecycle.addHook hook : Action _ (Event K V) _).Tells P := by
  refine .bind (.read _) fun r => ?_
  cases r with
  | error e => exact .pure _
  | ok _ => exact .bind (.change _) fun _ => .pure _

theorem removeHook_tells (hook : HookName) :
    (Lifecycle.removeHook hook : Action _ (Event K V) _).Tells P := by
  refine .bind (.read _) fun r => ?_
  cases r with
  | error e => exact .pure _
  | ok _ => exact .bind (.read _) fun _ => .bind (.change _) fun _ => .pure _

end

theorem move_silent (table : HookTable) (t : Transition) :
    (Lifecycle.move table t : Action _ (Event K V) _).Tells Event.IsSilent :=
  move_tells (fun _ => trivial) (fun _ _ _ => trivial) table t

end Cache

end ResilientCache
