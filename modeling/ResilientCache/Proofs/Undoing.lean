import ResilientCache.Proofs.Hooks

/-!
# Transitions run hooks, and undo them

`hookRuns` lists which hooks ran among some events, in which transition and how each ended. A walk
over hooks runs those before the first that fails, and that one; it then runs those before it the
other way round, in the opposite transition. How the hooks end while they are undone is of no
account: every one of them has its turn, and the reported failure is that of the walk.

The hooks are split at the failing one: those `before` it ran and are undone, those `after` it
never ran, and it ran but is not undone. `close` walks the registry backwards, so there the parts
change places.

Headlines:
* `undoHooks_runs`, `runHooks_past`: what a walk adds to the hooks that ran.
* `runHooks_all`, `runHooks_upTo`: a walk that reaches its end, and one that a hook stops.
* **`Lifecycle.transitions_roll_back`**: both transitions, with and without a failing hook, and in
  the wrong status.
-/

namespace ResilientCache

variable {K V τ : Type}

/-! ## Hooks that ran -/

/-- A hook ran in a transition, and ended in a result. -/
structure HookRun where
  transition : Transition
  hook : HookName
  result : Except Fault Unit

/-- The hooks that ran among events, in order. -/
def hookRuns (es : List (Event K V)) : List HookRun :=
  es.filterMap fun
    | .hookRan t hook result => some ⟨t, hook, result⟩
    | _ => none

@[simp] theorem hookRuns_append (es es' : List (Event K V)) :
    hookRuns (es ++ es') = hookRuns es ++ hookRuns es' := List.filterMap_append

@[simp] theorem hookRuns_nil : hookRuns ([] : List (Event K V)) = [] := rfl

@[simp] theorem hookRuns_note (n : Note K V) (es : List (Event K V)) :
    hookRuns (.note n :: es) = hookRuns es := rfl

@[simp] theorem hookRuns_hookRan (t : Transition) (hook : HookName) (result : Except Fault Unit)
    (es : List (Event K V)) :
    hookRuns (.hookRan t hook result :: es) = ⟨t, hook, result⟩ :: hookRuns es := rfl

/-- The run of a hook in a transition. -/
def HookTable.run (table : HookTable) (t : Transition) (hook : HookName) : HookRun :=
  ⟨t, hook, table hook t⟩

/-! ## Walks over hooks -/

variable (table : HookTable) (t : Transition)

/-- Undoing runs every hook once, in the given order, however any of them ends. -/
theorem undoHooks_runs (hooks : List HookName) (s : τ) :
    hookRuns (undoHooks table t hooks s : Run τ (Event K V) Unit).events =
      hooks.map (table.run t.undo) := by
  induction hooks with
  | nil => rfl
  | cons hook rest ih =>
    simp only [undoHooks, runHook, Action.bind_apply, Action.tell_apply, Action.pure_apply]
    cases hr : table hook t.undo with
    | ok u => simp [HookTable.run, hr, ih]
    | error fault => simp [HookTable.run, hr, ih]

/-- The walk goes on past hooks that end well, and remembers them, the latest first. -/
theorem runHooks_past {before : List HookName} (hbefore : ∀ hook ∈ before, table hook t = .ok ())
    (rest : List HookName) (s : τ) : ∀ ran : List HookName,
    let r : Run τ (Event K V) _ := runHooks table t ran (before ++ rest) s
    let r' : Run τ (Event K V) _ := runHooks table t (before.reverse ++ ran) rest s
    r.answer = r'.answer ∧
      hookRuns r.events = before.map (table.run t) ++ hookRuns r'.events := by
  induction before with
  | nil => exact fun _ => ⟨rfl, rfl⟩
  | cons hook before ih =>
    obtain ⟨hhook, hbefore⟩ := List.forall_mem_cons.mp hbefore
    intro ran
    obtain ⟨hanswer, hruns⟩ := ih hbefore (hook :: ran)
    simp only [List.cons_append, runHooks, runHook, Action.bind_apply, Action.tell_apply,
      Action.pure_apply, hhook, List.append_nil, List.reverse_cons, List.append_assoc]
    exact ⟨hanswer, by simpa [HookTable.run, hhook] using hruns⟩

/-- A walk in which every hook ends well runs each of them once, and undoes none. -/
theorem runHooks_all {hooks : List HookName} (h : ∀ hook ∈ hooks, table hook t = .ok ()) (s : τ) :
    let r : Run τ (Event K V) _ := runHooks table t [] hooks s
    r.answer = .ok () ∧ hookRuns r.events = hooks.map (table.run t) := by
  have hpast := runHooks_past table t (K := K) (V := V) h [] s []
  simpa [runHooks] using hpast

/-- A walk stops at the first hook that fails. It has run that hook and those before it, and undoes
those before it, the latest first. -/
theorem runHooks_upTo {before : List HookName} {hook : HookName} {fault : Fault}
    (hbefore : ∀ hook ∈ before, table hook t = .ok ()) (hhook : table hook t = .error fault)
    (after : List HookName) (s : τ) :
    let r : Run τ (Event K V) _ := runHooks table t [] (before ++ hook :: after) s
    r.answer = .error fault ∧
      hookRuns r.events =
        (before ++ [hook]).map (table.run t) ++ before.reverse.map (table.run t.undo) := by
  obtain ⟨hanswer, hruns⟩ := runHooks_past table t (K := K) (V := V) hbefore (hook :: after) s []
  simp only [runHooks, runHook, Action.bind_apply, Action.tell_apply, Action.pure_apply, hhook,
    List.append_nil] at hanswer hruns ⊢
  refine ⟨hanswer, hruns.trans ?_⟩
  simp [HookTable.run, hhook, undoHooks_runs]

namespace Lifecycle

/-! ## Transitions -/

/-- In the wrong status a transition is refused before any hook runs. -/
theorem move_refused (l : Lifecycle) (hs : l.status ≠ t.source) :
    let r : Run Lifecycle (Event K V) _ := move table t l
    r.answer =
        .error (.illegalState ("cannot " ++ t.verb ++ " a cache that is " ++ l.status.name)) ∧
      r.state = l ∧ hookRuns r.events = [] := by
  simp [move, hs]

/-- A transition in which every hook ends well moves the status on. -/
theorem move_all (l : Lifecycle) (hs : l.status = t.source)
    (h : ∀ hook ∈ l.hooks, table hook t = .ok ()) :
    let r : Run Lifecycle (Event K V) _ := move table t l
    r.answer = .ok () ∧ r.state = { l with status := t.target } ∧
      hookRuns r.events = (t.order l.hooks).map (table.run t) := by
  have horder : ∀ hook ∈ t.order l.hooks, table hook t = .ok () := by
    cases t with
    | init => exact h
    | close => exact fun hook hmem => h hook (List.mem_reverse.mp hmem)
  obtain ⟨hanswer, hruns⟩ := runHooks_all table t (K := K) (V := V) horder l
  simp [move, hs, hanswer, hruns]

/-- A transition in which a hook fails leaves everything as it was. -/
theorem move_upTo (l : Lifecycle) (hs : l.status = t.source) {before after : List HookName}
    {hook : HookName} {fault : Fault} (hsplit : t.order l.hooks = before ++ hook :: after)
    (hbefore : ∀ hook ∈ before, table hook t = .ok ()) (hhook : table hook t = .error fault) :
    let r : Run Lifecycle (Event K V) _ := move table t l
    r.answer = .error (.lifecycle t fault) ∧ r.state = l ∧
      hookRuns r.events =
        (before ++ [hook]).map (table.run t) ++ before.reverse.map (table.run t.undo) := by
  obtain ⟨hanswer, hruns⟩ := runHooks_upTo table t (K := K) (V := V) hbefore hhook after l
  rw [← hsplit] at hanswer hruns
  simp [move, hs, hanswer, hruns]

/-- **Transitions run their hooks in order, and undo them when one fails**, whatever each hook does
in either direction. `init` of an uninitialized cache runs the hooks in the order of registration up
to the first that fails, then closes those before it, the last first; `close` of an available cache
runs them the other way round up to the first that fails, then inits those after it, in the order
of registration. Hooks that fail while they are undone stop nothing. The error is that of the first
hook that failed, and the cache is as it was. When no hook fails each runs once and the status moves
on; in the wrong status none runs and nothing changes. -/
theorem transitions_roll_back (table : HookTable) (l : Lifecycle) :
    (∀ t : Transition, l.status ≠ t.source →
      let r : Run Lifecycle (Event K V) _ := move table t l
      r.answer =
          .error (.illegalState ("cannot " ++ t.verb ++ " a cache that is " ++ l.status.name)) ∧
        r.state = l ∧ hookRuns r.events = []) ∧
    (∀ t : Transition, l.status = t.source → (∀ hook ∈ l.hooks, table hook t = .ok ()) →
      let r : Run Lifecycle (Event K V) _ := move table t l
      r.answer = .ok () ∧ r.state = { l with status := t.target } ∧
        hookRuns r.events = (t.order l.hooks).map (table.run t)) ∧
    ∀ (before : List HookName) (hook : HookName) (after : List HookName) (fault : Fault),
      l.hooks = before ++ hook :: after →
      (l.status = .uninitialized → (∀ first ∈ before, table first .init = .ok ()) →
        table hook .init = .error fault →
        let r : Run Lifecycle (Event K V) _ := move table .init l
        r.answer = .error (.lifecycle .init fault) ∧ r.state = l ∧
          hookRuns r.events =
            (before ++ [hook]).map (table.run .init) ++
              before.reverse.map (table.run .close)) ∧
      (l.status = .available → (∀ last ∈ after, table last .close = .ok ()) →
        table hook .close = .error fault →
        let r : Run Lifecycle (Event K V) _ := move table .close l
        r.answer = .error (.lifecycle .close fault) ∧ r.state = l ∧
          hookRuns r.events =
            (hook :: after).reverse.map (table.run .close) ++ after.map (table.run .init)) := by
  refine ⟨fun t => move_refused table t l, fun t => move_all table t l,
    fun before hook after fault hsplit => ⟨fun hs hbefore hhook => ?_, fun hs hafter hhook => ?_⟩⟩
  · exact move_upTo table .init l hs hsplit hbefore hhook
  · -- the hooks after the failing one are those that `close` ran before it
    have horder : Transition.close.order l.hooks = after.reverse ++ hook :: before.reverse := by
      simp [Transition.order, hsplit]
    have hlast : ∀ last ∈ after.reverse, table last .close = .ok () :=
      fun last hmem => hafter last (List.mem_reverse.mp hmem)
    have hmove := move_upTo table .close l (K := K) (V := V) hs horder hlast hhook
    rw [List.reverse_reverse] at hmove
    rw [List.reverse_cons]
    exact hmove

/-- The second of four hooks fails to close. The third, which had closed, fails to open again; the
fourth is opened again all the same. -/
theorem transitions_roll_back_close :
    let table : HookTable := fun hook t =>
      match hook, t with
      | "b", .close => .error (.text "down")
      | "c", .init => .error (.text "gone")
      | _, _ => .ok ()
    let l : Lifecycle := { status := .available, hooks := ["a", "b", "c", "d"] }
    let r : Run Lifecycle (Event Nat Nat) _ := move table .close l
    r.answer = .error (.lifecycle .close (.text "down")) ∧ r.state = l ∧
      hookRuns r.events =
        [⟨.close, "d", .ok ()⟩, ⟨.close, "c", .ok ()⟩, ⟨.close, "b", .error (.text "down")⟩,
          ⟨.init, "c", .error (.text "gone")⟩, ⟨.init, "d", .ok ()⟩] := by
  intro table l
  exact ((transitions_roll_back table l).2.2 ["a"] "b" ["c", "d"] (.text "down") rfl).2 rfl
    (by decide) rfl

end Lifecycle

end ResilientCache
