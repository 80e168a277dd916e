import Mathlib.Data.List.Nodup
import ResilientCache.Lifecycle

/-!
# Hooks are closed as often as they were opened

`successes t hook es` counts how often a hook ended a transition well. A `Lifecycle.Step` is a
transition, with what the hooks do in it, or a change of the registry; `Lifecycle.walk` takes steps
one after the other.

A transition that fails leaves somewhere along its hooks and undoes those that ran. While the walk
is under way nothing is balanced; what holds at every place of it is that the hooks in `ran` are the
ones still to be undone (`runHooks_error`). Undoing runs the opposite transition, so a hook that
ran in the one and was undone counts once on either side.

Headlines:
* `move_cases`: the three ways a transition ends.
* `runHooks_ok`, `runHooks_error`: what a walk over the hooks adds to their counts.
* **`hooks_balanced`**: at every moment the registered hooks of an available cache were opened once
  more than they were closed, and all others as often as they were closed.
-/

namespace ResilientCache

variable {K V τ : Type}

/-! ## Counting -/

/-- An event in which a hook ended a transition well. -/
def Event.isSuccess (t : Transition) (hook : HookName) : Event K V → Bool
  | .hookRan t' hook' (.ok ()) => t' = t && hook' = hook
  | _ => false

/-- How often a hook ended a transition well. -/
def successes (t : Transition) (hook : HookName) (es : List (Event K V)) : Nat :=
  es.countP (Event.isSuccess t hook)

section

variable (t : Transition) (hook : HookName)

@[simp] theorem successes_nil : successes t hook ([] : List (Event K V)) = 0 := rfl

@[simp] theorem successes_append (es es' : List (Event K V)) :
    successes t hook (es ++ es') = successes t hook es + successes t hook es' :=
  List.countP_append

@[simp] theorem successes_note (n : Note K V) (es : List (Event K V)) :
    successes t hook (.note n :: es) = successes t hook es := by
  simp [successes, Event.isSuccess]

@[simp] theorem successes_error (t' : Transition) (hook' : HookName) (fault : Fault)
    (es : List (Event K V)) :
    successes t hook (.hookRan t' hook' (.error fault) :: es) = successes t hook es := by
  simp [successes, Event.isSuccess]

/-- A success in another transition does not count. -/
theorem successes_ok_of_ne {t' : Transition} (ht : t' ≠ t) (hook' : HookName) (u : Unit)
    (es : List (Event K V)) :
    successes t hook (.hookRan t' hook' (.ok u) :: es) = successes t hook es := by
  simp [successes, Event.isSuccess, ht]

/-- A success counts as its hook does among some hooks. -/
theorem successes_ok_add_count (first : HookName) (u : Unit) (hooks : List HookName)
    (es : List (Event K V)) :
    successes t hook (.hookRan t first (.ok u) :: es) + hooks.count hook =
      successes t hook es + (first :: hooks).count hook := by
  rw [successes, successes, List.countP_cons, List.count_cons]
  by_cases hf : first = hook
  · simp [Event.isSuccess, hf]
    omega
  · simp [Event.isSuccess, hf]

end

theorem Transition.undo_ne (t : Transition) : t.undo ≠ t := by cases t <;> decide

/-! ## Walks over hooks -/

/-- An event in which a hook failed while it was run to undo a transition. -/
def Event.isFailedUndo (t : Transition) : Event K V → Bool
  | .hookRan t' _ (.error _) => t' = t.undo
  | _ => false

/-- Among some events, every hook that ran to undo a transition ended well. -/
def UndoneWell (t : Transition) (es : List (Event K V)) : Prop :=
  ∀ e ∈ es, ¬ e.isFailedUndo t

instance (t : Transition) (es : List (Event K V)) : Decidable (UndoneWell t es) :=
  inferInstanceAs (Decidable (∀ e ∈ es, ¬ e.isFailedUndo t))

theorem UndoneWell.of_cons {t : Transition} {e : Event K V} {es : List (Event K V)}
    (h : UndoneWell t (e :: es)) : UndoneWell t es :=
  (List.forall_mem_cons.1 h).2

variable (table : HookTable) (t : Transition)

/-- A walk that undoes hooks changes nothing but what it tells. -/
@[simp] theorem undoHooks_state (hooks : List HookName) (s : τ) :
    (undoHooks table t hooks s : Run τ (Event K V) Unit).state = s := by
  induction hooks with
  | nil => rfl
  | cons hook rest ih =>
    simp only [undoHooks, runHook, Action.bind_apply, Action.tell_apply, Action.pure_apply]
    cases table hook t.undo with
    | ok u => exact ih
    | error fault => exact ih

@[simp] theorem runHooks_state (ran hooks : List HookName) (s : τ) :
    (runHooks table t ran hooks s : Run τ (Event K V) _).state = s := by
  induction hooks generalizing ran with
  | nil => rfl
  | cons hook rest ih =>
    simp only [runHooks, runHook, Action.bind_apply, Action.tell_apply, Action.pure_apply]
    cases table hook t with
    | ok u => exact ih (hook :: ran)
    | error fault => simp

/-- Hooks that are undone, and end well in it, are each counted once. -/
theorem undoHooks_successes (hooks : List HookName) (s : τ) (hook : HookName)
    (h : UndoneWell t (undoHooks table t hooks s : Run τ (Event K V) Unit).events) :
    successes t hook (undoHooks table t hooks s : Run τ (Event K V) Unit).events = 0 ∧
      successes t.undo hook (undoHooks table t hooks s : Run τ (Event K V) Unit).events =
        hooks.count hook := by
  induction hooks with
  | nil => exact ⟨rfl, rfl⟩
  | cons first rest ih =>
    simp only [undoHooks, runHook, Action.bind_apply, Action.tell_apply, Action.pure_apply] at h ⊢
    cases hr : table first t.undo with
    | error fault =>
      -- a hook that fails while it is undone is what `UndoneWell` rules out
      rw [hr] at h
      exact absurd (decide_eq_true rfl) (h _ List.mem_cons_self)
    | ok u =>
      simp only [hr, List.append_nil, List.singleton_append] at h ⊢
      obtain ⟨hforth, hback⟩ := ih h.of_cons
      have hcount := successes_ok_add_count t.undo hook first u rest
        (undoHooks table t rest s : Run τ (Event K V) Unit).events
      constructor
      · rw [successes_ok_of_ne t hook t.undo_ne, hforth]
      · omega

/-- A walk that reaches its end has run every hook once, and undone none. -/
theorem runHooks_ok (hook : HookName) (s : τ) (hooks : List HookName) :
    ∀ ran, (runHooks table t ran hooks s : Run τ (Event K V) _).answer = .ok () →
      let es := (runHooks table t ran hooks s : Run τ (Event K V) _).events
      successes t hook es = hooks.count hook ∧ successes t.undo hook es = 0 := by
  induction hooks with
  | nil => exact fun _ _ => ⟨rfl, rfl⟩
  | cons first rest ih =>
    intro ran h
    simp only [runHooks, runHook, Action.bind_apply, Action.tell_apply, Action.pure_apply] at h ⊢
    cases hr : table first t with
    | error fault =>
      rw [hr] at h
      cases h
    | ok u =>
      simp only [hr, List.append_nil, List.singleton_append] at h ⊢
      obtain ⟨hforth, hback⟩ := ih (first :: ran) h
      have hcount := successes_ok_add_count t hook first u rest
        (runHooks table t (first :: ran) rest s : Run τ (Event K V) _).events
      constructor
      · omega
      · rw [successes_ok_of_ne t.undo hook t.undo_ne.symm, hback]

/-- A walk that fails has undone what it ran, and also the hooks that ran before it began. -/
theorem runHooks_error (hook : HookName) (s : τ) (fault : Fault) (hooks : List HookName) :
    ∀ ran, (runHooks table t ran hooks s : Run τ (Event K V) _).answer = .error fault →
      let es := (runHooks table t ran hooks s : Run τ (Event K V) _).events
      UndoneWell t es → successes t.undo hook es = successes t hook es + ran.count hook := by
  induction hooks with
  | nil => exact fun _ h => nomatch h
  | cons first rest ih =>
    intro ran h
    simp only [runHooks, runHook, Action.bind_apply, Action.tell_apply, Action.pure_apply] at h ⊢
    cases hr : table first t with
    | error fault' =>
      simp only [Action.bind_apply, Action.tell_apply, Action.pure_apply, List.append_nil,
        List.singleton_append]
      intro hundone
      obtain ⟨hforth, hback⟩ := undoHooks_successes table t ran s hook hundone.of_cons.of_cons
      simp [hforth, hback]
    | ok u =>
      simp only [hr, List.append_nil, List.singleton_append] at h ⊢
      intro hundone
      have hrest := ih (first :: ran) h hundone.of_cons
      have hcount := successes_ok_add_count t hook first u ran
        (runHooks table t (first :: ran) rest s : Run τ (Event K V) _).events
      rw [successes_ok_of_ne t.undo hook t.undo_ne.symm]
      omega

namespace Lifecycle

/-! ## Transitions -/

/-- The three ways a transition ends: it is refused in the wrong status, a hook aborts it, or every
hook ran and the status moves on. -/
theorem move_cases (l : Lifecycle) :
    (l.status ≠ t.source ∧
      (move table t l : Run Lifecycle (Event K V) _) =
        ⟨.error (.illegalState ("cannot " ++ t.verb ++ " a cache that is " ++ l.status.name)),
          l, []⟩) ∨
    (l.status = t.source ∧ ∃ fault,
      (runHooks table t [] (t.order l.hooks) l : Run Lifecycle (Event K V) _).answer =
        .error fault ∧
      (move table t l : Run Lifecycle (Event K V) _) =
        ⟨.error (.lifecycle t fault), l,
          .note (.logged (.begun t)) :: (runHooks table t [] (t.order l.hooks) l).events⟩) ∨
    (l.status = t.source ∧
      (runHooks table t [] (t.order l.hooks) l : Run Lifecycle (Event K V) _).answer = .ok () ∧
      (move table t l : Run Lifecycle (Event K V) _) =
        ⟨.ok (), { l with status := t.target },
          .note (.logged (.begun t)) :: (runHooks table t [] (t.order l.hooks) l).events ++
            [.note (.logged (.ended t))]⟩) := by
  by_cases hs : l.status = t.source
  · right
    cases hr : (runHooks table t [] (t.order l.hooks) l : Run Lifecycle (Event K V) _).answer with
    | error fault => exact .inl ⟨hs, fault, rfl, by simp [move, hs, hr]⟩
    | ok u => exact .inr ⟨hs, rfl, by simp [move, hs, hr]⟩
  · exact .inl ⟨hs, by simp [move, hs]⟩

theorem addHook_apply (l : Lifecycle) (hook : HookName) :
    (addHook hook l : Run Lifecycle (Event K V) _) =
      if l.status = .available then
        ⟨.error (.illegalState "cannot add lifecycle hooks while the cache is available"), l, []⟩
      else ⟨.ok (), l.withHook hook, []⟩ := by
  by_cases hs : l.status = .available
  · simp only [addHook, checkQuiescent, Action.bind_apply, Action.read_apply, if_pos hs]
    rfl
  · simp only [addHook, checkQuiescent, Action.bind_apply, Action.read_apply, if_neg hs]
    rfl

theorem removeHook_apply (l : Lifecycle) (hook : HookName) :
    (removeHook hook l : Run Lifecycle (Event K V) _) =
      if l.status = .available then
        ⟨.error (.illegalState "cannot remove lifecycle hooks while the cache is available"), l, []⟩
      else ⟨.ok (decide (hook ∈ l.hooks)), l.withoutHook hook, []⟩ := by
  by_cases hs : l.status = .available
  · simp only [removeHook, checkQuiescent, Action.bind_apply, Action.read_apply, if_pos hs]
    rfl
  · simp only [removeHook, checkQuiescent, Action.bind_apply, Action.read_apply, if_neg hs]
    rfl

theorem withHook_status (l : Lifecycle) (hook : HookName) :
    (l.withHook hook).status = l.status := by
  unfold withHook
  split <;> rfl

theorem count_order (l : Lifecycle) (hook : HookName) :
    (t.order l.hooks).count hook = if hook ∈ l.hooks then 1 else 0 := by
  have hcount : (t.order l.hooks).count hook = l.hooks.count hook := by
    cases t with
    | init => rfl
    | close => exact List.count_reverse
  rw [hcount]
  split
  · exact List.count_eq_one_of_mem l.nodup ‹_›
  · exact List.count_eq_zero_of_not_mem ‹_›

/-! ## Steps -/

/-- A step in the life of a cache: a transition, with what each hook does in it, or a change of the
registry. -/
inductive Step
  | move (t : Transition) (table : HookTable)
  | addHook (hook : HookName)
  | removeHook (hook : HookName)

/-- Take one step. -/
def take : Step → Action Lifecycle (Event K V) Unit
  | .move t table => discard (move table t)
  | .addHook hook => discard (addHook hook)
  | .removeHook hook => discard (removeHook hook)

/-- Take steps one after the other. -/
def walk : List Step → Action Lifecycle (Event K V) Unit
  | [] => return ()
  | step :: rest => do
    take step
    walk rest

/-- No hook fails while it is run to undo a transition. -/
def Step.RollsBack (step : Step) (es : List (Event K V)) : Prop :=
  match step with
  | .move t _ => UndoneWell t es
  | .addHook _ => True
  | .removeHook _ => True

instance (es : List (Event K V)) : ∀ step : Step, Decidable (step.RollsBack es)
  | .move t _ => inferInstanceAs (Decidable (UndoneWell t es))
  | .addHook _ => .isTrue trivial
  | .removeHook _ => .isTrue trivial

/-- Along some steps no hook fails while it is run to undo a transition. -/
def RollBacksSucceed (K V : Type) : List Step → Lifecycle → Prop
  | [], _ => True
  | step :: rest, l =>
    let r : Run Lifecycle (Event K V) Unit := take step l
    step.RollsBack r.events ∧ RollBacksSucceed K V rest r.state

instance decidableRollBacksSucceed :
    ∀ (steps : List Step) (l : Lifecycle), Decidable (RollBacksSucceed K V steps l)
  | [], _ => .isTrue trivial
  | _ :: rest, _ =>
    have := decidableRollBacksSucceed rest
    instDecidableAnd

/-- How often a hook is open: once if it is registered with an available cache, and else never. -/
def opened (l : Lifecycle) (hook : HookName) : Nat :=
  if hook ∈ l.hooks ∧ l.status = .available then 1 else 0

theorem opened_of_not_available {l : Lifecycle} (h : l.status ≠ .available) (hook : HookName) :
    l.opened hook = 0 :=
  if_neg fun hc => h hc.2

theorem opened_of_available {l : Lifecycle} (h : l.status = .available) (hook : HookName) :
    l.opened hook = if hook ∈ l.hooks then 1 else 0 := by
  simp [opened, h]

/-- A run opened and closed a hook as it changed how often the hook is open. -/
def Balanced {α : Type} (l : Lifecycle) (hook : HookName) (r : Run Lifecycle (Event K V) α) :
    Prop :=
  successes .init hook r.events + l.opened hook =
    successes .close hook r.events + r.state.opened hook

theorem move_balanced (l : Lifecycle) (hook : HookName)
    (h : UndoneWell t (move table t l : Run Lifecycle (Event K V) _).events) :
    l.Balanced hook (move table t l : Run Lifecycle (Event K V) _) := by
  rcases move_cases table t l with ⟨-, hm⟩ | ⟨-, fault, hr, hm⟩ | ⟨hs, hr, hm⟩
  · rw [hm]
    exact rfl
  · rw [hm] at h ⊢
    have hnet := runHooks_error table t hook l fault _ [] hr h.of_cons
    simp only [Balanced, successes_note, List.count_nil, Nat.add_zero] at hnet ⊢
    cases t with
    | init => rw [← hnet]; rfl
    | close => rw [← hnet]; rfl
  · obtain ⟨hforth, hback⟩ := runHooks_ok table t hook l _ [] hr
    rw [count_order] at hforth
    rw [hm]
    simp only [Balanced, List.cons_append, successes_note, successes_append, successes_nil,
      Nat.add_zero]
    cases t with
    | init =>
      rw [hforth, show successes .close hook _ = 0 from hback,
        opened_of_not_available (by rw [hs]; decide), opened_of_available rfl, Nat.add_zero,
        Nat.zero_add]
    | close =>
      rw [hforth, show successes .init hook _ = 0 from hback, opened_of_available hs,
        opened_of_not_available (by exact nofun), Nat.add_zero, Nat.zero_add]

theorem addHook_balanced (l : Lifecycle) (new hook : HookName) :
    l.Balanced hook (addHook new l : Run Lifecycle (Event K V) _) := by
  rw [addHook_apply]
  split
  · exact rfl
  · have hs : (l.withHook new).status ≠ .available := by rwa [withHook_status]
    rw [Balanced, opened_of_not_available ‹_›, opened_of_not_available hs]
    rfl

theorem removeHook_balanced (l : Lifecycle) (old hook : HookName) :
    l.Balanced hook (removeHook old l : Run Lifecycle (Event K V) _) := by
  rw [removeHook_apply]
  split
  · exact rfl
  · have hs : (l.withoutHook old).status ≠ .available := ‹_›
    rw [Balanced, opened_of_not_available ‹_›, opened_of_not_available hs]
    rfl

/-- A step leaves every hook balanced: only a transition runs hooks, and the registry changes only
while nothing is open. -/
theorem take_balanced (step : Step) (l : Lifecycle) (hook : HookName)
    (h : step.RollsBack (take step l : Run Lifecycle (Event K V) Unit).events) :
    l.Balanced hook (take step l : Run Lifecycle (Event K V) Unit) := by
  cases step with
  | move t table =>
    simp only [take, Action.discard_apply] at h ⊢
    exact move_balanced table t l hook h
  | addHook new =>
    simp only [take, Action.discard_apply]
    exact addHook_balanced l new hook
  | removeHook old =>
    simp only [take, Action.discard_apply]
    exact removeHook_balanced l old hook

theorem walk_balanced (hook : HookName) (steps : List Step) :
    ∀ l, RollBacksSucceed K V steps l →
      l.Balanced hook (walk steps l : Run Lifecycle (Event K V) Unit) := by
  induction steps with
  | nil => exact fun _ _ => rfl
  | cons step rest ih =>
    intro l h
    have hstep := take_balanced step l hook h.1
    have hrest := ih _ h.2
    simp only [Balanced, walk, Action.bind_apply, successes_append] at hstep hrest ⊢
    omega

theorem RollBacksSucceed.of_append {before after : List Step} :
    ∀ {l : Lifecycle}, RollBacksSucceed K V (before ++ after) l →
      RollBacksSucceed K V before l := by
  induction before with
  | nil => exact fun _ => trivial
  | cons step rest ih => exact fun h => ⟨h.1, ih h.2⟩

/-- **Hooks are left balanced**: after every step of every run from a new lifecycle, in which hooks
may fail but not while they are run to undo a transition, a registered hook was opened exactly once
more than it was closed if the cache is available, and as often as it was closed if it is not; and
so was every hook that is not registered. -/
theorem hooks_balanced (steps : List Step) (h : RollBacksSucceed K V steps {}) :
    ∀ before, before <+: steps → ∀ hook,
      let r : Run Lifecycle (Event K V) Unit := walk before {}
      successes .init hook r.events =
        successes .close hook r.events +
          if hook ∈ r.state.hooks ∧ r.state.status = .available then 1 else 0 := by
  rintro before ⟨after, rfl⟩ hook
  have hrun := walk_balanced hook before {} h.of_append
  have hclosed : ({} : Lifecycle).opened hook = 0 := opened_of_not_available (by decide) hook
  rwa [Balanced, hclosed, Nat.add_zero] at hrun

/-- The second of three hooks fails in the first `init` and in the first `close`. The third, which
the failed `close` opened again, is left open once. -/
theorem hooks_balanced_retried :
    let failing (t : Transition) : HookTable := fun hook t' =>
      if hook = "b" ∧ t' = t then .error (.text "down") else .ok ()
    let steps : List Step := [.addHook "a", .addHook "b", .addHook "c", .move .init (failing .init),
      .move .init (failing .close), .move .close (failing .close)]
    let r : Run Lifecycle (Event Nat Nat) Unit := walk steps {}
    RollBacksSucceed Nat Nat steps {} ∧
      successes .init "c" r.events = 2 ∧ successes .close "c" r.events = 1 := by
  intro failing steps r
  have hsteps : RollBacksSucceed Nat Nat steps {} := by decide
  have hc := hooks_balanced steps hsteps steps (List.prefix_refl steps) "c"
  have hclose : successes .close "c" r.events = 1 := by decide
  refine ⟨hsteps, ?_, hclose⟩
  rw [show successes .init "c" r.events = _ from hc, hclose]
  decide

end Lifecycle

end ResilientCache
