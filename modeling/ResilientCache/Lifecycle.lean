import ResilientCache.Action
import ResilientCache.Trace

/-!
# The life of a cache

A `Lifecycle` is a status and a registry of hooks. A transition runs the hooks: `init` in the order
of registration, `close` in the opposite order. When a hook fails, the hooks that already ran are
undone, the latest first, by the opposite transition; a hook that fails while it is undone is
logged and does not stop the others. The status then stays as it was.

Hooks can be registered and removed only while the cache is not available.

What the hooks do is a parameter: a `HookTable` says how each hook ends in each transition.
-/

namespace ResilientCache

variable {K V σ : Type}

/-- The status of a cache and the names of its hooks, in the order of registration. -/
structure Lifecycle where
  status : Status := .uninitialized
  hooks : List HookName := []
  nodup : hooks.Nodup := by simp
deriving DecidableEq

/-- How each hook ends in each transition. -/
abbrev HookTable := HookName → Transition → Except Fault Unit

/-! ## Running hooks -/

/-- Run one hook. -/
def runHook (table : HookTable) (t : Transition) (hook : HookName) :
    Action σ (Event K V) (Except Fault Unit) := do
  Action.tell (.hookRan t hook (table hook t))
  return table hook t

/-- Undo a transition for hooks that ran in it; failures are logged and change nothing. -/
def undoHooks (table : HookTable) (t : Transition) : List HookName → Action σ (Event K V) Unit
  | [] => return ()
  | hook :: rest => do
    match ← runHook table t.undo hook with
    | .ok () => pure ()
    | .error fault => Action.tell (.note (.logged (.undoFailed t fault)))
    undoHooks table t rest

/-- Run hooks until one fails, then undo those that ran. `ran` holds them, the latest first. -/
def runHooks (table : HookTable) (t : Transition) (ran : List HookName) :
    List HookName → Action σ (Event K V) (Except Fault Unit)
  | [] => return .ok ()
  | hook :: rest => do
    match ← runHook table t hook with
    | .ok () => runHooks table t (hook :: ran) rest
    | .error fault =>
      Action.tell (.note (.logged (.hookFailed t fault)))
      undoHooks table t ran
      return .error fault

/-! ## Transitions -/

/-- The hooks in the order in which a transition runs them. -/
def Transition.order (t : Transition) (hooks : List HookName) : List HookName :=
  match t with
  | .init => hooks
  | .close => hooks.reverse

/-- What a transition does to a cache, in messages. -/
def Transition.verb : Transition → String
  | .init => "initialize"
  | .close => "close"

namespace Lifecycle

/-- Fails unless the cache is available. -/
def checkAvailable (l : Lifecycle) : Except CacheError Unit :=
  if l.status = .available then .ok () else .error (.unavailable l.status)

/-- Move a cache through a transition. -/
def move (table : HookTable) (t : Transition) :
    Action Lifecycle (Event K V) (Except CacheError Unit) := do
  let l ← Action.read id
  if l.status ≠ t.source then
    return .error (.illegalState ("cannot " ++ t.verb ++ " a cache that is " ++ l.status.name))
  Action.tell (.note (.logged (.begun t)))
  match ← runHooks table t [] (t.order l.hooks) with
  | .error fault => return .error (.lifecycle t fault)
  | .ok () =>
    Action.change ({ · with status := t.target })
    Action.tell (.note (.logged (.ended t)))
    return .ok ()

/-! ## The registry -/

/-- Fails while the cache is available, when `action` on hooks is not allowed. -/
def checkQuiescent (l : Lifecycle) (action : String) : Except CacheError Unit :=
  if l.status = .available then
    .error (.illegalState ("cannot " ++ action ++ " lifecycle hooks while the cache is available"))
  else .ok ()

/-- The registry with a hook at its end, or where it is already. -/
def withHook (l : Lifecycle) (hook : HookName) : Lifecycle :=
  if h : hook ∈ l.hooks then l
  else
    { l with
      hooks := l.hooks ++ [hook]
      nodup := by
        refine List.nodup_append.2 ⟨l.nodup, by simp, ?_⟩
        rintro a ha b hb rfl
        exact h (List.mem_singleton.1 hb ▸ ha) }

/-- The registry without a hook. -/
def withoutHook (l : Lifecycle) (hook : HookName) : Lifecycle :=
  { l with hooks := l.hooks.filter (· ≠ hook), nodup := l.nodup.sublist List.filter_sublist }

/-- Register a hook; registering it a second time changes nothing. -/
def addHook (hook : HookName) : Action Lifecycle (Event K V) (Except CacheError Unit) := do
  match ← Action.read (·.checkQuiescent "add") with
  | .error e => return .error e
  | .ok () =>
    Action.change (·.withHook hook)
    return .ok ()

/-- Remove a hook; whether it was registered. -/
def removeHook (hook : HookName) : Action Lifecycle (Event K V) (Except CacheError Bool) := do
  match ← Action.read (·.checkQuiescent "remove") with
  | .error e => return .error e
  | .ok () =>
    let known := decide (hook ∈ (← Action.read Lifecycle.hooks))
    Action.change (·.withoutHook hook)
    return .ok known

end Lifecycle

end ResilientCache
