import Mathlib.Logic.Function.Basic
import ResilientCache.Cache.Cursor
import ResilientCache.Proofs.Call

/-!
# A cache and the walks over it

A `World` is a cache with the walks its callers have begun, each under a name. A `Use` is what a
caller does with the contents of the cache: a call, a bulk load, the removal of all entries, a step
of a walk. A `Deed` is a use or anything else that can happen: a walk taken as a sequence, a move of
the lifecycle, a change of the hooks, or a change of the store by somebody else, the passing of time
included. `Cache.live` takes deeds one after the other.

Walks are given for every name, so that a run may begin in the middle of any of them; beginning a
walk under a name replaces the one that had it.

Headlines:
* `Cursor.offer_apply`, `Cursor.surface_apply`, `Cursor.nextEntry_apply`, `Cursor.step_apply`,
  `Cursor.remove_apply`: what the steps of a walk come to.
* `live_append`: a run over two lists of deeds is a run over the first and then over the second.
-/

namespace ResilientCache

variable {σ τ K V α β : Type}

/-- A cache with the walks over it, by name. -/
structure World (σ K V : Type) where
  cache : Cache.State σ
  walks : Nat → Cursor K V

namespace World

/-- The status of the cache. -/
def status (w : World σ K V) : Status := w.cache.lifecycle.status

/-- The world in which a name stands for another walk. -/
def setWalk (w : World σ K V) (i : Nat) (cur : Cursor K V) : World σ K V :=
  { w with walks := Function.update w.walks i cur }

@[simp] theorem setWalk_cache (w : World σ K V) (i : Nat) (cur : Cursor K V) :
    (w.setWalk i cur).cache = w.cache := rfl

@[simp] theorem walks_setWalk (w : World σ K V) (i : Nat) (cur : Cursor K V) :
    (w.setWalk i cur).walks i = cur := by
  simp [setWalk]

theorem walks_setWalk_of_ne (w : World σ K V) {i j : Nat} (h : j ≠ i) (cur : Cursor K V) :
    (w.setWalk j cur).walks i = w.walks i := by
  simp [setWalk, Function.update_of_ne h.symm]

@[simp] theorem setWalk_self (w : World σ K V) (i : Nat) : w.setWalk i (w.walks i) = w := by
  simp [setWalk]

end World

/-! ## Steps of a walk -/

namespace Cursor

variable (c : Cache σ K V) (cur : Cursor K V)

/-- Offering the entry ahead is looking for the one after it. -/
theorem offer_apply (e : Entry K V) (s : Cache.State σ) :
    cur.offer c e s =
      let r := seek c { cur with current := some e.key } cur.raw s
      ⟨(.ok e, r.answer), r.state,
        (if cur.quiet then [] else [.recorded (.get .hit)]) ++ r.events⟩ := by
  obtain ⟨raw, ahead, current, quiet, terminated⟩ := cur
  cases quiet <;> simp [offer, Cache.record]

/-- Surfacing a failure that was held back leaves the decision about a raw one to the strategy. -/
theorem surface_apply (held : HeldBack) (s : Cache.State σ) :
    cur.surface c held s =
      let r := match held with
        | .raw e => c.consult .iterate e s
        | .decided e => ⟨.error e, s, []⟩
      ⟨(r.answer, { cur with ahead := .nothing, current := none, terminated := true }), r.state,
        (if cur.quiet then [] else [.recorded (.get .failure)]) ++ r.events⟩ := by
  obtain ⟨raw, ahead, current, quiet, terminated⟩ := cur
  cases quiet <;> cases held <;> simp [surface, Cache.record, ExceptT.run]

/-- On an available cache a walk that goes on offers or surfaces what it has ahead. -/
theorem nextEntry_apply {s : Cache.State σ} (hs : s.lifecycle.status = .available) :
    cur.nextEntry c s =
      if cur.terminated then ⟨(.error .noSuchElement, cur), s, []⟩
      else match cur.ahead with
        | .nothing => ⟨(.error .noSuchElement, cur), s, []⟩
        | .entry e => cur.offer c e s
        | .failure held => cur.surface c held s := by
  rw [nextEntry, ExceptT.run, Action.bind_apply, Cache.checkAvailable_of_available hs]
  by_cases hterminated : cur.terminated
  · simp [hterminated]
  · cases hahead : cur.ahead <;> simp [hterminated]

/-- On an available cache a walk removes the key of the entry that it offered last, if it has not
removed it yet. -/
theorem remove_apply {s : Cache.State σ} (hs : s.lifecycle.status = .available) :
    cur.remove c s =
      match cur.current with
      | none =>
        ⟨(.error (.illegalState "remove() needs a preceding call to next_entry()"), cur), s, []⟩
      | some k =>
        let r := (c.remove k).run s
        ⟨(r.answer, { cur with current := none }), r.state, r.events⟩ := by
  rw [remove, ExceptT.run, Action.bind_apply, Cache.checkAvailable_of_available hs]
  cases cur.current <;> simp

/-- As a sequence a walk goes on with its next entry, and is over after an error. -/
theorem step_apply (s : Cache.State σ) :
    cur.step c s =
      if cur.terminated then ⟨(none, cur), s, []⟩
      else
        let r := cur.nextEntry c s
        ⟨match r.answer with
          | (.ok entry, cur) => (some (.ok entry), cur)
          | (.error .noSuchElement, cur) => (none, cur)
          | (.error e, cur) => (some (.error e), { cur with terminated := true }),
          r.state, r.events⟩ := by
  unfold step
  by_cases hterminated : cur.terminated
  · simp [hterminated]
  · rcases hr : cur.nextEntry c s with ⟨⟨e | entry, cur'⟩, s', es⟩
    · cases e <;> simp [hterminated, hr]
    · simp [hterminated, hr]

end Cursor

/-! ## What can happen -/

/-- What a caller does with the contents of a cache. -/
inductive Use (K V : Type)
  | call (operation : Call K V)
  | removeKey (k : K)
  | getAllWith (ks : List K) (includeAbsent : Bool)
  | loadAll (ks : List K) (replaceExisting : Bool) (loader : Loader K V)
  | removeAllEntries
  /-- Begin a walk under a name. -/
  | iterate (i : Nat) (quiet : Bool)
  | hasNext (i : Nat)
  | nextEntry (i : Nat)
  /-- Remove the entry that a walk offered last. -/
  | remove (i : Nat)

/-- What a use is answered, if it succeeds. -/
@[reducible] def Use.Answer : Use K V → Type
  | call operation => operation.Answer
  | removeKey _ => Bool
  | getAllWith _ _ => KeyMap K (Option (Handle V))
  | loadAll _ _ _ => KeyMap K (Option (Handle V))
  | removeAllEntries => Unit
  | iterate _ _ => Unit
  | hasNext _ => Bool
  | nextEntry _ => Entry K V
  | remove _ => Unit

/-- Anything that can happen to a cache and the walks over it. -/
inductive Deed (σ K V : Type)
  | use (u : Use K V)
  /-- The next element of a walk taken as a sequence. -/
  | next (i : Nat)
  | move (t : Transition) (table : HookTable)
  | addHook (hook : HookName)
  | removeHook (hook : HookName)
  /-- A change of the store that is no doing of the cache. -/
  | outside (f : σ → σ)

/-- What a deed is answered. -/
@[reducible] def Deed.Answer : Deed σ K V → Type
  | use u => Except CacheError u.Answer
  | next _ => Option (Except CacheError (Entry K V))
  | move _ _ => Except CacheError Unit
  | addHook _ => Except CacheError Unit
  | removeHook _ => Except CacheError Bool
  | outside _ => Unit

namespace Cache

/-- Run an operation on the cache of a world. -/
def onCache (x : Action (State σ) (Event K V) α) : Action (World σ K V) (Event K V) α :=
  x.within World.cache (fun w cache => { w with cache }) id

/-- Run an operation on a walk of a world, which stands afterwards where the operation leaves it. -/
def onWalk (i : Nat) (x : Cursor K V → Action (State σ) (Event K V) (α × Cursor K V)) :
    Action (World σ K V) (Event K V) α := do
  let cur ← Action.read (·.walks i)
  let (a, cur) ← onCache (x cur)
  Action.change (·.setWalk i cur)
  return a

/-- Begin a walk, and give it a name if that succeeds. -/
def beginWalk (c : Cache σ K V) (i : Nat) (quiet : Bool) :
    Action (World σ K V) (Event K V) (Except CacheError Unit) := do
  match ← onCache (c.iterate quiet).run with
  | .error e => return .error e
  | .ok cur =>
    Action.change (·.setWalk i cur)
    return .ok ()

@[simp] theorem onCache_apply (x : Action (State σ) (Event K V) α) (w : World σ K V) :
    onCache x w = ⟨(x w.cache).answer, { w with cache := (x w.cache).state },
      (x w.cache).events⟩ := by
  simp [onCache, Action.within]

@[simp] theorem onWalk_apply (i : Nat)
    (x : Cursor K V → Action (State σ) (Event K V) (α × Cursor K V)) (w : World σ K V) :
    onWalk i x w =
      let r := x (w.walks i) w.cache
      ⟨r.answer.1, World.setWalk { w with cache := r.state } i r.answer.2, r.events⟩ := by
  simp [onWalk]

/-- A walk whose operation changes nothing leaves the world as it was. -/
theorem onWalk_idle {i : Nat} {x : Cursor K V → Action (State σ) (Event K V) (α × Cursor K V)}
    {w : World σ K V} {a : α} (h : x (w.walks i) w.cache = ⟨(a, w.walks i), w.cache, []⟩) :
    onWalk i x w = ⟨a, w, []⟩ := by
  simp only [onWalk_apply, h]
  exact congrArg (Run.mk a · []) (w.setWalk_self i)

/-- Beginning a walk does to the cache what looking ahead for the first entry does. -/
theorem beginWalk_apply (c : Cache σ K V) (i : Nat) (quiet : Bool) (w : World σ K V) :
    c.beginWalk i quiet w =
      let r := (c.iterate quiet).run w.cache
      let w' : World σ K V := { w with cache := r.state }
      ⟨r.answer.map fun _ => (), match r.answer with
        | .ok cur => w'.setWalk i cur
        | .error _ => w', r.events⟩ := by
  rw [beginWalk, Action.bind_apply, onCache_apply]
  rcases (c.iterate quiet).run w.cache with ⟨e | cur, s, es⟩ <;> simp [Except.map]

/-- What a beginning walk makes of the cache. -/
theorem beginWalk_cache (c : Cache σ K V) (i : Nat) (quiet : Bool) (w : World σ K V) :
    (c.beginWalk i quiet w).state.cache = ((c.iterate quiet).run w.cache).state := by
  rw [beginWalk_apply]
  dsimp only
  split <;> rfl

variable [DecidableEq K] [BEq V]

/-- Use a cache. -/
def use (c : Cache σ K V) :
    (u : Use K V) → Action (World σ K V) (Event K V) (Except CacheError u.Answer)
  | .call operation => onCache (c.serve operation).run
  | .removeKey k => onCache (c.removeKey k).run
  | .getAllWith ks includeAbsent => onCache (c.getAllWith ks includeAbsent).run
  | .loadAll ks replaceExisting loader => onCache (c.loadAll ks replaceExisting loader).run
  | .removeAllEntries => onCache c.removeAllEntries.run
  | .iterate i quiet => c.beginWalk i quiet
  | .hasNext i => onWalk i fun cur => return (← cur.hasNext.run, cur)
  | .nextEntry i => onWalk i (Cursor.nextEntry c)
  | .remove i => onWalk i (Cursor.remove c)

/-- Do a deed. -/
def act (c : Cache σ K V) : (d : Deed σ K V) → Action (World σ K V) (Event K V) d.Answer
  | .use u => c.use u
  | .next i => onWalk i (Cursor.step c)
  | .move .init table => onCache (init table).run
  | .move .close table => onCache (close table).run
  | .addHook hook => onCache (addHook hook).run
  | .removeHook hook => onCache (removeHook hook).run
  | .outside f => .change fun w => { w with cache := { w.cache with store := f w.cache.store } }

/-- Do deeds one after the other. -/
def live (c : Cache σ K V) : List (Deed σ K V) → Action (World σ K V) (Event K V) Unit
  | [] => return ()
  | d :: rest => do
    discard (c.act d)
    c.live rest

theorem live_cons (c : Cache σ K V) (d : Deed σ K V) (rest : List (Deed σ K V))
    (w : World σ K V) :
    c.live (d :: rest) w =
      ⟨(), (c.live rest (c.act d w).state).state,
        (c.act d w).events ++ (c.live rest (c.act d w).state).events⟩ := by
  simp [live]

/-- A run over two lists of deeds is a run over the first and then over the second. -/
theorem live_append (c : Cache σ K V) : ∀ (before after : List (Deed σ K V)) (w : World σ K V),
    c.live (before ++ after) w =
      ⟨(), (c.live after (c.live before w).state).state,
        (c.live before w).events ++ (c.live after (c.live before w).state).events⟩
  | [], after, w => rfl
  | d :: before, after, w => by
    rw [List.cons_append, live_cons, live_cons, c.live_append before after]
    simp

end Cache

end ResilientCache
