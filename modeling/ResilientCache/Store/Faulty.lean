import ResilientCache.Store.Basic

/-!
# Stores that fail on purpose

`store.faulty` is `store` on a test rig. Each kind of call may be given an `Outage`, which lets some
calls pass and then fails some or all of those that follow, either before the call takes effect or
after it. The rig can also make the bulk primitives compute more keys than they were asked for or
hide their results, and disturb the raw iteration: `phantoms` are shown in front of it, and each
`Break` puts a failed step into it and may cut it off there.
-/

namespace ResilientCache

variable {σ K V Q α : Type}

/-! ## Outages -/

/-- Failures set for one kind of call. -/
structure Outage where
  error : StoreError
  /-- How many calls still pass before the first failure. -/
  skip : Nat := 0
  /-- How many calls still fail, unless all do. -/
  times : Option Nat := none
  /-- Whether a failing call takes effect first. -/
  late : Bool := false
  /-- For a bulk primitive: fail as if the batch function had. -/
  function : Option Fault := none

/-- One call meets an outage: whether it fails, and what is left of the outage. -/
def Outage.meet (o : Outage) : Bool × Outage :=
  match o.skip, o.times with
  | n + 1, _ => (false, { o with skip := n })
  | 0, none => (true, o)
  | 0, some 0 => (false, o)
  | 0, some (n + 1) => (true, { o with times := some n })

/-- A failed step put into a raw iteration. -/
structure Break where
  position : Nat
  /-- Whether the iteration ends there. -/
  cut : Bool := false
  error : StoreError

/-- Put a failed step into a raw iteration, at its position or at the end. -/
def Break.apply (b : Break) (steps : List (RawStep K V)) : List (RawStep K V) :=
  steps.take b.position ++ .error b.error :: if b.cut then [] else steps.drop b.position

/-! ## The rig -/

/-- A store's state on a test rig. -/
structure Rig (σ K V : Type) where
  inner : σ
  outage : StoreOp → Option Outage := fun _ => none
  phantoms : List (K × Handle V) := []
  breaks : List Break := []
  /-- Keys that the bulk primitives compute beside those they are asked for. -/
  widen : List K := []
  /-- Whether the bulk primitives hide their results. -/
  bare : Bool := false

namespace Rig

/-- Set or clear the outage of one kind of call. -/
def setOutage (op : StoreOp) (o : Option Outage) (rig : Rig σ K V) : Rig σ K V :=
  { rig with outage := fun op' => if op' = op then o else rig.outage op' }

/-- One call begins: the outage that strikes it, if one does, and the rig from then on. -/
def strike (rig : Rig σ K V) (op : StoreOp) : Option Outage × Rig σ K V :=
  match rig.outage op with
  | none => (none, rig)
  | some o => (if o.meet.1 then some o else none, rig.setOutage op (some o.meet.2))

/-- Run an action of the store on the rig. -/
def onInner (x : Action σ (Note K V) α) : Action (Rig σ K V) (Note K V) α :=
  x.within Rig.inner (fun rig inner => { rig with inner }) id

/-- A plain call on the rig. -/
def guarded (op : StoreOp) (call : Action σ (Note K V) (Except StoreError α)) :
    Action (Rig σ K V) (Note K V) (Except StoreError α) := do
  let (struck, rig) ← Action.read (·.strike op)
  Action.set rig
  match struck with
  | none => onInner call
  | some o =>
    if o.late then return (← onInner call).bind fun _ => .error o.error
    return .error o.error

/-- What a bulk primitive fails with when an outage strikes it. -/
def bulkFailure (o : Outage) : BulkError :=
  match o.function with
  | some fault => .function fault
  | none => .store o.error

/-- A bulk primitive on the rig. -/
def guardedBulk (op : StoreOp) (call : List K → σ → BulkCall σ Q K V) (ks : List K)
    (rig : Rig σ K V) : BulkCall (Rig σ K V) Q K V :=
  let (struck, rig) := rig.strike op
  let served (f : Computed K V → Except BulkError (Computed K V)) :=
    (call (ks ++ rig.widen) rig.inner).map fun (result, inner) =>
      (result.bind f, { rig with inner })
  match struck with
  | none => served fun computed => .ok (if rig.bare then [] else computed)
  | some o =>
    if o.late then served fun _ => .error (bulkFailure o) else .done (.error (bulkFailure o), rig)

/-- The raw iteration as the rig disturbs it. -/
def disturb (rig : Rig σ K V) (steps : List (RawStep K V)) : List (RawStep K V) :=
  rig.breaks.foldl (fun steps b => b.apply steps)
    (rig.phantoms.map (fun (k, v) => .ok (k, .eternal v)) ++ steps)

/-- The raw iteration on the rig, the store's own steps brought into some order. -/
def iterate (arrange : List (RawStep K V) → List (RawStep K V))
    (call : Action σ (Note K V) (List (RawStep K V))) :
    Action (Rig σ K V) (Note K V) (List (RawStep K V)) := do
  match ← guarded .iterate (do return .ok (← call)) with
  | .error e => return [.error e]
  | .ok steps => return (← Action.read id).disturb (arrange steps)

end Rig

/-! ## The store -/

/-- A store on a test rig. Its own steps of a raw iteration are brought into some order; what it has
counted is not shown. -/
def Store.faulty (store : Store σ K V) (arrange : List (RawStep K V) → List (RawStep K V)) :
    Store (Rig σ K V) K V where
  get k := Rig.guarded .get (store.get k)
  containsKey k := Rig.guarded .containsKey (store.containsKey k)
  put k v := Rig.guarded .put (store.put k v)
  remove k := Rig.guarded .remove (store.remove k)
  clear := Rig.guarded .clear store.clear
  iterate := Rig.iterate arrange store.iterate
  bulkComputeIfAbsent := Rig.guardedBulk .bulkComputeIfAbsent store.bulkComputeIfAbsent
  bulkCompute := Rig.guardedBulk .bulkCompute store.bulkCompute

end ResilientCache
