import ResilientCache.Action
import ResilientCache.Time
import ResilientCache.Trace

/-!
# Expiry policies

A `Policy` grants lifetimes: to a new mapping, and to a mapping whose value is replaced, where it
may also let the current expiration stand. It is a function of its arguments and may fail.

Store and cache put the same question, `Policy.lifetime`, and do different things with the answer.
A policy that fails is taken to grant the empty lifetime, so a broken policy cannot keep values
around for ever; the failure is logged. A value granted the empty lifetime is dead on arrival: it
must never be stored.

Headline: `lifetime_answer`, what the question is answered without its events.
-/

namespace ResilientCache

variable {σ K V : Type}

/-- Grants lifetimes to mappings. -/
structure Policy (K V : Type) where
  /-- The lifetime of a new mapping. -/
  creation : K → V → Except Fault Duration
  /-- The lifetime of a mapping whose value is replaced; `none` keeps its expiration. -/
  update : K → (old new : V) → Except Fault (Option Duration)

namespace Policy

/-- Mappings never expire. -/
def eternal : Policy K V where
  creation _ _ := .ok .max
  update _ _ _ := .ok none

/-- Mappings live for a fixed time after they were last written. -/
def timeToLive (ttl : Duration) : Policy K V where
  creation _ _ := .ok ttl
  update _ _ _ := .ok (some ttl)

/-- The policy's answer to a question. -/
def answer (p : Policy K V) : LifetimeQuery K V → Except Fault (Option Duration)
  | .creation k value => (p.creation k value).map some
  | .update k old new => p.update k old new

end Policy

/-- The question about writing a value to a key that holds, or does not hold, another. -/
def LifetimeQuery.ofWrite (k : K) (old? : Option V) (new : V) : LifetimeQuery K V :=
  match old? with
  | none => .creation k new
  | some old => .update k old new

namespace Policy

/-- Ask a policy for a lifetime; a failure is logged and grants the empty one. -/
def lifetime (owner : Owner) (p : Policy K V) (q : LifetimeQuery K V) :
    Action σ (Note K V) (Option Duration) := do
  Action.tell (.asked owner q)
  match p.answer q with
  | .ok granted => return granted
  | .error fault =>
    Action.tell (.logged (.expiryFailed fault))
    return some .zero

/-- Whether a value would be expired the moment it is written. -/
def deadOnArrival (owner : Owner) (p : Policy K V) (q : LifetimeQuery K V) :
    Action σ (Note K V) Bool := do
  return (← p.lifetime owner q) = some .zero

/-- The lifetime a policy grants, its failures read as the empty one. -/
def granted (p : Policy K V) (q : LifetimeQuery K V) : Option Duration :=
  match p.answer q with
  | .ok d => d
  | .error _ => some .zero

@[simp] theorem lifetime_answer (owner : Owner) (p : Policy K V) (q : LifetimeQuery K V) (s : σ) :
    (p.lifetime owner q s).answer = p.granted q := by
  simp only [lifetime, granted]
  cases p.answer q <;> rfl

@[simp] theorem lifetime_state (owner : Owner) (p : Policy K V) (q : LifetimeQuery K V) (s : σ) :
    (p.lifetime owner q s).state = s := by
  simp only [lifetime]
  cases p.answer q <;> rfl

@[simp] theorem deadOnArrival_answer (owner : Owner) (p : Policy K V) (q : LifetimeQuery K V)
    (s : σ) : (p.deadOnArrival owner q s).answer = decide (p.granted q = some .zero) := by
  simp [deadOnArrival]

@[simp] theorem deadOnArrival_state (owner : Owner) (p : Policy K V) (q : LifetimeQuery K V)
    (s : σ) : (p.deadOnArrival owner q s).state = s := by
  simp [deadOnArrival]

end Policy

end ResilientCache
