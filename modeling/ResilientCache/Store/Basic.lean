import ResilientCache.Dialogue
import ResilientCache.Time
import ResilientCache.Trace

/-!
# Stores

A store owns the mappings and everything about how they are kept. It is given by its calls, as
actions on a state of its own type `σ`; each of them may fail with a `StoreError`.

The two bulk primitives are handed a function for a whole batch of keys and are single steps: they
are `Dialogue`s with that function, over the state they began in.

* `bulkComputeIfAbsent` asks for the keys that have no mapping and installs what it is answered;
* `bulkCompute` asks with every key and its current value and installs what it is answered, `none`
  meaning that the key shall not be mapped.

Both end with every requested key and its resulting holder, in the order of the request.
-/

namespace ResilientCache

/-! ## Holders -/

/-- How a store holds a value: since when, and until when it is live. -/
structure Holder (V : Type) where
  value : Handle V
  created : Instant
  /-- The first reading of the clock at which the mapping is no longer live, if there is one. -/
  expires : Option Instant
deriving DecidableEq

namespace Holder

variable {V : Type}

/-- A holder that never expires. -/
def eternal (v : Handle V) : Holder V := ⟨v, 0, none⟩

/-- Whether a holder is no longer live at a reading of the clock. -/
def isExpired (h : Holder V) (now : Instant) : Bool := h.expires.any (· ≤ now)

theorem isExpired_iff {h : Holder V} {now : Instant} :
    h.isExpired now = true ↔ ∃ t, h.expires = some t ∧ t ≤ now := by
  simp [isExpired, Option.any_eq_true]

@[simp] theorem isExpired_eternal (v : Handle V) (now : Instant) :
    (eternal v).isExpired now = false := rfl

end Holder

/-! ## Answers -/

/-- What a store did with a value it was to put. -/
inductive PutStatus
  /-- The value was installed. -/
  | put
  /-- The value was dead on arrival; the key is not mapped. -/
  | noop
deriving DecidableEq, Repr

/-- The word for a put's result. -/
def PutStatus.name : PutStatus → String
  | put => "put"
  | noop => "noop"

/-- What a store counts. A reading shows the low 64 bits of each count. -/
structure Metrics where
  hits : Nat := 0
  misses : Nat := 0
  puts : Nat := 0
  removes : Nat := 0
  expirations : Nat := 0
deriving DecidableEq, Repr

/-- The counts by name, as 64-bit words. -/
def Metrics.reading (m : Metrics) : List (String × UInt64) :=
  [("hits", UInt64.ofNat m.hits), ("misses", UInt64.ofNat m.misses),
    ("puts", UInt64.ofNat m.puts), ("removes", UInt64.ofNat m.removes),
    ("expirations", UInt64.ofNat m.expirations)]

/-- Keys with values: what a batch function is handed and what it answers. -/
abbrev Mappings (K V : Type) := List (K × Option (Handle V))

/-- Requested keys with their resulting holders. -/
abbrev Computed (K V : Type) := List (K × Option (Holder V))

/-- One step of a raw iteration: a key with its holder, or a failure. -/
abbrev RawStep (K V : Type) := Except StoreError (K × Holder V)

/-- A bulk primitive that has been called: a dialogue with the batch function, which may itself
fail, that ends with the primitive's result and the state it leaves. -/
abbrev BulkCall (σ Q K V : Type) :=
  Dialogue Q (Except Fault (Mappings K V)) (Note K V) (Except BulkError (Computed K V) × σ)

/-! ## The contract -/

/-- What a cache asks of a store whose state is a `σ`. -/
structure Store (σ K V : Type) where
  /-- The live holder of a key. -/
  get : K → Action σ (Note K V) (Except StoreError (Option (Holder V)))
  /-- Whether a key has a live mapping. -/
  containsKey : K → Action σ (Note K V) (Except StoreError Bool)
  /-- Install or overwrite a mapping. -/
  put : K → Handle V → Action σ (Note K V) (Except StoreError PutStatus)
  /-- Remove a mapping; whether there was a live one. -/
  remove : K → Action σ (Note K V) (Except StoreError Bool)
  /-- Remove every mapping. -/
  clear : Action σ (Note K V) (Except StoreError Unit)
  /-- Everything the store holds, mappings that have expired included; each step may fail. A raw
  iteration that goes on lazily is taken as the finite list of the steps that it would show. -/
  iterate : Action σ (Note K V) (List (RawStep K V))
  /-- Load the keys that have no mapping. -/
  bulkComputeIfAbsent : List K → σ → BulkCall σ (List K) K V
  /-- Recompute every key from its current value. -/
  bulkCompute : List K → σ → BulkCall σ (Mappings K V) K V
  /-- What the store has counted. -/
  metrics : σ → Metrics := fun _ => {}

end ResilientCache
