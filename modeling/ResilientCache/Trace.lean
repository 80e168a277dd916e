import ResilientCache.Entry
import ResilientCache.Log
import ResilientCache.Outcome

/-!
# What happens during a call

The actions of this library tell events. A `Note` is what a store or a failure strategy may tell: a
call that reached an audited store, a question to an expiry policy, a log entry. An `Event` is what
a cache tells: the notes of its store, the outcomes it recorded, the questions it put to its failure
strategy and to a loader, the hooks it ran.

A `FailedCall` is a cache operation whose store call failed, with the operation's own inputs. Its
`Answer` is the type of what the operation would have answered.
-/

namespace ResilientCache

variable {K V : Type}

/-! ## Store calls -/

/-- A call of a store. -/
inductive StoreCall (K V : Type)
  | get (k : K)
  | containsKey (k : K)
  | put (k : K) (v : Handle V)
  | remove (k : K)
  | clear
  | iterate
  | bulkComputeIfAbsent (ks : List K)
  | bulkCompute (ks : List K)

/-- The kinds of store call. -/
inductive StoreOp
  | get | containsKey | put | remove | clear | iterate | bulkComputeIfAbsent | bulkCompute
deriving DecidableEq, Repr

/-- The word for a kind of store call. -/
def StoreOp.name : StoreOp → String
  | get => "get"
  | containsKey => "contains_key"
  | put => "put"
  | remove => "remove"
  | clear => "clear"
  | iterate => "iter"
  | bulkComputeIfAbsent => "bulk_compute_if_absent"
  | bulkCompute => "bulk_compute"

/-- Every kind of store call. -/
def StoreOp.all : List StoreOp :=
  [get, containsKey, put, remove, clear, iterate, bulkComputeIfAbsent, bulkCompute]

/-- The kind of store call of a name. -/
def StoreOp.ofName? (s : String) : Option StoreOp := all.find? fun op => op.name = s

/-- The kind of a store call. -/
def StoreCall.op : StoreCall K V → StoreOp
  | get _ => .get
  | containsKey _ => .containsKey
  | put _ _ => .put
  | remove _ => .remove
  | clear => .clear
  | iterate => .iterate
  | bulkComputeIfAbsent _ => .bulkComputeIfAbsent
  | bulkCompute _ => .bulkCompute

/-! ## Questions to expiry policies -/

/-- Whose expiry policy is asked. -/
inductive Owner
  | store | cache
deriving DecidableEq, Repr

/-- The word for an owner of a policy. -/
def Owner.name : Owner → String
  | store => "store"
  | cache => "cache"

/-- What an expiry policy is asked about. -/
inductive LifetimeQuery (K V : Type)
  /-- A key without a mapping is mapped to a value. -/
  | creation (k : K) (value : V)
  /-- The value of a mapped key is replaced. -/
  | update (k : K) (old new : V)

/-! ## Failed operations -/

/-- A cache operation whose store call failed. -/
inductive FailedCall (K V : Type)
  | get (k : K)
  | containsKey (k : K)
  | put (k : K) (v : Handle V)
  | remove (k : K)
  | clear
  | iterate
  | putIfAbsent (k : K) (v : Handle V)
  | removeIf (k : K) (value : V)
  | replace (k : K) (v : Handle V)
  | replaceIf (k : K) (old : V) (new : Handle V)
  | getAll (ks : List K)
  | putAll (entries : List (K × Handle V))
  | removeAll (ks : List K)

/-- The kinds of operation whose failures a strategy decides. -/
inductive FailedOp
  | get | containsKey | put | remove | clear | iterate | putIfAbsent | removeIf | replace
  | replaceIf | getAll | putAll | removeAll
deriving DecidableEq, Repr

namespace FailedOp

/-- The word for a kind of operation. -/
def name : FailedOp → String
  | get => "get"
  | containsKey => "contains_key"
  | put => "put"
  | remove => "remove"
  | clear => "clear"
  | iterate => "iterator"
  | putIfAbsent => "put_if_absent"
  | removeIf => "conditional_remove"
  | replace => "replace"
  | replaceIf => "conditional_replace"
  | getAll => "get_all"
  | putAll => "put_all"
  | removeAll => "remove_all"

/-- Every kind of operation. -/
def all : List FailedOp :=
  [get, containsKey, put, remove, clear, iterate, putIfAbsent, removeIf, replace, replaceIf, getAll,
    putAll, removeAll]

/-- The kind of a name. -/
def ofName? (s : String) : Option FailedOp := all.find? fun op => op.name = s

end FailedOp

namespace FailedCall

/-- What the operation answers when it does not fail. -/
@[reducible] def Answer : FailedCall K V → Type
  | get _ => Option (Handle V)
  | containsKey _ => Bool
  | put _ _ => Unit
  | remove _ => Unit
  | clear => Unit
  | iterate => Entry K V
  | putIfAbsent _ _ => Option (Handle V)
  | removeIf _ _ => Bool
  | replace _ _ => Option (Handle V)
  | replaceIf _ _ _ => Bool
  | getAll _ => List (K × Option (Handle V))
  | putAll _ => Unit
  | removeAll _ => Unit

/-- The kind of a failed operation. -/
def op : FailedCall K V → FailedOp
  | get _ => .get
  | containsKey _ => .containsKey
  | put _ _ => .put
  | remove _ => .remove
  | clear => .clear
  | iterate => .iterate
  | putIfAbsent _ _ => .putIfAbsent
  | removeIf _ _ => .removeIf
  | replace _ _ => .replace
  | replaceIf _ _ _ => .replaceIf
  | getAll _ => .getAll
  | putAll _ => .putAll
  | removeAll _ => .removeAll

end FailedCall

/-! ## Notes and events -/

/-- What a store or a failure strategy tells. -/
inductive Note (K V : Type)
  /-- An audited store was called. -/
  | called (call : StoreCall K V)
  /-- An expiry policy was asked. -/
  | asked (owner : Owner) (query : LifetimeQuery K V)
  /-- Something was logged. -/
  | logged (entry : LogEntry K)

/-- The name under which a lifecycle hook is registered. -/
abbrev HookName := String

/-- What a cache tells. -/
inductive Event (K V : Type)
  /-- Its store, a policy or its strategy told something, or it logged something itself. -/
  | note (n : Note K V)
  /-- An outcome was recorded. -/
  | recorded (o : Outcome)
  /-- The failure strategy was consulted. -/
  | consulted (call : FailedCall K V) (error : StoreError)
  /-- A loader was called with a batch of keys. -/
  | loaderCalled (ks : List K)
  /-- A hook ran and ended in a result. -/
  | hookRan (transition : Transition) (hook : HookName) (result : Except Fault Unit)

end ResilientCache
