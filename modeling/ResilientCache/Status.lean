/-!
# Availability of a cache

A cache starts `uninitialized`, becomes `available` by its `init` transition and `closed`, for
good, by its `close` transition.
-/

namespace ResilientCache

/-- Where a cache is in its life. -/
inductive Status
  | uninitialized
  | available
  | closed
deriving DecidableEq, Repr

/-- The word for a status in messages. -/
def Status.name : Status → String
  | uninitialized => "uninitialized"
  | available => "available"
  | closed => "closed"

/-- The two steps of a cache's life. -/
inductive Transition
  | init
  | close
deriving DecidableEq, Repr

namespace Transition

/-- The word for a transition in messages. -/
def name : Transition → String
  | init => "init"
  | close => "close"

/-- The transition that undoes another one. -/
def undo : Transition → Transition
  | init => close
  | close => init

/-- The status a transition starts from. -/
def source : Transition → Status
  | init => .uninitialized
  | close => .available

/-- The status a transition ends in. -/
def target : Transition → Status
  | init => .available
  | close => .closed

end Transition

end ResilientCache
