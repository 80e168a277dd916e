/-!
# Shared values

A cache does not copy values: it passes on handles to them. Two handles may hold equal values and
still be different handles, and the store tells them apart. `Handle V` pairs a value with the
identity of its handle, so that equality of `Handle V` is sameness of handles. A store that has to
decide it asks for `DecidableEq (Handle V)`. Values are compared by `==`: an operation that compares
them asks for `BEq V` and for no law of it, so that the comparison may be any.
-/

namespace ResilientCache

/-- A shared value: what it holds, and which handle it is. -/
structure Handle (V : Type) where
  id : Nat
  value : V
deriving DecidableEq

end ResilientCache
