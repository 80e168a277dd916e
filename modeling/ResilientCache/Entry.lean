import ResilientCache.Handle

/-!
# Entries

An `Entry` is one live mapping as an iteration yields it. Two entries are equal, as `==` compares
them, when their keys and the values of their handles are; which handles hold the values does not
matter.
-/

namespace ResilientCache

/-- A key and the handle it is mapped to. -/
structure Entry (K V : Type) where
  key : K
  value : Handle V
deriving DecidableEq

instance {K V : Type} [BEq K] [BEq V] : BEq (Entry K V) where
  beq a b := a.key == b.key && a.value.value == b.value.value

end ResilientCache
