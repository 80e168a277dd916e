import ResilientCache.Store.Basic

/-!
# Audited stores

`store.audited` does what `store` does and tells each call before it is served.
-/

namespace ResilientCache

variable {σ K V : Type}

/-- The store that tells every call it receives. -/
def Store.audited (store : Store σ K V) : Store σ K V where
  get k := do Action.tell (.called (.get k)); store.get k
  containsKey k := do Action.tell (.called (.containsKey k)); store.containsKey k
  put k v := do Action.tell (.called (.put k v)); store.put k v
  remove k := do Action.tell (.called (.remove k)); store.remove k
  clear := do Action.tell (.called .clear); store.clear
  iterate := do Action.tell (.called .iterate); store.iterate
  bulkComputeIfAbsent ks s :=
    .tell [.called (.bulkComputeIfAbsent ks)] (store.bulkComputeIfAbsent ks s)
  bulkCompute ks s := .tell [.called (.bulkCompute ks)] (store.bulkCompute ks s)
  metrics := store.metrics

end ResilientCache
