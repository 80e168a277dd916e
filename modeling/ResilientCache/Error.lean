import ResilientCache.Status

/-!
# Failures

Four kinds of failure meet in a cache:

* a `StoreError` is raised by a store that cannot serve a call;
* a `BulkError` ends a bulk primitive of a store, either in the store or in the function that was
  handed to it;
* a `CacheError` is what a cache operation surfaces to its caller;
* a `Fault` is a failure of code outside the cache (a loader, a hook, an expiry policy). Such code
  may pass on any of the other three, or fail with a text of its own.

Each has a `message`, and a `chain`: the messages of what caused it, of what caused that, and so
on. `CacheError.store` and `BulkError.store` are transparent: they show the store error's own
message and go on with its causes.

`CacheError.ofBulk` is the failure of a bulk load. Its headline is `ofBulk_loading`: a loader that
already fails with a loading error is not wrapped a second time.
-/

namespace ResilientCache

mutual

/-- A failure of code that the cache calls but does not own. -/
inductive Fault
  | text (message : String)
  | store (error : StoreError)
  | bulk (error : BulkError)
  | cache (error : CacheError)

/-- A store could not serve a call. -/
inductive StoreError
  | plain (description : String)
  | causedBy (description : String) (cause : Fault)

/-- A bulk primitive of a store failed. -/
inductive BulkError
  | store (error : StoreError)
  | function (fault : Fault)

/-- What a cache operation surfaces to its caller. -/
inductive CacheError
  | unavailable (status : Status)
  | illegalState (reason : String)
  | lifecycle (transition : Transition) (cause : Fault)
  | noSuchElement
  | loading (cause : Fault)
  | iteration (cause : StoreError)
  | store (error : StoreError)
  | compute (cause : Fault)

end

deriving instance DecidableEq for Fault, StoreError, BulkError, CacheError

/-- What the store says about its failure, without the words around it. -/
def StoreError.description : StoreError → String
  | plain d => d
  | causedBy d _ => d

/-- The text shown for a store error. -/
def StoreError.message (e : StoreError) : String := "store access failed: " ++ e.description

/-! ## Messages -/

mutual

/-- The text shown for a fault. -/
def Fault.message : Fault → String
  | .text m => m
  | .store e => e.message
  | .bulk e => e.message
  | .cache e => e.message

/-- The text shown for a bulk error. -/
def BulkError.message : BulkError → String
  | .store e => e.message
  | .function f => "bulk compute function failed: " ++ f.message

/-- The text shown for a cache error. -/
def CacheError.message : CacheError → String
  | .unavailable s => "cache is not available (status: " ++ s.name ++ ")"
  | .illegalState reason => "illegal state: " ++ reason
  | .lifecycle t _ => t.name ++ " transition failed"
  | .noSuchElement => "no more entries"
  | .loading f => "bulk loading failed: " ++ f.message
  | .iteration e => "iteration failed: " ++ e.message
  | .store e => e.message
  | .compute f => "compute function failed: " ++ f.message

end

/-! ## Causes -/

mutual

/-- The messages of a fault's causes, nearest first. -/
def Fault.chain : Fault → List String
  | .text _ => []
  | .store e => e.chain
  | .bulk e => e.chain
  | .cache e => e.chain

/-- The messages of a store error's causes, nearest first. -/
def StoreError.chain : StoreError → List String
  | .plain _ => []
  | .causedBy _ f => f.message :: f.chain

/-- The messages of a bulk error's causes, nearest first. -/
def BulkError.chain : BulkError → List String
  | .store e => e.chain
  | .function f => f.message :: f.chain

/-- The messages of a cache error's causes, nearest first. -/
def CacheError.chain : CacheError → List String
  | .unavailable _ => []
  | .illegalState _ => []
  | .lifecycle _ f => f.message :: f.chain
  | .noSuchElement => []
  | .loading f => f.message :: f.chain
  | .iteration e => e.message :: e.chain
  | .store e => e.chain
  | .compute f => f.message :: f.chain

end

/-! ## Failures of a bulk load -/

/-- The failure of a bulk load, whether the store or the loader failed. -/
def CacheError.ofBulk : BulkError → CacheError
  | .store e => .loading (.store e)
  | .function (.cache (.loading cause)) => .loading cause
  | .function fault => .loading fault

/-- A loading error that a loader passes on keeps its one layer. -/
@[simp] theorem CacheError.ofBulk_loading (cause : Fault) :
    ofBulk (.function (.cache (.loading cause))) = .loading cause := rfl

end ResilientCache
