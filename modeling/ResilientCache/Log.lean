import ResilientCache.Error
import ResilientCache.Text.Key

/-!
# Log entries

What a cache and its store log is a value: a `LogEntry` says what happened, and `level`, `message`
and `fields` say how that is written. Transitions are logged for debugging, a skipped entry is a
warning, and everything that lost or may have lost something is an error.
-/

namespace ResilientCache

/-- Which mappings a store failure has put in doubt. -/
inductive Scope (K : Type)
  | key (k : K)
  | keys (ks : List K)
  | all

/-- How serious a log entry is. -/
inductive LogLevel
  | debug | warn | error
deriving DecidableEq, Repr

/-- The word for a level. -/
def LogLevel.name : LogLevel → String
  | debug => "debug"
  | warn => "warn"
  | error => "error"

/-- What a cache or its store logs. -/
inductive LogEntry (K : Type)
  /-- A transition begins. -/
  | begun (transition : Transition)
  /-- A transition is over. -/
  | ended (transition : Transition)
  /-- A hook aborted a transition. -/
  | hookFailed (transition : Transition) (fault : Fault)
  /-- A hook failed while a transition was being undone. -/
  | undoFailed (transition : Transition) (fault : Fault)
  /-- An expiry policy failed and was taken to grant no lifetime. -/
  | expiryFailed (fault : Fault)
  /-- A store failure was answered without touching the store. -/
  | degraded (scope : Scope K) (cause : StoreError)
  /-- The mappings that a store failure put in doubt were removed. -/
  | recovered (scope : Scope K) (cause : StoreError)
  /-- The mappings that a store failure put in doubt could not be removed. -/
  | inconsistent (scope : Scope K) (cause recovery : StoreError)
  /-- A store failed while it was being iterated. -/
  | iterationFailed (cause : StoreError)
  /-- An entry that could not be read was left out. -/
  | skippedEntry (cause : StoreError)

/-- The word for what a scope covers. -/
def Scope.noun {K : Type} : Scope K → String
  | key _ => "key"
  | keys _ => "keys"
  | all => "cache"

/-- The field in which a scope is logged, if it names keys. -/
def Scope.fields {K : Type} [KeyText K] : Scope K → List (String × String)
  | key k => [("key", KeyText.shown k)]
  | keys ks => [("keys", showKeys ks)]
  | all => []

namespace LogEntry

variable {K : Type}

/-- How serious an entry is. -/
def level : LogEntry K → LogLevel
  | begun _ | ended _ => .debug
  | skippedEntry _ => .warn
  | _ => .error

/-- The text of an entry. -/
def message : LogEntry K → String
  | begun .init => "cache initializing"
  | begun .close => "cache closing"
  | ended .init => "cache available"
  | ended .close => "cache closed"
  | hookFailed t _ => "lifecycle hook failed during " ++ t.name
  | undoFailed t _ => "lifecycle hook failed while rolling back " ++ t.name
  | expiryFailed _ => "expiry computation failed, expiry duration will be 0"
  | degraded _ _ => "store failure, degraded without recovery"
  | recovered scope _ => scope.noun ++ " recovered from store failure"
  | inconsistent scope _ _ => scope.noun ++ " in possibly inconsistent state"
  | iterationFailed _ => "store failure during iteration"
  | skippedEntry _ => "skipping entry that failed during remove_all_entries"

/-- What is logged beside the text, by name. -/
def fields [KeyText K] : LogEntry K → List (String × String)
  | begun _ | ended _ => []
  | hookFailed _ fault | undoFailed _ fault | expiryFailed fault => [("error", fault.message)]
  | degraded scope cause | recovered scope cause => scope.fields ++ [("error", cause.message)]
  | inconsistent scope cause recovery =>
    scope.fields ++ [("error", cause.message), ("recovery_error", recovery.message)]
  | iterationFailed cause | skippedEntry cause => [("error", cause.message)]

end LogEntry

end ResilientCache
