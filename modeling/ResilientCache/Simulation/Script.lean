import ResilientCache.Cache.Load

/-!
# Scripts

A simulated cache has its surroundings scripted: expiry policies that follow rules, failure
strategies with fixed answers, functions for the bulk primitives, and hooks that fail on demand. The
values are texts.

A value in a script is a `ValueRef`: a text, which makes a new handle wherever it is used, or the
name of a handle that was kept.
-/

namespace ResilientCache.Simulation

variable {K : Type}

/-- A value in a script. -/
inductive ValueRef
  | fresh (text : String)
  | shared (id : String)

/-! ## Policies -/

/-- What a scripted policy gives: a lifetime, a failure, or nothing in particular. -/
abbrev Grant := Option (Except Fault Duration)

/-- The two questions a policy is asked. -/
inductive Occasion
  | creation | update
deriving DecidableEq, Repr

/-- An exception of a scripted policy. A field that is given has to agree with the question. -/
structure Rule (K : Type) where
  on : Occasion
  key : Option K := none
  value : Option String := none
  old : Option String := none
  give : Grant := none

/-- Whether a rule speaks about a question. No rule about an old value speaks about a creation. -/
def Rule.applies [DecidableEq K] (r : Rule K) : LifetimeQuery K String → Bool
  | .creation k value =>
    r.on = .creation && r.key.all (· = k) && r.value.all (· = value) && r.old.isNone
  | .update k old value =>
    r.on = .update && r.key.all (· = k) && r.value.all (· = value) && r.old.all (· = old)

/-- A scripted policy: what it gives on each occasion, and exceptions of which the first that applies
counts. -/
structure PolicyScript (K : Type) where
  creation : Grant := none
  update : Grant := none
  rules : List (Rule K) := []

namespace PolicyScript

variable [DecidableEq K]

/-- What a script gives for a question. -/
def grant (p : PolicyScript K) (q : LifetimeQuery K String) : Grant :=
  match p.rules.find? (·.applies q) with
  | some rule => rule.give
  | none => match q with
    | .creation _ _ => p.creation
    | .update _ _ _ => p.update

/-- The policy of a script: nothing in particular means that a new mapping never expires, and that
an update keeps the expiration. -/
def policy (p : PolicyScript K) : Policy K String where
  creation k value := (p.grant (.creation k value)).getD (.ok .max)
  update k old new := match p.grant (.update k old new) with
    | none => .ok none
    | some given => given.map some

end PolicyScript

/-! ## Strategies -/

/-- A failure strategy with fixed answers; what it has no answer for is propagated. -/
structure StrategyScript (K : Type) where
  get : Option (Except CacheError (Option String)) := none
  containsKey : Option (Except CacheError Bool) := none
  put : Option (Except CacheError Unit) := none
  remove : Option (Except CacheError Unit) := none
  clear : Option (Except CacheError Unit) := none
  iterate : Option (Except CacheError (K × String)) := none
  putIfAbsent : Option (Except CacheError (Option String)) := none
  removeIf : Option (Except CacheError Bool) := none
  replace : Option (Except CacheError (Option String)) := none
  replaceIf : Option (Except CacheError Bool) := none
  getAll : Option (Except CacheError (List (K × Option String))) := none
  putAll : Option (Except CacheError Unit) := none
  removeAll : Option (Except CacheError Unit) := none

namespace StrategyScript

/-- How many handles one answer of a script may need. -/
def handles (script : StrategyScript K) : Nat :=
  match script.getAll with
  | some (.ok pairs) => pairs.length + 1
  | _ => 1

/-- Handles for the texts of an answer, numbered from `base`. -/
def number (base : Nat) (pairs : List (K × Option String)) : List (K × Option (Handle String)) :=
  pairs.zipIdx base |>.map fun ((k, text), id) => (k, text.map fun text => ⟨id, text⟩)

/-- The script's answer to a failed call, with handles numbered from `base`. -/
def answer? (script : StrategyScript K) (base : Nat) :
    (call : FailedCall K String) → Option (Except CacheError call.Answer)
  | .get _ => script.get.map fun r => r.map fun v => v.map fun text => ⟨base, text⟩
  | .containsKey _ => script.containsKey
  | .put _ _ => script.put
  | .remove _ => script.remove
  | .clear => script.clear
  | .iterate => script.iterate.map fun r => r.map fun (k, text) => ⟨k, ⟨base, text⟩⟩
  | .putIfAbsent _ _ => script.putIfAbsent.map fun r => r.map fun v => v.map fun text => ⟨base, text⟩
  | .removeIf _ _ => script.removeIf
  | .replace _ _ => script.replace.map fun r => r.map fun v => v.map fun text => ⟨base, text⟩
  | .replaceIf _ _ _ => script.replaceIf
  | .getAll _ => script.getAll.map fun r => r.map (number base)
  | .putAll _ => script.putAll
  | .removeAll _ => script.removeAll

/-- The strategy of a script. -/
def strategy {σ : Type} (script : StrategyScript K) (base : Nat) : Strategy σ K String := fun call e =>
  match script.answer? base call with
  | some decision => return decision
  | none => Strategy.propagating call e

end StrategyScript

/-! ## Functions for the bulk primitives -/

/-- A scripted batch function or loader. Its answer is put together from what it echoes, what it
gives and what it keeps; a later pair for a key overrides an earlier one. -/
structure BatchScript (K : Type) where
  /-- Fail instead. -/
  error : Option Fault := none
  /-- Answer every key with this text before the key's own. -/
  echo : Option String := none
  /-- The keys that are not echoed. -/
  skipped : List K := []
  give : List (K × Option ValueRef) := []
  /-- The keys that keep the very handle they hold. -/
  keep : List K := []

/-- A batch function whose handles are there: `give` holds them, and those of echoed texts are
numbered from `base`. -/
structure Batch (K : Type) where
  error : Option Fault
  echo : Option String
  skipped : List K
  give : List (K × Option (Handle String))
  keep : List K
  base : Nat

namespace Batch

variable [DecidableEq K] [KeyText K]

/-- What a batch function answers to some keys before it keeps anything. -/
def answerKeys (b : Batch K) (ks : List K) : List (K × Option (Handle String)) :=
  let echoed := match b.echo with
    | none => []
    | some head => (ks.filter (· ∉ b.skipped)).zipIdx b.base |>.map fun (k, id) =>
      (k, some ⟨id, head ++ KeyText.plain k⟩)
  echoed ++ b.give

/-- The answer to a batch of keys. -/
def replyToKeys (b : Batch K) (ks : List K) : Except Fault (Mappings K String) :=
  match b.error with
  | some fault => .error fault
  | none => .ok (b.answerKeys ks)

/-- The answer to a batch of keys with their current values. -/
def replyToMappings (b : Batch K) (batch : Mappings K String) : Except Fault (Mappings K String) :=
  match b.error with
  | some fault => .error fault
  | none => .ok (b.answerKeys (batch.map Prod.fst) ++ batch.filter fun (k, _) => k ∈ b.keep)

/-- The loader that answers as the function does; keys with no value are left out. -/
def loader (b : Batch K) : Loader K String := fun ks =>
  (b.replyToKeys ks).map fun pairs =>
    .ofList (pairs.filterMap fun (k, v) => v.map fun v => (k, v))

end Batch

/-! ## Hooks -/

/-- A scripted hook. A plain hook never fails, and nobody sees it run. -/
structure HookScript where
  plain : Bool := false
  failInit : Option String := none
  failClose : Option String := none

/-- How a hook ends in a transition. -/
def HookScript.result (h : HookScript) (t : Transition) : Except Fault Unit :=
  let text := if h.plain then none else match t with
    | .init => h.failInit
    | .close => h.failClose
  match text with
  | none => .ok ()
  | some text => .error (.text text)

end ResilientCache.Simulation
