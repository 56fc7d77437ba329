import Injector.Failure
import Injector.Lifetime
import Injector.Parameter
/-!
# Answers and events

What an operation answers, and what is told while it runs.
-/
namespace Injector

/-- The answer to an operation. -/
inductive Reply where
  | ok
  /-- The operation names no known container. -/
  | noContainer
  /-- The operation names no saved instance. -/
  | noSaved
  | truth (b : Bool)
  | instance (v : Instance)
  | failed (f : Failure)
  | several (rs : List Reply)
  | key (text : String) (isName : Bool) (ty : Option Ty)
  | comparison (equal : Bool) (order : Ordering) (sameType : Bool)
  | lifetime (l : Lifetime)
  | arguments (positional : Nat) (empty : Bool)
  | signature (length : Nat) (empty : Bool) (names : List (Option String)) (defaults : List (Option Instance))
  | primitive (p : Primitive) (v : Option Instance)
  | parameters (ps : List Parameter)

namespace Reply

instance : Inhabited Reply := ⟨.ok⟩

/-- The failure an operation answers with. -/
def failure? : Reply → Option Failure
  | .failed f => some f
  | _ => none

/-- The answer of an operation that is done for its effect. -/
def ofResult : Except Failure Unit → Reply
  | .ok () => .ok
  | .error f => .failed f

end Reply

/-- What is told while operations run. -/
inductive Event where
  /-- A function provided an instance. -/
  | built (function : String) (v : Instance) (args : List Given)
  | failed (function : String) (args : List Given)
  | panicked (function : String) (args : List Given)
  /-- An instance was converted into a new one. -/
  | converted (result input : Instance)
  | hook (id : String) (v : Instance) (inScope : Bool)
  | finalized (id : String) (v : Instance)
  | terminating (id : String)
  /-- An operation inside of a function, hook, callback or scope was performed. -/
  | performed (label : String) (reply : Reply)

end Injector
