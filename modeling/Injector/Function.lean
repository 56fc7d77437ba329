import Injector.Operation
import Injector.Signature
import Injector.Failure
/-!
# Functions

A function fills its parameters, performs the operations of its body and then
provides a new instance, fails or panics.
-/
namespace Injector

/-- What a function does before it provides its instance, and where it runs. -/
inductive Body where
  /-- Commands on another thread, while the task waits. -/
  | blocking (commands : List Command)
  /-- Commands in the task, without suspending it. -/
  | inline (commands : List Command)
  /-- Operations in the task, which is first suspended so many times. -/
  | awaited (yields : Nat) (operations : List Op)
  deriving Inhabited

/-- A constructor, or another function to be called. -/
structure Function where
  name : String := ""
  product : Product := .text
  params : List Param := []
  names : List String := []
  defaults : List (String × Literal) := []
  body : Body := .blocking []
  /-- The error it fails with, from the outermost context to the root cause. -/
  error : Option (String × List String) := none
  panics : Bool := false
  /-- How many invocations fail or panic; all, if there is no number. -/
  failures : Option Nat := none
  deriving Inhabited

namespace Function

/-- The names and defaults of the parameters. -/
def signature (f : Function) : Signature :=
  .ofLists f.names (Literal.makeNamed Table.empty f.defaults {}).1

/-- How often the task is suspended before the body starts. -/
def suspensions (f : Function) : Nat :=
  match f.body with
  | .blocking _ => 1
  | .inline _ => 0
  | .awaited yields _ => yields

/-- What the `count`-th invocation fails with, if it fails. -/
def fault (f : Function) (count : Nat) : Option Fault :=
  if f.failures.all (fun n => count ≤ n) then
    if f.panics then some .panicked
    else f.error.map (fun e => .custom e.1 e.2)
  else none

/-- The key of a function that is called without being registered. -/
def key (f : Function) : Key := .type (.function f.name)

end Function

/-- The functions that operations name, and those of the types that can build themselves. -/
structure Program where
  functions : Table String Function := Table.empty
  injectables : Table Ty Function := Table.empty
  deriving Inhabited

namespace Program

/-- The function of a name. An unknown name stands for a function without parameters. -/
def function (p : Program) (name : String) : Function :=
  (p.functions.get? name).getD { name := name }

/-- How a type builds itself; without parameters if nothing else is said. -/
def injectable (p : Program) (t : Ty) : Function :=
  (p.injectables.get? t).getD { name := t.name, product := .object t.name, body := .inline [] }

end Program

end Injector
