import Injector.Frame
import Injector.World
/-!
# Tasks

A task is what it does now (`Activity`) and what waits for the outcome (`Stack`).
An activity comes to an answer (an instance or a failure), to the reply of an
operation, or just to an end; the kinds keep outcomes and what waits for them in step.
-/
namespace Injector

/-- What an activity comes to. -/
inductive Kind where
  /-- An instance or a failure. -/
  | answer
  /-- The reply of an operation. -/
  | reply
  /-- Only that it is over. -/
  | done
  deriving DecidableEq, Repr

/-- The outcomes of a kind. -/
abbrev Kind.Outcome : Kind → Type
  | .answer => Except Failure Instance
  | .reply => Reply
  | .done => Unit

/-- Where an operation is performed: the container that `$` stands for, if any, and the
keys being built around it, outermost first. -/
structure Scene where
  self : Option ContainerId := none
  path : List Key := []
  deriving DecidableEq, Repr, Inhabited

/-- A request for a key, with the function that makes the instance if nothing is bound,
and the keys being built around it. -/
structure Request where
  container : ContainerId
  key : Key
  fallback : Option Function := none
  path : List Key
  deriving Inhabited

/-- A build, from the moment it lines up for its lock. -/
structure Build where
  container : ContainerId
  key : Key
  /-- The binding found when the key was looked up; without one, the fallback. -/
  binding : Option Binding
  /-- The keys being built, this one last. -/
  path : List Key
  lock : MutexId
  ticket : Ticket
  deriving Inhabited

namespace Build

/-- What makes the instance, if anything does. -/
def maker (b : Build) : Option Maker := b.binding.map Binding.maker

/-- For how long the instance is shared. -/
def lifetime (b : Build) : Lifetime := (b.binding.map Binding.lifetime).getD .transient

/-- What ends the instance. -/
def finalizer (b : Build) : Option Finalizer := b.binding.bind Binding.finalizer

end Build

/-- A function being called: its parameters are filled slot by slot. -/
structure Job where
  function : Function
  /-- What a failure of the function is a failed build of. -/
  subject : Key
  frame : Frame
  todo : List Slot
  filled : List Filled

namespace Job

/-- A call of `f` on a container. -/
def start (f : Function) (subject : Key) (container : ContainerId) (inScope : Bool)
    (arguments : Arguments) (signature : Signature) (path : List Key) : Job :=
  { function := f
    subject
    frame := { container, inScope, arguments, signature, callable := f.name, position := 0, path }
    todo := (Param.slotsOf f.params 0).1
    filled := [] }

/-- The job with its next slot filled. -/
def fill (j : Job) (filled : Filled) (frame : Frame) : Job :=
  { j with frame, todo := j.todo.tail, filled := j.filled ++ [filled] }

/-- The arguments of the function, in the shape of its parameters. -/
def args (j : Job) : List Given := (Param.shapeAll j.function.params j.filled).1

/-- What the function can make its product from. -/
def ingredients (j : Job) : List Instance := j.filled.flatMap Filled.ingredients

/-- The container that `$` stands for in the body: the first that a parameter holds. -/
def self (j : Job) : Option ContainerId :=
  j.filled.findSome? fun
    | .container c _ => some c
    | _ => none

/-- Where the operations of the body are performed. -/
def scene (j : Job) : Scene := ⟨j.self, j.frame.path⟩

end Job

/-- What a task does now. -/
inductive Activity : Kind → Type where
  /-- Looks a key up. -/
  | resolve (r : Request) : Activity .answer
  /-- Waits in line for the lock of a build. -/
  | line (b : Build) : Activity .answer
  /-- Fills the next slot. -/
  | fill (j : Job) : Activity .answer
  /-- Is suspended so many times, and then starts the body. -/
  | pause (j : Job) (times : Nat) : Activity .answer
  | perform (s : Scene) (o : Op) : Activity .reply
  /-- Runs what a container still has to do, one after the other; `path` are the keys being
  built around it. -/
  | windDown (path : List Key) (ts : List Teardown) : Activity .done
  /-- Waits for other tasks, known by their numbers. -/
  | await (tasks : List Nat) : Activity .reply
  /-- Hands an outcome over. -/
  | give {k : Kind} (outcome : k.Outcome) : Activity k

/-- What waits for an outcome of kind `a` and comes to one of kind `b`. -/
inductive Cont : Kind → Kind → Type where
  /-- The next slot of a job, which asked for `key`. -/
  | slot (j : Job) (key : Key) : Cont .answer .answer
  /-- A build, for its instance. -/
  | build (b : Build) : Cont .answer .answer
  /-- A conversion, for an instance of type `input`. -/
  | convert (product : Product) (input : Ty) : Cont .answer .answer
  /-- The body of a job, for the reply of an operation; `rest` comes after it. -/
  | body (j : Job) (h : Heading) (rest : List Op) : Cont .reply .answer
  /-- An operation that asked container `c` for an instance. -/
  | deliver (c : ContainerId) (expected : Option Ty) (save : Option String) : Cont .answer .reply
  /-- An operation that asked container `c` for an instance only to have it shown to hooks. -/
  | observe (c : ContainerId) : Cont .answer .reply
  /-- An operation on container `c` that replies once all that was to do is done. -/
  | close (c : Option ContainerId) (r : Reply) : Cont .done .reply
  /-- The body of a scope, for the reply of an operation; `rest` comes after it. -/
  | scopeBody (scope : ContainerId) (name : String) (path : List Key) (h : Heading) (rest : List Op) :
    Cont .reply .reply
  /-- A callback, for the reply of an operation; `rest` comes after it, then `ts`. -/
  | callback (path : List Key) (h : Heading) (rest : List Op) (ts : List Teardown) : Cont .reply .done

/-- What waits for an outcome, innermost first. A task comes to a reply. -/
inductive Stack : Kind → Type where
  | nil : Stack .reply
  | cons {a b : Kind} (c : Cont a b) (below : Stack b) : Stack a

/-- What is done now, and what waits for its outcome. -/
structure Task where
  kind : Kind
  activity : Activity kind
  stack : Stack kind

namespace Task

/-- A task that performs an operation. -/
def ofOp (s : Scene) (o : Op) : Task := ⟨.reply, .perform s o, .nil⟩

/-- A task that does what an ended container still had to do. -/
def ofTeardowns (ts : List Teardown) : Task := ⟨.done, .windDown [] ts, .cons (.close none .ok) .nil⟩

/-- The reply of a finished task. -/
def reply? : Task → Option Reply
  | ⟨.reply, .give r, .nil⟩ => some r
  | _ => none

end Task

/-! ## Containers held

A task keeps the containers alive that it still works with. -/

/-- The containers an activity works with. -/
def Activity.held : {k : Kind} → Activity k → List ContainerId
  | _, .resolve r => [r.container]
  | _, .line b => [b.container]
  | _, .fill j | _, .pause j _ => [j.frame.container]
  | _, .perform s _ => s.self.toList
  | _, .windDown _ _ | _, .await _ | _, .give _ => []

/-- The containers that what waits works with. -/
def Cont.held : {a b : Kind} → Cont a b → List ContainerId
  | _, _, .slot j _ | _, _, .body j _ _ => [j.frame.container]
  | _, _, .build b => [b.container]
  | _, _, .convert _ _ => []
  | _, _, .deliver c _ _ | _, _, .observe c => [c]
  | _, _, .close c _ => c.toList
  | _, _, .scopeBody scope _ _ _ _ => [scope]
  | _, _, .callback _ _ _ _ => []

/-- The containers that all that waits works with. -/
def Stack.held : {k : Kind} → Stack k → List ContainerId
  | _, .nil => []
  | _, .cons c below => c.held ++ below.held

/-- The containers a task keeps alive. -/
def Task.held (t : Task) : List ContainerId := t.activity.held ++ t.stack.held

/-! ## Builds in progress -/

/-- The builds that hold their lock, innermost first. -/
def Stack.builds : {k : Kind} → Stack k → List Build
  | _, .nil => []
  | _, .cons (.build b) below => b :: below.builds
  | _, .cons _ below => below.builds

/-- The builds of a task that hold their lock, innermost first. -/
def Task.builds (t : Task) : List Build := t.stack.builds

end Injector
