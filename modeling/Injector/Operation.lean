import Injector.Lifetime
import Injector.Parameter
/-!
# Operations

What can be asked of a container, as data: the text of a bootstrap, of a
constructor's body, of a hook or of a callback. Operations name containers,
functions and saved instances; what the names stand for is found when an
operation is performed.

A command is over at once. Any other operation may have to wait, so hooks and
functions that cannot wait are made of commands.
-/
namespace Injector

/-- Actions with an id, by which their start is told. -/
structure Script (α : Type) where
  id : String
  actions : List α
  deriving Repr, Inhabited

/-- What the instances of a new binding are made by. -/
inductive Source where
  /-- A function; `signed` tells whether the names and defaults of its parameters apply. -/
  | function (name : String) (signed : Bool)
  /-- A type that can build itself. -/
  | injectable (t : Ty)
  /-- The instance of another key, which has to be of type `input`, converted to `product`. -/
  | chained (product : Product) (input : Ty) (target : Key)
  deriving DecidableEq, Repr

/-- What a command does. `α` is the type of the commands inside, `β` that of the operations inside. -/
inductive Instant (α β : Type) where
  /-- Opens a container without a base. -/
  | openRoot (name : String)
  | openScope (name : String)
  /-- Gives the container a second name. -/
  | clone (name : String)
  /-- Forgets the name. -/
  | drop
  | isScope
  /-- Binds a key; without one, the type that the source provides. -/
  | register (key : Option Key) (source : Source) (lifetime : Lifetime) (finalizer : Option (Script β))
  /-- Puts an instance under a key; without one, under its own type. -/
  | pin (key : Option Key) (value : Literal)
  | addAlias (key : Key) (name : String)
  | bound (key : Key)
  /-- Adds a hook for fresh instances; `inScopes` hooks are for the scopes opened later. -/
  | afterResolving (inScopes : Bool) (t : Ty) (key : Key) (hook : Script α)
  /-- Adds a callback for the end; `inScopes` callbacks are for the scopes opened later. -/
  | terminating (inScopes : Bool) (callback : Script β)
  /-- Whether two saved instances are the same. -/
  | same (a b : String)
  /-- What there is to know about a key. -/
  | describe (key : Key)
  | compare (a b : Key)
  | lifetime (l : Lifetime)
  | arguments (positional : List Literal) (keyword : List (String × Literal))
  | signature (names : List String) (defaults : List (String × Literal)) (ask : List String)
  | read (p : Primitive) (value : Literal)
  | parameters (ps : List Param)

/-- What an operation does that may have to wait. -/
inductive Lasting (α β : Type) where
  /-- Resolves a key. With `expected`, the instance has to be of that type; an `autowired`
  type builds itself if nothing is bound. A name given by `save` keeps the instance. -/
  | get (expected : Option Ty) (key : Key) (autowired : Bool) (save : Option String)
  /-- Calls a function without registering it. -/
  | call (function : String) (positional : List Literal) (keyword : List (String × Literal))
      (save : Option String)
  /-- Adds a hook and calls it at once if the key is already resolved. -/
  | onResolved (t : Ty) (key : Key) (hook : Script α)
  | terminate
  /-- Opens a scope for a sequence of operations and terminates it after them. -/
  | scope (name : String) (body : List β)
  /-- Performs operations as tasks of their own and waits for all. -/
  | join (operations : List β)

/-- What all operations have: what the log calls it, the name of the container it is asked
of, and whether the sequence it stands in ends if it fails. -/
structure Heading where
  label : String
  target : String
  must : Bool
  deriving DecidableEq, Repr, Inhabited

mutual

/-- An operation that is over at once. -/
inductive Command where
  | mk (heading : Heading) (action : Instant Command Op)

/-- An operation. -/
inductive Op where
  | instant (c : Command)
  | lasting (heading : Heading) (action : Lasting Command Op)

end

namespace Command

/-- What a command has in common with other operations. -/
def heading : Command → Heading
  | .mk heading _ => heading

/-- What a command does. -/
def action : Command → Instant Command Op
  | .mk _ action => action

end Command

/-- What an operation has in common with others. -/
def Op.heading : Op → Heading
  | .instant c => c.heading
  | .lasting heading _ => heading

instance : Inhabited Command := ⟨.mk default .drop⟩

instance : Inhabited Op := ⟨.instant default⟩

end Injector
