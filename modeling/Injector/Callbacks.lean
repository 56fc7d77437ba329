import Injector.Registry
/-!
# Callbacks

What a container does apart from giving out instances: hooks for fresh instances,
and callbacks and teardowns for its end. Those for scopes are copied into every
scope when it is opened; a scope also runs the ones registered on itself.
-/
namespace Injector

/-- A hook for fresh instances of type `ty`. -/
structure Hook where
  ty : Ty
  script : Script Command
  deriving Inhabited

/-- What a container still has to do at its end. -/
inductive Teardown where
  /-- Finalizes one instance that the container built. -/
  | finalize (f : Finalizer) (v : Instance)
  | callback (s : Script Op)

/-- The hooks and callbacks of one container. -/
structure Callbacks where
  /-- In the order of registration and of builds. -/
  terminating : List Teardown := []
  terminatingForScopes : List (Script Op) := []
  afterResolving : Table Key (List Hook) := Table.empty
  afterResolvingForScopes : Table Key (List Hook) := Table.empty
  /-- Whether these are the callbacks of a scope. -/
  inScope : Bool := false
  deriving Inhabited

namespace Callbacks

/-- Adds a callback for the end. -/
def addTerminating (c : Callbacks) (inScopes : Bool) (s : Script Op) : Callbacks :=
  { c with
    terminating := if !inScopes || c.inScope then c.terminating ++ [.callback s] else c.terminating
    terminatingForScopes := if inScopes then c.terminatingForScopes ++ [s] else c.terminatingForScopes }

/-- Adds the teardown of a built instance. -/
def addTeardown (c : Callbacks) (t : Teardown) : Callbacks :=
  { c with terminating := c.terminating ++ [t] }

/-- Leaves nothing to do at the end. -/
def clearTerminating (c : Callbacks) : Callbacks := { c with terminating := [] }

/-- A table of hooks with one more at the end of the list of `key`. -/
def addHook (hooks : Table Key (List Hook)) (key : Key) (h : Hook) : Table Key (List Hook) :=
  hooks.insert key ((hooks.get? key).getD [] ++ [h])

/-- Adds a hook for fresh instances of `key`. -/
def addAfterResolving (c : Callbacks) (inScopes : Bool) (key : Key) (h : Hook) : Callbacks :=
  { c with
    afterResolving := if !inScopes || c.inScope then addHook c.afterResolving key h else c.afterResolving
    afterResolvingForScopes :=
      if inScopes then addHook c.afterResolvingForScopes key h else c.afterResolvingForScopes }

/-- The hooks of `key`. -/
def hooksOf (c : Callbacks) (key : Key) : List Hook := (c.afterResolving.get? key).getD []

/-- The hooks for a fresh instance of `key`: those of the key, then those of the plain key
if that is another one. -/
def hooksFor (c : Callbacks) (key : Key) : List Hook :=
  c.hooksOf key ++ (if key = key.plain then [] else c.hooksOf key.plain)

/-- The callbacks of a scope: what is for scopes becomes its own and stays for the scopes
opened on it in turn. -/
def child (c : Callbacks) : Callbacks :=
  { terminating := c.terminatingForScopes.map .callback
    terminatingForScopes := c.terminatingForScopes
    afterResolving := c.afterResolvingForScopes
    afterResolvingForScopes := c.afterResolvingForScopes
    inScope := true }

end Callbacks

end Injector
