/-!
# Lifetimes

How long the instance of a binding is shared, and which containers build it.
-/
namespace Injector

/-- `cached`: the container that built an instance keeps it and gives it out again.
`inScopes`: the binding is not used by a container without a base; every scope that
is opened later gets a copy of it and builds its own instance. -/
structure Lifetime where
  cached : Bool := false
  inScopes : Bool := false
  deriving DecidableEq, Repr, Inhabited

namespace Lifetime

/-- A new instance on every resolution; also the default. -/
def transient : Lifetime := ⟨false, false⟩

/-- One instance per container. -/
def singleton : Lifetime := ⟨true, false⟩

/-- One instance per scope. -/
def perScope : Lifetime := ⟨true, true⟩

end Lifetime

end Injector
