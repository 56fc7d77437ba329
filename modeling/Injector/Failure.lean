import Injector.Key
/-!
# Failures

Why a resolution fails (`Failure`) and why a constructor does (`Fault`). The two
are mutual: a failed constructor fails the resolution that ran it, and a failed
resolution fails the constructor that asked for it.
-/
namespace Injector

mutual

/-- Why a resolution or a call has no instance to give. -/
inductive Failure where
  /-- Nothing is bound for the key. -/
  | unbound (key : Key)
  /-- The key is bound for scopes, and no scope asked. -/
  | noAccess (key : Key)
  /-- A primitive parameter has no keyword argument, positional argument or default. -/
  | missingArgument (label : String) (position : Nat) (callable : String) (ty : Ty)
  /-- A parameter that asks the container did not get its instance. -/
  | dependency (label : String) (callable : String) (key : Key) (source : Failure)
  /-- The constructor for the key failed. -/
  | build (key : Key) (source : Fault)
  | incorrectType (expected actual : Ty)
  /-- The last key of the path is already being built. -/
  | cycle (path : List Key)

/-- Why a constructor fails. -/
inductive Fault where
  /-- An error of its own, told from the outermost context to the root cause. -/
  | custom (context : String) (causes : List String)
  /-- One of its own container operations failed. -/
  | refused (source : Failure)
  | panicked

end

deriving instance DecidableEq for Failure, Fault

mutual

/-- What a failure says. -/
def Failure.message : Failure → String
  | .unbound key => "No binding found for " ++ key.text
  | .noAccess key =>
    key.text ++ " is bound for scoped containers only. Create a scoped container to resolve it"
  | .missingArgument label position callable ty =>
    "Parameter `" ++ label ++ "` (position " ++ toString position ++ ", " ++ ty.name ++ ") of " ++ callable
      ++ " has no keyword argument, positional argument or default value"
  | .dependency label callable key source =>
    "Parameter `" ++ label ++ "` (" ++ key.text ++ ") of " ++ callable ++ " can't be resolved: "
      ++ source.message
  | .build key source => "Failed to build " ++ key.text ++ ": " ++ source.message
  | .incorrectType expected actual =>
    "Incorrect instance type. Actual: TypeId(" ++ actual.name ++ "), expected: " ++ expected.name
  | .cycle path => "Cyclic dependency detected: " ++ " -> ".intercalate (path.map Key.text)

/-- What a constructor's failure says. -/
def Fault.message : Fault → String
  | .custom context _ => context
  | .refused source => source.message
  | .panicked => "Constructor panicked on the blocking pool"

end

mutual

/-- What the causes below a failure say, nearest first. -/
def Failure.sources : Failure → List String
  | .dependency _ _ _ source => source.message :: source.sources
  | .build _ source => source.message :: source.causes
  | _ => []

/-- What the causes below a constructor's failure say, nearest first. -/
def Fault.causes : Fault → List String
  | .custom _ causes => causes
  | .refused source => source.sources
  | .panicked => []

end

/-- The failure below all the parameters that passed it on. -/
def Failure.rootCause : Failure → Failure
  | .dependency _ _ _ source => source.rootCause
  | failure => failure

end Injector
