import Injector.Instance
import Injector.Table
/-!
# Signatures

Names and default values of a function's parameters. Types and kinds come with
the parameters themselves; a signature only adds what they cannot tell.
-/
namespace Injector

/-- Names and default values of parameters. -/
structure Signature where
  /-- Parameter names by position. -/
  names : List String := []
  defaults : Table String Instance := Table.empty
  deriving Inhabited

namespace Signature

/-- The signature without names and defaults. -/
def empty : Signature := {}

/-- A signature from names and named defaults; a later default of a name wins. -/
def ofLists (names : List String) (defaults : List (String × Instance)) : Signature :=
  ⟨names, Table.ofList defaults⟩

/-- The name of the parameter at a position. -/
def name? (s : Signature) (position : Nat) : Option String := s.names[position]?

/-- The default value of the parameter called `name`. -/
def defaultOf (s : Signature) (name : String) : Option Instance := s.defaults.get? name

/-- How many parameters have names. -/
def length (s : Signature) : Nat := s.names.length

/-- Whether no parameter has a name. -/
def isEmpty (s : Signature) : Bool := s.names.isEmpty

/-- The default value of the parameter at a position, which needs a name to have one. -/
def defaultAt (s : Signature) (position : Nat) : Option Instance :=
  (s.name? position).bind s.defaultOf

/-- What errors call the parameter at a position: its name, or the position after a `#`. -/
def labelAt (s : Signature) (position : Nat) : String :=
  (s.name? position).getD ("#" ++ toString position)

end Signature

end Injector
