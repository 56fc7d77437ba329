import Injector.Key
import Injector.Supply
/-!
# Parameters

A parameter list is a list of extractors, some of them grouped. Each extractor
has a position in the list, which decides its name and default: inside a group
the position advances after every member, and the list around it advances once
more after the group.
-/
namespace Injector

/-- How one parameter is filled. -/
inductive Extractor where
  /-- The instance of a type. -/
  | inject (t : Ty)
  /-- The instance of a type that can build itself if nothing is bound. -/
  | autowired (t : Ty)
  /-- The instance of a tagged type. -/
  | annotated (t : Ty) (tags : List String)
  /-- The instance of a name, which has to be of type `t`. -/
  | named (t : Ty) (name : String)
  /-- A primitive from the explicit arguments or the default. -/
  | arg (p : Primitive)
  /-- What is bound for a sequence of `t` or for `t`, and all positional arguments of type `t`. -/
  | rest (t : Ty)
  /-- All named arguments that are left. -/
  | kwargs
  | container
  /-- A look at the state of the filling; takes nothing. -/
  | inspect
  /-- The instance of any key, whose failure is passed on as it is. -/
  | lookup (key : Key)
  /-- Replaces all the arguments that are left. -/
  | replace (positional : List Literal) (keyword : List (String × Literal))
  deriving Repr

/-- A parameter: an extractor, or a group of parameters. -/
inductive Param where
  | one (e : Extractor)
  | group (ps : List Param)

/-- An extractor at its position. -/
structure Slot where
  position : Nat
  extractor : Extractor
  deriving Repr

mutual

/-- The slots of a parameter at a position, and the position it ends at. -/
def Param.slots : Param → Nat → List Slot × Nat
  | .one e, position => ([⟨position, e⟩], position)
  | .group ps, position => Param.slotsOf ps position

/-- The slots of a parameter list from a position on, and the position after it. -/
def Param.slotsOf : List Param → Nat → List Slot × Nat
  | [], position => ([], position)
  | p :: ps, position =>
    let (first, reached) := p.slots position
    let (others, last) := Param.slotsOf ps (reached + 1)
    (first ++ others, last)

end

/-! ## Descriptions -/

/-- Where a parameter gets its value from. -/
inductive ParameterKind where
  | primitive | dependency | variadicPositional | variadicKeyword | container
  deriving DecidableEq, Repr

/-- The description of a parameter: its kind and, unless it is the container, its type. -/
structure Parameter where
  kind : ParameterKind
  ty : Option Ty
  deriving DecidableEq, Repr

/-- The description of an extractor; the extractors outside of the container's own set have none. -/
def Extractor.parameters : Extractor → List Parameter
  | .inject t | .autowired t | .annotated t _ | .named t _ => [⟨.dependency, some t⟩]
  | .arg p => [⟨.primitive, some p.ty⟩]
  | .rest t => [⟨.variadicPositional, some t⟩]
  | .kwargs => [⟨.variadicKeyword, some .erased⟩]
  | .container => [⟨.container, none⟩]
  | .inspect | .lookup _ | .replace _ _ => []

mutual

/-- The descriptions of all extractors of a parameter, in order. -/
def Param.parameters : Param → List Parameter
  | .one e => e.parameters
  | .group ps => Param.parametersOf ps

/-- The descriptions of all extractors of a parameter list, in order. -/
def Param.parametersOf : List Param → List Parameter
  | [] => []
  | p :: ps => p.parameters ++ Param.parametersOf ps

end

/-! ## Filled parameters -/

/-- What a look at the state of a filling shows. -/
structure Inspection where
  position : Nat
  name : Option String
  callable : String
  default : Option Instance
  /-- Whether the container is a scope. -/
  inScope : Bool
  /-- How many positional arguments are left. -/
  positional : Nat
  /-- Whether no arguments of any kind are left. -/
  empty : Bool
  deriving Repr

/-- Containers are known by their number, in the order they were opened. -/
abbrev ContainerId := Nat

/-- What a slot is filled with. -/
inductive Filled where
  | instance (v : Instance)
  | primitive (p : Primitive) (v : Instance)
  | rest (vs : List Instance)
  | kwargs (kws : List (String × Instance))
  | container (c : ContainerId) (inScope : Bool)
  | inspection (i : Inspection)
  | replaced
  deriving Repr

/-- The instances that a filled slot hands over. A primitive is a copy and hands over none. -/
def Filled.ingredients : Filled → List Instance
  | .instance v => [v]
  | .rest vs => vs
  | .kwargs kws => kws.map Prod.snd
  | _ => []

/-- Filled slots in the shape of the parameter list. -/
inductive Given where
  | one (f : Filled)
  | group (gs : List Given)

mutual

/-- Shapes filled slots like a parameter; what is left over comes with it. -/
def Param.shape : Param → List Filled → Given × List Filled
  | .one _, f :: fs => (.one f, fs)
  | .one _, [] => (.one .replaced, [])
  | .group ps, fs =>
    let (gs, fs) := Param.shapeAll ps fs
    (.group gs, fs)

/-- Shapes filled slots like a parameter list; what is left over comes with it. -/
def Param.shapeAll : List Param → List Filled → List Given × List Filled
  | [], fs => ([], fs)
  | p :: ps, fs =>
    let (g, fs) := p.shape fs
    let (gs, fs) := Param.shapeAll ps fs
    (g :: gs, fs)

end

end Injector
