import Injector.Instance
import Injector.Table
/-!
# New instances

Objects and texts are numbered as they are made, and every instance gets a serial
of its own. A `Supply` holds the numbers given out so far.
-/
namespace Injector

/-- What a constructor provides. -/
inductive Product where
  /-- A new object of a declared type. -/
  | object (path : String)
  /-- A new text, which tells its own number. -/
  | text
  /-- The sequence of all the items among what it was made from. -/
  | seq (item : Ty)
  deriving DecidableEq, Repr, Inhabited

/-- The type of the instance that is provided. -/
def Product.ty : Product → Ty
  | .object path => .declared path
  | .text => .text
  | .seq item => .seq item

/-- How many numbers and serials are given out. -/
structure Supply where
  numbers : Nat := 0
  serials : Nat := 0
  deriving DecidableEq, Repr, Inhabited

namespace Supply

/-- A new instance that holds `d`. -/
def share (s : Supply) (d : Datum) : Instance × Supply :=
  (⟨s.serials, d⟩, { s with serials := s.serials + 1 })

/-- A new object with the next number. -/
def object (s : Supply) (path : String) : Instance × Supply :=
  share { s with numbers := s.numbers + 1 } (.object path (s.numbers + 1))

/-- `count` new objects, in the order of their numbers. -/
def objects (s : Supply) (path : String) : Nat → List Instance × Supply
  | 0 => ([], s)
  | count + 1 =>
    let (v, s) := s.object path
    let (vs, s) := s.objects path count
    (v :: vs, s)

/-- A new instance of what a constructor provides, made from `ingredients`. -/
def produce (s : Supply) (p : Product) (ingredients : List Instance) : Instance × Supply :=
  match p with
  | .object path => s.object path
  | .text =>
    share { s with numbers := s.numbers + 1 } (.text ("S#" ++ toString (s.numbers + 1)))
  | .seq item => s.share (.seq item (ingredients.flatMap (Shared.itemsOf item)))

end Supply

/-- How an instance that does not come from a constructor is written down. -/
inductive Literal where
  | scalar (kind : Scalar) (written : String)
  | text (s : String)
  | object (path : String)
  /-- A sequence of so many new objects. -/
  | objects (path : String) (count : Nat)
  | erased (inner : Literal)
  /-- An instance saved earlier. -/
  | saved (name : String)
  deriving DecidableEq, Repr, Inhabited

namespace Literal

/-- Whether every saved instance that is named exists. -/
def known (vars : Table String Instance) : Literal → Bool
  | .saved name => vars.contains name
  | .erased inner => inner.known vars
  | _ => true

/-- Makes the instance. A saved instance is taken as it is, all else is new. -/
def make (vars : Table String Instance) : Literal → Supply → Instance × Supply
  | .scalar kind written, s => s.share (.scalar kind written)
  | .text content, s => s.share (.text content)
  | .object path, s => s.object path
  | .objects path count, s =>
    let (members, s) := s.objects path count
    s.share (.seq (.declared path) members)
  | .erased inner, s =>
    let (v, s) := inner.make vars s
    s.share (.erased v)
  | .saved name, s => ((vars.get? name).getD default, s)

/-- Makes an instance that nobody else has: what a saved instance holds is shared anew. -/
def makeOwn (vars : Table String Instance) : Literal → Supply → Instance × Supply
  | .saved name, s => s.share ((vars.get? name).getD default).content
  | l, s => l.make vars s

/-- Makes several instances, one after the other. -/
def makeAll (vars : Table String Instance) : List Literal → Supply → List Instance × Supply
  | [], s => ([], s)
  | l :: ls, s =>
    let (v, s) := l.make vars s
    let (vs, s) := makeAll vars ls s
    (v :: vs, s)

/-- Makes several named instances, one after the other. -/
def makeNamed (vars : Table String Instance) : List (String × Literal) → Supply →
    List (String × Instance) × Supply
  | [], s => ([], s)
  | (name, l) :: ls, s =>
    let (v, s) := l.make vars s
    let (vs, s) := makeNamed vars ls s
    ((name, v) :: vs, s)

end Literal

end Injector
