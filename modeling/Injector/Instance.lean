import Injector.Ty
/-!
# Instances

An instance is a shared value: what it holds, and a serial that tells it from
every other instance, also from one that holds the same. Its type at run time
is read off what it holds.
-/
namespace Injector

/-- A value that is shared, not copied: two are the same only if their serials agree. -/
structure Shared (α : Type) where
  serial : Nat
  content : α
  deriving Repr

/-- What an instance holds. -/
inductive Datum where
  /-- An object of a declared type, with the number it got when it was created. -/
  | object (path : String) (number : Nat)
  | text (s : String)
  /-- Plain data in its written form; nothing is ever computed on it. -/
  | scalar (kind : Scalar) (written : String)
  | seq (item : Ty) (members : List (Shared Datum))
  | erased (inner : Shared Datum)
  deriving Repr

/-- A shared value of any type. -/
abbrev Instance := Shared Datum

instance : Inhabited Instance := ⟨⟨0, .scalar .unit ""⟩⟩

/-- The type of what is held. -/
def Datum.ty : Datum → Ty
  | .object path _ => .declared path
  | .text _ => .text
  | .scalar kind _ => .scalar kind
  | .seq item _ => .seq item
  | .erased _ => .erased

namespace Shared

/-- The type of an instance at run time. -/
def ty (v : Instance) : Ty := v.content.ty

/-- Whether two handles share one instance. -/
def same (v w : Instance) : Bool := v.serial == w.serial

/-- The instances of type `item` that `v` brings along: itself, or its members if it
is a sequence of them. -/
def itemsOf (item : Ty) (v : Instance) : List Instance :=
  if v.ty = item then [v]
  else match v.content with
    | .seq item' members => if item' = item then members else []
    | _ => []

end Shared

/-- The types a parameter can take from explicit arguments instead of the container. -/
inductive Primitive where
  | scalar (s : Scalar)
  | text
  | erased
  deriving DecidableEq, Repr, Inhabited

namespace Primitive

/-- The type of a primitive. -/
def ty : Primitive → Ty
  | .scalar s => .scalar s
  | .text => .text
  | .erased => .erased

/-- Reads an instance as a primitive. Owned text is also read from borrowed text, the
erased type takes any instance as it is, and all else has to be of the very type. -/
def read (p : Primitive) (v : Instance) : Option Instance :=
  match p, v.content with
  | .erased, _ => some v
  | .text, .text _ => some v
  | .text, .scalar .str s => some ⟨v.serial, .text s⟩
  | .scalar s, .scalar kind _ => if kind = s then some v else none
  | _, _ => none

/-- Whether an instance can be read as a primitive. -/
def accepts (p : Primitive) (v : Instance) : Bool := (p.read v).isSome

end Primitive

end Injector
