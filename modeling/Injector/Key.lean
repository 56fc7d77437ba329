import Injector.Ty
/-!
# Keys

What a service is looked up by: its type, a name, or its type together with
tags. A tagged key finds the binding of its plain type; the tags go to the
constructor, and the instance is kept under the whole key.
-/
namespace Injector

/-- A lookup key. -/
inductive Key where
  | type (t : Ty)
  | name (s : String)
  /-- A type with tags. It differs from the plain type even without any tag. -/
  | tagged (t : Ty) (tags : List String)
  deriving DecidableEq, Repr, Inhabited

namespace Key

/-- The key under which the binding of a key is found: a tagged key without its tags. -/
def plain : Key → Key
  | .tagged t _ => .type t
  | k => k

/-- The tags of a key; only a tagged key has some. -/
def tags : Key → List String
  | .tagged _ tags => tags
  | _ => []

/-- The type of a key, if it has one. -/
def ty? : Key → Option Ty
  | .type t | .tagged t _ => some t
  | .name _ => none

/-- The type that a key is, if it is no more than that: a type that may build itself is asked for by its plain key. -/
def plainType? : Key → Option Ty
  | .type t => some t
  | _ => none

/-- Whether a key is a name. -/
def isName : Key → Bool
  | .name _ => true
  | _ => false

/-- The text of a key: the type's name, the name between quotes, or the type's
name followed by the tags between brackets. Nothing is escaped. -/
def text : Key → String
  | .type t => t.name
  | .name s => "\"" ++ s ++ "\""
  | .tagged t tags => t.name ++ "[" ++ ", ".intercalate tags ++ "]"

/-- Which form of key it is: types come first, then names, then tagged types. -/
def form : Key → Nat
  | .type _ => 0
  | .name _ => 1
  | .tagged _ _ => 2

/-- The order of keys: by form; types by their order, names by their text, tagged
types by type and then by the list of tags. -/
def cmp : Key → Key → Ordering
  | .type t, .type u => t.cmp u
  | .name a, .name b => compare a b
  | .tagged t ts, .tagged u us => (t.cmp u).then (compare ts us)
  | a, b => compare a.form b.form

@[simp] theorem plain_plain (k : Key) : k.plain.plain = k.plain := by
  cases k <;> rfl

@[simp] theorem tags_plain (k : Key) : k.plain.tags = [] := by
  cases k <;> rfl

@[simp] theorem plain_type (t : Ty) : (Key.type t).plain = .type t := rfl

@[simp] theorem plain_name (s : String) : (Key.name s).plain = .name s := rfl

@[simp] theorem plain_tagged (t : Ty) (ts : List String) : (Key.tagged t ts).plain = .type t := rfl

end Key

end Injector
