/-!
# Types

A type is what a service is looked up by and what an instance has at run time.
Two types are the same exactly when they are equal as values of `Ty`; the name
is only what messages call them.
-/
namespace Injector

/-- Types of plain data: numbers, truth values, characters, borrowed text, bytes
and the one-element type. -/
inductive Scalar where
  | u8 | u16 | u32 | u64 | u128 | usize
  | i8 | i16 | i32 | i64 | i128 | isize
  | f32 | f64 | bool | char | str | bytes | unit
  deriving DecidableEq, Repr, Inhabited

/-- What messages call a plain data type. -/
def Scalar.name : Scalar → String
  | .u8 => "u8" | .u16 => "u16" | .u32 => "u32" | .u64 => "u64" | .u128 => "u128" | .usize => "usize"
  | .i8 => "i8" | .i16 => "i16" | .i32 => "i32" | .i64 => "i64" | .i128 => "i128" | .isize => "isize"
  | .f32 => "f32" | .f64 => "f64" | .bool => "bool" | .char => "char"
  | .str => "&str" | .bytes => "alloc::vec::Vec<u8>" | .unit => "()"

/-- The types of instances. -/
inductive Ty where
  /-- A type the application declares, known by its full path. -/
  | declared (path : String)
  /-- The type of a function that is called without being registered. -/
  | function (name : String)
  | scalar (s : Scalar)
  /-- Owned text. -/
  | text
  /-- A sequence of shared instances of one type. -/
  | seq (item : Ty)
  /-- A shared instance of any type, itself used as an instance. -/
  | erased
  deriving DecidableEq, Repr, Inhabited

namespace Ty

/-- What messages call a type. -/
def name : Ty → String
  | .declared path => path
  | .function name => name
  | .scalar s => s.name
  | .text => "alloc::string::String"
  | .seq item => "alloc::vec::Vec<alloc::sync::Arc<" ++ item.name ++ ">>"
  | .erased => "alloc::sync::Arc<dyn core::any::Any + core::marker::Send + core::marker::Sync>"

/-- What follows the last `::` of `cs`, or `best` if there is none. -/
def lastSegment (best : List Char) : List Char → List Char
  | [] => best
  | c :: cs =>
    match c, cs with
    | ':', ':' :: rest => lastSegment rest cs
    | _, _ => lastSegment best cs

/-- The part of the name after the last `::`. -/
def shortName (t : Ty) : String :=
  String.ofList (lastSegment t.name.toList t.name.toList)

/-! ## An order

Three views of a type that together determine it, compared one after the other. -/

/-- How many times a type is wrapped into a sequence. -/
def depth : Ty → Nat
  | .seq item => item.depth + 1
  | _ => 0

/-- Which form of type is at the bottom of the sequences. -/
def form : Ty → Nat
  | .seq item => item.form
  | .declared _ => 0
  | .function _ => 1
  | .text => 2
  | .erased => 3
  | .scalar s => 4 + s.ctorIdx

/-- The path or name at the bottom of the sequences. -/
def label : Ty → String
  | .seq item => item.label
  | .declared path => path
  | .function name => name
  | _ => ""

/-- A total order on types: by depth, then by form, then by label. -/
def cmp : Ty → Ty → Ordering :=
  compareLex (compareOn depth) (compareLex (compareOn form) (compareOn label))

end Ty

end Injector
