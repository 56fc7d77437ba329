import Injector.Key
import Injector.Proofs.ByteOrder
/-!
# Keys as they are written, and their order

A key is written with texts that are borrowed or owned and with types that have a name besides their id. `Spelling`
is such a key, with the equality and the order that go by its form and then part by part, over any order of the ids;
`Spelling.key` is the key that it spells. Both only depend on that key (`Spelling.beq_iff`, `Spelling.cmp_eq`), the
keys' own order is a case of it (`Key.cmp_eq`), and it is as lawful as the order of the ids.
-/
namespace Injector

/-- What is compared by a part is compared as lawfully as the parts are. -/
theorem transCmp_of_part {α β : Type} (part : α → β) (cmp : β → β → Ordering) [lawful : Std.TransCmp cmp] :
    Std.TransCmp fun a b => cmp (part a) (part b) :=
  letI : Ord β := ⟨cmp⟩
  haveI : Std.TransOrd β := lawful
  inferInstanceAs (Std.TransCmp (compareOn part))

/-! ## Types -/

namespace Ty

/-- The type of a depth, a form and a label. -/
def ofViews : Nat → Nat → String → Ty
  | depth + 1, form, label => .seq (ofViews depth form label)
  | 0, 0, label => .declared label
  | 0, 1, label => .function label
  | 0, 2, _ => .text
  | 0, 3, _ => .erased
  | 0, form + 4, _ => .scalar (Scalar.ofNat form)

theorem ofViews_views (t : Ty) : ofViews t.depth t.form t.label = t := by
  induction t with
  | seq item ih => exact congrArg Ty.seq ih
  | scalar s =>
    rw [form, Nat.add_comm]
    exact congrArg Ty.scalar (Scalar.ofNat_ctorIdx s)
  | _ => rfl

instance : Std.TransCmp cmp :=
  inferInstanceAs (Std.TransCmp (compareLex (compareOn depth) (compareLex (compareOn form) (compareOn label))))

instance : Std.LawfulEqCmp cmp where
  eq_of_compare {t u} eq := by
    simp only [cmp, compareLex_eq_eq, compareOn, Std.compare_eq_iff_eq] at eq
    rw [← ofViews_views t, eq.1, eq.2.1, eq.2.2, ofViews_views]

end Ty

/-! ## The order of keys over an order of types -/

namespace Key

variable (order : Ty → Ty → Ordering)

/-- The order of keys by form; types by `order`, names by their text, tagged types by type and then by the list of
tags. -/
def cmpBy : Key → Key → Ordering
  | .type t, .type u => order t u
  | .name a, .name b => compare a b
  | .tagged t ts, .tagged u us => (order t u).then (compare ts us)
  | a, b => compare a.form b.form

theorem cmp_eq (k l : Key) : k.cmp l = cmpBy Ty.cmp k l := by
  cases k <;> cases l <;> rfl

/-- The type of a key; a name has none, and any type will do. -/
def core : Key → Ty
  | .type t | .tagged t _ => t
  | .name _ => default

/-- The texts of a key: its name, or its tags. -/
def texts : Key → List String
  | .type _ => []
  | .name s => [s]
  | .tagged _ tags => tags

theorem eq_of_parts : ∀ {k l : Key}, k.form = l.form → k.core = l.core → k.texts = l.texts → k = l
  | .type _, .type _, _, core, _ => congrArg Key.type core
  | .name _, .name _, _, _, texts => congrArg Key.name (List.cons.inj texts).1
  | .tagged _ _, .tagged _ _, _, core, texts => congr (congrArg Key.tagged core) texts

/-- Keys of one form are compared by their types and then by their texts. -/
theorem cmpBy_eq_compareLex [Std.ReflCmp order] : cmpBy order =
    compareLex (compareOn form) (compareLex (fun k l => order k.core l.core) (compareOn texts)) := by
  funext k l
  cases k <;> cases l <;>
    simp only [cmpBy, compareLex, compareOn, form, core, texts, Std.ReflCmp.compare_self, List.compare_cons_cons,
      Ordering.then_eq, Ordering.eq_then]
  -- the forms of the others differ, and decide
  all_goals rfl

instance [Std.TransCmp order] : Std.TransCmp (cmpBy order) := by
  have := transCmp_of_part core order
  rw [cmpBy_eq_compareLex]
  infer_instance

instance [Std.TransCmp order] [Std.LawfulEqCmp order] : Std.LawfulEqCmp (cmpBy order) where
  eq_of_compare {k l} eq := by
    simp only [cmpBy_eq_compareLex, compareLex_eq_eq, compareOn, Std.LawfulEqCmp.compare_eq_iff_eq] at eq
    exact eq_of_parts eq.1 eq.2.1 eq.2.2

end Key

/-! ## Spellings -/

/-- A text, borrowed or owned. -/
inductive Text where
  | borrowed (s : String)
  | owned (s : String)

namespace Text

/-- What a text reads. -/
def content : Text → String
  | .borrowed s | .owned s => s

/-- Texts are equal if their bytes are. -/
def beq (a b : Text) : Bool := bytes a.content == bytes b.content

/-- The order of texts: byte by byte. -/
def cmp (a b : Text) : Ordering := compare (bytes a.content) (bytes b.content)

theorem beq_iff {a b : Text} : a.beq b = true ↔ a.content = b.content := by
  rw [beq, beq_iff_eq, bytes_inj]

theorem cmp_eq (a b : Text) : a.cmp b = compare a.content b.content := compare_bytes _ _

theorem isEqv_beq {ts us : List Text} : List.isEqv ts us beq = true ↔ ts.map content = us.map content := by
  induction ts generalizing us with
  | nil => cases us <;> simp
  | cons t ts ih => cases us <;> simp [List.isEqv, beq_iff, ih]

theorem compareLex_cmp (ts us : List Text) :
    List.compareLex cmp ts us = compare (ts.map content) (us.map content) := by
  induction ts generalizing us with
  | nil => cases us <;> rfl
  | cons t ts ih =>
    cases us with
    | nil => rfl
    | cons u us => rw [List.compareLex_cons_cons, List.map_cons, List.map_cons, List.compare_cons_cons, cmp_eq, ih]

end Text

/-- A type with what messages call it. -/
structure NamedTy where
  name : String
  id : Ty

/-- Types are equal if their ids are, whatever they are called. -/
def NamedTy.beq (t u : NamedTy) : Bool := t.id == u.id

/-- The order of types: that of their ids. -/
def NamedTy.cmp (order : Ty → Ty → Ordering) (t u : NamedTy) : Ordering := order t.id u.id

/-- A key as it is written. -/
inductive Spelling where
  | type (t : NamedTy)
  | name (s : Text)
  | tagged (t : NamedTy) (tags : List Text)

namespace Spelling

/-- The key that is spelled. -/
def key : Spelling → Key
  | .type t => .type t.id
  | .name s => .name s.content
  | .tagged t tags => .tagged t.id (tags.map Text.content)

/-- Spellings are equal if they have one form and equal parts. -/
def beq : Spelling → Spelling → Bool
  | .type t, .type u => t.beq u
  | .name a, .name b => a.beq b
  | .tagged t ts, .tagged u us => t.beq u && List.isEqv ts us Text.beq
  | _, _ => false

/-- Which form a spelling has, in the order of the forms. -/
def form : Spelling → Nat
  | .type _ => 0
  | .name _ => 1
  | .tagged _ _ => 2

variable (order : Ty → Ty → Ordering)

/-- The order of spellings: by form, and then part by part. -/
def cmp : Spelling → Spelling → Ordering
  | .type t, .type u => t.cmp order u
  | .name a, .name b => a.cmp b
  | .tagged t ts, .tagged u us => (t.cmp order u).then (List.compareLex Text.cmp ts us)
  | a, b => compare a.form b.form

theorem beq_iff {a b : Spelling} : a.beq b = true ↔ a.key = b.key := by
  cases a <;> cases b <;> simp [beq, key, NamedTy.beq, Text.beq_iff, Text.isEqv_beq]

/-- Only the keys that are spelled are compared. -/
theorem cmp_eq (a b : Spelling) : a.cmp order b = Key.cmpBy order a.key b.key := by
  cases a <;> cases b <;> simp only [cmp, Key.cmpBy, key, NamedTy.cmp, Text.cmp_eq, Text.compareLex_cmp] <;> rfl

instance [Std.TransCmp order] : Std.TransCmp (cmp order) := by
  rw [show cmp order = _ from funext fun a => funext (cmp_eq order a)]
  exact transCmp_of_part key (Key.cmpBy order)

theorem cmp_eq_eq [Std.TransCmp order] [Std.LawfulEqCmp order] {a b : Spelling} :
    a.cmp order b = .eq ↔ a.key = b.key := by
  rw [cmp_eq, Std.LawfulEqCmp.compare_eq_iff_eq]

end Spelling

end Injector
