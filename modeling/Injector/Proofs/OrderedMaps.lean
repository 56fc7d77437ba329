import Injector.Proofs.KeyOrder
import Injector.Table
/-!
# Maps ordered by keys

A map that is searched by the order of keys, as they are written, next to a table of the keys that they spell. What
either gives is the same after any changes (`OrderedMap.shows_revised`), so two ways of writing a key share an entry
exactly if they spell the same key (`Spelling.lawful_map_keys`).
-/
namespace Injector

/-- A map that is searched by the order of keys. -/
abbrev OrderedMap (order : Ty → Ty → Ordering) (ν : Type) := Std.TreeMap Spelling ν (Spelling.cmp order)

/-- A change of a map. -/
inductive Revision (ν : Type) where
  /-- What is under a key gives way to what `f` makes of it. -/
  | put (a : Spelling) (f : Option ν → ν)
  /-- The entry of a key goes. -/
  | remove (a : Spelling)
  /-- Only the entries whose keys satisfy `p` stay. -/
  | keep (p : Key → Bool)

namespace Revision

variable {ν : Type}

/-- The change of a map. An entry that is there keeps its key as it is written. -/
def onMap {order : Ty → Ty → Ordering} (m : OrderedMap order ν) : Revision ν → OrderedMap order ν
  | .put a f => m.insert (m.getKeyD a a) (f m[a]?)
  | .remove a => m.erase a
  | .keep p => m.filter fun a _ => p a.key

/-- The change of a table. -/
def onTable (t : Table Key ν) : Revision ν → Table Key ν
  | .put a f => t.insert a.key (f (t.get? a.key))
  | .remove a => t.erase a.key
  | .keep p => t.restrict p

end Revision

namespace OrderedMap

variable {order : Ty → Ty → Ordering} {ν : Type} {m : OrderedMap order ν} {t : Table Key ν}

/-- The map after changes of the empty one. -/
def revised (order : Ty → Ty → Ordering) (revisions : List (Revision ν)) : OrderedMap order ν :=
  revisions.foldl Revision.onMap ∅

/-- Two ways to write a key find one entry. -/
def Share (m : OrderedMap order ν) (a b : Spelling) : Prop := ∃ e, m.getKey? a = some e ∧ m.getKey? b = some e

/-- A map gives what a table gives for the key that is spelled. -/
def Shows (m : OrderedMap order ν) (t : Table Key ν) : Prop := ∀ a : Spelling, m[a]? = t.get? a.key

end OrderedMap

/-- The table after changes of the empty one. -/
def Table.revised {ν : Type} (revisions : List (Revision ν)) : Table Key ν :=
  revisions.foldl Revision.onTable Table.empty

namespace OrderedMap

variable {order : Ty → Ty → Ordering} [Std.TransCmp order] [Std.LawfulEqCmp order] {ν : Type}
  {m : OrderedMap order ν} {t : Table Key ν}

theorem key_getKey {a : Spelling} (found : a ∈ m) : (m.getKey a found).key = a.key :=
  (Spelling.cmp_eq_eq order).1 (Std.TreeMap.compare_getKey_self found)

theorem key_getKeyD (a : Spelling) : (m.getKeyD a a).key = a.key := by
  by_cases found : a ∈ m
  · rw [← Std.TreeMap.getKey_eq_getKeyD (h := found), key_getKey]
  · rw [Std.TreeMap.getKeyD_eq_fallback found]

/-- A change keeps a map and a table alike. -/
theorem Shows.revise (h : m.Shows t) (r : Revision ν) : (r.onMap m).Shows (r.onTable t) := by
  intro b
  cases r with
  | put a f =>
    rw [Revision.onMap, Revision.onTable, Std.TreeMap.getElem?_insert, Table.get?_insert, h a, h b]
    simp only [Spelling.cmp_eq_eq, key_getKeyD]
  | remove a =>
    rw [Revision.onMap, Revision.onTable, Std.TreeMap.getElem?_erase, Table.get?_erase, h b]
    simp only [Spelling.cmp_eq_eq]
  | keep p =>
    rw [Revision.onMap, Revision.onTable, Std.TreeMap.getElem?_filter, Table.get?_restrict, ← h b]
    simp only [key_getKey]
    cases m[b]? with
    | none => simp
    | some v => simp [Option.pfilter]

theorem Shows.foldl {m : OrderedMap order ν} {t : Table Key ν} (h : m.Shows t) : ∀ revisions : List (Revision ν),
    (revisions.foldl Revision.onMap m).Shows (revisions.foldl Revision.onTable t)
  | [] => h
  | r :: revisions => (h.revise r).foldl revisions

/-- So do any changes. -/
theorem shows_revised (revisions : List (Revision ν)) : (revised order revisions).Shows (Table.revised revisions) :=
  Shows.foldl (fun _ => Std.TreeMap.getElem?_emptyc) revisions

/-- Those who share an entry spell its key. -/
theorem share_iff {a b : Spelling} : m.Share a b ↔ a.key = b.key ∧ a ∈ m := by
  constructor
  · rintro ⟨e, foundA, foundB⟩
    obtain ⟨memA, rfl⟩ := Std.TreeMap.getKey?_eq_some_iff.1 foundA
    obtain ⟨memB, eq⟩ := Std.TreeMap.getKey?_eq_some_iff.1 foundB
    refine ⟨?_, memA⟩
    calc a.key = (m.getKey a memA).key := (key_getKey memA).symm
      _ = (m.getKey b memB).key := by rw [eq]
      _ = b.key := key_getKey memB
  · rintro ⟨same, memA⟩
    have found : m.getKey? a = some (m.getKey a memA) := Std.TreeMap.getKey?_eq_some_iff.2 ⟨memA, rfl⟩
    refine ⟨_, found, ?_⟩
    rw [← Std.TreeMap.getKey?_congr ((Spelling.cmp_eq_eq order).2 same), found]

/-- A change under one key does not change what is under another one. -/
theorem getElem?_onMap_of_ne {a b : Spelling} (other : a.key ≠ b.key) (f : Option ν → ν) :
    ((Revision.put a f).onMap m)[b]? = m[b]? ∧ ((Revision.remove a).onMap m)[b]? = m[b]? := by
  constructor
  · rw [Revision.onMap, Std.TreeMap.getElem?_insert, if_neg]
    rwa [Spelling.cmp_eq_eq, key_getKeyD]
  · rw [Revision.onMap, Std.TreeMap.getElem?_erase, if_neg]
    rwa [Spelling.cmp_eq_eq]

/-- The entries are of different keys. -/
theorem pairwise_keys : m.keys.Pairwise fun a b => a.key ≠ b.key :=
  Std.TreeMap.distinct_keys.imp fun distinct same => distinct ((Spelling.cmp_eq_eq order).2 same)

end OrderedMap

/-- Keys are lawful keys of maps, however they are written, over any total order of type ids. Their order is total,
transitive and antisymmetric; two compare as equal, and are equal, exactly if they spell the same key. Over the order
of types it is that of `Key.cmp`. After any changes a map gives what a table of the keys that are spelled gives; its
entries are of different keys, and two ways to write a key share one only if they spell the same, which a tagged type,
its plain type and a name never do; and a change under one key leaves what is under the others. -/
theorem Spelling.lawful_map_keys (order : Ty → Ty → Ordering) [Std.TransCmp order] [Std.LawfulEqCmp order] :
    (∀ a b : Spelling, (a.cmp order b).isLE ∨ (b.cmp order a).isLE) ∧
    (∀ a b c : Spelling, (a.cmp order b).isLE → (b.cmp order c).isLE → (a.cmp order c).isLE) ∧
    (∀ a b : Spelling, (a.cmp order b).isLE → (b.cmp order a).isLE → a.key = b.key) ∧
    (∀ a b : Spelling, b.cmp order a = (a.cmp order b).swap) ∧
    (∀ a b : Spelling, a.cmp order b = .eq ↔ a.key = b.key) ∧
    (∀ a b : Spelling, a.beq b = true ↔ a.key = b.key) ∧
    (∀ a b : Spelling, a.cmp Ty.cmp b = a.key.cmp b.key) ∧
    ∀ (ν : Type) (revisions : List (Revision ν)), let m := OrderedMap.revised order revisions
      (∀ a : Spelling, m[a]? = (Table.revised revisions).get? a.key) ∧
      (m.keys.Pairwise fun a b => a.key ≠ b.key) ∧
      (∀ a b, m.Share a b ↔ a.key = b.key ∧ a ∈ m) ∧
      (∀ t u s tags, ¬ m.Share (.tagged t tags) (.type u) ∧ ¬ m.Share (.name s) (.type u) ∧
        ¬ m.Share (.name s) (.tagged t tags)) ∧
      ∀ (a b : Spelling) (f : Option ν → ν), a.key ≠ b.key →
        ((Revision.put a f).onMap m)[b]? = m[b]? ∧ ((Revision.remove a).onMap m)[b]? = m[b]? := by
  have swap (a b : Spelling) : b.cmp order a = (a.cmp order b).swap := Std.OrientedCmp.eq_swap
  have eq (a b : Spelling) : a.cmp order b = .eq ↔ a.key = b.key := Spelling.cmp_eq_eq order
  refine ⟨?total, ?trans, ?antisymm, swap, eq, fun _ _ => Spelling.beq_iff, ?own, ?maps⟩
  case total =>
    intro a b
    rw [swap a b]
    cases a.cmp order b <;> simp
  case trans => exact fun _ _ _ => Std.TransCmp.isLE_trans
  case antisymm => exact fun a b le ge => (eq a b).1 (Std.OrientedCmp.isLE_antisymm le ge)
  case own =>
    intro a b
    rw [Spelling.cmp_eq, Key.cmp_eq]
  case maps =>
    intro ν revisions m
    refine ⟨OrderedMap.shows_revised revisions, OrderedMap.pairwise_keys, fun _ _ => OrderedMap.share_iff, ?_,
      fun _ _ f other => OrderedMap.getElem?_onMap_of_ne other f⟩
    intro t u s tags
    simp [OrderedMap.share_iff, Spelling.key]

/-- A coat, a coat without tags and a coat by name, which is then written in another way, and the first one gone. -/
def pegs : List (Revision Nat) :=
  [.put (.type ⟨"Coat", .declared "shop::Coat"⟩) fun _ => 1,
   .put (.tagged ⟨"Coat", .declared "shop::Coat"⟩ []) fun _ => 2,
   .put (.name (.borrowed "Coat")) fun _ => 3,
   .put (.name (.owned "Coat")) fun there => there.getD 0 + 10,
   .remove (.type ⟨"shop::Coat", .declared "shop::Coat"⟩)]

/-- The plain coat is gone, however its type is called; the one without tags is not, and both names find one entry. -/
theorem coat_without_tags_stays :
    (OrderedMap.revised Ty.cmp pegs)[Spelling.type ⟨"Coat", .declared "shop::Coat"⟩]? = none ∧
    (OrderedMap.revised Ty.cmp pegs)[Spelling.tagged ⟨"", .declared "shop::Coat"⟩ []]? = some 2 ∧
    (OrderedMap.revised Ty.cmp pegs)[Spelling.name (.borrowed "Coat")]? = some 13 := by
  obtain ⟨-, -, -, -, -, -, -, maps⟩ := Spelling.lawful_map_keys Ty.cmp
  obtain ⟨shows, -⟩ := maps Nat pegs
  refine ⟨?_, ?_, ?_⟩ <;> rw [shows] <;> rfl

end Injector
