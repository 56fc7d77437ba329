/-!
# Tables

A table is what it gives for each key. Two tables that give the same are equal, so
a table has no history: only what was inserted last for a key counts. Each operation
has one lemma that says what `get?` gives after it.
-/
namespace Injector

/-- A partial function that can be changed key by key. -/
@[ext] structure Table (κ ν : Type) where
  get? : κ → Option ν

namespace Table

variable {κ ν : Type}

/-- The table that gives nothing. -/
def empty : Table κ ν := ⟨fun _ => none⟩

instance : Inhabited (Table κ ν) := ⟨empty⟩

/-- Whether there is something under a key. -/
def contains (t : Table κ ν) (k : κ) : Bool := (t.get? k).isSome

/-- The part of a table on the keys that satisfy `p`. -/
def restrict (t : Table κ ν) (p : κ → Bool) : Table κ ν := ⟨fun k => if p k then t.get? k else none⟩

variable [DecidableEq κ]

/-- The table with `v` under `k`. -/
def insert (t : Table κ ν) (k : κ) (v : ν) : Table κ ν := ⟨fun k' => if k = k' then some v else t.get? k'⟩

/-- The table with nothing under `k`. -/
def erase (t : Table κ ν) (k : κ) : Table κ ν := ⟨fun k' => if k = k' then none else t.get? k'⟩

/-- The rows of a list, of which a later one of a key counts. -/
def ofList (rows : List (κ × ν)) : Table κ ν := rows.foldl (fun t row => t.insert row.1 row.2) empty

/-! ## Reading after writing -/

omit [DecidableEq κ] in
@[simp] theorem get?_empty (k : κ) : (empty : Table κ ν).get? k = none := rfl

omit [DecidableEq κ] in
theorem get?_restrict (t : Table κ ν) (p : κ → Bool) (k : κ) :
    (t.restrict p).get? k = if p k then t.get? k else none := rfl

theorem get?_insert (t : Table κ ν) (k k' : κ) (v : ν) :
    (t.insert k v).get? k' = if k = k' then some v else t.get? k' := rfl

@[simp] theorem get?_insert_self (t : Table κ ν) (k : κ) (v : ν) : (t.insert k v).get? k = some v := by
  simp [get?_insert]

theorem get?_insert_of_ne (t : Table κ ν) {k k' : κ} (v : ν) (h : k ≠ k') :
    (t.insert k v).get? k' = t.get? k' := by
  simp [get?_insert, h]

theorem get?_erase (t : Table κ ν) (k k' : κ) :
    (t.erase k).get? k' = if k = k' then none else t.get? k' := rfl

@[simp] theorem get?_erase_self (t : Table κ ν) (k : κ) : (t.erase k).get? k = none := by
  simp [get?_erase]

theorem contains_insert (t : Table κ ν) (k k' : κ) (v : ν) :
    (t.insert k v).contains k' = (decide (k = k') || t.contains k') := by
  by_cases h : k = k' <;> simp [contains, get?_insert, h]

theorem contains_erase (t : Table κ ν) (k k' : κ) :
    (t.erase k).contains k' = (!decide (k = k') && t.contains k') := by
  by_cases h : k = k' <;> simp [contains, get?_erase, h]

/-! ## Writing twice -/

theorem insert_comm (t : Table κ ν) {k k' : κ} (v w : ν) (h : k ≠ k') :
    (t.insert k v).insert k' w = (t.insert k' w).insert k v := by
  ext x : 2
  by_cases hx : k = x
  · subst hx; simp [get?_insert, Ne.symm h]
  · simp [get?_insert, hx]

theorem insert_insert (t : Table κ ν) (k : κ) (v w : ν) : (t.insert k v).insert k w = t.insert k w := by
  ext x : 2
  by_cases h : k = x <;> simp [get?_insert, h]

theorem insert_erase (t : Table κ ν) (k : κ) (v : ν) : (t.erase k).insert k v = t.insert k v := by
  ext x : 2
  by_cases h : k = x <;> simp [get?_insert, get?_erase, h]

theorem erase_erase (t : Table κ ν) (k : κ) : (t.erase k).erase k = t.erase k := by
  ext x : 2
  by_cases h : k = x <;> simp [get?_erase, h]

theorem erase_insert (t : Table κ ν) (k : κ) (v : ν) : (t.insert k v).erase k = t.erase k := by
  ext x : 2
  by_cases h : k = x <;> simp [get?_insert, get?_erase, h]

theorem erase_insert_of_ne (t : Table κ ν) {k k' : κ} (v : ν) (h : k ≠ k') :
    (t.erase k).insert k' v = (t.insert k' v).erase k := by
  ext x : 2
  by_cases hx : k = x
  · subst hx; simp [get?_insert, Ne.symm h]
  · simp [get?_insert, get?_erase, hx]

theorem erase_comm (t : Table κ ν) (k k' : κ) : (t.erase k).erase k' = (t.erase k').erase k := by
  ext x : 2
  by_cases hx : k = x <;> simp [get?_erase, hx]

theorem erase_eq_self (t : Table κ ν) {k : κ} (h : t.get? k = none) : t.erase k = t := by
  ext x : 2
  by_cases hx : k = x
  · subst hx; simp [h]
  · simp [get?_erase, hx]

end Table

/-- A set of keys. -/
abbrev KeySet (κ : Type) := Table κ Unit

end Injector
