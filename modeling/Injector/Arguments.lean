import Injector.Instance
/-!
# Explicit arguments

The arguments of a call that no parameter has taken yet: a queue of positional
ones, and named ones in the order of their names. A parameter takes arguments
out; what it leaves keeps its order.
-/
namespace Injector

/-- Explicit arguments that no parameter has taken. -/
structure Arguments where
  positional : List Instance := []
  /-- Sorted by name, each name once. -/
  keyword : List (String × Instance) := []
  deriving Repr, Inhabited

namespace Arguments

/-- Puts `v` under `name` into a list sorted by name; an earlier value of the name gives way. -/
def insertNamed (name : String) (v : Instance) : List (String × Instance) → List (String × Instance)
  | [] => [(name, v)]
  | (other, w) :: rest =>
    if name = other then (name, v) :: rest
    else if name < other then (name, v) :: (other, w) :: rest
    else (other, w) :: insertNamed name v rest

/-- Arguments from positional values and named values; a later value of a name wins. -/
def ofLists (positional : List Instance) (named : List (String × Instance)) : Arguments :=
  ⟨positional, named.foldl (fun kws kw => insertNamed kw.1 kw.2 kws) []⟩

/-- Whether no arguments of either kind are left. -/
def isEmpty (a : Arguments) : Bool := a.positional.isEmpty && a.keyword.isEmpty

/-- Takes the named argument `name` out. -/
def takeKeyword (a : Arguments) (name : String) : Option (Instance × Arguments) :=
  (a.keyword.find? (fun kw => kw.1 == name)).map fun kw =>
    (kw.2, { a with keyword := a.keyword.filter (fun kw => !(kw.1 == name)) })

/-- Takes all named arguments out. -/
def takeKeywords (a : Arguments) : List (String × Instance) × Arguments :=
  (a.keyword, { a with keyword := [] })

/-- Takes the first positional argument that satisfies `p` out. -/
def takePositional (a : Arguments) (p : Instance → Bool) : Option (Instance × Arguments) :=
  (a.positional.find? p).map fun v => (v, { a with positional := a.positional.eraseP p })

/-- Takes all positional arguments that satisfy `p` out, in their order. -/
def drainPositional (a : Arguments) (p : Instance → Bool) : List Instance × Arguments :=
  (a.positional.filter p, { a with positional := a.positional.filter (fun v => !p v) })

/-! ## What is left -/

theorem takePositional_eq_none_iff {a : Arguments} {p : Instance → Bool} :
    a.takePositional p = none ↔ ∀ v ∈ a.positional, p v = false := by
  simp [takePositional]

/-- What is taken satisfies `p`, and what is left are the others in their order. -/
theorem eq_append_of_takePositional {a b : Arguments} {p : Instance → Bool} {v : Instance}
    (h : a.takePositional p = some (v, b)) :
    ∃ before after, a.positional = before ++ v :: after ∧ b.positional = before ++ after ∧
      p v = true ∧ (∀ w ∈ before, p w = false) ∧ b.keyword = a.keyword := by
  obtain ⟨w, found, taken⟩ := Option.map_eq_some_iff.1 h
  obtain ⟨rfl, rfl⟩ := Prod.mk.inj taken
  obtain ⟨accepted, before, after, split, others⟩ := List.find?_eq_some_iff_append.1 found
  refine ⟨before, after, split, ?_, accepted, fun u hu => by simpa using others u hu, rfl⟩
  have skipped : ∀ u ∈ before, ¬ p u = true := fun u hu => by simpa using others u hu
  simp [split, List.eraseP_append_right _ skipped, accepted]

@[simp] theorem keyword_drainPositional (a : Arguments) (p : Instance → Bool) :
    (a.drainPositional p).2.keyword = a.keyword := rfl

end Arguments

end Injector
