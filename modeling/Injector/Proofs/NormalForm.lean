import Injector.Proofs.Registered
import Mathlib.Logic.Function.Iterate
/-!
# The normal form of a registry

A registry is empty at first, or seeded with the bindings that a base passes on when a scope is opened on it;
then bindings are registered with it (`Registry.Grown`). Of these only the last one of each key counts, and it
is in one of two tables or in both, by its lifetime and by whose registry this is: `Registry.normal` says what
all registrations come to, and `Grown.normal_form` that they do. `System.Reachable.grown`: the containers of
runs have such registries.
-/
namespace Injector

namespace Registry

/-! ## Registrations -/

/-- The binding that was registered last for a key. -/
def lastOf (rows : List (Key × Binding)) (key : Key) : Option Binding :=
  ((rows.filter fun row => row.1 = key).getLast?).map Prod.snd

/-- A registry that registrations and the opening of scopes lead to, with the bindings it was seeded with if it is
the registry of a scope, and what was registered with it since. -/
inductive Grown : Registry → Option (Table Key Binding) → List (Key × Binding) → Prop
  | root : Grown {} none []
  | insert {r : Registry} {seed : Option (Table Key Binding)} {rows : List (Key × Binding)} (before : Grown r seed rows)
    (key : Key) (b : Binding) : Grown (r.insert key b) seed (rows ++ [(key, b)])
  | child {r : Registry} {seed : Option (Table Key Binding)} {rows : List (Key × Binding)} (base : Grown r seed rows) :
    Grown r.child (some r.forScopes) []

/-- The part of a table that is for scopes. -/
def scopesPart (t : Table Key Binding) : Table Key Binding := ⟨fun key => (t.get? key).filter (·.lifetime.inScopes)⟩

/-- What registrations come to. Without a seed the last binding of a key is either for scopes or an own one; with a
seed it takes the place of that of the seed, and is for scopes as well if its lifetime says so. -/
def normal (seed : Option (Table Key Binding)) (rows : List (Key × Binding)) : Registry :=
  match seed with
  | none =>
    { own := ⟨fun key => (lastOf rows key).filter (!·.lifetime.inScopes)⟩
      forScopes := ⟨fun key => (lastOf rows key).filter (·.lifetime.inScopes)⟩ }
  | some bindings =>
    let own : Table Key Binding := ⟨fun key => (lastOf rows key).or (bindings.get? key)⟩
    { own, forScopes := scopesPart own, inScope := true }

@[simp] theorem lastOf_nil (key : Key) : lastOf [] key = none := rfl

theorem lastOf_concat (rows : List (Key × Binding)) (key key' : Key) (b : Binding) :
    lastOf (rows ++ [(key, b)]) key' = if key = key' then some b else lastOf rows key' := by
  by_cases same : key = key' <;> simp [lastOf, same]

/-- Only the last binding of each key counts. -/
theorem normal_congr {rows rows' : List (Key × Binding)} (same : ∀ key, lastOf rows' key = lastOf rows key)
    (seed : Option (Table Key Binding)) : normal seed rows' = normal seed rows := by
  have same : lastOf rows' = lastOf rows := funext same
  unfold normal
  rw [same]

/-! ## One registration -/

theorem get?_scopesPart (t : Table Key Binding) (key : Key) :
    (scopesPart t).get? key = (t.get? key).filter (·.lifetime.inScopes) := rfl

@[simp] theorem scopesPart_scopesPart (t : Table Key Binding) : scopesPart (scopesPart t) = scopesPart t := by
  ext key : 2
  simp [get?_scopesPart, Option.filter_filter]

/-- An earlier registration of a key has no effect, whichever table it went to. -/
theorem insert_insert (r : Registry) (key : Key) (b b' : Binding) : (r.insert key b).insert key b' = r.insert key b' := by
  unfold insert
  cases b.lifetime.inScopes <;> cases b'.lifetime.inScopes <;> cases r.inScope <;>
    simp [Table.insert_insert, Table.erase_insert, Table.insert_erase, Table.erase_erase]

/-- Registrations do not look at aliases. -/
theorem insert_without_aliases (r : Registry) (key : Key) (b : Binding) :
    ({ r with aliases := Table.empty } : Registry).insert key b = { r.insert key b with aliases := Table.empty } := by
  unfold insert
  dsimp only
  split <;> rfl

/-- One more registration, in the normal form. -/
theorem insert_normal (seed : Option (Table Key Binding)) (rows : List (Key × Binding)) (key : Key) (b : Binding) :
    (normal seed rows).insert key b = normal seed (rows ++ [(key, b)]) := by
  ext1
  case own | forScopes =>
    ext key' : 2
    cases seed <;> cases shared : b.lifetime.inScopes <;> by_cases same : key = key' <;>
      simp [insert, normal, scopesPart, shared, same, lastOf_concat, Table.get?_insert, Table.get?_erase, Option.filter]
  case aliases | inScope => cases seed <;> simp [normal]

/-! ## All registrations -/

namespace Grown

variable {r : Registry} {seed : Option (Table Key Binding)} {rows : List (Key × Binding)}

/-- What registrations lead to is the normal form. -/
theorem eq_normal (h : Grown r seed rows) : r = normal seed rows := by
  induction h with
  | root => rfl
  | insert _ key b ih => rw [ih, insert_normal]
  | @child r seed rows _ ih =>
    -- What a scope is seeded with is all for scopes.
    have shared : scopesPart r.forScopes = r.forScopes := by
      rw [ih]
      cases seed with
      | none =>
        ext key : 2
        simp [normal, get?_scopesPart, Option.filter_filter]
      | some => exact scopesPart_scopesPart _
    simp [normal, Registry.child, shared]

end Grown

/-- A registry whose tables are apart: a key is in one of them only, by its lifetime. -/
structure Apart (r : Registry) : Prop where
  disjoint : ∀ key, r.own.contains key = true → r.forScopes.contains key = false
  own : ∀ key b, r.own.get? key = some b → b.lifetime.inScopes = false
  forScopes : ∀ key b, r.forScopes.get? key = some b → b.lifetime.inScopes = true

/-- A registry which passes on what is for scopes of its own bindings, to scopes on scopes too. -/
structure PassesOn (r : Registry) : Prop where
  forScopes : r.forScopes = scopesPart r.own
  usable : ∀ key, r.forScopesOnly key = false
  children : ∀ n, ((child^[n + 1]) r).own = scopesPart r.own

/-- A scope on a scope is seeded with the same. -/
theorem child_child (r : Registry) : r.child.child = r.child := rfl

theorem apart_normal (rows : List (Key × Binding)) : (normal none rows).Apart where
  disjoint key := by
    cases found : lastOf rows key with
    | none => simp [normal, Table.contains, found]
    | some b => cases shared : b.lifetime.inScopes <;> simp [normal, Table.contains, found, Option.filter, shared]
  own key b found := by simpa using (Option.filter_eq_some_iff.1 found).2
  forScopes key b found := (Option.filter_eq_some_iff.1 found).2

theorem passesOn_normal (bindings : Table Key Binding) (rows : List (Key × Binding)) :
    (normal (some bindings) rows).PassesOn where
  forScopes := rfl
  usable key := by
    have passes : (normal (some bindings) rows).forScopes = scopesPart (normal (some bindings) rows).own := rfl
    cases found : (normal (some bindings) rows).own.get? key <;>
      simp [forScopesOnly, Table.contains, passes, get?_scopesPart, found]
  children n := by
    rw [Function.iterate_succ_apply, Function.iterate_fixed (child_child _)]
    rfl

/-- A registry is what its last registrations say, one a key, and what it was seeded with: registrations of different
keys may change places, and an earlier one of the same key has no effect. Without a seed a key is either an own one or
for scopes. With a seed, what is passed on to scopes on any level is what of the own bindings is for scopes, and nothing
is for scopes only. -/
theorem Grown.normal_form {r : Registry} {seed : Option (Table Key Binding)} {rows : List (Key × Binding)}
    (h : Grown r seed rows) :
    r = normal seed rows ∧
    (∀ {r' rows'}, Grown r' seed rows' → (∀ key, lastOf rows' key = lastOf rows key) → r' = r) ∧
    (∀ key key' b b', key ≠ key' → (r.insert key b).insert key' b' = (r.insert key' b').insert key b) ∧
    (∀ key b b', (r.insert key b).insert key b' = r.insert key b') ∧
    (seed = none → r.Apart) ∧ (seed ≠ none → r.PassesOn) := by
  refine ⟨h.eq_normal, fun h' same => ?_, fun _ _ _ _ ne => insert_comm r _ _ ne, insert_insert r, ?_, ?_⟩
  · rw [h.eq_normal, h'.eq_normal, normal_congr same]
  · rintro rfl
    rw [h.eq_normal]
    exact apart_normal rows
  · intro scope
    obtain ⟨bindings, rfl⟩ := Option.ne_none_iff_exists'.1 scope
    rw [h.eq_normal]
    exact passesOn_normal bindings rows

/-- Titles and bodies are set from the same letters. -/
def lettering (lifetime : Lifetime) : Binding :=
  { maker := .chained .text .text (.name "letters"), finalizer := none, lifetime }

/-- A press has one title at first, and then passes titles and bodies on to scopes. -/
def press : Registry :=
  ((({} : Registry).insert (.name "title") (lettering .singleton)).insert (.name "title") (lettering .perScope)).insert
    (.name "body") (lettering .perScope)

/-- A scope on the press sets titles of its own. -/
def reprint : Registry := press.child.insert (.name "title") (lettering .transient)

/-- The scope passes bodies on to all scopes on it, however far below, but neither its own titles nor those of the press. -/
theorem reprint_passes_bodies_on :
    Grown reprint (some press.forScopes) [(.name "title", lettering .transient)] ∧
    reprint.get? (.name "title") = some (lettering .transient) ∧
    ∀ n, ((child^[n + 1]) reprint).get? (.name "title") = none ∧
      ((child^[n + 1]) reprint).get? (.name "body") = some (lettering .perScope) := by
  have base : Grown press none _ := ((Grown.root.insert _ _).insert _ _).insert _ _
  have scope : Grown reprint (some press.forScopes) [(.name "title", lettering .transient)] := base.child.insert _ _
  obtain ⟨-, -, -, -, -, passes⟩ := scope.normal_form
  have passes := passes (Option.some_ne_none _)
  refine ⟨scope, rfl, fun n => ?_⟩
  rw [Registry.get?, Registry.get?, passes.children n]
  exact ⟨rfl, rfl⟩

end Registry

namespace System

variable {p : Program} {s : System}

/-- The registry of each container of a run has grown, apart from the aliases, which no scope is seeded with. -/
theorem Reachable.grown (h : Reachable p s) (c : ContainerId) : ∃ seed rows,
    Registry.Grown { (s.world.container c).registry with aliases := Table.empty } seed rows ∧
      seed.isSome = (s.world.container c).registry.inScope := by
  have lasting : Registry.Lasting p fun r => ∃ seed rows,
      Registry.Grown { r with aliases := Table.empty } seed rows ∧ seed.isSome = r.inScope := by
    refine ⟨⟨none, [], .root, rfl⟩, ?_, ?_, ?_⟩
    · rintro r ⟨seed, rows, grown, -⟩
      exact ⟨_, _, grown.child, rfl⟩
    · rintro r key source lifetime finalizer ⟨seed, rows, grown, scope⟩
      have inserted := grown.insert key (source.binding p lifetime finalizer)
      rw [Registry.insert_without_aliases] at inserted
      exact ⟨seed, _, inserted, scope.trans (Registry.inScope_insert ..).symm⟩
    · exact fun r key name grown => grown
  exact h.registries lasting c

end System

end Injector
