import Injector.Function
import Injector.Table
/-!
# Registries

What is registered with one container: its own bindings, the bindings it passes on
to the scopes that are opened on it, and its aliases. The last registration of a
key wins, across both tables of bindings.
-/
namespace Injector

/-- How an instance is made. -/
inductive Maker where
  | function (f : Function) (signature : Signature)
  /-- Another key is resolved and its instance, of type `input`, converted. -/
  | chained (product : Product) (input : Ty) (target : Key)
  deriving Inhabited

/-- What is done with an instance of type `ty` when its container ends. -/
structure Finalizer where
  ty : Ty
  script : Script Op
  deriving Inhabited

/-- How instances of a key are made, for how long they are shared, and what ends them. -/
structure Binding where
  maker : Maker
  finalizer : Option Finalizer
  lifetime : Lifetime
  deriving Inhabited

/-- What a function amounts to that makes an instance although nothing is bound: the
instance is not shared and nothing is done at its end. -/
def Function.unbound (f : Function) : Binding :=
  { maker := .function f f.signature, finalizer := none, lifetime := .transient }

/-- What is registered with one container. -/
@[ext] structure Registry where
  own : Table Key Binding := Table.empty
  /-- The bindings that scopes get. -/
  forScopes : Table Key Binding := Table.empty
  aliases : Table String Key := Table.empty
  /-- Whether this is the registry of a scope. -/
  inScope : Bool := false
  deriving Inhabited

namespace Registry

/-- Binds a key. A binding for scopes is also an own binding if this is a scope's
registry, and takes the place of the own one if it is not. -/
def insert (r : Registry) (key : Key) (b : Binding) : Registry :=
  if b.lifetime.inScopes then
    { r with
      own := if r.inScope then r.own.insert key b else r.own.erase key
      forScopes := r.forScopes.insert key b }
  else
    { r with own := r.own.insert key b, forScopes := r.forScopes.erase key }

/-- The binding that the container itself builds `key` by. -/
def get? (r : Registry) (key : Key) : Option Binding := r.own.get? key

/-- Whether there is a binding of either kind. -/
def isBound (r : Registry) (key : Key) : Bool := r.own.contains key || r.forScopes.contains key

/-- Whether a key is bound for scopes and not for this container. -/
def forScopesOnly (r : Registry) (key : Key) : Bool := !r.own.contains key && r.forScopes.contains key

/-- Makes a name stand for a key. -/
def addAlias (r : Registry) (key : Key) (name : String) : Registry :=
  { r with aliases := r.aliases.insert name key }

/-- The registry of a scope: the bindings for scopes become its own and stay for the
scopes opened on it in turn. Aliases are not copied. -/
def child (r : Registry) : Registry :=
  { own := r.forScopes, forScopes := r.forScopes, aliases := Table.empty, inScope := true }

/-! ## Reading after a registration -/

theorem get?_insert_of_ne (r : Registry) {k k' : Key} (b : Binding) (h : k ≠ k') :
    (r.insert k b).get? k' = r.get? k' := by
  unfold insert
  split
  · cases hs : r.inScope <;> simp [get?, Table.get?_insert, Table.get?_erase, h]
  · simp [get?, Table.get?_insert, h]

theorem get?_insert_self (r : Registry) (k : Key) (b : Binding) :
    (r.insert k b).get? k = if b.lifetime.inScopes && !r.inScope then none else some b := by
  unfold insert
  cases hb : b.lifetime.inScopes <;> cases hs : r.inScope <;> simp [get?]

theorem isBound_insert (r : Registry) (k k' : Key) (b : Binding) :
    (r.insert k b).isBound k' = (decide (k = k') || r.isBound k') := by
  unfold insert
  by_cases h : k = k' <;> cases hb : b.lifetime.inScopes <;> cases hs : r.inScope <;>
    simp [isBound, Table.contains_insert, Table.contains_erase, h]

/-- Registrations of different keys may change places. -/
theorem insert_comm (r : Registry) {k k' : Key} (b b' : Binding) (h : k ≠ k') :
    (r.insert k b).insert k' b' = (r.insert k' b').insert k b := by
  unfold insert
  cases b.lifetime.inScopes <;> cases b'.lifetime.inScopes <;> cases r.inScope <;>
    simp [Table.insert_comm _ _ _ h, Table.erase_insert_of_ne _ _ h, Table.erase_insert_of_ne _ _ (Ne.symm h),
      Table.erase_comm _ k k']

@[simp] theorem aliases_insert (r : Registry) (k : Key) (b : Binding) : (r.insert k b).aliases = r.aliases := by
  unfold insert
  split <;> rfl

@[simp] theorem inScope_insert (r : Registry) (k : Key) (b : Binding) : (r.insert k b).inScope = r.inScope := by
  unfold insert
  split <;> rfl

@[simp] theorem get?_addAlias (r : Registry) (k k' : Key) (name : String) : (r.addAlias k name).get? k' = r.get? k' := rfl

@[simp] theorem get?_child (r : Registry) (k : Key) : r.child.get? k = r.forScopes.get? k := rfl

end Registry

end Injector
