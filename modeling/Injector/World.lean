import Injector.Answer
import Injector.Cache
import Injector.Callbacks
import Injector.Locks
/-!
# Containers

A container has bindings, instances, callbacks and build locks of its own. A scope
also has a base, whose base may be a scope again; `bases` holds them all, nearest
first. The world is all containers with the names by which operations know them,
the instances saved by name, and the log.
-/
namespace Injector

/-- The state of one container. -/
structure Container where
  /-- The containers below, nearest first; none for a container that is no scope. -/
  bases : List ContainerId := []
  registry : Registry := {}
  cache : Cache := {}
  callbacks : Callbacks := {}
  locks : Locks := {}
  /-- Whether somebody can still reach the container. -/
  live : Bool := true
  deriving Inhabited

namespace Container

/-- A container with a base is a scope. -/
def isScope (c : Container) : Bool := !c.bases.isEmpty

/-- A scope on the container `id`, whose state is `base`: what `base` has for scopes is
copied as it is now. -/
def scopeOf (id : ContainerId) (base : Container) : Container :=
  { bases := id :: base.bases, registry := base.registry.child, callbacks := base.callbacks.child }

end Container

/-- All containers, and what operations share. -/
structure World where
  /-- By number. -/
  containers : List Container := []
  /-- Names of containers, oldest first. -/
  names : List (String × ContainerId) := []
  saved : Table String Instance := Table.empty
  supply : Supply := {}
  /-- How often each function was invoked to the end of its body. -/
  invocations : Table String Nat := Table.empty
  /-- How many attempts to take a build lock there were. -/
  tickets : Nat := 0
  /-- What ended containers still have to do, one list for each. -/
  orphans : List (List Teardown) := []
  /-- Oldest event first. -/
  log : List Event := []
  deriving Inhabited

namespace World

/-! ## Parts of the world -/

/-- The state of a container. -/
def container (w : World) (c : ContainerId) : Container := (w.containers[c]?).getD {}

/-- Changes one container. -/
def modify (w : World) (c : ContainerId) (f : Container → Container) : World :=
  { w with containers := w.containers.modify c f }

/-- Changes what is registered with a container. -/
def modifyRegistry (w : World) (c : ContainerId) (f : Registry → Registry) : World :=
  w.modify c fun x => { x with registry := f x.registry }

/-- Changes the instances of a container. -/
def modifyCache (w : World) (c : ContainerId) (f : Cache → Cache) : World :=
  w.modify c fun x => { x with cache := f x.cache }

/-- Changes the hooks and callbacks of a container. -/
def modifyCallbacks (w : World) (c : ContainerId) (f : Callbacks → Callbacks) : World :=
  w.modify c fun x => { x with callbacks := f x.callbacks }

/-- Changes the build locks of a container. -/
def modifyLocks (w : World) (c : ContainerId) (f : Locks → Locks) : World :=
  w.modify c fun x => { x with locks := f x.locks }

/-- Tells an event. -/
def tell (w : World) (e : Event) : World := { w with log := w.log ++ [e] }

/-- Makes instances from the supply. -/
def supplied {α : Type} (w : World) (make : Supply → α × Supply) : α × World :=
  let (a, supply) := make w.supply
  (a, { w with supply })

/-- Keeps an instance under a name, if there is one. -/
def save (w : World) (name : Option String) (v : Instance) : World :=
  match name with
  | some name => { w with saved := w.saved.insert name v }
  | none => w

/-- Counts an invocation of a function; the first one counts 1. -/
def invoke (w : World) (function : String) : Nat × World :=
  let count := (w.invocations.get? function).getD 0 + 1
  (count, { w with invocations := w.invocations.insert function count })

/-! ## Names and handles -/

/-- The container of a name. -/
def named (w : World) (name : String) : Option ContainerId :=
  (w.names.find? (fun row => row.1 == name)).map Prod.snd

/-- Takes a name away from its container. -/
def forget (w : World) (name : String) : World :=
  { w with names := w.names.filter (fun row => !(row.1 == name)) }

/-- Gives a name to a container; the container that had it loses it. -/
def giveName (w : World) (name : String) (c : ContainerId) : World :=
  { w.forget name with names := (w.forget name).names ++ [(name, c)] }

/-- Adds a container. -/
def add (w : World) (c : Container) : ContainerId × World :=
  (w.containers.length, { w with containers := w.containers ++ [c] })

/-- A container and its bases, nearest first. -/
def chain (w : World) (c : ContainerId) : List ContainerId := c :: (w.container c).bases

/-- The containers that somebody can still reach: those with a name, those in `held`, and
the bases of both. -/
def reachable (w : World) (held : List ContainerId) : List ContainerId :=
  (w.names.map Prod.snd ++ held).flatMap w.chain

/-- The live containers that nobody can reach any more. A scope comes before its bases. -/
def unreachable (w : World) (held : List ContainerId) : List ContainerId :=
  let reachable := w.reachable held
  (List.range w.containers.length).reverse.filter fun c =>
    (w.container c).live && !reachable.contains c

/-- Ends a container. Nothing of it is left but what it still has to do, if anything. -/
def close (w : World) (c : ContainerId) : World :=
  let left := (w.container c).callbacks.terminating
  { w.modify c (fun x => { bases := x.bases, live := false }) with
    orphans := if left.isEmpty then w.orphans else w.orphans ++ [left] }

/-- Ends all containers that nobody can reach. -/
def release (w : World) (held : List ContainerId) : World := (w.unreachable held).foldl close w

/-! ## Containers after a change -/

theorem container_modify (w : World) (c c' : ContainerId) (f : Container → Container) :
    (w.modify c f).container c' =
      if c = c' ∧ c < w.containers.length then f (w.container c') else w.container c' := by
  by_cases h : c = c'
  · subst h
    by_cases hc : c < w.containers.length <;> simp [modify, container, hc]
  · simp [modify, container, h]

/-- What a change leaves alone in each container is as before. -/
theorem field_modify {α : Type} (field : Container → α) (w : World) (c c' : ContainerId)
    (f : Container → Container) (same : ∀ x, field (f x) = field x) :
    field ((w.modify c f).container c') = field (w.container c') := by
  rw [container_modify]
  split
  · exact same _
  · rfl

theorem container_modify_of_ne (w : World) {c c' : ContainerId} (f : Container → Container) (h : c ≠ c') :
    (w.modify c f).container c' = w.container c' := by
  simp [container_modify, h]

@[simp] theorem length_containers_modify (w : World) (c : ContainerId) (f : Container → Container) :
    (w.modify c f).containers.length = w.containers.length := by
  simp [modify]

@[simp] theorem log_modify (w : World) (c : ContainerId) (f : Container → Container) : (w.modify c f).log = w.log := rfl

@[simp] theorem names_modify (w : World) (c : ContainerId) (f : Container → Container) :
    (w.modify c f).names = w.names := rfl

@[simp] theorem container_tell (w : World) (e : Event) (c : ContainerId) : (w.tell e).container c = w.container c := rfl

@[simp] theorem container_supplied {α : Type} (w : World) (make : Supply → α × Supply) (c : ContainerId) :
    (w.supplied make).2.container c = w.container c := rfl

@[simp] theorem container_supply (w : World) (s : Supply) (c : ContainerId) :
    ({ w with supply := s } : World).container c = w.container c := rfl

@[simp] theorem container_save (w : World) (name : Option String) (v : Instance) (c : ContainerId) :
    (w.save name v).container c = w.container c := by
  cases name <;> rfl

@[simp] theorem container_forget (w : World) (name : String) (c : ContainerId) :
    (w.forget name).container c = w.container c := rfl

@[simp] theorem container_giveName (w : World) (name : String) (c c' : ContainerId) :
    (w.giveName name c).container c' = w.container c' := rfl

@[simp] theorem container_invoke (w : World) (function : String) (c : ContainerId) :
    (w.invoke function).2.container c = w.container c := rfl

/-! ### Fields of containers -/

section Fields
variable (w : World) (c c' : ContainerId) (fr : Registry → Registry) (fi : Cache → Cache)
  (fk : Callbacks → Callbacks) (fl : Locks → Locks)

@[simp] theorem bases_modifyRegistry : ((w.modifyRegistry c fr).container c').bases = (w.container c').bases :=
  field_modify Container.bases w c c' _ fun _ => rfl
@[simp] theorem live_modifyRegistry : ((w.modifyRegistry c fr).container c').live = (w.container c').live :=
  field_modify Container.live w c c' _ fun _ => rfl
@[simp] theorem cache_modifyRegistry : ((w.modifyRegistry c fr).container c').cache = (w.container c').cache :=
  field_modify Container.cache w c c' _ fun _ => rfl
@[simp] theorem callbacks_modifyRegistry :
    ((w.modifyRegistry c fr).container c').callbacks = (w.container c').callbacks :=
  field_modify Container.callbacks w c c' _ fun _ => rfl
@[simp] theorem locks_modifyRegistry : ((w.modifyRegistry c fr).container c').locks = (w.container c').locks :=
  field_modify Container.locks w c c' _ fun _ => rfl

@[simp] theorem bases_modifyCache : ((w.modifyCache c fi).container c').bases = (w.container c').bases :=
  field_modify Container.bases w c c' _ fun _ => rfl
@[simp] theorem live_modifyCache : ((w.modifyCache c fi).container c').live = (w.container c').live :=
  field_modify Container.live w c c' _ fun _ => rfl
@[simp] theorem registry_modifyCache : ((w.modifyCache c fi).container c').registry = (w.container c').registry :=
  field_modify Container.registry w c c' _ fun _ => rfl
@[simp] theorem callbacks_modifyCache : ((w.modifyCache c fi).container c').callbacks = (w.container c').callbacks :=
  field_modify Container.callbacks w c c' _ fun _ => rfl
@[simp] theorem locks_modifyCache : ((w.modifyCache c fi).container c').locks = (w.container c').locks :=
  field_modify Container.locks w c c' _ fun _ => rfl

@[simp] theorem bases_modifyCallbacks : ((w.modifyCallbacks c fk).container c').bases = (w.container c').bases :=
  field_modify Container.bases w c c' _ fun _ => rfl
@[simp] theorem live_modifyCallbacks : ((w.modifyCallbacks c fk).container c').live = (w.container c').live :=
  field_modify Container.live w c c' _ fun _ => rfl
@[simp] theorem registry_modifyCallbacks :
    ((w.modifyCallbacks c fk).container c').registry = (w.container c').registry :=
  field_modify Container.registry w c c' _ fun _ => rfl
@[simp] theorem cache_modifyCallbacks : ((w.modifyCallbacks c fk).container c').cache = (w.container c').cache :=
  field_modify Container.cache w c c' _ fun _ => rfl
@[simp] theorem locks_modifyCallbacks : ((w.modifyCallbacks c fk).container c').locks = (w.container c').locks :=
  field_modify Container.locks w c c' _ fun _ => rfl

@[simp] theorem bases_modifyLocks : ((w.modifyLocks c fl).container c').bases = (w.container c').bases :=
  field_modify Container.bases w c c' _ fun _ => rfl
@[simp] theorem live_modifyLocks : ((w.modifyLocks c fl).container c').live = (w.container c').live :=
  field_modify Container.live w c c' _ fun _ => rfl
@[simp] theorem registry_modifyLocks : ((w.modifyLocks c fl).container c').registry = (w.container c').registry :=
  field_modify Container.registry w c c' _ fun _ => rfl
@[simp] theorem cache_modifyLocks : ((w.modifyLocks c fl).container c').cache = (w.container c').cache :=
  field_modify Container.cache w c c' _ fun _ => rfl
@[simp] theorem callbacks_modifyLocks : ((w.modifyLocks c fl).container c').callbacks = (w.container c').callbacks :=
  field_modify Container.callbacks w c c' _ fun _ => rfl

end Fields

theorem container_add_self (w : World) (x : Container) : (w.add x).2.container (w.add x).1 = x := by
  simp [add, container]

theorem container_add_of_lt (w : World) (x : Container) {c : ContainerId} (h : c < w.containers.length) :
    (w.add x).2.container c = w.container c := by
  simp [add, container, List.getElem?_append_left h]

end World

end Injector
