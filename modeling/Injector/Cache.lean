import Injector.Instance
import Injector.Key
import Injector.Table
/-!
# Caches

The instances a container keeps: built ones, which it forgets when it is
terminated, and pinned ones, which it does not. It also marks the keys that were
resolved since.
-/
namespace Injector

/-- The instances of one container. -/
@[ext] structure Cache where
  instances : Table Key Instance := Table.empty
  /-- The keys whose instance was put there by hand. -/
  pinned : KeySet Key := Table.empty
  resolved : KeySet Key := Table.empty
  deriving Inhabited

namespace Cache

/-- The instance kept under a key. -/
def get? (c : Cache) (key : Key) : Option Instance := c.instances.get? key

/-- Whether an instance is kept under a key. -/
def contains (c : Cache) (key : Key) : Bool := c.instances.contains key

/-- Whether the instance of a key was put there by hand. -/
def isPinned (c : Cache) (key : Key) : Bool := c.pinned.contains key

/-- Whether a key was resolved since the last termination, or is pinned. -/
def isResolved (c : Cache) (key : Key) : Bool := c.resolved.contains key

/-- Keeps a built instance; a pinned one of the same key gives way. -/
def insert (c : Cache) (key : Key) (v : Instance) : Cache :=
  { c with instances := c.instances.insert key v, pinned := c.pinned.erase key }

/-- Puts an instance by hand, which also counts as a resolution of the key. -/
def pin (c : Cache) (key : Key) (v : Instance) : Cache :=
  { instances := c.instances.insert key v, pinned := c.pinned.insert key (), resolved := c.resolved.insert key () }

/-- Marks a key as resolved. -/
def markResolved (c : Cache) (key : Key) : Cache := { c with resolved := c.resolved.insert key () }

/-- Forgets what was built and resolved; only what is pinned stays. -/
def clearBuilt (c : Cache) : Cache :=
  { c with instances := c.instances.restrict c.isPinned, resolved := c.resolved.restrict c.isPinned }

/-! ## Reading after writing -/

theorem get?_insert (c : Cache) (k k' : Key) (v : Instance) :
    (c.insert k v).get? k' = if k = k' then some v else c.get? k' := rfl

theorem get?_pin (c : Cache) (k k' : Key) (v : Instance) :
    (c.pin k v).get? k' = if k = k' then some v else c.get? k' := rfl

@[simp] theorem get?_markResolved (c : Cache) (k k' : Key) : (c.markResolved k).get? k' = c.get? k' := rfl

theorem get?_clearBuilt (c : Cache) (k : Key) :
    c.clearBuilt.get? k = if c.isPinned k then c.get? k else none := rfl

theorem isPinned_insert (c : Cache) (k k' : Key) (v : Instance) :
    (c.insert k v).isPinned k' = (!decide (k = k') && c.isPinned k') :=
  Table.contains_erase c.pinned k k'

theorem isPinned_pin (c : Cache) (k k' : Key) (v : Instance) :
    (c.pin k v).isPinned k' = (decide (k = k') || c.isPinned k') :=
  Table.contains_insert c.pinned k k' ()

@[simp] theorem isPinned_markResolved (c : Cache) (k k' : Key) :
    (c.markResolved k).isPinned k' = c.isPinned k' := rfl

@[simp] theorem isPinned_clearBuilt (c : Cache) (k : Key) : c.clearBuilt.isPinned k = c.isPinned k := rfl

theorem isResolved_markResolved (c : Cache) (k k' : Key) :
    (c.markResolved k).isResolved k' = (decide (k = k') || c.isResolved k') :=
  Table.contains_insert c.resolved k k' ()

theorem isResolved_pin (c : Cache) (k k' : Key) (v : Instance) :
    (c.pin k v).isResolved k' = (decide (k = k') || c.isResolved k') :=
  Table.contains_insert c.resolved k k' ()

@[simp] theorem isResolved_insert (c : Cache) (k k' : Key) (v : Instance) :
    (c.insert k v).isResolved k' = c.isResolved k' := rfl

theorem isResolved_clearBuilt (c : Cache) (k : Key) :
    c.clearBuilt.isResolved k = (c.isPinned k && c.isResolved k) := by
  simp only [isResolved, clearBuilt, Table.contains, Table.get?_restrict]
  cases c.isPinned k <;> rfl

end Cache

end Injector
