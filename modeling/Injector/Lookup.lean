import Injector.World
/-!
# Looking a key up

Which container of a chain serves a key. The nearest one that has an instance of it
or a binding for its plain type does; aliases are applied by every container that the
request is handed to.
-/
namespace Injector

/-- What a request for a key comes to. -/
inductive Located where
  /-- The container has an instance of `key`. -/
  | cached (c : ContainerId) (key : Key) (v : Instance)
  /-- The container is to build `key`; without a binding it has nothing to build it by. -/
  | builds (c : ContainerId) (key : Key) (b : Option Binding)
  /-- The key is bound for scopes only. -/
  | noAccess (key : Key)

namespace World

/-- What a key stands for in a chain: a name is replaced by what the nearest container with
an alias of that name says, once. -/
def unalias (w : World) (chain : List ContainerId) : Key → Key
  | .name s =>
    (chain.findSome? fun c => (w.container c).registry.aliases.get? s).getD (.name s)
  | key => key

/-- Whether a container has a binding for the plain key, own or for scopes, or an instance of the key. -/
def boundHere (w : World) (key : Key) (c : ContainerId) : Bool :=
  (w.container c).registry.isBound key.plain || (w.container c).cache.contains key

/-- Whether a container of the chain has a binding or an instance. -/
def boundIn (w : World) (chain : List ContainerId) (key : Key) : Bool := chain.any (w.boundHere key)

/-- Whether a key is bound or pinned in a container or its bases, after its alias. -/
def bound (w : World) (c : ContainerId) (key : Key) : Bool :=
  w.boundIn (w.chain c) (w.unalias (w.chain c) key)

/-- What a container has for a key itself: an instance, or an own binding. -/
def serves (w : World) (c : ContainerId) (key : Key) : Option Located :=
  match (w.container c).cache.get? key with
  | some v => some (.cached c key v)
  | none => ((w.container c).registry.get? key.plain).map fun b => .builds c key (some b)

/-- What becomes of a key that neither the container nor a base has. -/
def unserved (w : World) (c : ContainerId) (key : Key) : Located :=
  if (w.container c).registry.forScopesOnly key.plain then .noAccess key else .builds c key none

/-- Looks a key up in a container and its bases. A base is asked only if it or one of its
bases has the key. -/
def locateFrom (w : World) : ContainerId → List ContainerId → Key → Located
  | c, [], key =>
    let key := w.unalias [c] key
    (w.serves c key).getD (w.unserved c key)
  | c, base :: bases, key =>
    let key := w.unalias (c :: base :: bases) key
    match w.serves c key with
    | some located => located
    | none =>
      if w.boundIn (base :: bases) key then w.locateFrom base bases key else w.unserved c key

/-- Looks a key up in a container and its bases. -/
def locate (w : World) (c : ContainerId) (key : Key) : Located :=
  w.locateFrom c (w.container c).bases key

end World

end Injector
