import Injector.Lookup
import Injector.Frame
/-!
# Commands

Registrations, names, aliases, hooks, callbacks and questions: what changes the world
in one step and never waits.
-/
namespace Injector

/-- The type a source provides. -/
def Source.ty (p : Program) : Source → Ty
  | .function name _ => (p.function name).product.ty
  | .injectable t => (p.injectable t).product.ty
  | .chained product _ _ => product.ty

/-- How a source makes its instances. -/
def Source.maker (p : Program) : Source → Maker
  | .function name signed =>
    .function (p.function name) (if signed then (p.function name).signature else .empty)
  | .injectable t => .function (p.injectable t) (p.injectable t).signature
  | .chained product input target => .chained product input target

/-- The binding of a source. Its finalizer is for instances of the type it provides. -/
def Source.binding (p : Program) (s : Source) (lifetime : Lifetime) (finalizer : Option (Script Op)) : Binding :=
  { maker := s.maker p, finalizer := finalizer.map fun script => ⟨s.ty p, script⟩, lifetime }

/-- The failure that ends the sequence an operation stands in. -/
def Heading.stops (h : Heading) (r : Reply) : Option Failure := if h.must then r.failure? else none

namespace World

/-- Registers a hook under what its key stands for. -/
def addHook (w : World) (c : ContainerId) (inScopes : Bool) (key : Key) (h : Hook) : World :=
  w.modifyCallbacks c fun x => x.addAfterResolving inScopes (w.unalias (w.chain c) key) h

/-- Opens a scope on a container. -/
def openScope (w : World) (c : ContainerId) : ContainerId × World :=
  w.add (Container.scopeOf c (w.container c))

/-- Opens a container without a base and gives it a name. -/
def openRoot (w : World) (name : String) : World :=
  let (c, w) := w.add {}
  w.giveName name c

/-- Makes explicit arguments: the positional ones first, then the named ones. -/
def makeArguments (w : World) (positional : List Literal) (keyword : List (String × Literal)) :
    Arguments × World :=
  w.supplied fun s =>
    let (vs, s) := Literal.makeAll w.saved positional s
    let (kws, s) := Literal.makeNamed w.saved keyword s
    (.ofLists vs kws, s)

/-- What a command does to container `c`, which it calls `target`. -/
def instant (p : Program) (w : World) (c : ContainerId) (target : String) : Instant Command Op → Reply × World
  | .openRoot name => (.ok, w.openRoot name)
  | .openScope name =>
    let (scope, w) := w.openScope c
    (.ok, w.giveName name scope)
  | .clone name => (.ok, w.giveName name c)
  | .drop => (.ok, w.forget target)
  | .isScope => (.truth (w.container c).isScope, w)
  | .register key source lifetime finalizer =>
    let key := key.getD (.type (source.ty p))
    (.ok, w.modifyRegistry c fun r => r.insert key (source.binding p lifetime finalizer))
  | .pin key value =>
    let (v, w) := w.supplied (value.makeOwn w.saved)
    (.ok, w.modifyCache c fun x => x.pin (key.getD (.type v.ty)) v)
  | .addAlias key name => (.ok, w.modifyRegistry c fun r => r.addAlias key name)
  | .bound key => (.truth (w.bound c key), w)
  | .afterResolving inScopes t key hook => (.ok, w.addHook c inScopes key ⟨t, hook⟩)
  | .terminating inScopes callback =>
    (.ok, w.modifyCallbacks c fun x => x.addTerminating inScopes callback)
  | .same a b =>
    match w.saved.get? a, w.saved.get? b with
    | some v, some v' => (.truth (v.same v'), w)
    | _, _ => (.noSaved, w)
  | .describe key => (.key key.text key.isName key.ty?, w)
  | .compare a b => (.comparison (a = b) (a.cmp b) (a.ty? = b.ty?), w)
  | .lifetime l => (.lifetime l, w)
  | .arguments positional keyword =>
    let (args, w) := w.makeArguments positional keyword
    (.arguments args.positional.length args.isEmpty, w)
  | .signature names defaults ask =>
    let (defaults, w) := w.supplied (Literal.makeNamed w.saved defaults)
    let s := Signature.ofLists names defaults
    (.signature s.length s.isEmpty ((List.range (s.length + 1)).map s.name?) (ask.map s.defaultOf), w)
  | .read t value =>
    let (v, w) := w.supplied (value.make w.saved)
    (.primitive t (t.read v), w)
  | .parameters ps => (.parameters (Param.parametersOf ps), w)

/-- The container an operation is asked of. `$` stands for `self`. -/
def target (w : World) (self : Option ContainerId) (name : String) : Option ContainerId :=
  if name = "$" then self else w.named name

/-- Performs a command. Only a container without a base can be opened without naming a container. -/
def command (p : Program) (w : World) (self : Option ContainerId) (c : Command) : Reply × World :=
  match c.action, w.target self c.heading.target with
  | .openRoot name, _ => (.ok, w.openRoot name)
  | action, some id => w.instant p id c.heading.target action
  | _, none => (.noContainer, w)

/-- Performs commands, one after the other, telling each, and ends the containers that nobody
can reach any more. Gives the failure of a command that must succeed, which is then the last. -/
def commands (p : Program) (held : List ContainerId) (self : Option ContainerId) :
    List Command → World → Option Failure × World
  | [], w => (none, w)
  | c :: rest, w =>
    let (r, w) := w.command p self c
    let w := (w.tell (.performed c.heading.label r)).release held
    match c.heading.stops r with
    | some failure => (some failure, w)
    | none => commands p held self rest w

/-- Shows an instance of container `c` to hooks. A hook for another type is passed over. -/
def showTo (p : Program) (held : List ContainerId) (c : ContainerId) (v : Instance) : List Hook → World → World
  | [], w => w
  | h :: rest, w =>
    if h.ty = v.ty then
      let w := w.tell (.hook h.script.id v (w.container c).isScope)
      showTo p held c v rest (w.commands p held (some c) h.script.actions).2
    else showTo p held c v rest w

end World

end Injector
