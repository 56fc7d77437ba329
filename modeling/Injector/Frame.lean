import Injector.Arguments
import Injector.Failure
import Injector.Parameter
import Injector.Signature
/-!
# Filling a parameter list

A frame is the state of one filling: the container that is asked, the arguments
that no slot has taken, the signature and the position. Filling a slot never looks
at the container itself. It says which key it asks for (`Extractor.asks`), and what
it becomes once there is an answer (`Frame.fillWith`) or without one (`Frame.fillAlone`).
-/
namespace Injector

/-- The instance, if it is of type `t`. -/
def Shared.expect (t : Ty) (v : Instance) : Except Failure Instance :=
  if v.ty = t then .ok v else .error (.incorrectType t v.ty)

/-- The state of one filling. -/
structure Frame where
  container : ContainerId
  /-- Whether the container is a scope. -/
  inScope : Bool
  arguments : Arguments
  signature : Signature
  /-- What errors call the function whose parameters are filled. -/
  callable : String
  position : Nat
  /-- The keys being built around this filling, outermost first. -/
  path : List Key

/-- The key an extractor asks the container for. A `rest` parameter first sees what is
bound: the sequence comes before the single item, and neither may be there. -/
def Extractor.asks (bound : Key → Bool) : Extractor → Option Key
  | .inject t | .autowired t => some (.type t)
  | .annotated t tags => some (.tagged t tags)
  | .named _ name => some (.name name)
  | .rest t =>
    if bound (.type (.seq t)) then some (.type (.seq t))
    else if bound (.type t) then some (.type t)
    else none
  | .lookup key => some key
  | .arg _ | .kwargs | .container | .inspect | .replace _ _ => none

/-- The type that may build itself if the container has nothing bound for it. -/
def Extractor.fallback : Extractor → Option Ty
  | .autowired t => some t
  | _ => none

namespace Frame

/-- What errors call the parameter at the current position. -/
def label (f : Frame) : String := f.signature.labelAt f.position

/-- The failure of a parameter that asked for `key` in vain. -/
def dependencyFailure (f : Frame) (key : Key) (source : Failure) : Failure :=
  .dependency f.label f.callable key source

/-- Fills a dependency of type `t`: the answer if it is an instance of that type, else
the first positional argument that is. -/
def fillDependency (f : Frame) (t : Ty) (key : Key) (answer : Except Failure Instance) :
    Except Failure (Filled × Frame) :=
  match answer.bind (Shared.expect t) with
  | .ok v => .ok (.instance v, f)
  | .error failure =>
    match f.arguments.takePositional (fun v => v.ty = t) with
    | some (v, arguments) => .ok (.instance v, { f with arguments })
    | none => .error (f.dependencyFailure key failure)

/-- Fills a primitive: the keyword argument of its name if there is one, which then has to
be readable; else the first readable positional argument; else a readable default. -/
def fillPrimitive (f : Frame) (p : Primitive) : Except Failure (Filled × Frame) :=
  match (f.signature.name? f.position).bind f.arguments.takeKeyword with
  | some (v, arguments) =>
    match p.read v with
    | some w => .ok (.primitive p w, { f with arguments })
    | none => .error (.incorrectType p.ty v.ty)
  | none =>
    match f.arguments.takePositional p.accepts with
    | some (v, arguments) => .ok (.primitive p ((p.read v).getD v), { f with arguments })
    | none =>
      match (f.signature.defaultAt f.position).bind p.read with
      | some w => .ok (.primitive p w, f)
      | none => .error (.missingArgument f.label f.position f.callable p.ty)

/-- Fills a `rest` parameter: `bound` first, then every positional argument of type `t`. -/
def fillRest (f : Frame) (t : Ty) (bound : List Instance) : Filled × Frame :=
  let (drained, arguments) := f.arguments.drainPositional (fun v => v.ty = t)
  (.rest (bound ++ drained), { f with arguments })

/-- What a look at the frame shows. -/
def inspect (f : Frame) : Inspection where
  position := f.position
  name := f.signature.name? f.position
  callable := f.callable
  default := f.signature.defaultAt f.position
  inScope := f.inScope
  positional := f.arguments.positional.length
  empty := f.arguments.isEmpty

/-- Fills a slot that asks for nothing. A dependency is then left to the arguments. -/
def fillAlone (f : Frame) : Extractor → Except Failure (Filled × Frame)
  | .inject t | .autowired t => f.fillDependency t (.type t) (.error (.unbound (.type t)))
  | .annotated t tags => f.fillDependency t (.tagged t tags) (.error (.unbound (.tagged t tags)))
  | .named t name => f.fillDependency t (.name name) (.error (.unbound (.name name)))
  | .arg p => f.fillPrimitive p
  | .rest t => .ok (f.fillRest t [])
  | .kwargs =>
    let (kws, arguments) := f.arguments.takeKeywords
    .ok (.kwargs kws, { f with arguments })
  | .container => .ok (.container f.container f.inScope, f)
  | .inspect => .ok (.inspection f.inspect, f)
  | .lookup key => .error (.unbound key)
  | .replace _ _ => .ok (.replaced, f)

/-- Fills a slot that asked for `key` and got an answer. -/
def fillWith (f : Frame) (key : Key) (answer : Except Failure Instance) :
    Extractor → Except Failure (Filled × Frame)
  | .inject t | .autowired t | .annotated t _ | .named t _ => f.fillDependency t key answer
  | .rest t =>
    let whole := key = .type (.seq t)
    match answer.bind (Shared.expect (if whole then .seq t else t)) with
    | .ok v => .ok (f.fillRest t (if whole then v.itemsOf t else [v]))
    | .error failure => .error (f.dependencyFailure key failure)
  | .lookup _ => answer.map (fun v => (.instance v, f))
  | e => f.fillAlone e

end Frame

end Injector
