import Injector.Command
import Injector.Task
/-!
# Steps of a task

One step takes a task from one activity to the next. Between two steps in which the
task waits, no other task comes in between; a build lock, a suspended body and other
tasks are what a task waits for.
-/
namespace Injector

/-- What a step sees around its task. -/
structure Env where
  program : Program
  /-- The containers that tasks keep alive. -/
  held : List ContainerId
  /-- The number of the next task that is started. -/
  next : Nat

/-- A step: the world and the task after it, and the tasks it starts. -/
structure Step where
  world : World
  task : Task
  started : List Task := []

namespace Step

/-- Goes on with an activity. -/
def next {k : Kind} (w : World) (a : Activity k) (below : Stack k) : Step := ⟨w, ⟨k, a, below⟩, []⟩

/-- Hands an instance over. -/
def serve (w : World) (v : Instance) (below : Stack .answer) : Step :=
  next w (.give (k := .answer) (.ok v)) below

/-- Hands a failure over. -/
def fail (w : World) (f : Failure) (below : Stack .answer) : Step :=
  next w (.give (k := .answer) (.error f)) below

/-- Hands the reply of an operation over. -/
def reply (w : World) (r : Reply) (below : Stack .reply) : Step :=
  next w (.give (k := .reply) r) below

/-- Hands over that something is over. -/
def finish (w : World) (below : Stack .done) : Step := next w (.give (k := .done) ()) below

end Step

/-! ## What steps do to the world -/

namespace World

/-- Takes what a container still has to do at its end, and forgets what it built. -/
def terminate (w : World) (c : ContainerId) : List Teardown × World :=
  ((w.container c).callbacks.terminating,
    (w.modifyCallbacks c Callbacks.clearTerminating).modifyCache c Cache.clearBuilt)

/-- Lines a build up for its lock, with a new ticket. -/
def enter (w : World) (c : ContainerId) (key : Key) : MutexId × Ticket × World :=
  let (lock, locks) := (w.container c).locks.enter key w.tickets
  (lock, w.tickets, { w.modifyLocks c (fun _ => locks) with tickets := w.tickets + 1 })

/-- Whether a build may start: its ticket is first in line for a free lock. -/
def mayStart (w : World) (b : Build) : Bool := (w.container b.container).locks.grantable b.lock b.ticket

/-- Gives a build its lock. -/
def letIn (w : World) (b : Build) : World := w.modifyLocks b.container fun l => l.grant b.lock b.ticket

/-- Leaves the lock of a build. -/
def leave (w : World) (b : Build) : World := w.modifyLocks b.container fun l => l.leave b.key b.lock

/-- Records a built instance: in the cache if it is shared, its plain key as resolved, and its
teardown. -/
def record (w : World) (b : Build) (v : Instance) : World :=
  let w := w.modifyCache b.container fun x =>
    (if b.lifetime.cached then x.insert b.key v else x).markResolved b.key.plain
  match b.finalizer with
  | some f => w.modifyCallbacks b.container fun x => x.addTeardown (.finalize f v)
  | none => w

/-- The hooks that the instance of a build is shown to. -/
def hooksFor (w : World) (b : Build) : List Hook := (w.container b.container).callbacks.hooksFor b.key

end World

/-! ## Resolution -/

namespace Step

/-- Looks a key up. A key that is already being built around the request is a cycle; else the
build lines up for its lock. -/
def resolve (w : World) (r : Request) (below : Stack .answer) : Step :=
  match w.locate r.container r.key with
  | .cached _ _ v => .serve w v below
  | .noAccess key => .fail w (.noAccess key) below
  | .builds c key binding =>
    if key ∈ r.path then .fail w (.cycle (r.path ++ [key])) below
    else
      let (lock, ticket, w) := w.enter c key
      let binding := binding.or (r.fallback.map Function.unbound)
      let b : Build := { container := c, key, binding, path := r.path ++ [key], lock, ticket }
      .next w (.line b) below

/-- Starts a build that has its lock, unless somebody has built the instance meanwhile. The tags
of the key become the first positional arguments. -/
def build (w : World) (b : Build) (below : Stack .answer) : Step :=
  match (w.container b.container).cache.get? b.key with
  | some v => .serve (w.leave b) v below
  | none =>
    match b.maker with
    | some (.function f signature) =>
      let (arguments, w) := w.makeArguments (b.key.tags.map .text) []
      let j := Job.start f b.key b.container (w.container b.container).isScope arguments signature b.path
      .next w (.fill j) (.cons (.build b) below)
    | some (.chained product input target) =>
      .next w (.resolve { container := b.container, key := target, path := b.path })
        (.cons (.convert product input) (.cons (.build b) below))
    | none => .fail (w.leave b) (.unbound b.key) below

/-- Ends a build. A fresh instance is recorded and shown to the hooks first. -/
def built (env : Env) (w : World) (b : Build) (answer : Except Failure Instance) (below : Stack .answer) : Step :=
  match answer with
  | .error failure => .fail (w.leave b) failure below
  | .ok v =>
    let w := w.record b v
    .serve ((w.showTo env.program env.held b.container v (w.hooksFor b)).leave b) v below

/-- Converts the instance of another key. -/
def convert (w : World) (product : Product) (input : Ty) (answer : Except Failure Instance)
    (below : Stack .answer) : Step :=
  match answer.bind (Shared.expect input) with
  | .error failure => .fail w failure below
  | .ok v =>
    let (v', w) := w.supplied fun s => s.produce product [v]
    .serve (w.tell (.converted v' v)) v' below

/-! ## Calls -/

/-- Goes on with a job whose next slot is filled, or gives the failure. -/
def filled (w : World) (j : Job) (r : Except Failure (Filled × Frame)) (below : Stack .answer) : Step :=
  match r with
  | .ok (filled, frame) => .next w (.fill (j.fill filled frame)) below
  | .error failure => .fail w failure below

/-- Fills the next slot of a job, or asks the container for it. -/
def fill (env : Env) (w : World) (j : Job) (below : Stack .answer) : Step :=
  match j.todo with
  | [] => .next w (.pause j j.function.suspensions) below
  | slot :: _ =>
    let frame := { j.frame with position := slot.position }
    match slot.extractor.asks (w.bound frame.container) with
    | some key =>
      let fallback := slot.extractor.fallback.map env.program.injectable
      .next w (.resolve { container := frame.container, key, fallback, path := frame.path })
        (.cons (.slot { j with frame } key) below)
    | none =>
      match slot.extractor with
      | .replace positional keyword =>
        let (arguments, w) := w.makeArguments positional keyword
        .filled w j ({ frame with arguments }.fillAlone slot.extractor) below
      | e => .filled w j (frame.fillAlone e) below

/-- Takes the answer for the next slot of a job. -/
def slot (w : World) (j : Job) (key : Key) (answer : Except Failure Instance) (below : Stack .answer) : Step :=
  match j.todo with
  | [] => .next w (.fill j) below
  | slot :: _ => .filled w j (j.frame.fillWith key answer slot.extractor) below

/-- Ends a job whose body is over: the function panics, fails or provides a new instance. -/
def conclude (w : World) (j : Job) (below : Stack .answer) : Step :=
  let (count, w) := w.invoke j.function.name
  match j.function.fault count with
  | some .panicked =>
    .fail (w.tell (.panicked j.function.name j.args)) (.build j.subject .panicked) below
  | some fault => .fail (w.tell (.failed j.function.name j.args)) (.build j.subject fault) below
  | none =>
    let (v, w) := w.supplied fun s => s.produce j.function.product j.ingredients
    .serve (w.tell (.built j.function.name v j.args)) v below

/-- Goes on with the operations of a body. -/
def body (w : World) (j : Job) (ops : List Op) (below : Stack .answer) : Step :=
  match ops with
  | [] => .conclude w j below
  | o :: rest => .next w (.perform j.scene o) (.cons (.body j o.heading rest) below)

/-- Starts the body of a job. Commands are performed at once. -/
def start (env : Env) (w : World) (j : Job) (below : Stack .answer) : Step :=
  match j.function.body with
  | .awaited _ ops => .body w j ops below
  | .blocking cs | .inline cs =>
    match w.commands env.program env.held j.self cs with
    | (some failure, w) => .fail w (.build j.subject (.refused failure)) below
    | (none, w) => .conclude w j below

/-! ## What is left to do -/

/-- Goes on with the operations of a callback, then with what is left to do. -/
def callback (w : World) (path : List Key) (ops : List Op) (ts : List Teardown) (below : Stack .done) : Step :=
  match ops with
  | [] => .next w (.windDown path ts) below
  | o :: rest => .next w (.perform ⟨none, path⟩ o) (.cons (.callback path o.heading rest ts) below)

/-- Does the first of what is left to do. A finalizer for another type is passed over. -/
def windDown (w : World) (path : List Key) (ts : List Teardown) (below : Stack .done) : Step :=
  match ts with
  | [] => .finish w below
  | .callback s :: ts => .callback (w.tell (.terminating s.id)) path s.actions ts below
  | .finalize f v :: ts =>
    if f.ty = v.ty then .callback (w.tell (.finalized f.script.id v)) path f.script.actions ts below
    else .next w (.windDown path ts) below

/-- Terminates a container, and then gives a reply. -/
def terminate (w : World) (c : ContainerId) (path : List Key) (r : Reply) (below : Stack .reply) : Step :=
  let (ts, w) := w.terminate c
  .next w (.windDown path ts) (.cons (.close (some c) r) below)

/-! ## Operations -/

/-- Goes on with the operations of a scope's body. After them the scope is terminated. -/
def scopeBody (w : World) (scope : ContainerId) (name : String) (path : List Key) (ops : List Op)
    (below : Stack .reply) : Step :=
  match ops with
  | [] => .terminate (w.forget name) scope path .ok below
  | o :: rest =>
    .next w (.perform ⟨some scope, path⟩ o) (.cons (.scopeBody scope name path o.heading rest) below)

/-- Performs an operation that may have to wait, on container `c`. -/
def lasting (env : Env) (w : World) (s : Scene) (c : ContainerId) (a : Lasting Command Op) (below : Stack .reply) : Step :=
  match a with
  | .get expected key autowired save =>
    let fallback := if autowired then key.plainType?.map env.program.injectable else none
    .next w (.resolve { container := c, key, fallback, path := s.path }) (.cons (.deliver c expected save) below)
  | .call function positional keyword save =>
    if (positional ++ keyword.map Prod.snd).all (Literal.known w.saved) then
      let f := env.program.function function
      let (arguments, w) := w.makeArguments positional keyword
      let j := Job.start f f.key c (w.container c).isScope arguments f.signature s.path
      .next w (.fill j) (.cons (.deliver c none save) below)
    else .reply w .noSaved below
  | .onResolved t key script =>
    let key := w.unalias (w.chain c) key
    let hook : Hook := ⟨t, script⟩
    let w := w.addHook c false key hook
    if (w.container c).cache.isResolved key.plain then
      match (w.container c).cache.get? key with
      | some v => .reply (w.showTo env.program (c :: env.held) c v [hook]) .ok below
      | none => .next w (.resolve { container := c, key, path := s.path }) (.cons (.observe c) below)
    else .reply w .ok below
  | .terminate => .terminate w c s.path .ok below
  | .scope name ops =>
    let (scope, w) := w.openScope c
    .scopeBody (w.giveName name scope) scope name s.path ops below
  | .join ops =>
    { Step.next w (.await ((List.range ops.length).map (env.next + ·))) below with
      started := ops.map (Task.ofOp { s with path := [] }) }

/-- Performs an operation. -/
def perform (env : Env) (w : World) (s : Scene) (o : Op) (below : Stack .reply) : Step :=
  match o with
  | .instant c =>
    let (r, w) := w.command env.program s.self c
    .reply w r below
  | .lasting h action =>
    match w.target s.self h.target with
    | some c => .lasting env w s c action below
    | none => .reply w .noContainer below

/-! ## Outcomes -/

/-- Ends an operation that asked for an instance. -/
def deliver (w : World) (expected : Option Ty) (save : Option String) (answer : Except Failure Instance)
    (below : Stack .reply) : Step :=
  match answer.bind (fun v => match expected with | some t => Shared.expect t v | none => .ok v) with
  | .ok v => .reply (w.save save v) (.instance v) below
  | .error failure => .reply w (.failed failure) below

/-- Hands an instance or a failure over. -/
def answered {b : Kind} (env : Env) (w : World) (answer : Except Failure Instance) (c : Cont .answer b)
    (below : Stack b) : Step :=
  match c, below with
  | .slot j key, below => .slot w j key answer below
  | .build x, below => .built env w x answer below
  | .convert product input, below => .convert w product input answer below
  | .deliver _ expected save, below => .deliver w expected save answer below
  | .observe _, below => .reply w (.ofResult (answer.map fun _ => ())) below

/-- Hands the reply of an operation over. What stands around the operation tells it. -/
def replied {b : Kind} (w : World) (r : Reply) (c : Cont .reply b) (below : Stack b) : Step :=
  match c, below with
  | .body j h rest, below =>
    let w := w.tell (.performed h.label r)
    match h.stops r with
    | some failure => .fail w (.build j.subject (.refused failure)) below
    | none => .body w j rest below
  | .scopeBody scope name path h rest, below =>
    let w := w.tell (.performed h.label r)
    match h.stops r with
    | some failure => .terminate (w.forget name) scope path (.failed failure) below
    | none => .scopeBody w scope name path rest below
  | .callback path h rest ts, below =>
    let w := w.tell (.performed h.label r)
    match h.stops r with
    | some _ => .next w (.windDown path ts) below
    | none => .callback w path rest ts below

/-- Hands an outcome over to what waits for it. -/
def handOver (env : Env) (w : World) : {k : Kind} → k.Outcome → Stack k → Step
  | .reply, r, .nil => .reply w r .nil
  | .answer, answer, .cons c below => .answered env w answer c below
  | .reply, r, .cons c below => .replied w r c below
  | .done, (), .cons (.close _ r) below => .reply w r below

end Step

/-- One step of a task. A build in line is taken to be let in. -/
def Task.step (env : Env) (w : World) : Task → Step
  | ⟨_, .resolve r, below⟩ => .resolve w r below
  | ⟨_, .line b, below⟩ => .build (w.letIn b) b below
  | ⟨_, .fill j, below⟩ => .fill env w j below
  | ⟨_, .pause j (times + 1), below⟩ => .next w (.pause j times) below
  | ⟨_, .pause j 0, below⟩ => .start env w j below
  | ⟨_, .perform s o, below⟩ => .perform env w s o below
  | ⟨_, .windDown path ts, below⟩ => .windDown w path ts below
  | ⟨_, .await tasks, below⟩ => .next w (.await tasks) below
  | ⟨_, .give outcome, below⟩ => .handOver env w outcome below

end Injector
