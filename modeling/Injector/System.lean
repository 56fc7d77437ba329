import Injector.Step
/-!
# Tasks side by side

One task runs at a time. It runs until it has to wait: for a build lock, for other
tasks, or because its function suspends it. Then any task that need not wait may go
on (`System.Next`); `System.step` lets the one that has waited longest go on.

After each step the containers that nobody can reach any more are ended. What they
still have to do becomes a task of its own.
-/
namespace Injector

/-- A world with the tasks that work on it. -/
structure System where
  world : World := {}
  /-- By number. -/
  tasks : List Task := []
  /-- The task that runs. -/
  running : Option Nat := none
  /-- The tasks that are not finished and do not run, the one that has waited longest first. -/
  waiting : List Nat := []

instance : Inhabited System := ⟨{}⟩

namespace System

/-- The replies of tasks, if all of them are finished. -/
def replies (s : System) (tasks : List Nat) : Option (List Reply) :=
  tasks.mapM fun t => (s.tasks[t]?).bind Task.reply?

/-- Whether a task need not wait for a lock or for other tasks. -/
def ready (s : System) (t : Nat) : Bool :=
  match s.tasks[t]? with
  | some ⟨_, .line b, _⟩ => s.world.mayStart b
  | some ⟨_, .await tasks, _⟩ => (s.replies tasks).isSome
  | some _ => true
  | none => false

/-- Adds tasks, at the end of the line. -/
def start (s : System) (tasks : List Task) : System :=
  { s with
    tasks := s.tasks ++ tasks
    waiting := s.waiting ++ (List.range tasks.length).map (s.tasks.length + ·) }

/-- The containers that tasks keep alive. -/
def held (s : System) : List ContainerId := s.tasks.flatMap Task.held

/-- Starts a task for each ended container that still has something to do. -/
def adopt (s : System) : System :=
  { s with world := { s.world with orphans := [] } }.start (s.world.orphans.map .ofTeardowns)

/-- Ends the containers that nobody can reach. -/
def release (s : System) : System := { s with world := s.world.release s.held }.adopt

/-- The system after a step of task `t`. -/
def put (s : System) (t : Nat) (step : Step) : System :=
  ({ s with world := step.world, tasks := s.tasks.set t step.task }.start step.started).release

/-- Lets the running task wait, at the end of the line. -/
def suspend (s : System) (t : Nat) : System :=
  { s with running := none, waiting := s.waiting ++ [t] }

/-- Lets a waiting task run. -/
def resume (s : System) (t : Nat) : System :=
  { s with running := some t, waiting := s.waiting.erase t }

/-- A step of the running task `t`. -/
def run (p : Program) (s : System) (t : Nat) (task : Task) : System :=
  let step (s : System) := s.put t (task.step ⟨p, s.held, s.tasks.length⟩ s.world)
  match task with
  | ⟨.reply, .give _, .nil⟩ => { s with running := none }
  | ⟨_, .line _, _⟩ => if s.ready t then step s else s.suspend t
  | ⟨_, .pause _ (_ + 1), _⟩ => (step s).suspend t
  | ⟨_, .await tasks, below⟩ =>
    match s.replies tasks with
    | some rs => s.put t (.reply s.world (.several rs) below)
    | none => s.suspend t
  | _ => step s

/-- The next step of the running task; without one, the task that has waited longest of those
that need not wait goes on. `none` if no task can. -/
def step (p : Program) (s : System) : Option System :=
  match s.running with
  | some t => (s.tasks[t]?).map (s.run p t)
  | none => (s.waiting.find? s.ready).map s.resume

/-- The steps of a system, whichever waiting task goes on. -/
inductive Next (p : Program) (s : System) : System → Prop where
  | run {t : Nat} {task : Task} (running : s.running = some t) (found : s.tasks[t]? = some task) :
    Next p s (s.run p t task)
  | resume {t : Nat} (idle : s.running = none) (waits : t ∈ s.waiting) (ready : s.ready t = true) :
    Next p s (s.resume t)

/-- Goes on for at most `fuel` steps, until no task can. -/
def settle (p : Program) : Nat → System → System
  | 0, s => s
  | fuel + 1, s =>
    match s.step p with
    | some s => settle p fuel s
    | none => s

theorem Next.of_step {p : Program} {s s' : System} (h : s.step p = some s') : Next p s s' := by
  unfold step at h
  split at h
  · next t running =>
    obtain ⟨task, found, rfl⟩ := Option.map_eq_some_iff.1 h
    exact .run running found
  · next idle =>
    obtain ⟨t, found, rfl⟩ := Option.map_eq_some_iff.1 h
    exact .resume idle (List.mem_of_find?_eq_some found) (List.find?_some found)

end System

end Injector
