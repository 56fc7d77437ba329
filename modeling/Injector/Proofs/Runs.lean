import Injector.Session
/-!
# Runs

A run starts with one container. Its tasks go on in any order in which they need not
wait, and while none of them runs something may come from outside: an operation is begun,
a name is forgotten, or, when all is over, everything but the containers is cleared away,
as sessions do between their operations.

`Moves.cases` sums up what a move can do to the world and the tasks, and
`Reachable.invariant` is the induction over runs built on it. What happens when is said of
a `Run`, which numbers the systems. `Session.reachable_settle`: sessions are among the runs.
-/
namespace Injector

namespace System

/-- A system with one container of that name. -/
def initial (name : String) : System := { world := ({} : World).openRoot name }

/-- What moves a system. -/
inductive Moves (p : Program) (s : System) : System → Prop where
  /-- A task goes on. -/
  | next {s' : System} (h : s.Next p s') : Moves p s s'
  /-- Somebody begins an operation. -/
  | begin (idle : s.running = none) (o : Op) : Moves p s (s.release.start [.ofOp {} o])
  /-- Somebody drops a handle. -/
  | drop (idle : s.running = none) (name : String) :
    Moves p s ({ s with world := s.world.forget name } : System).release
  /-- All tasks are finished and forgotten, and with them what was told. -/
  | renew (idle : s.running = none) (finished : s.waiting = []) : Moves p s { world := { s.world with log := [] } }

/-- The systems that runs lead to. -/
inductive Reachable (p : Program) : System → Prop where
  | start (name : String) : Reachable p (initial name)
  | move {s s' : System} (before : Reachable p s) (h : s.Moves p s') : Reachable p s'

/-- The running task. -/
def current (s : System) : Option Task := s.running.bind (s.tasks[·]?)

/-- What a step of task `t` can be: a build in line needs its turn, and who waits for other
tasks needs their replies. -/
inductive Takes (p : Program) (s : System) (t : Nat) : Task → Step → Prop where
  | step {task : Task} (turn : ∀ b below, task = ⟨.answer, .line b, below⟩ → s.ready t = true) :
    Takes p s t task (task.step ⟨p, s.held, s.tasks.length⟩ s.world)
  | joined {tasks : List Nat} {below : Stack .reply} {rs : List Reply} (finished : s.replies tasks = some rs) :
    Takes p s t ⟨.reply, .await tasks, below⟩ (.reply s.world (.several rs) below)

@[simp] theorem tasks_start (s : System) (tasks : List Task) : (s.start tasks).tasks = s.tasks ++ tasks := rfl

/-- What the running task does is a step of it, or nothing: it is over or has to wait. -/
theorem run_cases (p : Program) (s : System) (t : Nat) (task : Task) :
    (∃ st, s.Takes p t task st ∧
      (s.run p t task = s.put t st ∨
        (∃ j n below, st.task = ⟨.answer, .pause j n, below⟩ ∧ s.run p t task = (s.put t st).suspend t))) ∨
    (∃ r, task = ⟨.reply, .give (k := .reply) r, .nil⟩ ∧ s.run p t task = { s with running := none }) ∨
    ((∃ b below, task = ⟨.answer, .line b, below⟩ ∧ s.ready t = false) ∨ ∃ ts below, task = ⟨.reply, .await ts, below⟩) ∧
      s.run p t task = s.suspend t := by
  unfold run
  dsimp only
  split
  · exact .inr (.inl ⟨_, rfl, rfl⟩)
  · split
    · next turn => exact .inl ⟨_, .step fun _ _ _ => turn, .inl rfl⟩
    · next waits => exact .inr (.inr ⟨.inl ⟨_, _, rfl, Bool.eq_false_iff.2 waits⟩, rfl⟩)
  · exact .inl ⟨_, .step (fun _ _ h => by cases h), .inr ⟨_, _, _, rfl, rfl⟩⟩
  · split
    · next rs finished => exact .inl ⟨_, .joined finished, .inl rfl⟩
    · exact .inr (.inr ⟨.inr ⟨_, _, rfl⟩, rfl⟩)
  · next notLine _ _ =>
    exact .inl ⟨_, .step fun b below h => (notLine b below h).elim, .inl rfl⟩

/-- Whether no task takes a step: none runs, or the one that does is over or has to wait. -/
def Halts (s : System) : Prop :=
  ∀ i t, s.running = some i → s.tasks[i]? = some t →
    (∃ r, t = ⟨.reply, .give (k := .reply) r, .nil⟩) ∨
      (∃ b below, t = ⟨.answer, .line b, below⟩ ∧ s.ready i = false) ∨ ∃ ts below, t = ⟨.reply, .await ts, below⟩

theorem Halts.of_idle {s : System} (idle : s.running = none) : s.Halts := fun i t running => by
  rw [idle] at running
  cases running

/-- What a task that goes on does to the world and the tasks: it takes a step, or nothing changes. -/
theorem Next.cases {p : Program} {s s' : System} (h : s.Next p s') :
    (∃ i t st, s.running = some i ∧ s.tasks[i]? = some t ∧ s.Takes p i t st ∧
      s'.world = (s.put i st).world ∧ s'.tasks = (s.put i st).tasks) ∨
    (s.Halts ∧ s'.world = s.world ∧ s'.tasks = s.tasks) := by
  cases h with
  | resume idle _ _ => exact .inr ⟨.of_idle idle, rfl, rfl⟩
  | @run i t running found =>
    have here : ∀ {j u}, s.running = some j → s.tasks[j]? = some u → j = i ∧ u = t := by
      intro j u hj hu
      obtain rfl := Option.some.inj (hj.symm.trans running)
      exact ⟨rfl, Option.some.inj (hu.symm.trans found)⟩
    rcases run_cases p s i t with ⟨st, takes, h⟩ | ⟨r, rfl, h⟩ | ⟨waits, h⟩
    · refine .inl ⟨i, t, st, running, found, takes, ?_⟩
      rcases h with h | ⟨_, _, _, _, h⟩ <;> rw [h] <;> exact ⟨rfl, rfl⟩
    · rw [h]
      refine .inr ⟨fun j u hj hu => ?_, rfl, rfl⟩
      obtain ⟨-, rfl⟩ := here hj hu
      exact .inl ⟨r, rfl⟩
    · rw [h]
      refine .inr ⟨fun j u hj hu => ?_, rfl, rfl⟩
      obtain ⟨rfl, rfl⟩ := here hj hu
      exact .inr waits

/-- What a move does to the world and the tasks: one task takes a step, nothing changes, or
something comes from outside while no task runs. -/
theorem Moves.cases {p : Program} {s s' : System} (h : s.Moves p s') :
    (∃ i t st, s.running = some i ∧ s.tasks[i]? = some t ∧ s.Takes p i t st ∧
      s'.world = (s.put i st).world ∧ s'.tasks = (s.put i st).tasks) ∨
    (s.Halts ∧ s'.world = s.world ∧ s'.tasks = s.tasks) ∨
    (s.running = none ∧
      ((∃ o, s'.world = s.release.world ∧ s'.tasks = s.release.tasks ++ [.ofOp {} o]) ∨
        (∃ name, s' = ({ s with world := s.world.forget name } : System).release) ∨
        s.waiting = [] ∧ s' = { world := { s.world with log := [] } })) := by
  cases h with
  | next h => exact h.cases.imp_right .inl
  | begin idle o => exact .inr (.inr ⟨idle, .inl ⟨o, rfl, rfl⟩⟩)
  | drop idle name => exact .inr (.inr ⟨idle, .inr (.inl ⟨name, rfl⟩)⟩)
  | renew idle finished => exact .inr (.inr ⟨idle, .inr (.inr ⟨finished, rfl⟩)⟩)

/-! ## Induction over runs -/

/-- The world after the containers are ended that nobody can reach; what they left is taken over by tasks. -/
def settledWorld (w : World) (ts : List Task) : World := { w.release (ts.flatMap Task.held) with orphans := [] }

/-- The tasks after the containers are ended that nobody can reach. -/
def settledTasks (w : World) (ts : List Task) : List Task :=
  ts ++ (w.release (ts.flatMap Task.held)).orphans.map .ofTeardowns

theorem tasks_release (s : System) : s.release.tasks = settledTasks s.world s.tasks := rfl

theorem world_put (s : System) (t : Nat) (st : Step) :
    (s.put t st).world = settledWorld st.world (s.tasks.set t st.task ++ st.started) := rfl

theorem tasks_put (s : System) (t : Nat) (st : Step) :
    (s.put t st).tasks = settledTasks st.world (s.tasks.set t st.task ++ st.started) := rfl

/-- What is at a place of a list stays there when more comes after it. -/
theorem get?_append {α : Type} {l : List α} {i : Nat} {x : α} (found : l[i]? = some x) (more : List α) :
    (l ++ more)[i]? = some x := by
  rw [List.getElem?_append_left (List.getElem?_eq_some_iff.1 found).1, found]

theorem get?_settledTasks {w : World} {ts : List Task} {i : Nat} {t : Task} (found : ts[i]? = some t) :
    (settledTasks w ts)[i]? = some t := get?_append found _

theorem get?_put {s : System} {i : Nat} {t : Task} (found : s.tasks[i]? = some t) (st : Step) :
    (s.put i st).tasks[i]? = some st.task := by
  rw [tasks_put]
  exact get?_settledTasks (get?_append (List.getElem?_set_self (List.getElem?_eq_some_iff.1 found).1) _)

theorem get?_put_of_ne {s : System} {i j : Nat} {t : Task} (found : s.tasks[i]? = some t) (ne : j ≠ i) (st : Step) :
    (s.put j st).tasks[i]? = some t := by
  rw [tasks_put]
  exact get?_settledTasks (get?_append ((List.getElem?_set_ne ne).trans found) _)

/-- What holds at the start, after a step, after an operation is begun, a name forgotten or
all that is over cleared away, and when containers are ended, holds in every run. -/
theorem Reachable.invariant {p : Program} {I : World → List Task → Prop}
    (start : ∀ name, I (({} : World).openRoot name) [])
    (step : ∀ {s t task st}, Reachable p s → I s.world s.tasks → s.tasks[t]? = some task →
      s.Takes p t task st → I st.world (s.tasks.set t st.task ++ st.started))
    (release : ∀ {w ts}, I w ts → I (settledWorld w ts) (settledTasks w ts))
    (begin : ∀ {w ts} (o : Op), I w ts → I w (ts ++ [.ofOp {} o]))
    (forget : ∀ {w ts} (name : String), I w ts → I (w.forget name) ts)
    (renew : ∀ {w ts}, I w ts → I { w with log := [] } [])
    {s : System} (h : Reachable p s) : I s.world s.tasks := by
  induction h with
  | start name => exact start name
  | move before h ih =>
    rcases h.cases with ⟨i, t, st, _, found, takes, hw, ht⟩ | ⟨_, hw, ht⟩ | ⟨_, outside⟩
    · rw [hw, ht]
      exact release (step before ih found takes)
    · rw [hw, ht]
      exact ih
    · rcases outside with ⟨o, hw, ht⟩ | ⟨name, rfl⟩ | ⟨_, rfl⟩
      · rw [hw, ht]
        exact begin o (release ih)
      · exact release (forget name ih)
      · exact renew ih

/-! ## Runs, move by move -/

/-- A run by number of moves. While no task runs it may rest. -/
structure Run (p : Program) where
  state : Nat → System
  start : ∃ name, state 0 = .initial name
  moves : ∀ n, (state n).Moves p (state (n + 1)) ∨ (state n).running = none ∧ state (n + 1) = state n

theorem Run.reachable {p : Program} (run : Run p) (n : Nat) : Reachable p (run.state n) := by
  induction n with
  | zero =>
    obtain ⟨name, h⟩ := run.start
    exact h ▸ .start name
  | succ n ih =>
    rcases run.moves n with h | ⟨_, h⟩
    · exact ih.move h
    · exact h ▸ ih

/-! ## Sessions -/

theorem Reachable.settle {p : Program} (fuel : Nat) {s : System} (h : Reachable p s) :
    Reachable p (settle p fuel s) := by
  induction fuel generalizing s with
  | zero => exact h
  | succ n ih =>
    unfold System.settle
    split
    · next s' next => exact ih (h.move (.next (.of_step next)))
    · exact h

end System

/-- What an operation sets going in a session whose world a run leads to, the run may set going as well. -/
theorem Session.reachable_settle (s : Session) (h : System.Reachable s.program { world := s.world }) (fuel : Nat)
    (o : Op) : System.Reachable s.program
      (System.settle s.program fuel (({ world := s.world } : System).release.start [.ofOp {} o])) :=
  (h.move (.begin rfl o)).settle fuel

end Injector
