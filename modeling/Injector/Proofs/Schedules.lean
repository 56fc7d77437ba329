import Injector.Proofs.Registered
import Injector.Proofs.RenamedTasks
/-!
# Systems in unison

What comes next is up to whoever begins operations and to the order in which tasks go on. A list of choices makes it
definite (`System.follow`); every move is a choice (`System.moves_iff`). Two systems correspond (`Renaming.Systems`) if
their worlds do and their tasks are at the same points. If they are left to the same choices, they go on to
systems that correspond: the same choices are possible, and the same is replied and told (`Systems.follow`).
-/
namespace Injector

/-- What is chosen to happen next. -/
inductive Choice where
  /-- The running task goes on. -/
  | goOn
  /-- A waiting task goes on. -/
  | resume (t : Nat)
  /-- An operation is begun. -/
  | begin (o : Op)
  /-- A handle is dropped. -/
  | drop (name : String)
  /-- All that is over is cleared away. -/
  | renew

namespace System

/-- The system after a choice, if that is possible. -/
def choose (p : Program) (s : System) : Choice → Option System
  | .goOn => s.running.bind fun t => (s.tasks[t]?).map (s.run p t)
  | .resume t => if s.running = none ∧ t ∈ s.waiting ∧ s.ready t = true then some (s.resume t) else none
  | .begin o => if s.running = none then some (s.release.start [.ofOp {} o]) else none
  | .drop name => if s.running = none then some ({ s with world := s.world.forget name } : System).release else none
  | .renew =>
    if s.running = none ∧ s.waiting = [] then some { world := { s.world with log := [] } } else none

/-- The system after choices, one after the other. -/
def follow (p : Program) : System → List Choice → Option System
  | s, [] => some s
  | s, x :: xs => (s.choose p x).bind fun s => s.follow p xs

variable {p : Program} {s s' : System}

/-- Every move is a choice. -/
theorem moves_iff : s.Moves p s' ↔ ∃ x, s.choose p x = some s' := by
  constructor
  · intro h
    cases h with
    | next h =>
      cases h with
      | run running found => exact ⟨.goOn, by rw [choose, running, Option.bind_some, found, Option.map_some]⟩
      | resume idle waits ready => exact ⟨.resume _, if_pos ⟨idle, waits, ready⟩⟩
    | begin idle o => exact ⟨.begin o, if_pos idle⟩
    | drop idle name => exact ⟨.drop name, if_pos idle⟩
    | renew idle finished => exact ⟨.renew, if_pos ⟨idle, finished⟩⟩
  · rintro ⟨x, chosen⟩
    cases x with
    | goOn =>
      obtain ⟨t, running, chosen⟩ := Option.bind_eq_some_iff.1 chosen
      obtain ⟨task, found, rfl⟩ := Option.map_eq_some_iff.1 chosen
      exact .next (.run running found)
    | resume t =>
      obtain ⟨⟨idle, waits, ready⟩, chosen⟩ := Option.ite_none_right_eq_some.1 chosen
      exact Option.some.inj chosen ▸ .next (.resume idle waits ready)
    | begin o =>
      obtain ⟨idle, chosen⟩ := Option.ite_none_right_eq_some.1 chosen
      exact Option.some.inj chosen ▸ .begin idle o
    | drop name =>
      obtain ⟨idle, chosen⟩ := Option.ite_none_right_eq_some.1 chosen
      exact Option.some.inj chosen ▸ .drop idle name
    | renew =>
      obtain ⟨⟨idle, finished⟩, chosen⟩ := Option.ite_none_right_eq_some.1 chosen
      exact Option.some.inj chosen ▸ .renew idle finished

end System

/-! ## Lists of tasks -/

section Related

variable {α β : Type} {T : α → β → Prop} {l : List α} {l' : List β}

theorem forall₂_get? (h : List.Forall₂ T l l') (i : Nat) : Option.Rel T l[i]? l'[i]? := by
  induction h generalizing i with
  | nil => exact .none
  | cons first _ ih =>
    cases i with
    | zero => exact .some first
    | succ i => exact ih i

theorem forall₂_set (h : List.Forall₂ T l l') (i : Nat) {x : α} {x' : β} (related : T x x') :
    List.Forall₂ T (l.set i x) (l'.set i x') := by
  induction h generalizing i with
  | nil => exact .nil
  | cons first others ih =>
    cases i with
    | zero => exact .cons related others
    | succ i => exact .cons first (ih i)

end Related

/-! ## Functions without a state -/

namespace Program.Steady

variable {p : Program} (h : p.Steady)
include h

theorem maker (s : Source) : (s.maker p).Steady := by
  cases s with
  | function name signed => exact h.function name
  | injectable t => exact h.injectable t
  | chained => trivial

/-- Then what is bound keeps no state either. -/
theorem bound {s : System} (reached : System.Reachable p s) (c : ContainerId) (key : Key) (β : Binding)
    (found : (s.world.container c).registry.get? key = some β) : β.maker.Steady :=
  reached.registries (.of_makers h.maker) c key β (.inl found)

end Program.Steady

namespace Renaming

variable {R : Renaming} {p : Program}

/-- Whether two systems correspond. -/
structure Systems (R : Renaming) (s s' : System) : Prop where
  world : R.Worlds s.world s'.world
  tasks : List.Forall₂ R.Tasks s.tasks s'.tasks
  running : s'.running = s.running
  waiting : s'.waiting = s.waiting

namespace Systems

variable {s s' : System} (h : R.Systems s s')
include h

/-! ## Tasks that wait -/

theorem held : s'.held = s.held := by
  have tasks := h.tasks
  unfold System.held
  generalize s.tasks = ts, s'.tasks = ts' at tasks
  induction tasks with
  | nil => rfl
  | cons first _ ih => rw [List.flatMap_cons, List.flatMap_cons, first.held, ih]

theorem replies (ts : List Nat) : Option.Rel (List.Forall₂ R.Replies) (s.replies ts) (s'.replies ts) := by
  induction ts with
  | nil => exact .some .nil
  | cons t ts ih =>
    have first : Option.Rel R.Replies ((s.tasks[t]?).bind Task.reply?) ((s'.tasks[t]?).bind Task.reply?) := by
      rcases rel_cases (forall₂_get? h.tasks t) with ⟨none, none'⟩ | ⟨_, _, some, some', related⟩
      · rw [none, none']
        exact .none
      · rw [some, some']
        exact related.reply?
    unfold System.replies at ih ⊢
    rw [List.mapM_cons, List.mapM_cons]
    rcases rel_cases first with ⟨none, none'⟩ | ⟨r, r', some, some', replied⟩
    · rw [none, none']
      exact .none
    · rw [some, some']
      rcases rel_cases ih with ⟨none, none'⟩ | ⟨rs, rs', some, some', others⟩
      · rw [none, none']
        exact .none
      · rw [some, some']
        exact .some (.cons replied others)

/-- The same tasks need not wait. -/
theorem ready (t : Nat) : s'.ready t = s.ready t := by
  unfold System.ready
  rcases rel_cases (forall₂_get? h.tasks t) with ⟨none, none'⟩ | ⟨_, _, some, some', related⟩
  · rw [none, none']
  · rw [some, some']
    obtain ⟨activity, under⟩ := related
    cases activity with
    | line builds => exact h.world.mayStart builds.toBuilds
    | await ts =>
      dsimp only
      rcases rel_cases (h.replies ts) with ⟨none, none'⟩ | ⟨_, _, some, some', -⟩
      · rw [none, none']
      · rw [some, some']
        rfl
    | resolve | fill | pause | perform | windDown | answer | reply | done => rfl

/-! ## Moves -/

theorem start {ts ts' : List Task} (started : List.Forall₂ R.Tasks ts ts') : R.Systems (s.start ts) (s'.start ts') :=
  { h with
    tasks := List.rel_append h.tasks started
    waiting := by rw [System.start, System.start, h.waiting, h.tasks.length_eq, started.length_eq] }

/-- What ended containers still have to do becomes tasks that are at the same point. -/
theorem adopt : R.Systems s.adopt s'.adopt := by
  have cleared : R.Systems { s with world := { s.world with orphans := [] } }
      { s' with world := { s'.world with orphans := [] } } :=
    { h with world := { h.world with rest := { h.world.rest with orphans := .nil } } }
  exact cleared.start (List.forall₂_map_left_iff.2 (List.forall₂_map_right_iff.2
    (h.world.rest.orphans.imp fun _ _ left => tasks_ofTeardowns left)))

theorem release : R.Systems s.release s'.release := by
  have released : R.Systems { s with world := s.world.release s.held } { s' with world := s'.world.release s.held } :=
    { h with world := h.world.release s.held }
  rw [System.release, System.release, h.held]
  exact released.adopt

theorem put (t : Nat) {st st' : Step} (steps : R.Steps st st') : R.Systems (s.put t st) (s'.put t st') := by
  have stepped : R.Systems { s with world := st.world, tasks := s.tasks.set t st.task }
      { s' with world := st'.world, tasks := s'.tasks.set t st'.task } :=
    { h with world := steps.world, tasks := forall₂_set h.tasks t steps.task }
  exact (stepped.start steps.started).release

theorem suspend (t : Nat) : R.Systems (s.suspend t) (s'.suspend t) :=
  { h with
    running := rfl
    waiting := by rw [System.suspend, System.suspend, h.waiting] }

theorem resume (t : Nat) : R.Systems (s.resume t) (s'.resume t) :=
  { h with
    running := rfl
    waiting := by rw [System.resume, System.resume, h.waiting] }

theorem run (steady : p.Steady) (reached : System.Reachable p s) (t : Nat) {task task' : Task} (related : R.Tasks task task') :
    R.Systems (s.run p t task) (s'.run p t task') := by
  -- Both see the same around their tasks: the same containers are held, and tasks get the same numbers.
  have stepped : R.Systems (s.put t (task.step ⟨p, s.held, s.tasks.length⟩ s.world))
      (s'.put t (task'.step ⟨p, s'.held, s'.tasks.length⟩ s'.world)) := by
    rw [h.held, ← h.tasks.length_eq]
    exact h.put t (related.step steady h.world (steady.bound reached))
  obtain ⟨activity, under⟩ := related
  cases activity with
  | reply replies =>
    cases under with
    | nil => exact { h with running := rfl }
    | cons _ _ => exact stepped
  | line builds =>
    simp only [System.run]
    rw [h.ready]
    split
    · exact stepped
    · exact h.suspend t
  | pause jobs times =>
    cases times with
    | zero => exact stepped
    | succ n => exact stepped.suspend t
  | await ts =>
    simp only [System.run]
    rcases rel_cases (h.replies ts) with ⟨none, none'⟩ | ⟨_, _, some, some', replies⟩
    · rw [none, none']
      exact h.suspend t
    · rw [some, some']
      exact h.put t (reply h.world (.several replies) under)
  | resolve | fill | perform | windDown | answer | done => exact stepped

/-- The same choices are possible, and lead to systems that correspond. -/
theorem choose (steady : p.Steady) (reached : System.Reachable p s) (x : Choice) :
    Option.Rel R.Systems (s.choose p x) (s'.choose p x) := by
  cases x with
  | goOn =>
    simp only [System.choose]
    rw [h.running]
    cases s.running with
    | none => exact .none
    | some t =>
      rcases rel_cases (forall₂_get? h.tasks t) with ⟨none, none'⟩ | ⟨_, _, some, some', related⟩
      · rw [Option.bind_some, Option.bind_some, none, none']
        exact .none
      · rw [Option.bind_some, Option.bind_some, some, some']
        exact .some (h.run steady reached t related)
  | resume t =>
    simp only [System.choose]
    rw [h.running, h.waiting, h.ready]
    split
    · exact .some (h.resume t)
    · exact .none
  | begin o =>
    simp only [System.choose]
    rw [h.running]
    split
    · exact .some (h.release.start (.cons (tasks_ofOp {} o) .nil))
    · exact .none
  | drop name =>
    have dropped : R.Systems { s with world := s.world.forget name }
        { s' with world := s'.world.forget name, running := s.running } :=
      { h with world := h.world.forget name, running := rfl }
    simp only [System.choose]
    rw [h.running]
    split
    · exact .some dropped.release
    · exact .none
  | renew =>
    have told : R.Told [] [] := ⟨[], [], [], [], .inr ⟨rfl, rfl⟩, rfl, rfl, .nil⟩
    simp only [System.choose]
    rw [h.running, h.waiting]
    split
    -- Both forget what was told, so it counts from here.
    · exact .some ⟨{ h.world with rest := { h.world.rest with told := told } }, .nil, rfl, rfl⟩
    · exact .none

/-- Left to the same choices, both go on alike. -/
theorem follow (steady : p.Steady) (reached : System.Reachable p s) (xs : List Choice) :
    Option.Rel R.Systems (s.follow p xs) (s'.follow p xs) := by
  induction xs generalizing s s' with
  | nil => exact .some h
  | cons x xs ih =>
    unfold System.follow
    rcases rel_cases (h.choose steady reached x) with ⟨none, none'⟩ | ⟨t, t', some, some', related⟩
    · rw [none, none']
      exact .none
    · rw [some, some']
      exact ih related (reached.move (System.moves_iff.2 ⟨x, some⟩))

end Systems

end Renaming

end Injector
