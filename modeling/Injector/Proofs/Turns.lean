import Injector.Proofs.Sound
/-!
# Whose turn it is

In every run a task that does not run is in line or finished, and an instance that was made
for a build is handed over by the running task (`Scheduled`), which made it in its last step
(`Change.made`). `Moves.change` sums up what a move does, in terms of `Task.Does`.
-/
namespace Injector

/-- An operation that is over at once and stands in no sequence. -/
def Op.on (target : String) (action : Instant Command Op) : Op := .instant (.mk ⟨"", target, false⟩ action)

namespace Task.Does

variable {p : Program} {held : List ContainerId} {w : World} {t : Task} {st : Step} {b : Build} {v : Instance}

/-- A step that leads to an instance in hand has made it. -/
theorem made (h : t.Does p held w st) (hand : st.task.hand? = some (b, v)) : t.Plain ∧ t.Spares w ∧
    (∃ w₁, w.Edits p held w₁ ∧ w₁.Makes v st.world) ∧ st.task.builds = t.builds ∧ st.task.left = t.left := by
  have not : st.task.hand? ≠ none := by simp [hand]
  cases h with
  | makes b' v' before spares w₁ edits world builds left line made =>
    obtain ⟨rfl, rfl⟩ := Prod.mk.inj (Option.some.inj (made.symm.trans hand))
    exact ⟨before, spares, ⟨w₁, edits, world⟩, builds, left⟩
  -- All other steps leave the task with nothing in hand.
  | linesUp _ _ _ _ _ _ _ _ _ none => exact absurd none not
  | calm _ _ _ _ _ after => exact absurd after.hand not
  | skips _ _ _ _ _ _ _ after => exact absurd after.hand not
  | begins _ _ _ _ _ _ _ _ after => exact absurd after.hand not
  | aborts _ _ _ _ _ _ after => exact absurd after.hand not
  | completes _ _ _ _ _ _ _ _ _ _ after => exact absurd after.hand not
  | terminates _ _ _ _ _ _ _ _ _ _ _ _ after => exact absurd after.hand not
  | finalizes _ _ _ _ _ _ _ after => exact absurd after.hand not
  | passes _ _ _ _ _ _ _ after => exact absurd after.hand not

/-- A step with an instance in hand ends the build. -/
theorem completed (h : t.Does p held w st) (hand : t.hand? = some (b, v)) : t.line? = none ∧ t.Spares w ∧
    (∃ w₁, (w.record b v).Edits p held w₁ ∧ st.world = w₁.leave b) ∧ t.builds = b :: st.task.builds ∧
    st.task.left = t.left ∧ st.task.Plain := by
  have not : t.hand? ≠ none := by simp [hand]
  cases h with
  | completes b' v' line before spares w₁ edits world builds left after =>
    obtain ⟨rfl, rfl⟩ := Prod.mk.inj (Option.some.inj (before.symm.trans hand))
    exact ⟨line, spares, ⟨w₁, edits, world⟩, builds, left, after⟩
  -- All other steps are of tasks with nothing in hand.
  | skips _ _ none => exact absurd none not
  | begins _ _ none => exact absurd none not
  | calm before => exact absurd before.hand not
  | makes _ _ before => exact absurd before.hand not
  | linesUp _ before => exact absurd before.hand not
  | aborts _ before => exact absurd before.hand not
  | terminates _ _ before => exact absurd before.hand not
  | finalizes _ before => exact absurd before.hand not
  | passes _ before => exact absurd before.hand not

end Task.Does

/-- Who is finished has a reply, for which nothing waits. -/
theorem Task.eq_of_reply {t : Task} (h : t.reply? ≠ none) : ∃ r, t = ⟨.reply, .give (k := .reply) r, .nil⟩ := by
  obtain ⟨k, a, below⟩ := t
  cases a with
  | @give k outcome =>
    cases k with
    | reply =>
      cases below with
      | nil => exact ⟨outcome, rfl⟩
      | cons => exact absurd rfl h
    | answer | done => exact absurd rfl h
  | resolve | line | fill | pause | perform | windDown | await => exact absurd rfl h

namespace System

/-! ## Tasks that run, wait and are finished -/

/-- What is true of running and waiting in every run. -/
structure Scheduled (s : System) : Prop where
  present : ∀ i, s.running = some i → i < s.tasks.length
  known : ∀ i t, s.tasks[i]? = some t → s.running = some i ∨ i ∈ s.waiting ∨ t.reply? ≠ none
  hands : ∀ i t, s.tasks[i]? = some t → t.hand? ≠ none → s.running = some i

namespace Scheduled

variable {s : System} {i : Nat} {t : Task}

theorem start {ts : List Task} (h : Scheduled s) (plain : ∀ t ∈ ts, t.hand? = none) : Scheduled (s.start ts) where
  present i running := by
    simp only [tasks_start, List.length_append]
    have := h.present i running
    omega
  known i t found := by
    rw [tasks_start, List.getElem?_append] at found
    split at found
    · exact (h.known i t found).imp id (Or.imp (fun hw => List.mem_append_left _ hw) id)
    · next new =>
      have hi : i - s.tasks.length < ts.length := (List.getElem?_eq_some_iff.1 found).1
      refine .inr (.inl (List.mem_append_right _ (List.mem_map.2 ⟨i - s.tasks.length, List.mem_range.2 hi, ?_⟩)))
      omega
  hands i t found hand := by
    rw [tasks_start, List.getElem?_append] at found
    split at found
    · exact h.hands i t found hand
    · exact absurd (plain t (List.mem_of_getElem? found)) hand

theorem world (h : Scheduled s) (w : World) : Scheduled { s with world := w } := ⟨h.present, h.known, h.hands⟩

theorem release (h : Scheduled s) : Scheduled s.release := by
  apply (h.world _).start
  intro t ht
  obtain ⟨_, _, rfl⟩ := List.mem_map.1 ht
  rfl

theorem put {st : Step} (h : Scheduled s) (running : s.running = some i) (plain : ∀ t ∈ st.started, t.hand? = none) :
    Scheduled (s.put i st) := by
  refine (start ⟨fun j hj => ?_, fun j t found => ?_, fun j t found hand => ?_⟩ plain).release
  · rw [List.length_set]
    exact h.present j hj
  · by_cases e : i = j
    · exact .inl (e ▸ running)
    · rw [List.getElem?_set_ne e] at found
      exact h.known j t found
  · by_cases e : i = j
    · exact e ▸ running
    · rw [List.getElem?_set_ne e] at found
      exact h.hands j t found hand

theorem suspend (h : Scheduled s) (running : s.running = some i) (plain : ∀ t, s.tasks[i]? = some t → t.hand? = none) :
    Scheduled (s.suspend i) where
  present j hj := by cases hj
  known j t found := by
    rcases h.known j t found with hj | hj | hj
    · obtain rfl := Option.some.inj (running.symm.trans hj)
      exact .inr (.inl (List.mem_append_right _ List.mem_cons_self))
    · exact .inr (.inl (List.mem_append_left _ hj))
    · exact .inr (.inr hj)
  hands j t found hand := by
    obtain rfl := Option.some.inj (running.symm.trans (h.hands j t found hand))
    exact absurd (plain t found) hand

/-- A task that is finished stops running. -/
theorem stop {r : Reply} (h : Scheduled s) (running : s.running = some i)
    (found : s.tasks[i]? = some ⟨.reply, .give (k := .reply) r, .nil⟩) : Scheduled { s with running := none } where
  present j hj := by cases hj
  known j u hu := by
    rcases h.known j u hu with hj | hj
    · obtain rfl := Option.some.inj (hj.symm.trans running)
      obtain rfl := Option.some.inj (hu.symm.trans found)
      exact .inr (.inr (by simp [Task.reply?]))
    · exact .inr hj
  hands j u hu hand := by
    obtain rfl := Option.some.inj ((h.hands j u hu hand).symm.trans running)
    obtain rfl := Option.some.inj (hu.symm.trans found)
    exact absurd rfl hand

theorem resume (h : Scheduled s) (idle : s.running = none) (ready : s.ready i = true) : Scheduled (s.resume i) where
  present j hj := by
    obtain rfl := Option.some.inj hj
    unfold System.ready at ready
    cases found : s.tasks[i]? with
    | none =>
      rw [found] at ready
      cases ready
    | some t => exact (List.getElem?_eq_some_iff.1 found).1
  known j t found := by
    by_cases e : i = j
    · exact .inl (congrArg some e)
    · rcases h.known j t found with hj | hj | hj
      · rw [idle] at hj
        cases hj
      · exact .inr (.inl ((List.mem_erase_of_ne (Ne.symm e)).2 hj))
      · exact .inr (.inr hj)
  hands j t found hand := by
    have := h.hands j t found hand
    rw [idle] at this
    cases this

end Scheduled

variable {p : Program} {s s' : System}

theorem Takes.does_of_reachable (h : Reachable p s) {i : Nat} {t : Task} {st : Step} (found : s.tasks[i]? = some t)
    (takes : s.Takes p i t st) : t.Does p s.held s.world st ∧ st.Open := by
  have ht := List.mem_of_getElem? found
  exact takes.does h.sound.ok (h.sound.wf t ht) (h.sound.alive t ht) (held_of_mem ht)

/-- What is true of tasks when they begin, and after each of their steps, is true of all tasks in every run. -/
theorem Reachable.forall_tasks {P : Task → Prop} (begins : ∀ scene o, P (.ofOp scene o))
    (winds : ∀ ts, P (.ofTeardowns ts))
    (step : ∀ {s i t st}, Reachable p s → P t → s.tasks[i]? = some t → s.Takes p i t st → P st.task)
    (h : Reachable p s) : ∀ t ∈ s.tasks, P t := by
  refine h.invariant (I := fun _ ts => ∀ t ∈ ts, P t) ?start ?step ?release ?begin ?forget ?renew
  case start => exact fun _ t ht => (List.not_mem_nil ht).elim
  case step =>
    intro s i t st reached all found takes u hu
    rcases List.mem_append.1 hu with hu | hu
    · rcases List.mem_or_eq_of_mem_set hu with hu | rfl
      · exact all u hu
      · exact step reached (all t (List.mem_of_getElem? found)) found takes
    · obtain ⟨scene, o, rfl, -⟩ := (takes.does_of_reachable reached found).2.started u hu
      exact begins scene o
  case release =>
    intro w ts all t ht
    rcases List.mem_append.1 ht with ht | ht
    · exact all t ht
    · obtain ⟨left, -, rfl⟩ := List.mem_map.1 ht
      exact winds left
  case begin =>
    intro w ts o all t ht
    rcases List.mem_append.1 ht with ht | ht
    · exact all t ht
    · obtain rfl := List.mem_singleton.1 ht
      exact begins {} o
  case forget => exact fun _ all => all
  case renew => exact fun _ t ht => (List.not_mem_nil ht).elim

theorem started_plain {st : Step} (opens : st.Open) : ∀ t ∈ st.started, t.hand? = none := by
  intro t ht
  obtain ⟨s, o, rfl, -⟩ := opens.started t ht
  rfl

theorem Reachable.scheduled (h : Reachable p s) : Scheduled s := by
  induction h with
  | start name =>
    refine ⟨fun i hi => ?_, fun i t found => ?_, fun i t found => ?_⟩
    · cases hi
    · simp [initial] at found
    · simp [initial] at found
  | @move s s' before h ih =>
    cases h with
    | next h =>
      cases h with
      | resume idle _ ready => exact ih.resume idle ready
      | @run i t running found =>
        rcases run_cases p s i t with ⟨st, takes, h⟩ | ⟨r, rfl, h⟩ | ⟨waits, h⟩
        · have put := ih.put running (started_plain (takes.does_of_reachable before found).2)
          rcases h with h | ⟨j, n, below, pauses, h⟩ <;> rw [h]
          · exact put
          · -- A task that pauses has nothing in hand.
            apply put.suspend running
            intro u hu
            rw [get?_put found] at hu
            rw [← Option.some.inj hu, pauses]
            rfl
        · rw [h]
          exact ih.stop running found
        · rw [h]
          apply ih.suspend running
          intro u hu
          obtain rfl := Option.some.inj (hu.symm.trans found)
          rcases waits with ⟨b, below, rfl, _⟩ | ⟨ts, below, rfl⟩ <;> rfl
    | begin idle o =>
      exact ih.release.start fun t ht => by rw [List.mem_singleton.1 ht]; rfl
    | drop idle name => exact (ih.world _).release
    | renew idle finished =>
      refine ⟨fun i hi => ?_, fun i t found => ?_, fun i t found => ?_⟩
      · cases hi
      · simp at found
      · simp at found

/-! ## What moves do -/

/-- What a move, or a rest, does to the world and the tasks. -/
inductive Change (p : Program) (s s' : System) : Prop where
  /-- The running task takes a step; then containers are ended that nobody can reach any more. -/
  | step (i : Nat) (t : Task) (st : Step) (running : s.running = some i) (found : s.tasks[i]? = some t)
    (does : t.Does p s.held s.world st) (turn : ∀ b, t.line? = some b → s.world.mayStart b = true) (opens : st.Open)
    (world : s'.world = settledWorld st.world (s.tasks.set i st.task ++ st.started))
    (tasks : s'.tasks = settledTasks st.world (s.tasks.set i st.task ++ st.started))
  | halts (halts : s.Halts) (world : s'.world = s.world) (tasks : s'.tasks = s.tasks)
  /-- Something comes from outside, an operation or the end of a name. -/
  | outside (idle : s.running = none) (w : World) (edits : s.world.Edits p s.held w) (us : List Task)
    (new : ∀ u ∈ us, ∃ o, u = .ofOp {} o) (containers : w.containers = s.world.containers)
    (world : s'.world = settledWorld w s.tasks) (tasks : s'.tasks = settledTasks w s.tasks ++ us)
  /-- All tasks are forgotten. -/
  | renews (idle : s.running = none) (finished : ∀ t ∈ s.tasks, t.reply? ≠ none)
    (world : s'.world = { s.world with log := [] }) (tasks : s'.tasks = [])

theorem Moves.change (h : Reachable p s) (moves : s.Moves p s') : Change p s s' := by
  rcases moves.cases with ⟨i, t, st, running, found, takes, hw, ht⟩ | ⟨halts, hw, ht⟩ | ⟨idle, outside⟩
  · obtain ⟨does, opens⟩ := takes.does_of_reachable h found
    exact .step i t st running found does (takes.turn found) opens hw ht
  · exact .halts halts hw ht
  · rcases outside with ⟨o, hw, ht⟩ | ⟨name, rfl⟩ | ⟨nobody, rfl⟩
    · refine .outside idle s.world .refl [.ofOp {} o] (fun u hu => ⟨o, List.mem_singleton.1 hu⟩) rfl hw ht
    · exact .outside idle (s.world.forget name) (.single (.forget name)) [] (fun u hu => (List.not_mem_nil hu).elim) rfl
        rfl (List.append_nil _).symm
    · refine .renews idle (fun t ht => ?_) rfl rfl
      obtain ⟨i, hi⟩ := List.getElem?_of_mem ht
      -- No task runs or waits, so all are finished.
      rcases h.scheduled.known i t hi with running | waits | finished
      · rw [idle] at running
        cases running
      · rw [nobody] at waits
        cases waits
      · exact finished

theorem Run.change (run : Run p) (n : Nat) : Change p (run.state n) (run.state (n + 1)) := by
  rcases run.moves n with moves | ⟨idle, rests⟩
  · exact moves.change (run.reachable n)
  · exact .halts (.of_idle idle) (by rw [rests]) (by rw [rests])

/-- Where the tasks after a move come from: a task is as before, has taken the step, or is new. -/
theorem Change.mem_tasks (h : Change p s s') {u : Task} (hu : u ∈ s'.tasks) : u ∈ s.tasks ∨
    (∃ i t st, s.running = some i ∧ s.tasks[i]? = some t ∧ t.Does p s.held s.world st ∧ u = st.task) ∨
    (∃ s₀ o, u = .ofOp s₀ o) ∨ ∃ ts, u = .ofTeardowns ts := by
  have settled : ∀ {w ts}, u ∈ settledTasks w ts → u ∈ ts ∨ ∃ ts, u = .ofTeardowns ts := by
    intro w ts hu
    rcases List.mem_append.1 hu with hu | hu
    · exact .inl hu
    · obtain ⟨left, -, rfl⟩ := List.mem_map.1 hu
      exact .inr ⟨left, rfl⟩
  cases h with
  | step i t st running found does turn opens world tasks =>
    rw [tasks] at hu
    rcases settled hu with hu | ended
    · rcases List.mem_append.1 hu with hu | hu
      · rcases List.mem_or_eq_of_mem_set hu with hu | rfl
        · exact .inl hu
        · exact .inr (.inl ⟨i, t, st, running, found, does, rfl⟩)
      · obtain ⟨s₀, o, rfl, -⟩ := opens.started u hu
        exact .inr (.inr (.inl ⟨s₀, o, rfl⟩))
    · exact .inr (.inr (.inr ended))
  | halts _ _ tasks => exact .inl (tasks ▸ hu)
  | outside _ w _ us new _ _ tasks =>
    rw [tasks] at hu
    rcases List.mem_append.1 hu with hu | hu
    · exact (settled hu).imp id fun ended => .inr (.inr ended)
    · obtain ⟨o, rfl⟩ := new u hu
      exact .inr (.inr (.inl ⟨{}, o, rfl⟩))
  | renews _ _ _ tasks =>
    rw [tasks] at hu
    cases hu

/-! ## Instances in hand -/

/-- The instance that the running task hands to a build, and the build. -/
def hand? (s : System) : Option (Build × Instance) := s.current.bind Task.hand?

/-- The container that the running task terminates. -/
def terminates (s : System) : Option ContainerId := s.current.bind (Task.terminates s.world)

theorem current_eq {i : Nat} {t : Task} (running : s.running = some i) (found : s.tasks[i]? = some t) :
    s.current = some t := by
  simp [current, running, found]

theorem exists_of_current {t : Task} (h : s.current = some t) :
    ∃ i, s.running = some i ∧ s.tasks[i]? = some t := Option.bind_eq_some_iff.1 h

theorem exists_of_hand {x : Build × Instance} (h : s.hand? = some x) :
    ∃ i t, s.running = some i ∧ s.tasks[i]? = some t ∧ t.hand? = some x := by
  obtain ⟨t, current, hand⟩ := Option.bind_eq_some_iff.1 h
  obtain ⟨i, running, found⟩ := exists_of_current current
  exact ⟨i, t, running, found, hand⟩

theorem current_of_idle (idle : s.running = none) : s.current = none := by
  rw [current, idle]
  rfl

theorem hand_of_idle (idle : s.running = none) : s.hand? = none := by
  rw [hand?, current_of_idle idle]
  rfl

/-- Who is over or has to wait has nothing in hand. -/
theorem Halts.hand_none (h : s.Halts) : s.hand? = none := by
  cases hand : s.hand? with
  | none => rfl
  | some x =>
    obtain ⟨i, t, running, found, hand⟩ := exists_of_hand hand
    rcases h i t running found with ⟨r, rfl⟩ | ⟨b, below, rfl, -⟩ | ⟨ts, below, rfl⟩ <;> cases hand

theorem Scheduled.hand_none {t : Task} {i : Nat} (h : Scheduled s) (idle : s.running = none)
    (found : s.tasks[i]? = some t) : t.hand? = none := by
  by_contra hand
  have := h.hands i t found hand
  rw [idle] at this
  cases this

theorem hand_of_new {w : World} {ts : List Task} {u : Task} (hu : u ∈ settledTasks w ts) : u ∈ ts ∨ u.hand? = none := by
  rcases List.mem_append.1 hu with hu | hu
  · exact .inl hu
  · obtain ⟨_, _, rfl⟩ := List.mem_map.1 hu
    exact .inr rfl

/-- What is in hand was made in the move before, and nothing was in hand then. -/
theorem Change.made (h : Change p s s') (ordered : Scheduled s) {u : Task} (hu : u ∈ s'.tasks) {b : Build}
    {v : Instance} (hand : u.hand? = some (b, v)) :
    ∃ i t st, s.running = some i ∧ s.tasks[i]? = some t ∧ t.Does p s.held s.world st ∧ st.Open ∧ u = st.task ∧
      s'.world = settledWorld st.world (s.tasks.set i st.task ++ st.started) ∧
      s'.tasks = settledTasks st.world (s.tasks.set i st.task ++ st.started) := by
  cases h with
  | step i t st running found does turn opens world tasks =>
    refine ⟨i, t, st, running, found, does, opens, ?_, world, tasks⟩
    -- Only the running task has anything in hand, and new tasks have nothing.
    rw [tasks] at hu
    rcases hand_of_new hu with hu | none
    · rcases List.mem_append.1 hu with hu | hu
      · obtain ⟨j, hj⟩ := List.getElem?_of_mem hu
        by_cases e : i = j
        · subst e
          rw [List.getElem?_set_self (ordered.present i running)] at hj
          exact (Option.some.inj hj).symm
        · rw [List.getElem?_set_ne e] at hj
          have runs := ordered.hands j u hj (by simp [hand])
          rw [running] at runs
          exact absurd (Option.some.inj runs) e
      · obtain ⟨s₀, o, rfl, -⟩ := opens.started u hu
        cases hand
    · rw [none] at hand
      cases hand
  | halts halts world tasks =>
    rw [tasks] at hu
    obtain ⟨j, hj⟩ := List.getElem?_of_mem hu
    have none := halts.hand_none
    rw [hand?, current_eq (ordered.hands j u hj (by simp [hand])) hj, Option.bind_some, hand] at none
    cases none
  | outside idle w edits us new containers world tasks =>
    rw [tasks] at hu
    rcases List.mem_append.1 hu with hu | hu
    · rcases hand_of_new hu with hu | none
      · obtain ⟨j, hj⟩ := List.getElem?_of_mem hu
        rw [ordered.hand_none idle hj] at hand
        cases hand
      · rw [none] at hand
        cases hand
    · obtain ⟨o, rfl⟩ := new u hu
      cases hand
  | renews idle finished world tasks =>
    rw [tasks] at hu
    cases hu

/-! ## Runs of a list of operations -/

/-- One move, with the operations that are not begun yet: the next one is begun when no task can go on. -/
def advance (p : Program) (s : System) (ops : List Op) : System × List Op :=
  match s.step p, s.running, ops with
  | some s', _, _ => (s', ops)
  | none, none, o :: rest => (s.release.start [.ofOp {} o], rest)
  | none, _, _ => (s, ops)

/-- The system after `n` moves of a run in which operations are begun one after the other. -/
def play (p : Program) (name : String) (ops : List Op) : Nat → System × List Op
  | 0 => (.initial name, ops)
  | n + 1 => advance p (play p name ops n).1 (play p name ops n).2

theorem moves_advance (h : Reachable p s) (ops : List Op) :
    s.Moves p (advance p s ops).1 ∨ s.running = none ∧ (advance p s ops).1 = s := by
  unfold advance
  split
  · next s' _ _ next => exact .inl (.next (.of_step next))
  · next idle => exact .inl (.begin idle _)
  · next stuck _ =>
    refine .inr ⟨?_, rfl⟩
    by_contra runs
    obtain ⟨i, running⟩ := Option.ne_none_iff_exists'.1 runs
    simp [System.step, running, h.scheduled.present i running] at stuck

theorem reachable_play (p : Program) (name : String) (ops : List Op) (n : Nat) :
    Reachable p (play p name ops n).1 := by
  induction n with
  | zero => exact .start name
  | succ n ih =>
    rcases moves_advance ih (play p name ops n).2 with moves | ⟨_, rests⟩
    · exact ih.move moves
    · exact rests ▸ ih

/-- The run in which operations are begun one after the other. -/
def Run.ofOps (p : Program) (name : String) (ops : List Op) : Run p where
  state n := (play p name ops n).1
  start := ⟨name, rfl⟩
  moves n := moves_advance (reachable_play p name ops n) _

/-- Once no task can go on and all operations are begun, nothing happens any more. -/
theorem play_of_over {name : String} {ops : List Op} {m : Nat} (stuck : (play p name ops m).1.step p = none)
    (begun : (play p name ops m).2 = []) {n : Nat} (later : m ≤ n) : play p name ops n = play p name ops m := by
  induction later with
  | refl => rfl
  | step _ ih =>
    rw [play, ih]
    unfold advance
    split
    · next goes =>
      rw [stuck] at goes
      cases goes
    · next more =>
      rw [begun] at more
      cases more
    · rfl

/-- What is true of all states until nothing happens any more is true of all states. -/
theorem Run.forall_ofOps {name : String} {ops : List Op} {P : System → Prop} (m : Nat)
    (stuck : (play p name ops m).1.step p = none) (begun : (play p name ops m).2 = []) (first : ∀ n < m + 1, P ((Run.ofOps p name ops).state n)) (n : Nat) :
    P ((Run.ofOps p name ops).state n) := by
  by_cases early : n < m + 1
  · exact first n early
  · change P (play p name ops n).1
    rw [play_of_over stuck begun (by omega)]
    exact first m (Nat.lt_succ_self m)

end System

end Injector
