import Injector.Proofs.Depth
import Injector.Proofs.Following
/-!
# Every resolution and every call ends

A resolution or a call that performs no operations goes on by itself alone: what other tasks do in
between neither adds to its steps nor takes it off its way, as long as they register nothing of
another kind (`Run.Pursues.nested`). It takes finitely many steps (`Run.Pursues.comes_to_rest`), and a lock
is all that it may be left waiting for. So it comes to an answer, unless others are at the lock of what it
is to build again and again (`Run.comes_to_an_answer`).
-/
namespace Injector

variable {p : Program}

namespace System

variable {s s' : System}

theorem Run.chain_sub (run : Run p) {m m' : Nat} (later : m ≤ m') (c : ContainerId) :
    ∀ d ∈ (run.state m).world.chain c, d ∈ (run.state m').world.chain c := by
  induction later with
  | refl => exact fun _ hd => hd
  | step _ ih =>
    intro d hd
    rcases List.mem_cons.1 (ih d hd) with rfl | hd
    · exact List.mem_cons_self
    · exact List.mem_cons_of_mem _ ((run.change _).bases_eq (World.opened_of_mem_bases hd) ▸ hd)

/-! ## Ended containers are tame -/

theorem tame_settled {w : World} {keys : List Key} (h : w.Tame p keys) (ts : List Task) :
    (settledWorld w ts).Tame p keys := by
  have same : ∀ c, (settledWorld w ts).container c = w.container c ∨
      (settledWorld w ts).container c = World.ended (w.container c).bases := by
    intro c
    have released : (settledWorld w ts).container c =
        if c ∈ w.unreachable (ts.flatMap Task.held) then World.ended (w.container c).bases else w.container c :=
      World.container_release ..
    rw [released]
    split
    · exact .inr rfl
    · exact .inl rfl
  refine ⟨⟨fun c key β found => ?_, h.bare.injectable, fun c key hook hh => ?_⟩, ⟨fun c => ?_, h.asks.injectable⟩⟩
  · rcases same c with same | same <;> rw [same] at found
    · exact h.bare.bound c key β found
    · cases found
  · rcases same c with same | same <;> rw [same] at hh
    · exact h.bare.hooks c key hook hh
    · rw [World.ended, World.hooksFor_of_empty rfl] at hh
      cases hh
  · rcases same c with same | same <;> rw [same]
    · exact h.asks.registers c
    · exact .empty keys

/-! ## Steps of one task -/

/-- Whether a task takes the next step: it runs, and need not wait. -/
def Acts (s : System) (i : Nat) : Prop := s.running = some i ∧ s.ready i = true

theorem running_ne_of_idle {i : Nat} (idle : s.running = none) : s.running ≠ some i := by
  rw [idle]
  rintro ⟨⟩

variable {i : Nat} {a : Activity .answer} {above : Stack .answer}

/-- A step of a task that is to come to an answer. -/
structure Steps (p : Program) (s : System) (i : Nat) (t : Task) (s' : System) : Prop where
  acts : s.Acts i
  world : s'.world = (s.put i (t.step ⟨p, s.held, s.tasks.length⟩ s.world)).world
  found : s'.tasks[i]? = some (t.step ⟨p, s.held, s.tasks.length⟩ s.world).task

/-- A move in which a task takes no step. -/
structure Spares (s : System) (i : Nat) (t : Task) (s' : System) : Prop where
  rests : ¬ s.Acts i
  found : s'.tasks[i]? = some t
  world : s.running = some i → s'.world = s.world

/-- What a move does to a task that is to come to an answer: it takes a step, or is where it was. -/
theorem Moves.steps_or_spares (h : Reachable p s) (moves : s.Moves p s') (found : s.tasks[i]? = some ⟨.answer, a, above⟩) :
    s.Steps p i ⟨.answer, a, above⟩ s' ∨ s.Spares i ⟨.answer, a, above⟩ s' := by
  rcases moves.cases with ⟨j, u, st, running, found', takes, world, tasks⟩ | ⟨halts, world, tasks⟩ | ⟨idle, outside⟩
  · by_cases e : j = i
    · subst e
      obtain rfl := Option.some.inj (found'.symm.trans found)
      cases takes with
      | step turn =>
        have ready : s.ready j = true := by
          cases a with
          | line b => exact turn b above rfl
          | resolve | fill | pause | give => simp [System.ready, found]
        exact .inl ⟨⟨running, ready⟩, world, by rw [tasks]; exact get?_put found _⟩
    · have other : s.running ≠ some i := fun runs => e (Option.some.inj (running.symm.trans runs))
      exact .inr ⟨fun acts => other acts.1, by rw [tasks]; exact get?_put_of_ne found e st, fun runs => absurd runs other⟩
  · refine .inr ⟨fun acts => ?_, by rw [tasks]; exact found, fun _ => world⟩
    obtain ⟨running, ready⟩ := acts
    rcases halts i _ running found with ⟨_, h⟩ | ⟨b, below, -, waits⟩ | ⟨_, _, h⟩
    · cases h
    · rw [ready] at waits
      cases waits
    · cases h
  · have other : s.running ≠ some i := running_ne_of_idle idle
    refine .inr ⟨fun acts => other acts.1, ?_, fun runs => absurd runs other⟩
    rcases outside with ⟨o, -, tasks⟩ | ⟨name, rfl⟩ | ⟨nobody, -⟩
    · rw [tasks, tasks_release]
      exact get?_append (get?_settledTasks found) _
    · rw [tasks_release]
      exact get?_settledTasks found
    · -- Not all tasks are finished.
      rcases h.scheduled.known i _ found with running | waits | finished
      · exact absurd running other
      · rw [nobody] at waits
        cases waits
      · exact absurd rfl finished

theorem Run.steps_or_spares (run : Run p) {m : Nat} (found : (run.state m).tasks[i]? = some ⟨.answer, a, above⟩) :
    (run.state m).Steps p i ⟨.answer, a, above⟩ (run.state (m + 1)) ∨
      (run.state m).Spares i ⟨.answer, a, above⟩ (run.state (m + 1)) := by
  rcases run.moves m with moves | ⟨idle, same⟩
  · exact moves.steps_or_spares (run.reachable m) found
  · have other : (run.state m).running ≠ some i := running_ne_of_idle idle
    exact .inr ⟨fun acts => other acts.1, same ▸ found, fun runs => absurd runs other⟩

/-! ## Until the answer -/

/-- Whether `below` is handed an answer in move `m`. -/
def Run.Answered (run : Run p) (i : Nat) (below : Stack .answer) (m : Nat) : Prop :=
  ∃ a, (run.state m).tasks[i]? = some ⟨.answer, .give (k := .answer) a, below⟩

/-- Whether `below`, which waits since move `n`, was not handed an answer before move `m`. -/
structure Run.Pending (run : Run p) (i : Nat) (below : Stack .answer) (n m : Nat) : Prop where
  since : n ≤ m
  waits : ∀ k, n ≤ k → k < m → ¬ run.Answered i below k

/-- A resolution begins with a request, and a call with a job, on container `c`. -/
inductive Activity.Begins (c : ContainerId) : Activity .answer → Prop
  | resolution (r : Request) (here : r.container = c) : Begins c (.resolve r)
  | call (f : Function) (subject : Key) (inScope : Bool) (arguments : Arguments) (signature : Signature)
    (path : List Key) : Begins c (.fill (Job.start f subject c inScope arguments signature path))

theorem Activity.Begins.nested {c : ContainerId} {keys : List Key} (h : Activity.Begins c a) (tame : a.Tame keys)
    (chain : ContainerId → List ContainerId) (below : Stack .answer) :
    Task.Nested chain keys c below ⟨.answer, a, below⟩ := by
  cases h with
  | resolution r here => exact .mk here tame .base
  | call => exact .mk rfl tame .base

/-- A resolution or a call that is begun, in a tame world that other tasks leave tame until it has its answer. -/
structure Run.Pursues (run : Run p) (i n : Nat) (c : ContainerId) (a : Activity .answer) (below : Stack .answer)
    (keys : List Key) : Prop where
  begins : Activity.Begins c a
  found : (run.state n).tasks[i]? = some ⟨.answer, a, below⟩
  tame : a.Tame keys
  world : (run.state n).world.Tame p keys
  others : ∀ m, run.Pending i below n m → (run.state m).running ≠ some i → (run.state m).world.Tame p keys →
    (run.state (m + 1)).world.Tame p keys

namespace Run

variable {run : Run p} {n m : Nat} {c : ContainerId} {below : Stack .answer} {keys : List Key} {t : Task}

theorem Pending.pred (h : run.Pending i below n (m + 1)) (later : n ≤ m) :
    run.Pending i below n m ∧ ¬ run.Answered i below m :=
  ⟨⟨later, fun k since before => h.waits k since (Nat.lt_succ_of_lt before)⟩, h.waits m later (Nat.lt_succ_self m)⟩

theorem Pending.later {k : Nat} (h : run.Pending i below n m) (later : m ≤ k)
    (waits : ∀ j, m ≤ j → j < k → ¬ run.Answered i below j) : run.Pending i below n k where
  since := Nat.le_trans h.since later
  waits j since before := by
    by_cases old : j < m
    · exact h.waits j since old
    · exact waits j (Nat.not_lt.1 old) before

theorem pending_of_atWork {k : Nat} (busy : ∀ j < k, (run.state (n + j)).atWork i below.height = true) :
    run.Pending i below n (n + k) where
  since := Nat.le_add_right n k
  waits m since before := by
    obtain ⟨-, t, found, hands⟩ := found_of_atWork (busy (m - n) (by omega))
    rw [Nat.add_sub_cancel' since] at found
    exact fun ⟨a, given⟩ => hands a (Option.some.inj (found.symm.trans given))

/-- What is true of a task at work, and stays so with its steps and where it takes none, is true of it until what waits is
handed an answer. -/
theorem Pending.follows (pending : run.Pending i below n m) {P : Nat → Task → Prop}
    (found : (run.state n).tasks[i]? = some t) (first : P n t) (unfinished : ∀ {k t}, P k t → t.reply? = none)
    (stays : ∀ {k t}, P k t → (∀ a, t ≠ ⟨.answer, .give (k := .answer) a, below⟩) → P (k + 1) t)
    (takes : ∀ {k t st}, n ≤ k → (run.state k).running = some i → (run.state k).tasks[i]? = some t → P k t →
      (∀ a, t ≠ ⟨.answer, .give (k := .answer) a, below⟩) → (run.state k).Takes p i t st → P (k + 1) st.task) :
    ∃ t, (run.state m).tasks[i]? = some t ∧ P m t := by
  have later := pending.since
  induction later with
  | refl => exact ⟨t, found, first⟩
  | @step k later ih =>
    obtain ⟨earlier, waits⟩ := pending.pred later
    obtain ⟨t, found, holds⟩ := ih earlier
    have busy : ∀ a, t ≠ ⟨.answer, .give (k := .answer) a, below⟩ := fun a same => waits ⟨a, same ▸ found⟩
    cases run.follows found (unfinished holds) with
    | stays found => exact ⟨t, found, stays holds busy⟩
    | step st running step _ found' => exact ⟨st.task, found', takes later running found holds busy step⟩

/-- All the way to its answer a task is at what it has begun, and the world stays tame. -/
theorem Pursues.nested (h : run.Pursues i n c a below keys) {last : Nat} (pending : run.Pending i below n m)
    (before : m ≤ last) : (run.state m).world.Tame p keys ∧ ∃ t, (run.state m).tasks[i]? = some t ∧
      t.Nested (run.state last).world.chain keys c below := by
  have later := pending.since
  induction later with
  | refl => exact ⟨h.world, _, h.found, h.begins.nested h.tame _ below⟩
  | @step k later ih =>
    obtain ⟨earlier, waits⟩ := pending.pred later
    obtain ⟨world, t, found, nested⟩ := ih earlier (Nat.le_of_succ_le before)
    have sub := run.chain_sub (Nat.le_of_succ_le before)
    have busy : ∀ a, t ≠ ⟨.answer, .give (k := .answer) a, below⟩ := fun a e => waits ⟨a, e ▸ found⟩
    obtain @⟨a', _, _, above, -, -, -⟩ := id nested
    rcases run.steps_or_spares found with steps | spared
    · refine ⟨?_, _, steps.found, nested.step rfl world sub busy⟩
      rw [steps.world]
      refine tame_settled (nested.tame_step ?_ world (run.reachable last).sound.ok.upward sub busy) _
      rfl
    · refine ⟨?_, _, spared.found, nested⟩
      by_cases running : (run.state k).running = some i
      · rw [spared.world running]
        exact world
      · exact h.others _ earlier running world

/-- Where no step is taken, a task stays. -/
theorem stays (found : (run.state n).tasks[i]? = some ⟨.answer, a, above⟩) (later : n ≤ m)
    (rests : ∀ k, n ≤ k → k < m → ¬ (run.state k).Acts i) : (run.state m).tasks[i]? = some ⟨.answer, a, above⟩ := by
  induction later with
  | refl => exact found
  | @step k later ih =>
    have here := ih fun j since before => rests j since (Nat.lt_succ_of_lt before)
    rcases run.steps_or_spares here with steps | spared
    · exact absurd steps.acts (rests k later (Nat.lt_succ_self k))
    · exact spared.found

/-- Whether a task is left where it is for ever, without an answer for `below`. -/
structure Rests (run : Run p) (i : Nat) (below : Stack .answer) (m : Nat) (t : Task) : Prop where
  found : ∀ k ≥ m, (run.state k).tasks[i]? = some t
  idle : ∀ k ≥ m, ¬ (run.state k).Acts i
  waits : ∀ k ≥ m, ¬ run.Answered i below k

/-- A resolution or a call takes finitely many steps. -/
theorem Pursues.comes_to_rest (h : run.Pursues i n c a below keys) (ends : t.Ends p keys below) :
    ∀ {m}, run.Pending i below n m → (run.state m).tasks[i]? = some t →
      ∃ m', run.Pending i below n m' ∧ (run.Answered i below m' ∨ ∃ t', run.Rests i below m' t') := by
  induction ends with
  | answer a => exact fun pending found => ⟨_, pending, .inl ⟨a, found⟩⟩
  | @step t busy _ ih =>
    intro m pending found
    obtain ⟨-, t', found', nested⟩ := h.nested pending (Nat.le_refl m)
    obtain rfl := Option.some.inj (found'.symm.trans found)
    obtain ⟨-, -, -⟩ := nested
    have waits : ∀ {k}, (run.state k).tasks[i]? = some _ → ¬ run.Answered i below k := fun here ⟨a, answered⟩ =>
      busy a (Option.some.inj (here.symm.trans answered))
    by_cases goes : ∃ k, m ≤ k ∧ (run.state k).Acts i
    · -- The first step from here on is from the same task.
      classical
      obtain ⟨k, ⟨later, now⟩, first⟩ := Nat.findX goes
      have still : ∀ j, m ≤ j → j ≤ k → (run.state j).tasks[i]? = _ := fun j since before =>
        stays found since fun j' since' before' goes => first j' (Nat.lt_of_lt_of_le before' before) ⟨since', goes⟩
      have pending' := pending.later (Nat.le_succ_of_le later) fun j since before =>
        waits (still j since (Nat.lt_succ_iff.1 before))
      have here := still k later (Nat.le_refl k)
      rcases run.steps_or_spares here with steps | spared
      · obtain ⟨world, -⟩ := h.nested (pending'.pred (Nat.le_trans pending.since later)).1 (Nat.le_refl k)
        exact ih _ _ rfl world pending' steps.found
      · exact absurd now spared.rests
    · have idle : ∀ k ≥ m, ¬ (run.state k).Acts i := fun k later now => goes ⟨k, later, now⟩
      have still : ∀ k ≥ m, (run.state k).tasks[i]? = _ := fun k later => stays found later fun j since _ => idle j since
      exact ⟨m, pending, .inr ⟨_, still, idle, fun k later => waits (still k later)⟩⟩

/-- Whether a task is not passed over for ever while it may go on. -/
def Fair (run : Run p) (i : Nat) (below : Stack .answer) (n : Nat) : Prop :=
  ∀ m, run.Pending i below n m →
    ∃ k ≥ m, run.Answered i below k ∨ ¬ (i ∈ (run.state k).waiting ∧ (run.state k).ready i = true)

/-- Whether a task is in line for a build for ever, since again and again other tasks build or are in line for the
same key of the same container. -/
structure KeptOut (run : Run p) (i m : Nat) (b : Build) : Prop where
  waits : ∀ k ≥ m, ∃ t, (run.state k).tasks[i]? = some t ∧ t.line? = some b
  others : ∀ k ≥ m, ∃ k' ≥ k, ∃ j u, (run.state k').tasks[j]? = some u ∧ j ≠ i ∧ ∃ b' ∈ u.locked, b'.site = b.site

theorem KeptOut.not_answered {b : Build} (h : run.KeptOut i m b) {k : Nat} (later : m ≤ k) :
    ¬ run.Answered i below k := by
  rintro ⟨a, answered⟩
  obtain ⟨t, found, line⟩ := h.waits k later
  obtain rfl := Option.some.inj (found.symm.trans answered)
  cases line

/-- What is not passed over is left waiting for a lock only. -/
theorem Rests.keptOut (h : run.Rests i below m ⟨.answer, a, above⟩) (pending : run.Pending i below n m)
    (fair : run.Fair i below n) : ∃ b, run.KeptOut i m b := by
  -- At some time from any time on, it may not go on, and so others are at what it is in line for.
  have others : ∀ k ≥ m, ∃ k' ≥ k, ∃ b, Task.line? ⟨.answer, a, above⟩ = some b ∧ ∃ j u,
      (run.state k').tasks[j]? = some u ∧ j ≠ i ∧ ∃ b' ∈ u.locked, b'.site = b.site := by
    intro k later
    obtain ⟨k', later', passed⟩ := fair k (pending.later later fun j since _ => h.waits j since)
    have later'' := Nat.le_trans later later'
    have found := h.found k' later''
    refine ⟨k', later', ?_⟩
    have stuck : (run.state k').ready i ≠ true := by
      intro ready
      rcases (run.reachable k').scheduled.known i _ found with running | waits | finished
      · exact h.idle k' later'' ⟨running, ready⟩
      · rcases passed with answered | passed
        · exact h.waits k' later'' answered
        · exact passed ⟨waits, ready⟩
      · exact absurd rfl finished
    by_contra free
    refine stuck ((run.reachable k').ready_of_free found ?_ fun b line j u hu ne b' hb' same => ?_)
    · rintro ⟨_, _, awaits⟩
      cases awaits
    · exact free ⟨b, line, j, u, hu, ne, b', hb', same⟩
  obtain ⟨-, -, b, line, -⟩ := others m (Nat.le_refl m)
  refine ⟨b, fun k later => ⟨_, h.found k later, line⟩, fun k later => ?_⟩
  obtain ⟨k', later', b', line', rest⟩ := others k later
  obtain rfl := Option.some.inj (line'.symm.trans line)
  exact ⟨k', later', rest⟩

end Run

/-- A resolution or a call without operations goes no deeper than there are keys, whatever they depend on, and takes
finitely many steps of its own. It comes to an answer, an instance or a failure, unless other tasks keep it from the lock
of a build for ever; so it always does on its own, when no other task builds anything. What tasks do to each other is
another matter: two of them can wait for each other for ever (`crossed_deadlock`). -/
theorem Run.comes_to_an_answer {run : Run p} {i n : Nat} {c : ContainerId} {a : Activity .answer} {below : Stack .answer}
    {keys : List Key} (h : run.Pursues i n c a below keys) :
    (∀ m, run.Pending i below n m → ∃ t inner, (run.state m).tasks[i]? = some t ∧
      t.Deep (run.state m).world.chain keys c below inner) ∧
    (∃ m, run.Pending i below n m ∧ (run.Answered i below m ∨ ∃ t, run.Rests i below m t)) ∧
    (run.Fair i below n →
      ∃ m, run.Pending i below n m ∧ (run.Answered i below m ∨ ∃ b, run.KeptOut i m b)) ∧
    (run.Fair i below n → (∀ m, run.Pending i below n m → (run.state m).LeavesAlone i) →
      ∃ m, run.Pending i below n m ∧ run.Answered i below m) := by
  have start : run.Pending i below n n := ⟨Nat.le_refl n, fun k since before => absurd since (Nat.not_le.2 before)⟩
  have wf := ((run.reachable n).sound.wf _ (List.mem_of_getElem? h.found)).activity
  have rests := h.comes_to_rest (h.tame.ends wf) start h.found
  have kept : run.Fair i below n → ∃ m, run.Pending i below n m ∧ (run.Answered i below m ∨ ∃ b, run.KeptOut i m b) := by
    intro fair
    obtain ⟨m, pending, answered | ⟨t, rests⟩⟩ := rests
    · exact ⟨m, pending, .inl answered⟩
    · obtain ⟨-, t', found, nested⟩ := h.nested pending (Nat.le_refl m)
      obtain rfl := Option.some.inj (found.symm.trans (rests.found m (Nat.le_refl m)))
      obtain ⟨-, -, -⟩ := nested
      exact ⟨m, pending, .inr (rests.keptOut pending fair)⟩
  refine ⟨fun m pending => ?_, rests, kept, fun fair alone => ?_⟩
  · obtain ⟨-, t, found, nested⟩ := h.nested pending (Nat.le_refl m)
    have ht := List.mem_of_getElem? found
    obtain ⟨inner, deep⟩ := nested.deep ((run.reachable m).sound.wf t ht) ((run.reachable m).nodup t ht)
    exact ⟨t, inner, found, deep⟩
  · obtain ⟨m, pending, answered | ⟨b, out⟩⟩ := kept fair
    · exact ⟨m, pending, answered⟩
    · -- The others, who would be at the lock, build nothing.
      obtain ⟨k, later, j, u, hu, ne, b', hb', -⟩ := out.others m (Nat.le_refl m)
      have pending' := pending.later later fun j since _ => out.not_answered since
      rw [alone k pending' j u hu ne] at hb'
      cases hb'

/-! ## A circle -/

/-- Once all operations are begun, nothing happens while no task runs. -/
theorem Run.world_of_idle {name : String} {ops : List Op} {m : Nat} (all : (play p name ops m).2 = [])
    (idle : ((Run.ofOps p name ops).state m).running = none) :
    ((Run.ofOps p name ops).state (m + 1)).world = ((Run.ofOps p name ops).state m).world := by
  change (advance p (play p name ops m).1 (play p name ops m).2).1.world = (play p name ops m).1.world
  unfold advance
  split
  · next s' _ _ next =>
    have moves := Next.of_step next
    cases moves with
    | resume => rfl
    | run running =>
      have none : (play p name ops m).1.running = none := idle
      rw [none] at running
      cases running
  · next begun =>
    rw [all] at begun
    cases begun
  · rfl

/-- An `A` is asked for that needs a `B`, which needs an `A`. -/
def circleRun : Run circular := circularRun ["a", "b", "c"] (ask (.type (.declared "A")))

/-- The request, and what waits for the instance. -/
def circleRequest : Request := { container := 0, key := .type (.declared "A"), path := [] }

def circleStack : Stack .answer := .cons (.deliver 0 none none) .nil

theorem bare_circleRun : (circleRun.state 15).world.Bare circular := by
  have own : ((circleRun.state 15).world.container 0).registry.own =
      ((Table.empty.insert (.type (.declared "A")) ((Source.function "a" true).binding circular .transient none)).insert
        (.type (.declared "B")) ((Source.function "b" true).binding circular .transient none)).insert
        (.type (.declared "C")) ((Source.function "c" true).binding circular .transient none) := rfl
  refine .of_single (by decide +kernel) (fun key β found => ?_) (fun t => rfl) rfl
  rw [Registry.get?, own] at found
  simp only [Table.get?_insert] at found
  split at found
  · cases found
    rfl
  · split at found
    · cases found
      rfl
    · split at found
      · cases found
        rfl
      · cases found

theorem answered_circleRun : circleRun.Answered 3 circleStack 35 := ⟨_, rfl⟩

/-- There is an answer after twenty moves, so all before it can be gone through. -/
theorem exists_of_pending {m : Nat} (pending : circleRun.Pending 3 circleStack 15 m) : ∃ k < 21, m = 15 + k := by
  refine ⟨m - 15, ?_, ?_⟩
  · by_contra late
    exact pending.waits 35 (by omega) (by omega) answered_circleRun
  · have := pending.since
    omega

theorem pursues_circleRun : ∃ keys, circleRun.Pursues 3 15 0 (.resolve circleRequest) circleStack keys := by
  have finite : circular.Finite := ⟨[], fun t told => absurd rfl told⟩
  obtain ⟨keys, asks, listed⟩ := (circleRun.reachable 15).exists_keys finite circleRequest
  refine ⟨keys, .resolution _ rfl, rfl, ⟨listed, by rintro f ⟨⟩⟩, ⟨bare_circleRun, asks⟩, fun m pending other tame => ?_⟩
  -- No other task runs on the way.
  have alone : ∀ k < 21, (circleRun.state (15 + k)).running = none ∨ (circleRun.state (15 + k)).running = some 3 := by
    decide +kernel
  obtain ⟨k, early, rfl⟩ := exists_of_pending pending
  have begun : ∀ k < 21, (play circular "root" ((["a", "b", "c"].map fun name =>
      .on "root" (.register none (.function name true) .transient none)) ++ [ask (.type (.declared "A"))])
      (15 + k)).2.isEmpty = true := by decide +kernel
  have same := Run.world_of_idle (List.isEmpty_iff.1 (begun k early)) ((alone k early).resolve_right other)
  exact same ▸ tame

theorem fair_circleRun : circleRun.Fair 3 circleStack 15 := by
  intro m pending
  obtain ⟨k, early, rfl⟩ := exists_of_pending pending
  exact ⟨35, by omega, .inl answered_circleRun⟩

theorem leavesAlone_circleRun {m : Nat} (pending : circleRun.Pending 3 circleStack 15 m) :
    (circleRun.state m).LeavesAlone 3 := by
  have last : ∀ k < 21, (circleRun.state (15 + k)).tasks.length = 4 := by decide +kernel
  have free : ∀ k < 21, ((circleRun.state (15 + k)).tasks.take 3).all (fun t => t.locked.isEmpty) = true := by
    decide +kernel
  obtain ⟨k, early, rfl⟩ := exists_of_pending pending
  exact leavesAlone_of_last (last k early) (free k early)

/-- Though an `A` needs an `A`, there is an answer. -/
theorem circle_comes_to_an_answer : ∃ keys, circleRun.Pursues 3 15 0 (.resolve circleRequest) circleStack keys ∧
    circleRun.Fair 3 circleStack 15 ∧ (∀ m, circleRun.Pending 3 circleStack 15 m → (circleRun.state m).LeavesAlone 3) ∧
    ∃ m, circleRun.Pending 3 circleStack 15 m ∧ circleRun.Answered 3 circleStack m := by
  obtain ⟨keys, pursues⟩ := pursues_circleRun
  obtain ⟨-, -, -, ends⟩ := Run.comes_to_an_answer pursues
  exact ⟨keys, pursues, fair_circleRun, fun _ => leavesAlone_circleRun,
    ends fair_circleRun fun _ => leavesAlone_circleRun⟩

end System

end Injector
