import Injector.Proofs.Turns
/-!
# Following a task

A step of a task changes what is on top of what waits: what waits below stays as it is until it is
handed an outcome (`Task.step_on`). `Run.follows`: in each move of a run a task that is not
finished takes a step, or stays where it is.
-/
namespace Injector

/-- What waits once more was put on `base`, or nothing. -/
inductive Stack.On {a : Kind} (base : Stack a) : {k : Kind} → Stack k → Prop
  | base : On base base
  | cons {k k' : Kind} (c : Cont k k') {above : Stack k'} (on : On base above) : On base (.cons c above)

namespace Stack.On

variable {a b k : Kind} {base : Stack a} {middle : Stack b} {above : Stack k}

theorem trans (h : base.On middle) (h' : middle.On above) : base.On above := by
  induction h' with
  | base => exact h
  | cons c _ ih => exact .cons c ih

theorem height (h : base.On above) : base.height ≤ above.height := by
  induction h with
  | base => exact Nat.le_refl _
  | cons _ _ ih => exact Nat.le_succ_of_le ih

/-- What is on something with more on it is higher. -/
theorem height_lt {c : Cont b a} (h : (Stack.cons c base).On above) : base.height < above.height := h.height

end Stack.On

/-! ## Steps leave alone what waits below -/

namespace Step

/-- Whether a step leaves `below` to wait as it is. -/
def Over {k : Kind} (below : Stack k) (st : Step) : Prop := below.On st.task.stack

variable {w : World} {env : Env}

theorem over_filled (j : Job) (r : Except Failure (Filled × Frame)) (below : Stack .answer) :
    Over below (filled w j r below) := by
  cases r <;> exact Stack.On.base

theorem over_conclude (j : Job) (below : Stack .answer) : Over below (conclude w j below) := by
  unfold conclude
  dsimp only
  split <;> exact Stack.On.base

theorem over_body (j : Job) (ops : List Op) (below : Stack .answer) : Over below (body w j ops below) := by
  cases ops with
  | nil => exact over_conclude j below
  | cons => exact Stack.On.cons _ .base

theorem over_callback (path : List Key) (ops : List Op) (ts : List Teardown) (below : Stack .done) :
    Over below (callback w path ops ts below) := by
  cases ops with
  | nil => exact Stack.On.base
  | cons => exact Stack.On.cons _ .base

theorem over_scopeBody (scope : ContainerId) (name : String) (path : List Key) (ops : List Op) (below : Stack .reply) :
    Over below (scopeBody w scope name path ops below) := by
  cases ops <;> exact Stack.On.cons _ .base

theorem over_resolve (r : Request) (below : Stack .answer) : Over below (resolve w r below) := by
  unfold resolve
  split
  · exact Stack.On.base
  · exact Stack.On.base
  · split <;> exact Stack.On.base

theorem over_build (b : Build) (below : Stack .answer) : Over below (build w b below) := by
  unfold build
  split
  · exact Stack.On.base
  · split
    · exact Stack.On.cons _ .base
    · exact Stack.On.cons _ (.cons _ .base)
    · exact Stack.On.base

theorem over_fill (j : Job) (below : Stack .answer) : Over below (fill env w j below) := by
  unfold fill
  split
  · exact Stack.On.base
  · dsimp only
    split
    · exact Stack.On.cons _ .base
    · split <;> exact over_filled j _ below

theorem over_start (j : Job) (below : Stack .answer) : Over below (start env w j below) := by
  unfold start
  split
  · exact over_body j _ below
  all_goals
    split
    · exact Stack.On.base
    · exact over_conclude j below

theorem over_windDown (path : List Key) (ts : List Teardown) (below : Stack .done) :
    Over below (windDown w path ts below) := by
  unfold windDown
  split
  · exact Stack.On.base
  · exact over_callback path _ _ below
  · split
    · exact over_callback path _ _ below
    · exact Stack.On.base

theorem over_lasting (s : Scene) (c : ContainerId) (a : Lasting Command Op) (below : Stack .reply) :
    Over below (lasting env w s c a below) := by
  unfold lasting
  split
  · exact Stack.On.cons _ .base
  · split
    · exact Stack.On.cons _ .base
    · exact Stack.On.base
  · dsimp only
    split
    · split
      · exact Stack.On.base
      · exact Stack.On.cons _ .base
    · exact Stack.On.base
  · exact Stack.On.cons _ .base
  · exact over_scopeBody _ _ _ _ below
  · exact Stack.On.base

theorem over_perform (s : Scene) (o : Op) (below : Stack .reply) : Over below (perform env w s o below) := by
  cases o with
  | instant => exact Stack.On.base
  | lasting h a =>
    unfold perform
    dsimp only
    split
    · exact over_lasting s _ a below
    · exact Stack.On.base

theorem over_answered {b : Kind} (answer : Except Failure Instance) (c : Cont .answer b) (below : Stack b) :
    Over below (answered env w answer c below) := by
  cases c with
  | slot j key =>
    change Over below (slot w j key answer below)
    unfold slot
    split
    · exact Stack.On.base
    · exact over_filled j _ below
  | build b => cases answer <;> exact Stack.On.base
  | convert product input =>
    change Over below (convert w product input answer below)
    unfold convert
    split <;> exact Stack.On.base
  | deliver c expected save =>
    change Over below (deliver w expected save answer below)
    unfold deliver
    split <;> exact Stack.On.base
  | observe => exact Stack.On.base

theorem over_replied {b : Kind} (r : Reply) (c : Cont .reply b) (below : Stack b) :
    Over below (replied w r c below) := by
  cases c with
  | body j h rest =>
    unfold replied
    dsimp only
    split
    · exact Stack.On.base
    · exact over_body j rest below
  | scopeBody scope name path h rest =>
    unfold replied
    dsimp only
    split
    · exact Stack.On.cons _ .base
    · exact over_scopeBody scope name path rest below
  | callback path h rest ts =>
    unfold replied
    dsimp only
    split
    · exact Stack.On.base
    · exact over_callback path rest ts below

theorem over_handOver {a b : Kind} (outcome : a.Outcome) (c : Cont a b) (below : Stack b) :
    Over below (handOver env w outcome (.cons c below)) := by
  cases a with
  | answer => exact over_answered outcome c below
  | reply => exact over_replied outcome c below
  | done => cases c; exact Stack.On.base

end Step

/-- What waits stays as it is until it is handed an outcome. -/
theorem Task.step_on {a : Kind} {base : Stack a} {w : World} {env : Env} {t : Task} (on : base.On t.stack)
    (busy : ∀ outcome : a.Outcome, t ≠ ⟨a, .give outcome, base⟩) : base.On (t.step env w).task.stack := by
  obtain ⟨k, activity, above⟩ := t
  cases activity with
  | resolve r => exact on.trans (Step.over_resolve r above)
  | line b => exact on.trans (Step.over_build b above)
  | fill j => exact on.trans (Step.over_fill j above)
  | pause j times =>
    cases times with
    | zero => exact on.trans (Step.over_start j above)
    | succ => exact on
  | perform s o => exact on.trans (Step.over_perform s o above)
  | windDown path ts => exact on.trans (Step.over_windDown path ts above)
  | await => exact on
  | give outcome =>
    have here : base.On above := on
    cases here with
    | base => exact absurd rfl (busy outcome)
    | cons c rest => exact rest.trans (Step.over_handOver outcome c _)

namespace System

variable {p : Program} {s s' : System} {i : Nat} {t : Task} {st : Step}

theorem Takes.on {a : Kind} {base : Stack a} (h : s.Takes p i t st) (on : base.On t.stack)
    (busy : ∀ outcome : a.Outcome, t ≠ ⟨a, .give outcome, base⟩) : base.On st.task.stack := by
  cases h with
  | step => exact Task.step_on on busy
  | joined => exact on

/-- What a move does to a task that is not finished: it takes a step, or stays where it is. -/
inductive Follows (p : Program) (s : System) (i : Nat) (t : Task) (s' : System) : Prop
  | step (st : Step) (running : s.running = some i) (takes : s.Takes p i t st)
    (world : s'.world = (s.put i st).world) (found : s'.tasks[i]? = some st.task)
  | stays (found : s'.tasks[i]? = some t) (halts : s.running = some i → s.Halts)

theorem Moves.follows (h : Reachable p s) (moves : s.Moves p s') (found : s.tasks[i]? = some t)
    (unfinished : t.reply? = none) : s.Follows p i t s' := by
  rcases moves.cases with ⟨j, u, st, running, found', takes, world, tasks⟩ | ⟨halts, world, tasks⟩ | ⟨idle, outside⟩
  · by_cases same : j = i
    · subst same
      obtain rfl := Option.some.inj (found'.symm.trans found)
      exact .step st running takes world (tasks ▸ get?_put found st)
    · refine .stays (tasks ▸ get?_put_of_ne found same st) fun running' => ?_
      exact absurd (Option.some.inj (running.symm.trans running')) same
  · exact .stays (tasks ▸ found) fun _ => halts
  · refine .stays ?_ fun _ => .of_idle idle
    rcases outside with ⟨o, -, tasks⟩ | ⟨name, rfl⟩ | ⟨finished, -⟩
    · rw [tasks]
      exact get?_append (get?_settledTasks found) _
    · exact get?_settledTasks found
    · -- Only when all tasks are finished are they forgotten.
      rcases h.scheduled.known i t found with running | waits | replied
      · rw [idle] at running
        cases running
      · rw [finished] at waits
        cases waits
      · exact absurd unfinished replied

theorem Run.follows (run : Run p) {n : Nat} (found : (run.state n).tasks[i]? = some t) (unfinished : t.reply? = none) :
    (run.state n).Follows p i t (run.state (n + 1)) := by
  rcases run.moves n with moves | ⟨idle, same⟩
  · exact moves.follows (run.reachable n) found unfinished
  · exact .stays (same ▸ found) fun _ => .of_idle idle

/-- Who has just come to an answer runs. -/
theorem Moves.running_of_give {base : Stack .answer} {a : Except Failure Instance} (moves : s.Moves p s')
    (present : i < s.tasks.length) (busy : ∀ a, s.tasks[i]? ≠ some ⟨.answer, .give (k := .answer) a, base⟩)
    (gives : s'.tasks[i]? = some ⟨.answer, .give (k := .answer) a, base⟩) : s'.running = some i := by
  obtain ⟨t, found⟩ : ∃ t, s.tasks[i]? = some t := ⟨_, List.getElem?_eq_getElem present⟩
  have stays : s'.tasks[i]? = some t → s'.running = some i := fun same =>
    absurd (found.trans (same.symm.trans gives)) (busy a)
  cases moves with
  | next next =>
    cases next with
    | @run j u running found' =>
      rcases run_cases p s j u with ⟨st, -, h⟩ | ⟨r, -, h⟩ | ⟨-, h⟩
      · by_cases same : j = i
        · subst same
          rcases h with h | ⟨j', n, below, pauses, h⟩
          · rw [h]
            exact running
          · rw [h] at gives
            have put := get?_put found' st
            rw [pauses] at put
            cases put.symm.trans gives
        · have put := get?_put_of_ne found same st
          rcases h with h | ⟨_, _, _, _, h⟩ <;> rw [h] at stays ⊢ <;> exact stays put
      · rw [h] at stays ⊢
        exact stays found
      · rw [h] at stays ⊢
        exact stays found
    | resume => exact stays found
  | begin idle o => exact stays (get?_append (get?_settledTasks found) _)
  | drop idle name => exact stays (get?_settledTasks found)
  | renew => cases gives

/-- Who runs, and is neither finished nor has to wait, takes a step. -/
theorem Run.goes_on (run : Run p) {n : Nat} (running : (run.state n).running = some i)
    (found : (run.state n).tasks[i]? = some t) (unfinished : ∀ r, t ≠ ⟨.reply, .give (k := .reply) r, .nil⟩)
    (line : ∀ b below, t ≠ ⟨.answer, .line b, below⟩) (awaits : ∀ ts below, t ≠ ⟨.reply, .await ts, below⟩) :
    (run.state (n + 1)).world = ((run.state n).put i
        (t.step ⟨p, (run.state n).held, (run.state n).tasks.length⟩ (run.state n).world)).world ∧
      (run.state (n + 1)).tasks[i]? =
        some (t.step ⟨p, (run.state n).held, (run.state n).tasks.length⟩ (run.state n).world).task := by
  have open' : t.reply? = none := by
    by_contra replied
    obtain ⟨r, rfl⟩ := Task.eq_of_reply replied
    exact unfinished r rfl
  cases run.follows found open' with
  | stays _ halts =>
    rcases halts running i t running found with ⟨r, rfl⟩ | ⟨b, above, rfl, -⟩ | ⟨ts, above, rfl⟩
    · exact absurd rfl (unfinished r)
    · exact absurd rfl (line b above)
    · exact absurd rfl (awaits ts above)
  | step st _ takes world found' =>
    cases takes with
    | step => exact ⟨world, found'⟩
    | joined => exact absurd rfl (awaits _ _)

end System

end Injector
