import Injector.Proofs.Provenance
/-!
# What asks for a key

A task asks for a key in a few steps only (`Task.asks_step`): a job asks for what its next slot needs, an operation for
an instance or to have one shown to a hook, a conversion for the instance that it converts. What was asked for lines up
to be built in one step only. All other steps lead to tasks that do neither (`Task.Unasking`).
-/
namespace Injector

/-- Whether a task neither asks for a key nor lines up to build one. -/
def Task.Unasking : Task → Prop
  | ⟨_, .resolve _, _⟩ | ⟨_, .line _, _⟩ => False
  | _ => True

instance : DecidablePred Task.Unasking
  | ⟨_, .resolve _, _⟩ | ⟨_, .line _, _⟩ => isFalse id
  | ⟨_, .fill _, _⟩ | ⟨_, .pause _ _, _⟩ | ⟨_, .perform _ _, _⟩ | ⟨_, .windDown _ _, _⟩ | ⟨_, .await _, _⟩
  | ⟨_, .give _, _⟩ => isTrue trivial

/-- How a step leads to a task that asks for a key or lines up to build one. -/
inductive Task.Asks (env : Env) (w : World) : Task → Task → Prop
  | line {r : Request} {below : Stack .answer} {b : Build} (leads : r.Leads w b) :
    Asks env w ⟨.answer, .resolve r, below⟩ ⟨.answer, .line b, below⟩
  /-- A slot needs the instance of a key. -/
  | slot {j : Job} {below : Stack .answer} {slot : Slot} {rest : List Slot} {key : Key} (todo : j.todo = slot :: rest)
    (asks : slot.extractor.asks (w.bound j.frame.container) = some key) :
    Asks env w ⟨.answer, .fill j, below⟩
      ⟨.answer, .resolve (j.request env.program slot key), .cons (.slot (j.atSlot slot) key) below⟩
  /-- A build converts the instance of another key. -/
  | convert {b : Build} {below : Stack .answer} {product : Product} {input : Ty} {target : Key}
    (maker : b.maker = some (.chained product input target)) :
    Asks env w ⟨.answer, .line b, below⟩
      ⟨.answer, .resolve { container := b.container, key := target, path := b.path },
        .cons (.convert product input) (.cons (.build b) below)⟩
  | get {s : Scene} {h : Heading} {expected : Option Ty} {key : Key} {autowired : Bool} {save : Option String}
    {below : Stack .reply} {c : ContainerId} (target : w.target s.self h.target = some c) :
    Asks env w ⟨.reply, .perform s (.lasting h (.get expected key autowired save)), below⟩
      ⟨.answer, .resolve { container := c, key, path := s.path
                           fallback := if autowired then key.plainType?.map env.program.injectable else none },
        .cons (.deliver c expected save) below⟩
  /-- A hook is to be shown the instance of a key that is resolved. -/
  | observe {s : Scene} {h : Heading} {t : Ty} {key : Key} {script : Script Command} {below : Stack .reply}
    {c : ContainerId} (target : w.target s.self h.target = some c) :
    Asks env w ⟨.reply, .perform s (.lasting h (.onResolved t key script)), below⟩
      ⟨.answer, .resolve { container := c, key := w.unalias (w.chain c) key, path := s.path },
        .cons (.observe c) below⟩

namespace Step

variable {w : World} {env : Env}

/-- Whether a step leads to a task that neither asks for a key nor lines up to build one. -/
def Unasking (st : Step) : Prop := st.task.Unasking

theorem unasking_filled (j : Job) (r : Except Failure (Filled × Frame)) (below : Stack .answer) :
    (filled w j r below).Unasking := by
  cases r <;> trivial

theorem unasking_conclude (j : Job) (below : Stack .answer) : (conclude w j below).Unasking := by
  unfold conclude
  dsimp only
  split <;> trivial

theorem unasking_body (j : Job) (ops : List Op) (below : Stack .answer) : (body w j ops below).Unasking := by
  cases ops with
  | nil => exact unasking_conclude j below
  | cons => trivial

theorem unasking_start (j : Job) (below : Stack .answer) : (start env w j below).Unasking := by
  unfold start
  split
  · exact unasking_body j _ below
  all_goals
    split
    · trivial
    · exact unasking_conclude j below

theorem unasking_callback (path : List Key) (ops : List Op) (ts : List Teardown) (below : Stack .done) :
    (callback w path ops ts below).Unasking := by
  cases ops <;> trivial

theorem unasking_windDown (path : List Key) (ts : List Teardown) (below : Stack .done) :
    (windDown w path ts below).Unasking := by
  unfold windDown
  split
  · trivial
  · exact unasking_callback path _ _ below
  · split
    · exact unasking_callback path _ _ below
    · trivial

theorem unasking_scopeBody (scope : ContainerId) (name : String) (path : List Key) (ops : List Op) (below : Stack .reply) :
    (scopeBody w scope name path ops below).Unasking := by
  cases ops <;> trivial

theorem unasking_answered {b : Kind} (answer : Except Failure Instance) (c : Cont .answer b) (below : Stack b) :
    (answered env w answer c below).Unasking := by
  cases c with
  | slot j key =>
    change (slot w j key answer below).Unasking
    unfold slot
    split
    · trivial
    · exact unasking_filled _ _ _
  | build b => cases answer <;> trivial
  | convert product input =>
    change (convert w product input answer below).Unasking
    unfold convert
    split <;> trivial
  | deliver c expected save =>
    change (deliver w expected save answer below).Unasking
    unfold deliver
    split <;> trivial
  | observe => trivial

theorem unasking_replied {b : Kind} (r : Reply) (c : Cont .reply b) (below : Stack b) :
    (replied w r c below).Unasking := by
  cases c with
  | body j h rest =>
    unfold replied
    dsimp only
    split
    · trivial
    · exact unasking_body _ _ _
  | scopeBody scope name path h rest =>
    unfold replied
    dsimp only
    split
    · trivial
    · exact unasking_scopeBody _ _ _ _ _
  | callback path h rest ts =>
    unfold replied
    dsimp only
    split
    · trivial
    · exact unasking_callback _ _ _ _

theorem unasking_handOver {k : Kind} (outcome : k.Outcome) (below : Stack k) :
    (handOver env w outcome below).Unasking := by
  cases below with
  | nil => trivial
  | cons c below =>
    cases k with
    | answer => exact unasking_answered outcome c below
    | reply => exact unasking_replied outcome c below
    | done =>
      cases c
      trivial

/-! ## Steps that ask -/

/-- Whether a step of `t` asks, or leads to a task that does not. -/
def AsksOrNot (env : Env) (w : World) (t : Task) (st : Step) : Prop := st.Unasking ∨ Task.Asks env w t st.task

theorem asks_resolve (env : Env) (w : World) (r : Request) (below : Stack .answer) :
    AsksOrNot env w ⟨.answer, .resolve r, below⟩ (resolve w r below) := by
  unfold resolve
  split
  · exact .inl trivial
  · exact .inl trivial
  · next c key β located =>
    split
    · exact .inl trivial
    · exact .inr (.line ⟨⟨β, located, rfl⟩, rfl⟩)

theorem asks_fill (env : Env) (w : World) (j : Job) (below : Stack .answer) :
    AsksOrNot env w ⟨.answer, .fill j, below⟩ (fill env w j below) := by
  have goes := fill_cases env w j below
  generalize fill env w j below = st at goes ⊢
  cases goes with
  | calls => exact .inl trivial
  | asks todo asks => exact .inr (.slot todo asks)
  | fills => exact .inl (unasking_filled _ _ _)

theorem asks_build (env : Env) (w w' : World) (b : Build) (below : Stack .answer) :
    AsksOrNot env w ⟨.answer, .line b, below⟩ (build w' b below) := by
  unfold build
  split
  · exact .inl trivial
  · split
    · exact .inl trivial
    · next maker => exact .inr (.convert maker)
    · exact .inl trivial

theorem asks_lasting (env : Env) (w : World) (s : Scene) (h : Heading) {c : ContainerId}
    (target : w.target s.self h.target = some c) (a : Lasting Command Op) (below : Stack .reply) :
    AsksOrNot env w ⟨.reply, .perform s (.lasting h a), below⟩ (lasting env w s c a below) := by
  cases a with
  | get => exact .inr (.get target)
  | call =>
    unfold lasting
    dsimp only
    split <;> exact .inl trivial
  | onResolved =>
    unfold lasting
    dsimp only
    split
    · split
      · exact .inl trivial
      · exact .inr (.observe target)
    · exact .inl trivial
  | terminate | join => exact .inl trivial
  | scope => exact .inl (unasking_scopeBody _ _ _ _ _)

theorem asks_perform (env : Env) (w : World) (s : Scene) (o : Op) (below : Stack .reply) :
    AsksOrNot env w ⟨.reply, .perform s o, below⟩ (perform env w s o below) := by
  cases o with
  | instant => exact .inl trivial
  | lasting h a =>
    unfold perform
    dsimp only
    split
    · next target => exact asks_lasting env w s h target a below
    · exact .inl trivial

end Step

/-- A task asks for a key, and lines up to build one, in these steps only. -/
theorem Task.asks_step (env : Env) (w : World) (t : Task) :
    (t.step env w).task.Unasking ∨ Task.Asks env w t (t.step env w).task := by
  obtain ⟨k, a, below⟩ := t
  cases a with
  | resolve r => exact Step.asks_resolve env w r below
  | fill j => exact Step.asks_fill env w j below
  | line b => exact Step.asks_build env w _ b below
  | perform s o => exact Step.asks_perform env w s o below
  | pause j times =>
    cases times with
    | zero => exact .inl (Step.unasking_start j below)
    | succ => exact .inl trivial
  | windDown path ts => exact .inl (Step.unasking_windDown path ts below)
  | await => exact .inl trivial
  | give outcome => exact .inl (Step.unasking_handOver outcome below)

/-! ## Where requests come from -/

theorem Task.of_line {t : Task} {b : Build} (h : t.line? = some b) : ∃ below, t = ⟨.answer, .line b, below⟩ := by
  obtain ⟨k, a, below⟩ := t
  cases a with
  | line b' =>
    obtain rfl := Option.some.inj h
    exact ⟨below, rfl⟩
  | resolve | fill | pause | perform | windDown | await | give => cases h

/-- What is in line or in progress after a step was so before, or has just lined up. -/
theorem Task.Does.line_or_locked {p : Program} {held : List ContainerId} {w : World} {t : Task} {st : Step}
    (h : t.Does p held w st) {b : Build} (hb : b ∈ st.task.locked) : b ∈ t.locked ∨ st.task.line? = some b := by
  rcases List.mem_append.1 hb with line | hb
  · exact .inr (Option.mem_toList.1 line)
  have same : st.task.builds = t.builds → b ∈ t.locked := fun e => List.mem_append_right _ (e ▸ hb)
  refine .inl ?_
  cases h with
  | begins b' before _ _ _ _ builds =>
    rw [builds] at hb
    rcases List.mem_cons.1 hb with rfl | hb
    · exact List.mem_append_left _ (Option.mem_toList.2 before)
    · exact List.mem_append_right _ hb
  | aborts _ _ _ _ builds | completes _ _ _ _ _ _ _ _ builds =>
    exact List.mem_append_right _ (builds ▸ List.mem_cons_of_mem _ hb)
  | calm _ _ _ builds | makes _ _ _ _ _ _ _ builds | linesUp _ _ _ _ _ _ builds | skips _ _ _ _ _ builds
  | terminates _ _ _ _ _ _ _ _ _ builds | finalizes _ _ _ _ _ builds | passes _ _ _ _ _ builds => exact same builds

namespace System

variable {p : Program} {s s' : System}

/-- Where the tasks after a move come from: a task is as before, has taken a step, or is new. -/
theorem Moves.mem_tasks (h : Reachable p s) (moves : s.Moves p s') {u : Task} (hu : u ∈ s'.tasks) : u ∈ s.tasks ∨
    (∃ i t st, s.running = some i ∧ s.tasks[i]? = some t ∧ s.Takes p i t st ∧ u = st.task) ∨
    (∃ s₀ o, u = .ofOp s₀ o) ∨ ∃ ts, u = .ofTeardowns ts := by
  have settled : ∀ {w ts}, u ∈ settledTasks w ts → u ∈ ts ∨ ∃ ts, u = .ofTeardowns ts := by
    intro w ts hu
    rcases List.mem_append.1 hu with hu | hu
    · exact .inl hu
    · obtain ⟨left, -, rfl⟩ := List.mem_map.1 hu
      exact .inr ⟨left, rfl⟩
  rcases moves.cases with ⟨i, t, st, running, found, takes, -, tasks⟩ | ⟨-, -, tasks⟩ | ⟨-, outside⟩
  · rw [tasks, tasks_put] at hu
    rcases settled hu with hu | ended
    · rcases List.mem_append.1 hu with hu | hu
      · rcases List.mem_or_eq_of_mem_set hu with hu | rfl
        · exact .inl hu
        · exact .inr (.inl ⟨i, t, st, running, found, takes, rfl⟩)
      · obtain ⟨s₀, o, rfl, -⟩ := (takes.does_of_reachable h found).2.started u hu
        exact .inr (.inr (.inl ⟨s₀, o, rfl⟩))
    · exact .inr (.inr (.inr ended))
  · exact .inl (tasks ▸ hu)
  · rcases outside with ⟨o, -, tasks⟩ | ⟨name, rfl⟩ | ⟨-, rfl⟩
    · rw [tasks, tasks_release] at hu
      rcases List.mem_append.1 hu with hu | hu
      · exact (settled hu).imp id fun ended => .inr (.inr ended)
      · exact .inr (.inr (.inl ⟨{}, o, List.mem_singleton.1 hu⟩))
    · exact (settled hu).imp id fun ended => .inr (.inr ended)
    · cases hu

variable {n : Nat}

theorem Run.tasks_zero (run : Run p) : (run.state 0).tasks = [] := by
  obtain ⟨name, start⟩ := run.start
  rw [start]
  rfl

/-- Where a task that asks for a key, or lines up to build one, comes from. -/
theorem Run.asked_before (run : Run p) {u : Task} (hu : u ∈ (run.state n).tasks) (asks : ¬ u.Unasking) :
    ∃ m < n, ∃ t ∈ (run.state m).tasks, ∃ env : Env, env.program = p ∧ Task.Asks env (run.state m).world t u := by
  induction n with
  | zero => exact absurd hu (run.tasks_zero ▸ List.not_mem_nil)
  | succ n ih =>
    have before : u ∈ (run.state n).tasks → ∃ m < n + 1, ∃ t ∈ (run.state m).tasks, ∃ env : Env, env.program = p ∧
        Task.Asks env (run.state m).world t u := fun hu =>
      let ⟨m, earlier, asked⟩ := ih hu
      ⟨m, Nat.lt_succ_of_lt earlier, asked⟩
    rcases run.moves n with moves | ⟨-, same⟩
    · rcases moves.mem_tasks (run.reachable n) hu with hu | ⟨i, t, st, -, found, takes, rfl⟩ | ⟨s₀, o, rfl⟩ | ⟨ts, rfl⟩
      · exact before hu
      · cases takes with
        | step =>
          have goes := (Task.asks_step ⟨p, (run.state n).held, (run.state n).tasks.length⟩ (run.state n).world t).resolve_left asks
          exact ⟨n, Nat.lt_succ_self n, t, List.mem_of_getElem? found, _, rfl, goes⟩
        | joined => exact absurd trivial asks
      · exact absurd trivial asks
      · exact absurd trivial asks
    · exact before (same ▸ hu)

/-- What is in line or in progress was lined up for a request. -/
theorem Run.lined_up (run : Run p) {t : Task} {b : Build} (ht : t ∈ (run.state n).tasks) (hb : b ∈ t.locked) :
    ∃ m < n, ∃ r, ∃ below : Stack .answer, ⟨.answer, .resolve r, below⟩ ∈ (run.state m).tasks ∧
      r.Leads (run.state m).world b := by
  induction n generalizing t with
  | zero => exact absurd ht (run.tasks_zero ▸ List.not_mem_nil)
  | succ n ih =>
    have before : ∀ t ∈ (run.state n).tasks, b ∈ t.locked → ∃ m < n + 1, ∃ r, ∃ below : Stack .answer,
        ⟨.answer, .resolve r, below⟩ ∈ (run.state m).tasks ∧ r.Leads (run.state m).world b := fun t ht hb =>
      let ⟨m, earlier, asked⟩ := ih ht hb
      ⟨m, Nat.lt_succ_of_lt earlier, asked⟩
    rcases (run.change n).mem_tasks ht with old | ⟨i, t', st, -, found, does, rfl⟩ | ⟨s₀, o, rfl⟩ | ⟨ts, rfl⟩
    · exact before t old hb
    · rcases does.line_or_locked hb with hb | line
      · exact before t' (List.mem_of_getElem? found) hb
      · obtain ⟨below, same⟩ := Task.of_line line
        rw [same] at ht
        obtain ⟨m, earlier, t₀, ht₀, env, -, asks⟩ := run.asked_before ht id
        cases asks with
        | line leads => exact ⟨m, earlier, _, below, ht₀, leads⟩
    · cases hb
    · cases hb

end System

end Injector
