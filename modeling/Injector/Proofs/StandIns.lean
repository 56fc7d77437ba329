import Injector.Proofs.Jobs
/-!
# One job instead of another

A task does not see what waits for its outcome: what it does is the same on top of two bases
(`Task.step_atop`). So the task of one job can stand in for the task of another one, as long as the slots of
both are filled alike (`Job.Mirrors`): all the other tasks, the world and whose turn it is stay the same, move
by move, until the parameters are filled or one fails (`System.Run.shadowed`).
-/
namespace Injector

/-! ## The same on top of two bases -/

/-- The same waits on top of `base` and of `base'`. -/
inductive Stack.Atop {a : Kind} (base base' : Stack a) : {k : Kind} → Stack k → Stack k → Prop
  | base : Atop base base' base base'
  | cons {k k' : Kind} (c : Cont k k') {above above' : Stack k'} (atop : Atop base base' above above') :
    Atop base base' (.cons c above) (.cons c above')

/-- The same is done on top of `base` and of `base'`. -/
inductive Task.Atop {a : Kind} (base base' : Stack a) : Task → Task → Prop
  | mk {k : Kind} (activity : Activity k) {above above' : Stack k} (atop : base.Atop base' above above') :
    Atop base base' ⟨k, activity, above⟩ ⟨k, activity, above'⟩

/-- Two steps do the same to the world, and on top of `base` and of `base'`. -/
structure Step.Atop {a : Kind} (base base' : Stack a) (st st' : Step) : Prop where
  world : st'.world = st.world
  started : st'.started = st.started
  task : Task.Atop base base' st.task st'.task

namespace Stack.Atop

variable {a b k : Kind} {base base' : Stack a} {middle middle' : Stack b} {above above' : Stack k}

theorem trans (h : base.Atop base' middle middle') (h' : middle.Atop middle' above above') : base.Atop base' above above' := by
  induction h' with
  | base => exact h
  | cons c _ ih => exact .cons c ih

theorem on (h : base.Atop base' above above') : base.On above := by
  induction h with
  | base => exact .base
  | cons c _ ih => exact .cons c ih

theorem symm (h : base.Atop base' above above') : base'.Atop base above' above := by
  induction h with
  | base => exact .base
  | cons c _ ih => exact .cons c ih

theorem held (h : base.Atop base' above above') (same : base'.held = base.held) : above'.held = above.held := by
  induction h with
  | base => exact same
  | cons c _ ih => exact congrArg (c.held ++ ·) ih

end Stack.Atop

theorem Task.Atop.over {a b : Kind} {base base' : Stack a} {above above' : Stack b} {t t' : Task}
    (h : Task.Atop above above' t t') (atop : base.Atop base' above above') : Task.Atop base base' t t' := by
  cases h with
  | mk activity atop' => exact .mk activity (atop.trans atop')

/-- What a step does on top of something, it does on top of the bases of that. -/
theorem Step.Atop.over {a b : Kind} {base base' : Stack a} {above above' : Stack b} {st st' : Step}
    (h : Step.Atop above above' st st') (atop : base.Atop base' above above') : Step.Atop base base' st st' :=
  ⟨h.world, h.started, h.task.over atop⟩

namespace Step

variable {w : World} {env : Env}

theorem atop_next {k : Kind} (a : Activity k) (below below' : Stack k) : Atop below below' (next w a below) (next w a below') :=
  ⟨rfl, rfl, .mk a .base⟩

theorem atop_push {k k' : Kind} (a : Activity k) (c : Cont k k') (below below' : Stack k') :
    Atop below below' (next w a (.cons c below)) (next w a (.cons c below')) :=
  ⟨rfl, rfl, .mk a (.cons c .base)⟩

theorem atop_filled (j : Job) (r : Except Failure (Filled × Frame)) (below below' : Stack .answer) :
    Atop below below' (filled w j r below) (filled w j r below') := by
  cases r <;> exact atop_next _ below below'

theorem atop_conclude (j : Job) (below below' : Stack .answer) :
    Atop below below' (conclude w j below) (conclude w j below') := by
  unfold conclude
  dsimp only
  split <;> exact atop_next _ below below'

theorem atop_body (j : Job) (ops : List Op) (below below' : Stack .answer) :
    Atop below below' (body w j ops below) (body w j ops below') := by
  cases ops with
  | nil => exact atop_conclude j below below'
  | cons => exact atop_push _ _ below below'

theorem atop_callback (path : List Key) (ops : List Op) (ts : List Teardown) (below below' : Stack .done) :
    Atop below below' (callback w path ops ts below) (callback w path ops ts below') := by
  cases ops with
  | nil => exact atop_next _ below below'
  | cons => exact atop_push _ _ below below'

theorem atop_scopeBody (scope : ContainerId) (name : String) (path : List Key) (ops : List Op) (below below' : Stack .reply) :
    Atop below below' (scopeBody w scope name path ops below) (scopeBody w scope name path ops below') := by
  cases ops <;> exact atop_push _ _ below below'

theorem atop_resolve (r : Request) (below below' : Stack .answer) :
    Atop below below' (resolve w r below) (resolve w r below') := by
  unfold resolve
  split
  · exact atop_next _ below below'
  · exact atop_next _ below below'
  · split <;> exact atop_next _ below below'

theorem atop_build (b : Build) (below below' : Stack .answer) : Atop below below' (build w b below) (build w b below') := by
  unfold build
  split
  · exact atop_next _ below below'
  · split
    · exact atop_push _ _ below below'
    · exact ⟨rfl, rfl, .mk _ (.cons _ (.cons _ .base))⟩
    · exact atop_next _ below below'

theorem atop_fill (j : Job) (below below' : Stack .answer) : Atop below below' (fill env w j below) (fill env w j below') := by
  unfold fill
  split
  · exact atop_next _ below below'
  · dsimp only
    split
    · exact atop_push _ _ below below'
    · split <;> exact atop_filled j _ below below'

theorem atop_start (j : Job) (below below' : Stack .answer) :
    Atop below below' (start env w j below) (start env w j below') := by
  unfold start
  split
  · exact atop_body j _ below below'
  all_goals
    split
    · exact atop_next _ below below'
    · exact atop_conclude j below below'

theorem atop_windDown (path : List Key) (ts : List Teardown) (below below' : Stack .done) :
    Atop below below' (windDown w path ts below) (windDown w path ts below') := by
  unfold windDown
  split
  · exact atop_next _ below below'
  · exact atop_callback path _ _ below below'
  · split
    · exact atop_callback path _ _ below below'
    · exact atop_next _ below below'

theorem atop_lasting (s : Scene) (c : ContainerId) (a : Lasting Command Op) (below below' : Stack .reply) :
    Atop below below' (lasting env w s c a below) (lasting env w s c a below') := by
  unfold lasting
  split
  · exact atop_push _ _ below below'
  · split
    · exact atop_push _ _ below below'
    · exact atop_next _ below below'
  · dsimp only
    split
    · split
      · exact atop_next _ below below'
      · exact atop_push _ _ below below'
    · exact atop_next _ below below'
  · exact atop_push _ _ below below'
  · exact atop_scopeBody _ _ _ _ below below'
  · exact ⟨rfl, rfl, .mk _ .base⟩

theorem atop_perform (s : Scene) (o : Op) (below below' : Stack .reply) :
    Atop below below' (perform env w s o below) (perform env w s o below') := by
  cases o with
  | instant => exact atop_next _ below below'
  | lasting h a =>
    unfold perform
    dsimp only
    split
    · exact atop_lasting s _ a below below'
    · exact atop_next _ below below'

theorem atop_answered {b : Kind} (answer : Except Failure Instance) (c : Cont .answer b) (below below' : Stack b) :
    Atop below below' (answered env w answer c below) (answered env w answer c below') := by
  cases c with
  | slot j key =>
    change Atop below below' (slot w j key answer below) (slot w j key answer below')
    unfold slot
    split
    · exact atop_next _ below below'
    · exact atop_filled j _ below below'
  | build b => cases answer <;> exact atop_next _ below below'
  | convert product input =>
    change Atop below below' (convert w product input answer below) (convert w product input answer below')
    unfold convert
    split <;> exact atop_next _ below below'
  | deliver c expected save =>
    change Atop below below' (deliver w expected save answer below) (deliver w expected save answer below')
    unfold deliver
    split <;> exact atop_next _ below below'
  | observe => exact atop_next _ below below'

theorem atop_replied {b : Kind} (r : Reply) (c : Cont .reply b) (below below' : Stack b) :
    Atop below below' (replied w r c below) (replied w r c below') := by
  cases c with
  | body j h rest =>
    unfold replied
    dsimp only
    split
    · exact atop_next _ below below'
    · exact atop_body j rest below below'
  | scopeBody scope name path h rest =>
    unfold replied
    dsimp only
    split
    · exact atop_push _ _ below below'
    · exact atop_scopeBody scope name path rest below below'
  | callback path h rest ts =>
    unfold replied
    dsimp only
    split
    · exact atop_next _ below below'
    · exact atop_callback path rest ts below below'

theorem atop_handOver {a b : Kind} (outcome : a.Outcome) (c : Cont a b) (below below' : Stack b) :
    Atop below below' (handOver env w outcome (.cons c below)) (handOver env w outcome (.cons c below')) := by
  cases a with
  | answer => exact atop_answered outcome c below below'
  | reply => exact atop_replied outcome c below below'
  | done =>
    cases c
    exact atop_next _ below below'

end Step

/-- What a task does is the same on top of two bases, until it hands an outcome over to these. -/
theorem Task.step_atop {a : Kind} {base base' : Stack a} {w : World} {env : Env} {t t' : Task} (h : Task.Atop base base' t t')
    (busy : ∀ outcome : a.Outcome, t ≠ ⟨a, .give outcome, base⟩) :
    Step.Atop base base' (t.step env w) (t'.step env w) := by
  obtain ⟨activity, atop⟩ := h
  rename_i k above above'
  cases activity with
  | resolve r => exact (Step.atop_resolve r above above').over atop
  | line b => exact (Step.atop_build b above above').over atop
  | fill j => exact (Step.atop_fill j above above').over atop
  | pause j times =>
    cases times with
    | zero => exact (Step.atop_start j above above').over atop
    | succ times => exact (Step.atop_next (.pause j times) above above').over atop
  | perform s o => exact (Step.atop_perform s o above above').over atop
  | windDown path ts => exact (Step.atop_windDown path ts above above').over atop
  | await tasks => exact (Step.atop_next (.await tasks) above above').over atop
  | give outcome =>
    cases atop with
    | base => exact absurd rfl (busy outcome)
    | cons c atop => exact (Step.atop_handOver outcome c _ _).over atop

/-! ## One task instead of another -/

/-- Whether a task need not wait, where `mayStart` tells which builds may start and `finished` which tasks are over. -/
def Task.readyBy (mayStart : Build → Bool) (finished : List Nat → Bool) : Task → Bool
  | ⟨_, .line b, _⟩ => mayStart b
  | ⟨_, .await tasks, _⟩ => finished tasks
  | _ => true

/-- Whether `t'` can be in the place of task `t`, as far as others can see: it works with the same containers, and is as
finished and as ready. -/
structure Task.Passes (t t' : Task) : Prop where
  held : t'.held = t.held
  reply : t'.reply? = t.reply?
  ready : ∀ mayStart finished, t'.readyBy mayStart finished = t.readyBy mayStart finished

namespace System

/-- The system with `t` in the place of task `i`. -/
def instead (s : System) (i : Nat) (t : Task) : System := { s with tasks := s.tasks.set i t }

variable {p : Program} {s : System} {i : Nat} {t t' : Task}

theorem get?_instead (found : s.tasks[i]? = some t) (t' : Task) : (s.instead i t').tasks[i]? = some t' :=
  List.getElem?_set_self (List.getElem?_eq_some_iff.1 found).1

theorem get?_instead_of_ne {k : Nat} (ne : i ≠ k) (t' : Task) : (s.instead i t').tasks[k]? = s.tasks[k]? :=
  List.getElem?_set_ne ne

theorem held_instead (found : s.tasks[i]? = some t) (held : t'.held = t.held) : (s.instead i t').held = s.held := by
  obtain ⟨within, rfl⟩ := List.getElem?_eq_some_iff.1 found
  rw [System.held, System.held, instead, List.flatMap_def, List.flatMap_def, List.map_set, held,
    ← List.getElem_map Task.held (h := by rwa [List.length_map]), List.set_getElem_self]

theorem replies_instead (found : s.tasks[i]? = some t) (reply : t'.reply? = t.reply?) (tasks : List Nat) :
    (s.instead i t').replies tasks = s.replies tasks := by
  unfold System.replies
  congr 1
  funext k
  by_cases ne : i = k
  · subst ne
    rw [get?_instead found, found]
    exact reply
  · rw [get?_instead_of_ne ne]

theorem start_instead (found : s.tasks[i]? = some t) (ts : List Task) :
    (s.instead i t').start ts = (s.start ts).instead i t' := by
  have within := (List.getElem?_eq_some_iff.1 found).1
  simp only [System.start, instead, List.set_append_left _ _ within, List.length_set]

/-- The end of containers does not depend on which task works with those that stay. -/
theorem release_instead (found : s.tasks[i]? = some t) (held : t'.held = t.held) :
    (s.instead i t').release = s.release.instead i t' := by
  rw [System.release, held_instead found held]
  exact start_instead (s := { s with world := { s.world.release s.held with orphans := [] } }) found _

/-- What another task does. -/
theorem put_instead_of_ne {k : Nat} (ne : i ≠ k) (found : s.tasks[i]? = some t) (held : t'.held = t.held) (st : Step) :
    (s.instead i t').put k st = (s.put k st).instead i t' := by
  have found' : (s.tasks.set k st.task)[i]? = some t := (List.getElem?_set_ne (Ne.symm ne)).trans found
  unfold System.put
  rw [← release_instead (t := t) (get?_append found' _) held, ← start_instead (t := t) found']
  simp only [instead, List.set_comm _ _ ne]

/-- What task `i` does. -/
theorem put_instead {st st' : Step} (found : s.tasks[i]? = some t) (world : st'.world = st.world)
    (started : st'.started = st.started) (held : st'.task.held = st.task.held) :
    (s.instead i t').put i st' = (s.put i st).instead i st'.task := by
  have found' : (s.tasks.set i st.task)[i]? = some st.task :=
    List.getElem?_set_self (List.getElem?_eq_some_iff.1 found).1
  unfold System.put
  rw [← release_instead (t := st.task) (get?_append found' _) held, ← start_instead (t := st.task) found', world, started]
  simp only [instead, List.set_set]

theorem ready_eq (s : System) (k : Nat) : s.ready k =
    (s.tasks[k]?.map (Task.readyBy s.world.mayStart fun tasks => (s.replies tasks).isSome)).getD false := by
  unfold System.ready
  cases s.tasks[k]? with
  | none => rfl
  | some t =>
    obtain ⟨kind, activity, above⟩ := t
    cases activity <;> rfl

theorem ready_instead (found : s.tasks[i]? = some t) (passes : t.Passes t') (k : Nat) :
    (s.instead i t').ready k = s.ready k := by
  have replies : (s.instead i t').replies = s.replies := funext (replies_instead found passes.reply)
  rw [ready_eq, ready_eq, replies]
  by_cases ne : i = k
  · subst ne
    rw [get?_instead found, found]
    exact passes.ready _ _
  · rw [get?_instead_of_ne ne]
    rfl

/-- Whatever another task does, it does not see which task is in place `i`. -/
theorem run_instead_of_ne {k : Nat} {u : Task} (ne : i ≠ k) (found : s.tasks[i]? = some t) (passes : t.Passes t') :
    (s.instead i t').run p k u = (s.run p k u).instead i t' := by
  have env : (⟨p, (s.instead i t').held, (s.instead i t').tasks.length⟩ : Env) = ⟨p, s.held, s.tasks.length⟩ := by
    rw [held_instead found passes.held, instead, List.length_set]
  unfold System.run
  simp only [env, ready_instead found passes, replies_instead found passes.reply]
  split
  · rfl
  · split
    · exact put_instead_of_ne ne found passes.held _
    · rfl
  · exact congrArg (System.suspend · k) (put_instead_of_ne ne found passes.held _)
  · split
    · exact put_instead_of_ne ne found passes.held _
    · rfl
  · exact put_instead_of_ne ne found passes.held _

end System

/-! ## Jobs that are filled alike -/

/-- How what the next slot of job `j` is filled with compares with that of job `j'`: the jobs stay related, both fail in the
same way, or, if that is allowed, only `j` need fail. -/
inductive Job.Results (R : Job → Job → Prop) (lossy : Prop) (j j' : Job) :
    Except Failure (Filled × Frame) → Except Failure (Filled × Frame) → Prop
  | filled {filled filled' : Filled} {frame frame' : Frame} (related : R (j.fill filled frame) (j'.fill filled' frame')) :
    Results R lossy j j' (.ok (filled, frame)) (.ok (filled', frame'))
  | failed (failure : Failure) : Results R lossy j j' (.error failure) (.error failure)
  | lost (allowed : lossy) (failure : Failure) (r : Except Failure (Filled × Frame)) :
    Results R lossy j j' (.error failure) r

/-- Whether jobs that are related by `R` only differ in their arguments and in what their slots are filled with, and stay
related, slot by slot. -/
structure Job.Mirrors (R : Job → Job → Prop) (lossy : Prop) : Prop where
  own : ∀ {j j'}, R j j' → ∀ slot ∈ j.todo, slot.extractor.parameters ≠ []
  same : ∀ {j j'}, R j j' → j'.function = j.function ∧ j'.todo = j.todo ∧
    j'.frame = { j.frame with arguments := j'.frame.arguments }
  alone : ∀ {j j' slot rest} {bound : Key → Bool}, R j j' → j.todo = slot :: rest → slot.extractor.asks bound = none →
    Job.Results R lossy j j' ((j.atSlot slot).frame.fillAlone slot.extractor) ((j'.atSlot slot).frame.fillAlone slot.extractor)
  answered : ∀ {j j' slot rest key} {bound : Key → Bool} (a : Except Failure Instance), R j j' → j.todo = slot :: rest →
    slot.extractor.asks bound = some key → Job.Results R lossy j j' ((j.atSlot slot).frame.fillWith key a slot.extractor)
      ((j'.atSlot slot).frame.fillWith key a slot.extractor)

/-- Where the tasks of two related jobs are, on what waits for their outcome. -/
inductive Job.Tasks (R : Job → Job → Prop) (below : Stack .answer) : Task → Task → Prop
  | fill {j j' : Job} (related : R j j') : Tasks R below ⟨.answer, .fill j, below⟩ ⟨.answer, .fill j', below⟩
  /-- Both wait for what the same slot asked for. -/
  | asks {j j' : Job} {slot : Slot} {rest : List Slot} {key : Key} {bound : Key → Bool} {t t' : Task} (related : R j j')
    (todo : j.todo = slot :: rest) (asks : slot.extractor.asks bound = some key)
    (atop : Task.Atop (.cons (.slot (j.atSlot slot) key) below) (.cons (.slot (j'.atSlot slot) key) below) t t') :
    Tasks R below t t'
  | filled {j j' : Job} (related : R j j') (done : j.todo = []) :
    Tasks R below ⟨.answer, .pause j j.function.suspensions, below⟩ ⟨.answer, .pause j' j.function.suspensions, below⟩
  | failed (failure : Failure) : Tasks R below ⟨.answer, .give (k := .answer) (.error failure), below⟩
      ⟨.answer, .give (k := .answer) (.error failure), below⟩

/-- Whether the job that a task is at is not all filled yet, and has not failed. -/
def Task.Fills (below : Stack .answer) (t : Task) : Prop :=
  (∀ j times, t ≠ ⟨.answer, .pause j times, below⟩) ∧ ∀ a, t ≠ ⟨.answer, .give (k := .answer) a, below⟩

/-- Who is above something that waits on `below` has no outcome for `below` yet. -/
theorem Task.fills_of_on {kind k : Kind} {activity : Activity kind} {above : Stack kind} {c : Cont k .answer}
    {below : Stack .answer} (on : (Stack.cons c below).On above) : Task.Fills below ⟨kind, activity, above⟩ :=
  ⟨by rintro _ _ ⟨⟩; exact absurd on.height (Nat.not_succ_le_self _),
    by rintro _ ⟨⟩; exact absurd on.height (Nat.not_succ_le_self _)⟩

/-- What becomes of the tasks of two related jobs: they stay at these, or, if that is allowed, the first job fails. -/
def Job.Outcome (R : Job → Job → Prop) (lossy : Prop) (below : Stack .answer) (t t' : Task) : Prop :=
  Job.Tasks R below t t' ∨ lossy ∧ ∃ failure, t = ⟨.answer, .give (k := .answer) (.error failure), below⟩

/-- Two steps that do the same to the world, of tasks of related jobs. -/
structure Job.Steps (R : Job → Job → Prop) (lossy : Prop) (below : Stack .answer) (st st' : Step) : Prop where
  world : st'.world = st.world
  started : st'.started = st.started
  outcome : Job.Outcome R lossy below st.task st'.task

namespace Job

variable {R : Job → Job → Prop} {lossy : Prop} {below : Stack .answer} {j j' : Job} {t t' : Task}

theorem Results.step {r r' : Except Failure (Filled × Frame)} (h : Results R lossy j j' r r') (w : World) :
    Steps R lossy below (.filled w j r below) (.filled w j' r' below) := by
  cases h with
  | filled related => exact ⟨rfl, rfl, .inl (.fill related)⟩
  | failed failure => exact ⟨rfl, rfl, .inl (.failed failure)⟩
  | lost allowed failure =>
    have quiet : (Step.filled w j' r' below).world = w ∧ (Step.filled w j' r' below).started = [] := by
      cases r' <;> exact ⟨rfl, rfl⟩
    exact ⟨quiet.1, quiet.2, .inr ⟨allowed, failure, rfl⟩⟩

namespace Mirrors

/-- Both jobs do the same with their next slot. -/
theorem fill (mirrors : Mirrors R lossy) (related : R j j') (env : Env) (w : World) :
    Steps R lossy below (.fill env w j below) (.fill env w j' below) := by
  obtain ⟨function, slots, frame⟩ := mirrors.same related
  cases todo : j.todo with
  | nil =>
    have filled : ∀ j : Job, j.todo = [] → Step.fill env w j below = .next w (.pause j j.function.suspensions) below :=
      fun j todo => by
        unfold Step.fill
        rw [todo]
    rw [filled j todo, filled j' (slots.trans todo), function]
    exact ⟨rfl, rfl, .inl (.filled related todo)⟩
  | cons slot rest =>
    have own := mirrors.own related slot (todo ▸ List.mem_cons_self)
    have asked : j'.frame.container = j.frame.container := by rw [frame]
    rw [Step.fill_eq env w todo own, Step.fill_eq env w (slots.trans todo) own, asked]
    cases asks : slot.extractor.asks (w.bound j.frame.container) with
    | none => exact (mirrors.alone related todo asks).step w
    | some key =>
      have request : j'.request env.program slot key = j.request env.program slot key := by
        rw [Job.request, Job.request, frame]
      dsimp only
      rw [request]
      exact ⟨rfl, rfl, .inl (.asks related todo asks (.mk _ .base))⟩

/-- What related jobs do as long as they fill slots. -/
theorem step (mirrors : Mirrors R lossy) (h : Tasks R below t t') (fills : t.Fills below) (env : Env) (w : World) :
    Steps R lossy below (t.step env w) (t'.step env w) := by
  cases h with
  | fill related => exact mirrors.fill related env w
  | filled => exact absurd rfl (fills.1 _ _)
  | failed => exact absurd rfl (fills.2 _)
  | @asks j j' slot rest key bound t t' related todo asks atop =>
    by_cases here : ∃ a : Except Failure Instance,
        t = ⟨.answer, .give (k := .answer) a, .cons (.slot (j.atSlot slot) key) below⟩
    · obtain ⟨a, rfl⟩ := here
      obtain ⟨-, slots, -⟩ := mirrors.same related
      cases atop with
      | mk activity atop =>
        cases atop with
        | cons c atop => exact absurd atop.on.height (Nat.not_le.2 (Nat.lt_succ_self _))
        | base =>
          have results := mirrors.answered a related todo asks
          have slot_eq : ∀ j : Job, j.todo = slot :: rest → Task.step env w
              ⟨.answer, .give (k := .answer) a, .cons (.slot (j.atSlot slot) key) below⟩ =
                .filled w j ((j.atSlot slot).frame.fillWith key a slot.extractor) below := fun j todo => by
            change Step.slot w (j.atSlot slot) key a below = _
            unfold Step.slot
            rw [show (j.atSlot slot).todo = slot :: rest from todo]
            dsimp only
            cases (j.atSlot slot).frame.fillWith key a slot.extractor <;> rfl
          rw [slot_eq j todo, slot_eq j' (slots.trans todo)]
          exact results.step w
    · have steps : Step.Atop _ _ (t.step env w) (t'.step env w) := Task.step_atop atop fun a same => here ⟨a, same⟩
      exact ⟨steps.world, steps.started, .inl (.asks related todo asks steps.task)⟩

/-- Nobody else can tell the tasks of related jobs apart. -/
theorem passes (mirrors : Mirrors R lossy) (h : Tasks R below t t') : t.Passes t' := by
  have asked : ∀ {j j'}, R j j' → j'.frame.container = j.frame.container := fun related => by
    rw [(mirrors.same related).2.2]
  cases h with
  | fill related | filled related =>
    refine ⟨?_, rfl, fun _ _ => rfl⟩
    simp only [Task.held, Activity.held, asked related]
  | failed => exact ⟨rfl, rfl, fun _ _ => rfl⟩
  | @asks j j' slot rest key bound t t' related _ _ atop =>
    have waits : (Stack.cons (.slot (j'.atSlot slot) key) below).held = (Stack.cons (.slot (j.atSlot slot) key) below).held := by
      change [j'.frame.container] ++ below.held = [j.frame.container] ++ below.held
      rw [asked related]
    cases atop with
    | mk activity atop =>
      refine ⟨congrArg (activity.held ++ ·) (atop.held waits), ?_, fun _ _ => by cases activity <;> rfl⟩
      rw [Task.reply_of_on atop.on, Task.reply_of_on atop.symm.on]

end Mirrors

end Job

/-- Whether a task neither pauses nor gives an answer with just so much waiting below. -/
def Task.atSlots (height : Nat) : Task → Bool
  | ⟨.answer, .pause _ _, above⟩ | ⟨.answer, .give _, above⟩ => above.height != height
  | _ => true

theorem Task.fills_of_atSlots {below : Stack .answer} {t : Task} (h : t.atSlots below.height = true) : t.Fills below := by
  constructor <;> intros <;> rintro rfl <;> simp [Task.atSlots] at h

namespace System

variable {p : Program} {s s₁ : System} {i : Nat} {t t' : Task} {R : Job → Job → Prop} {lossy : Prop} {below : Stack .answer}

/-- What becomes of two systems that only differ in which of two related jobs task `i` is at. -/
def Mirrored (R : Job → Job → Prop) (lossy : Prop) (below : Stack .answer) (i : Nat) (s s' : System) : Prop :=
  ∃ t t', s.tasks[i]? = some t ∧ Job.Outcome R lossy below t t' ∧ (Job.Tasks R below t t' → s' = s.instead i t')

/-- A step of one of two related jobs. -/
theorem mirrored_put (mirrors : Job.Mirrors R lossy) (found : s.tasks[i]? = some t) {st st' : Step}
    (steps : Job.Steps R lossy below st st') : Mirrored R lossy below i (s.put i st) ((s.instead i t').put i st') :=
  ⟨_, _, get?_put found st, steps.outcome, fun related =>
    put_instead found steps.world steps.started (mirrors.passes related).held⟩

/-- A task that only waits stays where it is. -/
theorem mirrored_suspend (found : s.tasks[i]? = some t) (h : Job.Tasks R below t t') :
    Mirrored R lossy below i (s.suspend i) ((s.instead i t').suspend i) :=
  ⟨t, t', found, .inl h, fun _ => rfl⟩

theorem Mirrored.suspend {s' : System} (h : Mirrored R lossy below i s s') :
    Mirrored R lossy below i (s.suspend i) (s'.suspend i) := by
  obtain ⟨t, t', found, outcome, same⟩ := h
  exact ⟨t, t', found, outcome, fun related => congrArg (System.suspend · i) (same related)⟩

/-- What the task of one of two related jobs does, the task of the other one does in its place. -/
theorem mirrored_run (mirrors : Job.Mirrors R lossy) (found : s.tasks[i]? = some t) (h : Job.Tasks R below t t')
    (fills : t.Fills below) : Mirrored R lossy below i (s.run p i t) ((s.instead i t').run p i t') := by
  have passes := mirrors.passes h
  have env : (⟨p, (s.instead i t').held, (s.instead i t').tasks.length⟩ : Env) = ⟨p, s.held, s.tasks.length⟩ := by
    rw [held_instead found passes.held, instead, List.length_set]
  have steps : Mirrored R lossy below i (s.put i (t.step ⟨p, s.held, s.tasks.length⟩ s.world))
      ((s.instead i t').put i (t'.step ⟨p, s.held, s.tasks.length⟩ s.world)) :=
    mirrored_put mirrors found (mirrors.step h fills _ _)
  unfold System.run
  simp only [env, ready_instead found passes, replies_instead found passes.reply]
  cases h with
  | fill => exact steps
  | filled => exact absurd rfl (fills.1 _ _)
  | failed => exact absurd rfl (fills.2 _)
  | asks related todo asks atop =>
    have h : Job.Tasks R below t t' := .asks related todo asks atop
    cases atop with
    | @mk kind activity above above' atop =>
      cases activity with
      | line b =>
        dsimp only
        split
        · exact steps
        · exact mirrored_suspend found h
      | pause j times =>
        cases times with
        | zero => exact steps
        | succ => exact steps.suspend
      | await tasks =>
        dsimp only
        split
        · exact mirrored_put mirrors found ⟨rfl, rfl, .inl (.asks related todo asks (.mk _ atop))⟩
        · exact mirrored_suspend found h
      | resolve | fill | perform | windDown => exact steps
      | give outcome =>
        cases kind with
        | answer | done => exact steps
        | reply =>
          cases above with
          | nil => exact absurd atop.on.height (Nat.not_succ_le_zero _)
          | cons =>
            cases above' with
            | nil => exact absurd atop.symm.on.height (Nat.not_succ_le_zero _)
            | cons => exact steps

/-- Related jobs have the same moves, whoever goes on. -/
theorem Moves.mirrored (reached : Reachable p s) (moves : s.Moves p s₁) (mirrors : Job.Mirrors R lossy)
    (found : s.tasks[i]? = some t) (h : Job.Tasks R below t t') (fills : t.Fills below) :
    ∃ t₁ t₁', s₁.tasks[i]? = some t₁ ∧ Job.Outcome R lossy below t₁ t₁' ∧
      (Job.Tasks R below t₁ t₁' → (s.instead i t').Moves p (s₁.instead i t₁')) := by
  have passes := mirrors.passes h
  have unfinished : t.reply? = none := by
    cases h with
    | asks _ _ _ atop =>
      cases atop with
      | mk _ atop => exact Task.reply_of_on atop.on
    | fill | filled | failed => rfl
  have stays : ∀ {s₁ : System}, s₁.tasks[i]? = some t → (s.instead i t').Moves p (s₁.instead i t') →
      ∃ t₁ t₁', s₁.tasks[i]? = some t₁ ∧ Job.Outcome R lossy below t₁ t₁' ∧
        (Job.Tasks R below t₁ t₁' → (s.instead i t').Moves p (s₁.instead i t₁')) :=
    fun found moves => ⟨t, t', found, .inl h, fun _ => moves⟩
  cases moves with
  | next next =>
    cases next with
    | @run k u running found' =>
      by_cases ne : i = k
      · subst ne
        obtain rfl := Option.some.inj (found.symm.trans found')
        obtain ⟨t₁, t₁', found₁, outcome, same⟩ := mirrored_run (p := p) mirrors found h fills
        refine ⟨t₁, t₁', found₁, outcome, fun related => ?_⟩
        rw [← same related]
        exact .next (.run running (get?_instead found t'))
      · have other : (s.run p k u).tasks[i]? = some t := by
          cases (Moves.next (.run running found')).follows reached found unfinished with
          | stays found => exact found
          | step _ running' => exact absurd (Option.some.inj (running'.symm.trans running)) ne
        refine stays other ?_
        rw [← run_instead_of_ne ne found passes]
        exact .next (.run running ((get?_instead_of_ne ne t').trans found'))
    | @resume k idle waits ready =>
      exact stays found (.next (.resume idle waits ((ready_instead found passes k).trans ready)))
  | begin idle o =>
    have released : s.release.tasks[i]? = some t := get?_settledTasks found
    refine stays (get?_append released _) ?_
    rw [← start_instead released, ← release_instead found passes.held]
    exact .begin (s := s.instead i t') idle o
  | drop idle name =>
    have released : ({ s with world := s.world.forget name } : System).release.tasks[i]? = some t := get?_settledTasks found
    refine stays released ?_
    rw [← release_instead (s := { s with world := s.world.forget name }) found passes.held]
    exact .drop (s := s.instead i t') idle name
  | renew idle finished =>
    rcases reached.scheduled.known i t found with running | waits | replied
    · rw [idle] at running
      cases running
    · rw [finished] at waits
      cases waits
    · exact absurd unfinished replied

/-- What another task in the place of task `i` does, while a run goes on from move `n` to move `m`: each of its moves is
possible, and leads to what the run comes to, with another task in that place. -/
structure Run.Shadowed (run : Run p) (i n m : Nat) (t : Task) (other : Nat → System) : Prop where
  begins : other n = (run.state n).instead i t
  moves : ∀ k, n ≤ k → k < m → (other k).Moves p (other (k + 1)) ∨ (other k).running = none ∧ other (k + 1) = other k
  same : ∀ k, n ≤ k → k ≤ m → ∃ t, other k = (run.state k).instead i t

/-- Whether the job that task `i` began on `below` in move `n` is at its slots until move `m`. -/
structure Run.FillsUntil (run : Run p) (i : Nat) (below : Stack .answer) (n m : Nat) : Prop where
  since : n ≤ m
  fills : ∀ k, n ≤ k → k < m → ∀ t, (run.state k).tasks[i]? = some t → t.Fills below

theorem Run.FillsUntil.pending {run : Run p} {n m : Nat} (h : run.FillsUntil i below n m) : run.Pending i below n m where
  since := h.since
  waits k since before := by
    rintro ⟨a, found⟩
    exact (h.fills k since before _ found).2 a rfl

theorem Run.fillsUntil_of_atSlots {run : Run p} {n k : Nat}
    (busy : ∀ l < k, ((run.state (n + l)).tasks[i]?).all (Task.atSlots below.height) = true) :
    run.FillsUntil i below n (n + k) where
  since := Nat.le_add_right n k
  fills m since before t found := by
    have here := busy (m - n) (by omega)
    rw [Nat.add_sub_cancel' since, found] at here
    exact Task.fills_of_atSlots here

/-- While a run fills the slots of one of two related jobs, the other one can be in its place, until the slots are filled or
both fail. -/
theorem Run.shadowed (run : Run p) (mirrors : Job.Mirrors R lossy) {n m : Nat} {j j' : Job} (related : R j j')
    (began : (run.state n).tasks[i]? = some ⟨.answer, .fill j, below⟩) (fills : run.FillsUntil i below n m)
    (kept : lossy → ∀ failure, (run.state m).tasks[i]? ≠ some ⟨.answer, .give (k := .answer) (.error failure), below⟩) :
    ∃ other, run.Shadowed i n m ⟨.answer, .fill j', below⟩ other ∧ ∃ t t', (run.state m).tasks[i]? = some t ∧
      Job.Tasks R below t t' ∧ other m = (run.state m).instead i t' := by
  have later := fills.since
  induction later with
  | refl =>
    refine ⟨fun _ => (run.state n).instead i ⟨.answer, .fill j', below⟩,
      ⟨rfl, fun k since before => absurd before (Nat.not_lt.2 since), fun k since before => ?_⟩, _, _, began, .fill related, rfl⟩
    obtain rfl := Nat.le_antisymm since before
    exact ⟨_, rfl⟩
  | @step m later ih =>
    have earlier : run.FillsUntil i below n m := ⟨later, fun k since before => fills.fills k since (Nat.lt_succ_of_lt before)⟩
    have atSlots := fills.fills m later (Nat.lt_succ_self m)
    obtain ⟨other, ⟨begins, moves, same⟩, t, t', found, tasks, here⟩ :=
      ih earlier fun _ failure gives => (atSlots _ gives).2 _ rfl
    obtain ⟨t₁, t₁', found₁, outcome, goes⟩ : ∃ t₁ t₁', (run.state (m + 1)).tasks[i]? = some t₁ ∧
        Job.Outcome R lossy below t₁ t₁' ∧ (Job.Tasks R below t₁ t₁' →
          (other m).Moves p ((run.state (m + 1)).instead i t₁') ∨
            (other m).running = none ∧ (run.state (m + 1)).instead i t₁' = other m) := by
      rw [here]
      rcases run.moves m with moves | ⟨idle, rests⟩
      · obtain ⟨t₁, t₁', found₁, outcome, goes⟩ := moves.mirrored (run.reachable m) mirrors found tasks (atSlots t found)
        exact ⟨t₁, t₁', found₁, outcome, fun related => .inl (goes related)⟩
      · exact ⟨t, t', rests ▸ found, .inl tasks, fun _ => .inr ⟨idle, by rw [rests]⟩⟩
    rcases outcome with tasks₁ | ⟨allowed, failure, lost⟩
    · have old : ∀ k ≤ m, (if k ≤ m then other k else (run.state (m + 1)).instead i t₁') = other k := fun k hk => if_pos hk
      have new : (if m + 1 ≤ m then other (m + 1) else (run.state (m + 1)).instead i t₁') = (run.state (m + 1)).instead i t₁' :=
        if_neg (Nat.not_succ_le_self m)
      refine ⟨fun k => if k ≤ m then other k else (run.state (m + 1)).instead i t₁',
        ⟨(old n later).trans begins, fun k since before => ?_, fun k since before => ?_⟩, t₁, t₁', found₁, tasks₁, new⟩
      · rcases Nat.lt_succ_iff_lt_or_eq.1 before with before | rfl
        · rw [old k (Nat.le_of_lt before), old (k + 1) before]
          exact moves k since before
        · rw [old k (Nat.le_refl k), new]
          exact goes tasks₁
      · rcases Nat.le_succ_iff.1 before with before | rfl
        · rw [old k before]
          exact same k since before
        · exact ⟨t₁', new⟩
    · exact absurd (lost ▸ found₁) (kept allowed failure)

end System

/-! ## Other positional arguments -/

namespace Frame

/-- The frame with other positional arguments left. -/
def withPositional (f : Frame) (vs : List Instance) : Frame :=
  { f with arguments := { f.arguments with positional := vs } }

/-- Named arguments are taken without a look at the positional ones. -/
theorem named_withPositional (f : Frame) (vs : List Instance) :
    ((f.withPositional vs).signature.name? (f.withPositional vs).position).bind (f.withPositional vs).arguments.takeKeyword =
      ((f.signature.name? f.position).bind f.arguments.takeKeyword).map fun x => (x.1, { x.2 with positional := vs }) := by
  rw [Option.map_bind]
  refine congrArg _ (funext fun name => ?_)
  rw [Function.comp_apply, Arguments.takeKeyword, Arguments.takeKeyword, Option.map_map]
  rfl

theorem positional_of_named {f : Frame} {v : Instance} {arguments : Arguments}
    (named : (f.signature.name? f.position).bind f.arguments.takeKeyword = some (v, arguments)) :
    arguments.positional = f.arguments.positional := by
  obtain ⟨name, -, taken⟩ := Option.bind_eq_some_iff.1 named
  obtain ⟨_, -, taken⟩ := Option.map_eq_some_iff.1 taken
  cases taken
  rfl

end Frame

/-- The job with other positional arguments left. -/
def Job.withPositional (j : Job) (vs : List Instance) : Job := { j with frame := j.frame.withPositional vs }

end Injector
