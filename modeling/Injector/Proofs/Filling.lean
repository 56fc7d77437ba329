import Injector.Proofs.Turns
/-!
# Parameters before bodies

A job that waits for a dependency has slots left to fill, and a function starts only when none is
left (`System.Reachable.filling`). So all that becomes of a dependency comes before the function
that needs it.
-/
namespace Injector

/-- Whether the jobs that wait for a dependency have slots left to fill, and those whose function has started have none. -/
def Stack.Filling : {k : Kind} → Stack k → Prop
  | _, .nil => True
  | _, .cons (.slot j _) below => j.todo ≠ [] ∧ below.Filling
  | _, .cons (.body j _ _) below => j.todo = [] ∧ below.Filling
  | _, .cons _ below => below.Filling

/-- The jobs that wait for a dependency, innermost first. -/
def Stack.asking : {k : Kind} → Stack k → List Job
  | _, .nil => []
  | _, .cons (.slot j _) below => j :: below.asking
  | _, .cons _ below => below.asking

/-- Whether a job that comes to its function has no slots left to fill. -/
def Activity.Filling : {k : Kind} → Activity k → Prop
  | _, .pause j _ => j.todo = []
  | _, _ => True

/-- Whether no function is started before its slots are filled. -/
structure Task.Filling (t : Task) : Prop where
  activity : t.activity.Filling
  stack : t.stack.Filling

namespace Stack.Filling

theorem tail {a b : Kind} {c : Cont a b} {below : Stack b} (h : (Stack.cons c below).Filling) : below.Filling := by
  cases c with
  | slot | body => exact h.2
  | build | convert | deliver | observe | close | scopeBody | callback => exact h

/-- Who waits for a dependency has slots left to fill. -/
theorem todo {k : Kind} {below : Stack k} (h : below.Filling) : ∀ j ∈ below.asking, j.todo ≠ [] := by
  induction below with
  | nil => exact fun j hj => (List.not_mem_nil hj).elim
  | cons c below ih =>
    cases c with
    | slot j key =>
      intro j' hj
      rcases List.mem_cons.1 hj with rfl | hj
      · exact h.1
      · exact ih h.2 j' hj
    | body => exact ih h.2
    | build | convert | deliver | observe | close | scopeBody | callback => exact ih h

end Stack.Filling

namespace Step

variable {w : World} {env : Env}

theorem filling_filled {below : Stack .answer} (h : below.Filling) (j : Job) (r : Except Failure (Filled × Frame)) :
    (filled w j r below).task.Filling := by
  cases r <;> exact ⟨trivial, h⟩

/-- Whether a step leads to a task in which no function is started before its slots are filled. -/
def Fills (st : Step) : Prop := st.task.Filling

theorem fills_conclude {below : Stack .answer} (h : below.Filling) (j : Job) : (conclude w j below).Fills := by
  unfold conclude
  dsimp only
  split <;> exact ⟨trivial, h⟩

theorem fills_body {below : Stack .answer} (h : below.Filling) {j : Job} (filled : j.todo = []) (ops : List Op) :
    (body w j ops below).Fills := by
  cases ops with
  | nil => exact fills_conclude h j
  | cons => exact ⟨trivial, filled, h⟩

theorem fills_callback {below : Stack .done} (h : below.Filling) (path : List Key) (ops : List Op) (ts : List Teardown) :
    (callback w path ops ts below).Fills := by
  cases ops <;> exact ⟨trivial, h⟩

theorem fills_scopeBody {below : Stack .reply} (h : below.Filling) (scope : ContainerId) (name : String)
    (path : List Key) (ops : List Op) : (scopeBody w scope name path ops below).Fills := by
  cases ops <;> exact ⟨trivial, h⟩

theorem fills_resolve {below : Stack .answer} (h : below.Filling) (r : Request) : (resolve w r below).Fills := by
  unfold resolve
  split
  · exact ⟨trivial, h⟩
  · exact ⟨trivial, h⟩
  · split <;> exact ⟨trivial, h⟩

theorem fills_build {below : Stack .answer} (h : below.Filling) (b : Build) : (build w b below).Fills := by
  unfold build
  split
  · exact ⟨trivial, h⟩
  · split <;> exact ⟨trivial, h⟩

/-- Who asks for a dependency has its slot to fill; who asks for none goes on to its function. -/
theorem fills_fill {below : Stack .answer} (h : below.Filling) (j : Job) : (fill env w j below).Fills := by
  unfold fill
  split
  · next filled => exact ⟨filled, h⟩
  · next slot rest todo =>
    have left : j.todo ≠ [] := fun none => by rw [none] at todo; cases todo
    dsimp only
    split
    · exact ⟨trivial, left, h⟩
    · split <;> exact filling_filled h j _

theorem fills_start {below : Stack .answer} (h : below.Filling) {j : Job} (filled : j.todo = []) :
    (start env w j below).Fills := by
  unfold start
  split
  · exact fills_body h filled _
  all_goals
    split
    · exact ⟨trivial, h⟩
    · exact fills_conclude h j

theorem fills_windDown {below : Stack .done} (h : below.Filling) (path : List Key) (ts : List Teardown) :
    (windDown w path ts below).Fills := by
  unfold windDown
  split
  · exact ⟨trivial, h⟩
  · exact fills_callback h path _ _
  · split
    · exact fills_callback h path _ _
    · exact ⟨trivial, h⟩

theorem fills_lasting {below : Stack .reply} (h : below.Filling) (s : Scene) (c : ContainerId) (a : Lasting Command Op) :
    (lasting env w s c a below).Fills := by
  unfold lasting
  split
  · exact ⟨trivial, h⟩
  · split <;> exact ⟨trivial, h⟩
  · dsimp only
    split
    · split <;> exact ⟨trivial, h⟩
    · exact ⟨trivial, h⟩
  · exact ⟨trivial, h⟩
  · exact fills_scopeBody h _ _ _ _
  · exact ⟨trivial, h⟩

theorem fills_perform {below : Stack .reply} (h : below.Filling) (s : Scene) (o : Op) : (perform env w s o below).Fills := by
  cases o with
  | instant => exact ⟨trivial, h⟩
  | lasting heading a =>
    unfold perform
    dsimp only
    split
    · exact fills_lasting h s _ a
    · exact ⟨trivial, h⟩

theorem fills_answered {b : Kind} {c : Cont .answer b} {below : Stack b} (h : below.Filling)
    (answer : Except Failure Instance) : (answered env w answer c below).Fills := by
  cases c with
  | slot j key =>
    change (slot w j key answer below).Fills
    unfold slot
    split
    · exact ⟨trivial, h⟩
    · exact filling_filled h j _
  | build b => cases answer <;> exact ⟨trivial, h⟩
  | convert product input =>
    change (convert w product input answer below).Fills
    unfold convert
    split <;> exact ⟨trivial, h⟩
  | deliver c expected save =>
    change (deliver w expected save answer below).Fills
    unfold deliver
    split <;> exact ⟨trivial, h⟩
  | observe => exact ⟨trivial, h⟩

theorem fills_replied {b : Kind} {c : Cont .reply b} {below : Stack b} (h : (Stack.cons c below).Filling) (r : Reply) :
    (replied w r c below).Fills := by
  cases c with
  | body j heading rest =>
    unfold replied
    dsimp only
    split
    · exact ⟨trivial, h.2⟩
    · exact fills_body h.2 h.1 rest
  | scopeBody scope name path heading rest =>
    unfold replied
    dsimp only
    split
    · exact ⟨trivial, h⟩
    · exact fills_scopeBody h.tail scope name path rest
  | callback path heading rest ts =>
    unfold replied
    dsimp only
    split
    · exact ⟨trivial, h⟩
    · exact fills_callback h path rest ts

theorem fills_handOver {k : Kind} {below : Stack k} (h : below.Filling) (outcome : k.Outcome) :
    (handOver env w outcome below).Fills := by
  cases below with
  | nil => exact ⟨trivial, h⟩
  | cons c below =>
    cases k with
    | answer => exact fills_answered h.tail outcome
    | reply => exact fills_replied h outcome
    | done =>
      cases c
      exact ⟨trivial, h⟩

end Step

/-- No step starts a function before its slots are filled. -/
theorem Task.Filling.step {w : World} {env : Env} {t : Task} (h : t.Filling) : (t.step env w).task.Filling := by
  obtain ⟨k, activity, below⟩ := t
  cases activity with
  | resolve r => exact Step.fills_resolve h.stack r
  | line b => exact Step.fills_build h.stack b
  | fill j => exact Step.fills_fill h.stack j
  | pause j times =>
    cases times with
    | zero => exact Step.fills_start h.stack h.activity
    | succ => exact ⟨h.activity, h.stack⟩
  | perform s o => exact Step.fills_perform h.stack s o
  | windDown path ts => exact Step.fills_windDown h.stack path ts
  | await => exact ⟨trivial, h.stack⟩
  | give outcome => exact Step.fills_handOver h.stack outcome

namespace System

variable {p : Program}

/-- In every run, no function is started before its slots are filled. -/
theorem Reachable.filling {s : System} (h : Reachable p s) : ∀ t ∈ s.tasks, t.Filling := by
  refine h.forall_tasks (fun _ _ => ⟨trivial, trivial⟩) (fun _ => ⟨trivial, trivial⟩) ?_
  intro s i t st _ before _ takes
  cases takes with
  | step => exact before.step
  | joined => exact ⟨trivial, before.stack⟩

end System

end Injector
