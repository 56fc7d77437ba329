import Injector.Proofs.Provenance
/-!
# A job, slot by slot

A job fills one slot after the other. A slot that asks the container waits until there is an
answer, whatever that takes; any other slot is filled at once. `Run.calls`: until the job has an
outcome, its task is at one of the slots, above the one that asked, or at the function after all of
them. `Run.Advances` tells how it came there: what the container answered to each slot, and what fills it.
-/
namespace Injector

/-- What became of a slot: the key it asked for and the answer, if it asked, and what it was filled with. -/
structure Delivery where
  slot : Slot
  answer : Option (Key × Except Failure Instance)
  filled : Filled

/-- How one of the container's own extractors is filled: the container is asked for a key, or the slot is filled at once. -/
theorem Step.fill_eq (env : Env) (w : World) {j : Job} {slot : Slot} {rest : List Slot} (todo : j.todo = slot :: rest)
    (own : slot.extractor.parameters ≠ []) (below : Stack .answer) : Step.fill env w j below =
      match slot.extractor.asks (w.bound j.frame.container) with
      | some key => .next w (.resolve (j.request env.program slot key)) (.cons (.slot (j.atSlot slot) key) below)
      | none => .filled w j ((j.atSlot slot).frame.fillAlone slot.extractor) below := by
  unfold Step.fill
  rw [todo]
  dsimp only
  cases asks : slot.extractor.asks (w.bound j.frame.container) with
  | some key =>
    rw [Job.atSlot, todo]
    rfl
  | none =>
    dsimp only
    split
    · next replaces =>
      rw [replaces] at own
      exact absurd rfl own
    · rfl

/-- Who is above something that waits is not finished. -/
theorem Task.reply_of_on {a b kind : Kind} {c : Cont a b} {below : Stack b} {activity : Activity kind}
    {above : Stack kind} (on : (Stack.cons c below).On above) : Task.reply? ⟨kind, activity, above⟩ = none := by
  cases above with
  | nil => exact absurd on.height (Nat.not_succ_le_zero _)
  | cons => cases activity <;> first | rfl | (cases kind <;> rfl)

namespace System

variable {p : Program} {i n m : Nat} {below : Stack .answer}

/-- How task `i` comes from job `first` on `below` to another job of the same function: one slot after the other is
filled, with what the container answered if it was asked. -/
inductive Run.Advances (run : Run p) (i : Nat) (below : Stack .answer) (first : Job) : List Delivery → Job → Prop
  | start : Advances run i below first [] first
  /-- A slot is filled that asks for nothing. -/
  | alone {ds : List Delivery} {j : Job} {slot : Slot} {rest : List Slot} {filled : Filled} {frame : Frame} {k : Nat}
    (before : Advances run i below first ds j) (found : (run.state k).tasks[i]? = some ⟨.answer, .fill j, below⟩)
    (todo : j.todo = slot :: rest) (silent : slot.extractor.asks ((run.state k).world.bound j.frame.container) = none)
    (taken : (j.atSlot slot).frame.fillAlone slot.extractor = .ok (filled, frame)) :
    Advances run i below first (ds ++ [⟨slot, none, filled⟩]) (j.fill filled frame)
  /-- A slot is filled that asked for a key. -/
  | answered {ds : List Delivery} {j : Job} {slot : Slot} {rest : List Slot} {key : Key} {a : Except Failure Instance}
    {filled : Filled} {frame : Frame} {k k' : Nat} (before : Advances run i below first ds j)
    (found : (run.state k).tasks[i]? = some ⟨.answer, .fill j, below⟩) (todo : j.todo = slot :: rest)
    (asks : slot.extractor.asks ((run.state k).world.bound j.frame.container) = some key)
    (answered : (run.state k').tasks[i]? =
      some ⟨.answer, .give (k := .answer) a, .cons (.slot (j.atSlot slot) key) below⟩)
    (taken : (j.atSlot slot).frame.fillWith key a slot.extractor = .ok (filled, frame)) :
    Advances run i below first (ds ++ [⟨slot, some (key, a), filled⟩]) (j.fill filled frame)

/-- Where a task is until the job that it began on `below` has an outcome, and when it has. -/
inductive Run.Calls (run : Run p) (i : Nat) (below : Stack .answer) (first : Job) : Task → Prop
  | fill {ds : List Delivery} {j : Job} (advances : run.Advances i below first ds j) :
    Calls run i below first ⟨.answer, .fill j, below⟩
  /-- It waits for what a slot asked for. -/
  | asks {ds : List Delivery} {j : Job} {slot : Slot} {rest : List Slot} {key : Key} {k : Nat} {kind : Kind}
    {a : Activity kind} {above : Stack kind} (advances : run.Advances i below first ds j)
    (found : (run.state k).tasks[i]? = some ⟨.answer, .fill j, below⟩) (todo : j.todo = slot :: rest)
    (asks : slot.extractor.asks ((run.state k).world.bound j.frame.container) = some key)
    (on : (Stack.cons (.slot (j.atSlot slot) key) below).On above) : Calls run i below first ⟨kind, a, above⟩
  | pause {ds : List Delivery} {j : Job} {times : Nat} (advances : run.Advances i below first ds j) (filled : j.todo = []) :
    Calls run i below first ⟨.answer, .pause j times, below⟩
  /-- It performs an operation of the body. -/
  | body {j : Job} {h : Heading} {rest : List Op} {kind : Kind} {a : Activity kind} {above : Stack kind}
    (on : (Stack.cons (.body j h rest) below).On above) : Calls run i below first ⟨kind, a, above⟩
  | given {a : Except Failure Instance} : Calls run i below first ⟨.answer, .give (k := .answer) a, below⟩

section
variable {s : System}

/-! ## Who fills slots runs -/

/-- Whether only the running task fills slots. -/
def Engaged (s : System) : Prop :=
  ∀ i j below, s.tasks[i]? = some ⟨.answer, .fill j, below⟩ → s.running = some i

namespace Engaged

theorem start {ts : List Task} (h : s.Engaged) (begins : ∀ t ∈ ts, ∀ j below, t ≠ ⟨.answer, .fill j, below⟩) :
    (s.start ts).Engaged := by
  intro i j below found
  rw [tasks_start, List.getElem?_append] at found
  split at found
  · exact h i j below found
  · exact absurd rfl (begins _ (List.mem_of_getElem? found) j below)

theorem release (h : s.Engaged) : s.release.Engaged := by
  refine start (s := { s with world := _ }) h fun t ht => ?_
  obtain ⟨_, _, rfl⟩ := List.mem_map.1 ht
  rintro _ _ ⟨⟩

theorem put {st : Step} (h : s.Engaged) (running : s.running = some i) (opens : st.Open) : (s.put i st).Engaged := by
  refine (start (fun k j below found => ?_) fun t ht => ?_).release
  · by_cases e : i = k
    · exact e ▸ running
    · rw [List.getElem?_set_ne e] at found
      exact h k j below found
  · obtain ⟨_, _, rfl, -⟩ := opens.started t ht
    rintro _ _ ⟨⟩

/-- Who stops running does not fill a slot. -/
theorem stop {s' : System} (h : s.Engaged) (running : s.running = some i) (tasks : s'.tasks = s.tasks)
    (other : ∀ j below, s.tasks[i]? ≠ some ⟨.answer, .fill j, below⟩) : s'.Engaged := by
  intro k j below found
  rw [tasks] at found
  obtain rfl := Option.some.inj (running.symm.trans (h k j below found))
  exact absurd found (other j below)

end Engaged

/-- In every run only the running task fills slots: it does not wait in between. -/
theorem Reachable.engaged (h : Reachable p s) : s.Engaged := by
  induction h with
  | start name =>
    intro i j below found
    simp [initial] at found
  | @move s s' before h ih =>
    cases h with
    | next h =>
      cases h with
      | resume idle =>
        intro k j below found
        have := ih k j below found
        rw [idle] at this
        cases this
      | @run i t running found =>
        rcases run_cases p s i t with ⟨st, takes, h⟩ | ⟨r, rfl, h⟩ | ⟨waits, h⟩
        · have put := ih.put running (takes.does_of_reachable before found).2
          rcases h with h | ⟨j, n, below, pauses, h⟩ <;> rw [h]
          · exact put
          · refine put.stop running rfl fun j' below' found' => ?_
            rw [get?_put found, pauses] at found'
            cases found'
        · rw [h]
          refine ih.stop running rfl fun j below found' => ?_
          cases found.symm.trans found'
        · rw [h]
          refine ih.stop running rfl fun j below found' => ?_
          obtain rfl := Option.some.inj (found.symm.trans found')
          rcases waits with ⟨_, _, same, -⟩ | ⟨_, _, same⟩ <;> cases same
    | begin idle o =>
      refine ih.release.start fun t ht => ?_
      obtain rfl := List.mem_singleton.1 ht
      rintro _ _ ⟨⟩
    | drop idle name => exact Engaged.release (s := { s with world := _ }) ih
    | renew idle finished =>
      intro i j below found
      simp at found

end

namespace Run

variable {run : Run p} {first j : Job} {ds : List Delivery}

namespace Advances

/-- Only arguments and position change from slot to slot, and the slots are filled in order. -/
theorem job (h : run.Advances i below first ds j) : j.function = first.function ∧ first.frame.Spends j.frame ∧
    first.todo = ds.map Delivery.slot ++ j.todo ∧ j.filled = first.filled ++ ds.map Delivery.filled := by
  induction h with
  | start => exact ⟨rfl, rfl, rfl, (List.append_nil _).symm⟩
  | @alone ds j slot rest filled frame k before found todo silent taken ih =>
    obtain ⟨function, spends, slots, values⟩ := ih
    have spends' := (Frame.fills_fillAlone taken).1
    refine ⟨function, ?_, ?_, ?_⟩
    · rw [Frame.Spends] at spends spends' ⊢
      change frame = _
      rw [spends', Job.atSlot, spends]
      rfl
    · simp [slots, todo, Job.fill]
    · simp [values, Job.fill]
  | @answered ds j slot rest key a filled frame k k' before found todo asks answered taken ih =>
    obtain ⟨function, spends, slots, values⟩ := ih
    have spends' := (Frame.fills_fillWith taken).1
    refine ⟨function, ?_, ?_, ?_⟩
    · rw [Frame.Spends] at spends spends' ⊢
      change frame = _
      rw [spends', Job.atSlot, spends]
      rfl
    · simp [slots, todo, Job.fill]
    · simp [values, Job.fill]

/-- The container's own extractors fill what is left. -/
theorem own (h : run.Advances i below first ds j) (own : ∀ slot ∈ first.todo, slot.extractor.parameters ≠ []) :
    ∀ slot ∈ j.todo, slot.extractor.parameters ≠ [] :=
  fun slot left => own slot (h.job.2.2.1 ▸ List.mem_append_right _ left)

end Advances

/-! ## Each step of the task -/

/-- Whether a step leads to a task that is still at the job, or to its outcome. -/
def AtCall (run : Run p) (i : Nat) (below : Stack .answer) (first : Job) (st : Step) : Prop :=
  run.Calls i below first st.task

theorem Advances.fill (h : run.Advances i below first ds j)
    (own : ∀ slot ∈ first.todo, slot.extractor.parameters ≠ []) {k : Nat}
    (found : (run.state k).tasks[i]? = some ⟨.answer, .fill j, below⟩) (env : Env) :
    run.AtCall i below first (.fill env (run.state k).world j below) := by
  cases todo : j.todo with
  | nil =>
    unfold Step.fill
    rw [todo]
    exact .pause h todo
  | cons slot rest =>
    rw [Step.fill_eq env _ todo (h.own own slot (todo ▸ List.mem_cons_self))]
    cases asks : slot.extractor.asks ((run.state k).world.bound j.frame.container) with
    | some key => exact .asks h found todo asks .base
    | none =>
      dsimp only
      cases taken : (j.atSlot slot).frame.fillAlone slot.extractor with
      | error failure => exact .given
      | ok x => exact .fill (.alone h found todo asks taken)

/-- An answer fills the slot that asked. -/
theorem Advances.slot (h : run.Advances i below first ds j) {slot : Slot} {rest : List Slot} {key : Key} {k k' : Nat}
    {a : Except Failure Instance} (found : (run.state k).tasks[i]? = some ⟨.answer, .fill j, below⟩)
    (todo : j.todo = slot :: rest) (asks : slot.extractor.asks ((run.state k).world.bound j.frame.container) = some key)
    (answered : (run.state k').tasks[i]? =
      some ⟨.answer, .give (k := .answer) a, .cons (.slot (j.atSlot slot) key) below⟩) (w : World) :
    run.AtCall i below first (.slot w (j.atSlot slot) key a below) := by
  unfold Step.slot
  rw [show (j.atSlot slot).todo = slot :: rest from todo]
  change run.AtCall i below first (.filled w (j.atSlot slot) ((j.atSlot slot).frame.fillWith key a slot.extractor) below)
  cases taken : (j.atSlot slot).frame.fillWith key a slot.extractor with
  | error failure => exact .given
  | ok x =>
    have advances := Advances.answered h found todo asks answered taken
    exact .fill advances

theorem atCall_conclude (w : World) (j : Job) : run.AtCall i below first (.conclude w j below) := by
  unfold Step.conclude
  dsimp only
  split <;> exact .given

theorem atCall_body (w : World) (j : Job) (ops : List Op) : run.AtCall i below first (.body w j ops below) := by
  cases ops with
  | nil => exact atCall_conclude w j
  | cons o rest => exact .body .base

theorem atCall_start (env : Env) (w : World) (j : Job) : run.AtCall i below first (.start env w j below) := by
  unfold Step.start
  split
  · exact atCall_body w j _
  all_goals
    split
    · exact .given
    · exact atCall_conclude _ j

/-- The reply of an operation goes on with the body, or ends it. -/
theorem atCall_replied (w : World) (j : Job) (h : Heading) (rest : List Op) (r : Reply) :
    run.AtCall i below first (.replied w r (.body j h rest) below) := by
  unfold Step.replied
  dsimp only
  split
  · exact .given
  · exact atCall_body _ j rest

/-- Who is at a job is not finished. -/
theorem Calls.unfinished {t : Task} (h : run.Calls i below first t) : t.reply? = none := by
  cases h with
  | fill | pause | given => rfl
  | asks _ _ _ _ on => exact Task.reply_of_on on
  | body on => exact Task.reply_of_on on

theorem Calls.step {t : Task} (h : run.Calls i below first t)
    (own : ∀ slot ∈ first.todo, slot.extractor.parameters ≠ []) {m : Nat} (found : (run.state m).tasks[i]? = some t)
    (busy : ∀ a, t ≠ ⟨.answer, .give (k := .answer) a, below⟩) (env : Env) :
    run.AtCall i below first (t.step env (run.state m).world) := by
  cases h with
  | fill advances => exact advances.fill own found env
  | @pause ds j times advances filled =>
    cases times with
    | zero => exact atCall_start env _ j
    | succ times => exact .pause advances filled
  | given => exact absurd rfl (busy _)
  | @asks ds j slot rest key k kind a above advances asked todo asks on =>
    by_cases here : ∃ b : Except Failure Instance,
        (⟨kind, a, above⟩ : Task) = ⟨.answer, .give (k := .answer) b, .cons (.slot (j.atSlot slot) key) below⟩
    · obtain ⟨b, same⟩ := here
      rw [same] at found ⊢
      exact advances.slot asked todo asks found _
    · exact .asks advances asked todo asks (Task.step_on on fun b same => here ⟨b, same⟩)
  | @body j heading rest kind a above on =>
    by_cases here : ∃ r : Reply, (⟨kind, a, above⟩ : Task) = ⟨.reply, .give (k := .reply) r, .cons (.body j heading rest) below⟩
    · obtain ⟨r, same⟩ := here
      rw [same]
      exact atCall_replied _ j heading rest r
    · exact .body (Task.step_on on fun r same => here ⟨r, same⟩)

/-- What a task that waits for others is at stays below it. -/
theorem Calls.joined {tasks : List Nat} {above : Stack .reply} (h : run.Calls i below first ⟨.reply, .await tasks, above⟩)
    (r : Reply) : run.Calls i below first ⟨.reply, .give (k := .reply) r, above⟩ := by
  cases h with
  | asks advances found todo asks on => exact .asks advances found todo asks on
  | body on => exact .body on

/-- Until a job has an outcome, its task is at one of its slots or at its function. -/
theorem calls (run : Run p) (own : ∀ slot ∈ first.todo, slot.extractor.parameters ≠ [])
    (began : (run.state n).tasks[i]? = some ⟨.answer, .fill first, below⟩) (pending : run.Pending i below n m) :
    ∃ t, (run.state m).tasks[i]? = some t ∧ run.Calls i below first t := by
  refine pending.follows (P := fun _ => run.Calls i below first) began (.fill .start) (fun calls => calls.unfinished)
    (fun calls _ => calls) fun {k t st} _ _ found calls busy takes => ?_
  cases takes with
  | step => exact calls.step own found busy _
  | joined => exact calls.joined _

/-- Whenever the task is at the slots of the job again, it came there slot by slot. -/
theorem advances (run : Run p) (own : ∀ slot ∈ first.todo, slot.extractor.parameters ≠ [])
    (began : (run.state n).tasks[i]? = some ⟨.answer, .fill first, below⟩) (pending : run.Pending i below n m)
    (found : (run.state m).tasks[i]? = some ⟨.answer, .fill j, below⟩) : ∃ ds, run.Advances i below first ds j := by
  obtain ⟨t, found', calls⟩ := run.calls own began pending
  obtain rfl := Option.some.inj (found'.symm.trans found)
  cases calls with
  | fill advances => exact ⟨_, advances⟩
  | asks _ _ _ _ on | body on => exact absurd on.height (Nat.not_le.2 (Nat.lt_succ_self _))

/-- When the task comes to the function of the job, all slots are filled. -/
theorem advanced (run : Run p) (own : ∀ slot ∈ first.todo, slot.extractor.parameters ≠ [])
    (began : (run.state n).tasks[i]? = some ⟨.answer, .fill first, below⟩) (pending : run.Pending i below n m) {times : Nat}
    (found : (run.state m).tasks[i]? = some ⟨.answer, .pause j times, below⟩) :
    ∃ ds, run.Advances i below first ds j ∧ j.todo = [] := by
  obtain ⟨t, found', calls⟩ := run.calls own began pending
  obtain rfl := Option.some.inj (found'.symm.trans found)
  cases calls with
  | pause advances filled => exact ⟨_, advances, filled⟩
  | asks _ _ _ _ on | body on => exact absurd on.height (Nat.not_le.2 (Nat.lt_succ_self _))

end Run

end System

end Injector
