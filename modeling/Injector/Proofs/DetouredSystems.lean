import Injector.Proofs.AlikeInstances
import Injector.Proofs.DetouredTasks
/-!
# Systems that are a build apart

Beside the task that calls the function, or builds the key, all tasks are the same in both systems
(`Detour.SystemsApart`). As long as nobody else asks for the key (`System.Avoids`) and the call has not come to
its answer, each move of the one system is a move of the other (`Detour.SystemsApart.moves`,
`Detour.SystemsApart.moves'`): nobody has to wait for the build, or is kept waiting by what the call does not do.
-/
namespace Injector

theorem Stack.On.mem_held {a k : Kind} {base : Stack a} {above : Stack k} (h : base.On above) {c : ContainerId}
    (hc : c ∈ base.held) : c ∈ above.held := by
  induction h with
  | base => exact hc
  | cons _ _ ih => exact List.mem_append_right _ ih

namespace Detour

variable {D : Detour} {base : Stack .answer} {inside own : Bool}

/-! ## What tasks hold and reply -/

theorem ActivitiesApart.held {k : Kind} {a a' : Activity k} (h : D.ActivitiesApart inside own a a') : a'.held = a.held := by
  cases h <;> rfl

theorem ContsApart.held {a b : Kind} {c c' : Cont a b} (h : D.ContsApart inside own c c') : c'.held = c.held := by
  cases h <;> rfl

theorem StacksApart.mem_held {k : Kind} {above above' : Stack k} (h : D.StacksApart base inside own above above')
    (kept : D.container ∈ base.held) (e : ContainerId) : e ∈ above'.held ↔ e ∈ above.held := by
  induction h with
  | nil => exact Iff.rfl
  | base =>
    constructor
    · intro he
      rcases List.mem_append.1 he with here | he
      · exact List.mem_singleton.1 here ▸ kept
      · exact he
    · exact List.mem_append_right _
  | cons cont _ ih => rw [Stack.held, Stack.held, List.mem_append, List.mem_append, cont.held, ih]

/-- What is put on the one is put on the other. -/
theorem StacksApart.on {k : Kind} {above above' : Stack k} (h : D.StacksApart base true own above above') :
    base.On above ∧ (Stack.cons (.build D.build) base).On above' := by
  generalize inside_eq : true = inside at h
  induction h with
  | nil outside => cases inside_eq.trans outside
  | base => exact ⟨.base, .base⟩
  | cons _ _ ih => exact ⟨.cons _ ih.1, .cons _ ih.2⟩

/-- What is not the function's own is above what waits. -/
theorem StacksApart.above {k : Kind} {above above' : Stack k} (h : D.StacksApart base true false above above') :
    base.height < above.height ∧ base.height < above'.height := by
  cases h with
  | nil outside => cases outside
  | cons _ under => exact ⟨Nat.lt_succ_of_le under.on.1.height, Nat.lt_succ_of_lt under.on.2.height_lt⟩

/-- Directly on what waits for the call is what is directly in the build. -/
theorem StacksApart.eq_build {above' : Stack .answer} (h : D.StacksApart base true own base above') :
    own = true ∧ above' = .cons (.build D.build) base := by
  cases h with
  | base => exact ⟨rfl, rfl⟩
  | cons _ under => exact absurd under.on.1.height (Nat.not_succ_le_self _)

theorem StacksApart.eq_base {above : Stack .answer} (h : D.StacksApart base true own above (.cons (.build D.build) base)) :
    own = true ∧ above = base := by
  cases h with
  | base => exact ⟨rfl, rfl⟩
  | cons _ under => exact absurd under.on.2.height_lt (Nat.lt_irrefl _)

theorem TasksApart.mem_held {t t' : Task} (h : D.TasksApart base inside t t') (kept : D.container ∈ base.held)
    (e : ContainerId) : e ∈ t'.held ↔ e ∈ t.held := by
  obtain ⟨activity, under⟩ := h
  rw [Task.held, Task.held, List.mem_append, List.mem_append, activity.held, under.mem_held kept]

theorem StacksApart.clear {k : Kind} {above above' : Stack k} (h : D.StacksApart base inside own above above')
    (building : D.building = true) (apart : ∀ b ∈ base.builds, D.Clear b.container b.key) :
    ∀ b ∈ above.builds, D.Clear b.container b.key := by
  induction h with
  | nil => exact fun _ hb => (List.not_mem_nil hb).elim
  | base => exact apart
  | cons cont _ ih =>
    cases cont with
    | build b clear => exact List.forall_mem_cons.2 ⟨clear building, ih⟩
    | slot | convert | body | deliver | observe | close | scopeBody | callback => exact ih

/-- Nobody but the build has to do with its lock. -/
theorem TasksApart.clear {t t' : Task} (h : D.TasksApart base inside t t') (building : D.building = true)
    (apart : ∀ b ∈ base.builds, D.Clear b.container b.key) : ∀ b ∈ t.locked, D.Clear b.container b.key := by
  obtain ⟨activity, under⟩ := h
  intro b hb
  rcases List.mem_append.1 hb with line | hb
  · cases activity with
    | line b' clear =>
      obtain rfl := Option.some.inj (Option.mem_toList.1 line)
      exact clear building
    | resolve | fill | pause | perform | windDown | await | answer | reply | finish => cases line
  · exact under.clear building apart b hb

/-- Who is finished has the same reply. The call is not finished before it comes to its answer. -/
theorem TasksApart.reply {t t' : Task} (h : D.TasksApart base inside t t') :
    t'.reply? = t.reply? ∧ (inside = true → t.reply? = none) := by
  obtain ⟨activity, under⟩ := h
  cases activity with
  | reply r =>
    cases under with
    | nil outside =>
      subst outside
      exact ⟨congrArg some r.under_nil, fun here => by cases here⟩
    | cons => exact ⟨rfl, fun _ => rfl⟩
  | resolve | line | fill | pause | perform | windDown | await | answer | finish => exact ⟨rfl, fun _ => rfl⟩

end Detour

/-- Whether nobody asks for a key that is to be built on `c`, and nobody has hooked on to it, but for the request for
which `base` waits: task `i` asks for no key by that name, and the others for none on this container. -/
structure System.Avoids (c : ContainerId) (key : Key) (i : Nat) (base : Stack .answer) (s : System) : Prop where
  asks : ∀ j r above, s.tasks[j]? = some ⟨.answer, .resolve r, above⟩ → (j = i → above ≠ base) →
    ∀ d key' β, s.world.locate r.container r.key = .builds d key' β → key' = key → j ≠ i ∧ d ≠ c
  hooks : (s.world.container c).callbacks.hooksFor key = []

/-- Nobody asks for the key if nobody does among the same tasks, whose requests come to the same. -/
theorem System.Avoids.of_same {c : ContainerId} {key : Key} {i : Nat} {base : Stack .answer} {s s' : System}
    (h : s.Avoids c key i base) (located : ∀ d k, s'.world.locate d k = s.world.locate d k)
    (hooks : (s'.world.container c).callbacks.hooksFor key = (s.world.container c).callbacks.hooksFor key)
    (others : ∀ j ≠ i, s'.tasks[j]? = s.tasks[j]?)
    (own : ∀ r above, s'.tasks[i]? = some ⟨.answer, .resolve r, above⟩ → above = base) : s'.Avoids c key i base where
  asks j r above found apart d key' β builds := by
    by_cases same : j = i
    · subst same
      exact absurd (own r above found) (apart rfl)
    · exact h.asks j r above (others j same ▸ found) apart d key' β (located r.container r.key ▸ builds)
  hooks := hooks.trans h.hooks

namespace Detour

variable {p : Program} {D : Detour} {base : Stack .answer} {i j : Nat} {s s' e e' : System} {t t' : Task}

/-- Whether the one system is that with the call, and the other that with the build, and task `i` is the one that makes
the difference. -/
structure SystemsApart (D : Detour) (base : Stack .answer) (i : Nat) (s s' : System) : Prop where
  world : D.Apart s.world s'.world
  tasks : ∀ j, Option.Rel (D.TasksApart base (decide (j = i))) s.tasks[j]? s'.tasks[j]?
  running : s'.running = s.running
  waiting : s'.waiting = s.waiting
  present : i < s.tasks.length
  kept : D.container ∈ base.held

namespace SystemsApart

section Looks

variable (h : D.SystemsApart base i s s')
include h

theorem count : s'.tasks.length = s.tasks.length := by
  have same : ∀ j, s.tasks.length ≤ j ↔ s'.tasks.length ≤ j := by
    intro j
    rw [← List.getElem?_eq_none_iff, ← List.getElem?_eq_none_iff]
    rcases rel_cases (h.tasks j) with ⟨none, none'⟩ | ⟨t, t', some, some', -⟩
    · simp [none, none']
    · simp [some, some']
  exact Nat.le_antisymm ((same _).1 (Nat.le_refl _)) ((same _).2 (Nat.le_refl _))

theorem exists_task (found : s.tasks[j]? = some t) :
    ∃ t', s'.tasks[j]? = some t' ∧ D.TasksApart base (decide (j = i)) t t' := by
  rcases rel_cases (h.tasks j) with ⟨none, -⟩ | ⟨u, t', some, some', apart⟩
  · rw [found] at none
    cases none
  · obtain rfl := Option.some.inj (found.symm.trans some)
    exact ⟨t', some', apart⟩

theorem exists_task' (found : s'.tasks[j]? = some t') :
    ∃ t, s.tasks[j]? = some t ∧ D.TasksApart base (decide (j = i)) t t' := by
  rcases rel_cases (h.tasks j) with ⟨-, none⟩ | ⟨t, u, some, some', apart⟩
  · rw [found] at none
    cases none
  · obtain rfl := Option.some.inj (found.symm.trans some')
    exact ⟨t, some, apart⟩

/-- The task that makes the difference. -/
theorem exists_inside : ∃ t t', s.tasks[i]? = some t ∧ s'.tasks[i]? = some t' ∧ D.TasksApart base true t t' := by
  obtain ⟨t', found', apart⟩ := h.exists_task (List.getElem?_eq_getElem h.present)
  rw [decide_eq_true rfl] at apart
  exact ⟨_, t', List.getElem?_eq_getElem h.present, found', apart⟩

theorem mem_held (c : ContainerId) : c ∈ s'.held ↔ c ∈ s.held := by
  constructor
  · intro hc
    obtain ⟨t', ht', hc⟩ := List.mem_flatMap.1 hc
    obtain ⟨j, found⟩ := List.getElem?_of_mem ht'
    obtain ⟨t, found', apart⟩ := h.exists_task' found
    exact List.mem_flatMap.2 ⟨t, List.mem_of_getElem? found', (apart.mem_held h.kept c).1 hc⟩
  · intro hc
    obtain ⟨t, ht, hc⟩ := List.mem_flatMap.1 hc
    obtain ⟨j, found⟩ := List.getElem?_of_mem ht
    obtain ⟨t', found', apart⟩ := h.exists_task found
    exact List.mem_flatMap.2 ⟨t', List.mem_of_getElem? found', (apart.mem_held h.kept c).2 hc⟩

/-- What waits for the call works with the container. -/
theorem here : D.container ∈ s.held := by
  obtain ⟨t, t', found, -, apart⟩ := h.exists_inside
  refine List.mem_flatMap.2 ⟨t, List.mem_of_getElem? found, ?_⟩
  obtain ⟨-, under⟩ := apart
  exact List.mem_append_right _ (under.on.1.mem_held h.kept)

theorem replies (tasks : List Nat) : s'.replies tasks = s.replies tasks := by
  unfold System.replies
  have same : (fun j : Nat => (s'.tasks[j]?).bind Task.reply?) = fun j => (s.tasks[j]?).bind Task.reply? := by
    funext j
    rcases rel_cases (h.tasks j) with ⟨none, none'⟩ | ⟨t, t', some, some', apart⟩
    · rw [none, none']
    · rw [some, some']
      exact apart.reply.1
  rw [same]

theorem ready (j : Nat) : s'.ready j = s.ready j := by
  unfold System.ready
  rcases rel_cases (h.tasks j) with ⟨none, none'⟩ | ⟨t, t', some, some', ⟨activity, -⟩⟩
  · rw [none, none']
  · rw [some, some']
    cases activity with
    | line b clear => exact h.world.mayStart (builds_under clear _)
    | await tasks => exact congrArg Option.isSome (h.replies tasks)
    | resolve | fill | pause | perform | windDown | answer | reply | finish => rfl

theorem envs (p : Program) : D.EnvsApart ⟨p, s.held, s.tasks.length⟩ ⟨p, s'.held, s'.tasks.length⟩ :=
  ⟨rfl, h.mem_held, fun _ => h.here, h.count⟩

end Looks

/-- In both somebody can go on, or in neither. -/
theorem next_iff (h : D.SystemsApart base i s s') (p : Program) : (∃ e, s.Next p e) ↔ ∃ e', s'.Next p e' := by
  constructor
  · rintro ⟨_, next⟩
    cases next with
    | run running found =>
      obtain ⟨t', found', -⟩ := h.exists_task found
      exact ⟨_, .run (h.running.trans running) found'⟩
    | resume idle waits ready => exact ⟨_, .resume (h.running.trans idle) (h.waiting ▸ waits) ((h.ready _).trans ready)⟩
  · rintro ⟨_, next⟩
    cases next with
    | run running found =>
      obtain ⟨t, found', -⟩ := h.exists_task' found
      exact ⟨_, .run (h.running.symm.trans running) found'⟩
    | resume idle waits ready =>
      exact ⟨_, .resume (h.running.symm.trans idle) (h.waiting ▸ waits) ((h.ready _).symm.trans ready)⟩

/-- All that is open can be reached in both. -/
theorem tidy (h : D.SystemsApart base i s s') (tidy : s.world.Tidy s.held) : s'.world.Tidy s'.held where
  reached c alive := by
    have live := (h.world.container c).live
    exact (h.world.reachable h.mem_held c).2 (tidy.reached c ⟨h.world.length ▸ alive.1, live ▸ alive.2⟩)
  orphans := h.world.orphans.trans tidy.orphans

/-! ### Moves -/

theorem start (h : D.SystemsApart base i s s') {ts : List Task} (beside : ∀ t ∈ ts, D.TasksApart base false t t) :
    D.SystemsApart base i (s.start ts) (s'.start ts) where
  world := h.world
  tasks j := by
    rw [System.tasks_start, System.tasks_start, List.getElem?_append, List.getElem?_append, h.count]
    split
    · exact h.tasks j
    · next new =>
      have other : j ≠ i := fun same => new (same ▸ h.present)
      rw [decide_eq_false other]
      cases found : ts[j - s.tasks.length]? with
      | none => exact .none
      | some t => exact .some (beside t (List.mem_of_getElem? found))
  running := h.running
  waiting := by
    simp only [System.start]
    rw [h.waiting, h.count]
  present := by
    rw [System.tasks_start, List.length_append]
    exact Nat.lt_add_right _ h.present
  kept := h.kept

theorem release (h : D.SystemsApart base i s s') : D.SystemsApart base i s.release s'.release := by
  have released := h.world.release (fun _ => h.here) h.mem_held
  have emptied : D.Apart { s.world.release s.held with orphans := [] } { s'.world.release s'.held with orphans := [] } :=
    { released with rest := Correspondence.Whole.rest_orphans .nil released.rest }
  have ended : D.SystemsApart base i { s with world := { s.world.release s.held with orphans := [] } }
      { s' with world := { s'.world.release s'.held with orphans := [] } } :=
    ⟨emptied, h.tasks, h.running, h.waiting, h.present, h.kept⟩
  have left : ((s'.world.release s'.held).orphans.map Task.ofTeardowns) = (s.world.release s.held).orphans.map .ofTeardowns := by
    rw [released.orphans]
  unfold System.release System.adopt
  dsimp only
  rw [left]
  refine ended.start fun t ht => ?_
  obtain ⟨ts, -, rfl⟩ := List.mem_map.1 ht
  exact .ofTeardowns ts

theorem put (h : D.SystemsApart base i s s') {st st' : Step} (steps : D.StepsApart base (decide (j = i)) st st') :
    D.SystemsApart base i (s.put j st) (s'.put j st') := by
  have stepped : D.SystemsApart base i { s with world := st.world, tasks := s.tasks.set j st.task }
      { s' with world := st'.world, tasks := s'.tasks.set j st'.task } := by
    refine ⟨steps.world, fun k => ?_, h.running, h.waiting, ?_, h.kept⟩
    · rw [List.getElem?_set, List.getElem?_set, h.count]
      split
      · next same =>
        subst same
        split
        · exact .some steps.task
        · exact .none
      · exact h.tasks k
    · rw [List.length_set]
      exact h.present
  unfold System.put
  rw [steps.started]
  exact (stepped.start steps.beside).release

theorem suspend (h : D.SystemsApart base i s s') (j : Nat) : D.SystemsApart base i (s.suspend j) (s'.suspend j) :=
  ⟨h.world, h.tasks, rfl, congrArg (· ++ [j]) h.waiting, h.present, h.kept⟩

/-- Who runs does the same in both. -/
theorem run (h : D.SystemsApart base i s s') (apart : D.TasksApart base (decide (j = i)) t t')
    (free : ∀ r above, t = ⟨.answer, .resolve r, above⟩ → ∀ c key β, s.world.locate r.container r.key = .builds c key β →
      (D.building = true → D.Clear c key) ∧ key ∉ D.keys (decide (j = i)))
    (busy : decide (j = i) = true → ∀ a, t ≠ ⟨.answer, .give (k := .answer) a, base⟩) :
    D.SystemsApart base i (s.run p j t) (s'.run p j t') := by
  have put := h.put (apart.step h.world (h.envs p) free busy)
  obtain ⟨activity, under⟩ := apart
  cases activity with
  | line b =>
    unfold System.run
    dsimp only
    rw [h.ready]
    split
    · exact put
    · exact h.suspend j
  | pause j times =>
    cases times with
    | zero => exact put
    | succ => exact put.suspend _
  | await tasks =>
    unfold System.run
    dsimp only
    rw [h.replies]
    split
    · exact h.put (apart_reply h.world under (.several _))
    · exact h.suspend j
  | reply r =>
    cases under with
    | nil => exact ⟨h.world, h.tasks, rfl, h.waiting, h.present, h.kept⟩
    | cons => exact put
  | resolve | fill | perform | windDown | answer | finish => exact put

/-- Who asks for a key is above what waits for the call. -/
theorem above_of_resolve {r r' : Request} {above above' : Stack .answer}
    (apart : D.TasksApart base (decide (j = i)) ⟨.answer, .resolve r, above⟩ ⟨.answer, .resolve r', above'⟩) (same : j = i) :
    above ≠ base ∧ above' ≠ base := by
  rw [decide_eq_true same] at apart
  obtain ⟨activity, under⟩ := apart
  cases activity
  obtain ⟨high, high'⟩ := under.above
  exact ⟨fun e => Nat.lt_irrefl _ (e ▸ high), fun e => Nat.lt_irrefl _ (e ▸ high')⟩

theorem avoids_iff (h : D.SystemsApart base i s s') :
    s'.Avoids D.container D.key i base ↔ s.Avoids D.container D.key i base := by
  have hooks : (s'.world.container D.container).callbacks.hooksFor D.key = (s.world.container D.container).callbacks.hooksFor D.key := by
    rw [h.world.callbacks]
  constructor
  · refine fun avoids => ⟨fun j r above found _ d key β located => ?_, hooks ▸ avoids.hooks⟩
    obtain ⟨t', found', apart⟩ := h.exists_task found
    obtain ⟨activity, -⟩ := id apart
    cases activity
    exact avoids.asks j _ _ found' (fun same => (above_of_resolve apart same).2) d key β ((h.world.locate _ _).trans located)
  · refine fun avoids => ⟨fun j r above found _ d key β located => ?_, hooks ▸ avoids.hooks⟩
    obtain ⟨t, found', apart⟩ := h.exists_task' found
    obtain ⟨activity, -⟩ := id apart
    cases activity
    exact avoids.asks j _ _ found' (fun same => (above_of_resolve apart same).1) d key β ((h.world.locate _ _).symm.trans located)

theorem run_avoiding (h : D.SystemsApart base i s s') (avoids : s.Avoids D.container D.key i base)
    (busy : ∀ a, s.tasks[i]? ≠ some ⟨.answer, .give (k := .answer) a, base⟩) (found : s.tasks[j]? = some t)
    (apart : D.TasksApart base (decide (j = i)) t t') : D.SystemsApart base i (s.run p j t) (s'.run p j t') := by
  refine h.run apart ?_ fun same a e => ?_
  · rintro r above rfl c key β located
    obtain ⟨activity, -⟩ := id apart
    cases activity
    have other := avoids.asks j r above found (fun same => (above_of_resolve apart same).1) c key β located
    refine ⟨fun _ here own => (other own).2 here, fun own => ?_⟩
    by_cases same : j = i
    · rw [decide_eq_true same] at own
      exact (other (List.mem_singleton.1 own)).1 same
    · rw [decide_eq_false same] at own
      exact (List.not_mem_nil own).elim
  · obtain rfl := of_decide_eq_true same
    exact busy a (e ▸ found)

/-- As long as the call is on, not all tasks are finished. -/
theorem not_finished (h : D.SystemsApart base i s s') (scheduled : s.Scheduled) (idle : s.running = none) : s.waiting ≠ [] := by
  intro nobody
  obtain ⟨t, t', found, -, apart⟩ := h.exists_inside
  rcases scheduled.known i t found with running | waits | finished
  · rw [idle] at running
    cases running
  · rw [nobody] at waits
    cases waits
  · exact finished (apart.reply.2 rfl)

section Moves

variable (h : D.SystemsApart base i s s') (scheduled : s.Scheduled) (avoids : s.Avoids D.container D.key i base)
  (busy : ∀ a, s.tasks[i]? ≠ some ⟨.answer, .give (k := .answer) a, base⟩)
include h scheduled avoids busy

theorem moves (moves : s.Moves p e) : ∃ e', s'.Moves p e' ∧ D.SystemsApart base i e e' := by
  cases moves with
  | next next =>
    cases next with
    | run running found =>
      obtain ⟨t', found', apart⟩ := h.exists_task found
      exact ⟨_, .next (.run (h.running.trans running) found'), h.run_avoiding avoids busy found apart⟩
    | @resume j idle waits ready =>
      refine ⟨s'.resume j, .next (.resume (h.running.trans idle) (h.waiting ▸ waits) ((h.ready j).trans ready)), ?_⟩
      exact ⟨h.world, h.tasks, rfl, congrArg (·.erase j) h.waiting, h.present, h.kept⟩
  | begin idle o =>
    refine ⟨_, .begin (h.running.trans idle) o, h.release.start fun t ht => ?_⟩
    rw [List.mem_singleton.1 ht]
    exact .ofOp {} o
  | drop idle name =>
    have forgot : D.SystemsApart base i { s with world := s.world.forget name } { s' with world := s'.world.forget name } :=
      ⟨h.world.forget name, h.tasks, h.running, h.waiting, h.present, h.kept⟩
    exact ⟨_, .drop (h.running.trans idle) name, forgot.release⟩
  | renew idle finished => exact absurd finished (h.not_finished scheduled idle)

theorem moves' (moves : s'.Moves p e') : ∃ e, s.Moves p e ∧ D.SystemsApart base i e e' := by
  cases moves with
  | next next =>
    cases next with
    | run running found =>
      obtain ⟨t, found', apart⟩ := h.exists_task' found
      exact ⟨_, .next (.run (h.running.symm.trans running) found'), h.run_avoiding avoids busy found' apart⟩
    | @resume j idle waits ready =>
      refine ⟨s.resume j, .next (.resume (h.running.symm.trans idle) (h.waiting ▸ waits) ((h.ready j).symm.trans ready)), ?_⟩
      exact ⟨h.world, h.tasks, rfl, congrArg (·.erase j) h.waiting, h.present, h.kept⟩
  | begin idle o =>
    refine ⟨_, .begin (h.running.symm.trans idle) o, h.release.start fun t ht => ?_⟩
    rw [List.mem_singleton.1 ht]
    exact .ofOp {} o
  | drop idle name =>
    have forgot : D.SystemsApart base i { s with world := s.world.forget name } { s' with world := s'.world.forget name } :=
      ⟨h.world.forget name, h.tasks, h.running, h.waiting, h.present, h.kept⟩
    exact ⟨_, .drop (h.running.symm.trans idle) name, forgot.release⟩
  | renew idle finished => exact absurd (h.waiting ▸ finished) (h.not_finished scheduled (h.running.symm.trans idle))

end Moves

end SystemsApart

end Detour

end Injector
