import Injector.Proofs.Beginnings
/-!
# Calling and building agree

A function may be called with texts as its arguments, or bound to a type, without being shared, without a finalizer and
without hooks, and the type be asked for with the texts as its tags (`Errand`). From a system outside of any build
(`Errand.Placed`) the build begins with the third move and from then on does what the call does, move by move
(`Errand.Placed.follows`, `Errand.Placed.leads`), until the call has its answer; the build has it one move later
(`Errand.Placed.ends`). So whatever answer the one comes to, the other comes to as well, its parameters get the same
values, and if it waits forever, so does the other (`Errand.Placed.call_agrees_with_build`).

What keeps them together is that nobody else asks for the key on the way (`Errand.Goes`).
-/
namespace Injector

/-! ## Steps that end no container -/

namespace World

variable {w : World} {held : List ContainerId}

/-- The end of containers has nothing to do with the supply. -/
theorem release_supply (w : World) (x : Supply) (held : List ContainerId) :
    ({ w with supply := x } : World).release held = { w.release held with supply := x } := by
  have same : ({ w with supply := x } : World).unreachable held = w.unreachable held := rfl
  unfold release
  rw [same]
  induction w.unreachable held generalizing w with
  | nil => rfl
  | cons c l ih => exact ih (w.close c) rfl

end World

namespace System

variable {p : Program} {s s' : System} {i : Nat} {t t' : Task} {st : Step}

theorem put_eq (s : System) (i : Nat) {st : Step} (started : st.started = []) : s.put i st = {
    world := settledWorld st.world (s.tasks.set i st.task)
    tasks := settledTasks st.world (s.tasks.set i st.task)
    running := s.running
    waiting := s.waiting ++
      (List.range (st.world.release ((s.tasks.set i st.task).flatMap Task.held)).orphans.length).map (s.tasks.length + ·) } := by
  have stepped : System.start { s with world := st.world, tasks := s.tasks.set i st.task } [] =
      { s with world := st.world, tasks := s.tasks.set i st.task } := by
    simp [System.start]
  unfold System.put
  rw [started, stepped]
  simp [System.release, System.adopt, System.start, settledWorld, settledTasks, System.held]

/-- Where all that is open can be reached, this is still so if containers stay what they are and nobody lets go of one. -/
theorem tidy_set {w : World} {xs : List (Build × Instance)} (tidy : s.world.Tidy s.held) (found : s.tasks[i]? = some t)
    (after : s.world.After xs w) (kept : ∀ c ∈ t.held, c ∈ t'.held) : w.Tidy ((s.tasks.set i t').flatMap Task.held) := by
  have all : w.Tidy s.held := by
    refine ⟨fun c alive => ?_, after.orphans.trans tidy.orphans⟩
    rw [World.reachable_congr after.names after.chain]
    exact tidy.reached c ⟨after.length ▸ alive.1, after.live c ▸ alive.2⟩
  refine all.mono fun c hc => ?_
  obtain ⟨u, hu, hc⟩ := List.mem_flatMap.1 hc
  obtain ⟨j, hj⟩ := List.getElem?_of_mem hu
  by_cases e : i = j
  · subst e
    obtain rfl := Option.some.inj (hj.symm.trans found)
    exact List.mem_flatMap.2 ⟨t', List.mem_set (List.getElem?_eq_some_iff.1 found).1 _, kept c hc⟩
  · exact List.mem_flatMap.2 ⟨u, List.mem_of_getElem? ((List.getElem?_set_ne e).trans hj), hc⟩

/-- A step that leaves containers what they are and lets go of none changes just its task. -/
theorem put_eq_of_after {xs : List (Build × Instance)} (tidy : s.world.Tidy s.held) (found : s.tasks[i]? = some t)
    (after : s.world.After xs st.world) (started : st.started = []) (kept : ∀ c ∈ t.held, c ∈ st.task.held) :
    s.put i st = { s with world := st.world, tasks := s.tasks.set i st.task } := by
  have tidy := tidy_set tidy found after kept
  rw [put_eq s i started, settledWorld_of_tidy tidy, settledTasks_of_tidy tidy, tidy.release_eq, tidy.orphans]
  simp

end System

/-! ## Calls and resolutions -/

/-- The call of a function by task `task`, or instead of it the resolution of a key on the same container. -/
structure Errand where
  task : Nat
  scene : Scene
  heading : Heading
  container : ContainerId
  function : String
  key : Key
  save : Option String
  below : Stack .reply

namespace Errand

variable {o : Errand} {p : Program} {s s' e e' : System}

/-- The task that is to call the function, with the tags of the key as arguments. -/
def call (o : Errand) : Task :=
  ⟨.reply, .perform o.scene (.lasting o.heading (.call o.function (o.key.tags.map .text) [] o.save)), o.below⟩

/-- The task that is to resolve the key. -/
def get (o : Errand) : Task := ⟨.reply, .perform o.scene (.lasting o.heading (.get none o.key false o.save)), o.below⟩

/-- What waits for the answer. -/
def base (o : Errand) : Stack .answer := .cons (.deliver o.container none o.save) o.below

/-- The system in which the key is to be resolved instead. -/
def instead (o : Errand) (s : System) : System := { s with tasks := s.tasks.set o.task o.get }

/-- The build that the resolution makes. -/
def detour (o : Errand) (p : Program) (s : System) : Detour where
  container := o.container
  key := o.key
  function := p.function o.function
  ticket := s.world.tickets
  building := true

/-- Whether the running task is to call the function outside of any build, on a container that has it bound to the type of the key
as a transient binding without a finalizer, and where the key is neither kept nor built by anybody. -/
structure Placed (o : Errand) (p : Program) (s : System) : Prop where
  reached : System.Reachable p s
  running : s.running = some o.task
  calls : s.tasks[o.task]? = some o.call
  outside : o.scene.path = []
  target : s.world.target o.scene.self o.heading.target = some o.container
  typed : o.key.isName = false
  bound : (s.world.container o.container).registry.get? o.key.plain = some (p.function o.function).unbound
  uncached : (s.world.container o.container).cache.get? o.key = none
  free : ∀ t ∈ s.tasks, ∀ b ∈ t.locked, b.container = o.container → b.key ≠ o.key

/-- Whether the answer is there. -/
def Gives (o : Errand) (s : System) (a : Except Failure Instance) : Prop :=
  s.tasks[o.task]? = some ⟨.answer, .give (k := .answer) a, o.base⟩

/-- Whether the parameters have these values, and the body of the function is next, for whose answer `above` waits. -/
def Enters (o : Errand) (p : Program) (s : System) (values : List Filled) (above : Stack .answer) : Prop :=
  ∃ j times, s.tasks[o.task]? = some ⟨.answer, .pause j times, above⟩ ∧ j.function = p.function o.function ∧ j.filled = values

/-- A move while the answer is not there and nobody else asks for the key. -/
structure Goes (o : Errand) (p : Program) (s s' : System) : Prop where
  avoids : s.Avoids o.container o.key o.task o.base
  busy : ∀ a, ¬ o.Gives s a
  moves : s.Moves p s'

/-- Moves up to the answer at most, while nobody else asks for the key. -/
def Course (o : Errand) (p : Program) : System → System → Prop := Relation.ReflTransGen (o.Goes p)

/-! ### The first steps -/

theorem call_step (env : Env) (w : World) (target : w.target o.scene.self o.heading.target = some o.container) :
    o.call.step env w = .next (w.makeArguments (o.key.tags.map .text) []).2
      (.fill (Job.start (env.program.function o.function) (env.program.function o.function).key o.container
        (w.container o.container).isScope (w.makeArguments (o.key.tags.map .text) []).1
        (env.program.function o.function).signature o.scene.path)) o.base := by
  have known : (o.key.tags.map Literal.text ++ ([] : List (String × Literal)).map Prod.snd).all (Literal.known w.saved) = true := by
    simp [Literal.known]
  change Step.perform env w o.scene (.lasting o.heading (.call o.function (o.key.tags.map .text) [] o.save)) o.below = _
  unfold Step.perform
  dsimp only
  rw [target]
  dsimp only [Step.lasting]
  rw [if_pos known]
  rfl

theorem get_step (env : Env) (w : World) (target : w.target o.scene.self o.heading.target = some o.container) :
    o.get.step env w = .next w (.resolve { container := o.container, key := o.key, path := o.scene.path }) o.base := by
  change Step.perform env w o.scene (.lasting o.heading (.get none o.key false o.save)) o.below = _
  unfold Step.perform
  dsimp only
  rw [target]
  rfl

/-- The request for the key. -/
def request (o : Errand) : Request := { container := o.container, key := o.key, path := [] }

/-- The function's job, in the one case. -/
def job (o : Errand) (p : Program) (w : World) : Job :=
  Job.start (p.function o.function) (p.function o.function).key o.container (w.container o.container).isScope
    (w.makeArguments (o.key.tags.map .text) []).1 (p.function o.function).signature []

/-- The system once the function is called. -/
def called (o : Errand) (p : Program) (s : System) : System :=
  s.put o.task (.next (s.world.makeArguments (o.key.tags.map .text) []).2 (.fill (o.job p s.world)) o.base)

/-- The system once the key is to be looked up. -/
def looked (o : Errand) (s : System) : System := (o.instead s).put o.task (.next s.world (.resolve o.request) o.base)

/-- The system once the build is in line. -/
def lined (o : Errand) (p : Program) (s : System) : System :=
  { o.looked s with
    world := ((o.looked s).world.enter o.container o.key).2.2
    tasks := (o.looked s).tasks.set o.task ⟨.answer, .line (o.detour p s).build, o.base⟩ }

/-- The world once the build has its lock. -/
def entered (o : Errand) (p : Program) (s : System) : World :=
  ((o.looked s).world.enter o.container o.key).2.2.letIn (o.detour p s).build

/-- The task once the build has begun. -/
def inside (o : Errand) (p : Program) (s : System) : Task :=
  ⟨.answer, .fill ((o.job p (o.looked s).world).under (o.detour p s) [o.key] true), .cons (.build (o.detour p s).build) o.base⟩

/-- The system once the build has begun. -/
def begun (o : Errand) (p : Program) (s : System) : System :=
  { o.looked s with
    world := ((o.entered p s).makeArguments (o.key.tags.map .text) []).2
    tasks := (o.looked s).tasks.set o.task (o.inside p s) }

/-- What the build makes its arguments in is the world before it, but for the lock. -/
theorem after_entered (o : Errand) (p : Program) (s : System) : (o.looked s).world.After [] (o.entered p s) :=
  ((World.After.refl (o.looked s).world).enter o.container o.key).modifyLocks o.container fun l =>
    l.grant s.world.tickets s.world.tickets

/-- The tasks once the key is to be looked up. -/
def asking (o : Errand) (s : System) : List Task := s.tasks.set o.task ⟨.answer, .resolve o.request, o.base⟩

theorem looked_eq (o : Errand) (s : System) : o.looked s = {
    world := System.settledWorld s.world (o.asking s)
    tasks := System.settledTasks s.world (o.asking s)
    running := s.running
    waiting := s.waiting ++
      (List.range (s.world.release ((o.asking s).flatMap Task.held)).orphans.length).map (s.tasks.length + ·) } := by
  have twice : (o.instead s).tasks.set o.task ⟨.answer, .resolve o.request, o.base⟩ = o.asking s := List.set_set _
  have count : (o.instead s).tasks.length = s.tasks.length := List.length_set
  rw [looked, System.put_eq _ _ rfl]
  dsimp only [Step.next]
  rw [twice, count]
  rfl

theorem looked_world (o : Errand) (s : System) : (o.looked s).world = System.settledWorld s.world (o.asking s) := by
  rw [looked_eq]

theorem looked_tasks (o : Errand) (s : System) : (o.looked s).tasks = System.settledTasks s.world (o.asking s) := by
  rw [looked_eq]

/-- Arguments are made of the same before and after the end of containers. -/
theorem looked_supply (o : Errand) (s : System) :
    (o.looked s).world.supply = s.world.supply ∧ (o.looked s).world.saved = s.world.saved := by
  rw [looked_world]
  exact ⟨World.supply_release _ _, World.saved_release _ _⟩

theorem tidy_looked (o : Errand) (s : System) : (o.looked s).world.Tidy (o.looked s).held := by
  rw [System.held, looked_world, looked_tasks]
  exact System.tidy_settled _ _

namespace Placed

variable (h : o.Placed p s)
include h

theorem present : o.task < s.tasks.length := (List.getElem?_eq_some_iff.1 h.calls).1

theorem called_eq_run : s.run p o.task o.call = o.called p s := by
  have step := call_step ⟨p, s.held, s.tasks.length⟩ s.world h.target
  rw [h.outside] at step
  exact congrArg (s.put o.task) step

theorem looked_eq_run : (o.instead s).run p o.task o.get = o.looked s := by
  have step := get_step ⟨p, (o.instead s).held, (o.instead s).tasks.length⟩ s.world h.target
  rw [h.outside] at step
  exact congrArg ((o.instead s).put o.task) step

theorem get?_instead : (o.instead s).tasks[o.task]? = some o.get := List.getElem?_set_self h.present

theorem get?_looked : (o.looked s).tasks[o.task]? = some ⟨.answer, .resolve o.request, o.base⟩ :=
  System.get?_put h.get?_instead _

/-! ### What the end of containers leaves alone -/

theorem kept : o.container ∈ (o.asking s).flatMap Task.held :=
  List.mem_flatMap.2 ⟨_, List.mem_set h.present _, List.mem_cons_self⟩

theorem looked_container : (o.looked s).world.container o.container = s.world.container o.container := by
  rw [looked_world]
  refine (World.container_release _ _ _).trans (if_neg fun unreached => ?_)
  refine (World.mem_unreachable.1 unreached).2 (List.mem_flatMap.2 ⟨o.container, ?_, List.mem_cons_self⟩)
  exact List.mem_append_right _ h.kept

theorem alive : s.world.Alive o.container := by
  refine World.alive_target h.reached.sound.ok (fun c self => ?_) h.target
  refine h.reached.sound.alive o.call (List.mem_of_getElem? h.calls) c (List.mem_append_left _ ?_)
  exact Option.mem_toList.2 self

theorem begins : (o.detour p s).Begins (o.looked s).world := by
  have before : (o.detour p s).Begins s.world := {
    ticket := rfl
    alive := h.alive
    swept := h.reached.swept
    made := h.reached.locked.made _ _ _
    issued := h.reached.attended.issued
    free := h.reached.entry_eq_none h.free }
  have alive : (o.looked s).world.Alive o.container := by
    refine ⟨?_, ?_⟩
    · rw [looked_world]
      exact (World.length_release _ _).symm ▸ h.alive.1
    · rw [h.looked_container]
      exact h.alive.2
  exact before.keeps (looked_world o s ▸ World.KeepsLocks.settled s.world _) alive

/-- The container has the key bound itself. -/
theorem located : (o.looked s).world.locate o.container o.key = .builds o.container o.key (some (p.function o.function).unbound) := by
  have serves : (o.looked s).world.serves o.container o.key =
      some (.builds o.container o.key (some (p.function o.function).unbound)) := by
    rw [World.serves, h.looked_container, h.uncached, h.bound]
    rfl
  unfold World.locate
  cases ((o.looked s).world.container o.container).bases with
  | nil => rw [World.locateFrom, World.unalias_of_not_name _ _ h.typed, serves]; rfl
  | cons => rw [World.locateFrom, World.unalias_of_not_name _ _ h.typed, serves]

theorem running_looked : (o.looked s).running = some o.task :=
  (congrArg System.running (looked_eq o s)).trans h.running

/-- The build goes in line. -/
theorem lined_eq_run : (o.looked s).run p o.task ⟨.answer, .resolve o.request, o.base⟩ = o.lined p s := by
  have step : Task.step ⟨p, (o.looked s).held, (o.looked s).tasks.length⟩ (o.looked s).world ⟨.answer, .resolve o.request, o.base⟩ =
      .next ((o.looked s).world.enter o.container o.key).2.2 (.line (o.detour p s).build) o.base := by
    have fresh : o.key ∉ o.request.path := List.not_mem_nil
    have lock : ((o.looked s).world.enter o.container o.key).1 = s.world.tickets := congrArg Prod.fst h.begins.enter_eq
    have ticket : ((o.looked s).world.enter o.container o.key).2.1 = s.world.tickets := congrArg (·.2.1) h.begins.enter_eq
    change Step.resolve (o.looked s).world o.request o.base = _
    unfold Step.resolve
    rw [show (o.looked s).world.locate o.request.container o.request.key = _ from h.located]
    dsimp only
    rw [if_neg fresh, lock, ticket]
    rfl
  have run : (o.looked s).run p o.task ⟨.answer, .resolve o.request, o.base⟩ =
      (o.looked s).put o.task (.next ((o.looked s).world.enter o.container o.key).2.2 (.line (o.detour p s).build) o.base) :=
    congrArg ((o.looked s).put o.task) step
  exact run.trans (System.put_eq_of_after (tidy_looked o s) h.get?_looked ((World.After.refl _).enter _ _) rfl fun _ hc => hc)

theorem get?_lined : (o.lined p s).tasks[o.task]? = some ⟨.answer, .line (o.detour p s).build, o.base⟩ :=
  List.getElem?_set_self (List.getElem?_eq_some_iff.1 h.get?_looked).1

theorem tidy_lined : (o.lined p s).world.Tidy (o.lined p s).held :=
  System.tidy_set (tidy_looked o s) h.get?_looked ((World.After.refl _).enter _ _) fun _ hc => hc

theorem build_step : Step.build (o.entered p s) (o.detour p s).build o.base =
    ⟨((o.entered p s).makeArguments (o.key.tags.map .text) []).2, o.inside p s, []⟩ := by
  have uncached : ((o.entered p s).container (o.detour p s).build.container).cache.get? (o.detour p s).build.key = none := by
    change ((o.entered p s).container o.container).cache.get? o.key = none
    rw [(after_entered o p s).cache, h.looked_container]
    exact h.uncached
  have scope : ((o.entered p s).container o.container).isScope = ((o.looked s).world.container o.container).isScope := by
    rw [Container.isScope, (after_entered o p s).bases, Container.isScope]
  unfold Step.build
  rw [uncached]
  dsimp only [Build.maker, detour, Detour.build, Option.map_some, Function.unbound, job, Job.under, Job.start]
  rw [World.makeArguments, World.container_supplied, scope]
  rfl

/-- The build begins. -/
theorem begun_eq_run : (o.lined p s).run p o.task ⟨.answer, .line (o.detour p s).build, o.base⟩ = o.begun p s := by
  have ready : (o.lined p s).ready o.task = true := by
    unfold System.ready
    rw [h.get?_lined]
    exact h.begins.mayStart
  have made : (o.lined p s).world.After [] ((o.entered p s).makeArguments (o.key.tags.map .text) []).2 :=
    ((World.After.refl _).modifyLocks _ _).supplied _
  have put : (o.lined p s).put o.task ⟨_, o.inside p s, []⟩ = _ :=
    System.put_eq_of_after h.tidy_lined h.get?_lined made rfl fun _ hc => List.mem_cons_of_mem _ hc
  have twice : (o.lined p s).tasks.set o.task (o.inside p s) = (o.begun p s).tasks := List.set_set _
  unfold System.run
  dsimp only
  rw [if_pos ready]
  refine (congrArg ((o.lined p s).put o.task) h.build_step).trans (put.trans ?_)
  dsimp only
  rw [twice]
  rfl

theorem job_eq : o.job p s.world = o.job p (o.looked s).world := by
  obtain ⟨supply, saved⟩ := looked_supply o s
  unfold job
  rw [h.looked_container, World.makeArguments, World.makeArguments, saved, World.supplied, World.supplied, supply]

/-- The containers that nobody can reach any more are ended in both. -/
theorem called_eq : o.called p s = { o.looked s with
    world := ((o.looked s).world.makeArguments (o.key.tags.map .text) []).2
    tasks := (o.looked s).tasks.set o.task ⟨.answer, .fill (o.job p (o.looked s).world), o.base⟩ } := by
  obtain ⟨supply, saved⟩ := looked_supply o s
  obtain ⟨x, made, made'⟩ : ∃ x, (s.world.makeArguments (o.key.tags.map .text) []).2 = { s.world with supply := x } ∧
      ((o.looked s).world.makeArguments (o.key.tags.map .text) []).2 = { (o.looked s).world with supply := x } := by
    refine ⟨_, rfl, ?_⟩
    rw [World.makeArguments, saved, World.supplied, supply]
    rfl
  let calling := s.tasks.set o.task ⟨.answer, .fill (o.job p s.world), o.base⟩
  -- The tasks work with the same containers, whether the function is called or the key looked up.
  have held : calling.flatMap Task.held = (o.asking s).flatMap Task.held := by
    rw [List.flatMap_def, List.flatMap_def, List.map_set, asking, List.map_set]
    rfl
  have twice : (o.asking s).set o.task ⟨.answer, .fill (o.job p s.world), o.base⟩ = calling := List.set_set _
  have present : o.task < (o.asking s).length := List.length_set.symm ▸ h.present
  rw [made', ← h.job_eq, looked_eq, called, System.put_eq _ _ rfl]
  dsimp only [Step.next]
  rw [made, System.settledWorld, System.settledTasks, World.release_supply, held, System.settledWorld, System.settledTasks,
    List.set_append_left _ _ present, twice]

/-- Whoever is there when the key is looked up was in line before, if at all. -/
theorem beside {j : Nat} {t : Task} (other : j ≠ o.task) (found : (o.looked s).tasks[j]? = some t) :
    (o.detour p s).TasksApart o.base false t t := by
  rw [looked_tasks, System.settledTasks, List.getElem?_append] at found
  apply Detour.TasksApart.self
  intro b hb
  split at found
  · rw [asking, List.getElem?_set_ne (Ne.symm other)] at found
    have ht := List.mem_of_getElem? found
    have made := h.reached.locked.made _ _ _ (h.reached.locked.entry t ht b hb)
    exact ⟨made, h.reached.ticket_lt t ht b hb, h.free t ht b hb⟩
  · obtain ⟨left, -, rfl⟩ := List.mem_map.1 (List.mem_of_getElem? found)
    cases hb

/-- From then on the one is in the build what the other is in the call. -/
theorem systemsApart : (o.detour p s).SystemsApart o.base o.task (o.called p s) (o.begun p s) := by
  have present : o.task < (o.looked s).tasks.length := (List.getElem?_eq_some_iff.1 h.get?_looked).1
  rw [h.called_eq]
  refine ⟨((h.begins.apart rfl).makeArguments _ []).2, fun j => ?_, rfl, rfl, ?_, List.mem_cons_self⟩
  · rw [begun, List.getElem?_set, List.getElem?_set]
    by_cases same : o.task = j
    · subst same
      rw [if_pos rfl, if_pos rfl, if_pos present, if_pos present, decide_eq_true rfl]
      have own : (o.detour p s).Own (o.job p (o.looked s).world) := ⟨rfl, rfl, fun _ hs => hs⟩
      exact .some (.mk (.fill _ fun _ => own) (.base rfl))
    · rw [if_neg same, if_neg same, decide_eq_false (Ne.symm same)]
      cases found : (o.looked s).tasks[j]? with
      | none => exact .none
      | some t => exact .some (h.beside (Ne.symm same) found)
  · rw [List.length_set]
    exact present

end Placed

/-! ### Courses -/

/-- Whether the call and the resolution have come to the same: the answer is the same, and so are the systems, but that an
instance of the resolution has the type of the key marked as resolved. -/
structure Alike (o : Errand) (D : Detour) (a a' : Except Failure Instance) (e e' : System) : Prop where
  answer : D.AnswersApart true true a a'
  world : D.done.Apart (D.marks a e.world) e'.world
  tasks : ∀ j ≠ o.task, Option.Rel (D.TasksApart o.base false) e.tasks[j]? e'.tasks[j]?
  running : e'.running = e.running
  waiting : e'.waiting = e.waiting

/-- Whether calling and building agree: to what the one comes, the other comes as well. -/
structure Agree (o : Errand) (p : Program) (s : System) : Prop where
  /-- If the call has an answer, the resolution comes to one that is like it. -/
  resolves : ∀ {e a}, o.Course p s e → e.Avoids o.container o.key o.task o.base → o.Gives e a →
    ∃ e' a', o.Course p (o.instead s) e' ∧ o.Gives e' a' ∧ o.Alike (o.detour p s) a a' e e'
  /-- If the resolution has an answer, the call comes to one that is like it. -/
  calls : ∀ {e' a'}, o.Course p (o.instead s) e' → o.Gives e' a' →
    ∃ e a, o.Course p s e ∧ o.Gives e a ∧ o.Alike (o.detour p s) a a' e e'
  /-- If the call gives values to the parameters, the build comes to give them the same. -/
  builds : ∀ {e values}, o.Course p s e → e.Avoids o.container o.key o.task o.base → o.Enters p e values o.base →
    ∃ e', o.Course p (o.instead s) e' ∧ o.Enters p e' values (.cons (.build (o.detour p s).build) o.base)
  /-- If the build gives values to the parameters, the call comes to give them the same. -/
  fills : ∀ {e' values}, o.Course p (o.instead s) e' →
    o.Enters p e' values (.cons (.build (o.detour p s).build) o.base) →
    ∃ e, o.Course p s e ∧ o.Enters p e values o.base
  /-- If nobody can go on before the call has its answer, the resolution comes to where nobody can. -/
  stops : ∀ {e}, o.Course p s e → e.Avoids o.container o.key o.task o.base → (¬ ∃ e₁, e.Next p e₁) →
    ∃ e', o.Course p (o.instead s) e' ∧ ¬ ∃ e₁', e'.Next p e₁'
  /-- If nobody can go on before the resolution has its answer, the call comes to where nobody can. -/
  stops' : ∀ {e'}, o.Course p (o.instead s) e' → (¬ ∃ e₁', e'.Next p e₁') →
    ∃ e, o.Course p s e ∧ ¬ ∃ e₁, e.Next p e₁

theorem Course.reached (course : o.Course p s e) (reached : System.Reachable p s) : System.Reachable p e := by
  induction course with
  | refl => exact reached
  | tail _ goes ih => exact ih.move goes.moves

/-- As long as the task runs, the moves are its own. -/
theorem Course.of_head {t : Task} (course : o.Course p s e) (running : s.running = some o.task)
    (found : s.tasks[o.task]? = some t) (later : e ≠ s) :
    s.Avoids o.container o.key o.task o.base ∧ o.Course p (s.run p o.task t) e := by
  rcases course.cases_head with rfl | ⟨d, goes, course⟩
  · exact absurd rfl later
  · exact ⟨goes.avoids, goes.moves.eq_run running found ▸ course⟩

section Apart

variable {D : Detour} (apart : D.SystemsApart o.base o.task e e')
include apart

/-- The answer of the build is not yet that of the resolution. -/
theorem not_gives (a : Except Failure Instance) : ¬ o.Gives e' a := by
  intro gives
  obtain ⟨t, t', -, found', ⟨-, under⟩⟩ := apart.exists_inside
  cases found'.symm.trans gives
  exact Nat.lt_irrefl _ under.on.2.height_lt

/-- When the call has its answer, the build has it. -/
theorem given {a : Except Failure Instance} (gives : o.Gives e a) : ∃ a',
    e'.tasks[o.task]? = some ⟨.answer, .give (k := .answer) a', .cons (.build D.build) o.base⟩ ∧ D.AnswersApart true true a a' := by
  obtain ⟨t, t', found, found', ⟨activity, under⟩⟩ := apart.exists_inside
  cases found.symm.trans gives
  obtain ⟨rfl, rfl⟩ := under.eq_build
  cases activity with
  | answer answers => exact ⟨_, found', answers⟩

end Apart

namespace Placed

variable (h : o.Placed p s)
include h

theorem reached_called : System.Reachable p (o.called p s) :=
  h.reached.move (.next (h.called_eq_run ▸ .run h.running h.calls))

/-- In the course of the call, the resolution is under way. -/
theorem follows (course : o.Course p (o.called p s) e) :
    ∃ e', o.Course p (o.begun p s) e' ∧ (o.detour p s).SystemsApart o.base o.task e e' := by
  induction course with
  | refl => exact ⟨_, .refl, h.systemsApart⟩
  | tail course goes ih =>
    obtain ⟨e', course', apart⟩ := ih
    have scheduled := (Course.reached course h.reached_called).scheduled
    obtain ⟨e₁', moves, apart'⟩ := apart.moves scheduled goes.avoids goes.busy goes.moves
    exact ⟨e₁', course'.tail ⟨apart.avoids_iff.2 goes.avoids, not_gives apart, moves⟩, apart'⟩

/-- Who has just come to the answer runs. -/
theorem running_of_gives {a : Except Failure Instance} (course : o.Course p (o.called p s) e) (gives : o.Gives e a) :
    e.running = some o.task := by
  rcases Relation.ReflTransGen.cases_tail course with rfl | ⟨d, before, goes⟩
  · have fills : (o.called p s).tasks[o.task]? = some ⟨.answer, .fill (o.job p (o.looked s).world), o.base⟩ := by
      rw [h.called_eq]
      exact List.getElem?_set_self (List.getElem?_eq_some_iff.1 h.get?_looked).1
    cases fills.symm.trans gives
  · obtain ⟨d', -, apart⟩ := h.follows before
    exact goes.moves.running_of_give apart.present goes.busy gives

/-- In the move after the call has its answer, the resolution has it as well. -/
theorem ends {a : Except Failure Instance} (course : o.Course p (o.called p s) e) (gives : o.Gives e a)
    (hooks : (e.world.container o.container).callbacks.hooksFor o.key = [])
    (apart : (o.detour p s).SystemsApart o.base o.task e e') :
    ∃ e₁' a', (∀ e₂', e'.Moves p e₂' ↔ e₂' = e₁') ∧ o.Gives e₁' a' ∧ o.Alike (o.detour p s) a a' e e₁' := by
  obtain ⟨a', found', answers⟩ := given apart gives
  have running : e'.running = some o.task := apart.running.trans (h.running_of_gives course gives)
  have reached := Course.reached course h.reached_called
  have free : (e.world.container o.container).locks.entries.get? o.key = none := by
    refine reached.entry_eq_none fun t ht b hb => ?_
    obtain ⟨j, found⟩ := List.getElem?_of_mem ht
    obtain ⟨t', -, apart⟩ := apart.exists_task found
    exact apart.clear rfl (fun b hb => h.free o.call (List.mem_of_getElem? h.calls) b (List.mem_append_right _ hb)) b hb
  obtain ⟨w, xs, step, after, same⟩ :=
    apart.world.built rfl free hooks answers ⟨p, e'.held, e'.tasks.length⟩ o.base
  have kept : ∀ c ∈ [o.container] ++ o.base.held, c ∈ o.base.held := by
    intro c hc
    rcases List.mem_append.1 hc with here | hc
    · exact List.mem_singleton.1 here ▸ apart.kept
    · exact hc
  have run : e'.run p o.task ⟨.answer, .give (k := .answer) a', .cons (.build (o.detour p s).build) o.base⟩ =
      { e' with world := w, tasks := e'.tasks.set o.task ⟨.answer, .give (k := .answer) a', o.base⟩ } :=
    (congrArg (e'.put o.task) step).trans (System.put_eq_of_after (apart.tidy reached.tidy) found' after rfl kept)
  refine ⟨_, a', fun e₂' => ⟨fun moves => (moves.eq_run running found').trans run, ?_⟩, ?_, answers, same, fun j other => ?_,
    apart.running, apart.waiting⟩
  · rintro rfl
    exact run ▸ .next (.run running found')
  · exact List.getElem?_set_self (List.getElem?_eq_some_iff.1 found').1
  · have beside := apart.tasks j
    rw [decide_eq_false other] at beside
    rwa [List.getElem?_set_ne (Ne.symm other)]

/-- In the course of the resolution, the call is under way, or it has come to its answer just before. -/
theorem leads (course : o.Course p (o.begun p s) e') :
    (∃ e, o.Course p (o.called p s) e ∧ (o.detour p s).SystemsApart o.base o.task e e') ∨
      ∃ e a a', o.Course p (o.called p s) e ∧ o.Gives e a ∧ o.Gives e' a' ∧ o.Alike (o.detour p s) a a' e e' := by
  induction course with
  | refl => exact .inl ⟨_, .refl, h.systemsApart⟩
  | tail _ goes ih =>
    obtain ⟨e, course, apart⟩ | ⟨_, _, a', _, _, gives', _⟩ := ih
    · have avoids := apart.avoids_iff.1 goes.avoids
      by_cases answered : ∃ a, o.Gives e a
      · obtain ⟨a, gives⟩ := answered
        obtain ⟨e₁', a', only, gives', alike⟩ := h.ends course gives avoids.hooks apart
        obtain rfl := (only _).1 goes.moves
        exact .inr ⟨e, a, a', course, gives, gives', alike⟩
      · have busy : ∀ a, ¬ o.Gives e a := fun a gives => answered ⟨a, gives⟩
        have scheduled := (Course.reached course h.reached_called).scheduled
        obtain ⟨e₁, moves, apart⟩ := apart.moves' scheduled avoids busy goes.moves
        exact .inl ⟨e₁, course.tail ⟨avoids, busy, moves⟩, apart⟩
    · exact absurd gives' (goes.busy a')

/-! ### The first moves -/

/-- Up to the build the task runs, and has nothing to do with the function. -/
theorem early {d : System} (before : d ∈ [o.instead s, o.looked s, o.lined p s]) :
    d.running = some o.task ∧ ∃ t, d.tasks[o.task]? = some t ∧ (t = o.get ∨ ¬ t.Unasking) := by
  simp only [List.mem_cons, List.not_mem_nil, or_false] at before
  rcases before with rfl | rfl | rfl
  · exact ⟨h.running, _, h.get?_instead, .inl rfl⟩
  · exact ⟨h.running_looked, _, h.get?_looked, .inr id⟩
  · exact ⟨h.running_looked, _, h.get?_lined, .inr id⟩

theorem not_early {a : Activity .answer} {above : Stack .answer} (found : e'.tasks[o.task]? = some ⟨.answer, a, above⟩)
    (later : Task.Unasking ⟨.answer, a, above⟩) : e' ∉ [o.instead s, o.looked s, o.lined p s] := by
  intro before
  obtain ⟨-, t, found', get | asks⟩ := h.early before
  · cases found.symm.trans (found'.trans (congrArg some get))
  · cases found.symm.trans found'
    exact asks later

/-- The build begins with the third move. -/
theorem begun_of_course (course : o.Course p (o.instead s) e') (later : e' ∉ [o.instead s, o.looked s, o.lined p s]) :
    (o.instead s).Avoids o.container o.key o.task o.base ∧ o.Course p (o.begun p s) e' := by
  simp only [List.mem_cons, List.not_mem_nil, or_false, not_or] at later
  obtain ⟨avoids, course⟩ := course.of_head h.running h.get?_instead later.1
  rw [h.looked_eq_run] at course
  obtain ⟨-, course⟩ := course.of_head h.running_looked h.get?_looked later.2.1
  rw [h.lined_eq_run] at course
  obtain ⟨-, course⟩ := course.of_head h.running_looked h.get?_lined later.2.2
  rw [h.begun_eq_run] at course
  exact ⟨avoids, course⟩

theorem avoids_instead : (o.instead s).Avoids o.container o.key o.task o.base ↔ s.Avoids o.container o.key o.task o.base := by
  have other : ∀ j ≠ o.task, (o.instead s).tasks[j]? = s.tasks[j]? := fun j other => List.getElem?_set_ne (Ne.symm other)
  constructor
  · refine fun avoids => avoids.of_same (fun _ _ => rfl) rfl (fun j ne => (other j ne).symm) fun r above found => ?_
    cases h.calls.symm.trans found
  · refine fun avoids => avoids.of_same (fun _ _ => rfl) rfl other fun r above found => ?_
    cases h.get?_instead.symm.trans found

/-- The three moves up to the build. -/
theorem course_begun (asks : s.Avoids o.container o.key o.task o.base)
    (called : (o.called p s).Avoids o.container o.key o.task o.base) : o.Course p (o.instead s) (o.begun p s) := by
  have looks : (o.looked s).Avoids o.container o.key o.task o.base := by
    rw [h.called_eq] at called
    have after : (o.looked s).world.After [] ((o.looked s).world.makeArguments (o.key.tags.map .text) []).2 :=
      (World.After.refl _).supplied _
    refine called.of_same (fun d k => (after.locate_eq d k).symm) (after.hooksFor _ _).symm
      (fun j other => (List.getElem?_set_ne (Ne.symm other)).symm) fun r above found => ?_
    cases h.get?_looked.symm.trans found
    rfl
  have lined : (o.lined p s).Avoids o.container o.key o.task o.base := by
    have after := (World.After.refl (o.looked s).world).enter o.container o.key
    refine looks.of_same after.locate_eq (after.hooksFor _ _) (fun j other => List.getElem?_set_ne (Ne.symm other))
      fun r above found => ?_
    cases h.get?_lined.symm.trans found
  have first : o.Goes p (o.instead s) (o.looked s) := by
    refine ⟨h.avoids_instead.2 asks, fun a gives => ?_, .next (h.looked_eq_run ▸ .run h.running h.get?_instead)⟩
    cases h.get?_instead.symm.trans gives
  have second : o.Goes p (o.looked s) (o.lined p s) := by
    refine ⟨looks, fun a gives => ?_, .next (h.lined_eq_run ▸ .run h.running_looked h.get?_looked)⟩
    cases h.get?_looked.symm.trans gives
  have third : o.Goes p (o.lined p s) (o.begun p s) := by
    refine ⟨lined, fun a gives => ?_, .next (h.begun_eq_run ▸ .run h.running_looked h.get?_lined)⟩
    cases h.get?_lined.symm.trans gives
  exact ((Relation.ReflTransGen.single first).tail second).tail third

/-! ### The whole way -/

/-- The call leads to whatever its first move leads to. -/
theorem course_called (asks : s.Avoids o.container o.key o.task o.base) (course : o.Course p (o.called p s) e) :
    o.Course p s e := by
  refine .head ⟨asks, fun a gives => ?_, .next (h.called_eq_run ▸ .run h.running h.calls)⟩ course
  cases h.calls.symm.trans gives

/-- While the call is on, the resolution is. -/
theorem shadows (course : o.Course p s e) (avoids : e.Avoids o.container o.key o.task o.base)
    (later : e ≠ s) : o.Course p (o.called p s) e ∧
      ∃ e', o.Course p (o.instead s) e' ∧ (o.detour p s).SystemsApart o.base o.task e e' := by
  obtain ⟨asks, course⟩ := course.of_head h.running h.calls later
  rw [h.called_eq_run] at course
  have called : (o.called p s).Avoids o.container o.key o.task o.base := by
    rcases course.cases_head with rfl | ⟨_, goes, _⟩
    · exact avoids
    · exact goes.avoids
  obtain ⟨e', course', apart⟩ := h.follows course
  exact ⟨course, e', (h.course_begun asks called).trans course', apart⟩

/-- Calling a function, with the tags of a key as its arguments, and building the key that it is bound to agree, as long as
nobody else asks for the key on the way. -/
theorem call_agrees_with_build : o.Agree p s where
  resolves {e a} course avoids gives := by
    have later : e ≠ s := fun same => by cases h.calls.symm.trans (same ▸ gives)
    obtain ⟨course, e', course', apart⟩ := h.shadows course avoids later
    obtain ⟨e₁', a', only, gives', alike⟩ := h.ends course gives avoids.hooks apart
    exact ⟨e₁', a', course'.tail ⟨apart.avoids_iff.2 avoids, not_gives apart, (only _).2 rfl⟩, gives', alike⟩
  calls {e' a'} course' gives' := by
    obtain ⟨asks, course'⟩ := h.begun_of_course course' (h.not_early gives' trivial)
    obtain ⟨e, -, apart⟩ | ⟨e, a, a'', course, gives, gives'', alike⟩ := h.leads course'
    · exact absurd gives' (not_gives apart a')
    · cases gives'.symm.trans gives''
      exact ⟨e, a, h.course_called (h.avoids_instead.1 asks) course, gives, alike⟩
  builds {e values} course avoids enters := by
    obtain ⟨j, times, found, function, filled⟩ := enters
    have later : e ≠ s := fun same => by cases h.calls.symm.trans (same ▸ found)
    obtain ⟨-, e', course', apart⟩ := h.shadows course avoids later
    obtain ⟨t, t', found₁, found', ⟨activity, under⟩⟩ := apart.exists_inside
    cases found₁.symm.trans found
    obtain ⟨rfl, rfl⟩ := under.eq_build
    cases activity with
    | pause => exact ⟨e', course', _, times, found', function, filled⟩
  fills {e' values} course' enters := by
    obtain ⟨j, times, found', function, filled⟩ := enters
    obtain ⟨asks, course'⟩ := h.begun_of_course course' (h.not_early found' trivial)
    obtain ⟨e, course, apart⟩ | ⟨e, a, a', -, -, gives', -⟩ := h.leads course'
    · obtain ⟨t, t', found, found₁, ⟨activity, under⟩⟩ := apart.exists_inside
      cases found₁.symm.trans found'
      obtain ⟨rfl, rfl⟩ := under.eq_base
      cases activity with
      | pause => exact ⟨e, h.course_called (h.avoids_instead.1 asks) course, _, times, found, function, filled⟩
    · cases found'.symm.trans gives'
  stops {e} course avoids stuck := by
    have later : e ≠ s := by
      rintro rfl
      exact stuck ⟨_, .run h.running h.calls⟩
    obtain ⟨-, e', course', apart⟩ := h.shadows course avoids later
    exact ⟨e', course', mt (apart.next_iff p).2 stuck⟩
  stops' {e'} course' stuck := by
    have later : e' ∉ [o.instead s, o.looked s, o.lined p s] := fun before =>
      let ⟨running, _, found, _⟩ := h.early before
      stuck ⟨_, .run running found⟩
    obtain ⟨asks, course'⟩ := h.begun_of_course course' later
    obtain ⟨e, course, apart⟩ | ⟨e, a, a', course, gives, gives', alike⟩ := h.leads course'
    · exact ⟨e, h.course_called (h.avoids_instead.1 asks) course, mt (apart.next_iff p).1 stuck⟩
    · exact absurd ⟨_, .run (alike.running.trans (h.running_of_gives course gives)) gives'⟩ stuck

end Placed

end Errand

theorem System.Avoids.of_unasking {s : System} {c : ContainerId} {key : Key} {i : Nat} {base : Stack .answer}
    (asks : ∀ t ∈ s.tasks, t.Unasking) (hooks : (s.world.container c).callbacks.hooksFor key = []) : s.Avoids c key i base where
  asks _ _ _ found := (asks _ (List.mem_of_getElem? found)).elim
  hooks := hooks

/-! ### A sign is carved -/

/-- A sign is carved with a text. -/
def signs : Program where
  functions := Table.empty.insert "carve"
    { name := "carve", product := .object "Sign", params := [.one (.arg .text)], body := .inline [] }

/-- Carving is bound to signs, and then called with a text. -/
def signRun : System.Run signs :=
  .ofOps signs "root" [.on "root" (.register none (.function "carve" true) .transient none),
    .lasting ⟨"", "root", false⟩ (.call "carve" [.text "oak"] [] none)]

/-- The call, or instead of it the resolution of the sign with the text as its tag. -/
def signErrand : Errand where
  task := 1
  scene := {}
  heading := ⟨"", "root", false⟩
  container := 0
  function := "carve"
  key := .tagged (.declared "Sign") ["oak"]
  save := none
  below := .nil

theorem placed_signErrand : signErrand.Placed signs (signRun.state 6) where
  reached := signRun.reachable 6
  running := rfl
  calls := rfl
  outside := rfl
  target := rfl
  typed := rfl
  bound := rfl
  uncached := rfl
  free := by decide +kernel

theorem goes_signErrand (n : Nat) (before : n < 4) :
    signErrand.Goes signs (signRun.state (6 + n)) (signRun.state (6 + n + 1)) := by
  have asks : ∀ n < 4, ∀ t ∈ (signRun.state (6 + n)).tasks, t.Unasking := by decide +kernel
  have runs : ∀ n < 4, (signRun.state (6 + n)).running = some 1 := by decide +kernel
  refine ⟨.of_unasking (asks n before) ?_, fun a gives => ?_, (signRun.moves _).resolve_right fun rests => ?_⟩
  · interval_cases n <;> rfl
  · interval_cases n <;> cases gives
  · cases (runs n before).symm.trans rests.1

/-- The same sign is carved, whether the function is called with the text or the sign is resolved with the text as its tag. In
the one case signs are marked as resolved. -/
theorem a_sign_either_way : signErrand.Placed signs (signRun.state 6) ∧
    signErrand.Course signs (signRun.state 6) (signRun.state 10) ∧
    ∃ v e, v.ty = .declared "Sign" ∧ signErrand.Gives (signRun.state 10) (.ok v) ∧
      signErrand.Course signs (signErrand.instead (signRun.state 6)) e ∧ signErrand.Gives e (.ok v) ∧
      (e.world.container 0).cache.isResolved (.type (.declared "Sign")) = true ∧
      ((signRun.state 10).world.container 0).cache.isResolved (.type (.declared "Sign")) = false := by
  have course : signErrand.Course signs (signRun.state 6) (signRun.state 10) :=
    (((Relation.ReflTransGen.single (goes_signErrand 0 (by decide))).tail (goes_signErrand 1 (by decide))).tail
      (goes_signErrand 2 (by decide))).tail (goes_signErrand 3 (by decide))
  have avoids : (signRun.state 10).Avoids 0 signErrand.key 1 signErrand.base := .of_unasking (by decide +kernel) rfl
  obtain ⟨v, ty, gives⟩ : ∃ v, v.ty = .declared "Sign" ∧ signErrand.Gives (signRun.state 10) (.ok v) := ⟨_, rfl, rfl⟩
  obtain ⟨e, a', course', gives', alike⟩ := placed_signErrand.call_agrees_with_build.resolves course avoids gives
  cases alike.answer with
  | ok =>
    refine ⟨placed_signErrand, course, v, e, ty, gives, course', gives', ?_, rfl⟩
    rw [alike.world.cache]
    rfl

end Injector
