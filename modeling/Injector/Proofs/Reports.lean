import Injector.Proofs.Asking
import Injector.Proofs.Cycles
import Injector.Proofs.Detours
import Injector.Proofs.Marks
/-!
# What is told of cycles

A failure carries the path of the cycle that caused it, however far it is passed on: through builds, bodies, scopes,
other tasks that wait, and into the log. A step tells of no cycle that was not told of before, but for the one that its
own lookup finds (`Task.cycles_step`). So what is told of was found by a lookup of a running task (`Run.cycle_found`).
-/
namespace Injector

/-! ## Paths -/

mutual

/-- The path of the cycle that a failure tells of. -/
def Failure.cycles : Failure → List (List Key)
  | .cycle path => [path]
  | .dependency _ _ _ source => source.cycles
  | .build _ source => source.cycles
  | .unbound _ | .noAccess _ | .missingArgument _ _ _ _ | .incorrectType _ _ => []

/-- The path of the cycle that the failure of a constructor tells of. -/
def Fault.cycles : Fault → List (List Key)
  | .refused source => source.cycles
  | .custom _ _ | .panicked => []

end

mutual

/-- The paths of the cycles that a reply tells of. -/
def Reply.cycles : Reply → List (List Key)
  | .failed f => f.cycles
  | .several rs => Reply.cyclesOf rs
  | _ => []

/-- The paths of the cycles that replies tell of. -/
def Reply.cyclesOf : List Reply → List (List Key)
  | [] => []
  | r :: rs => r.cycles ++ Reply.cyclesOf rs

end

/-- The paths of the cycles that an event tells of. -/
def Event.cycles : Event → List (List Key)
  | .performed _ r => r.cycles
  | _ => []

/-- The paths of the cycles that the log tells of. -/
def World.cycles (w : World) : List (List Key) := w.log.flatMap Event.cycles

/-- The paths of the cycles that an outcome tells of. -/
def Kind.cycles : (k : Kind) → k.Outcome → List (List Key)
  | .answer, .ok _ => []
  | .answer, .error f => f.cycles
  | .reply, r => r.cycles
  | .done, () => []

/-- The paths of the cycles that are handed over. -/
def Activity.cycles : {k : Kind} → Activity k → List (List Key)
  | k, .give outcome => k.cycles outcome
  | _, _ => []

/-- The paths of the cycles that are kept to be told of. -/
def Stack.cycles : {k : Kind} → Stack k → List (List Key)
  | _, .nil => []
  | _, .cons (.close _ r) below => r.cycles ++ below.cycles
  | _, .cons _ below => below.cycles

/-- The paths of the cycles that a task tells of. -/
def Task.cycles (t : Task) : List (List Key) := t.activity.cycles ++ t.stack.cycles

/-- The paths of the cycles that are told of after a step. -/
def Step.cycles (st : Step) : List (List Key) := st.world.cycles ++ st.task.cycles ++ st.started.flatMap Task.cycles

/-- The paths of all cycles that the log and the tasks tell of. -/
def System.cycles (s : System) : List (List Key) := s.world.cycles ++ s.tasks.flatMap Task.cycles

/-! ## Replies -/

theorem Reply.cycles_of_failure {r : Reply} {f : Failure} (failed : r.failure? = some f) : r.cycles = f.cycles := by
  cases r <;> cases failed
  rfl

theorem Heading.cycles_of_stops {h : Heading} {r : Reply} {f : Failure} (stops : h.stops r = some f) :
    r.cycles = f.cycles := by
  unfold Heading.stops at stops
  split at stops
  · exact Reply.cycles_of_failure stops
  · cases stops

theorem Reply.cyclesOf_subset {known : List (List Key)} : ∀ {rs : List Reply}, (∀ r ∈ rs, r.cycles ⊆ known) →
    Reply.cyclesOf rs ⊆ known
  | [], _ => List.nil_subset _
  | r :: rs, h => by
    rw [Reply.cyclesOf]
    exact List.append_subset.2 ⟨h r List.mem_cons_self, cyclesOf_subset fun r hr => h r (List.mem_cons_of_mem _ hr)⟩

/-- A frame fails with what it was answered, or tells of no cycle. -/
theorem Frame.cycles_fillDependency {f : Frame} {t : Ty} {key : Key} {answer : Except Failure Instance} {g : Failure}
    (failed : f.fillDependency t key answer = .error g) : g.cycles ⊆ Kind.cycles .answer answer := by
  obtain ⟨source, rfl, refused⟩ := Frame.fillDependency_error failed
  rcases Shared.expect_error refused with rfl | ⟨v, rfl, -, rfl⟩
  · exact List.Subset.refl _
  · exact List.nil_subset _

theorem Frame.cycles_fillAlone {f : Frame} {e : Extractor} {g : Failure} (failed : f.fillAlone e = .error g) :
    g.cycles = [] := by
  cases e with
  | inject | autowired | annotated | named =>
    simp only [fillAlone] at failed
    exact List.subset_nil.1 (cycles_fillDependency failed)
  | arg q =>
    simp only [fillAlone] at failed
    unfold fillPrimitive at failed
    split at failed
    · split at failed <;> cases failed
      rfl
    · split at failed
      · cases failed
      · split at failed <;> cases failed
        rfl
  | lookup key =>
    cases failed
    rfl
  | rest | kwargs | container | inspect | replace => cases failed

theorem Frame.cycles_fillWith {f : Frame} {key : Key} {answer : Except Failure Instance} {e : Extractor} {g : Failure}
    (failed : f.fillWith key answer e = .error g) : g.cycles ⊆ Kind.cycles .answer answer := by
  cases e with
  | inject | autowired | annotated | named => exact cycles_fillDependency failed
  | rest t =>
    unfold fillWith at failed
    dsimp only at failed
    split at failed
    · cases failed
    · next source refused =>
      cases failed
      rcases Shared.expect_error refused with rfl | ⟨v, rfl, -, rfl⟩
      · exact List.Subset.refl _
      · exact List.nil_subset _
  | lookup =>
    cases answer with
    | ok => cases failed
    | error =>
      cases failed
      exact List.Subset.refl _
  | arg | kwargs | container | inspect | replace =>
    simp only [fillWith] at failed
    rw [cycles_fillAlone failed]
    exact List.nil_subset _

/-! ## Commands tell of no cycles -/

namespace World

theorem cycles_tell (w : World) (e : Event) : (w.tell e).cycles = w.cycles ++ e.cycles := by
  simp [cycles, tell]

@[simp] theorem cycles_save (w : World) (name : Option String) (v : Instance) : (w.save name v).cycles = w.cycles := by
  cases name <;> rfl

@[simp] theorem cycles_release (w : World) (held : List ContainerId) : (w.release held).cycles = w.cycles := by
  rw [cycles, log_release, cycles]

theorem log_instant (p : Program) (w : World) (c : ContainerId) (target : String) (a : Instant Command Op) :
    (w.instant p c target a).2.log = w.log := by
  cases a with
  | same =>
    unfold instant
    dsimp only
    split <;> rfl
  | _ => rfl

theorem cycles_command (p : Program) (w : World) (self : Option ContainerId) (c : Command) :
    (w.command p self c).2.cycles = w.cycles ∧ (w.command p self c).1.cycles = [] := by
  unfold command
  split
  · exact ⟨rfl, rfl⟩
  · constructor
    · rw [cycles, log_instant, cycles]
    · generalize c.action = a
      cases a with
      | same =>
        unfold instant
        dsimp only
        split <;> rfl
      | _ => rfl
  · exact ⟨rfl, rfl⟩

theorem cycles_commands (p : Program) (held : List ContainerId) (self : Option ContainerId) (cs : List Command) :
    ∀ w : World, (w.commands p held self cs).2.cycles = w.cycles := by
  induction cs with
  | nil => exact fun _ => rfl
  | cons c rest ih =>
    intro w
    obtain ⟨same, nothing⟩ := cycles_command p w self c
    unfold commands
    dsimp only
    rw [stops_command]
    dsimp only
    rw [ih, cycles_release, cycles_tell, same, Event.cycles, nothing, List.append_nil]

theorem cycles_showTo (p : Program) (held : List ContainerId) (c : ContainerId) (v : Instance) (hooks : List Hook) :
    ∀ w : World, (w.showTo p held c v hooks).cycles = w.cycles := by
  induction hooks with
  | nil => exact fun _ => rfl
  | cons h rest ih =>
    intro w
    unfold showTo
    split
    · dsimp only
      rw [ih, cycles_commands, cycles_tell]
      exact List.append_nil _
    · exact ih w

@[simp] theorem cycles_record (w : World) (b : Build) (v : Instance) : (w.record b v).cycles = w.cycles := by
  unfold record
  dsimp only
  split <;> rfl

end World

/-! ## Steps -/

namespace Step

variable {known : List (List Key)} {env : Env} {w : World}

theorem cycles_next {k : Kind} {a : Activity k} {below : Stack k} (hw : w.cycles ⊆ known) (ha : a.cycles ⊆ known)
    (hb : below.cycles ⊆ known) : (next w a below).cycles ⊆ known := by
  simp only [next, cycles, Task.cycles, List.flatMap_nil, List.append_nil]
  exact List.append_subset.2 ⟨hw, List.append_subset.2 ⟨ha, hb⟩⟩

theorem cycles_filled {j : Job} {r : Except Failure (Filled × Frame)} {below : Stack .answer} (hw : w.cycles ⊆ known)
    (hr : ∀ f, r = .error f → f.cycles ⊆ known) (hb : below.cycles ⊆ known) : (filled w j r below).cycles ⊆ known := by
  cases r with
  | error f => exact cycles_next hw (hr f rfl) hb
  | ok => exact cycles_next hw (List.nil_subset _) hb

theorem cycles_resolve {r : Request} {below : Stack .answer} (hw : w.cycles ⊆ known)
    (own : ∀ path, Task.cycle? env w ⟨.answer, .resolve r, below⟩ = some path → path ∈ known) (hb : below.cycles ⊆ known) :
    (resolve w r below).cycles ⊆ known := by
  change ∀ path, (resolve w r below).cycle? = some path → path ∈ known at own
  unfold resolve at own ⊢
  split at own
  · exact cycles_next hw (List.nil_subset _) hb
  · exact cycles_next hw (List.nil_subset _) hb
  · dsimp only at own ⊢
    split at own
    · next building =>
      rw [if_pos building]
      exact cycles_next hw (List.cons_subset.2 ⟨own _ rfl, List.nil_subset _⟩) hb
    · next new =>
      rw [if_neg new]
      exact cycles_next hw (List.nil_subset _) hb

theorem cycles_build {b : Build} {below : Stack .answer} (hw : w.cycles ⊆ known) (hb : below.cycles ⊆ known) :
    (build w b below).cycles ⊆ known := by
  unfold build
  split
  · exact cycles_next hw (List.nil_subset _) hb
  · split <;> exact cycles_next hw (List.nil_subset _) hb

theorem cycles_built {b : Build} {answer : Except Failure Instance} {below : Stack .answer} (hw : w.cycles ⊆ known)
    (ha : Kind.cycles .answer answer ⊆ known) (hb : below.cycles ⊆ known) : (built env w b answer below).cycles ⊆ known := by
  cases answer with
  | error => exact cycles_next hw ha hb
  | ok v =>
    refine cycles_next ?_ (List.nil_subset _) hb
    change (World.cycles (World.showTo _ _ _ _ _ _)) ⊆ known
    rwa [World.cycles_showTo, World.cycles_record]

theorem cycles_convert {product : Product} {input : Ty} {answer : Except Failure Instance} {below : Stack .answer}
    (hw : w.cycles ⊆ known) (ha : Kind.cycles .answer answer ⊆ known) (hb : below.cycles ⊆ known) :
    (convert w product input answer below).cycles ⊆ known := by
  unfold convert
  split
  · next refused =>
    rcases Shared.expect_error refused with rfl | ⟨v, rfl, -, rfl⟩
    · exact cycles_next hw ha hb
    · exact cycles_next hw (List.nil_subset _) hb
  · refine cycles_next ?_ (List.nil_subset _) hb
    rw [World.cycles_tell]
    exact List.append_subset.2 ⟨hw, List.nil_subset _⟩

theorem cycles_fill {j : Job} {below : Stack .answer} (hw : w.cycles ⊆ known) (hb : below.cycles ⊆ known) :
    (fill env w j below).cycles ⊆ known := by
  have alone : ∀ {f : Frame} {e : Extractor} {g : Failure}, f.fillAlone e = .error g → g.cycles ⊆ known := by
    intro f e g failed
    rw [Frame.cycles_fillAlone failed]
    exact List.nil_subset _
  unfold fill
  split
  · exact cycles_next hw (List.nil_subset _) hb
  · dsimp only
    split
    · exact cycles_next hw (List.nil_subset _) hb
    · split
      · exact cycles_filled hw (fun _ => alone) hb
      · exact cycles_filled hw (fun _ => alone) hb

theorem cycles_slot {j : Job} {key : Key} {answer : Except Failure Instance} {below : Stack .answer}
    (hw : w.cycles ⊆ known) (ha : Kind.cycles .answer answer ⊆ known) (hb : below.cycles ⊆ known) :
    (slot w j key answer below).cycles ⊆ known := by
  unfold slot
  split
  · exact cycles_next hw (List.nil_subset _) hb
  · exact cycles_filled hw (fun _ failed => List.Subset.trans (Frame.cycles_fillWith failed) ha) hb

/-- A failure that is no other's is none of a cycle. -/
theorem cycles_fault {f : Function} {count : Nat} {reason : Fault} (fault : f.fault count = some reason) :
    reason.cycles = [] := by
  unfold Function.fault at fault
  split at fault
  · split at fault
    · cases fault
      rfl
    · obtain ⟨e, -, rfl⟩ := Option.map_eq_some_iff.1 fault
      rfl
  · cases fault

theorem cycles_conclude {j : Job} {below : Stack .answer} (hw : w.cycles ⊆ known) (hb : below.cycles ⊆ known) :
    (conclude w j below).cycles ⊆ known := by
  have told : ∀ {w' : World} {e : Event}, w'.cycles = w.cycles → e.cycles = [] → (w'.tell e).cycles ⊆ known := by
    intro w' e same nothing
    rwa [World.cycles_tell, same, nothing, List.append_nil]
  unfold conclude
  dsimp only
  split
  · exact cycles_next (told rfl rfl) (List.nil_subset _) hb
  · next fault =>
    refine cycles_next (told rfl rfl) ?_ hb
    change Fault.cycles _ ⊆ known
    rw [cycles_fault fault]
    exact List.nil_subset _
  · exact cycles_next (told rfl rfl) (List.nil_subset _) hb

theorem cycles_body {j : Job} {ops : List Op} {below : Stack .answer} (hw : w.cycles ⊆ known) (hb : below.cycles ⊆ known) :
    (body w j ops below).cycles ⊆ known := by
  cases ops with
  | nil => exact cycles_conclude hw hb
  | cons => exact cycles_next hw (List.nil_subset _) hb

theorem cycles_start {j : Job} {below : Stack .answer} (hw : w.cycles ⊆ known) (hb : below.cycles ⊆ known) :
    (start env w j below).cycles ⊆ known := by
  have done : ∀ cs, (w.commands env.program env.held j.self cs).2.cycles ⊆ known := by
    intro cs
    rwa [World.cycles_commands]
  unfold start
  split
  · exact cycles_body hw hb
  all_goals
    split
    · next failed =>
      exact absurd (congrArg Prod.fst failed) (by simp [World.commands_succeed])
    · next run =>
      have same := congrArg (fun r : Option Failure × World => r.2.cycles) run
      exact cycles_conclude (fun _ hp => done _ (same ▸ hp)) hb

theorem cycles_callback {path : List Key} {ops : List Op} {ts : List Teardown} {below : Stack .done} (hw : w.cycles ⊆ known)
    (hb : below.cycles ⊆ known) : (callback w path ops ts below).cycles ⊆ known := by
  cases ops <;> exact cycles_next hw (List.nil_subset _) hb

theorem cycles_windDown {path : List Key} {ts : List Teardown} {below : Stack .done} (hw : w.cycles ⊆ known)
    (hb : below.cycles ⊆ known) : (windDown w path ts below).cycles ⊆ known := by
  have told : ∀ {e : Event}, e.cycles = [] → (w.tell e).cycles ⊆ known := by
    intro e nothing
    rwa [World.cycles_tell, nothing, List.append_nil]
  unfold windDown
  split
  · exact cycles_next hw (List.nil_subset _) hb
  · exact cycles_callback (told rfl) hb
  · split
    · exact cycles_callback (told rfl) hb
    · exact cycles_next hw (List.nil_subset _) hb

theorem cycles_terminate {c : ContainerId} {path : List Key} {r : Reply} {below : Stack .reply} (hw : w.cycles ⊆ known)
    (hr : r.cycles ⊆ known) (hb : below.cycles ⊆ known) : (terminate w c path r below).cycles ⊆ known :=
  cycles_next hw (List.nil_subset _) (List.append_subset.2 ⟨hr, hb⟩)

theorem cycles_scopeBody {scope : ContainerId} {name : String} {path : List Key} {ops : List Op} {below : Stack .reply}
    (hw : w.cycles ⊆ known) (hb : below.cycles ⊆ known) : (scopeBody w scope name path ops below).cycles ⊆ known := by
  cases ops with
  | nil => exact cycles_terminate hw (List.nil_subset _) hb
  | cons => exact cycles_next hw (List.nil_subset _) hb

theorem cycles_lasting {s : Scene} {c : ContainerId} {a : Lasting Command Op} {below : Stack .reply} (hw : w.cycles ⊆ known)
    (hb : below.cycles ⊆ known) : (lasting env w s c a below).cycles ⊆ known := by
  cases a with
  | get => exact cycles_next hw (List.nil_subset _) hb
  | call =>
    unfold lasting
    dsimp only
    split <;> exact cycles_next hw (List.nil_subset _) hb
  | onResolved t key script =>
    unfold lasting
    dsimp only
    split
    · split
      · refine cycles_next ?_ (List.nil_subset _) hb
        rw [World.cycles_showTo]
        exact hw
      · exact cycles_next hw (List.nil_subset _) hb
    · exact cycles_next hw (List.nil_subset _) hb
  | terminate => exact cycles_terminate hw (List.nil_subset _) hb
  | scope => exact cycles_scopeBody hw hb
  | join ops =>
    have started : (ops.map (Task.ofOp { s with path := [] })).flatMap Task.cycles = [] := by
      rw [List.flatMap_map]
      exact List.flatMap_eq_nil_iff.2 fun _ _ => rfl
    simp only [lasting, next, cycles, started, List.append_nil]
    exact List.append_subset.2 ⟨hw, hb⟩

theorem cycles_perform {s : Scene} {o : Op} {below : Stack .reply} (hw : w.cycles ⊆ known) (hb : below.cycles ⊆ known) :
    (perform env w s o below).cycles ⊆ known := by
  cases o with
  | instant c =>
    obtain ⟨same, nothing⟩ := World.cycles_command env.program w s.self c
    refine cycles_next (same ▸ hw) ?_ hb
    change Reply.cycles (w.command env.program s.self c).1 ⊆ known
    rw [nothing]
    exact List.nil_subset _
  | lasting h a =>
    unfold perform
    dsimp only
    split
    · exact cycles_lasting hw hb
    · exact cycles_next hw (List.nil_subset _) hb

theorem cycles_deliver {expected : Option Ty} {save : Option String} {answer : Except Failure Instance}
    {below : Stack .reply} (hw : w.cycles ⊆ known) (ha : Kind.cycles .answer answer ⊆ known) (hb : below.cycles ⊆ known) :
    (deliver w expected save answer below).cycles ⊆ known := by
  unfold deliver
  split
  · exact cycles_next (by rwa [World.cycles_save]) (List.nil_subset _) hb
  · next f failed =>
    refine cycles_next hw ?_ hb
    cases answer with
    | error => cases failed; exact ha
    | ok v =>
      cases expected with
      | none => cases failed
      | some t =>
        have failed : (Except.ok v).bind (Shared.expect t) = .error f := failed
        rcases Shared.expect_error failed with same | ⟨_, _, -, rfl⟩
        · cases same
        · exact List.nil_subset _

theorem cycles_answered {b : Kind} {answer : Except Failure Instance} {c : Cont .answer b} {below : Stack b}
    (hw : w.cycles ⊆ known) (ha : Kind.cycles .answer answer ⊆ known) (hb : (Stack.cons c below).cycles ⊆ known) :
    (answered env w answer c below).cycles ⊆ known := by
  cases c with
  | slot => exact cycles_slot hw ha hb
  | build => exact cycles_built hw ha hb
  | convert => exact cycles_convert hw ha hb
  | deliver => exact cycles_deliver hw ha hb
  | observe =>
    refine cycles_next hw ?_ hb
    cases answer with
    | error => exact ha
    | ok => exact List.nil_subset _

theorem cycles_replied {b : Kind} {r : Reply} {c : Cont .reply b} {below : Stack b} (hw : w.cycles ⊆ known)
    (hr : r.cycles ⊆ known) (hb : (Stack.cons c below).cycles ⊆ known) : (replied w r c below).cycles ⊆ known := by
  have told : ∀ label, (w.tell (.performed label r)).cycles ⊆ known := by
    intro label
    rw [World.cycles_tell]
    exact List.append_subset.2 ⟨hw, hr⟩
  cases c with
  | body j h rest =>
    unfold replied
    dsimp only
    split
    · next stops =>
      rw [Heading.cycles_of_stops stops] at hr
      exact cycles_next (told _) hr hb
    · exact cycles_body (told _) hb
  | scopeBody scope name path h rest =>
    unfold replied
    dsimp only
    split
    · next stops =>
      have hr : r.cycles ⊆ known := hr
      rw [Heading.cycles_of_stops stops] at hr
      exact cycles_terminate (told _) hr hb
    · exact cycles_scopeBody (told _) hb
  | callback path h rest ts =>
    unfold replied
    dsimp only
    split
    · exact cycles_next (told _) (List.nil_subset _) hb
    · exact cycles_callback (told _) hb

theorem cycles_handOver {k : Kind} {outcome : k.Outcome} {below : Stack k} (hw : w.cycles ⊆ known)
    (ho : k.cycles outcome ⊆ known) (hb : below.cycles ⊆ known) : (handOver env w outcome below).cycles ⊆ known := by
  cases below with
  | nil => exact cycles_next hw ho hb
  | cons c below =>
    cases k with
    | answer => exact cycles_answered hw ho hb
    | reply => exact cycles_replied hw ho hb
    | done =>
      cases c
      obtain ⟨hr, hb⟩ := List.append_subset.1 hb
      exact cycles_next hw hr hb

end Step

/-- A step tells of no cycle that was not told of before, but for the one that its lookup finds. -/
theorem Task.cycles_step (env : Env) (w : World) (t : Task) :
    (t.step env w).cycles ⊆ w.cycles ++ t.cycles ++ (t.cycle? env w).toList := by
  generalize hk : w.cycles ++ t.cycles ++ (t.cycle? env w).toList = known
  have subset : w.cycles ++ (t.activity.cycles ++ t.stack.cycles) ++ (t.cycle? env w).toList ⊆ known :=
    hk ▸ List.Subset.refl _
  obtain ⟨⟨hw, ha, hb⟩, own⟩ : (w.cycles ⊆ known ∧ t.activity.cycles ⊆ known ∧ t.stack.cycles ⊆ known) ∧
      (t.cycle? env w).toList ⊆ known := by
    simpa only [List.append_subset] using subset
  obtain ⟨k, a, below⟩ := t
  cases a with
  | resolve r => exact Step.cycles_resolve hw (fun path found => own (Option.mem_toList.2 found)) hb
  | line b => exact Step.cycles_build hw hb
  | fill j => exact Step.cycles_fill hw hb
  | pause j times =>
    cases times with
    | zero => exact Step.cycles_start hw hb
    | succ => exact Step.cycles_next hw (List.nil_subset _) hb
  | perform s o => exact Step.cycles_perform hw hb
  | windDown path ts => exact Step.cycles_windDown hw hb
  | await => exact Step.cycles_next hw (List.nil_subset _) hb
  | give outcome => exact Step.cycles_handOver hw ha hb

/-! ## Runs -/

namespace System

variable {p : Program} {s s' : System}

theorem cycles_of_mem {t : Task} (ht : t ∈ s.tasks) : t.cycles ⊆ s.cycles := fun _ hp =>
  List.mem_append_right _ (List.mem_flatMap.2 ⟨t, ht, hp⟩)

/-- The replies of tasks are each that of one of them. -/
theorem exists_of_mem_replies {tasks : List Nat} {rs : List Reply} (finished : s.replies tasks = some rs) {r : Reply}
    (hr : r ∈ rs) : ∃ i ∈ tasks, (s.tasks[i]?).bind Task.reply? = some r := by
  induction tasks generalizing rs with
  | nil =>
    cases finished
    cases hr
  | cons i tasks ih =>
    unfold replies at ih finished
    rw [List.mapM_cons] at finished
    obtain ⟨first, replied, finished⟩ := Option.bind_eq_some_iff.1 finished
    obtain ⟨others, later, finished⟩ := Option.bind_eq_some_iff.1 finished
    obtain rfl : first :: others = rs := Option.some.inj finished
    rcases List.mem_cons.1 hr with rfl | hr
    · exact ⟨i, List.mem_cons_self, replied⟩
    · obtain ⟨j, hj, replied⟩ := ih later hr
      exact ⟨j, List.mem_cons_of_mem _ hj, replied⟩

theorem cycles_replies {tasks : List Nat} {rs : List Reply} (finished : s.replies tasks = some rs) :
    ∀ r ∈ rs, r.cycles ⊆ s.cycles := by
  intro r hr
  obtain ⟨i, -, replied⟩ := exists_of_mem_replies finished hr
  obtain ⟨t, found, replied⟩ := Option.bind_eq_some_iff.1 replied
  obtain ⟨r', rfl⟩ := Task.eq_of_reply (t := t) (by rw [replied]; exact Option.some_ne_none _)
  obtain rfl := Option.some.inj replied
  refine List.Subset.trans ?_ (cycles_of_mem (List.mem_of_getElem? found))
  exact List.subset_append_left _ _

/-- What a step of a task tells of was told of before, or found by its lookup. -/
theorem Takes.cycles {i : Nat} {t : Task} {st : Step} (h : s.Takes p i t st) (found : s.tasks[i]? = some t) :
    st.cycles ⊆ s.cycles ++ (t.cycle? ⟨p, s.held, s.tasks.length⟩ s.world).toList := by
  have own : t.cycles ⊆ s.cycles := cycles_of_mem (List.mem_of_getElem? found)
  have world : s.world.cycles ⊆ s.cycles := List.subset_append_left _ _
  cases h with
  | step =>
    refine List.Subset.trans (Task.cycles_step _ _ _) ?_
    refine List.append_subset.2 ⟨?_, List.subset_append_right _ _⟩
    exact List.Subset.trans (List.append_subset.2 ⟨world, own⟩) (List.subset_append_left _ _)
  | joined finished =>
    refine List.Subset.trans ?_ (List.subset_append_left _ _)
    exact Step.cycles_next world (Reply.cyclesOf_subset (cycles_replies finished)) own

theorem cycles_settled (w : World) (ts : List Task) :
    (settledWorld w ts).cycles ++ (settledTasks w ts).flatMap Task.cycles = w.cycles ++ ts.flatMap Task.cycles := by
  have ended : (((w.release (ts.flatMap Task.held)).orphans).map Task.ofTeardowns).flatMap Task.cycles = [] := by
    rw [List.flatMap_map]
    exact List.flatMap_eq_nil_iff.2 fun _ _ => rfl
  have same : (settledWorld w ts).cycles = w.cycles := World.cycles_release _ _
  rw [same, settledTasks, List.flatMap_append, ended, List.append_nil]

/-- What is told of after a move was told of before, or found by the lookup of the running task. -/
theorem Moves.cycles (moves : s.Moves p s') {path : List Key} (told : path ∈ s'.cycles) : path ∈ s.cycles ∨
    ∃ i t, s.running = some i ∧ s.tasks[i]? = some t ∧ t.cycle? ⟨p, s.held, s.tasks.length⟩ s.world = some path := by
  have settled : ∀ w ts, s'.world = settledWorld w ts → s'.tasks = settledTasks w ts →
      path ∈ w.cycles ++ ts.flatMap Task.cycles := by
    intro w ts world tasks
    rwa [System.cycles, world, tasks, cycles_settled] at told
  rcases moves.cases with ⟨i, t, st, running, found, takes, world, tasks⟩ | ⟨-, world, tasks⟩ | ⟨-, outside⟩
  · have told := settled st.world (s.tasks.set i st.task ++ st.started) world tasks
    rw [List.flatMap_append, ← List.append_assoc] at told
    have step : path ∈ st.cycles → path ∈ s.cycles ∨ ∃ i t, s.running = some i ∧ s.tasks[i]? = some t ∧
        t.cycle? ⟨p, s.held, s.tasks.length⟩ s.world = some path := fun told =>
      (List.mem_append.1 (takes.cycles found told)).imp_right fun own => ⟨i, t, running, found, Option.mem_toList.1 own⟩
    rcases List.mem_append.1 told with told | started
    · rcases List.mem_append.1 told with log | told
      · exact step (List.mem_append_left _ (List.mem_append_left _ log))
      · obtain ⟨u, hu, told⟩ := List.mem_flatMap.1 told
        rcases List.mem_or_eq_of_mem_set hu with hu | rfl
        · exact .inl (cycles_of_mem hu told)
        · exact step (List.mem_append_left _ (List.mem_append_right _ told))
    · exact step (List.mem_append_right _ started)
  · left
    rwa [System.cycles, world, tasks] at told
  · left
    rcases outside with ⟨o, world, tasks⟩ | ⟨name, rfl⟩ | ⟨-, rfl⟩
    · rw [System.cycles, world, tasks, List.flatMap_append, ← List.append_assoc] at told
      rcases List.mem_append.1 told with told | nothing
      · rwa [System.cycles, ← cycles_settled]
      · cases nothing
    · exact settled (s.world.forget name) s.tasks rfl rfl
    · cases told

/-- What is told of was found by the lookup of a running task. -/
theorem Run.cycle_found (run : Run p) {n : Nat} {path : List Key} (told : path ∈ (run.state n).cycles) :
    ∃ m < n, ∃ i t, (run.state m).running = some i ∧ (run.state m).tasks[i]? = some t ∧
      t.cycle? ⟨p, (run.state m).held, (run.state m).tasks.length⟩ (run.state m).world = some path := by
  induction n with
  | zero =>
    obtain ⟨name, start⟩ := run.start
    rw [start] at told
    cases told
  | succ n ih =>
    have before : path ∈ (run.state n).cycles → ∃ m < n + 1, ∃ i t, (run.state m).running = some i ∧
        (run.state m).tasks[i]? = some t ∧
        t.cycle? ⟨p, (run.state m).held, (run.state m).tasks.length⟩ (run.state m).world = some path := fun told =>
      let ⟨m, earlier, found⟩ := ih told
      ⟨m, Nat.lt_succ_of_lt earlier, found⟩
    rcases run.moves n with moves | ⟨-, same⟩
    · rcases moves.cycles told with told | found
      · exact before told
      · exact ⟨n, Nat.lt_succ_self n, found⟩
    · exact before (same ▸ told)

end System

end Injector
