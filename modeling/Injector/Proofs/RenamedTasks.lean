import Injector.Proofs.RenamedWorlds
/-!
# Tasks in unison

Two tasks correspond (`Renaming.Tasks`) if they are at the same point: the same activity, with the same around it,
but for instances, which are counterparts, and for tickets. In worlds that correspond, where functions keep no state of
their own, a step of the one and a step of the other lead to tasks and worlds that correspond again (`Tasks.step`). There
is one lemma for each kind of step; a step may do anything here: build, call, perform operations, terminate.
-/
namespace Injector

namespace Renaming

variable {R : Renaming} {p : Program} {w w' : World}

/-! ## Tasks -/

/-- Whether two calls are of the same function, which keeps no state, and were filled with the same up to now. -/
structure Jobs (R : Renaming) (j j' : Job) : Prop where
  alike : R.pairing.AlikeJobs j j'
  steady : j.function.Steady

/-- Whether two activities are the same, but for instances and tickets. -/
inductive Activities (R : Renaming) : {k : Kind} → Activity k → Activity k → Prop
  | resolve (r : Request) (steady : ∀ f, r.fallback = some f → f.Steady) : Activities R (.resolve r) (.resolve r)
  | line {b b' : Build} (h : R.Builds b b') : Activities R (.line b) (.line b')
  | fill {j j' : Job} (h : R.Jobs j j') : Activities R (.fill j) (.fill j')
  | pause {j j' : Job} (h : R.Jobs j j') (times : Nat) : Activities R (.pause j times) (.pause j' times)
  | perform (s : Scene) (o : Op) : Activities R (.perform s o) (.perform s o)
  | windDown (path : List Key) {ts ts' : List Teardown} (h : List.Forall₂ R.Teardowns ts ts') :
    Activities R (.windDown path ts) (.windDown path ts')
  | await (tasks : List Nat) : Activities R (.await tasks) (.await tasks)
  | answer {a a' : Except Failure Instance} (h : Results R.Own a a') :
    Activities R (.give (k := .answer) a) (.give (k := .answer) a')
  | reply {r r' : Reply} (h : R.Replies r r') : Activities R (.give (k := .reply) r) (.give (k := .reply) r')
  | done : Activities R (.give (k := .done) ()) (.give (k := .done) ())

/-- Whether the same waits, but for instances and tickets. -/
inductive Conts (R : Renaming) : {a b : Kind} → Cont a b → Cont a b → Prop
  | slot {j j' : Job} (h : R.Jobs j j') (key : Key) : Conts R (.slot j key) (.slot j' key)
  | build {b b' : Build} (h : R.Builds b b') : Conts R (.build b) (.build b')
  | convert (product : Product) (input : Ty) : Conts R (.convert product input) (.convert product input)
  | body {j j' : Job} (h : R.Jobs j j') (heading : Heading) (rest : List Op) :
    Conts R (.body j heading rest) (.body j' heading rest)
  | deliver (c : ContainerId) (expected : Option Ty) (save : Option String) :
    Conts R (.deliver c expected save) (.deliver c expected save)
  | observe (c : ContainerId) : Conts R (.observe c) (.observe c)
  | close (c : Option ContainerId) {r r' : Reply} (h : R.Replies r r') : Conts R (.close c r) (.close c r')
  | scopeBody (scope : ContainerId) (name : String) (path : List Key) (heading : Heading) (rest : List Op) :
    Conts R (.scopeBody scope name path heading rest) (.scopeBody scope name path heading rest)
  | callback (path : List Key) (heading : Heading) (rest : List Op) {ts ts' : List Teardown}
    (h : List.Forall₂ R.Teardowns ts ts') : Conts R (.callback path heading rest ts) (.callback path heading rest ts')

/-- Whether the same waits, all the way down. -/
inductive Stacks (R : Renaming) : {k : Kind} → Stack k → Stack k → Prop
  | nil : Stacks R .nil .nil
  | cons {a b : Kind} {c c' : Cont a b} {below below' : Stack b} (h : R.Conts c c') (under : Stacks R below below') :
    Stacks R (.cons c below) (.cons c' below')

/-- Whether two tasks are at the same point. -/
inductive Tasks (R : Renaming) : Task → Task → Prop
  | mk {k : Kind} {a a' : Activity k} {below below' : Stack k} (activity : R.Activities a a')
    (under : R.Stacks below below') : Tasks R ⟨k, a, below⟩ ⟨k, a', below'⟩

/-! ### Containers held -/

theorem Activities.held {k : Kind} {a a' : Activity k} (h : R.Activities a a') : a'.held = a.held := by
  cases h with
  | resolve | perform | windDown | await | answer | reply | done => rfl
  | line h => exact congrArg (fun c => [c]) h.container
  | fill h | pause h => exact congrArg (fun c => [c]) h.alike.same.2.2.2

theorem Conts.held {a b : Kind} {c c' : Cont a b} (h : R.Conts c c') : c'.held = c.held := by
  cases h with
  | convert | deliver | observe | close | scopeBody | callback => rfl
  | build h => exact congrArg (fun c => [c]) h.container
  | slot h | body h => exact congrArg (fun c => [c]) h.alike.same.2.2.2

theorem Stacks.held {k : Kind} {below below' : Stack k} (h : R.Stacks below below') : below'.held = below.held := by
  induction h with
  | nil => rfl
  | cons h _ ih => exact congrArg₂ (· ++ ·) h.held ih

/-- Tasks at the same point keep the same containers alive. -/
theorem Tasks.held {t t' : Task} (h : R.Tasks t t') : t'.held = t.held := by
  obtain ⟨activity, under⟩ := h
  exact congrArg₂ (· ++ ·) activity.held under.held

/-- A task that performs an operation is its own counterpart. -/
theorem tasks_ofOp (s : Scene) (o : Op) : R.Tasks (.ofOp s o) (.ofOp s o) := .mk (.perform s o) .nil

theorem tasks_ofTeardowns {ts ts' : List Teardown} (h : List.Forall₂ R.Teardowns ts ts') :
    R.Tasks (.ofTeardowns ts) (.ofTeardowns ts') := .mk (.windDown [] h) (.cons (.close none (.plain trivial)) .nil)

/-- Two tasks at the same point are finished or are not. -/
theorem Tasks.reply? {t t' : Task} (h : R.Tasks t t') : Option.Rel R.Replies t.reply? t'.reply? := by
  obtain ⟨activity, under⟩ := h
  cases under with
  | nil =>
    cases activity with
    | reply h => exact .some h
    | perform | await => exact .none
  | cons _ _ =>
    cases activity <;> exact .none

/-! ## Steps -/

/-- Whether two steps lead to tasks at the same point, and start such. -/
structure Steps (R : Renaming) (st st' : Step) : Prop where
  world : R.Worlds st.world st'.world
  task : R.Tasks st.task st'.task
  started : List.Forall₂ R.Tasks st.started st'.started

section Steps

variable (worlds : R.Worlds w w')
include worlds

theorem next {k : Kind} {a a' : Activity k} {below below' : Stack k} (activity : R.Activities a a')
    (under : R.Stacks below below') : R.Steps (.next w a below) (.next w' a' below') := ⟨worlds, .mk activity under, .nil⟩

theorem finish {below below' : Stack .done} (under : R.Stacks below below') :
    R.Steps (.finish w below) (.finish w' below') := next worlds .done under

theorem reply {r r' : Reply} (h : R.Replies r r') {below below' : Stack .reply} (under : R.Stacks below below') :
    R.Steps (.reply w r below) (.reply w' r' below') := next worlds (.reply h) under

end Steps

/-! ### Resolution -/

section Answers

variable {below below' : Stack .answer} (worlds : R.Worlds w w') (under : R.Stacks below below')
include worlds under

theorem serve {v v' : Instance} (own : R.Own v v') : R.Steps (.serve w v below) (.serve w' v' below') :=
  next worlds (.answer (.ok own)) under

theorem fail (f : Failure) : R.Steps (.fail w f below) (.fail w' f below') := next worlds (.answer (.error f)) under

theorem resolve (steady : ∀ c key β, (w.container c).registry.get? key = some β → β.maker.Steady) (r : Request)
    (fallback : ∀ f, r.fallback = some f → f.Steady) : R.Steps (.resolve w r below) (.resolve w' r below') := by
  have looks := worlds.locate (c := r.container) (fun _ _ => trivial) r.key
  have right := w.right_locate r.container r.key
  unfold Step.resolve
  generalize w.locate r.container r.key = l, w'.locate r.container r.key = l' at looks right
  cases looks with
  | cached c key own => exact serve worlds under own
  | noAccess key => exact fail worlds under _
  | builds c key β =>
    dsimp only
    split
    · exact fail worlds under _
    · obtain ⟨lock, ticket, entered⟩ := worlds.enter trivial (R.clear c key)
      refine next entered (.line ⟨⟨rfl, rfl, rfl, lock, ticket, trivial, R.clear c key⟩, rfl, fun m made => ?_⟩) under
      rcases Build.maker_cases rfl made with ⟨x, found, rfl⟩ | ⟨f, used, rfl⟩
      · have found : β = some x := found
        exact steady c _ x (found ▸ right.2.2)
      · exact fallback f used

theorem build {b b' : Build} (builds : R.Builds b b') :
    R.Steps (.build (w.letIn b) b below) (.build (w'.letIn b') b' below') := by
  have letIn : R.Worlds (w.letIn b) (w'.letIn b') := worlds.letIn builds.toBuilds
  have inner := Stacks.cons (.build builds) under
  unfold Step.build
  rw [builds.key, builds.container, builds.path, builds.maker]
  rcases rel_cases ((letIn.container b.container).cache.instances b.key) with ⟨none, none'⟩ | ⟨v, v', some, some', own⟩
  · rw [none, none']
    dsimp only
    cases made : b.maker with
    | none => exact fail (letIn.leave builds.toBuilds) under _
    | some m =>
      have steady := builds.steady m made
      cases m with
      | function f signature =>
        obtain ⟨arguments, made⟩ := letIn.makeArguments (b.key.tags.map .text) []
        refine next made (.fill ?_) inner
        rw [(made.container b.container).isScope]
        exact ⟨.mk (.mk arguments) .nil, steady⟩
      | chained product input target => exact next letIn (.resolve _ nofun) (.cons (.convert product input) inner)
  · rw [some, some']
    exact serve (letIn.leave builds.toBuilds) under own

theorem filled {j j' : Job} {r r' : Except Failure (Filled × Frame)} (jobs : R.Jobs j j')
    (fillings : R.pairing.AlikeFillings r r') : R.Steps (.filled w j r below) (.filled w' j' r' below') := by
  cases fillings with
  | error f => exact fail worlds under f
  | ok h => exact next worlds (.fill ⟨jobs.alike.fill h.1 h.2, jobs.steady⟩) under

theorem fill {env : Env} {j j' : Job} (steady : ∀ t, (env.program.injectable t).Steady) (jobs : R.Jobs j j') :
    R.Steps (.fill env w j below) (.fill env w' j' below') := by
  obtain ⟨function, subject, frame, todo, filled⟩ := j
  obtain ⟨⟨⟨arguments⟩, given⟩, own⟩ := id jobs
  unfold Step.fill
  dsimp only
  rw [worlds.bound fun _ _ => trivial]
  cases todo with
  | nil => exact next worlds (.pause jobs _) under
  | cons slot rest =>
    have moved := Pairing.AlikeFrames.mk (f := { frame with position := slot.position }) arguments
    dsimp only
    cases slot.extractor.asks (w.bound frame.container) with
    | some key =>
      refine next worlds (.resolve _ fun f used => ?_) (.cons (.slot ⟨jobs.alike.at_frame moved, own⟩ key) under)
      obtain ⟨t, -, rfl⟩ := Option.map_eq_some_iff.1 used
      exact steady t
    | none =>
      dsimp only
      generalize slot.extractor = e
      cases e with
      | replace positional keyword =>
        obtain ⟨replaced, made⟩ := worlds.makeArguments positional keyword
        exact Renaming.filled made under jobs (Pairing.AlikeFrames.fillAlone (.mk replaced) _)
      | inject | autowired | annotated | named | arg | rest | kwargs | container | inspect | lookup =>
        exact Renaming.filled worlds under jobs (moved.fillAlone _)

theorem slot {j j' : Job} {answer answer' : Except Failure Instance} (jobs : R.Jobs j j') (key : Key)
    (answers : Results R.Own answer answer') : R.Steps (.slot w j key answer below) (.slot w' j' key answer' below') := by
  unfold Step.slot
  rw [jobs.alike.same.2.1]
  cases j.todo with
  | nil => exact next worlds (.fill jobs) under
  | cons slot rest =>
    exact filled worlds under jobs (jobs.alike.frame.fillWith (results_alike answers) key slot.extractor)

theorem conclude {j j' : Job} (jobs : R.Jobs j j') : R.Steps (.conclude w j below) (.conclude w' j' below') := by
  obtain ⟨⟨-, filled⟩, steady⟩ := jobs
  have invoked := worlds.invoke j.function.name
  have given := (Pairing.alike_shapeAll j.function.params filled).1
  unfold Step.conclude
  dsimp only
  rw [steady (w'.invoke j.function.name).1 (w.invoke j.function.name).1]
  split
  · exact fail (invoked.tell (.panicked _ given)) under _
  · exact fail (invoked.tell (.failed _ given)) under _
  · have ingredients := List.rel_flatMap filled fun _ _ h => Pairing.AlikeFilled.ingredients h
    obtain ⟨own, made⟩ := invoked.supplied (fun s => s.produce j.function.product _)
      (fun s => s.produce j.function.product _) (produce_own invoked.rest.supply _ ingredients)
    exact serve (made.tell (.built _ own given)) under own

theorem convert {answer answer' : Except Failure Instance} (product : Product) (input : Ty)
    (answers : Results R.Own answer answer') :
    R.Steps (.convert w product input answer below) (.convert w' product input answer' below') := by
  unfold Step.convert
  rcases (expect_own answers input).cases with ⟨v, v', ok, ok', own⟩ | ⟨failure, error, error'⟩
  · rw [ok, ok']
    obtain ⟨result, made⟩ := worlds.supplied (fun s => s.produce product [v]) (fun s => s.produce product [v'])
      (produce_own worlds.rest.supply product (.cons own.alike .nil))
    exact serve (made.tell (.converted result own)) under result
  · rw [error, error']
    exact fail worlds under _

theorem built {env : Env} {b b' : Build} {answer answer' : Except Failure Instance} (builds : R.Builds b b')
    (answers : Results R.Own answer answer') : R.Steps (.built env w b answer below) (.built env w' b' answer' below') := by
  cases answers with
  | error f => exact fail (worlds.leave builds.toBuilds) under f
  | @ok v v' own =>
    have recorded : R.Worlds (w.record b v) (w'.record b' v') := worlds.record builds.toBuilds own
    unfold Step.built
    dsimp only
    rw [recorded.hooksFor builds.toBuilds, builds.container]
    exact serve ((recorded.showTo env.held b.container own _).leave builds.toBuilds) under own

theorem body {j j' : Job} (jobs : R.Jobs j j') (ops : List Op) :
    R.Steps (.body w j ops below) (.body w' j' ops below') := by
  cases ops with
  | nil => exact conclude worlds under jobs
  | cons o rest =>
    unfold Step.body
    dsimp only
    rw [jobs.alike.scene]
    exact next worlds (.perform _ o) (.cons (.body jobs o.heading rest) under)

theorem start {env : Env} {j j' : Job} (jobs : R.Jobs j j') : R.Steps (.start env w j below) (.start env w' j' below') := by
  unfold Step.start
  rw [jobs.alike.same.1, jobs.alike.same.2.2.1, jobs.alike.self]
  split
  · exact body worlds under jobs _
  -- Commands are performed alike, wherever they run.
  all_goals
    rename_i cs _
    obtain ⟨same, done⟩ := worlds.commands (p := env.program) env.held j.self cs
    rcases after : w.commands env.program env.held j.self cs with ⟨failure, w₁⟩
    rcases after' : w'.commands env.program env.held j.self cs with ⟨failure', w₁'⟩
    rw [after, after'] at same done
    obtain rfl : failure' = failure := same
    cases failure' with
    | some failure => exact fail done under _
    | none => exact conclude done under jobs

end Answers

/-! ### What is left to do -/

section Done

variable {below below' : Stack .done} {ts ts' : List Teardown} (worlds : R.Worlds w w') (under : R.Stacks below below')
  (left : List.Forall₂ R.Teardowns ts ts')
include worlds under left

theorem callback (path : List Key) (ops : List Op) :
    R.Steps (.callback w path ops ts below) (.callback w' path ops ts' below') := by
  cases ops with
  | nil => exact next worlds (.windDown path left) under
  | cons o rest => exact next worlds (.perform _ o) (.cons (.callback path o.heading rest left) under)

theorem windDown (path : List Key) : R.Steps (.windDown w path ts below) (.windDown w' path ts' below') := by
  cases left with
  | nil => exact finish worlds under
  | cons first others =>
    cases first with
    | callback s => exact callback (worlds.tell (.terminating s.id)) under others path s.actions
    | finalize f own =>
      unfold Step.windDown
      dsimp only
      rw [own.ty]
      split
      · exact callback (worlds.tell (.finalized _ own)) under others path f.script.actions
      · exact next worlds (.windDown path others) under

end Done

/-! ### Operations -/

section Replies

variable {below below' : Stack .reply} (worlds : R.Worlds w w') (under : R.Stacks below below')
include worlds under

theorem terminate (c : ContainerId) (path : List Key) {r r' : Reply} (h : R.Replies r r') :
    R.Steps (.terminate w c path r below) (.terminate w' c path r' below') := by
  obtain ⟨left, done⟩ := worlds.terminate (c := c) trivial
  exact next done (.windDown path left) (.cons (.close (some c) h) under)

theorem scopeBody (scope : ContainerId) (name : String) (path : List Key) (ops : List Op) :
    R.Steps (.scopeBody w scope name path ops below) (.scopeBody w' scope name path ops below') := by
  cases ops with
  | nil => exact terminate (worlds.forget name) under scope path (.plain trivial)
  | cons o rest => exact next worlds (.perform _ o) (.cons (.scopeBody scope name path o.heading rest) under)

theorem lasting {env : Env} (steady : env.program.Steady) (s : Scene) (c : ContainerId) (a : Lasting Command Op) :
    R.Steps (.lasting env w s c a below) (.lasting env w' s c a below') := by
  cases a with
  | get expected key autowired save =>
    refine next worlds (.resolve _ fun f used => ?_) (.cons (.deliver c expected save) under)
    cases autowired with
    | false => cases used
    | true =>
      obtain ⟨t, -, rfl⟩ := Option.map_eq_some_iff.1 used
      exact steady.injectable t
  | call function positional keyword save =>
    have known : Literal.known w'.saved = Literal.known w.saved := funext fun l => (known_eq worlds.rest.saved l).symm
    unfold Step.lasting
    dsimp only
    rw [known]
    split
    · obtain ⟨arguments, made⟩ := worlds.makeArguments positional keyword
      rw [(made.container c).isScope]
      exact next made (.fill ⟨.mk (.mk arguments) .nil, steady.function function⟩) (.cons (.deliver c none save) under)
    · exact reply worlds (.plain (r := .noSaved) trivial) under
  | onResolved t key script =>
    unfold Step.lasting
    dsimp only
    rw [worlds.chain trivial, worlds.unalias fun _ _ => trivial]
    have added := worlds.addHook c false (w.unalias (w.chain c) key) ⟨t, script⟩
    generalize w.unalias (w.chain c) key = key at added
    rw [(added.container c).cache.isResolved]
    split
    · rcases rel_cases ((added.container c).cache.instances key) with ⟨none, none'⟩ | ⟨v, v', some, some', own⟩
      · rw [none, none']
        exact next added (.resolve _ nofun) (.cons (.observe c) under)
      · rw [some, some']
        exact reply (Worlds.showTo added _ c own _) (.plain (r := .ok) trivial) under
    · exact reply added (.plain (r := .ok) trivial) under
  | terminate => exact terminate worlds under c s.path (.plain trivial)
  | scope name ops =>
    obtain ⟨same, opened⟩ := worlds.openScope c
    unfold Step.lasting
    dsimp only
    rw [same]
    exact scopeBody (opened.giveName name _) under _ name s.path ops
  | join ops =>
    refine ⟨worlds, .mk (.await _) under, ?_⟩
    exact List.forall₂_map_left_iff.2 (List.forall₂_map_right_iff.2 (List.forall₂_same.2 fun o _ => tasks_ofOp _ o))

theorem perform {env : Env} (steady : env.program.Steady) (s : Scene) (o : Op) :
    R.Steps (.perform env w s o below) (.perform env w' s o below') := by
  cases o with
  | instant c =>
    obtain ⟨replies, done⟩ := worlds.command (p := env.program) s.self c
    exact reply done replies under
  | lasting heading action =>
    unfold Step.perform
    dsimp only
    rw [worlds.target]
    split
    · exact lasting worlds under steady s _ action
    · exact reply worlds (.plain (r := .noContainer) trivial) under

theorem deliver {answer answer' : Except Failure Instance} (answers : Results R.Own answer answer') (expected : Option Ty)
    (save : Option String) : R.Steps (.deliver w expected save answer below) (.deliver w' expected save answer' below') := by
  cases answers with
  | error f => exact reply worlds (.plain (r := .failed f) trivial) under
  | @ok v v' own =>
    cases expected with
    | none => exact reply (worlds.save own save) (.instance own) under
    | some t =>
      simp only [Step.deliver, Except.bind, Shared.expect]
      rw [own.ty]
      by_cases suits : v'.ty = t
      · rw [if_pos suits, if_pos suits]
        exact reply (worlds.save own save) (.instance own) under
      · rw [if_neg suits, if_neg suits]
        exact reply worlds (.plain (r := .failed _) trivial) under

end Replies

/-! ### Outcomes -/

theorem answered {b : Kind} {env : Env} {answer answer' : Except Failure Instance} {c c' : Cont .answer b}
    {below below' : Stack b} (worlds : R.Worlds w w') (under : R.Stacks below below') (conts : R.Conts c c')
    (answers : Results R.Own answer answer') :
    R.Steps (.answered env w answer c below) (.answered env w' answer' c' below') := by
  cases conts with
  | slot jobs key => exact slot worlds under jobs key answers
  | build builds => exact built worlds under builds answers
  | convert product input => exact convert worlds under product input answers
  | deliver c expected save => exact deliver worlds under answers expected save
  | observe c =>
    refine reply worlds ?_ under
    cases answers with
    | ok own => exact .plain trivial
    | error f => exact .plain trivial

theorem replied {b : Kind} {r r' : Reply} {c c' : Cont .reply b} {below below' : Stack b} (worlds : R.Worlds w w')
    (under : R.Stacks below below') (conts : R.Conts c c') (replies : R.Replies r r') :
    R.Steps (.replied w r c below) (.replied w' r' c' below') := by
  have told : ∀ label, R.Worlds (w.tell (.performed label r)) (w'.tell (.performed label r')) :=
    fun label => worlds.tell (.performed label replies)
  cases conts with
  | body jobs heading rest =>
    unfold Step.replied
    dsimp only
    rw [replies.stops, jobs.alike.same.2.2.1]
    split
    · exact fail (told _) under _
    · exact body (told _) under jobs rest
  | scopeBody scope name path heading rest =>
    unfold Step.replied
    dsimp only
    rw [replies.stops]
    split
    · exact terminate ((told _).forget name) under scope path (.plain trivial)
    · exact scopeBody (told _) under scope name path rest
  | callback path heading rest left =>
    unfold Step.replied
    dsimp only
    rw [replies.stops]
    split
    · exact next (told _) (.windDown path left) under
    · exact callback (told _) under left path rest

/-- Tasks at the same point go on to the same point. -/
theorem Tasks.step {t t' : Task} (h : R.Tasks t t') {env : Env} (steady : env.program.Steady) (worlds : R.Worlds w w')
    (bound : ∀ c key β, (w.container c).registry.get? key = some β → β.maker.Steady) :
    R.Steps (t.step env w) (t'.step env w') := by
  obtain @⟨k, a, a', below, below', activity, under⟩ := h
  cases activity with
  | resolve r fallback => exact Renaming.resolve worlds under bound r fallback
  | line builds => exact build worlds under builds
  | fill jobs => exact Renaming.fill worlds under steady.injectable jobs
  | pause jobs times =>
    cases times with
    | zero => exact start worlds under jobs
    | succ n => exact next worlds (.pause jobs n) under
  | perform s o => exact Renaming.perform worlds under steady s o
  | windDown path left => exact Renaming.windDown worlds under left path
  | await tasks => exact next worlds (.await tasks) under
  | answer answers =>
    cases under with
    | cons conts under => exact answered worlds under conts answers
  | reply replies =>
    cases under with
    | nil => exact Renaming.reply worlds replies .nil
    | cons conts under => exact replied worlds under conts replies
  | done =>
    cases under with
    | cons conts under =>
      cases conts with
      | close c replies => exact Renaming.reply worlds replies under

end Renaming

end Injector
