import Injector.Proofs.Turns
/-!
# Deeds

What a step does to containers on purpose are its deeds (`Task.deeds`): the commands that are performed
on a container, wherever they stand, and the record of a fresh instance. Whatever else a step changes, it
binds nothing and keeps no instance (`World.ByItself`). `Task.path_step`: a step is its deeds, one after the
other, and otherwise the world goes on by itself.
-/
namespace Injector

/-- A command on a container, or the record of a fresh instance, with the world in which it is done. -/
inductive Deed where
  | command (w : World) (c : ContainerId) (action : Instant Command Op)
  | record (w : World) (b : Build) (v : Instance)

/-! ## What commands do -/

namespace World

/-- What a command does that is performed on a container. -/
def commandDeeds (w : World) (self : Option ContainerId) (c : Command) : List Deed :=
  ((w.target self c.heading.target).map fun id => Deed.command w id c.action).toList

/-- What commands do, one after the other. -/
def commandsDeeds (p : Program) (held : List ContainerId) (self : Option ContainerId) : List Command → World → List Deed
  | [], _ => []
  | c :: rest, w =>
    let (r, w') := w.command p self c
    w.commandDeeds self c ++ match c.heading.stops r with
      | some _ => []
      | none => commandsDeeds p held self rest ((w'.tell (.performed c.heading.label r)).release held)

/-- What hooks do that are shown an instance of container `c`. -/
def showDeeds (p : Program) (held : List ContainerId) (c : ContainerId) (v : Instance) : List Hook → World → List Deed
  | [], _ => []
  | h :: rest, w =>
    if h.ty = v.ty then
      let told := w.tell (.hook h.script.id v (w.container c).isScope)
      commandsDeeds p held (some c) h.script.actions told ++
        showDeeds p held c v rest (told.commands p held (some c) h.script.actions).2
    else showDeeds p held c v rest w

/-- What the body of a job does whose commands are performed at once. -/
def bodyDeeds (env : Env) (w : World) (j : Job) : List Deed :=
  match j.function.body with
  | .awaited _ _ => []
  | .blocking cs | .inline cs => w.commandsDeeds env.program env.held j.self cs

/-- What an operation does that is performed on container `c` and may have to wait: only the hook does something that
is called at once. -/
def lastingDeeds (env : Env) (w : World) (c : ContainerId) : Lasting Command Op → List Deed
  | .onResolved t key script =>
    let key := w.unalias (w.chain c) key
    let w := w.addHook c false key ⟨t, script⟩
    if (w.container c).cache.isResolved key.plain then
      match (w.container c).cache.get? key with
      | some v => w.showDeeds env.program (c :: env.held) c v [⟨t, script⟩]
      | none => []
    else []
  | _ => []

end World

/-- What a step of a task does. -/
def Task.deeds (env : Env) (w : World) : Task → List Deed
  | ⟨_, .pause j 0, _⟩ => w.bodyDeeds env j
  | ⟨_, .perform s (.instant c), _⟩ => w.commandDeeds s.self c
  | ⟨_, .perform s (.lasting h a), _⟩ => ((w.target s.self h.target).map fun c => w.lastingDeeds env c a).getD []
  | ⟨_, .give (k := .answer) (.ok v), .cons (.build b) _⟩ =>
    .record w b v :: (w.record b v).showDeeds env.program env.held b.container v ((w.record b v).hooksFor b)
  | _ => []

/-! ### Commands only -/

/-- Whether a deed is a command. -/
def Deed.Commanded : Deed → Prop
  | .command _ _ _ => True
  | .record _ _ _ => False

instance : DecidablePred Deed.Commanded
  | .command _ _ _ => .isTrue trivial
  | .record _ _ _ => .isFalse id

namespace World

variable {p : Program} {held : List ContainerId} {d : Deed}

theorem commanded_command {w : World} {self : Option ContainerId} {c : Command} (hd : d ∈ w.commandDeeds self c) :
    d.Commanded := by
  obtain ⟨_, _, rfl⟩ := Option.map_eq_some_iff.1 (Option.mem_toList.1 hd)
  trivial

theorem commanded_commands {self : Option ContainerId} (cs : List Command) : ∀ {w : World},
    d ∈ w.commandsDeeds p held self cs → d.Commanded := by
  induction cs with
  | nil => exact fun hd => (List.not_mem_nil hd).elim
  | cons c rest ih =>
    intro w hd
    unfold commandsDeeds at hd
    dsimp only at hd
    rcases List.mem_append.1 hd with hd | hd
    · exact commanded_command hd
    · split at hd
      · cases hd
      · exact ih hd

theorem commanded_show {c : ContainerId} {v : Instance} (hooks : List Hook) : ∀ {w : World},
    d ∈ w.showDeeds p held c v hooks → d.Commanded := by
  induction hooks with
  | nil => exact fun hd => (List.not_mem_nil hd).elim
  | cons h rest ih =>
    intro w hd
    unfold showDeeds at hd
    split at hd
    · exact (List.mem_append.1 hd).elim (commanded_commands _) ih
    · exact ih hd

theorem commanded_body {env : Env} {w : World} {j : Job} (hd : d ∈ w.bodyDeeds env j) : d.Commanded := by
  unfold bodyDeeds at hd
  split at hd
  · cases hd
  all_goals exact commanded_commands _ hd

theorem commanded_lasting {env : Env} {w : World} {c : ContainerId} {a : Lasting Command Op}
    (hd : d ∈ w.lastingDeeds env c a) : d.Commanded := by
  cases a with
  | onResolved t key script =>
    simp only [lastingDeeds] at hd
    split at hd
    · split at hd
      · exact commanded_show _ hd
      · cases hd
    · cases hd
  | get | call | terminate | scope | join => cases hd

end World

/-- What is recorded was in hand. -/
theorem Task.hand_of_record {env : Env} {w w' : World} {t : Task} {b : Build} {v : Instance}
    (h : Deed.record w' b v ∈ t.deeds env w) : t.hand? = some (b, v) := by
  obtain ⟨k, a, below⟩ := t
  cases a with
  | pause j times =>
    cases times with
    | zero => exact (World.commanded_body h).elim
    | succ => cases h
  | perform s o =>
    cases o with
    | instant => exact (World.commanded_command h).elim
    | lasting heading action =>
      change Deed.record w' b v ∈ ((w.target s.self heading.target).map fun c => w.lastingDeeds env c action).getD [] at h
      generalize w.target s.self heading.target = found at h
      cases found with
      | none => cases h
      | some c => exact (World.commanded_lasting (c := c) h).elim
  | @give k outcome =>
    cases k with
    | answer =>
      cases outcome with
      | error => cases below with | cons x below => cases x <;> cases h
      | ok v' =>
        cases below with
        | cons x below =>
          cases x with
          | build b' =>
            rcases List.mem_cons.1 h with same | h
            · cases same
              rfl
            · exact (World.commanded_show _ h).elim
          | slot | convert | deliver | observe => cases h
    | reply | done => cases h
  | resolve | line | fill | windDown | await => cases h

/-! ## What becomes of a world by itself -/

/-- Whether a container has nothing bound that it had not, and keeps no instance that it did not. -/
structure Container.Within (x' x : Container) : Prop where
  live : x'.live = x.live
  own : x'.registry.own = x.registry.own
  forScopes : x'.registry.forScopes = x.registry.forScopes
  inScope : x'.registry.inScope = x.registry.inScope
  kept : ∀ key v, x'.cache.get? key = some v → x.cache.get? key = some v

namespace World

/-- What can become of a world by itself: containers change but for what they have bound and keep, new ones are opened,
and those that nobody can reach are ended. -/
inductive ByItself : World → World → Prop
  | same {w w' : World} (same : w'.containers = w.containers) : ByItself w w'
  | change {w : World} (c : ContainerId) {f : Container → Container} (within : ∀ x, (f x).Within x) :
    ByItself w (w.modify c f)
  | openRoot {w : World} : ByItself w (w.add {}).2
  | openScope {w : World} (c : ContainerId) : ByItself w (w.openScope c).2
  | release {w : World} (held : List ContainerId) : ByItself w (w.release held)
  | trans {w w' w'' : World} (first : ByItself w w') (second : ByItself w' w'') : ByItself w w''

variable {p : Program} {held : List ContainerId} {w w' : World} {c : ContainerId}

namespace ByItself

theorem refl (w : World) : w.ByItself w := .same rfl

theorem locks (w : World) (c : ContainerId) (f : Locks → Locks) : w.ByItself (w.modifyLocks c f) :=
  .change c fun _ => ⟨rfl, rfl, rfl, rfl, fun _ _ => id⟩

theorem callbacks (w : World) (c : ContainerId) (f : Callbacks → Callbacks) : w.ByItself (w.modifyCallbacks c f) :=
  .change c fun _ => ⟨rfl, rfl, rfl, rfl, fun _ _ => id⟩

theorem letIn (w : World) (b : Build) : w.ByItself (w.letIn b) := .locks w _ _

theorem leave (w : World) (b : Build) : w.ByItself (w.leave b) := .locks w _ _

theorem tell (w : World) (e : Event) : w.ByItself (w.tell e) := .same rfl

theorem save (w : World) (name : Option String) (v : Instance) : w.ByItself (w.save name v) := by
  cases name <;> exact .same rfl

theorem terminate (w : World) (c : ContainerId) : w.ByItself (w.terminate c).2 := by
  refine .trans (.callbacks w c _) (.change c fun x => ⟨rfl, rfl, rfl, rfl, fun key v kept => ?_⟩)
  change x.cache.clearBuilt.get? key = some v at kept
  rw [Cache.get?_clearBuilt] at kept
  split at kept
  · exact kept
  · cases kept

end ByItself

/-- A command that neither binds nor pins leaves what is bound and kept alone. -/
theorem byItself_instant (target : String) {a : Instant Command Op} (binds : ∀ key source l f, a ≠ .register key source l f)
    (pins : ∀ key value, a ≠ .pin key value) : w.ByItself (w.instant p c target a).2 := by
  cases a with
  | register => exact absurd rfl (binds _ _ _ _)
  | pin => exact absurd rfl (pins _ _)
  | openRoot name => exact .trans .openRoot (.same rfl)
  | openScope name => exact .trans (.openScope c) (.same rfl)
  | addAlias => exact .change c fun _ => ⟨rfl, rfl, rfl, rfl, fun _ _ => id⟩
  | afterResolving | terminating => exact .change c fun _ => ⟨rfl, rfl, rfl, rfl, fun _ _ => id⟩
  | same a b =>
    unfold instant
    dsimp only
    split <;> exact .refl w
  | clone | drop | arguments | signature | read => exact .same rfl
  | isScope | bound | describe | compare | lifetime | parameters => exact .refl w

/-! ## Paths -/

/-- How a world comes from another one by deeds, in their order. -/
inductive Path (p : Program) : World → List Deed → World → Prop
  | itself {w w' : World} (h : w.ByItself w') : Path p w [] w'
  | command {w : World} {c : ContainerId} (target : String) (action : Instant Command Op) :
    Path p w [.command w c action] (w.instant p c target action).2
  | record {w : World} (b : Build) (v : Instance) : Path p w [.record w b v] (w.record b v)
  | trans {w w' w'' : World} {ds ds' : List Deed} (first : Path p w ds w') (second : Path p w' ds' w'') :
    Path p w (ds ++ ds') w''

namespace Path

variable {ds : List Deed}

theorem refl (w : World) : Path p w [] w := .itself (.refl w)

theorem then_itself {w'' : World} (h : Path p w ds w') (h' : w'.ByItself w'') : Path p w ds w'' :=
  List.append_nil ds ▸ h.trans (.itself h')

end Path

theorem path_command (self : Option ContainerId) (c : Command) :
    w.Path p (w.commandDeeds self c) (w.command p self c).2 := by
  unfold command commandDeeds
  split
  · next name opens =>
    cases w.target self c.heading.target with
    | none => exact .itself (.trans .openRoot (.same rfl))
    | some id =>
      rw [opens]
      exact .command (c := id) "" (.openRoot name)
  · next found _ =>
    rw [found]
    exact .command _ _
  · next none _ =>
    rw [none]
    exact .refl w

theorem path_commands (self : Option ContainerId) (cs : List Command) : ∀ {w : World},
    w.Path p (w.commandsDeeds p held self cs) (w.commands p held self cs).2 := by
  induction cs with
  | nil => exact fun {w} => .refl w
  | cons c rest ih =>
    intro w
    have first : w.Path p (w.commandDeeds self c) (((w.command p self c).2.tell
        (.performed c.heading.label (w.command p self c).1)).release held) :=
      (path_command self c).then_itself (.trans (.tell _ _) (.release held))
    unfold commands commandsDeeds
    dsimp only
    cases c.heading.stops (w.command p self c).1 with
    | some failure => exact (List.append_nil _).symm ▸ first
    | none => exact first.trans ih

theorem path_showTo (c : ContainerId) (v : Instance) (hooks : List Hook) : ∀ {w : World},
    w.Path p (w.showDeeds p held c v hooks) (w.showTo p held c v hooks) := by
  induction hooks with
  | nil => exact fun {w} => .refl w
  | cons h rest ih =>
    intro w
    unfold showTo showDeeds
    split
    · have told : w.Path p [] (w.tell (.hook h.script.id v (w.container c).isScope)) := .itself (.same rfl)
      exact (told.trans (path_commands (some c) h.script.actions)).trans ih
    · exact ih

end World

/-! ## Steps without deeds -/

namespace Step

variable {env : Env} (w : World)

theorem byItself_conclude (j : Job) (below : Stack .answer) : w.ByItself (conclude w j below).world := by
  unfold conclude
  dsimp only
  split <;> exact .same rfl

theorem byItself_body (j : Job) (ops : List Op) (below : Stack .answer) : w.ByItself (body w j ops below).world := by
  cases ops with
  | nil => exact byItself_conclude w j below
  | cons => exact .refl w

theorem byItself_resolve (r : Request) (below : Stack .answer) : w.ByItself (resolve w r below).world := by
  unfold resolve
  split
  · exact .refl w
  · exact .refl w
  · next c key _ _ =>
    split
    · exact .refl w
    · exact .trans (.locks w c fun _ => ((w.container c).locks.enter key w.tickets).2) (.same rfl)

theorem byItself_build (b : Build) (below : Stack .answer) : w.ByItself (build (w.letIn b) b below).world := by
  have entered := World.ByItself.letIn w b
  unfold build
  split
  · exact entered.trans (.leave _ b)
  · split
    · exact entered.trans (.same rfl)
    · exact entered
    · exact entered.trans (.leave _ b)

theorem byItself_filled (j : Job) (r : Except Failure (Filled × Frame)) (below : Stack .answer) :
    w.ByItself (filled w j r below).world := by
  cases r <;> exact .refl w

theorem byItself_fill (j : Job) (below : Stack .answer) : w.ByItself (fill env w j below).world := by
  have goes := fill_cases env w j below
  generalize fill env w j below = st at goes ⊢
  cases goes with
  | calls | asks => exact .refl w
  | fills _ world =>
    rcases world with rfl | ⟨positional, keyword, rfl⟩
    · exact byItself_filled _ _ _ _
    · have made : w.ByItself (w.makeArguments positional keyword).2 := .same rfl
      exact made.trans (byItself_filled _ _ _ _)

theorem byItself_callback (path : List Key) (ops : List Op) (ts : List Teardown) (below : Stack .done) :
    w.ByItself (callback w path ops ts below).world := by
  cases ops <;> exact .refl w

theorem byItself_windDown (path : List Key) (ts : List Teardown) (below : Stack .done) :
    w.ByItself (windDown w path ts below).world := by
  have told := World.ByItself.tell w
  unfold windDown
  split
  · exact .refl w
  · exact (told _).trans (byItself_callback _ _ _ _ _)
  · split
    · exact (told _).trans (byItself_callback _ _ _ _ _)
    · exact .refl w

theorem byItself_scopeBody (scope : ContainerId) (name : String) (path : List Key) (ops : List Op) (below : Stack .reply) :
    w.ByItself (scopeBody w scope name path ops below).world := by
  cases ops with
  | nil =>
    have forgot : w.ByItself (w.forget name) := .same rfl
    exact forgot.trans (.terminate _ scope)
  | cons => exact .refl w

theorem byItself_convert (product : Product) (input : Ty) (answer : Except Failure Instance) (below : Stack .answer) :
    w.ByItself (convert w product input answer below).world := by
  unfold convert
  split
  · exact .refl w
  · exact .same rfl

theorem byItself_slot (j : Job) (key : Key) (answer : Except Failure Instance) (below : Stack .answer) :
    w.ByItself (slot w j key answer below).world := by
  unfold slot
  split
  · exact .refl w
  · exact byItself_filled _ _ _ _

theorem byItself_deliver (expected : Option Ty) (save : Option String) (answer : Except Failure Instance)
    (below : Stack .reply) : w.ByItself (deliver w expected save answer below).world := by
  unfold deliver
  split
  · exact .save w save _
  · exact .refl w

theorem byItself_replied {k : Kind} (r : Reply) (x : Cont .reply k) (below : Stack k) :
    w.ByItself (replied w r x below).world := by
  have told := World.ByItself.tell w
  cases x with
  | body j h rest =>
    unfold replied
    dsimp only
    split
    · exact told _
    · exact (told _).trans (byItself_body _ _ _ _)
  | scopeBody scope name path h rest =>
    unfold replied
    dsimp only
    split
    · have forgot : w.ByItself ((w.tell (.performed h.label r)).forget name) := .same rfl
      exact forgot.trans (.terminate _ scope)
    · exact (told _).trans (byItself_scopeBody _ _ _ _ _ _)
  | callback path h rest ts =>
    unfold replied
    dsimp only
    split
    · exact told _
    · exact (told _).trans (byItself_callback _ _ _ _ _)

/-! ## Steps with deeds -/

variable {w}

theorem path_start (j : Job) (below : Stack .answer) :
    w.Path env.program (w.bodyDeeds env j) (start env w j below).world := by
  unfold World.bodyDeeds start
  cases j.function.body with
  | awaited yields ops => exact .itself (byItself_body w j ops below)
  | blocking cs | inline cs =>
    dsimp only
    have done : w.Path env.program _ (w.commands env.program env.held j.self cs).2 := World.path_commands j.self cs
    split
    · next stops => rw [stops] at done; exact done
    · next goes => rw [goes] at done; exact done.then_itself (byItself_conclude _ j below)

theorem path_lasting (s : Scene) (c : ContainerId) (a : Lasting Command Op) (below : Stack .reply) :
    w.Path env.program (w.lastingDeeds env c a) (lasting env w s c a below).world := by
  cases a with
  | get | join => exact .refl w
  | call function positional keyword save =>
    unfold lasting
    dsimp only
    split <;> exact .itself (.same rfl)
  | terminate => exact .itself (.terminate w c)
  | scope name ops =>
    have opened : w.ByItself ((w.openScope c).2.giveName name (w.openScope c).1) := .trans (.openScope c) (.same rfl)
    exact .itself (opened.trans (byItself_scopeBody _ _ _ _ _ _))
  | onResolved t key script =>
    let key := w.unalias (w.chain c) key
    let w' := w.addHook c false key ⟨t, script⟩
    have added : w.Path env.program [] w' := .itself (.callbacks w c _)
    simp only [lasting, World.lastingDeeds]
    by_cases resolved : (w'.container c).cache.isResolved key.plain = true
    · rw [if_pos resolved, if_pos resolved]
      cases (w'.container c).cache.get? key with
      | some v => exact added.trans (World.path_showTo c v [⟨t, script⟩])
      | none => exact added
    · rw [if_neg resolved, if_neg resolved]
      exact added

theorem path_perform (s : Scene) (o : Op) (below : Stack .reply) :
    w.Path env.program (Task.deeds env w ⟨.reply, .perform s o, below⟩) (perform env w s o below).world := by
  cases o with
  | instant c => exact World.path_command s.self c
  | lasting h a =>
    unfold Task.deeds perform
    dsimp only
    cases w.target s.self h.target with
    | none => exact .refl w
    | some c => exact path_lasting s c a below

theorem path_built (b : Build) (answer : Except Failure Instance) (below : Stack .answer) :
    w.Path env.program (Task.deeds env w ⟨.answer, .give answer, .cons (.build b) below⟩)
      (built env w b answer below).world := by
  cases answer with
  | error f => exact .itself (.leave w b)
  | ok v =>
    have shown : (w.record b v).Path env.program _ ((w.record b v).showTo env.program env.held b.container v
      ((w.record b v).hooksFor b)) := World.path_showTo b.container v _
    exact ((World.Path.record b v).trans shown).then_itself (.leave _ b)

theorem path_handOver {k : Kind} (outcome : k.Outcome) (below : Stack k) :
    w.Path env.program (Task.deeds env w ⟨k, .give outcome, below⟩) (handOver env w outcome below).world := by
  cases below with
  | nil => exact .refl w
  | cons x below =>
    cases x with
    | build b => exact path_built b outcome below
    | slot j key => cases outcome <;> exact .itself (byItself_slot _ _ _ _ _)
    | convert product input => cases outcome <;> exact .itself (byItself_convert _ _ _ _ _)
    | deliver c expected save => cases outcome <;> exact .itself (byItself_deliver _ _ _ _ _)
    | observe => cases outcome <;> exact .refl w
    | body | scopeBody | callback => exact .itself (byItself_replied _ _ _ _)
    | close => exact .refl w

end Step

/-- A step is its deeds, and otherwise the world goes on by itself. -/
theorem Task.path_step (env : Env) (w : World) (t : Task) :
    w.Path env.program (t.deeds env w) (t.step env w).world := by
  obtain ⟨k, a, below⟩ := t
  cases a with
  | resolve r => exact .itself (Step.byItself_resolve w r below)
  | line b => exact .itself (Step.byItself_build w b below)
  | fill j => exact .itself (Step.byItself_fill w j below)
  | pause j times =>
    cases times with
    | zero => exact Step.path_start j below
    | succ => exact .refl w
  | perform s o => exact Step.path_perform s o below
  | windDown path ts => exact .itself (Step.byItself_windDown w path ts below)
  | await => exact .refl w
  | give outcome => exact Step.path_handOver outcome below

/-! ## Moves -/

namespace System

variable {p : Program} {s s' : System}

/-- What the running task does in its next step. -/
def deeds (p : Program) (s : System) : List Deed :=
  (s.current.map (Task.deeds ⟨p, s.held, s.tasks.length⟩ s.world)).getD []

theorem byItself_settled (w : World) (ts : List Task) : w.ByItself (settledWorld w ts) :=
  .trans (.release _) (.same rfl)

/-- Who is over or has to wait does nothing. -/
theorem Halts.deeds_eq (h : s.Halts) : s.deeds p = [] := by
  cases current : s.current with
  | none => rw [deeds, current]; rfl
  | some t =>
    obtain ⟨i, running, found⟩ := exists_of_current current
    rw [deeds, current]
    rcases h i t running found with ⟨r, rfl⟩ | ⟨b, below, rfl, -⟩ | ⟨ts, below, rfl⟩ <;> rfl

/-- A move is the deeds of the running task. -/
theorem Moves.path (h : s.Moves p s') : s.world.Path p (s.deeds p) s'.world := by
  rcases h.cases with ⟨i, t, st, running, found, takes, world, -⟩ | ⟨halts, world, -⟩ | ⟨idle, outside⟩
  · have stepped : s.world.Path p (s.deeds p) st.world := by
      rw [deeds, current_eq running found]
      cases takes with
      | step => exact Task.path_step ⟨p, s.held, s.tasks.length⟩ s.world t
      | joined => exact .refl _
    rw [world, world_put]
    exact stepped.then_itself (byItself_settled _ _)
  · rw [halts.deeds_eq, world]
    exact .refl _
  · rw [(Halts.of_idle idle).deeds_eq]
    rcases outside with ⟨o, world, -⟩ | ⟨name, rfl⟩ | ⟨-, rfl⟩
    · rw [world]
      exact .itself (byItself_settled s.world s.tasks)
    · have forgot : s.world.ByItself (s.world.forget name) := .same rfl
      exact .itself (forgot.trans (byItself_settled _ s.tasks))
    · exact .itself (.same rfl)

end System

end Injector
