import Injector.Proofs.AlikeWorlds
/-!
# Resolutions in lockstep

Where functions and hooks keep no state and perform no operations, a step of a resolution depends on
nothing but the containers that it is about. So two resolutions that are at alike tasks in alike worlds
go on with alike tasks, in alike worlds (`AlikeTasks.step`), whatever the other containers are like.
-/
namespace Injector

namespace Pairing

variable {R : Pairing} {p : Program} {w w' : World} {base base' above above' : Stack .answer}

/-! ## Tasks -/

/-- Whether two calls are alike, of a pure function, on a container that both resolutions are about. -/
structure PureJobs (R : Pairing) (j j' : Job) : Prop where
  alike : R.AlikeJobs j j'
  here : j.frame.container ∈ R.containers
  pure : j.function.Pure
  fresh : ∀ slot ∈ j.todo, slot.extractor.Fresh

/-- Whether two activities of resolutions are alike: requests are, if what they look up is, and what they build is built on a
container that both resolutions are about. -/
inductive AlikeActivities (R : Pairing) (w w' : World) : Activity .answer → Activity .answer → Prop
  | resolve {r r' : Request} (looks : Located.Like R.Alike (w.locate r.container r.key) (w'.locate r'.container r'.key))
    (here : ∀ {c key β}, w.locate r.container r.key = .builds c key β → c ∈ R.containers) (path : r'.path = r.path) (fallback : r'.fallback = r.fallback) (pure : ∀ f, r.fallback = some f → f.Pure) :
    AlikeActivities R w w' (.resolve r) (.resolve r')
  | line {b b' : Build} (h : R.AlikeBuilds b b') : AlikeActivities R w w' (.line b) (.line b')
  | fill {j j' : Job} (h : R.PureJobs j j') : AlikeActivities R w w' (.fill j) (.fill j')
  | pause {j j' : Job} (h : R.PureJobs j j') (times : Nat) : AlikeActivities R w w' (.pause j times) (.pause j' times)
  | give {a a' : Except Failure Instance} (h : Results R.Alike a a') :
    AlikeActivities R w w' (.give (k := .answer) a) (.give (k := .answer) a')

/-- Whether what was put on `base` by the one resolution is like what was put on `base'` by the other. -/
inductive AlikeStacks (R : Pairing) (base base' : Stack .answer) : Stack .answer → Stack .answer → Prop
  | base : AlikeStacks R base base' base base'
  | build {b b' : Build} {above above' : Stack .answer} (h : R.AlikeBuilds b b')
    (under : AlikeStacks R base base' above above') :
    AlikeStacks R base base' (.cons (.build b) above) (.cons (.build b') above')
  | slot {j j' : Job} {above above' : Stack .answer} (h : R.PureJobs j j') (key : Key)
    (under : AlikeStacks R base base' above above') :
    AlikeStacks R base base' (.cons (.slot j key) above) (.cons (.slot j' key) above')
  | convert (product : Product) (input : Ty) {above above' : Stack .answer}
    (under : AlikeStacks R base base' above above') :
    AlikeStacks R base base' (.cons (.convert product input) above) (.cons (.convert product input) above')

namespace PureJobs

variable {j j' : Job} {f f' : Frame} (h : R.PureJobs j j')
include h

theorem at_frame (frame : R.AlikeFrames f f') (container : f.container = j.frame.container) :
    R.PureJobs { j with frame := f } { j' with frame := f' } :=
  ⟨h.alike.at_frame frame, container ▸ h.here, h.pure, h.fresh⟩

theorem fill {x x' : Filled} (filled : R.AlikeFilled x x') (frame : R.AlikeFrames f f')
    (container : f.container = j.frame.container) : R.PureJobs (j.fill x f) (j'.fill x' f') :=
  ⟨h.alike.fill filled frame, container ▸ h.here, h.pure, fun slot hs => h.fresh slot (List.mem_of_mem_tail hs)⟩

end PureJobs

/-- Whether two tasks are at alike parts of resolutions that `base` and `base'` wait for. -/
inductive AlikeTasks (R : Pairing) (base base' : Stack .answer) (w w' : World) : Task → Task → Prop
  | mk {a a' : Activity .answer} {above above' : Stack .answer} (activity : R.AlikeActivities w w' a a')
    (under : R.AlikeStacks base base' above above') : AlikeTasks R base base' w w' ⟨.answer, a, above⟩ ⟨.answer, a', above'⟩

/-- What is put on the one is put on the other. -/
theorem AlikeStacks.height (h : R.AlikeStacks base base' above above') :
    above = base ∧ above' = base' ∨ base.height < above.height ∧ base'.height < above'.height := by
  induction h with
  | base => exact .inl ⟨rfl, rfl⟩
  | build _ _ ih | slot _ _ _ ih | convert _ _ _ ih =>
    refine .inr ?_
    rcases ih with ⟨rfl, rfl⟩ | ⟨high, high'⟩
    · exact ⟨Nat.lt_succ_self _, Nat.lt_succ_self _⟩
    · exact ⟨Nat.lt_succ_of_lt high, Nat.lt_succ_of_lt high'⟩

/-- Both come to an answer at once, and their answers are alike. -/
theorem AlikeTasks.answers {t t' : Task} (h : R.AlikeTasks base base' w w' t t') :
    (∃ a a', t = ⟨.answer, .give (k := .answer) a, base⟩ ∧ t' = ⟨.answer, .give (k := .answer) a', base'⟩ ∧
      Results R.Alike a a') ∨
    (∀ a, t ≠ ⟨.answer, .give (k := .answer) a, base⟩) ∧ ∀ a', t' ≠ ⟨.answer, .give (k := .answer) a', base'⟩ := by
  obtain ⟨activity, under⟩ := h
  rcases under.height with ⟨rfl, rfl⟩ | ⟨high, high'⟩
  · cases activity with
    | give alike => exact .inl ⟨_, _, rfl, rfl, alike⟩
    | resolve | line | fill | pause => exact .inr ⟨by rintro _ ⟨⟩, by rintro _ ⟨⟩⟩
  · refine .inr ⟨fun a e => ?_, fun a' e => ?_⟩
    · cases e
      exact Nat.lt_irrefl _ high
    · cases e
      exact Nat.lt_irrefl _ high'

/-! ## Steps -/

/-- Whether two steps go on with alike tasks in alike worlds. -/
structure AlikeSteps (R : Pairing) (base base' : Stack .answer) (st st' : Step) : Prop where
  world : R.AlikeWorlds st.world st'.world
  task : R.AlikeTasks base base' st.world st'.world st.task st'.task

variable {env env' : Env}

theorem alike_next {a a' : Activity .answer} (worlds : R.AlikeWorlds w w') (activity : R.AlikeActivities w w' a a')
    (under : R.AlikeStacks base base' above above') : R.AlikeSteps base base' (.next w a above) (.next w' a' above') :=
  ⟨worlds, .mk activity under⟩

theorem alike_serve {v v' : Instance} (worlds : R.AlikeWorlds w w') (alike : R.Alike v v')
    (under : R.AlikeStacks base base' above above') : R.AlikeSteps base base' (.serve w v above) (.serve w' v' above') :=
  alike_next worlds (.give (.ok alike)) under

theorem alike_fail (f : Failure) (worlds : R.AlikeWorlds w w') (under : R.AlikeStacks base base' above above') :
    R.AlikeSteps base base' (.fail w f above) (.fail w' f above') := alike_next worlds (.give (.error f)) under

section Steps

variable (worlds : R.AlikeWorlds w w') (under : R.AlikeStacks base base' above above')
include worlds under

theorem alike_resolve {r r' : Request} (pursued : R.Pursued p w)
    (looks : Located.Like R.Alike (w.locate r.container r.key) (w'.locate r'.container r'.key))
    (here : ∀ {c key β}, w.locate r.container r.key = .builds c key β → c ∈ R.containers)
    (path : r'.path = r.path) (fallback : r'.fallback = r.fallback) (pure : ∀ f, r.fallback = some f → f.Pure) :
    R.AlikeSteps base base' (.resolve w r above) (.resolve w' r' above') := by
  have right := w.right_locate r.container r.key
  unfold Step.resolve
  rw [path, fallback]
  generalize w.locate r.container r.key = l, w'.locate r'.container r'.key = l' at looks here right
  cases looks with
  | cached c key alike => exact alike_serve worlds alike under
  | noAccess key => exact alike_fail _ worlds under
  | builds c key β =>
    have here := here rfl
    dsimp only
    split
    · exact alike_fail _ worlds under
    · obtain ⟨lock, ticket, entered⟩ := worlds.enter here (R.clear c key)
      refine alike_next entered (.line ⟨⟨rfl, rfl, rfl, lock, ticket, here, R.clear c key⟩, rfl, fun m made => ?_⟩) under
      rcases Build.maker_cases rfl made with ⟨x, found, rfl⟩ | ⟨f, used, rfl⟩
      · have found : β = some x := found
        exact pursued.pure.bound c _ x (found ▸ right.2.2)
      · exact pure f used

theorem alike_build {b b' : Build} (pursued : R.Pursued p w) (builds : R.AlikeBuilds b b') :
    R.AlikeSteps base base' (.build (w.letIn b) b above) (.build (w'.letIn b') b' above') := by
  have letIn : R.AlikeWorlds (w.letIn b) (w'.letIn b') := worlds.letIn builds.toBuilds
  have pursued : R.Pursued p (w.letIn b) := pursued.after ((World.After.refl w).modifyLocks _ _)
  have inner := AlikeStacks.build builds under
  have here := builds.here
  unfold Step.build
  rw [builds.key, builds.container, builds.path, builds.maker]
  rcases rel_cases ((letIn.containers _ here).cache.instances b.key) with ⟨none, none'⟩ | ⟨v, v', some, some', alike⟩
  · rw [none, none']
    dsimp only
    cases made : b.maker with
    | none => exact alike_fail _ (letIn.leave builds.toBuilds) under
    | some m =>
      have pure := builds.pure m made
      cases m with
      | function f signature =>
        -- The tags of the key are written as texts, which saves nothing.
        obtain ⟨arguments, made⟩ := letIn.makeArguments (b.key.tags.map .text) []
          (fun l hl => by obtain ⟨_, -, rfl⟩ := List.mem_map.1 hl; trivial) (fun _ hl => (List.not_mem_nil hl).elim)
        refine alike_next made (.fill ?_) inner
        rw [(made.containers _ here).isScope]
        exact ⟨.mk (.mk arguments) .nil, here, pure, Function.Pure.fresh pure⟩
      | chained product input target =>
        have up := pursued.upward _ here
        refine alike_next letIn (.resolve (letIn.locate up target) (pursued.builds here) rfl rfl fun f used => ?_)
          (.convert product input inner)
        cases used
  · rw [some, some']
    exact alike_serve (letIn.leave builds.toBuilds) alike under

theorem alike_filled {j j' : Job} {r r' : Except Failure (Filled × Frame)} (jobs : R.PureJobs j j')
    (fillings : R.AlikeFillings r r') (kept : ∀ filled f, r = .ok (filled, f) → j.frame.Kept f filled) :
    R.AlikeSteps base base' (.filled w j r above) (.filled w' j' r' above') := by
  cases fillings with
  | error f => exact alike_fail f worlds under
  | @ok x x' h =>
    obtain ⟨-, container, -⟩ := kept x.1 x.2 rfl
    exact alike_next worlds (.fill (jobs.fill h.1 h.2 container)) under

theorem alike_fill {j j' : Job} (same : env'.program = env.program) (pursued : R.Pursued env.program w)
    (jobs : R.PureJobs j j') : R.AlikeSteps base base' (.fill env w j above) (.fill env' w' j' above') := by
  obtain ⟨function, subject, frame, todo, filled⟩ := j
  obtain ⟨⟨⟨arguments⟩, given⟩, here, pure, fresh⟩ := id jobs
  unfold Step.fill
  dsimp only at here ⊢
  have up := pursued.upward _ here
  rw [worlds.bound up, same]
  cases todo with
  | nil => exact alike_next worlds (.pause jobs _) under
  | cons slot rest =>
    have moved := AlikeFrames.mk (f := { frame with position := slot.position }) arguments
    dsimp only
    cases asked : slot.extractor.asks (w.bound frame.container) with
    | some key =>
      refine alike_next worlds (.resolve (worlds.locate up key) (pursued.builds here) rfl rfl fun f used => ?_)
        (.slot (jobs.at_frame moved rfl) key under)
      obtain ⟨t, -, rfl⟩ := Option.map_eq_some_iff.1 used
      exact pursued.pure.injectable t
    | none =>
      have fresh : slot.extractor.Fresh := fresh slot List.mem_cons_self
      dsimp only
      generalize slot.extractor = e at fresh
      cases e with
      | replace positional keyword =>
        obtain ⟨replaced, made⟩ := worlds.makeArguments positional keyword fresh.1 fresh.2
        refine alike_filled made under jobs (AlikeFrames.fillAlone (.mk replaced) _) fun x f filled => ?_
        have kept := Frame.kept_fillAlone filled
        exact kept
      | inject | autowired | annotated | named | arg | rest | kwargs | container | inspect | lookup =>
        refine alike_filled worlds under jobs (moved.fillAlone _) fun x f filled => ?_
        have kept := Frame.kept_fillAlone filled
        exact kept

theorem alike_slot {j j' : Job} {answer answer' : Except Failure Instance} (key : Key) (jobs : R.PureJobs j j')
    (answers : Results R.Alike answer answer') :
    R.AlikeSteps base base' (.slot w j key answer above) (.slot w' j' key answer' above') := by
  unfold Step.slot
  rw [jobs.alike.same.2.1]
  cases j.todo with
  | nil => exact alike_next worlds (.fill jobs) under
  | cons slot rest =>
    exact alike_filled worlds under jobs (jobs.alike.frame.fillWith answers key slot.extractor) fun _ _ => Frame.kept_fillWith

theorem alike_conclude {j j' : Job} (jobs : R.PureJobs j j') :
    R.AlikeSteps base base' (.conclude w j above) (.conclude w' j' above') := by
  obtain ⟨⟨-, filled⟩, -, pure, -⟩ := jobs
  have invoked := worlds.invoke j.function.name j.function.name
  have given := (alike_shapeAll j.function.params filled).1
  unfold Step.conclude
  dsimp only
  rw [pure.steady (w'.invoke j.function.name).1 (w.invoke j.function.name).1]
  split
  · exact alike_fail _ (invoked.tell (.cons (.panicked _ given) .nil)) under
  · exact alike_fail _ (invoked.tell (.cons (.failed _ given) .nil)) under
  · have ingredients := List.rel_flatMap filled fun _ _ h => AlikeFilled.ingredients h
    obtain ⟨made, worlds⟩ := invoked.supplied (fun s => s.produce j.function.product _)
      (fun s => s.produce j.function.product _) (invoked.rest.supply.produce _ ingredients)
    exact alike_serve (worlds.tell (.cons (.built _ made given) .nil)) made under

theorem alike_convert {answer answer' : Except Failure Instance} (product : Product) (input : Ty)
    (answers : Results R.Alike answer answer') :
    R.AlikeSteps base base' (.convert w product input answer above) (.convert w' product input answer' above') := by
  unfold Step.convert
  rcases (expect_alike answers input).cases with ⟨v, v', ok, ok', alike⟩ | ⟨failure, error, error'⟩
  · rw [ok, ok']
    obtain ⟨made, worlds⟩ := worlds.supplied (fun s => s.produce product [v]) (fun s => s.produce product [v'])
      (worlds.rest.supply.produce product (.cons alike .nil))
    exact alike_serve (worlds.tell (.cons (.converted made alike) .nil)) made under
  · rw [error, error']
    exact alike_fail _ worlds under

theorem alike_built {b b' : Build} {answer answer' : Except Failure Instance} (pursued : R.Pursued env.program w)
    (same : env'.program = env.program) (builds : R.AlikeBuilds b b') (answers : Results R.Alike answer answer') :
    R.AlikeSteps base base' (.built env w b answer above) (.built env' w' b' answer' above') := by
  cases answers with
  | error f => exact alike_fail f (worlds.leave builds.toBuilds) under
  | @ok v v' alike =>
    have bare : ∀ hook ∈ (w.record b v).hooksFor b, hook.script.actions = [] := by
      rw [show (w.record b v).hooksFor b = w.hooksFor b from World.hooksFor_recorded w [(b, v)] b.container b.key]
      exact pursued.pure.hooks _ _
    have shown := AlikeWorlds.showTo (worlds.record builds.toBuilds alike) builds alike env.program env.held env'.held bare
    unfold Step.built
    dsimp only
    rw [same]
    exact alike_serve (shown.leave builds.toBuilds) alike under

end Steps

/-- Alike tasks in alike worlds go on with alike tasks, in alike worlds. -/
theorem AlikeTasks.step {t t' : Task} (h : R.AlikeTasks base base' w w' t t') (worlds : R.AlikeWorlds w w')
    (pursued : R.Pursued env.program w) (same : env'.program = env.program)
    (busy : ∀ a, t ≠ ⟨.answer, .give (k := .answer) a, base⟩) :
    R.AlikeSteps base base' (t.step env w) (t'.step env' w') := by
  obtain @⟨_, _, above, above', activity, under⟩ := h
  cases activity with
  | resolve looks here path fallback pure => exact alike_resolve worlds under pursued looks here path fallback pure
  | line builds => exact alike_build worlds under pursued builds
  | fill jobs => exact alike_fill worlds under same pursued jobs
  | @pause j j' jobs times =>
    cases times with
    | succ n => exact alike_next worlds (.pause jobs n) under
    | zero =>
      change R.AlikeSteps base base' (.start env w j above) (.start env' w' j' above')
      have bare := jobs.pure.bare
      have bare' : j'.function.Bare := jobs.alike.same.1 ▸ bare
      rw [Step.start_eq_conclude bare, Step.start_eq_conclude bare']
      exact alike_conclude worlds under jobs
  | @give a a' answers =>
    cases under with
    | base => exact absurd rfl (busy a)
    | build builds under => exact alike_built worlds under pursued same builds answers
    | slot jobs key under => exact alike_slot worlds under key jobs answers
    | convert product input under => exact alike_convert worlds under product input answers

end Pairing

end Injector
