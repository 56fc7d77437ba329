import Injector.Proofs.Records
/-!
# Builds within builds

A function that performs no operations does nothing to the containers. What a resolution changes
then is what the builds within it record, which are on the containers that are asked around them
(`Stack.Under`). `Task.Within.continues` says so of each step of a resolution.
-/
namespace Injector

/-! ## Resolutions within resolutions -/

/-- What was put on `base` by resolutions on the containers `cs`, without operations. -/
inductive Stack.Under (cs : List ContainerId) (base : Stack .answer) : Stack .answer → Prop
  | base : Under cs base base
  | build {b : Build} {above : Stack .answer} (here : b.container ∈ cs) (bare : b.Bare) (under : Under cs base above) :
    Under cs base (.cons (.build b) above)
  | slot {j : Job} {key : Key} {above : Stack .answer} (here : j.frame.container ∈ cs) (bare : j.function.Bare)
    (under : Under cs base above) : Under cs base (.cons (.slot j key) above)
  | convert {product : Product} {input : Ty} {above : Stack .answer} (under : Under cs base above) :
    Under cs base (.cons (.convert product input) above)

/-- Whether an activity is part of a resolution on the containers `cs`, without operations. -/
def Activity.Within (cs : List ContainerId) : Activity .answer → Prop
  | .resolve r => r.container ∈ cs ∧ ∀ f, r.fallback = some f → f.Bare
  | .line b => b.container ∈ cs ∧ b.Bare
  | .fill j | .pause j _ => j.frame.container ∈ cs ∧ j.function.Bare
  | .give _ => True

/-- Whether a task is at a resolution on the containers `cs` whose outcome `base` waits for. -/
inductive Task.Within (cs : List ContainerId) (base : Stack .answer) : Task → Prop
  | mk {a : Activity .answer} {above : Stack .answer} (activity : a.Within cs) (under : base.Under cs above) :
    Within cs base ⟨.answer, a, above⟩

theorem Activity.Within.held {cs : List ContainerId} {a : Activity .answer} (h : a.Within cs) :
    ∀ c ∈ a.held, c ∈ cs := by
  cases a with
  | resolve r => exact fun c hc => List.mem_singleton.1 hc ▸ h.1
  | line b => exact fun c hc => List.mem_singleton.1 hc ▸ h.1
  | fill j | pause j => exact fun c hc => List.mem_singleton.1 hc ▸ h.1
  | give => exact fun c hc => (List.not_mem_nil hc).elim

namespace Stack.Under

variable {cs : List ContainerId} {base above : Stack .answer}

theorem held (h : base.Under cs above) : ∀ c ∈ above.held, c ∈ cs ∨ c ∈ base.held := by
  induction h with
  | base => exact fun c hc => .inr hc
  | build here _ _ ih | slot here _ _ ih =>
    intro c hc
    rcases List.mem_cons.1 hc with rfl | hc
    · exact .inl here
    · exact ih c hc
  | convert _ ih => exact ih

theorem base_held (h : base.Under cs above) : ∀ c ∈ base.held, c ∈ above.held := by
  induction h with
  | base => exact fun c hc => hc
  | build _ _ _ ih | slot _ _ _ ih | convert _ ih => exact fun c hc => List.mem_append_right _ (ih c hc)

theorem height (h : base.Under cs above) : base.height ≤ above.height := by
  induction h with
  | base => exact Nat.le_refl _
  | build _ _ _ ih | slot _ _ _ ih | convert _ ih => exact Nat.le_succ_of_le ih

theorem builds (h : base.Under cs above) : ∃ inner : List Build, above.builds = inner ++ base.builds := by
  induction h with
  | base => exact ⟨[], rfl⟩
  | @build b _ _ _ _ ih =>
    obtain ⟨inner, eq⟩ := ih
    exact ⟨b :: inner, congrArg (b :: ·) eq⟩
  | slot _ _ _ ih | convert _ ih => exact ih

end Stack.Under

namespace Task.Within

variable {cs : List ContainerId} {base : Stack .answer} {t : Task}

theorem held (h : t.Within cs base) : ∀ c ∈ t.held, c ∈ cs ∨ c ∈ base.held := by
  obtain ⟨activity, under⟩ := h
  intro c hc
  rcases List.mem_append.1 hc with hc | hc
  · exact .inl (activity.held c hc)
  · exact under.held c hc

theorem base_held (h : t.Within cs base) : ∀ c ∈ base.held, c ∈ t.held := by
  obtain ⟨-, under⟩ := h
  exact fun c hc => List.mem_append_right _ (under.base_held c hc)

end Task.Within

namespace Step

/-- A step that goes on with a resolution, once the instances `xs` are recorded. -/
structure Continues (cs : List ContainerId) (base : Stack .answer) (w : World) (xs : List (Build × Instance))
    (st : Step) : Prop where
  world : w.After xs st.world
  started : st.started = []
  task : st.task.Within cs base

variable {cs : List ContainerId} {base above : Stack .answer} {w w' : World} {xs : List (Build × Instance)} {env : Env}

theorem continues_next {a : Activity .answer} (world : w.After xs w') (activity : a.Within cs)
    (under : base.Under cs above) : (next w' a above).Continues cs base w xs := ⟨world, rfl, .mk activity under⟩

theorem continues_resolve {r : Request} (bare : w.Bare env.program) (closed : ∀ c ∈ cs, ∀ d ∈ w.chain c, d ∈ cs)
    (within : Activity.Within cs (.resolve r)) (under : base.Under cs above) :
    (resolve w r above).Continues cs base w [] := by
  have right := w.right_locate r.container r.key
  unfold resolve
  split
  · exact continues_next (.refl w) trivial under
  · exact continues_next (.refl w) trivial under
  · next c key binding located =>
    rw [located] at right
    split
    · exact continues_next (.refl w) trivial under
    · refine continues_next ((World.After.refl w).enter c key) ⟨closed _ within.1 c right.1, fun m made => ?_⟩ under
      rcases Build.maker_cases rfl made with ⟨β, rfl, rfl⟩ | ⟨f, used, rfl⟩
      · exact bare.bound _ _ _ right.2.2
      · exact within.2 f used

theorem continues_build {b : Build} (here : b.container ∈ cs) (bare : b.Bare) (under : base.Under cs above) :
    (build (w.letIn b) b above).Continues cs base w [] := by
  have world : w.After [] (w.letIn b) := (World.After.refl w).modifyLocks _ _
  unfold build
  split
  · exact continues_next (world.modifyLocks _ _) trivial under
  · split
    · next f signature made =>
      exact continues_next (world.supplied _) ⟨here, bare _ made⟩ (.build here bare under)
    · refine continues_next world ⟨here, fun f hf => ?_⟩ (.convert (.build here bare under))
      cases hf
    · exact continues_next (world.modifyLocks _ _) trivial under

theorem continues_filled {j : Job} {r : Except Failure (Filled × Frame)} (world : w.After xs w')
    (within : Activity.Within cs (.fill j)) (kept : ∀ filled f, r = .ok (filled, f) → j.frame.Kept f filled)
    (under : base.Under cs above) : (filled w' j r above).Continues cs base w xs := by
  cases r with
  | error => exact continues_next world trivial under
  | ok x =>
    obtain ⟨-, same, -⟩ := kept x.1 x.2 rfl
    exact continues_next world ⟨same ▸ within.1, within.2⟩ under

theorem continues_fill {j : Job} (bare : w.Bare env.program) (within : Activity.Within cs (.fill j))
    (under : base.Under cs above) : (fill env w j above).Continues cs base w [] := by
  have goes := fill_cases env w j above
  generalize fill env w j above = st at goes ⊢
  cases goes with
  | calls => exact continues_next (.refl w) within under
  | asks =>
    refine continues_next (.refl w) ⟨within.1, fun f hf => ?_⟩ (.slot within.1 within.2 under)
    obtain ⟨t, -, rfl⟩ := Option.map_eq_some_iff.1 hf
    exact bare.injectable t
  | fills _ world kept =>
    rcases world with rfl | ⟨positional, keyword, rfl⟩
    · exact continues_filled (.refl w) within kept under
    · exact continues_filled ((World.After.refl w).supplied _) within kept under

theorem continues_slot {j : Job} {key : Key} {answer : Except Failure Instance} (within : Activity.Within cs (.fill j))
    (under : base.Under cs above) : (slot w j key answer above).Continues cs base w [] := by
  unfold slot
  split
  · exact continues_next (.refl w) within under
  · exact continues_filled (.refl w) within (fun _ _ hr => Frame.kept_fillWith hr) under

theorem conclude_gives (w : World) (j : Job) (above : Stack .answer) :
    ∃ w' answer, conclude w j above = next w' (.give (k := .answer) answer) above ∧ w.After [] w' := by
  have invoked : w.After [] (w.invoke j.function.name).2 := (World.After.refl w).invoke _
  unfold conclude
  dsimp only
  split
  · exact ⟨_, _, rfl, invoked.tell rfl⟩
  · exact ⟨_, _, rfl, invoked.tell rfl⟩
  · exact ⟨_, _, rfl, (invoked.supplied _).tell rfl⟩

/-- A body without operations is over at once. -/
theorem start_eq_conclude {j : Job} (bare : j.function.Bare) (env : Env) (w : World) (above : Stack .answer) :
    start env w j above = conclude w j above := by
  unfold Function.Bare at bare
  unfold start
  split
  all_goals
    next made =>
    rw [made] at bare
    rw [show _ = [] from bare]
    rfl

theorem continues_start {j : Job} (bare : j.function.Bare) (under : base.Under cs above) :
    (start env w j above).Continues cs base w [] := by
  obtain ⟨w', answer, gives, after⟩ := conclude_gives w j above
  rw [start_eq_conclude bare, gives]
  exact continues_next after trivial under

theorem continues_convert {product : Product} {input : Ty} {answer : Except Failure Instance}
    (under : base.Under cs above) : (convert w product input answer above).Continues cs base w [] := by
  unfold convert
  split
  · exact continues_next (.refl w) trivial under
  · next v _ =>
    exact continues_next (((World.After.refl w).supplied fun s => s.produce product [v]).tell rfl) trivial under

theorem continues_built {b : Build} {answer : Except Failure Instance} (bare : w.Bare env.program)
    (under : base.Under cs above) : (built env w b answer above).Continues cs base w
      (Task.hand? ⟨.answer, .give answer, .cons (.build b) above⟩).toList := by
  cases answer with
  | error => exact continues_next ((World.After.refl w).modifyLocks _ _) trivial under
  | ok v => exact continues_next (.record fun hook hh => bare.hooks _ _ hook hh) trivial under

end Step

/-- A step of a resolution without operations records what is in hand, and goes on with the resolution. -/
theorem Task.Within.continues {cs : List ContainerId} {base : Stack .answer} {w : World} {env : Env} {t : Task}
    (h : t.Within cs base) (bare : w.Bare env.program) (closed : ∀ c ∈ cs, ∀ d ∈ w.chain c, d ∈ cs)
    (busy : ∀ a, t ≠ ⟨.answer, .give a, base⟩) : (t.step env w).Continues cs base w t.hand?.toList := by
  obtain @⟨a, above, activity, under⟩ := h
  cases a with
  | resolve r => exact Step.continues_resolve bare closed activity under
  | line b => exact Step.continues_build activity.1 activity.2 under
  | fill j => exact Step.continues_fill bare activity under
  | pause j times =>
    cases times with
    | zero => exact Step.continues_start activity.2 under
    | succ n => exact Step.continues_next (.refl w) activity under
  | give answer =>
    cases under with
    | base => exact absurd rfl (busy answer)
    | build here _ under => exact Step.continues_built bare under
    | slot here bare under => cases answer <;> exact Step.continues_slot (And.intro here bare) under
    | convert under =>
      cases answer with
      | error f => exact Step.continues_next (.refl w) trivial under
      | ok v => exact Step.continues_convert under

end Injector
