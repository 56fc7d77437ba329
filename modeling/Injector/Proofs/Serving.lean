import Injector.Proofs.Caches
/-!
# What resolutions end with

`Task.serves?` is the instance that a resolution ends with, with the key and the container
that serves it. `step_of_serves`: it is handed over to what asked for it; and nothing else
is (`serves_of_step`), apart from the products of functions that operations call.
-/
namespace Injector

namespace Task

/-- What a resolution ends with in the next step: the container that serves it, the key and the
instance, which is kept there, was put there while the task was in line, or is just built. -/
def serves? (w : World) : Task → Option (ContainerId × Key × Instance)
  | ⟨_, .resolve r, _⟩ =>
    match w.locate r.container r.key with
    | .cached c key v => some (c, key, v)
    | _ => none
  | ⟨_, .line b, _⟩ =>
    if w.mayStart b then ((w.container b.container).cache.get? b.key).map fun v => (b.container, b.key, v) else none
  | ⟨_, .give (k := .answer) (.ok v), .cons (.build b) _⟩ => some (b.container, b.key, v)
  | _ => none

variable {env : Env} {w : World} {t : Task} {c : ContainerId} {key : Key} {v : Instance}

/-- How a resolution ends with an instance. -/
theorem serves_cases (h : t.serves? w = some (c, key, v)) :
    (∃ r below, t = ⟨.answer, .resolve r, below⟩ ∧ w.locate r.container r.key = .cached c key v) ∨
    (∃ b below, t = ⟨.answer, .line b, below⟩ ∧ b.container = c ∧ b.key = key ∧ w.Keeps c key v) ∨
    ∃ b, ∃ below : Stack .answer, t = ⟨.answer, .give (k := .answer) (.ok v), .cons (.build b) below⟩ ∧
      b.container = c ∧ b.key = key := by
  obtain ⟨k, a, below⟩ := t
  cases a with
  | resolve r =>
    simp only [serves?] at h
    split at h
    · next located =>
      cases h
      exact .inl ⟨r, below, rfl, located⟩
    · cases h
  | line b =>
    simp only [serves?] at h
    split at h
    · obtain ⟨v', kept, e⟩ := Option.map_eq_some_iff.1 h
      cases e
      exact .inr (.inl ⟨b, below, rfl, rfl, rfl, kept⟩)
    · cases h
  | @give k outcome =>
    cases k with
    | answer =>
      cases outcome with
      | error => cases h
      | ok v' =>
        cases below with
        | cons x below =>
          cases x with
          | build b =>
            cases h
            exact .inr (.inr ⟨b, below, rfl, rfl, rfl⟩)
          | slot | convert | deliver | observe => cases h
    | reply | done => cases h
  | fill | pause | perform | windDown | await => cases h

/-- What is served is kept, or just built. -/
theorem shows_of_serves (h : t.serves? w = some (c, key, v)) :
    w.Keeps c key v ∨ ∃ b, t.hand? = some (b, v) ∧ b.container = c ∧ b.key = key := by
  rcases serves_cases h with ⟨r, below, -, located⟩ | ⟨b, below, -, -, -, kept⟩ | ⟨b, below, rfl, hc, hkey⟩
  · have right := w.right_locate r.container r.key
    rw [located] at right
    exact .inl right.2
  · exact .inl kept
  · exact .inr ⟨b, rfl, hc, hkey⟩

/-- What is served is handed over to what asked for it. -/
theorem step_of_serves (wf : t.Wf) (h : t.serves? w = some (c, key, v)) :
    ∃ below : Stack .answer, below.Asked ∧ (t.step env w).task = ⟨.answer, .give (k := .answer) (.ok v), below⟩ := by
  rcases serves_cases h with ⟨r, below, rfl, located⟩ | ⟨b, below, rfl, rfl, rfl, kept⟩ | ⟨b, below, rfl, -, -⟩
  · refine ⟨below, wf.activity.asked, ?_⟩
    simp only [step, Step.resolve, located]
    rfl
  · have fits : b.Fits below := wf.activity
    have kept : ((w.letIn b).container b.container).cache.get? b.key = some v := by rw [World.cache_letIn, kept]
    refine ⟨below, fits.asked, ?_⟩
    simp only [step, Step.build, kept]
    rfl
  · have fits : b.Fits below := wf.stack.1
    exact ⟨below, fits.asked, rfl⟩

end Task

/-! ### Nothing else is handed over -/

namespace Step

variable {env : Env} {w : World} {below : Stack .answer}

/-- Whether a step hands an instance over only if `served` says so. -/
def Hands (served : Instance → Stack .answer → Prop) (st : Step) : Prop :=
  ∀ v below, st.task = ⟨.answer, .give (k := .answer) (.ok v), below⟩ → served v below

variable {served : Instance → Stack .answer → Prop}

theorem hands_fail {f : Failure} : (fail w f below).Hands served := fun _ _ h => by cases h

theorem hands_reply {r : Reply} {below : Stack .reply} : (reply w r below).Hands served := fun _ _ h => by cases h

theorem hands_conclude {j : Job} (called : ∀ v, served v below) : (conclude w j below).Hands served := by
  unfold conclude
  dsimp only
  split
  · exact hands_fail
  · exact hands_fail
  · intro v below h
    cases h
    exact called _

theorem hands_body {j : Job} {ops : List Op} (called : ∀ v, served v below) : (body w j ops below).Hands served := by
  cases ops with
  | nil => exact hands_conclude called
  | cons o rest => intro _ _ h; cases h

theorem hands_start {j : Job} (called : ∀ v, served v below) : (start env w j below).Hands served := by
  unfold start
  split
  · exact hands_body called
  all_goals
    split
    · exact hands_fail
    · exact hands_conclude called

theorem hands_filled {j : Job} {r : Except Failure (Filled × Frame)} : (filled w j r below).Hands served := by
  cases r with
  | error => exact hands_fail
  | ok x => intro _ _ h; cases h

theorem hands_fill {j : Job} : (fill env w j below).Hands served := by
  unfold fill
  split
  · intro _ _ h; cases h
  · dsimp only
    split
    · intro _ _ h; cases h
    · split <;> exact hands_filled

theorem hands_scopeBody {scope : ContainerId} {name : String} {path : List Key} {ops : List Op}
    {below : Stack .reply} : (scopeBody w scope name path ops below).Hands served := by
  cases ops <;> (intro _ _ h; cases h)

theorem hands_lasting {s : Scene} {c : ContainerId} {a : Lasting Command Op} {below : Stack .reply} :
    (lasting env w s c a below).Hands served := by
  unfold lasting
  dsimp only
  split
  · intro _ _ h; cases h
  · split
    · intro _ _ h; cases h
    · exact hands_reply
  · split
    · split
      · exact hands_reply
      · intro _ _ h; cases h
    · exact hands_reply
  · intro _ _ h; cases h
  · exact hands_scopeBody
  · intro _ _ h; cases h

theorem hands_slot {j : Job} {key : Key} {answer : Except Failure Instance} :
    (slot w j key answer below).Hands served := by
  unfold slot
  split
  · intro _ _ h; cases h
  · exact hands_filled

theorem hands_deliver {expected : Option Ty} {save : Option String} {answer : Except Failure Instance}
    {below : Stack .reply} : (deliver w expected save answer below).Hands served := by
  unfold deliver
  split <;> exact hands_reply

theorem hands_callback {path : List Key} {ops : List Op} {ts : List Teardown} {below : Stack .done} :
    (callback w path ops ts below).Hands served := by
  cases ops <;> (intro _ _ h; cases h)

theorem hands_windDown {path : List Key} {ts : List Teardown} {below : Stack .done} :
    (windDown w path ts below).Hands served := by
  unfold windDown
  split
  · intro _ _ h; cases h
  · exact hands_callback
  · split
    · exact hands_callback
    · intro _ _ h; cases h

end Step

/-- What a step hands to what asked for it is served, or is the product of a function that an operation called. -/
theorem Task.serves_of_step {env : Env} {w : World} {t : Task} (wf : t.Wf)
    (turn : ∀ b, t.line? = some b → w.mayStart b = true) : (t.step env w).Hands fun v below =>
      below.Asked → (∃ c key, t.serves? w = some (c, key, v)) ∨ ∃ c product, below.Calls c product := by
  obtain ⟨k, a, below⟩ := t
  cases a with
  | resolve r =>
    simp only [step, Step.resolve]
    split
    · next c key v located =>
      intro v' below' h _
      cases h
      exact .inl ⟨c, key, by simp only [serves?, located]⟩
    · exact Step.hands_fail
    · split
      · exact Step.hands_fail
      · intro _ _ h; cases h
  | line b =>
    simp only [step, Step.build]
    split
    · next v kept =>
      intro v' below' h _
      cases h
      rw [World.cache_letIn] at kept
      exact .inl ⟨b.container, b.key, by simp [serves?, turn b rfl, kept]⟩
    · split
      · intro _ _ h; cases h
      · exact fun _ _ h => by cases h
      · exact Step.hands_fail
  | fill j => exact Step.hands_fill
  | pause j times =>
    have fits : j.Fits below := wf.activity
    -- The function may be one that an operation called.
    cases times with
    | zero => exact Step.hands_start fun _ _ => .inr ⟨_, _, fits.calls⟩
    | succ n => intro _ _ h; cases h
  | perform s o =>
    cases o with
    | instant c => exact Step.hands_reply
    | lasting heading action =>
      simp only [step, Step.perform]
      split
      · exact Step.hands_lasting
      · exact Step.hands_reply
  | windDown path ts => exact Step.hands_windDown
  | await tasks => intro _ _ h; cases h
  | @give k outcome =>
    cases below with
    | nil => exact Step.hands_reply
    | @cons a b x below =>
      cases x with
      | slot j key => exact Step.hands_slot
      | build b =>
        cases outcome with
        | error => exact Step.hands_fail
        | ok v =>
          intro v' below' h _
          cases h
          exact .inl ⟨b.container, b.key, rfl⟩
      | convert product input =>
        obtain ⟨⟨c, calls⟩, -⟩ := wf.stack
        simp only [step, Step.handOver, Step.answered, Step.convert]
        split
        · exact Step.hands_fail
        · intro v below' h _
          cases h
          exact .inr ⟨c, product, calls⟩
      | deliver => exact Step.hands_deliver
      | observe => exact Step.hands_reply
      | body j heading rest =>
        have fits : j.Fits below := wf.stack.1
        simp only [step, Step.handOver, Step.replied]
        split
        · exact Step.hands_fail
        · exact Step.hands_body fun _ _ => .inr ⟨_, _, fits.calls⟩
      | scopeBody scope name path heading rest =>
        simp only [step, Step.handOver, Step.replied]
        split
        · intro _ _ h; cases h
        · exact Step.hands_scopeBody
      | callback path heading rest ts =>
        simp only [step, Step.handOver, Step.replied]
        split
        · intro _ _ h; cases h
        · exact Step.hands_callback
      | close => exact Step.hands_reply

end Injector
