import Injector.Proofs.Locking
import Injector.Proofs.Stacks
/-!
# What a step does

Of all that a task is made of, four things matter to builds and finalizers: the build it
has in line, the builds it has in progress, the instance it is about to hand to one of
them, and what it still has to finalize. `Task.Does` lists what a step can do to these and
to the world, and `Task.does_step` says that the list is complete. Whoever wants to know
what builds and finalizers are up to in a run need not look at the steps themselves.
-/
namespace Injector

/-! ## What a task is about -/

/-- How much waits. -/
def Stack.height : {k : Kind} → Stack k → Nat
  | _, .nil => 0
  | _, .cons _ below => below.height + 1

/-- Finalizers, each with its instance, and with the height of what waits for their end. -/
abbrev Pending := Nat × Finalizer × Instance

/-- The finalizers that come before `below` goes on. -/
def Stack.pending (below : Stack .done) (ts : List Teardown) : List Pending :=
  (finals ts).map (Prod.mk below.height)

/-- The finalizers that what waits has left to run. -/
def Stack.left : {k : Kind} → Stack k → List Pending
  | _, .nil => []
  | _, .cons (.callback _ _ _ ts) below => below.pending ts ++ below.left
  | _, .cons _ below => below.left

namespace Task

/-- The finalizers that a task has left to run, the next one first. -/
def left : Task → List Pending
  | ⟨_, .windDown _ ts, below⟩ => below.pending ts ++ below.left
  | ⟨_, _, below⟩ => below.left

/-- The build that a task has in line. -/
def line? : Task → Option Build
  | ⟨_, .line b, _⟩ => some b
  | _ => none

/-- The build that a task hands an instance to, and the instance. -/
def hand? : Task → Option (Build × Instance)
  | ⟨_, .give (k := .answer) (.ok v), .cons (.build b) _⟩ => some (b, v)
  | _ => none

/-- The container that a task terminates: by an operation, or since the body of a scope is over. -/
def terminates (w : World) : Task → Option ContainerId
  | ⟨_, .perform s (.lasting h .terminate), _⟩ => w.target s.self h.target
  | ⟨_, .perform s (.lasting h (.scope _ [])), _⟩ => (w.target s.self h.target).map fun c => (w.openScope c).1
  | ⟨_, .give (k := .reply) r, .cons (.scopeBody scope _ _ h rest) _⟩ =>
    if (h.stops r).isSome || rest.isEmpty then some scope else none
  | _ => none

/-- The finalizer that a task runs. -/
def finalizes : Task → Option Pending
  | ⟨_, .windDown _ (.finalize f v :: _), below⟩ => if f.ty = v.ty then some (below.height, f, v) else none
  | _ => none

/-- Whether a task does what a container had left, when so much waits. -/
def WindsDown (t : Task) (height : Nat) (ts : List Teardown) : Prop :=
  ∃ path below, t = ⟨.done, .windDown path ts, below⟩ ∧ below.height = height

/-- Whether a task has no build in line and no instance for one. -/
structure Plain (t : Task) : Prop where
  line : t.line? = none
  hand : t.hand? = none

/-- Whether a task neither terminates a container nor runs a finalizer. -/
structure Spares (w : World) (t : Task) : Prop where
  terminates : t.terminates w = none
  finalizes : t.finalizes = none

/-- Who has an instance for a build hands it over. -/
theorem of_hand {t : Task} {b : Build} {v : Instance} (h : t.hand? = some (b, v)) :
    ∃ below : Stack .answer, t = ⟨.answer, .give (k := .answer) (.ok v), .cons (.build b) below⟩ := by
  obtain ⟨k, a, below⟩ := t
  cases a with
  | @give k outcome =>
    cases k with
    | answer =>
      cases outcome with
      | error => cases h
      | ok v' =>
        cases below with
        | cons x below =>
          cases x with
          | build b' =>
            cases h
            exact ⟨below, rfl⟩
          | slot | convert | deliver | observe => cases h
    | reply | done => cases h
  | resolve | line | fill | pause | perform | windDown | await => cases h

/-- Who runs a finalizer winds a container down. -/
theorem of_finalizes {t : Task} {x : Pending} (h : t.finalizes = some x) : ∃ path f v ts, ∃ below : Stack .done,
    t = ⟨.done, .windDown path (.finalize f v :: ts), below⟩ ∧ f.ty = v.ty ∧ x = (below.height, f, v) := by
  obtain ⟨k, a, below⟩ := t
  cases a with
  | windDown path ts =>
    cases ts with
    | nil => cases h
    | cons y ts =>
      cases y with
      | callback => cases h
      | finalize f v =>
        simp only [finalizes] at h
        split at h
        · next ty =>
          cases h
          exact ⟨path, f, v, ts, below, rfl, ty, rfl⟩
        · cases h
  | resolve | line | fill | pause | perform | await | give => cases h

theorem mem_builds_of_hand {t : Task} {b : Build} {v : Instance} (h : t.hand? = some (b, v)) : b ∈ t.builds := by
  obtain ⟨below, rfl⟩ := of_hand h
  exact List.mem_cons_self

end Task

/-- What waits is done with what it has left before what waits below it. -/
theorem Stack.lt_of_mem_left {k : Kind} {below : Stack k} {x : Pending} (h : x ∈ below.left) : x.1 < below.height := by
  induction below with
  | nil => cases h
  | cons c below ih =>
    cases c with
    | callback path heading rest ts =>
      rcases List.mem_append.1 h with h | h
      · obtain ⟨_, _, rfl⟩ := List.mem_map.1 h
        exact Nat.lt_succ_self _
      · exact Nat.lt_succ_of_lt (ih h)
    | slot | build | convert | body | deliver | observe | close | scopeBody => exact Nat.lt_succ_of_lt (ih h)

/-- What is asked for by anything but a build is not handed to one. -/
theorem Stack.Asked.plain {below : Stack .answer} (h : below.Asked) (v : Instance) :
    Task.Plain ⟨.answer, .give (k := .answer) (.ok v), below⟩ := by
  cases below with
  | cons c below => cases c <;> first | exact ⟨rfl, rfl⟩ | exact h.elim

/-! ## What steps can do -/

/-- The world after edits, for which a task may have kept other containers alive as well. -/
def World.Edited (p : Program) (held : List ContainerId) (w w' : World) : Prop :=
  ∃ others, w.Edits p (others ++ held) w'

/-- A new instance is made, and told of. -/
def World.Makes (w : World) (v : Instance) (w' : World) : Prop :=
  ∃ s e, w' = ({ w with supply := s } : World).tell e ∧ v.serial = w.supply.serials ∧ s.serials = v.serial + 1

theorem World.Makes.serial {w w' : World} {v : Instance} (h : w.Makes v w') : v.serial = w.supply.serials := by
  obtain ⟨s, e, -, serial, -⟩ := h
  exact serial

theorem World.Makes.given {w w' : World} {v : Instance} (h : w.Makes v w') : v.serial < w'.supply.serials := by
  obtain ⟨s, e, rfl, -, serials⟩ := h
  exact serials ▸ Nat.lt_succ_self _

theorem World.Makes.container {w w' : World} {v : Instance} (h : w.Makes v w') (c : ContainerId) :
    w'.container c = w.container c := by
  obtain ⟨s, e, rfl, -, -⟩ := h
  rfl

theorem World.Makes.edits {p : Program} {held : List ContainerId} {w w' : World} {v : Instance} (h : w.Makes v w') :
    w.Edits p held w' := by
  obtain ⟨s, e, rfl, serial, serials⟩ := h
  exact .tail (.single (.supply (by omega))) (.tell e)

/-- Whether a build is by what its container has bound for it, or else by a fallback. There is none for a name. -/
def Build.FoundIn (b : Build) (w : World) : Prop := ∃ fallback : Option Function, (b.key.isName = true → fallback = none) ∧
  b.binding = ((w.container b.container).registry.get? b.key.plain).or (fallback.map Function.unbound)

/-- What one step of a task does to the builds it has in line and in progress, to what it has
left to finalize, and to the world. `held` are the containers that tasks keep alive. -/
inductive Task.Does (p : Program) (held : List ContainerId) (w : World) (t : Task) (st : Step) : Prop where
  /-- It does nothing with either. -/
  | calm (before : t.Plain) (spares : t.Spares w) (edited : w.Edited p held st.world)
    (builds : st.task.builds = t.builds) (left : st.task.left = t.left) (after : st.task.Plain)
  /-- It makes an instance for a build. -/
  | makes (b : Build) (v : Instance) (before : t.Plain) (spares : t.Spares w) (w₁ : World)
    (edits : w.Edits p held w₁) (world : w₁.Makes v st.world)
    (builds : st.task.builds = t.builds) (left : st.task.left = t.left)
    (line : st.task.line? = none) (hand : st.task.hand? = some (b, v))
  /-- It lines a build up for its lock, of a key that it does not build already. -/
  | linesUp (b : Build) (before : t.Plain) (spares : t.Spares w) (alive : w.Alive b.container)
    (binding : b.FoundIn w)
    (enters : w.enter b.container b.key = (b.lock, b.ticket, st.world))
    (builds : st.task.builds = t.builds) (left : st.task.left = t.left)
    (line : st.task.line? = some b) (hand : st.task.hand? = none) (fresh : b.key ∉ t.stack.path)
  /-- It has its turn in line, and nothing to build or to build by. -/
  | skips (b : Build) (before : t.line? = some b) (hand : t.hand? = none) (spares : t.Spares w)
    (world : st.world = (w.letIn b).leave b)
    (builds : st.task.builds = t.builds) (left : st.task.left = t.left) (after : st.task.Plain)
  /-- It has its turn in line, and starts the build by what it found. -/
  | begins (b : Build) (before : t.line? = some b) (hand : t.hand? = none) (spares : t.Spares w)
    (nothing : (w.container b.container).cache.get? b.key = none)
    (edits : (w.letIn b).Edits p held st.world)
    (builds : st.task.builds = b :: t.builds) (left : st.task.left = t.left) (after : st.task.Plain)
    (made : b.binding ≠ none)
  /-- It ends a build that failed. -/
  | aborts (b : Build) (before : t.Plain) (spares : t.Spares w) (world : st.world = w.leave b)
    (builds : t.builds = b :: st.task.builds) (left : st.task.left = t.left) (after : st.task.Plain)
  /-- It ends a build with an instance. -/
  | completes (b : Build) (v : Instance) (line : t.line? = none) (before : t.hand? = some (b, v))
    (spares : t.Spares w) (w₁ : World) (edits : (w.record b v).Edits p held w₁) (world : st.world = w₁.leave b)
    (builds : t.builds = b :: st.task.builds) (left : st.task.left = t.left) (after : st.task.Plain)
  /-- It terminates a container, and takes over what that has left. -/
  | terminates (c : ContainerId) (n : Nat) (before : t.Plain) (ends : t.terminates w = some c)
    (runs : t.finalizes = none) (w₁ : World) (edits : w.Edits p held w₁) (alive : w₁.Alive c)
    (world : st.world = (w₁.terminate c).2) (builds : st.task.builds = t.builds)
    (left : st.task.left = (finals (w₁.terminate c).1).map (Prod.mk n) ++ t.left) (above : ∀ x ∈ t.left, x.1 < n)
    (after : st.task.Plain) (winds : st.task.WindsDown n (w₁.terminate c).1)
  /-- It runs a finalizer. -/
  | finalizes (x : Pending) (before : t.Plain) (ends : t.terminates w = none) (runs : t.finalizes = some x)
    (world : st.world = w.tell (.finalized x.2.1.script.id x.2.2)) (builds : st.task.builds = t.builds)
    (left : t.left = x :: st.task.left) (after : st.task.Plain)
  /-- It passes a finalizer over, which is for another type. -/
  | passes (x : Pending) (before : t.Plain) (spares : t.Spares w) (other : x.2.1.ty ≠ x.2.2.ty)
    (world : st.world = w) (builds : st.task.builds = t.builds) (left : t.left = x :: st.task.left)
    (after : st.task.Plain)

/-! ## The parts of a step -/

/-- The world in the middle of a step, which so far was edits of `w₀`. `cs` are open. -/
structure World.Since (w : World) (p : Program) (held : List ContainerId) (w₀ : World) (cs : List ContainerId) :
    Prop where
  ok : w.Ok
  edits : w₀.Edits p held w
  held : ∀ c ∈ cs, c ∈ held
  alive : ∀ c ∈ cs, w.Alive c

namespace World.Since

variable {p : Program} {held cs cs' : List ContainerId} {w₀ w w' : World}

theorem trans (h : w.Since p held w₀ cs) (e : w.Edits p held w') : w'.Since p held w₀ cs :=
  ⟨e.ok h.ok, h.edits.trans e, h.held, fun c hc => e.alive_held (h.alive c hc) (h.held c hc)⟩

theorem edit (h : w.Since p held w₀ cs) (e : w.Edit p held w') : w'.Since p held w₀ cs := h.trans e.edits

theorem mono (h : w.Since p held w₀ cs) (sub : ∀ c ∈ cs', c ∈ cs) : w.Since p held w₀ cs' :=
  ⟨h.ok, h.edits, fun c hc => h.held c (sub c hc), fun c hc => h.alive c (sub c hc)⟩

theorem edited (h : w.Since p held w₀ cs) : w₀.Edited p held w := ⟨[], h.edits⟩

end World.Since

namespace Step

/-- Whether all containers that a step goes on with are open, also those of the tasks it starts. -/
structure Open (st : Step) : Prop where
  held : ∀ c ∈ st.task.held, st.world.Alive c
  started : ∀ t ∈ st.started, ∃ s o, t = .ofOp s o ∧ ∀ c ∈ s.self.toList, st.world.Alive c

/-- A step that only edits the world, from `w₀`, when `below` waits. -/
structure Calm (p : Program) (held : List ContainerId) (w₀ : World) {k : Kind} (below : Stack k) (st : Step) :
    Prop where
  edited : w₀.Edited p held st.world
  builds : st.task.builds = below.builds
  left : st.task.left = below.left
  plain : st.task.Plain
  opens : st.Open

/-- A step that makes instance `v` for build `b`. -/
structure Makes (p : Program) (held : List ContainerId) (w₀ : World) {k : Kind} (below : Stack k) (b : Build)
    (v : Instance) (st : Step) : Prop where
  world : ∃ w, w₀.Edits p held w ∧ w.Makes v st.world
  builds : st.task.builds = below.builds
  left : st.task.left = below.left
  line : st.task.line? = none
  hand : st.task.hand? = some (b, v)
  opens : st.Open

/-- A step that only edits the world, or makes an instance for a build as well. -/
def Provides (p : Program) (held : List ContainerId) (w₀ : World) {k : Kind} (below : Stack k) (st : Step) : Prop :=
  st.Calm p held w₀ below ∨ ∃ b v, st.Makes p held w₀ below b v

variable {p : Program} {env : Env} {held cs : List ContainerId} {w₀ w : World}

theorem open_next {k : Kind} {a : Activity k} {below : Stack k} (h : ∀ c ∈ a.held ++ below.held, w.Alive c) :
    (next w a below).Open :=
  ⟨h, fun _ ht => by cases ht⟩

theorem calm_next {k k' : Kind} {below : Stack k} {a : Activity k'} {below' : Stack k'} (h : w.Since p held w₀ cs)
    (sub : ∀ c ∈ a.held ++ below'.held, c ∈ cs) (builds : below'.builds = below.builds)
    (left : Task.left ⟨k', a, below'⟩ = below.left) (plain : Task.Plain ⟨k', a, below'⟩) :
    (next w a below').Calm p held w₀ below :=
  ⟨h.edited, builds, left, plain, open_next fun c hc => h.alive c (sub c hc)⟩

theorem calm_fail {f : Failure} {below : Stack .answer} (h : w.Since p held w₀ below.held) :
    (fail w f below).Calm p held w₀ below := by
  refine calm_next h (fun c hc => hc) rfl rfl ?_
  cases below with
  | cons c below => cases c <;> exact ⟨rfl, rfl⟩

theorem calm_reply {r : Reply} {below : Stack .reply} (h : w.Since p held w₀ below.held) :
    (reply w r below).Calm p held w₀ below :=
  calm_next h (fun _ hc => hc) rfl rfl ⟨rfl, rfl⟩

/-- A new instance is handed over. -/
theorem provides_serve {w' : World} {v : Instance} {below : Stack .answer} (h : w.Since p held w₀ below.held)
    (made : w.Makes v w') : (serve w' v below).Provides p held w₀ below := by
  have h' := h.trans made.edits
  cases below with
  | cons c below =>
    cases c with
    | build b => exact .inr ⟨b, v, ⟨w, h.edits, made⟩, rfl, rfl, rfl, rfl, open_next h'.alive⟩
    | slot | convert | deliver | observe => exact .inl (calm_next h' (fun c hc => hc) rfl rfl ⟨rfl, rfl⟩)

theorem provides_supplied {below : Stack .answer} (h : w.Since p held w₀ below.held) (product : Product)
    (ingredients : List Instance) (e : Instance → Event) :
    (serve ((w.supplied fun s => s.produce product ingredients).2.tell
      (e (w.supplied fun s => s.produce product ingredients).1))
      (w.supplied fun s => s.produce product ingredients).1 below).Provides p held w₀ below := by
  obtain ⟨serial, serials⟩ := Supply.serial_produce w.supply product ingredients
  exact provides_serve h ⟨_, _, rfl, serial, serials.trans (congrArg (· + 1) serial.symm)⟩

theorem provides_convert {product : Product} {input : Ty} {answer : Except Failure Instance}
    {below : Stack .answer} (h : w.Since p held w₀ below.held) :
    (convert w product input answer below).Provides p held w₀ below := by
  unfold convert
  split
  · exact .inl (calm_fail h)
  · exact provides_supplied h product _ (.converted · _)

theorem provides_conclude {j : Job} {below : Stack .answer} (h : w.Since p held w₀ below.held) :
    (conclude w j below).Provides p held w₀ below := by
  have invoked := h.edit (.invoke j.function.name)
  unfold conclude
  dsimp only
  split
  · exact .inl (calm_fail (invoked.edit (.tell _)))
  · exact .inl (calm_fail (invoked.edit (.tell _)))
  · exact provides_supplied invoked j.function.product _ (.built _ · _)

theorem provides_body {j : Job} {ops : List Op} {below : Stack .answer} (fits : j.Fits below)
    (h : w.Since p held w₀ (j.frame.container :: below.held)) : (body w j ops below).Provides p held w₀ below := by
  cases ops with
  | nil => exact provides_conclude (h.mono fun _ hc => List.mem_cons_of_mem _ hc)
  | cons o rest =>
    refine .inl (calm_next h (fun c hc => ?_) rfl rfl ⟨rfl, rfl⟩)
    rcases List.mem_append.1 hc with hc | hc
    · exact List.mem_cons.2 (.inl (fits.self_eq (Option.mem_toList.1 hc)))
    · exact hc

theorem provides_start {j : Job} {below : Stack .answer} (fits : j.Fits below)
    (h : w.Since p env.held w₀ (j.frame.container :: below.held)) (hp : env.program = p) :
    (start env w j below).Provides p env.held w₀ below := by
  subst hp
  have commands : ∀ cs, (w.commands env.program env.held j.self cs).2.Since env.program env.held w₀ below.held := by
    refine fun cs => (h.trans (World.commands_edits cs h.ok fun c hc => ?_)).mono fun c hc => List.mem_cons_of_mem _ hc
    rw [fits.self_eq hc]
    exact ⟨h.held _ List.mem_cons_self, h.alive _ List.mem_cons_self⟩
  unfold start
  split
  · exact provides_body fits h
  all_goals
    next cs _ =>
    have := commands cs
    split
    · next eq => rw [eq] at this; exact .inl (calm_fail this)
    · next eq => rw [eq] at this; exact provides_conclude this

theorem calm_filled {j : Job} {r : Except Failure (Filled × Frame)} {below : Stack .answer}
    (h : w.Since p held w₀ (j.frame.container :: below.held))
    (kept : ∀ filled f, r = .ok (filled, f) → j.frame.Kept f filled) :
    (filled w j r below).Calm p held w₀ below := by
  cases r with
  | error => exact calm_fail (h.mono fun _ hc => List.mem_cons_of_mem _ hc)
  | ok x =>
    obtain ⟨_, hc, _⟩ := kept x.1 x.2 rfl
    refine calm_next h (fun c hm => ?_) rfl rfl ⟨rfl, rfl⟩
    have hm : c = x.2.container ∨ c ∈ below.held := by simpa [Activity.held, Job.fill] using hm
    rw [hc] at hm
    exact List.mem_cons.2 hm

theorem calm_fill {j : Job} {below : Stack .answer}
    (h : w.Since p env.held w₀ (j.frame.container :: below.held)) : (fill env w j below).Calm p env.held w₀ below := by
  have goes := fill_cases env w j below
  generalize fill env w j below = st at goes ⊢
  cases goes with
  | calls => exact calm_next h (fun c hc => hc) rfl rfl ⟨rfl, rfl⟩
  | asks =>
    refine calm_next h (fun c hc => ?_) rfl rfl ⟨rfl, rfl⟩
    simpa [Activity.held, Stack.held, Cont.held] using hc
  | fills _ world kept =>
    rcases world with rfl | ⟨positional, keyword, rfl⟩
    · exact calm_filled h kept
    · exact calm_filled (h.edit (.supply (World.serials_makeArguments w positional keyword))) kept

theorem calm_slot {j : Job} {key : Key} {answer : Except Failure Instance} {below : Stack .answer}
    (h : w.Since p held w₀ (j.frame.container :: below.held)) : (slot w j key answer below).Calm p held w₀ below := by
  unfold slot
  split
  · exact calm_next h (fun c hc => hc) rfl rfl ⟨rfl, rfl⟩
  · exact calm_filled h fun _ _ hr => Frame.kept_fillWith hr

theorem calm_deliver {expected : Option Ty} {save : Option String} {answer : Except Failure Instance}
    {below : Stack .reply} (h : w.Since p held w₀ below.held) :
    (deliver w expected save answer below).Calm p held w₀ below := by
  unfold deliver
  split
  · exact calm_reply (h.edit (.save save _))
  · exact calm_reply h

/-! ## Ends -/

/-- A step that terminates container `c`, when `below` waits. -/
def Terminates (p : Program) (held : List ContainerId) (w₀ : World) {k : Kind} (below : Stack k) (c : ContainerId)
    (st : Step) : Prop :=
  ∃ w, w₀.Edits p held w ∧ w.Alive c ∧ st.world = (w.terminate c).2 ∧ st.task.builds = below.builds ∧
    st.task.left = (finals (w.terminate c).1).map (Prod.mk (below.height + 1)) ++ below.left ∧ st.task.Plain ∧
    st.task.WindsDown (below.height + 1) (w.terminate c).1 ∧ st.Open

theorem alive_modify {c d : ContainerId} {f : Container → Container} (live : ∀ x, (f x).live = x.live)
    (h : w.Alive d) : (w.modify c f).Alive d :=
  ⟨by rw [World.length_containers_modify]; exact h.1,
    (World.field_modify Container.live w c d f live).trans h.2⟩

theorem terminates_terminate {c : ContainerId} {path : List Key} {r : Reply} {below : Stack .reply}
    (edits : w₀.Edits p held w) (hc : w.Alive c) (alive : ∀ d ∈ below.held, w.Alive d) :
    (terminate w c path r below).Terminates p held w₀ below c := by
  refine ⟨w, edits, hc, rfl, rfl, rfl, ⟨rfl, rfl⟩, ⟨path, _, rfl, rfl⟩, open_next fun d hd => ?_⟩
  have hd : w.Alive d := (List.mem_cons.1 hd).elim (fun e => e ▸ hc) (alive d)
  exact alive_modify (fun _ => rfl) (alive_modify (fun _ => rfl) hd)

/-- What a callback leaves to do. -/
theorem callback_shows (w : World) (path : List Key) (ops : List Op) (ts : List Teardown) (below : Stack .done) :
    (callback w path ops ts below).world = w ∧ (callback w path ops ts below).task.builds = below.builds ∧
      (callback w path ops ts below).task.left = below.pending ts ++ below.left ∧
      (callback w path ops ts below).task.Plain ∧
      ((∀ c ∈ below.held, w.Alive c) → (callback w path ops ts below).Open) := by
  cases ops <;> exact ⟨rfl, rfl, rfl, ⟨rfl, rfl⟩, fun h => open_next h⟩

end Step

end Injector
