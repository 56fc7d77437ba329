import Injector.Proofs.Alone
import Injector.Proofs.Dependencies
/-!
# Every resolution comes to an answer

Finitely many keys are asked for, and no key is built within a build of itself, so each build
leaves fewer keys for the builds within it; and each parameter of a function is filled once. So
the steps of a resolution or a call come to an end, whatever others do to the world in between
(`Activity.Tame.ends`). If no other task builds anything, its locks are free as well (`Stays.ready`),
and a resolution of its own comes to an answer (`Asks.exists_answer`).
-/
namespace Injector

variable {p : Program} {keys : List Key}

/-- Whether nothing that is bound performs operations, and all that is asked for is in a list. -/
structure World.Tame (p : Program) (w : World) (keys : List Key) : Prop where
  bare : w.Bare p
  asks : w.AsksIn p keys

theorem World.Tame.after {w w' : World} {xs : List (Build × Instance)} (h : w.Tame p keys) (after : w.After xs w') :
    w'.Tame p keys := ⟨after.bare h.bare, h.asks.after after⟩

/-! ## Heights and paths -/

theorem Stack.height_le_cons {a b c : Kind} {below : Stack a} {base : Stack b}
    (high : below.height ≤ base.height) (k : Cont c b) : below.height ≤ (Stack.cons k base).height :=
  Nat.le_succ_of_le high

/-- What is put on something is not that. -/
theorem Task.ne_give_of_height {below base : Stack .answer} {answer : Except Failure Instance}
    (high : below.height ≤ base.height) (k : Cont .answer .answer) (a : Except Failure Instance) :
    Task.mk .answer (.give (k := .answer) answer) (.cons k base) ≠ ⟨.answer, .give (k := .answer) a, below⟩ := by
  intro e
  cases e
  exact absurd high (Nat.not_succ_le_self _)

/-- Of finitely many keys, fewer are left when one more is being built. -/
theorem length_filter_path {keys path : List Key} {key : Key} (listed : key ∈ keys) (fresh : key ∉ path) :
    (keys.filter (· ∉ path ++ [key])).length < (keys.filter (· ∉ path)).length := by
  have same : keys.filter (· ∉ path ++ [key]) = (keys.filter (· ∉ path)).filter (· ≠ key) := by
    rw [List.filter_filter]
    simp [and_comm]
  rw [same]
  apply List.length_filter_lt_length_iff_exists.2
  exact ⟨key, List.mem_filter.2 ⟨listed, by simpa using fresh⟩, by simp⟩

/-! ## Each part comes to its end -/

/-- Whether finitely many steps take a task to an answer for `below`, whatever others do to the world in between as
long as it stays tame. -/
inductive Task.Ends (p : Program) (keys : List Key) (below : Stack .answer) : Task → Prop
  | answer (a : Except Failure Instance) : Ends p keys below ⟨.answer, .give (k := .answer) a, below⟩
  | step {t : Task} (busy : ∀ a, t ≠ ⟨.answer, .give (k := .answer) a, below⟩)
    (goes : ∀ env w, env.program = p → w.Tame p keys → Ends p keys below (t.step env w).task) : Ends p keys below t

/-- Whether any answer that is handed to what waits is enough. -/
def Stack.Ends (p : Program) (keys : List Key) (base below : Stack .answer) : Prop :=
  ∀ a, Task.Ends p keys below ⟨.answer, .give (k := .answer) a, base⟩

/-- Whether a request asks for keys of a list, and its fallback performs no operations. -/
structure Request.Tame (r : Request) (keys : List Key) : Prop where
  asks : r.keys ⊆ keys
  bare : ∀ f, r.fallback = some f → f.Bare

/-- Whether what makes the instance of a build asks for keys of a list, and performs no operations. -/
structure Build.Tame (b : Build) (keys : List Key) : Prop where
  asks : ∀ m, b.maker = some m → m.keys ⊆ keys
  bare : b.Bare

/-- Whether what a job has not filled yet asks for keys of a list, and its function performs no operations. -/
structure Job.Tame (j : Job) (keys : List Key) : Prop where
  asks : Slot.keysOf j.todo ⊆ keys
  bare : j.function.Bare

/-- Whether an activity asks for keys of a list, and performs no operations. -/
def Activity.Tame (keys : List Key) : Activity .answer → Prop
  | .resolve r => r.Tame keys
  | .line b => b.key ∈ keys ∧ b.Tame keys
  | .fill j | .pause j _ => j.Tame keys
  | .give _ => True

theorem Job.Tame.tail {j : Job} (h : j.Tame keys) (filled : Filled) (frame : Frame) : (j.fill filled frame).Tame keys := by
  refine ⟨fun key hk => h.asks ?_, h.bare⟩
  obtain ⟨slot, hs, hk⟩ := List.mem_flatMap.1 hk
  exact List.mem_flatMap.2 ⟨slot, List.mem_of_mem_tail hs, hk⟩

theorem Job.tame_start {f : Function} (asks : f.keys ⊆ keys) (bare : f.Bare) (subject : Key) (c : ContainerId)
    (inScope : Bool) (arguments : Arguments) (signature : Signature) (path : List Key) :
    (Job.start f subject c inScope arguments signature path).Tame keys := ⟨asks, bare⟩

/-- The request for the next slot of a job. -/
theorem Job.Tame.request {j : Job} {w : World} {slot : Slot} {rest : List Slot} {key : Key} {bound : Key → Bool}
    (h : j.Tame keys) (tame : w.Tame p keys) (todo : j.todo = slot :: rest) (asked : slot.extractor.asks bound = some key)
    (c : ContainerId) (path : List Key) :
    Request.Tame { container := c, key, fallback := slot.extractor.fallback.map p.injectable, path } keys := by
  constructor
  case asks =>
    refine List.cons_subset.2 ⟨h.asks ?_, ?_⟩
    · rw [todo]
      exact List.mem_append_left _ (Extractor.mem_keys asked)
    · cases slot.extractor.fallback with
      | none => exact List.nil_subset _
      | some t => exact tame.asks.injectable t
  case bare =>
    intro f hf
    obtain ⟨t, -, rfl⟩ := Option.map_eq_some_iff.1 hf
    exact tame.bare.injectable t

/-- The request of a chained binding. -/
theorem Request.tame_chained {key : Key} (listed : key ∈ keys) (c : ContainerId) (path : List Key) :
    Request.Tame { container := c, key, path } keys where
  asks := List.cons_subset.2 ⟨listed, List.nil_subset _⟩
  bare f hf := by cases hf

/-- A request leads to a key of the list. -/
theorem Request.Tame.mem {r : Request} {w : World} {c : ContainerId} {key : Key} {β : Option Binding}
    (h : r.Tame keys) (tame : w.Tame p keys) (located : w.locate r.container r.key = .builds c key β) : key ∈ keys := by
  have listed := tame.asks.locate (h.asks List.mem_cons_self) r.container
  rwa [located] at listed

/-- What a request leads to is made by what is bound, or by the fallback. -/
theorem Request.Tame.build {r : Request} {w : World} {c : ContainerId} {key : Key} {β : Option Binding} {b : Build}
    (h : r.Tame keys) (tame : w.Tame p keys) (located : w.locate r.container r.key = .builds c key β)
    (made : b.binding = β.or (r.fallback.map Function.unbound)) : b.Tame keys := by
  have right := w.right_locate r.container r.key
  rw [located] at right
  have maker : ∀ m, b.maker = some m → m.keys ⊆ keys ∧ m.Bare := by
    intro m hm
    rcases Build.maker_cases made hm with ⟨x, rfl, rfl⟩ | ⟨f, used, rfl⟩
    · exact ⟨tame.asks.bound right.2.2, tame.bare.bound _ _ _ right.2.2⟩
    · exact ⟨List.Subset.trans (Request.keys_fallback used) h.asks, h.bare f used⟩
  exact ⟨fun m hm => (maker m hm).1, fun m hm => (maker m hm).2⟩

namespace Task.Ends

variable {below base : Stack .answer}

/-- What is handed to a continuation on top of `below`. -/
theorem hand {k : Cont .answer .answer} {a : Except Failure Instance} (high : below.height ≤ base.height)
    (goes : ∀ env w, env.program = p → w.Tame p keys → Task.Ends p keys below (Step.answered env w a k base).task) :
    Task.Ends p keys below ⟨.answer, .give (k := .answer) a, .cons k base⟩ := .step (ne_give_of_height high k) goes

/-- A body without operations is over at once. -/
theorem pause {j : Job} (bare : j.function.Bare) (ends : base.Ends p keys below) (times : Nat) :
    Task.Ends p keys below ⟨.answer, .pause j times, base⟩ := by
  induction times with
  | zero =>
    refine .step (by rintro a ⟨⟩) fun env w _ _ => ?_
    obtain ⟨w', answer, gives, -⟩ := Step.conclude_gives w j base
    change Task.Ends p keys below (Step.start env w j base).task
    rw [Step.start_eq_conclude bare, gives]
    exact ends answer
  | succ n ih => exact .step (by rintro a ⟨⟩) fun _ _ _ _ => ih

/-- A call ends if all that its parameters ask for does. -/
theorem fill (high : below.height ≤ base.height) (ends : base.Ends p keys below)
    (inner : ∀ r base', base'.path = base.path → below.height ≤ base'.height → r.path = base'.path → r.Tame keys →
      base'.Ends p keys below → Task.Ends p keys below ⟨.answer, .resolve r, base'⟩)
    (todo : List Slot) : ∀ {j : Job}, j.todo = todo → j.Tame keys → j.frame.path = base.path →
      Task.Ends p keys below ⟨.answer, .fill j, base⟩ := by
  induction todo with
  | nil =>
    intro j none tame _
    refine .step (by rintro a ⟨⟩) fun env w _ _ => ?_
    change Task.Ends p keys below (Step.fill env w j base).task
    unfold Step.fill
    rw [none]
    exact pause tame.bare ends _
  | cons slot rest ih =>
    -- A slot that is filled leaves the others; one that is not ends the call.
    have filled : ∀ {w : World} {j : Job} {x : Except Failure (Filled × Frame)}, j.todo = slot :: rest → j.Tame keys →
        j.frame.path = base.path → (∀ filled f, x = .ok (filled, f) → j.frame.Kept f filled) →
        Task.Ends p keys below (Step.filled w j x base).task := by
      intro w j x some tame path kept
      cases x with
      | error f => exact ends _
      | ok x => exact ih (by rw [Job.fill, some]; rfl) (tame.tail x.1 x.2) ((kept _ _ rfl).1.trans path)
    intro j some tame path
    refine .step (by rintro a ⟨⟩) fun env w own world => ?_
    change Task.Ends p keys below (Step.fill env w j base).task
    have goes := Step.fill_cases env w j base
    generalize Step.fill env w j base = st at goes ⊢
    cases goes with
    | calls none =>
      rw [some] at none
      cases none
    | @asks _ _ key todo asked =>
      refine inner _ _ (by rfl) (Stack.height_le_cons high _) path (own ▸ tame.request world todo asked _ _) ?_
      refine fun a => hand high fun env w _ _ => ?_
      change Task.Ends p keys below (Step.slot w _ key a base).task
      unfold Step.slot
      dsimp only
      rw [some]
      exact filled rfl ⟨some ▸ tame.asks, tame.bare⟩ path fun _ _ hr => Frame.kept_fillWith hr
    | fills _ _ kept => exact filled some tame path kept

/-- A build ends if all that is asked for within it does. -/
theorem line {b : Build} (high : below.height ≤ base.height) (ends : base.Ends p keys below)
    (inner : ∀ r base', base'.path = base.path ++ [b.key] → below.height ≤ base'.height → r.path = base'.path →
      r.Tame keys → base'.Ends p keys below → Task.Ends p keys below ⟨.answer, .resolve r, base'⟩)
    (tame : b.Tame keys) (path : b.path = base.path ++ [b.key]) : Task.Ends p keys below ⟨.answer, .line b, base⟩ := by
  have high' : below.height ≤ (Stack.cons (.build b) base).height := Stack.height_le_cons high _
  have above : (Stack.cons (.build b) base).path = base.path ++ [b.key] := Stack.path_build b base
  -- Once there is an instance or a failure for the build, the build is over.
  have built : (Stack.cons (.build b) base).Ends p keys below := by
    refine fun a => hand high fun env w _ _ => ?_
    cases a with
    | error f => exact ends _
    | ok v => exact ends _
  refine .step (by rintro a ⟨⟩) fun env w _ _ => ?_
  change Task.Ends p keys below (Step.build (w.letIn b) b base).task
  unfold Step.build
  split
  · exact ends _
  · split
    · next f signature made =>
      refine fill high' built (fun r base' same => inner r base' (same.trans above)) (Param.slotsOf f.params 0).1 rfl ?_
        (path.trans above.symm)
      exact Job.tame_start (tame.asks _ made) (tame.bare _ made) ..
    · next product input target made =>
      refine inner _ (.cons (.convert product input) (.cons (.build b) base)) above (Stack.height_le_cons high' _)
        (path.trans above.symm) (Request.tame_chained (tame.asks _ made List.mem_cons_self) _ _) ?_
      refine fun a => hand high' fun env w _ _ => ?_
      change Task.Ends p keys below (Step.convert w product input a (.cons (.build b) base)).task
      unfold Step.convert
      split
      · exact built _
      · exact built _
    · exact ends _

/-- A request ends. -/
theorem resolve (r : Request) (base : Stack .answer) (high : below.height ≤ base.height) (path : r.path = base.path)
    (tame : r.Tame keys) (ends : base.Ends p keys below) : Task.Ends p keys below ⟨.answer, .resolve r, base⟩ := by
  -- The keys of the list that are not being built around a request become fewer with each build.
  induction fewer : (keys.filter (· ∉ base.path)).length using Nat.strong_induction_on generalizing r base with
  | _ n ih =>
    refine .step (by rintro a ⟨⟩) fun env w _ world => ?_
    change Task.Ends p keys below (Step.resolve w r base).task
    unfold Step.resolve
    split
    · exact ends _
    · exact ends _
    · next c key β located =>
      split
      · exact ends _
      · next fresh =>
        rw [path] at fresh
        refine line high ends (fun r' base' path' high' same tame' ends' => ?_) (tame.build world located rfl)
          (by rw [path])
        refine ih _ ?_ r' base' high' same tame' ends' rfl
        rw [path', ← fewer]
        exact length_filter_path (tame.mem world located) fresh

end Task.Ends

/-- A resolution or a call ends, wherever it is. -/
theorem Activity.Tame.ends {a : Activity .answer} {below : Stack .answer} (tame : a.Tame keys) (wf : a.Wf below) :
    Task.Ends p keys below ⟨.answer, a, below⟩ := by
  have done : below.Ends p keys below := .answer
  have inner : ∀ r (base : Stack .answer), below.height ≤ base.height → r.path = base.path → r.Tame keys →
      base.Ends p keys below → Task.Ends p keys below ⟨.answer, .resolve r, base⟩ := fun r base => .resolve r base
  cases a with
  | resolve r => exact inner r below (Nat.le_refl _) wf.path tame done
  | line b => exact .line (Nat.le_refl _) done (fun r base _ => inner r base) tame.2 wf.path
  | fill j => exact .fill (Nat.le_refl _) done (fun r base _ => inner r base) j.todo rfl tame wf.path
  | pause j times => exact .pause tame.bare done times
  | give a => exact .answer a

namespace System

variable {s s' : System} {i : Nat} {r : Request} {below : Stack .answer}
  {xs : List (Build × Instance)} {t : Task}

/-! ## Nothing is in the way -/

theorem Solo.running (start : s.running = some i) (solo : Solo p i below s xs s') :
    s'.running = some i ∨ s'.running = none := by
  cases solo with
  | start => exact .inl start
  | next _ _ next alone =>
    cases next with
    | resume idle =>
      rcases alone with runs | ⟨-, runs⟩
      · rw [idle] at runs
        cases runs
      · exact .inl runs
    | @run j u running =>
      have same : j = i := by
        rcases alone with runs | ⟨idle, -⟩
        · exact Option.some.inj (running.symm.trans runs)
        · rw [idle] at running
          cases running
      subst same
      rcases run_cases p _ j u with ⟨st, -, h | ⟨_, _, _, -, h⟩⟩ | ⟨_, -, h⟩ | ⟨-, h⟩ <;> rw [h]
      · exact .inl running
      · exact .inr rfl
      · exact .inr rfl
      · exact .inr rfl

/-- Who need not wait goes on. -/
theorem Starts.goes_on {c : ContainerId} {a : Activity .answer} (h : s.Starts p i c a below) (solo : Solo p i below s xs s')
    (found : s'.tasks[i]? = some t) (busy : ∀ a, t ≠ ⟨.answer, .give a, below⟩) (ready : s'.ready i = true) :
    ∃ env ys s'', env.program = p ∧ Solo p i below s ys s'' ∧ s''.world = (t.step env s'.world).world ∧
      s''.tasks[i]? = some (t.step env s'.world).task := by
  have at_work : ∀ {s₁ : System}, s₁.tasks[i]? = some t → ∀ a, s₁.tasks[i]? ≠ some ⟨.answer, .give a, below⟩ :=
    fun found a e => busy a (Option.some.inj (found.symm.trans e))
  -- A task that does not run is in line, and may go on.
  obtain ⟨ys, s₁, solo₁, running, found₁, world, ready₁⟩ : ∃ ys s₁, Solo p i below s ys s₁ ∧ s₁.running = some i ∧
      s₁.tasks[i]? = some t ∧ s₁.world = s'.world ∧ s₁.ready i = true := by
    rcases solo.running h.running with running | idle
    · exact ⟨xs, s', solo, running, found, rfl, ready⟩
    · obtain ⟨t', stays⟩ := h.solo_stays solo
      obtain rfl := Option.some.inj (found.symm.trans (stays.found h.present))
      have waits : i ∈ s'.waiting := by
        rcases stays.reachable.scheduled.known i _ found with running | waits | finished
        · rw [idle] at running
          cases running
        · exact waits
        · cases stays.within
          exact absurd rfl finished
      exact ⟨_, s'.resume i, .next solo (at_work found) (.resume idle waits ready) (.inr ⟨idle, rfl⟩), rfl, found, rfl,
        ready⟩
  obtain ⟨t', stays⟩ := h.solo_stays solo₁
  obtain rfl := Option.some.inj (found₁.symm.trans (stays.found h.present))
  have next : s₁.Next p (s₁.run p i t) := .run running found₁
  rcases h.stays_next stays busy next (.inl running) with ⟨-, stays', world', -⟩ | ⟨halts, -⟩
  · refine ⟨⟨p, s₁.held, s₁.tasks.length⟩, _, _, rfl, .next solo₁ (at_work found₁) next (.inl running), ?_, ?_⟩
    · rw [world', world]
    · rw [stays'.found h.present, world]
  · exfalso
    rcases halts i t running found₁ with ⟨_, rfl⟩ | ⟨_, _, -, waits⟩ | ⟨_, _, rfl⟩
    · cases stays.within
    · rw [ready₁] at waits
      cases waits
    · cases stays.within

/-- Whether the other tasks build nothing. -/
def LeavesAlone (s : System) (i : Nat) : Prop := ∀ j t, s.tasks[j]? = some t → j ≠ i → t.locked = []

theorem leavesAlone_of_last (last : s.tasks.length = i + 1)
    (free : ((s.tasks.take i).all fun t => t.locked.isEmpty) = true) : s.LeavesAlone i := by
  intro j t found other
  have before : j < i := by
    have := (List.getElem?_eq_some_iff.1 found).1
    omega
  have mem : t ∈ s.tasks.take i := List.mem_of_getElem? ((List.getElem?_take_of_lt before).trans found)
  exact List.isEmpty_iff.1 (List.all_eq_true.1 free t mem)

/-- A lock that is asked for is free. -/
theorem Stays.ready {cs : List ContainerId} (h : s.Stays p i cs below xs s' t) (found : s'.tasks[i]? = some t)
    (alone : s.LeavesAlone i) : s'.ready i = true := by
  refine h.reachable.ready_of_free found (fun awaits => ?_) fun b _ j u hu ne b' hb' => ?_
  · obtain ⟨_, _, rfl⟩ := awaits
    cases h.within
  · rw [h.tasks, List.getElem?_set_ne (Ne.symm ne)] at hu
    rw [alone j u hu ne] at hb'
    cases hb'

/-- Whether a resolution of its own comes to a task. -/
def Reaches (p : Program) (s : System) (i : Nat) (below : Stack .answer) (t : Task) : Prop :=
  ∃ xs s', Solo p i below s xs s' ∧ s'.tasks[i]? = some t

/-- A resolution goes on until it has its answer. -/
theorem Asks.reaches_step (h : s.Asks p i r below) (alone : s.LeavesAlone i) (reaches : s.Reaches p i below t)
    (busy : ∀ a, t ≠ ⟨.answer, .give a, below⟩) : ∃ env w, env.program = p ∧ (∃ xs, s.world.After xs w) ∧
      s.Reaches p i below (t.step env w).task := by
  obtain ⟨xs, s', solo, found⟩ := reaches
  obtain ⟨stays, -⟩ := solo.stage_of_found h found
  obtain ⟨env, ys, s'', own, solo', -, found'⟩ := h.starts.goes_on solo found busy (stays.ready found alone)
  exact ⟨env, s'.world, own, ⟨xs, stays.world⟩, ys, s'', solo', found'⟩

/-- Whether an answer is reached for what waits. -/
def Answers (p : Program) (s : System) (i : Nat) (below base : Stack .answer) : Prop :=
  ∃ a, s.Reaches p i below ⟨.answer, .give a, base⟩

/-- What ends is gone on with until it has ended. -/
theorem Asks.answers_of_ends (h : s.Asks p i r below) (alone : s.LeavesAlone i) (tame : s.world.Tame p keys)
    (ends : t.Ends p keys below) (reaches : s.Reaches p i below t) : s.Answers p i below below := by
  induction ends with
  | answer a => exact ⟨a, reaches⟩
  | step busy _ ih =>
    obtain ⟨env, w, own, ⟨xs, after⟩, reaches⟩ := h.reaches_step alone reaches busy
    exact ih env w own (tame.after after) reaches

/-- A resolution of its own comes to an answer, if the other tasks build nothing. -/
theorem Asks.exists_answer (h : s.Asks p i r below) (alone : s.LeavesAlone i) (finite : p.Finite) :
    s.Answers p i below below := by
  obtain ⟨keys, asks, listed⟩ := h.reachable.exists_keys finite r
  refine h.answers_of_ends alone ⟨h.bare, asks⟩ ?_ ⟨[], s, .start, h.found⟩
  exact .resolve r below (Nat.le_refl _) h.fits.path ⟨listed, h.fallback⟩ .answer

end System

end Injector
