import Injector.Proofs.Places
/-!
# What becomes of teardowns

`Change.only`: no move copies or loses the teardown of an instance; it is taken from its container
when that is terminated or dropped, and is gone when it is run (`Goes`). `Moves.records`: an
instance gets its one teardown when it is handed over for the build that made it.
-/
namespace Injector

/-! ## Steps -/

/-- What a step of task `i`, which is `t`, can do to where the only teardown of `v` is. -/
inductive Task.Goes (w : World) (i : Nat) (t : Task) (st : Step) (v : Instance) (f : Finalizer) :
    Option Place → Option Place → Prop where
  | moved {q q' : Option Place} (spared : ∀ c, q = some (.container c) → t.terminates w ≠ some c)
    (others : ∀ n, t.finalizes ≠ some (n, f, v)) (moved : World.Moved w st.world q q') : Goes w i t st v f q q'
  /-- The task terminates the container. -/
  | takes {c : ContainerId} (n : Nat) (ends : t.terminates w = some c) (left : List Teardown)
    (winds : st.task.WindsDown n left) : Goes w i t st v f (some (.container c)) (some (.task i n))
  /-- The task runs the finalizer. -/
  | runs (n : Nat) (runs : t.finalizes = some (n, f, v)) : Goes w i t st v f (some (.task i n)) none

theorem Task.Goes.of_spares {w : World} {i : Nat} {t : Task} {st : Step} {v : Instance} {f : Finalizer}
    {q q' : Option Place} (spares : t.Spares w) (moved : World.Moved w st.world q q') : Goes w i t st v f q q' :=
  .moved (fun c _ => by rw [spares.terminates]; intro h; cases h)
    (fun n => by rw [spares.finalizes]; intro h; cases h) moved

/-- A task that terminates a container takes what is with it then. -/
theorem Task.Goes.of_terminates {w w₁ : World} {i n : Nat} {t : Task} {st : Step} {v : Instance} {f : Finalizer}
    {q q₁ : Option Place} {c : ContainerId} {left : List Teardown} (ends : t.terminates w = some c)
    (runs : t.finalizes = none) (winds : st.task.WindsDown n left) (alive : w₁.Alive c)
    (world : st.world = (w₁.terminate c).2) (moved : World.Moved w w₁ q q₁) :
    Goes w i t st v f q (if q₁ = some (.container c) then some (.task i n) else q₁) := by
  have others : ∀ n, t.finalizes ≠ some (n, f, v) := by
    intro n
    rw [runs]
    intro h
    cases h
  cases moved with
  | stays kept =>
    split
    · next hq =>
      subst hq
      exact .takes n ends _ winds
    · next ne =>
      have other : ∀ d, q = some (.container d) → d ≠ c := by
        intro d hd e
        exact ne (e ▸ hd)
      refine .moved (fun d hd => ?_) others (.stays fun d hd => ?_)
      · rw [ends]
        exact fun e => other d hd (Option.some.inj e).symm
      · rw [world, World.finals_terminate alive, if_neg (other d hd).symm]
        exact kept d hd
  | @ends d i dead kept =>
    have ne : d ≠ c := by
      intro e
      rw [e, alive.2] at dead
      cases dead
    rw [if_neg (by simp)]
    refine .moved (fun d' hd => ?_) others (.ends i ?_ (by rw [world]; exact kept))
    · cases hd
      rw [ends]
      exact fun e => ne (Option.some.inj e).symm
    · rw [world, World.terminate, World.live_modifyCache, World.live_modifyCallbacks]
      exact dead

/-- No step copies or loses the teardown of an instance. -/
theorem Task.Does.only {p : Program} {held : List ContainerId} {w : World} {t : Task} {st : Step}
    (h : t.Does p held w st) {ts us : List Task} {i : Nat} (found : ts[i]? = some t) (none : ∀ u ∈ us, u.left = [])
    (alive : ∀ c ∈ t.held, w.Alive c) {v : Instance} {f : Finalizer} (ty : f.ty = v.ty)
    (others : ∀ b v', t.hand? = some (b, v') → b.finalizer = .none ∨ v'.serial ≠ v.serial) {q : Option Place}
    (only : w.Only ts v f q) :
    ∃ q', st.world.Only (ts.set i st.task ++ us) v f q' ∧ Goes w i t st v f q q' := by
  have stays : ∀ {q'}, t.Spares w → st.task.left = t.left → st.world.Only ts v f q' → World.Moved w st.world q q' →
      ∃ q', st.world.Only (ts.set i st.task ++ us) v f q' ∧ Goes w i t st v f q q' := fun spares left only' moved =>
    ⟨_, only'.goesOn found left none, .of_spares spares moved⟩
  cases h with
  | calm _ spares edited _ left =>
    obtain ⟨_, edits⟩ := edited
    obtain ⟨q', only', moved⟩ := edits.only only
    exact stays spares left only' moved
  | makes _ _ _ spares w₁ edits world _ left =>
    obtain ⟨q', only', moved⟩ := World.Edits.only (edits.trans world.edits) only
    exact stays spares left only' moved
  | linesUp b _ spares _ _ enters _ left =>
    have same := World.finals_of_enter enters
    exact stays spares left (only.of_world same (World.orphans_of_enter enters)) (.of_finals same)
  | skips b _ _ spares world _ left =>
    have same : ∀ c, st.world.finals c = w.finals c := by
      intro c
      rw [world, World.finals_leave, World.finals_letIn]
    exact stays spares left (only.of_world same (by rw [world]; rfl)) (.of_finals same)
  | begins b _ _ spares _ edits _ left =>
    have same := World.finals_letIn w b
    obtain ⟨q', only', moved⟩ := edits.only (only.of_world same rfl)
    exact stays spares left only' ((World.Moved.of_finals same).trans moved edits.dead edits.orphans_prefix)
  | aborts b _ spares world _ left =>
    have same : ∀ c, st.world.finals c = w.finals c := by
      intro c
      rw [world, World.finals_leave]
    exact stays spares left (only.of_world same (by rw [world]; rfl)) (.of_finals same)
  | completes b v' _ hand spares w₁ edits world builds left =>
    have hb := alive _ (held_of_builds builds)
    obtain ⟨q', only', moved⟩ := edits.only (only.record_of_other hb (others b v' hand))
    have only' := only'.leave b
    have moved := ((World.Moved.record hb v').trans moved edits.dead edits.orphans_prefix).leave b
    rw [← world] at only' moved
    exact stays spares left only' moved
  | terminates c n _ ends runs w₁ edits hc world _ left _ _ winds =>
    obtain ⟨q₁, only₁, moved⟩ := edits.only only
    have only' := only₁.takes hc found left
    rw [← world] at only'
    exact ⟨_, only'.of_tasks fun j height => Task.leftAt_append none j height, .of_terminates ends runs winds hc world moved⟩
  | finalizes x _ ends runs world _ left =>
    have told : (w.tell (.finalized x.2.1.script.id x.2.2)).Only ts v f q := only.of_world (fun _ => rfl) rfl
    rw [← world] at told
    rcases told.pops found left with ⟨hx, rfl, only'⟩ | ⟨other, only'⟩
    · refine ⟨_, only'.of_tasks fun j height => Task.leftAt_append none j height, .runs x.1 ?_⟩
      rw [runs, ← hx]
    · refine ⟨q, only'.of_tasks fun j height => Task.leftAt_append none j height,
        .moved (fun c _ => ?_) (fun n => ?_) (.of_finals fun c => by rw [world]; rfl)⟩
      · rw [ends]
        intro h; cases h
      · rw [runs]
        intro h
        rw [Option.some.inj h] at other
        simp [Shared.same] at other
  | passes x _ spares other world _ left =>
    rw [← world] at only
    rcases only.pops found left with ⟨hx, -, -⟩ | ⟨-, only'⟩
    · rw [hx] at other
      exact absurd ty other
    · refine ⟨q, only'.of_tasks fun j height => Task.leftAt_append none j height, .of_spares spares ?_⟩
      exact .of_finals fun c => by rw [world]

/-- What is built is recorded once. -/
theorem Task.Does.records {p : Program} {held : List ContainerId} {w : World} {t : Task} {st : Step}
    (h : t.Does p held w st) {ts us : List Task} {i : Nat} (found : ts[i]? = some t) (none : ∀ u ∈ us, u.left = [])
    (alive : ∀ c ∈ t.held, w.Alive c) (hh : ∀ c ∈ t.held, c ∈ held) {b : Build} {v : Instance} {f : Finalizer}
    (hand : t.hand? = some (b, v)) (hf : b.finalizer = some f) (only : w.Only ts v f .none) :
    st.world.Only (ts.set i st.task ++ us) v f (some (.container b.container)) ∧
      World.Moved w st.world (some (.container b.container)) (some (.container b.container)) := by
  obtain ⟨-, -, ⟨w₁, edits, world⟩, builds, left, -⟩ := h.completed hand
  have hb := held_of_builds builds
  obtain ⟨q', only', moved⟩ := edits.only (only.record (alive _ hb) hf)
  have alive' := edits.alive_held (Step.alive_record v (alive _ hb)) (hh _ hb)
  have recorded := (World.Moved.record (alive _ hb) v).trans moved edits.dead edits.orphans_prefix
  cases moved with
  | stays =>
    rw [world]
    exact ⟨(only'.leave b).goesOn found left none, recorded.leave b⟩
  | ends _ dead =>
    rw [alive'.2] at dead
    cases dead

/-! ## Moves -/

/-- A container that has a teardown is open. -/
theorem World.Only.alive {w : World} {ts : List Task} {v : Instance} {f : Finalizer} {c : ContainerId} (ok : w.Ok)
    (h : w.Only ts v f (some (.container c))) : w.Alive c := by
  have here := h (.container c)
  rw [if_pos rfl, teardowns, World.finals] at here
  constructor
  · by_contra past
    rw [World.container_of_ge (Nat.not_lt.1 past)] at here
    cases here
  · by_contra dead
    rw [ok.ended c (Bool.eq_false_iff.2 dead)] at here
    cases here

namespace System

variable {p : Program} {s s' : System} {v : Instance} {f : Finalizer} {q : Option Place} {c : ContainerId}

/-- The finalizer that the running task runs. -/
def finalizes (s : System) : Option Pending := s.current.bind Task.finalizes

/-- Whether the only teardown of `v`, with finalizer `f`, is at place `q`, or nowhere. -/
def Only (s : System) (v : Instance) (f : Finalizer) (q : Option Place) : Prop := s.world.Only s.tasks v f q

/-- Whether a container comes to its end in a move: it is terminated, or it is dropped. Task `i` takes over
what it has left, to be done before what waits at height `n` goes on. -/
inductive Ends (s s' : System) (c : ContainerId) (i n : Nat) : Prop where
  | terminated (running : s.running = some i) (ends : s.terminates = some c) (t : Task) (left : List Teardown)
    (found : s'.tasks[i]? = some t) (winds : t.WindsDown n left)
  | dropped (spared : s.terminates ≠ some c) (alive : s.world.Alive c) (dead : ¬ s'.world.Alive c)
    (takes : Task.TakesOver s.tasks s'.tasks i (s.world.finals c)) (first : n = 1)

/-- What a move can do to where the only teardown of `v` is. -/
inductive Goes (s s' : System) (v : Instance) (f : Finalizer) : Option Place → Option Place → Prop where
  | stays {q : Option Place} (spared : ∀ c, q = some (.container c) → s.terminates ≠ some c)
    (others : ∀ n, s.finalizes ≠ some (n, f, v)) : Goes s s' v f q q
  | taken {c : ContainerId} (i n : Nat) (ends : s.Ends s' c i n) :
    Goes s s' v f (some (.container c)) (some (.task i n))
  | runs (i n : Nat) (running : s.running = some i) (runs : s.finalizes = some (n, f, v)) :
    Goes s s' v f (some (.task i n)) none

theorem Goes.of_spares (spares : ∀ t, s.current = some t → t.Spares s.world) : Goes s s' v f q q := by
  refine .stays (fun c _ ends => ?_) fun n runs => ?_
  · obtain ⟨t, current, ends⟩ := Option.bind_eq_some_iff.1 ends
    rw [(spares t current).terminates] at ends
    cases ends
  · obtain ⟨t, current, runs⟩ := Option.bind_eq_some_iff.1 runs
    rw [(spares t current).finalizes] at runs
    cases runs

theorem Halts.spares (h : s.Halts) (t : Task) (current : s.current = some t) : t.Spares s.world := by
  obtain ⟨i, running, found⟩ := exists_of_current current
  rcases h i t running found with ⟨r, rfl⟩ | ⟨b, below, rfl, -⟩ | ⟨ts, below, rfl⟩ <;> exact ⟨rfl, rfl⟩

/-- A task that is over has nothing left. -/
theorem left_of_replied {t : Task} (replied : t.reply? ≠ none) : t.left = [] := by
  obtain ⟨r, rfl⟩ := Task.eq_of_reply replied
  rfl

theorem left_started {st : Step} (opens : st.Open) : ∀ u ∈ st.started, u.left = [] := by
  intro u hu
  obtain ⟨s, o, rfl, -⟩ := opens.started u hu
  rfl

theorem length_le_started (s : System) (st : Step) (i : Nat) :
    s.tasks.length ≤ (s.tasks.set i st.task ++ st.started).length := by
  rw [List.length_append, List.length_set]
  exact Nat.le_add_right _ _

theorem takesOver_mono {ts ts₁ us us₁ : List Task} {j : Nat} {l l₁ : List (Finalizer × Instance)}
    (h : Task.TakesOver ts₁ us₁ j l₁) (more : ts.length ≤ ts₁.length) (same : ∀ t, us₁[j]? = some t → us[j]? = some t)
    (sub : l <+: l₁) : Task.TakesOver ts us j l := by
  obtain ⟨new, left, found, all⟩ := h
  exact ⟨List.getElem?_eq_none (Nat.le_trans more (List.getElem?_eq_none_iff.1 new)), left, same _ found, sub.trans all⟩

/-- After a step, ending what nobody can reach may drop the container that has a teardown. -/
theorem settles {w : World} {ts us : List Task} {q₁ : Option Place} (world : s'.world = settledWorld w ts)
    (tasks : s'.tasks = settledTasks w ts ++ us) (none : ∀ u ∈ us, u.left = []) (more : s.tasks.length ≤ ts.length)
    (alive : ∀ c, q = some (.container c) → s.world.Alive c)
    (spared : ∀ c, q = some (.container c) → s.terminates ≠ some c) (others : ∀ n, s.finalizes ≠ some (n, f, v))
    (settled : ∀ j, q ≠ some (.orphan j)) (moved : World.Moved s.world w q q₁) (only : w.Only ts v f q₁) :
    ∃ q', s'.Only v f q' ∧ (∀ j, q' ≠ some (.orphan j)) ∧ s.Goes s' v f q q' := by
  obtain ⟨q₂, only₂, settled₂, moved'⟩ := only.settle
  have found : ∀ {j : Nat} {t : Task}, (settledTasks w ts)[j]? = some t → s'.tasks[j]? = some t := by
    intro j t found
    rw [tasks]
    exact get?_append found us
  have dropped : ∀ {c j l}, q = some (.container c) → ((settledWorld w ts).container c).live = false →
      Task.TakesOver ts (settledTasks w ts) j l → s.world.finals c <+: l →
      s.Goes s' v f (some (.container c)) (some (.task j 1)) := by
    intro c j l hq dead takes sub
    refine .taken j 1 (.dropped (spared c hq) (alive c hq) ?_ (takesOver_mono takes more (fun _ => found) sub) rfl)
    rw [world]
    intro alive
    rw [alive.2] at dead
    cases dead
  refine ⟨q₂, ?_, settled₂, ?_⟩
  · rw [Only, world, tasks]
    exact only₂.of_tasks fun j height => Task.leftAt_append none j height
  · -- Its container may be ended by the step or just after it.
    cases moved with
    | stays kept =>
      rcases moved' with rfl | ⟨j, l, rfl, takes, ⟨k, rfl, -⟩ | ⟨c, rfl, dead, sub⟩⟩
      · exact .stays spared others
      · exact absurd rfl (settled k)
      · exact dropped rfl dead takes ((kept c rfl).trans sub)
    | @ends c i dead left =>
      have dead' : ((settledWorld w ts).container c).live = false := (World.Edit.release : w.Edit {} _ _).dead dead
      rcases moved' with rfl | ⟨j, l, rfl, takes, ⟨k, hk, sub⟩ | ⟨_, h, -⟩⟩
      · exact absurd rfl (settled₂ i)
      · cases hk
        exact dropped rfl dead' takes (left.trans sub)
      · cases h

/-- No move copies or loses the teardown of an instance. -/
theorem Change.only (h : Change p s s') (reached : Reachable p s) (ty : f.ty = v.ty)
    (unrelated : ∀ b v', s.hand? = some (b, v') → b.finalizer = none ∨ v'.serial ≠ v.serial)
    (settled : ∀ j, q ≠ some (.orphan j))
    (only : s.Only v f q) : ∃ q', s'.Only v f q' ∧ (∀ j, q' ≠ some (.orphan j)) ∧ s.Goes s' v f q q' := by
  have alive : ∀ c, q = some (.container c) → s.world.Alive c := by
    intro c hq
    exact World.Only.alive reached.sound.ok (hq ▸ only)
  cases h with
  | step i t st running found does turn opens world tasks =>
    have current := current_eq running found
    have here := (List.getElem?_eq_some_iff.1 found).1
    have none := left_started opens
    have hand : ∀ b v', t.hand? = some (b, v') → b.finalizer = .none ∨ v'.serial ≠ v.serial := by
      intro b v' hand
      apply unrelated b v'
      rw [hand?, current]
      exact hand
    obtain ⟨q₁, only₁, goes⟩ :=
      does.only found none (reached.sound.alive t (List.mem_of_getElem? found)) ty hand only
    have more := length_le_started s st i
    cases goes with
    | moved spared others moved =>
      refine settles world (tasks.trans (List.append_nil _).symm) (fun u hu => (List.not_mem_nil hu).elim) more alive
        (fun c hq => ?_) (fun n => ?_) settled moved only₁
      · rw [terminates, current]
        exact spared c hq
      · rw [finalizes, current]
        exact others n
    | @takes c n ends left winds =>
      have only₂ := only₁.settle_of_taken (fun c h => by cases h) fun j h => by cases h
      rw [← world, ← tasks] at only₂
      refine ⟨_, only₂, (fun j h => by cases h), .taken i n (.terminated running ?_ st.task left ?_ winds)⟩
      · rw [terminates, current]
        exact ends
      · rw [tasks]
        exact get?_settledTasks (get?_append (List.getElem?_set_self here) _)
    | runs n runs =>
      have only₂ := only₁.settle_of_taken (fun c h => by cases h) fun j h => by cases h
      rw [← world, ← tasks] at only₂
      exact ⟨_, only₂, (fun j h => by cases h), .runs i n running (by rw [finalizes, current]; exact runs)⟩
  | halts halts world tasks =>
    refine ⟨q, ?_, settled, .of_spares halts.spares⟩
    rw [Only, world, tasks]
    exact only
  | outside idle w edits us new containers world tasks =>
    obtain ⟨q₁, only₁, moved⟩ := edits.only only
    refine settles world tasks (fun u hu => ?_) (Nat.le_refl _) alive (fun c _ => ?_) (fun n => ?_) settled moved only₁
    · obtain ⟨o, rfl⟩ := new u hu
      rfl
    · rw [terminates, current_of_idle idle]
      intro h; cases h
    · rw [finalizes, current_of_idle idle]
      intro h; cases h
  | renews idle finished world tasks =>
    refine ⟨q, ?_, settled, .of_spares fun t current => by rw [current_of_idle idle] at current; cases current⟩
    rw [Only, world, tasks]
    have none : ∀ j height, Task.leftAt [] j height = Task.leftAt s.tasks j height := by
      intro j height
      exact (Task.leftAt_eq_nil (fun t found => by cases found) height).trans
          (Task.leftAt_eq_nil (fun t found => left_of_replied (finished t (List.mem_of_getElem? found))) height).symm
    exact (World.Only.of_tasks only none).of_world (fun _ => rfl) rfl

/-- What is in hand for a build is handed on. -/
theorem Takes.hands {i : Nat} {t : Task} {st : Step} {b : Build} (h : s.Takes p i t st) (hand : t.hand? = some (b, v)) :
    ∃ below : Stack .answer, st.task = ⟨.answer, .give (k := .answer) (.ok v), below⟩ := by
  cases h with
  | joined => cases hand
  | step =>
    obtain ⟨below, rfl⟩ := Task.of_hand hand
    exact ⟨below, rfl⟩

/-- When an instance is handed over that is built, it has its one teardown, with the container that built it. -/
theorem Moves.records (h : s.Moves p s') (reached : Reachable p s) {b : Build} (hand : s.hand? = some (b, v))
    (hf : b.finalizer = some f) (only : s.Only v f none) :
    (∃ i w ts, ∃ below : Stack .answer, s.running = some i ∧
      ts[i]? = some ⟨.answer, .give (k := .answer) (.ok v), below⟩ ∧ w.Only ts v f (some (.container b.container)) ∧
      s'.world = settledWorld w ts ∧ s'.tasks = settledTasks w ts) ∧
    ∃ q', s'.Only v f q' ∧ s.Goes s' v f (some (.container b.container)) q' := by
  rcases h.cases with ⟨i, t, st, running, found, takes, world, tasks⟩ | ⟨halts, -⟩ | ⟨idle, -⟩
  · have current := current_eq running found
    have ht := List.mem_of_getElem? found
    obtain ⟨does, opens⟩ := takes.does_of_reachable reached found
    have none := left_started opens
    rw [hand?, current, Option.bind_some] at hand
    obtain ⟨-, spares, -, builds, -⟩ := does.completed hand
    have alive := reached.sound.alive t ht
    obtain ⟨only', moved⟩ := does.records found none alive (held_of_mem ht) hand hf only
    rw [world_put] at world
    rw [tasks_put] at tasks
    refine ⟨?_, ?_⟩
    · obtain ⟨below, hands⟩ := takes.hands hand
      refine ⟨i, _, _, below, running, ?_, only', world, tasks⟩
      rw [← hands]
      exact get?_append (List.getElem?_set_self (List.getElem?_eq_some_iff.1 found).1) _
    · have more := length_le_started s st i
      obtain ⟨q', only', -, goes⟩ := settles (s := s) world (tasks.trans (List.append_nil _).symm)
        (fun u hu => (List.not_mem_nil hu).elim) more
        (fun c hq => by cases hq; exact alive _ (Task.Does.held_of_builds builds))
        (fun c _ => by rw [terminates, current, Option.bind_some, spares.terminates]; intro h; cases h)
        (fun n => by rw [finalizes, current, Option.bind_some, spares.finalizes]; intro h; cases h)
        (fun j h => by cases h) moved only'
      exact ⟨q', only', goes⟩
  · rw [halts.hand_none] at hand
    cases hand
  · rw [hand_of_idle idle] at hand
    cases hand

end System

end Injector
