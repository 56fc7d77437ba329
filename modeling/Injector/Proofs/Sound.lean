import Injector.Proofs.Steps
/-!
# Runs in order

In every run the containers are in order, the tasks too, and every container that a task
still works with is open (`Reachable.sound`). `Reachable.induction` is the induction over
runs with all this at hand, in which a step of a task is what `Task.Does` makes of it.
-/
namespace Injector

variable {p : Program} {held : List ContainerId} {w w' : World} {t : Task} {st : Step}

/-! ## Builds keep their containers open -/

theorem Stack.held_of_mem_builds {k : Kind} {below : Stack k} {b : Build} (h : b ∈ below.builds) :
    b.container ∈ below.held := by
  induction below with
  | nil => cases h
  | cons c below ih =>
    cases c with
    | build b' =>
      rcases List.mem_cons.1 h with rfl | h
      · exact List.mem_cons_self
      · exact List.mem_cons_of_mem _ (ih h)
    | slot | convert | deliver | observe | body | close | scopeBody | callback => exact List.mem_append_right _ (ih h)

namespace Task

theorem held_of_mem_builds {b : Build} (h : b ∈ t.builds) : b.container ∈ t.held :=
  List.mem_append_right _ (Stack.held_of_mem_builds h)

theorem held_of_line {b : Build} (h : t.line? = some b) : b.container ∈ t.held := by
  obtain ⟨k, a, below⟩ := t
  cases a with
  | line b' =>
    cases h
    exact List.mem_cons_self
  | resolve | fill | pause | perform | windDown | await | give => cases h

end Task

/-! ## Worlds stay in order -/

namespace World.Edited

theorem ok (h : w.Edited p held w') (ok : w.Ok) : w'.Ok :=
  let ⟨_, edits⟩ := h
  edits.ok ok

theorem alive (h : w.Edited p held w') {c : ContainerId} (alive : w.Alive c) (hc : c ∈ held) : w'.Alive c :=
  let ⟨_, edits⟩ := h
  edits.alive_held alive (List.mem_append_right _ hc)

theorem serials (h : w.Edited p held w') : w.supply.serials ≤ w'.supply.serials :=
  let ⟨_, edits⟩ := h
  edits.serials

end World.Edited

theorem World.Ok.modifyLocks (ok : w.Ok) {c : ContainerId} (alive : w.Alive c) (f : Locks → Locks) :
    (w.modifyLocks c f).Ok :=
  ok.modify alive (fun _ => rfl) (fun _ => rfl) id

theorem World.Ok.terminate (ok : w.Ok) {c : ContainerId} (alive : w.Alive c) : (w.terminate c).2.Ok := by
  have cleared : (w.modifyCallbacks c Callbacks.clearTerminating).Ok :=
    ok.modify alive (fun _ => rfl) (fun _ => rfl) id
  exact cleared.modify (Step.alive_modify (fun _ => rfl) alive) (fun _ => rfl) (fun _ => rfl) id

namespace Task.Does

theorem held_of_builds {b : Build} {bs : List Build} (h : t.builds = b :: bs) : b.container ∈ t.held :=
  held_of_mem_builds (h ▸ List.mem_cons_self)

theorem ok (h : t.Does p held w st) (ok : w.Ok) (alive : ∀ c ∈ t.held, w.Alive c) (hh : ∀ c ∈ t.held, c ∈ held) :
    st.world.Ok := by
  cases h with
  | calm _ _ edited => exact edited.ok ok
  | makes _ _ _ _ _ edits world => exact World.Edits.ok (edits.trans world.edits) ok
  | linesUp b _ _ hb _ enters =>
    have entered : (w.enter b.container b.key).2.2.Ok := by
      rw [World.enter_eq]
      exact (ok.modifyLocks hb fun _ => _).congr rfl rfl
    rw [enters] at entered
    exact entered
  | skips b line _ _ world =>
    have hb := alive _ (held_of_line line)
    rw [world]
    exact (ok.modifyLocks hb _).modifyLocks (Step.alive_letIn hb) _
  | begins b line _ _ _ edits => exact edits.ok (ok.modifyLocks (alive _ (held_of_line line)) _)
  | aborts b _ _ world builds =>
    rw [world]
    exact ok.modifyLocks (alive _ (held_of_builds builds)) _
  | completes b v _ _ _ w₁ edits world builds =>
    have hb := alive _ (held_of_builds builds)
    rw [world]
    refine (edits.ok (Step.ok_record v ok hb)).modifyLocks ?_ _
    exact edits.alive_held (Step.alive_record v hb) (hh _ (held_of_builds builds))
  | terminates c _ _ _ _ w₁ edits hc world =>
    rw [world]
    exact (edits.ok ok).terminate hc
  | finalizes _ _ _ _ world =>
    rw [world]
    exact ok.congr rfl rfl
  | passes _ _ _ _ world =>
    rw [world]
    exact ok

/-- No step ends a container that a task works with. -/
theorem alive (h : t.Does p held w st) {c : ContainerId} (hc : w.Alive c) (hheld : c ∈ held) : st.world.Alive c := by
  cases h with
  | calm _ _ edited => exact edited.alive hc hheld
  | makes _ _ _ _ _ edits world => exact World.Edits.alive_held (edits.trans world.edits) hc hheld
  | linesUp b _ _ _ _ enters =>
    have entered : (w.enter b.container b.key).2.2.Alive c := Step.alive_modify (fun _ => rfl) hc
    rw [enters] at entered
    exact entered
  | skips b _ _ _ world =>
    rw [world]
    exact Step.alive_leave (Step.alive_letIn hc)
  | begins b _ _ _ _ edits => exact edits.alive_held (Step.alive_letIn hc) hheld
  | aborts b _ _ world =>
    rw [world]
    exact Step.alive_leave hc
  | completes b v _ _ _ w₁ edits world =>
    rw [world]
    exact Step.alive_leave (edits.alive_held (Step.alive_record v hc) hheld)
  | terminates c' _ _ _ _ w₁ edits _ world =>
    rw [world]
    exact Step.alive_modify (fun _ => rfl) (Step.alive_modify (fun _ => rfl) (edits.alive_held hc hheld))
  | finalizes _ _ _ _ world =>
    rw [world]
    exact hc
  | passes _ _ _ _ world =>
    rw [world]
    exact hc

end Task.Does

/-! ## Tasks in order -/

theorem Task.wf_ofOp (s : Scene) (o : Op) (h : s.path = []) : (Task.ofOp s o).Wf := ⟨h, trivial⟩

theorem Task.wf_ofTeardowns (ts : List Teardown) : (Task.ofTeardowns ts).Wf := ⟨rfl, trivial⟩

namespace System

/-- What is true of world and tasks in every run. -/
structure Sound (w : World) (ts : List Task) : Prop where
  ok : w.Ok
  alive : ∀ t ∈ ts, ∀ c ∈ t.held, w.Alive c
  wf : ∀ t ∈ ts, t.Wf

theorem held_of_mem {ts : List Task} {t : Task} (ht : t ∈ ts) : ∀ c ∈ t.held, c ∈ ts.flatMap Task.held :=
  fun _ hc => List.mem_flatMap.2 ⟨t, ht, hc⟩

/-- Ending what nobody can reach ends nothing that a task works with. -/
theorem alive_settledWorld {ts : List Task} {c : ContainerId} (hc : w.Alive c) (hh : c ∈ ts.flatMap Task.held) :
    (settledWorld w ts).Alive c :=
  World.Ok.alive_release hc (List.mem_flatMap.2 ⟨c, List.mem_append_right _ hh, List.mem_cons_self⟩)

theorem Sound.release {ts : List Task} (h : Sound w ts) : Sound (settledWorld w ts) (settledTasks w ts) where
  ok := (h.ok.release _).congr rfl rfl
  alive t ht c hc := by
    rcases List.mem_append.1 ht with ht | ht
    · exact alive_settledWorld (h.alive t ht c hc) (held_of_mem ht c hc)
    · obtain ⟨_, _, rfl⟩ := List.mem_map.1 ht
      cases hc
  wf t ht := by
    rcases List.mem_append.1 ht with ht | ht
    · exact h.wf t ht
    · obtain ⟨ts, _, rfl⟩ := List.mem_map.1 ht
      exact Task.wf_ofTeardowns ts

theorem Sound.begin {ts : List Task} (h : Sound w ts) (o : Op) : Sound w (ts ++ [.ofOp {} o]) where
  ok := h.ok
  alive t ht c hc := by
    rcases List.mem_append.1 ht with ht | ht
    · exact h.alive t ht c hc
    · rw [List.mem_singleton.1 ht] at hc
      cases hc
  wf t ht := by
    rcases List.mem_append.1 ht with ht | ht
    · exact h.wf t ht
    · rw [List.mem_singleton.1 ht]
      exact Task.wf_ofOp _ o rfl

theorem Sound.step {ts : List Task} (h : Sound w ts) {i : Nat} {t : Task} {st : Step} (found : ts[i]? = some t)
    (does : t.Does p (ts.flatMap Task.held) w st) (opens : st.Open) (wf : st.Wf) :
    Sound st.world (ts.set i st.task ++ st.started) := by
  have ht := List.mem_of_getElem? found
  refine ⟨does.ok h.ok (h.alive t ht) (held_of_mem ht), fun t' ht' c hc => ?_, fun t' ht' => ?_⟩
  · rcases List.mem_append.1 ht' with ht' | ht'
    · rcases List.mem_or_eq_of_mem_set ht' with ht' | rfl
      · exact does.alive (h.alive t' ht' c hc) (held_of_mem ht' c hc)
      · exact opens.held c hc
    · -- A task that was started works with the container of the operation that started it.
      obtain ⟨s, o, rfl, hs⟩ := opens.started t' ht'
      exact hs c (by simpa [Task.ofOp, Task.held, Activity.held, Stack.held] using hc)
  · rcases List.mem_append.1 ht' with ht' | ht'
    · exact (List.mem_or_eq_of_mem_set ht').elim (h.wf t') fun e => e ▸ wf.task
    · exact wf.started t' ht'

theorem Takes.wf {s : System} {i : Nat} {t : Task} {st : Step} (h : s.Takes p i t st) (ok : s.world.Ok) (wf : t.Wf) :
    st.Wf := by
  cases h with
  | step => exact Task.wf_step ok wf
  | joined => exact Step.wf_reply wf.stack

theorem Sound.of_ok (ok : w.Ok) : Sound w [] where
  ok := ok
  alive _ h := (List.not_mem_nil h).elim
  wf _ h := (List.not_mem_nil h).elim

theorem ok_empty : ({} : World).Ok where
  names _ h := (List.not_mem_nil h).elim
  bases _ h := absurd h.1 (Nat.not_lt_zero _)
  opened _ _ h := (List.not_mem_nil h).elim
  chain _ _ _ h := by cases h
  ended _ h := by cases h
  registry _ _ := Registry.fits_empty

theorem sound_initial (name : String) : Sound (({} : World).openRoot name) [] :=
  have opens : ({} : World).Edits {} [] (({} : World).openRoot name) := World.openRoot_edits name
  .of_ok (opens.ok ok_empty)

/-- Who has a build in line takes a step only when the build may start. -/
theorem Takes.turn {s : System} {i : Nat} {t : Task} {st : Step} (h : s.Takes p i t st) (found : s.tasks[i]? = some t) :
    ∀ b, t.line? = some b → s.world.mayStart b = true := by
  obtain ⟨k, a, below⟩ := t
  intro b line
  cases a with
  | line b' =>
    obtain rfl := Option.some.inj line
    cases h with
    | step turn =>
      have ready := turn b' below rfl
      unfold System.ready at ready
      rw [found] at ready
      exact ready
  | resolve | fill | pause | perform | windDown | await | give => cases line

/-- Induction over runs: a step of a task does one of a few things, in a world in order. -/
theorem Reachable.induction {I : World → List Task → Prop} (start : ∀ name, I (({} : World).openRoot name) [])
    (step : ∀ {w ts i t st}, Sound w ts → I w ts → ts[i]? = some t → t.Does p (ts.flatMap Task.held) w st →
      (∀ b, t.line? = some b → w.mayStart b = true) → st.Open → I st.world (ts.set i st.task ++ st.started))
    (release : ∀ {w ts}, Sound w ts → I w ts → I (settledWorld w ts) (settledTasks w ts))
    (begin : ∀ {w ts} (o : Op), I w ts → I w (ts ++ [.ofOp {} o]))
    (forget : ∀ {w ts} (name : String), I w ts → I (w.forget name) ts)
    (renew : ∀ {w ts}, I w ts → I { w with log := [] } [])
    {s : System} (h : Reachable p s) : Sound s.world s.tasks ∧ I s.world s.tasks := by
  refine h.invariant (I := fun w ts => Sound w ts ∧ I w ts) (fun name => ⟨sound_initial name, start name⟩) ?_
    (fun h => ⟨h.1.release, release h.1 h.2⟩) (fun o h => ⟨h.1.begin o, begin o h.2⟩) ?_ ?_
  · intro s i t st _ ⟨sound, h⟩ found takes
    have ht := List.mem_of_getElem? found
    obtain ⟨does, opens⟩ := takes.does sound.ok (sound.wf t ht) (sound.alive t ht) (held_of_mem ht)
    have wf := takes.wf sound.ok (sound.wf t ht)
    exact ⟨sound.step found does opens wf, step sound h found does (takes.turn found) opens⟩
  · intro w ts name ⟨sound, h⟩
    have edit : w.Edit p [] (w.forget name) := .forget name
    exact ⟨⟨edit.ok sound.ok, sound.alive, sound.wf⟩, forget name h⟩
  · intro w ts ⟨sound, h⟩
    exact ⟨.of_ok (sound.ok.congr rfl rfl), renew h⟩

/-- World and tasks are in order in every run. -/
theorem Reachable.sound {s : System} (h : Reachable p s) : Sound s.world s.tasks :=
  (h.induction (I := fun _ _ => True) (fun _ => trivial) (fun _ _ _ _ _ _ => trivial) (fun _ _ => trivial)
    (fun _ _ => trivial) (fun _ _ => trivial) fun _ => trivial).1

end System

end Injector
