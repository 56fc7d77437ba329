import Injector.Proofs.Deadlock
import Injector.Proofs.Nesting
import Injector.Proofs.Once
/-!
# Resolutions on their own

A resolution without operations that no other task comes in between (`System.Solo`) leaves the
other tasks as they are, and the world as it was but for what its builds record (`Stays`).
That no container is ended meanwhile is due to `World.Tidy`, which holds in every run: all that
is open can be reached.

`Solo.stage` tells how far such a resolution has come, and `Solo.unique` that it comes to one answer
only.
-/
namespace Injector

variable {p : Program}

/-! ## Open containers can be reached -/

namespace World

variable {w w' : World} {held held' : List ContainerId}

/-- Whether all open containers can be reached, and ended ones have nothing left to do. -/
structure Tidy (w : World) (held : List ContainerId) : Prop where
  reached : ∀ c, w.Alive c → c ∈ w.reachable held
  orphans : w.orphans = []

theorem Ok.mem_chain_trans (ok : w.Ok) {c d e : ContainerId} (hd : d ∈ w.chain c) (he : e ∈ w.chain d) :
    e ∈ w.chain c := by
  rcases List.mem_cons.1 he with rfl | he
  · exact hd
  · exact ok.bases_mem_chain hd he

/-- A chain holds the chains of its containers, also after records. -/
theorem After.chain_closed {xs : List (Build × Instance)} (h : w.After xs w') (ok : w.Ok) (c : ContainerId) :
    ∀ d ∈ w.chain c, ∀ e ∈ w'.chain d, e ∈ w.chain c := by
  intro d hd e he
  rw [h.chain] at he
  exact ok.mem_chain_trans hd he

theorem reachable_congr (names : w'.names = w.names) (chain : ∀ c, w'.chain c = w.chain c) (held : List ContainerId) :
    w'.reachable held = w.reachable held := by
  rw [reachable, names, funext chain, reachable]

theorem Tidy.release_eq (h : w.Tidy held) : w.release held = w := by
  have nothing : w.unreachable held = [] := by
    apply List.eq_nil_iff_forall_not_mem.2
    intro c hc
    obtain ⟨alive, unreached⟩ := mem_unreachable.1 hc
    exact unreached (h.reached c alive)
  rw [release, nothing]
  rfl

theorem Tidy.mono (h : w.Tidy held) (sub : ∀ c ∈ held, c ∈ held') : w.Tidy held' where
  reached c alive := by
    obtain ⟨d, hd, hc⟩ := List.mem_flatMap.1 (h.reached c alive)
    refine List.mem_flatMap.2 ⟨d, ?_, hc⟩
    rcases List.mem_append.1 hd with hd | hd
    · exact List.mem_append_left _ hd
    · exact List.mem_append_right _ (sub d hd)
  orphans := h.orphans

end World

/-- Who is finished works with no container. -/
theorem Task.held_of_reply {t : Task} (h : t.reply? ≠ none) : t.held = [] := by
  obtain ⟨r, rfl⟩ := Task.eq_of_reply h
  rfl

/-- Whether a request leads to a build: it is of the key that is looked up, on the container that serves it, by
the binding there or else the fallback. -/
structure Request.Leads (r : Request) (w : World) (b : Build) : Prop where
  located : ∃ β, w.locate r.container r.key = .builds b.container b.key β ∧
    b.binding = β.or (r.fallback.map Function.unbound)
  path : b.path = r.path ++ [b.key]

/-- Whether another build is made within a build: in the course of it, of another key, and on the same container or
one of its bases. -/
structure Build.Encloses (b : Build) (w : World) (b' : Build) : Prop where
  path : b.path <+: b'.path
  other : b'.key ≠ b.key
  container : b'.container ∈ w.chain b.container

namespace System

variable {s s' s'' : System} {w : World} {ts : List Task} {i : Nat} {t : Task} {st : Step}

theorem tidy_settled (w : World) (ts : List Task) :
    (settledWorld w ts).Tidy ((settledTasks w ts).flatMap Task.held) := by
  have released : (settledWorld w ts).Tidy (ts.flatMap Task.held) := by
    refine ⟨fun c alive => ?_, rfl⟩
    have open' : (w.release (ts.flatMap Task.held)).Alive c := alive
    obtain ⟨-, reached, -⟩ := World.Ok.of_alive_release open'
    have same : (settledWorld w ts).reachable (ts.flatMap Task.held) = w.reachable (ts.flatMap Task.held) :=
      World.reachable_congr (World.names_release w _) (fun c => by
        rw [World.chain, World.chain]
        exact congrArg (c :: ·) (World.bases_release w _ c)) _
    exact same ▸ reached
  refine released.mono fun c hc => ?_
  rw [settledTasks, List.flatMap_append]
  exact List.mem_append_left _ hc

theorem settledWorld_of_tidy (h : w.Tidy (ts.flatMap Task.held)) : settledWorld w ts = w := by
  rw [settledWorld, h.release_eq, ← h.orphans]

theorem settledTasks_of_tidy (h : w.Tidy (ts.flatMap Task.held)) : settledTasks w ts = ts := by
  rw [settledTasks, h.release_eq, h.orphans]
  exact List.append_nil ts

theorem Change.tidy (h : Change p s s') (tidy : s.world.Tidy s.held) : s'.world.Tidy s'.held := by
  cases h with
  | step _ _ _ _ _ _ _ _ world tasks =>
    rw [System.held, world, tasks]
    exact tidy_settled _ _
  | halts _ world tasks =>
    rw [System.held, world, tasks]
    exact tidy
  | outside _ w _ us _ _ world tasks =>
    rw [System.held, world, tasks]
    refine (tidy_settled w s.tasks).mono fun c hc => ?_
    rw [List.flatMap_append]
    exact List.mem_append_left _ hc
  | renews _ finished world tasks =>
    rw [System.held, world, tasks]
    refine World.Tidy.mono ⟨tidy.reached, tidy.orphans⟩ fun c hc => ?_
    -- Who is finished kept nothing alive.
    obtain ⟨t, ht, hc⟩ := List.mem_flatMap.1 hc
    rw [Task.held_of_reply (finished t ht)] at hc
    cases hc

/-- All that is open can be reached in every run. -/
theorem Reachable.tidy (h : Reachable p s) : s.world.Tidy s.held := by
  induction h with
  | start name =>
    refine ⟨fun c alive => ?_, rfl⟩
    obtain rfl : c = 0 := Nat.lt_one_iff.1 alive.1
    exact List.mem_cons_self
  | move before moves ih => exact (moves.change before).tidy ih

/-- A step that ends no container and lets go of none changes just its task. -/
theorem Reachable.put_eq (h : Reachable p s) (found : s.tasks[i]? = some t) {xs : List (Build × Instance)}
    (after : s.world.After xs st.world) (started : st.started = [])
    (covered : ∀ c ∈ t.held, ∃ d ∈ st.task.held, c ∈ s.world.chain d) :
    (s.put i st).world = st.world ∧ (s.put i st).tasks = s.tasks.set i st.task := by
  have tidy : st.world.Tidy ((s.tasks.set i st.task).flatMap Task.held) := by
    refine ⟨fun c alive => ?_, after.orphans.trans h.tidy.orphans⟩
    have alive' : s.world.Alive c := ⟨after.length ▸ alive.1, after.live c ▸ alive.2⟩
    rw [World.reachable_congr after.names after.chain]
    obtain ⟨d, hd, hc⟩ := List.mem_flatMap.1 (h.tidy.reached c alive')
    rcases List.mem_append.1 hd with hd | hd
    · exact List.mem_flatMap.2 ⟨d, List.mem_append_left _ hd, hc⟩
    · -- Some task works with `d`. If it is the one that takes the step, it still works with a scope on `d`.
      obtain ⟨u, hu, hd⟩ := List.mem_flatMap.1 hd
      obtain ⟨j, hj⟩ := List.getElem?_of_mem hu
      have kept : ∀ {e u'}, (s.tasks.set i st.task)[j]? = some u' → e ∈ u'.held → c ∈ s.world.chain e →
          c ∈ s.world.reachable ((s.tasks.set i st.task).flatMap Task.held) := by
        intro e u' hu' he hc
        refine List.mem_flatMap.2 ⟨e, List.mem_append_right _ (List.mem_flatMap.2 ⟨u', ?_, he⟩), hc⟩
        exact List.mem_of_getElem? hu'
      by_cases e : i = j
      · subst e
        obtain rfl := Option.some.inj (hj.symm.trans found)
        obtain ⟨d', hd', within⟩ := covered d hd
        refine kept (List.getElem?_set_self (List.getElem?_eq_some_iff.1 found).1) hd' ?_
        exact h.sound.ok.mem_chain_trans within hc
      · exact kept ((List.getElem?_set_ne e).trans hj) hd hc
  rw [world_put, tasks_put, started, List.append_nil]
  exact ⟨settledWorld_of_tidy tidy, settledTasks_of_tidy tidy⟩

/-! ## Runs of one resolution -/

/-- Whether the running task asks a container for an instance, and operations have no part in it. -/
structure Asks (p : Program) (s : System) (i : Nat) (r : Request) (below : Stack .answer) : Prop where
  reachable : Reachable p s
  running : s.running = some i
  found : s.tasks[i]? = some ⟨.answer, .resolve r, below⟩
  bare : s.world.Bare p
  fallback : ∀ f, r.fallback = some f → f.Bare

/-- Whether the running task begins a resolution or a call on `c`, and operations have no part in it. -/
structure Starts (p : Program) (s : System) (i : Nat) (c : ContainerId) (a : Activity .answer) (below : Stack .answer) :
    Prop where
  reachable : Reachable p s
  running : s.running = some i
  found : s.tasks[i]? = some ⟨.answer, a, below⟩
  bare : s.world.Bare p
  within : a.Within (s.world.chain c)
  held : c ∈ below.held

/-- The run in which only task `i` goes on from `s`, until `below` gets its answer. The instances that were in
hand on the way are listed with their builds. -/
inductive Solo (p : Program) (i : Nat) (below : Stack .answer) (s : System) : List (Build × Instance) → System → Prop
  | start : Solo p i below s [] s
  | next {xs : List (Build × Instance)} {s' s'' : System} (before : Solo p i below s xs s')
    (busy : ∀ a, s'.tasks[i]? ≠ some ⟨.answer, .give a, below⟩) (h : s'.Next p s'')
    (alone : s'.running = some i ∨ s'.running = none ∧ s''.running = some i) :
    Solo p i below s (xs ++ s'.hand?.toList) s''

/-- Whether a task runs, and hands nothing over to what is that high. -/
def atWork (s : System) (i height : Nat) : Bool :=
  decide (s.running = some i) && (s.tasks[i]?).any fun
    | ⟨_, .give _, below⟩ => below.height != height
    | _ => true

/-- Who is at work runs, and hands nothing over to what is that high. -/
theorem found_of_atWork {below : Stack .answer} (h : s.atWork i below.height = true) :
    s.running = some i ∧ ∃ t, s.tasks[i]? = some t ∧ ∀ a, t ≠ ⟨.answer, .give (k := .answer) a, below⟩ := by
  unfold atWork at h
  rw [Bool.and_eq_true, decide_eq_true_eq] at h
  obtain ⟨running, works⟩ := h
  obtain ⟨t, found, hands⟩ := (Option.any_eq_true _ _).1 works
  refine ⟨running, t, found, fun a given => ?_⟩
  rw [given] at hands
  simp at hands

/-- A stretch of a run in which one task runs and has not given its answer. -/
theorem Run.solo (run : Run p) (i n : Nat) (below : Stack .answer) (k : Nat)
    (busy : ∀ j < k, (run.state (n + j)).atWork i below.height = true) :
    Solo p i below (run.state n) ((List.range k).flatMap fun j => (run.state (n + j)).hand?.toList)
      (run.state (n + k)) := by
  induction k with
  | zero => exact .start
  | succ k ih =>
    obtain ⟨running, t, found, hands⟩ := found_of_atWork (busy k (Nat.lt_succ_self k))
    have working : ∀ a, (run.state (n + k)).tasks[i]? ≠ some ⟨.answer, .give a, below⟩ := fun a given =>
      hands a (Option.some.inj (found.symm.trans given))
    have next : (run.state (n + k)).Next p (run.state (n + (k + 1))) := by
      rw [← Nat.add_assoc, run.state_succ running found]
      exact .run running found
    rw [List.range_succ, List.flatMap_append, List.flatMap_singleton]
    exact .next (ih fun j hj => busy j (Nat.lt_succ_of_lt hj)) working next (.inl running)

variable {r : Request} {below : Stack .answer} {xs : List (Build × Instance)}

theorem next_alone (h : s.Next p s') (alone : s.running = some i ∨ s.running = none ∧ s'.running = some i)
    (found : s.tasks[i]? = some t) :
    (∃ st, s.Takes p i t st ∧ s'.world = (s.put i st).world ∧ s'.tasks = (s.put i st).tasks ∧ s.hand? = t.hand?) ∨
      (s.Halts ∧ s'.world = s.world ∧ s'.tasks = s.tasks) := by
  rcases h.cases with ⟨j, u, st, running, found', takes, world, tasks⟩ | ⟨halts, world, tasks⟩
  · have runs : s.running = some i := by
      rcases alone with runs | ⟨idle, -⟩
      · exact runs
      · rw [idle] at running
        cases running
    obtain rfl := Option.some.inj (running.symm.trans runs)
    obtain rfl := Option.some.inj (found'.symm.trans found)
    refine .inl ⟨st, takes, world, tasks, ?_⟩
    rw [hand?, current_eq running found, Option.bind_some]
  · exact .inr ⟨halts, world, tasks⟩

theorem Starts.present {c : ContainerId} {a : Activity .answer} (h : s.Starts p i c a below) : i < s.tasks.length :=
  (List.getElem?_eq_some_iff.1 h.found).1

theorem Asks.fits (h : s.Asks p i r below) : r.Fits below :=
  (h.reachable.sound.wf _ (List.mem_of_getElem? h.found)).activity

theorem Asks.starts (h : s.Asks p i r below) : s.Starts p i r.container (.resolve r) below :=
  ⟨h.reachable, h.running, h.found, h.bare, ⟨List.mem_cons_self, h.fallback⟩, h.fits.held⟩

theorem Asks.present (h : s.Asks p i r below) : i < s.tasks.length := h.starts.present

/-- What a resolution of its own has come to: the task is at it, and otherwise only what it recorded is new. -/
structure Stays (p : Program) (s : System) (i : Nat) (cs : List ContainerId) (below : Stack .answer)
    (xs : List (Build × Instance)) (s' : System) (t : Task) : Prop where
  reachable : Reachable p s'
  tasks : s'.tasks = s.tasks.set i t
  within : t.Within cs below
  world : s.world.After xs s'.world

theorem Stays.found {cs : List ContainerId} (h : s.Stays p i cs below xs s' t) (present : i < s.tasks.length) :
    s'.tasks[i]? = some t := by
  rw [h.tasks, List.getElem?_set_self present]

namespace Starts

variable {c : ContainerId} {a : Activity .answer} (h : s.Starts p i c a below)
include h

theorem stays : s.Stays p i (s.world.chain c) below [] s ⟨.answer, a, below⟩ where
  reachable := h.reachable
  tasks := by
    obtain ⟨present, same⟩ := List.getElem?_eq_some_iff.1 h.found
    rw [← same, List.set_getElem_self]
  within := .mk h.within .base
  world := .refl _

/-- What a resolution on its own does next: its task takes a step, which records what is in hand, or it only waits or
goes on. -/
theorem stays_next (stays : s.Stays p i (s.world.chain c) below xs s' t) (busy : ∀ a, t ≠ ⟨.answer, .give a, below⟩)
    (next : s'.Next p s'') (alone : s'.running = some i ∨ s'.running = none ∧ s''.running = some i) :
    (s'.ready i = true ∧
        s.Stays p i (s.world.chain c) below (xs ++ s'.hand?.toList) s''
          (t.step ⟨p, s'.held, s'.tasks.length⟩ s'.world).task ∧
        s''.world = (t.step ⟨p, s'.held, s'.tasks.length⟩ s'.world).world ∧ s'.hand? = t.hand?) ∨
      (s'.Halts ∧ s.Stays p i (s.world.chain c) below (xs ++ s'.hand?.toList) s'' t ∧ s''.world = s'.world) := by
  have found := stays.found h.present
  have reached : Reachable p s'' := stays.reachable.move (.next next)
  rcases next_alone next alone found with ⟨st, takes, world, tasks, hand⟩ | ⟨halts, world, tasks⟩
  · cases takes with
    | joined => cases stays.within
    | step turn =>
      have ready : s'.ready i = true := by
        obtain @⟨a, above, -, -⟩ := stays.within
        cases a with
        | line b => exact turn b above rfl
        | resolve | fill | pause | give => simp [System.ready, found]
      have closed := stays.world.chain_closed h.reachable.sound.ok c
      have continues : (t.step ⟨p, s'.held, s'.tasks.length⟩ s'.world).Continues (s.world.chain c) below
          s'.world t.hand?.toList := stays.within.continues (stays.world.bare h.bare) closed busy
      -- What the task works with is of the chain of the container that was asked, which it still works with.
      have covered : ∀ d ∈ t.held, ∃ e ∈ (t.step ⟨p, s'.held, s'.tasks.length⟩ s'.world).task.held,
          d ∈ s'.world.chain e := by
        intro d hd
        rcases stays.within.held d hd with hd | hd
        · exact ⟨c, continues.task.base_held _ h.held, by rw [stays.world.chain]; exact hd⟩
        · exact ⟨d, continues.task.base_held d hd, List.mem_cons_self⟩
      obtain ⟨world', tasks'⟩ := stays.reachable.put_eq found continues.world continues.started covered
      refine .inl ⟨ready, ⟨reached, ?_, continues.task, ?_⟩, world.trans world', hand⟩
      · rw [tasks, tasks', stays.tasks, List.set_set]
      · rw [world, world', hand]
        exact stays.world.append_hand continues.world
  · refine .inr ⟨halts, ⟨reached, tasks.trans stays.tasks, stays.within, ?_⟩, world⟩
    rw [halts.hand_none, world]
    simpa using stays.world

/-- All the way, a resolution on its own stays what it is. -/
theorem solo_stays (solo : Solo p i below s xs s') : ∃ t, s.Stays p i (s.world.chain c) below xs s' t := by
  induction solo with
  | start => exact ⟨_, h.stays⟩
  | next _ busy next alone ih =>
    obtain ⟨t, stays⟩ := ih
    have busy' : ∀ a, t ≠ ⟨.answer, .give a, below⟩ := fun a e => busy a (e ▸ stays.found h.present)
    rcases h.stays_next stays busy' next alone with ⟨-, stays', -⟩ | ⟨-, stays', -⟩
    · exact ⟨_, stays'⟩
    · exact ⟨_, stays'⟩

end Starts

/-! ### One way only -/

/-- What goes on alone goes on in one way. -/
theorem next_unique (h : s.Next p s') (h' : s.Next p s'')
    (alone : s.running = some i ∨ s.running = none ∧ s'.running = some i)
    (alone' : s.running = some i ∨ s.running = none ∧ s''.running = some i) : s' = s'' := by
  cases h with
  | run running found =>
    cases h' with
    | run running' found' =>
      obtain rfl := Option.some.inj (running.symm.trans running')
      obtain rfl := Option.some.inj (found.symm.trans found')
      rfl
    | resume idle =>
      rw [idle] at running
      cases running
  | resume idle =>
    cases h' with
    | run running' =>
      rw [idle] at running'
      cases running'
    | resume =>
      rw [idle] at alone alone'
      rcases alone with runs | ⟨-, runs⟩
      · cases runs
      · rcases alone' with runs' | ⟨-, runs'⟩
        · cases runs'
        · cases runs
          cases runs'
          rfl

/-- A resolution of its own is over, or takes one move and goes on from there. -/
theorem Solo.head (solo : Solo p i below s xs s') : s = s' ∨ (∀ a, s.tasks[i]? ≠ some ⟨.answer, .give a, below⟩) ∧
    ∃ s₁ ys, s.Next p s₁ ∧ (s.running = some i ∨ s.running = none ∧ s₁.running = some i) ∧ Solo p i below s₁ ys s' := by
  induction solo with
  | start => exact .inl rfl
  | next before busy h alone ih =>
    rcases ih with rfl | ⟨busy', s₁, ys, first, alone', rest⟩
    · exact .inr ⟨busy, _, [], h, alone, .start⟩
    · exact .inr ⟨busy', s₁, _, first, alone', .next rest busy h alone⟩

/-- All that is come to on the way to an answer is on the way. -/
theorem Solo.leads_on {ys : List (Build × Instance)} {a : Except Failure Instance} (solo : Solo p i below s xs s')
    (answered : s'.tasks[i]? = some ⟨.answer, .give a, below⟩) (solo' : Solo p i below s ys s'') :
    ∃ zs, Solo p i below s'' zs s' := by
  induction solo' with
  | start => exact ⟨xs, solo⟩
  | next before busy h alone ih =>
    obtain ⟨zs, rest⟩ := ih
    rcases rest.head with rfl | ⟨-, s₁, ys', first, alone', rest⟩
    · exact absurd answered (busy a)
    · obtain rfl := next_unique first h alone' alone
      exact ⟨ys', rest⟩

/-- A resolution of its own comes to one answer. -/
theorem Solo.unique {ys : List (Build × Instance)} {a a' : Except Failure Instance} (solo : Solo p i below s xs s')
    (answered : s'.tasks[i]? = some ⟨.answer, .give a, below⟩) (solo' : Solo p i below s ys s'')
    (answered' : s''.tasks[i]? = some ⟨.answer, .give a', below⟩) : s' = s'' ∧ a = a' := by
  obtain ⟨zs, rest⟩ := solo.leads_on answered solo'
  rcases rest.head with rfl | ⟨busy, -⟩
  · cases answered.symm.trans answered'
    exact ⟨rfl, rfl⟩
  · exact absurd answered' (busy a')

/-! ## How far a resolution has come -/

/-- What is true of a resolution of its own, by what its task is at: it asks, was refused, or was served what was
there; or the build that it leads to is in line, in progress, failed or done. -/
inductive Stage (w : World) (r : Request) (below : Stack .answer) : Task → List (Build × Instance) → Prop
  | asks : Stage w r below ⟨.answer, .resolve r, below⟩ []
  | refused {f : Failure} (absent : ∀ c key v, w.locate r.container r.key ≠ .cached c key v) :
    Stage w r below ⟨.answer, .give (k := .answer) (.error f), below⟩ []
  | served {v : Instance} {c : ContainerId} {key : Key} (was : w.locate r.container r.key = .cached c key v) :
    Stage w r below ⟨.answer, .give (k := .answer) (.ok v), below⟩ []
  | lines {b : Build} (leads : r.Leads w b) : Stage w r below ⟨.answer, .line b, below⟩ []
  | inside {b : Build} {t : Task} {xs : List (Build × Instance)} (leads : r.Leads w b)
    (within : t.Within (w.chain b.container) (.cons (.build b) below)) (nested : ∀ x ∈ xs, b.Encloses w x.1) :
    Stage w r below t xs
  | failed {b : Build} {f : Failure} {xs : List (Build × Instance)} (leads : r.Leads w b)
    (nested : ∀ x ∈ xs, b.Encloses w x.1) : Stage w r below ⟨.answer, .give (k := .answer) (.error f), below⟩ xs
  | built {b : Build} {v : Instance} {xs : List (Build × Instance)} (leads : r.Leads w b)
    (nested : ∀ x ∈ xs, b.Encloses w x.1) :
    Stage w r below ⟨.answer, .give (k := .answer) (.ok v), below⟩ (xs ++ [(b, v)])

theorem Stage.resolve {w w' : World} (after : w.After [] w') (r : Request) (below : Stack .answer) :
    Stage w r below (Step.resolve w' r below).task [] := by
  unfold Step.resolve
  rw [after.locate_eq]
  split
  · next located => exact .served located
  · next located => exact .refused fun c key v e => by rw [located] at e; cases e
  · next c key β located =>
    split
    · exact .refused fun c key v e => by rw [located] at e; cases e
    · exact .lines ⟨⟨β, located, rfl⟩, rfl⟩

/-- Who gets the lock for a build finds nothing new: it builds, if it has something to build by. -/
theorem Stage.build {b : Build} (leads : r.Leads s.world b) (after : s.world.After [] s'.world) (bare : b.Bare) :
    Stage s.world r below (Step.build (s'.world.letIn b) b below).task [] := by
  have nothing : ((s'.world.letIn b).container b.container).cache.get? b.key = none := by
    obtain ⟨β, located, -⟩ := leads.located
    have right := s.world.right_locate r.container r.key
    rw [located] at right
    rw [World.cache_letIn, after.cache]
    exact right.2.1
  have nobody : ∀ x ∈ ([] : List (Build × Instance)), b.Encloses s.world x.1 := fun _ hx => (List.not_mem_nil hx).elim
  unfold Step.build
  rw [nothing]
  dsimp only
  split
  · next f signature made =>
    exact .inside leads (.mk (And.intro List.mem_cons_self (bare _ made)) .base) nobody
  · refine .inside leads (.mk (And.intro List.mem_cons_self fun f hf => ?_) (.convert .base)) nobody
    cases hf
  · obtain ⟨β, located, -⟩ := leads.located
    exact .refused fun c key v e => by rw [located] at e; cases e

/-- What is in hand within a build is of a build of another key, which that build encloses. -/
theorem Stays.encloses {cs : List ContainerId} (stays : s.Stays p i cs below xs s' t) (present : i < s.tasks.length)
    {b : Build} (path : b.path = below.path ++ [b.key])
    (within : t.Within (s.world.chain b.container) (.cons (.build b) below))
    (busy : ∀ a, t ≠ ⟨.answer, .give a, .cons (.build b) below⟩) {x : Build × Instance} (hand : t.hand? = some x) :
    b.Encloses s.world x.1 := by
  obtain ⟨b', v⟩ := x
  have ht := List.mem_of_getElem? (stays.found present)
  have wf := stays.reachable.sound.wf t ht
  have apart := stays.reachable.nodup t ht
  obtain ⟨above, rfl⟩ := Task.of_hand hand
  obtain ⟨-, under⟩ := within
  cases under with
  | base => exact absurd rfl (busy _)
  | build here _ under =>
    obtain ⟨inner, builds⟩ := under.builds
    have fits : b'.path = above.path ++ [b'.key] := wf.stack.1.path
    constructor
    case path =>
      have outer : above.path = b.path ++ (inner.map Build.key).reverse := by
        rw [path, Stack.path, builds]
        simp [Stack.builds, Stack.path]
      rw [fits, outer, List.append_assoc]
      exact List.prefix_append _ _
    case other =>
      intro same
      have apart : ((b' :: above.builds).map Build.key).Nodup := apart
      refine (List.nodup_cons.1 apart).1 (List.mem_map.2 ⟨b, ?_, same.symm⟩)
      rw [builds]
      exact List.mem_append_right _ List.mem_cons_self
    case container => exact here

/-- Each step takes a resolution of its own to its next stage. -/
theorem Asks.stage_next (h : s.Asks p i r below) (stays : s.Stays p i (s.world.chain r.container) below xs s' t)
    (stage : Stage s.world r below t xs) (busy : ∀ a, t ≠ ⟨.answer, .give a, below⟩) (env : Env)
    (own : env.program = p) :
    Stage s.world r below (t.step env s'.world).task (xs ++ t.hand?.toList) := by
  cases stage with
  | asks => exact .resolve stays.world r below
  | refused | served | failed | built => exact absurd rfl (busy _)
  | @lines b leads =>
    obtain ⟨activity, -⟩ := stays.within
    exact .build leads stays.world activity.2
  | @inside b _ _ leads within nested =>
    by_cases ended : ∃ a, t = ⟨.answer, .give a, .cons (.build b) below⟩
    · -- The build is ended.
      obtain ⟨a, rfl⟩ := ended
      cases a with
      | error f =>
        change Stage s.world r below ⟨.answer, .give (k := .answer) (.error f), below⟩ (xs ++ [])
        rw [List.append_nil]
        exact .failed leads nested
      | ok v => exact .built leads nested
    · have busy' : ∀ a, t ≠ ⟨.answer, .give a, .cons (.build b) below⟩ := fun a e => ended ⟨a, e⟩
      have closed := stays.world.chain_closed h.reachable.sound.ok b.container
      have path : b.path = below.path ++ [b.key] := by rw [leads.path, h.fits.path]
      refine .inside leads (within.continues (own ▸ stays.world.bare h.bare) closed busy').task fun x hx => ?_
      rcases List.mem_append.1 hx with hx | hx
      · exact nested x hx
      · exact stays.encloses h.present path within busy' (Option.mem_toList.1 hx)

theorem Solo.stage (h : s.Asks p i r below) (solo : Solo p i below s xs s') :
    ∃ t, s.Stays p i (s.world.chain r.container) below xs s' t ∧ Stage s.world r below t xs := by
  induction solo with
  | start => exact ⟨_, h.starts.stays, .asks⟩
  | next _ busy next alone ih =>
    obtain ⟨t, stays, stage⟩ := ih
    have busy' : ∀ a, t ≠ ⟨.answer, .give a, below⟩ := fun a e =>
      busy a (e ▸ stays.found h.present)
    rcases h.starts.stays_next stays busy' next alone with ⟨-, stays', -, hand⟩ | ⟨halts, stays', -⟩
    · refine ⟨_, stays', ?_⟩
      rw [hand]
      exact h.stage_next stays stage busy' _ rfl
    · refine ⟨t, stays', ?_⟩
      rw [halts.hand_none]
      exact (List.append_nil _).symm ▸ stage

theorem Solo.stage_of_found (h : s.Asks p i r below) (solo : Solo p i below s xs s') (found : s'.tasks[i]? = some t) :
    s.Stays p i (s.world.chain r.container) below xs s' t ∧ Stage s.world r below t xs := by
  obtain ⟨t', stays, stage⟩ := solo.stage h
  obtain rfl := Option.some.inj ((stays.found h.present).symm.trans found)
  exact ⟨stays, stage⟩

end System

end Injector
