import Injector.Proofs.Answers
import Injector.Proofs.Registrations
/-!
# Requests within builds

A function, or what is left to do when it terminates a container, may ask for what its own task is
building, on any way that leads to the container. Each request knows of all builds around it, so it
is told that this is a cycle, unless there is an instance by now or the key has come to be out of
reach (`Request.AtOnce`). It never lines up for a lock that its own task has, and whoever keeps a task
waiting is another task (`Reachable.never_waits_for_itself`).

A base may make another key of a name that is handed on to it. But a scope builds a name only by a binding of
its own, which it keeps (`Reachable.bound_of_name`), so a name that is being built is not handed on.
-/
namespace Injector

variable {p : Program} {w : World}

/-! ## Keys that are not handed on -/

/-- A lookup comes to the key that was asked for, after its alias, unless that is a name which is handed on to a base. -/
theorem World.key_locate_of_stands {c : ContainerId} {key t : Key} (stands : w.unalias (w.chain c) key = t)
    (kept : t.isName = true → (w.container c).bases ≠ [] → (w.container c).registry.get? t.plain ≠ none) :
    (w.locate c key).key = t := by
  cases name : t.isName with
  | false => exact key_locateFrom _ stands fun _ _ _ => unalias_of_not_name w _ name
  | true =>
    by_cases root : (w.container c).bases = []
    · refine key_locateFrom _ stands fun d rest within => ?_
      rw [root] at within
      cases List.suffix_nil.1 within
    · have served : w.serves c t ≠ none := fun lacks => kept name root (serves_eq_none_iff.1 lacks).2
      obtain ⟨l, serves⟩ := Option.ne_none_iff_exists'.1 served
      rw [locate_of_serves stands serves]
      exact key_of_serves serves

/-- What a task builds it builds by something that it found. -/
theorem Task.Does.binding_of_builds {held : List ContainerId} {t : Task} {st : Step} {b : Build}
    (h : t.Does p held w st) (hb : b ∈ st.task.builds) : b ∈ t.builds ∨ b.binding ≠ none := by
  cases h with
  | begins b' _ _ _ _ _ builds _ _ made =>
    rcases List.mem_cons.1 (builds ▸ hb) with rfl | hb
    · exact .inr made
    · exact .inl hb
  | aborts _ _ _ _ builds | completes _ _ _ _ _ _ _ _ builds => exact .inl (builds ▸ List.mem_cons_of_mem _ hb)
  | calm _ _ _ builds | makes _ _ _ _ _ _ _ builds | linesUp _ _ _ _ _ _ builds | skips _ _ _ _ _ builds
  | terminates _ _ _ _ _ _ _ _ _ builds | finalizes _ _ _ _ _ builds | passes _ _ _ _ _ builds =>
    exact .inl (builds ▸ hb)

namespace System

variable {s : System}

theorem Reachable.binding_of_builds (h : Reachable p s) : ∀ t ∈ s.tasks, ∀ b ∈ t.builds, b.binding ≠ none :=
  h.forall_tasks (fun _ _ _ hb => (List.not_mem_nil hb).elim) (fun _ _ hb => (List.not_mem_nil hb).elim)
    fun reached all found takes b hb =>
      ((takes.does_of_reachable reached found).1.binding_of_builds hb).elim (all b) id

/-- A scope that builds a name, or is to build it by something, has it bound. -/
theorem Reachable.bound_of_name (h : Reachable p s) : ∀ t ∈ s.tasks, ∀ b ∈ t.locked, b.key.isName = true →
    b.binding ≠ none → (s.world.container b.container).bases ≠ [] →
      (s.world.container b.container).registry.get? b.key.plain ≠ none := by
  induction h with
  | start name => exact fun t ht => (List.not_mem_nil ht).elim
  | @move s s' before moves ih =>
    intro u hu b hb name made scope
    have alive : s'.world.Alive b.container := (before.move moves).sound.alive u hu _ (Locked.held_of_mem hb)
    refine moves.stays_bound before ?_ alive scope
    rcases (moves.change before).locked hu hb with ⟨t, ht, hb⟩ | ⟨fallback, unnamed, binding⟩
    · have opened := (before.sound.alive t ht _ (Locked.held_of_mem hb)).1
      exact ih t ht b hb name made ((moves.change before).bases_eq opened ▸ scope)
    · rw [unnamed name, Option.map_none, Option.or_none] at binding
      exact binding ▸ made

end System

/-! ## What a request is answered -/

/-- Whether a request is answered at once: with an instance that is kept, by a build or by hand, or that its key is out
of reach, or that it is a cycle. -/
inductive Request.AtOnce (r : Request) (w : World) (below : Stack .answer) : Prop
  | kept {c : ContainerId} {key : Key} {v : Instance} (here : c ∈ w.chain r.container) (kept : w.Keeps c key v)
    (serves : Step.resolve w r below = .serve w v below)
  | noAccess {key : Key} (fails : Step.resolve w r below = .fail w (.noAccess key) below)
  | cycle {b : Build} (building : b ∈ below.builds)
    (fails : Step.resolve w r below = .fail w (.cycle (below.path ++ [b.key])) below)

/-- A request is answered at once, or lines up for a key that is not being built around it. -/
theorem Request.Fits.atOnce_or_lines {r : Request} {below : Stack .answer} (fits : r.Fits below) (w : World) :
    r.AtOnce w below ∨ ∃ b, (Step.resolve w r below).task = ⟨.answer, .line b, below⟩ ∧
      b.key = (w.locate r.container r.key).key ∧ ∀ b' ∈ below.builds, b'.key ≠ b.key := by
  have right := w.right_locate r.container r.key
  cases located : w.locate r.container r.key with
  | cached c key v =>
    rw [located] at right
    refine .inl (.kept right.1 right.2 ?_)
    unfold Step.resolve
    rw [located]
  | noAccess key =>
    have fails : Step.resolve w r below = .fail w (.noAccess key) below := by
      unfold Step.resolve
      rw [located]
    exact .inl (.noAccess fails)
  | builds c key β =>
    by_cases building : key ∈ r.path
    · obtain ⟨b, hb, rfl⟩ := Stack.mem_path.1 (fits.path ▸ building)
      refine .inl (.cycle hb ?_)
      unfold Step.resolve
      rw [located]
      dsimp only
      rw [if_pos building, fits.path]
    · have lines : ∃ b, (Step.resolve w r below).task = ⟨.answer, .line b, below⟩ ∧ b.key = key := by
        unfold Step.resolve
        rw [located]
        dsimp only
        rw [if_neg building]
        exact ⟨_, rfl, rfl⟩
      obtain ⟨b, line, rfl⟩ := lines
      exact .inr ⟨b, line, rfl, fun b' hb' same => building (fits.path ▸ Stack.mem_path.2 ⟨b', hb', same⟩)⟩

/-- A request for a key that is being built around it is answered at once. -/
theorem Request.Fits.atOnce {r : Request} {below : Stack .answer} (fits : r.Fits below) {b : Build}
    (building : b ∈ below.builds) (stands : w.unalias (w.chain r.container) r.key = b.key)
    (kept : b.key.isName = true → (w.container r.container).bases ≠ [] →
      (w.container r.container).registry.get? b.key.plain ≠ none) : r.AtOnce w below := by
  rcases fits.atOnce_or_lines w with atOnce | ⟨b', -, key, fresh⟩
  · exact atOnce
  · rw [World.key_locate_of_stands stands kept] at key
    exact absurd key.symm (fresh b building)

namespace System

variable {s : System} {i : Nat} {t : Task}

/-- How a task stands to the locks that it has. -/
structure NeverWaitsForItself (s : System) (i : Nat) (t : Task) : Prop where
  /-- Of all that it is building, or is in line to, none is the same key of the same container. -/
  distinct : (t.locked.map Build.site).Nodup
  /-- It is in line for no lock that it has. -/
  other : ∀ b, t.line? = some b → ∀ b' ∈ t.builds, b'.container = b.container → b'.lock ≠ b.lock
  /-- Whoever keeps it waiting is another task. -/
  others : ∀ b, t.line? = some b → s.ready i = false →
    ∃ j u, s.tasks[j]? = some u ∧ j ≠ i ∧ ∃ b' ∈ u.locked, b'.site = b.site
  /-- If no other task builds anything, and it does not wait for other tasks, it goes on until it is finished. -/
  goesOn : s.LeavesAlone i → t.reply? = none → ¬ t.Awaits →
    s.ready i = true ∧ (s.running = some i ∨ i ∈ s.waiting)
  /-- A request of it is answered at once, or lines up for a key that it is not building. -/
  requests : ∀ r below, t = ⟨.answer, .resolve r, below⟩ → r.AtOnce s.world below ∨
    ∃ b, (Step.resolve s.world r below).task = ⟨.answer, .line b, below⟩ ∧
      b.key = (s.world.locate r.container r.key).key ∧ ∀ b' ∈ t.builds, b'.key ≠ b.key
  /-- A request of it for a key that it is building on the container that is asked is answered at once. What is asked
  for is what a name stands for there. -/
  reentrant : ∀ r below, t = ⟨.answer, .resolve r, below⟩ → ∀ b ∈ t.builds, b.container = r.container →
    s.world.unalias (s.world.chain r.container) r.key = b.key → r.AtOnce s.world below

/-- No task is ever in line for a lock that it has, whatever the functions and callbacks do that it runs. -/
theorem Reachable.never_waits_for_itself (h : Reachable p s) (found : s.tasks[i]? = some t) : s.NeverWaitsForItself i t where
  distinct := by
    apply List.Nodup.of_map Prod.snd
    rw [List.map_map]
    exact h.nodup t (List.mem_of_getElem? found)
  other b line b' hb' here same := by
    have ht := List.mem_of_getElem? found
    have apart := h.nodup t ht
    rw [Task.locked, line] at apart
    have own := h.locked.entry t ht b (List.mem_append_left _ (Option.mem_toList.2 line))
    have held := h.locked.entry t ht b' (List.mem_append_right _ hb')
    rw [here, same] at held
    exact (List.nodup_cons.1 apart).1 (List.mem_map.2 ⟨b', hb', h.locked.apart _ _ _ _ held own⟩)
  others b line waits := by
    by_contra free
    refine Bool.eq_false_iff.1 waits (h.ready_of_free found ?_ fun b' line' j u hu ne b'' hb'' same => free ?_)
    · rintro ⟨_, _, rfl⟩
      cases line
    · obtain rfl := Option.some.inj (line.symm.trans line')
      exact ⟨j, u, hu, ne, b'', hb'', same⟩
  goesOn alone unfinished active := by
    refine ⟨h.ready_of_free found active fun b _ j u hu ne b' hb' => ?_, ?_⟩
    · rw [alone j u hu ne] at hb'
      cases hb'
    · rcases h.scheduled.known i t found with running | waits | finished
      · exact .inl running
      · exact .inr waits
      · exact absurd unfinished finished
  requests := by
    rintro r below rfl
    exact (h.sound.wf _ (List.mem_of_getElem? found)).activity.atOnce_or_lines s.world
  reentrant := by
    rintro r below rfl b building here stands
    have ht := List.mem_of_getElem? found
    refine Request.Fits.atOnce (h.sound.wf _ ht).activity building stands fun name scope => ?_
    rw [← here] at scope ⊢
    exact h.bound_of_name _ ht b (List.mem_append_right _ building) name (h.binding_of_builds _ ht b building) scope

/-! ## A function that asks for its own product -/

/-- A function opens a scope and asks the root there for what it is to make itself. -/
def selfish : Program where
  functions := Table.empty.insert "own"
    { name := "own", product := .object "A", params := [.one .container]
      body := .awaited 0 [.lasting ⟨"", "$", false⟩ (.scope "inner" [ask (.type (.declared "A"))])] }

def selfishRun : Run selfish :=
  .ofOps selfish "root" [.on "root" (.register none (.function "own" true) .singleton none), ask (.type (.declared "A"))]

/-- The request in the scope's body, for what the root is building, is answered at once. -/
theorem own_request_answered : ∃ r below, (selfishRun.state 14).tasks[1]? = some ⟨.answer, .resolve r, below⟩ ∧
    (∃ b ∈ below.builds, b.container = r.container ∧ b.key = r.key) ∧ r.AtOnce (selfishRun.state 14).world below := by
  have own : ∃ r below, (selfishRun.state 14).tasks[1]? = some ⟨.answer, .resolve r, below⟩ ∧ r.key.isName = false ∧
      ∃ b ∈ below.builds, b.container = r.container ∧ b.key = r.key :=
    ⟨_, _, rfl, rfl, _, List.mem_cons_self, rfl, rfl⟩
  obtain ⟨r, below, found, plain, b, building, here, key⟩ := own
  have clear := Reachable.never_waits_for_itself (selfishRun.reachable 14) found
  refine ⟨r, below, found, ⟨b, building, here, key⟩, clear.reentrant r below rfl b building here ?_⟩
  rw [World.unalias_of_not_name _ _ plain, key]

end System

end Injector
