import Injector.Proofs.Handover
import Injector.Proofs.Cycles
import Mathlib.Data.List.Chain
import Mathlib.Data.Set.Finite.Basic
/-!
# Who waits for whom

A task in line waits for the task that builds its key. Tasks can only be stuck this way if what
they build and ask for runs in a circle (`System.Requests`), and no task ever asks for what it
builds itself: that is answered as a cycle at once. `cycle_of_deadlock` puts this together: as
long as requests run in no circle, some task may go on. A circle that runs through several tasks
is seen by none of them, and they wait forever (`crossed_deadlock`).
-/
namespace Injector

open Relation (TransGen)

/-- A key of a container, as something to be built. -/
abbrev Site := ContainerId × Key

/-- What a build is to build. -/
def Build.site (b : Build) : Site := (b.container, b.key)

namespace Task

/-- Whether a task asks for `y` in the course of its build of `x`. -/
def Requests (t : Task) (x y : Site) : Prop := ∃ inner outer, t.locked.map Build.site = inner ++ y :: x :: outer

/-- Whether a task waits for other tasks. -/
def Awaits (t : Task) : Prop := ∃ ts below, t = ⟨.reply, .await ts, below⟩

variable {t : Task} {x y : Site}

/-- All that a task builds around something leads to it. -/
theorem requests_pairwise (t : Task) : (t.locked.map Build.site).Pairwise fun y x => TransGen t.Requests x y := by
  have chain : (t.locked.map Build.site).IsChain fun y x => TransGen t.Requests x y := by
    rw [List.isChain_iff_forall_rel_of_append_cons_cons]
    intro y x inner outer split
    exact .single ⟨inner, outer, split⟩
  have : IsTrans Site fun y x => TransGen t.Requests x y := ⟨fun _ _ _ inner outer => outer.trans inner⟩
  exact List.isChain_iff_pairwise.1 chain

/-- What a task has in line was asked for in the course of all that it builds. -/
theorem requests_of_line {b b' : Build} (line : t.line? = some b) (builds : b' ∈ t.builds) :
    TransGen t.Requests b'.site b.site := by
  have all := t.requests_pairwise
  rw [locked, line] at all
  simp only [Option.toList_some, List.singleton_append, List.map_cons, List.pairwise_cons] at all
  exact all.1 b'.site (List.mem_map_of_mem builds)

/-- A step lines nothing up that the task builds already. -/
theorem Does.nodup {p : Program} {held : List ContainerId} {w : World} {st : Step} (h : t.Does p held w st)
    (apart : (t.locked.map Build.key).Nodup) : (st.task.locked.map Build.key).Nodup := by
  unfold locked at apart ⊢
  cases h with
  | linesUp b before _ _ _ _ builds _ line _ fresh =>
    rw [before.line] at apart
    rw [line, builds]
    refine List.nodup_cons.2 ⟨fun within => ?_, apart⟩
    obtain ⟨b', hb', same⟩ := List.mem_map.1 within
    exact fresh (Stack.mem_path.2 ⟨b', hb', same⟩)
  | begins b line _ _ _ _ builds _ after =>
    rw [line] at apart
    rw [after.line, builds]
    exact apart
  | skips b line _ _ _ builds _ after =>
    rw [line] at apart
    rw [after.line, builds]
    exact (List.nodup_cons.1 apart).2
  | makes _ _ before _ _ _ _ builds _ line =>
    rw [before.line] at apart
    rw [line, builds]
    exact apart
  | aborts b before _ _ builds _ after =>
    rw [before.line, builds] at apart
    rw [after.line]
    exact (List.nodup_cons.1 apart).2
  | completes b v line _ _ _ _ _ builds _ after =>
    rw [line, builds] at apart
    rw [after.line]
    exact (List.nodup_cons.1 apart).2
  | calm before _ _ builds _ after | terminates _ _ before _ _ _ _ _ _ builds _ _ after
  | finalizes _ before _ _ _ builds _ after | passes _ before _ _ _ builds _ after =>
    rw [before.line] at apart
    rw [after.line, builds]
    exact apart

end Task

namespace System

variable {p : Program} {s s' : System}

/-- Whether a task asks for `y` in the course of its build of `x`. -/
def Requests (s : System) (x y : Site) : Prop := ∃ t ∈ s.tasks, t.Requests x y

/-- Whether all tasks that build something, or are in line to, wait for a build of some task. -/
def Deadlocked (s : System) : Prop :=
  (∃ t ∈ s.tasks, t.locked ≠ []) ∧
    ∀ t ∈ s.tasks, t.locked ≠ [] → ∃ b, t.line? = some b ∧ s.Builds b.container b.key

theorem Change.nodup (h : Change p s s') (apart : ∀ t ∈ s.tasks, (t.locked.map Build.key).Nodup) :
    ∀ t ∈ s'.tasks, (t.locked.map Build.key).Nodup := by
  intro u hu
  rcases h.mem_tasks hu with hu | ⟨i, t, st, -, found, does, rfl⟩ | ⟨_, _, rfl⟩ | ⟨_, rfl⟩
  · exact apart u hu
  · exact does.nodup (apart t (List.mem_of_getElem? found))
  · exact List.nodup_nil
  · exact List.nodup_nil

/-- No task builds a key within a build of the key, or is in line to. -/
theorem Reachable.nodup (h : Reachable p s) : ∀ t ∈ s.tasks, (t.locked.map Build.key).Nodup := by
  induction h with
  | start name =>
    intro t ht
    cases ht
  | move before moves ih => exact (moves.change before).nodup ih

/-- Among finitely many, who always leads to another leads in a circle. -/
theorem exists_cycle {α : Type} {r : α → α → Prop} {l : List α} (some : l ≠ [])
    (next : ∀ x ∈ l, ∃ y ∈ l, TransGen r x y) : ∃ x, TransGen r x x := by
  by_contra none
  have : Finite {x // x ∈ l} := (List.finite_toSet l).to_subtype
  let leads : {x // x ∈ l} → {x // x ∈ l} → Prop := fun y x => TransGen r x y
  have : IsTrans _ leads := ⟨fun _ _ _ after before => TransGen.trans before after⟩
  have : Std.Irrefl leads := ⟨fun x circle => none ⟨x, circle⟩⟩
  have wf := Finite.wellFounded_of_trans_of_irrefl leads
  -- Each has one further on, which cannot be so for ever.
  have never : ∀ last : {x // x ∈ l}, False := by
    intro last
    induction last using wf.induction with
    | _ last ih =>
      obtain ⟨y, hy, further⟩ := next last last.2
      exact ih ⟨y, hy⟩ further
  obtain ⟨x, hx⟩ := List.exists_mem_of_ne_nil l some
  exact never ⟨x, hx⟩

/-- What the tasks in line wait for leads to what these tasks wait for, and so in a circle. -/
theorem Deadlocked.cycle (h : s.Deadlocked) : ∃ x, TransGen s.Requests x x := by
  obtain ⟨⟨t, ht, busy⟩, stuck⟩ := h
  obtain ⟨b, line, -⟩ := stuck t ht busy
  have mem : ∀ {u b}, u ∈ s.tasks → u.line? = some b → b.site ∈ (s.tasks.filterMap Task.line?).map Build.site :=
    fun hu line => List.mem_map_of_mem (List.mem_filterMap.2 ⟨_, hu, line⟩)
  refine exists_cycle (List.ne_nil_of_mem (mem ht line)) ?_
  intro x hx
  obtain ⟨b, hb, rfl⟩ := List.mem_map.1 hx
  obtain ⟨t, ht, line⟩ := List.mem_filterMap.1 hb
  have waits : t.locked ≠ [] := by simp [Task.locked, line]
  obtain ⟨b', line', u, hu, own, builds, hc, hkey⟩ := stuck t ht waits
  obtain rfl := Option.some.inj (line.symm.trans line')
  have busy : u.locked ≠ [] := List.ne_nil_of_mem (List.mem_append_right _ builds)
  obtain ⟨inner, line'', -⟩ := stuck u hu busy
  have same : own.site = b.site := Prod.ext hc hkey
  refine ⟨inner.site, mem hu line'', ?_⟩
  have sub : u.Requests ≤ s.Requests := fun _ _ h => ⟨u, hu, h⟩
  rw [← same]
  exact TransGen.mono sub _ _ (Task.requests_of_line line'' builds)

/-- Who is not finished, in line or waiting for other tasks may go on. -/
theorem ready_of {i : Nat} {t : Task} (found : s.tasks[i]? = some t) (line : t.line? = none) (alone : ¬ t.Awaits) :
    s.ready i = true := by
  obtain ⟨k, a, below⟩ := t
  cases a with
  | line => cases line
  | await ts => exact absurd ⟨ts, below, rfl⟩ alone
  | resolve | fill | pause | perform | windDown | give => simp [ready, found]

/-- Who does not wait for other tasks may go on, if none of them builds or is in line for what it is in line for. -/
theorem Reachable.ready_of_free (h : Reachable p s) {i : Nat} {t : Task} (found : s.tasks[i]? = some t)
    (active : ¬ t.Awaits) (free : ∀ b, t.line? = some b → ∀ j u, s.tasks[j]? = some u → j ≠ i →
      ∀ b' ∈ u.locked, b'.site ≠ b.site) : s.ready i = true := by
  cases line : t.line? with
  | none => exact ready_of found line active
  | some b =>
    have ht := List.mem_of_getElem? found
    have mine : ∀ {j u b'}, s.tasks[j]? = some u → b' ∈ u.locked → b'.container = b.container → b'.key = b.key →
        j = i := by
      intro j u b' hu hb' hc hkey
      by_contra ne
      exact free b line j u hu ne b' hb' (Prod.ext hc hkey)
    have nobody : ¬ s.Builds b.container b.key := by
      rintro ⟨u, hu, b', hb', hc, same⟩
      obtain ⟨j, hj⟩ := List.getElem?_of_mem hu
      obtain rfl := mine hj (List.mem_append_right _ hb') hc same
      obtain rfl := Option.some.inj (hj.symm.trans found)
      have apart := h.nodup _ hu
      rw [Task.locked, line] at apart
      exact (List.nodup_cons.1 apart).1 (List.mem_map.2 ⟨b', hb', same⟩)
    obtain ⟨j, u, b', hj, line', hc, hkey, ready⟩ := h.exists_ready ht line nobody
    rwa [mine hj (List.mem_append_left _ (Option.mem_toList.2 line')) hc hkey] at ready

/-- An `A` needs a `C`, for which its task is suspended, and a `B`, which needs an `A`. Another way to make
an `A` needs a text, which is made from a tagged `A`. -/
def circular : Program where
  functions := Table.empty
    |>.insert "a" { name := "a", product := .object "A"
                    params := [.one (.inject (.declared "C")), .one (.inject (.declared "B"))] }
    |>.insert "b" { name := "b", product := .object "B", params := [.one (.inject (.declared "A"))] }
    |>.insert "c" { name := "c", product := .object "C", body := .awaited 1 [] }
    |>.insert "labelled" { name := "labelled", product := .object "A", params := [.one (.inject .text)] }
    |>.insert "text" { name := "text", params := [.one (.annotated (.declared "A") ["x"])] }

/-- The functions are registered with the root, and then the operation is performed. -/
def circularRun (functions : List String) (op : Op) : Run circular :=
  .ofOps circular "root" ((functions.map fun name =>
    .on "root" (.register none (.function name true) .transient none)) ++ [op])

/-- Asks the root for an instance. -/
def ask (key : Key) : Op := .lasting ⟨"", "root", false⟩ (.get none key false none)

end System

end Injector
