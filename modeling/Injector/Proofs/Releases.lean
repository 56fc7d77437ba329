import Injector.Proofs.Alone
import Injector.Proofs.Endings
/-!
# When containers are ended

A container is open as long as somebody can reach it: by a name or a task that has a handle to it,
or to a scope on it, at any depth (`Reachable.alive_iff`). `Moves.leaves` says what a move does with
containers that are left without handles, and `Run.leftovers_once` what comes of it over a run:
each container is ended once, scopes before their bases, and what it had left to do is done by one
new task.
-/
namespace Injector

theorem World.rooted_empty : ({} : World).Rooted where
  linked _ _ _ h := by cases h
  lower _ _ h := (List.not_mem_nil h).elim
  bases _ _ _ h := (List.not_mem_nil h).elim

namespace System

variable {p : Program} {s s' : System} {c : ContainerId}

/-- Whether somebody can reach a container: who has a name for it or a task with a handle to it, or either for a scope
on it, at any depth. -/
def IsReached (s : System) (c : ContainerId) : Prop := c ∈ s.world.reachable s.held

/-- A container is open as long as somebody can reach it. -/
theorem Reachable.alive_iff (h : Reachable p s) : s.world.Alive c ↔ s.IsReached c := by
  constructor
  · exact h.tidy.reached c
  · intro reached
    obtain ⟨d, hd, hc⟩ := List.mem_flatMap.1 reached
    refine h.sound.ok.alive_of_mem_chain ?_ hc
    rcases List.mem_append.1 hd with named | held
    · obtain ⟨row, hr, rfl⟩ := List.mem_map.1 named
      exact h.sound.ok.names row hr
    · obtain ⟨t, ht, hd⟩ := List.mem_flatMap.1 held
      exact h.sound.alive t ht d hd

/-! ## One move -/

/-- Whether the new tasks of `s'` stand in line after those of `s`, in the order in which they were started. -/
structure Lined (s s' : System) : Prop where
  more : s.tasks.length ≤ s'.tasks.length
  waiting : s'.waiting = s.waiting ++ List.range' s.tasks.length (s'.tasks.length - s.tasks.length)

namespace Lined

variable {s'' : System}

theorem trans (h : s.Lined s') (h' : s'.Lined s'') : s.Lined s'' where
  more := Nat.le_trans h.more h'.more
  waiting := by
    have first := h.more
    have second := h'.more
    have here : s'.tasks.length = s.tasks.length + (s'.tasks.length - s.tasks.length) := by omega
    rw [h'.waiting, h.waiting, List.append_assoc]
    congr 1
    conv =>
      lhs
      arg 2
      rw [here]
    rw [List.range'_append_1]
    congr 1
    omega

theorem start (s : System) (ts : List Task) : s.Lined (s.start ts) where
  more := by simp
  waiting := by
    rw [tasks_start, List.length_append, Nat.add_sub_cancel_left, List.range'_eq_map_range]
    rfl

theorem release (s : System) : s.Lined s.release :=
  have same := start { s with world := { s.world.release s.held with orphans := [] } }
    ((s.world.release s.held).orphans.map .ofTeardowns)
  ⟨same.more, same.waiting⟩

theorem put (s : System) (i : Nat) (st : Step) : s.Lined (s.put i st) := by
  have step : s.Lined { s with world := st.world, tasks := s.tasks.set i st.task } :=
    ⟨Nat.le_of_eq List.length_set.symm, by simp⟩
  exact (step.trans (start _ st.started)).trans (release _)

theorem in_line (h : s.Lined s') : List.range' s.tasks.length (s'.tasks.length - s.tasks.length) <:+: s'.waiting := by
  rw [h.waiting]
  exact (List.suffix_append _ _).isInfix

end Lined

/-- The tasks that a move starts stand in line one after the other. -/
theorem Moves.in_line (h : s.Moves p s') :
    List.range' s.tasks.length (s'.tasks.length - s.tasks.length) <:+: s'.waiting := by
  have none : ∀ {s' : System}, s'.tasks.length - s.tasks.length = 0 →
      List.range' s.tasks.length (s'.tasks.length - s.tasks.length) <:+: s'.waiting := by
    intro s' same
    rw [same]
    exact List.nil_infix
  cases h with
  | next h =>
    cases h with
    | resume => exact none (Nat.sub_self _)
    | @run i t running found =>
      rcases run_cases p s i t with ⟨st, -, h | ⟨j, n, below, -, h⟩⟩ | ⟨r, -, h⟩ | ⟨-, h⟩ <;> rw [h]
      · exact (Lined.put s i st).in_line
      · exact (Lined.put s i st).in_line.trans (List.prefix_append _ _).isInfix
      · exact none (Nat.sub_self _)
      · exact none (Nat.sub_self _)
  | begin idle o => exact ((Lined.release s).trans (.start _ _)).in_line
  | drop idle name =>
    have released := Lined.release { s with world := s.world.forget name }
    exact released.in_line
  | renew idle finished => exact none (Nat.zero_sub _)

/-- Whether these tasks do what ended containers left, one task for each that left something, or perform operations. -/
def TakeOver (es : List Leftover) (ts : List Task) : Prop := ∃ us vs, ts = us ++ (Leftover.toDo es).map .ofTeardowns ++ vs ∧
  ∀ t ∈ us ++ vs, ∃ scene o, t = .ofOp scene o

/-- Who does what was left does what one of the containers left. -/
theorem TakeOver.mem {es : List Leftover} {ts : List Task} {left : List Teardown} (h : TakeOver es ts)
    (new : .ofTeardowns left ∈ ts) : ∃ e ∈ es, e.teardowns = left := by
  obtain ⟨us, vs, rfl, ops⟩ := h
  have other : .ofTeardowns left ∉ us ++ vs := by
    intro op
    obtain ⟨scene, o, same⟩ := ops _ op
    cases same
  have here : .ofTeardowns left ∈ (Leftover.toDo es).map Task.ofTeardowns := by
    simp only [List.mem_append] at new other
    exact (new.resolve_right fun op => other (.inr op)).resolve_left fun op => other (.inl op)
  obtain ⟨left', hl, same⟩ := List.mem_map.1 here
  cases same
  exact List.mem_map.1 (List.mem_filter.1 hl).1

/-- What a move does with containers that nobody can reach any more: each that left something has a new task for it. The
other new tasks perform operations. -/
structure MoveLeaves (p : Program) (s s' : System) (es : List Leftover) : Prop where
  leaves : ∃ w, s.world.Leaves (s.marks p) es w ∧ s'.world.containers = w.containers
  started : TakeOver es (s'.tasks.drop s.tasks.length)

/-- No container is ended, and no task is new. -/
theorem MoveLeaves.nothing (halts : s.Halts) (rooted : s.world.Rooted) (world : s'.world.containers = s.world.containers)
    (tasks : s'.tasks.drop s.tasks.length = []) : MoveLeaves p s s' [] where
  leaves := ⟨s.world, ⟨rooted, .nothing rooted rfl (fun _ => rfl) (fun _ => rfl) rfl, by simp [halts.marks_eq], by simp⟩,
    world⟩
  started := ⟨[], [], tasks, by simp⟩

/-- Who is ended was not before. -/
theorem MoveLeaves.dead {es : List Leftover} (h : MoveLeaves p s s' es) (hc : c ∈ es.map Leftover.container) :
    (s.world.container c).live = true ∧ (s'.world.container c).live = false := by
  obtain ⟨⟨w, leaves, same⟩, -⟩ := h
  refine ⟨?_, Bool.eq_false_iff.2 fun alive => ?_⟩
  · obtain ⟨e, he, rfl⟩ := List.mem_map.1 hc
    exact (leaves.ends.known e he).1
  · rw [World.container, same] at alive
    exact ((leaves.ends.live c).1 alive).2 hc

theorem Moves.leaves (h : s.Moves p s') (reached : Reachable p s) (rooted : s.world.Rooted) :
    ∃ es, MoveLeaves p s s' es := by
  have clean : s.world.orphans = [] := reached.tidy.orphans
  -- What was left before the tasks take it over is what the marks say.
  have settle : ∀ (w : World) (ts us vs : List Task), s.world.Notes (s.marks p) w → ts.length = s.tasks.length →
      (∀ t ∈ us ++ vs, ∃ scene o, t = .ofOp scene o) → s'.world = settledWorld w (ts ++ us) →
      s'.tasks = settledTasks w (ts ++ us) ++ vs → ∃ es, MoveLeaves p s s' es := by
    intro w ts us vs noted same ops world tasks
    have released := noted.trans (.release w ((ts ++ us).flatMap Task.held))
    rw [List.append_nil] at released
    obtain ⟨es, leaves⟩ := released.leaves rooted
    refine ⟨es, ⟨_, leaves, by rw [world]; rfl⟩, ?_⟩
    have left := leaves.ends.orphans
    rw [clean, List.nil_append] at left
    refine ⟨us, vs, ?_, ops⟩
    rw [tasks, settledTasks, left, ← same, List.append_assoc, List.append_assoc, List.drop_left, List.append_assoc]
  rcases h.cases with ⟨i, t, st, running, found, takes, world, tasks⟩ | ⟨halts, world, tasks⟩ | ⟨idle, outside⟩
  · have ops : ∀ u ∈ st.started, ∃ scene o, u = .ofOp scene o := by
      intro u hu
      obtain ⟨scene, o, rfl, -⟩ := (takes.does_of_reachable reached found).2.started u hu
      exact ⟨scene, o, rfl⟩
    exact settle _ _ _ [] (takes.notes reached running found) List.length_set (by simpa using ops) (world_put s i st ▸ world)
      (by rw [tasks, tasks_put, List.append_nil])
  · exact ⟨[], .nothing halts rooted (by rw [world]) (by rw [tasks, List.drop_length])⟩
  · have unmarked : s.marks p = [] := marks_of_idle idle
    rcases outside with ⟨o, world, tasks⟩ | ⟨name, rfl⟩ | ⟨-, rfl⟩
    · refine settle s.world s.tasks [] [.ofOp {} o] (unmarked ▸ .refl _) rfl
        (fun t ht => ⟨_, o, List.mem_singleton.1 ht⟩) ?_ ?_
      · rw [world, List.append_nil]
        rfl
      · rw [tasks, tasks_release, List.append_nil]
    · have forgot : s.world.Notes (s.marks p) (s.world.forget name) := unmarked ▸ .of_containers rfl rfl rfl
      refine settle _ s.tasks [] [] forgot rfl (by simp) ?_ ?_
      · rw [List.append_nil]
        rfl
      · rw [List.append_nil, List.append_nil]
        rfl
    · exact ⟨[], .nothing (.of_idle idle) rooted rfl List.drop_nil⟩

/-! ## Runs -/

namespace Run

variable (run : Run p)

theorem leaves_of_rooted {n : Nat} (rooted : (run.state n).world.Rooted) :
    ∃ es, MoveLeaves p (run.state n) (run.state (n + 1)) es := by
  rcases run.moves n with moves | ⟨idle, rests⟩
  · exact moves.leaves (run.reachable n) rooted
  · exact ⟨[], .nothing (.of_idle idle) rooted (by rw [rests]) (by rw [rests, List.drop_length])⟩

theorem rooted (n : Nat) : (run.state n).world.Rooted := by
  induction n with
  | zero =>
    obtain ⟨name, start⟩ := run.start
    obtain ⟨_, leaves⟩ := (World.Notes.openRoot name).leaves World.rooted_empty
    rw [start]
    exact leaves.rooted
  | succ n ih =>
    obtain ⟨_, ⟨w, leaves, same⟩, -⟩ := run.leaves_of_rooted ih
    have container : ∀ c, (run.state (n + 1)).world.container c = w.container c := fun c => by
      rw [World.container, World.container, same]
    exact leaves.rooted.of_same (fun c => by rw [container]) fun c => by rw [container]

/-- What becomes of the containers in the move after state `n`, of which `es` are ended in this order. -/
structure Releases (run : Run p) (n : Nat) (es : List Leftover) : Prop where
  /-- Who is ended could be reached before the move, or was opened in it, and can be reached no more. -/
  ended : ∀ c, c ∈ es.map Leftover.container ↔ ((run.state n).IsReached c ∨ (run.state n).world.containers.length ≤ c ∧
    c < (run.state (n + 1)).world.containers.length) ∧ ¬ (run.state (n + 1)).IsReached c
  once : (es.map Leftover.container).Nodup
  /-- Nobody can reach it or a scope on it ever again. -/
  gone : ∀ e ∈ es, ∀ m > n, ∀ d, (run.state m).IsReached d → e.container ∉ (run.state m).world.chain d
  /-- A scope is ended before its bases. -/
  order : es.Pairwise fun e e' => e.container ∉ ((run.state (n + 1)).world.container e'.container).bases
  /-- What is left is what the history says. -/
  left : ∀ e ∈ es, History.Left e.container (run.history (n + 1)) e.teardowns
  /-- Nothing is left if nothing happened to the container since it was terminated. -/
  emptied : ∀ e ∈ es, ∀ H₁ H₂, run.history (n + 1) = H₁ ++ .terminated e.container :: H₂ →
    (∀ m ∈ H₂, m.about ≠ some e.container) → e.teardowns = []
  /-- Each that left something has a new task, in this order. -/
  started : TakeOver es ((run.state (n + 1)).tasks.drop (run.state n).tasks.length)
  /-- The new tasks stand in line in the order in which they were started. -/
  inLine : List.range' (run.state n).tasks.length ((run.state (n + 1)).tasks.length - (run.state n).tasks.length) <:+:
    (run.state (n + 1)).waiting
  /-- A new task does what was left one by one, and nothing else. -/
  winds : ∀ i ts, (run.state n).tasks.length ≤ i → (run.state (n + 1)).tasks[i]? = some (.ofTeardowns ts) →
    ∀ m > n, run.Winds i [] (.cons (.close none .ok) .nil) ts (n + 1) m

variable {run} {n : Nat} {es : List Leftover}

/-- Who is ended stays so. -/
theorem dead_mono {c : ContainerId} (dead : ((run.state n).world.container c).live = false) {m : Nat} (later : n ≤ m) :
    ((run.state m).world.container c).live = false := by
  induction later with
  | refl => exact dead
  | @step m _ ih =>
    obtain ⟨_, ⟨w, leaves, same⟩, -⟩ := run.leaves_of_rooted (run.rooted m)
    rw [World.container, same]
    exact leaves.ends.dead ih

theorem releases (h : MoveLeaves p (run.state n) (run.state (n + 1)) es) : run.Releases n es := by
  obtain ⟨w, leaves, same⟩ := h.leaves
  have started := h.started
  have ends := leaves.ends
  have container : ∀ c, (run.state (n + 1)).world.container c = w.container c := fun c => by
    rw [World.container, World.container, same]
  have reached : ∀ m c, (run.state m).IsReached c ↔ (run.state m).world.Alive c := fun m c =>
    (run.reachable m).alive_iff.symm
  have dead : ∀ e ∈ es, ((run.state (n + 1)).world.container e.container).live = false := fun e he =>
    (h.dead (List.mem_map_of_mem he)).2
  have due : ∀ e ∈ es, e.Due (run.history (n + 1)) := run.history_succ n ▸ leaves.due _ (run.accounted n)
  have left : ∀ e ∈ es, History.Left e.container (run.history (n + 1)) e.teardowns := fun e he =>
    (run.accounted (n + 1)).left_of_due (due e he)
  constructor
  case ended =>
    intro c
    rw [reached, reached, same]
    constructor
    · intro hc
      obtain ⟨e, he, rfl⟩ := List.mem_map.1 hc
      obtain ⟨alive, known⟩ := ends.known e he
      refine ⟨?_, fun still => ?_⟩
      · rcases Nat.lt_or_ge e.container (run.state n).world.containers.length with old | new
        · exact .inl ⟨old, alive⟩
        · exact .inr ⟨new, known⟩
      · have := dead e he
        rw [still.2] at this
        cases this
    · rintro ⟨before, ended⟩
      have alive : ((run.state n).world.container c).live = true ∧ c < w.containers.length := by
        rcases before with alive | ⟨new, known⟩
        · exact ⟨alive.2, Nat.lt_of_lt_of_le alive.1 ends.grows⟩
        · exact ⟨by rw [World.container_of_ge new], known⟩
      by_contra other
      refine ended ⟨same ▸ alive.2, ?_⟩
      rw [container]
      exact (ends.live c).2 ⟨alive.1, other⟩
  case once => exact ends.once
  case gone =>
    intro e he m later d here below
    have alive := (run.reachable m).sound.ok.alive_of_mem_chain ((reached m d).1 here) below
    have still := dead_mono (dead e he) (Nat.succ_le_of_lt later)
    rw [alive.2] at still
    cases still
  case order => exact ends.order.imp fun apart => by rwa [container]
  case left => exact left
  case emptied =>
    intro e he H₁ H₂ split other
    rw [(left e he).again H₁ H₂ split fun m hm => (Mark.closed_of_about (other m hm)).2]
    exact History.own_others other _
  case started => exact started
  case inLine =>
    rcases run.moves n with moves | ⟨-, rests⟩
    · exact moves.in_line
    · rw [rests, Nat.sub_self]
      exact List.nil_infix
  case winds =>
    intro i ts new found m later
    refine run.winds found (fun x hx => ?_) later
    have here : .ofTeardowns ts ∈ (run.state (n + 1)).tasks.drop (run.state n).tasks.length := by
      apply List.mem_of_getElem? (i := i - (run.state n).tasks.length)
      rw [List.getElem?_drop, Nat.add_sub_cancel' new]
      exact found
    obtain ⟨e, he, rfl⟩ := started.mem here
    have fits : ∀ x ∈ History.due e.container ((run.history (n + 1)).any (Mark.opens e.container)) (run.history (n + 1)),
        x.Fits := run.fits_of_due (List.append_nil _).symm
    exact fits x (due e he ▸ hx)

/-- Each container is ended once, and not before it and all scopes on it, at any depth, are left without a handle. What it
has left to do by then, by the history of the run, is done by one new task, one by one; the task of a scope is started
before those of its bases. A container that was terminated and got nothing since leaves nothing. -/
theorem leftovers_once (run : Run p) : ∃ left : Nat → List Leftover, (∀ n, run.Releases n (left n)) ∧
    (∀ n m c, c ∈ (left n).map Leftover.container → c ∈ (left m).map Leftover.container → n = m) ∧
    ∀ n m c, n ≤ m → (run.state n).IsReached c → ¬ (run.state m).IsReached c →
      ∃ k, n ≤ k ∧ k < m ∧ c ∈ (left k).map Leftover.container := by
  choose left leaves using fun n => run.leaves_of_rooted (run.rooted n)
  have releases : ∀ n, run.Releases n (left n) := fun n => Run.releases (leaves n)
  -- Who is ended in a move is not in a later one.
  have once : ∀ n m c, n < m → c ∈ (left n).map Leftover.container → c ∉ (left m).map Leftover.container := by
    intro n m c later here there
    have still := dead_mono ((leaves n).dead here).2 (Nat.succ_le_of_lt later)
    rw [((leaves m).dead there).1] at still
    cases still
  refine ⟨left, releases, fun n m c here there => ?_, fun n m c later => ?_⟩
  · rcases Nat.lt_trichotomy n m with before | same | after
    · exact absurd there (once n m c before here)
    · exact same
    · exact absurd here (once m n c after there)
  · induction later with
    | refl => exact fun reached gone => absurd reached gone
    | @step m later ih =>
      intro reached gone
      by_cases still : (run.state m).IsReached c
      · exact ⟨m, later, Nat.lt_succ_self m, ((releases m).ended c).2 ⟨.inl still, gone⟩⟩
      · obtain ⟨k, since, before, ended⟩ := ih reached still
        exact ⟨k, since, Nat.lt_succ_of_lt before, ended⟩

end Run

/-- A root and a scope on it both have a callback. The name of the root is dropped first, that of the scope in move 18. -/
def nestedRun : Run {} :=
  .ofOps {} "root" [
    .on "root" (.terminating false ⟨"base", []⟩),
    .on "root" (.openScope "scope"),
    .on "scope" (.terminating false ⟨"own", []⟩),
    .on "root" .drop,
    .on "scope" .drop]

/-- As long as there is the scope, nothing is done. Then both are ended, in one move and in no other, and the callback
of the scope is performed before that of its base. -/
theorem scope_is_ended_with_its_base : ∃ left : Nat → List Leftover, (∀ n, nestedRun.Releases n (left n)) ∧
    (∀ c < 2, ∀ n, c ∈ (left n).map Leftover.container ↔ n = 18) ∧
    (nestedRun.state 18).world.log = [] ∧ (nestedRun.state 28).world.log.filterMap (fun
      | .terminating id => some id
      | _ => none) = ["own", "base"] := by
  obtain ⟨left, releases, once, ended⟩ := nestedRun.leftovers_once
  refine ⟨left, releases, fun c two n => ?_, rfl, by decide +kernel⟩
  have before : ∀ c < 2, c ∈ (nestedRun.state 18).world.reachable (nestedRun.state 18).held := by decide +kernel
  have after : ∀ c < 2, c ∉ (nestedRun.state 19).world.reachable (nestedRun.state 19).held := by decide +kernel
  obtain ⟨k, since, early, here⟩ := ended 18 19 c (by omega) (before c two) (after c two)
  obtain rfl : k = 18 := by omega
  exact ⟨fun there => once n 18 c there here, fun same => same ▸ here⟩

end System

end Injector
