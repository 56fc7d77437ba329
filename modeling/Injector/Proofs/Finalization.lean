import Injector.Proofs.Sharing
import Injector.Proofs.Teardowns
/-!
# Finalizers run once

`Run.finalizes_once`: an instance that a binding with a finalizer has built gets one teardown,
with the container that had the binding, before it is handed over. The teardown stays there
until that container is first terminated or else dropped; the task that does so has it then,
and is not done before it has run the finalizer, which is never run again.
-/
namespace Injector

/-- A finalizer is for the instances that its binding makes. -/
theorem Task.ty_of_hand {t : Task} (wf : t.Wf) {b : Build} {v : Instance} {f : Finalizer}
    (hand : t.hand? = some (b, v)) (hf : b.finalizer = some f) : f.ty = v.ty := by
  obtain ⟨below, rfl⟩ := of_hand hand
  obtain ⟨m, maker, ty⟩ : ∃ m, b.maker = some m ∧ v.ty = m.product.ty := wf.activity
  have fits : b.Fits below := wf.stack.1
  obtain ⟨x, binding, rfl⟩ := Option.map_eq_some_iff.1 maker
  rw [Build.finalizer, binding, Option.bind_some] at hf
  rw [ty, fits.sound x binding f hf]

/-- What a task has left to run is not past what waits for it. -/
theorem Task.le_of_mem_left {t : Task} {x : Pending} (h : x ∈ t.left) : x.1 ≤ t.stack.height := by
  obtain ⟨k, a, below⟩ := t
  have waits : x ∈ below.left → x.1 ≤ below.height := fun h => Nat.le_of_lt (Stack.lt_of_mem_left h)
  cases a with
  | windDown path ts =>
    rcases List.mem_append.1 h with h | h
    · obtain ⟨_, _, rfl⟩ := List.mem_map.1 h
      exact Nat.le_refl _
    · exact waits h
  | resolve | line | fill | pause | perform | await | give => exact waits h

theorem Task.mem_left_of_finalizes {t : Task} {x : Pending} (h : t.finalizes = some x) : x ∈ t.left := by
  obtain ⟨path, f, v, ts, below, rfl, -, rfl⟩ := of_finalizes h
  exact List.mem_append_left _ List.mem_cons_self

namespace System

variable {p : Program} {s s' : System} {b : Build} {v : Instance} {f : Finalizer} {q : Option Place} {c : ContainerId}

theorem mem_leftAt {ts : List Task} {i : Nat} {t : Task} {x : Pending} (found : ts[i]? = some t) (h : x ∈ t.left) :
    x.2 ∈ Task.leftAt ts i x.1 := by
  rw [Task.leftAt_of found]
  exact List.mem_filterMap.2 ⟨x, h, if_pos rfl⟩

/-- Who runs the finalizer of an instance has its only teardown. -/
theorem Only.of_finalizes (only : s.Only v f q) {x : Pending} (runs : s.finalizes = some x)
    (same : x.2.2.same v = true) : ∃ i, s.running = some i ∧ q = some (.task i x.1) ∧ x.2 = (f, v) := by
  obtain ⟨t, current, runs⟩ := Option.bind_eq_some_iff.1 runs
  obtain ⟨i, running, found⟩ := exists_of_current current
  have mem : x.2 ∈ teardownsOf v (s.world.teardowns s.tasks (.task i x.1)) :=
    List.mem_filter.2 ⟨mem_leftAt found (Task.mem_left_of_finalizes runs), same⟩
  rw [only] at mem
  split at mem
  · next hq => exact ⟨i, running, hq, List.mem_singleton.1 mem⟩
  · cases mem

/-- The task that has the teardown of an instance is not past what waits for it. -/
theorem Only.waits {i n : Nat} (only : s.Only v f (some (.task i n))) :
    ∃ t, s.tasks[i]? = some t ∧ n ≤ t.stack.height := by
  have here := only (.task i n)
  rw [if_pos rfl] at here
  have mem : (f, v) ∈ Task.leftAt s.tasks i n := (List.mem_filter.1 (here ▸ List.mem_singleton_self _)).1
  cases found : s.tasks[i]? with
  | none => rw [Task.leftAt_eq_nil fun t h => by rw [found] at h; cases h] at mem; cases mem
  | some t =>
    rw [Task.leftAt_of found] at mem
    obtain ⟨x, hx, e⟩ := List.mem_filterMap.1 mem
    split at e
    · next hn => exact ⟨t, rfl, hn ▸ Task.le_of_mem_left hx⟩
    · cases e

/-! ## Runs -/

theorem only_initial (name : String) (v : Instance) (f : Finalizer) : (initial name).Only v f none := by
  intro q
  cases q with
  | container c =>
    have none : (initial name).world.finals c = [] := (World.editedAt_add {} c rfl rfl rfl rfl).finals
    rw [World.teardowns, none, if_neg (by simp)]
    rfl
  | orphan i => rfl
  | task i height => rfl

/-- An instance that no build with a finalizer has handed over has no teardown. -/
theorem Run.only_of_unbuilt (run : Run p) (ty : f.ty = v.ty) {n : Nat}
    (unbuilt : ∀ m < n, ∀ b v', (run.state m).hand? = some (b, v') → b.finalizer = none ∨ v'.serial ≠ v.serial) :
    (run.state n).Only v f none := by
  induction n with
  | zero =>
    obtain ⟨name, start⟩ := run.start
    exact start ▸ only_initial name v f
  | succ n ih =>
    have before := ih fun m hm => unbuilt m (Nat.lt_succ_of_lt hm)
    obtain ⟨q, only, -, goes⟩ :=
      (run.change n).only (run.reachable n) ty (unbuilt n (Nat.lt_succ_self n)) (fun j h => by cases h) before
    cases goes with
    | stays => exact only

/-- Nor has one that is still in hand. -/
theorem Run.only_of_hand (run : Run p) (ty : f.ty = v.ty) {n : Nat} (hand : (run.state n).hand? = some (b, v)) :
    ∀ k ≤ n, (run.state k).Only v f none := by
  intro k hk
  apply run.only_of_unbuilt ty
  intro m hm b' v' hand'
  exact .inr (Nat.ne_of_lt (run.serial_lt_of_hand (Nat.lt_of_lt_of_le hm hk) hand' hand))

/-- A build that lined up found its binding with its container, or is a fallback. -/
theorem Run.looked_up (run : Run p) {n : Nat} {t : Task} (ht : t ∈ (run.state n).tasks) (hb : b ∈ t.locked) :
    ∃ m < n, b.FoundIn (run.state m).world := by
  induction n generalizing t with
  | zero =>
    obtain ⟨name, start⟩ := run.start
    rw [start] at ht
    cases ht
  | succ n ih =>
    rcases (run.change n).locked ht hb with ⟨u, hu, hb⟩ | found
    · obtain ⟨m, hm, found⟩ := ih hu hb
      exact ⟨m, Nat.lt_succ_of_lt hm, found⟩
    · exact ⟨n, Nat.lt_succ_self n, found⟩

/-- What is built with a finalizer is built by a binding of the container. -/
theorem Run.binding_of_hand (run : Run p) {n : Nat} (hand : (run.state n).hand? = some (b, v)) (hf : b.finalizer = some f) :
    ∃ m < n, ((run.state m).world.container b.container).registry.get? b.key.plain = b.binding := by
  obtain ⟨_, t, -, found, hands⟩ := exists_of_hand hand
  obtain ⟨m, hm, fallback, -, binding⟩ :=
    run.looked_up (List.mem_of_getElem? found) (List.mem_append_right _ (Task.mem_builds_of_hand hands))
  refine ⟨m, hm, ?_⟩
  cases own : ((run.state m).world.container b.container).registry.get? b.key.plain with
  | some x => rw [binding, own, Option.some_or]
  | none =>
    rw [own, Option.none_or] at binding
    rw [Build.finalizer, binding] at hf
    cases fallback <;> cases hf

theorem Run.ty_of_hand (run : Run p) {n : Nat} (hand : (run.state n).hand? = some (b, v)) (hf : b.finalizer = some f) :
    f.ty = v.ty := by
  obtain ⟨_, t, -, found, hands⟩ := exists_of_hand hand
  exact Task.ty_of_hand ((run.reachable n).sound.wf t (List.mem_of_getElem? found)) hands hf

/-- An instance gets its teardown in the move that hands it over. -/
theorem Run.records (run : Run p) {n : Nat} (hand : (run.state n).hand? = some (b, v)) (hf : b.finalizer = some f) :
    (∃ i w ts, ∃ below : Stack .answer, (run.state n).running = some i ∧
      ts[i]? = some ⟨.answer, .give (k := .answer) (.ok v), below⟩ ∧ w.Only ts v f (some (.container b.container)) ∧
      (run.state (n + 1)).world = settledWorld w ts ∧ (run.state (n + 1)).tasks = settledTasks w ts) ∧
    ∃ q, (run.state (n + 1)).Only v f q ∧ (run.state n).Goes (run.state (n + 1)) v f (some (.container b.container)) q := by
  have moves : (run.state n).Moves p (run.state (n + 1)) := by
    apply (run.moves n).resolve_right
    rintro ⟨idle, _⟩
    rw [hand_of_idle idle] at hand
    cases hand
  exact moves.records (run.reachable n) hand hf (run.only_of_hand (run.ty_of_hand hand hf) hand n (Nat.le_refl n))

/-- How container `c` comes to its end for the first time since state `n`: in the move from state `m`, by
task `i`, which has done what `c` had left once what waits at height `h` goes on. -/
structure Run.FirstEnd (run : Run p) (n : Nat) (c : ContainerId) (m i h : Nat) : Prop where
  since : n ≤ m
  spared : ∀ k, n ≤ k → k < m → (run.state k).terminates ≠ some c
  alive : ∀ k, n ≤ k → k ≤ m → (run.state k).world.Alive c
  ends : (run.state m).Ends (run.state (m + 1)) c i h

/-- Whether nobody has run a finalizer on `v` by state `k`. -/
def Run.Unrun (run : Run p) (v : Instance) (k : Nat) : Prop :=
  ∀ r < k, ∀ x, (run.state r).finalizes = some x → x.2.2.same v = false

/-- What became by state `k` of the teardown that `v` got with container `c` in state `n`. -/
inductive Run.Fate (run : Run p) (n : Nat) (c : ContainerId) (v : Instance) (f : Finalizer) (k : Nat) : Prop where
  /-- It is still there, since nothing ended the container. -/
  | kept (spared : ∀ m, n ≤ m → m < k → (run.state m).terminates ≠ some c)
    (alive : ∀ m, n ≤ m → m ≤ k → (run.state m).world.Alive c) (only : (run.state k).Only v f (some (.container c)))
    (unrun : run.Unrun v k)
  /-- The task that ended the container has it, and is not done. -/
  | taken (m i h : Nat) (ends : run.FirstEnd n c m i h) (later : m < k) (only : (run.state k).Only v f (some (.task i h)))
    (waits : ∃ t, (run.state k).tasks[i]? = some t ∧ h ≤ t.stack.height) (unrun : run.Unrun v k)
  /-- That task ran it, once. -/
  | ran (m i h r : Nat) (ends : run.FirstEnd n c m i h) (after : m < r) (later : r < k)
    (running : (run.state r).running = some i) (runs : (run.state r).finalizes = some (h, f, v))
    (only : (run.state k).Only v f none)
    (once : ∀ r' < k, ∀ x, (run.state r').finalizes = some x → x.2.2.same v = true → r' = r)

theorem Run.Unrun.succ {run : Run p} {k : Nat} (h : run.Unrun v k)
    (unrun : ∀ x, (run.state k).finalizes = some x → x.2.2.same v = false) : run.Unrun v (k + 1) := by
  intro r hr x runs
  rcases Nat.lt_succ_iff_lt_or_eq.1 hr with hr | rfl
  · exact h r hr x runs
  · exact unrun x runs

/-- Where there is no teardown with a task, no finalizer is run. -/
theorem Only.not_same (only : s.Only v f q) (elsewhere : ∀ i n, q ≠ some (.task i n)) {x : Pending}
    (runs : s.finalizes = some x) : ¬ x.2.2.same v = true := by
  intro same
  obtain ⟨i, -, hq, -⟩ := only.of_finalizes runs same
  exact elsewhere i x.1 hq

theorem Only.unrun (only : s.Only v f q) (elsewhere : ∀ i n, q ≠ some (.task i n)) (x : Pending)
    (runs : s.finalizes = some x) : x.2.2.same v = false :=
  Bool.eq_false_iff.2 (only.not_same elsewhere runs)

/-- The task that ends the container has the teardown then. -/
theorem Run.Fate.of_ends {run : Run p} {n m i h : Nat} (since : n ≤ m)
    (spared : ∀ k, n ≤ k → k < m → (run.state k).terminates ≠ some c)
    (alive : ∀ k, n ≤ k → k ≤ m → (run.state k).world.Alive c) (ends : (run.state m).Ends (run.state (m + 1)) c i h)
    (only : (run.state (m + 1)).Only v f (some (.task i h))) (unrun : run.Unrun v (m + 1)) : run.Fate n c v f (m + 1) :=
  .taken m i h ⟨since, spared, alive, ends⟩ (Nat.lt_succ_self m) only only.waits unrun

/-- The move that hands an instance over gives it its teardown. -/
theorem Run.fate_first (run : Run p) {n : Nat} (hand : (run.state n).hand? = some (b, v)) (hf : b.finalizer = some f) :
    run.Fate n b.container v f (n + 1) := by
  have before : run.Unrun v (n + 1) := by
    intro r hr
    have only := run.only_of_hand (run.ty_of_hand hand hf) hand r (Nat.le_of_lt_succ hr)
    exact only.unrun fun i n h => by cases h
  have first : ∀ m, n ≤ m → m ≤ n → (run.state m).world.Alive b.container := by
    intro m hm hm'
    obtain rfl : m = n := by omega
    exact run.alive_of_hand hand
  obtain ⟨-, q, only, goes⟩ := run.records hand hf
  cases goes with
  | stays spared =>
    refine .kept ?_ ?_ only before
    · intro m hm hm'
      obtain rfl : m = n := by omega
      exact spared _ rfl
    · intro m hm hm'
      rcases Nat.le_succ_iff.1 hm' with hm' | rfl
      · exact first m hm hm'
      · exact World.Only.alive (run.reachable _).sound.ok only
  | taken i h ends => exact .of_ends (Nat.le_refl n) (fun m hm hm' => absurd hm (Nat.not_le.2 hm')) first ends only before

/-- Any further move leaves the teardown where it is, ends the container that has it, or runs it. -/
theorem Run.Fate.succ {run : Run p} {n k : Nat} (hand : (run.state n).hand? = some (b, v)) (hf : b.finalizer = some f)
    (later : n < k) (h : run.Fate n b.container v f k) : run.Fate n b.container v f (k + 1) := by
  -- What is in hand now was made later.
  have others : ∀ b' v', (run.state k).hand? = some (b', v') → b'.finalizer = none ∨ v'.serial ≠ v.serial := by
    intro b' v' hand'
    exact .inr (Nat.ne_of_gt (run.serial_lt_of_hand later hand hand'))
  have next := fun {q} => (run.change k).only (q := q) (run.reachable k) (run.ty_of_hand hand hf) others
  cases h with
  | kept spared alive only unrun =>
    have unrun' := unrun.succ (only.unrun fun i n h => by cases h)
    obtain ⟨q, only', -, goes⟩ := next (fun j h => by cases h) only
    cases goes with
    | stays spared' =>
      refine .kept ?_ ?_ only' unrun'
      · intro m hm hm'
        rcases Nat.lt_succ_iff_lt_or_eq.1 hm' with hm' | rfl
        · exact spared m hm hm'
        · exact spared' _ rfl
      · intro m hm hm'
        rcases Nat.le_succ_iff.1 hm' with hm' | rfl
        · exact alive m hm hm'
        · exact World.Only.alive (run.reachable _).sound.ok only'
    | taken i h ends => exact .of_ends (Nat.le_of_lt later) spared alive ends only' unrun'
  | taken m i h ends after only waits unrun =>
    obtain ⟨q, only', -, goes⟩ := next (fun j h => by cases h) only
    cases goes with
    | stays _ others =>
      refine .taken m i h ends (Nat.lt_succ_of_lt after) only' only'.waits (unrun.succ fun x runs => ?_)
      apply Bool.eq_false_iff.2
      intro same
      obtain ⟨-, -, -, hx⟩ := only.of_finalizes runs same
      exact others x.1 (runs.trans (congrArg some (Prod.ext rfl hx)))
    | runs i h running runs =>
      refine .ran m i h k ends after (Nat.lt_succ_self k) running runs only' ?_
      intro r hr x runs' same
      rcases Nat.lt_succ_iff_lt_or_eq.1 hr with hr | rfl
      · rw [unrun r hr x runs'] at same
        cases same
      · rfl
  | ran m i h r ends after before running runs only once =>
    obtain ⟨q, only', -, goes⟩ := next (fun j h => by cases h) only
    cases goes with
    | stays =>
      refine .ran m i h r ends after (Nat.lt_succ_of_lt before) running runs only' ?_
      intro r' hr x runs' same
      rcases Nat.lt_succ_iff_lt_or_eq.1 hr with hr | rfl
      · exact once r' hr x runs' same
      · exact absurd same (only.not_same (fun i n h => by cases h) runs')

/-- Once an instance has its teardown, the teardown stays with the container, or goes to the task that ends
the container, until that task runs it. -/
theorem Run.fate (run : Run p) {n : Nat} (hand : (run.state n).hand? = some (b, v)) (hf : b.finalizer = some f) {k : Nat}
    (later : n < k) : run.Fate n b.container v f k := by
  induction k, later using Nat.le_induction with
  | base => exact run.fate_first hand hf
  | succ k later ih => exact ih.succ hand hf later

/-- An instance that a binding with a finalizer has built is finalized once, when the container that had the
binding is first terminated or else dropped. -/
theorem Run.finalizes_once (run : Run p) {n : Nat} (hand : (run.state n).hand? = some (b, v))
    (hf : b.finalizer = some f) :
    -- The container itself had the binding when the key was looked up.
    (∃ m < n, ((run.state m).world.container b.container).registry.get? b.key.plain = b.binding) ∧
    -- When the instance is handed over, it has one teardown, with that container, and it had none before.
    (∀ k ≤ n, (run.state k).Only v f none) ∧
    (∃ i w ts, ∃ below : Stack .answer, (run.state n).running = some i ∧
      ts[i]? = some ⟨.answer, .give (k := .answer) (.ok v), below⟩ ∧ w.Only ts v f (some (.container b.container)) ∧
      (run.state (n + 1)).world = settledWorld w ts ∧ (run.state (n + 1)).tasks = settledTasks w ts) ∧
    -- The teardown stays there until the container is first ended, and the task that does so runs it.
    (∀ k, n < k → run.Fate n b.container v f k) ∧
    (∀ r x, (run.state r).finalizes = some x → x.2.2.same v = true →
      ∃ m i, run.FirstEnd n b.container m i x.1 ∧ m < r ∧ (run.state r).running = some i ∧ x.2 = (f, v)) ∧
    -- No finalizer is run on the instance twice.
    ∀ r r' x x', (run.state r).finalizes = some x → x.2.2.same v = true → (run.state r').finalizes = some x' →
      x'.2.2.same v = true → r = r' := by
  have ty := run.ty_of_hand hand hf
  -- Up to the hand-over there is no teardown to run.
  have later : ∀ {r x}, (run.state r).finalizes = some x → x.2.2.same v = true → n < r := by
    intro r x runs same
    by_contra le
    exact (run.only_of_hand ty hand r (Nat.not_lt.1 le)).not_same (fun i n h => by cases h) runs same
  refine ⟨run.binding_of_hand hand hf, run.only_of_hand ty hand, (run.records hand hf).1,
    fun k hk => run.fate hand hf hk, ?_, ?_⟩
  · intro r x runs same
    cases run.fate hand hf (later runs same) with
    -- A task runs the finalizer, so it is one that has the teardown.
    | kept _ _ only => exact absurd same (only.not_same (fun i n h => by cases h) runs)
    | taken m i h ends after only =>
      obtain ⟨j, running, hq, hx⟩ := only.of_finalizes runs same
      cases hq
      exact ⟨m, i, ends, after, running, hx⟩
    | ran _ _ _ _ _ _ _ _ _ only =>
      exact absurd same (only.not_same (fun i n h => by cases h) runs)
  · intro r r' x x' runs same runs' same'
    -- By a state after both runs, the teardown was run, once.
    have unrun : ∀ {k}, r < k → ¬ run.Unrun v k := by
      intro k hr h
      rw [h r hr x runs] at same
      cases same
    have hr : r < r + r' + 1 := by omega
    cases run.fate hand hf (Nat.lt_trans (later runs same) hr) with
    | kept _ _ _ none => exact absurd none (unrun hr)
    | taken _ _ _ _ _ _ _ none => exact absurd none (unrun hr)
    | ran _ _ _ _ _ _ _ _ _ _ once => exact (once r hr x runs same).trans (once r' (by omega) x' runs' same').symm

/-- A scope asks the root for an `A`, which has a finalizer. Then the scope is terminated, and the root. -/
def finalizedRun : Run {} :=
  .ofOps {} "root" [
    .on "root" (.register (some (.type (.declared "A"))) (.function "plain" true) .singleton (some ⟨"last", []⟩)),
    .on "root" (.openScope "scope"),
    .lasting ⟨"", "scope", false⟩ (.get none (.type (.declared "A")) false none),
    .lasting ⟨"", "scope", false⟩ .terminate,
    .lasting ⟨"", "root", false⟩ .terminate]

/-- It is the root that has the `A` finalized. -/
theorem root_finalizes : ∃ b v f, (finalizedRun.state 17).hand? = some (b, v) ∧ b.finalizer = some f ∧
    b.container = 0 ∧ finalizedRun.Fate 17 0 v f 18 ∧ (finalizedRun.state 22).terminates = some 1 ∧
    (finalizedRun.state 28).terminates = some 0 ∧ ∃ m i, finalizedRun.FirstEnd 17 0 m i 1 ∧ m < 29 ∧
      (finalizedRun.state 29).running = some i ∧ (finalizedRun.state 29).finalizes = some (1, f, v) := by
  have built : ((finalizedRun.state 17).hand?.any fun x =>
      x.1.container == 0 && x.1.finalizer.isSome && x.2.serial == 0) = true := by decide +kernel
  have run : ((finalizedRun.state 29).finalizes.any fun x => x.1 == 1 && x.2.2.serial == 0) = true := by decide +kernel
  obtain ⟨⟨b, v⟩, hand, built⟩ := (Option.any_eq_true _ _).1 built
  obtain ⟨⟨h, f', v'⟩, runs, run⟩ := (Option.any_eq_true _ _).1 run
  simp only [Bool.and_eq_true, beq_iff_eq] at built run
  obtain ⟨⟨hc, hf⟩, hv⟩ := built
  obtain ⟨rfl, hv'⟩ := run
  obtain ⟨f, hf⟩ := Option.isSome_iff_exists.1 hf
  obtain ⟨-, -, -, fate, ends, -⟩ := finalizedRun.finalizes_once hand hf
  obtain ⟨m, i, first, before, running, same⟩ := ends 29 (1, f', v') runs (by simp [Shared.same, hv, hv'])
  have same : (f', v') = (f, v) := same
  rw [same] at runs
  exact ⟨b, v, f, hand, hf, hc, hc ▸ fate 18 (by omega), by decide +kernel, by decide +kernel, m, i, hc ▸ first, before,
    running, runs⟩

end System

end Injector
