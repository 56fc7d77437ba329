import Injector.Proofs.BuildLocks
import Injector.Proofs.Serving
import Mathlib.Tactic.IntervalCases
/-!
# Who shares an instance

`Run.shares`: as long as a container has one binding for a key, and all who wait to build
it have found that one, the container serves one instance of the key, made by the binding,
if that is to be shared, and else a new one every time; and no instance is ever served for
two keys or by two containers. Who waits since before the key got its binding builds by the
one it had then, and has an instance of its own (`waiter_builds_by_an_older_binding`).
-/
namespace Injector

/-! ## Builds in moves -/

namespace Task.Does

variable {p : Program} {held : List ContainerId} {w : World} {t : Task} {st : Step} {b : Build} {c : ContainerId}
  {key : Key}

/-- A build that lines up has the binding of its container, or a fallback. -/
theorem locked (h : t.Does p held w st) (hb : b ∈ st.task.locked) : b ∈ t.locked ∨ b.FoundIn w := by
  unfold Task.locked at hb ⊢
  cases h with
  | linesUp b' before _ _ binding _ builds _ line =>
    rw [line, builds] at hb
    rcases List.mem_append.1 hb with hb | hb
    · obtain rfl := List.mem_singleton.1 hb
      exact .inr binding
    · exact .inl (List.mem_append_right _ hb)
  | begins b' line _ _ _ _ builds _ after =>
    rw [after.line, builds] at hb
    rw [line]
    exact .inl hb
  | makes _ _ _ _ _ _ _ builds _ line =>
    rw [line, builds] at hb
    exact .inl (List.mem_append_right _ hb)
  | aborts b' _ _ _ builds _ after =>
    rw [after.line] at hb
    rw [builds]
    exact .inl (List.mem_append_right _ (List.mem_cons_of_mem _ hb))
  | completes b' _ _ _ _ _ _ _ builds _ after =>
    rw [after.line] at hb
    rw [builds]
    exact .inl (List.mem_append_right _ (List.mem_cons_of_mem _ hb))
  | calm _ _ _ builds _ after | skips _ _ _ _ _ builds _ after | terminates _ _ _ _ _ _ _ _ _ builds _ _ after
  | finalizes _ _ _ _ _ builds _ after | passes _ _ _ _ _ builds _ after =>
    rw [after.line, builds] at hb
    exact .inl (List.mem_append_right _ hb)

/-- No build of a key is started that has an instance. -/
theorem building_le (h : t.Does p held w st) (kept : (w.container c).cache.get? key ≠ none) :
    Task.building c key st.task ≤ Task.building c key t := by
  unfold Task.building
  cases h with
  | begins b' _ _ _ nothing _ builds =>
    have other : (b'.container == c && b'.key == key) = false := by
      rw [Bool.and_eq_false_iff, beq_eq_false_iff_ne, beq_eq_false_iff_ne, ← not_and_or]
      rintro ⟨rfl, rfl⟩
      exact kept nothing
    rw [builds, List.countP_cons_of_neg (by simp [other])]
  | aborts b' _ _ _ builds | completes b' _ _ _ _ _ _ _ builds =>
    rw [builds]
    exact (List.sublist_cons_self _ _).countP_le
  | calm _ _ _ builds | makes _ _ _ _ _ _ _ builds | linesUp _ _ _ _ _ _ builds | skips _ _ _ _ _ builds
  | terminates _ _ _ _ _ _ _ _ _ builds | finalizes _ _ _ _ _ builds | passes _ _ _ _ _ builds => rw [builds]

end Task.Does

namespace System

variable {p : Program} {s s' : System} {b : Build} {c : ContainerId} {key : Key} {v : Instance}

theorem total_settled {f : Task → Nat} (none : ∀ ts, f (.ofTeardowns ts) = 0) (w : World) (ts : List Task) :
    total f (settledTasks w ts) = total f ts := by
  refine total_append_of_none (fun t ht => ?_) ts
  obtain ⟨us, _, rfl⟩ := List.mem_map.1 ht
  exact none us

theorem total_started {f : Task → Nat} (none : ∀ s o, f (.ofOp s o) = 0) {st : Step} (opens : st.Open)
    (ts : List Task) : total f (ts ++ st.started) = total f ts := by
  refine total_append_of_none (fun t ht => ?_) ts
  obtain ⟨s, o, rfl, -⟩ := opens.started t ht
  exact none s o

theorem Change.locked (h : Change p s s') {u : Task} (hu : u ∈ s'.tasks) (hb : b ∈ u.locked) :
    (∃ t ∈ s.tasks, b ∈ t.locked) ∨ b.FoundIn s.world := by
  rcases h.mem_tasks hu with hu | ⟨i, t, st, -, found, does, rfl⟩ | ⟨_, _, rfl⟩ | ⟨_, rfl⟩
  · exact .inl ⟨u, hu, hb⟩
  · exact (does.locked hb).imp (fun hb => ⟨t, List.mem_of_getElem? found, hb⟩) id
  · cases hb
  · cases hb

theorem total_building_step {i : Nat} {t : Task} {st : Step} (found : s.tasks[i]? = some t) (opens : st.Open)
    (c : ContainerId) (key : Key) : total (Task.building c key) (settledTasks st.world (s.tasks.set i st.task ++ st.started)) +
      Task.building c key t = total (Task.building c key) s.tasks + Task.building c key st.task := by
  rw [total_settled (fun _ => rfl), total_started (fun _ _ => rfl) opens]
  exact total_set _ found _

/-- No build of a key is started that has an instance. -/
theorem Change.building_le (h : Change p s s') (kept : (s.world.container c).cache.get? key ≠ none) :
    total (Task.building c key) s'.tasks ≤ total (Task.building c key) s.tasks := by
  cases h with
  | step i t st running found does turn opens world tasks =>
    have sum := total_building_step found opens c key
    have := does.building_le kept
    rw [tasks]
    omega
  | halts _ _ tasks => rw [tasks]
  | outside _ w _ us new _ _ tasks =>
    have none : ∀ u ∈ us, Task.building c key u = 0 := by
      intro u hu
      obtain ⟨o, rfl⟩ := new u hu
      rfl
    rw [tasks, total_append_of_none none, total_settled (fun _ => rfl)]
  | renews _ _ _ tasks =>
    rw [tasks]
    exact Nat.zero_le _

/-- The build that gets what is in hand is the only one of its key, and over then. -/
theorem Change.building_eq_zero (h : Change p s s') (reached : Reachable p s) (hand : s.hand? = some (b, v)) :
    total (Task.building b.container b.key) s'.tasks = 0 := by
  cases h with
  | step i t st running found does turn opens world tasks =>
    have sum := total_building_step found opens b.container b.key
    rw [hand?, current_eq running found, Option.bind_some] at hand
    obtain ⟨-, -, -, builds, -⟩ := does.completed hand
    have one : Task.building b.container b.key t = Task.building b.container b.key st.task + 1 := by
      rw [Task.building, builds, List.countP_cons_of_pos (by simp), Task.building]
    have most := reached.exclusive b.container b.key
    rw [tasks]
    omega
  | halts halts =>
    rw [halts.hand_none] at hand
    cases hand
  | outside idle | renews idle =>
    rw [hand_of_idle idle] at hand
    cases hand

/-! ## One binding for a while -/

/-- The resolution that the running task ends with an instance. -/
def serves? (s : System) : Option (ContainerId × Key × Instance) := s.current.bind (Task.serves? s.world)

theorem shows_of_serves (h : s.serves? = some (c, key, v)) : s.Shows c key v := by
  obtain ⟨t, current, serves⟩ := Option.bind_eq_some_iff.1 h
  exact (Task.shows_of_serves serves).imp id fun ⟨b, hand, hc, hkey⟩ =>
    ⟨b, by rw [hand?, current]; exact hand, hc, hkey⟩

/-- A part of a run, from state `i` to state `j`, in which container `o` has the binding `β` for a key, and
is not terminated. No instance is pinned, and at first none is kept and nobody builds one. -/
structure Run.OneBinding (run : Run p) (o : ContainerId) (key : Key) (β : Binding) (i j : Nat) : Prop where
  bound : ∀ n, i ≤ n → n ≤ j → ((run.state n).world.container o).registry.get? key.plain = some β
  unpinned : ∀ n, i < n → n ≤ j → ((run.state n).world.container o).cache.isPinned key = false
  spared : ∀ n, i ≤ n → n < j → (run.state n).terminates ≠ some o
  nothing : ((run.state i).world.container o).cache.get? key = none
  idle : ∀ t ∈ (run.state i).tasks, ∀ b ∈ t.builds, b.container = o → b.key ≠ key

/-- Besides, who is in line at first to build the key has already found `β`. A binding is read before the
line and not again after it, so the others in line would build by an older one
(`waiter_builds_by_an_older_binding`). -/
structure Run.Stretch (run : Run p) (o : ContainerId) (key : Key) (β : Binding) (i j : Nat) : Prop
    extends run.OneBinding o key β i j where
  line : ∀ t ∈ (run.state i).tasks, ∀ b, t.line? = some b → b.container = o → b.key = key → b.binding = some β

/-- Whether an instance was built by `β` after state `i`, at the latest in the move to state `n`. -/
def Run.Built (run : Run p) (o : ContainerId) (key : Key) (β : Binding) (i n : Nat) (v : Instance) : Prop :=
  ∃ m b, i < m ∧ m ≤ n ∧ (run.state m).hand? = some (b, v) ∧ b.container = o ∧ b.key = key ∧ b.binding = some β

/-- What was built since was not there before. -/
theorem Run.Built.serial_le {run : Run p} {o : ContainerId} {β : Binding} {i n : Nat}
    (h : run.Built o key β i n v) : (run.state i).world.supply.serials ≤ v.serial := by
  obtain ⟨m, b, after, -, hand, -⟩ := h
  obtain ⟨m, rfl, fresh, -⟩ := run.made hand
  have grown := run.serials_mono (Nat.le_of_lt_succ after)
  omega

theorem Reachable.alive_of_hand (h : Reachable p s) (hand : s.hand? = some (b, v)) : s.world.Alive b.container := by
  obtain ⟨_, t, -, found, hands⟩ := exists_of_hand hand
  exact h.sound.alive t (List.mem_of_getElem? found) _ (Task.held_of_mem_builds (Task.mem_builds_of_hand hands))

theorem Run.alive_of_hand (run : Run p) {n : Nat} (hand : (run.state n).hand? = some (b, v)) :
    (run.state n).world.Alive b.container := (run.reachable n).alive_of_hand hand

namespace Run.Stretch

variable {run : Run p} {o : ContainerId} {β : Binding} {i j n : Nat}

theorem live (h : run.Stretch o key β i j) (hi : i ≤ n) (hj : n ≤ j) : ((run.state n).world.container o).live = true := by
  have bound := h.bound n hi hj
  by_contra dead
  rw [(run.reachable n).sound.ok.ended o (Bool.eq_false_iff.2 dead)] at bound
  cases bound

/-- All builds of the key are builds by `β`. -/
theorem binding (h : run.Stretch o key β i j) (hi : i ≤ n) (hj : n ≤ j) :
    ∀ t ∈ (run.state n).tasks, ∀ b ∈ t.locked, b.container = o → b.key = key → b.binding = some β := by
  induction n, hi using Nat.le_induction with
  | base =>
    intro t ht b hb hc hkey
    rcases List.mem_append.1 hb with hb | hb
    · exact h.line t ht b (Option.mem_toList.1 hb) hc hkey
    · exact absurd hkey (h.idle t ht b hb hc)
  | succ n hi ih =>
    intro u hu b hb hc hkey
    rcases (run.change n).locked hu hb with ⟨t, ht, hb⟩ | ⟨fallback, -, binding⟩
    · exact ih (Nat.le_of_succ_le hj) t ht b hb hc hkey
    · rw [binding, hc, hkey, h.bound n hi (Nat.le_of_succ_le hj), Option.some_or]

theorem built_of_hand (h : run.Stretch o key β i j) (hi : i ≤ n) (hj : n ≤ j) (hand : (run.state n).hand? = some (b, v))
    (hc : b.container = o) (hkey : b.key = key) : run.Built o key β i n v := by
  obtain ⟨_, t, -, found, hands⟩ := exists_of_hand hand
  have ht := List.mem_of_getElem? found
  have hb := Task.mem_builds_of_hand hands
  have ne : i ≠ n := by
    intro e
    exact h.idle t (e ▸ ht) b hb hc hkey
  exact ⟨n, b, Nat.lt_of_le_of_ne hi ne, Nat.le_refl _, hand, hc, hkey,
    h.binding hi hj t ht b (List.mem_append_right _ hb) hc hkey⟩

/-- What the container keeps after a move is what it kept and what was in hand. -/
theorem cache_succ (h : run.Stretch o key β i j) (hi : i ≤ n) (hj : n < j) :
    ((run.state (n + 1)).world.container o).cache.get? key =
      (((run.state n).world.given (run.state n).hand?).container o).cache.get? key := by
  have live := h.live (Nat.le_succ_of_le hi) hj
  rcases (run.change n).pinsAt live (h.spared n hi hj) key with ⟨same, -⟩ | ⟨pinned, -⟩
  · exact same
  · rw [h.unpinned (n + 1) (Nat.lt_succ_of_le hi) hj] at pinned
    cases pinned

theorem lifetime_of_hand (h : run.Stretch o key β i j) (hi : i ≤ n) (hj : n ≤ j)
    (hand : (run.state n).hand? = some (b, v)) (hc : b.container = o) (hkey : b.key = key) : b.lifetime = β.lifetime := by
  obtain ⟨_, t, -, found, hands⟩ := exists_of_hand hand
  have hb := List.mem_append_right t.line?.toList (Task.mem_builds_of_hand hands)
  rw [Build.lifetime, h.binding hi hj t (List.mem_of_getElem? found) b hb hc hkey]
  rfl

/-- A shared instance is kept once it is built. -/
theorem keeps_of_hand (h : run.Stretch o key β i j) (hi : i ≤ n) (hj : n < j) (shared : β.lifetime.cached = true)
    (hand : (run.state n).hand? = some (b, v)) (hc : b.container = o) (hkey : b.key = key) :
    (run.state (n + 1)).world.Keeps o key v := by
  have cached : b.lifetime.cached = true := by rw [h.lifetime_of_hand hi (Nat.le_of_lt hj) hand hc hkey, shared]
  have kept := World.keeps_record (run.alive_of_hand hand) cached v
  unfold World.Keeps
  rw [h.cache_succ hi hj, hand, ← hc, ← hkey]
  exact kept

/-- If nothing is in hand to be kept, what is kept stays. -/
theorem get?_succ (h : run.Stretch o key β i j) (hi : i ≤ n) (hj : n < j)
    (none : β.lifetime.cached = true → ∀ b v, (run.state n).hand? = some (b, v) → b.container = o → b.key ≠ key) :
    ((run.state (n + 1)).world.container o).cache.get? key = ((run.state n).world.container o).cache.get? key := by
  rw [h.cache_succ hi hj]
  cases hand : (run.state n).hand? with
  | none => rfl
  | some x =>
    refine World.get?_record_of_ne (run.alive_of_hand hand) x.2 fun ⟨hc, hkey, cached⟩ => ?_
    rw [h.lifetime_of_hand hi (Nat.le_of_lt hj) hand hc hkey] at cached
    exact none cached x.1 x.2 hand hc hkey

/-- An instance that is not to be shared is never kept. -/
theorem get?_eq_none (h : run.Stretch o key β i j) (alone : β.lifetime.cached = false) (hi : i ≤ n) (hj : n ≤ j) :
    ((run.state n).world.container o).cache.get? key = none := by
  induction n, hi using Nat.le_induction with
  | base => exact h.nothing
  | succ n hi ih =>
    rw [h.get?_succ hi hj fun shared => by rw [alone] at shared; cases shared]
    exact ih (Nat.le_of_succ_le hj)

theorem not_hand (nobody : total (Task.building o key) (run.state n).tasks = 0)
    (hand : (run.state n).hand? = some (b, v)) (hc : b.container = o) : b.key ≠ key := by
  intro hkey
  obtain ⟨_, t, -, found, hands⟩ := exists_of_hand hand
  have one : 0 < Task.building o key t :=
    List.countP_pos_iff.2 ⟨b, Task.mem_builds_of_hand hands, by simp [hc, hkey]⟩
  have most : Task.building o key t ≤ total _ _ := le_total (List.mem_of_getElem? found)
  omega

/-- Of an instance that is to be shared, nothing is served at first; then one is built and kept, and is
the only one that is served. -/
theorem kept (h : run.Stretch o key β i j) (shared : β.lifetime.cached = true) (hi : i ≤ n) (hj : n ≤ j) :
    (((run.state n).world.container o).cache.get? key = none ∧
      ∀ m, i ≤ m → m < n → ∀ v, (run.state m).serves? ≠ some (o, key, v)) ∨
    ∃ v, (run.state n).world.Keeps o key v ∧ total (Task.building o key) (run.state n).tasks = 0 ∧
      run.Built o key β i n v ∧ ∀ m, i ≤ m → m < n → ∀ v', (run.state m).serves? = some (o, key, v') → v' = v := by
  induction n, hi using Nat.le_induction with
  | base => exact .inl ⟨h.nothing, fun m hm hn => absurd hm (Nat.not_le.2 hn)⟩
  | succ n hi ih =>
    rcases ih (Nat.le_of_succ_le hj) with ⟨nothing, before⟩ | ⟨v, kept, nobody, ⟨m, b, built⟩, before⟩
    · by_cases hand : ∃ b v, (run.state n).hand? = some (b, v) ∧ b.container = o ∧ b.key = key
      · -- The first instance is built, and no build of the key is in progress any more.
        obtain ⟨b, v, hand, rfl, rfl⟩ := hand
        obtain ⟨m, b', after, le, built⟩ := h.built_of_hand hi (Nat.le_of_succ_le hj) hand rfl rfl
        refine .inr ⟨v, h.keeps_of_hand hi hj shared hand rfl rfl, (run.change n).building_eq_zero (run.reachable n) hand,
          ⟨m, b', after, Nat.le_succ_of_le le, built⟩, fun m hm hn v' serves => ?_⟩
        rcases Nat.lt_succ_iff_lt_or_eq.1 hn with hn | rfl
        · exact absurd serves (before m hm hn v')
        · rcases shows_of_serves serves with kept | ⟨b', hand', -, -⟩
          · exact absurd kept (by rw [World.Keeps, nothing]; intro h; cases h)
          · exact (Prod.mk.inj (Option.some.inj (hand'.symm.trans hand))).2
      · have same := h.get?_succ hi hj fun _ b v hb hc hkey => hand ⟨b, v, hb, hc, hkey⟩
        refine .inl ⟨same.trans nothing, fun m hm hn v serves => ?_⟩
        rcases Nat.lt_succ_iff_lt_or_eq.1 hn with hn | rfl
        · exact before m hm hn v serves
        · rcases shows_of_serves serves with kept | ⟨b, hb, hc, hkey⟩
          · exact absurd kept (by rw [World.Keeps, nothing]; intro h; cases h)
          · exact hand ⟨b, v, hb, hc, hkey⟩
    · -- As long as it is kept, nobody starts another build.
      have same := h.get?_succ hi hj fun _ b v hb hc => not_hand nobody hb hc
      have least : total (Task.building o key) _ ≤ total _ _ :=
        (run.change n).building_le (by rw [kept]; intro h; cases h)
      refine .inr ⟨v, same.trans kept, by omega, ⟨m, b, built.1, Nat.le_succ_of_le built.2.1, built.2.2⟩,
        fun m hm hn v' serves => ?_⟩
      rcases Nat.lt_succ_iff_lt_or_eq.1 hn with hn | rfl
      · exact before m hm hn v' serves
      · rcases shows_of_serves serves with kept' | ⟨b, hb, hc, hkey⟩
        · exact Option.some.inj (kept'.symm.trans kept)
        · exact absurd hkey (not_hand nobody hb hc)

/-- What is served in a stretch was built in it, by its binding. -/
theorem built_of_serves (h : run.Stretch o key β i j) (hi : i ≤ n) (hj : n ≤ j)
    (serves : (run.state n).serves? = some (o, key, v)) : run.Built o key β i n v := by
  rcases shows_of_serves serves with kept | ⟨b, hand, hc, hkey⟩
  · cases shared : β.lifetime.cached with
    | true =>
      rcases h.kept shared hi hj with ⟨nothing, -⟩ | ⟨v', kept', -, built, -⟩
      · rw [World.Keeps, nothing] at kept
        cases kept
      · exact Option.some.inj (kept'.symm.trans kept) ▸ built
    | false =>
      rw [World.Keeps, h.get?_eq_none shared hi hj] at kept
      cases kept
  · exact h.built_of_hand hi hj hand hc hkey

/-- What is not to be shared is built for the resolution that it is served to, and was not there before. -/
theorem serial_lt (h : run.Stretch o key β i j) (alone : β.lifetime.cached = false) {m : Nat} {v' : Instance}
    (hi : i ≤ n) (before : n < m) (hj : m ≤ j) (serves : (run.state n).serves? = some (o, key, v))
    (serves' : (run.state m).serves? = some (o, key, v')) : v.serial < v'.serial := by
  have inHand : ∀ {k u}, i ≤ k → k ≤ j → (run.state k).serves? = some (o, key, u) →
      ∃ b, (run.state k).hand? = some (b, u) := by
    intro k u hi hj serves
    rcases shows_of_serves serves with kept | ⟨b, hand, -, -⟩
    · rw [World.Keeps, h.get?_eq_none alone hi hj] at kept
      cases kept
    · exact ⟨b, hand⟩
  obtain ⟨b, hand⟩ := inHand hi (by omega) serves
  obtain ⟨b', hand'⟩ := inHand (by omega) hj serves'
  exact run.serial_lt_of_hand before hand hand'

end Run.Stretch

/-- As long as a container has one binding for a key, and nobody waits to build it by an older one, it serves
one instance if that is to be shared, and else a new one every time. No instance is ever served for two keys
or by two containers. -/
theorem Run.shares (run : Run p) :
    (∀ {o key β i j}, run.Stretch o key β i j → ∀ {n v}, i ≤ n → n < j →
      (run.state n).serves? = some (o, key, v) →
        run.Built o key β i n v ∧ (run.state i).world.supply.serials ≤ v.serial ∧
        ∀ {m v'}, i ≤ m → m < j → (run.state m).serves? = some (o, key, v') →
          if β.lifetime.cached then v = v' else n ≠ m → v.serial ≠ v'.serial) ∧
    ∀ {n m c key v c' key' v'}, (run.state n).serves? = some (c, key, v) →
      (run.state m).serves? = some (c', key', v') → v.serial = v'.serial → c = c' ∧ key = key' := by
  constructor
  · intro o key β i j h n v hi hj serves
    have built := h.built_of_serves hi (Nat.le_of_lt hj) serves
    refine ⟨built, built.serial_le, ?_⟩
    intro m v' hi' hj' serves'
    cases shared : β.lifetime.cached with
    | true =>
      rcases h.kept shared (by omega) (Nat.le_refl j) with ⟨-, none⟩ | ⟨w, -, -, -, all⟩
      · exact absurd serves (none n hi hj v)
      · exact (all n hi hj v serves).trans (all m hi' hj' v' serves').symm
    | false =>
      intro ne
      rcases Nat.lt_or_gt_of_ne ne with lt | lt
      · exact Nat.ne_of_lt (h.serial_lt shared hi lt (Nat.le_of_lt hj') serves serves')
      · exact Ne.symm (Nat.ne_of_lt (h.serial_lt shared hi' lt (Nat.le_of_lt hj) serves' serves))
  · intro n m c key v c' key' v' serves serves'
    exact run.apart (shows_of_serves serves) (shows_of_serves serves')

/-- A shared `A` is asked of the root, and then of a scope. -/
def sharedRun : Run {} :=
  .ofOps {} "root" [
    .on "root" (.register (some (.type (.declared "A"))) (.function "plain" true) .singleton none),
    .on "root" (.openScope "scope"),
    .lasting ⟨"", "root", false⟩ (.get none (.type (.declared "A")) false none),
    .lasting ⟨"", "scope", false⟩ (.get none (.type (.declared "A")) false none)]

theorem stretch_sharedRun : sharedRun.Stretch 0 (.type (.declared "A"))
    ((Source.function "plain" true).binding {} .singleton none) 9 24 where
  bound n hi hj := by interval_cases n <;> rfl
  unpinned n hi hj := by interval_cases n <;> rfl
  spared n hi hj := by interval_cases n <;> decide +kernel
  nothing := rfl
  idle := by
    have idle : ∀ t ∈ (sharedRun.state 9).tasks, t.builds.isEmpty = true := by decide +kernel
    intro t ht b hb
    rw [List.isEmpty_iff.1 (idle t ht)] at hb
    cases hb
  line := by
    have idle : ∀ t ∈ (sharedRun.state 9).tasks, t.line?.isNone = true := by decide +kernel
    intro t ht b hb
    rw [Option.isNone_iff_eq_none.1 (idle t ht)] at hb
    cases hb

/-- Both get the one that the root built. -/
theorem scope_shares_with_the_root : ∃ β v v', sharedRun.Stretch 0 (.type (.declared "A")) β 9 24 ∧
    (sharedRun.state 17).serves? = some (0, .type (.declared "A"), v) ∧
    (sharedRun.state 23).serves? = some (0, .type (.declared "A"), v') ∧
    sharedRun.Built 0 (.type (.declared "A")) β 9 17 v ∧ v = v' := by
  have first : (sharedRun.state 17).serves? = some (0, .type (.declared "A"), ⟨0, .text "S#1"⟩) := by rfl
  have second : (sharedRun.state 23).serves? = some (0, .type (.declared "A"), ⟨0, .text "S#1"⟩) := by rfl
  obtain ⟨built, -, shared⟩ := sharedRun.shares.1 stretch_sharedRun (by omega) (by omega) first
  exact ⟨_, _, _, stretch_sharedRun, first, second, built, shared (by omega) (by omega) second⟩

/-! ## A waiter with an older binding -/

/-- Two constructors of an `A`, one of which is suspended once, and fails the first time. -/
def reluctant : Program where
  functions := (Table.empty.insert "flaky"
      { name := "flaky", product := .object "A", body := .awaited 1 [], error := some ("not yet", []), failures := some 1 }).insert
    "plain" { name := "plain", product := .object "A" }

/-- Two tasks ask for an `A` that is not to be shared, and while the first of them builds it and the second
waits, a third registers a shared one. Then the `A` is asked for twice. -/
def reluctantRun : Run reluctant :=
  .ofOps reluctant "root" [
    .on "root" (.register none (.function "flaky" true) .transient none),
    .lasting ⟨"", "root", false⟩ (.join [
      .lasting ⟨"", "root", false⟩ (.get none (.type (.declared "A")) false none),
      .lasting ⟨"", "root", false⟩ (.get none (.type (.declared "A")) false none),
      .on "root" (.register none (.function "plain" true) .singleton none)]),
    .lasting ⟨"", "root", false⟩ (.get none (.type (.declared "A")) false none),
    .lasting ⟨"", "root", false⟩ (.get none (.type (.declared "A")) false none)]

theorem oneBinding_reluctantRun : reluctantRun.OneBinding 0 (.type (.declared "A"))
    ((Source.function "plain" true).binding reluctant .singleton none) 24 50 where
  bound n hi hj := by interval_cases n <;> rfl
  unpinned n hi hj := by
    have unpinned : ∀ n < 51, ((reluctantRun.state n).world.container 0).cache.isPinned (.type (.declared "A")) = false := by
      decide +kernel
    exact unpinned n (by omega)
  spared n hi hj := by
    have spared : ∀ n < 51, (reluctantRun.state n).terminates ≠ some 0 := by decide +kernel
    exact spared n (by omega)
  nothing := rfl
  idle := by
    have idle : ∀ t ∈ (reluctantRun.state 24).tasks, t.builds.isEmpty = true := by decide +kernel
    intro t ht b hb
    rw [List.isEmpty_iff.1 (idle t ht)] at hb
    cases hb

/-- The first build has failed, the `A` is to be shared by now, and nobody builds one. Yet the second task gets
an `A` of its own, by the binding it had found, and the next one another. -/
theorem waiter_builds_by_an_older_binding : ∃ β v v', reluctantRun.OneBinding 0 (.type (.declared "A")) β 24 50 ∧
    β.lifetime.cached = true ∧ (reluctantRun.state 32).serves? = some (0, .type (.declared "A"), v) ∧
    (reluctantRun.state 47).serves? = some (0, .type (.declared "A"), v') ∧ v.serial ≠ v'.serial :=
  ⟨_, ⟨0, .object "A" 1⟩, ⟨1, .object "A" 2⟩, oneBinding_reluctantRun, rfl, by rfl, by rfl, by decide⟩

end System

end Injector
