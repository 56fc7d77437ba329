import Injector.Proofs.Aliases
import Injector.Proofs.Once
/-!
# Instances put by hand

What a container was given by hand it serves from then on, without building the key, and it
keeps it when it is terminated. Only the end of a build of the key takes it away: one that is to
be shared and was in progress already when the instance was put (`Run.stays_iff`). In
`pin_gives_way` such a build is the one whose constructor puts the instance.
-/
namespace Injector

namespace World

variable {p : Program} {held : List ContainerId} {w w' : World} {b : Build} {c : ContainerId} {key : Key} {v : Instance}

/-- Whether a container keeps an instance that was put there by hand. -/
structure Pinned (w : World) (c : ContainerId) (key : Key) (v : Instance) : Prop where
  kept : w.Keeps c key v
  pinned : (w.container c).cache.isPinned key = true

/-- Whether an instance has been put by hand under a key since `w`, and is still kept. -/
def Repins (w w' : World) (c : ContainerId) (key : Key) : Prop :=
  ∃ v, w'.Pinned c key v ∧ w.supply.serials ≤ v.serial

/-- Who puts an instance by hand has a new one kept. -/
theorem repins_instant (alive : w.Alive c) (target : String) (key : Key) (value : Literal) :
    w.Repins (w.instant p c target (.pin (some key) value)).2 c key := by
  have cache : ((w.instant p c target (.pin (some key) value)).2.container c).cache =
      (w.container c).cache.pin key (value.makeOwn w.saved w.supply).1 :=
    congrArg Container.cache (alive.container_modify (w := (w.supplied (value.makeOwn w.saved)).2) _)
  refine ⟨(value.makeOwn w.saved w.supply).1, ⟨?_, ?_⟩, (Literal.serial_makeOwn w.saved value w.supply).1⟩
  · rw [Keeps, cache, Cache.get?_pin, if_pos rfl]
  · rw [cache, Cache.isPinned_pin, decide_eq_true rfl, Bool.true_or]

theorem Pinned.of_eq (h : w.Pinned c key v) (get : (w'.container c).cache.get? key = (w.container c).cache.get? key)
    (pin : (w'.container c).cache.isPinned key = (w.container c).cache.isPinned key) : w'.Pinned c key v :=
  ⟨get.trans h.kept, pin.trans h.pinned⟩

/-- What edits leave of an instance put by hand is that, or a newer one. -/
theorem Pinned.pinsAt (h : w.Pinned c key v) (edited : PinsAt w w' c key) : w'.Pinned c key v ∨ w.Repins w' c key := by
  rcases edited with ⟨get, pin⟩ | ⟨pinned, v', kept, fresh⟩
  · exact .inl (h.of_eq get pin)
  · exact .inr ⟨v', ⟨kept, pinned⟩, fresh⟩

/-- Commands that come after leave it, or put something newer. -/
theorem Repins.edits (h : w.Repins w' c key) {w'' : World} (edits : w'.Edits p held w'')
    (live : (w''.container c).live = true) (grows : w.supply.serials ≤ w'.supply.serials) : w.Repins w'' c key := by
  obtain ⟨v, pinned, fresh⟩ := h
  rcases pinned.pinsAt ((edits.editedAt_of_live live).cache key) with pinned | ⟨v', pinned, fresh'⟩
  · exact ⟨v, pinned, fresh⟩
  · exact ⟨v', pinned, Nat.le_trans grows fresh'⟩

/-- The end of a container's builds leaves it what was put by hand. -/
theorem Pinned.terminate (h : w.Pinned c key v) (alive : w.Alive c) : (w.terminate c).2.Pinned c key v := by
  refine ⟨?_, ?_⟩
  · rw [Keeps, cache_terminate alive, Cache.get?_clearBuilt, if_pos h.pinned]
    exact h.kept
  · rw [cache_terminate alive, Cache.isPinned_clearBuilt]
    exact h.pinned

theorem Pinned.record (h : w.Pinned c key v) (alive : w.Alive b.container) (v' : Instance)
    (other : ¬ (b.container = c ∧ b.key = key ∧ b.lifetime.cached = true)) : (w.record b v').Pinned c key v :=
  h.of_eq (get?_record_of_ne alive v' other) (isPinned_record_of_ne alive v' other)

end World

/-! ## Steps and moves -/

/-- What was put by hand stays in a step, once what is in hand is recorded, unless something newer is put. -/
theorem Task.Does.pinned {p : Program} {held : List ContainerId} {w : World} {t : Task} {st : Step} {c : ContainerId}
    {key : Key} {v : Instance} (h : t.Does p held w st) (live : (st.world.container c).live = true)
    (pinned : (w.given t.hand?).Pinned c key v) : st.world.Pinned c key v ∨ w.Repins st.world c key := by
  by_cases ends : t.terminates w = some c
  · obtain ⟨hand, w₁, edits, alive, world⟩ := h.of_terminates ends
    rw [hand] at pinned
    have edited := (edits.editedAt_of_live alive.2).cache key
    rw [world]
    rcases World.Pinned.pinsAt pinned edited with pinned | ⟨v', pinned, fresh⟩
    · exact .inl (pinned.terminate alive)
    · exact .inr ⟨v', pinned.terminate alive, fresh⟩
  · rcases pinned.pinsAt (h.pinsAt live ends key) with pinned | ⟨v', pinned, fresh⟩
    · exact .inl pinned
    · exact .inr ⟨v', pinned, World.serials_given w t.hand? ▸ fresh⟩

/-- No build of a key is started that has an instance. -/
theorem Task.Does.mem_builds {p : Program} {held : List ContainerId} {w : World} {t : Task} {st : Step} {b : Build}
    (h : t.Does p held w st) (kept : (w.container b.container).cache.get? b.key ≠ none) (hb : b ∈ st.task.builds) :
    b ∈ t.builds := by
  cases h with
  | begins b' _ _ _ nothing _ builds =>
    rw [builds] at hb
    rcases List.mem_cons.1 hb with rfl | hb
    · exact absurd nothing kept
    · exact hb
  | aborts b' _ _ _ builds | completes b' _ _ _ _ _ _ _ builds =>
    rw [builds]
    exact List.mem_cons_of_mem _ hb
  | calm _ _ _ builds | makes _ _ _ _ _ _ _ builds | linesUp _ _ _ _ _ _ builds | skips _ _ _ _ _ builds
  | terminates _ _ _ _ _ _ _ _ _ builds | finalizes _ _ _ _ _ builds | passes _ _ _ _ _ builds => exact builds ▸ hb

namespace System

variable {p : Program} {s s' : System} {b : Build} {c : ContainerId} {key : Key} {v : Instance}

/-- Whether a task has a build in progress. -/
def Under (s : System) (b : Build) : Prop := ∃ t ∈ s.tasks, b ∈ t.builds

theorem Change.pinned (h : Change p s s') (live : (s'.world.container c).live = true)
    (pinned : (s.world.given s.hand?).Pinned c key v) : s'.world.Pinned c key v ∨ s.world.Repins s'.world c key := by
  cases h with
  | step i t st running found does turn opens world tasks =>
    have same := container_settled_of_live (world ▸ live)
    rw [world, same] at live
    rw [hand?, current_eq running found, Option.bind_some] at pinned
    rcases does.pinned live pinned with pinned | ⟨v', pinned, fresh⟩
    · exact .inl (pinned.of_eq (by rw [world, same]) (by rw [world, same]))
    · exact .inr ⟨v', pinned.of_eq (by rw [world, same]) (by rw [world, same]), fresh⟩
  | halts halts world =>
    rw [halts.hand_none] at pinned
    exact .inl (world ▸ pinned)
  | outside idle w edits us new containers world =>
    have same := container_settled_of_live (world ▸ live)
    have same' : s'.world.container c = s.world.container c := by
      rw [world, same, World.container, containers]
      rfl
    rw [hand_of_idle idle] at pinned
    exact .inl (World.Pinned.of_eq pinned (by rw [same']; rfl) (by rw [same']; rfl))
  | renews idle _ world =>
    rw [hand_of_idle idle] at pinned
    exact .inl (World.Pinned.of_eq pinned (by rw [world]; rfl) (by rw [world]; rfl))

/-- No build of a key is started that has an instance. -/
theorem Change.under (h : Change p s s') (kept : (s.world.container b.container).cache.get? b.key ≠ none)
    (under : s'.Under b) : s.Under b := by
  obtain ⟨u, hu, hb⟩ := under
  rcases h.mem_tasks hu with hu | ⟨i, t, st, -, found, does, rfl⟩ | ⟨_, _, rfl⟩ | ⟨_, rfl⟩
  · exact ⟨u, hu, hb⟩
  · exact ⟨t, List.mem_of_getElem? found, does.mem_builds kept hb⟩
  · cases hb
  · cases hb

/-! ## Runs -/

/-- A stretch of a run, from state `i` to state `j`, at whose start a container keeps an instance that was
put by hand, under a key that is no name. The container stays open, and no other instance is put. -/
structure Run.Pinned (run : Run p) (c : ContainerId) (key : Key) (v : Instance) (i j : Nat) : Prop where
  unnamed : key.isName = false
  pinned : (run.state i).world.Pinned c key v
  live : ∀ n, i < n → n ≤ j → ((run.state n).world.container c).live = true
  alone : ∀ n, i ≤ n → n < j → ¬ (run.state n).world.Repins (run.state (n + 1)).world c key

/-- Whether an instance stays the one of a key from state `i` to state `j`: it is kept, also by a container
that is terminated, who asks for the key gets it at once, who is in line gets it in turn, and no build of the
key is started. -/
structure Run.Stays (run : Run p) (c : ContainerId) (key : Key) (v : Instance) (i j : Nat) : Prop where
  kept : ∀ {n}, i ≤ n → n ≤ j → (run.state n).world.Keeps c key v
  asked : ∀ {n k r} {below : Stack .answer}, i ≤ n → n ≤ j → (run.state n).running = some k →
    (run.state n).tasks[k]? = some ⟨.answer, .resolve r, below⟩ → r.container = c → r.key = key →
    (run.state (n + 1)).tasks[k]? = some ⟨.answer, .give (k := .answer) (.ok v), below⟩
  lined : ∀ {n k b} {below : Stack .answer}, i ≤ n → n ≤ j → (run.state n).running = some k →
    (run.state n).tasks[k]? = some ⟨.answer, .line b, below⟩ → (run.state n).ready k = true → b.container = c →
    b.key = key → (run.state (n + 1)).tasks[k]? = some ⟨.answer, .give (k := .answer) (.ok v), below⟩
  unbuilt : ∀ {n b}, i ≤ n → n ≤ j → b.container = c → b.key = key → (run.state n).Under b → (run.state i).Under b
  served : ∀ {n v'}, i ≤ n → n ≤ j → (run.state n).serves? = some (c, key, v') →
    v' = v ∨ ∃ b, (run.state n).hand? = some (b, v') ∧ (run.state i).Under b

theorem under_of_hand (hand : s.hand? = some (b, v)) : s.Under b := by
  obtain ⟨_, t, -, found, hands⟩ := exists_of_hand hand
  exact ⟨t, List.mem_of_getElem? found, Task.mem_builds_of_hand hands⟩

theorem spared_of_hand (hand : s.hand? = some (b, v)) (c : ContainerId) : s.terminates ≠ some c := by
  obtain ⟨t, current, hands⟩ := Option.bind_eq_some_iff.1 hand
  obtain ⟨below, rfl⟩ := Task.of_hand hands
  rw [terminates, current]
  intro ends; cases ends

namespace Run.Pinned

variable {run : Run p} {i j n : Nat}

/-- As long as no build that is to be shared ends that was in progress before, what was put by hand stays, and
all builds of the key were in progress before. -/
theorem stays (h : run.Pinned c key v i j)
    (ends : ∀ b, (run.state i).Under b → b.container = c → b.key = key → b.lifetime.cached = true →
      ∀ n v', i ≤ n → n < j → (run.state n).hand? ≠ some (b, v')) (hi : i ≤ n) (hj : n ≤ j) :
    (run.state n).world.Pinned c key v ∧
      ∀ b, b.container = c → b.key = key → (run.state n).Under b → (run.state i).Under b := by
  induction n, hi using Nat.le_induction with
  | base => exact ⟨h.pinned, fun b _ _ under => under⟩
  | succ n hi ih =>
    obtain ⟨pinned, before⟩ := ih (Nat.le_of_succ_le hj)
    have given : ((run.state n).world.given (run.state n).hand?).Pinned c key v := by
      cases hand : (run.state n).hand? with
      | none => exact pinned
      | some x =>
        refine pinned.record (run.alive_of_hand hand) x.2 ?_
        rintro ⟨hc, hkey, shared⟩
        exact ends x.1 (before x.1 hc hkey (under_of_hand hand)) hc hkey shared n x.2 hi hj hand
    refine ⟨((run.change n).pinned (h.live (n + 1) (Nat.lt_succ_of_le hi) hj) given).resolve_right (h.alone n hi hj), ?_⟩
    rintro b rfl rfl under
    exact before b rfl rfl ((run.change n).under (by rw [pinned.kept]; exact Option.some_ne_none v) under)

/-- A build that is to be shared takes away what was put by hand. -/
theorem not_hand (h : run.Pinned c key v i j) (hi : i ≤ n) (hj : n < j) (kept : (run.state n).world.Keeps c key v)
    (kept' : (run.state (n + 1)).world.Keeps c key v) {v' : Instance} (hc : b.container = c) (hkey : b.key = key)
    (shared : b.lifetime.cached = true) : (run.state n).hand? ≠ some (b, v') := by
  intro hand
  obtain ⟨rfl, rfl⟩ := And.intro hc hkey
  have newer := run.lt_of_hand hand kept
  have live := h.live (n + 1) (Nat.lt_succ_of_le hi) hj
  have edited := (run.change n).pinsAt live (spared_of_hand hand b.container) b.key
  rw [hand] at edited
  rcases edited with ⟨same, -⟩ | ⟨pinned, v'', put, fresh⟩
  · have built : (run.state (n + 1)).world.Keeps b.container b.key v' :=
      same.trans (World.keeps_record (run.alive_of_hand hand) shared v')
    obtain rfl : v = v' := Option.some.inj (kept'.symm.trans built)
    exact Nat.lt_irrefl _ newer
  · exact h.alone n hi hj ⟨v'', ⟨put, pinned⟩, World.serials_given _ _ ▸ fresh⟩

end Run.Pinned

/-- A key that is no alias is looked up by the container itself, if it keeps an instance. -/
theorem locate_of_stands {w : World} (stands : w.unalias (w.chain c) key = key) (kept : w.Keeps c key v) :
    w.locate c key = .cached c key v := by
  apply World.locate_of_serves stands
  unfold World.serves
  rw [kept]

theorem locate_of_keeps {w : World} (unnamed : key.isName = false) (kept : w.Keeps c key v) :
    w.locate c key = .cached c key v := locate_of_stands (w.unalias_of_not_name _ unnamed) kept

theorem Run.asked (run : Run p) {n k : Nat} {r : Request} {below : Stack .answer} (running : (run.state n).running = some k)
    (found : (run.state n).tasks[k]? = some ⟨.answer, .resolve r, below⟩)
    (located : (run.state n).world.locate r.container r.key = .cached c key v) :
    (run.state (n + 1)).tasks[k]? = some ⟨.answer, .give (k := .answer) (.ok v), below⟩ := by
  have step : Step.resolve (run.state n).world r below = .serve (run.state n).world v below := by
    unfold Step.resolve
    rw [located]
  rw [run.state_succ running found]
  exact (get?_put found _).trans (congrArg (fun st : Step => some st.task) step)

/-- What is put by hand stays, also when the container is terminated, and no build of the key is started,
exactly if no build of the key that is to be shared, and was in progress before, ends with an instance. -/
theorem Run.stays_iff (run : Run p) :
    (∀ {w w' : World} {held c key}, w.Alive c → ∀ target value,
      (w.instant p c target (.pin (some key) value)).2.Edits p held w' → (w'.container c).live = true →
        w.Repins w' c key) ∧
    ∀ {c key v i j}, run.Pinned c key v i j →
      (run.Stays c key v i j ↔ ∀ b, (run.state i).Under b → b.container = c → b.key = key → b.lifetime.cached = true →
        ∀ n v', i ≤ n → n < j → (run.state n).hand? ≠ some (b, v')) := by
  constructor
  · intro w w' held c key alive target value edits live
    have put : w.Edits p held (w.instant p c target (.pin (some key) value)).2 := World.instant_edits alive target _
    exact (World.repins_instant alive target key value).edits edits live put.serials
  intro c key v i j h
  constructor
  · intro stays b _ hc hkey shared n v' hi hj
    exact h.not_hand hi hj (stays.kept hi (Nat.le_of_lt hj)) (stays.kept (Nat.le_succ_of_le hi) hj) hc hkey shared
  · intro ends
    have kept : ∀ {n}, i ≤ n → n ≤ j → (run.state n).world.Keeps c key v := fun hi hj => (h.stays ends hi hj).1.kept
    refine ⟨kept, ?_, ?_, fun hi hj hc hkey under => (h.stays ends hi hj).2 _ hc hkey under, ?_⟩
    · rintro n k r below hi hj running found rfl rfl
      exact run.asked running found (locate_of_keeps h.unnamed (kept hi hj))
    · rintro n k b below hi hj running found ready rfl rfl
      obtain ⟨u, found', turn⟩ := run.turn running found ready
      rw [kept hi hj] at turn
      exact turn ▸ found'
    · intro n v' hi hj serves
      rcases shows_of_serves serves with kept' | ⟨b, hand, hc, hkey⟩
      · exact .inl (Option.some.inj (kept'.symm.trans (kept hi hj)))
      · exact .inr ⟨b, hand, (h.stays ends hi hj).2 b hc hkey (under_of_hand hand)⟩

/-! ## A constructor that puts its own key -/

/-- A constructor of an `A` that puts another `A` by hand. -/
def putting : Program where
  functions := Table.empty.insert "own"
    { name := "own", product := .object "A", params := [.one .container]
      body := .blocking [.mk ⟨"", "$", false⟩ (.pin none (.object "A"))] }

/-- An `A` is asked of the root three times, which is terminated before the last time. -/
def puttingRun (l : Lifetime) : Run putting :=
  .ofOps putting "root" [
    .on "root" (.register none (.function "own" true) l none),
    .lasting ⟨"", "root", false⟩ (.get none (.type (.declared "A")) false none),
    .lasting ⟨"", "root", false⟩ (.get none (.type (.declared "A")) false none),
    .lasting ⟨"", "root", false⟩ .terminate,
    .lasting ⟨"", "root", false⟩ (.get none (.type (.declared "A")) false none)]

/-- Whether the root is open, and keeps no `A` under its type that was made after state `n`. -/
def puttingRun.quiet (l : Lifetime) (n : Nat) : Bool :=
  (((puttingRun l).state (n + 1)).world.container 0).live &&
    ((((puttingRun l).state (n + 1)).world.container 0).cache.get? (.type (.declared "A"))).all
      (·.serial < ((puttingRun l).state n).world.supply.serials)

theorem pinned_puttingRun (l : Lifetime) (quiet : ∀ n < 38, 14 ≤ n → puttingRun.quiet l n = true) {v : Instance}
    (start : ((puttingRun l).state 14).world.Pinned 0 (.type (.declared "A")) v) :
    (puttingRun l).Pinned 0 (.type (.declared "A")) v 14 38 where
  unnamed := rfl
  pinned := start
  live n hi hj := by
    obtain ⟨n, rfl⟩ : ∃ m, n = m + 1 := ⟨n - 1, by omega⟩
    exact (Bool.and_eq_true_iff.1 (quiet n (by omega) (by omega))).1
  alone n hi hj := by
    rintro ⟨v', ⟨kept, -⟩, fresh⟩
    have old := (Bool.and_eq_true_iff.1 (quiet n hj hi)).2
    rw [kept] at old
    exact absurd fresh (Nat.not_le.2 (of_decide_eq_true old))

/-- If a new `A` is built every time, the one that was put is all that is served from then on. -/
theorem pin_outlasts_the_build : ∃ v b v' below, (puttingRun .transient).Pinned 0 (.type (.declared "A")) v 14 38 ∧
    ((puttingRun .transient).state 14).hand? = some (b, v') ∧ b.container = 0 ∧ b.key = .type (.declared "A") ∧
    ((puttingRun .transient).state 25).terminates = some 0 ∧
    ((puttingRun .transient).state 38).world.Keeps 0 (.type (.declared "A")) v ∧
    ((puttingRun .transient).state 33).tasks[4]? = some ⟨.answer, .give (k := .answer) (.ok v), below⟩ := by
  have hand : (((puttingRun .transient).state 14).hand?).any (fun x => x.1.container == 0 &&
      x.1.key == .type (.declared "A")) = true := by decide +kernel
  obtain ⟨⟨b, v'⟩, hand, own⟩ := (Option.any_eq_true _ _).1 hand
  simp only [Bool.and_eq_true, beq_iff_eq] at own
  have pinned := pinned_puttingRun .transient (by decide +kernel) ⟨rfl, rfl⟩
  have alone : ∀ t ∈ ((puttingRun .transient).state 14).tasks, ∀ b ∈ t.builds, b.lifetime.cached = false := by
    decide +kernel
  have stays := ((puttingRun .transient).stays_iff.2 pinned).2 fun b ⟨t, ht, hb⟩ _ _ shared => by
    rw [alone t ht b hb] at shared
    cases shared
  exact ⟨_, b, v', _, pinned, hand, own.1, own.2, by decide +kernel, stays.kept (by omega) (by omega),
    stays.asked (n := 32) (by omega) (by omega) rfl rfl rfl rfl⟩

/-- If one `A` is to be shared, the build whose constructor puts another takes that away. Who asks next gets the
one that was built, and once the root is terminated another is built. -/
theorem pin_gives_way : ∃ v v' r below, (puttingRun .singleton).Pinned 0 (.type (.declared "A")) v 14 38 ∧
    ((puttingRun .singleton).state 20).tasks[2]? = some ⟨.answer, .resolve r, below⟩ ∧
    r.container = 0 ∧ r.key = .type (.declared "A") ∧
    ((puttingRun .singleton).state 21).tasks[2]? = some ⟨.answer, .give (k := .answer) (.ok v'), below⟩ ∧
    v'.serial ≠ v.serial ∧ ((puttingRun .singleton).state 25).terminates = some 0 ∧
    (∀ b, ¬ ((puttingRun .singleton).state 26).Under b) ∧
    (∃ b, ((puttingRun .singleton).state 34).Under b ∧ b.container = 0 ∧ b.key = .type (.declared "A")) ∧
    ¬ (puttingRun .singleton).Stays 0 (.type (.declared "A")) v 14 38 := by
  have pinned := pinned_puttingRun .singleton (by decide +kernel) ⟨rfl, rfl⟩
  have idle : ∀ t ∈ ((puttingRun .singleton).state 26).tasks, t.builds.isEmpty = true := by decide +kernel
  have builds : ((puttingRun .singleton).state 34).tasks.any (fun t => t.builds.any fun b =>
      b.container == 0 && b.key == .type (.declared "A")) = true := by decide +kernel
  refine ⟨_, _, _, _, pinned, rfl, rfl, rfl, rfl, by decide +kernel, by decide +kernel, ?_, ?_, fun stays => ?_⟩
  · rintro b ⟨t, ht, hb⟩
    rw [List.isEmpty_iff.1 (idle t ht)] at hb
    cases hb
  · obtain ⟨t, ht, builds⟩ := List.any_eq_true.1 builds
    obtain ⟨b, hb, own⟩ := List.any_eq_true.1 builds
    exact ⟨b, ⟨t, ht, hb⟩, by simpa using own⟩
  · have kept := stays.kept (n := 26) (by omega) (by omega)
    cases kept

end System

end Injector
