import Injector.Proofs.Handover
import Injector.Proofs.Sharing
/-!
# Built once

However many tasks ask a container for a key at the same time, one of them builds it and the
others wait. While the key has a cached binding and what is built is not taken away
(`Run.Undisturbed`), one run of a constructor succeeds at most, and its instance is all that
is served (`Run.Undisturbed.single`). That is but for resolutions which had found an older
binding by then, one that is not cached (`Run.EndsOlder`): a binding is read before the lock
and not again after it, so each of them still builds an instance of its own
(`waiters_build_two`). A failed build leaves its turn to the next in line
(`Run.givesWay`). `Run.builds_once` puts this together.
-/
namespace Injector

theorem World.isPinned_record_of_ne {w : World} {b : Build} {c : ContainerId} {key : Key} (alive : w.Alive b.container)
    (v : Instance) (other : ¬ (b.container = c ∧ b.key = key ∧ b.lifetime.cached = true)) :
    ((w.record b v).container c).cache.isPinned key = (w.container c).cache.isPinned key := by
  rw [cache_record alive]
  split
  · next e =>
    rw [Cache.isPinned_markResolved]
    split
    · next shared => simp [Cache.isPinned_insert, show b.key ≠ key from fun ek => other ⟨e, ek, shared⟩]
    · rfl
  · rfl

/-- A shared instance is not pinned. -/
theorem World.isPinned_record {w : World} {b : Build} (alive : w.Alive b.container) (shared : b.lifetime.cached = true)
    (v : Instance) : ((w.record b v).container b.container).cache.isPinned b.key = false := by
  rw [cache_record alive, if_pos rfl, if_pos shared, Cache.isPinned_markResolved, Cache.isPinned_insert,
    decide_eq_true rfl]
  rfl

/-- A container that is terminated keeps what is pinned. -/
theorem World.isPinned_of_keeps_terminate {w : World} {c : ContainerId} {key : Key} (alive : w.Alive c)
    (kept : ((w.terminate c).2.container c).cache.get? key ≠ none) :
    ((w.terminate c).2.container c).cache.isPinned key = true := by
  rw [cache_terminate alive, Cache.get?_clearBuilt] at kept
  rw [cache_terminate alive, Cache.isPinned_clearBuilt]
  by_contra unpinned
  rw [if_neg unpinned] at kept
  exact kept rfl

/-- Who terminates a container has nothing in hand, and does nothing else after that. -/
theorem Task.Does.of_terminates {p : Program} {held : List ContainerId} {w : World} {t : Task} {st : Step}
    {c : ContainerId} (h : t.Does p held w st) (ends : t.terminates w = some c) :
    t.hand? = none ∧ ∃ w₁, w.Edits p held w₁ ∧ w₁.Alive c ∧ st.world = (w₁.terminate c).2 := by
  have not : t.terminates w ≠ none := by simp [ends]
  cases h with
  | terminates c' _ before ends' _ w₁ edits alive world =>
    obtain rfl := Option.some.inj (ends.symm.trans ends')
    exact ⟨before.hand, w₁, edits, alive, world⟩
  | finalizes _ _ none => exact absurd none not
  | calm _ spares | linesUp _ _ spares | aborts _ _ spares | passes _ _ spares => exact absurd spares.terminates not
  | makes _ _ _ spares | skips _ _ _ spares | begins _ _ _ spares => exact absurd spares.terminates not
  | completes _ _ _ _ spares => exact absurd spares.terminates not

/-- The build that a task is about to end without an instance. -/
def Task.fails? : Task → Option Build
  | ⟨_, .give (k := .answer) (.error _), .cons (.build b) _⟩ => some b
  | _ => none

theorem Task.of_fails {t : Task} {b : Build} (h : t.fails? = some b) : ∃ f, ∃ below : Stack .answer,
    t = ⟨.answer, .give (k := .answer) (.error f), .cons (.build b) below⟩ := by
  unfold fails? at h
  split at h
  · next f b' below =>
    obtain rfl := Option.some.inj h
    exact ⟨f, below, rfl⟩
  · cases h

namespace System

variable {p : Program} {s s' : System} {b b' : Build} {o c : ContainerId} {key : Key} {v v' : Instance}

/-- A move that terminates a container hands nothing over, and does nothing else to the container after that. -/
theorem Change.of_terminates (h : Change p s s') (ends : s.terminates = some c) :
    ∃ w ts, s.world.Edits p s.held w ∧ w.Alive c ∧ s'.world = settledWorld (w.terminate c).2 ts := by
  cases h with
  | step i t st running found does turn opens world tasks =>
    rw [terminates, current_eq running found, Option.bind_some] at ends
    obtain ⟨-, w, edits, alive, terminated⟩ := does.of_terminates ends
    exact ⟨w, _, edits, alive, terminated ▸ world⟩
  | halts halts =>
    obtain ⟨t, current, ends⟩ := Option.bind_eq_some_iff.1 ends
    obtain ⟨i, running, found⟩ := exists_of_current current
    rcases halts i t running found with ⟨r, rfl⟩ | ⟨b, below, rfl, -⟩ | ⟨ts, below, rfl⟩ <;> cases ends
  | outside idle | renews idle =>
    rw [terminates, current_of_idle idle] at ends
    cases ends

/-- A container that is terminated keeps what was pinned. -/
theorem Change.isPinned_of_terminates (h : Change p s s') (ends : s.terminates = some c)
    (live : (s'.world.container c).live = true) (kept : (s'.world.container c).cache.get? key ≠ none) :
    (s'.world.container c).cache.isPinned key = true := by
  obtain ⟨w, ts, -, alive, world⟩ := h.of_terminates ends
  have same := container_settled_of_live (world ▸ live)
  rw [world, same] at kept ⊢
  exact World.isPinned_of_keeps_terminate alive kept

/-! ## What is kept is not being built -/

/-- If a move leaves a container with an instance that is not pinned, it had it before or just got it. -/
theorem Change.get?_eq (h : Change p s s') (live : (s'.world.container c).live = true)
    (kept : (s'.world.container c).cache.get? key ≠ none) (unpinned : (s'.world.container c).cache.isPinned key = false) :
    (s'.world.container c).cache.get? key = ((s.world.given s.hand?).container c).cache.get? key ∧
      (s'.world.container c).cache.isPinned key = ((s.world.given s.hand?).container c).cache.isPinned key := by
  by_cases spared : s.terminates = some c
  · rw [h.isPinned_of_terminates spared live kept] at unpinned
    cases unpinned
  · rcases h.pinsAt live spared key with same | ⟨pinned, -⟩
    · exact same
    · rw [unpinned] at pinned
      cases pinned

theorem Change.building_of_kept (h : Change p s s') (reached : Reachable p s)
    (before : (s.world.container c).cache.get? key ≠ none → (s.world.container c).cache.isPinned key = false →
      total (Task.building c key) s.tasks = 0)
    (kept : (s'.world.container c).cache.get? key ≠ none) (unpinned : (s'.world.container c).cache.isPinned key = false)
    (live : (s'.world.container c).live = true) : total (Task.building c key) s'.tasks = 0 := by
  obtain ⟨same, samePin⟩ := h.get?_eq live kept unpinned
  -- It was kept before, or the build that got it is over.
  have old : (s.world.container c).cache.get? key ≠ none → (s.world.container c).cache.isPinned key = false →
      total (Task.building c key) s'.tasks = 0 := by
    intro kept unpinned
    have none := before kept unpinned
    have least := h.building_le kept
    omega
  cases hand : s.hand? with
  | none =>
    rw [hand] at same samePin
    exact old (same ▸ kept) (samePin ▸ unpinned)
  | some x =>
    obtain ⟨b, v⟩ := x
    have alive := reached.alive_of_hand hand
    rw [hand] at same samePin
    by_cases own : b.container = c ∧ b.key = key ∧ b.lifetime.cached = true
    · obtain ⟨rfl, rfl, -⟩ := own
      exact h.building_eq_zero reached hand
    · apply old
      · rw [← World.get?_record_of_ne alive v own]
        exact same ▸ kept
      · rw [← World.isPinned_record_of_ne alive v own]
        exact samePin ▸ unpinned

/-- A key that has an instance, which is not pinned, is not being built. -/
theorem Reachable.building_of_kept (h : Reachable p s) (kept : (s.world.container c).cache.get? key ≠ none)
    (unpinned : (s.world.container c).cache.isPinned key = false) : total (Task.building c key) s.tasks = 0 := by
  induction h with
  | start name => rfl
  | @move s s' before moves ih =>
    have live : (s'.world.container c).live = true := by
      by_contra dead
      rw [(before.move moves).sound.ok.ended c (Bool.eq_false_iff.2 dead)] at kept
      exact kept rfl
    exact (moves.change before).building_of_kept before ih kept unpinned live

theorem builds_iff : s.Builds c key ↔ total (Task.building c key) s.tasks ≠ 0 := by
  constructor
  · rintro ⟨t, ht, b, hb, rfl, rfl⟩
    have one : 0 < Task.building b.container b.key t := List.countP_pos_iff.2 ⟨b, hb, by simp⟩
    have most : Task.building b.container b.key t ≤ total _ _ := le_total ht
    omega
  · intro some
    obtain ⟨t, ht, building⟩ := exists_of_total some
    obtain ⟨b, hb, own⟩ := List.countP_pos_iff.1 (Nat.pos_of_ne_zero building)
    exact ⟨t, ht, b, hb, by simpa using own⟩

theorem builds_of_hand (hand : s.hand? = some (b, v)) : s.Builds b.container b.key := by
  obtain ⟨_, t, -, found, hands⟩ := exists_of_hand hand
  exact ⟨t, List.mem_of_getElem? found, b, Task.mem_builds_of_hand hands, rfl, rfl⟩

/-- If nobody builds a key, nothing is in hand for it. -/
theorem Run.get?_given (run : Run p) {n : Nat} (nobody : ¬ (run.state n).Builds c key) :
    (((run.state n).world.given (run.state n).hand?).container c).cache.get? key =
      ((run.state n).world.container c).cache.get? key := by
  cases hand : (run.state n).hand? with
  | none => rfl
  | some x =>
    apply World.get?_record_of_ne (run.alive_of_hand hand)
    rintro ⟨rfl, rfl, -⟩
    exact nobody (builds_of_hand hand)

/-- Nobody starts to build a key that is kept. -/
theorem Change.not_builds (h : Change p s s') (kept : s.world.Keeps c key v) (nobody : ¬ s.Builds c key) :
    ¬ s'.Builds c key := by
  rw [builds_iff, not_not] at nobody ⊢
  have least : total (Task.building c key) s'.tasks ≤ total _ _ := h.building_le (by rw [kept]; exact Option.some_ne_none v)
  omega

/-! ## A cached binding -/

/-- A part of a run, from state `i` to state `j`, in which a container has a cached binding for a key
and is not terminated. Nothing is pinned under the key, unless it was before and nobody builds the key
then. -/
structure Run.Undisturbed (run : Run p) (o : ContainerId) (key : Key) (i j : Nat) : Prop where
  cached : ∀ n, i ≤ n → n ≤ j →
    ∃ β, ((run.state n).world.container o).registry.get? key.plain = some β ∧ β.lifetime.cached = true
  pinned : ∀ n, i ≤ n → n ≤ j → ((run.state n).world.container o).cache.isPinned key = true →
    ∃ v, (run.state i).world.Keeps o key v ∧ (run.state n).world.Keeps o key v ∧ ¬ (run.state i).Builds o key
  spared : ∀ n, i ≤ n → n < j → (run.state n).terminates ≠ some o

/-- Whether a part of a run is undisturbed can be looked up, if nothing is pinned in it. -/
theorem Run.Undisturbed.of_forall {run : Run p} {i j : Nat} (h : ∀ n < j + 1, i ≤ n →
      (((run.state n).world.container o).registry.get? key.plain).any (·.lifetime.cached) = true ∧
        ((run.state n).world.container o).cache.isPinned key = false ∧ (run.state n).terminates ≠ some o) :
    run.Undisturbed o key i j where
  cached n hi hj := by
    obtain ⟨β, bound, cached⟩ := (Option.any_eq_true _ _).1 (h n (by omega) hi).1
    exact ⟨β, bound, cached⟩
  pinned n hi hj pinned := by
    rw [(h n (by omega) hi).2.1] at pinned
    cases pinned
  spared n hi hj := (h n (by omega) hi).2.2

/-- Whether the running task ends a resolution of a key with an instance that is to be shared: it is
kept, or just built by a cached binding. -/
def Shares (s : System) (o : ContainerId) (key : Key) (v : Instance) : Prop :=
  s.serves? = some (o, key, v) ∧ ∀ b, s.hand? = some (b, v) → b.lifetime.cached = true

theorem serves_of_hand (hand : s.hand? = some (b, v)) : s.serves? = some (b.container, b.key, v) := by
  obtain ⟨t, current, hand⟩ := Option.bind_eq_some_iff.1 hand
  obtain ⟨below, rfl⟩ := Task.of_hand hand
  rw [serves?, current]
  rfl

namespace Run.Undisturbed

variable {run : Run p} {i j n m : Nat}

theorem live (h : run.Undisturbed o key i j) (hi : i ≤ n) (hj : n ≤ j) : ((run.state n).world.container o).live = true := by
  obtain ⟨β, bound, -⟩ := h.cached n hi hj
  by_contra dead
  rw [(run.reachable n).sound.ok.ended o (Bool.eq_false_iff.2 dead)] at bound
  cases bound

/-- What is kept at first, when nobody builds the key, stays, and nobody does. -/
theorem keeps_start (h : run.Undisturbed o key i j) (kept : (run.state i).world.Keeps o key v)
    (nobody : ¬ (run.state i).Builds o key) (hi : i ≤ n) (hj : n ≤ j) :
    (run.state n).world.Keeps o key v ∧ ¬ (run.state n).Builds o key := by
  induction n, hi using Nat.le_induction with
  | base => exact ⟨kept, nobody⟩
  | succ n hi ih =>
    obtain ⟨before, nobody⟩ := ih (Nat.le_of_succ_le hj)
    refine ⟨?_, (run.change n).not_builds before nobody⟩
    rcases (run.change n).pinsAt (h.live (Nat.le_succ_of_le hi) hj) (h.spared n hi hj) key with ⟨same, -⟩ | ⟨pinned, -⟩
    · exact (same.trans (run.get?_given nobody)).trans before
    · obtain ⟨v', kept', after, -⟩ := h.pinned (n + 1) (Nat.le_succ_of_le hi) hj pinned
      obtain rfl : v' = v := Option.some.inj (kept'.symm.trans kept)
      exact after

/-- As long as an instance is kept, nobody builds the key. -/
theorem nobody_of_keeps (h : run.Undisturbed o key i j) (hi : i ≤ n) (hj : n ≤ j) (kept : (run.state n).world.Keeps o key v) :
    ¬ (run.state n).Builds o key := by
  cases pinned : ((run.state n).world.container o).cache.isPinned key with
  | true =>
    obtain ⟨v', before, -, nobody⟩ := h.pinned n hi hj pinned
    exact (h.keeps_start before nobody hi hj).2
  | false =>
    rw [builds_iff, not_not]
    exact (run.reachable n).building_of_kept (by rw [kept]; exact Option.some_ne_none v) pinned

/-- What the container keeps after a move is what it kept and what was in hand. -/
theorem get?_succ (h : run.Undisturbed o key i j) (hi : i ≤ n) (hj : n < j) :
    ((run.state (n + 1)).world.container o).cache.get? key =
      (((run.state n).world.given (run.state n).hand?).container o).cache.get? key := by
  rcases (run.change n).pinsAt (h.live (Nat.le_succ_of_le hi) hj) (h.spared n hi hj) key with ⟨same, -⟩ | ⟨pinned, -⟩
  · exact same
  · obtain ⟨v, before, after, nobody⟩ := h.pinned (n + 1) (Nat.le_succ_of_le hi) hj pinned
    obtain ⟨kept, nobody⟩ := h.keeps_start before nobody hi (Nat.le_of_lt hj)
    exact after.trans ((run.get?_given nobody).trans kept).symm

/-- A resolution that looks a key up in the stretch finds a cached binding. -/
theorem cached_of_locked (h : run.Undisturbed o key i j) (hi : i ≤ n) (hj : n ≤ j) :
    ∀ t ∈ (run.state n).tasks, ∀ b ∈ t.locked, b.container = o → b.key = key →
      b.lifetime.cached = true ∨ ∃ u ∈ (run.state i).tasks, b ∈ u.locked := by
  induction n, hi using Nat.le_induction with
  | base => exact fun t ht b hb _ _ => .inr ⟨t, ht, hb⟩
  | succ n hi ih =>
    intro u hu b hb hc hkey
    rcases (run.change n).locked hu hb with ⟨t, ht, hb⟩ | ⟨fallback, -, binding⟩
    · exact ih (Nat.le_of_succ_le hj) t ht b hb hc hkey
    · obtain ⟨β, bound, shared⟩ := h.cached n hi (Nat.le_of_succ_le hj)
      rw [hc, hkey, bound, Option.some_or] at binding
      exact .inl (by rw [Build.lifetime, binding]; exact shared)

/-- An instance that is shared is kept from then on. -/
theorem keeps_of_shares (h : run.Undisturbed o key i j) (hi : i ≤ n) (hj : n < j) (shares : (run.state n).Shares o key v) :
    (run.state (n + 1)).world.Keeps o key v := by
  unfold World.Keeps
  rw [h.get?_succ hi hj]
  cases hand : (run.state n).hand? with
  | none =>
    -- It was kept before.
    rcases shows_of_serves shares.1 with kept | ⟨b, hand', -, -⟩
    · exact kept
    · rw [hand] at hand'
      cases hand'
  | some x =>
    obtain ⟨b, v'⟩ := x
    have served := serves_of_hand hand
    obtain ⟨rfl, rfl, rfl⟩ : b.container = o ∧ b.key = key ∧ v' = v := by
      simpa using served.symm.trans shares.1
    exact World.keeps_record (run.alive_of_hand hand) (shares.2 b hand) v'

/-- What is kept stays. -/
theorem keeps_succ (h : run.Undisturbed o key i j) (hi : i ≤ n) (hj : n < j) (kept : (run.state n).world.Keeps o key v) :
    (run.state (n + 1)).world.Keeps o key v := by
  unfold World.Keeps
  rw [h.get?_succ hi hj, run.get?_given (h.nobody_of_keeps hi (Nat.le_of_lt hj) kept)]
  exact kept

/-- Once an instance is shared it is kept. -/
theorem keeps_after (h : run.Undisturbed o key i j) (hi : i ≤ n) (shares : (run.state n).Shares o key v) (after : n < m)
    (hj : m ≤ j) : (run.state m).world.Keeps o key v := by
  induction m, after using Nat.le_induction with
  | base => exact h.keeps_of_shares hi hj shares
  | succ m after ih => exact h.keeps_succ (by omega) hj (ih (Nat.le_of_succ_le hj))

/-- Who shares an instance of what is kept shares that. -/
theorem eq_of_keeps (h : run.Undisturbed o key i j) (hi : i ≤ n) (hj : n ≤ j) (kept : (run.state n).world.Keeps o key v)
    (shares : (run.state n).Shares o key v') : v = v' := by
  rcases shows_of_serves shares.1 with kept' | ⟨b, hand, hc, hkey⟩
  · exact Option.some.inj (kept.symm.trans kept')
  · obtain ⟨rfl, rfl⟩ := And.intro hc hkey
    exact absurd (builds_of_hand hand) (h.nobody_of_keeps hi hj kept)

/-- All that is shared is one instance. -/
theorem eq_of_shares (h : run.Undisturbed o key i j) (hi : i ≤ n) (hj : n ≤ j) (hi' : i ≤ m) (hj' : m ≤ j)
    (shares : (run.state n).Shares o key v) (shares' : (run.state m).Shares o key v') : v = v' := by
  rcases Nat.lt_trichotomy n m with lt | rfl | lt
  · exact h.eq_of_keeps hi' hj' (h.keeps_after hi shares lt hj') shares'
  · obtain ⟨-, -, rfl⟩ : o = o ∧ key = key ∧ v = v' := by simpa using shares.1.symm.trans shares'.1
    rfl
  · exact (h.eq_of_keeps hi hj (h.keeps_after hi' shares' lt hj) shares).symm

/-- A constructor whose instance is to be shared succeeds once. -/
theorem eq_of_hand (h : run.Undisturbed o key i j) (hi : i ≤ n) (hj : n ≤ j) (hi' : i ≤ m) (hj' : m ≤ j)
    (hand : (run.state n).hand? = some (b, v)) (hand' : (run.state m).hand? = some (b', v'))
    (shares : (run.state n).Shares o key v) (shares' : (run.state m).Shares o key v') : n = m := by
  have same := congrArg Shared.serial (h.eq_of_shares hi hj hi' hj' shares shares')
  rcases Nat.lt_trichotomy n m with lt | rfl | lt
  · exact absurd same (Nat.ne_of_lt (run.serial_lt_of_hand lt hand hand'))
  · rfl
  · exact absurd same.symm (Nat.ne_of_lt (run.serial_lt_of_hand lt hand' hand))

end Run.Undisturbed

/-- Whether a build ends with an instance, in state `n`, that had looked its key up by state `i` and had
found a binding then that is not cached. -/
def Run.EndsOlder (run : Run p) (i n : Nat) : Prop :=
  ∃ b v, (run.state n).hand? = some (b, v) ∧ b.lifetime.cached = false ∧ ∃ t ∈ (run.state i).tasks, b ∈ t.locked

/-- What is true of a key in an undisturbed part of a run, but for the builds that had found an older binding
by its start: one constructor succeeds at most, one instance is served, and the key is not built any more
once it is. All other builds are by a cached binding. -/
structure Run.Single (run : Run p) (o : ContainerId) (key : Key) (i j : Nat) : Prop where
  once : ∀ {n m b v b' v'}, i ≤ n → n ≤ j → i ≤ m → m ≤ j → (run.state n).hand? = some (b, v) →
    (run.state m).hand? = some (b', v') → b.container = o → b.key = key → b'.container = o → b'.key = key →
    n = m ∨ run.EndsOlder i n ∨ run.EndsOlder i m
  same : ∀ {n m v v'}, i ≤ n → n ≤ j → i ≤ m → m ≤ j → (run.state n).serves? = some (o, key, v) →
    (run.state m).serves? = some (o, key, v') → v = v' ∨ run.EndsOlder i n ∨ run.EndsOlder i m
  ended : ∀ {n m v}, i ≤ n → n < m → m ≤ j → (run.state n).serves? = some (o, key, v) →
    ((run.state m).world.Keeps o key v ∧ ¬ (run.state m).Builds o key) ∨ run.EndsOlder i n
  found : ∀ {n}, i ≤ n → n ≤ j → ∀ t ∈ (run.state n).tasks, ∀ b ∈ t.locked, b.container = o → b.key = key →
    b.lifetime.cached = true ∨ ∃ u ∈ (run.state i).tasks, b ∈ u.locked

namespace Run.Undisturbed

variable {run : Run p} {i j n m : Nat}

/-- What is served is to be shared, but for the instances of older builds. -/
theorem shares_or_endsOlder (h : run.Undisturbed o key i j) (hi : i ≤ n) (hj : n ≤ j)
    (serves : (run.state n).serves? = some (o, key, v)) : (run.state n).Shares o key v ∨ run.EndsOlder i n := by
  refine or_iff_not_imp_right.2 fun newer => ⟨serves, fun b hand => ?_⟩
  obtain ⟨_, t, -, found, hands⟩ := exists_of_hand hand
  obtain ⟨hc, hkey, -⟩ : b.container = o ∧ b.key = key ∧ v = v := by
    simpa using (serves_of_hand hand).symm.trans serves
  have hb := List.mem_append_right t.line?.toList (Task.mem_builds_of_hand hands)
  rcases h.cached_of_locked hi hj t (List.mem_of_getElem? found) b hb hc hkey with cached | older
  · exact cached
  · by_contra notCached
    exact newer ⟨b, v, hand, Bool.eq_false_iff.2 notCached, older⟩

theorem single (h : run.Undisturbed o key i j) : run.Single o key i j where
  once := by
    rintro n m b v b' v' hi hj hi' hj' hand hand' rfl rfl hc hkey
    have serves' := serves_of_hand hand'
    rw [hc, hkey] at serves'
    rcases h.shares_or_endsOlder hi hj (serves_of_hand hand) with shares | older
    · rcases h.shares_or_endsOlder hi' hj' serves' with shares' | older
      · exact .inl (h.eq_of_hand hi hj hi' hj' hand hand' shares shares')
      · exact .inr (.inr older)
    · exact .inr (.inl older)
  same := by
    intro n m v v' hi hj hi' hj' serves serves'
    rcases h.shares_or_endsOlder hi hj serves with shares | older
    · rcases h.shares_or_endsOlder hi' hj' serves' with shares' | older
      · exact .inl (h.eq_of_shares hi hj hi' hj' shares shares')
      · exact .inr (.inr older)
    · exact .inr (.inl older)
  ended := by
    intro n m v hi after hj serves
    refine (h.shares_or_endsOlder hi (by omega) serves).imp (fun shares => ?_) id
    have kept := h.keeps_after hi shares after hj
    exact ⟨kept, h.nobody_of_keeps (by omega) hj kept⟩
  found hi hj := h.cached_of_locked hi hj

end Run.Undisturbed

/-! ## The next in line -/

/-- The build that the running task ends without an instance. -/
def fails? (s : System) : Option Build := s.current.bind Task.fails?

theorem Moves.eq_run (h : s.Moves p s') {i : Nat} {t : Task} (running : s.running = some i)
    (found : s.tasks[i]? = some t) : s' = s.run p i t := by
  have busy : s.running ≠ none := by simp [running]
  cases h with
  | next next =>
    cases next with
    | resume idle => exact absurd idle busy
    | run running' found' =>
      obtain rfl := Option.some.inj (running.symm.trans running')
      obtain rfl := Option.some.inj (found.symm.trans found')
      rfl
  | begin idle | drop idle | renew idle => exact absurd idle busy

theorem Run.state_succ (run : Run p) {n i : Nat} {t : Task} (running : (run.state n).running = some i)
    (found : (run.state n).tasks[i]? = some t) : run.state (n + 1) = (run.state n).run p i t := by
  rcases run.moves n with moves | ⟨idle, -⟩
  · exact moves.eq_run running found
  · rw [running] at idle
    cases idle

/-- What becomes of a build that fails in move `n`: its key is not built any more, nothing but locks
has changed, and if somebody waits to build the key, somebody may start. -/
structure Run.GivesWay (run : Run p) (n : Nat) (b : Build) : Prop where
  ended : ¬ (run.state (n + 1)).Builds b.container b.key
  spares : ∀ c, ((run.state (n + 1)).world.container c).live = true →
    ∃ locks, (run.state (n + 1)).world.container c = { (run.state n).world.container c with locks }
  next : ∀ t ∈ (run.state (n + 1)).tasks, ∀ b', t.line? = some b' → b'.container = b.container → b'.key = b.key →
    ∃ j ∈ (run.state (n + 1)).waiting, (run.state (n + 1)).ready j = true ∧
      ∃ u b'', (run.state (n + 1)).tasks[j]? = some u ∧ u.line? = some b'' ∧ b''.container = b.container ∧
        b''.key = b.key

theorem container_leave (w : World) (b : Build) (c : ContainerId) :
    ∃ locks, (w.leave b).container c = { w.container c with locks } := by
  unfold World.leave World.modifyLocks
  rw [World.container_modify]
  split
  · exact ⟨_, rfl⟩
  · exact ⟨_, rfl⟩

theorem Run.givesWay (run : Run p) {n : Nat} (fails : (run.state n).fails? = some b) : run.GivesWay n b := by
  obtain ⟨t, current, fails⟩ := Option.bind_eq_some_iff.1 fails
  obtain ⟨i, running, found⟩ := exists_of_current current
  obtain ⟨f, below, rfl⟩ := Task.of_fails fails
  have state : run.state (n + 1) = (run.state n).put i (.fail ((run.state n).world.leave b) f below) :=
    run.state_succ running found
  have reached := run.reachable n
  have takes : (run.state n).Takes p i ⟨.answer, .give (k := .answer) (.error f), .cons (.build b) below⟩
      (.fail ((run.state n).world.leave b) f below) := by
    apply Takes.step
    rintro _ _ ⟨⟩
  obtain ⟨-, opens⟩ := takes.does_of_reachable reached found
  have ended : ¬ (run.state (n + 1)).Builds b.container b.key := by
    have sum := total_building_step found opens b.container b.key
    have most := reached.exclusive b.container b.key
    have one : Task.building b.container b.key ⟨.answer, .give (k := .answer) (.error f), .cons (.build b) below⟩ =
        Task.building b.container b.key ⟨.answer, .give (k := .answer) (.error f), below⟩ + 1 :=
      List.countP_cons_of_pos (by simp)
    rw [builds_iff, not_not, state, tasks_put]
    simp only [Step.fail, Step.next] at sum ⊢
    omega
  refine ⟨ended, fun c live => ?_, fun u hu b' line hc hkey => ?_⟩
  · rw [state] at live ⊢
    have same : ((run.state n).put i (.fail ((run.state n).world.leave b) f below)).world.container c =
        ((run.state n).world.leave b).container c := container_settled_of_live live
    obtain ⟨locks, h⟩ := container_leave (run.state n).world b c
    exact ⟨locks, same.trans h⟩
  · have reached' := run.reachable (n + 1)
    obtain ⟨j, u, b'', found', line, hc', hkey', ready⟩ := reached'.exists_ready hu line (by rw [hc, hkey]; exact ended)
    refine ⟨j, ?_, ready, u, b'', found', line, hc'.trans hc, hkey'.trans hkey⟩
    rcases reached'.scheduled.known j u found' with running' | waits | finished
    · -- The task that failed is not in line.
      have own : (run.state (n + 1)).running = some i ∧ (run.state (n + 1)).tasks[i]? =
          some ⟨.answer, .give (k := .answer) (.error f), below⟩ := by
        rw [state]
        exact ⟨running, get?_put found _⟩
      obtain rfl := Option.some.inj (running'.symm.trans own.1)
      obtain rfl := Option.some.inj (found'.symm.trans own.2)
      cases line
    · exact waits
    · rw [(Task.locked_of_reply finished).1] at line
      cases line

/-- Who gets a lock is served what has been built meanwhile, and else builds anew. -/
theorem Run.turn (run : Run p) {n i : Nat} {below : Stack .answer} (running : (run.state n).running = some i)
    (found : (run.state n).tasks[i]? = some ⟨.answer, .line b, below⟩) (ready : (run.state n).ready i = true) :
    ∃ u, (run.state (n + 1)).tasks[i]? = some u ∧
      match ((run.state n).world.container b.container).cache.get? b.key, b.maker with
      | some v, _ => u = ⟨.answer, .give (k := .answer) (.ok v), below⟩
      | none, some _ => u.builds = b :: below.builds
      | none, none => u = ⟨.answer, .give (k := .answer) (.error (.unbound b.key)), below⟩ := by
  refine ⟨(Step.build ((run.state n).world.letIn b) b below).task, ?_, ?_⟩
  · rw [run.state_succ running found]
    simp only [System.run, ready, if_true]
    exact get?_put found _
  · unfold Step.build
    rw [World.cache_letIn]
    cases ((run.state n).world.container b.container).cache.get? b.key with
    | some v => rfl
    | none =>
      dsimp only
      cases b.maker with
      | none => rfl
      | some m => cases m <;> rfl

/-- However many tasks there are and in whichever order they go on: one of them builds a key of a container
at a time; of a cached binding one instance is built and served, but for resolutions that had found an older
binding; and a build that fails gives way to the next in line, who builds anew. -/
theorem Run.builds_once (run : Run p) :
    (∀ n o key, total (Task.building o key) (run.state n).tasks ≤ 1) ∧
    (∀ {o key i j}, run.Undisturbed o key i j → run.Single o key i j) ∧
    (∀ {n b}, (run.state n).fails? = some b → run.GivesWay n b) ∧
    ∀ {n i b} {below : Stack .answer}, (run.state n).running = some i →
      (run.state n).tasks[i]? = some ⟨.answer, .line b, below⟩ → (run.state n).ready i = true →
      ∃ u, (run.state (n + 1)).tasks[i]? = some u ∧
        match ((run.state n).world.container b.container).cache.get? b.key, b.maker with
        | some v, _ => u = ⟨.answer, .give (k := .answer) (.ok v), below⟩
        | none, some _ => u.builds = b :: below.builds
        | none, none => u = ⟨.answer, .give (k := .answer) (.error (.unbound b.key)), below⟩ :=
  ⟨fun n o key => (run.reachable n).exclusive o key, Run.Undisturbed.single, run.givesWay, run.turn⟩

/-! ## A constructor that fails once -/

/-- A constructor that is suspended once, and fails the first time. -/
def flaky : Program where
  functions := Table.empty.insert "slow"
    { name := "slow", product := .object "A", body := .awaited 1 [], error := some ("not yet", []), failures := some 1 }

/-- Three tasks ask for a shared `A` at the same time. -/
def flakyRun : Run flaky :=
  .ofOps flaky "root" [
    .on "root" (.register none (.function "slow" true) .singleton none),
    .lasting ⟨"", "root", false⟩ (.join (List.replicate 3
      (.lasting ⟨"", "root", false⟩ (.get none (.type (.declared "A")) false none))))]

theorem undisturbed_flakyRun : flakyRun.Undisturbed 0 (.type (.declared "A")) 4 40 := .of_forall (by decide +kernel)

/-- The first of them fails, the second builds an `A`, and the third gets that. -/
theorem built_by_the_second : ∃ b b' v v', flakyRun.Undisturbed 0 (.type (.declared "A")) 4 40 ∧
    total (Task.building 0 (.type (.declared "A"))) (flakyRun.state 20).tasks ≤ 1 ∧
    (flakyRun.state 24).fails? = some b ∧ flakyRun.GivesWay 24 b ∧
    (flakyRun.state 33).hand? = some (b', v) ∧ (flakyRun.state 33).serves? = some (0, .type (.declared "A"), v) ∧
    (flakyRun.state 37).serves? = some (0, .type (.declared "A"), v') ∧ v = v' := by
  obtain ⟨most, single, givesWay, -⟩ := flakyRun.builds_once
  have fails : ((flakyRun.state 24).fails?).isSome = true := by decide +kernel
  obtain ⟨b, fails⟩ := Option.isSome_iff_exists.1 fails
  have hands : ((flakyRun.state 33).hand?).any (fun x => x.1.container == 0 && x.1.key == .type (.declared "A")) = true := by
    decide +kernel
  obtain ⟨⟨b', v⟩, hand, own⟩ := (Option.any_eq_true _ _).1 hands
  simp only [Bool.and_eq_true, beq_iff_eq] at own
  obtain ⟨hc, hkey⟩ := own
  have serves : (flakyRun.state 33).serves? = some (0, .type (.declared "A"), v) := hkey ▸ hc ▸ serves_of_hand hand
  have served : ((flakyRun.state 37).serves?).any (fun x => x.1 == 0 && x.2.1 == .type (.declared "A")) = true := by
    decide +kernel
  obtain ⟨⟨c, key, v'⟩, serves', own⟩ := (Option.any_eq_true _ _).1 served
  simp only [Bool.and_eq_true, beq_iff_eq] at own
  obtain ⟨rfl, rfl⟩ := own
  have free : ((flakyRun.state 4).tasks.all fun t => t.locked.isEmpty) = true := by decide +kernel
  have none : ∀ n, ¬ flakyRun.EndsOlder 4 n := by
    rintro n ⟨b, v, -, -, t, ht, hb⟩
    rw [List.isEmpty_iff.1 (List.all_eq_true.1 free t ht)] at hb
    cases hb
  have same := (single undisturbed_flakyRun).same (by omega) (by omega) (by omega) (by omega) serves serves'
  exact ⟨b, b', v, v', undisturbed_flakyRun, most 20 0 _, fails, givesWay fails, hand, serves, serves',
    same.resolve_right (by simp [none])⟩

/-! ## A binding that is replaced while it is waited for -/

/-- Two constructors of an `A`, one of which is suspended once. -/
def replaced : Program where
  functions := (Table.empty.insert "old" { name := "old", product := .object "A", body := .awaited 1 [] }).insert "new"
    { name := "new", product := .object "A" }

/-- Two tasks ask for an `A` that is not to be shared, and while the first of them builds it and the second
waits, a third registers a shared one. -/
def replacedRun : Run replaced :=
  .ofOps replaced "root" [
    .on "root" (.register none (.function "old" true) .transient none),
    .lasting ⟨"", "root", false⟩ (.join [
      .lasting ⟨"", "root", false⟩ (.get none (.type (.declared "A")) false none),
      .lasting ⟨"", "root", false⟩ (.get none (.type (.declared "A")) false none),
      .on "root" (.register none (.function "new" true) .singleton none)])]

theorem undisturbed_replacedRun : replacedRun.Undisturbed 0 (.type (.declared "A")) 21 40 := .of_forall (by decide +kernel)

/-- From the new registration on the `A` has a cached binding and nothing else is done to it. Yet both tasks
build one, by the binding they had found. -/
theorem waiters_build_two : ∃ b v b' v', replacedRun.Undisturbed 0 (.type (.declared "A")) 21 40 ∧
    (replacedRun.state 23).hand? = some (b, v) ∧ b.container = 0 ∧ b.key = .type (.declared "A") ∧
    (replacedRun.state 32).hand? = some (b', v') ∧ b'.container = 0 ∧ b'.key = .type (.declared "A") ∧
    v.serial ≠ v'.serial := by
  have first : ((replacedRun.state 23).hand?).any (fun x => x.1.container == 0 && x.1.key == .type (.declared "A")) = true := by
    decide +kernel
  obtain ⟨⟨b, v⟩, hand, own⟩ := (Option.any_eq_true _ _).1 first
  simp only [Bool.and_eq_true, beq_iff_eq] at own
  have second : ((replacedRun.state 32).hand?).any (fun x => x.1.container == 0 && x.1.key == .type (.declared "A")) =
      true := by decide +kernel
  obtain ⟨⟨b', v'⟩, hand', own'⟩ := (Option.any_eq_true _ _).1 second
  simp only [Bool.and_eq_true, beq_iff_eq] at own'
  exact ⟨b, v, b', v', undisturbed_replacedRun, hand, own.1, own.2, hand', own'.1, own'.2,
    Nat.ne_of_lt (replacedRun.serial_lt_of_hand (by omega) hand hand')⟩

end System

end Injector
