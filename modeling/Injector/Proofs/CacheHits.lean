import Injector.Proofs.Finalization
import Injector.Proofs.Once
/-!
# What is kept is not finalized

What a container keeps and what it has left to finalize are separate tables. They stay in step:
an instance that a binding with a finalizer has built is kept only as long as its one teardown is
with the container that keeps it (`Run.kept_of_hand`). Who ends the container takes the teardown
and leaves the instance behind (`Run.gone_of_end`), and no move brings it back, since what is
handed over or put by hand is new (`Change.keeps`). `Run.kept_until_finalized`: so an instance whose
finalizer was started is never served.
-/
namespace Injector

namespace System

variable {p : Program} {s s' : System} {b : Build} {c : ContainerId} {key : Key} {v v' : Instance} {f : Finalizer}

/-- Where what is kept after a move comes from: it was kept before, and pinned then if it is pinned now; or it
was in hand, and is not pinned; or it is new. -/
theorem Change.keeps (h : Change p s s') (reached : Reachable p s) (reached' : Reachable p s')
    (kept : s'.world.Keeps c key v) :
    (s.world.Keeps c key v ∧
      ((s'.world.container c).cache.isPinned key = true → (s.world.container c).cache.isPinned key = true)) ∨
    (∃ b, s.hand? = some (b, v) ∧ (s'.world.container c).cache.isPinned key = false) ∨
    s.world.supply.serials ≤ v.serial := by
  have live := (reached'.sound.ok.alive_of_keeps kept).2
  by_cases spared : s.terminates = some c
  · -- Who terminates the container leaves it with what is pinned, and that was so before.
    obtain ⟨w, ts, edits, alive, world⟩ := h.of_terminates spared
    have same := container_settled_of_live (world ▸ live)
    rw [World.Keeps, world, same] at kept
    have pinned := World.isPinned_of_keeps_terminate alive (by rw [kept]; exact Option.some_ne_none v)
    rw [World.cache_terminate alive, Cache.isPinned_clearBuilt] at pinned
    have kept' : w.Keeps c key v := World.keeps_of_terminate kept
    rcases (edits.editedAt_of_live alive.2).cache key with ⟨get, pin⟩ | ⟨-, v', put, fresh⟩
    · exact .inl ⟨get.symm.trans kept', fun _ => pin.symm.trans pinned⟩
    · obtain rfl := Option.some.inj (put.symm.trans kept')
      exact .inr (.inr fresh)
  · rcases h.pinsAt live spared key with ⟨get, pin⟩ | ⟨-, v', put, fresh⟩
    · have given : (s.world.given s.hand?).Keeps c key v := get.symm.trans kept
      cases hand : s.hand? with
      | none =>
        rw [hand] at given pin
        exact .inl ⟨given, fun pinned => pin.symm.trans pinned⟩
      | some x =>
        obtain ⟨b, v'⟩ := x
        have alive := reached.alive_of_hand hand
        rw [hand] at given pin
        by_cases own : b.container = c ∧ b.key = key ∧ b.lifetime.cached = true
        · obtain ⟨rfl, rfl, shared⟩ := own
          obtain rfl := Option.some.inj (given.symm.trans (World.keeps_record alive shared v'))
          exact .inr (.inl ⟨b, rfl, pin.trans (World.isPinned_record alive shared v)⟩)
        · exact .inl ⟨(World.get?_record_of_ne alive v' own).symm.trans given,
            fun pinned => (World.isPinned_record_of_ne alive v' own).symm.trans (pin.symm.trans pinned)⟩
    · obtain rfl := Option.some.inj (put.symm.trans kept)
      exact .inr (.inr (World.serials_given s.world s.hand? ▸ fresh))

namespace Run

variable {run : Run p} {n m k i h : Nat}

/-- What was handed over before a move, and is kept after it, was kept before, and pinned then if it is now. -/
theorem keeps_of_keeps_succ (run : Run p) (hand : (run.state n).hand? = some (b, v)) (after : n < k)
    (kept : (run.state (k + 1)).world.Keeps c key v') (same : v'.serial = v.serial) :
    (run.state k).world.Keeps c key v' ∧ (((run.state (k + 1)).world.container c).cache.isPinned key = true →
      ((run.state k).world.container c).cache.isPinned key = true) := by
  rcases (run.change k).keeps (run.reachable k) (run.reachable (k + 1)) kept with before | ⟨b', hand', -⟩ | fresh
  · exact before
  · have newer := run.serial_lt_of_hand after hand hand'
    omega
  · obtain ⟨-, -, -, given⟩ := run.made hand
    have grown := run.serials_mono (Nat.le_of_lt after)
    omega

/-- What a build has made is kept, but never pinned. -/
theorem unpinned_of_hand (run : Run p) (hand : (run.state n).hand? = some (b, v)) (after : n < k)
    (kept : (run.state k).world.Keeps c key v') (same : v'.serial = v.serial) :
    ((run.state k).world.container c).cache.isPinned key = false := by
  induction k, after using Nat.le_induction with
  | base =>
    rcases (run.change n).keeps (run.reachable n) (run.reachable (n + 1)) kept with ⟨before, -⟩ | ⟨b', -, unpinned⟩ | fresh
    · have newer := run.lt_of_hand hand before
      omega
    · exact unpinned
    · obtain ⟨-, -, -, given⟩ := run.made hand
      omega
  | succ k after ih =>
    obtain ⟨before, pin⟩ := run.keeps_of_keeps_succ hand after kept same
    exact Bool.eq_false_iff.2 fun pinned => by
      rw [ih before] at pin
      cases pin pinned

/-- What was made for a container is gone from all caches once the container was ended. -/
theorem gone_of_end (run : Run p) (hand : (run.state n).hand? = some (b, v)) (ends : run.FirstEnd n b.container m i h)
    (after : m < k) (kept : (run.state k).world.Keeps c key v') : v'.serial ≠ v.serial := by
  intro same
  induction k, after using Nat.le_induction with
  | base =>
    obtain ⟨rfl, rfl⟩ := run.apart (.inr ⟨b, hand, rfl, rfl⟩) (.inl kept) same.symm
    have alive := (run.reachable (m + 1)).sound.ok.alive_of_keeps kept
    cases ends.ends with
    | terminated _ terminates =>
      have pinned := (run.change m).isPinned_of_terminates terminates alive.2 (by rw [kept]; exact Option.some_ne_none v')
      rw [run.unpinned_of_hand hand (Nat.lt_succ_of_le ends.since) kept same] at pinned
      cases pinned
    | dropped _ _ dead => exact dead alive
  | succ k after ih => exact ih (run.keeps_of_keeps_succ hand (Nat.lt_of_le_of_lt ends.since after) kept same).1

/-- What a binding with a finalizer has made is kept by the container of the binding only, and only while its
teardown is there. -/
theorem kept_of_hand (run : Run p) (hand : (run.state n).hand? = some (b, v)) (hf : b.finalizer = some f)
    (kept : (run.state k).world.Keeps c key v') (same : v'.serial = v.serial) :
    n < k ∧ c = b.container ∧ key = b.key ∧ (run.state k).Only v f (some (.container c)) := by
  obtain ⟨rfl, rfl⟩ := run.apart (.inr ⟨b, hand, rfl, rfl⟩) (.inl kept) same.symm
  -- What is kept is older than what is in hand, so it was handed over before.
  have after : n < k := by
    by_contra before
    obtain ⟨m, rfl, fresh, -⟩ := run.made hand
    rcases Nat.lt_or_eq_of_le (Nat.not_lt.1 before) with before | rfl
    · have given := run.given_of_keeps kept
      have grown := run.serials_mono (Nat.le_of_lt_succ before)
      omega
    · have newer := run.lt_of_hand hand kept
      omega
  refine ⟨after, rfl, rfl, ?_⟩
  cases run.fate hand hf after with
  | kept _ _ only => exact only
  | taken m i h ends before => exact absurd same (run.gone_of_end hand ends before kept)
  | ran m i h r ends before before' =>
    exact absurd same (run.gone_of_end hand ends (Nat.lt_trans before before') kept)

/-- The finalizer that a task runs is that of the binding which made the instance, whose container was ended. -/
theorem exists_end (run : Run p) {x : Pending} (runs : (run.state k).finalizes = some x) :
    ∃ n b m i h, n < k ∧ (run.state n).hand? = some (b, x.2.2) ∧ b.finalizer = some x.2.1 ∧
      run.FirstEnd n b.container m i h ∧ m < k := by
  by_cases built : ∃ n < k, ∃ b v f, (run.state n).hand? = some (b, v) ∧ b.finalizer = some f ∧ x.2.2.serial = v.serial
  · obtain ⟨n, before, b, v, f, hand, hf, same⟩ := built
    have same : x.2.2.same v = true := beq_iff_eq.2 same
    -- Who runs the finalizer has the teardown, so it is no longer with the container.
    cases run.fate hand hf before with
    | kept _ _ only => exact absurd same (only.not_same (fun i n h => by cases h) runs)
    | taken m i h ends later only =>
      obtain ⟨-, -, -, hx⟩ := only.of_finalizes runs same
      rw [hx]
      exact ⟨n, b, m, i, h, before, hand, hf, ends, later⟩
    | ran m i h r ends _ _ _ _ only => exact absurd same (only.not_same (fun i n h => by cases h) runs)
  · exfalso
    obtain ⟨t, -, finalizes⟩ := Option.bind_eq_some_iff.1 runs
    obtain ⟨_, f, v, _, below, -, ty, rfl⟩ := Task.of_finalizes finalizes
    have only : (run.state k).Only v f none := by
      apply run.only_of_unbuilt ty
      intro n before b v' hand
      cases hf : b.finalizer with
      | none => exact .inl rfl
      | some f' => exact .inr fun same => built ⟨n, before, b, v', f', hand, hf, same.symm⟩
    exact only.not_same (fun i n h => by cases h) runs (beq_self_eq_true _)

/-- What a binding with a finalizer has made is kept only while its one teardown is with the container that keeps
it. Once a finalizer was started on an instance, no container keeps the instance, and no resolution ends with it. -/
theorem kept_until_finalized (run : Run p) :
    (∀ {n k b v f c key v'}, (run.state n).hand? = some (b, v) → b.finalizer = some f →
      (run.state k).world.Keeps c key v' → v'.same v = true →
        n < k ∧ c = b.container ∧ key = b.key ∧ (run.state k).Only v f (some (.container c))) ∧
    (∀ {r k x c key v}, (run.state r).finalizes = some x → r ≤ k → (run.state k).world.Keeps c key v →
      v.same x.2.2 = false) ∧
    ∀ {r k x c key v}, (run.state r).finalizes = some x → r ≤ k → (run.state k).serves? = some (c, key, v) →
      v.same x.2.2 = false := by
  have gone : ∀ {r k x c key v}, (run.state r).finalizes = some x → r ≤ k → (run.state k).world.Keeps c key v →
      v.same x.2.2 = false := by
    intro r k x c key v runs le kept
    obtain ⟨n, b, m, i, h, -, hand, -, ends, before⟩ := run.exists_end runs
    exact beq_eq_false_iff_ne.2 (run.gone_of_end hand ends (Nat.lt_of_lt_of_le before le) kept)
  refine ⟨fun hand hf kept same => run.kept_of_hand hand hf kept (beq_iff_eq.1 same), gone, ?_⟩
  intro r k x c key v runs le serves
  rcases shows_of_serves serves with kept | ⟨b', hand', -⟩
  · exact gone runs le kept
  · -- What is in hand is newer than what was finalized.
    obtain ⟨n, b, m, i, h, before, hand, -⟩ := run.exists_end runs
    have newer := run.serial_lt_of_hand (Nat.lt_of_lt_of_le before le) hand hand'
    exact beq_eq_false_iff_ne.2 (Nat.ne_of_gt newer)

end Run

/-! ## A finalizer that asks again -/

/-- A shared `A`, whose finalizer asks for an `A`, is asked of the root, which is then terminated. -/
def askingAgain : Run {} :=
  .ofOps {} "root" [
    .on "root" (.register (some (.type (.declared "A"))) (.function "plain" true) .singleton
      (some ⟨"last", [.lasting ⟨"", "root", false⟩ (.get none (.type (.declared "A")) false none)]⟩)),
    .lasting ⟨"", "root", false⟩ (.get none (.type (.declared "A")) false none),
    .lasting ⟨"", "root", false⟩ .terminate]

/-- The finalizer gets another `A`, which is then the one that is kept and still to be finalized. -/
theorem finalizer_gets_another : ∃ x b v v' f, (askingAgain.state 18).terminates = some 0 ∧
    (askingAgain.state 19).finalizes = some x ∧ (askingAgain.state 27).hand? = some (b, v) ∧ b.finalizer = some f ∧
    (askingAgain.state 27).serves? = some (0, .type (.declared "A"), v) ∧ v.same x.2.2 = false ∧
    (askingAgain.state 28).world.Keeps 0 (.type (.declared "A")) v' ∧ v'.same v = true ∧ v'.same x.2.2 = false ∧
    (askingAgain.state 28).Only v f (some (.container 0)) := by
  have runs : ((askingAgain.state 19).finalizes).isSome = true := by decide +kernel
  obtain ⟨x, runs⟩ := Option.isSome_iff_exists.1 runs
  have hands : ((askingAgain.state 27).hand?).any (fun y => y.1.container == 0 &&
      y.1.key == .type (.declared "A") && y.1.finalizer.isSome && y.2.serial == 1) = true := by decide +kernel
  obtain ⟨⟨b, v⟩, hand, own⟩ := (Option.any_eq_true _ _).1 hands
  simp only [Bool.and_eq_true, beq_iff_eq] at own
  obtain ⟨⟨⟨hc, hkey⟩, hf⟩, serial⟩ := own
  obtain ⟨f, hf⟩ := Option.isSome_iff_exists.1 hf
  have keeps : (((askingAgain.state 28).world.container 0).cache.get? (.type (.declared "A"))).any (·.serial == 1) = true := by
    decide +kernel
  obtain ⟨v', kept, serial'⟩ := (Option.any_eq_true _ _).1 keeps
  have serves : (askingAgain.state 27).serves? = some (0, .type (.declared "A"), v) := hc ▸ hkey ▸ serves_of_hand hand
  have same : v'.same v = true := by simp [Shared.same, serial, beq_iff_eq.1 serial']
  obtain ⟨pending, gone, unserved⟩ := askingAgain.kept_until_finalized
  obtain ⟨-, -, -, only⟩ := pending hand hf kept same
  exact ⟨x, b, v, v', f, by decide +kernel, runs, hand, hf, serves, unserved runs (by omega) serves, kept, same,
    gone runs (by omega) kept, only⟩

end System

end Injector
