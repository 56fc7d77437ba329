import Injector.Proofs.Turns
/-!
# Cycles

A resolution fails with a cycle of its own if the key that it would have to build is being
built around it. `own_cycle_iff`: that is the only reason, and it looks at the key alone,
not at the container. So the failure is right if the container itself is at it already, and
wrong if the key is only being built by others, as in `cycle_of_another_container`.
-/
namespace Injector

theorem Stack.mem_path {k : Kind} {below : Stack k} {key : Key} :
    key ∈ below.path ↔ ∃ b ∈ below.builds, b.key = key := by
  simp [Stack.path]

/-- The path of the cycle that a step fails with. -/
def Step.cycle? : Step → Option (List Key)
  | ⟨_, ⟨_, .give (k := .answer) (.error (.cycle path)), _⟩, _⟩ => some path
  | _ => none

namespace Task

/-- The container that a resolution would have build a key, and the key. -/
def wants? (w : World) : Task → Option (ContainerId × Key)
  | ⟨_, .resolve r, _⟩ =>
    match w.locate r.container r.key with
    | .builds c key _ => some (c, key)
    | _ => none
  | _ => none

/-- The path of the cycle that a resolution fails with of its own. -/
def cycle? (env : Env) (w : World) : Task → Option (List Key)
  | ⟨_, .resolve r, below⟩ => (Task.step env w ⟨_, .resolve r, below⟩).cycle?
  | _ => none

/-- A task in order, which knows all builds around it, fails with a cycle exactly if it wants a key
that is being built. -/
theorem Wf.cycle_iff {t : Task} (wf : t.Wf) (env : Env) (w : World) (path : List Key) :
    t.cycle? env w = some path ↔
      ∃ c key, t.wants? w = some (c, key) ∧ (∃ b ∈ t.builds, b.key = key) ∧ path = t.stack.path ++ [key] := by
  obtain ⟨k, a, below⟩ := t
  cases a with
  | resolve r =>
    have hp : r.path = below.path := wf.activity.path
    change (Step.resolve w r below).cycle? = some path ↔ _
    unfold Step.resolve wants?
    dsimp only
    cases located : w.locate r.container r.key with
    | cached c key v | noAccess key =>
      constructor
      · intro h
        cases h
      · rintro ⟨_, _, h, _⟩
        cases h
    | builds c key binding =>
      dsimp only
      rw [hp]
      constructor
      · intro h
        split at h
        · next building =>
          obtain rfl := Option.some.inj h
          exact ⟨c, key, rfl, Stack.mem_path.1 building, rfl⟩
        · cases h
      · rintro ⟨_, _, h, building, rfl⟩
        cases h
        rw [if_pos (Stack.mem_path.2 building)]
        rfl
  | line | fill | pause | perform | windDown | await | give =>
    constructor
    · intro h
      cases h
    · rintro ⟨_, _, h, _⟩
      cases h

end Task

namespace System

variable {p : Program} {s : System}

/-- A resolution fails with a cycle of its own exactly if the key that a container `c` is to build
is being built in the same task, by whichever container. That `c` itself is at it holds for this
failure exactly if it does whenever any container is at it. -/
theorem own_cycle_iff (h : Reachable p s) {i : Nat} {t : Task} (found : s.tasks[i]? = some t) (env : Env) :
    (∀ path, t.cycle? env s.world = some path ↔ ∃ c key, t.wants? s.world = some (c, key) ∧
      (∃ b ∈ t.builds, b.key = key) ∧ path = t.stack.path ++ [key]) ∧
    ∀ c key, t.wants? s.world = some (c, key) →
      ((∀ path, t.cycle? env s.world = some path → ∃ b ∈ t.builds, b.container = c ∧ b.key = key) ↔
        ((∃ b ∈ t.builds, b.key = key) → ∃ b ∈ t.builds, b.container = c ∧ b.key = key)) := by
  have fails := (h.sound.wf t (List.mem_of_getElem? found)).cycle_iff env s.world
  refine ⟨fails, ?_⟩
  intro c key wants
  constructor
  · intro right building
    exact right _ ((fails _).2 ⟨c, key, wants, building, rfl⟩)
  · intro own path cyclic
    obtain ⟨c', key', wants', building, -⟩ := (fails path).1 cyclic
    obtain ⟨rfl, rfl⟩ := Prod.mk.inj (Option.some.inj (wants.symm.trans wants'))
    exact own building

/-! ## Two levels -/

/-- Two ways to make an `A`, one of which needs a `B`, and a `B` that needs an `A`. -/
def crossing : Program where
  functions := ((Table.empty.insert "plain" { name := "plain", product := .object "A" }).insert "outer"
    { name := "outer", product := .object "A", params := [.one (.inject (.declared "B"))] }).insert "b"
    { name := "b", product := .object "B", params := [.one (.inject (.declared "A"))] }

/-- An `A` is asked of a scope, when `owner` makes it from a `B`; else the root has a plain one. -/
def crossingRun (owner : String) : Run crossing :=
  .ofOps crossing "root" [
    .on "root" (.register none (.function "plain" true) .transient none),
    .on "root" (.register none (.function "b" true) .transient none),
    .on "root" (.openScope "scope"),
    .on owner (.register none (.function "outer" true) .transient none),
    .lasting ⟨"", "scope", false⟩ (.get none (.type (.declared "A")) false none)]

/-- The path of the cycle that is found in both runs. -/
def crossingPath : List Key := [.type (.declared "A"), .type (.declared "B"), .type (.declared "A")]

/-- If the root makes it from a `B`, it wants an `A` while it builds one. -/
theorem own_cycle_of_the_root : ∃ t, ((crossingRun "root").state 25).tasks[4]? = some t ∧
    t.cycle? ⟨crossing, [], 0⟩ ((crossingRun "root").state 25).world = some crossingPath ∧
    ∃ b ∈ t.builds, b.container = 0 ∧ b.key = .type (.declared "A") := by
  have run : (((crossingRun "root").state 25).tasks[4]?.any fun t : Task =>
      t.wants? ((crossingRun "root").state 25).world == some (0, .type (.declared "A")) &&
        (t.builds.any fun b => b.container == 0 && b.key == .type (.declared "A")) &&
        t.stack.path ++ [.type (.declared "A")] == crossingPath) = true := by decide +kernel
  obtain ⟨t, found, run⟩ := (Option.any_eq_true _ _).1 run
  simp only [Bool.and_eq_true, beq_iff_eq, List.any_eq_true] at run
  obtain ⟨⟨wants, b, hb, hc, hkey⟩, path⟩ := run
  obtain ⟨fails, own⟩ := own_cycle_iff ((crossingRun "root").reachable 25) found ⟨crossing, [], 0⟩
  have cyclic := (fails crossingPath).2 ⟨_, _, wants, ⟨b, hb, hkey⟩, path.symm⟩
  exact ⟨t, found, cyclic, ((own _ _ wants).2 fun _ => ⟨b, hb, hc, hkey⟩) crossingPath cyclic⟩

/-- If the scope makes it from a `B`, whose own `A` the root would make without one, the root wants an
`A` that it does not build, and fails all the same. -/
theorem cycle_of_another_container : ∃ (s : System) (i : Nat) (t : Task), Reachable crossing s ∧ s.tasks[i]? = some t ∧
    t.wants? s.world = some (0, .type (.declared "A")) ∧
    t.cycle? ⟨crossing, s.held, s.tasks.length⟩ s.world = some crossingPath ∧
    ¬ ∃ b ∈ t.builds, b.container = 0 ∧ b.key = .type (.declared "A") := by
  have run : (((crossingRun "scope").state 25).tasks[4]?.any fun t : Task =>
      t.wants? ((crossingRun "scope").state 25).world == some (0, .type (.declared "A")) &&
        t.cycle? ⟨crossing, ((crossingRun "scope").state 25).held, ((crossingRun "scope").state 25).tasks.length⟩
          ((crossingRun "scope").state 25).world == some crossingPath &&
        t.builds.all fun b => !(b.container == 0 && b.key == .type (.declared "A"))) = true := by decide +kernel
  obtain ⟨t, found, run⟩ := (Option.any_eq_true _ _).1 run
  simp only [Bool.and_eq_true, beq_iff_eq, List.all_eq_true] at run
  obtain ⟨⟨wants, cyclic⟩, others⟩ := run
  refine ⟨_, 4, t, (crossingRun "scope").reachable 25, found, wants, cyclic, ?_⟩
  rintro ⟨b, hb, hc, hkey⟩
  simpa [hc, hkey] using others b hb

end System

end Injector
