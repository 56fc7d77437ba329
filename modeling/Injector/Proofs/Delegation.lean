import Injector.Proofs.Turns
/-!
# Delegation

A container never searches for the owner of a key: it looks at itself, asks whether a base
has the key, and hands the request on. `resolve_delegates`: for a key that is no name this
comes to a search. The nearest container that has the key serves the request as if it had
been asked itself; and if none has it, the root decides whether the key is out of reach,
or left to the fallback in the container that was asked.
-/
namespace Injector

namespace World

/-- Whether a container has a key itself: an instance of it, or a binding for its plain key. -/
def Has (w : World) (key : Key) (c : ContainerId) : Prop :=
  (w.container c).cache.get? key ≠ none ∨ (w.container c).registry.get? key.plain ≠ none

variable {w : World}

theorem serves_eq_none_iff_not_has {key : Key} {c : ContainerId} : w.serves c key = none ↔ ¬ w.Has key c := by
  rw [serves_eq_none_iff, Has, not_or, not_not, not_not]

/-- What comes after a container in a chain are its bases. -/
theorem Ok.bases_of_chain (ok : w.Ok) {d : ContainerId} {after : List ContainerId} (before : List ContainerId) :
    ∀ {c : ContainerId}, w.chain c = before ++ d :: after → (w.container d).bases = after := by
  induction before with
  | nil =>
    intro c h
    obtain ⟨rfl, bases⟩ := List.cons.inj h
    exact bases
  | cons e before ih =>
    intro c h
    have bases : (w.container c).bases = before ++ d :: after := (List.cons.inj h).2
    obtain ⟨base, rest, hbase⟩ : ∃ base rest, before ++ d :: after = base :: rest := by
      cases before <;> exact ⟨_, _, rfl⟩
    refine @ih base ?_
    rw [World.chain, ok.chain c base rest (bases.trans hbase), hbase]

/-- A container that has a base in a chain has no key for scopes only. -/
theorem Ok.not_forScopesOnly (ok : w.Ok) {c d root : ContainerId} (alive : w.Alive c) (hd : d ∈ w.chain c)
    (last : (w.chain c).getLast? = some root) (ne : d ≠ root) (key : Key) :
    (w.container d).registry.forScopesOnly key = false := by
  obtain ⟨before, after, h⟩ := List.append_of_mem hd
  have bases := ok.bases_of_chain before h
  have scope : (w.container d).isScope = true := by
    cases after with
    | nil =>
      rw [h, List.getLast?_concat] at last
      exact absurd (Option.some.inj last) ne
    | cons base rest => simp [Container.isScope, bases]
  have fits := ok.registry d (ok.alive_of_mem_chain alive hd).2
  rw [scope] at fits
  exact fits.not_forScopesOnly key

/-- A lookup from the bottom of a chain is a lookup from the owner of the key. -/
theorem Ok.locate_owner (ok : w.Ok) {key : Key} (hk : key.isName = false) {c owner : ContainerId}
    {before after : List ContainerId} (chain : w.chain c = before ++ owner :: after)
    (nearer : ∀ d ∈ before, ¬ w.Has key d) (has : w.Has key owner) :
    w.locate c key = w.locate owner key ∧ some (w.locate owner key) = w.serves owner key := by
  have serves : w.serves owner key ≠ none := by
    intro h
    exact serves_eq_none_iff_not_has.1 h has
  have bases := ok.bases_of_chain before chain
  have delegated := locateFrom_owner hk serves before chain fun d hd => serves_eq_none_iff_not_has.2 (nearer d hd)
  refine ⟨by rw [locate, locate, delegated, bases], ?_⟩
  obtain ⟨l, hl⟩ := Option.ne_none_iff_exists'.1 serves
  rw [locate, bases, hl]
  cases after <;> simp [locateFrom, unalias_of_not_name w _ hk, hl]

/-- A key that nobody has in a chain, and the root not for scopes only, is to be built where it was asked for. -/
theorem Ok.locate_nowhere (ok : w.Ok) {key : Key} (hk : key.isName = false) {c root : ContainerId} (alive : w.Alive c)
    (last : (w.chain c).getLast? = some root) (unserved : ∀ d ∈ w.chain c, w.serves d key = none)
    (other : (w.container root).registry.forScopesOnly key.plain = false) : w.locate c key = .builds c key none := by
  apply locateFrom_nowhere hk unserved
  intro d hd
  by_cases e : d = root
  · rw [e]
    exact other
  · exact ok.not_forScopesOnly alive hd last e _

end World

/-- Of a request that is served, it matters neither whom it asked nor what it would fall back to. -/
theorem Step.resolve_of_serves {w : World} {c owner : ContainerId} {key : Key} (located : w.locate c key = w.locate owner key)
    (served : some (w.locate owner key) = w.serves owner key) (path : List Key) (fallback fallback' : Option Function)
    (below : Stack .answer) : resolve w { container := c, key, fallback, path } below =
      resolve w { container := owner, key, fallback := fallback', path } below := by
  unfold resolve
  dsimp only
  rw [located]
  unfold World.serves at served
  split at served
  · rw [Option.some.inj served]
  · obtain ⟨b, -, hb⟩ := Option.map_eq_some_iff.1 served.symm
    rw [← hb]
    rfl

/-- A build that comes to a function on its own container, if there is one, and that nobody keeps the
instance of. -/
structure Build.FallsBack (b : Build) (fallback : Option Function) : Prop where
  /-- Without a function there is nothing to build it by. -/
  unbound : fallback = none → ∀ env w below, (w.container b.container).cache.get? b.key = none →
    Task.step env w ⟨_, .line b, below⟩ = .fail ((w.letIn b).leave b) (.unbound b.key) below
  /-- The function gets its parameters from the container, and the tags of the key before them. -/
  calls : ∀ f, fallback = some f → ∀ env w below, (w.container b.container).cache.get? b.key = none →
    Task.step env w ⟨_, .line b, below⟩ =
      let (arguments, w') := (w.letIn b).makeArguments (b.key.tags.map .text) []
      .next w' (.fill (Job.start f b.key b.container (w.container b.container).isScope arguments f.signature b.path))
        (.cons (.build b) below)
  notCached : ∀ (w : World) v c key, ((w.record b v).container c).cache.get? key = (w.container c).cache.get? key
  noTeardown : ∀ (w : World) v c, ((w.record b v).container c).callbacks = (w.container c).callbacks

theorem Build.fallsBack {b : Build} {fallback : Option Function} (h : b.binding = fallback.map Function.unbound) :
    b.FallsBack fallback := by
  have lifetime : b.lifetime.cached = false := by
    rw [lifetime, h]
    cases fallback <;> rfl
  have finalizer : b.finalizer = none := by
    rw [finalizer, h]
    cases fallback <;> rfl
  have recorded : ∀ (w : World) v, w.record b v = w.modifyCache b.container fun x => x.markResolved b.key.plain := by
    intro w v
    simp [World.record, lifetime, finalizer]
  have letIn : ∀ w : World, (w.container b.container).cache.get? b.key = none →
      ((w.letIn b).container b.container).cache.get? b.key = none := by
    intro w nothing
    rw [World.letIn, World.cache_modifyLocks, nothing]
  constructor
  · rintro rfl env w below nothing
    have maker : b.maker = none := by simp [maker, h]
    change Step.build (w.letIn b) b below = _
    simp only [Step.build, letIn w nothing, maker]
  · rintro f rfl env w below nothing
    have maker : b.maker = some (.function f f.signature) := by simp [maker, h, Function.unbound]
    have scope : ((w.letIn b).container b.container).isScope = (w.container b.container).isScope := by
      simp only [Container.isScope, World.letIn, World.bases_modifyLocks]
    change Step.build (w.letIn b) b below = _
    simp only [Step.build, letIn w nothing, maker, ← scope]
    rfl
  · intro w v c key
    rw [recorded]
    exact World.field_modify (fun x => x.cache.get? key) w _ c _ fun _ => rfl
  · intro w v c
    rw [recorded, World.callbacks_modifyCache]

/-- A build whose key nobody is building on its container may start at once. -/
theorem World.mayStart_enter {w : World} {c : ContainerId} {key : Key} (alive : w.Alive c)
    (free : (w.container c).locks.entries.get? key = none) {b : Build} {w' : World} (hc : b.container = c)
    (enters : w.enter c key = (b.lock, b.ticket, w')) : w'.mayStart b = true := by
  rw [mayStart, hc, Locks.grantable, mutex_of_enter enters alive]
  simp [Locks.lineFor, free, Mutex.grantable]

namespace System

variable {p : Program} {s : System}

/-- What a request for a key that is no name comes to, on a container with its bases. -/
theorem resolve_delegates (h : Reachable p s) {c : ContainerId} (alive : s.world.Alive c) {key : Key}
    (hk : key.isName = false) :
    -- The nearest container that has the key serves the request as if it had been asked itself,
    -- and nothing comes of a fallback.
    (∀ before owner after, s.world.chain c = before ++ owner :: after → (∀ d ∈ before, ¬ s.world.Has key d) →
      s.world.Has key owner → ∀ i below path fallback fallback',
        s.run p i ⟨_, .resolve { container := c, key, fallback, path }, below⟩ =
          s.run p i ⟨_, .resolve { container := owner, key, fallback := fallback', path }, below⟩) ∧
    (∀ root, (s.world.chain c).getLast? = some root → (∀ d ∈ s.world.chain c, ¬ s.world.Has key d) →
      ∀ env below path fallback,
        -- A key that the root only has for scopes is out of reach.
        ((s.world.container root).registry.forScopesOnly key.plain = true →
          Task.step env s.world ⟨_, .resolve { container := c, key, fallback, path }, below⟩ =
            .fail s.world (.noAccess key) below) ∧
        -- Any other key is left to the fallback, in the container that was asked.
        ((s.world.container root).registry.forScopesOnly key.plain = false → key ∉ path →
          ∃ b w, Task.step env s.world ⟨_, .resolve { container := c, key, fallback, path }, below⟩ =
              .next w (.line b) below ∧
            b.container = c ∧ b.key = key ∧ b.path = path ++ [key] ∧ b.FallsBack fallback ∧
            ((s.world.container c).locks.entries.get? key = none →
              w.mayStart b = true ∧ (w.container c).cache.get? key = none))) := by
  have ok := h.sound.ok
  constructor
  · intro before owner after chain nearer has i below path fallback fallback'
    obtain ⟨located, served⟩ := ok.locate_owner hk chain nearer has
    exact congrArg (s.put i) (Step.resolve_of_serves located served path fallback fallback' below)
  · intro root last nobody env below path fallback
    have unserved : ∀ d ∈ s.world.chain c, s.world.serves d key = none := by
      intro d hd
      exact World.serves_eq_none_iff_not_has.2 (nobody d hd)
    constructor
    · intro only
      have located : s.world.locate c key = .noAccess key := World.locateFrom_forScopes hk _ last unserved only
      change Step.resolve s.world _ below = _
      simp only [Step.resolve, located]
    · intro other cyclic
      have located := ok.locate_nowhere hk alive last unserved other
      obtain ⟨b, hb⟩ : ∃ b : Build, b = ⟨c, key, fallback.map Function.unbound, path ++ [key],
          (s.world.enter c key).1, (s.world.enter c key).2.1⟩ := ⟨_, rfl⟩
      refine ⟨b, (s.world.enter c key).2.2, ?_, by rw [hb], by rw [hb], by rw [hb],
        Build.fallsBack (by rw [hb]), fun free => ⟨?_, ?_⟩⟩
      · change Step.resolve s.world _ below = _
        rw [hb]
        simp only [Step.resolve, located, if_neg cyclic]
        rfl
      · exact World.mayStart_enter alive free (by rw [hb]) (by rw [hb])
      · have nothing := (World.serves_eq_none_iff.1 (unserved c List.mem_cons_self)).1
        rw [World.container_enter, World.cache_modifyLocks]
        exact nothing

/-- A root that has an `A`, and a scope on it that has nothing. -/
def scopeRun : Run {} :=
  .ofOps {} "root" [
    .on "root" (.register (some (.type (.declared "A"))) (.function "plain" true) .transient none),
    .on "root" (.openScope "scope")]

/-- The scope has the root serve an `A`, and nobody serve a `B`. -/
theorem scope_resolves_by_the_root : Reachable {} (scopeRun.state 8) ∧ (scopeRun.state 8).world.Alive 1 ∧
    (scopeRun.state 8).run {} 0 ⟨_, .resolve ⟨1, .type (.declared "A"), some {}, []⟩, .cons (.deliver 1 none none) .nil⟩ =
      (scopeRun.state 8).run {} 0 ⟨_, .resolve ⟨0, .type (.declared "A"), none, []⟩, .cons (.deliver 1 none none) .nil⟩ ∧
    ∃ b w, Task.step ⟨{}, [], 0⟩ (scopeRun.state 8).world
        ⟨_, .resolve ⟨1, .type (.declared "B"), none, []⟩, .cons (.deliver 1 none none) .nil⟩ =
      .next w (.line b) (.cons (.deliver 1 none none) .nil) ∧ b.container = 1 ∧ b.FallsBack none := by
  have reachable := scopeRun.reachable 8
  have alive : (scopeRun.state 8).world.Alive 1 := ⟨by decide +kernel, by decide +kernel⟩
  have chain : (scopeRun.state 8).world.chain 1 = [1, 0] := by decide +kernel
  have nobody : ∀ d ∈ (scopeRun.state 8).world.chain 1, ¬ (scopeRun.state 8).world.Has (.type (.declared "B")) d := by
    rw [chain]
    simp only [World.Has, ← Option.isSome_iff_ne_none]
    decide +kernel
  have nearer : ∀ d ∈ [1], ¬ (scopeRun.state 8).world.Has (.type (.declared "A")) d := by
    simp only [World.Has, ← Option.isSome_iff_ne_none]
    decide +kernel
  have has : (scopeRun.state 8).world.Has (.type (.declared "A")) 0 := by
    simp only [World.Has, ← Option.isSome_iff_ne_none]
    decide +kernel
  refine ⟨reachable, alive, (resolve_delegates reachable alive rfl).1 [1] 0 [] chain nearer has .., ?_⟩
  obtain ⟨b, w, step, hc, -, -, falls, -⟩ := ((resolve_delegates reachable alive rfl).2 0 (by rw [chain]; rfl) nobody
    ⟨{}, [], 0⟩ (.cons (.deliver 1 none none) .nil) [] none).2 (by decide +kernel) List.not_mem_nil
  exact ⟨b, w, step, hc, falls⟩

end System

end Injector
