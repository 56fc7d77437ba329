import Injector.Proofs.Answers
/-!
# Failed builds

A resolution of its own that fails leaves nothing behind but what the builds within it recorded
that succeeded (`LeavesNothing`). A lookup comes to the same as before, so whoever asks again
builds anew, and what is built then is recorded as usual (`BuildsAnew`).
`Asks.failure_leaves_nothing` puts this together.
-/
namespace Injector

variable {p : Program}

/-- Requests that are looked up alike lead to builds alike. -/
theorem Request.Leads.same {r r' : Request} {w w' : World} {b b' : Build} (h : r.Leads w b) (h' : r'.Leads w' b')
    (located : w'.locate r'.container r'.key = w.locate r.container r.key) (fallback : r'.fallback = r.fallback) :
    b'.container = b.container ∧ b'.key = b.key ∧ b'.binding = b.binding := by
  obtain ⟨β, found, binding⟩ := h.located
  obtain ⟨β', found', binding'⟩ := h'.located
  obtain ⟨hc, hkey, hβ⟩ : b'.container = b.container ∧ b'.key = b.key ∧ β' = β := by
    simpa using found'.symm.trans (located.trans found)
  exact ⟨hc, hkey, by rw [binding', hβ, fallback, binding]⟩

/-- What is put on something has more below it. -/
theorem Task.Within.ne_give {cs : List ContainerId} {base below : Stack .answer} {t : Task} {k : Cont .answer .answer}
    (h : t.Within cs (.cons k below)) (same : below = base) (a : Except Failure Instance) :
    t ≠ ⟨.answer, .give (k := .answer) a, base⟩ := by
  rintro rfl
  obtain ⟨-, under⟩ := h
  have higher := under.height
  rw [← same] at higher
  exact Nat.not_succ_le_self _ higher

namespace System

variable {s s' : System} {i : Nat} {r : Request} {below : Stack .answer} {xs : List (Build × Instance)} {t : Task}
  {f : Failure} {v : Instance}

/-- A failure ends a request that nothing could be served for, or a build. -/
theorem Stage.of_failure {w : World} {t : Task} (stage : Stage w r below t xs)
    (failed : t = ⟨.answer, .give (k := .answer) (.error f), below⟩) :
    (∀ c key v, w.locate r.container r.key ≠ .cached c key v) ∧
      (xs = [] ∨ ∃ b, r.Leads w b ∧ ∀ x ∈ xs, b.Encloses w x.1) := by
  have builds : ∀ {b : Build}, r.Leads w b → ∀ c key v, w.locate r.container r.key ≠ .cached c key v := by
    intro b leads c key v cached
    obtain ⟨β, located, -⟩ := leads.located
    rw [located] at cached
    cases cached
  cases stage with
  | refused absent => exact ⟨absent, .inl rfl⟩
  | failed leads nested => exact ⟨builds leads, .inr ⟨_, leads, nested⟩⟩
  | inside _ within => exact absurd failed (within.ne_give rfl _)
  | asks | served | lines | built => cases failed

/-- An instance is one that was there, or is that of the build. -/
theorem Stage.of_instance {w : World} {t : Task} (stage : Stage w r below t xs)
    (served : t = ⟨.answer, .give (k := .answer) (.ok v), below⟩) :
    (∃ c key, w.locate r.container r.key = .cached c key v) ∨
      ∃ b zs, xs = zs ++ [(b, v)] ∧ r.Leads w b ∧ ∀ x ∈ zs, b.Encloses w x.1 := by
  cases stage with
  | served was =>
    cases served
    exact .inl ⟨_, _, was⟩
  | built leads nested =>
    cases served
    exact .inr ⟨_, _, rfl, leads, nested⟩
  | inside _ within => exact absurd served (within.ne_give rfl _)
  | asks | refused | lines | failed => cases served

/-! ## A failure -/

/-- What is left by a resolution that fails, with the instances that were built within it. -/
structure LeavesNothing (s : System) (i : Nat) (r : Request) (below : Stack .answer) (f : Failure)
    (xs : List (Build × Instance)) (s' : System) : Prop where
  /-- The containers are as they were but for what is recorded of these instances, and hooks were shown no others. -/
  world : s.world.After xs s'.world
  /-- All of them were built within the build that failed, and are of other keys. -/
  nested : ∀ x ∈ xs, ∃ b, r.Leads s.world b ∧ b.Encloses s.world x.1
  /-- The key that was to be built has the instance and the pin that it had. -/
  untouched : ∀ b, r.Leads s.world b →
    (s'.world.container b.container).cache.get? b.key = (s.world.container b.container).cache.get? b.key ∧
      (s'.world.container b.container).cache.isPinned b.key = (s.world.container b.container).cache.isPinned b.key
  /-- The task goes on with the failure, and the others are where they were. -/
  tasks : s'.tasks = s.tasks.set i ⟨.answer, .give (k := .answer) (.error f), below⟩
  /-- No build is left in progress, and no lock held. -/
  ended : ∀ c key, s'.Builds c key ↔ s.Builds c key
  free : ∀ c key m, ¬ s.Builds c key → (s'.world.container c).locks.entries.get? key = some m →
    ((s'.world.container c).locks.mutex m).holder = none
  /-- The lookup comes to the same. -/
  anew : s'.world.locate r.container r.key = s.world.locate r.container r.key

theorem builds_set (found : s.tasks[i]? = some t) {t' : Task} (tasks : s'.tasks = s.tasks.set i t')
    (builds : t'.builds = t.builds) (c : ContainerId) (key : Key) : s'.Builds c key ↔ s.Builds c key := by
  have same : Task.building c key t' = Task.building c key t := by rw [Task.building, builds, Task.building]
  have sum := total_set (Task.building c key) found t'
  rw [builds_iff, builds_iff, tasks]
  omega

theorem Asks.leavesNothing (h : s.Asks p i r below) (solo : Solo p i below s xs s')
    (failed : s'.tasks[i]? = some ⟨.answer, .give (k := .answer) (.error f), below⟩) :
    s.LeavesNothing i r below f xs s' ∧ ∀ c key v, s.world.locate r.container r.key ≠ .cached c key v := by
  obtain ⟨stays, stage⟩ := solo.stage_of_found h failed
  obtain ⟨absent, nested⟩ := stage.of_failure rfl
  have enclosed : ∀ b, r.Leads s.world b → ∀ x ∈ xs, b.Encloses s.world x.1 := by
    intro b leads x hx
    rcases nested with rfl | ⟨b', leads', nested⟩
    · cases hx
    · obtain ⟨hc, hkey, -⟩ := leads'.same leads rfl rfl
      have inner := nested x hx
      refine ⟨?_, hkey ▸ inner.other, hc ▸ inner.container⟩
      rw [leads.path, hkey, ← leads'.path]
      exact inner.path
  have ended := builds_set h.found stays.tasks rfl
  refine ⟨⟨stays.world, fun x hx => ?_, fun b leads => ?_, stays.tasks, ended, fun c key m nobody entry => ?_, ?_⟩,
    absent⟩
  · rcases nested with rfl | ⟨b, leads, nested⟩
    · cases hx
    · exact ⟨b, leads, nested x hx⟩
  · exact stays.world.cache_of_other fun x hx _ => (enclosed b leads x hx).other
  · exact stays.reachable.holder_eq_none entry fun builds => nobody ((ended c key).1 builds)
  · rcases nested with rfl | ⟨b, leads, nested⟩
    · exact stays.world.locate_eq _ _
    · obtain ⟨β, located, -⟩ := leads.located
      rw [located]
      exact stays.world.locate h.reachable.sound.ok located fun x hx => ⟨(nested x hx).container, (nested x hx).other⟩

/-! ## Another attempt -/

/-- What is built on the way is new. -/
theorem Solo.fresh (h : s.Asks p i r below) (solo : Solo p i below s xs s') :
    s.world.supply.serials ≤ s'.world.supply.serials ∧ (∀ x ∈ xs, s.world.supply.serials ≤ x.2.serial) ∧
      ∀ x, s'.hand? = some x → s.world.supply.serials ≤ x.2.serial := by
  induction solo with
  | start =>
    refine ⟨Nat.le_refl _, fun _ hx => (List.not_mem_nil hx).elim, fun x hand => ?_⟩
    rw [hand?, current_eq h.running h.found] at hand
    cases hand
  | next before _ next _ ih =>
    obtain ⟨grows, fresh, hands⟩ := ih
    obtain ⟨t, stays, -⟩ := before.stage h
    have change := Moves.change stays.reachable (.next next)
    refine ⟨Nat.le_trans grows change.serials, fun x hx => ?_, fun x hand => ?_⟩
    · rcases List.mem_append.1 hx with hx | hx
      · exact fresh x hx
      · exact hands x (Option.mem_toList.1 hx)
    · obtain ⟨w₁, w, ts, edits, makes, -⟩ := change.makes stays.reachable.scheduled hand
      rw [makes.serial]
      exact Nat.le_trans grows edits.serials

/-- What is left by a resolution whose build succeeds, with the instances that were built within it. -/
structure BuildsAnew (s : System) (r : Request) (b : Build) (v : Instance) (xs : List (Build × Instance))
    (s' : System) : Prop where
  leads : r.Leads s.world b
  nested : ∀ x ∈ xs, b.Encloses s.world x.1
  /-- The instance is recorded and shown to hooks, after those that were built within its build. -/
  world : s.world.After (xs ++ [(b, v)]) s'.world
  /-- The instance was not there before. -/
  fresh : s.world.supply.serials ≤ v.serial
  /-- It is kept if it is to be shared. -/
  kept : b.lifetime.cached = true → s'.world.Keeps b.container b.key v

theorem Asks.buildsAnew (h : s.Asks p i r below)
    (absent : ∀ c key v, s.world.locate r.container r.key ≠ .cached c key v)
    (solo : Solo p i below s xs s') (served : s'.tasks[i]? = some ⟨.answer, .give (k := .answer) (.ok v), below⟩) :
    ∃ b zs, xs = zs ++ [(b, v)] ∧ s.BuildsAnew r b v zs s' := by
  obtain ⟨stays, stage⟩ := solo.stage_of_found h served
  rcases stage.of_instance rfl with ⟨c, key, cached⟩ | ⟨b, zs, rfl, leads, nested⟩
  · exact absurd cached (absent c key v)
  · refine ⟨b, zs, rfl, leads, nested, stays.world, ?_, fun shared => ?_⟩
    · exact (solo.fresh h).2.1 (b, v) (List.mem_append_right _ List.mem_cons_self)
    · have alive : s.world.Alive b.container := by
        obtain ⟨β, located, -⟩ := leads.located
        have right := s.world.right_locate r.container r.key
        rw [located] at right
        have asked : s.world.Alive r.container :=
          h.reachable.sound.alive _ (List.mem_of_getElem? h.found) _ (List.mem_append_left _ List.mem_cons_self)
        exact h.reachable.sound.ok.alive_of_mem_chain asked right.1
      exact stays.world.keeps_last alive shared

/-- A resolution of its own that fails leaves nothing behind, and whoever asks again gets an answer: if that is no
failure, it is an instance that was built anew, by what would have built the one before. -/
theorem Asks.failure_leaves_nothing (h : s.Asks p i r below) (solo : Solo p i below s xs s')
    (failed : s'.tasks[i]? = some ⟨.answer, .give (k := .answer) (.error f), below⟩) :
    s.LeavesNothing i r below f xs s' ∧
    ∀ {s₁ j r₁ below₁}, s₁.Asks p j r₁ below₁ → r₁.container = r.container → r₁.key = r.key → r₁.fallback = r.fallback →
      s₁.world.locate r.container r.key = s'.world.locate r.container r.key →
      (p.Finite → s₁.LeavesAlone j → s₁.Answers p j below₁ below₁) ∧
      ∀ {ys s₂ v}, Solo p j below₁ s₁ ys s₂ →
        s₂.tasks[j]? = some ⟨.answer, .give (k := .answer) (.ok v), below₁⟩ →
        ∃ b zs, ys = zs ++ [(b, v)] ∧ s₁.BuildsAnew r₁ b v zs s₂ ∧
          ∀ b₀, r.Leads s.world b₀ → b.container = b₀.container ∧ b.key = b₀.key ∧ b.binding = b₀.binding := by
  obtain ⟨leaves, absent⟩ := h.leavesNothing solo failed
  refine ⟨leaves, fun {s₁ j r₁ below₁} h₁ hc hkey hf same => ⟨fun finite alone => h₁.exists_answer alone finite, ?_⟩⟩
  have located : s₁.world.locate r₁.container r₁.key = s.world.locate r.container r.key := by
    rw [hc, hkey, same, leaves.anew]
  intro ys s₂ v solo₁ served
  obtain ⟨b, zs, split, anew⟩ := h₁.buildsAnew (fun c key v => located ▸ absent c key v) solo₁ served
  exact ⟨b, zs, split, anew, fun b₀ leads => leads.same anew.leads located hf⟩

/-! ## A constructor that fails once -/

/-- A constructor of `A`, which needs a `B`, fails the first time. -/
def brittle : Program where
  functions := (Table.empty.insert "b" { name := "b", product := .object "B", body := .inline [] }).insert "a"
    { name := "a", product := .object "A", params := [.one (.inject (.declared "B"))], body := .inline [],
      error := some ("not yet", []), failures := some 1 }

/-- Both are to be shared, and an `A` is asked for twice. -/
def brittleRun : Run brittle :=
  .ofOps brittle "root" [
    .on "root" (.register none (.function "b" true) .singleton none),
    .on "root" (.register none (.function "a" true) .singleton none),
    ask (.type (.declared "A")), ask (.type (.declared "A"))]

/-- The request of either operation, and what waits for the instance. -/
def brittleRequest : Request := { container := 0, key := .type (.declared "A"), path := [] }

def brittleStack : Stack .answer := .cons (.deliver 0 none none) .nil

theorem bare_brittle {w : World} (one : w.containers.length = 1)
    (own : (w.container 0).registry.own =
      (Table.empty.insert (.type (.declared "B")) ((Source.function "b" true).binding brittle .singleton none)).insert
        (.type (.declared "A")) ((Source.function "a" true).binding brittle .singleton none))
    (hooks : (w.container 0).callbacks.afterResolving = Table.empty) : w.Bare brittle := by
  refine .of_single one (fun key β found => ?_) (fun t => rfl) hooks
  rw [Registry.get?, own, Table.get?_insert, Table.get?_insert] at found
  split at found
  · cases found
    rfl
  · split at found
    · cases found
      rfl
    · cases found

theorem asks_brittleRun :
    (brittleRun.state 11).Asks brittle 2 brittleRequest brittleStack ∧
      (brittleRun.state 28).Asks brittle 3 brittleRequest brittleStack := by
  constructor
  · exact ⟨brittleRun.reachable 11, by decide +kernel, rfl, bare_brittle (by decide +kernel) rfl rfl, by rintro f ⟨⟩⟩
  · exact ⟨brittleRun.reachable 28, by decide +kernel, rfl, bare_brittle (by decide +kernel) rfl rfl, by rintro f ⟨⟩⟩

theorem leavesAlone_brittleRun : (brittleRun.state 28).LeavesAlone 3 :=
  leavesAlone_of_last (by decide +kernel) (by decide +kernel)

/-- The first attempt leaves the `B` that it built; the second finds the lock of `A` free, and builds the `A`. -/
theorem built_at_the_second_attempt :
    (brittleRun.state 11).Asks brittle 2 brittleRequest brittleStack ∧
    (∃ f x, Solo brittle 2 brittleStack (brittleRun.state 11) [x] (brittleRun.state 23) ∧
      (brittleRun.state 23).tasks[2]? = some ⟨.answer, .give (k := .answer) (.error f), brittleStack⟩ ∧
      (brittleRun.state 11).LeavesNothing 2 brittleRequest brittleStack f [x] (brittleRun.state 23)) ∧
    (brittleRun.state 28).Answers brittle 3 brittleStack brittleStack ∧
    ∃ b v, (brittleRun.state 36).tasks[3]? = some ⟨.answer, .give (k := .answer) (.ok v), brittleStack⟩ ∧
      (brittleRun.state 28).BuildsAnew brittleRequest b v [] (brittleRun.state 36) := by
  obtain ⟨first, second⟩ := asks_brittleRun
  -- The failure, after a `B`.
  obtain ⟨x, one⟩ : ∃ x, ((List.range 12).flatMap fun j => (brittleRun.state (11 + j)).hand?.toList) = [x] :=
    List.length_eq_one_iff.1 (by decide +kernel)
  have failing := brittleRun.solo 2 11 brittleStack 12 (by decide +kernel)
  rw [one] at failing
  have failed : (brittleRun.state 23).tasks[2]? = some ⟨.answer, .give (k := .answer)
      (.error (.build brittleRequest.key (.custom "not yet" []))), brittleStack⟩ := rfl
  obtain ⟨leaves, again⟩ := first.failure_leaves_nothing failing failed
  -- The same request, after it.
  have same : (brittleRun.state 28).world.locate 0 brittleRequest.key =
      (brittleRun.state 23).world.locate 0 brittleRequest.key := by
    trans .builds 0 brittleRequest.key (some ((Source.function "a" true).binding brittle .singleton none))
    · rfl
    · rfl
  obtain ⟨answers, builds⟩ := again second rfl rfl rfl same
  have built : ∃ v, (brittleRun.state 36).tasks[3]? = some ⟨.answer, .give (k := .answer) (.ok v), brittleStack⟩ :=
    ⟨_, rfl⟩
  obtain ⟨v, served⟩ := built
  obtain ⟨y, two⟩ : ∃ y, ((List.range 8).flatMap fun j => (brittleRun.state (28 + j)).hand?.toList) = [y] :=
    List.length_eq_one_iff.1 (by decide +kernel)
  have building := brittleRun.solo 3 28 brittleStack 8 (by decide +kernel)
  rw [two] at building
  obtain ⟨b, zs, split, anew, -⟩ := builds building served
  have nothing : zs = [] := by simpa using congrArg List.length split
  subst nothing
  have finite : brittle.Finite := ⟨[], fun t told => absurd rfl told⟩
  exact ⟨first, ⟨_, x, failing, failed, leaves⟩, answers finite leavesAlone_brittleRun, b, v, served, anew⟩

end System

end Injector
