import Injector.Proofs.Effective
import Injector.Proofs.Jobs
import Injector.Proofs.Notices
/-!
# Hooks registered late

Who registers a hook for a key that was served already is told of it at once: of the instance that the container
keeps, or of one that is built for it, just as for a request. If the key was not served, only the hook is registered.
All this is so while nobody builds the key there or waits to: who waits would build before the hook's own request.
From then on the hook is called in its turn with each instance that the container builds of the key, with tags or
without (`Run.late_hook_is_told`). So a build that asks its own container for the key with a tag has the hook called
twice (`late_hook_is_told_twice`).
-/
namespace Injector

/-- Builds that wait still do with more on top. -/
theorem Stack.On.mem_builds {a k : Kind} {base : Stack a} {above : Stack k} (on : base.On above) {b : Build}
    (hb : b ∈ base.builds) : b ∈ above.builds := by
  induction on with
  | base => exact hb
  | cons c _ ih =>
    cases c with
    | build => exact List.mem_cons_of_mem _ ih
    | slot | convert | body | deliver | observe | close | scopeBody | callback => exact ih

/-- A build is at work when it is begun. -/
theorem Maker.BegunBy.on {μ : Maker} {below : Stack .answer} {t : Task} (h : μ.BegunBy b below t) :
    (Stack.cons (.build b) below).On t.stack ∧ ∀ a, t ≠ ⟨.answer, .give (k := .answer) a, .cons (.build b) below⟩ := by
  cases μ with
  | function f signature =>
    obtain ⟨_, _, rfl⟩ := h
    exact ⟨.base, by rintro _ ⟨⟩⟩
  | chained product input target =>
    obtain rfl := h
    exact ⟨.cons _ .base, by rintro _ ⟨⟩⟩

namespace System

variable {p : Program} {s : System} {i n m : Nat} {b b' : Build} {v : Instance} {a : Except Failure Instance}

/-! ## The end of a build -/

/-- Whether the running task ends a build, with an instance or a failure. -/
def EndsBuild (s : System) (b : Build) (a : Except Failure Instance) : Prop :=
  ∃ i, ∃ below : Stack .answer, s.running = some i ∧
    s.tasks[i]? = some ⟨.answer, .give (k := .answer) a, .cons (.build b) below⟩

theorem endsBuild_ok_iff : s.EndsBuild b (.ok v) ↔ s.hand? = some (b, v) := by
  constructor
  · rintro ⟨i, below, running, found⟩
    rw [hand?, current_eq running found]
    rfl
  · intro hand
    obtain ⟨i, t, running, found, hand⟩ := exists_of_hand hand
    obtain ⟨below, rfl⟩ := Task.of_hand hand
    exact ⟨i, below, running, found⟩

/-- Who is at anything else ends no build. -/
theorem not_endsBuild {t : Task} (running : s.running = some i) (found : s.tasks[i]? = some t)
    (other : ∀ below : Stack .answer, t ≠ ⟨.answer, .give (k := .answer) a, .cons (.build b) below⟩) :
    ¬ s.EndsBuild b a := by
  rintro ⟨j, below, running', found'⟩
  cases running.symm.trans running'
  exact other below (Option.some.inj (found.symm.trans found'))

/-- While a build is in progress, no other one of its key ends on its container. -/
theorem Reachable.eq_of_endsBuild (reached : Reachable p s) {t : Task} {below : Stack .answer} (found : s.tasks[i]? = some t)
    (on : (Stack.cons (.build b) below).On t.stack) (ends : s.EndsBuild b' a) (hc : b'.container = b.container)
    (hkey : b'.key = b.key) :
    b' = b ∧ t = ⟨.answer, .give (k := .answer) a, .cons (.build b) below⟩ := by
  obtain ⟨j, above, -, found'⟩ := ends
  have most := reached.exclusive b.container b.key
  have top : Task.building b.container b.key ⟨.answer, .give (k := .answer) a, .cons (.build b') above⟩ =
      above.builds.countP (fun x => x.container == b.container && x.key == b.key) + 1 :=
    List.countP_cons_of_pos (by simp [hc, hkey])
  by_cases same : i = j
  · subst same
    obtain rfl := Option.some.inj (found'.symm.trans found)
    have on : (Stack.cons (.build b) below).On (.cons (.build b') above) := on
    cases on with
    | base => exact ⟨rfl, rfl⟩
    | cons _ on =>
      -- Else the task would be building the key twice.
      have two : 0 < above.builds.countP fun x => x.container == b.container && x.key == b.key :=
        List.countP_pos_iff.2 ⟨b, on.mem_builds List.mem_cons_self, by simp⟩
      have all := le_total (f := Task.building b.container b.key) (List.mem_of_getElem? found)
      omega
  · have one : 0 < Task.building b.container b.key t :=
      List.countP_pos_iff.2 ⟨b, on.mem_builds List.mem_cons_self, by simp⟩
    have both := add_le_total (Task.building b.container b.key) found found' same
    omega

namespace Run

/-- What waits for an answer stays there until it is handed one. -/
theorem on_of_pending (run : Run p) {k : Kind} {c : Cont .answer k} {rest : Stack k} {t : Task}
    (found : (run.state n).tasks[i]? = some t) (on : (Stack.cons c rest).On t.stack)
    (pending : run.Pending i (.cons c rest) n m) :
    ∃ t, (run.state m).tasks[i]? = some t ∧ (Stack.cons c rest).On t.stack :=
  pending.follows (P := fun _ t => (Stack.cons c rest).On t.stack) found on (fun on => Task.reply_of_on on)
    (fun on _ => on) fun _ _ _ on busy takes => takes.on on busy

/-- Who has just come to an answer runs. -/
theorem running_of_give (run : Run p) {base : Stack .answer} (waits : ¬ run.Answered i base n)
    (present : i < (run.state n).tasks.length)
    (gives : (run.state (n + 1)).tasks[i]? = some ⟨.answer, .give (k := .answer) a, base⟩) :
    (run.state (n + 1)).running = some i := by
  rcases run.moves n with moves | ⟨-, same⟩
  · exact moves.running_of_give present (fun a found => waits ⟨a, found⟩) gives
  · exact absurd ⟨a, same ▸ gives⟩ waits

end Run

/-! ## Calls of hooks -/

/-- Whether hooks `hs` of container `c`, and no others, are called with an instance in move `n`, one after the other. Those
that are for its type tell of it. -/
structure Run.CallsAll (run : Run p) (n : Nat) (c : ContainerId) (hs : List Hook) (v : Instance) : Prop where
  calls : (run.marks n).filter Mark.isCall =
    hs.map fun h => .called c ((run.state n).world.container c).isScope h v
  told : (run.state (n + 1)).world.log.filter Event.isHook = (run.state n).world.log.filter Event.isHook ++
    hs.filterMap fun h =>
      if h.ty = v.ty then some (.hook h.script.id v ((run.state n).world.container c).isScope) else none

/-- An instance that ends a build is shown to all hooks that its container has for it. -/
theorem Run.callsAll (run : Run p) (ends : (run.state n).EndsBuild b (.ok v)) :
    run.CallsAll n b.container ((run.state n).world.hooksFor b) v := by
  have calls := run.calls_of_hand (endsBuild_ok_iff.1 ends)
  obtain ⟨i, -, running, -⟩ := ends
  refine ⟨calls, ?_⟩
  rw [run.told running, ← Mark.event_of_calls, calls, List.filterMap_map]
  rfl

/-- What a run has left marks of is there later. -/
theorem Run.history_append (run : Run p) (le : n ≤ m) : ∃ H, run.history m = run.history n ++ H := by
  induction le with
  | refl => exact ⟨[], (List.append_nil _).symm⟩
  | step _ ih =>
    obtain ⟨H, history⟩ := ih
    exact ⟨_, by rw [run.history_succ, history, List.append_assoc]⟩

namespace Run.AddsHook

variable {run : Run p} {path : List Key} {c : ContainerId} {key : Key} {h : Hook} {below : Stack .reply}

section
variable (r : run.AddsHook n i path c key h below)
include r

theorem marks_eq : ∃ rest, run.marks n = .hook c false key h :: rest := by
  obtain ⟨scene, heading, found, -, target⟩ := r.performs
  rw [Run.marks, System.marks, current_eq r.running found]
  simp only [Option.map_some, Option.getD_some, Task.marks, target, World.lastingMarks, World.hookMark, r.stands]
  exact ⟨_, rfl⟩

/-- The hook stays registered, after those before it. -/
theorem hooksOf_eq (later : n < m) (alive : (run.state m).world.Alive c) :
    ∃ newer, ((run.state m).world.container c).callbacks.hooksOf key =
      ((run.state n).world.container c).callbacks.hooksOf key ++ h :: newer := by
  obtain ⟨rest, marks⟩ := r.marks_eq
  obtain ⟨more, history⟩ : ∃ more, run.history m = run.history n ++ .hook c false key h :: more := by
    obtain ⟨more, history⟩ := run.history_append later
    exact ⟨rest ++ more, by rw [history, run.history_succ, marks, List.append_assoc, List.cons_append]⟩
  have accounted := run.accounted m
  rw [history] at accounted
  have closed : ∀ x ∈ .hook c false key h :: more, x.opens c = false :=
    List.forall_mem_cons.2 ⟨rfl, accounted.closed (by simp [Mark.containers, Mark.about])⟩
  have scope : (run.history n ++ .hook c false key h :: more).any (Mark.opens c) = (run.history n).any (Mark.opens c) := by
    rw [List.any_append, List.any_eq_false.2 fun x hx => Bool.eq_false_iff.1 (closed x hx), Bool.or_false]
  refine ⟨History.ownHooks c ((run.history n).any (Mark.opens c)) key more, ?_⟩
  rw [(accounted.has alive key).all, ((run.accounted n).has r.alive key).all, scope, History.hooks_append closed]
  simp [History.ownHooks, History.hasHook, History.isFor]

/-- The hook is called in its turn for all that is built of the key later, with tags or without. -/
theorem callsAll (later : n < m) (ends : (run.state m).EndsBuild b (.ok v)) (hc : b.container = c) (plain : b.key.plain = key) :
    ∃ newer, run.CallsAll m c
      ((if b.key = key then [] else ((run.state m).world.container c).callbacks.hooksOf b.key) ++
        (((run.state n).world.container c).callbacks.hooksOf key ++ h :: newer)) v := by
  subst hc
  obtain ⟨newer, hooks⟩ := r.hooksOf_eq later (run.alive_of_hand (endsBuild_ok_iff.1 ends))
  refine ⟨newer, ?_⟩
  have calls := run.callsAll ends
  rw [World.hooksFor, Callbacks.hooksFor, plain] at calls
  rw [← hooks]
  by_cases same : b.key = key
  · rw [if_pos same, List.append_nil] at calls
    rwa [if_pos same, List.nil_append, ← same]
  · rw [if_neg same] at calls
    rwa [if_neg same]

end

end Run.AddsHook

/-! ## What is built for a hook -/

/-- How task `i`, which registers a hook for a key in move `n`, has the key built by a binding: it asks the container just
as a request does, and begins build `b` by the maker of the binding. When the build comes to an answer, the operation tells
its failure if it is one. Until then no other build of the key ends on the container. -/
structure Run.BuildsOne (run : Run p) (n i : Nat) (c : ContainerId) (key : Key) (below : Stack .reply) (β : Binding)
    (b : Build) : Prop where
  here : b.container = c ∧ b.key = key
  asks : (run.state (n + 1)).tasks[i]? =
    some ⟨.answer, .resolve { container := c, key, path := [] }, .cons (.observe c) below⟩
  begins : ∃ t, (run.state (n + 3)).tasks[i]? = some t ∧ β.maker.BegunBy b (.cons (.observe c) below) t
  ends : ∀ {m a}, run.Pending i (.cons (.build b) (.cons (.observe c) below)) (n + 3) m →
    (run.state m).tasks[i]? = some ⟨.answer, .give (k := .answer) a, .cons (.build b) (.cons (.observe c) below)⟩ →
    (run.state (m + 2)).tasks[i]? = some ⟨.reply, .give (k := .reply) (.ofResult (a.map fun _ => ())), below⟩ ∧
      ∀ k b' a', n ≤ k → k < m + 2 → b'.container = c → b'.key = key →
        ((run.state k).EndsBuild b' a' ↔ k = m ∧ b' = b ∧ a' = a)

/-- Who has an answer for a build that is done for a hook hands it on, and then tells how the operation went. -/
theorem Run.observes (run : Run p) {c : ContainerId} {below : Stack .reply} (running : (run.state m).running = some i)
    (found : (run.state m).tasks[i]? =
      some ⟨.answer, .give (k := .answer) a, .cons (.build b) (.cons (.observe c) below)⟩) :
    (run.state (m + 1)).running = some i ∧
    (run.state (m + 1)).tasks[i]? = some ⟨.answer, .give (k := .answer) a, .cons (.observe c) below⟩ ∧
    (run.state (m + 2)).tasks[i]? = some ⟨.reply, .give (k := .reply) (.ofResult (a.map fun _ => ())), below⟩ := by
  have running' : (run.state (m + 1)).running = some i := by
    rw [run.state_succ running found]
    exact running
  have handed : (run.state (m + 1)).tasks[i]? = some ⟨.answer, .give (k := .answer) a, .cons (.observe c) below⟩ := by
    obtain ⟨-, found⟩ := run.goes_on running found (by rintro _ ⟨⟩) (by rintro _ _ ⟨⟩) (by rintro _ _ ⟨⟩)
    cases a <;> exact found
  exact ⟨running', handed, (run.goes_on running' handed (by rintro _ ⟨⟩) (by rintro _ _ ⟨⟩) (by rintro _ _ ⟨⟩)).2⟩

namespace Run.AddsHook

section
variable {run : Run p} {c : ContainerId} {key : Key} {h : Hook} {below : Stack .reply} {β : Binding}
  (r : run.AddsHook n i [] c key h below)
  (marked : ((run.state n).world.container c).cache.isResolved key = true)
  (nothing : ((run.state n).world.container c).cache.get? key = none)
include r marked nothing

theorem asksPlainly : run.AsksPlainly (n + 1) i { container := c, key, path := [] } (.cons (.observe c) below) where
  running := (r.asks marked nothing).1
  found := (r.asks marked nothing).2
  path := rfl
  stands := by
    obtain ⟨chain, same⟩ := r.finds_succ marked nothing
    rw [chain, World.unalias_congr same, r.stands]

/-- No build is begun or in line once the hook is registered that was not so before. -/
theorem vacant_succ (vacant : ∀ t ∈ (run.state n).tasks, ∀ b ∈ t.locked, b.container = c → b.key ≠ key) :
    ∀ t ∈ (run.state (n + 1)).tasks, ∀ b ∈ t.locked, b.container = c → b.key ≠ key := by
  obtain ⟨scene, heading, found, -, -⟩ := r.performs
  intro t ht b hb
  rw [r.goes marked nothing, tasks_put, settledTasks] at ht
  rcases List.mem_append.1 ht with ht | ht
  · rcases List.mem_or_eq_of_mem_set (List.append_nil _ ▸ ht) with ht | rfl
    · exact vacant t ht b hb
    · exact vacant _ (List.mem_of_getElem? found) b hb
  · rw [locked_ofTeardowns _ t ht] at hb
    cases hb

/-- If the container has bound the key, and nobody is at work on it there, one instance is built for the hook. -/
theorem buildsOne (own : ((run.state n).world.container c).registry.get? key = some β)
    (vacant : ∀ t ∈ (run.state n).tasks, ∀ b ∈ t.locked, b.container = c → b.key ≠ key) :
    ∃ b, run.BuildsOne n i c key below β b := by
  obtain ⟨scene, heading, found, -, -⟩ := r.performs
  have plainly := r.asksPlainly marked nothing
  obtain ⟨chain, same⟩ := r.finds_succ marked nothing
  have finds := same c List.mem_cons_self
  have nothing' : ((run.state (n + 1)).world.container c).cache.get? key = none := by
    rw [rel_eq (finds.cache key), nothing]
  have own' : ((run.state (n + 1)).world.container c).registry.get? key.plain = some β := by
    rw [Registry.get?, finds.own key, r.plain]
    exact own
  obtain ⟨b, hc, hkey, -, -, lined, -, begins⟩ := plainly.hasBuilt nothing' own'
  obtain ⟨t, begun, by_maker⟩ := begins (r.vacant_succ marked nothing vacant)
  obtain ⟨on, at_work⟩ := by_maker.on
  have running : (run.state (n + 2)).running = some i := by
    rw [run.state_succ plainly.running plainly.found]
    exact plainly.running
  refine ⟨b, ⟨hc, hkey⟩, plainly.found, ⟨t, begun, by_maker⟩, fun {m a} pending answered => ?_⟩
  have later : n + 3 < m := by
    refine Nat.lt_of_le_of_ne pending.since ?_
    rintro rfl
    exact at_work a (Option.some.inj (begun.symm.trans answered))
  obtain ⟨m, rfl⟩ : ∃ l, m = l + 1 := ⟨m - 1, by omega⟩
  have ends : (run.state (m + 1)).running = some i := by
    obtain ⟨earlier, waits⟩ := pending.pred (Nat.le_of_lt_succ later)
    obtain ⟨u, before, -⟩ := run.on_of_pending begun on earlier
    exact run.running_of_give waits (List.getElem?_eq_some_iff.1 before).1 answered
  obtain ⟨running', handed, replied⟩ := run.observes ends answered
  refine ⟨replied, fun k b' a' since before hc' hkey' => ⟨fun ended => ?_, ?_⟩⟩
  · rcases Nat.lt_or_ge k (n + 3) with early | late
    · -- Before, the task does not hand over an answer.
      exfalso
      obtain rfl | rfl | rfl : k = n ∨ k = n + 1 ∨ k = n + 2 := by omega
      · exact not_endsBuild r.running found (by rintro _ ⟨⟩) ended
      · exact not_endsBuild plainly.running plainly.found (by rintro _ ⟨⟩) ended
      · exact not_endsBuild running lined (by rintro _ ⟨⟩) ended
    · rcases Nat.lt_or_ge k (m + 2) with at_work | after
      · have earlier : run.Pending i (.cons (.build b) (.cons (.observe c) below)) (n + 3) k :=
          ⟨late, fun l since before => pending.waits l since (by omega)⟩
        obtain ⟨u, found, on⟩ := run.on_of_pending begun on earlier
        obtain ⟨rfl, rfl⟩ := (run.reachable k).eq_of_endsBuild found on ended (hc'.trans hc.symm) (hkey'.trans hkey.symm)
        obtain rfl : k = m + 1 := by
          by_contra other
          exact pending.waits k late (by omega) ⟨a', found⟩
        cases found.symm.trans answered
        exact ⟨rfl, rfl, rfl⟩
      · obtain rfl : k = m + 2 := by omega
        exact absurd ended (not_endsBuild running' handed (by rintro _ ⟨⟩))
  · rintro ⟨rfl, rfl, rfl⟩
    exact ⟨i, _, ends, answered⟩

end

end Run.AddsHook

/-- Who registers a hook outside of all builds with a container that has its key bound or pinned, while nobody builds the
key there or waits to, is told of it if the key is pinned, or was served since the last termination: of the instance that the
container keeps, which it also serves, in the same step; else of the one that is built for it. If the key was not served,
with tags or without, the operation is over at once. From then on the hook is called in its turn with each instance that
the container builds of the key, with tags or without, and thus with the one that is built for it. -/
theorem Run.late_hook_is_told {run : Run p} {c : ContainerId} {key : Key} {h : Hook} {below : Stack .reply}
    (r : run.AddsHook n i [] c key h below)
    (own : ((run.state n).world.container c).registry.get? key ≠ none ∨
      ((run.state n).world.container c).cache.isPinned key = true)
    (vacant : ∀ t ∈ (run.state n).tasks, ∀ b ∈ t.locked, b.container = c → b.key ≠ key) :
    (((run.state n).world.container c).cache.isPinned key = true ∨ run.ServedSince n c key →
      (∀ v, (run.state n).world.Keeps c key v → (run.state n).world.locate c key = .cached c key v ∧
        (h.ty = v.ty → run.Replies n i below .ok
          [.hook h.script.id v ((run.state n).world.container c).isScope] (n + 1))) ∧
      (((run.state n).world.container c).cache.get? key = none →
        ∃ β b, ((run.state n).world.container c).registry.get? key = some β ∧ run.BuildsOne n i c key below β b)) ∧
    (((run.state n).world.container c).cache.isPinned key = false →
      (∀ key', key'.plain = key → ¬ run.ServedSince n c key') →
      run.Replies n i below .ok [] (n + 1) ∧ ∀ d, ((run.state (n + 1)).world.container d).live = true →
        (run.state (n + 1)).world.container d = ((run.state n).world.addHook c false key h).container d) ∧
    ∀ {m b v}, n < m → (run.state m).EndsBuild b (.ok v) → b.container = c → b.key.plain = key →
      ∃ newer, run.CallsAll m c
        ((if b.key = key then [] else ((run.state m).world.container c).callbacks.hooksOf b.key) ++
          (((run.state n).world.container c).callbacks.hooksOf key ++ h :: newer)) v := by
  have pins := (run.reachable n).keepsPins c key
  refine ⟨fun served => ⟨fun v kept => ⟨locate_of_stands r.stands kept, r.replies_of_kept kept⟩, fun nothing => ?_⟩,
    fun unpinned unserved => ?_, fun later ends => r.callsAll later ends⟩
  · have marked : ((run.state n).world.container c).cache.isResolved key = true :=
      served.elim (fun pinned => (pins pinned).2) (run.isResolved_of_served r.plain r.alive.2)
    -- What is pinned is kept, so the key is bound.
    obtain ⟨β, bound⟩ := Option.ne_none_iff_exists'.1 (own.resolve_right fun pinned => (pins pinned).1 nothing)
    obtain ⟨b, builds⟩ := r.buildsOne marked nothing bound vacant
    exact ⟨β, b, bound, builds⟩
  · apply r.replies_of_unmarked
    rw [Bool.eq_false_iff]
    intro marked
    rcases run.served_of_isResolved r.plain marked with pinned | ⟨key', plain, served⟩
    · rw [unpinned] at pinned
      cases pinned
    · exact unserved key' plain served

/-! ## A transient key, and one that asks for itself -/

/-- Whoever asks for an `A` takes a new one. The root has given one out when a hook for it is registered. -/
def lateOps : List Op := [
  .on "root" (.register none (.function "a" true) .transient none),
  .lasting ⟨"", "root", false⟩ (.get none (.type (.declared "A")) false none),
  .lasting ⟨"", "root", false⟩ (.onResolved (.declared "A") (.type (.declared "A")) ⟨"late", []⟩)]

def laterRun : Run plainA := .ofOps plainA "root" lateOps

/-- One more `A` is built for the hook, and only that one it is called with. -/
theorem new_instance_is_told : ∃ β b v,
    laterRun.AddsHook 16 2 [] 0 (.type (.declared "A")) ⟨.declared "A", "late", []⟩ .nil ∧
    laterRun.ServedSince 16 0 (.type (.declared "A")) ∧
    laterRun.BuildsOne 16 2 0 (.type (.declared "A")) .nil β b ∧ (laterRun.state 21).EndsBuild b (.ok v) ∧
    laterRun.CallsAll 21 0 [⟨.declared "A", "late", []⟩] v ∧
    (laterRun.state 23).tasks[2]? = some ⟨.reply, .give (k := .reply) .ok, .nil⟩ := by
  have adds : laterRun.AddsHook 16 2 [] 0 (.type (.declared "A")) ⟨.declared "A", "late", []⟩ .nil :=
    ⟨by decide +kernel, ⟨{}, ⟨"", "root", false⟩, rfl, rfl, by decide +kernel⟩, rfl, rfl⟩
  have spared : ∀ k < 16, 11 ≤ k → (laterRun.state k).terminates = none := by decide +kernel
  have served : laterRun.ServedSince 16 0 (.type (.declared "A")) :=
    ⟨11, by decide, ⟨_, rfl⟩, fun k since before => by rw [spared k before since]; rintro ⟨⟩⟩
  have bound : (((laterRun.state 16).world.container 0).registry.get? (.type (.declared "A"))).isSome = true := by decide +kernel
  have free : ((laterRun.state 16).tasks.all fun t => t.locked.isEmpty) = true := by decide +kernel
  obtain ⟨now, -, later⟩ := laterRun.late_hook_is_told adds (.inl (Option.isSome_iff_ne_none.1 bound)) fun t ht b hb => by
    rw [List.isEmpty_iff.1 (List.all_eq_true.1 free t ht)] at hb
    cases hb
  obtain ⟨β, b, -, builds⟩ := (now (.inr served)).2 rfl
  -- What is begun is what has an answer two moves later.
  obtain ⟨j, b', v, begun, answered⟩ : ∃ j b' v, (laterRun.state 19).tasks[2]? =
        some ⟨.answer, .fill j, .cons (.build b') (.cons (.observe 0) .nil)⟩ ∧
      (laterRun.state 21).tasks[2]? =
        some ⟨.answer, .give (k := .answer) (.ok v), .cons (.build b') (.cons (.observe 0) .nil)⟩ := ⟨_, _, _, rfl, rfl⟩
  obtain ⟨t, begun', by_maker⟩ := builds.begins
  obtain rfl := Option.some.inj (begun'.symm.trans begun)
  obtain rfl : b = b' := by
    have on := by_maker.on.1
    cases on with
    | base => rfl
    | cons _ on => exact absurd on.height (Nat.not_succ_le_self _)
  have busy : ∀ k < 2, (laterRun.state (19 + k)).atWork 2 2 = true := by decide +kernel
  have pending : laterRun.Pending 2 (.cons (.build b) (.cons (.observe 0) .nil)) 19 21 := Run.pending_of_atWork (k := 2) busy
  obtain ⟨replied, only⟩ := builds.ends pending answered
  have ends : (laterRun.state 21).EndsBuild b (.ok v) :=
    (only 21 b (.ok v) (by decide) (by decide) builds.here.1 builds.here.2).2 ⟨rfl, rfl, rfl⟩
  obtain ⟨newer, calls⟩ := later (by decide) ends builds.here.1 (congrArg Key.plain builds.here.2)
  -- There is no other hook.
  have before : (((laterRun.state 16).world.container 0).callbacks.hooksOf (.type (.declared "A"))).length = 0 := by
    decide +kernel
  have all : ((laterRun.marks 21).filter Mark.isCall).length = 1 := by decide +kernel
  rw [if_pos builds.here.2, List.eq_nil_of_length_eq_zero before, List.nil_append, List.nil_append] at calls
  rw [calls.calls, List.length_map, List.length_cons, Nat.succ_inj, List.length_eq_zero_iff] at all
  exact ⟨β, b, v, adds, served, builds, ends, all ▸ calls, replied⟩

/-- An `A` asks the container that it is built on for an `A` with a tag, unless that one is being built already. -/
def askingA : Program where
  functions := Table.empty.insert "a"
    { name := "a", product := .object "A", params := [.one .container],
      body := .awaited 0 [.lasting ⟨"", "$", false⟩ (.get none (.tagged (.declared "A") ["x"]) false none)] }

def askingRun : Run askingA := .ofOps askingA "root" lateOps

set_option maxRecDepth 1000 in
/-- The root has served the `A`, and nobody builds anything when the hook is registered. Still the hook is called twice
before the operation is over: with the `A` that is built for it, and before with one that has the tag. -/
theorem late_hook_is_told_twice : ∃ v v',
    askingRun.AddsHook 30 2 [] 0 (.type (.declared "A")) ⟨.declared "A", "late", []⟩ .nil ∧
    ((askingRun.state 30).world.container 0).registry.get? (.type (.declared "A")) ≠ none ∧
    (∀ t ∈ (askingRun.state 30).tasks, t.locked = []) ∧ askingRun.ServedSince 30 0 (.type (.declared "A")) ∧
    askingRun.Replies 30 2 .nil .ok [.hook "late" v' false, .hook "late" v false] 51 ∧ v'.serial ≠ v.serial := by
  have adds : askingRun.AddsHook 30 2 [] 0 (.type (.declared "A")) ⟨.declared "A", "late", []⟩ .nil :=
    ⟨by decide +kernel, ⟨{}, ⟨"", "root", false⟩, rfl, rfl, by decide +kernel⟩, rfl, rfl⟩
  have spared : ∀ k < 30, 25 ≤ k → (askingRun.state k).terminates = none := by decide +kernel
  have served : askingRun.ServedSince 30 0 (.type (.declared "A")) :=
    ⟨25, by decide, ⟨_, rfl⟩, fun k since before => by rw [spared k before since]; rintro ⟨⟩⟩
  have bound : (((askingRun.state 30).world.container 0).registry.get? (.type (.declared "A"))).isSome = true := by decide +kernel
  have free : ((askingRun.state 30).tasks.all fun t => t.locked.isEmpty) = true := by decide +kernel
  have busy : ∀ k < 51, 30 ≤ k → (askingRun.state k).atWork 2 0 = true := by decide +kernel
  refine ⟨_, _, adds, Option.isSome_iff_ne_none.1 bound,
    fun t ht => List.isEmpty_iff.1 (List.all_eq_true.1 free t ht), served,
    ⟨by decide, fun k since before => ?_, fun k since before r found => ?_, rfl, rfl⟩, by decide +kernel⟩
  · have works := busy k before since
    rw [atWork, Bool.and_eq_true] at works
    exact of_decide_eq_true works.1
  · have works := busy k before since
    rw [atWork, found] at works
    simp [Stack.height] at works

end System

end Injector
