import Injector.Proofs.Caches
import Injector.Proofs.Filling
import Injector.Proofs.Following
import Injector.Proofs.Inheritance
/-!
# Hooks of builds

Hooks are called when an instance that a container has built is handed over, once it is recorded:
all that the container has for the key, and then for its plain key, each with that instance
(`System.Run.calls_hooks`). Otherwise only the operation that registers a hook for what may be
resolved already calls that one at once.
-/
namespace Injector

/-- Whether a mark is that of a call of a hook. -/
def Mark.isCall : Mark → Bool
  | .called _ _ _ _ => true
  | _ => false

/-- Only calls of hooks tell what hooks tell. -/
theorem Mark.event_of_calls (ms : List Mark) : (ms.filter Mark.isCall).filterMap Mark.event? = ms.filterMap Mark.event? := by
  rw [List.filterMap_filter]
  congr 1
  funext m
  cases m <;> rfl

namespace World

variable {p : Program} {held : List ContainerId} {w : World} {c : ContainerId}

/-- Commands call no hooks. -/
theorem filter_isCall {ms : List Mark} (command : ∀ m ∈ ms, m.isCommand = true) : ms.filter Mark.isCall = [] :=
  List.filter_eq_nil_iff.2 fun m hm call => by
    have := command m hm
    cases m <;> simp_all [Mark.isCommand, Mark.isCall]

/-- Each of the hooks that are shown an instance is called with it, one after the other. -/
theorem calls_show (hc : c ∈ held) (v : Instance) (hooks : List Hook) : ∀ {w : World}, w.Ok → w.Alive c →
    (w.showMarks p held c v hooks).filter Mark.isCall = hooks.map fun h => .called c (w.container c).isScope h v := by
  induction hooks with
  | nil => exact fun _ _ => rfl
  | cons h rest ih =>
    intro w ok alive
    rw [showMarks, List.filter_cons_of_pos rfl, List.map_cons]
    congr 1
    split
    · have told : w.Edits p held (w.tell (.hook h.script.id v (w.container c).isScope)) := .single (.tell _)
      have hself : ∀ d, some c = some d → d ∈ held ∧ (w.tell (.hook h.script.id v (w.container c).isScope)).Alive d := by
        rintro d ⟨⟩
        exact ⟨hc, alive⟩
      have done := told.trans (commands_edits (p := p) h.script.actions (told.ok ok) hself)
      dsimp only
      rw [List.filter_append, filter_isCall isCommand_of_commands, List.nil_append,
        ih (Edits.ok done ok) (Edits.alive_held done alive hc), Container.isScope, (Edits.bases_eq done alive.1).2]
      rfl
    · exact ih ok alive

/-- What is recorded is no hook. -/
theorem hooksFor_record (w : World) (b : Build) (v : Instance) : (w.record b v).hooksFor b = w.hooksFor b :=
  hooksFor_recorded w [(b, v)] b.container b.key

end World

/-! ## Calls of a step -/

/-- Whether a task registers hook `h` with container `c` for a key that is resolved already, and the container has the
instance `v` of it. -/
def Task.CallsAtOnce (w : World) (t : Task) (c : ContainerId) (h : Hook) (v : Instance) : Prop :=
  ∃ s heading key, ∃ below : Stack .reply,
    t = ⟨.reply, .perform s (.lasting heading (.onResolved h.ty key h.script)), below⟩ ∧
      w.target s.self heading.target = some c ∧
      (w.container c).cache.isResolved (w.unalias (w.chain c) key).plain = true ∧
      (w.container c).cache.get? (w.unalias (w.chain c) key) = some v

/-- The hook that an operation registers for what may be resolved already is the only one it can call at once. -/
theorem Task.calls_of_onResolved {env : Env} {w : World} {s : Scene} {heading : Heading} {key : Key} {below : Stack .reply}
    {c : ContainerId} (ok : w.Ok) (hc : w.Alive c) (target : w.target s.self heading.target = some c) (h : Hook) :
    (Task.marks env w ⟨.reply, .perform s (.lasting heading (.onResolved h.ty key h.script)), below⟩).filter Mark.isCall =
      if (w.container c).cache.isResolved (w.unalias (w.chain c) key).plain then
        (((w.container c).cache.get? (w.unalias (w.chain c) key)).map (Mark.called c (w.container c).isScope h)).toList
      else [] := by
  let key' := w.unalias (w.chain c) key
  let w' := w.addHook c false key' h
  have cache : (w'.container c).cache = (w.container c).cache := World.cache_modifyCallbacks _ _ _ _
  have bases : (w'.container c).bases = (w.container c).bases := World.bases_modifyCallbacks _ _ _ _
  have edits : w.Edits env.program (c :: env.held) w' := .single (.addHook hc false _ _)
  have other : (w.hookMark c false key' h).isCall = false := rfl
  simp only [Task.marks, target, Option.map_some, Option.getD_some]
  rw [World.lastingMarks, List.filter_cons_of_neg (Bool.eq_false_iff.1 other), cache]
  by_cases resolved : (w.container c).cache.isResolved key'.plain = true
  · rw [if_pos resolved, if_pos resolved]
    cases (w.container c).cache.get? key' with
    | none => rfl
    | some v =>
      have calls := World.calls_show (p := env.program) (List.mem_cons_self (l := env.held)) v [h]
        (edits.ok ok) (edits.alive_held hc List.mem_cons_self)
      rw [Container.isScope, bases] at calls
      exact calls
  · rw [if_neg resolved, if_neg resolved]
    rfl

section
variable {env : Env} {w : World} {t : Task} (ok : w.Ok) (alive : ∀ c ∈ t.held, w.Alive c) (hh : ∀ c ∈ t.held, c ∈ env.held)
include ok alive hh

/-- With an instance in hand for a build, all hooks of its container are called. -/
theorem Task.calls_of_hand {b : Build} {v : Instance} (hand : t.hand? = some (b, v)) :
    (t.marks env w).filter Mark.isCall =
      (w.hooksFor b).map fun h => .called b.container (w.container b.container).isScope h v := by
  obtain ⟨below, rfl⟩ := Task.of_hand hand
  have here : b.container ∈ b.container :: below.held := List.mem_cons_self
  have bases : ((w.record b v).container b.container).bases = (w.container b.container).bases :=
    World.field_recorded Container.bases (fun _ _ _ => rfl) w [(b, v)] b.container
  rw [Task.marks, List.filter_cons_of_neg (by simp [Mark.isCall]), World.hooksFor_record,
    World.calls_show (hh _ here) v _ (Step.ok_record v ok (alive _ here)) (Step.alive_record v (alive _ here)), Container.isScope,
    bases]
  rfl

/-- With none, no hook is called but one that is registered and called at once. -/
theorem Task.calls_of_no_hand (nothing : t.hand? = none) : (t.marks env w).filter Mark.isCall = [] ∨
    ∃ c h v, t.CallsAtOnce w c h v ∧ (t.marks env w).filter Mark.isCall = [.called c (w.container c).isScope h v] := by
  unfold Task.marks
  split
  · next j _ =>
    refine .inl (World.filter_isCall fun m hm => ?_)
    unfold World.bodyMarks at hm
    split at hm
    · cases hm
    all_goals exact World.isCommand_of_commands m hm
  · exact .inl (World.filter_isCall World.isCommand_of_command)
  · next s heading a below =>
    cases target : w.target s.self heading.target with
    | none => exact .inl rfl
    | some c =>
      have hc : w.Alive c := World.alive_target ok
        (fun d hd => alive d (List.mem_append_left _ (Option.mem_toList.2 hd))) target
      cases a with
      | get | call | join => exact .inl rfl
      | terminate => exact .inl rfl
      | scope name ops => cases ops <;> exact .inl rfl
      | onResolved ty key script =>
        have calls := @Task.calls_of_onResolved env w s heading key below c ok hc target ⟨ty, script⟩
        simp only [Task.marks, target, Option.map_some, Option.getD_some] at calls ⊢
        rw [calls]
        by_cases resolved : (w.container c).cache.isResolved (w.unalias (w.chain c) key).plain = true
        · rw [if_pos resolved]
          cases found : (w.container c).cache.get? (w.unalias (w.chain c) key) with
          | none => exact .inl rfl
          | some v => exact .inr ⟨c, ⟨ty, script⟩, v, ⟨s, heading, key, below, rfl, target, resolved, found⟩, rfl⟩
        · rw [if_neg resolved]
          exact .inl rfl
  · cases nothing
  · split <;> exact .inl rfl
  · exact .inl rfl

end

/-! ## Hooks by the history -/

/-- The hooks that container `c` has for a key after a history: for a scope those that its base passed on when it was
opened, and then its own. -/
structure History.Has (c : ContainerId) (key : Key) (H : List Mark) (hs : List Hook) : Prop where
  all : hs = hooks c (H.any (Mark.opens c)) key H
  scope : ∀ b H₁ H₂, H = H₁ ++ .opened b c :: H₂ → hs = hooksForScopes b key H₁ ++ ownHooks c true key H₂
  root : (∀ m ∈ H, m.opens c = false) → hs = ownHooks c false key H

theorem World.AccountedBy.has {w : World} {H : List Mark} {c : ContainerId} (h : w.AccountedBy H) (alive : w.Alive c)
    (key : Key) : History.Has c key H ((w.container c).callbacks.hooksOf key) := by
  have all : (w.container c).callbacks.hooksOf key = History.hooks c (H.any (Mark.opens c)) key H := by
    rw [(h.follows c alive).hooks, h.isScope alive]
  refine ⟨all, fun b H₁ H₂ split => ?_, fun unopened => ?_⟩
  · have scope : H.any (Mark.opens c) = true := by
      rw [List.any_eq_true]
      exact ⟨.opened b c, split ▸ List.mem_append_right _ List.mem_cons_self, beq_self_eq_true c⟩
    rw [all, scope]
    subst split
    exact h.hooks_of_opened key
  · have root : H.any (Mark.opens c) = false := List.any_eq_false.2 fun m hm => Bool.eq_false_iff.1 (unopened m hm)
    rw [all, root]
    exact History.hooks_append (H := []) unopened false key

namespace System

variable {p : Program}

/-- How the hooks are called for an instance `v` that build `b` has made: task `i` hands it to the build and, once it is
recorded and all hooks `hs` were called with it, to what waits below. -/
structure Run.CallsHooks (run : Run p) (n i : Nat) (b : Build) (v : Instance) (below : Stack .answer) (hs : List Hook) :
    Prop where
  running : (run.state n).running = some i
  found : (run.state n).tasks[i]? = some ⟨.answer, .give (k := .answer) (.ok v), .cons (.build b) below⟩
  /-- What has a part of the instance in hand is still to be filled. -/
  waits : ∀ j ∈ below.asking, j.todo ≠ []
  /-- The container has these hooks for the key, and then for the plain key if that is another one. -/
  has : ∃ ofKey ofPlain, hs = ofKey ++ ofPlain ∧ History.Has b.container b.key (run.history n) ofKey ∧
    if b.key = b.key.plain then ofPlain = [] else History.Has b.container b.key.plain (run.history n) ofPlain
  cached : b.lifetime.cached = true →
    (((run.state n).world.record b v).container b.container).cache.get? b.key = some v
  teardown : ∀ f, b.finalizer = some f → (((run.state n).world.record b v).container b.container).callbacks.terminating =
    ((run.state n).world.container b.container).callbacks.terminating ++ [.finalize f v]
  calls : (run.marks n).filter Mark.isCall = hs.map fun h =>
    .called b.container ((run.state n).world.container b.container).isScope h v
  world : ∃ ts, (run.state (n + 1)).world =
    settledWorld ((((run.state n).world.record b v).showTo p (run.state n).held b.container v hs).leave b) ts
  next : (run.state (n + 1)).tasks[i]? = some ⟨.answer, .give (k := .answer) (.ok v), below⟩

/-- The hooks that the container has for what is in hand are called with it, and no other ones. -/
theorem Run.calls_of_hand (run : Run p) {n : Nat} {b : Build} {v : Instance} (hand : (run.state n).hand? = some (b, v)) :
    (run.marks n).filter Mark.isCall = ((run.state n).world.hooksFor b).map fun h =>
      .called b.container ((run.state n).world.container b.container).isScope h v := by
  obtain ⟨i, t, running, found, hand⟩ := exists_of_hand hand
  have ht := List.mem_of_getElem? found
  have sound := (run.reachable n).sound
  rw [Run.marks, System.marks, current_eq running found]
  exact Task.calls_of_hand sound.ok (sound.alive t ht) (held_of_mem ht) hand

theorem Run.callsHooks (run : Run p) {n : Nat} {b : Build} {v : Instance} (hand : (run.state n).hand? = some (b, v)) :
    ∃ i below hs, run.CallsHooks n i b v below hs := by
  have calls := run.calls_of_hand hand
  obtain ⟨i, t, running, found, hand⟩ := exists_of_hand hand
  obtain ⟨below, rfl⟩ := Task.of_hand hand
  have reached := run.reachable n
  have ht := List.mem_of_getElem? found
  have here : (run.state n).world.Alive b.container := reached.sound.alive _ ht _ List.mem_cons_self
  have recorded : ((run.state n).world.record b v).container b.container =
      ((run.state n).world.container b.container).record b v := by
    rw [World.container_record, if_pos ⟨rfl, here.1⟩]
  have goes : (∃ ts, (run.state (n + 1)).world = settledWorld ((((run.state n).world.record b v).showTo p (run.state n).held
      b.container v ((run.state n).world.hooksFor b)).leave b) ts) ∧
      (run.state (n + 1)).tasks[i]? = some ⟨.answer, .give (k := .answer) (.ok v), below⟩ := by
    obtain ⟨world, found'⟩ := run.goes_on running found (by rintro _ ⟨⟩) (by rintro _ _ ⟨⟩) (by rintro _ _ ⟨⟩)
    rw [← World.hooksFor_record _ b v]
    exact ⟨⟨_, world⟩, found'⟩
  refine ⟨i, below, (run.state n).world.hooksFor b, ?_⟩
  constructor
  case running => exact running
  case found => exact found
  case waits => exact (reached.filling _ ht).stack.tail.todo
  case has =>
    refine ⟨_, _, rfl, (run.accounted n).has here b.key, ?_⟩
    by_cases plain : b.key = b.key.plain
    · rw [if_pos plain, if_pos plain]
    · rw [if_neg plain, if_neg plain]
      exact (run.accounted n).has here b.key.plain
  case cached =>
    intro cached
    rw [recorded, Container.record, if_pos cached]
    exact (Cache.get?_insert _ _ _ v).trans (if_pos rfl)
  case teardown =>
    intro f hf
    rw [recorded, Container.record, hf]
    rfl
  case calls => exact calls
  case world => exact goes.1
  case next => exact goes.2

/-- What hooks tell in a move, they tell when they are called; all that was told may be cleared away. -/
theorem Run.tells (run : Run p) (n : Nat) : (run.state (n + 1)).world.log = [] ∨
    (run.state (n + 1)).world.log.filter Event.isHook = (run.state n).world.log.filter Event.isHook ++
      ((run.marks n).filter Mark.isCall).filterMap Mark.event? := by
  rw [Mark.event_of_calls]
  cases running : (run.state n).running with
  | some i => exact .inr (run.told running)
  | none =>
    rw [Run.marks, marks_of_idle running, List.filterMap_nil, List.append_nil]
    rcases run.moves n with moves | ⟨-, same⟩
    · rcases moves.cases with ⟨i, -, -, running', -⟩ | ⟨-, world, -⟩ | ⟨-, ⟨o, world, -⟩ | ⟨name, same⟩ | ⟨-, same⟩⟩
      · rw [running] at running'
        cases running'
      · rw [world]
        exact .inr rfl
      · rw [world]
        exact .inr (congrArg _ (World.log_release _ _))
      · rw [same]
        exact .inr (congrArg _ (World.log_release _ _))
      · rw [same]
        exact .inl rfl
    · rw [same]
      exact .inr rfl

/-- Each time an instance is built, and only then but for a hook that is registered for what is resolved already, hooks
are called: all that the container has for the key and its plain key then, in order, once. What a hook is called for is
recorded before, and handed on after; and no function has started that waits for it. -/
theorem Run.calls_hooks (run : Run p) (n : Nat) :
    (∀ b v, (run.state n).hand? = some (b, v) → (∃ i below hs, run.CallsHooks n i b v below hs) ∧
      ∀ m b' v', (run.state m).hand? = some (b', v') → v'.serial = v.serial → m = n) ∧
    ((run.state n).hand? = none → (run.marks n).filter Mark.isCall = [] ∨ ∃ t c h v, (run.state n).current = some t ∧
      t.CallsAtOnce (run.state n).world c h v ∧
      (run.marks n).filter Mark.isCall = [.called c ((run.state n).world.container c).isScope h v]) ∧
    ((run.state (n + 1)).world.log = [] ∨
      (run.state (n + 1)).world.log.filter Event.isHook = (run.state n).world.log.filter Event.isHook ++
        ((run.marks n).filter Mark.isCall).filterMap Mark.event?) ∧
    (∀ c d H₁ H₂, (run.state n).world.Alive c → run.history n = H₁ ++ H₂ → (History.inherits d c H₂ = true ↔
      d ∈ ((run.state n).world.container c).bases ∧ ∀ e ∈ (run.state n).world.chain c,
        d ∈ ((run.state n).world.container e).bases → ∃ b, .opened b e ∈ H₂)) ∧
    ∀ t ∈ (run.state n).tasks, ∀ j times below, t = ⟨.answer, .pause j times, below⟩ → j.todo = [] := by
  have reached := run.reachable n
  refine ⟨fun b v hand => ⟨run.callsHooks hand, fun m b' v' hand' same => ?_⟩, fun nothing => ?_, run.tells n,
    fun c d H₁ H₂ alive split => ?_, fun t ht j times below at_body => ?_⟩
  · rcases Nat.lt_trichotomy m n with before | same' | after
    · exact absurd same (Nat.ne_of_lt (run.serial_lt_of_hand before hand' hand))
    · exact same'
    · exact absurd same (Nat.ne_of_gt (run.serial_lt_of_hand after hand hand'))
  · cases current : (run.state n).current with
    | none =>
      rw [Run.marks, System.marks, current]
      exact .inl rfl
    | some t =>
      obtain ⟨i, running, found⟩ := exists_of_current current
      have ht := List.mem_of_getElem? found
      have nothing : t.hand? = none := by rwa [hand?, current] at nothing
      rw [Run.marks, System.marks, current]
      refine (Task.calls_of_no_hand reached.sound.ok (reached.sound.alive t ht) (held_of_mem ht) nothing).imp_right ?_
      rintro ⟨c, h, v, atOnce, calls⟩
      exact ⟨t, c, h, v, rfl, atOnce, calls⟩
  · have accounted := run.accounted n
    rw [split] at accounted
    exact accounted.inherits_iff reached.sound.ok alive
  · have filling := (reached.filling t ht).activity
    rw [at_body] at filling
    exact filling

/-- The root has hooks for `A`, for `A` with a tag, and for the `A` of its scopes. Then a scope is asked for an `A` with
that tag. -/
def hookedRun : Run {} :=
  .ofOps {} "root" [
    .on "root" (.register (some (.type (.declared "A"))) (.function "plain" true) .singleton none),
    .on "root" (.afterResolving false .text (.type (.declared "A")) ⟨"plain", []⟩),
    .on "root" (.afterResolving false .text (.tagged (.declared "A") ["x"]) ⟨"tagged", []⟩),
    .on "root" (.afterResolving true .text (.type (.declared "A")) ⟨"scoped", []⟩),
    .on "root" (.openScope "scope"),
    .lasting ⟨"", "scope", false⟩ (.get none (.tagged (.declared "A") ["x"]) false none)]

/-- It is the root that builds the `A`, and its own hooks are called: the one for the tagged key first. -/
theorem root_calls_its_hooks : ∃ b v i below hs, (hookedRun.state 29).hand? = some (b, v) ∧ b.container = 0 ∧
    hookedRun.CallsHooks 29 i b v below hs ∧ hs.map (fun h => h.script.id) = ["tagged", "plain"] ∧
    (hookedRun.state 30).hand? = none ∧ (hookedRun.marks 30).filter Mark.isCall = [] := by
  have built : ((hookedRun.state 29).hand?.any fun x => x.1.container == 0) = true := by decide +kernel
  have hooks : ((hookedRun.marks 29).filter Mark.isCall).filterMap (fun
      | .called _ _ h _ => some h.script.id
      | _ => none) = ["tagged", "plain"] := by decide +kernel
  have nothing : (hookedRun.state 30).hand?.isNone = true := by decide +kernel
  have quiet : ((hookedRun.marks 30).filter Mark.isCall).length = 0 := by decide +kernel
  obtain ⟨⟨b, v⟩, hand, here⟩ := (Option.any_eq_true _ _).1 built
  obtain ⟨i, below, hs, calls⟩ := ((hookedRun.calls_hooks 29).1 b v hand).1
  refine ⟨b, v, i, below, hs, hand, eq_of_beq here, calls, ?_, Option.isNone_iff_eq_none.1 nothing,
    List.eq_nil_of_length_eq_zero quiet⟩
  rw [calls.calls, List.filterMap_map] at hooks
  rw [← hooks]
  exact List.filterMap_eq_map.symm ▸ rfl

end System

end Injector
