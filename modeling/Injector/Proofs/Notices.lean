import Injector.Proofs.Hooks
import Injector.Proofs.Pins
import Injector.Proofs.Resolved
/-!
# Hooks for what is resolved already

Who registers a hook for a key that may be resolved already is called at once if the container has the
instance. A key that it keeps an instance of under its type is marked as resolved
(`Reachable.marked`), so the hook is called with that instance. Of the instances that its bases keep the
container knows nothing: its own marks and instances are all that is looked at, and a resolution that is
started after all is served by the base and shown to no hook (`Run.notices_iff`).
-/
namespace Injector

namespace System

variable {p : Program}

/-! ## Runs -/

/-- How task `i` comes to the reply of an operation that it is at in state `n`: it gives it in state `m`, until then no
other task goes on, and hooks tell `told`. -/
structure Run.Replies (run : Run p) (n i : Nat) (below : Stack .reply) (r : Reply) (told : List Event) (m : Nat) : Prop where
  later : n < m
  alone : ∀ k, n ≤ k → k < m → (run.state k).running = some i
  unanswered : ∀ k, n ≤ k → k < m → ∀ r', (run.state k).tasks[i]? ≠ some ⟨.reply, .give (k := .reply) r', below⟩
  replied : (run.state m).tasks[i]? = some ⟨.reply, .give (k := .reply) r, below⟩
  told : (run.state m).world.log.filter Event.isHook = (run.state n).world.log.filter Event.isHook ++ told

namespace Run.Replies

variable {run : Run p} {n m i : Nat} {t : Task} {below : Stack .reply} {r : Reply} {told : List Event}

/-- The next step gives the reply. -/
theorem last (running : (run.state n).running = some i) (found : (run.state n).tasks[i]? = some t)
    (at_work : ∀ r', t ≠ ⟨.reply, .give (k := .reply) r', below⟩)
    (replied : (run.state (n + 1)).tasks[i]? = some ⟨.reply, .give (k := .reply) r, below⟩) :
    run.Replies n i below r ((run.marks n).filterMap Mark.event?) (n + 1) where
  later := Nat.lt_succ_self n
  alone k hn hm := by
    obtain rfl : k = n := by omega
    exact running
  unanswered k hn hm r' found' := by
    obtain rfl : k = n := by omega
    exact at_work r' (Option.some.inj (found.symm.trans found'))
  replied := replied
  told := run.told running

/-- One step more comes before. -/
theorem cons (running : (run.state n).running = some i) (found : (run.state n).tasks[i]? = some t)
    (at_work : ∀ r', t ≠ ⟨.reply, .give (k := .reply) r', below⟩) (rest : run.Replies (n + 1) i below r told m) :
    run.Replies n i below r ((run.marks n).filterMap Mark.event? ++ told) m where
  later := Nat.lt_of_succ_lt rest.later
  alone k hn hm := by
    rcases Nat.eq_or_lt_of_le hn with rfl | hn
    · exact running
    · exact rest.alone k hn hm
  unanswered k hn hm r' found' := by
    rcases Nat.eq_or_lt_of_le hn with rfl | hn
    · exact at_work r' (Option.some.inj (found.symm.trans found'))
    · exact rest.unanswered k hn hm r' found'
  replied := rest.replied
  told := by rw [rest.told, run.told running, List.append_assoc]

end Run.Replies

/-- The containers that are still open after a move are as the step has left them. -/
theorem Run.container_succ (run : Run p) {n i : Nat} {t : Task} (running : (run.state n).running = some i)
    (found : (run.state n).tasks[i]? = some t) (unfinished : ∀ r, t ≠ ⟨.reply, .give (k := .reply) r, .nil⟩)
    (line : ∀ b below, t ≠ ⟨.answer, .line b, below⟩) (awaits : ∀ ts below, t ≠ ⟨.reply, .await ts, below⟩) {w : World}
    (world : (t.step ⟨p, (run.state n).held, (run.state n).tasks.length⟩ (run.state n).world).world = w)
    {d : ContainerId} (live : ((run.state (n + 1)).world.container d).live = true) :
    (run.state (n + 1)).world.container d = w.container d := by
  obtain ⟨settled, -⟩ := run.goes_on running found unfinished line awaits
  rw [settled, world_put, world] at live ⊢
  exact container_settled_of_live live

/-- A request that only a hook waits for is served what a container keeps, and no hook is called. -/
theorem Run.observed (run : Run p) {n i : Nat} {r : Request} {c e : ContainerId} {key : Key} {v : Instance}
    {below : Stack .reply} (running : (run.state n).running = some i)
    (found : (run.state n).tasks[i]? = some ⟨.answer, .resolve r, .cons (.observe c) below⟩)
    (located : (run.state n).world.locate r.container r.key = .cached e key v) :
    run.Replies n i below .ok [] (n + 2) ∧ ∀ d, ((run.state (n + 2)).world.container d).live = true →
      (run.state (n + 2)).world.container d = (run.state n).world.container d := by
  have served := run.asked running found located
  have running' : (run.state (n + 1)).running = some i := by
    rw [run.state_succ running found]
    exact running
  obtain ⟨-, replied⟩ := run.goes_on running' served (by rintro _ ⟨⟩) (by rintro _ _ ⟨⟩) (by rintro _ _ ⟨⟩)
  have quiet : (run.marks n).filterMap Mark.event? = [] := by
    rw [Run.marks, System.marks, current_eq running found]
    rfl
  have quiet' : (run.marks (n + 1)).filterMap Mark.event? = [] := by
    rw [Run.marks, System.marks, current_eq running' served]
    rfl
  have serves : (Task.step ⟨p, (run.state n).held, (run.state n).tasks.length⟩ (run.state n).world
      ⟨.answer, .resolve r, .cons (.observe c) below⟩).world = (run.state n).world := by
    simp only [Task.step, Step.resolve, located]
    rfl
  constructor
  · have replies := (Run.Replies.last running' served (by rintro _ ⟨⟩) replied).cons running found (by rintro _ ⟨⟩)
    rwa [quiet, quiet'] at replies
  · intro d live
    have last : _ = (run.state (n + 1)).world.container d :=
      run.container_succ running' served (by rintro _ ⟨⟩) (by rintro _ _ ⟨⟩) (by rintro _ _ ⟨⟩) rfl live
    rw [last] at live ⊢
    exact run.container_succ running found (by rintro _ ⟨⟩) (by rintro _ _ ⟨⟩) (by rintro _ _ ⟨⟩) serves live

/-- What an operation that registers a hook for a key on container `c`, where the key stands for itself, does in its first
step: it calls the hook at once if `c` has marked the key and keeps an instance, asks for one if it has and keeps none, and
is over if it has not. -/
theorem Task.step_onResolved {env : Env} {w : World} {scene : Scene} {heading : Heading} {key : Key} (h : Hook)
    {below : Stack .reply} {c : ContainerId} (target : w.target scene.self heading.target = some c)
    (stands : w.unalias (w.chain c) key = key) :
    Task.step env w ⟨.reply, .perform scene (.lasting heading (.onResolved h.ty key h.script)), below⟩ =
      let w' := w.addHook c false key h
      if (w.container c).cache.isResolved key.plain then
        match (w.container c).cache.get? key with
        | some v => .reply (w'.showTo env.program (c :: env.held) c v [h]) .ok below
        | none => .next w' (.resolve { container := c, key, path := scene.path }) (.cons (.observe c) below)
      else .reply w' .ok below := by
  have cache : ((w.addHook c false key h).container c).cache = (w.container c).cache :=
    World.cache_modifyCallbacks ..
  cases marked : (w.container c).cache.isResolved key.plain <;> cases kept : (w.container c).cache.get? key <;>
    simp [Task.step, Step.perform, target, Step.lasting, stands, cache, marked, kept]

/-- Whether the running task registers hook `h` with container `c` for a key without tags that is no alias there. The keys
`path` are being built around the operation, and `below` waits for its reply. -/
structure Run.AddsHook (run : Run p) (n i : Nat) (path : List Key) (c : ContainerId) (key : Key) (h : Hook)
    (below : Stack .reply) : Prop where
  running : (run.state n).running = some i
  performs : ∃ scene heading, (run.state n).tasks[i]? =
      some ⟨.reply, .perform scene (.lasting heading (.onResolved h.ty key h.script)), below⟩ ∧
    scene.path = path ∧ (run.state n).world.target scene.self heading.target = some c
  plain : key.plain = key
  stands : (run.state n).world.unalias ((run.state n).world.chain c) key = key

namespace Run.AddsHook

variable {run : Run p} {n i : Nat} {path : List Key} {c e : ContainerId} {key : Key} {h : Hook} {below : Stack .reply}
  {v : Instance} (r : run.AddsHook n i path c key h below)
include r

theorem alive : (run.state n).world.Alive c := by
  obtain ⟨scene, heading, found, -, target⟩ := r.performs
  have sound := (run.reachable n).sound
  refine World.alive_target sound.ok (fun d hd => ?_) target
  exact sound.alive _ (List.mem_of_getElem? found) d (List.mem_append_left _ (Option.mem_toList.2 hd))

/-- The hook is called at once only with an instance that the container keeps and has marked. -/
theorem calls : (run.marks n).filter Mark.isCall =
    if ((run.state n).world.container c).cache.isResolved key then
      ((((run.state n).world.container c).cache.get? key).map
        (Mark.called c ((run.state n).world.container c).isScope h)).toList else [] := by
  obtain ⟨scene, heading, found, -, target⟩ := r.performs
  rw [Run.marks, System.marks, current_eq r.running found]
  have calls := @Task.calls_of_onResolved ⟨p, (run.state n).held, (run.state n).tasks.length⟩ _ scene heading key below c
    (run.reachable n).sound.ok r.alive target h
  rwa [r.stands, r.plain] at calls

theorem state_succ : run.state (n + 1) = (run.state n).put i
    (if ((run.state n).world.container c).cache.isResolved key then
      match ((run.state n).world.container c).cache.get? key with
      | some v => .reply (((run.state n).world.addHook c false key h).showTo p (c :: (run.state n).held) c v [h]) .ok below
      | none => .next ((run.state n).world.addHook c false key h) (.resolve { container := c, key, path })
        (.cons (.observe c) below)
    else .reply ((run.state n).world.addHook c false key h) .ok below) := by
  obtain ⟨scene, heading, found, rfl, target⟩ := r.performs
  have step := @Task.step_onResolved ⟨p, (run.state n).held, (run.state n).tasks.length⟩ _ scene heading key h below _ target
    r.stands
  rw [r.plain] at step
  rw [run.state_succ r.running found]
  exact congrArg ((run.state n).put i) step

/-- The operation is over with its first step, in which hooks tell `told`. -/
theorem replies {w : World} {told : List Event} (goes : run.state (n + 1) = (run.state n).put i (.reply w .ok below))
    (tells : (run.marks n).filterMap Mark.event? = told) : run.Replies n i below .ok told (n + 1) := by
  obtain ⟨scene, heading, found, -, -⟩ := r.performs
  rw [← tells]
  exact .last r.running found (by rintro _ ⟨⟩) (goes ▸ get?_put found _)

/-- An instance that the container keeps itself the hook is called with. -/
theorem replies_of_kept (kept : (run.state n).world.Keeps c key v) (suits : h.ty = v.ty) :
    run.Replies n i below .ok [.hook h.script.id v ((run.state n).world.container c).isScope] (n + 1) := by
  have marked := (run.reachable n).marked c key r.plain (by rw [kept]; exact Option.some_ne_none v)
  have calls := r.calls
  have goes := r.state_succ
  rw [if_pos marked, kept] at calls goes
  refine r.replies goes ?_
  rw [← Mark.event_of_calls, calls]
  simp [Mark.event?, suits]

/-- If the container has not marked the key, the hook is registered, and that is all. -/
theorem replies_of_unmarked (unmarked : ((run.state n).world.container c).cache.isResolved key = false) :
    run.Replies n i below .ok [] (n + 1) ∧ ∀ d, ((run.state (n + 1)).world.container d).live = true →
      (run.state (n + 1)).world.container d = ((run.state n).world.addHook c false key h).container d := by
  have calls := r.calls
  have goes := r.state_succ
  rw [if_neg (Bool.eq_false_iff.1 unmarked)] at calls goes
  refine ⟨r.replies goes ?_, fun d live => ?_⟩
  · rw [← Mark.event_of_calls, calls]
    rfl
  · rw [goes] at live ⊢
    exact container_settled_of_live live

section Asks
variable (marked : ((run.state n).world.container c).cache.isResolved key = true)
  (nothing : ((run.state n).world.container c).cache.get? key = none)
include marked nothing

/-- If the container has marked the key and keeps no instance, the hook is registered, and the operation asks for one. -/
theorem goes : run.state (n + 1) = (run.state n).put i (.next ((run.state n).world.addHook c false key h)
    (.resolve { container := c, key, path }) (.cons (.observe c) below)) := by
  have goes := r.state_succ
  rwa [if_pos marked, nothing] at goes

theorem asks : (run.state (n + 1)).running = some i ∧ (run.state (n + 1)).tasks[i]? =
    some ⟨.answer, .resolve { container := c, key, path }, .cons (.observe c) below⟩ := by
  obtain ⟨scene, heading, found, -, -⟩ := r.performs
  rw [r.goes marked nothing]
  exact ⟨r.running, get?_put found _⟩

theorem container_succ {d : ContainerId} (live : ((run.state (n + 1)).world.container d).live = true) :
    (run.state (n + 1)).world.container d = ((run.state n).world.addHook c false key h).container d := by
  rw [r.goes marked nothing] at live ⊢
  exact container_settled_of_live live

/-- The container and its bases find what they found before. -/
theorem finds_succ : (run.state (n + 1)).world.chain c = (run.state n).world.chain c ∧
    ∀ d ∈ (run.state n).world.chain c, (run.state n).world.Finds Eq (run.state (n + 1)).world d := by
  have sound := (run.reachable (n + 1)).sound
  have alive : (run.state (n + 1)).world.Alive c :=
    sound.alive _ (List.mem_of_getElem? (r.asks marked nothing).2) c List.mem_cons_self
  have chain : (run.state (n + 1)).world.chain c = (run.state n).world.chain c := by
    rw [World.chain, World.chain, r.container_succ marked nothing alive.2]
    exact congrArg (c :: ·) (World.bases_modifyCallbacks ..)
  refine ⟨chain, fun d hd => ?_⟩
  have eq := r.container_succ marked nothing (sound.ok.alive_of_mem_chain alive (chain ▸ hd)).2
  exact .of_eq (by rw [eq]; exact World.registry_modifyCallbacks ..) (by rw [eq]; exact World.cache_modifyCallbacks ..)

/-- Once the hook is registered, a lookup from the container comes to what it came to before. -/
theorem locate_succ : (run.state (n + 1)).world.locate c key = (run.state n).world.locate c key := by
  obtain ⟨chain, same⟩ := r.finds_succ marked nothing
  exact (World.locate_congr (List.cons.inj chain).2 same key).eq

end Asks

/-- Of an instance that only a base keeps the hook is told nothing. It is registered, and that is all. -/
theorem replies_of_not_kept (nothing : ((run.state n).world.container c).cache.get? key = none)
    (located : (run.state n).world.locate c key = .cached e key v) :
    ∃ m, run.Replies n i below .ok [] m ∧ ∀ d, ((run.state m).world.container d).live = true →
      (run.state m).world.container d = ((run.state n).world.addHook c false key h).container d := by
  cases marked : ((run.state n).world.container c).cache.isResolved key with
  | false => exact ⟨n + 1, r.replies_of_unmarked marked⟩
  | true =>
    -- The container asks, and is served by the base.
    obtain ⟨scene, heading, found, -, -⟩ := r.performs
    obtain ⟨running, asked⟩ := r.asks marked nothing
    obtain ⟨replies, frame⟩ := run.observed running asked ((r.locate_succ marked nothing).trans located)
    have quiet : (run.marks n).filterMap Mark.event? = [] := by
      rw [← Mark.event_of_calls, r.calls, if_pos marked, nothing]
      rfl
    have replies := replies.cons r.running found (by rintro _ ⟨⟩)
    rw [quiet] at replies
    refine ⟨_, replies, fun d live => ?_⟩
    have same := frame d live
    rw [same] at live ⊢
    exact r.container_succ marked nothing live

end Run.AddsHook

section
variable (run : Run p) {n i : Nat} {scene : Scene} {heading : Heading} {t : Ty} {h : Hook} {below : Stack .reply}
  {c e : ContainerId} {v : Instance} (running : (run.state n).running = some i)
  (found : (run.state n).tasks[i]? =
    some ⟨.reply, .perform scene (.lasting heading (.onResolved h.ty (.type t) h.script)), below⟩)
  (target : (run.state n).world.target scene.self heading.target = some c)
include running found target

/-- Who registers a hook for a type with container `c`, of which some container of the chain keeps the instance `v`, is
told that all is well before any other task goes on. The hook is called with the instance until then exactly if it is `c`
that keeps it. If it is a base, no hook is called, and all that becomes of the containers is that the hook is registered. -/
theorem Run.notices_iff (located : (run.state n).world.locate c (.type t) = .cached e (.type t) v) (suits : h.ty = v.ty) :
    ∃ told m, run.Replies n i below .ok told m ∧
      (told = [.hook h.script.id v ((run.state n).world.container c).isScope] ↔ e = c) ∧
      (e ≠ c → told = [] ∧ ∀ d, ((run.state m).world.container d).live = true →
        (run.state m).world.container d = ((run.state n).world.addHook c false (.type t) h).container d) := by
  have adds : run.AddsHook n i scene.path c (.type t) h below := ⟨running, ⟨scene, heading, found, rfl, target⟩, rfl, rfl⟩
  by_cases own : e = c
  · subst own
    have right := (run.state n).world.right_locate e (.type t)
    rw [located] at right
    exact ⟨_, _, adds.replies_of_kept right.2 suits, ⟨fun _ => rfl, fun _ => rfl⟩,
      fun other => absurd rfl other⟩
  · have nothing : ((run.state n).world.container c).cache.get? (.type t) = none := by
      by_contra kept
      obtain ⟨v', kept⟩ := Option.ne_none_iff_exists'.1 kept
      have here := locate_of_keeps (w := (run.state n).world) rfl kept
      rw [located] at here
      injection here with here
      exact own here
    obtain ⟨m, replies, frame⟩ := adds.replies_of_not_kept nothing located
    exact ⟨_, m, replies, ⟨fun called => (List.cons_ne_nil _ _ called.symm).elim, fun same => absurd same own⟩, fun _ => ⟨rfl, frame⟩⟩

end

/-! ## A scope on a root that has the instance -/

/-- A constructor of an `A`. -/
def plainA : Program where
  functions := Table.empty.insert "a" { name := "a", product := .object "A", body := .inline [] }

/-- The root has an `A` that is to be shared. A scope is asked for it; then hooks for it are registered with the root and
with the scope. -/
def noticeRun : Run plainA :=
  .ofOps plainA "root" [
    .on "root" (.register none (.function "a" true) .singleton none),
    .on "root" (.openScope "scope"),
    .lasting ⟨"", "scope", false⟩ (.get none (.type (.declared "A")) false none),
    .lasting ⟨"", "root", false⟩ (.onResolved (.declared "A") (.type (.declared "A")) ⟨"root", []⟩),
    .lasting ⟨"", "scope", false⟩ (.onResolved (.declared "A") (.type (.declared "A")) ⟨"scope", []⟩)]

/-- The `A` that the root keeps the hook of the root is called with. -/
theorem root_gives_notice : ∃ v told m, (noticeRun.state 20).world.locate 0 (.type (.declared "A")) =
      .cached 0 (.type (.declared "A")) v ∧
    noticeRun.Replies 20 3 .nil .ok told m ∧ told = [.hook "root" v false] := by
  have kept : (((noticeRun.state 20).world.container 0).cache.get? (.type (.declared "A"))).any
      (fun v => v.ty == .declared "A") = true := by decide +kernel
  obtain ⟨v, kept, suits⟩ := (Option.any_eq_true _ _).1 kept
  have located := locate_of_keeps (w := (noticeRun.state 20).world) rfl kept
  obtain ⟨told, m, replies, own, -⟩ := noticeRun.notices_iff (n := 20) (i := 3) (c := 0) (h := ⟨.declared "A", "root", []⟩)
    (by decide +kernel) rfl (by decide +kernel) located (eq_of_beq suits).symm
  exact ⟨v, told, m, located, replies, own.2 rfl⟩

/-- The scope was served the `A` that the root keeps, which is to be shared, and nobody was terminated since. Still the hook
of the scope is not called with it. -/
theorem scope_gives_no_notice : ∃ v β,
    (noticeRun.state 16).tasks[2]? = some ⟨.answer, .give (k := .answer) (.ok v), .cons (.deliver 1 none none) .nil⟩ ∧
    (∀ n < 25, 16 ≤ n → (noticeRun.state n).terminates = none) ∧
    ((noticeRun.state 24).world.container 0).registry.get? (.type (.declared "A")) = some β ∧ β.lifetime.cached = true ∧
    (noticeRun.state 24).world.locate 1 (.type (.declared "A")) = .cached 0 (.type (.declared "A")) v ∧
    (noticeRun.state 24).tasks[4]? = some ⟨.reply, .perform {} (.lasting ⟨"", "scope", false⟩
      (.onResolved (.declared "A") (.type (.declared "A")) ⟨"scope", []⟩)), .nil⟩ ∧ v.ty = .declared "A" ∧
    (noticeRun.state 25).tasks[4]? = some ⟨.reply, .give (k := .reply) .ok, .nil⟩ ∧
    (noticeRun.state 25).world.log.length = (noticeRun.state 24).world.log.length := by
  have spared : ∀ n < 25, 16 ≤ n → (noticeRun.state n).terminates = none := by decide +kernel
  exact ⟨_, _, rfl, spared, rfl, rfl, rfl, rfl, rfl, rfl, rfl⟩

end System

end Injector
