import Injector.Proofs.Endings
import Injector.Proofs.Isolation
import Injector.Proofs.Notices
import Injector.Proofs.Schedules
import Injector.Proofs.Unused
/-!
# Termination resets to the registrations

What is pinned is kept and marked, so a container that is terminated keeps its pins and nothing else (`Cache.clearBuilt_eq`).
If nobody builds on it or waits to, and its callbacks perform nothing, it is then as a container with the same registrations, hooks and
callbacks for scopes, on which only these pins were made (`Container.afresh`). `Run.starts_afresh`: whatever is done later, with
functions that keep no state, comes to the same on both, up to the identity of instances.
-/
namespace Injector

/-! ## Caches with nothing but pins -/

/-- Sets of keys are the same if the same keys are in them. -/
theorem keySet_ext {x x' : KeySet Key} (same : ∀ key, x.contains key = true ↔ x'.contains key = true) : x = x' := by
  refine Table.ext (funext fun key => ?_)
  have same := same key
  unfold Table.contains at same
  cases in_x : x.get? key <;> cases in_x' : x'.get? key <;> simp [in_x, in_x'] at same ⊢

namespace Cache

variable {x : Cache} {pins : List (Key × Instance)} {key : Key}

/-- A cache into which instances are put by hand, one after the other, and nothing else. -/
def ofPins (pins : List (Key × Instance)) : Cache := pins.foldl (fun x pin => x.pin pin.1 pin.2) {}

/-- Whether these are the pins of a cache, each once. -/
structure Survivors (x : Cache) (pins : List (Key × Instance)) : Prop where
  distinct : (pins.map Prod.fst).Nodup
  mem_iff : ∀ key v, (key, v) ∈ pins ↔ x.isPinned key = true ∧ x.get? key = some v

theorem ofPins_concat (pins : List (Key × Instance)) (pin : Key × Instance) :
    ofPins (pins ++ [pin]) = (ofPins pins).pin pin.1 pin.2 := List.foldl_concat ..

theorem isPinned_ofPins : (ofPins pins).isPinned key = true ↔ key ∈ pins.map Prod.fst := by
  induction pins using List.reverseRecOn with
  | nil => simp [ofPins, isPinned, Table.contains]
  | append_singleton pins pin ih =>
    rw [ofPins_concat, isPinned_pin, Bool.or_eq_true, decide_eq_true_iff, ih, List.map_append, List.mem_append, or_comm]
    exact or_congr_right (eq_comm.trans List.mem_singleton.symm)

theorem isResolved_ofPins : (ofPins pins).isResolved key = (ofPins pins).isPinned key := by
  induction pins using List.reverseRecOn with
  | nil => rfl
  | append_singleton pins pin ih => rw [ofPins_concat, isResolved_pin, isPinned_pin, ih]

theorem get?_ofPins (distinct : (pins.map Prod.fst).Nodup) {v : Instance} :
    (ofPins pins).get? key = some v ↔ (key, v) ∈ pins := by
  induction pins using List.reverseRecOn with
  | nil => simp [ofPins, get?]
  | append_singleton pins pin ih =>
    obtain ⟨key', v'⟩ := pin
    rw [List.map_append, List.nodup_append] at distinct
    obtain ⟨others, -, new⟩ := distinct
    rw [ofPins_concat, get?_pin]
    split
    · next same =>
      -- The last pin decides for its key, and no other has that key.
      subst same
      have absent : (key', v) ∉ pins := fun h => new _ (List.mem_map_of_mem h) _ (List.mem_singleton_self _) rfl
      simp [absent, eq_comm]
    · next other => simp [ih others, Ne.symm other]

/-- What a termination leaves is what was pinned. -/
theorem clearBuilt_eq (kept : x.KeepsPins) (h : x.Survivors pins) : x.clearBuilt = ofPins pins := by
  have pinned : ∀ key, x.isPinned key = true ↔ (ofPins pins).isPinned key = true := by
    intro key
    rw [isPinned_ofPins, List.mem_map]
    constructor
    · intro pinned
      obtain ⟨v, some⟩ := Option.ne_none_iff_exists'.1 (kept key pinned).1
      exact ⟨(key, v), (h.mem_iff key v).2 ⟨pinned, some⟩, rfl⟩
    · rintro ⟨⟨key, v⟩, mem, rfl⟩
      exact ((h.mem_iff key v).1 mem).1
  refine Cache.ext (Table.ext (funext fun key => Option.ext fun v => ?_)) (keySet_ext pinned) (keySet_ext fun key => ?_)
  · change x.clearBuilt.get? key = some v ↔ (ofPins pins).get? key = some v
    rw [get?_clearBuilt, Option.ite_none_right_eq_some, get?_ofPins h.distinct, h.mem_iff]
  · change x.clearBuilt.isResolved key = true ↔ (ofPins pins).isResolved key = true
    rw [isResolved_clearBuilt, Bool.and_eq_true, isResolved_ofPins, ← pinned]
    exact ⟨And.left, fun pinned => ⟨pinned, (kept key pinned).2⟩⟩

/-- Whether not all keys are pinned, but those of a list. -/
def FewPins (x : Cache) : Prop := ∃ keys : List Key, ∀ key, x.isPinned key = true → key ∈ keys

theorem invariant_fewPins : Invariant FewPins where
  empty := ⟨[], fun key pinned => by cases pinned⟩
  pin {x} h key v := by
    obtain ⟨keys, all⟩ := h
    refine ⟨key :: keys, fun key' pinned => ?_⟩
    rw [isPinned_pin, Bool.or_eq_true, decide_eq_true_iff] at pinned
    exact List.mem_cons.2 (pinned.imp Eq.symm (all key'))
  record {x} h shared key v := by
    obtain ⟨keys, all⟩ := h
    refine ⟨keys, fun key' pinned => all key' ?_⟩
    cases shared with
    | false => exact pinned
    | true =>
      rw [isPinned_markResolved] at pinned
      exact (Bool.and_eq_true_iff.1 ((isPinned_insert x key key' v).symm.trans pinned)).2
  clearBuilt h := h

theorem FewPins.survivors (h : x.FewPins) (kept : x.KeepsPins) : ∃ pins, x.Survivors pins := by
  obtain ⟨keys, all⟩ := h
  refine ⟨(keys.dedup.filter x.isPinned).map fun key => (key, (x.get? key).getD default), ?_, fun key v => ?_⟩
  · rw [List.map_map, show Prod.fst ∘ (fun key => (key, (x.get? key).getD default)) = id from rfl, List.map_id]
    exact (List.nodup_dedup keys).filter _
  · rw [List.mem_map]
    constructor
    · rintro ⟨key, mem, same⟩
      obtain ⟨rfl, rfl⟩ := Prod.mk.inj same
      have pinned := (List.mem_filter.1 mem).2
      obtain ⟨v, some⟩ := Option.ne_none_iff_exists'.1 (kept key pinned).1
      exact ⟨pinned, by rw [some, Option.getD_some]⟩
    · rintro ⟨pinned, some⟩
      exact ⟨key, List.mem_filter.2 ⟨List.mem_dedup.2 (all key pinned), pinned⟩, by rw [some, Option.getD_some]⟩

end Cache

/-! ## Containers with nothing but pins -/

/-- A container with the same base, registrations, hooks and callbacks for scopes, on which only these pins were made. -/
def Container.afresh (x : Container) (pins : List (Key × Instance)) : Container :=
  { bases := x.bases, registry := x.registry, cache := .ofPins pins, callbacks := x.callbacks.clearTerminating }

namespace Renaming

variable {R : Renaming}

/-- Whether the same keys are pinned, to counterparts. -/
abbrev Pins (R : Renaming) : List (Key × Instance) → List (Key × Instance) → Prop :=
  List.Forall₂ fun pin pin' => pin.1 = pin'.1 ∧ R.Own pin.2 pin'.2

theorem caches_ofPins {pins pins' : List (Key × Instance)} (h : R.Pins pins pins') :
    Cache.Like R.Own (.ofPins pins) (.ofPins pins') :=
  List.rel_foldl (P := Cache.Like R.Own) (fun x x' caches pin pin' same => by
    rw [same.1]
    exact caches.pin _ same.2) Cache.like_empty h

theorem containers_afresh (c : ContainerId) (x : Container) {pins pins' : List (Key × Instance)} (h : R.Pins pins pins') :
    R.correspondence.Containers c (x.afresh pins) (x.afresh pins') :=
  ⟨rfl, rfl, rfl, caches_ofPins h, Callbacks.like_self [] rfl, Correspondence.locks_empty (R.clear c)⟩

end Renaming

namespace System

variable {p : Program}

/-- A system with nothing on container `c`. -/
def without (s : System) (c : ContainerId) : System := { s with world := s.world.modify c fun _ => {} }

end System

/-- Systems that correspond but for a container correspond if that does. -/
theorem Renaming.Systems.of_without {R : Renaming} {s s' : System} {c : ContainerId}
    (h : R.Systems (s.without c) (s'.without c))
    (here : R.correspondence.Containers c (s.world.container c) (s'.world.container c)) : R.Systems s s' where
  tasks := h.tasks
  running := h.running
  waiting := h.waiting
  world :=
    have length : s'.world.containers.length = s.world.containers.length := by
      simpa [System.without] using h.world.length
    { tickets := h.world.tickets
      present := fun d _ => by rw [length]
      rest := { h.world.rest with length := length }
      containers := fun d _ => by
        by_cases same : c = d
        · exact same ▸ here
        · have other := h.world.container d
          simp only [System.without] at other
          rwa [World.container_modify_of_ne _ _ same, World.container_modify_of_ne _ _ same] at other }

/-! ## The end of a container -/

/-- A teardown that performs nothing is over with the step that begins it. -/
theorem Step.windDown_silent {t : Teardown} (silent : t.actions = []) (w : World) (path : List Key) (ts : List Teardown)
    (below : Stack .done) : ∃ w', (∀ c, w'.container c = w.container c) ∧
      windDown w path (t :: ts) below = .next w' (.windDown path ts) below := by
  have passed : ∀ w ops, ops = [] → callback w path ops ts below = .next w (.windDown path ts) below := by
    rintro w _ rfl
    rfl
  cases t with
  | callback s => exact ⟨w.tell (.terminating s.id), fun _ => rfl, passed _ _ silent⟩
  | finalize f v =>
    unfold windDown
    dsimp only
    split
    · exact ⟨w.tell (.finalized f.script.id v), fun _ => rfl, passed _ _ silent⟩
    · exact ⟨w, fun _ => rfl, rfl⟩

namespace System

variable {p : Program}

/-- Whether in move `n` task `i` performs the operation that terminates container `c`, on which nobody builds or waits to
build, and whose callbacks perform nothing. (A line at one of its locks stays, and it is not then as one on which nothing
was ever asked for.) -/
structure Run.Terminates (run : Run p) (n i : Nat) (c : ContainerId) (below : Stack .reply) : Prop where
  running : (run.state n).running = some i
  performs : ∃ scene heading,
    (run.state n).tasks[i]? = some ⟨.reply, .perform scene (.lasting heading .terminate), below⟩ ∧
      (run.state n).world.target scene.self heading.target = some c
  idle : ∀ t ∈ (run.state n).tasks, ∀ b ∈ t.locked, b.container ≠ c
  silent : ∀ x ∈ ((run.state n).world.container c).callbacks.terminating, x.actions = []

/-- Whether in state `n` the running task `i`, which terminates container `c`, is at activity `a`, and `c` is `x`. -/
structure Run.Closes (run : Run p) (n i : Nat) (c : ContainerId) (a : Activity .done) (below : Stack .reply)
    (x : Container) : Prop where
  running : (run.state n).running = some i
  found : (run.state n).tasks[i]? = some ⟨.done, a, .cons (.close (some c) .ok) below⟩
  same : (run.state n).world.container c = x

/-- What the end of a container comes to that task `i` brings about from move `n` to move `m`: nothing else happens in
between, and the container is `x` as soon as that has begun, and when it is over, unless nobody reaches it then. -/
structure Run.Resets (run : Run p) (n i : Nat) (c : ContainerId) (below : Stack .reply) (x : Container) (m : Nat) : Prop where
  later : n < m
  closes : ∀ k, n < k → k < m → ∃ a, run.Closes k i c a below x
  replied : (run.state m).tasks[i]? = some ⟨.reply, .give (k := .reply) .ok, below⟩
  after : ((run.state m).world.container c).live = true → (run.state m).world.container c = x

namespace Run

variable {run : Run p} {n i : Nat} {c : ContainerId} {path : List Key} {ts : List Teardown} {below : Stack .reply}
  {x : Container} {pins : List (Key × Instance)}

/-- What a step leaves of a container that its task still has to close is left of it after the move. -/
theorem closes_of_put {st : Step} {w : World} {a : Activity .done} {t : Task} (running : (run.state n).running = some i)
    (found : (run.state n).tasks[i]? = some t) (goes : run.state (n + 1) = (run.state n).put i st)
    (step : st = .next w a (.cons (.close (some c) .ok) below)) : run.Closes (n + 1) i c a below (w.container c) := by
  subst step
  have found' : (run.state (n + 1)).tasks[i]? = some ⟨.done, a, .cons (.close (some c) .ok) below⟩ := by
    rw [goes]
    exact get?_put found _
  have held : c ∈ (Task.mk .done a (.cons (.close (some c) .ok) below)).held :=
    List.mem_append_right _ (List.mem_append_left _ List.mem_cons_self)
  have live := ((run.reachable (n + 1)).sound.alive _ (List.mem_of_getElem? found') c held).2
  refine ⟨by rw [goes]; exact running, found', ?_⟩
  rw [goes, world_put] at live ⊢
  exact container_settled_of_live live

/-- The task that terminates a container goes on with what that had left. Of the container only what was registered and
pinned is left. -/
theorem Terminates.closes (h : run.Terminates n i c below)
    (survivors : ((run.state n).world.container c).cache.Survivors pins) : ∃ path,
      run.Closes (n + 1) i c (.windDown path ((run.state n).world.container c).callbacks.terminating) below
        (((run.state n).world.container c).afresh pins) := by
  obtain ⟨scene, heading, found, target⟩ := h.performs
  have reached := run.reachable n
  have alive : (run.state n).world.Alive c := World.alive_target reached.sound.ok
    (fun d hd => reached.sound.alive _ (List.mem_of_getElem? found) d (List.mem_append_left _ (Option.mem_toList.2 hd))) target
  have goes : run.state (n + 1) = (run.state n).put i
      (Step.perform ⟨p, (run.state n).held, (run.state n).tasks.length⟩ (run.state n).world scene (.lasting heading .terminate)
        below) := run.state_succ h.running found
  have step : Step.perform ⟨p, (run.state n).held, (run.state n).tasks.length⟩ (run.state n).world scene
      (.lasting heading .terminate) below = .next ((run.state n).world.terminate c).2
        (.windDown scene.path ((run.state n).world.container c).callbacks.terminating)
        (.cons (.close (some c) .ok) below) := by
    simp only [Step.perform, target]
    rfl
  have closes := closes_of_put h.running found goes step
  have live := alive.2
  have unlocked := reached.locks_eq_empty h.idle
  rw [World.container_terminate alive, Cache.clearBuilt_eq (reached.keepsPins c) survivors] at closes
  refine ⟨scene.path, ?_⟩
  generalize (run.state n).world.container c = x at closes live unlocked ⊢
  obtain ⟨bases, registry, cache, callbacks, locks, live'⟩ := x
  obtain rfl : locks = {} := unlocked
  obtain rfl : live' = true := live
  exact closes

namespace Closes

/-- What was left performs nothing: it is over after one move each, and the container stays as it is. -/
theorem succ {t : Teardown} (h : run.Closes n i c (.windDown path (t :: ts)) below x) (silent : t.actions = []) :
    run.Closes (n + 1) i c (.windDown path ts) below x := by
  obtain ⟨w, same, step⟩ := Step.windDown_silent silent (run.state n).world path ts (.cons (.close (some c) .ok) below)
  have goes : run.state (n + 1) = (run.state n).put i
      (Step.windDown (run.state n).world path (t :: ts) (.cons (.close (some c) .ok) below)) :=
    run.state_succ h.running h.found
  have closes := closes_of_put h.running h.found goes step
  rwa [same, h.same] at closes

theorem drop (h : run.Closes n i c (.windDown path ts) below x) (silent : ∀ t ∈ ts, t.actions = []) {k : Nat}
    (within : k ≤ ts.length) : run.Closes (n + k) i c (.windDown path (ts.drop k)) below x := by
  induction k with
  | zero => exact h
  | succ k ih =>
    have before := ih (Nat.le_of_succ_le within)
    rw [List.drop_eq_getElem_cons within] at before
    exact before.succ (silent _ (List.getElem_mem within))

theorem emptied (h : run.Closes n i c (.windDown path []) below x) :
    run.Closes (n + 1) i c (.give (k := .done) ()) below x := by
  have closes := closes_of_put h.running h.found (run.state_succ h.running h.found) rfl
  rwa [h.same] at closes

theorem replied (h : run.Closes n i c (.give (k := .done) ()) below x) :
    (run.state (n + 1)).tasks[i]? = some ⟨.reply, .give (k := .reply) .ok, below⟩ ∧
      (((run.state (n + 1)).world.container c).live = true → (run.state (n + 1)).world.container c = x) := by
  have goes : run.state (n + 1) = (run.state n).put i (.reply (run.state n).world .ok below) :=
    run.state_succ h.running h.found
  rw [goes]
  refine ⟨get?_put h.found _, fun live => ?_⟩
  rw [world_put] at live ⊢
  exact (container_settled_of_live live).trans h.same

end Closes

theorem Terminates.resets (h : run.Terminates n i c below)
    (survivors : ((run.state n).world.container c).cache.Survivors pins) :
    run.Resets n i c below (((run.state n).world.container c).afresh pins)
      (n + 3 + ((run.state n).world.container c).callbacks.terminating.length) := by
  obtain ⟨path, closes⟩ := h.closes survivors
  have silent := h.silent
  generalize ((run.state n).world.container c).callbacks.terminating = ts at closes silent ⊢
  have nothing := closes.drop silent (Nat.le_refl _)
  rw [List.drop_length] at nothing
  have last := nothing.emptied
  obtain ⟨replied, after⟩ := last.replied
  rw [show n + 1 + ts.length + 1 + 1 = n + 3 + ts.length by omega] at replied after
  refine ⟨by omega, fun k since before => ?_, replied, after⟩
  obtain ⟨d, rfl⟩ := Nat.exists_eq_add_of_lt since
  by_cases going : d ≤ ts.length
  · exact ⟨_, (Nat.add_right_comm n 1 d ▸ closes.drop silent going : run.Closes (n + d + 1) i c _ below _)⟩
  · obtain rfl : d = ts.length + 1 := by omega
    exact ⟨_, (show n + (ts.length + 1) + 1 = n + 1 + ts.length + 1 by omega) ▸ last⟩

end Run

/-- In every run what is pinned is kept and marked, and what is kept without tags is marked. So a container that is terminated
while nobody builds on it or waits to, and whose callbacks perform nothing, is left with its base, registrations, hooks and callbacks for
scopes, and with its pins as if they had been made on a new container. From then on nothing tells it from any other such
container with counterparts of the pins: in systems that correspond otherwise, where functions keep no state, the same
choices are possible, and the same is replied and told, but for instances, which are counterparts. -/
theorem Run.starts_afresh (run : Run p) :
    (∀ n c, ((run.state n).world.container c).cache.KeepsPins ∧ ((run.state n).world.container c).cache.Marked) ∧
    ∀ {n i c below}, run.Terminates n i c below → (∃ pins, ((run.state n).world.container c).cache.Survivors pins) ∧
      ∀ {pins}, ((run.state n).world.container c).cache.Survivors pins →
        run.Resets n i c below (((run.state n).world.container c).afresh pins)
          (n + 3 + ((run.state n).world.container c).callbacks.terminating.length) ∧
        (p.Steady → ∀ (R : Renaming) {s s' : System} {pins' : List (Key × Instance)}, Reachable p s →
          s.world.container c = ((run.state n).world.container c).afresh pins →
          s'.world.container c = ((run.state n).world.container c).afresh pins' → R.Pins pins pins' →
          R.Systems (s.without c) (s'.without c) →
          ∀ choices, Option.Rel R.Systems (s.follow p choices) (s'.follow p choices)) := by
  refine ⟨fun n c => ⟨(run.reachable n).keepsPins c, (run.reachable n).marked c⟩, fun {n i c below} h => ⟨?_, fun survivors => ?_⟩⟩
  · exact ((run.reachable n).forall_caches Cache.invariant_fewPins c).survivors ((run.reachable n).keepsPins c)
  · refine ⟨h.resets survivors, fun steady R s s' pins' reached here here' same others choices => ?_⟩
    have containers := R.containers_afresh c ((run.state n).world.container c) same
    rw [← here, ← here'] at containers
    exact (others.of_without containers).follow steady reached choices

/-! ## A forge that is closed and opened again -/

/-- The system once all that is over is cleared away. -/
def cleared (s : System) : System := { world := { s.world with log := [] } }

/-- The forge makes a tool, gets an anvil, and is closed. -/
def usedRun : Run forge :=
  .ofOps forge "forge" (forgeOps ++ [askFor "forge" "Tool", .on "forge" (.pin none (.object "Anvil")),
    .on "forge" (.terminating false ⟨"sweep", []⟩), .lasting ⟨"", "forge", false⟩ .terminate])

/-- A forge gets an anvil and makes nothing. -/
def idleRun : Run forge := .ofOps forge "forge" (forgeOps ++ [.on "forge" (.pin none (.object "Anvil"))])

def anvilKey : Key := .type (.declared "Anvil")

/-- The anvil of the forge that made a tool of metal before. -/
def usedAnvil : Instance := ⟨2, .object "Anvil" 3⟩

def idleAnvil : Instance := ⟨0, .object "Anvil" 1⟩

/-- The anvils are counterparts. -/
def anvils : Renaming where
  left := { supply := ⟨3, 3⟩, tickets := 2 }
  right := { supply := ⟨1, 1⟩ }
  known v v' := v = usedAnvil ∧ v' = idleAnvil
  similar := by
    rintro _ _ ⟨rfl, rfl⟩
    exact .object ..
  serials n n' := n = 2 ∧ n' = 0
  faithful := by
    rintro _ _ _ _ ⟨rfl, rfl⟩ ⟨rfl, rfl⟩
    exact iff_of_true rfl rfl
  given := by
    rintro _ _ ⟨rfl, rfl⟩
    decide

theorem own_anvils : anvils.Own usedAnvil idleAnvil := ⟨.known (.old ⟨rfl, rfl⟩), .inl ⟨rfl, rfl⟩⟩

theorem terminates_usedRun : usedRun.Terminates 35 5 0 .nil where
  running := by decide +kernel
  performs := ⟨_, _, rfl, by decide +kernel⟩
  idle t ht b hb := by
    have free : ((usedRun.state 35).tasks.all fun t => t.locked.isEmpty) = true := by decide +kernel
    rw [List.isEmpty_iff.1 (List.all_eq_true.1 free t ht)] at hb
    cases hb
  silent x hx := by
    have silent : (((usedRun.state 35).world.container 0).callbacks.terminating.all fun x => x.actions.isEmpty) = true := by
      decide +kernel
    exact List.isEmpty_iff.1 (List.all_eq_true.1 silent x hx)

theorem survivors_usedRun : ((usedRun.state 35).world.container 0).cache.Survivors [(anvilKey, usedAnvil)] where
  distinct := List.nodup_singleton _
  mem_iff key v := by
    have pinned : ((usedRun.state 35).world.container 0).cache.pinned =
      ((Table.empty.erase (.type (.declared "Metal"))).erase (.type (.declared "Tool"))).insert anvilKey () := rfl
    have kept : ((usedRun.state 35).world.container 0).cache.get? anvilKey = some usedAnvil := rfl
    have only : ((usedRun.state 35).world.container 0).cache.isPinned key = true ↔ anvilKey = key := by
      rw [Cache.isPinned, pinned, Table.contains_insert, Table.contains_erase, Table.contains_erase]
      simp [Table.contains]
    rw [only, List.mem_singleton]
    constructor
    · rintro ⟨⟩
      exact ⟨rfl, kept⟩
    · rintro ⟨rfl, same⟩
      rw [← Option.some.inj (same.symm.trans kept)]

theorem steady_forge : forge.Steady :=
  ⟨fun name => (pure_forge.function name).steady, fun t => (pure_forge.injectable t).steady⟩

set_option maxRecDepth 2000 in
theorem world_usedRun : ((cleared (usedRun.state 40)).without 0).world = {
    containers := [{}], names := [("forge", 0)], supply := ⟨3, 3⟩, tickets := 2,
    invocations := (Table.empty.insert "steel" 1).insert "tool" 1 } := rfl

theorem world_idleRun : ((cleared (idleRun.state 12)).without 0).world = {
    containers := [{}], names := [("forge", 0)], supply := ⟨1, 1⟩ } := rfl

/-- But for the forges, nothing tells the one system from the other. -/
theorem systems_cleared : anvils.Systems ((cleared (usedRun.state 40)).without 0) ((cleared (idleRun.state 12)).without 0) where
  tasks := .nil
  running := Eq.refl none
  waiting := Eq.refl []
  world := by
    rw [world_usedRun, world_idleRun]
    have new := fun c => Correspondence.containers_new (anvils.clear c)
    exact {
      tickets := ⟨0, rfl, rfl⟩
      present := fun _ _ => Iff.rfl
      containers := fun
        | 0, _ => new 0
        | c + 1, _ => new (c + 1)
      rest := {
        supply := ⟨0, 0, rfl, rfl⟩
        told := ⟨[], [], [], [], .inl ⟨rfl, rfl⟩, rfl, rfl, .nil⟩
        names := rfl
        saved := fun _ => .none
        length := rfl
        orphans := .nil } }

set_option maxRecDepth 2000 in
theorem container_idleRun : (cleared (idleRun.state 12)).world.container 0 =
    ((usedRun.state 35).world.container 0).afresh [(anvilKey, idleAnvil)] := rfl

/-- Nothing at the closed forge tells of the tool that was made there: what it is asked for from now on, it does as a forge that
has made nothing. -/
theorem forge_starts_afresh : usedRun.Terminates 35 5 0 .nil ∧
    usedRun.Resets 35 5 0 .nil (((usedRun.state 35).world.container 0).afresh [(anvilKey, usedAnvil)]) 39 ∧
    ∀ choices, Option.Rel anvils.Systems ((cleared (usedRun.state 40)).follow forge choices)
      ((cleared (idleRun.state 12)).follow forge choices) := by
  obtain ⟨-, resets⟩ := usedRun.starts_afresh.2 terminates_usedRun
  obtain ⟨done, alike⟩ := resets survivors_usedRun
  have one : ((usedRun.state 35).world.container 0).callbacks.terminating.length = 1 := by decide +kernel
  rw [one] at done
  have reached : Reachable forge (cleared (usedRun.state 40)) :=
    (usedRun.reachable 40).move (.renew (by decide +kernel) (by decide +kernel))
  have stopped : usedRun.state 40 = (usedRun.state 39).run forge 5 ⟨.reply, .give (k := .reply) .ok, .nil⟩ :=
    usedRun.state_succ (by decide +kernel) done.replied
  have same : ∀ s : System, (cleared (s.run forge 5 ⟨.reply, .give (k := .reply) .ok, .nil⟩)).world.container 0 =
      s.world.container 0 := fun _ => rfl
  have left : (cleared (usedRun.state 40)).world.container 0 =
      ((usedRun.state 35).world.container 0).afresh [(anvilKey, usedAnvil)] := by
    rw [stopped, same, done.after (by decide +kernel)]
  exact ⟨terminates_usedRun, done, alike steady_forge anvils reached left container_idleRun
    (.cons ⟨rfl, own_anvils⟩ .nil) systems_cleared⟩

/-- It can be asked for a tool again, and makes one, from metal that it makes as well. -/
example : ((cleared (usedRun.state 40)).follow forge (.begin (askFor "forge" "Tool") :: .resume 0 ::
    List.replicate 15 .goOn)).map (·.world.supply.numbers) = some 5 := by decide +kernel

end System

end Injector
