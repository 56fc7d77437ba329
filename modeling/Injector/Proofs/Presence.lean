import Injector.Proofs.Answers
import Injector.Proofs.Pins
import Injector.Proofs.Refusals
import Injector.Proofs.Unused
/-!
# Bound or not

Whether a key is bound is one look at a chain of containers; a request for it goes from container to
container. `Run.bound_decides`: outside of builds they agree. What is not bound is not found, and nothing
happens; what the root has for scopes only is out of reach; and for any other key there is an instance,
or it is the build of the key that fails. `refused_within_its_build` is a build that is told its own key
is out of reach.
-/
namespace Injector

namespace World

/-- Whether the root of a chain has a key for scopes only, and no container of the chain has it. -/
def OnlyForScopes (w : World) (c : ContainerId) (key : Key) : Prop :=
  (∃ root, (w.chain c).getLast? = some root ∧ (w.container root).registry.forScopesOnly key.plain = true) ∧
    ∀ d ∈ w.chain c, ¬ w.Has key d

variable {w : World} {c d : ContainerId} {key : Key}

/-! ## What a request comes to -/

/-- Only a name that is handed on to a base can come to something else than what it stands for. -/
theorem Ok.locate_whole (ok : w.Ok) (alive : w.Alive c) (whole : key.isName = false ∨ (w.container c).bases = []) :
    w.locate c key = w.stored c (w.unalias (w.chain c) key) := by
  refine ok.locate_stored rfl alive rfl fun e handed => ?_
  rcases whole with plain | root
  · rw [unalias_of_not_name w _ plain, unalias_of_not_name w _ plain]
  · obtain ⟨base, hands, -⟩ := Relation.TransGen.head'_iff.1 handed
    have bases := hands.1
    rw [root] at bases
    cases bases

theorem Ok.stored_eq_builds_none_iff (ok : w.Ok) (alive : w.Alive c) :
    w.stored c key = .builds c key none ↔ w.boundIn (w.chain c) key = false := by
  constructor
  · intro nothing
    by_contra bound
    exact ok.stored_ne_of_boundIn alive (by simpa using bound) nothing
  · intro unbound
    have nowhere : ∀ d ∈ w.chain c, w.boundHere key d = false := by simpa [boundIn] using unbound
    have unserved : ((w.chain c).findSome? fun d => w.serves d key) = none := by
      rw [List.findSome?_eq_none_iff]
      intro d hd
      by_contra served
      have here := boundHere_of_serves served
      rw [nowhere d hd] at here
      cases here
    unfold stored
    rw [unserved, Option.getD_none, if_neg]
    intro last
    obtain ⟨root, last, only⟩ := (Option.any_eq_true _ _).1 last
    rw [forScopesOnly_of_not_boundHere (nowhere root (List.mem_of_getLast? last))] at only
    cases only

theorem stored_eq_noAccess_iff : w.stored c key = .noAccess key ↔ w.OnlyForScopes c key := by
  unfold stored
  constructor
  · intro stored
    cases found : (w.chain c).findSome? fun d => w.serves d key with
    | some l =>
      obtain ⟨d, -, serves⟩ := List.exists_of_findSome?_eq_some found
      rw [found] at stored
      obtain rfl : l = .noAccess key := stored
      unfold World.serves at serves
      split at serves
      · cases serves
      · obtain ⟨_, -, other⟩ := Option.map_eq_some_iff.1 serves
        cases other
    | none =>
      rw [found, Option.getD_none] at stored
      split at stored
      · next last =>
        refine ⟨(Option.any_eq_true _ _).1 last, fun d hd => ?_⟩
        exact serves_eq_none_iff_not_has.1 (List.findSome?_eq_none_iff.1 found d hd)
      · cases stored
  · rintro ⟨last, nobody⟩
    have unserved : ((w.chain c).findSome? fun d => w.serves d key) = none :=
      List.findSome?_eq_none_iff.2 fun d hd => serves_eq_none_iff_not_has.2 (nobody d hd)
    rw [unserved, Option.getD_none, if_pos ((Option.any_eq_true _ _).2 last)]

/-- A key that is bound within reach is kept by a container of the chain, or to be built by one that has a binding. -/
theorem Ok.stored_of_bound (ok : w.Ok) (alive : w.Alive c) (bound : w.boundIn (w.chain c) key = true)
    (reach : ¬ w.OnlyForScopes c key) : ∃ d ∈ w.chain c, (∃ v, w.stored c key = .cached d key v) ∨
      ∃ β, w.stored c key = .builds d key (some β) ∧ (w.container d).registry.get? key.plain = some β := by
  cases found : (w.chain c).findSome? fun d => w.serves d key with
  | some l =>
    obtain ⟨d, hd, serves⟩ := List.exists_of_findSome?_eq_some found
    have stored : w.stored c key = l := by rw [World.stored, found, Option.getD_some]
    refine ⟨d, hd, ?_⟩
    unfold World.serves at serves
    split at serves
    · cases serves
      exact .inl ⟨_, stored⟩
    · obtain ⟨β, own, rfl⟩ := Option.map_eq_some_iff.1 serves
      exact .inr ⟨β, stored, own⟩
  | none =>
    exfalso
    have stored : w.stored c key = .noAccess key ∨ w.stored c key = .builds c key none := by
      rw [World.stored, found, Option.getD_none]
      split
      · exact .inl rfl
      · exact .inr rfl
    rcases stored with only | nothing
    · exact reach (stored_eq_noAccess_iff.1 only)
    · exact ok.stored_ne_of_boundIn alive bound nothing

end World

namespace System

variable {p : Program}

/-- Whether the running task asks a container outside of all builds for an instance of what stands for `key`, and
nobody builds that there or waits to. A name is asked of a root. -/
structure Run.AsksOutside (run : Run p) (n i : Nat) (r : Request) (below : Stack .answer) (key : Key) : Prop where
  running : (run.state n).running = some i
  found : (run.state n).tasks[i]? = some ⟨.answer, .resolve r, below⟩
  path : r.path = []
  fallback : r.fallback = none
  whole : r.key.isName = false ∨ ((run.state n).world.container r.container).bases = []
  stands : (run.state n).world.unalias ((run.state n).world.chain r.container) r.key = key
  vacant : ∀ t ∈ (run.state n).tasks, ∀ b ∈ t.locked, b.container = r.container → b.key ≠ key

/-- Whether what waits since move `n` is refused in move `m`, and all containers are as they were. -/
structure Run.RefusesWith (run : Run p) (n i m : Nat) (below : Stack .answer) (f : Failure) : Prop where
  pending : run.Pending i below n m
  answered : (run.state m).tasks[i]? = some ⟨.answer, .give (k := .answer) (.error f), below⟩
  containers : (run.state m).world.containers = (run.state n).world.containers

/-- Whether answer `a`, which is given in move `m`, is an instance, or the failure of the build of `key` that was begun
for the request, by what a container of the chain has bound. -/
def Run.ComesOfBuild (run : Run p) (n i m : Nat) (r : Request) (below : Stack .answer) (key : Key)
    (a : Except Failure Instance) : Prop :=
  (∃ v, a = .ok v) ∨ ∃ b β f, a = .error f ∧ b.key = key ∧ b.path = [key] ∧
    b.container ∈ (run.state n).world.chain r.container ∧
    ((run.state n).world.container b.container).registry.get? key.plain = some β ∧ b.binding = some β ∧
    run.FailedWithin i (n + 1) m b below f

namespace Run

variable {run : Run p} {n i m : Nat} {r : Request} {below : Stack .answer} {key : Key} {a : Except Failure Instance}
  {f : Failure}

/-- Who is answered is answered once. -/
theorem RefusesWith.unique (h : run.RefusesWith n i m below f) {m' : Nat} (pending : run.Pending i below n m')
    (answered : (run.state m').tasks[i]? = some ⟨.answer, .give (k := .answer) a, below⟩) : a = .error f := by
  obtain rfl : m = m' := by
    rcases Nat.lt_trichotomy m m' with before | same | after
    · exact absurd ⟨_, h.answered⟩ (pending.waits m h.pending.since before)
    · exact same
    · exact absurd ⟨_, answered⟩ (h.pending.waits m' pending.since after)
  cases answered.symm.trans h.answered
  rfl

/-- A step of a resolution that is done with its container leaves the rest as it is. -/
theorem state_succ_eq (running : (run.state n).running = some i) {activity : Activity .answer}
    (found : (run.state n).tasks[i]? = some ⟨.answer, activity, below⟩) {st : Step}
    (goes : run.state (n + 1) = (run.state n).put i st) {xs : List (Build × Instance)}
    (after : (run.state n).world.After xs st.world) (started : st.started = []) (stack : st.task.stack.held = below.held)
    (held : ∀ c ∈ activity.held, c ∈ below.held) : (run.state (n + 1)).running = some i ∧
      (run.state (n + 1)).world = st.world ∧ (run.state (n + 1)).tasks = (run.state n).tasks.set i st.task := by
  have covered : ∀ c ∈ Task.held ⟨.answer, activity, below⟩, ∃ d ∈ st.task.held, c ∈ (run.state n).world.chain d := by
    intro c hc
    have within : c ∈ below.held := (List.mem_append.1 hc).elim (held c) id
    exact ⟨c, List.mem_append_right _ (stack ▸ within), List.mem_cons_self⟩
  rw [goes]
  exact ⟨running, (run.reachable n).put_eq found after started covered⟩

/-- Who asks for what is to be built lines up for it, unless it is being built around the request. -/
theorem lines_up_of_located (run : Run p) (running : (run.state n).running = some i)
    (found : (run.state n).tasks[i]? = some ⟨.answer, .resolve r, below⟩) {d : ContainerId} {β : Option Binding}
    (located : (run.state n).world.locate r.container r.key = .builds d key β) (new : key ∉ r.path) :
    ∃ b, (run.state n).world.enter d key = (b.lock, b.ticket, (run.state (n + 1)).world) ∧ b.container = d ∧ b.key = key ∧
      b.binding = β.or (r.fallback.map Function.unbound) ∧ b.path = r.path ++ [key] ∧
      (run.state (n + 1)).running = some i ∧ (run.state (n + 1)).tasks[i]? = some ⟨.answer, .line b, below⟩ := by
  have fits : r.Fits below := ((run.reachable n).sound.wf _ (List.mem_of_getElem? found)).activity
  obtain ⟨b, hb⟩ : ∃ b : Build, b = ⟨d, key, β.or (r.fallback.map Function.unbound), r.path ++ [key],
      ((run.state n).world.enter d key).1, ((run.state n).world.enter d key).2.1⟩ := ⟨_, rfl⟩
  have goes : run.state (n + 1) = (run.state n).put i (Step.resolve (run.state n).world r below) :=
    run.state_succ running found
  have step : Step.resolve (run.state n).world r below = .next ((run.state n).world.enter d key).2.2 (.line b) below := by
    simp only [Step.resolve, located, if_neg new, hb]
  obtain ⟨running', world, tasks⟩ := state_succ_eq running found (step ▸ goes)
    ((World.After.refl _).enter d key) rfl rfl (fun c hc => List.mem_singleton.1 hc ▸ fits.held)
  refine ⟨b, ?_, by rw [hb], by rw [hb], by rw [hb], by rw [hb], running', ?_⟩
  · rw [world, hb]
    rfl
  · rw [tasks, List.getElem?_set_self (List.getElem?_eq_some_iff.1 found).1]
    rfl

namespace AsksOutside

variable (h : run.AsksOutside n i r below key)
include h

theorem alive : (run.state n).world.Alive r.container :=
  (run.reachable n).sound.alive _ (List.mem_of_getElem? h.found) _ (List.mem_append_left _ List.mem_cons_self)

theorem located : (run.state n).world.locate r.container r.key = (run.state n).world.stored r.container key := by
  rw [(run.reachable n).sound.ok.locate_whole h.alive h.whole, h.stands]

theorem fits : r.Fits below := ((run.reachable n).sound.wf _ (List.mem_of_getElem? h.found)).activity

theorem asks (bare : (run.state n).world.Bare p) : (run.state n).Asks p i r below := by
  refine ⟨run.reachable n, h.running, h.found, bare, fun f used => ?_⟩
  rw [h.fallback] at used
  cases used

theorem bound_eq : (run.state n).world.bound r.container r.key =
    (run.state n).world.boundIn ((run.state n).world.chain r.container) key := by
  rw [World.bound, h.stands]

theorem goes : run.state (n + 1) = (run.state n).put i (Step.resolve (run.state n).world r below) :=
  run.state_succ h.running h.found

theorem unanswered : run.Pending i below n n ∧ ¬ run.Answered i below n := by
  refine ⟨⟨Nat.le_refl n, fun k since before => absurd since (Nat.not_le.2 before)⟩, ?_⟩
  rintro ⟨a, given⟩
  cases h.found.symm.trans given

theorem pending_succ : run.Pending i below n (n + 1) :=
  h.unanswered.1.later (Nat.le_succ n) fun j since before => by
    obtain rfl := Nat.le_antisymm since (Nat.le_of_lt_succ before)
    exact h.unanswered.2

/-! ## The first step -/

/-- What is out of reach is refused at once. -/
theorem refuses (only : (run.state n).world.OnlyForScopes r.container key) :
    run.RefusesWith n i (n + 1) below (.noAccess key) := by
  have located : (run.state n).world.locate r.container r.key = .noAccess key := by
    rw [h.located, World.stored_eq_noAccess_iff.2 only]
  have step : Step.resolve (run.state n).world r below = .fail (run.state n).world (.noAccess key) below := by
    simp only [Step.resolve, located]
  obtain ⟨-, world, tasks⟩ := state_succ_eq h.running h.found (step ▸ h.goes) (.refl _) rfl rfl
    (fun c hc => List.mem_singleton.1 hc ▸ h.fits.held)
  refine ⟨h.pending_succ, ?_, congrArg World.containers world⟩
  rw [tasks, List.getElem?_set_self (List.getElem?_eq_some_iff.1 h.found).1]
  rfl

/-- What is kept is served at once. -/
theorem serves {d : ContainerId} {v : Instance} (stored : (run.state n).world.stored r.container key = .cached d key v) :
    (run.state (n + 1)).tasks[i]? = some ⟨.answer, .give (k := .answer) (.ok v), below⟩ :=
  run.asked h.running h.found (h.located.trans stored)

/-- What is to be built is lined up for. -/
theorem lines_up {d : ContainerId} {β : Option Binding}
    (stored : (run.state n).world.stored r.container key = .builds d key β) :
    ∃ b, (run.state n).world.enter d key = (b.lock, b.ticket, (run.state (n + 1)).world) ∧ b.container = d ∧ b.key = key ∧
      b.binding = β ∧ b.path = [key] ∧ (run.state (n + 1)).running = some i ∧
      (run.state (n + 1)).tasks[i]? = some ⟨.answer, .line b, below⟩ := by
  have new : key ∉ r.path := by
    rw [h.path]
    exact List.not_mem_nil
  have lines := run.lines_up_of_located h.running h.found (h.located.trans stored) new
  rwa [h.fallback, Option.map_none, Option.or_none, h.path, List.nil_append] at lines

/-! ## The build -/

/-- Without a binding in the chain nothing is found, and nothing happens. -/
theorem misses (unbound : (run.state n).world.bound r.container r.key = false) :
    run.RefusesWith n i (n + 2) below (.unbound key) := by
  have reached := run.reachable n
  have stored : (run.state n).world.stored r.container key = .builds r.container key none :=
    (reached.sound.ok.stored_eq_builds_none_iff h.alive).2 (h.bound_eq ▸ unbound)
  obtain ⟨b, enters, hc, rfl, binding, -, running', found'⟩ := h.lines_up stored
  have alive : (run.state n).world.Alive b.container := hc ▸ h.alive
  have free : ((run.state n).world.container b.container).locks.entries.get? b.key = none :=
    reached.entry_eq_none fun t ht b' hb' same => h.vacant t ht b' hb' (same.trans hc)
  have nothing : ((run.state (n + 1)).world.container b.container).cache.get? b.key = none := by
    have right := (run.state n).world.right_locate r.container r.key
    rw [h.located, stored] at right
    rw [← World.world_of_enter enters, World.container_enter, World.cache_modifyLocks, hc]
    exact right.2.1
  have turn : (run.state (n + 1)).world.mayStart b = true := World.mayStart_enter alive free rfl (hc ▸ enters)
  have ready : (run.state (n + 1)).ready i = true := by
    simp only [System.ready, found']
    exact turn
  -- In its turn the build has nothing to build by.
  have falls : b.FallsBack none := Build.fallsBack (by rw [binding]; rfl)
  have step := falls.unbound rfl ⟨p, (run.state (n + 1)).held, (run.state (n + 1)).tasks.length⟩
    (run.state (n + 1)).world below nothing
  have goes : run.state (n + 2) = (run.state (n + 1)).put i
      (.fail (((run.state (n + 1)).world.letIn b).leave b) (.unbound b.key) below) := by
    rw [run.state_succ running' found', ← step]
    exact if_pos ready
  have left : (run.state (n + 1)).world.After [] (((run.state (n + 1)).world.letIn b).leave b) :=
    ((World.After.refl _).modifyLocks _ _).modifyLocks _ _
  have held : ∀ c ∈ (Activity.line b).held, c ∈ below.held := by
    intro c hc'
    rw [List.mem_singleton.1 hc', hc]
    exact h.fits.held
  obtain ⟨-, world, tasks⟩ := state_succ_eq running' found' goes left rfl rfl held
  refine ⟨h.pending_succ.later (Nat.le_succ _) fun j since before => ?_, ?_, ?_⟩
  · obtain rfl := Nat.le_antisymm since (Nat.le_of_lt_succ before)
    rintro ⟨a, given⟩
    cases found'.symm.trans given
  · rw [tasks, List.getElem?_set_self (List.getElem?_eq_some_iff.1 found').1]
    rfl
  · rw [world]
    exact World.containers_of_visit reached.swept alive free (hc ▸ enters)

/-- A key that is bound within reach is served, or its build is tried. -/
theorem comes_of_build (bound : (run.state n).world.bound r.container r.key = true)
    (reach : ¬ (run.state n).world.OnlyForScopes r.container key) (pending : run.Pending i below n m)
    (answered : (run.state m).tasks[i]? = some ⟨.answer, .give (k := .answer) a, below⟩) :
    run.ComesOfBuild n i m r below key a := by
  have later : n + 1 ≤ m := by
    rcases Nat.eq_or_lt_of_le pending.since with rfl | later
    · exact absurd ⟨a, answered⟩ h.unanswered.2
    · exact later
  obtain ⟨d, hd, ⟨v, stored⟩ | ⟨β, stored, own⟩⟩ :=
    (run.reachable n).sound.ok.stored_of_bound h.alive (h.bound_eq ▸ bound) reach
  · have served := h.serves stored
    rcases Nat.eq_or_lt_of_le later with rfl | later
    · cases answered.symm.trans served
      exact .inl ⟨v, rfl⟩
    · exact absurd ⟨_, served⟩ (pending.waits (n + 1) (Nat.le_succ n) later)
  · obtain ⟨b, -, rfl, rfl, binding, path, -, lines⟩ := h.lines_up stored
    have pending' : run.Pending i below (n + 1) m := ⟨later, fun k since => pending.waits k (Nat.le_of_succ_le since)⟩
    obtain ⟨t, found, tries⟩ := run.tries lines pending'
    obtain rfl := Option.some.inj (answered.symm.trans found)
    cases tries with
    | served v => exact .inl ⟨v, rfl⟩
    | failed within => exact .inr ⟨b, β, _, rfl, rfl, path, hd, own, binding, within⟩
    | unbound nothing =>
      rw [Build.maker, binding] at nothing
      cases nothing
    | inside on => exact absurd on.height_lt (Nat.lt_irrefl _)

end AsksOutside

/-- Whether only task `i` goes on between two moves. -/
def Alone (run : Run p) (i n m : Nat) : Prop := ∀ j, n ≤ j → j < m →
  (run.state j).running = some i ∨ (run.state j).running = none ∧ (run.state (j + 1)).running = some i

theorem next_of_alone (run : Run p)
    (alone : (run.state n).running = some i ∨ (run.state n).running = none ∧ (run.state (n + 1)).running = some i) :
    (run.state n).Next p (run.state (n + 1)) := by
  have quiet : ∀ {s' : System}, s'.running = (run.state n).running → (run.state n).running = none →
      run.state (n + 1) ≠ s' := by
    rintro s' same idle rfl
    rcases alone with runs | ⟨-, runs⟩
    · rw [idle] at runs
      cases runs
    · rw [same, idle] at runs
      cases runs
  rcases run.moves n with moves | ⟨idle, rests⟩
  · generalize after : run.state (n + 1) = s' at moves quiet ⊢
    cases moves with
    | next next => exact next
    | begin idle o => exact absurd rfl (quiet rfl idle)
    | drop idle name => exact absurd rfl (quiet rfl idle)
    | renew idle => exact absurd rfl (quiet idle.symm idle)
  · exact absurd rests (quiet rfl idle)

theorem Alone.solo (alone : run.Alone i n m) (pending : run.Pending i below n m) :
    ∃ xs, Solo p i below (run.state n) xs (run.state m) := by
  have later := pending.since
  induction later with
  | refl => exact ⟨[], .start⟩
  | @step k later ih =>
    obtain ⟨earlier, waits⟩ := pending.pred later
    obtain ⟨xs, solo⟩ := ih (fun j since before => alone j since (Nat.lt_succ_of_lt before)) earlier
    have now := alone k later (Nat.lt_succ_self k)
    exact ⟨_, .next solo (fun a found => waits ⟨a, found⟩) (run.next_of_alone now) now⟩

/-- If nothing performs operations and the task goes on alone, a refusal within its build is due to the root of the chain:
it has the key for scopes only. -/
theorem AsksOutside.root_of_refused (h : run.AsksOutside n i r below key) (bare : (run.state n).world.Bare p)
    (alone : run.Alone i n m) (pending : run.Pending i below n m) {b : Build} {key' : Key}
    (refused : run.Refused i (n + 1) m b below key') :
    ∃ root, ((run.state n).world.chain r.container).getLast? = some root ∧
      ((run.state n).world.container root).registry.forScopesOnly key'.plain = true := by
  obtain ⟨k, r', above, since, before, -, found, located⟩ := refused
  have reached := run.reachable n
  have earlier : run.Pending i below n k :=
    ⟨Nat.le_of_succ_le since, fun j since' before' => pending.waits j since' (Nat.lt_trans before' before)⟩
  obtain ⟨xs, solo⟩ := Alone.solo (fun j since' before' => alone j since' (Nat.lt_trans before' before)) earlier
  obtain ⟨t, stays⟩ := (h.asks bare).starts.solo_stays solo
  obtain rfl := Option.some.inj (found.symm.trans (stays.found (h.asks bare).present))
  have here : r'.container ∈ (run.state n).world.chain r.container := by
    obtain ⟨⟨here, -⟩, -⟩ := stays.within
    exact here
  -- Of the chain, which is as it was, only the root can have something for scopes only.
  have right := (run.state k).world.right_locate r'.container r'.key
  rw [located] at right
  obtain ⟨d, hd, only⟩ := right
  rw [stays.world.chain] at hd
  rw [stays.world.registry] at only
  have hd := reached.sound.ok.mem_chain_trans here hd
  obtain ⟨root, last⟩ : ∃ root, ((run.state n).world.chain r.container).getLast? = some root :=
    ⟨_, List.getLast?_eq_some_getLast (List.cons_ne_nil _ _)⟩
  have same : d = root := by
    by_contra other
    rw [reached.sound.ok.not_forScopesOnly h.alive hd last other] at only
    cases only
  exact ⟨root, last, same ▸ only⟩

/-- A build is not told that there is nothing for its key. -/
theorem ComesOfBuild.ne_unbound (h : run.ComesOfBuild n i m r below key a) : a ≠ .error (.unbound key) := by
  rcases h with ⟨v, rfl⟩ | ⟨b, β, f, rfl, rfl, -, -, -, -, k, -, -, found, -⟩
  · rintro ⟨⟩
  · intro missing
    cases missing
    have elsewhere := (run.reachable k).missing_elsewhere _ (List.mem_of_getElem? found) _ _ rfl
    rw [Stack.path_build] at elsewhere
    exact elsewhere (List.mem_append_right _ List.mem_cons_self)

end Run

/-- A request outside of all builds finds nothing exactly if the key is not bound, and then no container has changed. A key
that the root has for scopes only and nobody else has is refused as out of reach, and no container has changed. For any
other key the answer is an instance, or a failure of the build of that key by what is bound for it. That the key is out of
reach is then the failure of something that was asked for within the build, and still the root has the key for scopes
only. -/
theorem Run.bound_decides (run : Run p) {n i : Nat} {r : Request} {below : Stack .answer} {key : Key}
    (h : run.AsksOutside n i r below key) :
    ((run.state n).world.bound r.container r.key = false → ∃ m, run.RefusesWith n i m below (.unbound key)) ∧
    ((run.state n).world.OnlyForScopes r.container key → ∃ m, run.RefusesWith n i m below (.noAccess key)) ∧
    ((run.state n).world.Bare p → p.Finite → (run.state n).LeavesAlone i → (run.state n).Answers p i below below) ∧
    ∀ {m a}, run.Pending i below n m → (run.state m).tasks[i]? = some ⟨.answer, .give (k := .answer) a, below⟩ →
      (a = .error (.unbound key) ↔ (run.state n).world.bound r.container r.key = false) ∧
      ((run.state n).world.OnlyForScopes r.container key → a = .error (.noAccess key)) ∧
      ((run.state n).world.bound r.container r.key = true → ¬ (run.state n).world.OnlyForScopes r.container key →
        run.ComesOfBuild n i m r below key a) ∧
      ((run.state n).world.Bare p → run.Alone i n m → a = .error (.noAccess key) →
        ∃ root, ((run.state n).world.chain r.container).getLast? = some root ∧
          ((run.state n).world.container root).registry.forScopesOnly key.plain = true) := by
  refine ⟨fun unbound => ⟨_, h.misses unbound⟩, fun only => ⟨_, h.refuses only⟩, fun bare finite alone => ?_,
    fun {m a} pending answered => ⟨⟨fun missing => ?_, fun unbound => ?_⟩, fun only => ?_, fun bound reach => ?_,
      fun bare alone refused => ?_⟩⟩
  · exact (h.asks bare).exists_answer alone finite
  · subst missing
    by_contra bound
    have bound : (run.state n).world.bound r.container r.key = true := by simpa using bound
    by_cases only : (run.state n).world.OnlyForScopes r.container key
    · cases (h.refuses only).unique pending answered
    · exact (h.comes_of_build bound only pending answered).ne_unbound rfl
  · exact (h.misses unbound).unique pending answered
  · exact (h.refuses only).unique pending answered
  · exact h.comes_of_build bound reach pending answered
  · subst refused
    by_cases only : (run.state n).world.OnlyForScopes r.container key
    · exact only.1
    · have bound : (run.state n).world.bound r.container r.key = true := by
        by_contra unbound
        cases (h.misses (by simpa using unbound)).unique pending answered
      rcases h.comes_of_build bound only pending answered with ⟨v, served⟩ | ⟨b, β, f, failed, -, -, -, -, -, k, -, before, -, refused⟩
      · cases served
      · cases failed
        obtain ⟨j, r', above, since, earlier, rest⟩ := refused key rfl
        exact h.root_of_refused bare alone pending ⟨j, r', above, since, Nat.lt_trans earlier before, rest⟩

/-! ## A build that is out of its own reach -/

/-- Scopes get an `A` that is made of a `B`, and a `B` is made of an `A`. A scope is asked for a `C`, and for an `A`. -/
def crossRun : Run {} :=
  .ofOps {} "root" [
    .on "root" (.register (some (.type (.declared "A")))
      (.chained (.object "A") (.declared "B") (.type (.declared "B"))) .perScope none),
    .on "root" (.register (some (.type (.declared "B")))
      (.chained (.object "B") (.declared "A") (.type (.declared "A"))) .transient none),
    .on "root" (.openScope "scope"),
    .lasting ⟨"", "scope", false⟩ (.get none (.type (.declared "C")) false none),
    .lasting ⟨"", "scope", false⟩ (.get none (.type (.declared "A")) false none)]

/-- A request of the scope, and what waits for the instance. -/
def crossRequest (type : String) : Request := { container := 1, key := .type (.declared type), path := [] }

def crossStack : Stack .answer := .cons (.deliver 1 none none) .nil

theorem asksOutside_crossRun {n i : Nat} {type : String} (running : (crossRun.state n).running = some i)
    (found : (crossRun.state n).tasks[i]? = some ⟨.answer, .resolve (crossRequest type), crossStack⟩)
    (free : ((crossRun.state n).tasks.all fun t => t.locked.isEmpty) = true) :
    crossRun.AsksOutside n i (crossRequest type) crossStack (.type (.declared type)) := by
  refine ⟨running, found, rfl, rfl, .inl rfl, rfl, fun t ht b hb => ?_⟩
  rw [List.isEmpty_iff.1 (List.all_eq_true.1 free t ht)] at hb
  cases hb

/-- There is no `C`, and the scope is told so. -/
theorem nothing_for_c : crossRun.AsksOutside 15 3 (crossRequest "C") crossStack (.type (.declared "C")) ∧
    (crossRun.state 15).world.bound 1 (.type (.declared "C")) = false ∧
    ∃ m, crossRun.RefusesWith 15 3 m crossStack (.unbound (.type (.declared "C"))) := by
  have asks := @asksOutside_crossRun 15 3 "C" (by decide +kernel) rfl (by decide +kernel)
  have unbound : (crossRun.state 15).world.bound 1 (.type (.declared "C")) = false := by decide +kernel
  exact ⟨asks, unbound, (crossRun.bound_decides asks).1 unbound⟩

/-- The scope has an `A` bound as its own, and builds it. The `B` is made by the root, for which the `A` is out of reach; and
this is what the scope is told of its `A`. -/
theorem refused_within_its_build :
    crossRun.AsksOutside 22 4 (crossRequest "A") crossStack (.type (.declared "A")) ∧
    (crossRun.state 22).world.Has (.type (.declared "A")) 1 ∧
    ¬ (crossRun.state 22).world.OnlyForScopes 1 (.type (.declared "A")) ∧ crossRun.Pending 4 crossStack 22 31 ∧
    (crossRun.state 31).tasks[4]? =
      some ⟨.answer, .give (k := .answer) (.error (.noAccess (.type (.declared "A")))), crossStack⟩ := by
  have own : (crossRun.state 22).world.Has (.type (.declared "A")) 1 := by
    simp only [World.Has, ← Option.isSome_iff_ne_none]
    decide +kernel
  exact ⟨asksOutside_crossRun (by decide +kernel) rfl (by decide +kernel), own,
    fun only => only.2 1 List.mem_cons_self own, Run.pending_of_atWork (k := 9) (by decide +kernel), rfl⟩

end System

end Injector
