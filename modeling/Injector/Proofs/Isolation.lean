import Injector.Proofs.Answers
import Injector.Proofs.Handover
import Injector.Proofs.Lockstep
import Injector.Proofs.Registered
/-!
# Scopes do not leak

A resolution or a call on a container is about that container and its bases alone. It leaves all other
containers as they are, and what comes of it is the same in any other world that agrees on these
(`Starts.isolated`): whatever scopes, siblings and unrelated containers there are, with whatever
bindings, hooks and instances. A base that builds on behalf of a scope builds as it would for itself.
-/
namespace Injector

variable {p : Program}

/-! ## Where two resolutions begin -/

/-- Whether instances are the same, or hold the same but for the numbers of objects. -/
inductive Shared.Resembles : Instance → Instance → Prop
  | same (v : Instance) : Resembles v v
  | like {v v' : Instance} (h : v.content.Similar Resembles v'.content) : Resembles v v'

/-- Whether explicit arguments resemble each other, one by one. -/
structure Arguments.Resembles (a a' : Arguments) : Prop where
  positional : List.Forall₂ Shared.Resembles a.positional a'.positional
  keyword : List.Forall₂ (fun x x' => x.1 = x'.1 ∧ x.2.Resembles x'.2) a.keyword a'.keyword

theorem Arguments.Resembles.refl (a : Arguments) : a.Resembles a where
  positional := List.forall₂_same.2 fun v _ => .same v
  keyword := List.forall₂_same.2 fun x _ => ⟨rfl, .same x.2⟩

/-- The instances that two resolutions have from the beginning: those that containers keep, which are the same, the
explicit arguments of the one and of the other, and the parts of all these. -/
inductive World.Common (w : World) (cs : List ContainerId) (a a' : Arguments) : Instance → Instance → Prop
  | kept {e : ContainerId} {key : Key} {v : Instance} (here : e ∈ cs)
    (kept : (w.container e).cache.get? key = some v) : Common w cs a a' v v
  | positional {v v' : Instance} (h : (v, v') ∈ a.positional.zip a'.positional) : Common w cs a a' v v'
  | keyword {x x' : String × Instance} (h : (x, x') ∈ a.keyword.zip a'.keyword) : Common w cs a a' x.2 x'.2
  | member {v v' m m' : Instance} {item : Ty} {vs vs' : List Instance} (whole : Common w cs a a' v v')
    (holds : v.content = .seq item vs) (holds' : v'.content = .seq item vs') (h : (m, m') ∈ vs.zip vs') :
    Common w cs a a' m m'
  | inner {v v' m m' : Instance} (whole : Common w cs a a' v v') (holds : v.content = .erased m)
    (holds' : v'.content = .erased m') : Common w cs a a' m m'

namespace World.Common

variable {w : World} {cs : List ContainerId} {a a' : Arguments} {v v' : Instance}

theorem resembles (h : w.Common cs a a' v v') (given : a.Resembles a') : v.Resembles v' := by
  have itself : ∀ {vs : List Instance} {m m'}, (m, m') ∈ vs.zip vs → m = m' := by
    intro vs m m' h
    exact List.forall₂_zip (List.forall₂_same.2 fun _ _ => rfl) h
  induction h with
  | kept => exact .same _
  | positional h => exact List.forall₂_zip given.positional h
  | keyword h => exact (List.forall₂_zip given.keyword h).2
  | member _ holds holds' h ih =>
    cases ih with
    | same =>
      obtain ⟨-, rfl⟩ := Datum.seq.inj (holds.symm.trans holds')
      obtain rfl := itself h
      exact .same _
    | like similar =>
      rw [holds, holds'] at similar
      cases similar with
      | seq _ members => exact List.forall₂_zip members h
  | inner _ holds holds' ih =>
    cases ih with
    | same =>
      obtain rfl := Datum.erased.inj (holds.symm.trans holds')
      exact .same _
    | like similar =>
      rw [holds, holds'] at similar
      cases similar with
      | erased inner => exact inner

theorem similar (h : w.Common cs a a' v v') (given : a.Resembles a') : v.content.Similar (w.Common cs a a') v'.content := by
  cases h.resembles given with
  | same =>
    cases content : v.content with
    | object path n => exact .object path n n
    | text s => exact .text s
    | scalar kind written => exact .scalar kind written
    | seq item vs => exact .seq item (List.forall₂_iff_zip.2 ⟨rfl, h.member content content⟩)
    | erased m => exact .erased (h.inner content content)
  | like similar =>
    generalize content : v.content = x, content' : v'.content = x' at similar
    cases similar with
    | object path n n' => exact .object path n n'
    | text s => exact .text s
    | scalar kind written => exact .scalar kind written
    | seq item members => exact .seq item (List.forall₂_iff_zip.2 ⟨members.length_eq, h.member content content'⟩)
    | erased => exact .erased (h.inner content content')

end World.Common

/-- A world beside another, for resolutions on a container that begin with these explicit arguments. -/
def World.beside (w w' : World) (d : ContainerId) {a a' : Arguments} (given : a.Resembles a') : Pairing where
  left := w
  right := w'
  containers := w.chain d
  known := w.Common (w.chain d) a a'
  similar h := h.similar given

theorem World.Common.arguments (w w' : World) (d : ContainerId) {a a' : Arguments} (given : a.Resembles a') :
    (w.beside w' d given).AlikeArguments a a' where
  positional := List.forall₂_iff_zip.2 ⟨given.positional.length_eq, fun h => .known (.positional h)⟩
  keyword := List.forall₂_iff_zip.2 ⟨given.keyword.length_eq, fun h =>
    ⟨(List.forall₂_zip given.keyword h).1, .known (.keyword h)⟩⟩

/-- Whether the same comes of two resolutions: alike answers, alike containers, and the same is told. -/
structure Pairing.AlikeOutcomes (R : Pairing) (a a' : Except Failure Instance) (w w' : World) : Prop where
  answers : Results R.Alike a a'
  containers : ∀ e ∈ R.containers, R.correspondence.Containers e (w.container e) (w'.container e)
  told : R.Tells w.log w'.log

/-- Whether the function that an activity begins with, if any, is pure. -/
def Activity.Pure : Activity .answer → Prop
  | .resolve r => ∀ f, r.fallback = some f → f.Pure
  | .fill j => j.function.Pure
  | _ => True

/-- Whether the same begins in two worlds: a resolution on `d`, a call of a function on `d`, or resolutions that lead to
the same build on `d`, on whose behalf ever. -/
inductive Activity.Likewise (w w' : World) (d : ContainerId) (args args' : Arguments) :
    Activity .answer → Activity .answer → Prop
  | resolution (r : Request) (here : r.container = d) : Likewise w w' d args args' (.resolve r) (.resolve r)
  | call (f : Function) (subject : Key) (inScope : Bool) (signature : Signature) (path : List Key) :
    Likewise w w' d args args' (.fill (.start f subject d inScope args signature path))
      (.fill (.start f subject d inScope args' signature path))
  | delegated {r r' : Request} {key : Key} {β β' : Option Binding}
    (located : w.locate r.container r.key = .builds d key β) (located' : w'.locate r'.container r'.key = .builds d key β')
    (path : r'.path = r.path) (fallback : r'.fallback = r.fallback) :
    Likewise w w' d args args' (.resolve r) (.resolve r')

namespace Activity.Likewise

variable {w w' : World} {c d : ContainerId} {args args' : Arguments} {a a' : Activity .answer}
  (h : Activity.Likewise w w' d args args' a a')
include h

theorem symm : Activity.Likewise w' w d args' args a' a := by
  cases h with
  | resolution r here => exact .resolution r here
  | call => exact .call ..
  | delegated located located' path fallback => exact .delegated located' located path.symm fallback.symm

theorem left : Activity.Likewise w w d args args a a := by
  cases h with
  | resolution r here => exact .resolution r here
  | call => exact .call ..
  | delegated located => exact .delegated located located rfl rfl

/-- It is about a container in reach. -/
theorem mem_chain (ok : w.Ok) (within : a.Within (w.chain c)) : d ∈ w.chain c := by
  cases h with
  | resolution r here => exact here ▸ within.1
  | call => exact within.1
  | @delegated r _ _ _ _ located =>
    have right := w.right_locate r.container r.key
    rw [located] at right
    exact ok.mem_chain_trans within.1 right.1

/-- What begins likewise in worlds that are alike is alike. -/
theorem alike {given : args.Resembles args'} (worlds : (w.beside w' d given).AlikeWorlds w w')
    (pursued : (w.beside w' d given).Pursued p w) (own : a.Pure) : (w.beside w' d given).AlikeActivities w w' a a' := by
  have here : d ∈ (w.beside w' d given).containers := List.mem_cons_self
  cases h with
  | resolution r at_d =>
    subst at_d
    exact .resolve (worlds.locate (pursued.upward _ here) r.key) (pursued.builds here) rfl rfl own
  | call f subject inScope signature path =>
    have own : f.Pure := own
    have alike : (w.beside w' d given).AlikeJobs (.start f subject d inScope args signature path)
        (.start f subject d inScope args' signature path) := .mk (.mk (World.Common.arguments w w' d given)) .nil
    exact .fill ⟨alike, here, own, own.fresh⟩
  | @delegated r r' key β β' located located' path fallback =>
    have right := w.right_locate r.container r.key
    have right' := w'.right_locate r'.container r'.key
    rw [located] at right
    rw [located'] at right'
    -- Both come to what is bound on that container.
    have bound : β' = β := by
      rw [← right.2.2, ← right'.2.2]
      exact congrArg (·.get? key.plain) (worlds.containers d here).registry
    subst bound
    refine .resolve ?_ (fun built => ?_) path fallback own
    · rw [located, located']
      exact .builds d key β'
    · obtain ⟨rfl, -, -⟩ := Located.builds.inj (located.symm.trans built)
      exact here

end Activity.Likewise

/-! ## Alike from the beginning -/

/-- Containers that are the same are alike, if both resolutions have from the beginning what they keep. -/
theorem Pairing.alikeContainers_of_eq {R : Pairing} {e : ContainerId} {x x' : Container} (same : x' = x)
    (known : ∀ key v, x.cache.get? key = some v → R.known v v) (locks : R.correspondence.LocksOf e x.locks x'.locks) :
    R.correspondence.Containers e x x' := by
  subst same
  have instances : ∀ key, Option.Rel R.Alike (x'.cache.get? key) (x'.cache.get? key) := by
    intro key
    cases kept : x'.cache.get? key with
    | none => exact .none
    | some v => exact .some (.known (known key v kept))
  have itself : ∀ t, Teardown.Like R.correspondence.finalized t t
    | .callback s => .callback s
    | .finalize f _ => .finalize f (.inl rfl)
  exact ⟨rfl, rfl, rfl, ⟨instances, rfl, rfl⟩, ⟨List.forall₂_same.2 fun t _ => itself t, rfl⟩, locks⟩

namespace System

variable {s s' t t' : System} {i i' : Nat} {c c' d : ContainerId} {a a' : Activity .answer} {below below' : Stack .answer}
  {args args' : Arguments} {xs : List (Build × Instance)}

/-- A mutex that is not made yet is free, and nobody is in line. -/
theorem Reachable.new_mutex (h : Reachable p s) {m : MutexId} (new : s.world.tickets ≤ m) (e : ContainerId) :
    ((s.world.container e).locks.mutex m).holder = none ∧ ((s.world.container e).locks.mutex m).waiting = [] := by
  have old : ∀ u ∈ s.tasks, ∀ b ∈ u.locked, b.lock ≠ m := by
    intro u hu b hb same
    exact absurd (h.locked.made _ _ _ (h.locked.entry u hu b hb)) (same ▸ Nat.not_lt.2 new)
  constructor <;> by_contra used
  · obtain ⟨ticket, holds⟩ := Option.ne_none_iff_exists'.1 used
    obtain ⟨u, hu, b, hb, -, same⟩ := h.attended.held holds
    exact old u hu b (List.mem_append_right _ hb) same
  · obtain ⟨ticket, waits⟩ := List.exists_mem_of_ne_nil _ used
    obtain ⟨u, hu, b, line, -, same, -⟩ := h.attended.queued waits
    exact old u hu b (List.mem_append_left _ (Option.mem_toList.2 line)) same

/-- Locks that are the same in two systems are alike. -/
theorem Reachable.alikeLocks (h : Reachable p s) (h' : Reachable p s') {e : ContainerId}
    (same : s'.world.container e = s.world.container e) (given : args.Resembles args') :
    (s.world.beside s'.world d given).correspondence.LocksOf e (s.world.container e).locks (s'.world.container e).locks where
  reserved := False.elim
  entries key _ := by
    rw [same]
    cases entry : (s.world.container e).locks.entries.get? key with
    | none => exact .none
    | some m => exact .some (.inl ⟨rfl, h.locked.made e key m entry, h'.locked.made e key m (same ▸ entry)⟩)
  mutexes {m m'} tickets := by
    rcases tickets with ⟨rfl, -, -⟩ | ⟨k, rfl, rfl⟩
    · rw [same]
      refine ⟨rfl, List.forall₂_same.2 fun ticket waits => .inl ⟨rfl, h.attended.issued waits, ?_⟩⟩
      exact h'.attended.issued (same.symm ▸ waits)
    · -- Neither mutex is made yet.
      obtain ⟨free, empty⟩ := h.new_mutex (Nat.le_add_right s.world.tickets k) e
      obtain ⟨free', empty'⟩ := h'.new_mutex (Nat.le_add_right s'.world.tickets k) e
      constructor
      · change ((s'.world.container e).locks.mutex (s'.world.tickets + k)).holder.isNone =
          ((s.world.container e).locks.mutex (s.world.tickets + k)).holder.isNone
        rw [free, free']
      · change List.Forall₂ _ ((s.world.container e).locks.mutex (s.world.tickets + k)).waiting
          ((s'.world.container e).locks.mutex (s'.world.tickets + k)).waiting
        rw [empty, empty']
        exact .nil

theorem Starts.alive (h : s.Starts p i c a below) : s.world.Alive c := by
  have mem := List.mem_of_getElem? h.found
  exact h.reachable.sound.alive _ mem c (List.mem_append_right _ h.held)

/-- Worlds that agree on a container and its bases are alike for resolutions there. -/
theorem Starts.alikeWorlds (h : s.Starts p i c a below) (h' : s'.Starts p i' c' a' below') (here : d ∈ s.world.chain c)
    (here' : d ∈ s'.world.chain c') (agree : ∀ e ∈ s.world.chain d, s'.world.container e = s.world.container e)
    (given : args.Resembles args') : (s.world.beside s'.world d given).AlikeWorlds s.world s'.world where
  tickets := ⟨0, rfl, rfl⟩
  present e he := by
    have alive := h.reachable.sound.ok.alive_of_mem_chain h.alive here
    have alive' := h'.reachable.sound.ok.alive_of_mem_chain h'.alive here'
    have same : s'.world.chain d = s.world.chain d := by
      rw [World.chain, World.chain, agree d List.mem_cons_self]
    have he : e ∈ s.world.chain d := he
    exact iff_of_true (h'.reachable.sound.ok.alive_of_mem_chain alive' (same ▸ he)).1
      (h.reachable.sound.ok.alive_of_mem_chain alive he).1
  containers e he := Pairing.alikeContainers_of_eq (agree e he) (fun _ _ kept => .kept he kept)
    (h.reachable.alikeLocks h'.reachable (agree e he) given)
  rest :=
    { supply := ⟨0, 0, rfl, rfl⟩
      told := ⟨[], [], (List.append_nil _).symm, (List.append_nil _).symm, .nil⟩
      outside _ _ := ⟨rfl, rfl⟩ }

theorem Starts.pursued (h : s.Starts p i c a below) (pure : s.world.Pure p) (given : args.Resembles args') :
    (s.world.beside s'.world d given).Pursued p s.world where
  pure := pure
  upward _ he _ hd := h.reachable.sound.ok.mem_chain_trans he hd

/-! ## In lockstep -/

variable {R : Pairing} {u u' : Task}

/-- Who need not wait in the one need not wait in the other. -/
theorem ready_of_alike (tasks : R.AlikeTasks below below' s.world s'.world u u') (worlds : R.AlikeWorlds s.world s'.world)
    (found : s.tasks[i]? = some u) (found' : s'.tasks[i']? = some u') (ready : s.ready i = true) : s'.ready i' = true := by
  obtain ⟨activity, -⟩ := tasks
  cases activity with
  | line builds =>
    simp only [System.ready, found] at ready
    simp only [System.ready, found']
    rw [worlds.mayStart builds.toBuilds]
    exact ready
  | resolve | fill | pause | give => simp [System.ready, found']

/-- Two resolutions that are alike at the beginning go on in lockstep. -/
theorem Solo.lockstep (h : s.Starts p i c a below) (h' : s'.Starts p i' c' a' below')
    (worlds : R.AlikeWorlds s.world s'.world) (pursued : R.Pursued p s.world)
    (activities : R.AlikeActivities s.world s'.world a a') (solo : Solo p i below s xs t) :
    ∃ u u' ys t', s.Stays p i (s.world.chain c) below xs t u ∧ Solo p i' below' s' ys t' ∧ t'.tasks[i']? = some u' ∧
      R.AlikeWorlds t.world t'.world ∧ R.AlikeTasks below below' t.world t'.world u u' := by
  induction solo with
  | start => exact ⟨_, _, [], s', h.stays, .start, h'.found, worlds, .mk activities .base⟩
  | @next xs t t₁ before busy next alone ih =>
    obtain ⟨u, u', ys, t', stays, solo', found', worlds, tasks⟩ := ih
    have found := stays.found h.present
    have works : ∀ a, u ≠ ⟨.answer, .give a, below⟩ := fun a e => busy a (e ▸ found)
    rcases h.stays_next stays works next alone with ⟨ready, stays₁, world, -⟩ | ⟨-, stays₁, world⟩
    · have works' : ∀ a, u' ≠ ⟨.answer, .give a, below'⟩ := by
        rcases tasks.answers with ⟨answer, -, given, -⟩ | ⟨-, works'⟩
        · exact absurd given (works answer)
        · exact works'
      obtain ⟨env, ys', t₂, own, solo₂, world', found₂⟩ :=
        h'.goes_on solo' found' works' (ready_of_alike tasks worlds found found' ready)
      have step : R.AlikeSteps below below' (u.step ⟨p, t.held, t.tasks.length⟩ t.world) (u'.step env t'.world) :=
        tasks.step worlds (pursued.after stays.world) own works
      refine ⟨_, _, ys', t₂, stays₁, solo₂, found₂, ?_, ?_⟩
      · rw [world, world']
        exact step.world
      · rw [world, world']
        exact step.task
    · refine ⟨u, u', ys, t', stays₁, solo', found', ?_, ?_⟩
      · rw [world]
        exact worlds
      · rw [world]
        exact tasks

/-! ## Isolation -/

/-- A resolution or a call that goes on alone is about a container and its bases only: it leaves all others as they are.
And where those are the same, whatever the others are like, the same comes of it, but for which numbers new instances
get: alike answers, alike containers, and the same is told. So what a base builds on behalf of a scope is made of what
the base and its own bases have, and of new instances. -/
theorem Starts.isolated (h : s.Starts p i c a below) (h' : s'.Starts p i' c' a' below') (pure : s.world.Pure p)
    (own : a.Pure) (given : args.Resembles args') (likewise : Activity.Likewise s.world s'.world d args args' a a')
    (agree : ∀ e ∈ s.world.chain d, s'.world.container e = s.world.container e) (solo : Solo p i below s xs t) :
    (∀ e ∉ s.world.chain d, t.world.container e = s.world.container e) ∧
      ∀ {answer}, t.tasks[i]? = some ⟨.answer, .give (k := .answer) answer, below⟩ →
        (∃ ys t' answer', Solo p i' below' s' ys t' ∧ t'.tasks[i']? = some ⟨.answer, .give (k := .answer) answer', below'⟩) ∧
        ∀ {ys t' answer'}, Solo p i' below' s' ys t' →
          t'.tasks[i']? = some ⟨.answer, .give (k := .answer) answer', below'⟩ →
          (s.world.beside s'.world d given).AlikeOutcomes answer answer' t.world t'.world := by
  have here := likewise.mem_chain h.reachable.sound.ok h.within
  have here' := likewise.symm.mem_chain h'.reachable.sound.ok h'.within
  constructor
  case left =>
    -- Beside itself, a resolution stays within the containers that it is about.
    have itself := Arguments.Resembles.refl args
    have worlds := h.alikeWorlds h here here (fun _ _ => rfl) itself
    have pursued : (s.world.beside s.world d itself).Pursued p s.world := h.pursued pure itself
    obtain ⟨_, _, _, _, -, -, -, worlds', -⟩ :=
      Solo.lockstep h h worlds pursued (likewise.left.alike worlds pursued own) solo
    exact fun e outside => (worlds'.rest.outside e outside).1
  case right =>
    intro answer answered
    have worlds := h.alikeWorlds h' here here' agree given
    have pursued : (s.world.beside s'.world d given).Pursued p s.world := h.pursued pure given
    obtain ⟨u, u', ys, t', stays, solo', found', worlds', tasks⟩ :=
      Solo.lockstep h h' worlds pursued (likewise.alike worlds pursued own) solo
    obtain rfl := Option.some.inj (answered.symm.trans (stays.found h.present))
    rcases tasks.answers with ⟨_, answer', ⟨⟩, rfl, alike⟩ | ⟨busy, -⟩
    · refine ⟨⟨ys, t', answer', solo', found'⟩, fun solo₁ answered₁ => ?_⟩
      -- There is no other way to an answer.
      obtain ⟨rfl, rfl⟩ := solo'.unique found' solo₁ answered₁
      exact ⟨alike, worlds'.containers, worlds'.rest.told⟩
    · exact absurd rfl (busy answer)

end System

/-! ## Pure programs -/

/-- Whether all functions of a program are pure. -/
structure Program.Pure (p : Program) : Prop where
  function : ∀ name, (p.function name).Pure
  injectable : ∀ t, (p.injectable t).Pure

/-- All that is registered with a pure program is pure. -/
theorem Program.Pure.world {p : Program} (h : p.Pure) {s : System} (reached : System.Reachable p s)
    (hooks : ∀ e key, ∀ hook ∈ (s.world.container e).callbacks.hooksFor key, hook.script.actions = []) : s.world.Pure p where
  bound e key β found := by
    have makers : ∀ source : Source, (source.maker p).Pure := by
      intro source
      cases source with
      | function name signed => exact h.function name
      | injectable t => exact h.injectable t
      | chained => trivial
    exact reached.registries (.of_makers makers) e key β (.inl found)
  injectable := h.injectable
  hooks := hooks

namespace System

/-! ## A tool for an order -/

/-- Tools are made of metal. -/
def forge : Program where
  functions := (Table.empty.insert "steel" { name := "steel", product := .object "Metal", body := .inline [] }).insert "tool"
    { name := "tool", product := .object "Tool", params := [.one (.inject (.declared "Metal"))], body := .inline [] }

/-- The forge makes its tools of steel, and shares them. -/
def forgeOps : List Op := [
  .on "forge" (.register none (.function "steel" true) .singleton none),
  .on "forge" (.register none (.function "tool" true) .singleton none)]

/-- Asks a container for an instance of a type. -/
def askFor (container type : String) : Op :=
  .lasting ⟨"", container, false⟩ (.get none (.type (.declared type)) false none)

/-- The forge is asked for a tool. -/
def forgeRun : Run forge := .ofOps forge "forge" (forgeOps ++ [askFor "forge" "Tool"])

/-- A scope that brings metal of its own is asked for a tool. -/
def orderRun : Run forge :=
  .ofOps forge "forge" (forgeOps ++ [.on "forge" (.openScope "order"), .on "order" (.pin none (.object "Metal")),
    askFor "order" "Tool"])

/-- The request of a container for a tool, and what waits for it. -/
def toolRequest (c : ContainerId) : Request := { container := c, key := .type (.declared "Tool"), path := [] }

def toolStack (c : ContainerId) : Stack .answer := .cons (.deliver c none none) .nil

theorem pure_forge : forge.Pure where
  function name := by
    simp only [Program.function, forge, Table.get?_insert]
    split
    · refine ⟨rfl, fun _ _ => rfl, fun slot hs => ?_⟩
      obtain rfl := List.mem_singleton.1 hs
      trivial
    · split
      · exact ⟨rfl, fun _ _ => rfl, fun slot none => (List.not_mem_nil none).elim⟩
      · exact ⟨rfl, fun _ _ => rfl, fun slot none => (List.not_mem_nil none).elim⟩
  injectable t := ⟨rfl, fun _ _ => rfl, fun slot none => (List.not_mem_nil none).elim⟩

/-- Without hooks, the worlds of the forge are pure. -/
theorem pure_of_unhooked {s : System} (reached : Reachable forge s)
    (unhooked : ∀ e, (s.world.container e).callbacks.afterResolving = Table.empty) : s.world.Pure forge := by
  refine pure_forge.world reached fun e key hook found => ?_
  simp [Callbacks.hooksFor, Callbacks.hooksOf, unhooked] at found

theorem pure_orderRun : (orderRun.state 19).world.Pure forge :=
  pure_of_unhooked (orderRun.reachable 19) fun
    | 0 => rfl
    | 1 => rfl
    | _ + 2 => rfl

theorem pure_forgeRun : (forgeRun.state 11).world.Pure forge :=
  pure_of_unhooked (forgeRun.reachable 11) fun
    | 0 => rfl
    | _ + 1 => rfl

theorem starts_orderRun : (orderRun.state 19).Starts forge 4 1 (.resolve (toolRequest 1)) (toolStack 1) :=
  ⟨orderRun.reachable 19, by decide +kernel, rfl, pure_orderRun.bare, ⟨List.mem_cons_self, by rintro f ⟨⟩⟩,
    List.mem_cons_self⟩

/-- How the forge makes what one of its functions provides. -/
def forgeBinding (name : String) : Binding := (Source.function name true).binding forge .singleton none

/-- The forge before it has made anything. -/
def newForge : Container where
  registry := (Registry.insert {} (.type (.declared "Metal")) (forgeBinding "steel")).insert (.type (.declared "Tool"))
    (forgeBinding "tool")

theorem new_forge : (forgeRun.state 11).world.container 0 = newForge := rfl

theorem new_order : (orderRun.state 19).world.container 0 = newForge := rfl

theorem agree_orderRun : ∀ e ∈ (orderRun.state 19).world.chain 0,
    (forgeRun.state 11).world.container e = (orderRun.state 19).world.container e := by
  intro e he
  obtain rfl : e = 0 := List.mem_singleton.1 he
  rw [new_forge, new_order]

theorem starts_forgeRun : (forgeRun.state 11).Starts forge 2 0 (.resolve (toolRequest 0)) (toolStack 0) :=
  ⟨forgeRun.reachable 11, by decide +kernel, rfl, pure_forgeRun.bare, ⟨List.mem_cons_self, by rintro f ⟨⟩⟩,
    List.mem_cons_self⟩

/-- The tool for the order is made by the forge, as it makes one for itself: of its own steel. The metal that the order
brings stays where it is. -/
theorem a_tool_for_an_order :
    (orderRun.state 19).Starts forge 4 1 (.resolve (toolRequest 1)) (toolStack 1) ∧
    (forgeRun.state 11).Starts forge 2 0 (.resolve (toolRequest 0)) (toolStack 0) ∧
    (orderRun.state 31).world.container 1 = (orderRun.state 19).world.container 1 ∧
    ∃ v v', (orderRun.state 31).tasks[4]? = some ⟨.answer, .give (k := .answer) (.ok v), toolStack 1⟩ ∧
      (forgeRun.state 23).tasks[2]? = some ⟨.answer, .give (k := .answer) (.ok v'), toolStack 0⟩ ∧
      ((orderRun.state 19).world.beside (forgeRun.state 11).world 0 (Arguments.Resembles.refl {})).AlikeOutcomes
        (.ok v) (.ok v') (orderRun.state 31).world (forgeRun.state 23).world := by
  have order := orderRun.solo 4 19 (toolStack 1) 12 (by decide +kernel)
  have own := forgeRun.solo 2 11 (toolStack 0) 12 (by decide +kernel)
  obtain ⟨v, answered⟩ : ∃ v, (orderRun.state 31).tasks[4]? =
      some ⟨.answer, .give (k := .answer) (.ok v), toolStack 1⟩ := ⟨_, rfl⟩
  obtain ⟨v', answered'⟩ : ∃ v', (forgeRun.state 23).tasks[2]? =
      some ⟨.answer, .give (k := .answer) (.ok v'), toolStack 0⟩ := ⟨_, rfl⟩
  have located : (orderRun.state 19).world.locate 1 (.type (.declared "Tool")) =
      .builds 0 (.type (.declared "Tool")) (some (forgeBinding "tool")) := rfl
  have located' : (forgeRun.state 11).world.locate 0 (.type (.declared "Tool")) =
      .builds 0 (.type (.declared "Tool")) (some (forgeBinding "tool")) := rfl
  obtain ⟨outside, same⟩ := starts_orderRun.isolated starts_forgeRun pure_orderRun (by rintro f ⟨⟩)
    (Arguments.Resembles.refl {}) (.delegated located located' rfl rfl) agree_orderRun order
  have other : 1 ∉ (orderRun.state 19).world.chain 0 := by
    rw [World.chain, new_order]
    decide
  exact ⟨starts_orderRun, starts_forgeRun, outside 1 other, v, v', answered, answered',
    (same answered).2 own answered'⟩

end System

end Injector
