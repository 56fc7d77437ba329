import Injector.Proofs.Presence
import Injector.Proofs.Registrations
/-!
# Registrations that take effect

A registration stores its binding under the key as it is given, and a lookup goes by the plain key. So
the last registration of a plain key wins: whoever asks its container next has the instance made by it.
A registration of a key with tags is never found (`Run.last_registration_iff`): lookups come to what they came
to before it, and `tagged_registration_is_not_found` is told that nothing is bound.
-/
namespace Injector

/-! ## Keys that are looked up -/

/-- A key that is not plain is not the plain key of any other. -/
theorem Key.ne_plain {key : Key} (other : key.plain ≠ key) (key' : Key) : key ≠ key'.plain := by
  rintro rfl
  exact other (plain_plain key')

namespace Registry

variable (r : Registry) {k k' : Key} (b : Binding)

theorem forScopes_insert_of_ne (h : k ≠ k') : (r.insert k b).forScopes.get? k' = r.forScopes.get? k' := by
  unfold insert
  split <;> simp [Table.get?_insert, Table.get?_erase, h]

end Registry

namespace World

variable {w : World} {c : ContainerId} {key : Key}

/-- No container finds anything else for what is registered under a key that is not plain. -/
theorem finds_register (w : World) (c : ContainerId) (other : key.plain ≠ key) (β : Binding) (d : ContainerId) :
    w.Finds Eq (w.modifyRegistry c fun r => r.insert key β) d where
  aliases := field_modify (·.registry.aliases) w c d _ fun x => Registry.aliases_insert x.registry key β
  own key' := field_modify (·.registry.own.get? key'.plain) w c d _ fun x =>
    Registry.get?_insert_of_ne x.registry β (Key.ne_plain other key')
  forScopes key' := field_modify (·.registry.forScopes.get? key'.plain) w c d _ fun x =>
    Registry.forScopes_insert_of_ne x.registry β (Key.ne_plain other key')
  cache _ := by
    rw [cache_modifyRegistry]
    exact rel_refl _

theorem locate_register (w : World) (c : ContainerId) (other : key.plain ≠ key) (β : Binding) (d : ContainerId)
    (key' : Key) : (w.modifyRegistry c fun r => r.insert key β).locate d key' = w.locate d key' :=
  (locate_congr (bases_modifyRegistry ..) (fun e _ => finds_register w c other β e) key').eq

theorem bound_register (w : World) (c : ContainerId) (other : key.plain ≠ key) (β : Binding) (d : ContainerId)
    (key' : Key) : (w.modifyRegistry c fun r => r.insert key β).bound d key' = w.bound d key' :=
  bound_congr (bases_modifyRegistry ..) (fun e _ => finds_register w c other β e) key'

/-- What a container has bound under the plain key it builds a key by. -/
theorem serves_of_bound {β : Binding} (nothing : (w.container c).cache.get? key = none)
    (own : (w.container c).registry.get? key.plain = some β) : w.serves c key = some (.builds c key (some β)) := by
  rw [serves, nothing, own]
  rfl

end World

/-- Whether a task has begun to make the instance of a build by a maker: it calls the function, or asks for the key
whose instance is converted. The build waits for it. -/
def Maker.BegunBy (b : Build) (below : Stack .answer) (t : Task) : Maker → Prop
  | .function f signature => ∃ arguments inScope,
    t = ⟨.answer, .fill (Job.start f b.key b.container inScope arguments signature b.path), .cons (.build b) below⟩
  | .chained product input target =>
    t = ⟨.answer, .resolve { container := b.container, key := target, path := b.path },
      .cons (.convert product input) (.cons (.build b) below)⟩

namespace System

variable {p : Program}

/-- Whether the running task asks a container outside of all builds for a key that is no alias there. -/
structure Run.AsksPlainly (run : Run p) (n i : Nat) (r : Request) (below : Stack .answer) : Prop where
  running : (run.state n).running = some i
  found : (run.state n).tasks[i]? = some ⟨.answer, .resolve r, below⟩
  path : r.path = []
  stands : (run.state n).world.unalias ((run.state n).world.chain r.container) r.key = r.key

/-- Whether a build in line is begun by the maker of a binding when it has its turn and nobody has built its key
meanwhile. -/
def Run.BeginsInTurn (run : Run p) (i : Nat) (below : Stack .answer) (b : Build) (β : Binding) : Prop :=
  ∀ {m}, (run.state m).running = some i → (run.state m).tasks[i]? = some ⟨.answer, .line b, below⟩ →
    (run.state m).ready i = true → ((run.state m).world.container b.container).cache.get? b.key = none →
      ∃ t, (run.state (m + 1)).tasks[i]? = some t ∧ β.maker.BegunBy b below t

/-- Whether a request of move `n` has its key built by a binding, on the container it asks: the build lines up, and is
begun in its turn, at once if nobody else builds the key there. -/
def Run.HasBuilt (run : Run p) (n i : Nat) (r : Request) (below : Stack .answer) (β : Binding) : Prop :=
  ∃ b : Build, b.container = r.container ∧ b.key = r.key ∧ b.path = [r.key] ∧ b.binding = some β ∧
    (run.state (n + 1)).tasks[i]? = some ⟨.answer, .line b, below⟩ ∧ run.BeginsInTurn i below b β ∧
    ((∀ t ∈ (run.state n).tasks, ∀ b ∈ t.locked, b.container = r.container → b.key ≠ r.key) →
      ∃ t, (run.state (n + 2)).tasks[i]? = some t ∧ β.maker.BegunBy b below t)

namespace Run

variable {run : Run p} {n i : Nat} {r : Request} {below : Stack .answer} {b : Build} {β : Binding}

/-- Who has a lock begins the build by its maker, unless there is an instance. -/
theorem begins (run : Run p) (running : (run.state n).running = some i)
    (found : (run.state n).tasks[i]? = some ⟨.answer, .line b, below⟩) (ready : (run.state n).ready i = true)
    (nothing : ((run.state n).world.container b.container).cache.get? b.key = none) (binding : b.binding = some β) :
    ∃ t, (run.state (n + 1)).tasks[i]? = some t ∧ β.maker.BegunBy b below t := by
  refine ⟨(Step.build ((run.state n).world.letIn b) b below).task, ?_, ?_⟩
  · rw [run.state_succ running found]
    simp only [System.run, ready, if_true]
    exact get?_put found _
  · have maker : b.maker = some β.maker := by rw [Build.maker, binding, Option.map_some]
    unfold Step.build
    rw [World.cache_letIn, nothing, maker]
    cases β.maker with
    | function f signature => exact ⟨_, _, rfl⟩
    | chained product input target => rfl

namespace AsksPlainly

variable (h : run.AsksPlainly n i r below)
include h

theorem alive : (run.state n).world.Alive r.container :=
  (run.reachable n).sound.alive _ (List.mem_of_getElem? h.found) _ (List.mem_append_left _ List.mem_cons_self)

/-- What the container has bound under the plain key the key is built by. -/
theorem hasBuilt (nothing : ((run.state n).world.container r.container).cache.get? r.key = none)
    (own : ((run.state n).world.container r.container).registry.get? r.key.plain = some β) : run.HasBuilt n i r below β := by
  have located : (run.state n).world.locate r.container r.key = .builds r.container r.key (some β) :=
    World.locate_of_serves h.stands (World.serves_of_bound nothing own)
  have new : r.key ∉ r.path := by
    rw [h.path]
    exact List.not_mem_nil
  obtain ⟨b, enters, hc, hkey, binding, path, running, found⟩ := run.lines_up_of_located h.running h.found located new
  rw [Option.some_or] at binding
  rw [h.path, List.nil_append] at path
  refine ⟨b, hc, hkey, path, binding, found, fun running found ready nothing =>
    run.begins running found ready nothing binding, fun vacant => ?_⟩
  -- Nobody has the lock, and nobody has built the key in the one move since.
  have free : ((run.state n).world.container r.container).locks.entries.get? r.key = none :=
    (run.reachable n).entry_eq_none vacant
  have turn : (run.state (n + 1)).world.mayStart b = true := World.mayStart_enter h.alive free hc enters
  have ready : (run.state (n + 1)).ready i = true := by
    simp only [System.ready, found]
    exact turn
  refine run.begins running found ready ?_ binding
  rw [hc, hkey, ← World.world_of_enter enters, World.container_enter, World.cache_modifyLocks]
  exact nothing

/-- What is built on the container is built by what it has bound under the plain key, unless the request comes with a
constructor of its own: then its key is plain. -/
theorem plain_or_own_of_hasBuilt (built : run.HasBuilt n i r below β) :
    r.key.plain = r.key ∨ ((run.state n).world.container r.container).registry.get? r.key.plain = some β := by
  obtain ⟨b, hc, hkey, -, binding, found, -⟩ := built
  have right := (run.state n).world.right_locate r.container r.key
  have step : (Step.resolve (run.state n).world r below).task = ⟨.answer, .line b, below⟩ := by
    have goes : run.state (n + 1) = (run.state n).put i (Step.resolve (run.state n).world r below) :=
      run.state_succ h.running h.found
    rw [goes, get?_put h.found] at found
    exact Option.some.inj found
  unfold Step.resolve at step
  split at step
  · cases step
  · cases step
  · next c key β' located =>
    split at step
    · cases step
    · cases step
      rw [located] at right
      obtain ⟨rfl, rfl⟩ := And.intro hc hkey
      cases constructor : r.fallback with
      | none =>
        rw [constructor, Option.map_none, Option.or_none] at binding
        exact .inr (right.2.2.trans binding)
      | some f =>
        obtain ⟨t, plain⟩ := ((run.reachable n).sound.wf _ (List.mem_of_getElem? h.found)).activity.plain f constructor
        rw [plain]
        exact .inl rfl

end AsksPlainly

end Run

/-- The last registration of a plain key wins, whatever was registered before and by whomever: its key is bound, and who
asks its container next, without an instance there, has it built by that registration. For a key with tags that holds only
if the plain key is bound to the very same; the registration of such a key changes nothing that is looked up. -/
theorem Run.last_registration_iff (run : Run p) :
    (∀ {n i r β} {below : Stack .answer}, run.AsksPlainly n i r below →
      Registration.last r.container r.key (run.registrations n) = some β →
      (β.lifetime.inScopes = false ∨ ((run.state n).world.container r.container).isScope = true) →
      ((run.state n).world.container r.container).cache.get? r.key = none →
      ((run.state n).world.bound r.container r.key = true ∧ run.HasBuilt n i r below β ↔
        r.key.plain = r.key ∨ ((run.state n).world.container r.container).registry.get? r.key.plain = some β)) ∧
    ∀ (w : World) (c : ContainerId) (target : String) {key : Key}, key.plain ≠ key →
      ∀ (source : Source) (lifetime : Lifetime) (finalizer : Option (Script Op)) (d : ContainerId) (key' : Key),
        (w.instant p c target (.register (some key) source lifetime finalizer)).2.locate d key' = w.locate d key' ∧
          (w.instant p c target (.register (some key) source lifetime finalizer)).2.bound d key' = w.bound d key' := by
  refine ⟨fun {n i r β below} h last own nothing => ⟨fun ⟨_, built⟩ => h.plain_or_own_of_hasBuilt built, fun plain => ?_⟩,
    fun w c target key other source lifetime finalizer d key' =>
      ⟨World.locate_register w c other _ d key', World.bound_register w c other _ d key'⟩⟩
  have bound : ((run.state n).world.container r.container).registry.get? r.key.plain = some β := by
    refine plain.elim (fun plain => ?_) id
    have registered := (run.registered n).bound h.alive last
    have fits := (run.reachable n).sound.ok.registry r.container h.alive.2
    rw [plain, registered, if_neg]
    rw [fits.inScope]
    rcases own with own | own <;> simp [own]
  refine ⟨?_, h.hasBuilt nothing bound⟩
  have served := World.serves_of_bound nothing bound
  rw [World.bound, h.stands]
  exact List.any_eq_true.2 ⟨r.container, List.mem_cons_self, World.boundHere_of_serves (by rw [served]; rintro ⟨⟩)⟩

/-! ## A key registered twice, and a key with tags -/

/-- Two constructors of an `A`. -/
def twoWays : Program where
  functions := (Table.empty.insert "old" { name := "old", product := .object "A", body := .inline [] }).insert "new"
    { name := "new", product := .object "A", body := .inline [] }

/-- The root has an `A` registered twice, and a `B` only with a tag. It is asked for the `A`, and for the `B` with the
tag. -/
def twiceRun : Run twoWays :=
  .ofOps twoWays "root" [
    .on "root" (.register none (.function "old" true) .singleton none),
    .on "root" (.register none (.function "new" true) .transient none),
    .on "root" (.register (some (.tagged (.declared "B") ["x"])) (.function "old" true) .singleton none),
    .lasting ⟨"", "root", false⟩ (.get none (.type (.declared "A")) false none),
    .lasting ⟨"", "root", false⟩ (.get none (.tagged (.declared "B") ["x"]) false none)]

/-- A request to the root. -/
def rootRequest (key : Key) : Request := { container := 0, key, path := [] }

/-- The root builds the `A` by the constructor that was registered last. -/
theorem new_way_wins : ∃ β b t, twiceRun.AsksPlainly 15 3 (rootRequest (.type (.declared "A"))) (.cons (.deliver 0 none none) .nil) ∧
    Registration.last 0 (.type (.declared "A")) (twiceRun.registrations 15) = some β ∧
    β.maker = .function (twoWays.function "new") (twoWays.function "new").signature ∧
    (twiceRun.state 15).world.bound 0 (.type (.declared "A")) = true ∧
    (twiceRun.state 17).tasks[3]? = some t ∧ β.maker.BegunBy b (.cons (.deliver 0 none none) .nil) t := by
  have asks : twiceRun.AsksPlainly 15 3 (rootRequest (.type (.declared "A"))) (.cons (.deliver 0 none none) .nil) :=
    ⟨by decide +kernel, rfl, rfl, rfl⟩
  have last : Registration.last 0 (.type (.declared "A")) (twiceRun.registrations 15) =
      some ((Source.function "new" true).binding twoWays .transient none) := rfl
  have free : ((twiceRun.state 15).tasks.all fun t => t.locked.isEmpty) = true := by decide +kernel
  obtain ⟨bound, b, -, -, -, -, -, -, begins⟩ := (twiceRun.last_registration_iff.1 asks last (.inl rfl) rfl).2 (.inl rfl)
  obtain ⟨t, found, begun⟩ := begins fun t ht b hb => by
    rw [List.isEmpty_iff.1 (List.all_eq_true.1 free t ht)] at hb
    cases hb
  exact ⟨_, b, t, asks, last, rfl, bound, found, begun⟩

/-- The `B` with the tag was registered just so, and nobody has it yet. Still the root says that nothing is bound. -/
theorem tagged_registration_is_not_found : ∃ β,
    twiceRun.AsksPlainly 25 4 (rootRequest (.tagged (.declared "B") ["x"])) (.cons (.deliver 0 none none) .nil) ∧
    Registration.last 0 (.tagged (.declared "B") ["x"]) (twiceRun.registrations 25) = some β ∧
    β.lifetime.inScopes = false ∧
    ((twiceRun.state 25).world.container 0).cache.get? (.tagged (.declared "B") ["x"]) = none ∧
    (twiceRun.state 25).world.bound 0 (.tagged (.declared "B") ["x"]) = false ∧
    (twiceRun.state 27).tasks[4]? = some ⟨.answer, .give (k := .answer)
      (.error (.unbound (.tagged (.declared "B") ["x"]))), .cons (.deliver 0 none none) .nil⟩ :=
  ⟨_, ⟨by decide +kernel, rfl, rfl, rfl⟩, rfl, rfl, rfl, by decide +kernel, rfl⟩

end System

end Injector
