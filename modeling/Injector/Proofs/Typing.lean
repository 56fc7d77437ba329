import Injector.Proofs.Asking
import Injector.Proofs.Deeds
import Injector.Proofs.Finalization
import Injector.Proofs.Jobs
import Injector.Proofs.Reentrance
/-!
# Instances are of the type of their key

What is bound or put by hand under a key is of any type; a run is typed if no command makes use of that
(`Run.Typed`). Then every instance that is kept under a key with a type is of this type, and so is every
answer to a request for it: what waits for the answer can cast it (`Run.types_are_kept`). A finalizer has an
instance of its type in every run, typed or not.
-/
namespace Injector

/-! ## Types under keys -/

/-- Whether what is of type `t` may stand under a key: under a name, or a key of this type. -/
def Key.Admits (key : Key) (t : Ty) : Prop := ∀ u ∈ key.ty?, t = u

instance (key : Key) (t : Ty) : Decidable (key.Admits t) := inferInstanceAs (Decidable (∀ u ∈ key.ty?, t = u))

@[simp] theorem Key.admits_plain {key : Key} {t : Ty} : key.plain.Admits t ↔ key.Admits t := by
  cases key <;> rfl

/-- The key that a command binds, or puts an instance under by hand, if it is told one, and the type that it puts there. -/
def Instant.puts (p : Program) (w : World) : Instant Command Op → Option (Key × Ty)
  | .register (some key) source _ _ => some (key, source.ty p)
  | .pin (some key) value => some (key, (value.makeOwn w.saved w.supply).1.ty)
  | _ => none

/-- Whether what is done binds and keeps types under keys that admit them. -/
def Deed.Typed (p : Program) : Deed → Prop
  | .command w _ action => ∀ x ∈ action.puts p w, x.1.Admits x.2
  | .record _ b v => b.key.Admits v.ty

instance (p : Program) : DecidablePred (Deed.Typed p)
  | .command w _ action => inferInstanceAs (Decidable (∀ x ∈ action.puts p w, x.1.Admits x.2))
  | .record _ b v => inferInstanceAs (Decidable (b.key.Admits v.ty))

/-- Whether a build makes what its key admits. -/
def Build.Typed (b : Build) : Prop := ∀ m, b.maker = some m → b.key.Admits m.product.ty

/-- A registration adds nothing under other keys. -/
theorem Registry.found_insert_of_ne {r : Registry} {key k : Key} {b b' : Binding} (other : key ≠ k)
    (found : (r.insert key b).own.get? k = some b' ∨ (r.insert key b).forScopes.get? k = some b') :
    r.own.get? k = some b' ∨ r.forScopes.get? k = some b' := by
  unfold Registry.insert at found
  split at found
  · rcases found with found | found
    · dsimp only at found
      split at found
      · exact .inl (by rwa [Table.get?_insert_of_ne _ _ other] at found)
      · exact .inl (by rwa [Table.get?_erase, if_neg other] at found)
    · exact .inr (by rwa [Table.get?_insert_of_ne _ _ other] at found)
  · rcases found with found | found
    · exact .inl (by rwa [Table.get?_insert_of_ne _ _ other] at found)
    · exact .inr (by rwa [Table.get?_erase, if_neg other] at found)

namespace World

/-- Whether whatever a container has bound or keeps is admitted by its key. -/
structure Typed (w : World) : Prop where
  bound : ∀ c key β, (w.container c).registry.own.get? key = some β ∨ (w.container c).registry.forScopes.get? key = some β →
    key.Admits β.maker.product.ty
  kept : ∀ c key v, (w.container c).cache.get? key = some v → key.Admits v.ty

namespace Typed

variable {p : Program} {w w' : World} {c : ContainerId}

theorem openRoot (name : String) : (({} : World).openRoot name).Typed := by
  have empty : ∀ c, (({} : World).openRoot name).container c = {} := by
    intro c
    change (({} : World).add {}).2.container c = _
    rw [container_add]
    split <;> rfl
  constructor
  · intro c key β bound
    rw [empty] at bound
    rcases bound with bound | bound <;> cases bound
  · intro c key v kept
    rw [empty] at kept
    cases kept

/-- A change of one container keeps types if it binds and keeps nothing else there. -/
theorem modify (h : w.Typed) (c : ContainerId) {f : Container → Container}
    (bound : ∀ x key β, (f x).registry.own.get? key = some β ∨ (f x).registry.forScopes.get? key = some β →
      key.Admits β.maker.product.ty ∨ x.registry.own.get? key = some β ∨ x.registry.forScopes.get? key = some β)
    (kept : ∀ x key v, (f x).cache.get? key = some v → key.Admits v.ty ∨ x.cache.get? key = some v) :
    (w.modify c f).Typed := by
  constructor
  · intro d key β found
    rw [container_modify] at found
    split at found
    · exact (bound _ _ _ found).elim id (h.bound d key β)
    · exact h.bound d key β found
  · intro d key v found
    rw [container_modify] at found
    split at found
    · exact (kept _ _ _ found).elim id (h.kept d key v)
    · exact h.kept d key v found

theorem byItself (typed : w.Typed) (h : w.ByItself w') : w'.Typed := by
  induction h with
  | @same w w' same =>
    have container : ∀ c, w'.container c = w.container c := fun c => by rw [World.container, World.container, same]
    exact ⟨fun c => container c ▸ typed.bound c, fun c => container c ▸ typed.kept c⟩
  | change c within =>
    refine typed.modify c (fun x key β found => .inr ?_) fun x key v found => .inr ((within x).kept key v found)
    rwa [(within x).own, (within x).forScopes] at found
  | @openRoot w =>
    constructor
    · intro d key β found
      rw [container_add] at found
      split at found
      · rcases found with found | found <;> cases found
      · exact typed.bound d key β found
    · intro d key v found
      rw [container_add] at found
      split at found
      · cases found
      · exact typed.kept d key v found
  | @openScope w c =>
    constructor
    · intro d key β found
      rw [World.openScope, container_add] at found
      split at found
      · exact typed.bound c key β (.inr (found.elim id id))
      · exact typed.bound d key β found
    · intro d key v found
      rw [World.openScope, container_add] at found
      split at found
      · cases found
      · exact typed.kept d key v found
  | @release w held =>
    constructor
    · intro d key β found
      rw [container_release] at found
      split at found
      · rcases found with found | found <;> cases found
      · exact typed.bound d key β found
    · intro d key v found
      rw [container_release] at found
      split at found
      · cases found
      · exact typed.kept d key v found
  | trans _ _ ih ih' => exact ih' (ih typed)

theorem register (h : w.Typed) (c : ContainerId) {key : Key} {β : Binding} (typed : key.Admits β.maker.product.ty) :
    (w.modifyRegistry c fun r => r.insert key β).Typed := by
  refine h.modify c (fun x key' β' found => ?_) fun x key' v found => .inr found
  by_cases same : key = key'
  · subst same
    rcases Registry.found_insert found with rfl | old
    · exact .inl typed
    · exact .inr old
  · exact .inr (Registry.found_insert_of_ne same found)

theorem pin (h : w.Typed) (c : ContainerId) {key : Key} {v : Instance} (typed : key.Admits v.ty) :
    (w.modifyCache c fun x => x.pin key v).Typed := by
  refine h.modify c (fun x key' β found => .inr found) fun x key' v' found => ?_
  rw [Cache.get?_pin] at found
  split at found
  · next same =>
    cases found
    exact .inl (same ▸ typed)
  · exact .inr found

/-- A command that is typed keeps types. -/
theorem instant (h : w.Typed) (target : String) {a : Instant Command Op} (typed : ∀ x ∈ a.puts p w, x.1.Admits x.2) :
    (w.instant p c target a).2.Typed := by
  by_cases binds : ∃ key source l f, a = .register key source l f
  · obtain ⟨key, source, l, f, rfl⟩ := binds
    refine h.register c ?_
    rw [Source.binding, ← Source.ty_eq]
    cases key with
    | none => exact fun _ same => Option.some.inj same
    | some key => exact typed _ rfl
  · by_cases pins : ∃ key value, a = .pin key value
    · obtain ⟨key, value, rfl⟩ := pins
      have supplied : (w.supplied (value.makeOwn w.saved)).2.Typed := h.byItself (.same rfl)
      refine supplied.pin c ?_
      cases key with
      | none => exact fun _ same => Option.some.inj same
      | some key => exact typed _ rfl
    · refine h.byItself (byItself_instant target ?_ ?_)
      · rintro key source l f rfl
        exact binds ⟨_, _, _, _, rfl⟩
      · rintro key value rfl
        exact pins ⟨_, _, rfl⟩

theorem record (h : w.Typed) {b : Build} {v : Instance} (typed : b.key.Admits v.ty) : (w.record b v).Typed := by
  have kept : (w.modifyCache b.container fun x =>
      (if b.lifetime.cached then x.insert b.key v else x).markResolved b.key.plain).Typed := by
    refine h.modify _ (fun x key β found => .inr found) fun x key v' found => ?_
    rw [Cache.get?_markResolved] at found
    split at found
    · rw [Cache.get?_insert] at found
      split at found
      · next same =>
        cases found
        exact .inl (same ▸ typed)
      · exact .inr found
    · exact .inr found
  unfold World.record
  dsimp only
  split
  · exact kept.byItself (.callbacks _ _ _)
  · exact kept

theorem path {ds : List Deed} (path : w.Path p ds w') (typed : ∀ d ∈ ds, d.Typed p) (h : w.Typed) : w'.Typed := by
  induction path with
  | itself itself => exact h.byItself itself
  | command target action => exact h.instant target (typed _ List.mem_cons_self)
  | record b v => exact h.record (typed _ List.mem_cons_self)
  | trans _ _ ih ih' =>
    exact ih' (fun d hd => typed d (List.mem_append_right _ hd)) (ih (fun d hd => typed d (List.mem_append_left _ hd)) h)

end Typed

end World

/-! ## Typed runs -/

theorem Key.admits_of_name {key : Key} (name : key.isName = true) (t : Ty) : key.Admits t := by
  cases key with
  | name => exact fun _ h => by cases h
  | type | tagged => cases name

namespace Request.Leads

variable {r : Request} {w : World} {b : Build}

theorem key_eq (leads : r.Leads w b) (plain : r.key.isName = false) : b.key = r.key := by
  obtain ⟨β, located, -⟩ := leads.located
  have key := w.key_locate r.container plain
  rw [located] at key
  exact key

/-- What a request lines up makes what its key admits. -/
theorem typed (leads : r.Leads w b) (typed : w.Typed)
    (own : ∀ f, r.fallback = some f → r.key.ty? = some f.product.ty) : b.Typed := by
  intro m maker
  obtain ⟨x, binding, rfl⟩ := Option.map_eq_some_iff.1 maker
  obtain ⟨β, located, found⟩ := leads.located
  rw [found] at binding
  cases β with
  | some y =>
    obtain rfl := Option.some.inj binding
    have right := w.right_locate r.container r.key
    rw [located] at right
    exact Key.admits_plain.1 (typed.bound _ _ _ (.inl right.2.2))
  | none =>
    obtain ⟨f, fallback, rfl⟩ := Option.map_eq_some_iff.1 ((Option.none_or ..).symm.trans binding)
    have ty := own f fallback
    have plain : r.key.isName = false := by
      generalize r.key = key at ty
      cases key with
      | name => cases ty
      | type | tagged => rfl
    rw [leads.key_eq plain]
    exact fun u same => Option.some.inj (ty.symm.trans same)

end Request.Leads

/-- What a task asks for. -/
def Task.request? : Task → Option Request
  | ⟨_, .resolve r, _⟩ => some r
  | _ => none

namespace System

variable {p : Program}

/-- Whether what is bound or put by hand next under a key with a type is of this type, and what may build itself makes
instances of the type that is asked for. -/
structure Typed (p : Program) (s : System) : Prop where
  commands : ∀ d ∈ s.deeds p, d.Commanded → d.Typed p
  injectables : ∀ t ∈ s.tasks, ∀ r ∈ t.request?, r.fallback.isSome → ∀ u ∈ r.key.ty?, (p.injectable u).product.ty = u

instance (p : Program) (s : System) : Decidable (s.Typed p) :=
  decidable_of_iff ((∀ d ∈ s.deeds p, d.Commanded → d.Typed p) ∧
      ∀ t ∈ s.tasks, ∀ r ∈ t.request?, r.fallback.isSome → ∀ u ∈ r.key.ty?, (p.injectable u).product.ty = u)
    ⟨fun ⟨commands, injectables⟩ => ⟨commands, injectables⟩, fun h => ⟨h.commands, h.injectables⟩⟩

/-- A run in which keys are only used for their own types. -/
def Run.Typed (run : Run p) : Prop := ∀ n, (run.state n).Typed p

namespace Run.Typed

variable {run : Run p} {n : Nat}

/-- What makes an instance if nothing is bound makes one of the type that is asked for. -/
theorem fallback (typed : run.Typed) {r : Request} {below : Stack .answer}
    (hr : ⟨.answer, .resolve r, below⟩ ∈ (run.state n).tasks) {f : Function} (own : r.fallback = some f) :
    r.key.ty? = some f.product.ty := by
  obtain ⟨m, -, t, ht, env, rfl, asks⟩ := run.asked_before hr id
  suffices ∃ t, r.key.ty? = some t ∧ r.fallback = some (env.program.injectable t) by
    obtain ⟨t, ty, fallback⟩ := this
    obtain rfl := Option.some.inj (own.symm.trans fallback)
    rw [ty, (typed n).injectables _ hr r rfl (by rw [fallback]; rfl) t ty]
  cases asks with
  | @slot j below slot rest key todo asks =>
    obtain ⟨t, builds, -⟩ := Option.map_eq_some_iff.1 own
    refine ⟨t, ?_, congrArg (Option.map _) builds⟩
    generalize slot.extractor = e at builds asks
    cases e with
    | autowired =>
      cases builds
      cases asks
      rfl
    | _ => cases builds
  | @get s h expected key autowired save below c target =>
    cases autowired with
    | false => cases own
    | true =>
      cases key with
      | type t => exact ⟨t, rfl, rfl⟩
      | name | tagged => cases own
  | convert | observe => cases own

theorem build (typed : run.Typed) (worlds : ∀ m < n, (run.state m).world.Typed) {t : Task} {b : Build}
    (ht : t ∈ (run.state n).tasks) (hb : b ∈ t.locked) : b.Typed := by
  obtain ⟨m, earlier, r, below, hr, leads⟩ := run.lined_up ht hb
  exact leads.typed (worlds m earlier) fun f own => typed.fallback hr own

/-- In a typed run whatever is recorded is of the type of its key. -/
theorem record (typed : run.Typed) (worlds : ∀ m < n, (run.state m).world.Typed) {b : Build} {v : Instance}
    (hand : (run.state n).hand? = some (b, v)) : b.key.Admits v.ty := by
  obtain ⟨i, t, -, found, hand⟩ := exists_of_hand hand
  have ht := List.mem_of_getElem? found
  obtain ⟨below, rfl⟩ := Task.of_hand hand
  obtain ⟨m, maker, ty⟩ : ∃ m, b.maker = some m ∧ v.ty = m.product.ty := ((run.reachable n).sound.wf _ ht).activity
  rw [ty]
  exact typed.build worlds ht (List.mem_append_right _ (Task.mem_builds_of_hand hand)) m maker

/-- In a typed run whatever a container has bound or keeps is of the type of its key. -/
theorem world (typed : run.Typed) : (run.state n).world.Typed := by
  induction n using Nat.strongRecOn with
  | ind n worlds =>
    cases n with
    | zero =>
      obtain ⟨name, start⟩ := run.start
      rw [start]
      exact .openRoot name
    | succ n =>
      have before := worlds n (Nat.lt_succ_self n)
      rcases run.moves n with moves | ⟨-, same⟩
      · refine before.path moves.path fun d hd => ?_
        cases d with
        | command w c action => exact (typed n).commands _ hd trivial
        | record w b v =>
          refine typed.record (fun m hm => worlds m (Nat.lt_succ_of_lt hm)) ?_
          cases current : (run.state n).current with
          | none =>
            rw [deeds, current] at hd
            cases hd
          | some t =>
            rw [deeds, current] at hd
            rw [hand?, current]
            exact Task.hand_of_record hd
      · rwa [same]

end Run.Typed

end System

/-! ## What a request is answered -/

/-- Where a task is until its request is answered with an instance that the key admits. -/
inductive Task.Sought (r : Request) (below : Stack .answer) : Task → Prop
  | asks : Sought r below ⟨.answer, .resolve r, below⟩
  | lines {b : Build} (key : r.key.isName = false → b.key = r.key) : Sought r below ⟨.answer, .line b, below⟩
  | builds {b : Build} (key : r.key.isName = false → b.key = r.key) {kind : Kind} {a : Activity kind} {above : Stack kind}
    (on : (Stack.cons (.build b) below).On above) : Sought r below ⟨kind, a, above⟩
  | serves {v : Instance} (ty : r.key.Admits v.ty) : Sought r below ⟨.answer, .give (k := .answer) (.ok v), below⟩
  | fails {f : Failure} : Sought r below ⟨.answer, .give (k := .answer) (.error f), below⟩

namespace Task.Sought

variable {r : Request} {below : Stack .answer} {t : Task} {w : World} {env : Env} {b : Build}

theorem unfinished (h : t.Sought r below) : t.reply? = none := by
  cases h with
  | asks | lines | serves | fails => rfl
  | builds _ on => exact Task.reply_of_on on

/-- An instance of a key that was found for a request is of the type that was asked for. -/
theorem serves_found {v : Instance} {key : Key} (found : r.key.isName = false → key = r.key) (ty : key.Admits v.ty) :
    Sought r below ⟨.answer, .give (k := .answer) (.ok v), below⟩ := by
  cases name : r.key.isName with
  | true => exact .serves (Key.admits_of_name name _)
  | false => exact .serves (found name ▸ ty)

theorem resolve (typed : w.Typed) : (Step.resolve w r below).task.Sought r below := by
  have right := w.right_locate r.container r.key
  have key : r.key.isName = false → (w.locate r.container r.key).key = r.key := w.key_locate r.container
  unfold Step.resolve
  split
  · next located =>
    rw [located] at right key
    exact .serves_found key (typed.kept _ _ _ right.2)
  · exact .fails
  · next located =>
    rw [located] at key
    split
    · exact .fails
    · exact .lines key

theorem build (key : r.key.isName = false → b.key = r.key) (typed : w.Typed) :
    (Step.build w b below).task.Sought r below := by
  unfold Step.build
  split
  · next kept => exact .serves_found key (typed.kept _ _ _ kept)
  · split
    · exact .builds key .base
    · exact .builds key (.cons _ .base)
    · exact .fails

theorem step (h : t.Sought r below) (typed : w.Typed)
    (makes : ∀ b v, t.hand? = some (b, v) → b.key.Admits v.ty)
    (busy : ∀ a, t ≠ ⟨.answer, .give (k := .answer) a, below⟩) : (t.step env w).task.Sought r below := by
  cases h with
  | asks => exact resolve typed
  | lines key => exact build key (typed.byItself (.letIn w _))
  | serves | fails => exact absurd rfl (busy _)
  | @builds b key kind a above on =>
    by_cases here : ∃ x : Except Failure Instance,
        (⟨kind, a, above⟩ : Task) = ⟨.answer, .give (k := .answer) x, .cons (.build b) below⟩
    · obtain ⟨x, same⟩ := here
      rw [same] at makes ⊢
      cases x with
      | error f => exact .fails
      | ok v => exact .serves_found key (makes b v rfl)
    · exact .builds key (Task.step_on on fun x same => here ⟨x, same⟩)

theorem joined {tasks : List Nat} {above : Stack .reply} (h : Sought r below ⟨.reply, .await tasks, above⟩) (reply : Reply) :
    Sought r below ⟨.reply, .give (k := .reply) reply, above⟩ := by
  cases h with
  | builds key on => exact .builds key on

end Task.Sought

namespace System

variable {p : Program} {run : Run p} {n m i : Nat} {r : Request} {below : Stack .answer}

theorem Run.Typed.sought (typed : run.Typed) (asked : (run.state n).tasks[i]? = some ⟨.answer, .resolve r, below⟩)
    (pending : run.Pending i below n m) : ∃ t, (run.state m).tasks[i]? = some t ∧ t.Sought r below := by
  refine pending.follows (P := fun _ t => t.Sought r below) asked .asks (fun sought => sought.unfinished)
    (fun sought _ => sought) fun {k t st} _ running found sought busy takes => ?_
  have makes : ∀ b v, t.hand? = some (b, v) → b.key.Admits v.ty := by
    intro b v hand
    refine typed.record (n := k) (fun _ _ => typed.world) ?_
    rw [hand?, current_eq running found]
    exact hand
  cases takes with
  | joined => exact sought.joined _
  | step => exact sought.step typed.world makes busy

/-- In a typed run an instance that a request is answered with is of the type that was asked for. -/
theorem Run.Typed.answer (typed : run.Typed) (asked : (run.state n).tasks[i]? = some ⟨.answer, .resolve r, below⟩)
    (pending : run.Pending i below n m) {v : Instance}
    (answered : (run.state m).tasks[i]? = some ⟨.answer, .give (k := .answer) (.ok v), below⟩) : r.key.Admits v.ty := by
  obtain ⟨t, found, sought⟩ := typed.sought asked pending
  obtain rfl := Option.some.inj (found.symm.trans answered)
  cases sought with
  | serves ty => exact ty
  | builds _ on => exact absurd on.height (Nat.not_le.2 (Nat.lt_succ_self _))

end System

/-! ## Casts -/

/-- What casts the answer to a request for a key, and to which type: an operation that asks for a type by its own key, a slot
for a dependency but for one with a name, and the conversion of a type that is asked for by its own key. -/
inductive Stack.Casts (key : Key) : Stack .answer → Ty → Prop
  | get {c : ContainerId} {t : Ty} {save : Option String} {below : Stack .reply} (own : key.ty? = some t) :
    Casts key (.cons (.deliver c (some t) save) below) t
  | slot {j : Job} {slot : Slot} {rest : List Slot} {bound : Key → Bool} {t : Ty} {below : Stack .answer}
    (todo : j.todo = slot :: rest) (asks : slot.extractor.asks bound = some key)
    (unnamed : ∀ u name, slot.extractor ≠ .named u name) (expects : slot.extractor.expects key = some t) :
    Casts key (.cons (.slot j key) below) t
  | convert {product : Product} {input : Ty} {below : Stack .answer} (own : key.ty? = some input) :
    Casts key (.cons (.convert product input) below) input

/-- A slot expects the type of the key that it asks for, unless that is a name. -/
theorem Extractor.ty_of_expects {e : Extractor} {bound : Key → Bool} {key : Key} {t : Ty} (asks : e.asks bound = some key)
    (unnamed : ∀ u name, e ≠ .named u name) (expects : e.expects key = some t) : key.ty? = some t := by
  cases e with
  | inject | autowired | annotated =>
    cases asks
    exact expects
  | named u name => exact absurd rfl (unnamed u name)
  | rest u =>
    simp only [Extractor.asks] at asks
    simp only [Extractor.expects] at expects
    have apart : u ≠ .seq u := fun same => Nat.ne_of_lt (Nat.lt_succ_self u.depth) (congrArg Ty.depth same)
    split at asks
    · cases asks
      rwa [if_pos rfl] at expects
    · split at asks
      · cases asks
        rwa [if_neg (fun same => apart (Key.type.inj same))] at expects
      · cases asks
  | arg | kwargs | container | inspect | lookup | replace => cases expects

theorem Stack.Casts.ty {key : Key} {below : Stack .answer} {t : Ty} (h : below.Casts key t) : key.ty? = some t := by
  cases h with
  | get own | convert own => exact own
  | slot todo asks unnamed expects => exact Extractor.ty_of_expects asks unnamed expects

namespace System

variable {p : Program} {run : Run p} {n : Nat}

/-- A slot asks for the key that its answer is taken to be for. -/
theorem Run.slot_asked (run : Run p) {r : Request} {j : Job} {key : Key} {below : Stack .answer}
    (hr : ⟨.answer, .resolve r, .cons (.slot j key) below⟩ ∈ (run.state n).tasks) :
    r.key = key ∧ ∃ slot rest bound, j.todo = slot :: rest ∧ slot.extractor.asks bound = some key := by
  obtain ⟨m, -, t, -, env, -, asks⟩ := run.asked_before hr id
  cases asks with
  | slot todo asks => exact ⟨rfl, _, _, _, todo, asks⟩

/-! ## Finalizers -/

/-- Wherever a finalizer is left to be run, it is left by the build of its instance. -/
theorem Run.built_of_teardown (run : Run p) {q : Place} {f : Finalizer} {v : Instance}
    (left : (f, v) ∈ (run.state n).world.teardowns (run.state n).tasks q) :
    ∃ m < n, ∃ b, (run.state m).hand? = some (b, v) ∧ b.finalizer = some f := by
  have mine : ∀ u : Instance, v.serial = u.serial →
      (f, v) ∈ teardownsOf u ((run.state n).world.teardowns (run.state n).tasks q) := fun u same =>
    List.mem_filter.2 ⟨left, beq_iff_eq.2 same⟩
  by_cases built : ∃ m < n, ∃ b u f', (run.state m).hand? = some (b, u) ∧ b.finalizer = some f' ∧ v.serial = u.serial
  · obtain ⟨m, earlier, b, u, f', hand, finalizer, same⟩ := built
    -- The build left one finalizer, and this is all that is left for the instance.
    suffices ∃ q', (run.state n).Only u f' q' by
      obtain ⟨q', only⟩ := this
      have mine := mine u same
      rw [only q] at mine
      split at mine
      · cases List.mem_singleton.1 mine
        exact ⟨m, earlier, b, hand, finalizer⟩
      · cases mine
    cases run.fate hand finalizer earlier with
    | kept _ _ only => exact ⟨_, only⟩
    | taken _ _ _ _ _ only => exact ⟨_, only⟩
    | ran _ _ _ _ _ _ _ _ _ only => exact ⟨_, only⟩
  · have none : (run.state n).Only v ⟨v.ty, default⟩ none := by
      refine run.only_of_unbuilt rfl fun m earlier b u hand => ?_
      cases finalizer : b.finalizer with
      | none => exact .inl rfl
      | some f' => exact .inr fun same => built ⟨m, earlier, b, u, f', hand, finalizer, same.symm⟩
    have mine := mine v rfl
    rw [none q] at mine
    cases mine

/-- A finalizer that comes next in a task is for the type of its instance. -/
theorem Run.ty_of_windDown (run : Run p) {path : List Key} {f : Finalizer} {v : Instance} {ts : List Teardown}
    {below : Stack .done} (ht : ⟨.done, .windDown path (.finalize f v :: ts), below⟩ ∈ (run.state n).tasks) :
    f.ty = v.ty := by
  obtain ⟨i, found⟩ := List.getElem?_of_mem ht
  have mem : (below.height, f, v) ∈ Task.left ⟨.done, .windDown path (.finalize f v :: ts), below⟩ :=
    List.mem_append_left _ List.mem_cons_self
  obtain ⟨m, -, b, hand, finalizer⟩ := run.built_of_teardown (q := .task i below.height) (mem_leftAt found mem)
  exact run.ty_of_hand hand finalizer

/-- Types are kept although the store does not know them. In a typed run whatever a container keeps is of the type of
its key, and so is whatever a request for a key with a type is answered with, which all that asked for it can cast; a
slot asks for the key that it takes the answer to be for. In any run a finalizer, wherever it waits, is for the type of its
instance, which was built by the binding that it was declared with: it is never passed over. -/
theorem Run.types_are_kept (run : Run p) :
    (run.Typed →
      (∀ n c key v, ((run.state n).world.container c).cache.get? key = some v → key.Admits v.ty) ∧
      (∀ n m i r v, ∀ below : Stack .answer, (run.state n).tasks[i]? = some ⟨.answer, .resolve r, below⟩ →
        run.Pending i below n m → (run.state m).tasks[i]? = some ⟨.answer, .give (k := .answer) (.ok v), below⟩ →
        r.key.Admits v.ty ∧ ∀ t, below.Casts r.key t → Shared.expect t v = .ok v)) ∧
    (∀ n r j key, ∀ below : Stack .answer, ⟨.answer, .resolve r, .cons (.slot j key) below⟩ ∈ (run.state n).tasks →
      r.key = key ∧ ∃ slot rest bound, j.todo = slot :: rest ∧ slot.extractor.asks bound = some key) ∧
    (∀ n q f v, (f, v) ∈ (run.state n).world.teardowns (run.state n).tasks q →
      f.ty = v.ty ∧ ∃ m < n, ∃ b, (run.state m).hand? = some (b, v) ∧ b.finalizer = some f) ∧
    (∀ n path f v ts, ∀ below : Stack .done,
      ⟨.done, .windDown path (.finalize f v :: ts), below⟩ ∈ (run.state n).tasks → f.ty = v.ty) := by
  refine ⟨fun typed => ⟨fun n => typed.world.kept, fun n m i r v below asked pending answered => ?_⟩,
    fun n r j key below => run.slot_asked, fun n q f v left => ?_, fun n path f v ts below => run.ty_of_windDown⟩
  · have admits := typed.answer asked pending answered
    exact ⟨admits, fun t casts => if_pos (admits t casts.ty)⟩
  · obtain ⟨m, earlier, b, hand, finalizer⟩ := run.built_of_teardown left
    exact ⟨run.ty_of_hand hand finalizer, m, earlier, b, hand, finalizer⟩

/-- A car is made by a function, its engine makes itself. -/
def workshop : Program where
  functions := Table.empty.insert "car"
    { name := "car", product := .object "Car", params := [.one (.autowired (.declared "Engine"))], body := .inline [] }

/-- A car is registered under its own type and with a finalizer, and asked for; then the root is terminated. -/
def workshopRun : Run workshop :=
  .ofOps workshop "root" [
    .on "root" (.register (some (.type (.declared "Car"))) (.function "car" true) .singleton (some ⟨"scrap", []⟩)),
    .lasting ⟨"", "root", false⟩ (.get (some (.declared "Car")) (.type (.declared "Car")) false none),
    .lasting ⟨"", "root", false⟩ .terminate]

theorem typed_workshopRun : workshopRun.Typed :=
  Run.forall_ofOps 28 (Option.isNone_iff_eq_none.1 (by decide +kernel)) (List.isEmpty_iff.1 (by decide +kernel))
    (by decide +kernel)

/-- The car that is kept is a car, the engine that it was given is an engine, and a car is scrapped. -/
theorem workshop_keeps_types : workshopRun.Typed ∧
    (∃ v, ((workshopRun.state 20).world.container 0).cache.get? (.type (.declared "Car")) = some v ∧
      v.ty = .declared "Car") ∧
    (∃ r below v, (workshopRun.state 10).tasks[1]? = some ⟨.answer, .resolve r, below⟩ ∧
      r.key = .type (.declared "Engine") ∧ workshopRun.Pending 1 below 10 15 ∧
      (workshopRun.state 15).tasks[1]? = some ⟨.answer, .give (k := .answer) (.ok v), below⟩ ∧
      Shared.expect (.declared "Engine") v = .ok v) ∧
    (∃ path f v ts below, (workshopRun.state 24).tasks[2]? = some ⟨.done, .windDown path (.finalize f v :: ts), below⟩ ∧
      f.script.id = "scrap" ∧ f.ty = v.ty) := by
  obtain ⟨keeps, -, -, finalizes⟩ := workshopRun.types_are_kept
  obtain ⟨kept, answers⟩ := keeps typed_workshopRun
  refine ⟨typed_workshopRun, ?_, ?_, ?_⟩
  · obtain ⟨v, found⟩ : ∃ v, ((workshopRun.state 20).world.container 0).cache.get? (.type (.declared "Car")) = some v :=
      ⟨_, rfl⟩
    exact ⟨v, found, kept 20 0 _ v found _ rfl⟩
  · obtain ⟨r, j, below, v, asked, key, height, answered, todo⟩ : ∃ r j, ∃ below : Stack .answer, ∃ v,
        (workshopRun.state 10).tasks[1]? =
          some ⟨.answer, .resolve r, .cons (.slot j (.type (.declared "Engine"))) below⟩ ∧
        r.key = .type (.declared "Engine") ∧ below.height = 2 ∧ (workshopRun.state 15).tasks[1]? =
          some ⟨.answer, .give (k := .answer) (.ok v), .cons (.slot j (.type (.declared "Engine"))) below⟩ ∧
        j.todo = [⟨0, .autowired (.declared "Engine")⟩] := ⟨_, _, _, _, rfl, rfl, rfl, rfl, rfl⟩
    have pending : workshopRun.Pending 1 (.cons (.slot j (.type (.declared "Engine"))) below) 10 15 :=
      Run.pending_of_atWork (k := 5) (by rw [Stack.height, height]; decide +kernel)
    obtain ⟨-, casts⟩ := answers 10 15 1 r v _ asked pending answered
    have slot : (Stack.cons (.slot j (.type (.declared "Engine"))) below).Casts r.key (.declared "Engine") := by
      rw [key]
      have asks : (Extractor.autowired (.declared "Engine")).asks (fun _ => false) = some (.type (.declared "Engine")) := rfl
      exact .slot todo asks (fun u name same => by cases same) rfl
    exact ⟨r, _, v, asked, key, pending, answered, casts _ slot⟩
  · obtain ⟨path, f, v, ts, below, winds, scraps⟩ : ∃ path f v ts, ∃ below : Stack .done, (workshopRun.state 24).tasks[2]? =
        some ⟨.done, .windDown path (.finalize f v :: ts), below⟩ ∧ f.script.id = "scrap" := ⟨_, _, _, _, _, rfl, rfl⟩
    exact ⟨path, f, v, ts, below, winds, scraps, finalizes 24 path f v ts below (List.mem_of_getElem? winds)⟩

end System

end Injector
