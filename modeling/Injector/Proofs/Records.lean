import Injector.Proofs.Aliases
import Injector.Proofs.Caches
/-!
# Records

What becomes of a world when nothing but built instances are recorded (`World.After`), one after
the other, and shown to hooks that perform nothing. Records on the container that is to build a
key and below it, under other keys, leave the lookup of that key as it was (`After.locate`). And
whatever else a move does, no container gets other bases (`Change.bases_eq`).
-/
namespace Injector

/-- Whether a function performs no operations. -/
def Function.Bare (f : Function) : Prop :=
  match f.body with
  | .blocking commands | .inline commands => commands = []
  | .awaited _ operations => operations = []

/-- Whether no operations are performed for an instance. -/
def Maker.Bare : Maker → Prop
  | .function f _ => f.Bare
  | .chained _ _ _ => True

/-- Whether no operations are performed in a build. -/
def Build.Bare (b : Build) : Prop := ∀ m, b.maker = some m → m.Bare

/-- What is bound makes the instance of a build, or else the fallback. -/
theorem Build.maker_cases {b : Build} {β : Option Binding} {fallback : Option Function} {m : Maker}
    (made : b.binding = β.or (fallback.map Function.unbound)) (hm : b.maker = some m) :
    (∃ x, β = some x ∧ m = x.maker) ∨ ∃ f, fallback = some f ∧ m = f.unbound.maker := by
  rw [Build.maker, made] at hm
  cases β with
  | some x => exact .inl ⟨x, rfl, (Option.some.inj hm).symm⟩
  | none =>
    obtain ⟨x, unbound, rfl⟩ := Option.map_eq_some_iff.1 hm
    obtain ⟨f, used, rfl⟩ := Option.map_eq_some_iff.1 unbound
    exact .inr ⟨f, used, rfl⟩

/-- Whether a hook told the event. -/
def Event.isHook : Event → Bool
  | .hook _ _ _ => true
  | _ => false

/-! ## Records -/

/-- A container once the instance of a build is recorded. -/
def Container.record (x : Container) (b : Build) (v : Instance) : Container :=
  { x with
    cache := (if b.lifetime.cached then x.cache.insert b.key v else x.cache).markResolved b.key.plain
    callbacks := match b.finalizer with
      | some f => x.callbacks.addTeardown (.finalize f v)
      | none => x.callbacks }

namespace World

/-- The world once instances are recorded, one after the other. -/
def recorded (w : World) (xs : List (Build × Instance)) : World := xs.foldl (fun w x => w.record x.1 x.2) w

/-- What hooks tell of the instance of a build. -/
def shown (w : World) (b : Build) (v : Instance) : List Event :=
  ((w.hooksFor b).filter fun h => h.ty = v.ty).map fun h => .hook h.script.id v (w.container b.container).isScope

/-- Whether all that became of a world, but for locks, counts and what is told, is that instances were recorded
and shown to hooks. -/
structure After (w : World) (xs : List (Build × Instance)) (w' : World) : Prop where
  names : w'.names = w.names
  saved : w'.saved = w.saved
  orphans : w'.orphans = w.orphans
  length : w'.containers.length = w.containers.length
  containers : ∀ e, ∃ locks, w'.container e = { (w.recorded xs).container e with locks }
  told : w'.log.filter Event.isHook = w.log.filter Event.isHook ++ xs.flatMap fun x => w.shown x.1 x.2

/-- Whether nothing that makes or is shown instances performs operations. -/
structure Bare (p : Program) (w : World) : Prop where
  bound : ∀ e key β, (w.container e).registry.get? key = some β → β.maker.Bare
  injectable : ∀ t, (p.injectable t).Bare
  hooks : ∀ e key, ∀ h ∈ (w.container e).callbacks.hooksFor key, h.script.actions = []

variable {w w' w'' : World} {xs : List (Build × Instance)} {b : Build} {v : Instance} {c e : ContainerId}

theorem container_record (w : World) (b : Build) (v : Instance) (e : ContainerId) : (w.record b v).container e =
    if b.container = e ∧ b.container < w.containers.length then (w.container e).record b v else w.container e := by
  unfold record
  dsimp only
  cases finalizer : b.finalizer with
  | none =>
    dsimp only
    rw [modifyCache, container_modify]
    simp only [Container.record, finalizer]
  | some f =>
    dsimp only
    rw [modifyCallbacks, container_modify, modifyCache, container_modify]
    simp only [length_containers_modify, Container.record, finalizer]
    split <;> rfl

@[simp] theorem length_record (w : World) (b : Build) (v : Instance) :
    (w.record b v).containers.length = w.containers.length := by
  unfold record
  dsimp only
  split <;> simp [modifyCache, modifyCallbacks]

/-- What is outside of the containers a record leaves alone. -/
theorem rest_record (w : World) (b : Build) (v : Instance) : (w.record b v).names = w.names ∧
    (w.record b v).saved = w.saved ∧ (w.record b v).orphans = w.orphans ∧ (w.record b v).log = w.log := by
  unfold record
  dsimp only
  split <;> exact ⟨rfl, rfl, rfl, rfl⟩

theorem recorded_concat (w : World) (xs : List (Build × Instance)) (x : Build × Instance) :
    w.recorded (xs ++ [x]) = (w.recorded xs).record x.1 x.2 := by
  rw [recorded, List.foldl_append]
  rfl

theorem length_recorded (w : World) (xs : List (Build × Instance)) :
    (w.recorded xs).containers.length = w.containers.length := by
  induction xs generalizing w with
  | nil => rfl
  | cons x xs ih => exact (ih _).trans (length_record w x.1 x.2)

/-- What records leave alone in each container is as before. -/
theorem field_recorded {α : Type} (field : Container → α) (same : ∀ x b v, field (Container.record x b v) = field x)
    (w : World) (xs : List (Build × Instance)) (e : ContainerId) :
    field ((w.recorded xs).container e) = field (w.container e) := by
  induction xs generalizing w with
  | nil => rfl
  | cons x xs ih =>
    refine (ih _).trans ?_
    rw [container_record]
    split
    · exact same _ _ _
    · rfl

theorem hooksFor_recorded (w : World) (xs : List (Build × Instance)) (e : ContainerId) (key : Key) :
    ((w.recorded xs).container e).callbacks.hooksFor key = (w.container e).callbacks.hooksFor key := by
  refine field_recorded (fun x => x.callbacks.hooksFor key) (fun x b v => ?_) w xs e
  unfold Container.record
  dsimp only
  split <;> rfl

/-- Where no hooks are, an instance is shown to none. -/
theorem hooksFor_of_empty {x : Callbacks} (none : x.afterResolving = Table.empty) (key : Key) : x.hooksFor key = [] := by
  have empty : ∀ key, x.hooksOf key = [] := by
    intro key
    rw [Callbacks.hooksOf, none]
    rfl
  simp [Callbacks.hooksFor, empty]

/-- With a single container, there is only what is bound there. -/
theorem Bare.of_single {p : Program} (one : w.containers.length = 1)
    (bound : ∀ key β, (w.container 0).registry.get? key = some β → β.maker.Bare) (injectable : ∀ t, (p.injectable t).Bare)
    (hooks : (w.container 0).callbacks.afterResolving = Table.empty) : w.Bare p := by
  have others : ∀ e, e ≠ 0 → w.container e = {} := by
    intro e ne
    exact container_of_ge (by rw [one]; exact Nat.one_le_iff_ne_zero.2 ne)
  refine ⟨fun e key β found => ?_, injectable, fun e key hook hh => ?_⟩
  · by_cases first : e = 0
    · exact bound key β (first ▸ found)
    · rw [others e first] at found
      cases found
  · have none : (w.container e).callbacks.afterResolving = Table.empty := by
      by_cases first : e = 0
      · exact first ▸ hooks
      · rw [others e first]
    rw [hooksFor_of_empty none] at hh
    cases hh

/-! ## After a resolution -/

namespace After

theorem of_containers (names : w'.names = w.names) (saved : w'.saved = w.saved) (orphans : w'.orphans = w.orphans)
    (same : w'.containers = w.containers) (told : w'.log.filter Event.isHook = w.log.filter Event.isHook) :
    w.After [] w' where
  names := names
  saved := saved
  orphans := orphans
  length := by rw [same]
  containers e := ⟨(w'.container e).locks, by unfold container; rw [same]; rfl⟩
  told := by rw [told]; simp

theorem refl (w : World) : w.After [] w := .of_containers rfl rfl rfl rfl rfl

/-- What neither records nor locks are about is as before. -/
theorem field {α : Type} (field : Container → α) (h : w.After xs w')
    (unlocked : ∀ x locks, field { x with locks } = field x)
    (same : ∀ x b v, field (Container.record x b v) = field x) (e : ContainerId) :
    field (w'.container e) = field (w.container e) := by
  obtain ⟨locks, eq⟩ := h.containers e
  rw [eq, unlocked, field_recorded field same]

theorem bases (h : w.After xs w') (e : ContainerId) : (w'.container e).bases = (w.container e).bases :=
  h.field Container.bases (fun _ _ => rfl) (fun _ _ _ => rfl) e

theorem chain (h : w.After xs w') (e : ContainerId) : w'.chain e = w.chain e := by
  rw [World.chain, h.bases, World.chain]

theorem live (h : w.After xs w') (e : ContainerId) : (w'.container e).live = (w.container e).live :=
  h.field Container.live (fun _ _ => rfl) (fun _ _ _ => rfl) e

theorem registry (h : w.After xs w') (e : ContainerId) : (w'.container e).registry = (w.container e).registry :=
  h.field Container.registry (fun _ _ => rfl) (fun _ _ _ => rfl) e

theorem cache (h : w.After [] w') (e : ContainerId) : (w'.container e).cache = (w.container e).cache := by
  obtain ⟨locks, eq⟩ := h.containers e
  rw [eq]
  rfl

theorem hooksFor (h : w.After xs w') (e : ContainerId) (key : Key) :
    (w'.container e).callbacks.hooksFor key = (w.container e).callbacks.hooksFor key := by
  obtain ⟨locks, eq⟩ := h.containers e
  rw [eq]
  exact hooksFor_recorded w xs e key

theorem bare {p : Program} (h : w.After xs w') (bare : w.Bare p) : w'.Bare p where
  bound e key β found := by
    rw [h.registry] at found
    exact bare.bound e key β found
  injectable := bare.injectable
  hooks e key hook found := by
    rw [h.hooksFor] at found
    exact bare.hooks e key hook found

theorem shown (h : w.After xs w') (b : Build) (v : Instance) : w'.shown b v = w.shown b v := by
  have scope := h.field Container.isScope (fun _ _ => rfl) (fun _ _ _ => rfl) b.container
  unfold World.shown World.hooksFor
  rw [h.hooksFor, scope]

theorem trans (h : w.After xs w') (h' : w'.After [] w'') : w.After xs w'' where
  names := h'.names.trans h.names
  saved := h'.saved.trans h.saved
  orphans := h'.orphans.trans h.orphans
  length := h'.length.trans h.length
  containers e := by
    obtain ⟨locks, same⟩ := h.containers e
    obtain ⟨locks', same'⟩ := h'.containers e
    refine ⟨locks', same'.trans ?_⟩
    change { w'.container e with locks := locks' } = _
    rw [same]
  told := by rw [h'.told, h.told]; simp

/-- One more instance is recorded. -/
theorem concat {x : Build × Instance} (h : w.After xs w') (h' : w'.After [x] w'') : w.After (xs ++ [x]) w'' where
  names := h'.names.trans h.names
  saved := h'.saved.trans h.saved
  orphans := h'.orphans.trans h.orphans
  length := h'.length.trans h.length
  containers e := by
    obtain ⟨locks, same⟩ := h.containers e
    obtain ⟨locks', same'⟩ := h'.containers e
    refine ⟨locks', same'.trans ?_⟩
    rw [recorded_concat]
    change { (w'.record x.1 x.2).container e with locks := locks' } = _
    rw [container_record, container_record, length_recorded, ← h.length, same]
    split <;> rfl
  told := by
    rw [h'.told, h.told]
    simp [h.shown]

theorem append_hand {hand : Option (Build × Instance)} (h : w.After xs w') (h' : w'.After hand.toList w'') :
    w.After (xs ++ hand.toList) w'' := by
  cases hand with
  | none => simpa using h.trans h'
  | some x => exact h.concat h'

theorem modifyLocks (h : w.After xs w') (c : ContainerId) (f : Locks → Locks) : w.After xs (w'.modifyLocks c f) := by
  apply h.trans
  refine ⟨rfl, rfl, rfl, by simp [World.modifyLocks], fun e => ?_, by simp [World.modifyLocks]⟩
  change ∃ locks, _ = { w'.container e with locks }
  rw [World.modifyLocks, container_modify]
  split
  · exact ⟨_, rfl⟩
  · exact ⟨_, rfl⟩

theorem enter (h : w.After xs w') (c : ContainerId) (key : Key) : w.After xs (w'.enter c key).2.2 := by
  rw [enter_eq]
  exact (h.modifyLocks c fun _ => _).trans (.of_containers rfl rfl rfl rfl rfl)

theorem tell (h : w.After xs w') {event : Event} (other : event.isHook = false) : w.After xs (w'.tell event) := by
  apply h.trans
  refine .of_containers rfl rfl rfl rfl ?_
  simp [World.tell, other]

theorem supplied {α : Type} (h : w.After xs w') (make : Supply → α × Supply) : w.After xs (w'.supplied make).2 :=
  h.trans (.of_containers rfl rfl rfl rfl rfl)

theorem invoke (h : w.After xs w') (function : String) : w.After xs (w'.invoke function).2 :=
  h.trans (.of_containers rfl rfl rfl rfl rfl)

end After

/-- Hooks that perform nothing only tell. -/
theorem showTo_of_bare {p : Program} {held : List ContainerId} {hooks : List Hook}
    (bare : ∀ h ∈ hooks, h.script.actions = []) :
    w.showTo p held c v hooks = { w with log := w.log ++
      ((hooks.filter fun h => h.ty = v.ty).map fun h => .hook h.script.id v (w.container c).isScope) } := by
  induction hooks generalizing w with
  | nil => simp [showTo]
  | cons h rest ih =>
    have bare' : ∀ h ∈ rest, h.script.actions = [] := fun h hh => bare h (List.mem_cons_of_mem _ hh)
    unfold showTo
    split
    · next same =>
      rw [bare h List.mem_cons_self]
      simp only [commands]
      rw [ih bare']
      simp [World.tell, same, container]
    · next other =>
      rw [ih bare']
      simp [other]

theorem After.record {p : Program} {held : List ContainerId} (bare : ∀ h ∈ w.hooksFor b, h.script.actions = []) :
    w.After [(b, v)] (((w.record b v).showTo p held b.container v ((w.record b v).hooksFor b)).leave b) := by
  have hooks : (w.record b v).hooksFor b = w.hooksFor b := hooksFor_recorded w [(b, v)] b.container b.key
  have scope : ((w.record b v).container b.container).isScope = (w.container b.container).isScope :=
    field_recorded Container.isScope (fun _ _ _ => rfl) w [(b, v)] b.container
  rw [hooks, showTo_of_bare bare]
  apply After.modifyLocks
  obtain ⟨names, saved, orphans, log⟩ := rest_record w b v
  refine ⟨names, saved, orphans, length_record w b v, fun e => ⟨_, rfl⟩, ?_⟩
  simp only [List.filter_append, log, List.flatMap_cons, List.flatMap_nil, List.append_nil]
  congr 1
  rw [scope]
  unfold World.shown
  rw [List.filter_eq_self]
  intro event told
  obtain ⟨_, _, rfl⟩ := List.mem_map.1 told
  rfl

/-! ## Lookups after builds of other keys -/

variable {d : ContainerId} {key k : Key} {β : Option Binding}

/-- What is recorded under other keys leaves a key alone. -/
theorem cache_recorded (other : ∀ x ∈ xs, x.1.container = e → x.1.key ≠ key) :
    ((w.recorded xs).container e).cache.get? key = (w.container e).cache.get? key ∧
      ((w.recorded xs).container e).cache.isPinned key = (w.container e).cache.isPinned key := by
  induction xs generalizing w with
  | nil => exact ⟨rfl, rfl⟩
  | cons x xs ih =>
    obtain ⟨get, pinned⟩ := ih (w := w.record x.1 x.2) fun y hy => other y (List.mem_cons_of_mem _ hy)
    have ne := other x List.mem_cons_self
    have one : ((w.record x.1 x.2).container e).cache.get? key = (w.container e).cache.get? key ∧
        ((w.record x.1 x.2).container e).cache.isPinned key = (w.container e).cache.isPinned key := by
      rw [container_record]
      split
      · next here =>
        have ne := ne here.1
        unfold Container.record
        dsimp only
        split <;> simp [Cache.get?_insert, Cache.isPinned_insert, ne]
      · exact ⟨rfl, rfl⟩
    exact ⟨get.trans one.1, pinned.trans one.2⟩

/-- What is there stays or is replaced. -/
theorem get?_recorded_ne_none (kept : (w.container e).cache.get? key ≠ none) :
    ((w.recorded xs).container e).cache.get? key ≠ none := by
  induction xs generalizing w with
  | nil => exact kept
  | cons x xs ih =>
    apply ih
    rw [container_record]
    split
    · unfold Container.record
      dsimp only
      rw [Cache.get?_markResolved]
      split
      · rw [Cache.get?_insert]
        split
        · exact Option.some_ne_none _
        · exact kept
      · exact kept
    · exact kept

theorem After.cache_of_other (h : w.After xs w') (other : ∀ x ∈ xs, x.1.container = e → x.1.key ≠ key) :
    (w'.container e).cache.get? key = (w.container e).cache.get? key ∧
      (w'.container e).cache.isPinned key = (w.container e).cache.isPinned key := by
  obtain ⟨locks, same⟩ := h.containers e
  rw [same]
  exact cache_recorded other

/-- What is to be shared is kept once it is recorded. -/
theorem After.keeps_last {b : Build} {v : Instance} (h : w.After (xs ++ [(b, v)]) w') (alive : w.Alive b.container)
    (shared : b.lifetime.cached = true) : w'.Keeps b.container b.key v := by
  obtain ⟨locks, same⟩ := h.containers b.container
  have alive' : (w.recorded xs).Alive b.container :=
    ⟨(length_recorded w xs).symm ▸ alive.1, (field_recorded Container.live (fun _ _ _ => rfl) w xs _).trans alive.2⟩
  unfold Keeps
  rw [same, recorded_concat]
  exact keeps_record alive' shared v

theorem After.serves (h : w.After xs w') (other : ∀ x ∈ xs, x.1.container = e → x.1.key ≠ key) :
    w'.serves e key = w.serves e key := by
  unfold World.serves
  rw [(h.cache_of_other other).1, h.registry]

theorem After.boundHere (h : w.After xs w') (other : ∀ x ∈ xs, x.1.container = e → x.1.key ≠ key) :
    w'.boundHere key e = w.boundHere key e := by
  unfold World.boundHere Cache.contains Table.contains
  rw [h.registry]
  exact congrArg (fun v => _ || Option.isSome v) (h.cache_of_other other).1

theorem After.boundHere_mono (h : w.After xs w') (bound : w.boundHere key e = true) : w'.boundHere key e = true := by
  obtain ⟨locks, same⟩ := h.containers e
  unfold World.boundHere at bound ⊢
  rw [h.registry]
  rcases Bool.or_eq_true_iff.1 bound with bound | kept
  · rw [bound, Bool.true_or]
  · have kept' : (w'.container e).cache.contains key = true := by
      rw [same]
      exact Option.isSome_iff_ne_none.2 (get?_recorded_ne_none (Option.isSome_iff_ne_none.1 kept))
    rw [kept', Bool.or_true]

theorem After.unserved (h : w.After xs w') (e : ContainerId) (key : Key) : w'.unserved e key = w.unserved e key := by
  unfold World.unserved
  rw [h.registry]

theorem After.unalias (h : w.After xs w') (chain : List ContainerId) (key : Key) :
    w'.unalias chain key = w.unalias chain key := by
  cases key with
  | name s =>
    unfold World.unalias
    simp only [h.registry]
  | type | tagged => rfl

/-- Where nothing was recorded a lookup comes to the same. -/
theorem After.locate_eq (h : w.After [] w') (c : ContainerId) (k : Key) : w'.locate c k = w.locate c k :=
  (locate_congr (h.bases c) (fun d _ => .of_eq (h.registry d) (h.cache d)) k).eq

/-- A container that is to build a key builds what it was asked for. -/
theorem builds_of_serves (h : w.serves c k = some (.builds d key β)) : d = c ∧ key = k :=
  ⟨List.mem_singleton.1 (right_of_serves h).1, key_of_serves h⟩

theorem builds_of_unserved (h : w.unserved c k = .builds d key β) : d = c ∧ key = k := by
  unfold World.unserved at h
  split at h
  · cases h
  · cases h
    exact ⟨rfl, rfl⟩

/-- The chain of a base is shorter. -/
theorem Ok.length_bases_lt (ok : w.Ok) (bases : List ContainerId) : ∀ {c}, (w.container c).bases = bases → ∀ d ∈ bases,
    (w.container d).bases.length < bases.length := by
  induction bases with
  | nil => exact fun _ d hd => (List.not_mem_nil hd).elim
  | cons base bases ih =>
    intro c eq d hd
    have eq' := ok.chain c base bases eq
    rcases List.mem_cons.1 hd with rfl | hd
    · rw [eq']
      exact Nat.lt_succ_self _
    · exact Nat.lt_succ_of_lt (ih eq' d hd)

/-- A container is not in the chains of its bases. -/
theorem Ok.not_mem_chain (ok : w.Ok) (hd : d ∈ (w.container c).bases) : c ∉ w.chain d := by
  have shorter := ok.length_bases_lt _ rfl d hd
  intro hc
  rcases List.mem_cons.1 hc with rfl | hc
  · exact Nat.lt_irrefl _ shorter
  · exact Nat.lt_asymm shorter (ok.length_bases_lt _ rfl c hc)

theorem After.locateFrom (h : w.After xs w') (ok : w.Ok)
    (nested : ∀ x ∈ xs, x.1.container ∈ w.chain d ∧ x.1.key ≠ key) (bases : List ContainerId) :
    ∀ {c k}, (w.container c).bases = bases → w.locateFrom c bases k = .builds d key β →
      w'.locateFrom c bases k = .builds d key β := by
  have own : ∀ e, ∀ x ∈ xs, x.1.container = e → x.1.key ≠ key := fun _ x hx _ => (nested x hx).2
  induction bases with
  | nil =>
    intro c k _ located
    unfold World.locateFrom at located ⊢
    dsimp only at located ⊢
    rw [h.unalias, h.unserved]
    generalize w.unalias [c] k = k' at located ⊢
    have same : key = k' := by
      cases serves : w.serves c k' with
      | some l =>
        rw [serves, Option.getD_some] at located
        exact (builds_of_serves (located ▸ serves)).2
      | none =>
        rw [serves, Option.getD_none] at located
        exact (builds_of_unserved located).2
    subst same
    rw [h.serves (own c)]
    exact located
  | cons base bases ih =>
    intro c k eq located
    unfold World.locateFrom at located ⊢
    dsimp only at located ⊢
    rw [h.unalias, h.unserved]
    generalize w.unalias (c :: base :: bases) k = k' at located ⊢
    cases serves : w.serves c k' with
    | some l =>
      rw [serves] at located
      obtain rfl : l = .builds d key β := located
      obtain ⟨-, rfl⟩ := builds_of_serves serves
      rw [h.serves (own c), serves]
    | none =>
      rw [serves] at located
      dsimp only at located
      split at located
      · next bound =>
        -- The key is handed on. Nothing was recorded here, only on the base that builds it and below.
        have right := w.right_locateFrom bases base k'
        rw [located] at right
        have away : c ∉ w.chain d := ok.not_mem_chain (eq ▸ right.1)
        have nowhere : ∀ x ∈ xs, x.1.container = c → x.1.key ≠ k' := fun x hx e => absurd (e ▸ (nested x hx).1) away
        have bound' : w'.boundIn (base :: bases) k' = true := by
          obtain ⟨e, he, bound⟩ := List.any_eq_true.1 bound
          exact List.any_eq_true.2 ⟨e, he, h.boundHere_mono bound⟩
        rw [h.serves nowhere, serves]
        dsimp only
        rw [if_pos bound']
        exact ih (ok.chain c base bases eq) located
      · next unbound =>
        obtain ⟨-, rfl⟩ := builds_of_unserved located
        have unbound' : ¬ w'.boundIn (base :: bases) key = true := by
          intro bound
          obtain ⟨e, he, bound⟩ := List.any_eq_true.1 bound
          exact unbound (List.any_eq_true.2 ⟨e, he, h.boundHere (own e) ▸ bound⟩)
        rw [h.serves (own c), serves]
        dsimp only
        rw [if_neg unbound']
        exact located

/-- Builds of other keys on the container that is to build a key, and on its bases, leave the lookup as it was. -/
theorem After.locate (h : w.After xs w') (ok : w.Ok) (located : w.locate c k = .builds d key β)
    (nested : ∀ x ∈ xs, x.1.container ∈ w.chain d ∧ x.1.key ≠ key) : w'.locate c k = .builds d key β := by
  unfold World.locate
  rw [h.bases]
  exact h.locateFrom ok nested _ rfl located

end World

/-! ## Bases stay -/

theorem World.bases_record (w : World) (b : Build) (v : Instance) (c : ContainerId) :
    ((w.record b v).container c).bases = (w.container c).bases :=
  World.field_recorded Container.bases (fun _ _ _ => rfl) w [(b, v)] c

theorem Task.Does.bases_eq {p : Program} {held : List ContainerId} {w : World} {t : Task} {st : Step}
    (does : t.Does p held w st) {c : ContainerId} (opened : c < w.containers.length) :
    (st.world.container c).bases = (w.container c).bases := by
  cases does with
  | calm _ _ edited =>
    obtain ⟨_, edits⟩ := edited
    exact (edits.bases_eq opened).2
  | makes _ _ _ _ _ edits made =>
    rw [made.container]
    exact (edits.bases_eq opened).2
  | linesUp _ _ _ _ _ enters => rw [← World.world_of_enter enters, World.container_enter, World.bases_modifyLocks]
  | skips _ _ _ _ world => rw [world, World.leave, World.bases_modifyLocks, World.letIn, World.bases_modifyLocks]
  | begins b _ _ _ _ edits =>
    have opened : c < (w.letIn b).containers.length := by simpa [World.letIn, World.modifyLocks] using opened
    rw [(edits.bases_eq opened).2, World.letIn, World.bases_modifyLocks]
  | aborts _ _ _ world => rw [world, World.leave, World.bases_modifyLocks]
  | completes b v _ _ _ w₁ edits world =>
    have opened : c < (w.record b v).containers.length := by simpa using opened
    rw [world, World.leave, World.bases_modifyLocks, (edits.bases_eq opened).2, World.bases_record]
  | terminates _ _ _ _ _ w₁ edits _ world =>
    rw [world, World.terminate, World.bases_modifyCache, World.bases_modifyCallbacks]
    exact (edits.bases_eq opened).2
  | finalizes _ _ _ _ world =>
    rw [world]
    rfl
  | passes _ _ _ _ world => rw [world]

/-- No move gives a container other bases. -/
theorem System.Change.bases_eq {p : Program} {s s' : System} (h : System.Change p s s') {c : ContainerId}
    (opened : c < s.world.containers.length) : (s'.world.container c).bases = (s.world.container c).bases := by
  have settled : ∀ (w : World) ts, ((settledWorld w ts).container c).bases = (w.container c).bases :=
    fun w _ => World.bases_release w _ c
  cases h with
  | step _ _ _ _ _ does _ _ world =>
    rw [world, settled]
    exact does.bases_eq opened
  | outside _ w edits _ _ _ world =>
    rw [world, settled]
    exact (edits.bases_eq opened).2
  | halts _ world => rw [world]
  | renews _ _ world =>
    rw [world]
    rfl

end Injector
