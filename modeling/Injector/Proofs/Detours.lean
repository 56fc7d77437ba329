import Injector.Proofs.Correspondences
import Injector.Proofs.Unused
/-!
# Worlds that are a build apart

A function is called, or the same function is called by way of a build (`Detour`). All the way, the worlds of
the two correspond, with the same instances: they are the same but for the lock of that build, the tickets that come after its
own, and what is told of failures, since a cycle that is found within the build comes with its key (`Detour.correspondence`).
Commands and hooks do the same in both worlds.
-/
namespace Injector

/-! ## Failures under other keys -/

mutual

/-- The failure, if these keys were being built around all that led to it: a cycle comes with them. -/
def Failure.under (keys : List Key) : Failure → Failure
  | .dependency label callable key source => .dependency label callable key (source.under keys)
  | .build key source => .build key (source.under keys)
  | .cycle path => .cycle (keys ++ path)
  | .unbound key => .unbound key
  | .noAccess key => .noAccess key
  | .missingArgument label position callable ty => .missingArgument label position callable ty
  | .incorrectType expected actual => .incorrectType expected actual

/-- The failure of a constructor, if these keys were being built around all that led to it. -/
def Fault.under (keys : List Key) : Fault → Fault
  | .refused source => .refused (source.under keys)
  | .custom context causes => .custom context causes
  | .panicked => .panicked

end

mutual

theorem Failure.under_nil : ∀ f : Failure, f.under [] = f
  | .dependency label callable key source => congrArg (Failure.dependency label callable key) source.under_nil
  | .build key source => congrArg (Failure.build key) source.under_nil
  | .cycle _ | .unbound _ | .noAccess _ | .missingArgument _ _ _ _ | .incorrectType _ _ => rfl

theorem Fault.under_nil : ∀ f : Fault, f.under [] = f
  | .refused source => congrArg Fault.refused source.under_nil
  | .custom _ _ | .panicked => rfl

end

/-- The reply, if these keys were being built around the operation. What others replied is not about them. -/
def Reply.under (keys : List Key) : Reply → Reply
  | .failed f => .failed (f.under keys)
  | r => r

/-- What is told, if these keys were being built around it. -/
def Event.under (keys : List Key) : Event → Event
  | .performed label r => .performed label (r.under keys)
  | e => e

theorem Reply.under_nil (r : Reply) : r.under [] = r := by
  cases r with
  | failed f => exact congrArg Reply.failed f.under_nil
  | _ => rfl

theorem Reply.failure?_under (keys : List Key) (r : Reply) : (r.under keys).failure? = r.failure?.map (Failure.under keys) := by
  cases r <;> rfl

theorem Reply.under_of_no_failure {r : Reply} (none : r.failure? = none) (keys : List Key) : r.under keys = r := by
  cases r with
  | failed => cases none
  | _ => rfl

/-- Commands do not fail. -/
theorem World.failure?_command (p : Program) (w : World) (self : Option ContainerId) (c : Command) :
    (w.command p self c).1.failure? = none := by
  unfold command
  split
  · rfl
  · generalize c.action = a
    cases a with
    | same a b =>
      unfold instant
      dsimp only
      split <;> rfl
    | _ => rfl
  · rfl

theorem World.stops_command (p : Program) (w : World) (self : Option ContainerId) (c : Command) (h : Heading) :
    h.stops (w.command p self c).1 = none := by
  unfold Heading.stops
  rw [failure?_command]
  exact ite_self _

theorem World.commands_succeed (p : Program) (held : List ContainerId) (self : Option ContainerId) (cs : List Command) :
    ∀ w : World, (w.commands p held self cs).1 = none := by
  induction cs with
  | nil => exact fun _ => rfl
  | cons c rest ih =>
    intro w
    unfold commands
    dsimp only
    rw [stops_command]
    exact ih _

/-! ## Detours -/

/-- What is neither in the containers, nor tells how all came to be. -/
def World.common (w : World) : World := { w with containers := [], tickets := 0, log := [] }

/-- A build of `key` on `container` that runs a function which could be called without it. -/
structure Detour where
  container : ContainerId
  key : Key
  function : Function
  /-- The ticket of the build, by which its lock is known as well. -/
  ticket : Nat
  /-- Whether the build is in progress. -/
  building : Bool

namespace Detour

variable {D : Detour} {w w' : World} {e : ContainerId} {x y : Nat} {key : Key}

/-- A ticket of the call, once the build has taken one before it. -/
def late (D : Detour) (x : Nat) : Nat := if x < D.ticket then x else x + 1

theorem late_inj : D.late x = D.late y ↔ x = y := by
  unfold late
  split <;> split <;> omega

theorem late_ne (D : Detour) (x : Nat) : D.late x ≠ D.ticket := by
  unfold late
  split <;> omega

theorem late_of_lt (h : x < D.ticket) : D.late x = x := if_pos h

theorem late_of_le (h : D.ticket ≤ x) : D.late x = x + 1 := if_neg (Nat.not_lt.2 h)

/-- Whether a lock of the call is not the one of the build. -/
def Clear (D : Detour) (e : ContainerId) (key : Key) : Prop := e = D.container → key ≠ D.key

/-- The detour once the build is over. -/
def done (D : Detour) : Detour := { D with building := false }

/-! ## Worlds -/

/-- Whether the same is told, but for the key in the cycles of a failure. -/
def SameTold (D : Detour) (e e' : Event) : Prop := e' = e ∨ e' = e.under [D.key]

/-- Whether the worlds are the same but for their containers, their tickets and what is told. -/
structure Rest (D : Detour) (w w' : World) : Prop where
  common : w'.common = w.common
  present : D.container < w.containers.length
  length : w'.containers.length = w.containers.length
  told : List.Forall₂ D.SameTold w.log w'.log

/-- How the world of the call and that of the build correspond: the lock of the build is only in the other. -/
def correspondence (D : Detour) : Correspondence where
  instances := Eq
  finalized := Eq
  finalize := id
  tickets x x' := x' = D.late x
  faithful := by
    rintro x _ y _ rfl rfl
    exact late_inj.symm
  next n n' := n' = n + 1 ∧ D.ticket ≤ n
  issue := by
    rintro n _ ⟨rfl, issued⟩
    exact ⟨(late_of_le issued).symm, rfl, Nat.le_succ_of_le issued⟩
  reserved c key m := D.building = true ∧ c = D.container ∧ key = D.key ∧ m = D.ticket
  apart := by
    rintro c key _ x _ ⟨-, -, -, rfl⟩ rfl
    exact D.late_ne x
  covers _ := True
  rest := D.Rest
  rest_modify _ rest := { rest with
    present := by
      rw [World.length_containers_modify]
      exact rest.present
    length := by rw [World.length_containers_modify, World.length_containers_modify, rest.length] }
  rest_tickets rest := { rest with }

theorem clear (h : D.building = true → D.Clear e key) : D.correspondence.Clear e key := by
  rintro m ⟨building, here, own, -⟩
  exact h building here own

instance : D.correspondence.Whole where
  covers _ := trivial
  names rest := (congrArg World.names rest.common :)
  length rest := rest.length
  orphans {w w'} rest := by
    have same : w'.orphans = w.orphans := (congrArg World.orphans rest.common :)
    rw [same]
    exact List.forall₂_same.2 fun ts _ => List.forall₂_same.2 fun t _ => t.like_refl
  new rest := by
    -- A new container is not the one of the build.
    rintro key m ⟨-, here, -, -⟩
    exact absurd here (Nat.ne_of_gt rest.present)
  rest_names {_ _ names} rest := { rest with common := (congrArg (fun w : World => { w with names := names }) rest.common :) }
  rest_orphans {_ _ left left'} same rest := { rest with
    common := by
      obtain rfl : left' = left := eq_of_forall₂ same fun _ _ same => eq_of_forall₂ same fun _ _ like => like.eq
      exact (congrArg (fun w : World => { w with orphans := left' }) rest.common :) }
  rest_add x x' rest := { rest with
    present := by
      simp only [World.add, List.length_append, List.length_singleton]
      exact Nat.lt_succ_of_lt rest.present
    length := by simp only [World.add, List.length_append, List.length_singleton, rest.length] }

/-- Containers that are the same but for their locks. -/
theorem containers_of_locks {x : Container} {l : Locks} (locks : D.correspondence.LocksOf e x.locks l) :
    D.correspondence.Containers e x { x with locks := l } :=
  ⟨rfl, rfl, rfl, x.cache.like_refl, x.callbacks.like_refl, locks⟩

/-- Whether the one world is that of the call, and the other that of the build. -/
abbrev Apart (D : Detour) (w w' : World) : Prop := D.correspondence.Worlds w w'

namespace Apart

variable (h : D.Apart w w')
include h

/-! ### What is looked up -/

theorem saved : w'.saved = w.saved := (congrArg World.saved h.rest.common :)

theorem supply : w'.supply = w.supply := (congrArg World.supply h.rest.common :)

theorem orphans : w'.orphans = w.orphans := (congrArg World.orphans h.rest.common :)

theorem cache (c : ContainerId) : (w'.container c).cache = (w.container c).cache := Cache.Like.eq (h.container c).cache

theorem callbacks (c : ContainerId) : (w'.container c).callbacks = (w.container c).callbacks :=
  Callbacks.Like.eq (h.container c).callbacks

theorem unalias (c : ContainerId) (key : Key) : w'.unalias (w'.chain c) key = w.unalias (w.chain c) key := by
  rw [h.chain trivial, Correspondence.Worlds.unalias h fun _ _ => trivial]

theorem bound (c : ContainerId) : w'.bound c = w.bound c := Correspondence.Worlds.bound h fun _ _ => trivial

theorem locate (c : ContainerId) (key : Key) : w'.locate c key = w.locate c key :=
  Located.Like.eq (Correspondence.Worlds.locate h (fun _ _ => trivial) key)

/-! ### What is done in both -/

theorem tell {ev ev' : Event} (same : D.SameTold ev ev') : D.Apart (w.tell ev) (w'.tell ev') :=
  h.update { h.rest with told := List.rel_append h.rest.told (.cons same .nil) }

/-- What changes neither containers nor tickets nor what was told. -/
theorem change (f : World → World) (common : ∀ w, (f w).common = f w.common := by intro w; rfl)
    (containers : ∀ w, (f w).containers = w.containers := by intro w; rfl)
    (tickets : ∀ w, (f w).tickets = w.tickets := by intro w; rfl) (log : ∀ w, (f w).log = w.log := by intro w; rfl) :
    D.Apart (f w) (f w') :=
  h.update {
    common := by rw [common, common, h.rest.common]
    present := by rw [containers]; exact h.rest.present
    length := by rw [containers, containers]; exact h.rest.length
    told := by rw [log, log]; exact h.rest.told } ⟨containers w, containers w'⟩ ⟨tickets w, tickets w'⟩

theorem save (name : Option String) (v : Instance) : D.Apart (w.save name v) (w'.save name v) := by
  cases name with
  | none => exact h
  | some name => exact h.change fun w => w.save (some name) v

theorem supplied {α : Type} (make : Supply → α × Supply) :
    (w'.supplied make).1 = (w.supplied make).1 ∧ D.Apart (w.supplied make).2 (w'.supplied make).2 :=
  ⟨congrArg (fun s => (make s).1) h.supply, h.change fun w => (w.supplied make).2⟩

theorem invoke (function : String) : (w'.invoke function).1 = (w.invoke function).1 ∧
    D.Apart (w.invoke function).2 (w'.invoke function).2 :=
  ⟨(congrArg (fun w => (World.invoke w function).1) h.rest.common :), h.change fun w => (w.invoke function).2⟩

theorem makeArguments (positional : List Literal) (keyword : List (String × Literal)) :
    (w'.makeArguments positional keyword).1 = (w.makeArguments positional keyword).1 ∧
      D.Apart (w.makeArguments positional keyword).2 (w'.makeArguments positional keyword).2 := by
  unfold World.makeArguments
  rw [h.saved]
  exact h.supplied _

/-- The container of the build is not ended, since somebody works with it. -/
theorem release {held held' : List ContainerId} (here : D.building = true → D.container ∈ held)
    (same : ∀ c, c ∈ held' ↔ c ∈ held) : D.Apart (w.release held) (w'.release held') := by
  refine Correspondence.Worlds.release h same ?_
  rintro c key m ⟨building, rfl, -, -⟩
  exact here building

/-! ### Commands -/

theorem instant (p : Program) (c : ContainerId) (target : String) (a : Instant Command Op) :
    (w'.instant p c target a).1 = (w.instant p c target a).1 ∧
      D.Apart (w.instant p c target a).2 (w'.instant p c target a).2 := by
  cases a with
  | openRoot name => exact ⟨rfl, h.openRoot name⟩
  | openScope name =>
    obtain ⟨number, opened⟩ := h.openScope c
    unfold World.instant
    dsimp only
    rw [number]
    exact ⟨rfl, opened.giveName name _⟩
  | clone name => exact ⟨rfl, h.giveName name c⟩
  | drop => exact ⟨rfl, h.forget target⟩
  | isScope => exact ⟨congrArg Reply.truth (h.container c).isScope, h⟩
  | register key source lifetime finalizer =>
    exact ⟨rfl, h.modifyRegistry trivial fun r => r.insert (key.getD (.type (source.ty p))) (source.binding p lifetime finalizer)⟩
  | pin key value =>
    unfold World.instant
    dsimp only
    rw [h.saved]
    obtain ⟨made, supplied⟩ := h.supplied (value.makeOwn w.saved)
    rw [made]
    exact ⟨rfl, supplied.modifyCache trivial fun x => x.pin _ rfl⟩
  | addAlias key name => exact ⟨rfl, h.modifyRegistry trivial fun r => r.addAlias key name⟩
  | bound key =>
    unfold World.instant
    rw [h.bound]
    exact ⟨rfl, h⟩
  | afterResolving inScopes t key hook => exact ⟨rfl, h.addHook c inScopes key _⟩
  | terminating inScopes callback => exact ⟨rfl, h.modifyCallbacks trivial fun x => x.addTerminating inScopes callback⟩
  | same a b =>
    unfold World.instant
    dsimp only
    rw [h.saved]
    split <;> exact ⟨rfl, h⟩
  | describe | compare | lifetime | parameters => exact ⟨rfl, h⟩
  | arguments positional keyword =>
    obtain ⟨made, apart⟩ := h.makeArguments positional keyword
    unfold World.instant
    dsimp only
    rw [made]
    exact ⟨rfl, apart⟩
  | signature names defaults ask =>
    unfold World.instant
    dsimp only
    rw [h.saved]
    obtain ⟨made, apart⟩ := h.supplied (Literal.makeNamed w.saved defaults)
    rw [made]
    exact ⟨rfl, apart⟩
  | read t value =>
    unfold World.instant
    dsimp only
    rw [h.saved]
    obtain ⟨made, apart⟩ := h.supplied (value.make w.saved)
    rw [made]
    exact ⟨rfl, apart⟩

theorem command (p : Program) (self : Option ContainerId) (c : Command) :
    (w'.command p self c).1 = (w.command p self c).1 ∧ D.Apart (w.command p self c).2 (w'.command p self c).2 := by
  unfold World.command
  rw [h.target]
  split
  · exact ⟨rfl, h.openRoot _⟩
  · exact h.instant p _ _ _
  · exact ⟨rfl, h⟩

/-- What commands tell is no failure, so the same is told. -/
theorem commands (p : Program) {held held' : List ContainerId} (here : D.building = true → D.container ∈ held)
    (same : ∀ c, c ∈ held' ↔ c ∈ held) (self : Option ContainerId) (cs : List Command) :
    (w'.commands p held' self cs).1 = (w.commands p held self cs).1 ∧
      D.Apart (w.commands p held self cs).2 (w'.commands p held' self cs).2 := by
  induction cs generalizing w w' with
  | nil => exact ⟨rfl, h⟩
  | cons c rest ih =>
    obtain ⟨reply, apart⟩ := h.command p self c
    unfold World.commands
    dsimp only
    rw [reply, World.stops_command]
    exact ih ((apart.tell (.inl rfl)).release here same)

theorem showTo (p : Program) {held held' : List ContainerId} (here : D.building = true → D.container ∈ held)
    (same : ∀ c, c ∈ held' ↔ c ∈ held) (c : ContainerId) (v : Instance) (hooks : List Hook) :
    D.Apart (w.showTo p held c v hooks) (w'.showTo p held' c v hooks) := by
  induction hooks generalizing w w' with
  | nil => exact h
  | cons hook rest ih =>
    unfold World.showTo
    split
    · dsimp only
      rw [(h.container c).isScope]
      exact ih ((h.tell (.inl rfl)).commands p here same _ _).2
    · exact ih h

/-! ### Builds and terminations -/

theorem terminate (c : ContainerId) : (w'.terminate c).1 = (w.terminate c).1 ∧
    D.Apart (w.terminate c).2 (w'.terminate c).2 :=
  ⟨congrArg Callbacks.terminating (h.callbacks c), (Correspondence.Worlds.terminate h trivial).2⟩

theorem enter (c : ContainerId) {key : Key} (free : D.building = true → D.Clear c key) :
    (w'.enter c key).1 = D.late (w.enter c key).1 ∧ (w'.enter c key).2.1 = D.late (w.enter c key).2.1 ∧
      D.Apart (w.enter c key).2.2 (w'.enter c key).2.2 :=
  Correspondence.Worlds.enter h trivial (clear free)

end Apart

end Detour

end Injector
