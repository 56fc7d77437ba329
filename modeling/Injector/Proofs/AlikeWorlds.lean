import Injector.Proofs.AlikeInstances
import Injector.Proofs.Nesting
/-!
# Worlds that are alike

The worlds of two resolutions are alike (`Pairing.AlikeWorlds`) if the containers that both are about correspond, with alike
instances (`Pairing.correspondence`); the others are only as they were at the beginning, in each world for itself. Build locks come
into it as well: the tickets of the one are those of the other, counted from the beginning (`Pairing.Tickets`), so whoever has to
wait in the one has to wait in the other.
-/
namespace Injector

/-! ## Functions without a state -/

/-- Whether an extractor uses no saved instance. -/
def Extractor.Fresh : Extractor → Prop
  | .replace positional keyword => (∀ l ∈ positional, l.Fresh) ∧ ∀ l ∈ keyword, l.2.Fresh
  | _ => True

/-- Whether what a function does is up to its parameters: it performs no operations, always fails or never does, and
uses no saved instance. -/
structure Function.Pure (f : Function) : Prop where
  bare : f.Bare
  steady : ∀ n m, f.fault n = f.fault m
  fresh : ∀ slot ∈ (Param.slotsOf f.params 0).1, slot.extractor.Fresh

/-- Whether the function of a maker is pure. -/
def Maker.Pure : Maker → Prop
  | .function f _ => f.Pure
  | .chained _ _ _ => True

/-- Whether what makes the instance of a build is pure. -/
def Build.Pure (b : Build) : Prop := ∀ m, b.maker = some m → m.Pure

/-- Whether all that makes instances is pure, and no hook performs operations. -/
structure World.Pure (p : Program) (w : World) : Prop where
  bound : ∀ e key β, (w.container e).registry.get? key = some β → β.maker.Pure
  injectable : ∀ t, (p.injectable t).Pure
  hooks : ∀ e key, ∀ h ∈ (w.container e).callbacks.hooksFor key, h.script.actions = []

theorem Maker.Pure.bare {m : Maker} (h : m.Pure) : m.Bare := by
  cases m with
  | function f => exact Function.Pure.bare h
  | chained => trivial

theorem World.Pure.bare {p : Program} {w : World} (h : w.Pure p) : w.Bare p where
  bound e key β found := (h.bound e key β found).bare
  injectable t := (h.injectable t).bare
  hooks := h.hooks

theorem World.Pure.after {p : Program} {w w' : World} {xs : List (Build × Instance)} (h : w.Pure p) (after : w.After xs w') :
    w'.Pure p where
  bound e key β found := by
    rw [after.registry] at found
    exact h.bound e key β found
  injectable := h.injectable
  hooks e key hook found := by
    rw [after.hooksFor] at found
    exact h.hooks e key hook found

namespace Pairing

variable {R : Pairing}

/-! ## Tickets -/

/-- Whether two tickets are the same from before the beginning, or were given out as far after it. -/
def Tickets (R : Pairing) (x x' : Nat) : Prop :=
  x = x' ∧ x < R.left.tickets ∧ x < R.right.tickets ∨ ∃ k, x = R.left.tickets + k ∧ x' = R.right.tickets + k

theorem Tickets.eq_iff {x x' y y' : Nat} (h : R.Tickets x x') (h' : R.Tickets y y') : x = y ↔ x' = y' := by
  rcases h with ⟨rfl, _, _⟩ | ⟨k, rfl, rfl⟩ <;> rcases h' with ⟨rfl, _, _⟩ | ⟨k', rfl, rfl⟩ <;> omega

/-- Whether both worlds have given out as many tickets since the beginning. -/
def NextTickets (R : Pairing) (x x' : Nat) : Prop := ∃ k, x = R.left.tickets + k ∧ x' = R.right.tickets + k

theorem NextTickets.issue {x x' : Nat} (h : R.NextTickets x x') : R.Tickets x x' ∧ R.NextTickets (x + 1) (x' + 1) := by
  obtain ⟨k, rfl, rfl⟩ := h
  exact ⟨.inr ⟨k, rfl, rfl⟩, k + 1, rfl, rfl⟩

/-! ## Worlds -/

/-- Whether the same is told of alike instances. -/
inductive AlikeEvents (R : Pairing) : Event → Event → Prop
  | built (f : String) {v v' : Instance} {args args' : List Given} (h : R.Alike v v')
    (given : List.Forall₂ R.AlikeGiven args args') : AlikeEvents R (.built f v args) (.built f v' args')
  | failed (f : String) {args args' : List Given} (given : List.Forall₂ R.AlikeGiven args args') :
    AlikeEvents R (.failed f args) (.failed f args')
  | panicked (f : String) {args args' : List Given} (given : List.Forall₂ R.AlikeGiven args args') :
    AlikeEvents R (.panicked f args) (.panicked f args')
  | converted {v v' i i' : Instance} (result : R.Alike v v') (input : R.Alike i i') :
    AlikeEvents R (.converted v i) (.converted v' i')
  | hook (id : String) {v v' : Instance} (h : R.Alike v v') (inScope : Bool) :
    AlikeEvents R (.hook id v inScope) (.hook id v' inScope)

/-- Whether what was told since the beginning is alike. -/
def Tells (R : Pairing) (log log' : List Event) : Prop := ∃ es es',
  log = R.left.log ++ es ∧ log' = R.right.log ++ es' ∧ List.Forall₂ R.AlikeEvents es es'

theorem Tells.concat {log log' : List Event} {es es' : List Event} (h : R.Tells log log')
    (alike : List.Forall₂ R.AlikeEvents es es') : R.Tells (log ++ es) (log' ++ es') := by
  obtain ⟨before, before', rfl, rfl, same⟩ := h
  exact ⟨before ++ es, before' ++ es', List.append_assoc .., List.append_assoc .., List.rel_append same alike⟩

/-- Whether the worlds are alike but for the containers that both resolutions are about: both have made as many instances,
what was told is alike, and the other containers are as they were at the beginning. -/
structure AlikeRest (R : Pairing) (w w' : World) : Prop where
  supply : R.Supplies w.supply w'.supply
  told : R.Tells w.log w'.log
  outside : ∀ e ∉ R.containers, w.container e = R.left.container e ∧ w'.container e = R.right.container e

/-- How the worlds of both resolutions correspond. What was left to finalize at the beginning is the same. -/
def correspondence (R : Pairing) : Correspondence where
  instances := R.Alike
  finalized v v' := v = v' ∨ R.Alike v v'
  finalize := .inr
  tickets := R.Tickets
  faithful := Tickets.eq_iff
  next := R.NextTickets
  issue := NextTickets.issue
  reserved _ _ _ := False
  apart := False.elim
  covers e := e ∈ R.containers
  rest := R.AlikeRest
  rest_modify {w w' c f f'} here rest := { rest with
    outside := fun e he => by
      have other : c ≠ e := fun same => he (same ▸ here)
      rw [World.container_modify_of_ne w f other, World.container_modify_of_ne w' f' other]
      exact rest.outside e he }
  rest_tickets rest := ⟨rest.supply, rest.told, rest.outside⟩

/-- Whether the worlds of both resolutions are alike. -/
abbrev AlikeWorlds (R : Pairing) (w w' : World) : Prop := R.correspondence.Worlds w w'

theorem clear (R : Pairing) (c : ContainerId) (key : Key) : R.correspondence.Clear c key := fun _ => False.elim

namespace AlikeWorlds

variable {w w' : World} (h : R.AlikeWorlds w w')
include h

theorem tell {es es' : List Event} (alike : List.Forall₂ R.AlikeEvents es es') :
    R.AlikeWorlds { w with log := w.log ++ es } { w' with log := w'.log ++ es' } :=
  h.update { h.rest with told := h.rest.told.concat alike }

theorem invoke (f f' : String) : R.AlikeWorlds (w.invoke f).2 (w'.invoke f').2 :=
  h.update ⟨h.rest.supply, h.rest.told, h.rest.outside⟩

theorem supplied {α β : Type} {T : α → β → Prop} (make : Supply → α × Supply) (make' : Supply → β × Supply)
    (alike : R.Made T (make w.supply) (make' w'.supply)) :
    T (w.supplied make).1 (w'.supplied make').1 ∧ R.AlikeWorlds (w.supplied make).2 (w'.supplied make').2 :=
  ⟨alike.1, h.update ⟨alike.2, h.rest.told, h.rest.outside⟩⟩

theorem makeArguments (positional : List Literal) (keyword : List (String × Literal)) (fresh : ∀ l ∈ positional, l.Fresh)
    (named : ∀ l ∈ keyword, l.2.Fresh) :
    R.AlikeArguments (w.makeArguments positional keyword).1 (w'.makeArguments positional keyword).1 ∧
      R.AlikeWorlds (w.makeArguments positional keyword).2 (w'.makeArguments positional keyword).2 := by
  obtain ⟨vs, supply⟩ := Supplies.literals w.saved w'.saved positional fresh h.rest.supply
  obtain ⟨kws, supply⟩ := Supplies.named w.saved w'.saved keyword named supply
  exact h.supplied _ _ ⟨.ofLists vs kws, supply⟩

end AlikeWorlds

/-- Whether builds differ in their tickets, are of a container that both resolutions are about, and by what is pure. -/
structure AlikeBuilds (R : Pairing) (b b' : Build) : Prop extends R.correspondence.Builds b b' where
  path : b'.path = b.path
  pure : b.Pure

/-- Hooks that perform nothing are told alike. -/
theorem AlikeWorlds.showTo {w w' : World} {b b' : Build} {v v' : Instance} (h : R.AlikeWorlds w w') (builds : R.AlikeBuilds b b')
    (alike : R.Alike v v') (p : Program) (held held' : List ContainerId)
    (bare : ∀ hook ∈ w.hooksFor b, hook.script.actions = []) :
    R.AlikeWorlds (w.showTo p held b.container v (w.hooksFor b)) (w'.showTo p held' b'.container v' (w'.hooksFor b')) := by
  rw [h.hooksFor builds.toBuilds, World.showTo_of_bare bare, World.showTo_of_bare bare, builds.container,
    (h.containers _ builds.here).isScope]
  simp only [← alike.ty]
  exact h.tell (List.forall₂_map_left_iff.2 (List.forall₂_map_right_iff.2 (List.forall₂_same.2 fun hook _ => .hook _ alike _)))

/-! ## Along a resolution -/

/-- What is true of the world of the one resolution all the way: what makes instances is pure, and the bases of the
containers that the resolution is about are among them. -/
structure Pursued (R : Pairing) (p : Program) (w : World) : Prop where
  pure : w.Pure p
  upward : ∀ e ∈ R.containers, ∀ d ∈ w.chain e, d ∈ R.containers

theorem Pursued.after {p : Program} {w w' : World} {xs : List (Build × Instance)} (h : R.Pursued p w)
    (after : w.After xs w') : R.Pursued p w' where
  pure := h.pure.after after
  upward e he := by
    rw [after.chain]
    exact h.upward e he

/-- What is built is built on a container that the resolution is about. -/
theorem Pursued.builds {p : Program} {w : World} (h : R.Pursued p w) {c d : ContainerId} {key key' : Key} {β : Option Binding}
    (here : c ∈ R.containers) (located : w.locate c key = .builds d key' β) : d ∈ R.containers := by
  have right := w.right_locate c key
  rw [located] at right
  exact h.upward c here d right.1

end Pairing

end Injector
