import Injector.Proofs.Alone
import Injector.Proofs.Correspondences
import Injector.Proofs.Renamings
/-!
# Worlds up to the identity of instances

The worlds of two systems go on as one if all their containers correspond, with instances that are counterparts
(`Renaming.correspondence`). Nothing else of the past counts: not the serials given out, nor how often functions were invoked, nor
what was told before. Commands, and sequences of them, come to the same in such worlds, and leave them so (`Worlds.commands`).
-/
namespace Injector

namespace Renaming

variable {R : Renaming}

/-! ## Defaults -/

/-- The defaults of a parameter, of which a later one counts. -/
theorem defaults_related {defaults defaults' : List (String × Instance)}
    (h : List.Forall₂ R.pairing.AlikeNamed defaults defaults') :
    ∀ name, Option.Rel R.pairing.Alike ((Table.ofList defaults).get? name) ((Table.ofList defaults').get? name) := by
  refine List.rel_foldl (R := R.pairing.AlikeNamed)
    (P := fun t t' : Table String Instance => ∀ name, Option.Rel R.pairing.Alike (t.get? name) (t'.get? name))
    (fun t t' before row row' named name => ?_) (fun _ => .none) h
  rw [Table.get?_insert, Table.get?_insert, named.1]
  split
  · exact .some named.2
  · exact before name

/-! ## Worlds -/

/-- Whether two teardowns are the same callback, or finalize counterparts. -/
abbrev Teardowns (R : Renaming) : Teardown → Teardown → Prop := Teardown.Like R.Own

/-- Whether the worlds are the same but for their containers and tickets, up to the identity of instances. -/
structure Rest (R : Renaming) (w w' : World) : Prop where
  supply : R.pairing.Supplies w.supply w'.supply
  told : R.Told w.log w'.log
  names : w'.names = w.names
  saved : ∀ name, Option.Rel R.Own (w.saved.get? name) (w'.saved.get? name)
  length : w'.containers.length = w.containers.length
  orphans : List.Forall₂ (List.Forall₂ R.Teardowns) w.orphans w'.orphans

/-- How the worlds of both systems correspond. -/
def correspondence (R : Renaming) : Correspondence where
  instances := R.Own
  finalized := R.Own
  finalize := id
  tickets := R.pairing.Tickets
  faithful := Pairing.Tickets.eq_iff
  next := R.pairing.NextTickets
  issue := Pairing.NextTickets.issue
  reserved _ _ _ := False
  apart := False.elim
  covers _ := True
  rest := R.Rest
  rest_modify _ rest := { rest with
    length := by rw [World.length_containers_modify, World.length_containers_modify, rest.length] }
  rest_tickets rest := { rest with }

instance : R.correspondence.Whole where
  covers _ := trivial
  names rest := rest.names
  length rest := rest.length
  orphans rest := rest.orphans
  new _ _ _ := False.elim
  rest_names rest := { rest with names := rfl }
  rest_orphans left rest := { rest with orphans := left }
  rest_add x x' rest := { rest with
    length := by simp only [World.add, List.length_append, List.length_singleton, rest.length] }

/-- Whether the worlds of both systems correspond. -/
abbrev Worlds (R : Renaming) (w w' : World) : Prop := R.correspondence.Worlds w w'

theorem clear (R : Renaming) (c : ContainerId) (key : Key) : R.correspondence.Clear c key := fun _ => False.elim

namespace Worlds

variable {w w' : World} {c : ContainerId} (h : R.Worlds w w')
include h

theorem tell {e e' : Event} (related : R.Events e e') : R.Worlds (w.tell e) (w'.tell e') :=
  h.update { h.rest with told := h.rest.told.concat related }

theorem invoke (f : String) : R.Worlds (w.invoke f).2 (w'.invoke f).2 :=
  h.update { h.rest with }

theorem supplied {α β : Type} {T : α → β → Prop} (make : Supply → α × Supply) (make' : Supply → β × Supply)
    (related : R.pairing.Made T (make w.supply) (make' w'.supply)) :
    T (w.supplied make).1 (w'.supplied make').1 ∧ R.Worlds (w.supplied make).2 (w'.supplied make').2 :=
  ⟨related.1, h.update { h.rest with supply := related.2 }⟩

theorem makeArguments (positional : List Literal) (keyword : List (String × Literal)) :
    R.pairing.AlikeArguments (w.makeArguments positional keyword).1 (w'.makeArguments positional keyword).1 ∧
      R.Worlds (w.makeArguments positional keyword).2 (w'.makeArguments positional keyword).2 := by
  obtain ⟨vs, supply⟩ := literals_related h.rest.saved positional h.rest.supply
  obtain ⟨kws, supply⟩ := named_related h.rest.saved keyword supply
  exact h.supplied _ _ ⟨.ofLists vs kws, supply⟩

theorem save {v v' : Instance} (own : R.Own v v') (name : Option String) : R.Worlds (w.save name v) (w'.save name v') := by
  cases name with
  | none => exact h
  | some name =>
    refine h.update { h.rest with saved := fun name' => ?_ }
    simp only [World.save, Table.get?_insert]
    split
    · exact .some own
    · exact h.rest.saved name'

theorem release (held : List ContainerId) : R.Worlds (w.release held) (w'.release held) :=
  Correspondence.Worlds.release h (fun _ => .rfl) False.elim

/-! ### Commands -/

variable {p : Program}

/-- A command comes to the same in both, and leaves them so. -/
theorem instant (c : ContainerId) (target : String) (a : Instant Command Op) :
    R.Replies (w.instant p c target a).1 (w'.instant p c target a).1 ∧
      R.Worlds (w.instant p c target a).2 (w'.instant p c target a).2 := by
  cases a with
  | openRoot name => exact ⟨.plain trivial, h.openRoot name⟩
  | openScope name =>
    obtain ⟨same, opened⟩ := h.openScope c
    refine ⟨.plain trivial, ?_⟩
    simp only [World.instant]
    rw [same]
    exact opened.giveName name _
  | clone name => exact ⟨.plain trivial, h.giveName name c⟩
  | drop => exact ⟨.plain trivial, h.forget target⟩
  | isScope =>
    simp only [World.instant]
    rw [(h.container c).isScope]
    exact ⟨.plain trivial, h⟩
  | register key source lifetime finalizer =>
    exact ⟨.plain trivial, h.modifyRegistry trivial fun r => r.insert _ (source.binding p lifetime finalizer)⟩
  | pin key value =>
    obtain ⟨own, made⟩ := h.supplied _ _ (makeOwn_own h.rest.saved value h.rest.supply)
    refine ⟨.plain trivial, ?_⟩
    simp only [World.instant]
    rw [own.ty]
    exact made.modifyCache trivial fun x => x.pin _ own
  | addAlias key name => exact ⟨.plain trivial, h.modifyRegistry trivial fun r => r.addAlias key name⟩
  | bound key =>
    simp only [World.instant]
    rw [h.bound fun _ _ => trivial]
    exact ⟨.plain trivial, h⟩
  | afterResolving inScopes t key hook => exact ⟨.plain trivial, h.addHook c inScopes key _⟩
  | terminating inScopes callback => exact ⟨.plain trivial, h.modifyCallbacks trivial fun x => x.addTerminating inScopes callback⟩
  | same a b =>
    simp only [World.instant]
    rcases rel_cases (h.rest.saved a) with ⟨none, none'⟩ | ⟨v, v', some, some', own⟩
    · rw [none, none']
      exact ⟨.plain trivial, h⟩
    · rw [some, some']
      rcases rel_cases (h.rest.saved b) with ⟨none, none'⟩ | ⟨u, u', some, some', own'⟩
      · rw [none, none']
        exact ⟨.plain trivial, h⟩
      · rw [some, some']
        dsimp only
        rw [own.same own']
        exact ⟨.plain trivial, h⟩
  | describe | compare | lifetime | parameters => exact ⟨.plain trivial, h⟩
  | arguments positional keyword =>
    obtain ⟨arguments, made⟩ := h.makeArguments positional keyword
    simp only [World.instant]
    rw [arguments.positional.length_eq, arguments.isEmpty]
    exact ⟨.plain trivial, made⟩
  | signature names defaults ask =>
    obtain ⟨named, made⟩ := h.supplied _ _ (named_related h.rest.saved defaults h.rest.supply)
    refine ⟨.signature _ _ _ ?_, made⟩
    exact List.forall₂_map_left_iff.2 (List.forall₂_map_right_iff.2 (List.forall₂_same.2 fun name _ =>
      defaults_related named name))
  | read t value =>
    obtain ⟨alike, made⟩ := h.supplied _ _ (literal_related h.rest.saved value h.rest.supply)
    exact ⟨.primitive t (alike.read t), made⟩

theorem command (self : Option ContainerId) (c : Command) :
    R.Replies (w.command p self c).1 (w'.command p self c).1 ∧ R.Worlds (w.command p self c).2 (w'.command p self c).2 := by
  unfold World.command
  rw [h.target]
  split
  · exact ⟨.plain trivial, h.openRoot _⟩
  · exact h.instant _ _ _
  · exact ⟨.plain trivial, h⟩

/-- Sequences of commands end with the same failure, or both with none. -/
theorem commands (held : List ContainerId) (self : Option ContainerId) (cs : List Command) :
    (w'.commands p held self cs).1 = (w.commands p held self cs).1 ∧
      R.Worlds (w.commands p held self cs).2 (w'.commands p held self cs).2 := by
  induction cs generalizing w w' with
  | nil => exact ⟨rfl, h⟩
  | cons c rest ih =>
    obtain ⟨replies, done⟩ := h.command (p := p) self c
    have released := (done.tell (.performed c.heading.label replies)).release held
    unfold World.commands
    dsimp only
    rw [replies.stops]
    split
    · exact ⟨rfl, released⟩
    · exact ih released

/-- Instances that are counterparts are shown to the same hooks. -/
theorem showTo (held : List ContainerId) (c : ContainerId) {v v' : Instance} (own : R.Own v v') (hooks : List Hook) :
    R.Worlds (w.showTo p held c v hooks) (w'.showTo p held c v' hooks) := by
  induction hooks generalizing w w' with
  | nil => exact h
  | cons hook rest ih =>
    unfold World.showTo
    dsimp only
    rw [own.ty, (h.container c).isScope]
    split
    · exact ih ((h.tell (.hook hook.script.id own _)).commands held (some c) hook.script.actions).2
    · exact ih h

end Worlds

/-! ## Builds -/

end Renaming

/-- Whether a function keeps no state of its own: it always fails, or never does. -/
def Function.Steady (f : Function) : Prop := ∀ n m, f.fault n = f.fault m

/-- Whether the function of a maker keeps no state. -/
def Maker.Steady : Maker → Prop
  | .function f _ => f.Steady
  | .chained _ _ _ => True

/-- Whether all functions of a program keep no state of their own. -/
structure Program.Steady (p : Program) : Prop where
  function : ∀ name, (p.function name).Steady
  injectable : ∀ t, (p.injectable t).Steady

namespace Renaming

variable {R : Renaming}

/-- Whether builds differ in their tickets, and are by what keeps no state. -/
structure Builds (R : Renaming) (b b' : Build) : Prop extends R.correspondence.Builds b b' where
  path : b'.path = b.path
  steady : ∀ m, b.maker = some m → m.Steady

end Renaming

end Injector
