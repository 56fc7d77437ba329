import Injector.Proofs.Nesting
/-!
# What is registered

Registries change by edits only: what a step does besides leaves them as they are
(`Task.Does.registers`). So what holds of an empty registry, of that of a new scope and after each
registration holds of every registry in every run (`Reachable.registries`).

The functions of a program can all be regular: their parameters are filled by the container's own
extractors, and their bodies perform no operations. Then all that is registered is regular.
-/
namespace Injector

namespace World

variable {p : Program} {held : List ContainerId} {w w' : World} {c : ContainerId} {R : Registry → Prop}

/-- Whether something holds of the registry of every container. -/
def EachRegistry (w : World) (R : Registry → Prop) : Prop := ∀ c, R (w.container c).registry

theorem EachRegistry.congr (h : w.EachRegistry R) (same : ∀ c, (w'.container c).registry = (w.container c).registry) :
    w'.EachRegistry R := fun c => same c ▸ h c

theorem EachRegistry.add (h : w.EachRegistry R) {x : Container} (new : R x.registry) : (w.add x).2.EachRegistry R := by
  intro c
  rw [container_add]
  split
  · exact new
  · exact h c

theorem EachRegistry.modifyRegistry (h : w.EachRegistry R) {f : Registry → Registry} (keeps : ∀ r, R r → R (f r)) :
    (w.modifyRegistry c f).EachRegistry R := by
  intro d
  rw [World.modifyRegistry, container_modify]
  split
  · exact keeps _ (h d)
  · exact h d

theorem EachRegistry.release (h : w.EachRegistry R) (empty : R {}) (held : List ContainerId) :
    (w.release held).EachRegistry R := by
  intro c
  rw [container_release]
  split
  · exact empty
  · exact h c

end World

/-- What a step does besides edits leaves the registries as they are. -/
theorem Task.Does.registers {p : Program} {held : List ContainerId} {I : World → Prop} {w : World} {t : Task} {st : Step}
    (does : t.Does p held w st) (edits : ∀ {held w w'}, w.Edits p held w' → I w → I w')
    (congr : ∀ {w w'}, I w → (∀ c, (w'.container c).registry = (w.container c).registry) → I w') (h : I w) :
    I st.world := by
  cases does with
  | calm _ _ edited =>
    obtain ⟨_, edited⟩ := edited
    exact edits edited h
  | makes _ _ _ _ _ edited made => exact congr (edits edited h) fun c => by rw [made.container]
  | linesUp b _ _ _ _ enters =>
    refine congr h fun c => ?_
    rw [← World.world_of_enter enters, World.container_enter]
    exact World.registry_modifyLocks ..
  | skips b _ _ _ world =>
    rw [world]
    exact congr (congr h fun c => World.registry_modifyLocks ..) fun c => World.registry_modifyLocks ..
  | begins b _ _ _ _ edited => exact edits edited (congr h fun c => World.registry_modifyLocks ..)
  | aborts b _ _ world =>
    rw [world]
    exact congr h fun c => World.registry_modifyLocks ..
  | completes b v _ _ _ w₁ edited world =>
    rw [world]
    have recorded := congr h fun c => World.field_recorded Container.registry (fun _ _ _ => rfl) w [(b, v)] c
    exact congr (edits edited recorded) fun c => World.registry_modifyLocks ..
  | terminates c _ _ _ _ w₁ edited _ world =>
    rw [world]
    refine congr (edits edited h) fun d => ?_
    rw [World.terminate, World.registry_modifyCache, World.registry_modifyCallbacks]
  | finalizes _ _ _ _ world =>
    rw [world]
    exact congr h fun _ => rfl
  | passes _ _ _ _ world =>
    rw [world]
    exact h

/-! ## What holds of every registry -/

/-- Whether something holds of an empty registry and of that of a new scope, and after each registration. -/
structure Registry.Lasting (p : Program) (R : Registry → Prop) : Prop where
  empty : R {}
  child : ∀ r, R r → R r.child
  insert : ∀ r key source lifetime finalizer, R r → R (r.insert key (Source.binding p source lifetime finalizer))
  addAlias : ∀ r key name, R r → R (r.addAlias key name)

section Lasting

variable {p : Program} {held : List ContainerId} {w w' : World} {R : Registry → Prop} (lasting : Registry.Lasting p R)
include lasting

theorem World.Edit.eachRegistry (e : w.Edit p held w') (h : w.EachRegistry R) : w'.EachRegistry R := by
  cases e with
  | tell | supply | invoke | forget | giveName => exact h
  | save name v => exact h.congr fun c => by rw [container_save]
  | openRoot => exact h.add lasting.empty
  | openScope => exact h.add (lasting.child _ (h _))
  | register _ key source lifetime finalizer =>
    exact h.modifyRegistry fun r => lasting.insert r key source lifetime finalizer
  | addAlias _ key name => exact h.modifyRegistry fun r => lasting.addAlias r key name
  | pin => exact h.congr fun c => registry_modifyCache ..
  | addHook | addTerminating => exact h.congr fun c => registry_modifyCallbacks ..
  | release => exact h.release lasting.empty held

theorem World.Edits.eachRegistry (e : w.Edits p held w') (h : w.EachRegistry R) : w'.EachRegistry R := by
  induction e with
  | refl => exact h
  | tail _ e ih => exact e.eachRegistry lasting ih

/-- In every run, what lasts holds of every registry. -/
theorem System.Reachable.registries {s : System} (h : Reachable p s) : s.world.EachRegistry R := by
  have none : ({} : World).EachRegistry R := fun c => lasting.empty
  exact (h.induction (I := fun w _ => w.EachRegistry R) (fun _ => none.add lasting.empty)
    (fun _ h _ does _ _ => does.registers (fun e => e.eachRegistry lasting) (fun h => h.congr) h)
    (fun _ h => h.release lasting.empty _) (fun _ h => h) (fun _ h => h) fun h => h).2

end Lasting

/-- What is true of all that a program can register is true of all that is registered. -/
theorem Registry.Lasting.of_makers {p : Program} {P : Maker → Prop} (makers : ∀ source : Source, P (source.maker p)) :
    Registry.Lasting p fun r => ∀ key β, r.own.get? key = some β ∨ r.forScopes.get? key = some β → P β.maker where
  empty key β found := by rcases found with found | found <;> cases found
  child r all key β found := all key β (.inr (found.elim id id))
  insert r key source lifetime finalizer all key' β found := by
    rcases Registry.found_insert found with rfl | old
    · exact makers source
    · exact all key' β old
  addAlias r key name all := all

/-! ## Regular functions -/

/-- Whether the parameters of a function are filled by the container's own extractors, and its body performs no
operations. -/
structure Function.Regular (f : Function) : Prop where
  own : ∀ slot ∈ (Param.slotsOf f.params 0).1, slot.extractor.parameters ≠ []
  bare : f.Bare

/-- Whether the function of a maker is regular. -/
def Maker.Regular : Maker → Prop
  | .function f _ => f.Regular
  | .chained _ _ _ => True

/-- Whether all functions of a program are regular. -/
structure Program.Regular (p : Program) : Prop where
  function : ∀ name, (p.function name).Regular
  injectable : ∀ t, (p.injectable t).Regular

namespace Program.Regular

variable {p : Program} (h : p.Regular)
include h

theorem maker (s : Source) : (s.maker p).Regular := by
  cases s with
  | function name signed => exact h.function name
  | injectable t => exact h.injectable t
  | chained => trivial

/-- All that is registered stays regular. -/
theorem lasting : Registry.Lasting p fun r =>
    ∀ key β, r.own.get? key = some β ∨ r.forScopes.get? key = some β → β.maker.Regular := .of_makers h.maker

/-- What a lookup finds is regular. -/
theorem of_locate {s : System} (reachable : System.Reachable p s) {c₀ c : ContainerId} {key₀ key : Key} {β : Binding}
    (located : s.world.locate c₀ key₀ = .builds c key (some β)) : β.maker.Regular := by
  have right := s.world.right_locate c₀ key₀
  rw [located] at right
  exact reachable.registries h.lasting c _ _ (.inl right.2.2)

end Program.Regular

end Injector
