import Injector.Proofs.Registered
/-!
# What is asked for

In every run finitely many keys are asked for by what is bound and by what builds itself, and
finitely many are stood for by names (`Reachable.exists_keys`). Lookups stay among them.
-/
namespace Injector

/-- The keys that a parameter may ask for. -/
def Extractor.keys : Extractor → List Key
  | .inject t | .autowired t => [.type t]
  | .annotated t tags => [.tagged t tags]
  | .named _ name => [.name name]
  | .rest t => [.type (.seq t), .type t]
  | .lookup key => [key]
  | .arg _ | .kwargs | .container | .inspect | .replace _ _ => []

theorem Extractor.mem_keys {e : Extractor} {bound : Key → Bool} {key : Key} (h : e.asks bound = some key) :
    key ∈ e.keys := by
  cases e with
  | rest t =>
    simp only [asks] at h
    split at h
    · cases h
      exact List.mem_cons_self
    · split at h
      · cases h
        exact List.mem_cons_of_mem _ List.mem_cons_self
      · cases h
  | inject | autowired | annotated | named | lookup =>
    cases h
    exact List.mem_singleton_self _
  | arg | kwargs | container | inspect | replace => cases h

/-- The keys that slots may ask for. -/
def Slot.keysOf (slots : List Slot) : List Key := slots.flatMap fun slot => slot.extractor.keys

/-- The keys that a function may ask for. -/
def Function.keys (f : Function) : List Key := Slot.keysOf (Param.slotsOf f.params 0).1

/-- The keys that a maker may ask for. -/
def Maker.keys : Maker → List Key
  | .function f _ => f.keys
  | .chained _ _ target => [target]

/-- The key that is asked for, and the keys that the fallback may ask for. -/
def Request.keys (r : Request) : List Key := r.key :: (r.fallback.map Function.keys).getD []

theorem Request.keys_fallback {r : Request} {f : Function} (h : r.fallback = some f) : f.keys ⊆ r.keys := by
  unfold Request.keys
  rw [h]
  exact List.subset_cons_self _ _

/-- Whether finitely many types say how they build themselves. -/
def Program.Finite (p : Program) : Prop := ∃ types : List Ty, ∀ t, p.injectables.get? t ≠ none → t ∈ types

theorem Program.Finite.exists_keys {p : Program} (h : p.Finite) : ∃ keys, ∀ t, (p.injectable t).keys ⊆ keys := by
  obtain ⟨types, all⟩ := h
  refine ⟨types.flatMap fun t => (p.injectable t).keys, fun t key asked => ?_⟩
  by_cases told : p.injectables.get? t = none
  · -- A type that does not say asks for nothing.
    unfold injectable at asked
    rw [told] at asked
    cases asked
  · exact List.mem_flatMap.2 ⟨t, all t told, asked⟩

/-- Whether all that is registered asks and stands for keys of a list. -/
structure Registry.AsksIn (r : Registry) (keys : List Key) : Prop where
  bound : ∀ key β, r.own.get? key = some β ∨ r.forScopes.get? key = some β → β.maker.keys ⊆ keys
  aliases : ∀ name key, r.aliases.get? name = some key → key ∈ keys

namespace Registry.AsksIn

variable {r : Registry} {keys keys' : List Key}

theorem empty (keys : List Key) : ({} : Registry).AsksIn keys where
  bound key β h := by rcases h with h | h <;> cases h
  aliases name key h := by cases h

theorem mono (h : r.AsksIn keys) (sub : keys ⊆ keys') : r.AsksIn keys' where
  bound key β found := List.Subset.trans (h.bound key β found) sub
  aliases name key found := sub (h.aliases name key found)

theorem child (h : r.AsksIn keys) : r.child.AsksIn keys where
  bound key β found := h.bound key β (.inr (found.elim id id))
  aliases name key found := by cases found

theorem insert (h : r.AsksIn keys) {β : Binding} (made : β.maker.keys ⊆ keys) (key : Key) :
    (r.insert key β).AsksIn keys where
  bound key' β' found := by
    rcases found_insert found with rfl | old
    · exact made
    · exact h.bound key' β' old
  aliases name key' found := h.aliases name key' (r.aliases_insert key β ▸ found)

theorem addAlias (h : r.AsksIn keys) {key : Key} (listed : key ∈ keys) (name : String) :
    (r.addAlias key name).AsksIn keys where
  bound := h.bound
  aliases name' key' found := by
    change (r.aliases.insert name key).get? name' = some key' at found
    rw [Table.get?_insert] at found
    split at found
    · exact Option.some.inj found ▸ listed
    · exact h.aliases name' key' found

end Registry.AsksIn

namespace World

variable {p : Program} {held : List ContainerId} {w w' : World} {keys keys' : List Key} {key : Key} {c : ContainerId}

/-! ## Registries that are told of finitely many keys -/

/-- Whether all registries ask and stand for keys of a list. -/
def Registers (w : World) (keys : List Key) : Prop := ∀ c, (w.container c).registry.AsksIn keys

theorem Registers.each (h : w.Registers keys) : w.EachRegistry fun r => r.AsksIn keys := h

theorem Registers.congr (h : w.Registers keys) (same : ∀ c, (w'.container c).registry = (w.container c).registry) :
    w'.Registers keys := h.each.congr same

/-- An edit tells of finitely many keys. -/
theorem Edit.exists_registers (e : w.Edit p held w') (h : w.Registers keys) : ∃ keys', w'.Registers keys' := by
  cases e with
  | tell | supply | invoke | forget | giveName => exact ⟨keys, h⟩
  | save name v => exact ⟨keys, h.congr fun c => by rw [container_save]⟩
  | openRoot => exact ⟨keys, h.each.add (.empty keys)⟩
  | openScope => exact ⟨keys, h.each.add (h _).child⟩
  | register _ key source lifetime finalizer =>
    refine ⟨(source.maker p).keys ++ keys, ?_⟩
    have more : w.Registers ((source.maker p).keys ++ keys) := fun c => (h c).mono (List.subset_append_right _ _)
    exact more.each.modifyRegistry fun r asks => asks.insert (List.subset_append_left _ _) key
  | addAlias _ key name =>
    refine ⟨key :: keys, ?_⟩
    have more : w.Registers (key :: keys) := fun c => (h c).mono (List.subset_cons_self _ _)
    exact more.each.modifyRegistry fun r asks => asks.addAlias List.mem_cons_self name
  | pin => exact ⟨keys, h.congr fun c => registry_modifyCache ..⟩
  | addHook | addTerminating => exact ⟨keys, h.congr fun c => registry_modifyCallbacks ..⟩
  | release => exact ⟨keys, h.each.release (.empty keys) held⟩

theorem Edits.exists_registers (e : w.Edits p held w') (h : ∃ keys, w.Registers keys) : ∃ keys, w'.Registers keys := by
  induction e with
  | refl => exact h
  | tail _ e ih =>
    obtain ⟨keys, h⟩ := ih
    exact e.exists_registers h

end World

/-- A step tells of finitely many keys. -/
theorem Task.Does.exists_registers {p : Program} {held : List ContainerId} {w : World} {t : Task} {st : Step}
    (does : t.Does p held w st) (h : ∃ keys, w.Registers keys) : ∃ keys, st.world.Registers keys :=
  does.registers (fun edits => edits.exists_registers) (fun ⟨keys, h⟩ same => ⟨keys, h.congr same⟩) h

/-! ## Keys of a world -/

/-- Whether all that can build instances asks for keys of a list, and names stand for such keys. -/
structure World.AsksIn (p : Program) (w : World) (keys : List Key) : Prop where
  registers : w.Registers keys
  injectable : ∀ t, (p.injectable t).keys ⊆ keys

namespace World.AsksIn

variable {p : Program} {w w' : World} {keys : List Key} {key : Key}

theorem after {xs : List (Build × Instance)} (h : w.AsksIn p keys) (after : w.After xs w') : w'.AsksIn p keys :=
  ⟨h.registers.congr after.registry, h.injectable⟩

theorem bound (h : w.AsksIn p keys) {c : ContainerId} {β : Binding}
    (found : (w.container c).registry.get? key = some β) :
    β.maker.keys ⊆ keys :=
  (h.registers c).bound key β (.inl found)

theorem unalias (h : w.AsksIn p keys) (chain : List ContainerId) (asked : key ∈ keys) : w.unalias chain key ∈ keys := by
  cases key with
  | name s =>
    change (chain.findSome? _).getD _ ∈ keys
    cases found : chain.findSome? fun c => (w.container c).registry.aliases.get? s with
    | none => exact asked
    | some key =>
      obtain ⟨c, -, found⟩ := List.exists_of_findSome?_eq_some found
      exact (h.registers c).aliases s key found
  | type | tagged => exact asked

theorem locateFrom (h : w.AsksIn p keys) (bases : List ContainerId) : ∀ {c key}, key ∈ keys →
    (w.locateFrom c bases key).key ∈ keys := by
  have unserved : ∀ c key, key ∈ keys → (w.unserved c key).key ∈ keys := by
    intro c key asked
    unfold World.unserved
    split <;> exact asked
  induction bases with
  | nil =>
    intro c key asked
    have asked := h.unalias [c] asked
    unfold World.locateFrom
    dsimp only
    cases serves : w.serves c (w.unalias [c] key) with
    | some l => exact key_of_serves serves ▸ asked
    | none => exact unserved c _ asked
  | cons base bases ih =>
    intro c key asked
    have asked := h.unalias (c :: base :: bases) asked
    unfold World.locateFrom
    dsimp only
    split
    · next serves => exact key_of_serves serves ▸ asked
    · split
      · exact ih asked
      · exact unserved c _ asked

/-- A lookup of a key of the list ends with one. -/
theorem locate (h : w.AsksIn p keys) (asked : key ∈ keys) (c : ContainerId) : (w.locate c key).key ∈ keys :=
  h.locateFrom _ asked

end World.AsksIn

namespace System

/-- Finitely many keys are asked for in every run, also once there is a request. -/
theorem Reachable.exists_keys {p : Program} {s : System} (h : Reachable p s) (finite : p.Finite) (r : Request) :
    ∃ keys, s.world.AsksIn p keys ∧ r.keys ⊆ keys := by
  have registers : ∃ keys, s.world.Registers keys := by
    refine (h.induction (I := fun w _ => ∃ keys, w.Registers keys) (fun name => ?_) (fun _ h _ does _ _ =>
      does.exists_registers h) (fun _ ⟨keys, h⟩ => ⟨keys, h.each.release (.empty keys) _⟩) (fun _ h => h) (fun _ h => h) fun h => h).2
    have none : ({} : World).Registers [] := fun c => .empty []
    exact ⟨[], none.each.add (.empty [])⟩
  obtain ⟨bound, registers⟩ := registers
  obtain ⟨told, injectable⟩ := finite.exists_keys
  refine ⟨bound ++ told ++ r.keys, ⟨fun c => (registers c).mono fun key hk => ?_, fun t key hk => ?_⟩, fun key hk => ?_⟩
  · exact List.mem_append_left _ (List.mem_append_left _ hk)
  · exact List.mem_append_left _ (List.mem_append_right _ (injectable t hk))
  · exact List.mem_append_right _ hk

end System

end Injector
