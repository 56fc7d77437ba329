import Injector.Command
import Mathlib.Logic.Relation
import Mathlib.Tactic.ByContra
/-!
# Containers in order

What is true of the containers of every run, whatever is done to them: bases are open as
long as a scope on them is, names stand for open containers, an ended container holds
nothing any more, and the registry of a scope has no binding that the scope itself could
not use (`World.Ok`). Ending what nobody can reach keeps all this (`Ok.release`), and
`Ok.modify` and `Ok.add` say what a change and a new container need for it.
-/
namespace Injector

/-! ## Bindings and registries -/

/-- What a maker provides. -/
def Maker.product : Maker → Product
  | .function f _ => f.product
  | .chained product _ _ => product

/-- A binding's finalizer is for what its maker provides. -/
def Binding.Sound (b : Binding) : Prop := ∀ f, b.finalizer = some f → f.ty = b.maker.product.ty

theorem Source.ty_eq (p : Program) (s : Source) : s.ty p = (s.maker p).product.ty := by
  cases s <;> rfl

theorem Source.sound_binding (p : Program) (s : Source) (lifetime : Lifetime) (finalizer : Option (Script Op)) :
    (s.binding p lifetime finalizer).Sound := by
  intro f hf
  obtain ⟨_, _, rfl⟩ := Option.map_eq_some_iff.1 hf
  exact s.ty_eq p

theorem Function.sound_unbound (f : Function) : f.unbound.Sound := by
  intro _ h
  cases h

namespace Registry

/-- The registry of a scope, or of a container without a base: a scope can use all the
bindings it passes on. -/
structure Fits (r : Registry) (scope : Bool) : Prop where
  inScope : r.inScope = scope
  own : scope = true → ∀ k, r.forScopes.contains k = true → r.own.contains k = true
  sound : ∀ k b, r.own.get? k = some b ∨ r.forScopes.get? k = some b → b.Sound

theorem fits_empty : ({} : Registry).Fits false where
  inScope := rfl
  own h := by cases h
  sound k b h := by rcases h with h | h <;> cases h

/-- What is found after a registration is what was registered, or was there before. -/
theorem found_insert {r : Registry} {key k : Key} {b b' : Binding}
    (found : (r.insert key b).own.get? k = some b' ∨ (r.insert key b).forScopes.get? k = some b') :
    b' = b ∨ r.own.get? k = some b' ∨ r.forScopes.get? k = some b' := by
  unfold Registry.insert at found
  split at found
  · rcases found with found | found
    · dsimp only at found
      split at found
      · grind [Table.get?_insert]
      · grind [Table.get?_erase]
    · grind [Table.get?_insert]
  · rcases found with found | found
    · grind [Table.get?_insert]
    · grind [Table.get?_erase]

theorem Fits.insert {r : Registry} {scope : Bool} (h : r.Fits scope) {b : Binding} (hb : b.Sound) (key : Key) :
    (r.insert key b).Fits scope where
  inScope := by rw [inScope_insert]; exact h.inScope
  own hs k hk := by
    have hin := h.inScope.trans hs
    unfold Registry.insert at hk ⊢
    cases hl : b.lifetime.inScopes <;> by_cases e : key = k <;>
      simp_all [Table.contains_insert, Table.contains_erase]
    all_goals exact h.own rfl k hk
  sound k b' hk := by
    rcases found_insert hk with rfl | old
    · exact hb
    · exact h.sound k b' old

theorem Fits.addAlias {r : Registry} {scope : Bool} (h : r.Fits scope) (key : Key) (name : String) :
    (r.addAlias key name).Fits scope :=
  ⟨h.inScope, h.own, h.sound⟩

theorem Fits.child {r : Registry} {scope : Bool} (h : r.Fits scope) : r.child.Fits true where
  inScope := rfl
  own _ _ hk := hk
  sound k b hk := h.sound k b (.inr (hk.elim id id))

/-- A scope has no binding for scopes only. -/
theorem Fits.not_forScopesOnly {r : Registry} (h : r.Fits true) (k : Key) : r.forScopesOnly k = false := by
  have := h.own rfl k
  unfold forScopesOnly
  cases ho : r.own.contains k <;> cases hs : r.forScopes.contains k <;> simp_all

end Registry

namespace World

/-! ## Open and ended containers -/

/-- What is left of a container after its end. -/
def ended (bases : List ContainerId) : Container := { bases, live := false }

/-- Whether a container was opened and is not ended. -/
def Alive (w : World) (c : ContainerId) : Prop := c < w.containers.length ∧ (w.container c).live = true

theorem Alive.container_modify {w : World} {c : ContainerId} (h : w.Alive c) (f : Container → Container) :
    (w.modify c f).container c = f (w.container c) := by
  rw [World.container_modify, if_pos ⟨rfl, h.1⟩]

/-- The build locks of an open container after a change. -/
theorem Alive.locks_modifyLocks {w : World} {c : ContainerId} (h : w.Alive c) (f : Locks → Locks) :
    ((w.modifyLocks c f).container c).locks = f (w.container c).locks :=
  congrArg Container.locks (h.container_modify _)

theorem container_of_ge {w : World} {c : ContainerId} (h : w.containers.length ≤ c) : w.container c = {} := by
  simp [container, List.getElem?_eq_none h]

theorem container_add (w : World) (x : Container) (c : ContainerId) :
    (w.add x).2.container c = if c = w.containers.length then x else w.container c := by
  rcases Nat.lt_trichotomy c w.containers.length with h | h | h
  · rw [if_neg (Nat.ne_of_lt h), container_add_of_lt w x h]
  · subst h
    rw [if_pos rfl]
    exact container_add_self w x
  · have past : (w.add x).2.containers.length ≤ c := by
      simp only [World.add, List.length_append, List.length_singleton]
      exact h
    rw [if_neg (Nat.ne_of_gt h), container_of_ge (Nat.le_of_lt h), container_of_ge past]

/-- After a container was added, a number is that of an old container, of the new one, or of none yet. -/
theorem container_add_cases (w : World) (x : Container) (c : ContainerId) :
    (c < w.containers.length ∧ (w.add x).2.container c = w.container c) ∨
      (c = w.containers.length ∧ (w.add x).2.container c = x) ∨
      (w.containers.length < c ∧ (w.add x).2.container c = {} ∧ w.container c = {}) := by
  rw [container_add]
  rcases Nat.lt_trichotomy c w.containers.length with h | h | h
  · exact .inl ⟨h, if_neg (Nat.ne_of_lt h)⟩
  · exact .inr (.inl ⟨h, if_pos h⟩)
  · have none := container_of_ge (Nat.le_of_lt h)
    exact .inr (.inr ⟨h, (if_neg (Nat.ne_of_gt h)).trans none, none⟩)

theorem container_close (w : World) {c : ContainerId} (c' : ContainerId) (h : c < w.containers.length) :
    (w.close c).container c' = if c = c' then ended (w.container c').bases else w.container c' := by
  change (w.modify c _).container c' = _
  by_cases e : c = c' <;> simp [container_modify, e, ended]
  exact fun hc => absurd (e ▸ h) (Nat.not_lt.2 hc)

theorem length_close (w : World) (c : ContainerId) : (w.close c).containers.length = w.containers.length :=
  length_containers_modify w c _

theorem container_closeAll (l : List ContainerId) :
    ∀ (w : World) (c' : ContainerId), (∀ c ∈ l, c < w.containers.length) →
      (l.foldl close w).container c' = if c' ∈ l then ended (w.container c').bases else w.container c' := by
  induction l with
  | nil => intro w c' _; simp
  | cons c l ih =>
    intro w c' h
    have hc := h c List.mem_cons_self
    rw [List.foldl_cons, ih _ _ (fun d hd => by rw [length_close]; exact h d (List.mem_cons_of_mem _ hd)),
      container_close w c' hc]
    by_cases e : c = c'
    · subst e; simp [ended]
    · simp [e, Ne.symm e]

theorem mem_unreachable {w : World} {held : List ContainerId} {c : ContainerId} :
    c ∈ w.unreachable held ↔ w.Alive c ∧ c ∉ w.reachable held := by
  simp [unreachable, Alive, and_assoc]

theorem container_release (w : World) (held : List ContainerId) (c : ContainerId) :
    (w.release held).container c =
      if c ∈ w.unreachable held then ended (w.container c).bases else w.container c :=
  container_closeAll _ w c fun _ hc => (mem_unreachable.1 hc).1.1

/-- What ending containers leaves alone. -/
theorem closeAll_frame (l : List ContainerId) : ∀ w : World,
    (l.foldl close w).containers.length = w.containers.length ∧ (l.foldl close w).names = w.names ∧
      (l.foldl close w).saved = w.saved ∧ (l.foldl close w).supply = w.supply ∧ (l.foldl close w).tickets = w.tickets := by
  induction l with
  | nil => intro w; exact ⟨rfl, rfl, rfl, rfl, rfl⟩
  | cons c l ih =>
    intro w
    obtain ⟨length, rest⟩ := ih (w.close c)
    exact ⟨length.trans (length_close w c), rest⟩

@[simp] theorem length_release (w : World) (held : List ContainerId) :
    (w.release held).containers.length = w.containers.length := (closeAll_frame _ w).1

@[simp] theorem names_release (w : World) (held : List ContainerId) : (w.release held).names = w.names :=
  (closeAll_frame _ w).2.1

@[simp] theorem saved_release (w : World) (held : List ContainerId) : (w.release held).saved = w.saved :=
  (closeAll_frame _ w).2.2.1

@[simp] theorem supply_release (w : World) (held : List ContainerId) : (w.release held).supply = w.supply :=
  (closeAll_frame _ w).2.2.2.1

@[simp] theorem tickets_release (w : World) (held : List ContainerId) : (w.release held).tickets = w.tickets :=
  (closeAll_frame _ w).2.2.2.2

@[simp] theorem bases_release (w : World) (held : List ContainerId) (c : ContainerId) :
    ((w.release held).container c).bases = (w.container c).bases := by
  rw [container_release]
  split <;> rfl

/-! ## The order of the containers -/

section Chains
variable {w : World} (linked : ∀ c b bs, (w.container c).bases = b :: bs → (w.container b).bases = bs)
include linked

/-- If the bases of each container go on with those of the nearest one, chains hold the bases of their containers. -/
theorem bases_mem_chain {c₀ c b : ContainerId} (hc : c ∈ w.chain c₀) (hb : b ∈ (w.container c).bases) :
    b ∈ w.chain c₀ := by
  generalize hl : (w.container c₀).bases = l
  induction l generalizing c₀ with
  | nil =>
    simp only [World.chain, hl, List.mem_singleton] at hc
    subst hc
    exact List.mem_cons_of_mem _ hb
  | cons b₀ bs ih =>
    have hchain : w.chain b₀ = b₀ :: bs := by rw [World.chain, linked c₀ b₀ bs hl]
    rcases List.mem_cons.1 hc with rfl | hc
    · exact List.mem_cons_of_mem _ hb
    · rw [hl, ← hchain] at hc
      have := ih hc (linked c₀ b₀ bs hl)
      rw [hchain, ← hl] at this
      exact List.mem_cons_of_mem _ this

theorem bases_mem_reachable {held : List ContainerId} {c b : ContainerId} (hc : c ∈ w.reachable held)
    (hb : b ∈ (w.container c).bases) : b ∈ w.reachable held := by
  obtain ⟨c₀, h₀, hc⟩ := List.mem_flatMap.1 hc
  exact List.mem_flatMap.2 ⟨c₀, h₀, bases_mem_chain linked hc hb⟩

end Chains

/-- What is true of all containers in every run. -/
structure Ok (w : World) : Prop where
  names : ∀ row ∈ w.names, w.Alive row.2
  bases : ∀ c, w.Alive c → ∀ b ∈ (w.container c).bases, w.Alive b
  opened : ∀ c, ∀ b ∈ (w.container c).bases, b < w.containers.length
  chain : ∀ c b bs, (w.container c).bases = b :: bs → (w.container b).bases = bs
  ended : ∀ c, (w.container c).live = false → w.container c = World.ended (w.container c).bases
  registry : ∀ c, (w.container c).live = true → (w.container c).registry.Fits (w.container c).isScope

namespace Ok

/-- Only the containers and their names matter. -/
theorem congr {w w' : World} (ok : w.Ok) (hc : w'.containers = w.containers) (hn : w'.names = w.names) : w'.Ok := by
  cases w
  cases w'
  cases hc
  cases hn
  exact ⟨ok.names, ok.bases, ok.opened, ok.chain, ok.ended, ok.registry⟩

/-- The bases of a container of a chain are in the chain. -/
theorem bases_mem_chain {w : World} (ok : w.Ok) {c₀ c b : ContainerId} (hc : c ∈ w.chain c₀)
    (hb : b ∈ (w.container c).bases) : b ∈ w.chain c₀ := World.bases_mem_chain ok.chain hc hb

/-- The containers of the chain of an open container are open. -/
theorem alive_of_mem_chain {w : World} (ok : w.Ok) {c₀ c : ContainerId} (h : w.Alive c₀) (hc : c ∈ w.chain c₀) :
    w.Alive c := by
  rcases List.mem_cons.1 hc with rfl | hc
  · exact h
  · exact ok.bases c₀ h c hc

/-- The bases of what can be reached can be reached. -/
theorem bases_mem_reachable {w : World} (ok : w.Ok) {held : List ContainerId} {c b : ContainerId}
    (hc : c ∈ w.reachable held) (hb : b ∈ (w.container c).bases) : b ∈ w.reachable held :=
  World.bases_mem_reachable ok.chain hc hb

/-- A change to an open container that keeps its bases, and a registry that fits. -/
theorem modify {w : World} (ok : w.Ok) {c : ContainerId} {f : Container → Container} (alive : w.Alive c)
    (bases : ∀ x, (f x).bases = x.bases) (live : ∀ x, (f x).live = x.live)
    (registry : (w.container c).registry.Fits (w.container c).isScope →
      (f (w.container c)).registry.Fits (w.container c).isScope) : (w.modify c f).Ok := by
  -- No container is opened or ended, and none gets other bases.
  have hb : ∀ d, ((w.modify c f).container d).bases = (w.container d).bases := by
    intro d
    exact field_modify Container.bases w c d f bases
  have hl : ∀ d, ((w.modify c f).container d).live = (w.container d).live := by
    intro d
    exact field_modify Container.live w c d f live
  have ha : ∀ d, (w.modify c f).Alive d ↔ w.Alive d := by
    intro d
    simp only [Alive, length_containers_modify, hl]
  constructor
  case names =>
    intro row hr
    exact (ha _).2 (ok.names row hr)
  case bases =>
    intro d hd b hbd
    rw [hb] at hbd
    exact (ha b).2 (ok.bases d ((ha d).1 hd) b hbd)
  case opened =>
    intro d b hbd
    rw [hb] at hbd
    rw [length_containers_modify]
    exact ok.opened d b hbd
  case chain =>
    intro d b bs h
    rw [hb] at h ⊢
    exact ok.chain d b bs h
  case ended =>
    intro d hd
    rw [hl] at hd
    have ne : c ≠ d := by
      intro e
      subst e
      rw [alive.2] at hd
      cases hd
    rw [container_modify_of_ne w f ne]
    exact ok.ended d hd
  case registry =>
    intro d hd
    rw [hl] at hd
    have hs : ((w.modify c f).container d).isScope = (w.container d).isScope := by
      simp only [Container.isScope, hb]
    rw [hs, container_modify]
    split
    · next e =>
      obtain ⟨rfl, _⟩ := e
      exact registry (ok.registry c hd)
    · exact ok.registry d hd

theorem alive_add {w : World} {x : Container} {c : ContainerId} (h : w.Alive c) : (w.add x).2.Alive c := by
  refine ⟨?_, ?_⟩
  · simpa [World.add] using Nat.lt_succ_of_lt h.1
  · rw [container_add_of_lt w x h.1]
    exact h.2

/-- A new container whose bases are a chain of open containers. -/
theorem add {w : World} (ok : w.Ok) {x : Container} (live : x.live = true)
    (bases : x.bases = [] ∨ ∃ b, w.Alive b ∧ x.bases = w.chain b) (registry : x.registry.Fits x.isScope) :
    (w.add x).2.Ok := by
  have hlen : (w.add x).2.containers.length = w.containers.length + 1 := by simp [World.add]
  have hx : ∀ b ∈ x.bases, w.Alive b := by
    rcases bases with h | ⟨b, hb, h⟩ <;> rw [h]
    · simp
    · exact fun d hd => ok.alive_of_mem_chain hb hd
  have split := container_add_cases w x
  constructor
  case names =>
    intro row hr
    exact alive_add (ok.names row hr)
  case bases =>
    intro c hc b hb
    rcases split c with ⟨hlt, e⟩ | ⟨_, e⟩ | ⟨hgt, _, _⟩
    · rw [e] at hb
      exact alive_add (ok.bases c ⟨hlt, e ▸ hc.2⟩ b hb)
    · rw [e] at hb
      exact alive_add (hx b hb)
    · exact absurd hc.1 (hlen ▸ Nat.not_lt.2 hgt)
  case opened =>
    intro c b hb
    rw [hlen]
    rcases split c with ⟨_, e⟩ | ⟨_, e⟩ | ⟨_, e, _⟩ <;> rw [e] at hb
    · exact Nat.lt_succ_of_lt (ok.opened c b hb)
    · exact Nat.lt_succ_of_lt (hx b hb).1
    · cases hb
  case chain =>
    intro c b bs h
    rcases split c with ⟨_, e⟩ | ⟨_, e⟩ | ⟨_, e, _⟩ <;> rw [e] at h
    · rw [container_add_of_lt w x (ok.opened c b (by simp [h]))]
      exact ok.chain c b bs h
    · rw [container_add_of_lt w x (hx b (by simp [h])).1]
      rcases bases with h' | ⟨b', hb', h'⟩ <;> rw [h'] at h
      · cases h
      · injection h with h₁ h₂
        rw [← h₁, h₂]
    · cases h
  case ended =>
    intro c hc
    rcases split c with ⟨_, e⟩ | ⟨_, e⟩ | ⟨_, e, _⟩ <;> rw [e] at hc ⊢
    · exact ok.ended c hc
    · rw [live] at hc; cases hc
    · cases hc
  case registry =>
    intro c hc
    rcases split c with ⟨_, e⟩ | ⟨_, e⟩ | ⟨_, e, _⟩ <;> rw [e] at hc ⊢
    · exact ok.registry c hc
    · exact registry
    · exact Registry.fits_empty

/-- Ending what nobody can reach leaves open what can be reached. -/
theorem alive_release {w : World} {held : List ContainerId} {c : ContainerId} (h : w.Alive c)
    (hc : c ∈ w.reachable held) : (w.release held).Alive c := by
  refine ⟨by simpa using h.1, ?_⟩
  rw [container_release, if_neg fun hu => (mem_unreachable.1 hu).2 hc]
  exact h.2

theorem of_alive_release {w : World} {held : List ContainerId} {c : ContainerId} (h : (w.release held).Alive c) :
    w.Alive c ∧ c ∈ w.reachable held ∧ (w.release held).container c = w.container c := by
  have hlive := h.2
  rw [container_release] at hlive
  split at hlive
  · cases hlive
  · next hu =>
    have alive : w.Alive c := ⟨by simpa using h.1, hlive⟩
    refine ⟨alive, ?_, by rw [container_release, if_neg hu]⟩
    by_contra hr
    exact hu (mem_unreachable.2 ⟨alive, hr⟩)

theorem release {w : World} (ok : w.Ok) (held : List ContainerId) : (w.release held).Ok := by
  constructor
  case names =>
    intro row hr
    rw [names_release] at hr
    refine alive_release (ok.names row hr) (List.mem_flatMap.2 ⟨row.2, ?_, List.mem_cons_self⟩)
    exact List.mem_append_left _ (List.mem_map_of_mem hr)
  case bases =>
    intro c hc b hb
    obtain ⟨alive, hr, _⟩ := of_alive_release hc
    rw [bases_release] at hb
    exact alive_release (ok.bases c alive b hb) (ok.bases_mem_reachable hr hb)
  case opened =>
    intro c b hb
    rw [bases_release] at hb
    rw [length_release]
    exact ok.opened c b hb
  case chain =>
    intro c b bs h
    rw [bases_release] at h ⊢
    exact ok.chain c b bs h
  case ended =>
    intro c hc
    rw [bases_release]
    rw [container_release] at hc ⊢
    split at hc
    · next hu => rw [if_pos hu]
    · next hu => rw [if_neg hu]; exact ok.ended c hc
  case registry =>
    intro c hc
    rw [container_release] at hc ⊢
    split at hc
    · cases hc
    · next hu => rw [if_neg hu]; exact ok.registry c hc

end Ok

end World

end Injector
