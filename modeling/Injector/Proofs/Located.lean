import Injector.Proofs.Containers
/-!
# Which container serves a key

`Located.Right` says what a lookup promises about the container it names. Lookups depend
on aliases, bindings and instances alone (`World.locate_congr`). For a key that is no name, `locateFrom_owner` finds the owner: a
lookup from the bottom of a chain is a lookup from the first container that has the key. If none
has it, `locateFrom_forScopes` and `locateFrom_nowhere` say what becomes of the key.
-/
namespace Injector

/-- The key that a lookup ends with. -/
def Located.key : Located → Key
  | .cached _ key _ | .builds _ key _ | .noAccess key => key

/-- What a lookup in a chain promises. -/
def Located.Right (w : World) (chain : List ContainerId) : Located → Prop
  | .cached c key v => c ∈ chain ∧ (w.container c).cache.get? key = some v
  | .builds c key b =>
    c ∈ chain ∧ (w.container c).cache.get? key = none ∧ (w.container c).registry.get? key.plain = b
  | .noAccess key => ∃ c ∈ chain, (w.container c).registry.forScopesOnly key.plain = true

theorem Located.Right.mono {w : World} {chain chain' : List ContainerId} (sub : ∀ c ∈ chain, c ∈ chain') :
    ∀ {l : Located}, l.Right w chain → l.Right w chain'
  | .cached _ _ _, h => ⟨sub _ h.1, h.2⟩
  | .builds _ _ _, h => ⟨sub _ h.1, h.2⟩
  | .noAccess _, ⟨c, hc, h⟩ => ⟨c, sub c hc, h⟩

namespace World

variable {w : World}

theorem serves_eq_none_iff {c : ContainerId} {key : Key} : w.serves c key = none ↔
    (w.container c).cache.get? key = none ∧ (w.container c).registry.get? key.plain = none := by
  unfold serves
  cases (w.container c).cache.get? key <;> simp

/-- What a container has itself it is named for. -/
theorem right_of_serves {c : ContainerId} {key : Key} {l : Located} (h : w.serves c key = some l) :
    l.Right w [c] := by
  unfold serves at h
  split at h
  · next v hv =>
    cases h
    exact ⟨List.mem_singleton_self c, hv⟩
  · next hv =>
    obtain ⟨b, hb, rfl⟩ := Option.map_eq_some_iff.1 h
    exact ⟨List.mem_singleton_self c, hv, hb⟩

theorem key_of_serves {c : ContainerId} {key : Key} {l : Located} (h : w.serves c key = some l) : l.key = key := by
  unfold serves at h
  split at h
  · cases h
    rfl
  · obtain ⟨b, -, rfl⟩ := Option.map_eq_some_iff.1 h
    rfl

theorem right_unserved {c : ContainerId} {key : Key} (h : w.serves c key = none) :
    (w.unserved c key).Right w [c] := by
  obtain ⟨hv, hb⟩ := serves_eq_none_iff.1 h
  unfold unserved
  split
  · next only => exact ⟨c, List.mem_singleton_self c, only⟩
  · exact ⟨List.mem_singleton_self c, hv, hb⟩

theorem right_locateFrom (bases : List ContainerId) : ∀ (c : ContainerId) (key : Key),
    (w.locateFrom c bases key).Right w (c :: bases) := by
  induction bases with
  | nil =>
    intro c key
    unfold locateFrom
    dsimp only
    cases h : w.serves c (w.unalias [c] key) with
    | some l => exact right_of_serves h
    | none => exact right_unserved h
  | cons base bases ih =>
    intro c key
    unfold locateFrom
    dsimp only
    have sub : ∀ d ∈ [c], d ∈ c :: base :: bases := by
      intro d hd
      exact List.mem_cons.2 (.inl (List.mem_singleton.1 hd))
    split
    · next h => exact (right_of_serves h).mono sub
    · next h =>
      split
      · exact (ih base _).mono fun d hd => List.mem_cons_of_mem _ hd
      · exact (right_unserved h).mono sub

/-- What a lookup promises. -/
theorem right_locate (w : World) (c : ContainerId) (key : Key) : (w.locate c key).Right w (w.chain c) :=
  right_locateFrom _ c key

/-! ## Containers that have the same -/

end World

theorem rel_cases {α β : Type} {T : α → β → Prop} {x : Option α} {x' : Option β} (h : Option.Rel T x x') :
    (x = none ∧ x' = none) ∨ ∃ y y', x = some y ∧ x' = some y' ∧ T y y' := by
  cases h with
  | none => exact .inl ⟨rfl, rfl⟩
  | some h => exact .inr ⟨_, _, rfl, rfl, h⟩

theorem isSome_of_rel {α β : Type} {T : α → β → Prop} {x : Option α} {x' : Option β} (h : Option.Rel T x x') :
    x'.isSome = x.isSome := by
  cases h <;> rfl

theorem rel_eq {α : Type} {x x' : Option α} (h : Option.Rel Eq x x') : x' = x := by
  cases h with
  | none => rfl
  | some h => rw [h]

theorem rel_refl {α : Type} (x : Option α) : Option.Rel Eq x x := by
  cases x with
  | none => exact .none
  | some y => exact .some rfl

/-- Whether two lookups come to the same, but for the instance. -/
inductive Located.Like (K : Instance → Instance → Prop) : Located → Located → Prop
  | cached (c : ContainerId) (key : Key) {v v' : Instance} (h : K v v') : Like K (.cached c key v) (.cached c key v')
  | builds (c : ContainerId) (key : Key) (β : Option Binding) : Like K (.builds c key β) (.builds c key β)
  | noAccess (key : Key) : Like K (.noAccess key) (.noAccess key)

theorem Located.Like.eq {l l' : Located} (h : Located.Like Eq l l') : l' = l := by
  cases h with
  | cached c key h => rw [h]
  | builds | noAccess => rfl

namespace World

/-- Whether a container has the same for lookups as in another world, but for the instances. Bindings are looked up under
plain keys. -/
structure Finds (K : Instance → Instance → Prop) (w w' : World) (d : ContainerId) : Prop where
  aliases : (w'.container d).registry.aliases = (w.container d).registry.aliases
  own : ∀ key : Key, (w'.container d).registry.own.get? key.plain = (w.container d).registry.own.get? key.plain
  forScopes : ∀ key : Key,
    (w'.container d).registry.forScopes.get? key.plain = (w.container d).registry.forScopes.get? key.plain
  cache : ∀ key, Option.Rel K ((w.container d).cache.get? key) ((w'.container d).cache.get? key)

variable {w w' : World} {K : Instance → Instance → Prop} {chain : List ContainerId}

namespace Finds

variable {d : ContainerId}

theorem of_registry (registry : (w'.container d).registry = (w.container d).registry)
    (cache : ∀ key, Option.Rel K ((w.container d).cache.get? key) ((w'.container d).cache.get? key)) : w.Finds K w' d :=
  ⟨congrArg _ registry, fun _ => by rw [registry], fun _ => by rw [registry], cache⟩

theorem of_eq (registry : (w'.container d).registry = (w.container d).registry)
    (cache : (w'.container d).cache = (w.container d).cache) : w.Finds Eq w' d :=
  .of_registry registry fun _ => cache ▸ rel_refl _

variable (same : w.Finds K w' d) (key : Key)
include same

theorem serves : Option.Rel (Located.Like K) (w.serves d key) (w'.serves d key) := by
  unfold World.serves
  rcases rel_cases (same.cache key) with ⟨none, none'⟩ | ⟨v, v', some, some', h⟩
  · rw [none, none', show (w'.container d).registry.get? key.plain = (w.container d).registry.get? key.plain from same.own key]
    cases (w.container d).registry.get? key.plain with
    | none => exact .none
    | some β => exact .some (.builds d key _)
  · rw [some, some']
    exact .some (.cached d key h)

theorem unserved : Located.Like K (w.unserved d key) (w'.unserved d key) := by
  have only : (w'.container d).registry.forScopesOnly key.plain = (w.container d).registry.forScopesOnly key.plain := by
    simp only [Registry.forScopesOnly, Table.contains, same.own, same.forScopes]
  unfold World.unserved
  rw [only]
  split
  · exact .noAccess key
  · exact .builds d key none

theorem boundHere : w'.boundHere key d = w.boundHere key d := by
  have kept : (w'.container d).cache.contains key = (w.container d).cache.contains key := isSome_of_rel (same.cache key)
  simp only [World.boundHere, Registry.isBound, Table.contains, same.own, same.forScopes, kept]

end Finds

theorem unalias_congr (same : ∀ d ∈ chain, w.Finds K w' d) (key : Key) : w'.unalias chain key = w.unalias chain key := by
  cases key with
  | type | tagged => rfl
  | name s =>
    induction chain with
    | nil => rfl
    | cons d chain ih =>
      have ih := ih fun e he => same e (List.mem_cons_of_mem d he)
      simp only [unalias, List.findSome?_cons, (same d List.mem_cons_self).aliases] at ih ⊢
      cases (w.container d).registry.aliases.get? s with
      | none => exact ih
      | some => rfl

theorem boundIn_congr (same : ∀ d ∈ chain, w.Finds K w' d) (key : Key) : w'.boundIn chain key = w.boundIn chain key := by
  apply Bool.eq_iff_iff.2
  simp only [boundIn, List.any_eq_true]
  constructor
  · rintro ⟨d, hd, has⟩
    exact ⟨d, hd, (same d hd).boundHere key ▸ has⟩
  · rintro ⟨d, hd, has⟩
    exact ⟨d, hd, ((same d hd).boundHere key).symm ▸ has⟩

/-- A lookup comes to the same if the containers of the chain have the same for it. -/
theorem locateFrom_congr (bases : List ContainerId) : ∀ {c}, (∀ d ∈ c :: bases, w.Finds K w' d) → ∀ key,
    Located.Like K (w.locateFrom c bases key) (w'.locateFrom c bases key) := by
  induction bases with
  | nil =>
    intro c same key
    have here := same c List.mem_cons_self
    unfold locateFrom
    dsimp only
    rw [unalias_congr same]
    rcases rel_cases (here.serves (w.unalias [c] key)) with ⟨none, none'⟩ | ⟨l, l', some, some', like⟩
    · rw [none, none']
      exact here.unserved _
    · rw [some, some']
      exact like
  | cons base bases ih =>
    intro c same key
    have here := same c List.mem_cons_self
    have below : ∀ d ∈ base :: bases, w.Finds K w' d := fun d hd => same d (List.mem_cons_of_mem c hd)
    unfold locateFrom
    dsimp only
    rw [unalias_congr same]
    rcases rel_cases (here.serves (w.unalias (c :: base :: bases) key)) with ⟨none, none'⟩ | ⟨l, l', some, some', like⟩
    · rw [none, none', boundIn_congr below]
      dsimp only
      split
      · exact ih below _
      · exact here.unserved _
    · rw [some, some']
      exact like

/-- The bases of the container are the same, too. -/
theorem locate_congr {c : ContainerId} (bases : (w'.container c).bases = (w.container c).bases)
    (same : ∀ d ∈ w.chain c, w.Finds K w' d) (key : Key) : Located.Like K (w.locate c key) (w'.locate c key) := by
  rw [locate, locate, bases]
  exact locateFrom_congr _ same key

theorem bound_congr {c : ContainerId} (bases : (w'.container c).bases = (w.container c).bases)
    (same : ∀ d ∈ w.chain c, w.Finds K w' d) (key : Key) : w'.bound c key = w.bound c key := by
  have chain : w'.chain c = w.chain c := by rw [World.chain, bases, World.chain]
  rw [bound, bound, chain, unalias_congr same, boundIn_congr same]

/-! ## Keys that are no names -/

theorem unalias_of_not_name (w : World) (chain : List ContainerId) {key : Key} (h : key.isName = false) :
    w.unalias chain key = key := by
  cases key with
  | name => cases h
  | type | tagged => rfl

/-- A lookup comes to the key that was asked for, as long as no container on the way makes another key of it. -/
theorem key_locateFrom {t : Key} (bases : List ContainerId) : ∀ {c : ContainerId} {key : Key},
    w.unalias (c :: bases) key = t → (∀ d rest, d :: rest <:+ bases → w.unalias (d :: rest) t = t) →
      (w.locateFrom c bases key).key = t := by
  have unserved : ∀ c, (w.unserved c t).key = t := by
    intro c
    unfold unserved
    split <;> rfl
  induction bases with
  | nil =>
    intro c key stands _
    unfold locateFrom
    dsimp only
    rw [stands]
    cases serves : w.serves c t with
    | some l => exact key_of_serves serves
    | none => exact unserved c
  | cons base bases ih =>
    intro c key stands itself
    unfold locateFrom
    dsimp only
    rw [stands]
    split
    · next serves => exact key_of_serves serves
    · split
      · refine ih (itself base bases List.suffix_rfl) fun d rest within => itself d rest ?_
        exact within.trans (List.suffix_cons base bases)
      · exact unserved c

/-- A lookup for a key that is no name comes to this key. -/
theorem key_locate (w : World) (c : ContainerId) {key : Key} (hk : key.isName = false) :
    (w.locate c key).key = key :=
  key_locateFrom _ (unalias_of_not_name w _ hk) fun _ _ _ => unalias_of_not_name w _ hk

/-- What a container has itself, its scopes see as bound. -/
theorem boundHere_of_serves {c : ContainerId} {key : Key} (h : w.serves c key ≠ none) : w.boundHere key c = true := by
  rw [Ne, serves_eq_none_iff, not_and_or] at h
  simp only [boundHere, Registry.isBound, Table.contains, Cache.contains, Bool.or_eq_true]
  rcases h with h | h
  · exact .inr (Option.isSome_iff_ne_none.2 h)
  · exact .inl (.inl (Option.isSome_iff_ne_none.2 h))

theorem locateFrom_owner {key : Key} (hk : key.isName = false) {owner : ContainerId} {after : List ContainerId}
    (has : w.serves owner key ≠ none) (before : List ContainerId) :
    ∀ {c : ContainerId} {bases : List ContainerId}, c :: bases = before ++ owner :: after →
      (∀ d ∈ before, w.serves d key = none) → w.locateFrom c bases key = w.locateFrom owner after key := by
  induction before with
  | nil =>
    intro c bases h _
    cases h
    rfl
  | cons d before ih =>
    intro c bases h hb
    obtain ⟨rfl, hbases⟩ := List.cons.inj h
    obtain ⟨base, rest, hrest⟩ : ∃ base rest, before ++ owner :: after = base :: rest := by
      cases before <;> exact ⟨_, _, rfl⟩
    -- The owner is among the bases, so the request is handed on.
    have bound : w.boundIn (base :: rest) key = true := by
      rw [← hrest]
      exact List.any_eq_true.2 ⟨owner, by simp, boundHere_of_serves has⟩
    rw [hbases, List.append_eq, hrest, locateFrom]
    simp only [unalias_of_not_name w _ hk, hb c List.mem_cons_self, bound, if_true]
    exact ih hrest.symm fun e he => hb e (List.mem_cons_of_mem _ he)

theorem locateFrom_forScopes {key : Key} (hk : key.isName = false) (bases : List ContainerId) :
    ∀ {c root : ContainerId}, (c :: bases).getLast? = some root → (∀ d ∈ c :: bases, w.serves d key = none) →
      (w.container root).registry.forScopesOnly key.plain = true → w.locateFrom c bases key = .noAccess key := by
  induction bases with
  | nil =>
    intro c root hr hs only
    have last : c = root := by simpa using hr
    subst last
    rw [locateFrom]
    simp [unalias_of_not_name w _ hk, hs, unserved, only]
  | cons base bases ih =>
    intro c root hr hs only
    rw [List.getLast?_cons_cons] at hr
    -- A binding for scopes only counts as bound, so the request is handed on to the root.
    have bound : w.boundIn (base :: bases) key = true := by
      refine List.any_eq_true.2 ⟨root, List.mem_of_getLast? hr, ?_⟩
      simp only [Registry.forScopesOnly, Bool.and_eq_true] at only
      simp [boundHere, Registry.isBound, only.2]
    rw [locateFrom]
    simp only [unalias_of_not_name w _ hk, hs c List.mem_cons_self, bound, if_true]
    exact ih hr (fun d hd => hs d (List.mem_cons_of_mem _ hd)) only

/-- Without an own binding or one for scopes only, and without an instance, nothing is bound. -/
theorem not_boundHere {c : ContainerId} {key : Key} (hs : w.serves c key = none)
    (only : (w.container c).registry.forScopesOnly key.plain = false) : w.boundHere key c = false := by
  obtain ⟨hv, hb⟩ := serves_eq_none_iff.1 hs
  simp only [Registry.get?] at hb
  simp only [Cache.get?] at hv
  simp_all [boundHere, Registry.isBound, Registry.forScopesOnly, Table.contains, Cache.contains]

theorem locateFrom_nowhere {key : Key} (hk : key.isName = false) {c : ContainerId} {bases : List ContainerId}
    (hs : ∀ d ∈ c :: bases, w.serves d key = none)
    (only : ∀ d ∈ c :: bases, (w.container d).registry.forScopesOnly key.plain = false) :
    w.locateFrom c bases key = .builds c key none := by
  have hc := hs c List.mem_cons_self
  have hu : w.unserved c key = .builds c key none := by simp [unserved, only c List.mem_cons_self]
  cases bases with
  | nil =>
    rw [locateFrom]
    simp only [unalias_of_not_name w _ hk, hc, Option.getD_none, hu]
  | cons base bases =>
    have unbound : w.boundIn (base :: bases) key = false := by
      apply List.any_eq_false.2
      intro d hd
      have hd := List.mem_cons_of_mem c hd
      simp [not_boundHere (hs d hd) (only d hd)]
    rw [locateFrom]
    simp only [unalias_of_not_name w _ hk, hc, unbound, hu]
    rfl

end World

end Injector
