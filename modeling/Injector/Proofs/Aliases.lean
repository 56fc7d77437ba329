import Injector.Proofs.Delegation
import Mathlib.Logic.Relation
/-!
# One hop

A name stands for what the nearest alias entry says, and that should be all: what is stored under
the key it stands for is what the name comes to (`World.OneHop`). But a base applies aliases again
to the key that is handed on to it. `one_hop_iff`: names come to what they stand for, on all
containers of a chain, exactly if no base that a key is handed on to makes something else of it.
`alias_of_an_alias` is a chain in which the root does.
-/
namespace Injector

open Relation (TransGen)

namespace World

/-- What a chain has stored under a key: what the nearest container has that has it. A key that is not stored
is out of reach if the root has it for scopes only, and else to be built where it was asked for. -/
def stored (w : World) (c : ContainerId) (key : Key) : Located :=
  ((w.chain c).findSome? fun d => w.serves d key).getD
    (if (w.chain c).getLast?.any (fun root => (w.container root).registry.forScopesOnly key.plain) then .noAccess key
    else .builds c key none)

/-- The key that a name stands for on a container. -/
def standsFor (w : World) (c : ContainerId) (name : String) : Key := w.unalias (w.chain c) (.name name)

/-- Whether a name comes to what is stored under the key that it stands for. -/
def OneHop (w : World) (c : ContainerId) (name : String) : Prop :=
  w.locate c (.name name) = w.stored c (w.standsFor c name)

/-- Whether a container hands a request for a key on to its base: it does not have the key, and the base or a base
of that has it. -/
def Delegates (w : World) (key : Key) (c base : ContainerId) : Prop :=
  (w.container c).bases = w.chain base ∧ ¬ w.Has key c ∧ w.boundIn (w.chain base) key = true

variable {w : World} {c base e : ContainerId} {key t : Key}

theorem Ok.chain_base (ok : w.Ok) {bases : List ContainerId} (h : (w.container c).bases = base :: bases) :
    w.chain base = base :: bases := by
  rw [World.chain, ok.chain c base bases h]

/-! ## One container -/

theorem locate_of_serves {l : Located} (stands : w.unalias (w.chain c) key = t) (serves : w.serves c t = some l) :
    w.locate c key = l := by
  unfold locate
  unfold chain at stands
  cases bases : (w.container c).bases with
  | nil =>
    rw [bases] at stands
    simp [locateFrom, stands, serves]
  | cons base rest =>
    rw [bases] at stands
    simp [locateFrom, stands, serves]

theorem Delegates.locate (h : w.Delegates t c base) (stands : w.unalias (w.chain c) key = t) :
    w.locate c key = w.locate base t := by
  obtain ⟨bases, lacks, bound⟩ := h
  unfold chain at stands bases bound
  unfold World.locate
  rw [bases] at stands ⊢
  simp only [locateFrom, stands, serves_eq_none_iff_not_has.2 lacks, bound, if_true]

/-- Nobody else serves a key that is not handed on. -/
theorem Ok.locate_of_not_delegates (ok : w.Ok) (stands : w.unalias (w.chain c) key = t) (lacks : ¬ w.Has t c)
    (last : ∀ base, ¬ w.Delegates t c base) : w.locate c key = w.unserved c t := by
  have nothing := serves_eq_none_iff_not_has.2 lacks
  unfold locate
  unfold World.chain at stands
  cases bases : (w.container c).bases with
  | nil =>
    rw [bases] at stands
    simp [locateFrom, stands, nothing]
  | cons base rest =>
    have unbound : w.boundIn (base :: rest) t = false := by
      by_contra bound
      have chain := ok.chain_base bases
      exact last base ⟨bases.trans chain.symm, lacks, by rw [chain]; simpa using bound⟩
    rw [bases] at stands
    simp only [locateFrom, stands, nothing, unbound]
    rfl

/-! ## What is stored -/

/-- What is stored under different keys is different. -/
theorem key_stored (w : World) (c : ContainerId) (key : Key) : (w.stored c key).key = key := by
  unfold stored
  cases found : (w.chain c).findSome? fun d => w.serves d key with
  | some l =>
    obtain ⟨d, -, serves⟩ := List.exists_of_findSome?_eq_some found
    exact key_of_serves serves
  | none =>
    rw [Option.getD_none]
    split <;> rfl

theorem stored_of_serves {l : Located} (h : w.serves c key = some l) : w.stored c key = l := by
  simp [stored, chain, h]

/-- A key that a container does not have is stored in its base, if anywhere. -/
theorem stored_of_lacks (bases : (w.container c).bases = w.chain base) (lacks : ¬ w.Has key c) :
    w.stored c key = w.stored base key ∨ w.stored c key = .builds c key none ∧ w.stored base key = .builds base key none := by
  have skipped : ((w.chain c).findSome? fun d => w.serves d key) = (w.chain base).findSome? fun d => w.serves d key := by
    rw [chain, List.findSome?_cons, serves_eq_none_iff_not_has.2 lacks, bases]
  have root : (w.chain c).getLast? = (w.chain base).getLast? := by
    rw [chain, bases]
    exact List.getLast?_cons_cons
  unfold stored
  rw [skipped, root]
  cases (w.chain base).findSome? fun d => w.serves d key with
  | some l => exact .inl rfl
  | none =>
    simp only [Option.getD_none]
    split
    · exact .inl rfl
    · exact .inr ⟨rfl, rfl⟩

theorem forScopesOnly_of_not_boundHere (h : w.boundHere key c = false) :
    (w.container c).registry.forScopesOnly key.plain = false := by
  simp only [boundHere, Registry.isBound, Bool.or_eq_false_iff] at h
  simp [Registry.forScopesOnly, h.1.2]

/-- A key that neither a container has nor anything below it is to be built by the container. -/
theorem stored_of_unbound (bases : (w.container c).bases = w.chain base) (lacks : ¬ w.Has key c)
    (unbound : w.boundIn (w.chain base) key = false) : w.stored c key = .builds c key none := by
  have nowhere : ∀ d ∈ w.chain base, w.boundHere key d = false := by
    simpa [boundIn] using unbound
  have unserved : ((w.chain base).findSome? fun d => w.serves d key) = none := by
    rw [List.findSome?_eq_none_iff]
    intro d hd
    by_contra served
    have here := boundHere_of_serves served
    rw [nowhere d hd] at here
    cases here
  have root : (w.chain c).getLast? = (w.chain base).getLast? := by
    rw [chain, bases]
    exact List.getLast?_cons_cons
  unfold stored
  rw [chain, List.findSome?_cons, serves_eq_none_iff_not_has.2 lacks, bases, unserved, Option.getD_none, ← bases,
    ← chain, root]
  cases last : (w.chain base).getLast? with
  | none => rfl
  | some d =>
    have only := forScopesOnly_of_not_boundHere (nowhere d (List.mem_of_getLast? last))
    simp [only]

/-- A scope has nothing for scopes only. -/
theorem Ok.unserved_of_base (ok : w.Ok) (alive : w.Alive c) {rest : List ContainerId}
    (bases : (w.container c).bases = base :: rest) (key : Key) : w.unserved c key = .builds c key none := by
  have fits := ok.registry c alive.2
  rw [show (w.container c).isScope = true by simp [Container.isScope, bases]] at fits
  simp [unserved, fits.not_forScopesOnly]

/-- What is bound in a chain is stored there, or is for scopes only. -/
theorem Ok.stored_ne_of_boundIn (ok : w.Ok) (alive : w.Alive c) (bound : w.boundIn (w.chain c) key = true) :
    w.stored c key ≠ .builds c key none := by
  obtain ⟨d, hd, here⟩ := List.any_eq_true.1 bound
  unfold stored
  cases found : (w.chain c).findSome? fun d => w.serves d key with
  | some l =>
    intro same
    obtain rfl : l = .builds c key none := same
    obtain ⟨d, -, here⟩ := List.exists_of_findSome?_eq_some found
    unfold serves at here
    split at here
    · cases here
    · obtain ⟨b, -, h⟩ := Option.map_eq_some_iff.1 here
      cases h
  | none =>
    have unserved := List.findSome?_eq_none_iff.1 found d hd
    -- It is bound for scopes only, so by the root.
    have only : (w.container d).registry.forScopesOnly key.plain = true := by
      by_contra other
      rw [not_boundHere unserved (by simpa using other)] at here
      cases here
    obtain ⟨root, last⟩ : ∃ root, (w.chain c).getLast? = some root := ⟨_, List.getLast?_eq_some_getLast (List.cons_ne_nil _ _)⟩
    have same : d = root := by
      by_contra ne
      rw [ok.not_forScopesOnly alive hd last ne] at only
      cases only
    rw [last, Option.any_some, ← same, only]
    rintro ⟨⟩

/-- If nobody makes something else of a key on its way, what is stored is found. -/
theorem Ok.locate_stored (ok : w.Ok) {bases : List ContainerId} : ∀ {c key}, (w.container c).bases = bases → w.Alive c →
    w.unalias (w.chain c) key = t → (∀ e, TransGen (w.Delegates t) c e → w.unalias (w.chain e) t = t) →
      w.locate c key = w.stored c t := by
  induction bases with
  | nil =>
    intro c key bases alive stands _
    cases serves : w.serves c t with
    | some l => rw [locate_of_serves stands serves, stored_of_serves serves]
    | none =>
      have last : ∀ base, ¬ w.Delegates t c base := by
        rintro base ⟨chain, -⟩
        rw [bases] at chain
        cases chain
      rw [ok.locate_of_not_delegates stands (serves_eq_none_iff_not_has.1 serves) last]
      simp [stored, World.chain, bases, serves, unserved]
  | cons base rest ih =>
    intro c key bases alive stands fixed
    have chain := ok.chain_base bases
    cases serves : w.serves c t with
    | some l => rw [locate_of_serves stands serves, stored_of_serves serves]
    | none =>
      have lacks := serves_eq_none_iff_not_has.1 serves
      have base_alive : w.Alive base := ok.bases c alive base (bases ▸ List.mem_cons_self)
      cases bound : w.boundIn (w.chain base) t with
      | true =>
        have hands : w.Delegates t c base := ⟨bases.trans chain.symm, lacks, bound⟩
        have found : w.locate base t = w.stored base t :=
          ih (ok.chain c base rest bases) base_alive (fixed base (.single hands)) fun e h => fixed e (.head hands h)
        rw [hands.locate stands, found]
        rcases stored_of_lacks hands.1 lacks with same | ⟨-, nowhere⟩
        · exact same.symm
        · exact absurd nowhere (ok.stored_ne_of_boundIn base_alive bound)
      | false =>
        have last : ∀ e, ¬ w.Delegates t c e := by
          rintro e ⟨chain', -, bound'⟩
          rw [← chain', bases, ← chain, bound] at bound'
          cases bound'
        rw [ok.locate_of_not_delegates stands lacks last, ok.unserved_of_base alive bases,
          stored_of_unbound (bases.trans chain.symm) lacks bound]

/-- A key of which something else is made on its way is looked up as that. -/
theorem locate_realiased (handed : TransGen (w.Delegates t) c e) (other : w.unalias (w.chain e) t ≠ t) :
    ∀ {key}, w.unalias (w.chain c) key = t → ∃ e, TransGen (w.Delegates t) c e ∧ w.unalias (w.chain e) t ≠ t ∧
      w.locate c key = w.locate e t := by
  induction handed using TransGen.head_induction_on with
  | @single c hands =>
    intro key stands
    exact ⟨e, .single hands, other, hands.locate stands⟩
  | @head c base hands handed ih =>
    intro key stands
    by_cases same : w.unalias (w.chain base) t = t
    · obtain ⟨e', handed', other', found⟩ := ih same
      exact ⟨e', .head hands handed', other', (hands.locate stands).trans found⟩
    · exact ⟨base, .single hands, same, hands.locate stands⟩

theorem Ok.mem_chain_of_delegates (ok : w.Ok) {d : ContainerId} (hd : d ∈ w.chain c)
    (handed : TransGen (w.Delegates t) d e) : e ∈ w.chain c := by
  have one : ∀ {d base}, d ∈ w.chain c → w.Delegates t d base → base ∈ w.chain c := by
    intro d base hd hands
    apply ok.bases_mem_chain hd
    rw [hands.1]
    exact List.mem_cons_self
  induction handed with
  | single hands => exact one hd hands
  | tail _ hands ih => exact one ih hands

/-- A container without an entry for a name takes it to stand for what it stands for on the base. -/
theorem standsFor_base {name : String} (bases : (w.container c).bases = w.chain base)
    (entry : (w.container c).registry.aliases.get? name = none) : w.standsFor c name = w.standsFor base name := by
  unfold standsFor unalias
  dsimp only
  rw [← bases, chain, List.findSome?_cons, entry]

end World

namespace System

variable {p : Program} {s : System}

/-- Names come to what is stored under the keys that they stand for, on all containers of a chain, exactly if no
container that such a key is handed on to makes another key of it. A scope without an entry for the name or
the key then has the name come to the same as its base. -/
theorem one_hop_iff (h : Reachable p s) {c : ContainerId} (alive : s.world.Alive c) :
    ((∀ d ∈ s.world.chain c, ∀ name, s.world.OneHop d name) ↔
      ∀ d ∈ s.world.chain c, ∀ name e, TransGen (s.world.Delegates (s.world.standsFor d name)) d e →
        s.world.unalias (s.world.chain e) (s.world.standsFor d name) = s.world.standsFor d name) ∧
    ∀ {d base name key}, (s.world.container d).bases = s.world.chain base →
      (s.world.container d).registry.aliases.get? name = none → s.world.standsFor d name = key → ¬ s.world.Has key d →
      s.world.OneHop d name → s.world.OneHop base name →
        s.world.locate d (.name name) = s.world.locate base (.name name) ∨
          s.world.locate d (.name name) = .builds d key none ∧ s.world.locate base (.name name) = .builds base key none := by
  have ok := h.sound.ok
  constructor
  · constructor
    · intro hops d hd name e handed
      by_contra other
      obtain ⟨e, handed, other, found⟩ := World.locate_realiased handed other rfl
      cases stands : s.world.standsFor d name with
      | type | tagged =>
        rw [stands] at other
        exact other rfl
      | name m =>
        -- The container that makes something else of the key looks that up instead.
        have here := hops d hd name
        have there := hops e (ok.mem_chain_of_delegates hd handed) m
        rw [World.OneHop, found, stands] at here
        rw [World.OneHop, here] at there
        have same := congrArg Located.key there
        rw [World.key_stored, World.key_stored] at same
        rw [stands] at other
        exact other same.symm
    · intro fixed d hd name
      exact ok.locate_stored rfl (ok.alive_of_mem_chain alive hd) rfl (fixed d hd name)
  · rintro d base name key bases entry stands lacks here there
    rw [here, there, ← World.standsFor_base bases entry, stands]
    exact World.stored_of_lacks bases lacks

/-! ## An alias of an alias -/

/-- Aliases of a root that has an `A`, a `B` under the name `m`, and a scope. -/
def aliasRun (aliases : List (Key × String)) : Run {} :=
  .ofOps {} "root" ([
    .on "root" (.pin (some (.name "m")) (.object "B")),
    .on "root" (.pin none (.object "A")),
    .on "root" (.openScope "scope")] ++ aliases.map fun (key, name) => .on "root" (.addAlias key name))

/-- `n` stands for `m`, and `m` for the `A`. The root takes `n` for the `B`, and its scope takes it for the `A`. -/
theorem alias_of_an_alias : ∃ s a b, Reachable {} s ∧ s.world.Alive 1 ∧ s.world.chain 1 = [1, 0] ∧
    s.world.standsFor 1 "n" = .name "m" ∧ s.world.stored 1 (.name "m") = .cached 0 (.name "m") b ∧
    s.world.locate 0 (.name "n") = .cached 0 (.name "m") b ∧
    s.world.locate 1 (.name "n") = .cached 0 (.type (.declared "A")) a ∧ ¬ s.world.OneHop 1 "n" := by
  refine ⟨_, ⟨1, .object "A" 2⟩, ⟨0, .object "B" 1⟩,
    (aliasRun [(.name "m", "n"), (.type (.declared "A"), "m")]).reachable 20, ⟨by decide +kernel, by decide +kernel⟩,
    rfl, rfl, rfl, rfl, rfl, ?_⟩
  rintro ⟨⟩

/-- If `n` stands for the `A`, all names come to what they stand for, on the scope as on the root. -/
theorem alias_of_a_type : ∃ s, Reachable {} s ∧ s.world.Alive 1 ∧ s.world.chain 1 = [1, 0] ∧
    s.world.standsFor 1 "n" = .type (.declared "A") ∧ ∀ d ∈ s.world.chain 1, ∀ name, s.world.OneHop d name := by
  obtain ⟨s, reachable, alive, scope, root, none, one⟩ : ∃ s, Reachable {} s ∧ s.world.Alive 1 ∧
      s.world.chain 1 = [1, 0] ∧ s.world.chain 0 = [0] ∧ (s.world.container 1).registry.aliases = Table.empty ∧
      (s.world.container 0).registry.aliases = Table.empty.insert "n" (.type (.declared "A")) :=
    ⟨_, (aliasRun [(.type (.declared "A"), "n")]).reachable 16, ⟨by decide +kernel, by decide +kernel⟩, rfl, rfl, rfl, rfl⟩
  have stands : ∀ d ∈ s.world.chain 1, ∀ name, s.world.standsFor d name =
      if "n" = name then .type (.declared "A") else .name name := by
    intro d hd name
    rw [scope] at hd
    rcases List.mem_cons.1 hd with rfl | hd
    · by_cases same : "n" = name <;>
        simp [World.standsFor, World.unalias, scope, none, one, Table.get?_insert, same]
    · obtain rfl := List.mem_singleton.1 hd
      by_cases same : "n" = name <;> simp [World.standsFor, World.unalias, root, one, Table.get?_insert, same]
  refine ⟨s, reachable, alive, scope, stands 1 List.mem_cons_self "n",
    (one_hop_iff reachable alive).1.2 fun d hd name e handed => ?_⟩
  have he := reachable.sound.ok.mem_chain_of_delegates hd handed
  rw [stands d hd name]
  split
  · rfl
  · next other =>
    have same := stands e he name
    rw [if_neg other] at same
    exact same

end System

end Injector
