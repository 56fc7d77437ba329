import Injector.Proofs.Located
import Injector.Proofs.Locking
import Mathlib.Data.List.Forall2
/-!
# Worlds that correspond

Where two systems go on side by side, their containers are compared all the way: the one has what the other has, but that instances
and tickets are counterparts. A `Correspondence` says which are, which containers count, which locks only the other world has, and
what else is asked of the two worlds. Whatever is done to the caches, callbacks and build locks of both leaves the worlds in
correspondence (`Worlds.record`, `Worlds.enter`, `Worlds.letIn`, `Worlds.leave`), and lookups come to the same, but for instances
(`Worlds.locate`). Where all containers count (`Whole`), so do names and the ends of containers (`Worlds.giveName`,
`Worlds.release`).

There are three: resolutions that are about some containers only (`Pairing.correspondence`), systems in which everything is the
same but the identity of instances (`Renaming.correspondence`), and a build beside a call (`Detour.correspondence`).
-/
namespace Injector

/-! ## Lists that are related -/

section Related

variable {α β : Type} {T : α → β → Prop} {l : List α} {l' : List β} {p : α → Bool} {p' : β → Bool}

theorem forall₂_filter (h : List.Forall₂ T l l') (same : ∀ x x', T x x' → p x = p' x') :
    List.Forall₂ T (l.filter p) (l'.filter p') :=
  List.rel_filter (fun {x x'} related => Bool.eq_iff_iff.1 (same x x' related)) h

theorem forall₂_find? (h : List.Forall₂ T l l') (same : ∀ x x', T x x' → p x = p' x') :
    Option.Rel T (l.find? p) (l'.find? p') := by
  rw [← List.head?_filter, ← List.head?_filter]
  have filtered := forall₂_filter h same
  generalize l.filter p = k, l'.filter p' = k' at filtered
  cases filtered with
  | nil => exact .none
  | cons head _ => exact .some head

theorem forall₂_eraseP (h : List.Forall₂ T l l') (same : ∀ x x', T x x' → p x = p' x') :
    List.Forall₂ T (l.eraseP p) (l'.eraseP p') := by
  induction h with
  | nil => exact .nil
  | @cons x x' _ _ head tail ih =>
    rw [List.eraseP_cons, List.eraseP_cons, same x x' head]
    cases p' x' with
    | true => exact tail
    | false => exact .cons head ih

theorem eq_of_forall₂ {l l' : List α} {T : α → α → Prop} (h : List.Forall₂ T l l') (same : ∀ x x', T x x' → x' = x) :
    l' = l := by
  induction h with
  | nil => rfl
  | cons head _ ih => rw [same _ _ head, ih]

end Related

/-! ## Caches -/

namespace Cache

variable {K : Instance → Instance → Prop}

/-- Whether caches keep the same, but for the instances, which are counterparts. -/
structure Like (K : Instance → Instance → Prop) (x x' : Cache) : Prop where
  instances : ∀ key, Option.Rel K (x.get? key) (x'.get? key)
  pinned : x'.pinned = x.pinned
  resolved : x'.resolved = x.resolved

theorem like_empty : Like K {} {} := ⟨fun _ => .none, rfl, rfl⟩

theorem like_refl (x : Cache) : x.Like Eq x := ⟨fun _ => rel_refl _, rfl, rfl⟩

namespace Like

variable {x x' : Cache} {v v' : Instance} (h : Like K x x')
include h

theorem isPinned : x'.isPinned = x.isPinned := by
  funext key
  rw [Cache.isPinned, h.pinned, Cache.isPinned]

theorem isResolved (key : Key) : x'.isResolved key = x.isResolved key := by
  rw [Cache.isResolved, h.resolved, Cache.isResolved]

theorem insert (key : Key) (related : K v v') : Like K (x.insert key v) (x'.insert key v') where
  instances key' := by
    rw [Cache.get?_insert, Cache.get?_insert]
    split
    · exact .some related
    · exact h.instances key'
  pinned := by rw [Cache.insert, Cache.insert, h.pinned]
  resolved := h.resolved

theorem pin (key : Key) (related : K v v') : Like K (x.pin key v) (x'.pin key v') where
  instances key' := by
    rw [Cache.get?_pin, Cache.get?_pin]
    split
    · exact .some related
    · exact h.instances key'
  pinned := by rw [Cache.pin, Cache.pin, h.pinned]
  resolved := by rw [Cache.pin, Cache.pin, h.resolved]

theorem markResolved (key : Key) : Like K (x.markResolved key) (x'.markResolved key) where
  instances := h.instances
  pinned := h.pinned
  resolved := by rw [Cache.markResolved, Cache.markResolved, h.resolved]

theorem clearBuilt : Like K x.clearBuilt x'.clearBuilt where
  instances key := by
    rw [Cache.get?_clearBuilt, Cache.get?_clearBuilt, h.isPinned]
    split
    · exact h.instances key
    · exact .none
  pinned := h.pinned
  resolved := by rw [Cache.clearBuilt, Cache.clearBuilt, h.resolved, h.isPinned]

end Like

theorem Like.eq {x x' : Cache} (h : x.Like Eq x') : x' = x :=
  Cache.ext (Table.ext (funext fun key => rel_eq (h.instances key))) h.pinned h.resolved

end Cache

/-! ## Callbacks -/

/-- Whether two teardowns are the same, but for the instance that is finalized. -/
inductive Teardown.Like (K : Instance → Instance → Prop) : Teardown → Teardown → Prop
  | callback (s : Script Op) : Like K (.callback s) (.callback s)
  | finalize (f : Finalizer) {v v' : Instance} (h : K v v') : Like K (.finalize f v) (.finalize f v')

theorem Teardown.Like.eq {t t' : Teardown} (h : t.Like Eq t') : t' = t := by
  cases h with
  | callback => rfl
  | finalize f h => rw [h]

theorem Teardown.like_refl : ∀ t : Teardown, t.Like Eq t
  | .callback s => .callback s
  | .finalize f _ => .finalize f rfl

namespace Callbacks

variable {K : Instance → Instance → Prop}

/-- Whether callbacks are the same, but for what is to be finalized, which are counterparts. -/
structure Like (K : Instance → Instance → Prop) (x x' : Callbacks) : Prop where
  terminating : List.Forall₂ (Teardown.Like K) x.terminating x'.terminating
  rest : x' = { x with terminating := x'.terminating }

namespace Like

variable {x x' : Callbacks} (h : Like K x x')
include h

theorem hooksFor (key : Key) : x'.hooksFor key = x.hooksFor key := by
  rw [h.rest]
  rfl

theorem child : x'.child = x.child := by
  rw [h.rest]
  rfl

/-- What leaves the teardowns alone. -/
theorem of_terminating {f : Callbacks → Callbacks} (terminating : ∀ x, (f x).terminating = x.terminating)
    (rest : ∀ x ts, f { x with terminating := ts } = { f x with terminating := ts }) : Like K (f x) (f x') where
  terminating := by
    rw [terminating, terminating]
    exact h.terminating
  rest := by rw [terminating, h.rest, rest]

theorem addAfterResolving (inScopes : Bool) (key : Key) (hook : Hook) :
    Like K (x.addAfterResolving inScopes key hook) (x'.addAfterResolving inScopes key hook) :=
  h.of_terminating (f := fun x => x.addAfterResolving inScopes key hook) (fun _ => rfl) fun _ _ => rfl

theorem addTeardown {t t' : Teardown} (related : t.Like K t') :
    Like K (x.addTeardown t) (x'.addTeardown t') where
  terminating := List.rel_append h.terminating (.cons related .nil)
  rest := by rw [Callbacks.addTeardown, h.rest, Callbacks.addTeardown]

theorem addTerminating (inScopes : Bool) (s : Script Op) :
    Like K (x.addTerminating inScopes s) (x'.addTerminating inScopes s) where
  terminating := by
    rw [Callbacks.addTerminating, Callbacks.addTerminating, h.rest]
    dsimp only
    split
    · exact List.rel_append h.terminating (.cons (.callback s) .nil)
    · exact h.terminating
  rest := by rw [Callbacks.addTerminating, h.rest, Callbacks.addTerminating]

theorem clearTerminating : Like K x.clearTerminating x'.clearTerminating where
  terminating := .nil
  rest := by rw [Callbacks.clearTerminating, h.rest, Callbacks.clearTerminating]

end Like

theorem Like.eq {x x' : Callbacks} (h : x.Like Eq x') : x' = x := by
  rw [h.rest, eq_of_forall₂ h.terminating fun _ _ like => like.eq]

theorem like_refl (x : Callbacks) : x.Like Eq x := ⟨List.forall₂_same.2 fun t _ => t.like_refl, rfl⟩

/-- Callbacks that leave nothing to finalize are their own counterpart. -/
theorem like_self {x : Callbacks} (ss : List (Script Op)) (none : x.terminating = ss.map .callback) :
    Like K x x where
  terminating := by
    rw [none]
    exact List.forall₂_same.2 fun t ht => by
      obtain ⟨s, -, rfl⟩ := List.mem_map.1 ht
      exact .callback s
  rest := rfl

end Callbacks

/-! ## What corresponds -/

/-- What it means that two worlds correspond. -/
structure Correspondence where
  /-- The instances that are counterparts. -/
  instances : Instance → Instance → Prop
  /-- The instances that are counterparts where they are only left to be finalized. -/
  finalized : Instance → Instance → Prop
  finalize : ∀ {v v'}, instances v v' → finalized v v'
  /-- The tickets that are counterparts. -/
  tickets : Ticket → Ticket → Prop
  faithful : ∀ {x x' y y'}, tickets x x' → tickets y y' → (x = y ↔ x' = y')
  /-- The tickets that may come next in both. -/
  next : Ticket → Ticket → Prop
  issue : ∀ {x x'}, next x x' → tickets x x' ∧ next (x + 1) (x' + 1)
  /-- The locks that only the other world has, with their tickets. -/
  reserved : ContainerId → Key → Ticket → Prop
  apart : ∀ {c key m x x'}, reserved c key m → tickets x x' → x' ≠ m
  /-- The containers that count. -/
  covers : ContainerId → Prop
  /-- What else is asked of the worlds. It has nothing to do with the containers that count, nor with the next ticket. -/
  rest : World → World → Prop
  rest_modify : ∀ {w w' c} {f f' : Container → Container}, covers c → rest w w' → rest (w.modify c f) (w'.modify c f')
  rest_tickets : ∀ {w w' n n'}, rest w w' → rest { w with tickets := n } { w' with tickets := n' }

namespace Correspondence

variable {S : Correspondence} {c : ContainerId} {key : Key}

/-- Whether both worlds may have the lock. -/
def Clear (S : Correspondence) (c : ContainerId) (key : Key) : Prop := ∀ m, ¬ S.reserved c key m

/-- Whether both mutexes are held or free, and the same tickets wait at them. -/
structure Mutexes (S : Correspondence) (m m' : Mutex) : Prop where
  holder : m'.holder.isNone = m.holder.isNone
  waiting : List.Forall₂ S.tickets m.waiting m'.waiting

/-- Whether the locks of a container are the same, but for tickets and for those that only the other world has. -/
structure LocksOf (S : Correspondence) (c : ContainerId) (l l' : Locks) : Prop where
  entries : ∀ key, S.Clear c key → Option.Rel S.tickets (l.entries.get? key) (l'.entries.get? key)
  mutexes : ∀ {m m'}, S.tickets m m' → S.Mutexes (l.mutex m) (l'.mutex m')
  reserved : ∀ {key m}, S.reserved c key m → l'.entries.get? key = some m ∧ (l'.mutex m).waiting = []

/-- Whether containers have the same contents, but for instances and tickets. -/
structure Containers (S : Correspondence) (c : ContainerId) (x x' : Container) : Prop where
  bases : x'.bases = x.bases
  live : x'.live = x.live
  registry : x'.registry = x.registry
  cache : Cache.Like S.instances x.cache x'.cache
  callbacks : Callbacks.Like S.finalized x.callbacks x'.callbacks
  locks : S.LocksOf c x.locks x'.locks

/-- Whether two worlds correspond. -/
structure Worlds (S : Correspondence) (w w' : World) : Prop where
  tickets : S.next w.tickets w'.tickets
  present : ∀ e, S.covers e → (e < w'.containers.length ↔ e < w.containers.length)
  containers : ∀ e, S.covers e → S.Containers e (w.container e) (w'.container e)
  rest : S.rest w w'

/-! ## Locks -/

namespace Mutexes

variable {m m' : Mutex} (h : S.Mutexes m m')
include h

theorem unused : m'.unused = m.unused := by
  obtain ⟨holder, waiting⟩ := h
  unfold Mutex.unused
  rw [holder]
  generalize m.waiting = l, m'.waiting = l' at waiting
  cases waiting <;> rfl

theorem grantable {x x' : Ticket} (ticket : S.tickets x x') : m'.grantable x' = m.grantable x := by
  obtain ⟨holder, waiting⟩ := h
  unfold Mutex.grantable
  rw [holder]
  generalize m.waiting = l, m'.waiting = l' at waiting
  cases waiting with
  | nil => rfl
  | cons head _ =>
    rw [List.head?_cons, List.head?_cons]
    simp only [Bool.beq_eq_decide_eq, Option.some.injEq, S.faithful head ticket]

theorem grant {x x' : Ticket} (ticket : S.tickets x x') : S.Mutexes (m.grant x) (m'.grant x') where
  holder := rfl
  waiting := by
    simp only [Mutex.grant, List.erase_eq_eraseP]
    exact forall₂_eraseP h.waiting fun y y' others => Bool.eq_iff_iff.2 (by simpa using S.faithful ticket others)

theorem line {x x' : Ticket} (ticket : S.tickets x x') :
    S.Mutexes { m with waiting := m.waiting ++ [x] } { m' with waiting := m'.waiting ++ [x'] } :=
  ⟨h.holder, List.rel_append h.waiting (.cons ticket .nil)⟩

theorem free : S.Mutexes { m with holder := none } { m' with holder := none } := ⟨rfl, h.waiting⟩

end Mutexes

theorem locks_empty (clear : ∀ key, S.Clear c key) : S.LocksOf c {} {} where
  entries _ _ := .none
  mutexes _ := ⟨rfl, .nil⟩
  reserved {key m} only := absurd only (clear key m)

namespace LocksOf

variable {l l' : Locks} {m m' : MutexId} {x x' : Ticket} (h : S.LocksOf c l l')
include h

theorem setMutex {state state' : Mutex} (lock : S.tickets m m') (related : S.Mutexes state state') :
    S.LocksOf c (l.setMutex m state) (l'.setMutex m' state') where
  entries := h.entries
  mutexes {k k'} same := by
    rw [Locks.mutex_setMutex, Locks.mutex_setMutex]
    simp only [S.faithful lock same]
    split
    · exact related
    · exact h.mutexes same
  reserved only := by
    rw [Locks.mutex_setMutex, if_neg (S.apart only lock)]
    exact h.reserved only

theorem enter (clear : S.Clear c key) (ticket : S.tickets x x') :
    S.tickets (l.enter key x).1 (l'.enter key x').1 ∧ S.LocksOf c (l.enter key x).2 (l'.enter key x').2 := by
  unfold Locks.enter
  rcases rel_cases (h.entries key clear) with ⟨none, none'⟩ | ⟨m, m', some, some', lock⟩
  · -- A new mutex is like any other that is set, but that it gets an entry.
    have empty : S.Mutexes {} {} := ⟨rfl, .nil⟩
    have set := h.setMutex ticket (empty.line ticket)
    rw [none, none']
    refine ⟨ticket, fun key' clear' => ?_, set.mutexes, fun {key' m} only => ?_⟩
    · dsimp only
      rw [Table.get?_insert, Table.get?_insert]
      split
      · exact .some ticket
      · exact h.entries key' clear'
    · have other : key ≠ key' := fun same => clear m (same ▸ only)
      refine ⟨?_, (set.reserved only).2⟩
      dsimp only
      rw [Table.get?_insert_of_ne _ _ other]
      exact (h.reserved only).1
  · rw [some, some']
    exact ⟨lock, h.setMutex lock ((h.mutexes lock).line ticket)⟩

theorem grantable (lock : S.tickets m m') (ticket : S.tickets x x') : l'.grantable m' x' = l.grantable m x :=
  (h.mutexes lock).grantable ticket

theorem grant (lock : S.tickets m m') (ticket : S.tickets x x') : S.LocksOf c (l.grant m x) (l'.grant m' x') :=
  h.setMutex lock ((h.mutexes lock).grant ticket)

theorem tidy (clear : S.Clear c key) : S.LocksOf c (l.tidy key) (l'.tidy key) where
  mutexes lock := by
    rw [Locks.mutex_tidy, Locks.mutex_tidy]
    exact h.mutexes lock
  reserved {key' m} only := by
    have other : key ≠ key' := fun same => clear m (same ▸ only)
    obtain ⟨entry, nobody⟩ := h.reserved only
    rw [Locks.mutex_tidy]
    refine ⟨?_, nobody⟩
    unfold Locks.tidy
    split
    · split
      · exact (if_neg other).trans entry
      · exact entry
    · exact entry
  entries key' clear' := by
    unfold Locks.tidy
    rcases rel_cases (h.entries key clear) with ⟨none, none'⟩ | ⟨m, m', some, some', lock⟩
    · rw [none, none']
      exact h.entries key' clear'
    · rw [some, some']
      dsimp only
      rw [(h.mutexes lock).unused]
      split
      · dsimp only
        rw [Table.get?_erase, Table.get?_erase]
        split
        · exact .none
        · exact h.entries key' clear'
      · exact h.entries key' clear'

theorem leave (clear : S.Clear c key) (lock : S.tickets m m') : S.LocksOf c (l.leave key m) (l'.leave key m') :=
  (h.setMutex lock (h.mutexes lock).free).tidy clear

end LocksOf

/-! ## Containers -/

theorem containers_new (clear : ∀ key, S.Clear c key) : S.Containers c {} {} :=
  ⟨rfl, rfl, rfl, Cache.like_empty, Callbacks.like_self [] rfl, locks_empty clear⟩

namespace Containers

variable {x x' : Container} (h : S.Containers c x x')
include h

theorem isScope : x'.isScope = x.isScope := by
  rw [Container.isScope, Container.isScope, h.bases]

/-- A scope that is opened on both. -/
theorem scopeOf {d : ContainerId} (clear : ∀ key, S.Clear d key) (c : ContainerId) :
    S.Containers d (.scopeOf c x) (.scopeOf c x') where
  bases := by rw [Container.scopeOf, Container.scopeOf, h.bases]
  live := rfl
  registry := by rw [Container.scopeOf, Container.scopeOf, h.registry]
  cache := Cache.like_empty
  callbacks := by
    rw [Container.scopeOf, Container.scopeOf]
    dsimp only
    rw [h.callbacks.child]
    exact Callbacks.like_self _ rfl
  locks := locks_empty clear

/-- What is left of both at their end. -/
theorem ended (clear : ∀ key, S.Clear c key) :
    S.Containers c { bases := x.bases, live := false } { bases := x'.bases, live := false } :=
  ⟨h.bases, rfl, rfl, Cache.like_empty, Callbacks.like_self [] rfl, locks_empty clear⟩

end Containers

/-! ## Worlds -/

namespace Worlds

variable {w w' : World} (h : S.Worlds w w')
include h

/-- What has nothing to do with containers and tickets. -/
theorem update {u u' : World} (rest : S.rest u u')
    (containers : u.containers = w.containers ∧ u'.containers = w'.containers := by exact ⟨rfl, rfl⟩)
    (tickets : u.tickets = w.tickets ∧ u'.tickets = w'.tickets := by exact ⟨rfl, rfl⟩) : S.Worlds u u' where
  tickets := by
    rw [tickets.1, tickets.2]
    exact h.tickets
  present := by
    rw [containers.1, containers.2]
    exact h.present
  containers e he := by
    rw [World.container, World.container, containers.1, containers.2]
    exact h.containers e he
  rest := rest

/-! ### Changes -/

theorem modify {f f' : Container → Container} (here : S.covers c)
    (related : S.Containers c (w.container c) (w'.container c) → S.Containers c (f (w.container c)) (f' (w'.container c))) :
    S.Worlds (w.modify c f) (w'.modify c f') where
  tickets := h.tickets
  present e he := by
    rw [World.length_containers_modify, World.length_containers_modify]
    exact h.present e he
  containers e he := by
    simp only [World.container_modify, h.present c here]
    split
    · next same => exact same.1 ▸ related (h.containers c here)
    · exact h.containers e he
  rest := S.rest_modify here h.rest

theorem modifyRegistry (here : S.covers c) (f : Registry → Registry) :
    S.Worlds (w.modifyRegistry c f) (w'.modifyRegistry c f) :=
  h.modify here fun x => { x with registry := congrArg f x.registry }

theorem modifyCache {f f' : Cache → Cache} (here : S.covers c) (related : ∀ {x x'}, Cache.Like S.instances x x' → Cache.Like S.instances (f x) (f' x')) :
    S.Worlds (w.modifyCache c f) (w'.modifyCache c f') :=
  h.modify here fun x => { x with cache := related x.cache }

theorem modifyCallbacks {f f' : Callbacks → Callbacks} (here : S.covers c)
    (related : ∀ {x x'}, Callbacks.Like S.finalized x x' → Callbacks.Like S.finalized (f x) (f' x')) :
    S.Worlds (w.modifyCallbacks c f) (w'.modifyCallbacks c f') :=
  h.modify here fun x => { x with callbacks := related x.callbacks }

theorem modifyLocks {f f' : Locks → Locks} (here : S.covers c)
    (related : S.LocksOf c (w.container c).locks (w'.container c).locks →
      S.LocksOf c (f (w.container c).locks) (f' (w'.container c).locks)) :
    S.Worlds (w.modifyLocks c f) (w'.modifyLocks c f') :=
  h.modify here fun x => { x with locks := related x.locks }

/-- Both leave the same to do, and forget what they built. -/
theorem terminate (here : S.covers c) :
    List.Forall₂ (Teardown.Like S.finalized) (w.terminate c).1 (w'.terminate c).1 ∧
      S.Worlds (w.terminate c).2 (w'.terminate c).2 :=
  ⟨(h.containers c here).callbacks.terminating,
    (h.modifyCallbacks here fun x => x.clearTerminating).modifyCache here fun x => x.clearBuilt⟩

/-! ### Lookups -/

theorem chain (here : S.covers c) : w'.chain c = w.chain c := by
  rw [World.chain, World.chain, (h.containers c here).bases]

theorem finds (here : S.covers c) : w.Finds S.instances w' c :=
  .of_registry (h.containers c here).registry (h.containers c here).cache.instances

theorem unalias {cs : List ContainerId} (up : ∀ e ∈ cs, S.covers e) (key : Key) : w'.unalias cs key = w.unalias cs key :=
  World.unalias_congr (fun e he => h.finds (up e he)) key

theorem bound (up : ∀ e ∈ w.chain c, S.covers e) : w'.bound c = w.bound c :=
  funext (World.bound_congr (h.containers c (up c List.mem_cons_self)).bases fun e he => h.finds (up e he))

/-- Lookups come to the same, but for instances. -/
theorem locate (up : ∀ e ∈ w.chain c, S.covers e) (key : Key) : Located.Like S.instances (w.locate c key) (w'.locate c key) :=
  World.locate_congr (h.containers c (up c List.mem_cons_self)).bases (fun e he => h.finds (up e he)) key

/-! ### Builds -/

/-- Both line up, with tickets that come next. -/
theorem enter (here : S.covers c) (clear : S.Clear c key) : S.tickets (w.enter c key).1 (w'.enter c key).1 ∧
    S.tickets (w.enter c key).2.1 (w'.enter c key).2.1 ∧ S.Worlds (w.enter c key).2.2 (w'.enter c key).2.2 := by
  obtain ⟨ticket, next⟩ := S.issue h.tickets
  have related := (h.containers c here).locks.enter clear ticket
  have lined : S.Worlds (w.modifyLocks c fun _ => _) (w'.modifyLocks c fun _ => _) := h.modifyLocks here fun _ => related.2
  rw [World.enter_eq, World.enter_eq]
  exact ⟨related.1, ticket, next, lined.present, lined.containers, S.rest_tickets lined.rest⟩

end Worlds

/-- Whether builds are of the same key by the same binding, on a container that counts. -/
structure Builds (S : Correspondence) (b b' : Build) : Prop where
  container : b'.container = b.container
  key : b'.key = b.key
  binding : b'.binding = b.binding
  lock : S.tickets b.lock b'.lock
  ticket : S.tickets b.ticket b'.ticket
  here : S.covers b.container
  clear : S.Clear b.container b.key

theorem Builds.maker {b b' : Build} (h : S.Builds b b') : b'.maker = b.maker := by
  rw [Build.maker, h.binding, Build.maker]

namespace Worlds

variable {w w' : World} {b b' : Build} (h : S.Worlds w w') (builds : S.Builds b b')
include h builds

theorem mayStart : w'.mayStart b' = w.mayStart b := by
  rw [World.mayStart, builds.container]
  exact (h.containers _ builds.here).locks.grantable builds.lock builds.ticket

theorem letIn : S.Worlds (w.letIn b) (w'.letIn b') := by
  rw [World.letIn, World.letIn, builds.container]
  exact h.modifyLocks builds.here fun locks => locks.grant builds.lock builds.ticket

theorem leave : S.Worlds (w.leave b) (w'.leave b') := by
  rw [World.leave, World.leave, builds.container, builds.key]
  exact h.modifyLocks builds.here fun locks => locks.leave builds.clear builds.lock

theorem record {v v' : Instance} (related : S.instances v v') : S.Worlds (w.record b v) (w'.record b' v') := by
  have kept : ∀ {x x' : Cache}, Cache.Like S.instances x x' →
      Cache.Like S.instances ((if b.lifetime.cached then x.insert b.key v else x).markResolved b.key.plain)
        ((if b.lifetime.cached then x'.insert b.key v' else x').markResolved b.key.plain) := by
    intro x x' caches
    split
    · exact (caches.insert b.key related).markResolved _
    · exact caches.markResolved _
  have cached := h.modifyCache builds.here kept
  unfold World.record Build.finalizer
  rw [show b'.lifetime = b.lifetime by rw [Build.lifetime, builds.binding, Build.lifetime], builds.container, builds.key,
    builds.binding]
  cases b.binding.bind Binding.finalizer with
  | none => exact cached
  | some f => exact cached.modifyCallbacks builds.here fun callbacks => callbacks.addTeardown (.finalize f (S.finalize related))

theorem hooksFor : w'.hooksFor b' = w.hooksFor b := by
  rw [World.hooksFor, builds.container, builds.key]
  exact (h.containers _ builds.here).callbacks.hooksFor b.key

end Worlds

/-! ## All containers -/

/-- Whether all containers count, so that names, and what ended containers have left to do, correspond as well. -/
class Whole (S : Correspondence) : Prop where
  covers : ∀ c, S.covers c
  names : ∀ {w w'}, S.rest w w' → w'.names = w.names
  length : ∀ {w w'}, S.rest w w' → w'.containers.length = w.containers.length
  orphans : ∀ {w w'}, S.rest w w' → List.Forall₂ (List.Forall₂ (Teardown.Like S.finalized)) w.orphans w'.orphans
  new : ∀ {w w'}, S.rest w w' → ∀ key, S.Clear w.containers.length key
  rest_names : ∀ {w w' names}, S.rest w w' → S.rest { w with names := names } { w' with names := names }
  rest_orphans : ∀ {w w' left left'}, List.Forall₂ (List.Forall₂ (Teardown.Like S.finalized)) left left' → S.rest w w' →
    S.rest { w with orphans := left } { w' with orphans := left' }
  rest_add : ∀ {w w'} (x x' : Container), S.rest w w' → S.rest (w.add x).2 (w'.add x').2

namespace Worlds

variable [S.Whole] {w w' : World} (h : S.Worlds w w')
include h

theorem container (c : ContainerId) : S.Containers c (w.container c) (w'.container c) := h.containers c (Whole.covers c)

theorem length : w'.containers.length = w.containers.length := Whole.length h.rest

/-! ### Names -/

theorem named (name : String) : w'.named name = w.named name := by
  rw [World.named, World.named, Whole.names h.rest]

theorem target (self : Option ContainerId) (name : String) : w'.target self name = w.target self name := by
  rw [World.target, World.target, h.named]

theorem forget (name : String) : S.Worlds (w.forget name) (w'.forget name) := by
  rw [World.forget, World.forget, Whole.names h.rest]
  exact h.update (Whole.rest_names h.rest)

theorem giveName (name : String) (c : ContainerId) : S.Worlds (w.giveName name c) (w'.giveName name c) := by
  have forgot := h.forget name
  rw [World.giveName, World.giveName, Whole.names forgot.rest]
  exact forgot.update (Whole.rest_names forgot.rest)

/-! ### New containers -/

theorem add {x x' : Container} (related : S.Containers w.containers.length x x') :
    (w'.add x').1 = (w.add x).1 ∧ S.Worlds (w.add x).2 (w'.add x').2 := by
  refine ⟨h.length, h.tickets, fun e _ => ?_, fun e _ => ?_, Whole.rest_add x x' h.rest⟩
  · simp only [World.add, List.length_append, List.length_singleton, h.length]
  · rw [World.container_add, World.container_add, h.length]
    split
    · next new => exact new ▸ related
    · exact h.container e

theorem openRoot (name : String) : S.Worlds (w.openRoot name) (w'.openRoot name) := by
  obtain ⟨number, added⟩ := h.add (containers_new (Whole.new h.rest))
  unfold World.openRoot
  dsimp only
  rw [number]
  exact added.giveName name _

theorem openScope (c : ContainerId) : (w'.openScope c).1 = (w.openScope c).1 ∧ S.Worlds (w.openScope c).2 (w'.openScope c).2 :=
  h.add ((h.container c).scopeOf (Whole.new h.rest) c)

theorem addHook (c : ContainerId) (inScopes : Bool) (key : Key) (hook : Hook) :
    S.Worlds (w.addHook c inScopes key hook) (w'.addHook c inScopes key hook) := by
  unfold World.addHook
  rw [h.chain (Whole.covers c), h.unalias fun e _ => Whole.covers e]
  exact h.modifyCallbacks (Whole.covers c) fun x => x.addAfterResolving inScopes _ hook

/-! ### Containers that nobody can reach -/

theorem reachable {held held' : List ContainerId} (same : ∀ c, c ∈ held' ↔ c ∈ held) (c : ContainerId) :
    c ∈ w'.reachable held' ↔ c ∈ w.reachable held := by
  have chain : w'.chain = w.chain := funext fun c => h.chain (Whole.covers c)
  simp only [World.reachable, List.mem_flatMap, List.mem_append, Whole.names h.rest, same, chain]

theorem unreachable {held held' : List ContainerId} (same : ∀ c, c ∈ held' ↔ c ∈ held) :
    w'.unreachable held' = w.unreachable held := by
  have reachable : ∀ c, (w'.reachable held').contains c = (w.reachable held).contains c :=
    fun c => Bool.eq_iff_iff.2 (by simpa using h.reachable same c)
  have live : ∀ c, (w'.container c).live = (w.container c).live := fun c => (h.container c).live
  unfold World.unreachable
  simp only [h.length, reachable, live]

theorem close (clear : ∀ key, S.Clear c key) : S.Worlds (w.close c) (w'.close c) := by
  have left := (h.container c).callbacks.terminating
  have ended : S.Worlds (w.modify c fun x => { bases := x.bases, live := false })
      (w'.modify c fun x => { bases := x.bases, live := false }) := h.modify (Whole.covers c) fun x => x.ended clear
  unfold World.close
  refine ended.update (Whole.rest_orphans ?_ ended.rest)
  generalize (w.container c).callbacks.terminating = ts, (w'.container c).callbacks.terminating = ts' at left
  cases left with
  | nil => exact Whole.orphans h.rest
  | cons first others => exact List.rel_append (Whole.orphans h.rest) (.cons (.cons first others) .nil)

theorem closeAll (cs : List ContainerId) (clear : ∀ c ∈ cs, ∀ key, S.Clear c key) :
    S.Worlds (cs.foldl World.close w) (cs.foldl World.close w') := by
  induction cs generalizing w w' with
  | nil => exact h
  | cons c cs ih => exact ih (h.close (clear c List.mem_cons_self)) fun d hd => clear d (List.mem_cons_of_mem c hd)

/-- A container with a lock that only the other world has is not ended, since somebody works with it. -/
theorem release {held held' : List ContainerId} (same : ∀ c, c ∈ held' ↔ c ∈ held)
    (kept : ∀ {c key m}, S.reserved c key m → c ∈ held) : S.Worlds (w.release held) (w'.release held') := by
  rw [World.release, World.release, h.unreachable same]
  refine h.closeAll _ fun c unreached key m only => (World.mem_unreachable.1 unreached).2 ?_
  exact List.mem_flatMap.2 ⟨c, List.mem_append_right _ (kept only), List.mem_cons_self⟩

end Worlds

end Correspondence

end Injector
