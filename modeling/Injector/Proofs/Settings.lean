import Injector.Proofs.Turns
import Mathlib.Data.List.Nodup
/-!
# The order of settings

Before it is used a container is set up: keys are bound, instances put by hand, names made aliases,
and hooks registered. `World.setAll_eq_iff`: on a root, two orders of the same settings come to the
same world exactly if the same hooks come to stand under each key, in the same order. Between two
operations a session is no more than its world, so that nothing done later tells such orders apart. A
hook stands under what its key is an alias of when the hook is registered; all else does not depend on
the order. In `hook_before_its_alias` a hook is registered for a name that is made an alias only later,
and is not called for the key.
-/
namespace Injector

/-! ## What is written once may be written in any order -/

/-- Rows of different keys, each of which may change places with any other, may be written in any order. -/
theorem foldl_rows_perm {κ ν σ : Type} {f : σ → κ × ν → σ} {rows rows' : List (κ × ν)} (perm : rows.Perm rows')
    (distinct : (rows.map Prod.fst).Nodup) (comm : ∀ s {x y : κ × ν}, x.1 ≠ y.1 → f (f s x) y = f (f s y) x)
    (s : σ) : rows.foldl f s = rows'.foldl f s := by
  refine perm.foldl_eq' (fun x hx y hy s => ?_) s
  by_cases same : x.1 = y.1
  · rw [List.inj_on_of_nodup_map distinct hx hy same]
  · exact comm s same

namespace Table

variable {κ ν : Type} [DecidableEq κ] {k : κ} {v : ν} {rows : List (κ × ν)}

theorem get?_foldl_of_not_mem (h : k ∉ rows.map Prod.fst) (t : Table κ ν) :
    (rows.foldl (fun t row => t.insert row.1 row.2) t).get? k = t.get? k := by
  induction rows generalizing t with
  | nil => rfl
  | cons row rows ih =>
    rw [List.map_cons, List.mem_cons, not_or] at h
    rw [List.foldl_cons, ih h.2, get?_insert_of_ne _ _ (Ne.symm h.1)]

theorem get?_foldl_of_mem (distinct : (rows.map Prod.fst).Nodup) (h : (k, v) ∈ rows) (t : Table κ ν) :
    (rows.foldl (fun t row => t.insert row.1 row.2) t).get? k = some v := by
  induction rows generalizing t with
  | nil => cases h
  | cons row rows ih =>
    rw [List.map_cons, List.nodup_cons] at distinct
    rw [List.foldl_cons]
    rcases List.mem_cons.1 h with rfl | h
    · rw [get?_foldl_of_not_mem distinct.1, get?_insert_self]
    · exact ih distinct.2 h _

end Table

theorem Cache.pin_comm (c : Cache) {k k' : Key} (v v' : Instance) (h : k ≠ k') :
    (c.pin k v).pin k' v' = (c.pin k' v').pin k v := by
  simp [Cache.pin, Table.insert_comm _ _ _ h]

/-! ## Settings -/

/-- What a container is set up with. -/
inductive Setting where
  | bind (key : Key) (source : Source) (lifetime : Lifetime) (finalizer : Option (Script Op))
  /-- An instance is put by hand. -/
  | pin (key : Key) (v : Instance)
  | addAlias (key : Key) (name : String)
  /-- A hook for fresh instances. -/
  | hook (t : Ty) (key : Key) (script : Script Command)

namespace World

/-- Performs a setting on container `c`. -/
def set (p : Program) (c : ContainerId) (w : World) : Setting → World
  | .bind key source lifetime finalizer => (w.instant p c "" (.register (some key) source lifetime finalizer)).2
  | .pin key v => w.modifyCache c fun x => x.pin key v
  | .addAlias key name => (w.instant p c "" (.addAlias key name)).2
  | .hook t key script => (w.instant p c "" (.afterResolving false t key script)).2

/-- Performs settings, one after the other. -/
def setAll (p : Program) (c : ContainerId) (w : World) (l : List Setting) : World := l.foldl (set p c) w

/-- Who puts an instance by hand makes it, and then puts it. -/
theorem instant_pin (p : Program) (c : ContainerId) (w : World) (target : String) (key : Key) (value : Literal) :
    w.instant p c target (.pin (some key) value) =
      (.ok, (w.supplied (value.makeOwn w.saved)).2.set p c (.pin key (w.supplied (value.makeOwn w.saved)).1)) := rfl

end World

/-! ## Settings by kind -/

/-- What a key stands for by aliases. -/
def Key.standsFor (aliases : Table String Key) : Key → Key
  | .name s => (aliases.get? s).getD (.name s)
  | key => key

/-- The hooks that stand under a key. -/
def hooksUnder (key : Key) (hs : List (Key × Hook)) : List Hook :=
  hs.filterMap fun h => if h.1 = key then some h.2 else none

theorem hooksUnder_cons (key : Key) (h : Key × Hook) (hs : List (Key × Hook)) :
    hooksUnder key (h :: hs) = if h.1 = key then h.2 :: hooksUnder key hs else hooksUnder key hs := by
  by_cases here : h.1 = key <;> simp [hooksUnder, here]

theorem hooksUnder_append (key : Key) (hs hs' : List (Key × Hook)) :
    hooksUnder key (hs ++ hs') = hooksUnder key hs ++ hooksUnder key hs' := List.filterMap_append

namespace Setting

/-- The key of a binding, and what is bound. -/
def bound? : Setting → Option (Key × Source × Lifetime × Option (Script Op))
  | .bind key source lifetime finalizer => some (key, source, lifetime, finalizer)
  | _ => none

/-- The key of an instance that is put by hand, and the instance. -/
def pinned? : Setting → Option (Key × Instance)
  | .pin key v => some (key, v)
  | _ => none

/-- The name that is made an alias, and its key. -/
def alias? : Setting → Option (String × Key)
  | .addAlias key name => some (name, key)
  | _ => none

/-- The hooks among settings, each with the key it comes to stand under: what its own key is an alias of by then. -/
def standing (aliases : Table String Key) : List Setting → List (Key × Hook)
  | [] => []
  | .hook t key script :: l => (key.standsFor aliases, ⟨t, script⟩) :: standing aliases l
  | .addAlias key name :: l => standing (aliases.insert name key) l
  | _ :: l => standing aliases l

/-- Whether no key is bound twice, none has two instances put, and no name is made an alias twice. -/
structure Distinct (l : List Setting) : Prop where
  bound : ((l.filterMap bound?).map Prod.fst).Nodup
  pinned : ((l.filterMap pinned?).map Prod.fst).Nodup
  aliases : ((l.filterMap alias?).map Prod.fst).Nodup

/-- The aliases after settings. -/
def aliasesAfter (l : List Setting) (aliases : Table String Key) : Table String Key :=
  (l.filterMap alias?).foldl (fun t row => t.insert row.1 row.2) aliases

variable {aliases : Table String Key} {l : List Setting} {name : String} {key : Key}

theorem standing_append (l l' : List Setting) (aliases : Table String Key) :
    standing aliases (l ++ l') = standing aliases l ++ standing (aliasesAfter l aliases) l' := by
  induction l generalizing aliases with
  | nil => rfl
  | cons e l ih =>
    cases e with
    | hook => exact congrArg (_ :: ·) (ih aliases)
    | bind | pin | addAlias => exact ih _

/-- What a hook adds comes after what stood there when it was registered. -/
theorem hooksUnder_standing (l l' : List Setting) (t : Ty) (k : Key) (script : Script Command) :
    hooksUnder key (standing aliases (l ++ .hook t k script :: l')) = hooksUnder key (standing aliases l) ++
      hooksUnder key ((k.standsFor (aliasesAfter l aliases), ⟨t, script⟩) :: standing (aliasesAfter l aliases) l') := by
  rw [standing_append, hooksUnder_append]
  rfl

/-- A name that is made an alias stands for its key. -/
theorem standsFor_of_alias (distinct : ((l.filterMap alias?).map Prod.fst).Nodup) (h : .addAlias key name ∈ l)
    (aliases : Table String Key) : (Key.name name).standsFor (aliasesAfter l aliases) = key := by
  have row : (name, key) ∈ l.filterMap alias? := List.mem_filterMap.2 ⟨_, h, rfl⟩
  rw [Key.standsFor, aliasesAfter, Table.get?_foldl_of_mem distinct row, Option.getD_some]

/-- A name that is not made an alias stands for what it stood for. -/
theorem standsFor_of_no_alias (h : ∀ key, .addAlias key name ∉ l) (aliases : Table String Key) :
    (Key.name name).standsFor (aliasesAfter l aliases) = (Key.name name).standsFor aliases := by
  have none : name ∉ (l.filterMap alias?).map Prod.fst := by
    intro named
    obtain ⟨⟨_, key⟩, row, rfl⟩ := List.mem_map.1 named
    obtain ⟨e, he, is_alias⟩ := List.mem_filterMap.1 row
    cases e with
    | addAlias =>
      cases is_alias
      exact h key he
    | bind | pin | hook => cases is_alias
  rw [Key.standsFor, aliasesAfter, Table.get?_foldl_of_not_mem none, Key.standsFor]

end Setting

/-! ## Callbacks with more hooks -/

namespace Callbacks

/-- Registers hooks under the keys that they stand under. -/
def addHooks (c : Callbacks) (hs : List (Key × Hook)) : Callbacks :=
  hs.foldl (fun c h => c.addAfterResolving false h.1 h.2) c

theorem addHooks_eq (c : Callbacks) (hs : List (Key × Hook)) :
    c.addHooks hs = { c with afterResolving := (c.addHooks hs).afterResolving } := by
  induction hs generalizing c with
  | nil => rfl
  | cons h hs ih =>
    have head : c.addAfterResolving false h.1 h.2 = { c with afterResolving := addHook c.afterResolving h.1 h.2 } := by
      simp [addAfterResolving]
    rw [addHooks, List.foldl_cons, ← addHooks, head, ih]

theorem hooksOf_addHooks (c : Callbacks) (hs : List (Key × Hook)) (key : Key) :
    (c.addHooks hs).hooksOf key = c.hooksOf key ++ hooksUnder key hs := by
  induction hs generalizing c with
  | nil => exact (List.append_nil _).symm
  | cons h hs ih =>
    rw [addHooks, List.foldl_cons, ← addHooks, ih, hooksUnder_cons]
    by_cases here : h.1 = key <;> simp [hooksOf, addAfterResolving, addHook, Table.get?_insert, here]

/-- A key without new hooks is as before. -/
theorem get?_addHooks (c : Callbacks) (hs : List (Key × Hook)) (key : Key) : (c.addHooks hs).afterResolving.get? key =
    if hooksUnder key hs = [] then c.afterResolving.get? key else some (c.hooksOf key ++ hooksUnder key hs) := by
  induction hs generalizing c with
  | nil => rfl
  | cons h hs ih =>
    rw [addHooks, List.foldl_cons, ← addHooks, ih, hooksUnder_cons]
    by_cases here : h.1 = key <;> by_cases last : hooksUnder key hs = [] <;>
      simp [hooksOf, addAfterResolving, addHook, Table.get?_insert, here, last]

/-- What becomes of callbacks depends on which hooks come under each key, and on their order. -/
theorem addHooks_congr (c : Callbacks) {hs hs' : List (Key × Hook)}
    (same : ∀ key, hooksUnder key hs = hooksUnder key hs') : c.addHooks hs = c.addHooks hs' := by
  have tables : (c.addHooks hs).afterResolving = (c.addHooks hs').afterResolving := by
    ext key : 2
    rw [get?_addHooks, get?_addHooks, same]
  rw [addHooks_eq c hs, addHooks_eq c hs', tables]

end Callbacks

/-! ## What settings come to -/

namespace Container

variable (p : Program)

/-- Performs a setting on a container without a base. -/
def set (x : Container) : Setting → Container
  | .bind key source lifetime finalizer =>
    { x with registry := x.registry.insert key (source.binding p lifetime finalizer) }
  | .pin key v => { x with cache := x.cache.pin key v }
  | .addAlias key name => { x with registry := x.registry.addAlias key name }
  | .hook t key script =>
    { x with callbacks := x.callbacks.addAfterResolving false (key.standsFor x.registry.aliases) ⟨t, script⟩ }

/-- The bindings of a registry with some more. -/
def bindAll (r : Registry) (rows : List (Key × Source × Lifetime × Option (Script Op))) : Registry :=
  rows.foldl (fun r row => r.insert row.1 (row.2.1.binding p row.2.2.1 row.2.2.2)) r

theorem bindAll_aliases (rows : List (Key × Source × Lifetime × Option (Script Op))) (r : Registry)
    (t t' : Table String Key) :
    { bindAll p { r with aliases := t' } rows with aliases := t } = { bindAll p r rows with aliases := t } := by
  induction rows generalizing r with
  | nil => rfl
  | cons row rows ih =>
    have head : ∀ b : Binding, ({ r with aliases := t' } : Registry).insert row.1 b =
        { r.insert row.1 b with aliases := t' } := by
      intro b
      unfold Registry.insert
      dsimp only
      split <;> rfl
    rw [bindAll, List.foldl_cons, head, ← bindAll, ih]
    rfl

/-- What settings come to, taken by kind. -/
theorem setAll_eq (l : List Setting) (x : Container) : l.foldl (set p) x =
    { x with
      registry := { bindAll p x.registry (l.filterMap Setting.bound?) with
        aliases := Setting.aliasesAfter l x.registry.aliases }
      cache := (l.filterMap Setting.pinned?).foldl (fun s row => s.pin row.1 row.2) x.cache
      callbacks := x.callbacks.addHooks (Setting.standing x.registry.aliases l) } := by
  induction l generalizing x with
  | nil => rfl
  | cons e l ih =>
    rw [List.foldl_cons, ih]
    cases e with
    | bind key source lifetime finalizer =>
      simp only [set, Registry.aliases_insert]
      rfl
    | pin key v => rfl
    | addAlias key name =>
      simp only [set, Registry.addAlias, bindAll_aliases]
      rfl
    | hook t key script => rfl

theorem setAll_congr {l l' : List Setting} (perm : l.Perm l') (distinct : Setting.Distinct l) (x : Container)
    (same : ∀ key, hooksUnder key (Setting.standing x.registry.aliases l) =
      hooksUnder key (Setting.standing x.registry.aliases l')) : l.foldl (set p) x = l'.foldl (set p) x := by
  have bound : bindAll p x.registry (l.filterMap Setting.bound?) = bindAll p x.registry (l'.filterMap Setting.bound?) :=
    foldl_rows_perm (perm.filterMap _) distinct.bound (fun r _ _ ne => Registry.insert_comm r _ _ ne) _
  have aliases : Setting.aliasesAfter l x.registry.aliases = Setting.aliasesAfter l' x.registry.aliases :=
    foldl_rows_perm (perm.filterMap _) distinct.aliases (fun t _ _ ne => Table.insert_comm t _ _ ne) _
  have pinned := foldl_rows_perm (f := fun (s : Cache) row => s.pin row.1 row.2) (perm.filterMap Setting.pinned?)
    distinct.pinned (fun s _ _ ne => Cache.pin_comm s _ _ ne) x.cache
  rw [setAll_eq, setAll_eq, bound, aliases, pinned, Callbacks.addHooks_congr _ same]

end Container

namespace World

variable {p : Program} {w : World} {c : ContainerId} {l l' : List Setting} {key : Key} {name : String} {t : Ty}
  {script : Script Command}

theorem modify_modify (w : World) (c : ContainerId) (f g : Container → Container) :
    (w.modify c f).modify c g = w.modify c (g ∘ f) := by
  simp only [modify, List.modify_modify_eq]

theorem modify_congr (opened : c < w.containers.length) {f g : Container → Container}
    (same : f (w.container c) = g (w.container c)) : w.modify c f = w.modify c g := by
  have here : w.container c = w.containers[c] := by simp [container, opened]
  rw [here] at same
  simp only [modify, List.modify_eq_set_getElem?, List.getElem?_eq_getElem opened, Option.map_eq_map, Option.map_some, same]

theorem set_eq (opened : c < w.containers.length) (root : (w.container c).bases = []) (e : Setting) :
    w.set p c e = w.modify c fun x => x.set p e := by
  cases e with
  | bind | pin | addAlias => rfl
  | hook t key script =>
    refine modify_congr opened ?_
    have stands : w.unalias (w.chain c) key = key.standsFor (w.container c).registry.aliases := by
      cases key with
      | type | tagged => rfl
      | name s =>
        rw [chain, root, unalias, List.findSome?_singleton]
        rfl
    simp only [Container.set, stands]

/-- On a root, settings are a change of that one container. -/
theorem setAll_eq (opened : c < w.containers.length) (root : (w.container c).bases = []) (l : List Setting) :
    w.setAll p c l = w.modify c fun x => l.foldl (Container.set p) x := by
  induction l generalizing w with
  | nil =>
    have same : w.containers.modify c (fun x => x) = w.containers := List.modify_id c w.containers
    simp [setAll, modify, same]
  | cons e l ih =>
    rw [setAll, List.foldl_cons, set_eq opened root, ← setAll, ih, modify_modify]
    · rfl
    · rwa [length_containers_modify]
    · rw [container_modify, if_pos ⟨rfl, opened⟩]
      cases e <;> exact root

/-- Under each key the new hooks come after those that stood there. -/
theorem hooksOf_setAll (opened : c < w.containers.length) (root : (w.container c).bases = []) (l : List Setting)
    (key : Key) : ((w.setAll p c l).container c).callbacks.hooksOf key = (w.container c).callbacks.hooksOf key ++
      hooksUnder key (Setting.standing (w.container c).registry.aliases l) := by
  rw [setAll_eq opened root, container_modify, if_pos ⟨rfl, opened⟩, Container.setAll_eq, Callbacks.hooksOf_addHooks]

/-- Settings come to the same exactly if they put the same hooks under each key, in the same order. -/
theorem setAll_eq_of_perm (opened : c < w.containers.length) (root : (w.container c).bases = []) (perm : l.Perm l')
    (distinct : Setting.Distinct l) : w.setAll p c l = w.setAll p c l' ↔
      ∀ key, hooksUnder key (Setting.standing (w.container c).registry.aliases l) =
        hooksUnder key (Setting.standing (w.container c).registry.aliases l') := by
  refine ⟨fun same key => ?_, fun same => ?_⟩
  · have both := hooksOf_setAll (p := p) opened root l key
    rw [same, hooksOf_setAll opened root] at both
    exact (List.append_cancel_left both).symm
  · rw [setAll_eq opened root, setAll_eq opened root]
    exact modify_congr opened (Container.setAll_congr p perm distinct _ same)

/-- A hook for a name is called for the key that the name was made an alias of before. -/
theorem mem_hooksFor_of_alias (opened : c < w.containers.length) (root : (w.container c).bases = [])
    (distinct : ((l.filterMap Setting.alias?).map Prod.fst).Nodup) (before : .addAlias key name ∈ l) :
    ⟨t, script⟩ ∈ ((w.setAll p c (l ++ .hook t (.name name) script :: l')).container c).callbacks.hooksFor key := by
  refine List.mem_append_left _ ?_
  rw [hooksOf_setAll opened root, Setting.hooksUnder_standing, Setting.standsFor_of_alias distinct before, hooksUnder_cons,
    if_pos rfl]
  exact List.mem_append_right _ (List.mem_append_right _ List.mem_cons_self)

/-- A hook for a name that is no alias yet is not one of any other key. -/
theorem hooksFor_of_no_alias (opened : c < w.containers.length) (root : (w.container c).bases = [])
    (never : ∀ key, .addAlias key name ∉ l) (fresh : (w.container c).registry.aliases.get? name = none)
    (other : key ≠ .name name) :
    ((w.setAll p c (l ++ .hook t (.name name) script :: l')).container c).callbacks.hooksFor key =
      ((w.setAll p c (l ++ l')).container c).callbacks.hooksFor key := by
  have stays : (Key.name name).standsFor (Setting.aliasesAfter l (w.container c).registry.aliases) = .name name := by
    rw [Setting.standsFor_of_no_alias never, Key.standsFor, fresh, Option.getD_none]
  have hooks : ∀ key, key ≠ .name name →
      ((w.setAll p c (l ++ .hook t (.name name) script :: l')).container c).callbacks.hooksOf key =
        ((w.setAll p c (l ++ l')).container c).callbacks.hooksOf key := by
    intro key other
    rw [hooksOf_setAll opened root, hooksOf_setAll opened root, Setting.hooksUnder_standing, stays, hooksUnder_cons,
      if_neg (Ne.symm other), Setting.standing_append, hooksUnder_append]
  have plain : key.plain ≠ .name name := by
    cases key with
    | type | tagged => rintro ⟨⟩
    | name => exact other
  rw [Callbacks.hooksFor, Callbacks.hooksFor, hooks key other, hooks key.plain plain]

/-- On a root, two orders of the same settings come to the same exactly if the same hooks come to stand under each key, in
the same order. A hook for a name is then called for the key that the name was made an alias of before. If the name is made
an alias only later, no other key has that hook. -/
theorem setAll_eq_iff (opened : c < w.containers.length) (root : (w.container c).bases = [])
    (distinct : Setting.Distinct l) :
    (∀ l', l.Perm l' → (w.setAll p c l = w.setAll p c l' ↔
      ∀ key, hooksUnder key (Setting.standing (w.container c).registry.aliases l) =
        hooksUnder key (Setting.standing (w.container c).registry.aliases l'))) ∧
    ∀ {l₁ l₂ t name script}, l = l₁ ++ .hook t (.name name) script :: l₂ →
      (∀ key, .addAlias key name ∈ l₁ → ⟨t, script⟩ ∈ ((w.setAll p c l).container c).callbacks.hooksFor key) ∧
      ((∀ key, .addAlias key name ∉ l₁) → (w.container c).registry.aliases.get? name = none → ∀ key, key ≠ .name name →
        ((w.setAll p c l).container c).callbacks.hooksFor key =
          ((w.setAll p c (l₁ ++ l₂)).container c).callbacks.hooksFor key) := by
  refine ⟨fun l' perm => setAll_eq_of_perm opened root perm distinct, ?_⟩
  rintro l₁ l₂ t name script rfl
  refine ⟨fun key before => ?_, fun never fresh key other => hooksFor_of_no_alias opened root never fresh other⟩
  have once := distinct.aliases
  rw [List.filterMap_append, List.map_append] at once
  exact mem_hooksFor_of_alias opened root once.of_append_left before

/-- A constructor for `A`, an alias of `A`, a hook for the alias, and a `B` that is put by hand. -/
def fewSettings : List Setting := [
  .bind (.type (.declared "A")) (.function "plain" true) .singleton none,
  .addAlias (.type (.declared "A")) "n",
  .hook .text (.name "n") ⟨"notify", []⟩,
  .pin (.type (.declared "B")) ⟨0, .object "B" 0⟩]

/-- The constructor may as well be registered last. The hook is called for the `A`. -/
theorem constructor_set_last : Setting.Distinct fewSettings ∧ fewSettings.Perm (fewSettings.rotate 1) ∧
    (({} : World).openRoot "root").setAll {} 0 fewSettings = (({} : World).openRoot "root").setAll {} 0 (fewSettings.rotate 1) ∧
    ⟨.text, ⟨"notify", []⟩⟩ ∈ (((({} : World).openRoot "root").setAll {} 0 fewSettings).container 0).callbacks.hooksFor
      (.type (.declared "A")) := by
  have distinct : Setting.Distinct fewSettings := ⟨by decide, by decide, by decide⟩
  have orders := setAll_eq_iff (p := {}) (w := ({} : World).openRoot "root") (c := 0) (by decide) rfl distinct
  have around : fewSettings =
      fewSettings.take 2 ++ .hook .text (.name "n") ⟨"notify", []⟩ :: fewSettings.drop 3 := rfl
  have perm : fewSettings.Perm (fewSettings.rotate 1) := (List.perm_append_singleton _ fewSettings.tail).symm
  exact ⟨distinct, perm, (orders.1 _ perm).2 fun _ => rfl, (orders.2 around).1 _ (.tail _ (.head _))⟩

end World

namespace System

/-! ## A hook for a name before the name is an alias -/

/-- Registers a hook for a name. -/
def hookForName : Op := .on "root" (.afterResolving false .text (.name "n") ⟨"notify", []⟩)

/-- Makes the name an alias. -/
def nameForA : Op := .on "root" (.addAlias (.type (.declared "A")) "n")

/-- The root has a constructor for `A`, and is asked for `A` by the name. -/
def askByName : List Op := [
  .on "root" (.register (some (.type (.declared "A"))) (.function "plain" true) .singleton none),
  .lasting ⟨"", "root", false⟩ (.get none (.name "n") false none)]

/-- The hook is registered after the alias. -/
def aliasFirst : Run {} := .ofOps {} "root" (nameForA :: hookForName :: askByName)

/-- The hook is registered before the alias. -/
def hookFirst : Run {} := .ofOps {} "root" (hookForName :: nameForA :: askByName)

/-- What the root makes of `A`. -/
def madeText : Instance := ⟨0, .text "S#1"⟩

/-- Both get the same instance by the name. The hook that was registered before the alias is not called with it. -/
theorem hook_before_its_alias : (hookForName :: nameForA :: askByName).Perm (nameForA :: hookForName :: askByName) ∧
    (aliasFirst.state 22).tasks[3]? =
      some ⟨.answer, .give (k := .answer) (.ok madeText), .cons (.deliver 0 none none) .nil⟩ ∧
    (hookFirst.state 22).tasks[3]? =
      some ⟨.answer, .give (k := .answer) (.ok madeText), .cons (.deliver 0 none none) .nil⟩ ∧
    (aliasFirst.state 22).world.log = [.built "plain" madeText [], .hook "notify" madeText false] ∧
    (hookFirst.state 22).world.log = [.built "plain" madeText []] :=
  ⟨.swap _ _ _, rfl, rfl, rfl, rfl⟩

end System

end Injector
