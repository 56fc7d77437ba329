import Injector.Task
/-!
# Histories of callbacks

What is noted of a run, oldest first (`Mark`), and what a history says that a container has: what
it has left to do at its end (`due`), its hooks (`hooks`), and what it passes on to the scopes that
are opened on it. Each is read off the history mark by mark, by what came after the mark.

`Callbacks.Follows` says that the callbacks of a container are what the history says. It has
one lemma for each kind of mark.
-/
namespace Injector

/-- What is noted of a run. -/
inductive Mark where
  /-- A scope is opened on a container. -/
  | opened (base scope : ContainerId)
  /-- A callback for the end is registered with a container. -/
  | callback (c : ContainerId) (inScopes : Bool) (s : Script Op)
  /-- A hook is registered with a container, under what its key stands for there. -/
  | hook (c : ContainerId) (inScopes : Bool) (key : Key) (h : Hook)
  /-- An instance that a container has built is recorded. -/
  | built (b : Build) (v : Instance)
  /-- A hook of a container is called with an instance. -/
  | called (c : ContainerId) (inScope : Bool) (h : Hook) (v : Instance)
  /-- A container is terminated. -/
  | terminated (c : ContainerId)

namespace Mark

/-- Whether a mark is that of a termination of `c`. -/
def ends (c : ContainerId) : Mark → Bool
  | .terminated d => d == c
  | _ => false

/-- Whether a mark is that of the opening of `c`. -/
def opens (c : ContainerId) : Mark → Bool
  | .opened _ d => d == c
  | _ => false

/-- The container whose callbacks a mark is about. -/
def about : Mark → Option ContainerId
  | .opened _ c | .callback c _ _ | .hook c _ _ _ | .terminated c => some c
  | .built b _ => some b.container
  | .called _ _ _ _ => none

/-- The containers that a mark is about or opens something on. -/
def containers : Mark → List ContainerId
  | .opened b c => [b, c]
  | m => m.about.toList

theorem about_of_opens {c : ContainerId} (m : Mark) (h : m.opens c = true) : m.about = some c := by
  cases m with
  | opened => exact congrArg some (eq_of_beq h)
  | callback | hook | built | called | terminated => cases h

/-- A mark about other containers neither opens nor ends one. -/
theorem closed_of_about {c : ContainerId} {m : Mark} (other : m.about ≠ some c) : m.opens c = false ∧ m.ends c = false := by
  cases m <;> simp_all [about, opens, ends]

theorem mem_containers {c : ContainerId} (m : Mark) (h : m.about = some c) : c ∈ m.containers := by
  cases m <;> simp_all [containers, about]

theorem containers_of_closed {c : ContainerId} (m : Mark) (h : m.about = some c) (closed : m.opens c = false) :
    m.containers = [c] := by
  cases m <;> simp_all [containers, about, opens]

/-- What a call of a hook tells: nothing, if the hook is for another type. -/
def event? : Mark → Option Event
  | .called _ inScope h v => if h.ty = v.ty then some (.hook h.script.id v inScope) else none
  | _ => none

end Mark

namespace History

variable {α β : Type}

/-! ## What a history says -/

/-- Whether `c` is a scope below `d`, and all scopes on the way from `d` to `c`, also `c`, are opened in these marks. -/
def inherits (d c : ContainerId) : List Mark → Bool
  | [] => false
  | .opened b e :: after => (b == d && (e == c || inherits e c after)) || inherits d c after
  | _ :: after => inherits d c after

/-- Whether container `c`, which may be a scope, has what was registered with `d`, given what came after. What is for scopes
is for `c` itself if `c` is a scope, or inherits it. -/
def isFor (c : ContainerId) (scope : Bool) (d : ContainerId) (inScopes : Bool) (after : List Mark) : Bool :=
  if d = c then !inScopes || scope else inScopes && inherits d c after

/-- Whether container `c` passes what was registered with `d` on to scopes. -/
def isPassedOn (c d : ContainerId) (inScopes : Bool) (after : List Mark) : Bool :=
  inScopes && (d == c || inherits d c after)

/-- What the marks of a history come to, each given what came after it. -/
def collect (f : Mark → List Mark → Option α) : List Mark → List α
  | [] => []
  | m :: after => (f m after).toList ++ collect f after

/-- What a mark leaves to `c` to do at its end. -/
def leaves (c : ContainerId) (scope : Bool) : Mark → List Mark → Option Teardown
  | .callback d inScopes s, after => if isFor c scope d inScopes after then some (.callback s) else none
  | .built b v, _ => if b.container = c then b.finalizer.map (.finalize · v) else none
  | _, _ => none

/-- The callback for the end that `c` passes on to scopes by a mark. -/
def passesCallback (c : ContainerId) : Mark → List Mark → Option (Script Op)
  | .callback d inScopes s, after => if isPassedOn c d inScopes after then some s else none
  | _, _ => none

/-- The hook that `c` has for a key by a mark. -/
def hasHook (c : ContainerId) (scope : Bool) (key : Key) : Mark → List Mark → Option Hook
  | .hook d inScopes key' h, after => if key' = key ∧ isFor c scope d inScopes after = true then some h else none
  | _, _ => none

/-- The hook for a key that `c` passes on to scopes by a mark. -/
def passesHook (c : ContainerId) (key : Key) : Mark → List Mark → Option Hook
  | .hook d inScopes key' h, after => if key' = key ∧ isPassedOn c d inScopes after = true then some h else none
  | _, _ => none

/-- What container `c` has to do at its end, in the order of the history: all that was left to it since it was last
terminated. -/
def due (c : ContainerId) (scope : Bool) (H : List Mark) : List Teardown :=
  collect (fun m after => if after.any (Mark.ends c) then none else leaves c scope m after) H

/-- What was registered with `c` itself, and what it built, in the order of the history. -/
def own (c : ContainerId) (scope : Bool) (H : List Mark) : List Teardown := H.filterMap (leaves c scope · [])

/-- The callbacks for the end that `c` passes on to scopes. -/
def callbacksForScopes (c : ContainerId) (H : List Mark) : List (Script Op) := collect (passesCallback c) H

/-- The hooks that container `c` has for a key. -/
def hooks (c : ContainerId) (scope : Bool) (key : Key) (H : List Mark) : List Hook := collect (hasHook c scope key) H

/-- The hooks for a key that were registered with `c` itself. -/
def ownHooks (c : ContainerId) (scope : Bool) (key : Key) (H : List Mark) : List Hook :=
  H.filterMap (hasHook c scope key · [])

/-- The hooks for a key that `c` passes on to scopes. -/
def hooksForScopes (c : ContainerId) (key : Key) (H : List Mark) : List Hook := collect (passesHook c key) H

/-! ## One more mark -/

variable {f g : Mark → List Mark → Option α} {H after : List Mark} {x : Mark} {b c d : ContainerId}

/-- If one more mark changes what the others come to from `f` to `g`. -/
theorem collect_concat (same : ∀ m ∈ H, ∀ after, (∀ a ∈ after, a ∈ H) → f m (after ++ [x]) = g m after) :
    collect f (H ++ [x]) = collect g H ++ (f x []).toList := by
  induction H with
  | nil => simp [collect]
  | cons m H ih =>
    have rest := ih fun m' hm after sub =>
      same m' (List.mem_cons_of_mem _ hm) after fun a ha => List.mem_cons_of_mem _ (sub a ha)
    rw [List.cons_append, collect, collect, rest, List.append_assoc,
      same m List.mem_cons_self H fun a ha => List.mem_cons_of_mem _ ha]

theorem collect_map (f : Mark → List Mark → Option α) (k : α → β) (H : List Mark) :
    collect (fun m after => (f m after).map k) H = (collect f H).map k := by
  induction H with
  | nil => rfl
  | cons m H ih =>
    rw [collect, collect, ih, List.map_append]
    cases f m H <;> rfl

theorem exists_of_mem_collect {a : α} (h : a ∈ collect f H) : ∃ m ∈ H, ∃ after, f m after = some a := by
  induction H with
  | nil => cases h
  | cons m H ih =>
    rcases List.mem_append.1 h with here | later
    · exact ⟨m, List.mem_cons_self, H, Option.mem_toList.1 here⟩
    · obtain ⟨m', hm, found⟩ := ih later
      exact ⟨m', List.mem_cons_of_mem _ hm, found⟩

theorem collect_eq_nil (none : ∀ m ∈ H, ∀ after, (∀ a ∈ after, a ∈ H) → f m after = none) : collect f H = [] := by
  induction H with
  | nil => rfl
  | cons m H ih =>
    rw [collect, none m List.mem_cons_self H fun a ha => List.mem_cons_of_mem _ ha, ih fun m' hm after sub =>
      none m' (List.mem_cons_of_mem _ hm) after fun a ha => List.mem_cons_of_mem _ (sub a ha)]
    rfl

theorem inherits_concat_opened (d c b e : ContainerId) (after : List Mark) : inherits d c (after ++ [.opened b e]) =
    (inherits d c after || e == c && (b == d || inherits d b after)) := by
  induction after generalizing d with
  | nil => simp [inherits, Bool.and_comm]
  | cons m after ih =>
    cases m with
    | opened b' e' =>
      simp only [List.cons_append, inherits, ih, BEq.comm (a := b) (b := e')]
      -- The mark counts if `d` is its base; the new one, if `c` is its scope.
      cases b' == d <;> cases e == c <;> simp [Bool.or_assoc, Bool.or_left_comm, Bool.or_comm]
    | callback | hook | built | called | terminated => exact ih d

/-- Only the opening of a scope lets it inherit. -/
theorem inherits_concat (other : x.opens c = false) (d : ContainerId) (after : List Mark) :
    inherits d c (after ++ [x]) = inherits d c after := by
  cases x with
  | opened b e =>
    have ne : (e == c) = false := other
    rw [inherits_concat_opened, ne, Bool.false_and, Bool.or_false]
  | callback | hook | built | called | terminated =>
    induction after generalizing d with
    | nil => rfl
    | cons m after ih => cases m <;> simp [inherits, ih]

theorem inherits_append {H' : List Mark} (closed : ∀ m ∈ H', m.opens c = false) (d : ContainerId) :
    inherits d c (H ++ H') = inherits d c H := by
  induction H' generalizing H with
  | nil => rw [List.append_nil]
  | cons m H' ih =>
    rw [← List.singleton_append, ← List.append_assoc, ih fun m' hm => closed m' (List.mem_cons_of_mem _ hm),
      inherits_concat (closed m List.mem_cons_self)]

/-- Only what was opened inherits. -/
theorem inherits_of_unopened (unopened : ∀ m ∈ after, m.opens c = false) (d : ContainerId) : inherits d c after = false :=
  inherits_append (H := []) unopened d

theorem isFor_of_unopened {d : ContainerId} (other : d ≠ c) (unopened : inherits d c after = false) (scope inScopes : Bool) :
    isFor c scope d inScopes after = false := by
  rw [isFor, if_neg other, unopened, Bool.and_false]

theorem isPassedOn_of_unopened {d : ContainerId} (other : d ≠ c) (unopened : inherits d c after = false) (inScopes : Bool) :
    isPassedOn c d inScopes after = false := by
  rw [isPassedOn, beq_false_of_ne other, unopened, Bool.or_false, Bool.and_false]

/-! ### Marks that do not open a container -/

section
variable (other : x.opens c = false)
include other

theorem isFor_concat (scope : Bool) (d : ContainerId) (inScopes : Bool) (after : List Mark) :
    isFor c scope d inScopes (after ++ [x]) = isFor c scope d inScopes after := by
  rw [isFor, isFor, inherits_concat other]

theorem isPassedOn_concat (d : ContainerId) (inScopes : Bool) (after : List Mark) :
    isPassedOn c d inScopes (after ++ [x]) = isPassedOn c d inScopes after := by
  rw [isPassedOn, isPassedOn, inherits_concat other]

theorem due_concat (lasting : x.ends c = false) (scope : Bool) (H : List Mark) :
    due c scope (H ++ [x]) = due c scope H ++ (leaves c scope x []).toList := by
  refine collect_concat fun m _ after _ => ?_
  cases m <;> simp [leaves, isFor_concat other, lasting]

theorem callbacksForScopes_concat (H : List Mark) :
    callbacksForScopes c (H ++ [x]) = callbacksForScopes c H ++ (passesCallback c x []).toList := by
  refine collect_concat fun m _ after _ => ?_
  cases m <;> simp [passesCallback, isPassedOn_concat other]

theorem hooks_concat (scope : Bool) (key : Key) (H : List Mark) :
    hooks c scope key (H ++ [x]) = hooks c scope key H ++ (hasHook c scope key x []).toList := by
  refine collect_concat fun m _ after _ => ?_
  cases m <;> simp [hasHook, isFor_concat other]

theorem hooksForScopes_concat (key : Key) (H : List Mark) :
    hooksForScopes c key (H ++ [x]) = hooksForScopes c key H ++ (passesHook c key x []).toList := by
  refine collect_concat fun m _ after _ => ?_
  cases m <;> simp [passesHook, isPassedOn_concat other]

end

/-! ## Later marks -/

/-- Hooks that come later are a container's own. -/
theorem hooks_append {H' : List Mark} (closed : ∀ m ∈ H', m.opens c = false) (scope : Bool) (key : Key) (H : List Mark) :
    hooks c scope key (H ++ H') = hooks c scope key H ++ ownHooks c scope key H' := by
  induction H' generalizing H with
  | nil => simp [ownHooks]
  | cons m H' ih =>
    have rest := ih (fun m' hm => closed m' (List.mem_cons_of_mem _ hm)) (H ++ [m])
    rw [List.append_assoc, hooks_concat (closed m List.mem_cons_self), List.append_assoc] at rest
    rw [← List.singleton_append, rest, ownHooks, ownHooks, List.filterMap_append]
    cases h : hasHook c scope key m [] <;> simp [h]

/-- What was left since a container was opened or last terminated is its own. -/
theorem due_append {H' : List Mark} (since : ∀ m ∈ H', m.opens c = false ∧ m.ends c = false) (scope : Bool) (H : List Mark) :
    due c scope (H ++ H') = due c scope H ++ own c scope H' := by
  induction H' generalizing H with
  | nil => simp [own]
  | cons m H' ih =>
    obtain ⟨closed, lasting⟩ := since m List.mem_cons_self
    have rest := ih (fun m' hm => since m' (List.mem_cons_of_mem _ hm)) (H ++ [m])
    rw [List.append_assoc, due_concat closed lasting, List.append_assoc] at rest
    rw [← List.singleton_append, rest, own, own, List.filterMap_append]
    cases h : leaves c scope m [] <;> simp [h]

/-- What is to be finalized was built. -/
theorem built_of_due {scope : Bool} {f : Finalizer} {v : Instance} (h : .finalize f v ∈ due c scope H) :
    ∃ b, .built b v ∈ H ∧ b.finalizer = some f := by
  obtain ⟨m, hm, after, left⟩ := exists_of_mem_collect h
  cases m with
  | built b v' =>
    simp only [leaves] at left
    split at left
    · cases left
    · split at left
      · obtain ⟨f', hf, same⟩ := Option.map_eq_some_iff.1 left
        cases same
        exact ⟨b, hm, hf⟩
      · cases left
  | callback d inScopes s =>
    simp only [leaves] at left
    split at left
    · cases left
    · split at left <;> cases left
  | opened | hook | called | terminated => simp [leaves] at left

/-- With its termination nothing is left of what was. -/
theorem due_terminated (c : ContainerId) (scope : Bool) (H : List Mark) : due c scope (H ++ [.terminated c]) = [] := by
  have ends : ∀ after : List Mark, (after ++ [Mark.terminated c]).any (Mark.ends c) = true := by simp [Mark.ends]
  rw [due, collect_concat (g := fun _ _ => none) fun m _ after _ => by rw [ends]; rfl,
    collect_eq_nil fun _ _ _ _ => rfl]
  rfl

/-- Marks about other containers leave nothing. -/
theorem own_others {H' : List Mark} (other : ∀ m ∈ H', m.about ≠ some c) (scope : Bool) : own c scope H' = [] := by
  rw [own, List.filterMap_eq_nil_iff]
  intro m hm
  have here := other m hm
  cases m <;> simp_all [Mark.about, leaves, isFor, inherits]

/-- Marks about other containers leave what is due. -/
theorem due_others {H' : List Mark} (other : ∀ m ∈ H', m.about ≠ some c) (scope : Bool) :
    due c scope (H ++ H') = due c scope H := by
  rw [due_append fun m hm => Mark.closed_of_about (other m hm), own_others other, List.append_nil]

section
variable (new : ∀ m ∈ H, m.about ≠ some c)
include new

/-- A scope inherits what its base inherits, and from its base. -/
theorem inherits_opened (sub : ∀ m ∈ after, m ∈ H) (d : ContainerId) :
    inherits d c (after ++ [.opened b c]) = (d == b || inherits d b after) := by
  rw [inherits_concat_opened, inherits_of_unopened fun a ha => (Mark.closed_of_about (new a (sub a ha))).1,
    beq_self_eq_true, Bool.true_and, Bool.false_or, BEq.comm]

/-- What is not of the scope itself, it has if its base passes it on. -/
theorem isFor_opened (sub : ∀ m ∈ after, m ∈ H) (other : d ≠ c) (inScopes : Bool) :
    isFor c true d inScopes (after ++ [.opened b c]) = isPassedOn b d inScopes after := by
  rw [isFor, if_neg other, inherits_opened new sub, isPassedOn]

theorem isPassedOn_opened (sub : ∀ m ∈ after, m ∈ H) (other : d ≠ c) (inScopes : Bool) :
    isPassedOn c d inScopes (after ++ [.opened b c]) = isPassedOn b d inScopes after := by
  rw [isPassedOn, beq_false_of_ne other, Bool.false_or, inherits_opened new sub, isPassedOn]

/-- A new scope has the hooks that its base passes on. -/
theorem hooks_opened (key : Key) : hooks c true key (H ++ [.opened b c]) = hooksForScopes b key H := by
  rw [hooks, collect_concat fun m hm after sub => ?_]
  · exact List.append_nil _
  · have other := new m hm
    cases m with
    | hook d inScopes key' s =>
      rw [hasHook, isFor_opened new sub fun same => other (congrArg some same), passesHook]
    | opened | built | callback | called | terminated => rfl

/-- A new scope has left to do what its base passes on. -/
theorem due_opened : due c true (H ++ [.opened b c]) = (callbacksForScopes b H).map .callback := by
  have unended : ∀ after : List Mark, (∀ a ∈ after, a ∈ H) → (after ++ [Mark.opened b c]).any (Mark.ends c) = false := by
    intro after sub
    rw [List.any_append, Bool.or_eq_false_iff, List.any_eq_false]
    exact ⟨fun a ha => Bool.eq_false_iff.1 (Mark.closed_of_about (new a (sub a ha))).2, rfl⟩
  rw [callbacksForScopes, ← collect_map, due, collect_concat fun m hm after sub => ?_]
  · exact List.append_nil _
  · rw [unended after sub, if_neg Bool.false_ne_true]
    have other := new m hm
    cases m with
    | callback d inScopes s =>
      rw [leaves, isFor_opened new sub fun same => other (congrArg some same), passesCallback]
      split <;> rfl
    | built b' v => exact if_neg fun same => other (congrArg some same)
    | opened | hook | called | terminated => rfl

end

end History

namespace Callbacks

open History

/-- Whether callbacks are what a history says of container `c`. -/
structure Follows (x : Callbacks) (c : ContainerId) (scope : Bool) (H : List Mark) : Prop where
  inScope : x.inScope = scope
  terminating : x.terminating = due c scope H
  forScopes : x.terminatingForScopes = callbacksForScopes c H
  hooks : ∀ key, x.hooksOf key = hooks c scope key H
  hooksForScopes : ∀ key, (x.afterResolvingForScopes.get? key).getD [] = hooksForScopes c key H

namespace Follows

variable {x : Callbacks} {b c : ContainerId} {scope : Bool} {H : List Mark} {m : Mark}

/-- A mark about another container, or none. -/
theorem other (h : x.Follows c scope H) (other : m.about ≠ some c) : x.Follows c scope (H ++ [m]) := by
  obtain ⟨unopened, -⟩ := Mark.closed_of_about other
  -- By itself the mark comes to nothing.
  constructor
  case inScope => exact h.inScope
  case terminating =>
    rw [due_others (by simpa using other), h.terminating]
  case forScopes =>
    rw [callbacksForScopes_concat unopened, h.forScopes]
    cases m <;> simp_all [Mark.about, passesCallback, isPassedOn, inherits]
  case hooks =>
    intro key
    rw [hooks_concat unopened, h.hooks]
    cases m <;> simp_all [Mark.about, hasHook, isFor, inherits]
  case hooksForScopes =>
    intro key
    rw [hooksForScopes_concat unopened, h.hooksForScopes]
    cases m <;> simp_all [Mark.about, passesHook, isPassedOn, inherits]

theorem others {ms : List Mark} (h : x.Follows c scope H) (other : ∀ m ∈ ms, m.about ≠ some c) :
    x.Follows c scope (H ++ ms) := by
  induction ms generalizing H with
  | nil => exact (List.append_nil H).symm ▸ h
  | cons m ms ih =>
    have := ih (h.other (other m List.mem_cons_self)) fun m' hm => other m' (List.mem_cons_of_mem _ hm)
    rwa [List.append_assoc] at this

/-- A callback for the end is registered. -/
theorem callback (h : x.Follows c scope H) (inScopes : Bool) (s : Script Op) :
    (x.addTerminating inScopes s).Follows c scope (H ++ [.callback c inScopes s]) where
  inScope := h.inScope
  terminating := by
    rw [due_concat rfl rfl, ← h.terminating, addTerminating, h.inScope]
    cases inScopes <;> cases scope <;> simp [leaves, isFor]
  forScopes := by
    rw [callbacksForScopes_concat rfl, ← h.forScopes, addTerminating]
    cases inScopes <;> simp [passesCallback, isPassedOn]
  hooks key := by
    rw [hooks_concat rfl, ← h.hooks]
    exact (List.append_nil _).symm
  hooksForScopes key := by
    rw [hooksForScopes_concat rfl, ← h.hooksForScopes]
    exact (List.append_nil _).symm

/-- The hooks of a key once a hook is added for another or the same. -/
theorem getD_addHook (hooks : Table Key (List Hook)) (key key' : Key) (h : Hook) :
    ((addHook hooks key h).get? key').getD [] = (hooks.get? key').getD [] ++ if key = key' then [h] else [] := by
  by_cases same : key = key'
  · subst same
    simp [addHook]
  · simp [addHook, Table.get?_insert, same]

/-- A hook is registered. -/
theorem hook (h : x.Follows c scope H) (inScopes : Bool) (key : Key) (new : Hook) :
    (x.addAfterResolving inScopes key new).Follows c scope (H ++ [.hook c inScopes key new]) where
  inScope := h.inScope
  terminating := by
    rw [due_concat rfl rfl, ← h.terminating]
    exact (List.append_nil _).symm
  forScopes := by
    rw [callbacksForScopes_concat rfl, ← h.forScopes]
    exact (List.append_nil _).symm
  hooks key' := by
    rw [hooks_concat rfl, ← h.hooks, hooksOf, addAfterResolving, h.inScope]
    cases inScopes <;> cases scope <;> simp [hooksOf, getD_addHook, hasHook, isFor] <;> split <;> rfl
  hooksForScopes key' := by
    rw [hooksForScopes_concat rfl, ← h.hooksForScopes, addAfterResolving]
    cases inScopes with
    | false => simp [passesHook, isPassedOn]
    | true =>
      simp [getD_addHook, passesHook, isPassedOn]
      split <;> rfl

/-- A built instance is recorded. -/
theorem built (h : x.Follows c scope H) {b : Build} (here : b.container = c) (v : Instance) {x' : Callbacks}
    (recorded : x' = { x with terminating := x.terminating ++ (b.finalizer.map (.finalize · v)).toList }) :
    x'.Follows c scope (H ++ [.built b v]) where
  inScope := by rw [recorded]; exact h.inScope
  terminating := by
    rw [due_concat rfl rfl, ← h.terminating, recorded]
    simp [leaves, here]
  forScopes := by
    rw [callbacksForScopes_concat rfl, ← h.forScopes, recorded]
    exact (List.append_nil _).symm
  hooks key := by
    rw [hooks_concat rfl, ← h.hooks, recorded]
    exact (List.append_nil _).symm
  hooksForScopes key := by
    rw [hooksForScopes_concat rfl, ← h.hooksForScopes, recorded]
    exact (List.append_nil _).symm

/-- A container is terminated. -/
theorem terminated (h : x.Follows c scope H) : x.clearTerminating.Follows c scope (H ++ [.terminated c]) where
  inScope := h.inScope
  terminating := (due_terminated c scope H).symm
  forScopes := by
    rw [callbacksForScopes_concat rfl, ← h.forScopes]
    exact (List.append_nil _).symm
  hooks key := by
    rw [hooks_concat rfl, ← h.hooks]
    exact (List.append_nil _).symm
  hooksForScopes key := by
    rw [hooksForScopes_concat rfl, ← h.hooksForScopes]
    exact (List.append_nil _).symm

/-- A new container has nothing yet. -/
theorem new (new : ∀ m ∈ H, m.about ≠ some c) : ({} : Callbacks).Follows c false H := by
  -- No mark is about the container, and it is not a scope below others.
  have nothing : ∀ {α : Type} {f : Mark → List Mark → Option α},
      (∀ m after, m.about ≠ some c → (∀ d, inherits d c after = false) → f m after = none) → collect f H = [] :=
    fun none => collect_eq_nil fun m hm after sub =>
      none m after (new m hm) (inherits_of_unopened fun a ha => (Mark.closed_of_about (new a (sub a ha))).1)
  constructor
  case inScope => rfl
  case terminating =>
    refine (nothing fun m after other unopened => ?_).symm
    split
    · rfl
    · cases m with
      | callback d inScopes s =>
        rw [leaves, isFor_of_unopened (fun same => other (congrArg some same)) (unopened d)]
        rfl
      | built b v => exact if_neg fun same => other (congrArg some same)
      | opened | hook | called | terminated => rfl
  case forScopes =>
    refine (nothing fun m after other unopened => ?_).symm
    cases m with
    | callback d inScopes s =>
      rw [passesCallback, isPassedOn_of_unopened (fun same => other (congrArg some same)) (unopened d)]
      rfl
    | opened | built | hook | called | terminated => rfl
  case hooks =>
    refine fun key => (nothing fun m after other unopened => ?_).symm
    cases m with
    | hook d inScopes key' s =>
      rw [hasHook, isFor_of_unopened (fun same => other (congrArg some same)) (unopened d)]
      exact if_neg fun h => Bool.false_ne_true h.2
    | opened | built | callback | called | terminated => rfl
  case hooksForScopes =>
    refine fun key => (nothing fun m after other unopened => ?_).symm
    cases m with
    | hook d inScopes key' s =>
      rw [passesHook, isPassedOn_of_unopened (fun same => other (congrArg some same)) (unopened d)]
      exact if_neg fun h => Bool.false_ne_true h.2
    | opened | built | callback | called | terminated => rfl

/-- A scope is opened: what its base passes on becomes its own, and it passes the same on. -/
theorem child (h : x.Follows b scope H) (new : ∀ m ∈ H, m.about ≠ some c) :
    x.child.Follows c true (H ++ [.opened b c]) := by
  constructor
  case inScope => rfl
  case terminating => rw [Callbacks.child, h.forScopes, due_opened new]
  case forScopes =>
    rw [Callbacks.child, h.forScopes, callbacksForScopes, callbacksForScopes, collect_concat fun m hm after sub => ?_]
    · exact (List.append_nil _).symm
    · have other := new m hm
      cases m with
      | callback d inScopes s =>
        rw [passesCallback, isPassedOn_opened new sub fun same => other (congrArg some same), passesCallback]
      | opened | built | hook | called | terminated => rfl
  case hooks => exact fun key => (h.hooksForScopes key).trans (hooks_opened new key).symm
  case hooksForScopes =>
    intro key
    rw [History.hooksForScopes, collect_concat fun m hm after sub => ?_]
    · exact (h.hooksForScopes key).trans (List.append_nil _).symm
    · have other := new m hm
      cases m with
      | hook d inScopes key' s =>
        rw [passesHook, isPassedOn_opened new sub fun same => other (congrArg some same), passesHook]
      | opened | built | callback | called | terminated => rfl

end Follows

end Callbacks

end Injector
