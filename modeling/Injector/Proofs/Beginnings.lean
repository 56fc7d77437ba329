import Injector.Proofs.DetouredSystems
import Injector.Proofs.Asking
/-!
# How the build begins and ends

A build that takes the next ticket, for a key that nobody builds, begins at once. The worlds before and after are then
a build apart (`Detour.Begins.apart`), and so is any task that was there before from itself (`Detour.TasksApart.self`).
If the binding is not shared and has neither a finalizer nor hooks, the end of the build only marks the key as resolved,
if there is an instance, and gives the lock back (`Detour.Apart.built`).
-/
namespace Injector

/-! ## Tickets are given out in order -/

/-- A step takes no ticket back, and who is in line or builds after it has one. -/
theorem Task.Does.ticket_lt {p : Program} {held : List ContainerId} {w : World} {t : Task} {st : Step} (h : t.Does p held w st)
    (before : ∀ b ∈ t.locked, b.ticket < w.tickets) :
    w.tickets ≤ st.world.tickets ∧ ∀ b ∈ st.task.locked, b.ticket < st.world.tickets := by
  have grown : w.tickets ≤ st.world.tickets ∧ ∀ b, st.task.line? = some b → b.ticket < st.world.tickets := by
    have plain : ∀ {u : Task}, u.line? = none → ∀ b, u.line? = some b → b.ticket < st.world.tickets := by
      intro u none b line
      rw [none] at line
      cases line
    cases h with
    | calm _ _ edited _ _ after => exact ⟨Nat.le_of_eq (World.KeepsLocks.of_edited edited).tickets.symm, plain after.line⟩
    | makes _ _ _ _ w₁ edits world _ _ line =>
      exact ⟨Nat.le_of_eq (World.Edits.tickets (edits.trans world.edits)).symm, plain line⟩
    | linesUp b _ _ _ _ enters _ _ line =>
      have tickets := World.tickets_of_enter enters
      refine ⟨by omega, fun b' line' => ?_⟩
      obtain rfl := Option.some.inj (line.symm.trans line')
      rw [tickets, ← World.ticket_of_enter enters]
      exact Nat.lt_succ_self _
    | skips _ _ _ _ world _ _ after => exact ⟨Nat.le_of_eq (by rw [world]; rfl), plain after.line⟩
    | begins _ _ _ _ _ edits _ _ after => exact ⟨Nat.le_of_eq edits.tickets.symm, plain after.line⟩
    | aborts _ _ _ world _ _ after => exact ⟨Nat.le_of_eq (by rw [world]; rfl), plain after.line⟩
    | completes b v _ _ _ w₁ edits world _ _ after =>
      have kept : World.KeepsLocks [] w (w.record b v) := .record w b v
      have recorded : (w.record b v).tickets = w.tickets := kept.tickets
      refine ⟨Nat.le_of_eq ?_, plain after.line⟩
      rw [world, ← recorded, ← edits.tickets]
      rfl
    | terminates _ _ _ _ _ w₁ edits _ world _ _ _ after =>
      refine ⟨Nat.le_of_eq ?_, plain after.line⟩
      rw [world, ← edits.tickets]
      rfl
    | finalizes _ _ _ _ world _ _ after => exact ⟨Nat.le_of_eq (by rw [world]; rfl), plain after.line⟩
    | passes _ _ _ _ world _ _ after => exact ⟨Nat.le_of_eq (by rw [world]), plain after.line⟩
  refine ⟨grown.1, fun b hb => ?_⟩
  rcases h.line_or_locked hb with hb | line
  · exact Nat.lt_of_lt_of_le (before b hb) grown.1
  · exact grown.2 b line

/-- The tickets of all builds are given out. -/
theorem System.Reachable.ticket_lt {p : Program} {s : System} (h : Reachable p s) :
    ∀ t ∈ s.tasks, ∀ b ∈ t.locked, b.ticket < s.world.tickets := by
  refine h.invariant (I := fun w ts => ∀ t ∈ ts, ∀ b ∈ t.locked, b.ticket < w.tickets) ?start ?step ?release ?begin ?forget ?renew
  case start => exact fun _ t ht => (List.not_mem_nil ht).elim
  case step =>
    intro s i t st reached before found takes u hu b hb
    obtain ⟨does, opens⟩ := takes.does_of_reachable reached found
    obtain ⟨grown, own⟩ := does.ticket_lt (before t (List.mem_of_getElem? found))
    rcases List.mem_append.1 hu with hu | hu
    · rcases List.mem_or_eq_of_mem_set hu with hu | rfl
      · exact Nat.lt_of_lt_of_le (before u hu b hb) grown
      · exact own b hb
    · obtain ⟨scene, o, rfl, -⟩ := opens.started u hu
      cases hb
  case release =>
    intro w ts before t ht b hb
    have same : (settledWorld w ts).tickets = w.tickets := World.tickets_release w _
    rcases List.mem_append.1 ht with ht | ht
    · exact same ▸ before t ht b hb
    · obtain ⟨left, -, rfl⟩ := List.mem_map.1 ht
      cases hb
  case begin =>
    intro w ts o before t ht b hb
    rcases List.mem_append.1 ht with ht | ht
    · exact before t ht b hb
    · obtain rfl := List.mem_singleton.1 ht
      cases hb
  case forget => exact fun _ before => before
  case renew => exact fun _ t ht => (List.not_mem_nil ht).elim

/-! ## The build begins -/

namespace Locks

variable {l : Locks} {key : Key} {ticket : Nat}

/-- The locks once a key without an entry is built. -/
def taken (l : Locks) (key : Key) (ticket : Nat) : Locks := (l.enter key ticket).2.grant ticket ticket

theorem fst_enter (free : l.entries.get? key = none) : (l.enter key ticket).1 = ticket := by
  rw [enter, free]

theorem entries_taken (free : l.entries.get? key = none) (key' : Key) :
    (l.taken key ticket).entries.get? key' = if key = key' then some ticket else l.entries.get? key' := by
  rw [taken, grant, entries_setMutex, entries_enter, fst_enter free]

theorem mutex_taken (free : l.entries.get? key = none) (m : MutexId) :
    (l.taken key ticket).mutex m = if ticket = m then { holder := some ticket } else l.mutex m := by
  rw [taken, mutex_grant, mutex_enter, mutex_enter, fst_enter free, if_pos rfl, lineFor, if_pos free]
  split
  · simp [Mutex.grant]
  · rfl

end Locks

/-- Whether the build may begin at once: its ticket is the next one, and nobody holds its lock or waits for it. -/
structure Detour.Begins (D : Detour) (w : World) : Prop where
  ticket : D.ticket = w.tickets
  alive : w.Alive D.container
  swept : w.Swept
  made : ∀ {c key m}, (w.container c).locks.entries.get? key = some m → m < w.tickets
  issued : ∀ {c m x}, x ∈ ((w.container c).locks.mutex m).waiting → x < w.tickets
  free : (w.container D.container).locks.entries.get? D.key = none

namespace Detour.Begins

variable {D : Detour} {w w' : World} {held : List ContainerId}

theorem container_of_ne (w : World) {e : ContainerId} (other : e ≠ D.container) :
    ((w.enter D.container D.key).2.2.letIn D.build).container e = w.container e := by
  have other : D.build.container ≠ e := Ne.symm other
  rw [World.letIn, World.modifyLocks, World.container_modify_of_ne _ _ other, World.container_enter, World.modifyLocks]
  exact World.container_modify_of_ne _ _ other

variable (h : D.Begins w)
include h

theorem keeps (k : w.KeepsLocks held w') (alive : w'.Alive D.container) : D.Begins w' where
  ticket := h.ticket.trans k.tickets.symm
  alive := alive
  swept := h.swept.keeps k
  made {c key m} entry := by
    rw [k.tickets]
    rcases k.locks c with e | e <;> rw [e] at entry
    · exact h.made entry
    · cases entry
  issued {c m x} waits := by
    rw [k.tickets]
    rcases k.locks c with e | e <;> rw [e] at waits
    · exact h.issued waits
    · cases waits
  free := by
    rcases k.locks D.container with e | e <;> rw [e]
    · exact h.free
    · rfl

theorem mutexes (c : ContainerId) (m : MutexId) :
    D.correspondence.Mutexes ((w.container c).locks.mutex m) ((w.container c).locks.mutex (D.late m)) := by
  rcases Nat.lt_or_ge m D.ticket with old | new
  · rw [late_of_lt old]
    exact ⟨rfl, List.forall₂_same.2 fun x hx => (late_of_lt (h.ticket ▸ h.issued hx)).symm⟩
  · have gone : ∀ m, w.tickets ≤ m → (w.container c).locks.mutex m = {} := by
      intro m new
      rw [Locks.mutex, h.swept.new new]
      rfl
    rw [late_of_le new, gone m (h.ticket ▸ new), gone (m + 1) (Nat.le_succ_of_le (h.ticket ▸ new))]
    exact ⟨rfl, .nil⟩

theorem entries (c : ContainerId) (key : Key) :
    Option.Rel D.correspondence.tickets ((w.container c).locks.entries.get? key) ((w.container c).locks.entries.get? key) := by
  cases entry : (w.container c).locks.entries.get? key with
  | none => exact .none
  | some m => exact .some (late_of_lt (h.ticket ▸ h.made entry)).symm

theorem enter_eq : w.enter D.container D.key = (D.ticket, D.ticket, (w.enter D.container D.key).2.2) := by
  rw [World.enter_eq, Locks.fst_enter h.free, h.ticket]

theorem container : ((w.enter D.container D.key).2.2.letIn D.build).container D.container =
    { w.container D.container with locks := (w.container D.container).locks.taken D.key D.ticket } := by
  have length := h.alive.1
  rw [World.letIn, World.modifyLocks, World.container_modify, World.container_enter, World.modifyLocks, World.container_modify]
  simp [build, World.enter_eq, World.modifyLocks, length, Locks.taken, h.ticket]

/-- The lock is free, so the build need not wait. -/
theorem mayStart : (w.enter D.container D.key).2.2.mayStart D.build = true := by
  change (((w.enter D.container D.key).2.2.container D.container).locks.mutex D.ticket).grantable D.ticket = true
  rw [World.locks_of_enter h.enter_eq h.alive, if_pos rfl, Locks.mutex_enter, Locks.fst_enter h.free, if_pos h.ticket.symm,
    Locks.lineFor, if_pos h.free, ← h.ticket]
  simp [Mutex.grantable]

/-- Only the lock of the build is new. -/
theorem locks (building : D.building = true) : D.correspondence.LocksOf D.container (w.container D.container).locks
    ((w.container D.container).locks.taken D.key D.ticket) where
  entries key clear := by
    have other : D.key ≠ key := fun same => clear D.ticket ⟨building, rfl, same.symm, rfl⟩
    rw [Locks.entries_taken h.free, if_neg other]
    exact h.entries _ key
  mutexes {m _} := by
    rintro rfl
    rw [Locks.mutex_taken h.free, if_neg (Ne.symm (D.late_ne m))]
    exact h.mutexes _ m
  reserved := by
    rintro _ _ ⟨-, -, rfl, rfl⟩
    rw [Locks.entries_taken h.free, if_pos rfl, Locks.mutex_taken h.free, if_pos rfl]
    exact ⟨rfl, rfl⟩

/-- Worlds are a build apart once the build has begun. -/
theorem apart (building : D.building = true) : D.Apart w ((w.enter D.container D.key).2.2.letIn D.build) where
  tickets := ⟨rfl, Nat.le_of_eq h.ticket⟩
  present e _ := by simp [World.letIn, World.enter_eq, World.modifyLocks]
  containers e _ := by
    by_cases here : e = D.container
    · subst here
      rw [h.container]
      exact containers_of_locks (h.locks building)
    · rw [container_of_ne w here]
      refine containers_of_locks ⟨fun key _ => h.entries e key, ?_, fun only => absurd only.2.1 here⟩
      rintro m _ rfl
      exact h.mutexes e m
  rest :=
    { common := rfl
      present := h.alive.1
      length := by simp [World.letIn, World.enter_eq, World.modifyLocks]
      told := List.forall₂_same.2 fun _ _ => .inl rfl }

end Detour.Begins

/-- Whether a build was in line before, and has nothing to do with the key. -/
structure Detour.Elder (D : Detour) (b : Build) : Prop where
  lock : b.lock < D.ticket
  ticket : b.ticket < D.ticket
  clear : D.Clear b.container b.key

namespace Detour

variable {D : Detour} {base : Stack .answer}

theorem Elder.under_eq {b : Build} (h : D.Elder b) : b.under D [] = b := by
  rw [Build.under, late_of_lt h.lock, late_of_lt h.ticket]
  rfl

theorem StacksApart.self {k : Kind} (above : Stack k) (elder : ∀ b ∈ above.builds, D.Elder b) :
    D.StacksApart base false false above above := by
  induction above with
  | nil => exact .nil rfl
  | cons c below ih =>
    cases c with
    | build b =>
      obtain ⟨first, rest⟩ := List.forall_mem_cons.1 elder
      have same : D.ContsApart false false (.build b) (.build (b.under D [])) := .build b fun _ => first.clear
      rw [first.under_eq] at same
      exact .cons same (ih rest)
    | slot j key => exact .cons (.slot j key fun here => by cases here) (ih elder)
    | convert product input => exact .cons (.convert product input) (ih elder)
    | body j h rest => exact .cons (.body j h rest fun here => by cases here) (ih elder)
    | deliver c expected save => exact .cons (.deliver c expected save) (ih elder)
    | observe c => exact .cons (.observe c) (ih elder)
    | close c r =>
      have same : D.ContsApart false false (.close c r) (.close c (r.under [])) := .close c r
      rw [r.under_nil] at same
      exact .cons same (ih elder)
    | scopeBody scope name path h rest => exact .cons (.scopeBody scope name path h rest) (ih elder)
    | callback path h rest ts => exact .cons (.callback path h rest ts) (ih elder)

/-- Who is beside the call or the build at its beginning is so in the same way. -/
theorem TasksApart.self {t : Task} (elder : ∀ b ∈ t.locked, D.Elder b) : D.TasksApart base false t t := by
  obtain ⟨k, a, above⟩ := t
  have under : D.StacksApart base false false above above := .self above fun b hb => elder b (List.mem_append_right _ hb)
  cases a with
  | resolve r => exact .mk (.resolve r) under
  | line b =>
    have first : D.Elder b := elder b (List.mem_append_left _ (Option.mem_toList.2 rfl))
    have same : D.ActivitiesApart false false (.line b) (.line (b.under D [])) := .line b fun _ => first.clear
    rw [first.under_eq] at same
    exact .mk same under
  | fill j => exact .mk (.fill j fun here => by cases here) under
  | pause j times => exact .mk (.pause j times fun here => by cases here) under
  | perform s o => exact .mk (.perform s o) under
  | windDown path ts => exact .mk (.windDown path ts) under
  | await tasks => exact .mk (.await tasks) under
  | @give k outcome =>
    cases k with
    | answer =>
      cases outcome with
      | ok v => exact .mk (.answer (.ok v)) under
      | error f =>
        have same : D.AnswersApart false false (.error f) (.error (f.under [])) := .passed f fun here => by cases here
        rw [f.under_nil] at same
        exact .mk (.answer same) under
    | reply =>
      have same : D.ActivitiesApart false false (.give (k := .reply) outcome) (.give (k := .reply) (Reply.under [] outcome)) :=
        .reply outcome
      rw [Reply.under_nil] at same
      exact .mk same under
    | done => exact .mk .finish under

end Detour

/-! ## The build ends -/

namespace Detour

variable {D : Detour} {w w' : World}

/-- What the build marks, if it provides an instance. -/
def marks (D : Detour) (a : Except Failure Instance) (w : World) : World :=
  match a with
  | .ok _ => w.modifyCache D.container fun x => x.markResolved D.key.plain
  | .error _ => w

/-- Once the build has left its lock, nothing of it is left. -/
theorem locks_left {l l' : Locks} (h : D.correspondence.LocksOf D.container l l') (building : D.building = true)
    (free : l.entries.get? D.key = none) : D.done.correspondence.LocksOf D.container l (l'.leave D.key D.ticket) := by
  obtain ⟨entry, nobody⟩ := h.reserved ⟨building, rfl, rfl, rfl⟩
  have unused : ((l'.release D.ticket).mutex D.ticket).unused = true := by
    rw [Locks.mutex_release, if_pos rfl, Mutex.unused, nobody]
    rfl
  have left : l'.leave D.key D.ticket =
      { entries := l'.entries.erase D.key, mutexes := (l'.release D.ticket).mutexes.erase D.ticket } := by
    have entry : (l'.release D.ticket).entries.get? D.key = some D.ticket := entry
    rw [Locks.leave, Locks.tidy, entry]
    exact if_pos unused
  refine ⟨fun key _ => ?_, ?_, fun only => by cases only.1⟩
  · rw [left]
    dsimp only
    rw [Table.get?_erase]
    split
    · next own =>
      rw [← own, free]
      exact .none
    · next other => exact h.entries key (clear fun _ _ => Ne.symm other)
  · rintro m _ rfl
    have other : D.ticket ≠ D.done.late m := Ne.symm (D.done.late_ne m)
    rw [Locks.leave, Locks.mutex_tidy, Locks.mutex_release, if_neg other]
    have same : D.correspondence.Mutexes (l.mutex m) (l'.mutex (D.late m)) := h.mutexes rfl
    exact ⟨same.holder, same.waiting⟩

/-- Worlds are the same again once the build has left its lock. -/
theorem Apart.leave_own (h : D.Apart w w') (building : D.building = true)
    (free : (w.container D.container).locks.entries.get? D.key = none) : D.done.Apart w (w'.leave D.build) where
  tickets := h.tickets
  present e _ := by
    rw [World.leave, World.modifyLocks, World.length_containers_modify]
    exact h.present e trivial
  containers e _ := by
    have here := h.container e
    rw [World.leave, World.modifyLocks, World.container_modify, h.length, show D.build.container = D.container from rfl]
    split
    · next same =>
      obtain ⟨rfl, -⟩ := same
      exact ⟨here.bases, here.live, here.registry, here.cache, here.callbacks, locks_left here.locks building free⟩
    · next other =>
      have other : e ≠ D.container := fun same => other ⟨same.symm, h.rest.present⟩
      refine ⟨here.bases, here.live, here.registry, here.cache, here.callbacks, fun key _ => ?_, fun tickets => ?_, ?_⟩
      · exact here.locks.entries key (clear fun _ same => absurd same other)
      · have same := here.locks.mutexes tickets
        exact ⟨same.holder, same.waiting⟩
      · rintro _ _ ⟨-, same, -, -⟩
        exact absurd same other
  rest :=
    { common := h.rest.common
      present := h.rest.present
      length := by
        rw [World.leave, World.modifyLocks, World.length_containers_modify]
        exact h.rest.length
      told := h.rest.told }

/-- A build that is not shared and has no finalizer and no hooks only marks the key as resolved, if it provides an instance. -/
theorem Apart.built (h : D.Apart w w') (building : D.building = true)
    (free : (w.container D.container).locks.entries.get? D.key = none)
    (hooks : (w.container D.container).callbacks.hooksFor D.key = []) {inside own : Bool} {a a' : Except Failure Instance}
    (answers : D.AnswersApart inside own a a') (env : Env) (below : Stack .answer) :
    ∃ w₁ xs, Step.built env w' D.build a' below = .next w₁ (.give (k := .answer) a') below ∧ w'.After xs w₁ ∧
      D.done.Apart (D.marks a w) w₁ := by
  have left : w'.After [] (w'.leave D.build) := (World.After.refl w').modifyLocks _ _
  cases answers with
  | ok v =>
    have marked : D.Apart (D.marks (.ok v) w) (w'.record D.build v) :=
      h.modifyCache trivial fun x => x.markResolved D.key.plain
    have unseen : (w'.record D.build v).hooksFor D.build = [] := by
      change ((w'.modifyCache D.container _).container D.container).callbacks.hooksFor D.key = []
      rw [World.callbacks_modifyCache, h.callbacks, hooks]
    have recorded : w'.hooksFor D.build = [] := by
      rw [World.hooksFor, show D.build.container = D.container from rfl, h.callbacks]
      exact hooks
    have bare : ∀ hook ∈ w'.hooksFor D.build, hook.script.actions = [] := by
      rw [recorded]
      exact fun _ hh => (List.not_mem_nil hh).elim
    have after : w'.After [(D.build, v)] (((w'.record D.build v).showTo env.program env.held D.build.container v
        ((w'.record D.build v).hooksFor D.build)).leave D.build) := .record bare
    rw [unseen] at after
    refine ⟨_, _, ?_, after, marked.leave_own building ?_⟩
    · unfold Step.built
      dsimp only
      rw [unseen]
      rfl
    · rw [marks, World.locks_modifyCache]
      exact free
  | passed f => exact ⟨_, _, rfl, left, h.leave_own building free⟩
  | own _ fault => exact ⟨_, _, rfl, left, h.leave_own building free⟩

end Detour

end Injector
