import Injector.Proofs.Containers
import Injector.Step
/-!
# Locks after a step

What the entries and mutexes of all containers are after a build lined up (`World.enter`), got its
lock (`World.letIn`) or left it (`World.leave`): those of its own key and lock change, all others
stay.
-/
namespace Injector

namespace Locks

theorem mutex_leave (l : Locks) (key : Key) (m m' : MutexId) :
    (l.leave key m).mutex m' = if m = m' then { l.mutex m with holder := none } else l.mutex m' := by
  rw [leave, mutex_tidy, mutex_release]

theorem entries_leave {l : Locks} {key : Key} {m : MutexId} (h : l.entries.get? key = some m) (key' : Key) :
    (l.leave key m).entries.get? key' =
      if key = key' ∧ (l.mutex m).waiting = [] then none else l.entries.get? key' := by
  have entry : (l.release m).entries.get? key = some m := h
  have unused : ((l.release m).mutex m).unused = decide ((l.mutex m).waiting = []) := by
    cases waiting : (l.mutex m).waiting <;> simp [mutex_release, Mutex.unused, waiting]
  simp only [leave, tidy, entry, unused, decide_eq_true_eq]
  by_cases nobody : (l.mutex m).waiting = []
  · simp only [nobody, if_true, and_true, Table.get?_erase]
    rfl
  · simp only [nobody, if_false, and_false]
    rfl

/-- Who lines up waits at the mutex of the key's entry, or at a new one. -/
theorem enter_cases (l : Locks) (key : Key) (ticket : Ticket) :
    (∃ m, l.entries.get? key = some m ∧ l.enter key ticket =
      (m, l.setMutex m { l.mutex m with waiting := (l.mutex m).waiting ++ [ticket] })) ∨
    (l.entries.get? key = none ∧ l.enter key ticket = (ticket,
      { entries := l.entries.insert key ticket, mutexes := l.mutexes.insert ticket { waiting := [ticket] } })) := by
  cases h : l.entries.get? key with
  | some m => exact .inl ⟨m, rfl, by simp only [enter, h]⟩
  | none => exact .inr ⟨rfl, by simp only [enter, h]⟩

theorem entries_enter (l : Locks) (key key' : Key) (ticket : Ticket) :
    (l.enter key ticket).2.entries.get? key' =
      if key = key' then some (l.enter key ticket).1 else l.entries.get? key' := by
  rcases l.enter_cases key ticket with ⟨m, h, eq⟩ | ⟨_, eq⟩ <;> rw [eq]
  · by_cases e : key = key'
    · subst e
      rw [if_pos rfl]
      exact h
    · rw [if_neg e]
      rfl
  · exact Table.get?_insert ..

/-- The line that a new ticket joins: that of the key's entry, or a new one. -/
def lineFor (l : Locks) (key : Key) (m : MutexId) : Mutex := if l.entries.get? key = none then {} else l.mutex m

theorem mutex_enter (l : Locks) (key : Key) (ticket : Ticket) (m : MutexId) :
    (l.enter key ticket).2.mutex m = if (l.enter key ticket).1 = m then
      { l.lineFor key m with waiting := (l.lineFor key m).waiting ++ [ticket] } else l.mutex m := by
  rcases l.enter_cases key ticket with ⟨m', h, eq⟩ | ⟨h, eq⟩ <;> rw [eq] <;> simp only [lineFor, h]
  · rw [mutex_setMutex]
    by_cases e : m' = m
    · subst e
      simp
    · simp [e]
  · by_cases e : ticket = m <;> simp [mutex, Table.get?_insert, e]

end Locks

namespace World

variable {w w' : World} {b : Build} {c : ContainerId}

/-- The locks of the containers after those of one were changed. -/
theorem locks_modifyLocks_of_alive (alive : w.Alive c) (f : Locks → Locks) (c' : ContainerId) :
    ((w.modifyLocks c f).container c').locks = if c = c' then f (w.container c).locks else (w.container c').locks := by
  by_cases e : c = c'
  · subst e
    rw [if_pos rfl]
    exact alive.locks_modifyLocks f
  · rw [if_neg e, modifyLocks, container_modify_of_ne w _ e]

/-- The mutexes of the containers after one of them was changed. -/
theorem mutex_modifyLocks (alive : w.Alive c) {m : MutexId} {f : Locks → Locks} {g : Mutex → Mutex}
    (changes : ∀ l m', (f l).mutex m' = if m = m' then g (l.mutex m) else l.mutex m') (c' : ContainerId) (m' : MutexId) :
    ((w.modifyLocks c f).container c').locks.mutex m' =
      if c = c' ∧ m = m' then g ((w.container c').locks.mutex m') else (w.container c').locks.mutex m' := by
  rw [locks_modifyLocks_of_alive alive]
  by_cases e : c = c'
  · subst e
    rw [if_pos rfl, changes]
    by_cases e : m = m'
    · subst e
      simp
    · simp [e]
  · simp [e]

/-! ## Getting a lock -/

theorem mutex_letIn (alive : w.Alive b.container) (c : ContainerId) (m : MutexId) :
    ((w.letIn b).container c).locks.mutex m = if b.container = c ∧ b.lock = m
      then ((w.container c).locks.mutex m).grant b.ticket else (w.container c).locks.mutex m :=
  mutex_modifyLocks (g := fun x => x.grant b.ticket) alive (fun l m' => l.mutex_grant b.lock m' b.ticket) c m

theorem entries_letIn (alive : w.Alive b.container) (c : ContainerId) :
    ((w.letIn b).container c).locks.entries = (w.container c).locks.entries := by
  rw [letIn, locks_modifyLocks_of_alive alive]
  split
  · next e =>
    rw [← e]
    rfl
  · rfl

/-! ## Leaving a lock -/

theorem mutex_leave (alive : w.Alive b.container) (c : ContainerId) (m : MutexId) :
    ((w.leave b).container c).locks.mutex m = if b.container = c ∧ b.lock = m
      then { (w.container c).locks.mutex m with holder := none } else (w.container c).locks.mutex m :=
  mutex_modifyLocks (g := fun x => { x with holder := none }) alive (fun l m' => l.mutex_leave b.key b.lock m') c m

/-- The entry of a lock goes if nobody is in line. -/
theorem entries_leave (alive : w.Alive b.container)
    (entry : (w.container b.container).locks.entries.get? b.key = some b.lock) (c : ContainerId) (key : Key) :
    ((w.leave b).container c).locks.entries.get? key =
      if b.container = c ∧ b.key = key ∧ ((w.container c).locks.mutex b.lock).waiting = [] then none
      else (w.container c).locks.entries.get? key := by
  rw [leave, locks_modifyLocks_of_alive alive]
  by_cases e : b.container = c
  · subst e
    simp only [if_true, true_and, Locks.entries_leave entry]
  · simp [e]

/-! ## Lining up -/

theorem enter_eq (w : World) (c : ContainerId) (key : Key) : w.enter c key =
    (((w.container c).locks.enter key w.tickets).1, w.tickets,
      { w.modifyLocks c (fun _ => ((w.container c).locks.enter key w.tickets).2) with tickets := w.tickets + 1 }) :=
  rfl

theorem container_enter (w : World) (c : ContainerId) (key : Key) (c' : ContainerId) :
    (w.enter c key).2.2.container c' =
      (w.modifyLocks c fun _ => ((w.container c).locks.enter key w.tickets).2).container c' := rfl

section Enter

variable {lock : MutexId} {ticket : Ticket} {key : Key} (enters : w.enter c key = (lock, ticket, w'))
include enters

theorem world_of_enter : (w.enter c key).2.2 = w' := congrArg (fun x => x.2.2) enters

theorem lock_of_enter : ((w.container c).locks.enter key w.tickets).1 = lock := congrArg Prod.fst enters

theorem ticket_of_enter : w.tickets = ticket := congrArg (fun x => x.2.1) enters

theorem tickets_of_enter : w'.tickets = w.tickets + 1 := by
  rw [← world_of_enter enters]
  rfl

theorem locks_of_enter (alive : w.Alive c) (c' : ContainerId) : (w'.container c').locks =
    if c = c' then ((w.container c).locks.enter key w.tickets).2 else (w.container c').locks := by
  rw [← world_of_enter enters, container_enter, locks_modifyLocks_of_alive alive]

/-- The lock is that of the key's entry, or a new one. -/
theorem entry_of_enter : (w.container c).locks.entries.get? key = some lock ∨
    (w.container c).locks.entries.get? key = none ∧ lock = w.tickets := by
  rw [← lock_of_enter enters]
  rcases (w.container c).locks.enter_cases key w.tickets with ⟨m, found, eq⟩ | ⟨none, eq⟩ <;> rw [eq]
  · exact .inl found
  · exact .inr ⟨none, rfl⟩

theorem entries_of_enter (alive : w.Alive c) (c' : ContainerId) (key' : Key) :
    (w'.container c').locks.entries.get? key' =
      if c = c' ∧ key = key' then some lock else (w.container c').locks.entries.get? key' := by
  rw [locks_of_enter enters alive]
  by_cases e : c = c'
  · subst e
    simp only [if_true, true_and, Locks.entries_enter, lock_of_enter enters]
  · simp [e]

theorem mutex_of_enter (alive : w.Alive c) (c' : ContainerId) (m : MutexId) : (w'.container c').locks.mutex m =
    if c = c' ∧ lock = m then
      { (w.container c).locks.lineFor key m with waiting := ((w.container c).locks.lineFor key m).waiting ++ [ticket] }
    else (w.container c').locks.mutex m := by
  rw [locks_of_enter enters alive]
  by_cases e : c = c'
  · subst e
    simp only [if_true, true_and, Locks.mutex_enter, lock_of_enter enters, ← ticket_of_enter enters]
  · simp [e]

end Enter

end World

end Injector
