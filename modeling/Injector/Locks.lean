import Injector.Key
import Injector.Table
/-!
# Build locks

A container has one build for a key at a time. Who wants to build a key takes the
mutex of the key's entry, or makes an entry with a new mutex, and waits there with a
ticket. The mutex is granted to the first ticket in line when it is free. Who is
done releases the mutex and then tidies up: the entry goes when nobody holds its
mutex or waits for it.

Entering, granting, releasing and tidying are steps of their own, since other tasks
may come in between.
-/
namespace Injector

/-- One attempt to take a lock. -/
abbrev Ticket := Nat

/-- A mutex is known by the ticket it was made for. -/
abbrev MutexId := Nat

/-- A mutex: the ticket that holds it, and those that wait, first come first. -/
structure Mutex where
  holder : Option Ticket := none
  waiting : List Ticket := []
  deriving DecidableEq, Repr, Inhabited

namespace Mutex

/-- Whether nobody holds the mutex or waits for it. -/
def unused (m : Mutex) : Bool := m.holder.isNone && m.waiting.isEmpty

/-- Whether the mutex can be granted to a ticket: it is free, and the ticket is first in line. -/
def grantable (m : Mutex) (ticket : Ticket) : Bool := m.holder.isNone && m.waiting.head? == some ticket

/-- The mutex held by the ticket, which no longer waits. -/
def grant (m : Mutex) (ticket : Ticket) : Mutex :=
  { holder := some ticket, waiting := m.waiting.erase ticket }

end Mutex

/-- The locks of a container. -/
@[ext] structure Locks where
  entries : Table Key MutexId := Table.empty
  mutexes : Table MutexId Mutex := Table.empty
  deriving Inhabited

namespace Locks

/-- The state of a mutex. One that is gone is free. -/
def mutex (l : Locks) (m : MutexId) : Mutex := (l.mutexes.get? m).getD {}

/-- Puts a mutex into a state. -/
def setMutex (l : Locks) (m : MutexId) (state : Mutex) : Locks :=
  { l with mutexes := l.mutexes.insert m state }

/-- Lines a new ticket up at the mutex of the key's entry, which is made if there is none. -/
def enter (l : Locks) (key : Key) (ticket : Ticket) : MutexId × Locks :=
  match l.entries.get? key with
  | some m =>
    (m, l.setMutex m { l.mutex m with waiting := (l.mutex m).waiting ++ [ticket] })
  | none =>
    (ticket, { entries := l.entries.insert key ticket
               mutexes := l.mutexes.insert ticket { waiting := [ticket] } })

/-- Whether a ticket can be granted the mutex it waits at. -/
def grantable (l : Locks) (m : MutexId) (ticket : Ticket) : Bool := (l.mutex m).grantable ticket

/-- Grants the mutex to a ticket that waits at it. -/
def grant (l : Locks) (m : MutexId) (ticket : Ticket) : Locks :=
  l.setMutex m ((l.mutex m).grant ticket)

/-- Frees the mutex. -/
def release (l : Locks) (m : MutexId) : Locks := l.setMutex m { l.mutex m with holder := none }

/-- Removes the entry of a key if its mutex is unused. -/
def tidy (l : Locks) (key : Key) : Locks :=
  match l.entries.get? key with
  | some m =>
    if (l.mutex m).unused then
      { entries := l.entries.erase key, mutexes := l.mutexes.erase m }
    else l
  | none => l

/-- Frees the mutex and tidies up after it. -/
def leave (l : Locks) (key : Key) (m : MutexId) : Locks := (l.release m).tidy key

/-! ## Mutexes after a step -/

theorem mutex_setMutex (l : Locks) (m m' : MutexId) (state : Mutex) :
    (l.setMutex m state).mutex m' = if m = m' then state else l.mutex m' := by
  by_cases h : m = m' <;> simp [setMutex, mutex, Table.get?_insert, h]

@[simp] theorem entries_setMutex (l : Locks) (m : MutexId) (state : Mutex) :
    (l.setMutex m state).entries = l.entries := rfl

theorem mutex_grant (l : Locks) (m m' : MutexId) (ticket : Ticket) :
    (l.grant m ticket).mutex m' = if m = m' then (l.mutex m).grant ticket else l.mutex m' :=
  mutex_setMutex l m m' _

theorem mutex_release (l : Locks) (m m' : MutexId) :
    (l.release m).mutex m' = if m = m' then { l.mutex m with holder := none } else l.mutex m' :=
  mutex_setMutex l m m' _

/-- Tidying up removes unused mutexes only. -/
theorem mutex_tidy (l : Locks) (key : Key) (m : MutexId) : (l.tidy key).mutex m = l.mutex m := by
  unfold tidy
  split
  · next m' _ =>
    split
    · next unused =>
      by_cases h : m' = m
      · subst h
        obtain ⟨free, nobody⟩ : (l.mutex m').holder = none ∧ (l.mutex m').waiting = [] := by
          simpa [Mutex.unused] using unused
        generalize l.mutex m' = state at free nobody
        cases state
        simp_all [mutex]
      · simp [mutex, Table.get?_erase, h]
    · rfl
  · rfl

end Locks

end Injector
