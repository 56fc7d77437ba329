import Injector.Proofs.Locking
/-!
# Attempts at locks

Any number of attempts at the locks of one container, and any order of their steps. An attempt lines up for a key
(`Locks.enter`), gets the mutex when it is free (`Locks.grant`), releases it (`Locks.release`), and tidies up
(`Locks.tidy`); between any two of these others may come in. `Traffic` is the locks with the attempts under way. Who
of those in line is let in is left open, so what is said here holds in particular if the first one is.

`Traffic.InOrder` is what every step keeps: the mutexes are held and waited at by whom the attempts say, and an entry
stays as long as somebody has not yet tidied up after its key. `Traffic.Reached.one_mutex_a_key`: those who hold or
wait for a lock share the mutex of the key's entry, one of them at most holds it, and no entry outlasts them.
-/
namespace Injector

namespace Mutex

/-- How many references to the mutex of an entry there are: that of the entry, that of the holder, and one for each
who waits. -/
def references (m : Mutex) : Nat := 1 + m.holder.toList.length + m.waiting.length

/-- Nobody holds a mutex or waits for it if its entry has the only reference. -/
theorem references_eq_one_iff (m : Mutex) : m.references = 1 ↔ m.unused = true := by
  cases holder : m.holder <;> simp [references, unused, holder]
  omega

/-- The mutex with one more ticket in line, the last one. -/
def join (m : Mutex) (ticket : Ticket) : Mutex := { m with waiting := m.waiting ++ [ticket] }

end Mutex

/-- An entry goes if it has the only reference to its mutex. -/
theorem Locks.entries_tidy (l : Locks) (key key' : Key) : (l.tidy key).entries.get? key' =
    if key = key' ∧ ∃ m, l.entries.get? key = some m ∧ (l.mutex m).references = 1 then none
    else l.entries.get? key' := by
  simp only [Mutex.references_eq_one_iff, tidy]
  cases found : l.entries.get? key with
  | none => simp
  | some m =>
    by_cases unused : (l.mutex m).unused = true <;> by_cases same : key = key' <;>
      simp [unused, same, Table.get?_erase]

/-- Who lines up finds a mutex in the key's entry, or makes it. -/
theorem Locks.entry_of_enter (l : Locks) (key : Key) (ticket : Ticket) :
    l.entries.get? key = some (l.enter key ticket).1 ∨ l.entries.get? key = none ∧ (l.enter key ticket).1 = ticket := by
  rcases l.enter_cases key ticket with ⟨m, found, eq⟩ | ⟨none, eq⟩ <;> rw [eq]
  · exact .inl found
  · exact .inr ⟨none, rfl⟩

/-- How far an attempt has come. -/
inductive Attempt.Stage where
  /-- It waits at a mutex. -/
  | waits
  /-- It has the mutex. -/
  | holds
  /-- It has released the mutex and has yet to tidy up. -/
  | leaves
  deriving DecidableEq, Repr

/-- An attempt to take the lock of a key, until it has tidied up. -/
structure Attempt where
  key : Key
  /-- The mutex of the entry that it found or made. -/
  lock : MutexId
  stage : Attempt.Stage

/-- The locks of a container, and the attempts under way by their tickets. -/
structure Traffic where
  locks : Locks := {}
  attempts : Table Ticket Attempt := Table.empty
  /-- The ticket of the next attempt. -/
  next : Ticket := 0

namespace Traffic

/-! ## Steps -/

/-- An attempt at a key begins: it takes the mutex of the key's entry, or makes an entry, and waits. -/
def enter (s : Traffic) (key : Key) : Traffic :=
  let (lock, locks) := s.locks.enter key s.next
  { locks, attempts := s.attempts.insert s.next ⟨key, lock, .waits⟩, next := s.next + 1 }

/-- The attempt `a` of a ticket gets its mutex. -/
def letIn (s : Traffic) (t : Ticket) (a : Attempt) : Traffic :=
  { s with locks := s.locks.grant a.lock t, attempts := s.attempts.insert t { a with stage := .holds } }

/-- The attempt `a` of a ticket releases its mutex. -/
def release (s : Traffic) (t : Ticket) (a : Attempt) : Traffic :=
  { s with locks := s.locks.release a.lock, attempts := s.attempts.insert t { a with stage := .leaves } }

/-- The attempt `a` of a ticket tidies up, and is over. -/
def tidy (s : Traffic) (t : Ticket) (a : Attempt) : Traffic :=
  { s with locks := s.locks.tidy a.key, attempts := s.attempts.erase t }

/-- One step of one attempt. -/
inductive Next (s : Traffic) : Traffic → Prop
  | enter (key : Key) : Next s (s.enter key)
  | letIn {t : Ticket} {a : Attempt} (found : s.attempts.get? t = some a) (waits : a.stage = .waits)
    (free : (s.locks.mutex a.lock).holder = none) : Next s (s.letIn t a)
  | release {t : Ticket} {a : Attempt} (found : s.attempts.get? t = some a) (holds : a.stage = .holds) :
    Next s (s.release t a)
  | tidy {t : Ticket} {a : Attempt} (found : s.attempts.get? t = some a) (leaves : a.stage = .leaves) :
    Next s (s.tidy t a)

/-- What steps in any order lead to, from a container without locks. -/
inductive Reached : Traffic → Prop
  | start : Reached {}
  | step {s s' : Traffic} (before : Reached s) (next : s.Next s') : Reached s'

/-! ## Who is where -/

/-- Whether the attempt of a ticket is at a stage, with a mutex. -/
def At (s : Traffic) (stage : Attempt.Stage) (m : MutexId) (t : Ticket) : Prop :=
  ∃ a, s.attempts.get? t = some a ∧ a.stage = stage ∧ a.lock = m

/-- Whether the entries are those that the attempts need: each has a mutex of its own, and somebody is there for its key. -/
structure Entered (s : Traffic) : Prop where
  given : ∀ t a, s.attempts.get? t = some a → t < s.next
  made : ∀ key m, s.locks.entries.get? key = some m → m < s.next
  apart : ∀ key key' m, s.locks.entries.get? key = some m → s.locks.entries.get? key' = some m → key = key'
  entry : ∀ t a, s.attempts.get? t = some a → a.stage ≠ .leaves → s.locks.entries.get? a.key = some a.lock
  used : ∀ key m, s.locks.entries.get? key = some m → ∃ t a, s.attempts.get? t = some a ∧ a.key = key

/-- Whether the mutexes are held and waited at by whom the attempts say. -/
structure Served (s : Traffic) : Prop where
  holder : ∀ m t, (s.locks.mutex m).holder = some t ↔ s.At .holds m t
  line : ∀ m t, t ∈ (s.locks.mutex m).waiting ↔ s.At .waits m t
  once : ∀ m, (s.locks.mutex m).waiting.Nodup

/-- Whether the locks are what the attempts need. -/
structure InOrder (s : Traffic) : Prop extends Entered s, Served s

variable {s s' : Traffic} {t t' : Ticket} {a a' : Attempt} {m : MutexId} {stage : Attempt.Stage}

theorem At.of_found (found : s.attempts.get? t = some a) : s.At a.stage a.lock t := ⟨a, found, rfl, rfl⟩

/-- An attempt is at one stage, with one mutex. -/
theorem At.unique (h : s.At stage m t) (found : s.attempts.get? t = some a) : a.stage = stage ∧ a.lock = m := by
  obtain ⟨a', found', same⟩ := h
  rw [found'] at found
  exact Option.some.inj found ▸ same

/-- Where the attempts are after one of them was put to another stage. -/
theorem at_of_insert (attempts : s'.attempts = s.attempts.insert t a) :
    s'.At stage m t' ↔ if t = t' then a.stage = stage ∧ a.lock = m else s.At stage m t' := by
  unfold At
  rw [attempts]
  by_cases same : t = t'
  · simp [same]
  · simp [same, Table.get?_insert]

theorem at_of_erase (attempts : s'.attempts = s.attempts.erase t) : s'.At stage m t' ↔ t ≠ t' ∧ s.At stage m t' := by
  unfold At
  rw [attempts]
  by_cases same : t = t'
  · simp [same]
  · simp [same, Table.get?_erase]

/-- A step that puts one attempt to another stage, and changes no mutex but the attempt's own. -/
theorem Served.put (h : s.Served) {x : Mutex} (attempts : s'.attempts = s.attempts.insert t a)
    (own : ∀ stage m, s.At stage m t → a.lock = m)
    (mutex : ∀ m, s'.locks.mutex m = if a.lock = m then x else s.locks.mutex m)
    (holder : ∀ t', x.holder = some t' ↔ s'.At .holds a.lock t') (line : ∀ t', t' ∈ x.waiting ↔ s'.At .waits a.lock t')
    (once : x.waiting.Nodup) : s'.Served := by
  -- At another mutex, everybody is where he was.
  have elsewhere : ∀ {stage m t'}, a.lock ≠ m → (s'.At stage m t' ↔ s.At stage m t') := by
    intro stage m t' other
    rw [at_of_insert attempts]
    split
    · next same =>
      subst same
      exact ⟨fun is => absurd is.2 other, fun is => absurd (own _ _ is) other⟩
    · rfl
  refine ⟨fun m t' => ?holder, fun m t' => ?line, fun m => ?once⟩
  all_goals rw [mutex]; split
  case holder.isTrue same => exact same ▸ holder t'
  case holder.isFalse other => rw [elsewhere other]; exact h.holder m t'
  case line.isTrue same => exact same ▸ line t'
  case line.isFalse other => rw [elsewhere other]; exact h.line m t'
  case once.isTrue => exact once
  case once.isFalse => exact h.once m

namespace InOrder

/-- A ticket that was not given out is that of no attempt. -/
theorem not_at (h : s.InOrder) (new : s.next ≤ t) : ¬ s.At stage m t := by
  rintro ⟨a, found, -⟩
  exact absurd (h.given t a found) (Nat.not_lt.2 new)

/-- An attempt that holds its mutex or waits at it has the mutex of the key's entry. -/
theorem lt_of_at (h : s.InOrder) (is : s.At stage m t) (needs : stage ≠ .leaves) : m < s.next := by
  obtain ⟨a, found, rfl, rfl⟩ := is
  exact h.made a.key a.lock (h.entry t a found needs)

/-- A mutex that was not made yet is free, and nobody waits at it. -/
theorem mutex_next (h : s.InOrder) : s.locks.mutex s.next = {} := by
  have free : (s.locks.mutex s.next).holder = none := by
    rw [Option.eq_none_iff_forall_ne_some]
    intro t holds
    exact absurd (h.lt_of_at ((h.holder _ t).1 holds) (by decide)) (Nat.lt_irrefl _)
  have nobody : (s.locks.mutex s.next).waiting = [] := by
    rw [List.eq_nil_iff_forall_not_mem]
    intro t waits
    exact absurd (h.lt_of_at ((h.line _ t).1 waits) (by decide)) (Nat.lt_irrefl _)
  cases mutex : s.locks.mutex s.next
  simp_all

/-- Those who hold their mutex or wait at it have the same one exactly if they are there for the same key. -/
theorem lock_eq_iff (h : s.InOrder) (found : s.attempts.get? t = some a) (needs : a.stage ≠ .leaves)
    (found' : s.attempts.get? t' = some a') (needs' : a'.stage ≠ .leaves) : a.lock = a'.lock ↔ a.key = a'.key := by
  have entry := h.entry t a found needs
  have entry' := h.entry t' a' found' needs'
  constructor
  · intro same
    rw [same] at entry
    exact h.apart _ _ _ entry entry'
  · intro same
    rw [same, entry'] at entry
    exact (Option.some.inj entry).symm

/-- The entry of a mutex has the only reference to it exactly if nobody holds it or waits at it. -/
theorem references_eq_one_iff (h : s.InOrder) (m : MutexId) :
    (s.locks.mutex m).references = 1 ↔ ∀ stage t, s.At stage m t → stage = .leaves := by
  have unused : (s.locks.mutex m).references = 1 ↔ (s.locks.mutex m).holder = none ∧ (s.locks.mutex m).waiting = [] := by
    rw [Mutex.references_eq_one_iff]
    simp [Mutex.unused]
  rw [unused, Option.eq_none_iff_forall_ne_some, List.eq_nil_iff_forall_not_mem]
  constructor
  · rintro ⟨free, nobody⟩ stage t is
    cases stage with
    | waits => exact absurd ((h.line m t).2 is) (nobody t)
    | holds => exact absurd ((h.holder m t).2 is) (free t)
    | leaves => rfl
  · intro gone
    refine ⟨fun t holds => ?_, fun t waits => ?_⟩
    · cases gone _ t ((h.holder m t).1 holds)
    · cases gone _ t ((h.line m t).1 waits)

/-! ## Steps keep the order -/

/-- The mutex that an attempt lines up at was made before, or has its ticket. -/
theorem enter_le (h : s.InOrder) (key : Key) : (s.locks.enter key s.next).1 ≤ s.next := by
  rcases s.locks.entry_of_enter key s.next with found | ⟨-, made⟩
  · exact Nat.le_of_lt (h.made _ _ found)
  · exact Nat.le_of_eq made

/-- No other key's entry has the mutex that an attempt lines up at. -/
theorem eq_of_enter (h : s.InOrder) {key key' : Key}
    (entry : s.locks.entries.get? key' = some (s.locks.enter key s.next).1) : key = key' := by
  rcases s.locks.entry_of_enter key s.next with found | ⟨-, made⟩
  · exact h.apart _ _ _ found entry
  · rw [made] at entry
    exact absurd (h.made _ _ entry) (Nat.lt_irrefl _)

/-- The mutexes after an attempt began: it is last in line at the one it found or made. -/
theorem mutex_enter (h : s.InOrder) (key : Key) (m : MutexId) : (s.enter key).locks.mutex m =
    if (s.locks.enter key s.next).1 = m then (s.locks.mutex (s.locks.enter key s.next).1).join s.next
    else s.locks.mutex m := by
  have line : s.locks.lineFor key (s.locks.enter key s.next).1 = s.locks.mutex (s.locks.enter key s.next).1 := by
    rcases s.locks.entry_of_enter key s.next with found | ⟨none, made⟩
    · simp [Locks.lineFor, found]
    · rw [Locks.lineFor, if_pos none, made, h.mutex_next]
  have mutex : (s.enter key).locks.mutex m = _ := s.locks.mutex_enter key s.next m
  rw [mutex]
  split
  · next same =>
    rw [← same, line]
    rfl
  · rfl

theorem enter (h : s.InOrder) (key : Key) : (s.enter key).InOrder := by
  have entry_or := s.locks.entry_of_enter key s.next
  have lock_le := h.enter_le key
  have own : ∀ key', s.locks.entries.get? key' = some (s.locks.enter key s.next).1 → key = key' := fun _ => h.eq_of_enter
  have mutex := h.mutex_enter key
  have entries : ∀ key', (s.enter key).locks.entries.get? key' = _ := (s.locks.entries_enter key · s.next)
  have attempts : (s.enter key).attempts = s.attempts.insert s.next ⟨key, (s.locks.enter key s.next).1, .waits⟩ := rfl
  have next : (s.enter key).next = s.next + 1 := rfl
  generalize (s.locks.enter key s.next).1 = lock at entry_or lock_le own mutex entries attempts
  generalize s.enter key = s' at mutex entries attempts next
  have new : ∀ {stage m}, ¬ s.At stage m s.next := h.not_at (Nat.le_refl _)
  refine ⟨⟨?given, ?made, ?apart, ?entry, ?used⟩, h.toServed.put attempts (fun _ _ is => absurd is new) mutex
    (fun t => ?holder) (fun t => ?line) ?once⟩
  case given =>
    intro t a found
    rw [attempts, Table.get?_insert] at found
    rw [next]
    split at found
    · next same => exact same ▸ Nat.lt_succ_self _
    · exact Nat.lt_succ_of_lt (h.given t a found)
  case made =>
    intro key' m found
    rw [entries] at found
    rw [next]
    split at found
    · exact Option.some.inj found ▸ Nat.lt_succ_of_le lock_le
    · exact Nat.lt_succ_of_lt (h.made key' m found)
  case apart =>
    intro key₁ key₂ m found₁ found₂
    rw [entries] at found₁ found₂
    split at found₁ <;> split at found₂
    · next same₁ same₂ => exact same₁.symm.trans same₂
    · next same₁ _ => exact same₁ ▸ own key₂ (Option.some.inj found₁ ▸ found₂)
    · next _ same₂ => exact same₂ ▸ (own key₁ (Option.some.inj found₂ ▸ found₁)).symm
    · exact h.apart _ _ _ found₁ found₂
  case entry =>
    intro t a found needs
    rw [attempts, Table.get?_insert] at found
    rw [entries]
    split at found
    · obtain rfl := Option.some.inj found
      exact if_pos rfl
    · have entry := h.entry t a found needs
      split
      · next same =>
        subst same
        rcases entry_or with found' | ⟨none, -⟩
        · rw [← found', entry]
        · rw [entry] at none
          cases none
      · exact entry
  case used =>
    intro key' m found
    rw [entries] at found
    split at found
    · next same => exact ⟨s.next, _, by rw [attempts, Table.get?_insert_self], same⟩
    · obtain ⟨t, a, old, rfl⟩ := h.used key' m found
      refine ⟨t, a, ?_, rfl⟩
      rw [attempts, Table.get?_insert_of_ne _ _ (Nat.ne_of_gt (h.given t a old))]
      exact old
  case holder =>
    rw [Mutex.join, h.holder, at_of_insert attempts]
    split
    · next same => simp [← same, new]
    · rfl
  case line =>
    rw [Mutex.join, List.mem_append, List.mem_singleton, h.line, at_of_insert attempts]
    split
    · next same => simp [same]
    · next other => simp [Ne.symm other]
  case once =>
    rw [Mutex.join, List.nodup_append]
    refine ⟨h.once lock, List.pairwise_singleton _ _, fun t waits t' same => ?_⟩
    rintro rfl
    exact new ((h.line _ _).1 (List.mem_singleton.1 same ▸ waits))

/-- An attempt goes on to another stage, by a step that leaves the entries alone. -/
theorem entered_of_insert (h : s.InOrder) (found : s.attempts.get? t = some a)
    (goesOn : a.stage = .leaves → stage = .leaves) (entries : s'.locks.entries = s.locks.entries)
    (next : s'.next = s.next) (attempts : s'.attempts = s.attempts.insert t { a with stage }) : s'.Entered where
  given t' a' found' := by
    rw [attempts, Table.get?_insert] at found'
    rw [next]
    split at found'
    · next same => exact same ▸ h.given t a found
    · exact h.given t' a' found'
  made := by rw [entries, next]; exact h.made
  apart := by rw [entries]; exact h.apart
  entry t' a' found' needs := by
    rw [attempts, Table.get?_insert] at found'
    rw [entries]
    split at found'
    · obtain rfl := Option.some.inj found'
      exact h.entry t a found fun leaves => needs (goesOn leaves)
    · exact h.entry t' a' found' needs
  used key m entry := by
    rw [entries] at entry
    obtain ⟨t', a', found', rfl⟩ := h.used key m entry
    by_cases same : t = t'
    · subst same
      obtain rfl := Option.some.inj (found.symm.trans found')
      exact ⟨t, { a with stage }, by rw [attempts, Table.get?_insert_self], rfl⟩
    · exact ⟨t', a', by rw [attempts, Table.get?_insert_of_ne _ _ same]; exact found', rfl⟩

theorem letIn (h : s.InOrder) (found : s.attempts.get? t = some a) (waits : a.stage = .waits)
    (free : (s.locks.mutex a.lock).holder = none) : (s.letIn t a).InOrder := by
  have attempts : (s.letIn t a).attempts = s.attempts.insert t { a with stage := .holds } := rfl
  have nobody : ∀ t', ¬ s.At .holds a.lock t' := by
    intro t' holds
    rw [← h.holder, free] at holds
    cases holds
  refine ⟨h.entered_of_insert found (fun leaves => nomatch waits.symm.trans leaves) rfl rfl attempts,
    h.toServed.put attempts (fun _ _ is => (is.unique found).2) (s.locks.mutex_grant a.lock · t) (fun t' => ?holder)
      (fun t' => ?line) ((h.once a.lock).erase t)⟩
  case holder =>
    rw [at_of_insert attempts]
    split
    · next same => simp [Mutex.grant, same]
    · next other => simp [Mutex.grant, other, nobody]
  case line =>
    rw [at_of_insert attempts, Mutex.grant, (h.once a.lock).mem_erase_iff, h.line]
    split
    · next same => simp [same]
    · next other => simp [Ne.symm other]

theorem release (h : s.InOrder) (found : s.attempts.get? t = some a) (holds : a.stage = .holds) :
    (s.release t a).InOrder := by
  have attempts : (s.release t a).attempts = s.attempts.insert t { a with stage := .leaves } := rfl
  have held : (s.locks.mutex a.lock).holder = some t := (h.holder _ _).2 (holds ▸ .of_found found)
  refine ⟨h.entered_of_insert found (fun _ => rfl) rfl rfl attempts,
    h.toServed.put attempts (fun _ _ is => (is.unique found).2) (s.locks.mutex_release a.lock) (fun t' => ?holder)
      (fun t' => ?line) (h.once a.lock)⟩
  case holder =>
    rw [at_of_insert attempts, ← h.holder, held]
    split
    · simp
    · next other => simp [other]
  case line =>
    rw [at_of_insert attempts, h.line]
    split
    · next same =>
      subst same
      have elsewhere : ¬ s.At .waits a.lock t := fun is => nomatch holds.symm.trans (is.unique found).1
      simp [elsewhere]
    · rfl

theorem tidy (h : s.InOrder) (found : s.attempts.get? t = some a) (leaves : a.stage = .leaves) :
    (s.tidy t a).InOrder := by
  have mutex : ∀ m, (s.tidy t a).locks.mutex m = s.locks.mutex m := s.locks.mutex_tidy a.key
  have attempts : (s.tidy t a).attempts = s.attempts.erase t := rfl
  have entries : ∀ key, (s.tidy t a).locks.entries.get? key = _ := s.locks.entries_tidy a.key
  have before : ∀ {key m}, (s.tidy t a).locks.entries.get? key = some m → s.locks.entries.get? key = some m := by
    intro key m kept
    rw [entries] at kept
    split at kept
    · cases kept
    · exact kept
  -- Who tidies up is neither the holder of a mutex nor in line for one.
  have other : ∀ {stage m t'}, s.At stage m t' → stage ≠ .leaves → t ≠ t' := by
    rintro stage m t' is needs rfl
    exact needs ((is.unique found).1.symm.trans leaves)
  have others : ∀ {stage m t'}, stage ≠ .leaves → ((s.tidy t a).At stage m t' ↔ s.At stage m t') := by
    intro stage m t' needs
    rw [at_of_erase attempts]
    exact ⟨And.right, fun is => ⟨other is needs, is⟩⟩
  have served : (s.tidy t a).Served := by
    refine ⟨fun m t' => ?_, fun m t' => ?_, fun m => ?_⟩ <;> rw [mutex]
    · exact (h.holder m t').trans (others (by decide)).symm
    · exact (h.line m t').trans (others (by decide)).symm
    · exact h.once m
  refine ⟨⟨?given, ?made, ?apart, ?entry, ?used⟩, served⟩
  case given =>
    intro t' a' found'
    rw [attempts, Table.get?_erase] at found'
    split at found'
    · cases found'
    · exact h.given t' a' found'
  case made => exact fun key m kept => h.made key m (before kept)
  case apart => exact fun key key' m kept kept' => h.apart key key' m (before kept) (before kept')
  case entry =>
    intro t' a' found' needs
    rw [attempts, Table.get?_erase] at found'
    split at found'
    · cases found'
    · have entry := h.entry t' a' found' needs
      rw [entries, entry]
      apply if_neg
      rintro ⟨same, m, own, single⟩
      -- The entry would have the only reference, but `t'` holds its mutex or waits at it.
      rw [same, entry] at own
      obtain rfl := Option.some.inj own
      exact needs ((h.references_eq_one_iff _).1 single _ t' (.of_found found'))
  case used =>
    intro key m kept
    by_cases single : (s.locks.mutex m).references = 1
    · -- Then the entry is that of another key, and whoever was there for it is still there.
      obtain ⟨t', a', found', rfl⟩ := h.used key m (before kept)
      have distinct : t ≠ t' := by
        rintro rfl
        obtain rfl := Option.some.inj (found.symm.trans found')
        have := entries a.key
        rw [if_pos ⟨rfl, m, before kept, single⟩, kept] at this
        cases this
      exact ⟨t', a', by rw [attempts, Table.get?_erase, if_neg distinct]; exact found', rfl⟩
    · -- Else somebody else has a reference to the mutex, and so is there for its key.
      rw [h.references_eq_one_iff] at single
      obtain ⟨stage, t', is, needs⟩ : ∃ stage t', s.At stage m t' ∧ stage ≠ .leaves := by simpa using single
      obtain ⟨a', found', rfl, rfl⟩ := is
      have distinct := other (.of_found found') needs
      refine ⟨t', a', by rw [attempts, Table.get?_erase, if_neg distinct]; exact found', ?_⟩
      exact h.apart _ _ _ (h.entry t' a' found' needs) (before kept)

theorem start : ({} : Traffic).InOrder where
  given _ _ found := nomatch found
  made _ _ found := nomatch found
  apart _ _ _ found := nomatch found
  entry _ _ found := nomatch found
  holder _ _ := ⟨nofun, fun ⟨_, found, _⟩ => nomatch found⟩
  line _ _ := ⟨nofun, fun ⟨_, found, _⟩ => nomatch found⟩
  once _ := .nil
  used _ _ found := nomatch found

/-- Every step keeps the order. -/
theorem step (h : s.InOrder) (next : s.Next s') : s'.InOrder := by
  cases next with
  | enter key => exact h.enter key
  | letIn found waits free => exact h.letIn found waits free
  | release found holds => exact h.release found holds
  | tidy found leaves => exact h.tidy found leaves

end InOrder

/-- Locks are in order whatever attempts there were and however their steps were mixed. -/
theorem Reached.inOrder (h : Reached s) : s.InOrder := by
  induction h with
  | start => exact .start
  | step _ next ih => exact ih.step next

/-! ## One mutex a key -/

/-- Whether a ticket's attempt `a` has its mutex. -/
def Holds (s : Traffic) (t : Ticket) (a : Attempt) : Prop := s.attempts.get? t = some a ∧ a.stage = .holds

/-- Whether a ticket's attempt `a` has its mutex or waits for it. -/
def Needs (s : Traffic) (t : Ticket) (a : Attempt) : Prop := s.attempts.get? t = some a ∧ a.stage ≠ .leaves

theorem Holds.needs (h : s.Holds t a) : s.Needs t a := ⟨h.1, fun leaves => nomatch h.2.symm.trans leaves⟩

namespace InOrder

theorem entry_of_needs (h : s.InOrder) (needs : s.Needs t a) : s.locks.entries.get? a.key = some a.lock :=
  h.entry t a needs.1 needs.2

theorem holder_of_holds (h : s.InOrder) (holds : s.Holds t a) : (s.locks.mutex a.lock).holder = some t :=
  (h.holder _ _).2 ⟨a, holds.1, holds.2, rfl⟩

/-- Who holds the mutex that an attempt needs is there for the same key. -/
theorem holds_of_holder (h : s.InOrder) (needs : s.Needs t a) (holder : (s.locks.mutex a.lock).holder = some t') :
    ∃ a', s.Holds t' a' ∧ a'.key = a.key := by
  obtain ⟨a', found, holds, same⟩ := (h.holder _ _).1 holder
  have holds : s.Holds t' a' := ⟨found, holds⟩
  exact ⟨a', holds, (h.lock_eq_iff found holds.needs.2 needs.1 needs.2).1 same⟩

/-- No step takes the entry away that an attempt needs. -/
theorem entry_of_next (h : s.InOrder) (needs : s.Needs t a) (next : s.Next s') :
    s'.locks.entries.get? a.key = some a.lock := by
  cases next with
  | enter key =>
    have later : t ≠ s.next := Nat.ne_of_lt (h.given t a needs.1)
    exact (h.enter key).entry t a ((Table.get?_insert_of_ne _ _ later.symm).trans needs.1) needs.2
  | letIn | release => exact h.entry_of_needs needs
  | @tidy t' a' found leaves =>
    have other : t' ≠ t := by
      rintro rfl
      exact needs.2 (Option.some.inj (found.symm.trans needs.1) ▸ leaves)
    exact (h.tidy found leaves).entry t a ((Table.get?_erase ..).trans ((if_neg other).trans needs.1)) needs.2

/-- The entry of a key has the only reference to its mutex exactly if nobody needs it. -/
theorem references_of_entry (h : s.InOrder) {key : Key} (entry : s.locks.entries.get? key = some m) :
    (s.locks.mutex m).references = 1 ↔ ∀ t a, s.Needs t a → a.key ≠ key := by
  rw [h.references_eq_one_iff]
  constructor
  · rintro gone t a needs rfl
    rw [h.entry_of_needs needs] at entry
    obtain rfl := Option.some.inj entry
    exact needs.2 (gone _ t (.of_found needs.1))
  · rintro nobody _ t ⟨a, found, rfl, rfl⟩
    by_contra needs
    exact nobody t a ⟨found, needs⟩ (h.apart _ _ _ (h.entry t a found needs) entry)

end InOrder

/-- However the steps of attempts are mixed: one attempt at most holds the lock of a key. Those who hold or wait for it
share the mutex of the key's entry, which no step takes away from them; its entry has the only reference to it exactly if
nobody does. Those who are there for other keys have other mutexes, and who waits may be let in unless somebody holds the
lock of the very same key. Once all attempts at a key are over, it has no entry. -/
theorem Reached.one_mutex_a_key (h : Reached s) :
    (∀ {t t' a a'}, s.Holds t a → s.Holds t' a' → a.key = a'.key → t = t') ∧
    (∀ {t a}, s.Needs t a → s.locks.entries.get? a.key = some a.lock ∧
      ∀ {s'}, s.Next s' → s'.locks.entries.get? a.key = some a.lock) ∧
    (∀ {key m}, s.locks.entries.get? key = some m →
      ((s.locks.mutex m).references = 1 ↔ ∀ t a, s.Needs t a → a.key ≠ key)) ∧
    (∀ {t t' a a'}, s.Needs t a → s.Needs t' a' → a.key ≠ a'.key → a.lock ≠ a'.lock) ∧
    (∀ {t a}, s.attempts.get? t = some a → a.stage = .waits →
      (∀ t' a', s.Holds t' a' → a'.key ≠ a.key) → s.Next (s.letIn t a)) ∧
    (∀ {key}, (∀ t a, s.attempts.get? t = some a → a.key ≠ key) → s.locks.entries.get? key = none) := by
  have order := h.inOrder
  refine ⟨?exclusive, ?shared, order.references_of_entry, ?apart, ?unhindered, ?removed⟩
  case exclusive =>
    intro t t' a a' holds holds' same
    have lock := (order.lock_eq_iff holds.1 holds.needs.2 holds'.1 holds'.needs.2).2 same
    have holder := order.holder_of_holds holds
    rw [lock, order.holder_of_holds holds'] at holder
    exact (Option.some.inj holder).symm
  case shared => exact fun needs => ⟨order.entry_of_needs needs, order.entry_of_next needs⟩
  case apart =>
    intro t t' a a' needs needs' other same
    exact other ((order.lock_eq_iff needs.1 needs.2 needs'.1 needs'.2).1 same)
  case unhindered =>
    intro t a found waits nobody
    refine .letIn found waits ?_
    rw [Option.eq_none_iff_forall_ne_some]
    intro t' holder
    obtain ⟨a', holds, same⟩ := order.holds_of_holder ⟨found, fun leaves => nomatch waits.symm.trans leaves⟩ holder
    exact nobody t' a' holds same
  case removed =>
    intro key gone
    rw [Option.eq_none_iff_forall_ne_some]
    intro m entry
    obtain ⟨t, a, found, same⟩ := order.used key m entry
    exact gone t a found same

/-- One coat is taken, another one has to wait, and so has a hat. -/
def crowd : Traffic :=
  ((((({} : Traffic).enter (.name "coat")).letIn 0 ⟨.name "coat", 0, .waits⟩).enter (.name "coat")).enter
    (.name "hat")).letIn 2 ⟨.name "hat", 2, .waits⟩

/-- While who had the first coat has yet to tidy up, the second one comes and goes, and takes the entry of coats away. -/
def thinned : Traffic :=
  (((crowd.release 0 ⟨.name "coat", 0, .holds⟩).letIn 1 ⟨.name "coat", 0, .waits⟩).release 1
    ⟨.name "coat", 0, .holds⟩).tidy 1 ⟨.name "coat", 0, .leaves⟩

/-- A third coat comes, and only then the first one is tidied up after. -/
def returned : Traffic := (thinned.enter (.name "coat")).tidy 0 ⟨.name "coat", 0, .leaves⟩

theorem reached_crowd : Reached crowd :=
  ((((Reached.start.step (.enter _)).step (.letIn rfl rfl rfl)).step (.enter _)).step (.enter _)).step
    (.letIn rfl rfl rfl)

theorem reached_returned : Reached returned :=
  (((((reached_crowd.step (.release rfl rfl)).step (.letIn rfl rfl rfl)).step (.release rfl rfl)).step
    (.tidy rfl rfl)).step (.enter _)).step (.tidy rfl rfl)

/-- The third coat keeps the entry that it made anew, whatever happens next, and need not wait for the hat. -/
theorem third_coat_is_let_in : Reached returned ∧ thinned.locks.entries.get? (.name "coat") = none ∧
    (returned.locks.entries.get? (.name "coat") = some 3 ∧
      ∀ {s'}, returned.Next s' → s'.locks.entries.get? (.name "coat") = some 3) ∧
    returned.Holds 2 ⟨.name "hat", 2, .holds⟩ ∧ returned.Next (returned.letIn 3 ⟨.name "coat", 3, .waits⟩) := by
  obtain ⟨-, shared, -, -, unhindered, -⟩ := reached_returned.one_mutex_a_key
  have third : returned.attempts.get? 3 = some ⟨.name "coat", 3, .waits⟩ := rfl
  refine ⟨reached_returned, rfl, shared ⟨third, by decide⟩, ⟨rfl, rfl⟩, unhindered third rfl ?_⟩
  -- Four tickets were given out; of their attempts the hat's alone holds a lock.
  rintro t a ⟨found, holds⟩ same
  have given : t < 4 := reached_returned.inOrder.given t a found
  match t, given with
  | 0, _ | 1, _ => cases found
  | 2, _ =>
    obtain rfl := Option.some.inj found
    revert same
    decide
  | 3, _ =>
    obtain rfl := Option.some.inj found
    cases holds

end Traffic

end Injector
