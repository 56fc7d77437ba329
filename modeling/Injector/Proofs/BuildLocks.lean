import Injector.Proofs.Sound
import Mathlib.Algebra.Order.BigOperators.Group.List
import Mathlib.Algebra.Order.Ring.Nat
/-!
# One build at a time

In every run, whoever builds a key on a container holds the lock that the container has for
the key, and whoever is in line for it is waited for (`Locked`). A lock has one holder, so
that no key is built twice at the same time on one container (`Locked.exclusive`).
-/
namespace Injector

/-! ## Counting builds -/

/-- The sum of a count over tasks. -/
def total (f : Task → Nat) (ts : List Task) : Nat := (ts.map f).sum

theorem total_append (f : Task → Nat) (ts us : List Task) : total f (ts ++ us) = total f ts + total f us := by
  simp [total]

theorem total_set (f : Task → Nat) {ts : List Task} {i : Nat} {t : Task} (found : ts[i]? = some t) (t' : Task) :
    total f (ts.set i t') + f t = total f ts + f t' := by
  induction ts generalizing i with
  | nil => cases found
  | cons u ts ih =>
    cases i with
    | zero =>
      obtain rfl := Option.some.inj found
      simp only [total, List.set_cons_zero, List.map_cons, List.sum_cons]
      omega
    | succ i =>
      have := ih (i := i) found
      simp only [total, List.set_cons_succ, List.map_cons, List.sum_cons] at this ⊢
      omega

theorem total_eq_zero {f : Task → Nat} {ts : List Task} (h : ∀ t ∈ ts, f t = 0) : total f ts = 0 := by
  apply List.sum_eq_zero
  intro n hn
  obtain ⟨t, ht, rfl⟩ := List.mem_map.1 hn
  exact h t ht

/-- Tasks that have none of what is counted do not count. -/
theorem total_append_of_none {f : Task → Nat} {us : List Task} (none : ∀ u ∈ us, f u = 0) (ts : List Task) :
    total f (ts ++ us) = total f ts := by
  rw [total_append, total_eq_zero none, Nat.add_zero]

theorem exists_of_total {f : Task → Nat} {ts : List Task} (h : total f ts ≠ 0) : ∃ t ∈ ts, f t ≠ 0 := by
  by_contra none
  exact h (total_eq_zero fun t ht => by_contra fun some => none ⟨t, ht, some⟩)

theorem le_total {f : Task → Nat} {ts : List Task} {t : Task} (h : t ∈ ts) : f t ≤ total f ts :=
  List.single_le_sum (fun _ _ => Nat.zero_le _) _ (List.mem_map_of_mem h)

/-- What two tasks have counts twice. -/
theorem add_le_total (f : Task → Nat) {ts : List Task} {i j : Nat} {t u : Task} (found : ts[i]? = some t)
    (found' : ts[j]? = some u) (ne : i ≠ j) : f t + f u ≤ total f ts := by
  induction ts generalizing i j with
  | nil => cases found
  | cons x ts ih =>
    rw [show total f (x :: ts) = f x + total f ts from List.sum_cons]
    cases i with
    | zero =>
      cases j with
      | zero => exact absurd rfl ne
      | succ j =>
        obtain rfl := Option.some.inj found
        have hu : u ∈ ts := List.mem_of_getElem? found'
        exact Nat.add_le_add_left (le_total hu) _
    | succ i =>
      cases j with
      | zero =>
        obtain rfl := Option.some.inj found'
        have ht : t ∈ ts := List.mem_of_getElem? found
        rw [Nat.add_comm]
        exact Nat.add_le_add_left (le_total ht) _
      | succ j => exact Nat.le_add_left_of_le (ih found found' fun same => ne (congrArg _ same))

/-- Whether a build is one for a lock of a container. -/
def Build.uses (b : Build) (c : ContainerId) (m : MutexId) : Bool := b.container == c && b.lock == m

namespace Task

/-- How many builds of a task hold a lock. -/
def holding (c : ContainerId) (m : MutexId) (t : Task) : Nat := t.builds.countP (·.uses c m)

/-- How many builds of a task, one or none, are in line for a lock. -/
def lining (c : ContainerId) (m : MutexId) (t : Task) : Nat := t.line?.toList.countP (·.uses c m)

/-- The builds of a task that hold their lock or are in line for it. -/
def locked (t : Task) : List Build := t.line?.toList ++ t.builds

/-- How many builds of a key on a container a task has in progress. -/
def building (c : ContainerId) (key : Key) (t : Task) : Nat :=
  t.builds.countP fun b => b.container == c && b.key == key

end Task

theorem Task.exists_begun {t : Task} {b : Build} (line : t.line? = some b) :
    ∃ t' : Task, t'.line? = none ∧ t'.builds = b :: t.builds := by
  obtain ⟨k, a, below⟩ := t
  cases a with
  | line b' =>
    obtain rfl := Option.some.inj line
    exact ⟨⟨.answer, .give (k := .answer) (.ok default), .cons (.build b') below⟩, rfl, rfl⟩
  | resolve | fill | pause | perform | windDown | await | give => cases line

/-- Whether the build locks of all containers are what the builds of the tasks need. -/
structure Locked (w : World) (ts : List Task) : Prop where
  entry : ∀ t ∈ ts, ∀ b ∈ t.locked, (w.container b.container).locks.entries.get? b.key = some b.lock
  holds : ∀ c m, total (Task.holding c m) ts ≤ ((w.container c).locks.mutex m).holder.toList.length
  waits : ∀ c m, total (Task.lining c m) ts ≤ ((w.container c).locks.mutex m).waiting.length
  made : ∀ c key m, (w.container c).locks.entries.get? key = some m → m < w.tickets
  apart : ∀ c key key' m, (w.container c).locks.entries.get? key = some m →
    (w.container c).locks.entries.get? key' = some m → key = key'

namespace Locked

variable {w w' : World} {ts : List Task}

/-- At most one build of a key is in progress on a container. -/
theorem exclusive (h : Locked w ts) (c : ContainerId) (key : Key) : total (Task.building c key) ts ≤ 1 := by
  by_cases none : ∀ t ∈ ts, Task.building c key t = 0
  · rw [total_eq_zero none]
    exact Nat.zero_le _
  · obtain ⟨t, ht, b, hb, uses⟩ : ∃ t ∈ ts, ∃ b ∈ t.builds, (b.container == c && b.key == key) = true := by
      simpa [Task.building] using none
    obtain ⟨rfl, rfl⟩ : b.container = c ∧ b.key = key := by simpa using uses
    -- All of them hold the lock of the key's entry.
    have one : total (Task.building b.container b.key) ts ≤ total (Task.holding b.container b.lock) ts := by
      refine List.sum_le_sum fun t' ht' => List.countP_mono_left fun b' hb' uses' => ?_
      obtain ⟨hc, hkey⟩ : b'.container = b.container ∧ b'.key = b.key := by simpa using uses'
      have entry := h.entry t ht b (List.mem_append_right _ hb)
      have entry' := h.entry t' ht' b' (List.mem_append_right _ hb')
      rw [hc, hkey, entry] at entry'
      simp [Build.uses, hc, Option.some.inj entry']
    have holds := h.holds b.container b.lock
    have most : ((w.container b.container).locks.mutex b.lock).holder.toList.length ≤ 1 := by
      cases ((w.container b.container).locks.mutex b.lock).holder <;> simp
    omega

/-! ## Steps of a lock -/

theorem mem_of_holding {c : ContainerId} {m : MutexId} (h : total (Task.holding c m) ts ≠ 0) :
    ∃ t ∈ ts, ∃ b ∈ t.locked, b.container = c ∧ b.lock = m := by
  obtain ⟨t, ht, some⟩ := exists_of_total h
  obtain ⟨b, hb, uses⟩ := List.countP_pos_iff.1 (Nat.pos_of_ne_zero some)
  exact ⟨t, ht, b, List.mem_append_right _ hb, by simpa [Build.uses] using uses⟩

theorem mem_of_lining {c : ContainerId} {m : MutexId} (h : total (Task.lining c m) ts ≠ 0) :
    ∃ t ∈ ts, ∃ b ∈ t.locked, b.container = c ∧ b.lock = m := by
  obtain ⟨t, ht, some⟩ := exists_of_total h
  obtain ⟨b, hb, uses⟩ := List.countP_pos_iff.1 (Nat.pos_of_ne_zero some)
  exact ⟨t, ht, b, List.mem_append_left _ hb, by simpa [Build.uses] using uses⟩

/-- What leaves the locks of all builds alone. -/
theorem frame {ts' : List Task} (h : Locked w ts) (same : ∀ u ∈ ts', ∀ b ∈ u.locked, ∃ t ∈ ts, b ∈ t.locked)
    (holding : ∀ c m, total (Task.holding c m) ts' ≤ total (Task.holding c m) ts)
    (lining : ∀ c m, total (Task.lining c m) ts' ≤ total (Task.lining c m) ts) (tickets : w'.tickets = w.tickets)
    (kept : ∀ t ∈ ts, ∀ b ∈ t.locked, (w'.container b.container).locks = (w.container b.container).locks)
    (locks : ∀ c, (w'.container c).locks = (w.container c).locks ∨ (w'.container c).locks = {}) : Locked w' ts' where
  entry u hu b hb := by
    obtain ⟨t, ht, hb⟩ := same u hu b hb
    rw [kept t ht b hb]
    exact h.entry t ht b hb
  holds c m := by
    by_cases none : total (Task.holding c m) ts = 0
    · exact Nat.le_trans (holding c m) (none ▸ Nat.zero_le _)
    · obtain ⟨t, ht, b, hb, rfl, -⟩ := mem_of_holding none
      rw [kept t ht b hb]
      exact Nat.le_trans (holding _ m) (h.holds _ m)
  waits c m := by
    by_cases none : total (Task.lining c m) ts = 0
    · exact Nat.le_trans (lining c m) (none ▸ Nat.zero_le _)
    · obtain ⟨t, ht, b, hb, rfl, -⟩ := mem_of_lining none
      rw [kept t ht b hb]
      exact Nat.le_trans (lining _ m) (h.waits _ m)
  made c key m hm := by
    rw [tickets]
    rcases locks c with e | e <;> rw [e] at hm
    · exact h.made c key m hm
    · cases hm
  apart c key key' m hm hm' := by
    rcases locks c with e | e <;> rw [e] at hm hm'
    · exact h.apart c key key' m hm hm'
    · cases hm

section Steps

variable {i : Nat} {t t' : Task} {b : Build}

theorem locked_of_mem_set (h : ∀ b ∈ t'.locked, ∃ t ∈ ts, b ∈ t.locked) {u : Task} (hu : u ∈ ts.set i t') :
    ∀ b ∈ u.locked, ∃ t ∈ ts, b ∈ t.locked := by
  intro b hb
  rcases List.mem_or_eq_of_mem_set hu with hu | rfl
  · exact ⟨u, hu, hb⟩
  · exact h b hb

theorem one_le_of_locked {u : Task} (hu : u ∈ ts) (hb : b ∈ u.locked) :
    1 ≤ total (Task.holding b.container b.lock) ts + total (Task.lining b.container b.lock) ts := by
  have uses : b.uses b.container b.lock = true := by simp [Build.uses]
  have holding : Task.holding b.container b.lock u ≤ _ := le_total hu
  have lining : Task.lining b.container b.lock u ≤ _ := le_total hu
  rcases List.mem_append.1 hb with hb | hb
  · have : 0 < Task.lining b.container b.lock u := List.countP_pos_iff.2 ⟨b, hb, uses⟩
    omega
  · have : 0 < Task.holding b.container b.lock u := List.countP_pos_iff.2 ⟨b, hb, uses⟩
    omega

theorem holding_of_builds (h : t'.builds = b :: t.builds) (c : ContainerId) (m : MutexId) :
    Task.holding c m t' = Task.holding c m t + if b.container = c ∧ b.lock = m then 1 else 0 := by
  simp [Task.holding, h, List.countP_cons, Build.uses]

theorem lining_of_line (h : t.line? = some b) (c : ContainerId) (m : MutexId) :
    Task.lining c m t = if b.container = c ∧ b.lock = m then 1 else 0 := by
  simp [Task.lining, h, Build.uses]

theorem lining_of_none (h : t.line? = none) (c : ContainerId) (m : MutexId) : Task.lining c m t = 0 := by
  simp [Task.lining, h]

/-- A build in line is given its lock, which is free. -/
theorem letIn (h : Locked w ts) (found : ts[i]? = some t) (alive : w.Alive b.container) (line : t.line? = some b)
    (turn : w.mayStart b = true) (builds : t'.builds = b :: t.builds) (line' : t'.line? = none) :
    Locked (w.letIn b) (ts.set i t') := by
  obtain ⟨free, first⟩ : ((w.container b.container).locks.mutex b.lock).holder = none ∧
      ((w.container b.container).locks.mutex b.lock).waiting.head? = some b.ticket := by
    simpa [World.mayStart, Locks.grantable, Mutex.grantable] using turn
  have entries := World.entries_letIn alive
  constructor
  case entry =>
    intro u hu b' hb'
    rw [entries]
    have old : ∀ b' ∈ t'.locked, ∃ t ∈ ts, b' ∈ t.locked := by
      intro b' hb'
      refine ⟨t, List.mem_of_getElem? found, ?_⟩
      simpa [Task.locked, line, line', builds] using hb'
    obtain ⟨u, hu, hb'⟩ := locked_of_mem_set old hu b' hb'
    exact h.entry u hu b' hb'
  case holds =>
    intro c m
    have sum := total_set (Task.holding c m) found t'
    have before := h.holds c m
    rw [holding_of_builds builds] at sum
    rw [World.mutex_letIn alive]
    split at sum
    · next e =>
      obtain ⟨rfl, rfl⟩ := e
      rw [free] at before
      simp only [Option.toList_none, List.length_nil] at before
      simp only [true_and, if_true, Mutex.grant, Option.toList_some, List.length_singleton]
      omega
    · next e =>
      rw [if_neg e]
      omega
  case waits =>
    intro c m
    have sum := total_set (Task.lining c m) found t'
    have before := h.waits c m
    rw [lining_of_line line, lining_of_none line'] at sum
    rw [World.mutex_letIn alive]
    split at sum
    · next e =>
      obtain ⟨rfl, rfl⟩ := e
      have length := List.length_erase_of_mem (List.mem_of_mem_head? first)
      simp only [true_and, if_true, Mutex.grant, length]
      omega
    · next e =>
      rw [if_neg e]
      omega
  case made =>
    intro c key m hm
    rw [entries] at hm
    exact h.made c key m hm
  case apart =>
    intro c key key' m hm hm'
    rw [entries] at hm hm'
    exact h.apart c key key' m hm hm'

/-- Who leaves a lock no longer holds it. -/
theorem holding_leave (h : Locked w ts) (found : ts[i]? = some t) (alive : w.Alive b.container)
    (builds : t.builds = b :: t'.builds) (c : ContainerId) (m : MutexId) :
    total (Task.holding c m) (ts.set i t') ≤ (((w.leave b).container c).locks.mutex m).holder.toList.length := by
  have sum := total_set (Task.holding c m) found t'
  have before := h.holds c m
  have one : ((w.container c).locks.mutex m).holder.toList.length ≤ 1 := by
    cases ((w.container c).locks.mutex m).holder <;> simp
  rw [holding_of_builds builds] at sum
  rw [World.mutex_leave alive]
  split at sum
  · next e =>
    rw [if_pos e]
    simp only [Option.toList_none, List.length_nil]
    omega
  · next e =>
    rw [if_neg e]
    omega

theorem lining_leave (h : Locked w ts) (found : ts[i]? = some t) (alive : w.Alive b.container) (line : t.line? = none)
    (line' : t'.line? = none) (c : ContainerId) (m : MutexId) :
    total (Task.lining c m) (ts.set i t') ≤ (((w.leave b).container c).locks.mutex m).waiting.length := by
  have sum := total_set (Task.lining c m) found t'
  have before := h.waits c m
  rw [lining_of_none line, lining_of_none line'] at sum
  rw [World.mutex_leave alive]
  split
  · dsimp only
    omega
  · omega

/-- A build leaves its lock, whose entry goes if nobody is in line. -/
theorem leave (h : Locked w ts) (found : ts[i]? = some t) (alive : w.Alive b.container)
    (builds : t.builds = b :: t'.builds) (line : t.line? = none) (line' : t'.line? = none) :
    Locked (w.leave b) (ts.set i t') := by
  have ht := List.mem_of_getElem? found
  have own := h.entry t ht b (by simp [Task.locked, builds])
  have holds := h.holding_leave found alive builds
  have waits := h.lining_leave found alive line line'
  have entries := World.entries_leave alive own
  have old : ∀ b' ∈ t'.locked, ∃ t ∈ ts, b' ∈ t.locked := by
    intro b' hb'
    refine ⟨t, ht, ?_⟩
    simp [Task.locked, line, line', builds] at hb' ⊢
    exact .inr hb'
  have before : ∀ {c key m}, ((w.leave b).container c).locks.entries.get? key = some m →
      (w.container c).locks.entries.get? key = some m := by
    intro c key m hm
    rw [entries] at hm
    split at hm
    · cases hm
    · exact hm
  refine ⟨fun u hu b' hb' => ?_, holds, waits, fun c key m hm => h.made c key m (before hm),
    fun c key key' m hm hm' => h.apart c key key' m (before hm) (before hm')⟩
  obtain ⟨u', hu', hb''⟩ := locked_of_mem_set old hu b' hb'
  have entry := h.entry u' hu' b' hb''
  rw [entries, entry]
  apply if_neg
  rintro ⟨hc, hkey, nobody⟩
  -- Whoever still needs the entry would hold the lock or be in line for it.
  have same : b'.lock = b.lock := by
    rw [← hc, ← hkey, own] at entry
    exact (Option.some.inj entry).symm
  have some := one_le_of_locked hu hb'
  have hholds := holds b'.container b'.lock
  have hwaits := waits b'.container b'.lock
  rw [World.mutex_leave alive, if_pos ⟨hc, same.symm⟩] at hholds hwaits
  rw [← hc] at nobody
  simp only [same, ← hc, nobody, Option.toList_none, List.length_nil] at some hholds hwaits
  omega

/-- A lock that has no entry is not used yet. -/
theorem new_unused (h : Locked w ts) (c : ContainerId) :
    total (Task.holding c w.tickets) ts = 0 ∧ total (Task.lining c w.tickets) ts = 0 := by
  constructor <;> by_contra used
  · obtain ⟨u, hu, b, hb, rfl, new⟩ := mem_of_holding used
    exact absurd (h.made _ _ _ (h.entry u hu b hb)) (new ▸ Nat.lt_irrefl _)
  · obtain ⟨u, hu, b, hb, rfl, new⟩ := mem_of_lining used
    exact absurd (h.made _ _ _ (h.entry u hu b hb)) (new ▸ Nat.lt_irrefl _)

/-- The line that a build joins is as long as the tasks need. -/
theorem le_lineFor (h : Locked w ts) (enters : w.enter b.container b.key = (b.lock, b.ticket, w')) :
    total (Task.holding b.container b.lock) ts ≤
        ((w.container b.container).locks.lineFor b.key b.lock).holder.toList.length ∧
      total (Task.lining b.container b.lock) ts ≤
        ((w.container b.container).locks.lineFor b.key b.lock).waiting.length := by
  rcases World.entry_of_enter enters with entry | ⟨entry, new⟩
  · simp only [Locks.lineFor, entry]
    exact ⟨h.holds _ _, h.waits _ _⟩
  · obtain ⟨holding, lining⟩ := h.new_unused b.container
    rw [new, holding, lining]
    exact ⟨Nat.zero_le _, Nat.zero_le _⟩

/-- No other key of the container has the lock that a build lines up for. -/
theorem lock_ne (h : Locked w ts) (enters : w.enter b.container b.key = (b.lock, b.ticket, w')) {key : Key}
    (ne : b.key ≠ key) : (w.container b.container).locks.entries.get? key ≠ some b.lock := by
  intro hkey
  rcases World.entry_of_enter enters with entry | ⟨-, new⟩
  · exact ne (h.apart _ _ _ _ entry hkey)
  · exact absurd (h.made _ _ _ hkey) (new ▸ Nat.lt_irrefl _)

/-- A build lines up, with a new ticket, for the lock of its key. -/
theorem enter (h : Locked w ts) (found : ts[i]? = some t) (alive : w.Alive b.container) (line : t.line? = none)
    (builds : t'.builds = t.builds) (line' : t'.line? = some b)
    (enters : w.enter b.container b.key = (b.lock, b.ticket, w')) : Locked w' (ts.set i t') := by
  have entries := World.entries_of_enter enters alive
  have mutex := World.mutex_of_enter enters alive
  constructor
  case entry =>
    intro u hu b' hb'
    have old : b' = b ∨ ∃ t ∈ ts, b' ∈ t.locked := by
      rcases List.mem_or_eq_of_mem_set hu with hu | rfl
      · exact .inr ⟨u, hu, hb'⟩
      · have hb' : b' = b ∨ b' ∈ t.builds := by simpa [Task.locked, line', builds] using hb'
        exact hb'.imp id fun hb' => ⟨t, List.mem_of_getElem? found, List.mem_append_right _ hb'⟩
    rw [entries]
    rcases old with rfl | ⟨u, hu, hb'⟩
    · exact if_pos ⟨rfl, rfl⟩
    · have entry := h.entry u hu b' hb'
      split
      · next e =>
        obtain ⟨hc, hkey⟩ := e
        rw [← hc, ← hkey] at entry
        rcases World.entry_of_enter enters with lock | ⟨lock, -⟩ <;> rw [lock] at entry
        · exact entry
        · cases entry
      · exact entry
  case holds =>
    intro c m
    have sum := total_set (Task.holding c m) found t'
    have same : Task.holding c m t' = Task.holding c m t := by simp [Task.holding, builds]
    have before := h.holds c m
    rw [mutex]
    split
    · next e =>
      obtain ⟨rfl, rfl⟩ := e
      have := (h.le_lineFor enters).1
      dsimp only
      omega
    · omega
  case waits =>
    intro c m
    have sum := total_set (Task.lining c m) found t'
    have before := h.waits c m
    rw [lining_of_none line, lining_of_line line'] at sum
    rw [mutex]
    split at sum
    · next e =>
      obtain ⟨rfl, rfl⟩ := e
      have := (h.le_lineFor enters).2
      simp only [true_and, if_true, List.length_append, List.length_singleton]
      omega
    · next e =>
      rw [if_neg e]
      omega
  case made =>
    intro c key m hm
    rw [World.tickets_of_enter enters]
    rw [entries] at hm
    split at hm
    · next e =>
      obtain ⟨rfl, rfl⟩ := e
      obtain rfl := Option.some.inj hm
      rcases World.entry_of_enter enters with lock | ⟨-, new⟩
      · exact Nat.lt_succ_of_lt (h.made _ _ _ lock)
      · exact new ▸ Nat.lt_succ_self _
    · exact Nat.lt_succ_of_lt (h.made _ _ _ hm)
  case apart =>
    intro c key key' m hm hm'
    rw [entries] at hm hm'
    split at hm <;> split at hm'
    · next e e' => exact e.2.symm.trans e'.2
    · next e e' =>
      obtain ⟨rfl, rfl⟩ := e
      obtain rfl := Option.some.inj hm
      exact absurd hm' (h.lock_ne enters fun e => e' ⟨rfl, e⟩)
    · next e e' =>
      obtain ⟨rfl, rfl⟩ := e'
      obtain rfl := Option.some.inj hm'
      exact absurd hm (h.lock_ne enters fun e' => e ⟨rfl, e'⟩)
    · exact h.apart _ _ _ _ hm hm'

end Steps

end Locked

/-! ## Locks in runs -/

/-- Whether no lock of the containers `held` was touched, nor any other unless its container was ended. -/
structure World.KeepsLocks (held : List ContainerId) (w w' : World) : Prop where
  tickets : w'.tickets = w.tickets
  kept : ∀ c ∈ held, (w'.container c).locks = (w.container c).locks
  locks : ∀ c, (w'.container c).locks = (w.container c).locks ∨ (w'.container c).locks = {}

namespace World.KeepsLocks

variable {p : Program} {held : List ContainerId} {w w' w'' : World}

theorem of_eq (tickets : w'.tickets = w.tickets) (locks : ∀ c, (w'.container c).locks = (w.container c).locks) :
    KeepsLocks held w w' :=
  ⟨tickets, fun c _ => locks c, fun c => .inl (locks c)⟩

theorem trans (h : KeepsLocks held w w') (h' : KeepsLocks held w' w'') : KeepsLocks held w w'' where
  tickets := h'.tickets.trans h.tickets
  kept c hc := (h'.kept c hc).trans (h.kept c hc)
  locks c := by
    rcases h'.locks c with e | e <;> rw [e]
    · exact h.locks c
    · exact .inr rfl

theorem of_edits (h : w.Edits p held w') : KeepsLocks held w w' :=
  ⟨h.tickets, fun _ hc => (h.editedAt hc).locks, h.locks⟩

theorem of_edited (h : w.Edited p held w') : KeepsLocks held w w' := by
  obtain ⟨others, h⟩ := h
  exact ⟨h.tickets, fun _ hc => (h.editedAt (List.mem_append_right _ hc)).locks, h.locks⟩

theorem record (w : World) (b : Build) (v : Instance) : KeepsLocks held w (w.record b v) := by
  unfold World.record
  dsimp only
  split
  · exact .of_eq rfl fun c => by rw [locks_modifyCallbacks, locks_modifyCache]
  · exact .of_eq rfl fun c => by rw [locks_modifyCache]

theorem terminate (w : World) (c : ContainerId) : KeepsLocks held w (w.terminate c).2 :=
  .of_eq rfl fun _ => (locks_modifyCache ..).trans (locks_modifyCallbacks ..)

/-- The end of containers touches no lock of those that tasks work with. -/
theorem settled (w : World) (ts : List Task) : KeepsLocks (ts.flatMap Task.held) w (System.settledWorld w ts) :=
  have released : w.Edits {} (ts.flatMap Task.held) (w.release (ts.flatMap Task.held)) := .single .release
  (of_edits released).trans (.of_eq rfl fun _ => rfl)

end World.KeepsLocks

namespace Locked

variable {p : Program} {held : List ContainerId} {w w' : World} {ts : List Task} {i : Nat} {t t' : Task}

theorem keeps (h : Locked w ts) (k : World.KeepsLocks held w w')
    (hh : ∀ t ∈ ts, ∀ b ∈ t.locked, b.container ∈ held) : Locked w' ts :=
  h.frame (fun u hu _ hb => ⟨u, hu, hb⟩) (fun _ _ => Nat.le_refl _) (fun _ _ => Nat.le_refl _) k.tickets
    (fun t ht b hb => k.kept _ (hh t ht b hb)) k.locks

/-- A task goes on with the same builds. -/
theorem set (h : Locked w ts) (found : ts[i]? = some t) (line : t'.line? = t.line?) (builds : t'.builds = t.builds) :
    Locked w (ts.set i t') := by
  have same : t'.locked = t.locked := by rw [Task.locked, Task.locked, line, builds]
  refine h.frame (fun u hu => locked_of_mem_set (fun b hb => ?_) hu) (fun c m => ?_) (fun c m => ?_) rfl
    (fun _ _ _ _ => rfl) fun _ => .inl rfl
  · exact ⟨t, List.mem_of_getElem? found, same ▸ hb⟩
  · have sum := total_set (Task.holding c m) found t'
    have : Task.holding c m t' = Task.holding c m t := by rw [Task.holding, Task.holding, builds]
    omega
  · have sum := total_set (Task.lining c m) found t'
    have : Task.lining c m t' = Task.lining c m t := by rw [Task.lining, Task.lining, line]
    omega

/-- Tasks without builds come in. -/
theorem append {us : List Task} (h : Locked w ts) (none : ∀ u ∈ us, u.locked = []) : Locked w (ts ++ us) := by
  have without : ∀ u ∈ us, u.line?.toList = [] ∧ u.builds = [] := by
    intro u hu
    exact List.append_eq_nil_iff.1 (none u hu)
  refine h.frame (fun u hu b hb => ?_) (fun c m => ?_) (fun c m => ?_) rfl (fun _ _ _ _ => rfl) fun _ => .inl rfl
  · rcases List.mem_append.1 hu with hu | hu
    · exact ⟨u, hu, hb⟩
    · rw [none u hu] at hb
      cases hb
  · have zero : ∀ u ∈ us, Task.holding c m u = 0 := fun u hu => by
      rw [Task.holding, (without u hu).2, List.countP_nil]
    exact (total_append_of_none zero ts).le
  · have zero : ∀ u ∈ us, Task.lining c m u = 0 := fun u hu => by
      rw [Task.lining, (without u hu).1, List.countP_nil]
    exact (total_append_of_none zero ts).le

theorem held_of_mem {b : Build} (hb : b ∈ t.locked) : b.container ∈ t.held := by
  rcases List.mem_append.1 hb with hb | hb
  · exact Task.held_of_line (Option.mem_toList.1 hb)
  · exact Task.held_of_mem_builds hb

theorem step {st : Step} (h : Locked w ts) (sound : System.Sound w ts) (found : ts[i]? = some t)
    (does : t.Does p (ts.flatMap Task.held) w st) (turn : ∀ b, t.line? = some b → w.mayStart b = true) :
    Locked st.world (ts.set i st.task) := by
  have ht := List.mem_of_getElem? found
  have held : ∀ u ∈ ts, ∀ b ∈ u.locked, b.container ∈ ts.flatMap Task.held := by
    intro u hu b hb
    exact System.held_of_mem hu _ (held_of_mem hb)
  have alive : ∀ b ∈ t.locked, w.Alive b.container := by
    intro b hb
    exact sound.alive t ht _ (held_of_mem hb)
  cases does with
  | calm before _ edited builds _ after =>
    exact (h.keeps (.of_edited edited) held).set found (after.line.trans before.line.symm) builds
  | makes b v before _ w₁ edits world builds _ line =>
    exact (h.keeps (.of_edits (edits.trans world.edits)) held).set found (line.trans before.line.symm) builds
  | linesUp b before _ alive _ enters builds _ line => exact h.enter found alive before.line builds line enters
  | skips b line _ _ world builds _ after =>
    -- As if it started the build and left it at once.
    have hb := alive b (by simp [Task.locked, line])
    obtain ⟨begun, line', builds'⟩ := Task.exists_begun line
    have h₁ := h.letIn found hb line (turn b line) builds' line'
    have found₁ : (ts.set i begun)[i]? = some begun := by
      rw [List.getElem?_set_self (List.getElem?_eq_some_iff.1 found).1]
    rw [world, ← List.set_set begun]
    exact h₁.leave found₁ (Step.alive_letIn hb) (builds ▸ builds') line' after.line
  | begins b line _ _ _ edits builds _ after =>
    have hb : b ∈ t.locked := by simp [Task.locked, line]
    have h₁ := h.letIn found (alive b hb) line (turn b line) builds after.line
    have same : st.task.locked = t.locked := by simp [Task.locked, line, after.line, builds]
    apply h₁.keeps (.of_edits edits)
    intro u hu b' hb'
    obtain ⟨u, hu, hb'⟩ := locked_of_mem_set (fun b' hb' => ⟨t, ht, same ▸ hb'⟩) hu b' hb'
    exact held u hu b' hb'
  | aborts b before _ world builds _ after =>
    rw [world]
    exact h.leave found (alive b (by simp [Task.locked, builds])) builds before.line after.line
  | completes b v line _ _ w₁ edits world builds _ after =>
    have hb : b ∈ t.locked := by simp [Task.locked, builds]
    have h₁ := h.keeps ((World.KeepsLocks.record w b v).trans (.of_edits edits)) held
    rw [world]
    exact h₁.leave found (edits.alive_held (Step.alive_record v (alive b hb)) (held t ht b hb)) builds line after.line
  | terminates c n before _ _ w₁ edits _ world builds _ _ after =>
    rw [world]
    exact (h.keeps ((World.KeepsLocks.of_edits edits).trans (.terminate w₁ c)) held).set found
      (after.line.trans before.line.symm) builds
  | finalizes x before _ _ world builds _ after =>
    rw [world]
    have told : Locked (w.tell (.finalized x.2.1.script.id x.2.2)) ts := h.keeps (.of_eq rfl fun _ => rfl) held
    exact told.set found (after.line.trans before.line.symm) builds
  | passes x before _ _ world builds _ after =>
    rw [world]
    exact h.set found (after.line.trans before.line.symm) builds

end Locked

namespace System

variable {p : Program} {s : System}

theorem locked_ofTeardowns (tss : List (List Teardown)) : ∀ u ∈ tss.map Task.ofTeardowns, u.locked = [] := by
  intro u hu
  obtain ⟨_, _, rfl⟩ := List.mem_map.1 hu
  rfl

/-- Builds have their locks in every run. -/
theorem Reachable.locked (h : Reachable p s) : Locked s.world s.tasks := by
  refine (h.induction ?start ?step ?release ?begin ?forget ?renew).2
  case start =>
    intro name
    have free : ∀ c, ((({} : World).openRoot name).container c).locks = {} := by
      intro c
      exact (World.editedAt_add {} c rfl rfl rfl rfl).locks
    refine ⟨fun u hu => (List.not_mem_nil hu).elim, fun _ _ => Nat.zero_le _, fun _ _ => Nat.zero_le _,
      fun c key m hm => ?_, fun c key key' m hm => ?_⟩
    · rw [free] at hm
      cases hm
    · rw [free] at hm
      cases hm
  case step =>
    intro w ts i t st sound h found does turn opens
    apply (h.step sound found does turn).append
    intro u hu
    obtain ⟨s, o, rfl, -⟩ := opens.started u hu
    rfl
  case release =>
    -- What is ended has no builds, since those keep their containers open.
    intro w ts sound h
    refine (h.keeps (.settled w ts) fun u hu b hb => ?_).append (locked_ofTeardowns _)
    exact held_of_mem hu _ (Locked.held_of_mem hb)
  case begin =>
    intro w ts o h
    exact h.append fun u hu => by rw [List.mem_singleton.1 hu]; rfl
  case forget =>
    intro w ts name h
    have forgot : World.KeepsLocks (ts.flatMap Task.held) w (w.forget name) := .of_eq rfl fun _ => rfl
    exact h.keeps forgot fun u hu b hb => held_of_mem hu _ (Locked.held_of_mem hb)
  case renew =>
    intro w ts h
    exact h.frame (fun u hu => (List.not_mem_nil hu).elim) (fun _ _ => Nat.zero_le _) (fun _ _ => Nat.zero_le _) rfl
      (fun _ _ _ _ => rfl) fun _ => .inl rfl

/-- In every run, at most one build of a key is in progress on a container. -/
theorem Reachable.exclusive (h : Reachable p s) (c : ContainerId) (key : Key) :
    total (Task.building c key) s.tasks ≤ 1 := h.locked.exclusive c key

end System

end Injector
