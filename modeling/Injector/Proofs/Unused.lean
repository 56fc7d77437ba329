import Injector.Proofs.Handover
/-!
# Locks that nobody uses

In every run the entries of the build locks are those that some task holds or waits for, and no mutex is
made before its ticket is given out or is left without an entry (`World.Swept`). So a build that finds no entry
and ends at once leaves the containers as it found them (`World.containers_of_visit`), and a container on which
nobody builds has no locks (`Reachable.locks_eq_empty`).
-/
namespace Injector

namespace Locks

variable {l : Locks} {key : Key} {m m' : MutexId} {ticket : Ticket}

/-! ## Mutexes that are not made -/

theorem get?_setMutex_of_ne (gone : l.mutexes.get? m' = none) (ne : m ≠ m') (state : Mutex) :
    (l.setMutex m state).mutexes.get? m' = none := (Table.get?_insert_of_ne _ _ ne).trans gone

theorem get?_enter_of_ne (gone : l.mutexes.get? m' = none) (ne : (l.enter key ticket).1 ≠ m') :
    (l.enter key ticket).2.mutexes.get? m' = none := by
  rcases l.enter_cases key ticket with ⟨m, -, eq⟩ | ⟨-, eq⟩ <;> rw [eq] at ne ⊢
  · exact get?_setMutex_of_ne gone ne _
  · exact (Table.get?_insert_of_ne _ _ ne).trans gone

theorem get?_leave_of_ne (gone : l.mutexes.get? m' = none) (ne : m ≠ m') :
    (l.leave key m).mutexes.get? m' = none := by
  have released : (l.release m).mutexes.get? m' = none := get?_setMutex_of_ne gone ne _
  unfold leave tidy
  split
  · split
    · simp [Table.get?_erase, released]
    · exact released
  · exact released

/-- Who lines up for a key without an entry, gets the lock and leaves it has changed nothing. -/
theorem leave_grant_enter (free : l.entries.get? key = none) (new : l.mutexes.get? ticket = none) :
    ((l.enter key ticket).2.grant (l.enter key ticket).1 ticket).leave key (l.enter key ticket).1 = l := by
  have entries : (l.entries.insert key ticket).erase key = l.entries := by
    rw [Table.erase_insert, Table.erase_eq_self _ free]
  have mutexes : ∀ a b c : Mutex, (((l.mutexes.insert ticket a).insert ticket b).insert ticket c).erase ticket = l.mutexes := by
    intro a b c
    rw [Table.erase_insert, Table.erase_insert, Table.erase_insert, Table.erase_eq_self _ new]
  simp [enter, free, grant, leave, release, tidy, setMutex, mutex, Mutex.grant, Mutex.unused, entries, mutexes]

/-! ## Mutexes that are left -/

/-- Whether each mutex is that of an entry. -/
def Entered (l : Locks) : Prop := ∀ m, l.mutexes.get? m ≠ none → ∃ key, l.entries.get? key = some m

namespace Entered

variable (h : l.Entered)
include h

theorem setMutex (entry : l.entries.get? key = some m) (state : Mutex) : (l.setMutex m state).Entered := by
  intro m' kept
  by_cases same : m = m'
  · exact ⟨key, same ▸ entry⟩
  · exact h m' (Table.get?_insert_of_ne l.mutexes state same ▸ kept)

theorem enter : (l.enter key ticket).2.Entered := by
  rcases l.enter_cases key ticket with ⟨m, entry, eq⟩ | ⟨free, eq⟩ <;> rw [eq]
  · exact h.setMutex entry _
  · intro m kept
    by_cases same : ticket = m
    · exact ⟨key, same ▸ Table.get?_insert_self _ _ _⟩
    · obtain ⟨key', entry⟩ := h m (Table.get?_insert_of_ne l.mutexes _ same ▸ kept)
      have other : key ≠ key' := by
        rintro rfl
        rw [free] at entry
        cases entry
      exact ⟨key', (Table.get?_insert_of_ne _ _ other).trans entry⟩

theorem leave (entry : l.entries.get? key = some m) : (l.leave key m).Entered := by
  have released : (l.release m).Entered := h.setMutex entry _
  unfold Locks.leave tidy
  rw [show (l.release m).entries.get? key = some m from entry]
  dsimp only
  split
  · intro m' kept
    by_cases same : m = m'
    · subst same
      exact absurd (Table.get?_erase_self _ _) kept
    · dsimp only at kept ⊢
      rw [Table.get?_erase, if_neg same] at kept
      obtain ⟨key', entry'⟩ := released m' kept
      have other : key ≠ key' := by
        rintro rfl
        exact same (Option.some.inj (entry.symm.trans entry'))
      exact ⟨key', by rw [Table.get?_erase, if_neg other, entry']⟩
  · exact released

/-- Without entries there is nothing. -/
theorem eq_empty (none : ∀ key, l.entries.get? key = none) : l = {} := by
  have mutexes : ∀ m, l.mutexes.get? m = Option.none := by
    intro m
    by_contra kept
    obtain ⟨key, entry⟩ := h m kept
    rw [none] at entry
    cases entry
  exact Locks.ext (Table.ext (funext none)) (Table.ext (funext mutexes))

end Entered

end Locks

namespace World

variable {w w' : World} {b : Build} {c : ContainerId} {key : Key}

/-- Whether all entries are of locks that somebody holds or waits for, and no mutex is made before its time or stays
without an entry. -/
structure Swept (w : World) : Prop where
  used : ∀ {c key m}, (w.container c).locks.entries.get? key = some m → ((w.container c).locks.mutex m).unused = false
  new : ∀ {c m}, w.tickets ≤ m → (w.container c).locks.mutexes.get? m = none
  entered : ∀ c, (w.container c).locks.Entered

/-- The containers are the same list if each of them is the same. -/
theorem containers_ext (length : w'.containers.length = w.containers.length)
    (same : ∀ c, w'.container c = w.container c) : w'.containers = w.containers := by
  refine List.ext_getElem length fun c hc' hc => ?_
  have at' : w'.container c = w'.containers[c] := by simp [container, hc']
  have at' : w'.containers[c] = w.containers[c] := by
    rw [← at', same]
    simp [container, hc]
  exact at'

/-- A build that finds no entry of its lock, gets the lock and leaves it has changed no container. -/
theorem containers_of_visit (swept : w.Swept) (alive : w.Alive b.container)
    (free : (w.container b.container).locks.entries.get? b.key = none)
    (enters : w.enter b.container b.key = (b.lock, b.ticket, w')) : ((w'.letIn b).leave b).containers = w.containers := by
  have tickets := ticket_of_enter enters
  have nothing : ((((w.container b.container).locks.enter b.key w.tickets).2.grant b.lock b.ticket).leave b.key b.lock) =
      (w.container b.container).locks := by
    rw [← lock_of_enter enters, ← tickets]
    exact Locks.leave_grant_enter free (swept.new (Nat.le_refl _))
  apply containers_ext
  · rw [leave, letIn, ← world_of_enter enters, enter_eq]
    simp [modifyLocks]
  · intro d
    rw [leave, letIn, modifyLocks, container_modify, modifyLocks, container_modify, ← world_of_enter enters, container_enter,
      modifyLocks, container_modify]
    by_cases here : b.container = d
    · subst here
      have length := alive.1
      simp only [length_containers_modify, enter_eq, modifyLocks, length, and_self, if_true, nothing]
    · simp [here]

namespace Swept

variable {p : Program} {held : List ContainerId} {ts : List Task} {i : Nat} {t : Task}

theorem of_free (free : ∀ c, (w.container c).locks = {}) : w.Swept where
  used entry := by
    rw [free] at entry
    cases entry
  new _ := by rw [free]; rfl
  entered c := by
    rw [free]
    exact fun _ kept => absurd rfl kept

/-! ### One lemma for each way to change a lock -/

theorem keeps (h : w.Swept) (k : KeepsLocks held w w') : w'.Swept where
  used {c key m} entry := by
    rcases k.locks c with e | e <;> rw [e] at entry ⊢
    · exact h.used entry
    · cases entry
  new {c m} later := by
    rcases k.locks c with e | e <;> rw [e]
    · exact h.new (k.tickets ▸ later)
    · rfl
  entered c := by
    rcases k.locks c with e | e <;> rw [e]
    · exact h.entered c
    · exact fun _ kept => absurd rfl kept

theorem letIn (h : w.Swept) (alive : w.Alive b.container) (made : b.lock < w.tickets)
    (entry : (w.container b.container).locks.entries.get? b.key = some b.lock) : (w.letIn b).Swept where
  used {c key m} entry := by
    rw [entries_letIn alive] at entry
    rw [mutex_letIn alive]
    split
    · rfl
    · exact h.used entry
  new {c m} later := by
    have old := h.new (c := c) later
    rw [World.letIn, locks_modifyLocks_of_alive alive]
    split
    · next here =>
      subst here
      exact Locks.get?_setMutex_of_ne old (Nat.ne_of_lt (Nat.lt_of_lt_of_le made later)) _
    · exact old
  entered c := by
    rw [World.letIn, locks_modifyLocks_of_alive alive]
    split
    · next here => exact here ▸ (h.entered _).setMutex entry _
    · exact h.entered c

theorem enter (h : w.Swept) (alive : w.Alive b.container) (locked : Locked w ts)
    (enters : w.enter b.container b.key = (b.lock, b.ticket, w')) : w'.Swept where
  used {c key m} entry := by
    rw [mutex_of_enter enters alive]
    split
    · simp [Mutex.unused]
    · next other =>
      rw [entries_of_enter enters alive] at entry
      split at entry
      · next own =>
        obtain ⟨rfl, rfl⟩ := own
        exact absurd ⟨rfl, Option.some.inj entry⟩ other
      · exact h.used entry
  new {c m} later := by
    rw [tickets_of_enter enters] at later
    have old := h.new (c := c) (Nat.le_of_succ_le later)
    rw [locks_of_enter enters alive]
    split
    · next here =>
      subst here
      apply Locks.get?_enter_of_ne old
      rw [lock_of_enter enters]
      rcases entry_of_enter enters with entry | ⟨-, new⟩
      · exact Nat.ne_of_lt (Nat.lt_trans (locked.made _ _ _ entry) later)
      · exact new ▸ Nat.ne_of_lt later
    · exact old
  entered c := by
    rw [locks_of_enter enters alive]
    split
    · next here => exact here ▸ (h.entered _).enter
    · exact h.entered c

theorem leave (h : w.Swept) (alive : w.Alive b.container) (locked : Locked w ts)
    (entry : (w.container b.container).locks.entries.get? b.key = some b.lock) : (w.leave b).Swept where
  used {c key m} entry' := by
    rw [entries_leave alive entry] at entry'
    rw [mutex_leave alive]
    split at entry'
    · cases entry'
    · next stays =>
      split
      · next own =>
        obtain ⟨rfl, rfl⟩ := own
        -- The key is the only one with this lock, so somebody is in line.
        obtain rfl := locked.apart _ _ _ _ entry entry'
        simpa [Mutex.unused] using stays
      · exact h.used entry'
  new {c m} later := by
    have old := h.new (c := c) later
    have made := locked.made _ _ _ entry
    rw [World.leave, locks_modifyLocks_of_alive alive]
    split
    · next here =>
      subst here
      exact Locks.get?_leave_of_ne old (Nat.ne_of_lt (Nat.lt_of_lt_of_le made later))
    · exact old
  entered c := by
    rw [World.leave, locks_modifyLocks_of_alive alive]
    split
    · next here =>
      subst here
      exact (h.entered _).leave entry
    · exact h.entered c

theorem step {st : Step} (h : w.Swept) (sound : System.Sound w ts) (locked : Locked w ts) (found : ts[i]? = some t)
    (does : t.Does p (ts.flatMap Task.held) w st) (turn : ∀ b, t.line? = some b → w.mayStart b = true) : st.world.Swept := by
  have ht := List.mem_of_getElem? found
  have alive : ∀ b ∈ t.locked, w.Alive b.container := by
    intro b hb
    exact sound.alive t ht _ (Locked.held_of_mem hb)
  have made : ∀ b ∈ t.locked, b.lock < w.tickets := by
    intro b hb
    exact locked.made _ _ _ (locked.entry t ht b hb)
  cases does with
  | calm _ _ edited => exact h.keeps (.of_edited edited)
  | makes _ _ _ _ _ edits world => exact h.keeps (.of_edits (edits.trans world.edits))
  | linesUp b _ _ alive _ enters => exact h.enter alive locked enters
  | skips b line _ _ world =>
    -- As if it started the build and left it at once.
    have hb : b ∈ t.locked := by simp [Task.locked, line]
    obtain ⟨begun, line', builds'⟩ := Task.exists_begun line
    have locked' := locked.letIn found (alive b hb) line (turn b line) builds' line'
    rw [world]
    refine (h.letIn (alive b hb) (made b hb) (locked.entry t ht b hb)).leave (Step.alive_letIn (alive b hb)) locked' ?_
    rw [entries_letIn (alive b hb)]
    exact locked.entry t ht b hb
  | begins b line _ _ _ edits =>
    have hb : b ∈ t.locked := by simp [Task.locked, line]
    exact (h.letIn (alive b hb) (made b hb) (locked.entry t ht b hb)).keeps (.of_edits edits)
  | aborts b _ _ world builds =>
    have hb : b ∈ t.locked := by simp [Task.locked, builds]
    rw [world]
    exact h.leave (alive b hb) locked (locked.entry t ht b hb)
  | completes b v _ _ _ w₁ edits world builds =>
    have hb : b ∈ t.locked := by simp [Task.locked, builds]
    have held : ∀ u ∈ ts, ∀ b ∈ u.locked, b.container ∈ ts.flatMap Task.held := by
      intro u hu b hb
      exact System.held_of_mem hu _ (Locked.held_of_mem hb)
    have kept : KeepsLocks (ts.flatMap Task.held) w w₁ := (KeepsLocks.record w b v).trans (.of_edits edits)
    have locked' : Locked w₁ ts := locked.keeps kept held
    have alive' : w₁.Alive b.container := edits.alive_held (Step.alive_record v (alive b hb)) (held t ht b hb)
    rw [world]
    exact (h.keeps kept).leave alive' locked' (locked'.entry t ht b hb)
  | terminates c n _ _ _ w₁ edits _ world =>
    rw [world]
    exact h.keeps ((KeepsLocks.of_edits edits).trans (.terminate w₁ c))
  | finalizes x _ _ _ world =>
    rw [world]
    have told : KeepsLocks [] w (w.tell (.finalized x.2.1.script.id x.2.2)) := .of_eq rfl fun _ => rfl
    exact h.keeps told
  | passes _ _ _ _ world =>
    rw [world]
    exact h

theorem settle (h : w.Swept) (ts : List Task) : (System.settledWorld w ts).Swept := h.keeps (.settled w ts)

end Swept

end World

namespace System

variable {p : Program} {s : System}

/-- Locks are swept in every run. -/
theorem Reachable.swept (h : Reachable p s) : s.world.Swept := by
  induction h with
  | start name => exact .of_free fun c => (World.editedAt_add {} c rfl rfl rfl rfl).locks
  | @move s s' before moves ih =>
    cases moves.change before with
    | step i t st running found does turn opens world tasks =>
      rw [world]
      exact (ih.step before.sound before.locked found does turn).settle _
    | halts _ world tasks =>
      rw [world]
      exact ih
    | outside _ w edits us new containers world tasks =>
      rw [world]
      exact (ih.keeps (.of_edits edits)).settle _
    | renews _ finished world tasks =>
      rw [world]
      have told : World.KeepsLocks [] s.world { s.world with log := [] } := .of_eq rfl fun _ => rfl
      exact ih.keeps told

/-- A key that nobody builds or is in line for has no entry. -/
theorem Reachable.entry_eq_none (h : Reachable p s) {c : ContainerId} {key : Key}
    (nobody : ∀ t ∈ s.tasks, ∀ b ∈ t.locked, b.container = c → b.key ≠ key) : (s.world.container c).locks.entries.get? key = none := by
  by_contra some
  obtain ⟨m, entry⟩ := Option.ne_none_iff_exists'.1 some
  have other : ∀ t ∈ s.tasks, ∀ b ∈ t.locked, b.container = c → b.lock ≠ m := by
    rintro t ht b hb rfl rfl
    exact nobody t ht b hb rfl (h.locked.apart _ _ _ _ (h.locked.entry t ht b hb) entry)
  have used := h.swept.used entry
  rw [Mutex.unused, Bool.and_eq_false_iff] at used
  rcases used with holds | waits
  · obtain ⟨ticket, holds⟩ : ∃ ticket, ((s.world.container c).locks.mutex m).holder = Option.some ticket := by
      simpa [Option.isSome_iff_exists] using holds
    obtain ⟨t, ht, b, hb, hc, hm⟩ := h.attended.held holds
    exact other t ht b (List.mem_append_right _ hb) hc hm
  · obtain ⟨ticket, waits⟩ := List.exists_mem_of_ne_nil _ (show ((s.world.container c).locks.mutex m).waiting ≠ [] by
      simpa using waits)
    obtain ⟨t, ht, b, line, hc, hm, -⟩ := h.attended.queued waits
    exact other t ht b (List.mem_append_left _ (Option.mem_toList.2 line)) hc hm

/-- A container on which nobody builds has no locks. -/
theorem Reachable.locks_eq_empty (h : Reachable p s) {c : ContainerId}
    (nobody : ∀ t ∈ s.tasks, ∀ b ∈ t.locked, b.container ≠ c) : (s.world.container c).locks = {} :=
  (h.swept.entered c).eq_empty fun _ => h.entry_eq_none fun t ht b hb here => absurd here (nobody t ht b hb)

end System

end Injector
