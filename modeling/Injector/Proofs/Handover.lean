import Injector.Proofs.BuildLocks
import Injector.Proofs.Turns
/-!
# Locks are handed on

`Locked` says that tasks have the locks they need. `Attended` is the converse: a lock is held
only while a task builds by it, and every ticket in line is that of a task that waits. So a
lock that nobody builds by is given to the first in line, whatever became of the builds before
(`Reachable.exists_ready`); who waits and has no turn waits for a task that builds the key
(`Reachable.exists_builder`).
-/
namespace Injector

/-- Whether all that the build locks of all containers know of are builds of the tasks. -/
structure Attended (w : World) (ts : List Task) : Prop where
  held : ∀ {c m ticket}, ((w.container c).locks.mutex m).holder = some ticket →
    ∃ t ∈ ts, ∃ b ∈ t.builds, b.container = c ∧ b.lock = m
  queued : ∀ {c m ticket}, ticket ∈ ((w.container c).locks.mutex m).waiting →
    ∃ t ∈ ts, ∃ b, t.line? = some b ∧ b.container = c ∧ b.lock = m ∧ b.ticket = ticket
  issued : ∀ {c m ticket}, ticket ∈ ((w.container c).locks.mutex m).waiting → ticket < w.tickets
  nodup : ∀ c m, ((w.container c).locks.mutex m).waiting.Nodup

/-- What one of the tasks is, one of them still is when a task goes on that keeps it. -/
theorem exists_mem_set {P : Task → Prop} {ts : List Task} {i : Nat} {t t' : Task} (found : ts[i]? = some t)
    (h : ∃ u ∈ ts, P u) (kept : P t → P t') : ∃ u ∈ ts.set i t', P u := by
  obtain ⟨u, hu, hp⟩ := h
  obtain ⟨j, hj⟩ := List.getElem?_of_mem hu
  by_cases e : i = j
  · subst e
    obtain rfl := Option.some.inj (hj.symm.trans found)
    exact ⟨t', List.mem_set (List.getElem?_eq_some_iff.1 found).1 _, kept hp⟩
  · refine ⟨u, List.mem_of_getElem? (i := j) ?_, hp⟩
    rw [List.getElem?_set_ne e, hj]

namespace Attended

variable {p : Program} {held : List ContainerId} {w w' : World} {ts us : List Task} {i : Nat} {t t' : Task} {b : Build}

/-- Without builds, no lock is held and nobody is in line. -/
theorem of_nobody (free : ∀ c m, ((w.container c).locks.mutex m).holder = none)
    (nobody : ∀ c m, ((w.container c).locks.mutex m).waiting = []) : Attended w ts where
  held h := by simp [free] at h
  queued h := by simp [nobody] at h
  issued h := by simp [nobody] at h
  nodup c m := by simp [nobody]

theorem keeps (h : Attended w ts) (k : World.KeepsLocks held w w') : Attended w' ts where
  held {c m ticket} holds := by
    rcases k.locks c with e | e <;> rw [e] at holds
    · exact h.held holds
    · cases holds
  queued {c m ticket} waits := by
    rcases k.locks c with e | e <;> rw [e] at waits
    · exact h.queued waits
    · cases waits
  issued {c m ticket} waits := by
    rw [k.tickets]
    rcases k.locks c with e | e <;> rw [e] at waits
    · exact h.issued waits
    · cases waits
  nodup c m := by
    rcases k.locks c with e | e <;> rw [e]
    · exact h.nodup c m
    · exact List.nodup_nil

theorem append (h : Attended w ts) : Attended w (ts ++ us) where
  held holds :=
    let ⟨t, ht, b⟩ := h.held holds
    ⟨t, List.mem_append_left _ ht, b⟩
  queued waits :=
    let ⟨t, ht, b⟩ := h.queued waits
    ⟨t, List.mem_append_left _ ht, b⟩
  issued := h.issued
  nodup := h.nodup

/-- A task goes on with the same builds. -/
theorem set (h : Attended w ts) (found : ts[i]? = some t) (line : t'.line? = t.line?) (builds : t'.builds = t.builds) :
    Attended w (ts.set i t') where
  held holds := by
    apply exists_mem_set found (h.held holds)
    rw [builds]
    exact id
  queued waits := by
    apply exists_mem_set found (h.queued waits)
    rw [line]
    exact id
  issued := h.issued
  nodup := h.nodup

/-- A build in line is given its lock. -/
theorem letIn (h : Attended w ts) (found : ts[i]? = some t) (alive : w.Alive b.container) (line : t.line? = some b)
    (builds : t'.builds = b :: t.builds) : Attended (w.letIn b) (ts.set i t') := by
  have mutex := World.mutex_letIn alive
  have waiting : ∀ {c m ticket}, ticket ∈ (((w.letIn b).container c).locks.mutex m).waiting →
      ticket ∈ ((w.container c).locks.mutex m).waiting ∧ (b.container = c ∧ b.lock = m → b.ticket ≠ ticket) := by
    intro c m ticket waits
    rw [mutex] at waits
    split at waits
    · have waits := (h.nodup c m).mem_erase_iff.1 waits
      exact ⟨waits.2, fun _ => Ne.symm waits.1⟩
    · next other => exact ⟨waits, fun e => absurd e other⟩
  constructor
  case held =>
    intro c m ticket holds
    rw [mutex] at holds
    by_cases e : b.container = c ∧ b.lock = m
    · refine ⟨t', List.mem_set (List.getElem?_eq_some_iff.1 found).1 _, b, ?_, e⟩
      simp [builds]
    · rw [if_neg e] at holds
      refine exists_mem_set found (h.held holds) fun ⟨b', hb', uses⟩ => ⟨b', ?_, uses⟩
      simp [builds, hb']
  case queued =>
    intro c m ticket waits
    obtain ⟨waits, other⟩ := waiting waits
    refine exists_mem_set found (h.queued waits) fun ⟨b', line', hc, hm, hticket⟩ => ?_
    -- The ticket of the build that is let in is no longer in line.
    obtain rfl := Option.some.inj (line.symm.trans line')
    exact absurd hticket (other ⟨hc, hm⟩)
  case issued =>
    intro c m ticket waits
    exact h.issued (waiting waits).1
  case nodup =>
    intro c m
    rw [mutex]
    split
    · exact (h.nodup c m).erase _
    · exact h.nodup c m

/-- A build leaves its lock. -/
theorem leave (h : Attended w ts) (found : ts[i]? = some t) (alive : w.Alive b.container)
    (builds : t.builds = b :: t'.builds) (line : t.line? = none) : Attended (w.leave b) (ts.set i t') := by
  have mutex := World.mutex_leave alive
  have waiting : ∀ c m, (((w.leave b).container c).locks.mutex m).waiting =
      ((w.container c).locks.mutex m).waiting := by
    intro c m
    rw [mutex]
    split <;> rfl
  constructor
  case held =>
    intro c m ticket holds
    rw [mutex] at holds
    split at holds
    · cases holds
    · next other =>
      refine exists_mem_set found (h.held holds) fun ⟨b', hb', hc, hm⟩ => ⟨b', ?_, hc, hm⟩
      rw [builds] at hb'
      rcases List.mem_cons.1 hb' with rfl | hb'
      · exact absurd ⟨hc, hm⟩ other
      · exact hb'
  case queued =>
    intro c m ticket waits
    rw [waiting] at waits
    refine exists_mem_set found (h.queued waits) fun ⟨b', line', _⟩ => ?_
    rw [line] at line'
    cases line'
  case issued =>
    intro c m ticket waits
    rw [waiting] at waits
    exact h.issued waits
  case nodup =>
    intro c m
    rw [waiting]
    exact h.nodup c m

/-- A build lines up with a new ticket. -/
theorem enter (h : Attended w ts) (found : ts[i]? = some t) (alive : w.Alive b.container) (line : t.line? = none)
    (builds : t'.builds = t.builds) (line' : t'.line? = some b)
    (enters : w.enter b.container b.key = (b.lock, b.ticket, w')) : Attended w' (ts.set i t') := by
  have mutex := World.mutex_of_enter enters alive
  have tickets := World.tickets_of_enter enters
  have new : b.ticket = w.tickets := (World.ticket_of_enter enters).symm
  -- The line that is joined is that of the lock, or a new one.
  have joined : ∀ {ticket}, ticket ∈ ((w.container b.container).locks.lineFor b.key b.lock).waiting →
      ticket ∈ ((w.container b.container).locks.mutex b.lock).waiting := by
    intro ticket
    unfold Locks.lineFor
    split <;> simp
  have waiting : ∀ {c m ticket}, ticket ∈ ((w'.container c).locks.mutex m).waiting →
      ticket ∈ ((w.container c).locks.mutex m).waiting ∨ b.container = c ∧ b.lock = m ∧ b.ticket = ticket := by
    intro c m ticket waits
    rw [mutex] at waits
    split at waits
    · next e =>
      obtain ⟨rfl, rfl⟩ := e
      rcases List.mem_append.1 waits with waits | waits
      · exact .inl (joined waits)
      · exact .inr ⟨rfl, rfl, (List.mem_singleton.1 waits).symm⟩
    · exact .inl waits
  constructor
  case held =>
    intro c m ticket holds
    have before : ((w.container c).locks.mutex m).holder = some ticket := by
      rw [mutex] at holds
      split at holds
      · next e =>
        obtain ⟨rfl, rfl⟩ := e
        unfold Locks.lineFor at holds
        split at holds
        · cases holds
        · exact holds
      · exact holds
    apply exists_mem_set found (h.held before)
    rw [builds]
    exact id
  case queued =>
    intro c m ticket waits
    rcases waiting waits with waits | uses
    · refine exists_mem_set found (h.queued waits) fun ⟨b', line', _⟩ => ?_
      rw [line] at line'
      cases line'
    · exact ⟨t', List.mem_set (List.getElem?_eq_some_iff.1 found).1 _, b, line', uses⟩
  case issued =>
    intro c m ticket waits
    rw [tickets]
    rcases waiting waits with waits | ⟨-, -, rfl⟩
    · exact Nat.lt_succ_of_lt (h.issued waits)
    · exact new ▸ Nat.lt_succ_self _
  case nodup =>
    intro c m
    rw [mutex]
    split
    · have old : ((w.container b.container).locks.lineFor b.key b.lock).waiting.Nodup := by
        unfold Locks.lineFor
        split
        · exact List.nodup_nil
        · exact h.nodup _ _
      next e =>
      obtain ⟨rfl, rfl⟩ := e
      have fresh : b.ticket ∉ ((w.container b.container).locks.lineFor b.key b.lock).waiting := by
        intro waits
        exact absurd (h.issued (joined waits)) (new ▸ Nat.lt_irrefl _)
      refine List.nodup_append.2 ⟨old, by simp, fun ticket waits other new => ?_⟩
      rintro rfl
      exact fresh (List.mem_singleton.1 new ▸ waits)
    · exact h.nodup c m

theorem step {st : Step} (h : Attended w ts) (sound : System.Sound w ts) (found : ts[i]? = some t)
    (does : t.Does p (ts.flatMap Task.held) w st) : Attended st.world (ts.set i st.task) := by
  have alive : ∀ b ∈ t.locked, w.Alive b.container := by
    intro b hb
    exact sound.alive t (List.mem_of_getElem? found) _ (Locked.held_of_mem hb)
  cases does with
  | calm before _ edited builds _ after =>
    exact (h.keeps (.of_edited edited)).set found (after.line.trans before.line.symm) builds
  | makes b v before _ w₁ edits world builds _ line =>
    exact (h.keeps (.of_edits (edits.trans world.edits))).set found (line.trans before.line.symm) builds
  | linesUp b before _ alive _ enters builds _ line => exact h.enter found alive before.line builds line enters
  | skips b line _ _ world builds _ after =>
    -- As if it started the build and left it at once.
    have hb := alive b (by simp [Task.locked, line])
    obtain ⟨begun, line', builds'⟩ := Task.exists_begun line
    have found₁ : (ts.set i begun)[i]? = some begun := by
      rw [List.getElem?_set_self (List.getElem?_eq_some_iff.1 found).1]
    rw [world, ← List.set_set begun]
    exact (h.letIn found hb line builds').leave found₁ (Step.alive_letIn hb) (builds ▸ builds') line'
  | begins b line _ _ _ edits builds _ after =>
    exact (h.letIn found (alive b (by simp [Task.locked, line])) line builds).keeps (.of_edits edits)
  | aborts b before _ world builds =>
    rw [world]
    exact h.leave found (alive b (by simp [Task.locked, builds])) builds before.line
  | completes b v line _ _ w₁ edits world builds =>
    have hb : b ∈ t.locked := by simp [Task.locked, builds]
    have recorded : World.KeepsLocks (ts.flatMap Task.held) w (w.record b v) := .record w b v
    have h₁ := h.keeps (recorded.trans (.of_edits edits))
    have hh := System.held_of_mem (List.mem_of_getElem? found) _ (Locked.held_of_mem hb)
    rw [world]
    exact h₁.leave found (edits.alive_held (Step.alive_record v (alive b hb)) hh) builds line
  | terminates c n before _ _ w₁ edits _ world builds _ _ after =>
    rw [world]
    exact (h.keeps ((World.KeepsLocks.of_edits edits).trans (.terminate w₁ c))).set found
      (after.line.trans before.line.symm) builds
  | finalizes x before _ _ world builds _ after =>
    rw [world]
    have told : World.KeepsLocks [] w (w.tell (.finalized x.2.1.script.id x.2.2)) := .of_eq rfl fun _ => rfl
    exact (h.keeps told).set found (after.line.trans before.line.symm) builds
  | passes x before _ _ world builds _ after =>
    rw [world]
    exact h.set found (after.line.trans before.line.symm) builds

theorem settle (h : Attended w ts) : Attended (System.settledWorld w ts) (System.settledTasks w ts) :=
  (h.keeps (.settled w ts)).append

end Attended

/-- Who is finished has no builds. -/
theorem Task.locked_of_reply {t : Task} (h : t.reply? ≠ none) : t.line? = none ∧ t.builds = [] := by
  obtain ⟨r, rfl⟩ := Task.eq_of_reply h
  exact ⟨rfl, rfl⟩

namespace System

variable {p : Program} {s : System}

theorem Change.attended {s' : System} (h : Change p s s') (sound : Sound s.world s.tasks)
    (attended : Attended s.world s.tasks) : Attended s'.world s'.tasks := by
  cases h with
  | step i t st running found does turn opens world tasks =>
    rw [world, tasks]
    exact ((attended.step sound found does).append).settle
  | halts _ world tasks =>
    rw [world, tasks]
    exact attended
  | outside _ w edits us new containers world tasks =>
    rw [world, tasks]
    exact ((attended.keeps (.of_edits edits)).settle).append
  | renews _ finished world tasks =>
    -- Who is finished needs no lock.
    rw [world, tasks]
    apply Attended.of_nobody
    · intro c m
      by_contra holds
      obtain ⟨ticket, holds⟩ := Option.ne_none_iff_exists'.1 holds
      obtain ⟨t, ht, b, hb, -⟩ := attended.held holds
      rw [(Task.locked_of_reply (finished t ht)).2] at hb
      cases hb
    · intro c m
      by_contra waits
      obtain ⟨ticket, waits⟩ := List.exists_mem_of_ne_nil _ waits
      obtain ⟨t, ht, b, line, -⟩ := attended.queued waits
      rw [(Task.locked_of_reply (finished t ht)).1] at line
      cases line

/-- Locks know of no builds but those of the tasks in every run. -/
theorem Reachable.attended (h : Reachable p s) : Attended s.world s.tasks := by
  induction h with
  | start name =>
    have free : ∀ c, ((initial name).world.container c).locks = {} := by
      intro c
      exact (World.editedAt_add {} c rfl rfl rfl rfl).locks
    apply Attended.of_nobody <;> intro c m <;> rw [free] <;> rfl
  | move before moves ih => exact (moves.change before).attended before.sound ih

/-- Whether a task builds a key on a container. -/
def Builds (s : System) (c : ContainerId) (key : Key) : Prop :=
  ∃ t ∈ s.tasks, ∃ b ∈ t.builds, b.container = c ∧ b.key = key

/-- A build in line may start, or waits in the line of its lock. -/
theorem Reachable.mem_waiting (h : Reachable p s) {t : Task} {b : Build} (ht : t ∈ s.tasks) (line : t.line? = some b) :
    ((s.world.container b.container).locks.mutex b.lock).waiting ≠ [] := by
  intro nobody
  have waits := h.locked.waits b.container b.lock
  have one : Task.lining b.container b.lock t ≤ total _ _ := le_total ht
  rw [Locked.lining_of_line line, if_pos ⟨rfl, rfl⟩] at one
  rw [nobody] at waits
  simp only [List.length_nil] at waits
  omega

/-- The lock of a key that nobody builds is free. -/
theorem Reachable.holder_eq_none (h : Reachable p s) {c : ContainerId} {key : Key} {m : MutexId}
    (entry : (s.world.container c).locks.entries.get? key = some m) (nobody : ¬ s.Builds c key) :
    ((s.world.container c).locks.mutex m).holder = none := by
  by_contra holds
  obtain ⟨ticket, holds⟩ := Option.ne_none_iff_exists'.1 holds
  obtain ⟨t, ht, b, hb, rfl, rfl⟩ := h.attended.held holds
  have own := h.locked.entry t ht b (List.mem_append_right _ hb)
  exact nobody ⟨t, ht, b, hb, rfl, h.locked.apart _ _ _ _ own entry⟩

/-- Whoever is in line for a key that nobody builds, the first in line may start. -/
theorem Reachable.exists_ready (h : Reachable p s) {t : Task} {b : Build} (ht : t ∈ s.tasks) (line : t.line? = some b)
    (nobody : ¬ s.Builds b.container b.key) :
    ∃ i u b', s.tasks[i]? = some u ∧ u.line? = some b' ∧ b'.container = b.container ∧ b'.key = b.key ∧
      s.ready i = true := by
  have entry := h.locked.entry
  have own := entry t ht b (by simp [Task.locked, line])
  -- All builds with the lock are of the key.
  have same : ∀ {u b'}, u ∈ s.tasks → b' ∈ u.locked → b'.container = b.container → b'.lock = b.lock → b'.key = b.key := by
    intro u b' hu hb' hc hm
    have other := entry u hu b' hb'
    rw [hc, hm] at other
    exact h.locked.apart _ _ _ _ other own
  have free := h.holder_eq_none own nobody
  obtain ⟨ticket, others, waiting⟩ := List.exists_cons_of_ne_nil (h.mem_waiting ht line)
  obtain ⟨u, hu, b', line', hc, hm, hticket⟩ := h.attended.queued (waiting ▸ List.mem_cons_self)
  obtain ⟨i, hi⟩ := List.getElem?_of_mem hu
  refine ⟨i, u, b', hi, line', hc, same hu (by simp [Task.locked, line']) hc hm, ?_⟩
  have turn : s.world.mayStart b' = true := by
    simp [World.mayStart, Locks.grantable, Mutex.grantable, hc, hm, free, waiting, hticket]
  obtain ⟨k, a, below⟩ := u
  cases a with
  | line =>
    obtain rfl := Option.some.inj line'
    simp [ready, hi, turn]
  | resolve | fill | pause | perform | windDown | await | give => cases line'

end System

end Injector
