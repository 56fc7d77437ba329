import Injector.Proofs.Turns
/-!
# Where teardowns are

The teardown of an instance is with the container that built it, with what an ended container
left, or with a task that does what a container had left (`Place`). `World.Only`: there is one,
and it is at a place. What each change of the world and of the tasks does to that place is
said here: an edit leaves it alone or ends its container (`Edits.only`), a termination gives it to
the task (`Only.takes`), and so does the end of a container that nobody can reach (`Only.settle`).
-/
namespace Injector

/-- Where the teardown of an instance can be. -/
inductive Place where
  | container (c : ContainerId)
  /-- With what ended containers left, before a task takes it over. -/
  | orphan (i : Nat)
  /-- With a task, which runs it before what waits at that height goes on. -/
  | task (i height : Nat)
  deriving DecidableEq, Repr

/-- Where a teardown is once new tasks, after `n` others, have taken over what ended containers left. -/
def Place.adopted (n : Nat) : Option Place → Option Place
  | some (.orphan i) => some (.task (n + i) 1)
  | q => q

/-- The teardowns of an instance among others. -/
def teardownsOf (v : Instance) (l : List (Finalizer × Instance)) : List (Finalizer × Instance) :=
  l.filter fun x => x.2.same v

/-- What a task has left to finalize before what waits at a height goes on. -/
def Task.leftAt (ts : List Task) (i height : Nat) : List (Finalizer × Instance) :=
  (((ts[i]?).map Task.left).getD []).filterMap fun x => if x.1 = height then some x.2 else none

/-- Whether task `i` is new and does what an ended container left, `l` first of all. -/
def Task.TakesOver (ts ts' : List Task) (i : Nat) (l : List (Finalizer × Instance)) : Prop :=
  ts[i]? = none ∧ ∃ left, ts'[i]? = some (.ofTeardowns left) ∧ l <+: finals left

namespace World

/-- The finalizers at a place, each with its instance. -/
def teardowns (w : World) (ts : List Task) : Place → List (Finalizer × Instance)
  | .container c => w.finals c
  | .orphan i => Injector.finals ((w.orphans[i]?).getD [])
  | .task i height => Task.leftAt ts i height

/-- Whether the only teardown of `v`, with finalizer `f`, is at place `q`, or nowhere. -/
def Only (w : World) (ts : List Task) (v : Instance) (f : Finalizer) (q : Option Place) : Prop :=
  ∀ q', teardownsOf v (w.teardowns ts q') = if q = some q' then [(f, v)] else []

end World

/-! ## What tasks have left -/

namespace Task

variable {ts us : List Task} {i : Nat} {t t' : Task}

theorem leftAt_of (found : ts[i]? = some t) (height : Nat) :
    leftAt ts i height = t.left.filterMap fun x => if x.1 = height then some x.2 else none := by
  simp [leftAt, found]

theorem leftAt_eq_nil (h : ∀ t, ts[i]? = some t → t.left = []) (height : Nat) : leftAt ts i height = [] := by
  unfold leftAt
  cases found : ts[i]? with
  | none => rfl
  | some t => simp [h t found]

/-- What is left at one height is left at no other. -/
theorem filterMap_height (l : List (Finalizer × Instance)) (n height : Nat) :
    (l.map (Prod.mk n)).filterMap (fun x : Pending => if x.1 = height then some x.2 else none) =
      if n = height then l else [] := by
  induction l with
  | nil => simp
  | cons x l ih =>
    rw [List.map_cons, List.filterMap_cons, ih]
    by_cases e : n = height <;> simp [e]

theorem leftAt_append (none : ∀ u ∈ us, u.left = []) (j height : Nat) : leftAt (ts ++ us) j height = leftAt ts j height := by
  by_cases h : j < ts.length
  · rw [leftAt, List.getElem?_append_left h, leftAt]
  · rw [leftAt_eq_nil (fun t found => ?_), leftAt_eq_nil fun t found => ?_]
    · rw [List.getElem?_eq_none (Nat.not_lt.1 h)] at found
      cases found
    · rw [List.getElem?_append_right (Nat.not_lt.1 h)] at found
      exact none t (List.mem_of_getElem? found)

theorem leftAt_set_of_ne {j : Nat} (h : i ≠ j) (height : Nat) : leftAt (ts.set i t') j height = leftAt ts j height := by
  rw [leftAt, List.getElem?_set_ne h, leftAt]

theorem leftAt_set (found : ts[i]? = some t) (height : Nat) : leftAt (ts.set i t') i height =
    t'.left.filterMap fun x => if x.1 = height then some x.2 else none :=
  leftAt_of (List.getElem?_set_self (List.getElem?_eq_some_iff.1 found).1) height

/-- A task that goes on with what it had left. -/
theorem leftAt_set_of_left (found : ts[i]? = some t) (left : t'.left = t.left) (j height : Nat) :
    leftAt (ts.set i t') j height = leftAt ts j height := by
  by_cases e : i = j
  · subst e
    rw [leftAt_set found, leftAt_of found, left]
  · exact leftAt_set_of_ne e height

end Task

namespace World

variable {w w' : World} {ts ts' : List Task} {v : Instance} {f : Finalizer} {q : Option Place}

theorem Only.congr (h : w.Only ts v f q)
    (same : ∀ q', teardownsOf v (w'.teardowns ts' q') = teardownsOf v (w.teardowns ts q')) : w'.Only ts' v f q :=
  fun q' => (same q').trans (h q')

theorem Only.of_world (h : w.Only ts v f q) (finals : ∀ c, w'.finals c = w.finals c) (orphans : w'.orphans = w.orphans) :
    w'.Only ts v f q := by
  apply h.congr
  intro q'
  cases q' with
  | container c => rw [teardowns, finals, teardowns]
  | orphan i => rw [teardowns, orphans, teardowns]
  | task => rfl

theorem Only.of_tasks (h : w.Only ts v f q) (left : ∀ j height, Task.leftAt ts' j height = Task.leftAt ts j height) :
    w.Only ts' v f q := by
  apply h.congr
  intro q'
  cases q' with
  | container | orphan => rfl
  | task j height => rw [teardowns, left, teardowns]

/-! ## Edits -/

theorem finals_close (w : World) (c c' : ContainerId) :
    (w.close c).finals c' = if c = c' then [] else w.finals c' := by
  unfold finals
  by_cases h : c < w.containers.length
  · rw [container_close w c' h]
    split <;> rfl
  · have same : (w.close c).container c' = w.container c' := by
      change (w.modify c _).container c' = _
      rw [container_modify, if_neg fun e => h e.2]
    rw [same]
    split
    · next e => rw [← e, container_of_ge (Nat.not_lt.1 h)]; rfl
    · rfl

theorem orphan_close (w : World) (c : ContainerId) (i : Nat) : Injector.finals (((w.close c).orphans[i]?).getD []) =
    if i = w.orphans.length then w.finals c else Injector.finals ((w.orphans[i]?).getD []) := by
  unfold close finals
  dsimp only
  split
  · next none =>
    split
    · next e => rw [e, List.getElem?_eq_none (Nat.le_refl _), List.isEmpty_iff.1 none]; rfl
    · rfl
  · split
    · next e => rw [e, List.getElem?_concat_length]; rfl
    · next ne =>
      rcases Nat.lt_or_gt_of_ne ne with h | h
      · rw [List.getElem?_append_left h]
      · have past : (w.orphans ++ [(w.container c).callbacks.terminating]).length ≤ i := by
          rw [List.length_append]
          exact h
        rw [List.getElem?_eq_none (Nat.le_of_lt h), List.getElem?_eq_none past]

theorem Only.close (h : w.Only ts v f q) (c : ContainerId) :
    (w.close c).Only ts v f (if q = some (.container c) then some (.orphan w.orphans.length) else q) := by
  intro q'
  cases q' with
  | container c' =>
    have at' := h (.container c')
    simp only [teardowns, finals_close] at at' ⊢
    by_cases e : c = c'
    · subst e
      by_cases hq : q = some (.container c) <;> simp [hq, teardownsOf]
    · rw [if_neg e, at']
      by_cases hq : q = some (.container c) <;> simp [hq, e]
  | orphan i =>
    have at' := h (.orphan i)
    have here := h (.container c)
    simp only [teardowns, orphan_close] at at' here ⊢
    by_cases e : i = w.orphans.length
    · subst e
      have none : q ≠ some (.orphan w.orphans.length) := by
        intro hq
        rw [if_pos hq, List.getElem?_eq_none (Nat.le_refl _)] at at'
        cases at'
      rw [if_pos rfl, here]
      by_cases hq : q = some (.container c) <;> simp [hq, none]
    · rw [if_neg e, at']
      by_cases hq : q = some (.container c) <;> simp [hq, Ne.symm e]
  | task i height =>
    have at' := h (.task i height)
    simp only [teardowns] at at' ⊢
    rw [at']
    by_cases hq : q = some (.container c) <;> simp [hq]

theorem orphans_close (w : World) (c : ContainerId) : w.orphans <+: (w.close c).orphans := by
  unfold close
  dsimp only
  split
  · exact List.prefix_refl _
  · exact List.prefix_append _ _

theorem orphans_closeAll (cs : List ContainerId) : ∀ w : World, w.orphans <+: (cs.foldl close w).orphans := by
  induction cs with
  | nil => exact fun w => List.prefix_refl _
  | cons c cs ih => exact fun w => (orphans_close w c).trans (ih _)

/-- What was left stays so. -/
theorem orphan_mono (h : w.orphans <+: w'.orphans) (i : Nat) :
    Injector.finals ((w.orphans[i]?).getD []) <+: Injector.finals ((w'.orphans[i]?).getD []) := by
  cases here : w.orphans[i]? with
  | none => exact List.nil_prefix
  | some us =>
    obtain ⟨more, h⟩ := h
    have same : w'.orphans[i]? = some us := by
      rw [← h]
      exact System.get?_append here more
    exact same ▸ List.prefix_rfl

theorem Only.closeAll (cs : List ContainerId) : ∀ {w q}, w.Only ts v f q → ∃ q', (cs.foldl World.close w).Only ts v f q' ∧
    (q' = q ∧ (∀ c ∈ cs, q ≠ some (.container c)) ∨ ∃ c ∈ cs, ∃ i, q = some (.container c) ∧ q' = some (.orphan i) ∧
      w.finals c <+: Injector.finals (((cs.foldl World.close w).orphans[i]?).getD [])) := by
  induction cs with
  | nil => exact fun {w q} h => ⟨q, h, .inl ⟨rfl, fun c hc => (List.not_mem_nil hc).elim⟩⟩
  | cons c cs ih =>
    intro w q h
    obtain ⟨q', only, moved⟩ := ih (h.close c)
    refine ⟨q', only, ?_⟩
    by_cases hq : q = some (.container c)
    · rw [if_pos hq] at moved
      rcases moved with ⟨rfl, -⟩ | ⟨c', -, i, h, -⟩
      · -- The first was the one; the others only add to what was left.
        have left := orphan_mono (orphans_closeAll cs (w.close c)) w.orphans.length
        rw [orphan_close, if_pos rfl] at left
        exact .inr ⟨c, List.mem_cons_self, _, hq, rfl, left⟩
      · cases h
    · rw [if_neg hq] at moved
      rcases moved with ⟨rfl, others⟩ | ⟨c', hc', i, hq', moved, left⟩
      · refine .inl ⟨rfl, fun d hd => ?_⟩
        rcases List.mem_cons.1 hd with rfl | hd
        · exact hq
        · exact others d hd
      · rw [finals_close, if_neg fun e : c = c' => hq (e ▸ hq')] at left
        exact .inr ⟨c', List.mem_cons_of_mem _ hc', i, hq', moved, left⟩

/-- What becomes of where a teardown is: it stays there, or its container is ended. -/
inductive Moved (w w' : World) : Option Place → Option Place → Prop where
  | stays {q : Option Place} (kept : ∀ c, q = some (.container c) → w.finals c <+: w'.finals c) : Moved w w' q q
  | ends {c : ContainerId} (i : Nat) (dead : (w'.container c).live = false)
    (left : w.finals c <+: Injector.finals ((w'.orphans[i]?).getD [])) :
    Moved w w' (some (.container c)) (some (.orphan i))

theorem Moved.trans {w'' : World} {q' q'' : Option Place} (h : Moved w w' q q') (h' : Moved w' w'' q' q'')
    (dead : ∀ {c}, (w'.container c).live = false → (w''.container c).live = false)
    (orphans : w'.orphans <+: w''.orphans) : Moved w w'' q q'' := by
  cases h with
  | stays kept =>
    cases h' with
    | stays kept' => exact .stays fun c hq => (kept c hq).trans (kept' c hq)
    | ends i dead' left => exact .ends i dead' ((kept _ rfl).trans left)
  | ends i dead' left =>
    cases h' with
    | stays => exact .ends i (dead dead') (left.trans (orphan_mono orphans i))

theorem Moved.of_finals (same : ∀ c, w'.finals c = w.finals c) : Moved w w' q q :=
  .stays fun c _ => same c ▸ List.prefix_rfl

/-- What an ended container had left is left for a task. -/
theorem Only.release (h : w.Only ts v f q) (held : List ContainerId) :
    ∃ q', (w.release held).Only ts v f q' ∧ Moved w (w.release held) q q' := by
  obtain ⟨q', only, ⟨rfl, others⟩ | ⟨c, hc, i, rfl, rfl, left⟩⟩ := h.closeAll (w.unreachable held)
  · refine ⟨_, only, .stays fun c hq => ?_⟩
    have kept : (w.release held).finals c = w.finals c := by
      rw [finals, finals, container_release, if_neg fun hu => others c hu hq]
    exact kept ▸ List.prefix_rfl
  · exact ⟨_, only, .ends i (by rw [container_release, if_pos hc]; rfl) left⟩

variable {p : Program} {held : List ContainerId}

theorem Edit.orphans (h : w.Edit p held w') : w' = w.release held ∨ w'.orphans = w.orphans := by
  cases h with
  | release => exact .inl rfl
  | save name v => cases name <;> exact .inr rfl
  | _ => exact .inr rfl

theorem Edit.orphans_prefix (h : w.Edit p held w') : w.orphans <+: w'.orphans := by
  rcases h.orphans with rfl | same
  · exact orphans_closeAll _ w
  · exact same ▸ List.prefix_rfl

theorem Edit.dead (h : w.Edit p held w') {c : ContainerId} (dead : (w.container c).live = false) :
    (w'.container c).live = false := by
  rcases h.editedAt c with same | ⟨rfl, hu⟩
  · exact same.live.trans dead
  · rw [container_release, if_pos hu]
    rfl

theorem Edit.only (h : w.Edit p held w') (only : w.Only ts v f q) : ∃ q', w'.Only ts v f q' ∧ Moved w w' q q' := by
  by_cases released : w' = w.release held
  · exact released ▸ only.release held
  · have same : ∀ c, w'.finals c = w.finals c := by
      intro c
      exact ((h.editedAt c).resolve_right fun e => released e.1).finals
    exact ⟨q, only.of_world same (h.orphans.resolve_left released), .of_finals same⟩

theorem Edits.orphans_prefix (h : w.Edits p held w') : w.orphans <+: w'.orphans := by
  induction h with
  | refl => exact List.prefix_refl _
  | tail _ h ih => exact ih.trans h.orphans_prefix

theorem Edits.dead (h : w.Edits p held w') {c : ContainerId} (dead : (w.container c).live = false) :
    (w'.container c).live = false := by
  induction h with
  | refl => exact dead
  | tail _ h ih => exact h.dead ih

/-- Edits leave a teardown where it is, or end the container that has it. -/
theorem Edits.only (h : w.Edits p held w') (only : w.Only ts v f q) : ∃ q', w'.Only ts v f q' ∧ Moved w w' q q' := by
  induction h with
  | refl => exact ⟨q, only, .of_finals fun _ => rfl⟩
  | tail _ h ih =>
    obtain ⟨q₁, only₁, moved⟩ := ih
    obtain ⟨q₂, only₂, moved'⟩ := h.only only₁
    exact ⟨q₂, only₂, moved.trans moved' h.dead h.orphans_prefix⟩

/-! ## Records and terminations -/

theorem finals_modifyLocks (w : World) (c : ContainerId) (g : Locks → Locks) (c' : ContainerId) :
    (w.modifyLocks c g).finals c' = w.finals c' := by
  unfold finals
  rw [callbacks_modifyLocks]

variable {b : Build} {c : ContainerId}

theorem finals_of_enter (enters : w.enter b.container b.key = (b.lock, b.ticket, w')) (c : ContainerId) :
    w'.finals c = w.finals c := by
  rw [← world_of_enter enters]
  exact finals_modifyLocks w b.container (fun _ => _) c

theorem orphans_of_enter (enters : w.enter b.container b.key = (b.lock, b.ticket, w')) : w'.orphans = w.orphans := by
  rw [← world_of_enter enters]
  rfl

theorem finals_letIn (w : World) (b : Build) (c : ContainerId) : (w.letIn b).finals c = w.finals c :=
  finals_modifyLocks ..

theorem finals_leave (w : World) (b : Build) (c : ContainerId) : (w.leave b).finals c = w.finals c :=
  finals_modifyLocks ..

theorem Only.leave (h : w.Only ts v f q) (b : Build) : (w.leave b).Only ts v f q := h.of_world (finals_leave w b) rfl

theorem Moved.leave {q' : Option Place} (h : Moved w w' q q') (b : Build) : Moved w (w'.leave b) q q' :=
  h.trans (.of_finals (finals_leave w' b)) (fun dead => (live_modifyLocks ..).trans dead) List.prefix_rfl

theorem finals_record (alive : w.Alive b.container) (v : Instance) (c : ContainerId) : (w.record b v).finals c =
    w.finals c ++ if b.container = c then (b.finalizer.map (·, v)).toList else [] := by
  have recorded := w.callbacks_modifyCache b.container c fun x =>
    (if b.lifetime.cached then x.insert b.key v else x).markResolved b.key.plain
  unfold finals record
  dsimp only
  cases b.finalizer with
  | none =>
    dsimp only
    rw [recorded]
    split <;> simp
  | some f =>
    dsimp only
    rw [World.modifyCallbacks, container_modify, modifyCache, length_containers_modify]
    by_cases e : b.container = c
    · rw [if_pos ⟨e, alive.1⟩, if_pos e]
      dsimp only
      rw [modifyCache] at recorded
      rw [recorded]
      simp [Callbacks.addTeardown, Injector.finals]
    · rw [if_neg fun h => e h.1, if_neg e, List.append_nil]
      rw [modifyCache] at recorded
      rw [recorded]

theorem Moved.record (alive : w.Alive b.container) (v : Instance) : Moved w (w.record b v) q q :=
  .stays fun c _ => by
    rw [finals_record alive]
    exact List.prefix_append _ _

theorem orphans_record (w : World) (b : Build) (v : Instance) : (w.record b v).orphans = w.orphans := by
  unfold record
  dsimp only
  split <;> rfl

/-- The teardown of another instance is recorded, or none. -/
theorem Only.record_of_other (h : w.Only ts v f q) (alive : w.Alive b.container) {v' : Instance}
    (other : b.finalizer = none ∨ v'.serial ≠ v.serial) : (w.record b v').Only ts v f q := by
  apply h.congr
  intro q'
  cases q' with
  | container c =>
    rw [teardowns, finals_record alive, teardowns]
    rcases other with none | ne
    · rw [none]
      split <;> simp
    · cases b.finalizer <;> split <;> simp [teardownsOf, Shared.same, ne]
  | orphan i => rw [teardowns, orphans_record, teardowns]
  | task => rfl

/-- The teardown of an instance is recorded, with the container of the build. -/
theorem Only.record (h : w.Only ts v f none) (alive : w.Alive b.container) (hf : b.finalizer = some f) :
    (w.record b v).Only ts v f (some (.container b.container)) := by
  intro q'
  have at' := h q'
  rw [if_neg (by simp)] at at'
  cases q' with
  | container c =>
    simp only [teardowns, finals_record alive, hf] at at' ⊢
    rw [teardownsOf, List.filter_append, ← teardownsOf, at']
    by_cases e : b.container = c <;> simp [e, Shared.same]
  | orphan i =>
    simp only [teardowns, orphans_record] at at' ⊢
    rw [at', if_neg (by simp)]
  | task i height =>
    simp only [teardowns] at at' ⊢
    rw [at', if_neg (by simp)]

theorem finals_terminate (alive : w.Alive c) (c' : ContainerId) :
    (w.terminate c).2.finals c' = if c = c' then [] else w.finals c' := by
  unfold finals terminate
  dsimp only
  rw [callbacks_modifyCache, modifyCallbacks, container_modify]
  by_cases e : c = c'
  · rw [if_pos ⟨e, alive.1⟩, if_pos e]
    rfl
  · rw [if_neg fun h => e h.1, if_neg e]

/-- Task `i` takes over what a container has left, for when `n` wait. -/
theorem Only.takes (h : w.Only ts v f q) (alive : w.Alive c) {i n : Nat} {t t' : Task} (found : ts[i]? = some t)
    (left : t'.left = (w.finals c).map (Prod.mk n) ++ t.left) : (w.terminate c).2.Only (ts.set i t') v f
      (if q = some (.container c) then some (.task i n) else q) := by
  intro q'
  have at' := h q'
  have here := h (.container c)
  cases q' with
  | container c' =>
    simp only [teardowns, finals_terminate alive] at at' here ⊢
    by_cases e : c = c'
    · subst e
      by_cases hq : q = some (.container c) <;> simp [hq, teardownsOf]
    · rw [if_neg e, at']
      by_cases hq : q = some (.container c) <;> simp [hq, e]
  | orphan j =>
    simp only [teardowns] at at' ⊢
    change teardownsOf v (Injector.finals ((w.orphans[j]?).getD [])) = _
    rw [at']
    by_cases hq : q = some (.container c) <;> simp [hq]
  | task j height =>
    simp only [teardowns] at at' here ⊢
    by_cases e : i = j
    · subst e
      rw [Task.leftAt_of found] at at'
      rw [Task.leftAt_set found, left, List.filterMap_append, teardownsOf, List.filter_append, ← teardownsOf,
        ← teardownsOf, at', Task.filterMap_height]
      -- The task gets all that the container had, for one height.
      by_cases eh : n = height
      · subst eh
        rw [if_pos rfl, here]
        by_cases hq : q = some (.container c) <;> simp [hq]
      · rw [if_neg eh]
        by_cases hq : q = some (.container c) <;> simp [hq, eh, teardownsOf]
    · rw [Task.leftAt_set_of_ne e, at']
      by_cases hq : q = some (.container c) <;> simp [hq, e]

/-- Task `i` is done with a finalizer. If it is that of `v`, there is none any more. -/
theorem Only.pops (h : w.Only ts v f q) {i : Nat} {t t' : Task} {x : Pending} (found : ts[i]? = some t)
    (left : t.left = x :: t'.left) :
    x = (x.1, f, v) ∧ q = some (.task i x.1) ∧ w.Only (ts.set i t') v f none ∨
      x.2.2.same v = false ∧ w.Only (ts.set i t') v f q := by
  have before : ∀ height, Task.leftAt ts i height =
      (if x.1 = height then [x.2] else []) ++ Task.leftAt (ts.set i t') i height := by
    intro height
    rw [Task.leftAt_of found, left, Task.leftAt_set found, List.filterMap_cons]
    split <;> simp_all
  cases same : x.2.2.same v with
  | false =>
    refine .inr ⟨rfl, h.congr fun q' => ?_⟩
    cases q' with
    | container | orphan => rfl
    | task j height =>
      by_cases e : i = j
      · subst e
        rw [teardowns, teardowns, before, teardownsOf, teardownsOf, List.filter_append]
        split <;> simp [same]
      · rw [teardowns, Task.leftAt_set_of_ne e, teardowns]
  | true =>
    -- The task has a teardown of `v`, so that is the place.
    have here := h (.task i x.1)
    have one : List.filter (fun y : Finalizer × Instance => y.2.same v) [x.2] = [x.2] := by simp [same]
    rw [teardowns, before, if_pos rfl, teardownsOf, List.filter_append, one] at here
    have hq : q = some (.task i x.1) := by
      by_contra ne
      rw [if_neg ne] at here
      simp at here
    rw [if_pos hq, List.singleton_append] at here
    obtain ⟨hx, none⟩ := List.cons.inj here
    refine .inl ⟨by rw [← hx], hq, fun q' => ?_⟩
    have at' := h q'
    rw [if_neg (by simp)]
    cases q' with
    | container c =>
      rw [hq, if_neg (by simp)] at at'
      exact at'
    | orphan j =>
      rw [hq, if_neg (by simp)] at at'
      exact at'
    | task j height =>
      rw [hq] at at'
      by_cases e : i = j
      · subst e
        by_cases eh : x.1 = height
        · exact eh ▸ none
        · rw [if_neg (by simp [eh]), teardowns, before, if_neg eh, List.nil_append] at at'
          exact at'
      · rw [if_neg (by simp [e])] at at'
        rw [teardowns, Task.leftAt_set_of_ne e]
        exact at'

/-! ## What is left for tasks -/

theorem left_ofTeardowns (us : List Teardown) : (Task.ofTeardowns us).left = (Injector.finals us).map (Prod.mk 1) :=
  List.append_nil _

theorem leftAt_adopted (oss : List (List Teardown)) {j : Nat} (new : ts.length ≤ j) (height : Nat) :
    Task.leftAt (ts ++ oss.map .ofTeardowns) j height =
      if height = 1 then Injector.finals ((oss[j - ts.length]?).getD []) else [] := by
  rw [Task.leftAt, List.getElem?_append_right new, List.getElem?_map]
  cases oss[j - ts.length]? with
  | none => split <;> rfl
  | some us =>
    simp only [Option.map_some, Option.getD_some, left_ofTeardowns, Task.filterMap_height]
    simp only [eq_comm]

/-- What ended containers left is taken over by new tasks. -/
theorem Only.adopt (h : w.Only ts v f q) : ({ w with orphans := [] } : World).Only
    (ts ++ w.orphans.map .ofTeardowns) v f (Place.adopted ts.length q) := by
  intro q'
  have at' := h q'
  cases q' with
  | container c =>
    rw [teardowns] at at' ⊢
    refine at'.trans ?_
    rcases q with _ | _ | i | ⟨j, height⟩ <;> simp [Place.adopted]
  | orphan i =>
    rw [teardowns]
    rcases q with _ | _ | i | ⟨j, height⟩ <;> simp [Place.adopted, teardownsOf, Injector.finals]
  | task j height =>
    rw [teardowns] at at' ⊢
    by_cases old : j < ts.length
    · rw [Task.leftAt, List.getElem?_append_left old, ← Task.leftAt, at']
      rcases q with _ | _ | i | ⟨j, height⟩ <;> simp [Place.adopted]
      omega
    · have new := Nat.not_lt.1 old
      have none : q ≠ some (.task j height) := by
        intro hq
        rw [if_pos hq, Task.leftAt_eq_nil fun t found => absurd (List.getElem?_eq_some_iff.1 found).1 old] at at'
        cases at'
      -- New tasks do nothing but what was left, and nothing waits for that.
      rw [leftAt_adopted _ new]
      by_cases eh : height = 1
      · subst eh
        rw [if_pos rfl]
        refine (h (.orphan (j - ts.length))).trans ?_
        rcases q with _ | _ | i | ⟨j', height⟩ <;> simp [Place.adopted]
        · have same : i = j - ts.length ↔ ts.length + i = j := by omega
          simp only [same]
        · simpa using none
      · rcases q with _ | _ | i | ⟨j', height'⟩ <;> simp [Place.adopted, eh, teardownsOf]
        · exact fun _ => Ne.symm eh
        · simpa using none

theorem Only.takesOver {i : Nat} (h : (w.release (ts.flatMap Task.held)).Only ts v f (some (.orphan i))) :
    Task.TakesOver ts (System.settledTasks w ts) (ts.length + i)
      (Injector.finals (((w.release (ts.flatMap Task.held)).orphans[i]?).getD [])) := by
  refine ⟨List.getElem?_eq_none (Nat.le_add_right _ _), ?_⟩
  have here := h (.orphan i)
  rw [if_pos rfl, teardowns] at here
  cases left : (w.release (ts.flatMap Task.held)).orphans[i]? with
  | none =>
    rw [left] at here
    cases here
  | some us =>
    refine ⟨us, ?_, List.prefix_refl _⟩
    rw [System.settledTasks, List.getElem?_append_right (Nat.le_add_right _ _), Nat.add_sub_cancel_left,
      List.getElem?_map, left]
    rfl

/-- Ending what nobody can reach leaves a teardown where it is, or gives it to a new task. -/
theorem Only.settle (h : w.Only ts v f q) : ∃ q',
    (System.settledWorld w ts).Only (System.settledTasks w ts) v f q' ∧ (∀ j, q' ≠ some (.orphan j)) ∧
      (q' = q ∨ ∃ j l, q' = some (.task j 1) ∧ Task.TakesOver ts (System.settledTasks w ts) j l ∧
        ((∃ i, q = some (.orphan i) ∧ Injector.finals ((w.orphans[i]?).getD []) <+: l) ∨
          ∃ c, q = some (.container c) ∧ ((System.settledWorld w ts).container c).live = false ∧ w.finals c <+: l)) := by
  obtain ⟨q₁, only, moved⟩ := h.release (ts.flatMap Task.held)
  refine ⟨_, only.adopt, ?_, ?_⟩
  · rcases q₁ with _ | _ | i | _ <;> simp [Place.adopted]
  · cases moved with
    | stays =>
      rcases q with _ | c | i | ⟨j, height⟩
      · exact .inl rfl
      · exact .inl rfl
      · exact .inr ⟨_, _, rfl, only.takesOver, .inl ⟨i, rfl, orphan_mono (orphans_closeAll _ w) i⟩⟩
      · exact .inl rfl
    | ends i dead left => exact .inr ⟨_, _, rfl, only.takesOver, .inr ⟨_, rfl, dead, left⟩⟩

/-- What is with no container stays where it is. -/
theorem Only.settle_of_taken (h : w.Only ts v f q) (taken : ∀ c, q ≠ some (.container c)) (settled : ∀ i, q ≠ some (.orphan i)) :
    (System.settledWorld w ts).Only (System.settledTasks w ts) v f q := by
  obtain ⟨q', only, -, rfl | ⟨-, -, -, -, ⟨i, hq, -⟩ | ⟨c, hq, -⟩⟩⟩ := h.settle
  · exact only
  · exact absurd hq (settled i)
  · exact absurd hq (taken c)

/-- A task goes on with what it had left, and others come that have nothing left. -/
theorem Only.goesOn (h : w.Only ts v f q) {i : Nat} {t t' : Task} (found : ts[i]? = some t) (left : t'.left = t.left)
    {us : List Task} (none : ∀ u ∈ us, u.left = []) : w.Only (ts.set i t' ++ us) v f q :=
  h.of_tasks fun j height => (Task.leftAt_append none j height).trans (Task.leftAt_set_of_left found left j height)

end World

end Injector
