import Injector.Proofs.Turns
/-!
# Instances in caches

How the instances that containers keep change in a run. `Change.pinsAt`: the instance of a
key stays as it is unless one is pinned, a build of the key hands its instance over or the
container is terminated. `Run.apart`: no instance is ever shown under two keys or by two
containers, since what is pinned and what is built is always new (`Change.apart`).
-/
namespace Injector

namespace World

variable {p : Program} {held : List ContainerId} {w w' : World} {b : Build} {c : ContainerId} {key : Key} {v : Instance}

/-- Whether a container keeps an instance under a key. -/
def Keeps (w : World) (c : ContainerId) (key : Key) (v : Instance) : Prop := (w.container c).cache.get? key = some v

/-- What was shown as the instance of a key of a container. -/
abbrev Seen := ContainerId → Key → Instance → Prop

/-- Whether all that is kept was seen, and what was seen is numbered, each key and container apart. -/
structure Distinct (w : World) (seen : Seen) : Prop where
  kept : ∀ {c key v}, w.Keeps c key v → seen c key v
  given : ∀ {c key v}, seen c key v → v.serial < w.supply.serials
  apart : ∀ {c key v c' key' v'}, seen c key v → seen c' key' v' → v.serial = v'.serial → c = c' ∧ key = key'

/-- The instances are still apart, when more may have been seen than before. -/
def StaysDistinct (w' : World) (seen : Seen) : Prop :=
  ∃ seen' : Seen, (∀ {c key v}, seen c key v → seen' c key v) ∧ w'.Distinct seen'

variable {seen : Seen}

theorem Distinct.stays (h : w.Distinct seen) : w.StaysDistinct seen := ⟨seen, id, h⟩

theorem StaysDistinct.trans {w₁ : World} (h : w₁.StaysDistinct seen)
    (next : ∀ {seen : Seen}, w₁.Distinct seen → w'.StaysDistinct seen) : w'.StaysDistinct seen := by
  obtain ⟨seen₁, sub₁, distinct₁⟩ := h
  obtain ⟨seen₂, sub₂, distinct₂⟩ := next distinct₁
  exact ⟨seen₂, fun hv => sub₂ (sub₁ hv), distinct₂⟩

theorem Distinct.mono (h : w.Distinct seen) (grows : w.supply.serials ≤ w'.supply.serials)
    (keeps : ∀ {c key v}, w'.Keeps c key v → seen c key v) : w'.Distinct seen :=
  ⟨keeps, fun hv => Nat.lt_of_lt_of_le (h.given hv) grows, h.apart⟩

theorem Keeps.of_eq (h : (w'.container c).cache = (w.container c).cache) (hv : w'.Keeps c key v) : w.Keeps c key v := by
  unfold Keeps at hv ⊢
  rw [← h]
  exact hv

theorem Distinct.congr (h : w.Distinct seen) (grows : w.supply.serials ≤ w'.supply.serials)
    (caches : ∀ c, (w'.container c).cache = (w.container c).cache) : w'.Distinct seen :=
  h.mono grows fun hv => h.kept (.of_eq (caches _) hv)

/-- One more instance is seen, which is new. -/
theorem Distinct.gain (h : w.Distinct seen) {c₀ : ContainerId} {key₀ : Key} {v₀ : Instance}
    (fresh : w.supply.serials ≤ v₀.serial) (given : v₀.serial < w'.supply.serials)
    (keeps : ∀ {c key v}, w'.Keeps c key v → seen c key v ∨ c = c₀ ∧ key = key₀ ∧ v = v₀) :
    w'.Distinct fun c key v => seen c key v ∨ c = c₀ ∧ key = key₀ ∧ v = v₀ where
  kept := keeps
  given hv := by
    rcases hv with hv | ⟨-, -, rfl⟩
    · have := h.given hv
      omega
    · exact given
  apart hv hv' same := by
    rcases hv with hv | ⟨rfl, rfl, rfl⟩ <;> rcases hv' with hv' | ⟨rfl, rfl, rfl⟩
    · exact h.apart hv hv' same
    · have := h.given hv
      omega
    · have := h.given hv'
      omega
    · exact ⟨rfl, rfl⟩

theorem not_keeps_empty (h : (w.container c).cache = {}) : ¬ w.Keeps c key v := by
  unfold Keeps
  rw [h]
  intro h; cases h

/-- Only an open container keeps anything. -/
theorem Ok.alive_of_keeps (ok : w.Ok) (kept : w.Keeps c key v) : w.Alive c := by
  constructor
  · by_contra past
    exact not_keeps_empty (by rw [container_of_ge (Nat.not_lt.1 past)]) kept
  · by_contra dead
    exact not_keeps_empty (by rw [ok.ended c (Bool.eq_false_iff.2 dead)]; rfl) kept

theorem keeps_of_release (h : (w.release held).Keeps c key v) : w.Keeps c key v := by
  unfold Keeps at h ⊢
  rw [container_release] at h
  split at h
  · cases h
  · exact h

theorem cache_add (w : World) {x : Container} (empty : x.cache = {}) (c : ContainerId) :
    ((w.add x).2.container c).cache = (w.container c).cache := by
  rw [container_add]
  split
  · next e => rw [container_of_ge (Nat.le_of_eq e.symm), empty]
  · rfl

theorem keeps_of_pin {c₀ : ContainerId} {key₀ : Key} {v₀ : Instance}
    (h : (w.modifyCache c₀ fun x => x.pin key₀ v₀).Keeps c key v) :
    w.Keeps c key v ∨ c = c₀ ∧ key = key₀ ∧ v = v₀ := by
  unfold Keeps at h ⊢
  rw [modifyCache, container_modify] at h
  split at h
  · next e =>
    rw [Cache.get?_pin] at h
    split at h
    · next ek => exact .inr ⟨e.1.symm, ek.symm, (Option.some.inj h).symm⟩
    · exact .inl h
  · exact .inl h

theorem Edit.distinct (h : w.Edit p held w') (distinct : w.Distinct seen) : w'.StaysDistinct seen := by
  have grows := h.serials
  cases h with
  | tell | supply | invoke | forget | giveName => exact (distinct.congr grows fun _ => rfl).stays
  | save name v => exact (distinct.congr grows fun c => by rw [container_save]).stays
  | openRoot => exact (distinct.congr grows (cache_add w rfl)).stays
  | openScope => exact (distinct.congr grows (cache_add w rfl)).stays
  | register | addAlias | addHook | addTerminating => exact (distinct.congr grows fun c => by simp).stays
  | @pin c₀ _ key₀ v₀ s fresh given =>
    refine ⟨fun c key v => seen c key v ∨ c = c₀ ∧ key = key₀ ∧ v = v₀, .inl, distinct.gain fresh given fun hv => ?_⟩
    exact (keeps_of_pin hv).imp distinct.kept id
  | release => exact (distinct.mono grows fun hv => distinct.kept (keeps_of_release hv)).stays

theorem Edits.distinct (h : w.Edits p held w') (distinct : w.Distinct seen) : w'.StaysDistinct seen := by
  induction h with
  | refl => exact distinct.stays
  | tail _ h ih => exact ih.trans h.distinct

/-! ## Locks, records and terminations -/

theorem cache_letIn (w : World) (b : Build) (c : ContainerId) :
    ((w.letIn b).container c).cache = (w.container c).cache := cache_modifyLocks ..

theorem cache_leave (w : World) (b : Build) (c : ContainerId) :
    ((w.leave b).container c).cache = (w.container c).cache := cache_modifyLocks ..

theorem cache_of_enter (enters : w.enter b.container b.key = (b.lock, b.ticket, w')) (c : ContainerId) :
    (w'.container c).cache = (w.container c).cache := by
  rw [← world_of_enter enters, container_enter, cache_modifyLocks]

/-- The world once the instance in hand, if there is one, is recorded. -/
def given (w : World) : Option (Build × Instance) → World
  | some (b, v) => w.record b v
  | none => w

theorem cache_record (alive : w.Alive b.container) (v : Instance) (c : ContainerId) :
    ((w.record b v).container c).cache = if b.container = c
      then (if b.lifetime.cached then (w.container c).cache.insert b.key v else (w.container c).cache).markResolved
        b.key.plain
      else (w.container c).cache := by
  have cached : ((w.record b v).container c).cache = ((w.modifyCache b.container fun x =>
      (if b.lifetime.cached then x.insert b.key v else x).markResolved b.key.plain).container c).cache := by
    unfold record
    dsimp only
    split
    · exact cache_modifyCallbacks ..
    · rfl
  rw [cached, modifyCache, container_modify]
  by_cases e : b.container = c
  · subst e
    rw [if_pos ⟨rfl, alive.1⟩, if_pos rfl]
  · rw [if_neg (fun h => e h.1), if_neg e]

theorem serials_record (w : World) (b : Build) (v : Instance) :
    (w.record b v).supply.serials = w.supply.serials := by
  unfold record
  dsimp only
  split <;> rfl

theorem serials_given (w : World) (hand : Option (Build × Instance)) :
    (w.given hand).supply.serials = w.supply.serials := by
  cases hand with
  | none => rfl
  | some x => exact serials_record w x.1 x.2

/-- A shared instance is kept. -/
theorem keeps_record (alive : w.Alive b.container) (shared : b.lifetime.cached = true) (v : Instance) :
    (w.record b v).Keeps b.container b.key v := by
  unfold Keeps
  rw [cache_record alive, if_pos rfl, if_pos shared, Cache.get?_markResolved, Cache.get?_insert, if_pos rfl]

/-- Any other instance stays. -/
theorem get?_record_of_ne (alive : w.Alive b.container) (v : Instance)
    (other : ¬ (b.container = c ∧ b.key = key ∧ b.lifetime.cached = true)) :
    ((w.record b v).container c).cache.get? key = (w.container c).cache.get? key := by
  rw [cache_record alive]
  split
  · next e =>
    split
    · next shared => simp [Cache.get?_insert, show b.key ≠ key from fun ek => other ⟨e, ek, shared⟩]
    · exact Cache.get?_markResolved ..
  · rfl

theorem keeps_of_record (alive : w.Alive b.container) {v₀ : Instance} (h : (w.record b v₀).Keeps c key v) :
    w.Keeps c key v ∨ c = b.container ∧ key = b.key ∧ v = v₀ := by
  unfold Keeps at h ⊢
  rw [cache_record alive] at h
  split at h
  · next e =>
    rw [Cache.get?_markResolved] at h
    split at h
    · rw [Cache.get?_insert] at h
      split at h
      · next ek => exact .inr ⟨e.symm, ek.symm, (Option.some.inj h).symm⟩
      · exact .inl h
    · exact .inl h
  · exact .inl h

theorem keeps_of_terminate {c₀ : ContainerId} (h : (w.terminate c₀).2.Keeps c key v) : w.Keeps c key v := by
  have same : ((w.modifyCallbacks c₀ Callbacks.clearTerminating).container c).cache = (w.container c).cache :=
    cache_modifyCallbacks ..
  unfold Keeps at h ⊢
  rw [terminate, modifyCache, container_modify] at h
  split at h
  · rw [Cache.get?_clearBuilt, same] at h
    split at h
    · exact h
    · cases h
  · rw [same] at h
    exact h

theorem Distinct.leave (h : w.Distinct seen) (b : Build) : (w.leave b).Distinct seen :=
  h.congr (Nat.le_refl _) (cache_leave w b)

theorem Distinct.terminate (h : w.Distinct seen) (c : ContainerId) : (w.terminate c).2.Distinct seen :=
  h.mono (Nat.le_refl _) fun hv => h.kept (keeps_of_terminate hv)

/-- What a termination leaves of a container. -/
theorem container_terminate (alive : w.Alive c) : (w.terminate c).2.container c =
    { w.container c with
      cache := (w.container c).cache.clearBuilt, callbacks := (w.container c).callbacks.clearTerminating } := by
  have alive' : (w.modifyCallbacks c Callbacks.clearTerminating).Alive c := Step.alive_modify (fun _ => rfl) alive
  rw [terminate, modifyCache, alive'.container_modify, modifyCallbacks, alive.container_modify]

theorem cache_terminate (alive : w.Alive c) :
    ((w.terminate c).2.container c).cache = (w.container c).cache.clearBuilt := by
  rw [container_terminate alive]

theorem cache_terminate_of_ne {c₀ : ContainerId} (ne : c₀ ≠ c) :
    ((w.terminate c₀).2.container c).cache = (w.container c).cache := by
  rw [terminate, modifyCache, container_modify_of_ne _ _ ne]
  exact cache_modifyCallbacks ..

end World

/-! ## Steps -/

namespace Task.Does

variable {p : Program} {held : List ContainerId} {w : World} {t : Task} {st : Step} {c : ContainerId}

theorem serials (h : t.Does p held w st) : w.supply.serials ≤ st.world.supply.serials := by
  cases h with
  | calm _ _ edited => exact edited.serials
  | makes _ _ _ _ _ edits world => exact World.Edits.serials (edits.trans world.edits)
  | linesUp b _ _ _ _ enters =>
    rw [← World.world_of_enter enters]
    exact Nat.le_refl _
  | begins b _ _ _ _ edits => exact edits.serials
  | completes b v _ _ _ w₁ edits world =>
    rw [world, ← World.serials_record w b v]
    exact edits.serials
  | terminates c _ _ _ _ w₁ edits _ world =>
    rw [world]
    exact edits.serials
  | skips _ _ _ _ world | aborts _ _ _ world | finalizes _ _ _ _ world | passes _ _ _ _ world =>
    exact world ▸ Nat.le_refl _

/-- What is handed over was seen before, all else that comes to be kept is new. -/
theorem distinct {seen : World.Seen} (h : t.Does p held w st) (alive : ∀ c ∈ t.held, w.Alive c)
    (distinct : w.Distinct seen) (hands : ∀ b v, t.hand? = some (b, v) → seen b.container b.key v) :
    st.world.StaysDistinct seen := by
  have grows := h.serials
  cases h with
  | calm _ _ edited =>
    obtain ⟨_, edits⟩ := edited
    exact edits.distinct distinct
  | makes _ _ _ _ _ edits world => exact World.Edits.distinct (edits.trans world.edits) distinct
  | linesUp b _ _ _ _ enters =>
    exact (distinct.congr grows fun c => World.cache_of_enter enters c).stays
  | skips b _ _ _ world =>
    refine (distinct.congr grows fun c => ?_).stays
    rw [world, World.cache_leave, World.cache_letIn]
  | begins b _ _ _ _ edits =>
    exact edits.distinct (distinct.congr (Nat.le_refl _) fun c => World.cache_letIn ..)
  | aborts b _ _ world =>
    refine (distinct.congr grows fun c => ?_).stays
    rw [world, World.cache_leave]
  | completes b v _ before _ w₁ edits world builds =>
    have hb := alive _ (held_of_builds builds)
    have recorded : (w.record b v).Distinct seen := by
      apply distinct.mono (Nat.le_of_eq (World.serials_record w b v).symm)
      intro c key v' hv
      rcases World.keeps_of_record hb hv with hv | ⟨rfl, rfl, rfl⟩
      · exact distinct.kept hv
      · exact hands _ _ before
    rw [world]
    exact (edits.distinct recorded).trans fun h => (h.leave b).stays
  | terminates c _ _ _ _ w₁ edits _ world =>
    rw [world]
    exact (edits.distinct distinct).trans fun h => (h.terminate c).stays
  | finalizes _ _ _ _ world =>
    refine (distinct.congr grows fun _ => ?_).stays
    rw [world]
    rfl
  | passes _ _ _ _ world =>
    rw [world]
    exact distinct.stays

/-- Once what is in hand is recorded, a container that is not terminated keeps the instance of a
key, unless one is pinned. -/
theorem pinsAt (h : t.Does p held w st) (live : (st.world.container c).live = true)
    (spared : t.terminates w ≠ some c) (key : Key) : World.PinsAt (w.given t.hand?) st.world c key := by
  cases h with
  | calm before _ edited =>
    obtain ⟨_, edits⟩ := edited
    rw [before.hand]
    exact (edits.editedAt_of_live live).cache key
  | makes _ _ before _ _ edits world =>
    rw [before.hand]
    exact (World.Edits.editedAt_of_live (edits.trans world.edits) live).cache key
  | linesUp b before _ _ _ enters =>
    rw [before.hand]
    exact .of_eq (World.cache_of_enter enters c)
  | skips b _ hand _ world =>
    rw [hand]
    exact .of_eq (by rw [world, World.cache_leave, World.cache_letIn]; rfl)
  | begins b _ hand _ _ edits =>
    have letIn : World.PinsAt w (w.letIn b) c key := .of_eq (World.cache_letIn ..)
    rw [hand]
    exact letIn.trans ((edits.editedAt_of_live live).cache key) (Nat.le_refl _)
  | aborts b before _ world =>
    rw [before.hand]
    exact .of_eq (by rw [world, World.cache_leave]; rfl)
  | completes b v _ before _ w₁ edits world =>
    have live₁ : (w₁.container c).live = true := by rw [world, World.leave, World.live_modifyLocks] at live; exact live
    have leave : World.PinsAt w₁ st.world c key := .of_eq (by rw [world, World.cache_leave])
    rw [before]
    exact ((edits.editedAt_of_live live₁).cache key).trans leave edits.serials
  | terminates c' _ before ends _ w₁ edits _ world =>
    have ne : c' ≠ c := by
      intro e
      exact spared (e ▸ ends)
    have live₁ : (w₁.container c).live = true := by
      rw [world, World.terminate, World.live_modifyCache, World.live_modifyCallbacks] at live
      exact live
    have after : World.PinsAt w₁ st.world c key := .of_eq (by rw [world, World.cache_terminate_of_ne ne])
    rw [before.hand]
    exact ((edits.editedAt_of_live live₁).cache key).trans after edits.serials
  | finalizes _ before _ _ world =>
    rw [before.hand]
    exact .of_eq (by rw [world]; rfl)
  | passes _ before _ _ world =>
    rw [before.hand]
    exact .of_eq (by rw [world]; rfl)

end Task.Does

/-! ## Runs -/

namespace System

variable {p : Program} {s s' : System} {c c' : ContainerId} {key key' : Key} {v v' : Instance} {seen : World.Seen}

/-- Whether a container keeps an instance under a key, or a build of the key is about to get it. -/
def Shows (s : System) (c : ContainerId) (key : Key) (v : Instance) : Prop :=
  s.world.Keeps c key v ∨ ∃ b, s.hand? = some (b, v) ∧ b.container = c ∧ b.key = key

/-- Whether all that is kept or in hand was seen, and what was seen is numbered, each key and container apart. -/
structure Apart (s : System) (seen : World.Seen) : Prop where
  distinct : s.world.Distinct seen
  hands : ∀ b v, s.hand? = some (b, v) → seen b.container b.key v

theorem Apart.shown (h : s.Apart seen) (shown : s.Shows c key v) : seen c key v := by
  rcases shown with kept | ⟨b, hand, rfl, rfl⟩
  · exact h.distinct.kept kept
  · exact h.hands b v hand

theorem serials_settled (w : World) (ts : List Task) : (settledWorld w ts).supply.serials = w.supply.serials :=
  congrArg Supply.serials (World.supply_release ..)

theorem distinct_settled {w : World} {ts : List Task} (h : w.Distinct seen) : (settledWorld w ts).Distinct seen :=
  h.mono (Nat.le_of_eq (serials_settled w ts).symm) fun hv => h.kept (World.keeps_of_release hv)

theorem container_settled_of_live {w : World} {ts : List Task} (live : ((settledWorld w ts).container c).live = true) :
    (settledWorld w ts).container c = w.container c := by
  change ((w.release _).container c).live = true at live
  change (w.release _).container c = _
  rw [World.container_release] at live ⊢
  split at live
  · cases live
  · next reached => rw [if_neg reached]

theorem Change.distinct (h : Change p s s') (reached : Reachable p s) (apart : s.Apart seen) :
    s'.world.StaysDistinct seen := by
  cases h with
  | step i t st running found does turn opens world tasks =>
    rw [world]
    have alive := reached.sound.alive t (List.mem_of_getElem? found)
    have hands : ∀ b v, t.hand? = some (b, v) → seen b.container b.key v := by
      intro b v hand
      apply apart.hands b v
      rw [hand?, current_eq running found]
      exact hand
    exact (does.distinct alive apart.distinct hands).trans fun h => (distinct_settled h).stays
  | halts _ world =>
    rw [world]
    exact apart.distinct.stays
  | outside _ w edits _ _ _ world =>
    rw [world]
    exact (edits.distinct apart.distinct).trans fun h => (distinct_settled h).stays
  | renews _ _ world =>
    have grows : s.world.supply.serials ≤ s'.world.supply.serials := Nat.le_of_eq (by rw [world])
    refine (apart.distinct.congr grows fun c => ?_).stays
    rw [world]
    rfl

theorem Change.serials (h : Change p s s') : s.world.supply.serials ≤ s'.world.supply.serials := by
  cases h with
  | step i t st running found does turn opens world =>
    rw [world, serials_settled]
    exact does.serials
  | outside _ w edits us new containers world =>
    rw [world, serials_settled]
    exact edits.serials
  | halts _ world => exact Nat.le_of_eq (by rw [world])
  | renews _ _ world => exact Nat.le_of_eq (by rw [world])

theorem Run.serials_mono (run : Run p) {n m : Nat} (le : n ≤ m) :
    (run.state n).world.supply.serials ≤ (run.state m).world.supply.serials := by
  induction le with
  | refl => exact Nat.le_refl _
  | step _ ih => exact Nat.le_trans ih (run.change _).serials

/-- What is in hand was made in the move before, after edits. -/
theorem Change.makes (h : Change p s s') (ordered : Scheduled s) {b : Build} (hand : s'.hand? = some (b, v)) :
    ∃ w₁ w ts, s.world.Edits p s.held w₁ ∧ w₁.Makes v w ∧ s'.world = settledWorld w ts := by
  obtain ⟨i, u, -, hu, hands⟩ := exists_of_hand hand
  obtain ⟨_, t, st, _, _, does, _, rfl, world, -⟩ := h.made ordered (List.mem_of_getElem? hu) hands
  obtain ⟨-, -, ⟨w₁, edits, makes⟩, -, -⟩ := does.made hands
  exact ⟨w₁, st.world, _, edits, makes, world⟩

/-- What is in hand was not there a move before. -/
theorem Run.made (run : Run p) {n : Nat} {b : Build} {v : Instance} (hand : (run.state n).hand? = some (b, v)) :
    ∃ m, n = m + 1 ∧ (run.state m).world.supply.serials ≤ v.serial ∧
      v.serial < (run.state n).world.supply.serials := by
  cases n with
  | zero =>
    obtain ⟨name, start⟩ := run.start
    rw [start] at hand
    cases hand
  | succ m =>
    refine ⟨m, rfl, ?_⟩
    obtain ⟨w₁, w, ts, edits, makes, world⟩ := (run.change m).makes (run.reachable m).scheduled hand
    refine ⟨makes.serial ▸ edits.serials, ?_⟩
    rw [world, serials_settled]
    exact makes.given

/-- What comes in hand later is numbered higher. -/
theorem Run.serial_lt_of_hand (run : Run p) {n m : Nat} (before : n < m) {b b' : Build}
    (hand : (run.state n).hand? = some (b, v)) (hand' : (run.state m).hand? = some (b', v')) : v.serial < v'.serial := by
  obtain ⟨-, -, -, given⟩ := run.made hand
  obtain ⟨m, rfl, fresh, -⟩ := run.made hand'
  have grown := run.serials_mono (Nat.le_of_lt_succ before)
  omega

/-- A move keeps apart what was seen, and an instance that it puts in hand is new. -/
theorem Change.apart (h : Change p s s') (reached : Reachable p s) (apart : s.Apart seen) :
    ∃ seen' : World.Seen, (∀ {c key v}, seen c key v → seen' c key v) ∧ s'.Apart seen' := by
  cases hand : s'.hand? with
  | none =>
    obtain ⟨seen', sub, distinct⟩ := h.distinct reached apart
    exact ⟨seen', sub, distinct, fun b v hands => by rw [hand] at hands; cases hands⟩
  | some x =>
    obtain ⟨b, v⟩ := x
    obtain ⟨w₁, w, ts, edits, makes, world⟩ := h.makes reached.scheduled hand
    obtain ⟨seen₁, sub, distinct₁⟩ := edits.distinct apart.distinct
    have gained : w.Distinct fun c key x => seen₁ c key x ∨ c = b.container ∧ key = b.key ∧ x = v :=
      distinct₁.gain (Nat.le_of_eq makes.serial.symm) makes.given fun {c _ _} hv =>
        .inl (distinct₁.kept (.of_eq (by rw [makes.container c]) hv))
    refine ⟨_, fun hv => .inl (sub hv), world ▸ distinct_settled gained, fun b' v' hands' => .inr ?_⟩
    obtain ⟨rfl, rfl⟩ := Prod.mk.inj (Option.some.inj (hand.symm.trans hands'))
    exact ⟨rfl, rfl, rfl⟩

/-- While a container is open and not terminated, it keeps what it has and gets what is in hand for it, unless
an instance is pinned. -/
theorem Change.pinsAt (h : Change p s s') (live : (s'.world.container c).live = true)
    (spared : s.terminates ≠ some c) (key : Key) : World.PinsAt (s.world.given s.hand?) s'.world c key := by
  cases h with
  | step i t st running found does turn opens world tasks =>
    have current := current_eq running found
    have same := container_settled_of_live (world ▸ live)
    rw [terminates, current] at spared
    rw [hand?, current, Option.bind_some]
    rw [world, same] at live
    exact (does.pinsAt live spared key).trans (.of_eq (by rw [world, same])) (by rw [World.serials_given]; exact does.serials)
  | halts halts world tasks =>
    rw [halts.hand_none]
    exact .of_eq (by rw [world]; rfl)
  | outside idle w edits us new containers world tasks =>
    have same := container_settled_of_live (world ▸ live)
    rw [hand_of_idle idle]
    refine .of_eq ?_
    rw [world, same, World.container, containers]
    rfl
  | renews idle finished world tasks =>
    rw [hand_of_idle idle]
    exact .of_eq (by rw [world]; rfl)

theorem apart_initial (name : String) : (initial name).Apart fun _ _ _ => False where
  distinct := by
    refine ⟨fun {c key v} kept => ?_, fun h => h.elim, fun h => h.elim⟩
    refine World.not_keeps_empty ?_ kept
    exact (World.cache_add {} rfl c).trans rfl
  hands b v hand := by cases hand

theorem Run.apart_from (run : Run p) {n : Nat} (h : (run.state n).Apart seen) (k : Nat) :
    ∃ seen' : World.Seen, (∀ {c key v}, seen c key v → seen' c key v) ∧ (run.state (n + k)).Apart seen' := by
  induction k with
  | zero => exact ⟨seen, id, h⟩
  | succ k ih =>
    obtain ⟨seen₁, sub₁, apart₁⟩ := ih
    obtain ⟨seen₂, sub₂, apart₂⟩ := (run.change (n + k)).apart (run.reachable (n + k)) apart₁
    exact ⟨seen₂, fun hv => sub₂ (sub₁ hv), apart₂⟩

theorem Run.exists_apart (run : Run p) (n : Nat) : ∃ seen, (run.state n).Apart seen := by
  obtain ⟨name, start⟩ := run.start
  obtain ⟨seen, -, apart⟩ := run.apart_from (n := 0) (start ▸ apart_initial name) n
  exact ⟨seen, Nat.zero_add n ▸ apart⟩

/-- What is kept was made before. -/
theorem Run.given_of_keeps (run : Run p) {n : Nat} (kept : (run.state n).world.Keeps c key v) :
    v.serial < (run.state n).world.supply.serials := by
  obtain ⟨seen, apart⟩ := run.exists_apart n
  exact apart.distinct.given (apart.distinct.kept kept)

/-- What is in hand is newer than all that is kept. -/
theorem Run.lt_of_hand (run : Run p) {n : Nat} {b : Build} (hand : (run.state n).hand? = some (b, v'))
    (kept : (run.state n).world.Keeps c key v) : v.serial < v'.serial := by
  obtain ⟨m, rfl, -, -⟩ := run.made hand
  obtain ⟨w₁, w, ts, edits, makes, world⟩ := (run.change m).makes (run.reachable m).scheduled hand
  obtain ⟨seen, apart⟩ := run.exists_apart m
  obtain ⟨seen₁, -, distinct⟩ := edits.distinct apart.distinct
  have kept₁ : w₁.Keeps c key v := .of_eq (by rw [makes.container c]) (World.keeps_of_release (world ▸ kept))
  exact makes.serial ▸ distinct.given (distinct.kept kept₁)

/-- No instance is ever shown under two keys or by two containers. -/
theorem Run.apart (run : Run p) {n m : Nat} (shown : (run.state n).Shows c key v)
    (shown' : (run.state m).Shows c' key' v') (same : v.serial = v'.serial) : c = c' ∧ key = key' := by
  have ordered : ∀ {n k c key v c' key' v'}, (run.state n).Shows c key v → (run.state (n + k)).Shows c' key' v' →
      v.serial = v'.serial → c = c' ∧ key = key' := by
    intro n k c key v c' key' v' shown shown' same
    obtain ⟨seen, apart⟩ := run.exists_apart n
    obtain ⟨seen', sub, apart'⟩ := run.apart_from apart k
    exact apart'.distinct.apart (sub (apart.shown shown)) (apart'.shown shown') same
  rcases Nat.le_total n m with le | le <;> obtain ⟨k, rfl⟩ := Nat.exists_eq_add_of_le le
  · exact ordered shown shown' same
  · obtain ⟨hc, hkey⟩ := ordered shown' shown same.symm
    exact ⟨hc.symm, hkey.symm⟩

end System

end Injector
