import Injector.Proofs.Once
/-!
# Keys marked as resolved

A container marks the plain key of what it builds, and each key that it is given an instance of by hand. But for
that instance, and the one in hand, a move leaves its cache as it is, unless it terminates the container
(`Change.puts`); then only what is pinned stays marked. So what is served without tags is marked until the next
termination (`Run.isResolved_of_served`), and what is marked is pinned, or was served since the last one, with tags
or without (`Run.served_of_isResolved`).
-/
namespace Injector

namespace Cache

/-- Whether a cache comes of another by instances that are put by hand. -/
inductive Puts (x : Cache) : Cache → Prop
  | refl : Puts x x
  | pin {y : Cache} (before : Puts x y) (key : Key) (v : Instance) : Puts x (y.pin key v)

namespace Puts

variable {x y z : Cache} {key : Key}

theorem of_eq (h : y = x) : x.Puts y := h ▸ .refl

theorem trans (h : x.Puts y) (h' : y.Puts z) : x.Puts z := by
  induction h' with
  | refl => exact h
  | pin _ key v ih => exact .pin ih key v

theorem isPinned (h : x.Puts y) (pinned : x.isPinned key = true) : y.isPinned key = true := by
  induction h with
  | refl => exact pinned
  | pin _ key' v ih => rw [isPinned_pin, ih, Bool.or_true]

theorem isResolved (h : x.Puts y) (resolved : x.isResolved key = true) : y.isResolved key = true := by
  induction h with
  | refl => exact resolved
  | pin _ key' v ih => rw [isResolved_pin, ih, Bool.or_true]

/-- All marks that come with it are those of what is pinned. -/
theorem of_isResolved (h : x.Puts y) (resolved : y.isResolved key = true) :
    x.isResolved key = true ∨ y.isPinned key = true := by
  induction h with
  | refl => exact .inl resolved
  | pin _ key' v ih =>
    rw [isResolved_pin, Bool.or_eq_true] at resolved
    rw [isPinned_pin, Bool.or_eq_true]
    rcases resolved with same | before
    · exact .inr (.inl same)
    · exact (ih before).imp_right .inr

end Puts

/-- Whether what is true of a new cache stays true whatever becomes of it. -/
structure Invariant (P : Cache → Prop) : Prop where
  empty : P {}
  pin : ∀ {x}, P x → ∀ key v, P (x.pin key v)
  record : ∀ {x}, P x → ∀ (shared : Bool) (key : Key) (v : Instance),
    P ((if shared then x.insert key v else x).markResolved key.plain)
  clearBuilt : ∀ {x}, P x → P x.clearBuilt

theorem Invariant.puts {P : Cache → Prop} (h : Invariant P) {x y : Cache} (puts : x.Puts y) (before : P x) : P y := by
  induction puts with
  | refl => exact before
  | pin _ key v ih => exact h.pin ih key v

end Cache

/-! ## What moves do to a cache -/

namespace World

variable {p : Program} {held : List ContainerId} {w w' : World} {b : Build} {c : ContainerId} {key : Key}

theorem Edit.puts (h : w.Edit p held w') (live : (w'.container c).live = true) :
    (w.container c).cache.Puts (w'.container c).cache := by
  cases h with
  | tell | supply | invoke | forget | giveName => exact .refl
  | save name v => exact .of_eq (congrArg Container.cache (container_save w name v c))
  | openRoot | openScope => exact .of_eq (cache_add w rfl c)
  | register | addAlias => exact .of_eq (cache_modifyRegistry ..)
  | addHook | addTerminating => exact .of_eq (cache_modifyCallbacks ..)
  | @pin c₀ _ key v s =>
    rw [modifyCache, container_modify]
    split
    · exact .pin .refl key v
    · exact .refl
  | release =>
    rw [container_release] at live ⊢
    split at live
    · cases live
    · next reached =>
      rw [if_neg reached]
      exact .refl

theorem Edits.puts (h : w.Edits p held w') (live : (w'.container c).live = true) :
    (w.container c).cache.Puts (w'.container c).cache := by
  induction h with
  | refl => exact .refl
  | @tail w₁ w₂ before h ih =>
    have live₁ : (w₁.container c).live = true := ((Edits.editedAt_of_live (.single h) live).live).symm.trans live
    exact (ih live₁).trans (h.puts live)

theorem live_record (w : World) (b : Build) (v : Instance) (c : ContainerId) :
    ((w.record b v).container c).live = (w.container c).live := by
  unfold record
  dsimp only
  split <;> simp

/-- A build marks its plain key. -/
theorem isResolved_record (alive : w.Alive b.container) (v : Instance) :
    ((w.record b v).container c).cache.isResolved key =
      (decide (b.container = c ∧ b.key.plain = key) || (w.container c).cache.isResolved key) := by
  rw [cache_record alive]
  by_cases here : b.container = c
  · rw [if_pos here, Cache.isResolved_markResolved]
    split <;> simp [here]
  · rw [if_neg here]
    simp [here]

end World

namespace Task.Does

variable {p : Program} {held : List ContainerId} {w : World} {t : Task} {st : Step} {c : ContainerId}

/-- What is closed stays closed. -/
theorem live (h : t.Does p held w st) (live : (st.world.container c).live = true) : (w.container c).live = true := by
  cases h with
  | calm _ _ edited =>
    obtain ⟨_, edits⟩ := edited
    exact (edits.editedAt_of_live live).live.symm.trans live
  | makes _ _ _ _ _ edits made =>
    exact (World.Edits.editedAt_of_live (edits.trans made.edits) live).live.symm.trans live
  | linesUp b _ _ _ _ enters =>
    rw [← World.world_of_enter enters, World.container_enter, World.live_modifyLocks] at live
    exact live
  | skips b _ _ _ world | aborts b _ _ world => simpa [world, World.leave, World.letIn] using live
  | begins b _ _ _ _ edits =>
    have before := (edits.editedAt_of_live live).live.symm.trans live
    rwa [World.letIn, World.live_modifyLocks] at before
  | completes b v _ _ _ w₁ edits world =>
    rw [world, World.leave, World.live_modifyLocks] at live
    rw [← World.live_record w b v]
    exact (edits.editedAt_of_live live).live.symm.trans live
  | terminates c' _ _ _ _ w₁ edits _ world =>
    rw [world, World.terminate, World.live_modifyCache, World.live_modifyCallbacks] at live
    exact (edits.editedAt_of_live live).live.symm.trans live
  | finalizes _ _ _ _ world =>
    rw [world] at live
    exact live
  | passes _ _ _ _ world => exact world ▸ live

/-- Once what is in hand is recorded, a container that is not terminated is at most given instances by hand. -/
theorem puts (h : t.Does p held w st) (live : (st.world.container c).live = true) (spared : t.terminates w ≠ some c) :
    ((w.given t.hand?).container c).cache.Puts (st.world.container c).cache := by
  cases h with
  | calm before _ edited =>
    obtain ⟨_, edits⟩ := edited
    rw [before.hand]
    exact edits.puts live
  | makes _ _ before _ _ edits made =>
    rw [before.hand]
    exact World.Edits.puts (edits.trans made.edits) live
  | linesUp b before _ _ _ enters =>
    rw [before.hand]
    exact .of_eq (World.cache_of_enter enters c)
  | skips b _ hand _ world =>
    rw [hand]
    exact .of_eq (by rw [world, World.cache_leave, World.cache_letIn]; rfl)
  | begins b _ hand _ _ edits =>
    rw [hand]
    exact .trans (.of_eq (World.cache_letIn ..)) (edits.puts live)
  | aborts b before _ world =>
    rw [before.hand]
    exact .of_eq (by rw [world, World.cache_leave]; rfl)
  | completes b v _ before _ w₁ edits world =>
    rw [world, World.leave, World.live_modifyLocks] at live
    rw [before, world, World.cache_leave]
    exact edits.puts live
  | terminates c' _ before ends _ w₁ edits _ world =>
    have ne : c' ≠ c := fun same => spared (same ▸ ends)
    rw [world, World.terminate, World.live_modifyCache, World.live_modifyCallbacks] at live
    rw [before.hand, world, World.cache_terminate_of_ne ne]
    exact edits.puts live
  | finalizes _ before _ _ world | passes _ before _ _ world =>
    rw [before.hand]
    exact .of_eq (by rw [world]; rfl)

end Task.Does

namespace System

variable {p : Program} {s s' : System} {c : ContainerId} {key : Key} {v : Instance}

/-- What is closed stays closed. -/
theorem Change.live (h : Change p s s') (live : (s'.world.container c).live = true) : (s.world.container c).live = true := by
  cases h with
  | step i t st running found does turn opens world =>
    have same := container_settled_of_live (world ▸ live)
    rw [world, same] at live
    exact does.live live
  | halts _ world => exact world ▸ live
  | outside idle w edits us new containers world =>
    have same := container_settled_of_live (world ▸ live)
    rw [world, same] at live
    exact (edits.editedAt_of_live live).live.symm.trans live
  | renews _ _ world =>
    rw [world] at live
    exact live

/-- Once what is in hand is recorded, a container that stays open and is not terminated is at most given instances by
hand. -/
theorem Change.puts (h : Change p s s') (live : (s'.world.container c).live = true) (spared : s.terminates ≠ some c) :
    ((s.world.given s.hand?).container c).cache.Puts (s'.world.container c).cache := by
  cases h with
  | step i t st running found does turn opens world =>
    have same := container_settled_of_live (world ▸ live)
    rw [terminates, current_eq running found] at spared
    rw [world, same] at live
    rw [hand?, current_eq running found, Option.bind_some, world, same]
    exact does.puts live spared
  | halts halts world =>
    rw [halts.hand_none]
    exact .of_eq (by rw [world]; rfl)
  | outside idle w edits us new containers world =>
    have same := container_settled_of_live (world ▸ live)
    rw [world, same] at live
    rw [hand_of_idle idle, world, same]
    exact edits.puts live
  | renews idle _ world =>
    rw [hand_of_idle idle]
    exact .of_eq (by rw [world]; rfl)

/-- A container that is terminated forgets what it built. -/
theorem Change.clearBuilt (h : Change p s s') (live : (s'.world.container c).live = true) (ends : s.terminates = some c) :
    ∃ x, (s.world.container c).cache.Puts x ∧ (s'.world.container c).cache = x.clearBuilt := by
  obtain ⟨w, ts, edits, alive, world⟩ := h.of_terminates ends
  refine ⟨(w.container c).cache, edits.puts alive.2, ?_⟩
  rw [world, container_settled_of_live (world ▸ live), World.cache_terminate alive]

/-- What is true of caches whatever becomes of them is true of all of them in every run. -/
theorem Reachable.forall_caches {P : Cache → Prop} (invariant : Cache.Invariant P) (h : Reachable p s) :
    ∀ c, P (s.world.container c).cache := by
  induction h with
  | start name =>
    intro c
    rw [show ((initial name).world.container c).cache = {} from (World.cache_add {} rfl c).trans rfl]
    exact invariant.empty
  | @move s s' before moves ih =>
    intro c
    have change := moves.change before
    cases live : (s'.world.container c).live with
    | false =>
      rw [(before.move moves).sound.ok.ended c live]
      exact invariant.empty
    | true =>
      by_cases ends : s.terminates = some c
      · obtain ⟨x, puts, cleared⟩ := change.clearBuilt live ends
        rw [cleared]
        exact invariant.clearBuilt (invariant.puts puts (ih c))
      · refine invariant.puts (change.puts live ends) ?_
        cases hand : s.hand? with
        | none => exact ih c
        | some x =>
          rw [World.given, World.cache_record (before.alive_of_hand hand)]
          split
          · exact invariant.record (ih c) _ _ _
          · exact ih c

end System

/-! ## What is kept is marked -/

/-- Whether all keys without tags that an instance is kept of are marked as resolved. -/
def Cache.Marked (x : Cache) : Prop := ∀ key, key.plain = key → x.get? key ≠ none → x.isResolved key = true

/-- Whether the caches of all containers are marked. -/
def World.Marked (w : World) : Prop := ∀ c, (w.container c).cache.Marked

theorem Cache.invariant_marked : Invariant Marked where
  empty key _ kept := absurd rfl kept
  pin {x} h key v k plain kept := by
    rw [isResolved_pin]
    by_cases e : key = k
    · simp [e]
    · rw [get?_pin, if_neg e] at kept
      simp [h k plain kept]
  record {x} h shared key v k plain kept := by
    rw [get?_markResolved] at kept
    rw [isResolved_markResolved]
    cases shared with
    | false => simp [h k plain kept]
    | true =>
      rw [if_pos rfl, get?_insert] at kept
      rw [if_pos rfl, isResolved_insert]
      by_cases e : key = k
      · simp [e, plain]
      · rw [if_neg e] at kept
        simp [h k plain kept]
  clearBuilt {x} h k plain kept := by
    rw [get?_clearBuilt] at kept
    rw [isResolved_clearBuilt]
    split at kept
    · next pinned => simp [pinned, h k plain kept]
    · exact absurd rfl kept

/-- Whether an instance is kept of all that is pinned, and all that is pinned is marked. -/
def Cache.KeepsPins (x : Cache) : Prop := ∀ key, x.isPinned key = true → x.get? key ≠ none ∧ x.isResolved key = true

theorem Cache.invariant_keepsPins : Invariant KeepsPins where
  empty key pinned := by cases pinned
  pin {x} h key v k pinned := by
    rw [get?_pin, isResolved_pin]
    by_cases e : key = k
    · simp [e]
    · rw [isPinned_pin, decide_eq_false e, Bool.false_or] at pinned
      simpa [e] using h k pinned
  record {x} h shared key v k pinned := by
    rw [isPinned_markResolved] at pinned
    rw [get?_markResolved, isResolved_markResolved]
    cases shared with
    | false =>
      obtain ⟨kept, resolved⟩ := h k pinned
      exact ⟨kept, Bool.or_eq_true_iff.2 (.inr resolved)⟩
    | true =>
      rw [if_pos rfl, isPinned_insert, Bool.and_eq_true] at pinned
      obtain ⟨kept, resolved⟩ := h k pinned.2
      rw [if_pos rfl, get?_insert, isResolved_insert]
      refine ⟨?_, Bool.or_eq_true_iff.2 (.inr resolved)⟩
      split
      · exact Option.some_ne_none v
      · exact kept
  clearBuilt {x} h k pinned := by
    rw [isPinned_clearBuilt] at pinned
    rw [get?_clearBuilt, isResolved_clearBuilt, if_pos pinned, pinned, Bool.true_and]
    exact h k pinned

namespace System

variable {p : Program} {s : System} {c : ContainerId} {key : Key} {v : Instance}

/-- In every run, a key without tags that a container keeps an instance of is marked as resolved there. -/
theorem Reachable.marked (h : Reachable p s) : s.world.Marked := h.forall_caches Cache.invariant_marked

/-- In every run, an instance is kept of what is pinned, and its key is marked. -/
theorem Reachable.keepsPins (h : Reachable p s) (c : ContainerId) : (s.world.container c).cache.KeepsPins :=
  h.forall_caches Cache.invariant_keepsPins c

/-! ## What is marked was served -/

/-- Whether container `c` has served an instance of a key before state `n`, and was not terminated since. -/
def Run.ServedSince (run : Run p) (n : Nat) (c : ContainerId) (key : Key) : Prop :=
  ∃ m < n, (∃ v, (run.state m).serves? = some (c, key, v)) ∧
    ∀ k, m ≤ k → k < n → (run.state k).terminates ≠ some c

namespace Run

variable {run : Run p} {n m : Nat}

theorem ServedSince.succ (h : run.ServedSince n c key) (spared : (run.state n).terminates ≠ some c) :
    run.ServedSince (n + 1) c key := by
  obtain ⟨m, before, served, lasts⟩ := h
  refine ⟨m, Nat.lt_succ_of_lt before, served, fun k since until' => ?_⟩
  rcases Nat.lt_succ_iff_lt_or_eq.1 until' with until' | rfl
  · exact lasts k since until'
  · exact spared

/-- What is marked, or built in the move, is marked after it. -/
theorem isResolved_succ (run : Run p) (live : ((run.state (n + 1)).world.container c).live = true)
    (spared : (run.state n).terminates ≠ some c)
    (resolved : ((run.state n).world.container c).cache.isResolved key = true ∨
      ∃ b v, (run.state n).hand? = some (b, v) ∧ b.container = c ∧ b.key.plain = key) :
    ((run.state (n + 1)).world.container c).cache.isResolved key = true := by
  apply ((run.change n).puts live spared).isResolved
  cases hand : (run.state n).hand? with
  | none =>
    refine resolved.resolve_right ?_
    rintro ⟨b, v, hand', -⟩
    rw [hand] at hand'
    cases hand'
  | some x =>
    rw [World.given, World.isResolved_record (run.alive_of_hand hand), Bool.or_eq_true, decide_eq_true_iff]
    refine resolved.symm.imp_left ?_
    rintro ⟨b, v, hand', own⟩
    cases hand.symm.trans hand'
    exact own

/-- What was served since the last termination is marked, if it is a key without tags. -/
theorem isResolved_of_served (plain : key.plain = key) (live : ((run.state n).world.container c).live = true)
    (served : run.ServedSince n c key) : ((run.state n).world.container c).cache.isResolved key = true := by
  obtain ⟨m, before, ⟨v, serves⟩, lasts⟩ := served
  have first : ((run.state m).world.container c).cache.isResolved key = true ∨
      ∃ b v, (run.state m).hand? = some (b, v) ∧ b.container = c ∧ b.key.plain = key := by
    rcases shows_of_serves serves with kept | ⟨b, hand, hc, hkey⟩
    · exact .inl ((run.reachable m).marked c key plain (by rw [kept]; exact Option.some_ne_none v))
    · exact .inr ⟨b, v, hand, hc, hkey ▸ plain⟩
  induction n, before using Nat.le_induction with
  | base => exact run.isResolved_succ live (lasts m (Nat.le_refl m) (Nat.lt_succ_self m)) first
  | succ n before ih =>
    have resolved := ih ((run.change n).live live) fun k since until' => lasts k since (Nat.lt_succ_of_lt until')
    exact run.isResolved_succ live (lasts n (Nat.le_of_succ_le before) (Nat.lt_succ_self n)) (.inl resolved)

/-- What is marked is pinned, or was served since the last termination, with tags or without. -/
theorem served_of_isResolved (run : Run p) (plain : key.plain = key)
    (resolved : ((run.state n).world.container c).cache.isResolved key = true) :
    ((run.state n).world.container c).cache.isPinned key = true ∨
      ∃ key', key'.plain = key ∧ run.ServedSince n c key' := by
  induction n with
  | zero =>
    obtain ⟨name, start⟩ := run.start
    rw [start, show ((initial name).world.container c).cache = {} from (World.cache_add {} rfl c).trans rfl] at resolved
    cases resolved
  | succ n ih =>
    have live : ((run.state (n + 1)).world.container c).live = true := by
      by_contra dead
      rw [(run.reachable (n + 1)).sound.ok.ended c (Bool.eq_false_iff.2 dead)] at resolved
      cases resolved
    by_cases ends : (run.state n).terminates = some c
    · obtain ⟨x, -, cleared⟩ := (run.change n).clearBuilt live ends
      rw [cleared, Cache.isResolved_clearBuilt, Bool.and_eq_true] at resolved
      rw [cleared, Cache.isPinned_clearBuilt]
      exact .inl resolved.1
    · have puts := (run.change n).puts live ends
      -- What is in hand is served.
      have now : ∀ {b v}, (run.state n).hand? = some (b, v) → b.container = c → run.ServedSince (n + 1) c b.key := by
        rintro b v hand rfl
        refine ⟨n, Nat.lt_succ_self n, ⟨v, serves_of_hand hand⟩, fun k since until' => ?_⟩
        obtain rfl := Nat.le_antisymm since (Nat.le_of_lt_succ until')
        exact ends
      rcases puts.of_isResolved resolved with given | pinned
      · cases hand : (run.state n).hand? with
        | none =>
          rw [hand] at given puts
          rcases ih given with pinned | ⟨key', plain, served⟩
          · exact .inl (puts.isPinned pinned)
          · exact .inr ⟨key', plain, served.succ ends⟩
        | some x =>
          obtain ⟨b, v⟩ := x
          have alive := run.alive_of_hand hand
          rw [hand] at given puts
          rw [World.given, World.isResolved_record alive, Bool.or_eq_true, decide_eq_true_iff] at given
          rcases given with ⟨hc, plain⟩ | before
          · exact .inr ⟨b.key, plain, now hand hc⟩
          · rcases ih before with pinned | ⟨key', plain, served⟩
            · by_cases own : b.container = c ∧ b.key = key ∧ b.lifetime.cached = true
              · -- The instance that was pinned gives way.
                obtain ⟨hc, rfl, -⟩ := own
                exact .inr ⟨b.key, plain, now hand hc⟩
              · refine .inl (puts.isPinned ?_)
                rw [World.given, World.isPinned_record_of_ne alive v own]
                exact pinned
            · exact .inr ⟨key', plain, served.succ ends⟩
      · exact .inl pinned

end Run

end System

end Injector
