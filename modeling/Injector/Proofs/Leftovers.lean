import Injector.Proofs.Containers
/-!
# What ended containers leave

`World.Ends`: which containers were ended on the way from one world to another, one after the
other, and what each of them left to do. A scope is ended before its bases. It holds of what ends
no container (`Ends.nothing`), of a new container (`Ends.add`) and of the end of what nobody can
reach (`Ends.release`), and of all that these make up (`Ends.trans`).
-/
namespace Injector

/-- What a container still had to do when it was ended. -/
structure Leftover where
  container : ContainerId
  teardowns : List Teardown

/-- What is to be done of all that was left, one list for each container that left something. -/
def Leftover.toDo (es : List Leftover) : List (List Teardown) := (es.map teardowns).filter fun ts => !ts.isEmpty

namespace World

variable {w w' w'' : World} {es es' : List Leftover} {c d : ContainerId}

/-- What a container would leave. -/
def leftover (w : World) (c : ContainerId) : Leftover := ⟨c, (w.container c).callbacks.terminating⟩

/-- Whether the bases of containers are in order: they were opened before, and none is ended before a scope on it. -/
structure Rooted (w : World) : Prop where
  linked : ∀ c b bs, (w.container c).bases = b :: bs → (w.container b).bases = bs
  lower : ∀ c, ∀ b ∈ (w.container c).bases, b < c
  bases : ∀ c, (w.container c).live = true → ∀ b ∈ (w.container c).bases, (w.container b).live = true

/-- Whether these are the containers that were ended on the way from `w` to `w'`, in this order, with what they left. -/
structure Ends (w : World) (es : List Leftover) (w' : World) : Prop where
  grows : w.containers.length ≤ w'.containers.length
  bases : ∀ c < w.containers.length, (w'.container c).bases = (w.container c).bases
  /-- What is not ended has no bases that are, also if it is new. -/
  based : ∀ c, (w.container c).live = true → ∀ b ∈ (w'.container c).bases, (w.container b).live = true
  live : ∀ c, (w'.container c).live = true ↔ (w.container c).live = true ∧ c ∉ es.map Leftover.container
  known : ∀ e ∈ es, (w.container e.container).live = true ∧ e.container < w'.containers.length
  once : (es.map Leftover.container).Nodup
  orphans : w'.orphans = w.orphans ++ Leftover.toDo es
  order : es.Pairwise fun e e' => e.container ∉ (w'.container e'.container).bases

/-! ## Containers in order -/

namespace Rooted

theorem of_same (h : w.Rooted) (bases : ∀ c, (w'.container c).bases = (w.container c).bases)
    (live : ∀ c, (w'.container c).live = (w.container c).live) : w'.Rooted where
  linked c b bs := by
    rw [bases, bases]
    exact h.linked c b bs
  lower c b hb := h.lower c b (bases c ▸ hb)
  bases c alive b hb := by
    rw [live] at alive ⊢
    exact h.bases c alive b (bases c ▸ hb)

/-- The bases of a new container are a chain of open ones. -/
theorem add (h : w.Rooted) {x : Container} (bases : x.bases = [] ∨ ∃ b, w.Alive b ∧ x.bases = w.chain b) :
    (w.add x).2.Rooted := by
  have below : ∀ b ∈ x.bases, w.Alive b := by
    rcases bases with none | ⟨b, alive, chain⟩
    · simp [none]
    · rw [chain]
      intro d hd
      rcases List.mem_cons.1 hd with rfl | hd
      · exact alive
      · exact ⟨Nat.lt_trans (h.lower b d hd) alive.1, h.bases b alive.2 d hd⟩
  -- What is below a container is an old one.
  have old : ∀ {c b}, b ∈ ((w.add x).2.container c).bases → (w.add x).2.container b = w.container b ∧ b < c := by
    intro c b hb
    rcases container_add_cases w x c with ⟨hc, same⟩ | ⟨rfl, new⟩ | ⟨-, none, -⟩
    · rw [same] at hb
      have lower := h.lower c b hb
      exact ⟨container_add_of_lt w x (Nat.lt_trans lower hc), lower⟩
    · rw [new] at hb
      exact ⟨container_add_of_lt w x (below b hb).1, (below b hb).1⟩
    · rw [none] at hb
      cases hb
  constructor
  case linked =>
    intro c b bs eq
    rw [(old (c := c) (b := b) (by rw [eq]; exact List.mem_cons_self)).1]
    rcases container_add_cases w x c with ⟨-, same⟩ | ⟨rfl, new⟩ | ⟨-, none, -⟩
    · exact h.linked c b bs (same ▸ eq)
    · rw [new] at eq
      rcases bases with none | ⟨b', -, chain⟩
      · rw [none] at eq
        cases eq
      · rw [chain] at eq
        injection eq with same rest
        exact same ▸ rest
    · rw [none] at eq
      cases eq
  case lower => exact fun c b hb => (old hb).2
  case bases =>
    intro c alive b hb
    rw [(old hb).1]
    rcases container_add_cases w x c with ⟨-, same⟩ | ⟨rfl, new⟩ | ⟨-, none, -⟩
    · rw [same] at alive hb
      exact h.bases c alive b hb
    · exact (below b (new ▸ hb)).2
    · rw [none] at hb
      cases hb

theorem bases_mem_reachable (h : w.Rooted) {held : List ContainerId} (hc : c ∈ w.reachable held)
    (hd : d ∈ (w.container c).bases) : d ∈ w.reachable held := World.bases_mem_reachable h.linked hc hd

theorem release (h : w.Rooted) (held : List ContainerId) : (w.release held).Rooted := by
  constructor
  case linked =>
    intro c b bs
    rw [bases_release, bases_release]
    exact h.linked c b bs
  case lower => exact fun c b hb => h.lower c b (bases_release w held c ▸ hb)
  case bases =>
    intro c alive b hb
    rw [bases_release] at hb
    rw [container_release] at alive ⊢
    split at alive
    · cases alive
    · next kept =>
      have live := h.bases c alive b hb
      rw [if_neg]
      · exact live
      · -- Who can reach the scope can reach its bases.
        intro gone
        refine (mem_unreachable.1 gone).2 (h.bases_mem_reachable ?_ hb)
        by_contra unreached
        refine kept (mem_unreachable.2 ⟨⟨?_, alive⟩, unreached⟩)
        by_contra past
        rw [container_of_ge (Nat.not_lt.1 past)] at hb
        cases hb

end Rooted

/-! ## What is left when containers are closed -/

theorem orphans_close_eq (w : World) (c : ContainerId) :
    (w.close c).orphans = w.orphans ++ Leftover.toDo [w.leftover c] := by
  cases left : (w.container c).callbacks.terminating <;> simp [close, leftover, Leftover.toDo, left]

theorem leftover_close (c : ContainerId) (hc : c < w.containers.length) (ne : c ≠ d) :
    (w.close c).leftover d = w.leftover d := by
  rw [leftover, container_close w d hc, if_neg ne, leftover]

/-- Each container leaves what it had. -/
theorem orphans_closeAll_eq (cs : List ContainerId) : ∀ w : World, cs.Nodup → (∀ c ∈ cs, c < w.containers.length) →
    (cs.foldl close w).orphans = w.orphans ++ Leftover.toDo (cs.map w.leftover) := by
  induction cs with
  | nil => exact fun w _ _ => (List.append_nil _).symm
  | cons c cs ih =>
    intro w nodup known
    obtain ⟨other, nodup⟩ := List.nodup_cons.1 nodup
    have hc := known c List.mem_cons_self
    have later : cs.map (w.close c).leftover = cs.map w.leftover :=
      List.map_congr_left fun d hd => leftover_close c hc fun same => other (same ▸ hd)
    have known' : ∀ d ∈ cs, d < (w.close c).containers.length := fun d hd =>
      length_close w c ▸ known d (List.mem_cons_of_mem _ hd)
    rw [List.foldl_cons, ih _ nodup known', later, orphans_close_eq, List.append_assoc]
    simp [Leftover.toDo, List.filter_cons]
    split <;> rfl

/-- The newest of the containers that nobody can reach is ended first. -/
theorem unreachable_sorted (w : World) (held : List ContainerId) : (w.unreachable held).Pairwise (· > ·) := by
  refine List.Pairwise.filter _ ?_
  rw [List.pairwise_reverse]
  exact List.pairwise_lt_range

/-! ## Ends -/

namespace Ends

/-- What ends no container and opens none. -/
theorem nothing (rooted : w.Rooted) (length : w'.containers.length = w.containers.length)
    (bases : ∀ c, (w'.container c).bases = (w.container c).bases) (live : ∀ c, (w'.container c).live = (w.container c).live)
    (orphans : w'.orphans = w.orphans) : w.Ends [] w' where
  grows := Nat.le_of_eq length.symm
  bases c _ := bases c
  based c alive b hb := rooted.bases c alive b (bases c ▸ hb)
  live c := by simp [live]
  known _ he := (List.not_mem_nil he).elim
  once := .nil
  orphans := orphans.trans (List.append_nil _).symm
  order := .nil

theorem add (rooted : w.Rooted) {x : Container} (live : x.live = true)
    (bases : x.bases = [] ∨ ∃ b, w.Alive b ∧ x.bases = w.chain b) : w.Ends [] (w.add x).2 where
  grows := by simp [World.add]
  bases c hc := by rw [container_add_of_lt w x hc]
  based c alive b hb := by
    have lower := (rooted.add bases).lower c b hb
    have open' : ((w.add x).2.container c).live = true := by
      rw [container_add]
      split
      · exact live
      · exact alive
    have alive' := (rooted.add bases).bases c open' b hb
    rw [container_add] at alive'
    split at alive'
    · next new => rw [new, container_of_ge (Nat.le_refl _)]
    · exact alive'
  live c := by
    rw [container_add]
    split
    · next new => simp [live, new, container_of_ge (w := w) (Nat.le_refl _)]
    · simp
  known _ he := (List.not_mem_nil he).elim
  once := .nil
  orphans := (List.append_nil _).symm
  order := .nil

/-- All that nobody can reach is ended, scopes before their bases, and leaves what it had to do. -/
theorem release (rooted : w.Rooted) (held : List ContainerId) :
    w.Ends ((w.unreachable held).map w.leftover) (w.release held) := by
  have numbers : ((w.unreachable held).map w.leftover).map Leftover.container = w.unreachable held :=
    (List.map_map).trans ((List.map_congr_left fun _ _ => rfl).trans (List.map_id _))
  have known : ∀ c ∈ w.unreachable held, w.Alive c := fun c hc => (mem_unreachable.1 hc).1
  have sorted := unreachable_sorted w held
  have nodup : (w.unreachable held).Nodup := sorted.imp fun h => Nat.ne_of_gt h
  constructor
  case grows => exact Nat.le_of_eq (length_release w held).symm
  case bases => exact fun c _ => bases_release w held c
  case based => exact fun c alive b hb => rooted.bases c alive b (bases_release w held c ▸ hb)
  case live =>
    intro c
    rw [numbers, container_release]
    split
    · next gone => simp [World.ended, gone]
    · next kept => simp [kept]
  case known =>
    intro e he
    obtain ⟨c, hc, rfl⟩ := List.mem_map.1 he
    exact ⟨(known c hc).2, length_release w held ▸ (known c hc).1⟩
  case once =>
    rw [numbers]
    exact nodup
  case orphans => exact orphans_closeAll_eq _ w nodup fun c hc => (known c hc).1
  case order =>
    refine List.pairwise_map.2 (sorted.imp fun {c d} newer below => ?_)
    rw [bases_release] at below
    exact Nat.lt_asymm newer (rooted.lower d c below)

theorem trans (h : w.Ends es w') (h' : w'.Ends es' w'') : w.Ends (es ++ es') w'' := by
  have bases : ∀ c < w'.containers.length, (w''.container c).bases = (w'.container c).bases := h'.bases
  constructor
  case grows => exact Nat.le_trans h.grows h'.grows
  case bases => exact fun c hc => (h'.bases c (Nat.lt_of_lt_of_le hc h.grows)).trans (h.bases c hc)
  case based =>
    intro c alive b hb
    by_cases old : c < w'.containers.length
    · exact h.based c alive b (bases c old ▸ hb)
    · -- A container that was opened later has bases that were open then.
      have new : (w'.container c).live = true := by rw [container_of_ge (Nat.not_lt.1 old)]
      exact ((h.live b).1 (h'.based c new b hb)).1
  case live =>
    intro c
    rw [h'.live, h.live, List.map_append, List.mem_append, not_or, and_assoc]
  case known =>
    intro e he
    rcases List.mem_append.1 he with he | he
    · exact ⟨(h.known e he).1, Nat.lt_of_lt_of_le (h.known e he).2 h'.grows⟩
    · exact ⟨((h.live _).1 (h'.known e he).1).1, (h'.known e he).2⟩
  case once =>
    rw [List.map_append]
    refine List.nodup_append.2 ⟨h.once, h'.once, fun c hc d hd same => ?_⟩
    obtain ⟨e, he, rfl⟩ := List.mem_map.1 hd
    subst same
    exact ((h.live _).1 (h'.known e he).1).2 hc
  case orphans =>
    rw [h'.orphans, h.orphans, List.append_assoc, Leftover.toDo, Leftover.toDo, Leftover.toDo, List.map_append,
      List.filter_append]
  case order =>
    refine List.pairwise_append.2 ⟨h.order.imp_of_mem fun {e e'} _ he' apart => ?_, h'.order, fun e he e' he' below => ?_⟩
    · rwa [bases _ (h.known e' he').2]
    · have still := h'.based _ (h'.known e' he').1 _ below
      exact ((h.live _).1 still).2 (List.mem_map_of_mem he)

/-- Who is ended stays so. -/
theorem dead (h : w.Ends es w') (dead : (w.container c).live = false) : (w'.container c).live = false := by
  refine Bool.eq_false_iff.2 fun alive => ?_
  rw [((h.live c).1 alive).1] at dead
  cases dead

end Ends

end World

end Injector
