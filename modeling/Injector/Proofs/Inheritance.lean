import Injector.Proofs.Marks
/-!
# What scopes inherit

By the history of a run, a scope inherits from a container if it is a scope below it, at any
depth, and all scopes on the way, itself included, are opened after a mark
(`World.AccountedBy.inherits_iff`). What `c` has to do at its end is what its history says
(`World.AccountedBy.due_of_opened` and the like).
-/
namespace Injector

namespace World

open History

/-- The chain of a scope goes on with the chain of its base. -/
theorem Ok.chain_cons {w : World} {b c : ContainerId} {bs : List ContainerId} (ok : w.Ok)
    (bases : (w.container c).bases = b :: bs) : w.chain c = c :: w.chain b := by
  rw [World.chain, World.chain, bases, ok.chain c b bs bases]

namespace AccountedBy

variable {w : World} {H H₁ H₂ : List Mark} {b c d : ContainerId} {m : Mark}

/-- What is noted before a scope is opened is of containers with lower numbers. -/
theorem lt_of_opened (h : w.AccountedBy (H₁ ++ .opened b c :: H₂)) : ∀ m ∈ H₁, ∀ d ∈ m.containers, d < c := fun m hm =>
  (List.pairwise_append.1 h.fresh).2.2 m hm _ List.mem_cons_self c (beq_self_eq_true c)

theorem not_about (h : w.AccountedBy (H₁ ++ .opened b c :: H₂)) : ∀ m ∈ H₁, m.about ≠ some c := fun m hm about =>
  Nat.lt_irrefl c (h.lt_of_opened m hm c (m.mem_containers about))

/-- A container that is known is not opened again. -/
theorem closed (h : w.AccountedBy (H₁ ++ m :: H₂)) (known : c ∈ m.containers) : ∀ m' ∈ H₂, m'.opens c = false := by
  intro m' hm
  have later := (List.pairwise_cons.1 (List.pairwise_append.1 h.fresh).2.1).1 m' hm c
  exact Bool.eq_false_iff.2 fun opens => Nat.lt_irrefl c (later opens c known)

/-! ## What is due -/

/-- Until its first termination a scope has left what its base passed on when it was opened, and then its own. -/
theorem due_of_opened (h : w.AccountedBy (H₁ ++ .opened b c :: H₂)) (lasting : ∀ m ∈ H₂, m.ends c = false) :
    due c true (H₁ ++ .opened b c :: H₂) = (callbacksForScopes b H₁).map .callback ++ own c true H₂ := by
  have closed := h.closed (c := c) (by simp [Mark.containers])
  have split : H₁ ++ .opened b c :: H₂ = H₁ ++ [.opened b c] ++ H₂ := by simp
  rw [split, due_append fun m hm => ⟨closed m hm, lasting m hm⟩, due_opened h.not_about]

/-- After a termination a container has left only its own since then. -/
theorem due_of_terminated (h : w.AccountedBy (H₁ ++ .terminated c :: H₂)) (lasting : ∀ m ∈ H₂, m.ends c = false)
    (scope : Bool) : due c scope (H₁ ++ .terminated c :: H₂) = own c scope H₂ := by
  have closed := h.closed (c := c) (by simp [Mark.containers, Mark.about])
  have split : H₁ ++ .terminated c :: H₂ = H₁ ++ [.terminated c] ++ H₂ := by simp
  rw [split, due_append fun m hm => ⟨closed m hm, lasting m hm⟩, due_terminated, List.nil_append]

/-! ## Which hooks there are -/

/-- A scope has the hooks that its base passed on when it was opened, and then its own. -/
theorem hooks_of_opened (h : w.AccountedBy (H₁ ++ .opened b c :: H₂)) (key : Key) :
    hooks c true key (H₁ ++ .opened b c :: H₂) = hooksForScopes b key H₁ ++ ownHooks c true key H₂ := by
  have closed := h.closed (c := c) (by simp [Mark.containers])
  have split : H₁ ++ .opened b c :: H₂ = H₁ ++ [.opened b c] ++ H₂ := by simp
  rw [split, hooks_append closed, hooks_opened h.not_about]

/-! ## What is inherited -/

section
variable (h : w.AccountedBy (H₁ ++ H₂)) (ok : w.Ok) (alive : w.Alive c)
include h ok alive

/-- A scope that is opened in the later part of a history inherits from its base, and what that inherits. -/
theorem inherits_of_opened (opened : .opened b c ∈ H₂) (d : ContainerId) :
    inherits d c H₂ = (d == b || inherits d b H₂) := by
  have below : b ∈ (w.container c).bases :=
    List.mem_of_mem_head? (h.base_of_opened alive (List.mem_append_right _ opened))
  obtain ⟨before, after, rfl⟩ := List.append_of_mem opened
  rw [← List.append_assoc] at h
  have new : ∀ m ∈ before, m.about ≠ some c := fun m hm => h.not_about m (List.mem_append_right _ hm)
  have closed := h.closed (c := c) (by simp [Mark.containers])
  -- The base was there before.
  have base : ∀ m ∈ .opened b c :: after, m.opens b = false := by
    intro m hm
    rcases List.mem_cons.1 hm with rfl | hm
    · refine beq_false_of_ne fun same => ok.not_mem_chain below ?_
      exact same ▸ List.mem_cons_self
    · exact h.closed (c := b) (by simp [Mark.containers]) m hm
  have split : before ++ .opened b c :: after = before ++ [.opened b c] ++ after := by simp
  rw [inherits_append base d, split, inherits_append closed d, inherits_opened new (fun _ hm => hm)]

/-- A scope inherits from the containers below that all scopes on the way are opened after. -/
theorem inherits_iff : inherits d c H₂ = true ↔
    d ∈ (w.container c).bases ∧ ∀ e ∈ w.chain c, d ∈ (w.container e).bases → ∃ b, .opened b e ∈ H₂ := by
  -- Who is not opened in the later part inherits nothing of it.
  have early : ∀ {c}, (¬ ∃ b, .opened b c ∈ H₂) → inherits d c H₂ = false := by
    intro c unopened
    refine inherits_of_unopened (fun m hm => Bool.eq_false_iff.2 fun opens => unopened ?_) d
    cases m with
    | opened b e =>
      obtain rfl := eq_of_beq opens
      exact ⟨b, hm⟩
    | callback | hook | built | called | terminated => cases opens
  induction bases : (w.container c).bases generalizing c with
  | nil =>
    rw [early ?_]
    · simp
    · rintro ⟨b, opened⟩
      have base := h.base_of_opened alive (List.mem_append_right _ opened)
      rw [bases] at base
      cases base
  | cons b bs ih =>
    have below : b ∈ (w.container c).bases := bases ▸ List.mem_cons_self
    have hb := ok.chain c b bs bases
    rw [ok.chain_cons bases]
    by_cases opened : ∃ b, .opened b c ∈ H₂
    · obtain ⟨b', here⟩ := opened
      obtain rfl : b' = b := by
        have base := h.base_of_opened alive (List.mem_append_right _ here)
        rw [bases] at base
        exact (Option.some.inj base).symm
      have inner := ih (ok.bases c alive b' below) hb
      rw [h.inherits_of_opened ok alive here, Bool.or_eq_true, beq_iff_eq, List.mem_cons]
      refine (or_congr_right inner).trans ?_
      constructor
      · rintro (rfl | ⟨hd, all⟩)
        · refine ⟨.inl rfl, fun e he below => ?_⟩
          rcases List.mem_cons.1 he with rfl | he
          · exact ⟨_, here⟩
          · exact absurd he (ok.not_mem_chain below)
        · refine ⟨.inr hd, fun e he below => ?_⟩
          rcases List.mem_cons.1 he with rfl | he
          · exact ⟨_, here⟩
          · exact all e he below
      · rintro ⟨rfl | hd, all⟩
        · exact .inl rfl
        · exact .inr ⟨hd, fun e he => all e (List.mem_cons_of_mem _ he)⟩
    · rw [early opened]
      refine ⟨(by rintro ⟨⟩), fun ⟨hd, all⟩ => ?_⟩
      exact absurd (all c List.mem_cons_self (bases ▸ hd)) opened

end

end AccountedBy
end World
end Injector
