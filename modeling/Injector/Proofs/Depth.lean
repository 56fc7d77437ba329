import Injector.Proofs.Answers
/-!
# How deep a resolution goes

A resolution or a call goes into builds, one within the other (`Stack.Nest`). Each is asked for by a
parameter or a chained binding of the one around it, of the container that this one is on, and so
comes to be on that container or one of its bases. Every step keeps this (`Task.Nested.step`). As no
key is built within itself, there are no more builds than keys (`Task.Nested.deep`).
-/
namespace Injector

/-- What is true of the chains of containers: they hold the chains of their containers. -/
structure Upward (chain : ContainerId → List ContainerId) : Prop where
  self : ∀ c, c ∈ chain c
  trans : ∀ {c d e : ContainerId}, d ∈ chain c → e ∈ chain d → e ∈ chain c

theorem World.Ok.upward {w : World} (ok : w.Ok) : Upward w.chain := ⟨fun _ => List.mem_cons_self, ok.mem_chain_trans⟩

/-- Whether `above` was put on `base` by a resolution or a call on `c`: by the builds `bs`, the last of them on `d`,
and what asked for them. -/
inductive Stack.Nest (chain : ContainerId → List ContainerId) (keys : List Key) (c : ContainerId) (base : Stack .answer) :
    ContainerId → List Build → Stack .answer → Prop
  | base : Nest chain keys c base c [] base
  | build {d : ContainerId} {bs : List Build} {b : Build} {above : Stack .answer} (up : b.container ∈ chain d)
    (listed : b.key ∈ keys) (tame : b.Tame keys) (under : Nest chain keys c base d bs above) :
    Nest chain keys c base b.container (b :: bs) (.cons (.build b) above)
  | slot {d : ContainerId} {bs : List Build} {j : Job} {key : Key} {above : Stack .answer} (here : j.frame.container = d)
    (tame : j.Tame keys) (under : Nest chain keys c base d bs above) : Nest chain keys c base d bs (.cons (.slot j key) above)
  | convert {d : ContainerId} {bs : List Build} {product : Product} {input : Ty} {above : Stack .answer}
    (under : Nest chain keys c base d bs above) : Nest chain keys c base d bs (.cons (.convert product input) above)

/-- Whether an activity is at what was asked of `d`. -/
def Activity.On (chain : ContainerId → List ContainerId) (d : ContainerId) : Activity .answer → Prop
  | .resolve r => r.container = d
  | .line b => b.container ∈ chain d
  | .fill j | .pause j _ => j.frame.container = d
  | .give _ => True

/-- Whether a task is at a resolution or a call on `c` for which `base` waits. -/
inductive Task.Nested (chain : ContainerId → List ContainerId) (keys : List Key) (c : ContainerId) (base : Stack .answer) :
    Task → Prop
  | mk {a : Activity .answer} {d : ContainerId} {bs : List Build} {above : Stack .answer} (on : a.On chain d)
    (tame : a.Tame keys) (under : base.Nest chain keys c d bs above) : Nested chain keys c base ⟨.answer, a, above⟩

/-- How far down a task is that is at a resolution or a call on `c` for which `below` waits. -/
structure Task.Deep (t : Task) (chain : ContainerId → List ContainerId) (keys : List Key) (c : ContainerId)
    (below : Stack .answer) (inner : List Build) : Prop where
  /-- These are the builds that it is in, the one in line included, innermost first. -/
  locked : t.locked = inner ++ below.builds
  /-- No key is built within itself. -/
  apart : (t.locked.map Build.key).Nodup
  /-- Only keys of the list are built. -/
  listed : ∀ b ∈ inner, b.key ∈ keys
  /-- There are no more builds than keys. -/
  few : inner.length ≤ keys.length
  /-- Each build is on the container of the one around it, or on one of its bases. -/
  up : (inner.map Build.container ++ [c]).IsChain fun d e => d ∈ chain e
  /-- Between two builds there is only what asked for the inner one. -/
  height : t.stack.height ≤ below.height + 2 * inner.length + 1

variable {p : Program} {chain : ContainerId → List ContainerId} {keys : List Key} {c d : ContainerId}
  {base above : Stack .answer} {bs : List Build} {w : World} {env : Env} {t : Task}

/-! ## What has been put on a stack -/

namespace Stack.Nest

theorem builds (h : base.Nest chain keys c d bs above) : above.builds = bs ++ base.builds := by
  induction h with
  | base => rfl
  | build _ _ _ _ ih => exact congrArg (_ :: ·) ih
  | slot _ _ _ ih | convert _ ih => exact ih

theorem listed (h : base.Nest chain keys c d bs above) : ∀ b ∈ bs, b.key ∈ keys := by
  induction h with
  | base => exact fun b hb => (List.not_mem_nil hb).elim
  | build _ listed _ _ ih =>
    intro b hb
    rcases List.mem_cons.1 hb with rfl | hb
    · exact listed
    · exact ih b hb
  | slot _ _ _ ih | convert _ ih => exact ih

/-- The containers of the builds go up to the one that was asked first. -/
theorem up (h : base.Nest chain keys c d bs above) : ∃ rest, bs.map Build.container ++ [c] = d :: rest ∧
    (d :: rest).IsChain fun d e => d ∈ chain e := by
  induction h with
  | base => exact ⟨[], rfl, .singleton c⟩
  | build up _ _ _ ih =>
    obtain ⟨rest, split, linked⟩ := ih
    exact ⟨_, congrArg (_ :: ·) split, .cons_cons up linked⟩
  | slot _ _ _ ih | convert _ ih => exact ih

/-- What works with a container was asked in the course of something on the container or one that it is a base of. -/
theorem mem (h : base.Nest chain keys c d bs above) (upward : Upward chain) : d ∈ chain c := by
  induction h with
  | base => exact upward.self c
  | build up _ _ _ ih => exact upward.trans ih up
  | slot _ _ _ ih | convert _ ih => exact ih

theorem under (h : base.Nest chain keys c d bs above) (upward : Upward chain) : base.Under (chain c) above := by
  induction h with
  | base => exact .base
  | build up _ tame under ih => exact .build (upward.trans (under.mem upward) up) tame.bare ih
  | slot here tame under ih => exact .slot (here ▸ under.mem upward) tame.bare ih
  | convert _ ih => exact .convert ih

/-- Between two builds there is one thing only; and a function is called on top of a build or of what was there. -/
theorem height (h : base.Nest chain keys c d bs above) (wf : above.Wf) :
    above.height ≤ base.height + 2 * bs.length + 1 ∧
      ∀ e product, above.Calls e product → above.height ≤ base.height + 2 * bs.length := by
  induction h with
  | base => exact ⟨by omega, fun _ _ _ => by omega⟩
  | @build _ bs b above _ _ _ _ ih =>
    obtain ⟨-, wf⟩ := wf
    obtain ⟨high, -⟩ := ih wf
    have more : (Stack.cons (.build b) above).height ≤ base.height + 2 * (b :: bs).length := by
      simp only [Stack.height, List.length_cons]
      omega
    exact ⟨Nat.le_succ_of_le more, fun _ _ _ => more⟩
  | slot _ _ _ ih =>
    obtain ⟨fits, wf⟩ := wf
    exact ⟨Nat.succ_le_succ ((ih wf).2 _ _ fits.calls), fun _ _ h => h.elim⟩
  | convert _ ih =>
    obtain ⟨⟨e, calls⟩, wf⟩ := wf
    exact ⟨Nat.succ_le_succ ((ih wf).2 _ _ calls), fun _ _ h => h.elim⟩

end Stack.Nest

namespace Task.Nested

theorem within (h : t.Nested chain keys c base) (upward : Upward chain) : t.Within (chain c) base := by
  obtain @⟨a, d, bs, above, on, tame, under⟩ := h
  have here := under.mem upward
  refine .mk ?_ (under.under upward)
  cases a with
  | resolve r => exact ⟨Eq.symm on ▸ here, tame.bare⟩
  | line b => exact ⟨upward.trans here on, tame.2.bare⟩
  | fill j | pause j => exact ⟨Eq.symm on ▸ here, tame.bare⟩
  | give => trivial

/-- How deep a task in order is. -/
theorem deep (h : t.Nested chain keys c base) (wf : t.Wf) (apart : (t.locked.map Build.key).Nodup) :
    ∃ inner, t.Deep chain keys c base inner := by
  obtain @⟨a, d, bs, above, on, tame, under⟩ := h
  obtain ⟨high, -⟩ := under.height wf.stack
  obtain ⟨rest, split, linked⟩ := under.up
  -- Other than the builds in progress, only one in line counts.
  have deep : ∀ inner, Task.locked ⟨.answer, a, above⟩ = inner ++ base.builds → bs.length ≤ inner.length →
      (∀ b ∈ inner, b.key ∈ keys) → ((inner.map Build.container ++ [c]).IsChain fun d e => d ∈ chain e) →
      Task.Deep ⟨.answer, a, above⟩ chain keys c base inner := by
    intro inner locked more listed up
    refine ⟨locked, apart, listed, ?_, up, by change above.height ≤ _; omega⟩
    have distinct : (inner.map Build.key).Nodup := by
      rw [locked, List.map_append] at apart
      exact apart.of_append_left
    have sub : inner.map Build.key ⊆ keys := by
      intro key hk
      obtain ⟨b, hb, rfl⟩ := List.mem_map.1 hk
      exact listed b hb
    have fits := (distinct.subperm sub).length_le
    rwa [List.length_map] at fits
  cases a with
  | line b =>
    refine ⟨b :: bs, deep _ (congrArg (b :: ·) under.builds) (Nat.le_succ _) ?_ ?_⟩
    · intro b' hb'
      rcases List.mem_cons.1 hb' with rfl | hb'
      · exact tame.1
      · exact under.listed b' hb'
    · rw [List.map_cons, List.cons_append, split]
      exact .cons_cons on linked
  | resolve | fill | pause | give =>
    exact ⟨bs, deep _ under.builds (Nat.le_refl _) under.listed (split ▸ linked)⟩

/-! ## Steps go down, or back up -/

theorem give (answer : Except Failure Instance) (under : base.Nest chain keys c d bs above) :
    Task.Nested chain keys c base ⟨.answer, .give (k := .answer) answer, above⟩ := .mk (d := d) trivial trivial under

/-- A request leads up the chain of the container that is asked. -/
theorem resolve {r : Request} (tame : r.Tame keys) (world : w.Tame p keys) (sub : ∀ e, ∀ e' ∈ w.chain e, e' ∈ chain e)
    (here : r.container = d) (under : base.Nest chain keys c d bs above) :
    (Step.resolve w r above).task.Nested chain keys c base := by
  have right := w.right_locate r.container r.key
  unfold Step.resolve
  split
  · exact give _ under
  · exact give _ under
  · next c' key β located =>
    rw [located] at right
    split
    · exact give _ under
    · exact .mk (d := d) (sub d c' (here ▸ right.1)) ⟨tame.mem world located, tame.build world located rfl⟩ under

theorem build {b : Build} (listed : b.key ∈ keys) (tame : b.Tame keys) (up : b.container ∈ chain d)
    (under : base.Nest chain keys c d bs above) : (Step.build (w.letIn b) b above).task.Nested chain keys c base := by
  have inside : base.Nest chain keys c b.container (b :: bs) (.cons (.build b) above) := .build up listed tame under
  unfold Step.build
  split
  · exact give _ under
  · split
    · next f signature made => exact .mk rfl (Job.tame_start (tame.asks _ made) (tame.bare _ made) ..) inside
    · next product input target made =>
      exact .mk rfl (Request.tame_chained (tame.asks _ made List.mem_cons_self) _ _) (.convert inside)
    · exact give _ under

theorem filled {j : Job} {x : Except Failure (Filled × Frame)} (tame : j.Tame keys) (here : j.frame.container = d)
    (kept : ∀ filled f, x = .ok (filled, f) → j.frame.Kept f filled) (under : base.Nest chain keys c d bs above) :
    (Step.filled w j x above).task.Nested chain keys c base := by
  cases x with
  | error f => exact give _ under
  | ok x =>
    obtain ⟨-, same, -⟩ := kept x.1 x.2 rfl
    exact .mk (d := d) (same.trans here) (tame.tail x.1 x.2) under

theorem fill {j : Job} (tame : j.Tame keys) (world : w.Tame env.program keys) (here : j.frame.container = d)
    (under : base.Nest chain keys c d bs above) : (Step.fill env w j above).task.Nested chain keys c base := by
  have goes := Step.fill_cases env w j above
  generalize Step.fill env w j above = st at goes ⊢
  cases goes with
  | calls => exact .mk (d := d) here tame under
  | asks todo asked =>
    exact .mk (d := d) here (tame.request world todo asked _ _) (.slot here ⟨tame.asks, tame.bare⟩ under)
  | fills _ _ kept => exact filled tame here kept under

/-- Every step of a resolution or a call leads on with it. -/
theorem step (h : t.Nested chain keys c base) (own : env.program = p) (world : w.Tame p keys)
    (sub : ∀ e, ∀ e' ∈ w.chain e, e' ∈ chain e) (busy : ∀ a, t ≠ ⟨.answer, .give (k := .answer) a, base⟩) :
    (t.step env w).task.Nested chain keys c base := by
  obtain @⟨a, d, bs, above, on, tame, under⟩ := h
  cases a with
  | resolve r => exact resolve tame world sub on under
  | line b => exact build tame.1 tame.2 on under
  | fill j => exact fill tame (own ▸ world) on under
  | pause j times =>
    cases times with
    | zero =>
      obtain ⟨_, answer, gives, -⟩ := Step.conclude_gives w j above
      change (Step.start env w j above).task.Nested chain keys c base
      rw [Step.start_eq_conclude tame.bare, gives]
      exact give answer under
    | succ n => exact .mk on tame under
  | give answer =>
    cases under with
    | base => exact absurd rfl (busy answer)
    | build _ _ _ under => cases answer <;> exact give _ under
    | @slot _ _ j key above here tame under =>
      change (Step.slot w j key answer above).task.Nested chain keys c base
      unfold Step.slot
      split
      · exact .mk here tame under
      · exact filled tame here (fun _ _ hr => Frame.kept_fillWith hr) under
    | @convert _ _ product input above under =>
      change (Step.convert w product input answer above).task.Nested chain keys c base
      unfold Step.convert
      split
      · exact give _ under
      · exact give _ under

/-- It does no more to the world than to record what is in hand. -/
theorem tame_step (h : t.Nested chain keys c base) (own : env.program = p) (world : w.Tame p keys)
    (upward : Upward chain) (sub : ∀ e, ∀ e' ∈ w.chain e, e' ∈ chain e)
    (busy : ∀ a, t ≠ ⟨.answer, .give (k := .answer) a, base⟩) : (t.step env w).world.Tame p keys := by
  have closed : ∀ d ∈ chain c, ∀ e ∈ w.chain d, e ∈ chain c := fun d hd e he => upward.trans hd (sub d e he)
  exact world.after ((h.within upward).continues (own ▸ world.bare) closed busy).world

end Task.Nested

end Injector
