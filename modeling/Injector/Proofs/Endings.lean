import Injector.Proofs.Finalization
import Injector.Proofs.Following
import Injector.Proofs.Inheritance
/-!
# What the end of a container brings

A container that is terminated gives all that it has left to do to the task that terminates it
(`Task.step_of_terminates`), which does it one by one (`Takes.winding`): so it is in every run
(`Run.winds`). `Run.terminates_in_order`: what is done then is what the history of the container
says, whatever is registered or built meanwhile.
-/
namespace Injector

namespace Teardown

/-- What is told when it begins. -/
def told : Teardown → Event
  | .finalize f v => .finalized f.script.id v
  | .callback s => .terminating s.id

/-- The id of what is performed. -/
def id : Teardown → String
  | .finalize f _ => f.script.id
  | .callback s => s.id

/-- The operations that are performed for it. -/
def actions : Teardown → List Op
  | .finalize f _ => f.script.actions
  | .callback s => s.actions

/-- Whether it is not passed over: a finalizer has to be for the type of its instance. -/
def Fits : Teardown → Prop
  | .finalize f v => f.ty = v.ty
  | .callback _ => True

end Teardown

/-! ## One by one -/

/-- What a task begins to do of what a container had left, when so much waits. -/
def Task.begins (height : Nat) : Task → Option Teardown
  | ⟨_, .windDown _ (x :: _), below⟩ => if below.height = height then some x else none
  | _ => none

/-- How far a task has come with what a container had left, `below` waiting for its end: some is begun, the last of it
may not be over, and the rest comes after it. -/
inductive Task.Winds (path : List Key) (below : Stack .done) : List Teardown → List Teardown → Task → Prop
  | next {gone rest : List Teardown} : Winds path below gone rest ⟨.done, .windDown path rest, below⟩
  /-- An operation of the last is performed; others come after it. -/
  | performs {before rest : List Teardown} {x : Teardown} {o : Op} {ops : List Op} {t : Task} (of : o :: ops <:+ x.actions)
    (on : (Stack.cons (.callback path o.heading ops rest) below).On t.stack) : Winds path below (before ++ [x]) rest t

theorem Step.windDown_cons {w : World} {path : List Key} {x : Teardown} {ts : List Teardown} {below : Stack .done}
    (fits : x.Fits) : windDown w path (x :: ts) below = callback (w.tell x.told) path x.actions ts below := by
  cases x with
  | callback s => rfl
  | finalize f v => exact if_pos fits

namespace Task.Winds

variable {path : List Key} {below : Stack .done} {before gone rest : List Teardown} {x : Teardown} {t : Task}

/-- The operations of what was begun last, then the rest. -/
theorem callback {w : World} {ops : List Op} (of : ops <:+ x.actions) :
    (Step.callback w path ops rest below).task.Winds path below (before ++ [x]) rest := by
  cases ops with
  | nil => exact .next
  | cons o ops => exact .performs of .base

/-- What is begun is not begun again. -/
theorem begins_eq_none {k : Cont .reply .done} (on : (Stack.cons k below).On t.stack) : t.begins below.height = none := by
  unfold Task.begins
  split
  · next above =>
    have higher : below.height < above.height := on.height_lt
    exact if_neg (Nat.ne_of_gt higher)
  · rfl

/-- After an operation of what was begun last, the others, and then the rest. -/
theorem replied {w : World} {r : Reply} {o : Op} {ops : List Op} (of : o :: ops <:+ x.actions) :
    (Step.replied w r (.callback path o.heading ops rest) below).task.Winds path below (before ++ [x]) rest := by
  have later : ops <:+ x.actions := (List.suffix_cons o ops).trans of
  unfold Step.replied
  dsimp only
  cases o.heading.stops r with
  | some => exact .next
  | none => exact .callback later

theorem unfinished (h : t.Winds path below gone rest) : t.reply? = none := by
  by_cases replied : t.reply? = none
  · exact replied
  · obtain ⟨r, rfl⟩ := Task.eq_of_reply replied
    cases h with
    | performs _ on => nomatch on

end Task.Winds

namespace System

variable {p : Program} {s s' : System} {i : Nat} {path : List Key} {below : Stack .done} {gone rest : List Teardown}
  {t : Task} {st : Step}

/-- What a step does with what a container had left: when nothing is left, that is over; else it begins the next, or
goes on with what is begun. -/
inductive Winding (s : System) (path : List Key) (below : Stack .done) (t : Task) (st : Step) :
    List Teardown → List Teardown → Prop
  | ends {gone : List Teardown} (last : t = ⟨.done, .windDown path [], below⟩)
    (gives : st.task = ⟨.done, .give (k := .done) (), below⟩) : Winding s path below t st gone []
  | begins {gone rest : List Teardown} {x : Teardown} (next : t = ⟨.done, .windDown path (x :: rest), below⟩)
    (world : st.world = s.world.tell x.told) (winds : st.task.Winds path below (gone ++ [x]) rest) :
    Winding s path below t st gone (x :: rest)
  | goesOn {gone rest : List Teardown} (none : t.begins below.height = none)
    (winds : st.task.Winds path below gone rest) : Winding s path below t st gone rest

theorem Takes.winding (h : s.Takes p i t st) (winds : t.Winds path below gone rest) (fits : ∀ x ∈ rest, x.Fits) :
    s.Winding path below t st gone rest := by
  cases winds with
  | next =>
    cases h with
    | step =>
      cases rest with
      | nil => exact .ends rfl rfl
      | cons x rest =>
        have done : Task.step ⟨p, s.held, s.tasks.length⟩ s.world ⟨.done, .windDown path (x :: rest), below⟩ =
            Step.callback (s.world.tell x.told) path x.actions rest below :=
          Step.windDown_cons (fits x List.mem_cons_self)
        rw [done]
        refine .begins rfl ?_ (.callback List.suffix_rfl)
        cases x.actions <;> rfl
  | @performs before rest x o ops t of on =>
    refine .goesOn (Task.Winds.begins_eq_none on) ?_
    by_cases busy : ∀ r, t ≠ ⟨.reply, .give (k := .reply) r, .cons (.callback path o.heading ops rest) below⟩
    · exact .performs of (h.on on busy)
    · obtain ⟨r, given⟩ := Classical.not_forall.1 busy
      obtain rfl := Classical.not_not.1 given
      cases h with
      | step => exact .replied of

/-- What task `i` begins in the next move of what a container had left, when so much waits. -/
def begins (s : System) (i height : Nat) : Option Teardown :=
  if s.running = some i then s.tasks[i]?.bind (Task.begins height) else none

theorem begins_eq (running : s.running = some i) (found : s.tasks[i]? = some t) (height : Nat) :
    s.begins i height = t.begins height := by
  rw [begins, if_pos running, found]
  rfl

/-- Who takes no step begins nothing. -/
theorem begins_eq_none (found : s.tasks[i]? = some t) (halts : s.running = some i → s.Halts) (height : Nat) :
    s.begins i height = none := by
  by_cases running : s.running = some i
  · rw [begins_eq running found]
    rcases halts running i t running found with ⟨r, rfl⟩ | ⟨b, above, rfl, -⟩ | ⟨ts, above, rfl⟩ <;> rfl
  · exact if_neg running

namespace Run

/-- What task `i` begins between states `n` and `m` of what a container had left, when so much waits. -/
def begun (run : Run p) (i height n m : Nat) : List Teardown :=
  (List.range' n (m - n)).filterMap fun k => (run.state k).begins i height

theorem begun_self (run : Run p) (i height n : Nat) : run.begun i height n n = [] := by
  rw [begun, Nat.sub_self]
  rfl

theorem begun_succ (run : Run p) (i height : Nat) {n m : Nat} (later : n ≤ m) :
    run.begun i height n (m + 1) = run.begun i height n m ++ ((run.state m).begins i height).toList := by
  have last : n + (m - n) = m := by omega
  rw [begun, begun, Nat.succ_sub later, List.range'_concat, List.filterMap_append, Nat.one_mul, last]
  cases h : (run.state m).begins i height <;> simp [h]

/-- How far task `i` has come by state `m` with what a container had left in state `n`, with `below` waiting for its end:
what it has begun and the rest are all that was left; or all of it was begun, and it is over. -/
inductive Winds (run : Run p) (i : Nat) (path : List Key) (below : Stack .done) (ts : List Teardown) (n m : Nat) : Prop
  | going (rest : List Teardown) (t : Task) (order : run.begun i below.height n m ++ rest = ts)
    (found : (run.state m).tasks[i]? = some t) (winds : t.Winds path below (run.begun i below.height n m) rest)
  | ended (e : Nat) (since : n ≤ e) (before : e < m) (order : run.begun i below.height n e = ts)
    (last : (run.state e).tasks[i]? = some ⟨.done, .windDown path [], below⟩)
    (gives : (run.state (e + 1)).tasks[i]? = some ⟨.done, .give (k := .done) (), below⟩)

theorem Winds.succ {run : Run p} {ts : List Teardown} {n m : Nat} (fits : ∀ x ∈ ts, x.Fits) (later : n ≤ m)
    (h : run.Winds i path below ts n m) : run.Winds i path below ts n (m + 1) := by
  cases h with
  | ended e since before order last gives => exact .ended e since (Nat.lt_succ_of_lt before) order last gives
  | going rest t order found winds =>
    have fits : ∀ x ∈ rest, x.Fits := fun x hx => fits x (order ▸ List.mem_append_right _ hx)
    have more := run.begun_succ i below.height later
    cases run.follows found winds.unfinished with
    | stays found' halts =>
      rw [begins_eq_none found halts, Option.toList_none, List.append_nil] at more
      exact .going rest t (more ▸ order) found' (more ▸ winds)
    | step st running takes world found' =>
      rw [begins_eq running found] at more
      cases takes.winding winds fits with
      | ends last gives =>
        refine .ended m later (Nat.lt_succ_self m) ?_ (last ▸ found) (gives ▸ found')
        rw [← order, List.append_nil]
      | @begins rest x next world' winds' =>
        rw [next, Task.begins, if_pos rfl, Option.toList_some] at more
        refine .going rest _ ?_ found' (more ▸ winds')
        rw [more, ← order, List.append_assoc, List.singleton_append]
      | goesOn none winds' =>
        rw [none, Option.toList_none, List.append_nil] at more
        exact .going rest _ (more ▸ order) found' (more ▸ winds')

end Run

end System

/-! ## What is left at the end -/

/-- A step that terminates a container: the task takes over what was left by then. -/
theorem Task.step_of_terminates {w : World} {t : Task} {c : ContainerId} (env : Env) (ok : w.Ok)
    (alive : ∀ c ∈ t.held, w.Alive c) (h : t.terminates w = some c) : ∃ ms w₁ path r, ∃ below : Stack .reply,
      t.marks env w = ms ++ [.terminated c] ∧ w.Notes ms w₁ ∧ w₁.Alive c ∧
        t.step env w = .terminate w₁ c path r below := by
  unfold Task.terminates at h
  split at h
  · next s heading below =>
    have hself : ∀ d, s.self = some d → w.Alive d := fun d hd => alive d (List.mem_append_left _ (Option.mem_toList.2 hd))
    refine ⟨[], w, s.path, .ok, below, ?_, .refl w, World.alive_target ok hself h, ?_⟩
    · rw [Task.marks, h]
      rfl
    · simp only [Task.step, Step.perform, h, Step.lasting]
  · next s heading name below =>
    obtain ⟨b, found, rfl⟩ := Option.map_eq_some_iff.1 h
    have hself : ∀ d, s.self = some d → w.Alive d := fun d hd => alive d (List.mem_append_left _ (Option.mem_toList.2 hd))
    have opened : w.Notes [.opened b (w.openScope b).1]
        (((w.openScope b).2.giveName name (w.openScope b).1).forget name) :=
      (World.Notes.openScope (World.alive_target ok hself found)).trans (.of_containers rfl rfl rfl)
    refine ⟨_, _, s.path, .ok, below, ?_, opened, World.alive_openScope b, ?_⟩
    · rw [Task.marks, found]
      rfl
    · simp only [Task.step, Step.perform, found, Step.lasting]
      rfl
  · next r scope name path heading rest below =>
    split at h
    · next stopped =>
      obtain rfl := Option.some.inj h
      have told : w.Notes [] (w.tell (.performed heading.label r)) := .tell w rfl
      have forgot : w.Notes [] ((w.tell (.performed heading.label r)).forget name) := told.trans (.of_containers rfl rfl rfl)
      refine ⟨[], _, path, (heading.stops r).elim .ok .failed, below, ?_, forgot, alive scope List.mem_cons_self, ?_⟩
      · exact if_pos stopped
      · change Step.replied w r (.scopeBody scope name path heading rest) below = _
        unfold Step.replied
        dsimp only
        cases stops : heading.stops r with
        | some f => rfl
        | none =>
          cases rest with
          | nil => rfl
          | cons => simp [stops] at stopped
    · cases h
  · cases h

/-- What container `c` has left to do after a history: all that is due; that is at the first end of a scope what its base
passed on to it and then its own, at a later end its own since then. -/
structure History.Left (c : ContainerId) (H : List Mark) (ts : List Teardown) : Prop where
  due : ts = due c (H.any (Mark.opens c)) H
  first : ∀ b H₁ H₂, H = H₁ ++ .opened b c :: H₂ → (∀ m ∈ H₂, m.ends c = false) →
    ts = (callbacksForScopes b H₁).map .callback ++ own c true H₂
  again : ∀ H₁ H₂, H = H₁ ++ .terminated c :: H₂ → (∀ m ∈ H₂, m.ends c = false) → ts = own c (H.any (Mark.opens c)) H₂
  root : (∀ m ∈ H, m.opens c = false ∧ m.ends c = false) → ts = own c false H

theorem World.AccountedBy.left_of_due {w : World} {H : List Mark} {c : ContainerId} {ts : List Teardown}
    (h : w.AccountedBy H) (due : ts = History.due c (H.any (Mark.opens c)) H) : History.Left c H ts := by
  refine ⟨due, fun b H₁ H₂ split lasting => ?_, fun H₁ H₂ split lasting => ?_, fun nothing => ?_⟩
  · have scope : H.any (Mark.opens c) = true := by
      rw [List.any_eq_true]
      exact ⟨.opened b c, split ▸ List.mem_append_right _ List.mem_cons_self, beq_self_eq_true c⟩
    rw [due, scope]
    subst split
    exact h.due_of_opened lasting
  · rw [due]
    generalize H.any (Mark.opens c) = scope
    subst split
    exact h.due_of_terminated lasting scope
  · have root : H.any (Mark.opens c) = false :=
      List.any_eq_false.2 fun m hm => Bool.eq_false_iff.1 (nothing m hm).1
    rw [due, root]
    exact History.due_append (H := []) nothing false

theorem World.AccountedBy.left {w : World} {H : List Mark} {c : ContainerId} (h : w.AccountedBy H) (alive : w.Alive c) :
    History.Left c H (w.container c).callbacks.terminating := h.left_of_due (h.due_leftover alive)

namespace System

variable {p : Program}

/-- The task that terminates a container takes over what that has left. -/
theorem Run.takes_over (run : Run p) {n : Nat} {c : ContainerId} (ends : (run.state n).terminates = some c) :
    ∃ i H path r ts, ∃ below : Stack .reply, (run.state n).running = some i ∧
      run.history (n + 1) = H ++ [.terminated c] ∧ History.Left c H ts ∧
      (run.state (n + 1)).tasks[i]? = some ⟨.done, .windDown path ts, .cons (.close (some c) r) below⟩ := by
  have sound := (run.reachable n).sound
  obtain ⟨t, current, ends⟩ := Option.bind_eq_some_iff.1 ends
  obtain ⟨i, running, found⟩ := exists_of_current current
  have ht := List.mem_of_getElem? found
  obtain ⟨ms, w₁, path, r, below, marks, notes, alive, step⟩ :=
    Task.step_of_terminates ⟨p, (run.state n).held, (run.state n).tasks.length⟩ sound.ok (sound.alive t ht) ends
  have history : run.history (n + 1) = run.history n ++ ms ++ [.terminated c] := by
    rw [Run.history_succ, Run.marks, System.marks, current, Option.map_some, Option.getD_some, marks, List.append_assoc]
  refine ⟨i, run.history n ++ ms, path, r, _, below, running, history,
    (notes.accounts _ (run.accounted n)).left alive, ?_⟩
  obtain ⟨-, found'⟩ := run.goes_on running found (by rintro r rfl; cases ends) (by rintro b above rfl; cases ends)
    (by rintro ts above rfl; cases ends)
  rw [step] at found'
  exact found'

/-- What comes next is told of, and its operations are performed. -/
theorem Run.begins_next (run : Run p) {m i : Nat} {path : List Key} {x : Teardown} {rest : List Teardown}
    {below : Stack .done} (running : (run.state m).running = some i)
    (found : (run.state m).tasks[i]? = some ⟨.done, .windDown path (x :: rest), below⟩) (fits : x.Fits) :
    (run.state (m + 1)).world.log = (run.state m).world.log ++ [x.told] ∧ (run.state (m + 1)).tasks[i]? =
      some (Step.callback ((run.state m).world.tell x.told) path x.actions rest below).task := by
  obtain ⟨world, found'⟩ := run.goes_on running found (by rintro _ ⟨⟩) (by rintro _ _ ⟨⟩) (by rintro _ _ ⟨⟩)
  have step : Task.step ⟨p, (run.state m).held, (run.state m).tasks.length⟩ (run.state m).world
      ⟨.done, .windDown path (x :: rest), below⟩ =
        Step.callback ((run.state m).world.tell x.told) path x.actions rest below := Step.windDown_cons fits
  rw [step] at world found'
  refine ⟨?_, found'⟩
  rw [world, world_put]
  refine (World.log_release _ _).trans ?_
  cases x.actions <;> rfl

/-- All the way a task does what a container had left one by one, and nothing else. -/
theorem Run.winds (run : Run p) {n i : Nat} {path : List Key} {ts : List Teardown} {below : Stack .done}
    (found : (run.state n).tasks[i]? = some ⟨.done, .windDown path ts, below⟩) (fits : ∀ x ∈ ts, x.Fits) {m : Nat}
    (later : n ≤ m) : run.Winds i path below ts n m := by
  induction later with
  | refl => exact .going ts _ (by rw [run.begun_self]; rfl) found .next
  | step later ih => exact ih.succ fits later

/-- What a container has left at its end is not passed over. -/
theorem Run.fits_of_due (run : Run p) {n : Nat} {c : ContainerId} {scope : Bool} {H H' : List Mark}
    (history : run.history n = H ++ H') : ∀ x ∈ History.due c scope H, x.Fits := by
  intro x hx
  cases x with
  | callback => exact trivial
  | finalize f v =>
    obtain ⟨b, built, hf⟩ := History.built_of_due hx
    obtain ⟨m, -, hand⟩ := run.hand_of_built (history ▸ List.mem_append_left H' built)
    exact run.ty_of_hand hand hf

/-- A container that is terminated has left, by its history, what it inherited, what was registered with it and what it
built, once and in order. The task that terminates it does that one by one and nothing else, whatever happens meanwhile:
each is told of, its operations are performed, and then the next is begun, until all is done. -/
theorem Run.terminates_in_order (run : Run p) {n : Nat} {c : ContainerId} (ends : (run.state n).terminates = some c) :
    ∃ i H path r ts, ∃ below : Stack .reply, (run.state n).running = some i ∧
      run.history (n + 1) = H ++ [.terminated c] ∧ History.Left c H ts ∧
      (∀ d H₁ H₂, run.history (n + 1) = H₁ ++ H₂ → (History.inherits d c H₂ = true ↔
        d ∈ ((run.state (n + 1)).world.container c).bases ∧ ∀ e ∈ (run.state (n + 1)).world.chain c,
          d ∈ ((run.state (n + 1)).world.container e).bases → ∃ b, .opened b e ∈ H₂)) ∧
      (run.state (n + 1)).tasks[i]? = some ⟨.done, .windDown path ts, .cons (.close (some c) r) below⟩ ∧
      (∀ m > n, run.Winds i path (.cons (.close (some c) r) below) ts (n + 1) m) ∧
      (∀ m x rest, (run.state m).running = some i → x ∈ ts →
        (run.state m).tasks[i]? = some ⟨.done, .windDown path (x :: rest), .cons (.close (some c) r) below⟩ →
        (run.state (m + 1)).world.log = (run.state m).world.log ++ [x.told] ∧
          (run.state (m + 1)).tasks[i]? = some (Step.callback ((run.state m).world.tell x.told) path x.actions rest
            (.cons (.close (some c) r) below)).task) := by
  obtain ⟨i, H, path, r, ts, below, running, history, left, found⟩ := run.takes_over ends
  have sound := (run.reachable (n + 1)).sound
  have alive : (run.state (n + 1)).world.Alive c := sound.alive _ (List.mem_of_getElem? found) c List.mem_cons_self
  have fits : ∀ x ∈ ts, x.Fits := left.due ▸ run.fits_of_due history
  refine ⟨i, H, path, r, ts, below, running, history, left, fun d H₁ H₂ split => ?_, found,
    fun m later => run.winds found fits later, fun m x rest running hx found => run.begins_next running found (fits x hx)⟩
  have accounted := run.accounted (n + 1)
  rw [split] at accounted
  exact accounted.inherits_iff sound.ok alive

/-- The root has a callback for scopes. A scope builds an `A`, which has a finalizer, gets a callback of its own, and is
terminated. -/
def endedRun : Run {} :=
  .ofOps {} "root" [
    .on "root" (.terminating true ⟨"inherited", []⟩),
    .on "root" (.openScope "scope"),
    .on "scope" (.register (some (.type (.declared "A"))) (.function "plain" true) .singleton (some ⟨"last", []⟩)),
    .lasting ⟨"", "scope", false⟩ (.get none (.type (.declared "A")) false none),
    .on "scope" (.terminating false ⟨"own", []⟩),
    .lasting ⟨"", "scope", false⟩ .terminate]

/-- The scope has the inherited callback performed, then its `A` finalized, then its own callback performed. -/
theorem scope_ends_in_order : (endedRun.state 30).terminates = some 1 ∧ ∃ i H path r ts, ∃ below : Stack .reply,
    endedRun.history 31 = H ++ [.terminated 1] ∧ History.Left 1 H ts ∧ ts.map Teardown.id = ["inherited", "last", "own"] ∧
      (∀ m > 30, endedRun.Winds i path (.cons (.close (some 1) r) below) ts 31 m) ∧
      (endedRun.begun i (below.height + 1) 31 34).map Teardown.id = ["inherited", "last", "own"] := by
  have ends : (endedRun.state 30).terminates = some 1 := by decide +kernel
  have left : (History.due 1 ((endedRun.history 31).dropLast.any (Mark.opens 1)) (endedRun.history 31).dropLast).map
      Teardown.id = ["inherited", "last", "own"] := by decide +kernel
  have task : (endedRun.state 30).running = some 5 ∧
      (endedRun.state 31).tasks[5]?.map (fun t => t.stack.height) = some 1 := by decide +kernel
  have begun : (endedRun.begun 5 1 31 34).map Teardown.id = ["inherited", "last", "own"] := by decide +kernel
  obtain ⟨i, H, path, r, ts, below, running, history, law, -, found, winds, -⟩ := endedRun.terminates_in_order ends
  obtain rfl := Option.some.inj (running.symm.trans task.1)
  have height : below.height + 1 = 1 := by
    have here := task.2
    rw [found] at here
    exact Option.some.inj here
  refine ⟨ends, 5, H, path, r, ts, below, history, law, ?_, winds, by rw [height]; exact begun⟩
  rw [law.due, ← left, history, List.dropLast_concat]

end System

end Injector
