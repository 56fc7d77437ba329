import Injector.Proofs.Following
import Injector.Proofs.Termination
/-!
# Refusals

A request is refused if there is nothing for its key, or nothing within reach. A refusal is made by the
request itself or by its build, which has nothing to build by (`Task.refuses_of_step`); after that it is
only passed on. So nothing is missing of a key that is being built (`Reachable.missing_elsewhere`), and
a build that fails with a key out of reach has asked for it (`Run.FailedWithin`, `Run.tries`).
-/
namespace Injector

namespace Failure

/-- Whether a failure says that there is nothing for a key, or nothing within reach. -/
def IsRefusal : Failure → Prop
  | .unbound _ | .noAccess _ => True
  | _ => False

end Failure

/-! ## Frames pass refusals on -/

namespace Frame

variable {f f' : Frame} {g : Failure}

theorem fillDependency_not_refusal {t : Ty} {key : Key} {answer : Except Failure Instance}
    (h : f.fillDependency t key answer = .error g) : ¬ g.IsRefusal := by
  unfold fillDependency at h
  split at h
  · cases h
  · split at h
    · cases h
    · cases h
      exact id

theorem fillPrimitive_not_refusal {q : Primitive} (h : f.fillPrimitive q = .error g) : ¬ g.IsRefusal := by
  unfold fillPrimitive at h
  split at h
  · split at h
    · cases h
    · cases h
      exact id
  · split at h
    · cases h
    · split at h
      · cases h
      · cases h
        exact id

/-- A slot that asks for nothing refuses nothing. -/
theorem fillAlone_not_refusal {e : Extractor} {bound : Key → Bool} (silent : e.asks bound = none)
    (h : f.fillAlone e = .error g) : ¬ g.IsRefusal := by
  cases e with
  | arg q => exact fillPrimitive_not_refusal h
  | inject | autowired | annotated | named | lookup => cases silent
  | rest | kwargs | container | inspect | replace => cases h

/-- A slot refuses what it was refused. -/
theorem fillWith_refusal {e : Extractor} {key : Key} {answer : Except Failure Instance}
    (h : f.fillWith key answer e = .error g) (refusal : g.IsRefusal) : answer = .error g := by
  cases e with
  | inject | autowired | annotated | named => exact absurd refusal (fillDependency_not_refusal h)
  | rest t =>
    unfold fillWith at h
    dsimp only at h
    split at h
    · cases h
    · cases h
      exact refusal.elim
  | lookup =>
    cases answer with
    | error =>
      cases h
      rfl
    | ok => cases h
  | arg q => exact absurd refusal (fillPrimitive_not_refusal h)
  | kwargs | container | inspect | replace => cases h

end Frame

/-! ## Steps that refuse nothing -/

namespace Step

/-- Whether a step hands over no refusal. -/
def Quiet (st : Step) : Prop :=
  ∀ f below, st.task = ⟨.answer, .give (k := .answer) (.error f), below⟩ → ¬ f.IsRefusal

variable {env : Env} {w : World}

theorem quiet_fail {f : Failure} {below : Stack .answer} (other : ¬ f.IsRefusal) : (fail w f below).Quiet := by
  rintro _ _ ⟨⟩
  exact other

theorem quiet_filled {j : Job} {r : Except Failure (Filled × Frame)} {below : Stack .answer}
    (other : ∀ f, r = .error f → ¬ f.IsRefusal) : (filled w j r below).Quiet := by
  cases r with
  | error f => exact quiet_fail (other f rfl)
  | ok => rintro _ _ ⟨⟩

theorem quiet_conclude {j : Job} {below : Stack .answer} : (conclude w j below).Quiet := by
  unfold conclude
  dsimp only
  split
  · exact quiet_fail id
  · exact quiet_fail id
  · rintro _ _ ⟨⟩

theorem quiet_body {j : Job} {ops : List Op} {below : Stack .answer} : (body w j ops below).Quiet := by
  cases ops with
  | nil => exact quiet_conclude
  | cons => rintro _ _ ⟨⟩

theorem quiet_start {j : Job} {below : Stack .answer} : (start env w j below).Quiet := by
  unfold start
  split
  · exact quiet_body
  all_goals
    split
    · exact quiet_fail id
    · exact quiet_conclude

theorem quiet_fill {j : Job} {below : Stack .answer} : (fill env w j below).Quiet := by
  unfold fill
  split
  · rintro _ _ ⟨⟩
  · dsimp only
    split
    · rintro _ _ ⟨⟩
    · next silent =>
      split
      · exact quiet_filled fun f failed => Frame.fillAlone_not_refusal silent failed
      · exact quiet_filled fun f failed => Frame.fillAlone_not_refusal silent failed

theorem quiet_callback {path : List Key} {ops : List Op} {ts : List Teardown} {below : Stack .done} :
    (callback w path ops ts below).Quiet := by
  cases ops <;> rintro _ _ ⟨⟩

theorem quiet_windDown {path : List Key} {ts : List Teardown} {below : Stack .done} :
    (windDown w path ts below).Quiet := by
  unfold windDown
  split
  · rintro _ _ ⟨⟩
  · exact quiet_callback
  · split
    · exact quiet_callback
    · rintro _ _ ⟨⟩

theorem quiet_scopeBody {scope : ContainerId} {name : String} {path : List Key} {ops : List Op} {below : Stack .reply} :
    (scopeBody w scope name path ops below).Quiet := by
  cases ops <;> rintro _ _ ⟨⟩

theorem quiet_lasting {s : Scene} {c : ContainerId} {a : Lasting Command Op} {below : Stack .reply} :
    (lasting env w s c a below).Quiet := by
  unfold lasting
  dsimp only
  split
  · rintro _ _ ⟨⟩
  · split <;> rintro _ _ ⟨⟩
  · split
    · split <;> rintro _ _ ⟨⟩
    · rintro _ _ ⟨⟩
  · rintro _ _ ⟨⟩
  · exact quiet_scopeBody
  · rintro _ _ ⟨⟩

theorem quiet_perform {s : Scene} {o : Op} {below : Stack .reply} : (perform env w s o below).Quiet := by
  cases o with
  | instant => rintro _ _ ⟨⟩
  | lasting =>
    unfold perform
    dsimp only
    split
    · exact quiet_lasting
    · rintro _ _ ⟨⟩

theorem quiet_deliver {expected : Option Ty} {save : Option String} {answer : Except Failure Instance}
    {below : Stack .reply} : (deliver w expected save answer below).Quiet := by
  unfold deliver
  split <;> rintro _ _ ⟨⟩

theorem quiet_replied {b : Kind} {r : Reply} {c : Cont .reply b} {below : Stack b} : (replied w r c below).Quiet := by
  cases c with
  | body =>
    unfold replied
    dsimp only
    split
    · exact quiet_fail id
    · exact quiet_body
  | scopeBody =>
    unfold replied
    dsimp only
    split
    · rintro _ _ ⟨⟩
    · exact quiet_scopeBody
  | callback =>
    unfold replied
    dsimp only
    split
    · rintro _ _ ⟨⟩
    · exact quiet_callback

/-! ## Refusals -/

/-- A slot passes a refusal on. -/
theorem refusal_of_slot {j : Job} {key : Key} {answer : Except Failure Instance} {below above : Stack .answer} {f : Failure}
    (failed : (slot w j key answer below).task = ⟨.answer, .give (k := .answer) (.error f), above⟩)
    (refusal : f.IsRefusal) : answer = .error f ∧ below = above := by
  unfold slot at failed
  split at failed
  · cases failed
  · next slot _ _ =>
    cases filled : j.frame.fillWith key answer slot.extractor with
    | ok =>
      rw [filled] at failed
      cases failed
    | error g =>
      rw [filled] at failed
      cases failed
      exact ⟨Frame.fillWith_refusal filled refusal, rfl⟩

/-- A conversion passes a refusal on. -/
theorem refusal_of_convert {product : Product} {input : Ty} {answer : Except Failure Instance} {below above : Stack .answer}
    {f : Failure} (failed : (convert w product input answer below).task = ⟨.answer, .give (k := .answer) (.error f), above⟩)
    (refusal : f.IsRefusal) : answer = .error f ∧ below = above := by
  unfold convert at failed
  split at failed
  · next g refused =>
    cases failed
    cases answer with
    | error =>
      cases refused
      exact ⟨rfl, rfl⟩
    | ok v =>
      change (if v.ty = input then Except.ok v else .error (.incorrectType input v.ty)) = .error f at refused
      split at refused
      · cases refused
      · cases refused
        exact refusal.elim
  · cases failed

end Step

/-- How a task comes to a refusal for `above`: a key is out of reach, there is nothing to build it by, or it was refused
to what waited. -/
inductive Task.Refuses (w : World) (above : Stack .answer) : Task → Failure → Prop
  | noAccess {r : Request} {key : Key} (located : w.locate r.container r.key = .noAccess key) :
    Refuses w above ⟨.answer, .resolve r, above⟩ (.noAccess key)
  | unbound {b : Build} (nothing : b.maker = none) : Refuses w above ⟨.answer, .line b, above⟩ (.unbound b.key)
  | passes {f : Failure} (k : Cont .answer .answer) :
    Refuses w above ⟨.answer, .give (k := .answer) (.error f), .cons k above⟩ f

/-- Refusals are made by requests and builds, and passed on. -/
theorem Task.refuses_of_step {env : Env} {w : World} {t : Task} {f : Failure} {above : Stack .answer}
    (failed : (t.step env w).task = ⟨.answer, .give (k := .answer) (.error f), above⟩) (refusal : f.IsRefusal) :
    t.Refuses w above f := by
  have quiet : ∀ {st : Step}, st.task = ⟨.answer, .give (k := .answer) (.error f), above⟩ → ¬ st.Quiet :=
    fun failed quiet => quiet f above failed refusal
  obtain ⟨k, a, below⟩ := t
  cases a with
  | resolve r =>
    simp only [step, Step.resolve] at failed
    split at failed
    · cases failed
    · next located =>
      cases failed
      exact .noAccess located
    · split at failed
      · cases failed
        exact refusal.elim
      · cases failed
  | line b =>
    simp only [step, Step.build] at failed
    split at failed
    · cases failed
    · split at failed
      · cases failed
      · cases failed
      · next nothing =>
        cases failed
        exact .unbound nothing
  | fill j => exact absurd Step.quiet_fill (quiet failed)
  | pause j times =>
    cases times with
    | zero => exact absurd Step.quiet_start (quiet failed)
    | succ n => cases failed
  | perform s o => exact absurd Step.quiet_perform (quiet failed)
  | windDown path ts => exact absurd Step.quiet_windDown (quiet failed)
  | await tasks => cases failed
  | give outcome =>
    cases below with
    | nil => cases failed
    | @cons a b k below =>
      cases k with
      | slot j key =>
        obtain ⟨rfl, rfl⟩ := Step.refusal_of_slot failed refusal
        exact .passes _
      | build b =>
        cases outcome with
        | error =>
          cases failed
          exact .passes _
        | ok => cases failed
      | convert product input =>
        obtain ⟨rfl, rfl⟩ := Step.refusal_of_convert failed refusal
        exact .passes _
      | deliver => exact absurd Step.quiet_deliver (quiet failed)
      | observe => cases failed
      | body | scopeBody | callback => exact absurd Step.quiet_replied (quiet failed)
      | close => cases failed

/-! ## Nothing is missing of what is being built -/

theorem Stack.path_subset {b : Kind} (k : Cont .answer b) (above : Stack b) : above.path ⊆ (Stack.cons k above).path := by
  intro key hk
  cases k with
  | build => exact Stack.path_build _ _ ▸ List.mem_append_left _ hk
  | slot | convert | deliver | observe => exact hk

namespace System

variable {p : Program} {s : System}

/-- A key for which there is nothing is not being built by the task that says so. -/
theorem Reachable.missing_elsewhere (h : Reachable p s) : ∀ t ∈ s.tasks, ∀ key above,
    t = ⟨.answer, .give (k := .answer) (.error (.unbound key)), above⟩ → key ∉ above.path := by
  refine h.forall_tasks (P := fun t => ∀ key above, t = ⟨.answer, .give (k := .answer) (.error (.unbound key)), above⟩ →
    key ∉ above.path) (by rintro _ _ _ _ ⟨⟩) (by rintro _ _ _ ⟨⟩) ?_
  intro s i t st reached elsewhere found takes key above failed
  cases takes with
  | joined => cases failed
  | step =>
    cases Task.refuses_of_step failed trivial with
    | @unbound b nothing =>
      intro within
      have ht := List.mem_of_getElem? found
      have apart : ((b :: above.builds).map Build.key).Nodup := reached.nodup _ ht
      refine (List.nodup_cons.1 apart).1 ?_
      simpa [Stack.path] using within
    | passes k => exact fun within => elsewhere key _ rfl (Stack.path_subset k above within)

/-! ## What comes of a build -/

/-- Whether task `i` asked, in the course of build `b` and between two moves, for what is out of reach under a key. -/
def Run.Refused (run : Run p) (i n m : Nat) (b : Build) (below : Stack .answer) (key : Key) : Prop :=
  ∃ k r, ∃ above : Stack .answer, n ≤ k ∧ k < m ∧ (Stack.cons (.build b) below).On above ∧
    (run.state k).tasks[i]? = some ⟨.answer, .resolve r, above⟩ ∧
    (run.state k).world.locate r.container r.key = .noAccess key

/-- Whether task `i` handed failure `f` to build `b` between two moves. -/
def Run.FailedWithin (run : Run p) (i n m : Nat) (b : Build) (below : Stack .answer) (f : Failure) : Prop :=
  ∃ k, n ≤ k ∧ k < m ∧
    (run.state k).tasks[i]? = some ⟨.answer, .give (k := .answer) (.error f), .cons (.build b) below⟩ ∧
    ∀ key, f = .noAccess key → run.Refused i n k b below key

/-- Where task `i` is with a build `b` that it was in line for at move `n`: in line, within the build, or done with it. -/
inductive Run.Tries (run : Run p) (i n m : Nat) (b : Build) (below : Stack .answer) : Task → Prop
  | line : Tries run i n m b below ⟨.answer, .line b, below⟩
  | inside {t : Task} (on : (Stack.cons (.build b) below).On t.stack)
    (refused : ∀ key above, t = ⟨.answer, .give (k := .answer) (.error (.noAccess key)), above⟩ →
      run.Refused i n m b below key) : Tries run i n m b below t
  | served (v : Instance) : Tries run i n m b below ⟨.answer, .give (k := .answer) (.ok v), below⟩
  | unbound (nothing : b.maker = none) :
    Tries run i n m b below ⟨.answer, .give (k := .answer) (.error (.unbound b.key)), below⟩
  | failed {f : Failure} (within : run.FailedWithin i n m b below f) :
    Tries run i n m b below ⟨.answer, .give (k := .answer) (.error f), below⟩

namespace Run

variable {run : Run p} {i n m : Nat} {b : Build} {below : Stack .answer} {t : Task} {f : Failure} {key : Key}

theorem Refused.later (h : run.Refused i n m b below key) : run.Refused i n (m + 1) b below key := by
  obtain ⟨k, r, above, since, before, rest⟩ := h
  exact ⟨k, r, above, since, Nat.lt_succ_of_lt before, rest⟩

theorem Tries.later (h : run.Tries i n m b below t) (busy : ∀ a, t ≠ ⟨.answer, .give (k := .answer) a, below⟩) :
    run.Tries i n (m + 1) b below t := by
  cases h with
  | line => exact .line
  | inside on refused => exact .inside on fun key above given => (refused key above given).later
  | served | unbound | failed => exact absurd rfl (busy _)

theorem Tries.unfinished (h : run.Tries i n m b below t) : t.reply? = none := by
  by_contra replied
  obtain ⟨r, rfl⟩ := Task.eq_of_reply replied
  cases h with
  | inside on => exact Nat.not_lt_zero _ on.height_lt

/-- Each step of a task leads on with the build, until it is done with it. -/
theorem Tries.step (h : run.Tries i n m b below t) (later : n ≤ m) (found : (run.state m).tasks[i]? = some t)
    (busy : ∀ a, t ≠ ⟨.answer, .give (k := .answer) a, below⟩) (env : Env) :
    run.Tries i n (m + 1) b below (t.step env (run.state m).world).task := by
  cases h with
  | served | unbound | failed => exact absurd rfl (busy _)
  | line =>
    change run.Tries i n (m + 1) b below (Step.build ((run.state m).world.letIn b) b below).task
    unfold Step.build
    split
    · exact .served _
    · split
      · exact .inside .base (by rintro _ _ ⟨⟩)
      · exact .inside (.cons _ .base) (by rintro _ _ ⟨⟩)
      · next nothing => exact .unbound nothing
  | inside on refused =>
    by_cases ended : ∃ a, t = ⟨.answer, .give (k := .answer) a, .cons (.build b) below⟩
    · obtain ⟨a, rfl⟩ := ended
      cases a with
      | error f => exact .failed ⟨m, later, Nat.lt_succ_self m, found, fun key same => refused key _ (by rw [same])⟩
      | ok v => exact .served v
    · refine .inside (Task.step_on on fun a same => ended ⟨a, same⟩) fun key above failed => ?_
      cases Task.refuses_of_step failed trivial with
      | noAccess located => exact ⟨m, _, above, later, Nat.lt_succ_self m, on, found, located⟩
      | passes k => exact (refused key _ rfl).later

/-- From the line for a build on, a task is with that build until it hands an answer over. -/
theorem tries (run : Run p) (lines : (run.state n).tasks[i]? = some ⟨.answer, .line b, below⟩)
    (pending : run.Pending i below n m) : ∃ t, (run.state m).tasks[i]? = some t ∧ run.Tries i n m b below t := by
  refine pending.follows (P := fun k => run.Tries i n k b below) lines .line (fun tries => tries.unfinished)
    (fun tries busy => tries.later busy) fun {k t st} later _ found tries busy takes => ?_
  cases takes with
  | step => exact tries.step later found busy _
  | joined =>
    cases tries with
    | inside on => exact .inside on (by rintro _ _ ⟨⟩)

end Run

end System

end Injector
