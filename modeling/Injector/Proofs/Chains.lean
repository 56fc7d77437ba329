import Injector.Proofs.Deadlock
import Injector.Proofs.Reports
/-!
# Chains of requests

A task that looks a key up does so for itself, or during a build: for a parameter of the function, for the key whose
instance is converted, or because the body of the function performs an operation (`Run.AsksDuring`). So the builds of a
task stand in a chain of requests, from one that nothing is built around to the last (`Run.Chain`), and the path of a
cycle that anything tells of is such a chain, back to one of its own keys (`Run.cycle_is_chain`).
-/
namespace Injector

namespace Stack

/-! ## Jobs of builds -/

/-- Whether a job calls the function of the build that waits for it, if one does. -/
def Served (j : Job) : Stack .answer → Prop
  | .cons (.build b) _ => j.Serves b
  | _ => True

/-- Whether a conversion is that of the build that waits for it, if one does. -/
def Converts (product : Product) (input : Ty) : Stack .answer → Prop
  | .cons (.build b) _ => ∃ target, b.maker = some (.chained product input target)
  | _ => True

/-- Whether `P` holds of each build in progress and what waits for it, and what is done for a build is what it is made by. -/
def Keeps (P : Build → Stack .answer → Prop) : {k : Kind} → Stack k → Prop
  | _, .nil => True
  | _, .cons (.slot j _) below => below.Served j ∧ below.Keeps P
  | _, .cons (.build b) below => P b below ∧ below.Keeps P
  | _, .cons (.convert product input) below => below.Converts product input ∧ below.Keeps P
  | _, .cons (.body j _ _) below => below.Served j ∧ below.Keeps P
  | _, .cons _ below => below.Keeps P

variable {P Q : Build → Stack .answer → Prop} {below : Stack .answer} {j : Job}

theorem Keeps.mono {k : Kind} {below : Stack k} (h : below.Keeps P) (imp : ∀ b base, P b base → Q b base) :
    below.Keeps Q := by
  induction below with
  | nil => trivial
  | cons c below ih =>
    cases c with
    | slot | convert | body => exact h.imp_right ih
    | build b => exact h.imp (imp _ _) ih
    | deliver | observe | close | scopeBody | callback => exact ih h

theorem Served.fill (h : below.Served j) {frame : Frame} (spends : j.frame.Spends frame) (filled : Filled) :
    below.Served (j.fill filled frame) := by
  cases below with
  | @cons _ b c below =>
    cases c with
    | build b =>
      have h : j.Serves b := h
      exact h.fill spends filled
    | slot | convert | deliver | observe => trivial

theorem Served.atSlot (h : below.Served j) (slot : Slot) : below.Served (j.atSlot slot) := by
  cases below with
  | @cons _ b c below =>
    cases c with
    | build b =>
      have h : j.Serves b := h
      exact h.atSlot slot
    | slot | convert | deliver | observe => trivial

end Stack

/-- Whether what is done now is what a build is made by, and `P` holds of a build in line. -/
def Activity.Keeps (P : Build → Stack .answer → Prop) : {k : Kind} → Activity k → Stack k → Prop
  | _, .line b, below => P b below
  | _, .fill j, below | _, .pause j _, below => below.Served j
  | _, _, _ => True

/-- Whether `P` holds of each build of a task and what waits for it, and what is done for a build is what it is made by. -/
structure Task.Keeps (P : Build → Stack .answer → Prop) (t : Task) : Prop where
  activity : t.activity.Keeps P t.stack
  stack : t.stack.Keeps P

theorem Task.Keeps.mono {P Q : Build → Stack .answer → Prop} {t : Task} (h : t.Keeps P)
    (imp : ∀ b base, P b base → Q b base) : t.Keeps Q := by
  refine ⟨?_, h.stack.mono imp⟩
  have activity := h.activity
  obtain ⟨k, a, below⟩ := t
  cases a with
  | line b => exact imp b below activity
  | resolve | fill | pause | perform | windDown | await | give => exact activity

namespace Step

variable {P : Build → Stack .answer → Prop} {env : Env} {w : World}

/-- Whether a step leads to a task that keeps `P`. -/
def Keeps (P : Build → Stack .answer → Prop) (st : Step) : Prop := st.task.Keeps P

theorem keeps_next {k : Kind} {a : Activity k} {below : Stack k} (ha : a.Keeps P below) (hb : below.Keeps P) :
    (next w a below).Keeps P := ⟨ha, hb⟩

theorem keeps_resolve {r : Request} {below : Stack .answer} (new : ∀ b, r.Leads w b → P b below) (hb : below.Keeps P) :
    (resolve w r below).Keeps P := by
  unfold resolve
  split
  · exact keeps_next trivial hb
  · exact keeps_next trivial hb
  · next located =>
    split
    · exact keeps_next trivial hb
    · exact keeps_next (new _ ⟨⟨_, located, rfl⟩, rfl⟩) hb

theorem keeps_build {b : Build} {below : Stack .answer} (h : P b below) (hb : below.Keeps P) : (build w b below).Keeps P := by
  unfold build
  split
  · exact keeps_next trivial hb
  · split
    · next made => exact keeps_next (Job.Serves.start made _ _) ⟨h, hb⟩
    · next made => exact keeps_next trivial ⟨⟨_, made⟩, h, hb⟩
    · exact keeps_next trivial hb

theorem keeps_filled {j : Job} {r : Except Failure (Filled × Frame)} {below : Stack .answer} (h : below.Served j)
    (spends : ∀ filled f, r = .ok (filled, f) → j.frame.Spends f) (hb : below.Keeps P) : (filled w j r below).Keeps P := by
  cases r with
  | error => exact keeps_next trivial hb
  | ok x => exact keeps_next (h.fill (spends x.1 x.2 rfl) x.1) hb

theorem keeps_fill {j : Job} {below : Stack .answer} (h : below.Served j) (hb : below.Keeps P) :
    (fill env w j below).Keeps P := by
  unfold fill
  split
  · exact keeps_next h hb
  · next slot rest todo =>
    dsimp only
    split
    · exact keeps_next trivial ⟨h.atSlot slot, hb⟩
    · split
      · refine keeps_filled h (fun filled f taken => ?_) hb
        have spends := (Frame.fills_fillAlone taken).1
        exact spends
      · refine keeps_filled h (fun filled f taken => ?_) hb
        have spends := (Frame.fills_fillAlone taken).1
        exact spends

theorem keeps_slot {j : Job} {key : Key} {answer : Except Failure Instance} {below : Stack .answer} (h : below.Served j)
    (hb : below.Keeps P) : (slot w j key answer below).Keeps P := by
  unfold slot
  split
  · exact keeps_next h hb
  · exact keeps_filled h (fun _ _ taken => (Frame.fills_fillWith taken).1) hb

theorem keeps_convert {product : Product} {input : Ty} {answer : Except Failure Instance} {below : Stack .answer}
    (hb : below.Keeps P) : (convert w product input answer below).Keeps P := by
  unfold convert
  split <;> exact keeps_next trivial hb

theorem keeps_conclude {j : Job} {below : Stack .answer} (hb : below.Keeps P) : (conclude w j below).Keeps P := by
  unfold conclude
  dsimp only
  split <;> exact keeps_next trivial hb

theorem keeps_body {j : Job} {ops : List Op} {below : Stack .answer} (h : below.Served j) (hb : below.Keeps P) :
    (body w j ops below).Keeps P := by
  cases ops with
  | nil => exact keeps_conclude hb
  | cons => exact keeps_next trivial ⟨h, hb⟩

theorem keeps_start {j : Job} {below : Stack .answer} (h : below.Served j) (hb : below.Keeps P) :
    (start env w j below).Keeps P := by
  unfold start
  split
  · exact keeps_body h hb
  all_goals
    split
    · exact keeps_next trivial hb
    · exact keeps_conclude hb

theorem keeps_callback {path : List Key} {ops : List Op} {ts : List Teardown} {below : Stack .done} (hb : below.Keeps P) :
    (callback w path ops ts below).Keeps P := by
  cases ops <;> exact keeps_next trivial hb

theorem keeps_windDown {path : List Key} {ts : List Teardown} {below : Stack .done} (hb : below.Keeps P) :
    (windDown w path ts below).Keeps P := by
  unfold windDown
  split
  · exact keeps_next trivial hb
  · exact keeps_callback hb
  · split
    · exact keeps_callback hb
    · exact keeps_next trivial hb

theorem keeps_scopeBody {scope : ContainerId} {name : String} {path : List Key} {ops : List Op} {below : Stack .reply}
    (hb : below.Keeps P) : (scopeBody w scope name path ops below).Keeps P := by
  cases ops <;> exact keeps_next trivial hb

theorem keeps_lasting {s : Scene} {c : ContainerId} {a : Lasting Command Op} {below : Stack .reply} (hb : below.Keeps P) :
    (lasting env w s c a below).Keeps P := by
  cases a with
  | get | terminate => exact keeps_next trivial hb
  | join => exact ⟨trivial, hb⟩
  | call =>
    unfold lasting
    dsimp only
    split <;> exact keeps_next trivial hb
  | onResolved =>
    unfold lasting
    dsimp only
    split
    · split <;> exact keeps_next trivial hb
    · exact keeps_next trivial hb
  | scope => exact keeps_scopeBody hb

theorem keeps_perform {s : Scene} {o : Op} {below : Stack .reply} (hb : below.Keeps P) :
    (perform env w s o below).Keeps P := by
  cases o with
  | instant => exact keeps_next trivial hb
  | lasting =>
    unfold perform
    dsimp only
    split
    · exact keeps_lasting hb
    · exact keeps_next trivial hb

theorem keeps_answered {b : Kind} {answer : Except Failure Instance} {c : Cont .answer b} {below : Stack b}
    (h : (Stack.cons c below).Keeps P) : (answered env w answer c below).Keeps P := by
  cases c with
  | slot => exact keeps_slot h.1 h.2
  | build => cases answer <;> exact keeps_next trivial h.2
  | convert => exact keeps_convert h.2
  | deliver =>
    change (Step.deliver w _ _ answer below).Keeps P
    unfold deliver
    split <;> exact keeps_next trivial h
  | observe => exact keeps_next trivial h

theorem keeps_replied {b : Kind} {r : Reply} {c : Cont .reply b} {below : Stack b} (h : (Stack.cons c below).Keeps P) :
    (replied w r c below).Keeps P := by
  cases c with
  | body =>
    unfold replied
    dsimp only
    split
    · exact keeps_next trivial h.2
    · exact keeps_body h.1 h.2
  | scopeBody =>
    unfold replied
    dsimp only
    split
    · exact keeps_next trivial h
    · exact keeps_scopeBody h
  | callback =>
    unfold replied
    dsimp only
    split
    · exact keeps_next trivial h
    · exact keeps_callback h

theorem keeps_handOver {k : Kind} {outcome : k.Outcome} {below : Stack k} (h : below.Keeps P) :
    (handOver env w outcome below).Keeps P := by
  cases below with
  | nil => exact keeps_next trivial h
  | cons c below =>
    cases k with
    | answer => exact keeps_answered h
    | reply => exact keeps_replied h
    | done =>
      cases c
      exact keeps_next trivial h

end Step

/-- A step keeps what holds of builds if it holds of those that a request newly leads to. -/
theorem Task.Keeps.step {P : Build → Stack .answer → Prop} {env : Env} {w : World} {t : Task} (h : t.Keeps P)
    (new : ∀ r below b, t = ⟨.answer, .resolve r, below⟩ → r.Leads w b → P b below) : (t.step env w).Keeps P := by
  obtain ⟨k, a, below⟩ := t
  obtain ⟨ha, hb⟩ := h
  cases a with
  | resolve r => exact Step.keeps_resolve (fun b leads => new r below b rfl leads) hb
  | line b => exact Step.keeps_build ha hb
  | fill j => exact Step.keeps_fill ha hb
  | pause j times =>
    cases times with
    | zero => exact Step.keeps_start ha hb
    | succ => exact Step.keeps_next ha hb
  | perform => exact Step.keeps_perform hb
  | windDown => exact Step.keeps_windDown hb
  | await => exact Step.keeps_next trivial hb
  | give => exact Step.keeps_handOver hb

/-! ## The innermost build -/

/-- What waits within build `b`, which is the innermost. -/
inductive Stack.Inside (b : Build) (base : Stack .answer) : {k : Kind} → Stack k → Prop
  | build : Inside b base (.cons (.build b) base)
  | slot (j : Job) (key : Key) : Inside b base (.cons (.slot j key) (.cons (.build b) base))
  | convert (product : Product) (input : Ty) : Inside b base (.cons (.convert product input) (.cons (.build b) base))
  /-- The body of the function performs an operation. -/
  | operation {k : Kind} {above : Stack k} {j : Job} {h : Heading} {rest : List Op} (serves : j.Serves b)
    (on : (Stack.cons (.body j h rest) (.cons (.build b) base)).On above) : Inside b base above

theorem Stack.innermost {P : Build → Stack .answer → Prop} {k : Kind} (below : Stack k) (wf : below.Wf)
    (keeps : below.Keeps P) :
    below.builds = [] ∨ ∃ b base, P b base ∧ below.builds = b :: base.builds ∧ Inside b base below := by
  induction below with
  | nil => exact .inl rfl
  | cons c below ih =>
    cases c with
    | build b => exact .inr ⟨b, below, keeps.1, rfl, .build⟩
    | slot j key =>
      refine (ih wf.2 keeps.2).imp_right ?_
      rintro ⟨b, base, holds, builds, inside⟩
      refine ⟨b, base, holds, builds, ?_⟩
      cases inside with
      | build => exact .slot j key
      | slot | convert => exact wf.1.calls.elim
      | operation serves on => exact .operation serves (.cons _ on)
    | convert product input =>
      obtain ⟨⟨c, calls⟩, wf⟩ := wf
      refine (ih wf keeps.2).imp_right ?_
      rintro ⟨b, base, holds, builds, inside⟩
      refine ⟨b, base, holds, builds, ?_⟩
      cases inside with
      | build => exact .convert product input
      | slot | convert => exact calls.elim
      | operation serves on => exact .operation serves (.cons _ on)
    | body j h rest =>
      refine (ih wf.2 keeps.2).imp_right ?_
      rintro ⟨b, base, holds, builds, inside⟩
      refine ⟨b, base, holds, builds, ?_⟩
      cases inside with
      | build =>
        have serves : j.Serves b := keeps.1
        exact .operation serves .base
      | slot | convert => exact wf.1.calls.elim
      | operation serves on => exact .operation serves (.cons _ on)
    | deliver | observe | close =>
      refine (ih wf keeps).imp_right ?_
      rintro ⟨b, base, holds, builds, inside⟩
      refine ⟨b, base, holds, builds, ?_⟩
      cases inside with
      | operation serves on => exact .operation serves (.cons _ on)
    | scopeBody | callback =>
      refine (ih wf.2 keeps).imp_right ?_
      rintro ⟨b, base, holds, builds, inside⟩
      refine ⟨b, base, holds, builds, ?_⟩
      cases inside with
      | operation serves on => exact .operation serves (.cons _ on)

/-- What wants a key looks it up. -/
theorem Task.of_wants {w : World} {t : Task} {c : ContainerId} {key : Key} (h : t.wants? w = some (c, key)) :
    ∃ r above β, t = ⟨.answer, .resolve r, above⟩ ∧ w.locate r.container r.key = .builds c key β := by
  obtain ⟨k, a, below⟩ := t
  cases a with
  | resolve r =>
    unfold Task.wants? at h
    dsimp only at h
    split at h
    · next c' key' β located =>
      cases h
      exact ⟨r, below, β, rfl, located⟩
    · cases h
  | line | fill | pause | perform | windDown | await | give => cases h

namespace System

variable {p : Program} {s s' : System} {i k m n : Nat}

/-! ## The steps of one task -/

/-- What is at a place of a list was there before more came after it, or came with that. -/
theorem get?_or_mem_of_append {α : Type} {l more : List α} {x : α} (found : (l ++ more)[i]? = some x) :
    l[i]? = some x ∨ x ∈ more := by
  rcases List.getElem?_append .. ▸ found with found
  split at found
  · exact .inl found
  · exact .inr (List.mem_of_getElem? found)

/-- Where the task of a number comes from: it is as before, has taken a step, or is new. -/
theorem Moves.get?_tasks (h : Reachable p s) (moves : s.Moves p s') {u : Task} (found : s'.tasks[i]? = some u) :
    s.tasks[i]? = some u ∨ (∃ t st, s.tasks[i]? = some t ∧ s.Takes p i t st ∧ u = st.task) ∨
      (∃ s₀ o, u = .ofOp s₀ o) ∨ ∃ ts, u = .ofTeardowns ts := by
  have settled : ∀ {w ts}, (settledTasks w ts)[i]? = some u → ts[i]? = some u ∨ ∃ ts, u = .ofTeardowns ts := by
    intro w ts found
    refine (get?_or_mem_of_append found).imp_right fun ended => ?_
    obtain ⟨left, -, rfl⟩ := List.mem_map.1 ended
    exact ⟨left, rfl⟩
  rcases moves.cases with ⟨j, t, st, -, found', takes, -, tasks⟩ | ⟨-, -, tasks⟩ | ⟨-, outside⟩
  · rw [tasks, tasks_put] at found
    rcases settled found with found | ended
    · rcases get?_or_mem_of_append found with found | started
      · by_cases same : j = i
        · subst same
          rw [List.getElem?_set_self (List.getElem?_eq_some_iff.1 found').1] at found
          exact .inr (.inl ⟨t, st, found', takes, (Option.some.inj found).symm⟩)
        · rw [List.getElem?_set_ne same] at found
          exact .inl found
      · obtain ⟨s₀, o, rfl, -⟩ := (takes.does_of_reachable h found').2.started u started
        exact .inr (.inr (.inl ⟨s₀, o, rfl⟩))
    · exact .inr (.inr (.inr ended))
  · exact .inl (tasks ▸ found)
  · rcases outside with ⟨o, -, tasks⟩ | ⟨name, rfl⟩ | ⟨-, rfl⟩
    · rw [tasks, tasks_release] at found
      rcases get?_or_mem_of_append found with found | begun
      · exact (settled found).imp id fun ended => .inr (.inr ended)
      · exact .inr (.inr (.inl ⟨{}, o, List.mem_singleton.1 begun⟩))
    · exact (settled found).imp id fun ended => .inr (.inr ended)
    · cases found

/-- A task that asks for a key, or lines up to build one, took a step to do so. -/
theorem Run.asks_before (run : Run p) {u : Task} (found : (run.state n).tasks[i]? = some u) (asks : ¬ u.Unasking) :
    ∃ m < n, ∃ t, (run.state m).tasks[i]? = some t ∧
      Task.Asks ⟨p, (run.state m).held, (run.state m).tasks.length⟩ (run.state m).world t u := by
  induction n with
  | zero =>
    rw [run.tasks_zero] at found
    cases found
  | succ n ih =>
    have before : (run.state n).tasks[i]? = some u → ∃ m < n + 1, ∃ t, (run.state m).tasks[i]? = some t ∧
        Task.Asks ⟨p, (run.state m).held, (run.state m).tasks.length⟩ (run.state m).world t u := fun found =>
      let ⟨m, earlier, asked⟩ := ih found
      ⟨m, Nat.lt_succ_of_lt earlier, asked⟩
    rcases run.moves n with moves | ⟨-, same⟩
    · rcases moves.get?_tasks (run.reachable n) found with found | ⟨t, st, found', takes, rfl⟩ | ⟨s₀, o, rfl⟩ | ⟨ts, rfl⟩
      · exact before found
      · cases takes with
        | step => exact ⟨n, Nat.lt_succ_self n, t, found', (Task.asks_step _ _ t).resolve_left asks⟩
        | joined => exact absurd trivial asks
      · exact absurd trivial asks
      · exact absurd trivial asks
    · exact before (same ▸ found)

/-! ## Chains -/

/-- Whether task `i` looks a key up in move `n` for request `r`, and comes to `key` as what is to be built: other names
are replaced by what they stand for. -/
structure Run.LooksUp (run : Run p) (i n : Nat) (r : Request) (above : Stack .answer) (key : Key) : Prop where
  found : (run.state n).tasks[i]? = some ⟨.answer, .resolve r, above⟩
  located : ∃ c β, (run.state n).world.locate r.container r.key = .builds c key β

/-- What task `i` asks for in move `n` during build `b`, which waits on `base`: the request, and what waits for it. -/
inductive Run.AsksDuring (run : Run p) (i n : Nat) (b : Build) (base : Stack .answer) : Request → Stack .answer → Prop
  /-- A parameter of the function needs the instance of a key. -/
  | parameter {j : Job} {slot : Slot} {rest : List Slot} {key : Key}
    (found : (run.state n).tasks[i]? = some ⟨.answer, .fill j, .cons (.build b) base⟩) (serves : j.Serves b)
    (todo : j.todo = slot :: rest) (asks : slot.extractor.asks ((run.state n).world.bound b.container) = some key) :
    AsksDuring run i n b base (j.request p slot key) (.cons (.slot (j.atSlot slot) key) (.cons (.build b) base))
  /-- The instance of another key is converted. -/
  | chained {product : Product} {input : Ty} {target : Key}
    (found : (run.state n).tasks[i]? = some ⟨.answer, .line b, base⟩) (maker : b.maker = some (.chained product input target)) :
    AsksDuring run i n b base { container := b.container, key := target, path := b.path }
      (.cons (.convert product input) (.cons (.build b) base))
  /-- The body of the function performs an operation, and no other build is in between. -/
  | operation {j : Job} {h : Heading} {rest : List Op} {t : Task} {r : Request} {above : Stack .answer}
    (found : (run.state n).tasks[i]? = some t) (serves : j.Serves b)
    (on : (Stack.cons (.body j h rest) (.cons (.build b) base)).On above) (builds : above.builds = b :: base.builds)
    (asks : Task.Asks ⟨p, (run.state n).held, (run.state n).tasks.length⟩ (run.state n).world t
      ⟨.answer, .resolve r, above⟩) :
    AsksDuring run i n b base r above

/-- The keys that task `i` came to be asked for one after the other, until it looks one up in move `n` for request `r`:
each was asked for during the build of the one before it, and the first while nothing was being built. -/
inductive Run.Chain (run : Run p) (i : Nat) : Nat → Request → Stack .answer → List Key → Prop
  | outermost {n : Nat} {r : Request} {above : Stack .answer} {key : Key} (looks : run.LooksUp i n r above key)
    (nothing : above.builds = []) : Chain run i n r above [key]
  | inner {m k n : Nat} {r r' : Request} {base above : Stack .answer} {keys : List Key} {b : Build} {key : Key}
    (outer : Chain run i m r base keys) (leads : r.Leads (run.state m).world b) (built : m < k)
    (asks : run.AsksDuring i k b base r' above) (asked : k < n) (looks : run.LooksUp i n r' above key) :
    Chain run i n r' above (keys ++ [key])

theorem Run.LooksUp.unique {run : Run p} {r r' : Request} {above above' : Stack .answer} {key key' : Key}
    (h : run.LooksUp i n r above key) (h' : run.LooksUp i n r' above' key') : key = key' := by
  cases h.found.symm.trans h'.found
  obtain ⟨c, β, located⟩ := h.located
  obtain ⟨c', β', located'⟩ := h'.located
  cases located.symm.trans located'
  rfl

theorem Run.AsksDuring.builds {run : Run p} {b : Build} {base above : Stack .answer} {r : Request}
    (h : run.AsksDuring i n b base r above) : above.builds = b :: base.builds := by
  cases h with
  | parameter | chained => rfl
  | operation _ _ _ builds => exact builds

/-- A chain is the path that the task is on, with the key that it looks up. -/
theorem Run.Chain.eq_path {run : Run p} {r : Request} {above : Stack .answer} {keys : List Key}
    (h : run.Chain i n r above keys) : ∃ key, run.LooksUp i n r above key ∧ keys = above.path ++ [key] := by
  induction h with
  | @outermost n r above key looks nothing =>
    refine ⟨key, looks, ?_⟩
    rw [Stack.path, nothing]
    rfl
  | @inner m k n r r' base above keys b key outer leads built asks asked looks ih =>
    obtain ⟨key', looks', rfl⟩ := ih
    refine ⟨key, looks, ?_⟩
    obtain ⟨β, located, -⟩ := leads.located
    obtain rfl : key' = b.key := looks'.unique ⟨looks'.found, _, _, located⟩
    have path : above.path = base.path ++ [b.key] := by
      rw [Stack.path, asks.builds, List.map_cons, List.reverse_cons]
      rfl
    rw [path]

/-- Whether a build that waits on `base` at move `n` goes back to a chain of requests. -/
def Run.Chained (run : Run p) (i n : Nat) (b : Build) (base : Stack .answer) : Prop :=
  ∃ m < n, ∃ r keys, run.Chain i m r base keys ∧ r.Leads (run.state m).world b

/-- What a task looks up is at the end of a chain, if all builds up to now go back to one. -/
theorem Run.LooksUp.chain {run : Run p} {r : Request} {above : Stack .answer} {key : Key}
    (h : run.LooksUp i n r above key)
    (keeps : ∀ m < n, ∀ t, (run.state m).tasks[i]? = some t → t.Keeps (run.Chained i m)) :
    ∃ keys, run.Chain i n r above keys := by
  obtain ⟨k, asked, t, found, asks⟩ := run.asks_before h.found id
  have wf := (run.reachable k).sound.wf t (List.mem_of_getElem? found)
  have keeps := keeps k asked t found
  -- An operation has asked, itself or with a call, within the body of the innermost build, if there is one.
  have operation : ∀ {k' : Kind} {c : Cont .answer k'} {below : Stack k'}, above = .cons c below → below.Wf →
      below.Keeps (run.Chained i k) → (∀ b base, Stack.Inside b base below → ∃ j heading rest, j.Serves b ∧
        (Stack.cons (.body j heading rest) (.cons (.build b) base)).On below) → above.builds = below.builds →
      ∃ keys, run.Chain i n r above keys := by
    rintro k' c below rfl wf keeps inside same
    rcases below.innermost wf keeps with nothing | ⟨b, base, ⟨m, built, r₀, keys, outer, leads⟩, builds, within⟩
    · exact ⟨_, .outermost h (same.trans nothing)⟩
    · obtain ⟨j, heading, rest, serves, on⟩ := inside b base within
      exact ⟨_, .inner outer leads built (.operation found serves (.cons c on) (same.trans builds) asks) asked h⟩
  cases asks with
  | @slot j below slot rest key todo asks =>
    have calls := wf.activity.calls
    cases below with
    | @cons _ _ c below =>
      cases c with
      | build b =>
        have serves : j.Serves b := keeps.activity
        obtain ⟨m, built, r₀, keys, outer, leads⟩ := keeps.stack.1
        rw [serves.container] at asks
        exact ⟨_, .inner outer leads built (.parameter found serves todo asks) asked h⟩
      | deliver c expected save =>
        refine operation rfl wf.stack keeps.stack (fun b base inside => ?_) rfl
        cases inside with
        | operation serves on => exact ⟨_, _, _, serves, on⟩
      | slot | convert | observe => exact calls.elim
  | @convert b below product input target maker =>
    obtain ⟨m, built, r₀, keys, outer, leads⟩ := keeps.activity
    exact ⟨_, .inner outer leads built (.chained found maker) asked h⟩
  | get | observe =>
    refine operation rfl wf.stack keeps.stack (fun b base inside => ?_) rfl
    cases inside with
    | operation serves on => exact ⟨_, _, _, serves, on⟩

/-- All builds of a task go back to chains of requests. -/
theorem Run.keeps_chained (run : Run p) (n : Nat) :
    ∀ t, (run.state n).tasks[i]? = some t → t.Keeps (run.Chained i n) := by
  induction n using Nat.strong_induction_on with
  | h n ih =>
    cases n with
    | zero =>
      intro t found
      rw [run.tasks_zero] at found
      cases found
    | succ n =>
      have later : ∀ b base, run.Chained i n b base → run.Chained i (n + 1) b base :=
        fun b base ⟨m, earlier, chained⟩ => ⟨m, Nat.lt_succ_of_lt earlier, chained⟩
      have before : ∀ t, (run.state n).tasks[i]? = some t → t.Keeps (run.Chained i (n + 1)) := fun t found =>
        (ih n (Nat.lt_succ_self n) t found).mono later
      intro u found
      rcases run.moves n with moves | ⟨-, same⟩
      · rcases moves.get?_tasks (run.reachable n) found with same | ⟨t, st, here, takes, rfl⟩ | ⟨s₀, o, rfl⟩ | ⟨ts, rfl⟩
        · exact before u same
        · cases takes with
          | step =>
            refine (before t here).step fun r below b asked leads => ?_
            obtain rfl := asked
            obtain ⟨β, located, -⟩ := leads.located
            have looks : run.LooksUp i n r below b.key := ⟨here, _, _, located⟩
            obtain ⟨keys, chain⟩ := looks.chain fun m earlier => ih m (Nat.lt_succ_of_lt earlier)
            exact ⟨n, Nat.lt_succ_self n, r, keys, chain, leads⟩
          | joined => exact ⟨trivial, (before _ here).stack⟩
        · exact ⟨trivial, trivial⟩
        · exact ⟨trivial, trivial⟩
      · exact before u (same ▸ found)

/-- Whatever tells of a cycle, a failure or a log, tells of a chain of requests of one task, which ends when the running
task looks a key up that it is building: the last key is one of the others, exactly once, and the others are all
different, the keys of the builds in progress. -/
theorem Run.cycle_is_chain (run : Run p) {n : Nat} {path : List Key} (told : path ∈ (run.state n).cycles) :
    ∃ m < n, ∃ i r above key, (run.state m).running = some i ∧ run.LooksUp i m r above key ∧ run.Chain i m r above path ∧
      path = above.path ++ [key] ∧ above.path.Nodup ∧ above.path.count key = 1 := by
  obtain ⟨m, earlier, i, t, running, found, cyclic⟩ := run.cycle_found told
  have ht := List.mem_of_getElem? found
  have reached := run.reachable m
  obtain ⟨c, key, wants, ⟨b, hb, same⟩, rfl⟩ := ((reached.sound.wf t ht).cycle_iff _ _ path).1 cyclic
  obtain ⟨r, above, β, rfl, located⟩ := Task.of_wants wants
  have looks : run.LooksUp i m r above key := ⟨found, c, β, located⟩
  obtain ⟨keys, chain⟩ := looks.chain fun k _ => run.keeps_chained k
  obtain ⟨key', looks', rfl⟩ := chain.eq_path
  obtain rfl := looks.unique looks'
  have apart : above.path.Nodup := List.nodup_reverse.2 (reached.nodup _ ht)
  refine ⟨m, earlier, i, r, above, key, running, looks, chain, rfl, apart, ?_⟩
  exact List.count_eq_one_of_mem apart (Stack.mem_path.2 ⟨b, hb, same⟩)

/-! ## A ring -/

/-- The task that makes an `A` asks its container for what is called `b`. A `B` is made from a `C`, and that from an `A`. -/
def ring : Program where
  functions := (Table.empty.insert "a"
    { name := "a", product := .object "A", params := [.one .container],
      body := .awaited 1 [.lasting ⟨"b?", "$", true⟩ (.get none (.name "b") false none)] }).insert "c"
    { name := "c", product := .object "C", params := [.one (.inject (.declared "A"))] }

/-- A scope is asked for an `A`, which only its base can make. -/
def ringRun : Run ring :=
  .ofOps ring "root" [
    .on "root" (.register none (.function "a" true) .singleton none),
    .on "root" (.register none (.chained (.object "B") (.declared "C") (.type (.declared "C"))) .transient none),
    .on "root" (.register none (.function "c" true) .transient none),
    .on "root" (.addAlias (.type (.declared "B")) "b"),
    .on "root" (.openScope "scope"),
    .lasting ⟨"", "scope", false⟩ (.get none (.type (.declared "A")) false none)]

/-- The way round. -/
def ringPath : List Key :=
  [.type (.declared "A"), .type (.declared "B"), .type (.declared "C"), .type (.declared "A")]

/-- What the scope is told of is the chain of requests by way of the operation, the other name, the conversion and the
parameter. -/
theorem ring_goes_round : ringPath ∈ (ringRun.state 50).cycles ∧ ∃ m < 50, ∃ i r above,
    ringRun.LooksUp i m r above (.type (.declared "A")) ∧ ringRun.Chain i m r above ringPath ∧
      above.path = [.type (.declared "A"), .type (.declared "B"), .type (.declared "C")] := by
  have told : ringPath ∈ (ringRun.state 50).cycles := by decide +kernel
  obtain ⟨m, earlier, i, r, above, key, -, looks, chain, path, -⟩ := ringRun.cycle_is_chain told
  have split : above.path ++ [key] =
      [.type (.declared "A"), .type (.declared "B"), .type (.declared "C")] ++ [.type (.declared "A")] := path.symm
  obtain ⟨keys, last⟩ := List.append_inj' split rfl
  obtain rfl := List.singleton_inj.1 last
  exact ⟨told, m, earlier, i, r, above, looks, chain, keys⟩

end System

end Injector
