import Injector.Proofs.Following
import Injector.Proofs.Registered
import Injector.Proofs.Termination
/-!
# Where failures come from

A request leads to a build, and the function of a build asks for its parameters, which are requests
again (`Run.Reaches`). At the end of such a way a request can fail by itself (`Run.Raises`). On the way
back each dependency parameter adds what it is called, and nothing else does
(`Run.failure_has_provenance`).
-/
namespace Injector

/-! ## Failures that are passed on -/

/-- A dependency parameter: what errors call it and its function, and the key it asked for. -/
structure Dependency where
  label : String
  callable : String
  key : Key
  deriving DecidableEq, Repr

namespace Failure

/-- A failure as dependency parameters pass it on, outermost first. -/
def passedOn (leaf : Failure) (ds : List Dependency) : Failure :=
  ds.foldr (fun d f => .dependency d.label d.callable d.key f) leaf

/-- Whether a failure was not passed on by a parameter. -/
def IsLeaf : Failure → Prop
  | .dependency _ _ _ _ => False
  | _ => True

/-- What is passed on tells which parameters passed it on. -/
theorem passedOn_inj {leaf leaf' : Failure} (h : leaf.IsLeaf) (h' : leaf'.IsLeaf) {ds ds' : List Dependency}
    (same : leaf.passedOn ds = leaf'.passedOn ds') : ds = ds' ∧ leaf = leaf' := by
  induction ds generalizing ds' with
  | nil =>
    cases ds' with
    | nil => exact ⟨rfl, same⟩
    | cons =>
      obtain rfl : leaf = _ := same
      exact h.elim
  | cons d ds ih =>
    cases ds' with
    | nil =>
      obtain rfl : leaf' = _ := same.symm
      exact h'.elim
    | cons d' ds' =>
      obtain ⟨label, callable, key, rest⟩ := Failure.dependency.inj same
      obtain ⟨rfl, rfl⟩ := ih rest
      obtain rfl : d = d' := by cases d; cases d'; simp_all
      exact ⟨rfl, rfl⟩

theorem rootCause_passedOn {leaf : Failure} (h : leaf.IsLeaf) (ds : List Dependency) :
    (leaf.passedOn ds).rootCause = leaf := by
  induction ds with
  | nil => cases leaf <;> first | rfl | exact h.elim
  | cons d ds ih => exact ih

/-- The causes of what is passed on are what each parameter was given, down to the failure itself, and its own causes. -/
theorem sources_passedOn (leaf : Failure) (ds : List Dependency) :
    (leaf.passedOn ds).sources = ds.tails.tail.map (fun rest => (leaf.passedOn rest).message) ++ leaf.sources := by
  induction ds with
  | nil => rfl
  | cons d ds ih =>
    change (leaf.passedOn ds).message :: (leaf.passedOn ds).sources = _
    rw [ih]
    cases ds <;> rfl

end Failure

/-! ## Frames that fail -/

/-- The type that the instance of a key has to be of. -/
def Extractor.expects (key : Key) : Extractor → Option Ty
  | .inject t | .autowired t | .annotated t _ | .named t _ => some t
  | .rest t => some (if key = .type (.seq t) then .seq t else t)
  | _ => none

/-- A failure is passed on, or an instance is of another type. -/
theorem Shared.expect_error {answer : Except Failure Instance} {t : Ty} {f : Failure}
    (h : answer.bind (Shared.expect t) = .error f) :
    answer = .error f ∨ ∃ v, answer = .ok v ∧ v.ty ≠ t ∧ f = .incorrectType t v.ty := by
  cases answer with
  | error g =>
    cases h
    exact .inl rfl
  | ok v =>
    change (if v.ty = t then Except.ok v else .error (.incorrectType t v.ty)) = .error f at h
    split at h
    · cases h
    · next other =>
      cases h
      exact .inr ⟨v, rfl, other, rfl⟩

namespace Frame

variable {f f' : Frame} {filled : Filled} {g : Failure}

theorem fillDependency_error {t : Ty} {key : Key} {answer : Except Failure Instance}
    (h : f.fillDependency t key answer = .error g) :
    ∃ source, g = f.dependencyFailure key source ∧ answer.bind (Shared.expect t) = .error source := by
  unfold fillDependency at h
  split at h
  · cases h
  · next source failed =>
    split at h
    · cases h
    · cases h
      exact ⟨source, rfl, failed⟩

/-- A dependency fails by passing on that there is no instance of the type that it expects. -/
theorem fillWith_error {e : Extractor} {bound : Key → Bool} {key : Key} {answer : Except Failure Instance}
    (own : e.parameters ≠ []) (asks : e.asks bound = some key) (h : f.fillWith key answer e = .error g) :
    ∃ t source, e.expects key = some t ∧ answer.bind (Shared.expect t) = .error source ∧
      g = f.dependencyFailure key source := by
  cases e with
  | inject t | autowired t | annotated t | named t =>
    obtain ⟨source, rfl, failed⟩ := fillDependency_error h
    exact ⟨t, source, rfl, failed, rfl⟩
  | rest t =>
    unfold fillWith at h
    dsimp only at h
    split at h
    · cases h
    · next source failed =>
      cases h
      exact ⟨_, source, rfl, by simpa using failed, rfl⟩
  | arg | kwargs | container | inspect | replace => cases asks
  | lookup => exact absurd rfl own

/-- Whether there is no argument and no default for a primitive. -/
structure Lacks (f : Frame) (q : Primitive) : Prop where
  keyword : (f.signature.name? f.position).bind f.arguments.takeKeyword = none
  positional : f.arguments.takePositional q.accepts = none
  default : (f.signature.defaultAt f.position).bind q.read = none

/-- Whether the argument of a primitive's name cannot be read. -/
def Misreads (f : Frame) (q : Primitive) (v : Instance) : Prop :=
  (∃ left, (f.signature.name? f.position).bind f.arguments.takeKeyword = some (v, left)) ∧ q.read v = none

/-- An extractor that asks for nothing fails only for a primitive, whose argument cannot be read or is not there. -/
theorem fillAlone_error {e : Extractor} {bound : Key → Bool} (own : e.parameters ≠ []) (asks : e.asks bound = none)
    (h : f.fillAlone e = .error g) :
    ∃ q, e = .arg q ∧ ((∃ v, f.Misreads q v ∧ g = .incorrectType q.ty v.ty) ∨
      f.Lacks q ∧ g = .missingArgument f.label f.position f.callable q.ty) := by
  cases e with
  | arg q =>
    refine ⟨q, rfl, ?_⟩
    simp only [fillAlone] at h
    unfold fillPrimitive at h
    split at h
    · next v left keyword =>
      split at h
      · cases h
      · next unread =>
        cases h
        exact .inl ⟨v, ⟨⟨left, keyword⟩, unread⟩, rfl⟩
    · next keyword =>
      split at h
      · cases h
      · next positional =>
        split at h
        · cases h
        · next default =>
          cases h
          exact .inr ⟨⟨keyword, positional, default⟩, rfl⟩
  | inject | autowired | annotated | named | lookup => cases asks
  | rest | kwargs | container => cases h
  | inspect | replace => exact absurd rfl own

end Frame

/-! ## The jobs of builds -/

/-- Whether a job calls the function of a build; its first slots are filled, and the others are left. -/
structure Job.Serves (j : Job) (b : Build) : Prop where
  maker : b.maker = some (.function j.function j.frame.signature)
  subject : j.subject = b.key
  callable : j.frame.callable = j.function.name
  container : j.frame.container = b.container
  path : j.frame.path = b.path
  todo : j.todo = (Param.slotsOf j.function.params 0).1.drop j.filled.length

namespace Job

variable {j : Job} {b : Build} {slot : Slot} {rest : List Slot}

/-- The job as it fills a slot. -/
def atSlot (j : Job) (slot : Slot) : Job := { j with frame := { j.frame with position := slot.position } }

/-- The request of a slot of a job. -/
def request (p : Program) (j : Job) (slot : Slot) (key : Key) : Request :=
  { container := j.frame.container, key, fallback := slot.extractor.fallback.map p.injectable, path := j.frame.path }

/-- The dependency that a slot of a job is. -/
def dependency (j : Job) (slot : Slot) (key : Key) : Dependency :=
  ⟨j.frame.signature.labelAt slot.position, j.function.name, key⟩

namespace Serves

theorem start {f : Function} {signature : Signature} (made : b.maker = some (.function f signature)) (inScope : Bool)
    (arguments : Arguments) : (Job.start f b.key b.container inScope arguments signature b.path).Serves b :=
  ⟨made, rfl, rfl, rfl, rfl, rfl⟩

theorem atSlot (h : j.Serves b) (slot : Slot) : (j.atSlot slot).Serves b :=
  ⟨h.maker, h.subject, h.callable, h.container, h.path, h.todo⟩

theorem fill (h : j.Serves b) {frame : Frame} (spends : j.frame.Spends frame) (filled : Filled) :
    (j.fill filled frame).Serves b := by
  rw [spends]
  refine ⟨h.maker, h.subject, h.callable, h.container, h.path, ?_⟩
  change j.todo.tail = List.drop (j.filled ++ [filled]).length _
  rw [h.todo, List.tail_drop, List.length_append, List.length_singleton]
  rfl

theorem regular (h : j.Serves b) (regular : ∀ m, b.maker = some m → m.Regular) : j.function.Regular :=
  regular _ h.maker

/-- Whatever slot is left, the container's own extractors fill it. -/
theorem own (h : j.Serves b) (regular : ∀ m, b.maker = some m → m.Regular) (todo : j.todo = slot :: rest) :
    slot.extractor.parameters ≠ [] := by
  refine (h.regular regular).own slot (List.mem_of_mem_drop (i := j.filled.length) ?_)
  rw [← h.todo, todo]
  exact List.mem_cons_self

end Serves

end Job

namespace System

variable {p : Program}

/-! ## Ways to a request -/

/-- Whether a request on `above` led task `i` to a build, since move `n`. -/
def Run.Led (run : Run p) (i n : Nat) (r : Request) (above : Stack .answer) (b : Build) : Prop :=
  ∃ k ≥ n, (run.state k).tasks[i]? = some ⟨.answer, .resolve r, above⟩ ∧ r.Leads (run.state k).world b

/-- Whether task `i` comes to a slot in move `k`, for a build that a request on `above` led to. -/
structure Run.Fills (run : Run p) (i n k : Nat) (r : Request) (above : Stack .answer) (b : Build) (j : Job)
    (slot : Slot) : Prop where
  later : n ≤ k
  led : run.Led i n r above b
  serves : j.Serves b
  found : (run.state k).tasks[i]? = some ⟨.answer, .fill j, .cons (.build b) above⟩
  next : j.todo.head? = some slot

/-- How task `i` comes from request `r` on `below` to another request, and what waits for that: by the dependency
parameters of functions, outermost first, and by chained bindings. -/
inductive Run.Reaches (run : Run p) (i n : Nat) (r : Request) (below : Stack .answer) :
    List Dependency → Request → Stack .answer → Prop
  | start : Reaches run i n r below [] r below
  | parameter {ds : List Dependency} {r' : Request} {above : Stack .answer} {k : Nat} {b : Build} {j : Job}
    {slot : Slot} {key : Key} (outer : Reaches run i n r below ds r' above) (fills : run.Fills i n k r' above b j slot)
    (asks : slot.extractor.asks ((run.state k).world.bound b.container) = some key) :
    Reaches run i n r below (ds ++ [j.dependency slot key]) (j.request p slot key)
      (.cons (.slot (j.atSlot slot) key) (.cons (.build b) above))
  | chained {ds : List Dependency} {r' : Request} {above : Stack .answer} {b : Build} {product : Product} {input : Ty}
    {target : Key} (outer : Reaches run i n r below ds r' above) (led : run.Led i n r' above b)
    (maker : b.maker = some (.chained product input target)) :
    Reaches run i n r below ds { container := b.container, key := target, path := b.path }
      (.cons (.convert product input) (.cons (.build b) above))

end System

/-- The type of the instance that something waits for. -/
inductive Stack.Expects : Stack .answer → Ty → Prop
  | slot {j : Job} {key : Key} {slot : Slot} {t : Ty} {rest : Stack .answer} (next : j.todo.head? = some slot)
    (expects : slot.extractor.expects key = some t) : Expects (.cons (.slot j key) rest) t
  | convert {product : Product} {t : Ty} {rest : Stack .answer} : Expects (.cons (.convert product t) rest) t

namespace System

variable {p : Program}

/-- How a request on `above` fails by itself. -/
inductive Run.Raises (run : Run p) (i n : Nat) (r : Request) (above : Stack .answer) : Failure → Prop
  /-- The key is bound for scopes only. -/
  | noAccess {k : Nat} {key : Key} (later : n ≤ k)
    (found : (run.state k).tasks[i]? = some ⟨.answer, .resolve r, above⟩)
    (located : (run.state k).world.locate r.container r.key = .noAccess key) : Raises run i n r above (.noAccess key)
  /-- The key is being built around the request. -/
  | cycle {k : Nat} {c : ContainerId} {key : Key} {β : Option Binding} (later : n ≤ k)
    (found : (run.state k).tasks[i]? = some ⟨.answer, .resolve r, above⟩)
    (located : (run.state k).world.locate r.container r.key = .builds c key β) (within : key ∈ r.path) :
    Raises run i n r above (.cycle (r.path ++ [key]))
  /-- There is nothing to build the key by. -/
  | unbound {b : Build} (led : run.Led i n r above b) (nothing : b.maker = none) :
    Raises run i n r above (.unbound b.key)
  /-- The argument of a primitive's name cannot be read. -/
  | unread {k : Nat} {b : Build} {j : Job} {slot : Slot} {q : Primitive} {v : Instance}
    (fills : run.Fills i n k r above b j slot) (primitive : slot.extractor = .arg q)
    (misreads : (j.atSlot slot).frame.Misreads q v) : Raises run i n r above (.incorrectType q.ty v.ty)
  /-- A primitive has no argument and no default. -/
  | missing {k : Nat} {b : Build} {j : Job} {slot : Slot} {q : Primitive}
    (fills : run.Fills i n k r above b j slot) (primitive : slot.extractor = .arg q)
    (lacks : (j.atSlot slot).frame.Lacks q) :
    Raises run i n r above
      (.missingArgument (j.frame.signature.labelAt slot.position) slot.position j.function.name q.ty)
  /-- All parameters are filled, and the function fails. -/
  | fails {k : Nat} {b : Build} {j : Job} {reason : Fault} (later : n ≤ k) (led : run.Led i n r above b)
    (serves : j.Serves b) (found : (run.state k).tasks[i]? = some ⟨.answer, .pause j 0, .cons (.build b) above⟩)
    (fault : j.function.fault ((run.state k).world.invoke j.function.name).1 = some reason) :
    Raises run i n r above (.build b.key reason)
  /-- The instance is not of the type that is waited for. -/
  | otherType {k : Nat} {v : Instance} {t : Ty} (later : n ≤ k)
    (found : (run.state k).tasks[i]? = some ⟨.answer, .give (k := .answer) (.ok v), above⟩) (expects : above.Expects t)
    (other : v.ty ≠ t) : Raises run i n r above (.incorrectType t v.ty)

/-- Whether a failure was raised at the end of a way from request `r` on `below`. -/
def Run.Blames (run : Run p) (i n : Nat) (r : Request) (below : Stack .answer) (ds : List Dependency) (leaf : Failure) :
    Prop := ∃ r' above, run.Reaches i n r below ds r' above ∧ run.Raises i n r' above leaf

/-- What waits for an answer on the way. -/
inductive Run.Awaits (run : Run p) (i n : Nat) (r : Request) (below : Stack .answer) :
    List Dependency → Stack .answer → Prop
  | request {ds : List Dependency} {r' : Request} {above : Stack .answer}
    (reaches : run.Reaches i n r below ds r' above) : Awaits run i n r below ds above
  | build {ds : List Dependency} {r' : Request} {above : Stack .answer} {b : Build}
    (reaches : run.Reaches i n r below ds r' above) (led : run.Led i n r' above b) :
    Awaits run i n r below ds (.cons (.build b) above)

/-- Where a task is on its way to an answer to request `r`. -/
inductive Run.Seeks (run : Run p) (i n : Nat) (r : Request) (below : Stack .answer) : Task → Prop
  | resolve {ds : List Dependency} {r' : Request} {above : Stack .answer}
    (reaches : run.Reaches i n r below ds r' above) : Seeks run i n r below ⟨.answer, .resolve r', above⟩
  | line {ds : List Dependency} {r' : Request} {above : Stack .answer} {b : Build}
    (reaches : run.Reaches i n r below ds r' above) (led : run.Led i n r' above b) :
    Seeks run i n r below ⟨.answer, .line b, above⟩
  | fill {ds : List Dependency} {r' : Request} {above : Stack .answer} {b : Build} {j : Job}
    (reaches : run.Reaches i n r below ds r' above) (led : run.Led i n r' above b) (serves : j.Serves b) :
    Seeks run i n r below ⟨.answer, .fill j, .cons (.build b) above⟩
  | pause {ds : List Dependency} {r' : Request} {above : Stack .answer} {b : Build} {j : Job} {times : Nat}
    (reaches : run.Reaches i n r below ds r' above) (led : run.Led i n r' above b) (serves : j.Serves b) :
    Seeks run i n r below ⟨.answer, .pause j times, .cons (.build b) above⟩
  | serves {ds : List Dependency} {above : Stack .answer} {v : Instance} (awaits : run.Awaits i n r below ds above) :
    Seeks run i n r below ⟨.answer, .give (k := .answer) (.ok v), above⟩
  /-- The failure was passed on by the parameters that came after those that still wait. -/
  | fails {ds passed : List Dependency} {above : Stack .answer} {leaf : Failure}
    (awaits : run.Awaits i n r below ds above) (blames : run.Blames i n r below (ds ++ passed) leaf) :
    Seeks run i n r below ⟨.answer, .give (k := .answer) (.error (leaf.passedOn passed)), above⟩

/-! ## Each step on the way -/

namespace Run

variable {run : Run p} {i n m : Nat} {r r' : Request} {below above : Stack .answer} {ds : List Dependency} {b : Build}
  {j : Job} {leaf : Failure}

/-- What a request leads to is regular. -/
theorem Led.regular (h : run.Led i n r above b) (regular : p.Regular)
    (fallback : ∀ f, r.fallback = some f → f.Regular) : ∀ m, b.maker = some m → m.Regular := by
  intro m made
  obtain ⟨k, -, -, leads⟩ := h
  obtain ⟨β, located, binding⟩ := leads.located
  rcases Build.maker_cases binding made with ⟨x, rfl, rfl⟩ | ⟨f, used, rfl⟩
  · exact regular.of_locate (run.reachable k) located
  · exact fallback f used

theorem Reaches.fallback (h : run.Reaches i n r below ds r' above) (regular : p.Regular)
    (fallback : ∀ f, r.fallback = some f → f.Regular) : ∀ f, r'.fallback = some f → f.Regular := by
  intro f used
  cases h with
  | start => exact fallback f used
  | parameter =>
    obtain ⟨t, -, rfl⟩ := Option.map_eq_some_iff.1 used
    exact regular.injectable t
  | chained => cases used

theorem Reaches.on (h : run.Reaches i n r below ds r' above) : below.On above := by
  induction h with
  | start => exact .base
  | parameter _ _ _ ih | chained _ _ _ ih => exact .cons _ (.cons _ ih)

/-- No parameter waits at the beginning of the way. -/
theorem Awaits.eq_nil (h : run.Awaits i n r below ds below) : ds = [] := by
  cases h with
  | request reaches =>
    cases reaches with
    | start => rfl
    | parameter outer | chained outer => exact absurd outer.on.height (Nat.not_le.2 (Nat.lt_succ_of_lt (Nat.lt_succ_self _)))
  | build reaches => exact absurd reaches.on.height (Nat.not_le.2 (Nat.lt_succ_self _))

theorem Raises.isLeaf (h : run.Raises i n r above leaf) : leaf.IsLeaf := by
  cases h <;> trivial

/-- A failure that is raised where a task is goes to what waits there. -/
theorem Awaits.raise (h : run.Awaits i n r below ds above) (blames : run.Blames i n r below ds leaf) :
    run.Seeks i n r below ⟨.answer, .give (k := .answer) (.error leaf), above⟩ := by
  have blames' : run.Blames i n r below (ds ++ []) leaf := (List.append_nil ds).symm ▸ blames
  exact .fails h blames'

/-- Whether a step leads to a task on its way. -/
def Pursued (run : Run p) (i n : Nat) (r : Request) (below : Stack .answer) (st : Step) : Prop :=
  run.Seeks i n r below st.task

theorem Reaches.resolve (h : run.Reaches i n r below ds r' above) (later : n ≤ m)
    (found : (run.state m).tasks[i]? = some ⟨.answer, .resolve r', above⟩) :
    run.Pursued i n r below (.resolve (run.state m).world r' above) := by
  unfold Step.resolve
  split
  · exact .serves (.request h)
  · next key located => exact Awaits.raise (.request h) ⟨r', above, h, .noAccess later found located⟩
  · next c key β located =>
    split
    · next within => exact Awaits.raise (.request h) ⟨r', above, h, .cycle later found located within⟩
    · exact .line h ⟨m, later, found, ⟨β, located, rfl⟩, rfl⟩

theorem Reaches.build (h : run.Reaches i n r below ds r' above) (led : run.Led i n r' above b) (w : World) :
    run.Pursued i n r below (.build w b above) := by
  unfold Step.build
  split
  · exact .serves (.request h)
  · split
    · next f signature made => exact .fill h led (Job.Serves.start made _ _)
    · next product input target made => exact .resolve (.chained h led made)
    · next nothing => exact Awaits.raise (.request h) ⟨r', above, h, .unbound led nothing⟩

/-- A job goes on with the next slot, or fails with what is passed on. -/
theorem Reaches.filled (h : run.Reaches i n r below ds r' above) (led : run.Led i n r' above b) (serves : j.Serves b)
    {answer : Except Failure (Filled × Frame)} (spends : ∀ filled f, answer = .ok (filled, f) → j.frame.Spends f)
    (fails : ∀ f, answer = .error f →
      run.Seeks i n r below ⟨.answer, .give (k := .answer) (.error f), .cons (.build b) above⟩) (w : World) :
    run.Pursued i n r below (.filled w j answer (.cons (.build b) above)) := by
  cases answer with
  | error f => exact fails f rfl
  | ok x => exact .fill h led (serves.fill (spends x.1 x.2 rfl) x.1)

theorem Reaches.fill (h : run.Reaches i n r below ds r' above) (led : run.Led i n r' above b) (serves : j.Serves b)
    (regular : ∀ m, b.maker = some m → m.Regular) (later : n ≤ m)
    (found : (run.state m).tasks[i]? = some ⟨.answer, .fill j, .cons (.build b) above⟩) (env : Env)
    (program : env.program = p) :
    run.Pursued i n r below (.fill env (run.state m).world j (.cons (.build b) above)) := by
  unfold Step.fill
  split
  · exact .pause h led serves
  · next slot rest todo =>
    have own := serves.own regular todo
    have fills : run.Fills i n m r' above b j slot := ⟨later, led, serves, found, by rw [todo]; rfl⟩
    dsimp only
    split
    · next key asks =>
      subst program
      rw [serves.container] at asks
      exact .resolve (.parameter h fills asks)
    · next silent =>
      split
      · next replaces =>
        rw [replaces] at own
        exact absurd rfl own
      · refine h.filled led serves (fun filled f taken => ?_) (fun f failed => ?_) _
        · have fills := Frame.fills_fillAlone taken
          exact fills.1
        · -- Only primitives fail without having asked.
          obtain ⟨q, primitive, ⟨v, misreads, rfl⟩ | ⟨lacks, rfl⟩⟩ := Frame.fillAlone_error own silent failed
          · exact Awaits.raise (.build h led) ⟨r', above, h, .unread fills primitive misreads⟩
          · rw [serves.callable]
            exact Awaits.raise (.build h led) ⟨r', above, h, .missing fills primitive lacks⟩

theorem Reaches.conclude (h : run.Reaches i n r below ds r' above) (led : run.Led i n r' above b) (serves : j.Serves b)
    (later : n ≤ m) (found : (run.state m).tasks[i]? = some ⟨.answer, .pause j 0, .cons (.build b) above⟩) :
    run.Pursued i n r below (.conclude (run.state m).world j (.cons (.build b) above)) := by
  have fails : ∀ reason, j.function.fault ((run.state m).world.invoke j.function.name).1 = some reason →
      run.Seeks i n r below
        ⟨.answer, .give (k := .answer) (.error (.build j.subject reason)), .cons (.build b) above⟩ := by
    intro reason fault
    rw [serves.subject]
    exact Awaits.raise (.build h led) ⟨r', above, h, .fails later led serves found fault⟩
  unfold Step.conclude
  dsimp only
  split
  · next fault => exact fails _ fault
  · next fault => exact fails _ fault
  · exact .serves (.build h led)

/-- If a request is answered with nothing of the type that is waited for, there is something to blame. -/
theorem Reaches.blames (h : run.Reaches i n r below ds r' above) (later : n ≤ m) {a : Except Failure Instance}
    (found : (run.state m).tasks[i]? = some ⟨.answer, .give (k := .answer) a, above⟩)
    (known : ∀ f, a = .error f → ∃ passed leaf, f = leaf.passedOn passed ∧ run.Blames i n r below (ds ++ passed) leaf)
    {t : Ty} (expects : above.Expects t) {f : Failure} (failed : a.bind (Shared.expect t) = .error f) :
    ∃ passed leaf, f = leaf.passedOn passed ∧ run.Blames i n r below (ds ++ passed) leaf := by
  rcases Shared.expect_error failed with rfl | ⟨v, rfl, other, rfl⟩
  · exact known f rfl
  · refine ⟨[], .incorrectType t v.ty, rfl, r', above, ?_, .otherType later found expects other⟩
    rwa [List.append_nil]

/-- The answer to a request goes to the slot that asked, or is converted. -/
theorem Reaches.answered (h : run.Reaches i n r below ds r' above) (regular : p.Regular)
    (fallback : ∀ f, r.fallback = some f → f.Regular) (later : n ≤ m) {a : Except Failure Instance}
    (found : (run.state m).tasks[i]? = some ⟨.answer, .give (k := .answer) a, above⟩)
    (known : ∀ f, a = .error f → ∃ passed leaf, f = leaf.passedOn passed ∧ run.Blames i n r below (ds ++ passed) leaf)
    (busy : above ≠ below) (env : Env) (w : World) : run.Pursued i n r below (.handOver env w a above) := by
  have blames {t : Ty} {f : Failure} (expects : above.Expects t) := h.blames later found known expects (f := f)
  cases h with
  | start => exact absurd rfl busy
  | @parameter ds r' above k b j slot key outer fills asks =>
    obtain ⟨rest, todo⟩ := List.head?_eq_some_iff.1 fills.next
    have own := fills.serves.own (fills.led.regular regular (outer.fallback regular fallback)) todo
    change run.Pursued i n r below (.slot w (j.atSlot slot) key a (.cons (.build b) above))
    unfold Step.slot
    rw [show (j.atSlot slot).todo = slot :: rest from todo]
    refine outer.filled fills.led (fills.serves.atSlot slot) (fun _ _ taken => (Frame.fills_fillWith taken).1)
      (fun g failed => ?_) w
    obtain ⟨t, source, expects, refused, rfl⟩ := Frame.fillWith_error own asks failed
    obtain ⟨passed, leaf, rfl, blames⟩ := blames (.slot fills.next expects) refused
    -- The parameter adds what it is called.
    have added : (j.atSlot slot).frame.dependencyFailure key (leaf.passedOn passed) =
        leaf.passedOn (j.dependency slot key :: passed) := by
      change Failure.dependency _ j.frame.callable _ _ = _
      rw [fills.serves.callable]
      rfl
    rw [added]
    exact .fails (.build outer fills.led) (List.append_cons .. ▸ blames)
  | @chained ds r' above b product input target outer led maker =>
    change run.Pursued i n r below (.convert w product input a (.cons (.build b) above))
    unfold Step.convert
    split
    · next f refused =>
      obtain ⟨passed, leaf, rfl, blames⟩ := blames .convert refused
      exact .fails (.build outer led) blames
    · exact .serves (.build outer led)

/-- The answer to what waits is passed on or ends a build. -/
theorem Awaits.answered (h : run.Awaits i n r below ds above) (regular : p.Regular)
    (fallback : ∀ f, r.fallback = some f → f.Regular) (later : n ≤ m) {a : Except Failure Instance}
    (found : (run.state m).tasks[i]? = some ⟨.answer, .give (k := .answer) a, above⟩)
    (known : ∀ f, a = .error f → ∃ passed leaf, f = leaf.passedOn passed ∧ run.Blames i n r below (ds ++ passed) leaf)
    (busy : above ≠ below) (env : Env) (w : World) : run.Pursued i n r below (.handOver env w a above) := by
  cases h with
  | request reaches => exact reaches.answered regular fallback later found known busy env w
  | @build _ above b reaches led =>
    change run.Pursued i n r below (.built env w b a above)
    cases a with
    | ok v => exact .serves (.request reaches)
    | error f =>
      obtain ⟨passed, leaf, rfl, blames⟩ := known f rfl
      exact .fails (.request reaches) blames

/-- Each step of a task leads on, until there is an answer. -/
theorem Seeks.step {t : Task} (h : run.Seeks i n r below t) (regular : p.Regular)
    (fallback : ∀ f, r.fallback = some f → f.Regular) (later : n ≤ m) (found : (run.state m).tasks[i]? = some t)
    (busy : ∀ a, t ≠ ⟨.answer, .give (k := .answer) a, below⟩) (env : Env) (program : env.program = p) :
    run.Pursued i n r below (t.step env (run.state m).world) := by
  cases h with
  | resolve reaches => exact reaches.resolve later found
  | @line _ _ _ b reaches led => exact reaches.build led ((run.state m).world.letIn b)
  | fill reaches led serves =>
    have regular := led.regular regular (reaches.fallback regular fallback)
    exact reaches.fill led serves regular later found env program
  | @pause _ _ above b j times reaches led serves =>
    cases times with
    | zero =>
      have regular := led.regular regular (reaches.fallback regular fallback)
      change run.Pursued i n r below (.start env (run.state m).world j (.cons (.build b) above))
      rw [Step.start_eq_conclude (serves.regular regular).bare]
      exact reaches.conclude led serves later found
    | succ times => exact .pause reaches led serves
  | serves awaits =>
    refine awaits.answered regular fallback later found (fun f no => by cases no) (fun same => ?_) env _
    exact busy _ (by rw [same])
  | fails awaits blames =>
    refine awaits.answered regular fallback later found (fun f same => ?_) (fun same => ?_) env _
    · cases same
      exact ⟨_, _, rfl, blames⟩
    · exact busy _ (by rw [same])

/-- Until there is an answer, a task is on its way to it. -/
theorem seeks (run : Run p) (regular : p.Regular) (fallback : ∀ f, r.fallback = some f → f.Regular)
    (asked : (run.state n).tasks[i]? = some ⟨.answer, .resolve r, below⟩) (pending : run.Pending i below n m) :
    ∃ t, (run.state m).tasks[i]? = some t ∧ run.Seeks i n r below t := by
  refine pending.follows (P := fun _ => run.Seeks i n r below) asked (.resolve .start)
    (fun seeks => by cases seeks <;> rfl) (fun seeks _ => seeks) fun {k t st} later _ found seeks busy takes => ?_
  cases takes with
  | step => exact seeks.step regular fallback later found busy _ rfl
  | joined => cases seeks

end Run

/-- A request that fails does so because of a request that it led to and that failed by itself. The failure is that of
the latter, passed on by the dependency parameters on the way, from the outermost one down. -/
theorem Run.failure_has_provenance (run : Run p) (regular : p.Regular) {i n m : Nat} {r : Request}
    {below : Stack .answer} (fallback : ∀ f, r.fallback = some f → f.Regular)
    (asked : (run.state n).tasks[i]? = some ⟨.answer, .resolve r, below⟩) (pending : run.Pending i below n m)
    {f : Failure} (failed : (run.state m).tasks[i]? = some ⟨.answer, .give (k := .answer) (.error f), below⟩) :
    ∃ ds leaf r' above, run.Reaches i n r below ds r' above ∧ run.Raises i n r' above leaf ∧
      f = leaf.passedOn ds ∧ f.rootCause = leaf ∧
      f.sources = ds.tails.tail.map (fun rest => (leaf.passedOn rest).message) ++ leaf.sources := by
  obtain ⟨t, found, seeks⟩ := run.seeks regular fallback asked pending
  obtain rfl := Option.some.inj (failed.symm.trans found)
  cases seeks with
  | @fails _ passed _ leaf awaits blames =>
    obtain rfl := awaits.eq_nil
    obtain ⟨r', above, reaches, raises⟩ := blames
    exact ⟨passed, leaf, r', above, reaches, raises, rfl, Failure.rootCause_passedOn raises.isLeaf passed,
      Failure.sources_passedOn leaf passed⟩

/-- A report needs what its name says is a store. A store is made from a disk, and a disk needs a text. -/
def archive : Program where
  functions := (Table.empty.insert "disk"
    { name := "disk", product := .object "Disk", params := [.one (.arg .text)], body := .inline [] }).insert "report"
    { name := "report", product := .object "Report", names := ["self", "store"], body := .inline [],
      params := [.one .container, .group [.one (.named (.declared "Store") "store")]] }

/-- A scope is asked for a report. Only its base can make one, and nobody says which disk. -/
def archiveRun : Run archive :=
  .ofOps archive "root" [
    .on "root" (.register none (.function "disk" true) .transient none),
    .on "root" (.register none (.chained (.object "Store") (.declared "Disk") (.type (.declared "Disk"))) .singleton none),
    .on "root" (.addAlias (.type (.declared "Store")) "store"),
    .on "root" (.register none (.function "report" true) .transient none),
    .on "root" (.openScope "scope"),
    .lasting ⟨"", "scope", false⟩ (.get none (.type (.declared "Report")) false none)]

/-- The request, and what waits for the instance. -/
def archiveRequest : Request := { container := 1, key := .type (.declared "Report"), path := [] }

def archiveStack : Stack .answer := .cons (.deliver 1 none none) .nil

theorem regular_archive : archive.Regular where
  function name := by
    rw [Program.function, archive, Table.get?_insert, Table.get?_insert]
    split
    · rw [Option.getD_some]
      exact ⟨by decide, rfl⟩
    · split
      · rw [Option.getD_some]
        exact ⟨by decide, rfl⟩
      · exact ⟨fun _ none => (List.not_mem_nil none).elim, rfl⟩
  injectable t := ⟨fun _ none => (List.not_mem_nil none).elim, rfl⟩

/-- Of all that was passed only the parameter for the store adds what it is called: neither the other name of its key, nor
the base of the scope, nor the disk that the store is made from, nor the text. -/
theorem a_disk_without_a_name : archive.Regular ∧
    (archiveRun.state 23).tasks[5]? = some ⟨.answer, .resolve archiveRequest, archiveStack⟩ ∧
    archiveRun.Pending 5 archiveStack 23 37 ∧ ∃ f ds leaf r' above,
      (archiveRun.state 37).tasks[5]? = some ⟨.answer, .give (k := .answer) (.error f), archiveStack⟩ ∧
      archiveRun.Reaches 5 23 archiveRequest archiveStack ds r' above ∧ archiveRun.Raises 5 23 r' above leaf ∧
      f = leaf.passedOn ds ∧ ds = [⟨"store", "report", .name "store"⟩] ∧ leaf = .missingArgument "#0" 0 "disk" .text := by
  have asked : (archiveRun.state 23).tasks[5]? = some ⟨.answer, .resolve archiveRequest, archiveStack⟩ := rfl
  have pending : archiveRun.Pending 5 archiveStack 23 37 :=
    Run.pending_of_atWork (k := 14) (by decide +kernel)
  obtain ⟨f, failed, same⟩ : ∃ f, (archiveRun.state 37).tasks[5]? =
      some ⟨.answer, .give (k := .answer) (.error f), archiveStack⟩ ∧
      f = (Failure.missingArgument "#0" 0 "disk" .text).passedOn [⟨"store", "report", .name "store"⟩] := ⟨_, rfl, rfl⟩
  obtain ⟨ds, leaf, r', above, reaches, raises, passed, -, -⟩ :=
    archiveRun.failure_has_provenance regular_archive (by rintro g ⟨⟩) asked pending failed
  obtain ⟨rfl, rfl⟩ := Failure.passedOn_inj raises.isLeaf (by exact trivial) (passed.symm.trans same)
  exact ⟨regular_archive, asked, pending, f, _, _, r', above, failed, reaches, raises, passed, rfl, rfl⟩

end System

end Injector
