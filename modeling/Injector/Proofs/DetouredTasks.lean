import Injector.Proofs.Detours
import Injector.Proofs.Provenance
/-!
# Tasks that are a build apart

What is done within the call is done within the build as well, with the key of the build among the keys that are
being built (`Detour.TasksApart`). Other tasks do the same beside the one and the other. A step
keeps tasks and worlds apart in this way (`Detour.TasksApart.step`), unless it asks for the key itself or
ends what the detour is about.

Failures come out the same (`Detour.AnswersApart`), but that a cycle within the build comes with its key, and that the
failure of the function is a failed build of the key and not of the function.
-/
namespace Injector

/-! ## Counterparts -/

section Counterparts
variable (D : Detour) (keys : List Key)

/-- The scene within builds of these keys. -/
def Scene.under (s : Scene) : Scene := { s with path := keys ++ s.path }

/-- The request within builds of these keys. -/
def Request.under (r : Request) : Request := { r with path := keys ++ r.path }

/-- The build within builds of these keys, with its later ticket. -/
def Build.under (b : Build) : Build :=
  { b with path := keys ++ b.path, lock := D.late b.lock, ticket := D.late b.ticket }

/-- The job within builds of these keys. If it is the function's `own`, its failure is one of the build. -/
def Job.under (own : Bool) (j : Job) : Job :=
  { j with subject := if own then D.key else j.subject, frame := { j.frame with path := keys ++ j.frame.path } }

end Counterparts

namespace Detour

variable {D : Detour}

/-- The keys that are being built around what is `inside` of the detour. -/
def keys (D : Detour) (inside : Bool) : List Key := if inside then [D.key] else []

/-- The build, which is not within any other. -/
def build (D : Detour) : Build where
  container := D.container
  key := D.key
  binding := some D.function.unbound
  path := [D.key]
  lock := D.ticket
  ticket := D.ticket

/-- Whether the function has a parameter that hands on the failure of a lookup as it is. -/
def HandsOn (D : Detour) : Prop := ∃ slot ∈ (Param.slotsOf D.function.params 0).1, ∃ key, slot.extractor = .lookup key

/-- Whether a job is the function's own. -/
structure Own (D : Detour) (j : Job) : Prop where
  function : j.function = D.function
  subject : j.subject = D.function.key
  todo : ∀ slot ∈ j.todo, slot ∈ (Param.slotsOf D.function.params 0).1

/-- Whether an answer of the call is the same as one of the build: the instance, or the failure. If it is the `own` answer of the
function, a failed build of the function is one of the key. -/
inductive AnswersApart (D : Detour) (inside own : Bool) : Except Failure Instance → Except Failure Instance → Prop
  | ok (v : Instance) : AnswersApart D inside own (.ok v) (.ok v)
  /-- A failure that is passed on is no failed build, unless a parameter hands it on as it is. -/
  | passed (f : Failure) (named : own = true → (∃ key fault, f = .build key fault) → D.HandsOn) :
    AnswersApart D inside own (.error f) (.error (f.under (D.keys inside)))
  | own (here : own = true) (fault : Fault) :
    AnswersApart D inside own (.error (.build D.function.key fault)) (.error (.build D.key (fault.under (D.keys inside))))

/-- Whether two activities are the same, but that one is within the build. The function's `own` ones fill its parameters and
perform its body, and come to its answer. -/
inductive ActivitiesApart (D : Detour) (inside : Bool) : Bool → {k : Kind} → Activity k → Activity k → Prop
  | resolve (r : Request) : ActivitiesApart D inside false (.resolve r) (.resolve (r.under (D.keys inside)))
  | line (b : Build) (clear : D.building = true → D.Clear b.container b.key) :
    ActivitiesApart D inside false (.line b) (.line (b.under D (D.keys inside)))
  | fill {own : Bool} (j : Job) (its : own = true → D.Own j) :
    ActivitiesApart D inside own (.fill j) (.fill (j.under D (D.keys inside) own))
  | pause {own : Bool} (j : Job) (times : Nat) (its : own = true → D.Own j) :
    ActivitiesApart D inside own (.pause j times) (.pause (j.under D (D.keys inside) own) times)
  | perform (s : Scene) (o : Op) : ActivitiesApart D inside false (.perform s o) (.perform (s.under (D.keys inside)) o)
  | windDown (path : List Key) (ts : List Teardown) :
    ActivitiesApart D inside false (.windDown path ts) (.windDown (D.keys inside ++ path) ts)
  | await (tasks : List Nat) : ActivitiesApart D inside false (.await tasks) (.await tasks)
  | answer {own : Bool} {a a' : Except Failure Instance} (apart : D.AnswersApart inside own a a') :
    ActivitiesApart D inside own (.give (k := .answer) a) (.give (k := .answer) a')
  | reply (r : Reply) :
    ActivitiesApart D inside false (.give (k := .reply) r) (.give (k := .reply) (r.under (D.keys inside)))
  | finish : ActivitiesApart D inside false (.give (k := .done) ()) (.give (k := .done) ())

/-- Whether the same waits for an outcome, but that one is within the build. The function's `own` are its parameters and
its body. -/
inductive ContsApart (D : Detour) (inside : Bool) : Bool → {a b : Kind} → Cont a b → Cont a b → Prop
  | slot {own : Bool} (j : Job) (key : Key) (its : own = true → D.Own j) :
    ContsApart D inside own (.slot j key) (.slot (j.under D (D.keys inside) own) key)
  | build (b : Build) (clear : D.building = true → D.Clear b.container b.key) :
    ContsApart D inside false (.build b) (.build (b.under D (D.keys inside)))
  | convert (product : Product) (input : Ty) : ContsApart D inside false (.convert product input) (.convert product input)
  | body {own : Bool} (j : Job) (h : Heading) (rest : List Op) (its : own = true → D.Own j) :
    ContsApart D inside own (.body j h rest) (.body (j.under D (D.keys inside) own) h rest)
  | deliver (c : ContainerId) (expected : Option Ty) (save : Option String) :
    ContsApart D inside false (.deliver c expected save) (.deliver c expected save)
  | observe (c : ContainerId) : ContsApart D inside false (.observe c) (.observe c)
  | close (c : Option ContainerId) (r : Reply) :
    ContsApart D inside false (.close c r) (.close c (r.under (D.keys inside)))
  | scopeBody (scope : ContainerId) (name : String) (path : List Key) (h : Heading) (rest : List Op) :
    ContsApart D inside false (.scopeBody scope name path h rest) (.scopeBody scope name (D.keys inside ++ path) h rest)
  | callback (path : List Key) (h : Heading) (rest : List Op) (ts : List Teardown) :
    ContsApart D inside false (.callback path h rest ts) (.callback (D.keys inside ++ path) h rest ts)

/-- Whether the same waits, but that one is within the build, which is on top of what waits for the call. What is put
directly there is the function's own. -/
inductive StacksApart (D : Detour) (base : Stack .answer) (inside : Bool) : Bool → {k : Kind} → Stack k → Stack k → Prop
  | nil (outside : inside = false) : StacksApart D base inside false .nil .nil
  | base (here : inside = true) : StacksApart D base inside true base (.cons (.build D.build) base)
  | cons {a b : Kind} {own : Bool} {c c' : Cont a b} {below below' : Stack b} (cont : D.ContsApart inside own c c')
    (under : StacksApart D base inside own below below') : StacksApart D base inside false (.cons c below) (.cons c' below')

/-- Whether two tasks do the same, but that one is within the build. -/
inductive TasksApart (D : Detour) (base : Stack .answer) (inside : Bool) : Task → Task → Prop
  | mk {k : Kind} {own : Bool} {a a' : Activity k} {above above' : Stack k} (activity : D.ActivitiesApart inside own a a')
    (under : StacksApart D base inside own above above') : TasksApart D base inside ⟨k, a, above⟩ ⟨k, a', above'⟩

/-- An operation is begun beside the one and the other. -/
theorem TasksApart.ofOp {base : Stack .answer} (s : Scene) (o : Op) : D.TasksApart base false (.ofOp s o) (.ofOp s o) :=
  .mk (.perform s o) (.nil rfl)

theorem TasksApart.ofTeardowns {base : Stack .answer} (ts : List Teardown) :
    D.TasksApart base false (.ofTeardowns ts) (.ofTeardowns ts) :=
  .mk (.windDown [] ts) (.cons (.close none .ok) (.nil rfl))

/-- Whether two steps lead to the same, but that one is within the build. -/
structure StepsApart (D : Detour) (base : Stack .answer) (inside : Bool) (st st' : Step) : Prop where
  world : D.Apart st.world st'.world
  task : D.TasksApart base inside st.task st'.task
  started : st'.started = st.started
  beside : ∀ t ∈ st.started, D.TasksApart base false t t

/-- Whether steps see the same around their tasks, and somebody works with the container of the build. -/
structure EnvsApart (D : Detour) (env env' : Env) : Prop where
  program : env'.program = env.program
  held : ∀ c, c ∈ env'.held ↔ c ∈ env.held
  here : D.building = true → D.container ∈ env.held
  next : env'.next = env.next

/-- A build is the same within builds of other keys. -/
theorem builds_under {b : Build} (free : D.building = true → D.Clear b.container b.key) (keys : List Key) :
    D.correspondence.Builds b (b.under D keys) := ⟨rfl, rfl, rfl, rfl, rfl, trivial, clear free⟩

/-- What an operation replied is told, with the key of the build or without. -/
theorem Apart.tellReply {w w' : World} (h : D.Apart w w') (inside : Bool) (label : String) (r : Reply) :
    D.Apart (w.tell (.performed label r)) (w'.tell (.performed label (r.under (D.keys inside)))) := by
  apply h.tell
  cases inside with
  | true => exact .inr rfl
  | false => exact .inl (congrArg (Event.performed label) r.under_nil)

/-! ## Answers and replies -/

variable {base : Stack .answer} {inside own : Bool} {w w' : World} {env env' : Env}

namespace AnswersApart

variable {a a' : Except Failure Instance}

/-- What is inside of the function's own answer is passed on with the key. -/
theorem inner (h : D.AnswersApart inside false a a') : a' = a.mapError (Failure.under (D.keys inside)) := by
  cases h with
  | ok | passed => rfl
  | own here => cases here

end AnswersApart

theorem bind_mapError {α β : Type} (x : Except Failure α) (keys : List Key) (f : α → Except Failure β)
    (plain : ∀ a failure, f a = .error failure → failure.under keys = failure) :
    (x.mapError (Failure.under keys)).bind f = (x.bind f).mapError (Failure.under keys) := by
  cases x with
  | error => rfl
  | ok a =>
    change f a = (f a).mapError _
    cases result : f a with
    | error failure => exact congrArg Except.error (plain a failure result).symm
    | ok => rfl

theorem expect_under (keys : List Key) (t : Ty) (v : Instance) (failure : Failure) (h : Shared.expect t v = .error failure) :
    failure.under keys = failure := by
  unfold Shared.expect at h
  split at h
  · cases h
  · cases h
    rfl

theorem stops_under (h : Heading) (keys : List Key) (r : Reply) : h.stops (r.under keys) = (h.stops r).map (Failure.under keys) := by
  unfold Heading.stops
  rw [Reply.failure?_under]
  split <;> rfl

/-! ## Filling -/

/-- What a filling comes to within builds of these keys. -/
def fillingUnder (keys : List Key) : Except Failure (Filled × Frame) → Except Failure (Filled × Frame)
  | .ok (x, f) => .ok (x, { f with path := keys ++ f.path })
  | .error failure => .error (failure.under keys)

section Filling

variable (f : Frame) (keys : List Key)

theorem fillDependency_under (t : Ty) (key : Key) (answer : Except Failure Instance) :
    ({ f with path := keys ++ f.path } : Frame).fillDependency t key (answer.mapError (Failure.under keys)) =
      fillingUnder keys (f.fillDependency t key answer) := by
  unfold Frame.fillDependency
  rw [bind_mapError _ _ _ (expect_under keys t)]
  cases answer.bind (Shared.expect t) with
  | ok v => rfl
  | error failure =>
    dsimp only [Except.mapError]
    split <;> rfl

theorem fillAlone_under (e : Extractor) :
    ({ f with path := keys ++ f.path } : Frame).fillAlone e = fillingUnder keys (f.fillAlone e) := by
  cases e with
  | inject t | autowired t => exact fillDependency_under f keys t _ (.error (.unbound (.type t)))
  | annotated t tags => exact fillDependency_under f keys t _ (.error (.unbound (.tagged t tags)))
  | named t name => exact fillDependency_under f keys t _ (.error (.unbound (.name name)))
  | arg p =>
    simp only [Frame.fillAlone]
    unfold Frame.fillPrimitive
    dsimp only
    generalize (f.signature.name? f.position).bind f.arguments.takeKeyword = keyword
    generalize f.arguments.takePositional p.accepts = positional
    generalize (f.signature.defaultAt f.position).bind p.read = default
    cases keyword with
    | some =>
      dsimp only
      split <;> rfl
    | none => cases positional <;> cases default <;> rfl
  | rest | kwargs | container | inspect | lookup | replace => rfl

theorem fillWith_under (key : Key) (answer : Except Failure Instance) (e : Extractor) :
    ({ f with path := keys ++ f.path } : Frame).fillWith key (answer.mapError (Failure.under keys)) e =
      fillingUnder keys (f.fillWith key answer e) := by
  cases e with
  | inject t | autowired t | annotated t | named t => exact fillDependency_under f keys t key answer
  | rest t =>
    simp only [Frame.fillWith]
    rw [bind_mapError _ _ _ (expect_under keys _)]
    cases answer.bind (Shared.expect (if key = .type (.seq t) then .seq t else t)) <;> rfl
  | lookup => cases answer <;> rfl
  | arg p => exact fillAlone_under f keys (.arg p)
  | kwargs | container | inspect | replace => rfl

end Filling

section Builds

variable {f : Frame} {e : Extractor} {failure : Failure} {answer : Except Failure Instance} {key : Key}

theorem fillAlone_not_build (h : f.fillAlone e = .error failure) (key : Key) (fault : Fault) : failure ≠ .build key fault := by
  rintro rfl
  cases e with
  | inject | autowired | annotated | named =>
    simp only [Frame.fillAlone] at h
    obtain ⟨_, same, -⟩ := Frame.fillDependency_error h
    cases same
  | arg p =>
    simp only [Frame.fillAlone] at h
    unfold Frame.fillPrimitive at h
    split at h
    · split at h <;> cases h
    · split at h
      · cases h
      · split at h <;> cases h
  | rest | kwargs | container | inspect | lookup | replace => cases h

/-- A parameter whose failure is a failed build hands on that of a lookup. -/
theorem lookup_of_fillWith (h : f.fillWith key answer e = .error failure) (built : ∃ key fault, failure = .build key fault) :
    ∃ key, e = .lookup key := by
  obtain ⟨key', fault, rfl⟩ := built
  cases e with
  | inject | autowired | annotated | named =>
    simp only [Frame.fillWith] at h
    obtain ⟨_, same, -⟩ := Frame.fillDependency_error h
    cases same
  | rest t =>
    unfold Frame.fillWith at h
    dsimp only at h
    split at h <;> cases h
  | lookup key => exact ⟨key, rfl⟩
  | arg p => exact absurd rfl (fillAlone_not_build (e := .arg p) h key' fault)
  | kwargs | container | inspect | replace => cases h

end Builds

/-! ## Steps -/

theorem Own.fill {j : Job} (h : D.Own j) (x : Filled) (f : Frame) : D.Own (j.fill x f) :=
  ⟨h.function, h.subject, fun slot hs => h.todo slot (List.mem_of_mem_tail hs)⟩

/-- What a function fails with of itself is not about keys. -/
theorem fault_under {f : Function} {count : Nat} {fault : Fault} (h : f.fault count = some fault) (keys : List Key) :
    fault.under keys = fault := by
  unfold Function.fault at h
  split at h
  · split at h
    · cases h
      rfl
    · obtain ⟨_, -, rfl⟩ := Option.map_eq_some_iff.1 h
      rfl
  · cases h

/-- The failure of the function itself is one of the build. -/
theorem AnswersApart.failed {j : Job} (its : own = true → D.Own j) (fault : Fault) :
    D.AnswersApart inside own (.error (.build j.subject fault))
      (.error (.build (j.under D (D.keys inside) own).subject (fault.under (D.keys inside)))) := by
  cases own with
  | true =>
    rw [(its rfl).subject]
    exact .own rfl fault
  | false => exact .passed (.build j.subject fault) fun here => by cases here

section Steps

variable {k : Kind} {above above' : Stack k} {answers answers' : Stack .answer} {replies replies' : Stack .reply}
  {dones dones' : Stack .done}

theorem apart_next {a a' : Activity k} (worlds : D.Apart w w') (activity : D.ActivitiesApart inside own a a')
    (under : D.StacksApart base inside own above above') :
    D.StepsApart base inside (.next w a above) (.next w' a' above') :=
  ⟨worlds, .mk activity under, rfl, fun _ ht => (List.not_mem_nil ht).elim⟩

section Answers

variable (worlds : D.Apart w w') (under : D.StacksApart base inside own answers answers')
include worlds under

theorem apart_serve (v : Instance) : D.StepsApart base inside (.serve w v answers) (.serve w' v answers') :=
  apart_next worlds (.answer (.ok v)) under

theorem apart_fail {f f' : Failure} (apart : D.AnswersApart inside own (.error f) (.error f')) :
    D.StepsApart base inside (.fail w f answers) (.fail w' f' answers') := apart_next worlds (.answer apart) under

theorem apart_filled {j : Job} (its : own = true → D.Own j) {r : Except Failure (Filled × Frame)}
    (named : ∀ failure, r = .error failure → own = true → (∃ key fault, failure = .build key fault) → D.HandsOn) :
    D.StepsApart base inside (.filled w j r answers)
      (.filled w' (j.under D (D.keys inside) own) (fillingUnder (D.keys inside) r) answers') := by
  cases r with
  | error failure => exact apart_fail worlds under (.passed failure (named failure rfl))
  | ok x => exact apart_next worlds (.fill (j.fill x.1 x.2) fun here => (its here).fill x.1 x.2) under

theorem apart_fill {j : Job} (same : D.EnvsApart env env') (its : own = true → D.Own j) :
    D.StepsApart base inside (.fill env w j answers) (.fill env' w' (j.under D (D.keys inside) own) answers') := by
  obtain ⟨function, subject, frame, todo, filled⟩ := j
  unfold Step.fill Job.under
  dsimp only
  rw [worlds.bound, same.program]
  cases todo with
  | nil => exact apart_next worlds (.pause _ _ its) under
  | cons slot rest =>
    dsimp only
    cases slot.extractor.asks (w.bound frame.container) with
    | some key =>
      have its : own = true →
          D.Own { function, subject, frame := { frame with position := slot.position }, todo := slot :: rest, filled } :=
        fun here => ⟨(its here).function, (its here).subject, (its here).todo⟩
      exact apart_next worlds (.resolve _) (.cons (.slot _ key its) under)
    | none =>
      have named : ∀ (f : Frame) failure, f.fillAlone slot.extractor = .error failure → own = true →
          (∃ key fault, failure = .build key fault) → D.HandsOn := by
        rintro f failure failed - ⟨key, fault, rfl⟩
        exact absurd rfl (fillAlone_not_build failed key fault)
      dsimp only
      cases he : slot.extractor with
      | replace positional keyword =>
        obtain ⟨made, apart⟩ := worlds.makeArguments positional keyword
        dsimp only
        rw [made]
        exact apart_filled apart under its (he ▸ named _)
      | inject | autowired | annotated | named | arg | rest | kwargs | container | inspect | lookup =>
        have filled := fillAlone_under { frame with position := slot.position } (D.keys inside) slot.extractor
        rw [he] at filled
        dsimp only at filled ⊢
        rw [filled]
        exact apart_filled worlds under its (he ▸ named _)

theorem apart_slot {j : Job} (key : Key) (its : own = true → D.Own j) (answer : Except Failure Instance) :
    D.StepsApart base inside (.slot w j key answer answers)
      (.slot w' (j.under D (D.keys inside) own) key (answer.mapError (Failure.under (D.keys inside))) answers') := by
  obtain ⟨function, subject, frame, todo, filled⟩ := j
  unfold Step.slot Job.under
  dsimp only
  cases todo with
  | nil => exact apart_next worlds (.fill _ its) under
  | cons slot rest =>
    dsimp only
    rw [fillWith_under]
    refine apart_filled worlds under its fun failure failed here built => ?_
    exact ⟨slot, (its here).todo slot List.mem_cons_self, lookup_of_fillWith failed built⟩

theorem apart_conclude {j : Job} (its : own = true → D.Own j) :
    D.StepsApart base inside (.conclude w j answers) (.conclude w' (j.under D (D.keys inside) own) answers') := by
  obtain ⟨count, invoked⟩ := worlds.invoke j.function.name
  have named : (j.under D (D.keys inside) own).function = j.function := rfl
  unfold Step.conclude
  rw [named]
  dsimp only
  rw [count]
  cases fails : j.function.fault (w.invoke j.function.name).1 with
  | none =>
    obtain ⟨made, apart⟩ := invoked.supplied fun s => s.produce j.function.product j.ingredients
    dsimp only
    rw [show (j.under D (D.keys inside) own).ingredients = j.ingredients from rfl, made]
    exact apart_serve (apart.tell (.inl rfl)) under _
  | some fault =>
    have failed := (AnswersApart.failed its fault : D.AnswersApart inside own _ _)
    rw [fault_under fails] at failed
    cases fault with
    | panicked | custom | refused => exact apart_fail (invoked.tell (.inl rfl)) under failed

theorem apart_body {j : Job} (its : own = true → D.Own j) (ops : List Op) :
    D.StepsApart base inside (.body w j ops answers) (.body w' (j.under D (D.keys inside) own) ops answers') := by
  cases ops with
  | nil => exact apart_conclude worlds under its
  | cons o rest => exact apart_next worlds (.perform j.scene o) (.cons (.body j o.heading rest its) under)

theorem apart_start {j : Job} (same : D.EnvsApart env env') (its : own = true → D.Own j) :
    D.StepsApart base inside (.start env w j answers) (.start env' w' (j.under D (D.keys inside) own) answers') := by
  have named : (j.under D (D.keys inside) own).function = j.function := rfl
  have self : (j.under D (D.keys inside) own).self = j.self := rfl
  unfold Step.start
  rw [named, self, same.program]
  cases j.function.body with
  | awaited yields ops => exact apart_body worlds under its ops
  | blocking cs | inline cs =>
    obtain ⟨-, apart⟩ := worlds.commands env.program same.here same.held j.self cs
    have succeeds := World.commands_succeed env.program env.held j.self cs w
    have succeeds' := World.commands_succeed env.program env'.held j.self cs w'
    dsimp only
    generalize w.commands env.program env.held j.self cs = x at succeeds apart
    generalize w'.commands env.program env'.held j.self cs = x' at succeeds' apart
    obtain ⟨r, w₁⟩ := x
    obtain ⟨r', w₁'⟩ := x'
    cases succeeds
    cases succeeds'
    exact apart_conclude apart under its

end Answers

section Answers

variable (worlds : D.Apart w w') (under : D.StacksApart base inside false answers answers')
include worlds under

theorem apart_resolve (r : Request) (free : ∀ c key β, w.locate r.container r.key = .builds c key β →
    (D.building = true → D.Clear c key) ∧ key ∉ D.keys inside) :
    D.StepsApart base inside (.resolve w r answers) (.resolve w' (r.under (D.keys inside)) answers') := by
  unfold Step.resolve
  have located : w'.locate (r.under (D.keys inside)).container (r.under (D.keys inside)).key = w.locate r.container r.key :=
    worlds.locate r.container r.key
  rw [located]
  cases found : w.locate r.container r.key with
  | cached c key v => exact apart_serve worlds under v
  | noAccess key => exact apart_fail worlds under (.passed (.noAccess key) fun here => by cases here)
  | builds c key β =>
    obtain ⟨clear, other⟩ := free c key β found
    have cycle : key ∈ (r.under (D.keys inside)).path ↔ key ∈ r.path := by simp [Request.under, other]
    dsimp only
    by_cases already : key ∈ r.path
    · rw [if_pos already, if_pos (cycle.2 already)]
      have same : (Failure.cycle (r.path ++ [key])).under (D.keys inside) = .cycle ((r.under (D.keys inside)).path ++ [key]) :=
        congrArg Failure.cycle (List.append_assoc _ _ _).symm
      exact apart_fail worlds under (same ▸ .passed (.cycle (r.path ++ [key])) fun here => by cases here)
    · rw [if_neg already, if_neg (cycle.not.2 already)]
      obtain ⟨lock, ticket, entered⟩ := worlds.enter c clear
      let b : Build := {
        container := c, key, binding := β.or (r.fallback.map Function.unbound), path := r.path ++ [key]
        lock := (w.enter c key).1, ticket := (w.enter c key).2.1 }
      have same : b.under D (D.keys inside) = {
          container := c, key, binding := β.or (r.fallback.map Function.unbound)
          path := (r.under (D.keys inside)).path ++ [key]
          lock := (w'.enter c key).1, ticket := (w'.enter c key).2.1 } := by
        rw [lock, ticket, Build.under, Request.under, List.append_assoc]
      have line : D.ActivitiesApart inside false (.line b) (.line (b.under D (D.keys inside))) := .line b clear
      rw [same] at line
      exact apart_next entered line under

theorem apart_build (b : Build) (clear : D.building = true → D.Clear b.container b.key) :
    D.StepsApart base inside (.build w b answers) (.build w' (b.under D (D.keys inside)) answers') := by
  have cache : (w'.container b.container).cache.get? b.key = (w.container b.container).cache.get? b.key :=
    congrArg (·.get? b.key) (worlds.cache b.container)
  have maker : (b.under D (D.keys inside)).maker = b.maker := rfl
  have inner := StacksApart.cons (.build b clear) under
  unfold Step.build
  rw [maker]
  dsimp only [Build.under] at cache ⊢
  rw [cache]
  split
  · exact apart_serve (worlds.leave (builds_under clear _)) under _
  · split
    · next f signature made =>
      obtain ⟨arguments, apart⟩ := worlds.makeArguments (b.key.tags.map .text) []
      rw [arguments, (apart.container b.container).isScope]
      exact apart_next apart (.fill _ fun here => by cases here) inner
    · next product input target made =>
      exact apart_next worlds (.resolve _) (.cons (.convert product input) inner)
    · exact apart_fail (worlds.leave (builds_under clear _)) under (.passed (.unbound b.key) fun here => by cases here)

theorem apart_built (b : Build) (clear : D.building = true → D.Clear b.container b.key) (same : D.EnvsApart env env')
    (answer : Except Failure Instance) :
    D.StepsApart base inside (.built env w b answer answers)
      (.built env' w' (b.under D (D.keys inside)) (answer.mapError (Failure.under (D.keys inside))) answers') := by
  cases answer with
  | error failure => exact apart_fail (worlds.leave (builds_under clear _)) under (.passed failure fun here => by cases here)
  | ok v =>
    have recorded : D.Apart (w.record b v) (w'.record (b.under D (D.keys inside)) v) :=
      worlds.record (builds_under clear _) rfl
    unfold Step.built
    dsimp only [Except.mapError]
    rw [recorded.hooksFor (builds_under clear _), same.program]
    have shown := recorded.showTo env.program same.here same.held b.container v ((w.record b v).hooksFor b)
    exact apart_serve (shown.leave (builds_under clear _)) under v

theorem apart_convert (product : Product) (input : Ty) (answer : Except Failure Instance) :
    D.StepsApart base inside (.convert w product input answer answers)
      (.convert w' product input (answer.mapError (Failure.under (D.keys inside))) answers') := by
  unfold Step.convert
  rw [bind_mapError _ _ _ (expect_under _ input)]
  cases answer.bind (Shared.expect input) with
  | error failure => exact apart_fail worlds under (.passed failure fun here => by cases here)
  | ok v =>
    obtain ⟨made, apart⟩ := worlds.supplied fun s => s.produce product [v]
    dsimp only [Except.mapError]
    rw [made]
    exact apart_serve (apart.tell (.inl rfl)) under _

end Answers

section Dones

variable (worlds : D.Apart w w') (under : D.StacksApart base inside false dones dones')
include worlds under

theorem apart_callback (path : List Key) (ops : List Op) (ts : List Teardown) :
    D.StepsApart base inside (.callback w path ops ts dones) (.callback w' (D.keys inside ++ path) ops ts dones') := by
  cases ops with
  | nil => exact apart_next worlds (.windDown path ts) under
  | cons o rest => exact apart_next worlds (.perform ⟨none, path⟩ o) (.cons (.callback path o.heading rest ts) under)

theorem apart_windDown (path : List Key) (ts : List Teardown) :
    D.StepsApart base inside (.windDown w path ts dones) (.windDown w' (D.keys inside ++ path) ts dones') := by
  cases ts with
  | nil => exact apart_next worlds .finish under
  | cons t ts =>
    cases t with
    | callback s => exact apart_callback (worlds.tell (.inl rfl)) under path s.actions ts
    | finalize f v =>
      unfold Step.windDown
      dsimp only
      split
      · exact apart_callback (worlds.tell (.inl rfl)) under path f.script.actions ts
      · exact apart_next worlds (.windDown path ts) under

end Dones

section Replies

variable (worlds : D.Apart w w') (under : D.StacksApart base inside false replies replies')
include worlds under

theorem apart_reply (r : Reply) :
    D.StepsApart base inside (.reply w r replies) (.reply w' (r.under (D.keys inside)) replies') :=
  apart_next worlds (.reply r) under

theorem apart_terminate (c : ContainerId) (path : List Key) (r : Reply) :
    D.StepsApart base inside (.terminate w c path r replies)
      (.terminate w' c (D.keys inside ++ path) (r.under (D.keys inside)) replies') := by
  obtain ⟨left, apart⟩ := worlds.terminate c
  unfold Step.terminate
  dsimp only
  rw [left]
  exact apart_next apart (.windDown path _) (.cons (.close (some c) r) under)

theorem apart_scopeBody (scope : ContainerId) (name : String) (path : List Key) (ops : List Op) :
    D.StepsApart base inside (.scopeBody w scope name path ops replies)
      (.scopeBody w' scope name (D.keys inside ++ path) ops replies') := by
  cases ops with
  | nil => exact apart_terminate (worlds.forget name) under scope path .ok
  | cons o rest =>
    exact apart_next worlds (.perform ⟨some scope, path⟩ o) (.cons (.scopeBody scope name path o.heading rest) under)

theorem apart_lasting (same : D.EnvsApart env env') (s : Scene) (c : ContainerId) (a : Lasting Command Op) :
    D.StepsApart base inside (.lasting env w s c a replies) (.lasting env' w' (s.under (D.keys inside)) c a replies') := by
  cases a with
  | get expected key autowired save =>
    unfold Step.lasting
    dsimp only
    rw [same.program]
    exact apart_next worlds (.resolve _) (.cons (.deliver c expected save) under)
  | call function positional keyword save =>
    unfold Step.lasting
    dsimp only
    rw [worlds.saved, same.program]
    split
    · obtain ⟨made, apart⟩ := worlds.makeArguments positional keyword
      rw [made, (apart.container c).isScope]
      exact apart_next apart (.fill _ fun here => by cases here) (.cons (.deliver c none save) under)
    · exact apart_reply worlds under .noSaved
  | onResolved t key script =>
    have added : D.Apart (w.addHook c false (w.unalias (w.chain c) key) ⟨t, script⟩)
        (w'.addHook c false (w.unalias (w.chain c) key) ⟨t, script⟩) := worlds.addHook ..
    unfold Step.lasting
    dsimp only
    rw [worlds.unalias, added.cache, same.program]
    split
    · split
      · next v kept =>
        have here : D.building = true → D.container ∈ c :: env.held := fun building => List.mem_cons_of_mem c (same.here building)
        have held : ∀ d, d ∈ c :: env'.held ↔ d ∈ c :: env.held := fun d => by rw [List.mem_cons, List.mem_cons, same.held]
        exact apart_reply (added.showTo env.program here held c v _) under .ok
      · exact apart_next added (.resolve _) (.cons (.observe c) under)
    · exact apart_reply added under .ok
  | terminate => exact apart_terminate worlds under c s.path .ok
  | scope name ops =>
    obtain ⟨number, opened⟩ := worlds.openScope c
    unfold Step.lasting
    dsimp only
    rw [number]
    exact apart_scopeBody (opened.giveName name _) under _ name s.path ops
  | join ops =>
    have waits := apart_next worlds (.await ((List.range ops.length).map (env.next + ·))) under
    unfold Step.lasting
    rw [same.next]
    refine ⟨waits.world, waits.task, rfl, fun t ht => ?_⟩
    obtain ⟨o, -, rfl⟩ := List.mem_map.1 ht
    exact .ofOp _ o

theorem apart_perform (same : D.EnvsApart env env') (s : Scene) (o : Op) :
    D.StepsApart base inside (.perform env w s o replies) (.perform env' w' (s.under (D.keys inside)) o replies') := by
  cases o with
  | instant c =>
    obtain ⟨reply, apart⟩ := worlds.command env.program s.self c
    unfold Step.perform
    dsimp only
    rw [same.program]
    have unfailed := Reply.under_of_no_failure (World.failure?_command env.program w s.self c) (D.keys inside)
    rw [show (s.under (D.keys inside)).self = s.self from rfl, reply]
    have replied := apart_reply apart under (w.command env.program s.self c).1
    rwa [unfailed] at replied
  | lasting h a =>
    unfold Step.perform
    dsimp only
    rw [show (s.under (D.keys inside)).self = s.self from rfl, worlds.target]
    split
    · exact apart_lasting worlds under same s _ a
    · exact apart_reply worlds under .noContainer

theorem apart_deliver (expected : Option Ty) (save : Option String) (answer : Except Failure Instance) :
    D.StepsApart base inside (.deliver w expected save answer replies)
      (.deliver w' expected save (answer.mapError (Failure.under (D.keys inside))) replies') := by
  unfold Step.deliver
  rw [bind_mapError]
  · cases answer.bind _ with
    | ok v => exact apart_reply (worlds.save save v) under (.instance v)
    | error failure => exact apart_reply worlds under (.failed failure)
  · intro v failure failed
    cases expected with
    | none => cases failed
    | some t => exact expect_under _ t v failure failed

end Replies

theorem apart_answered {b : Kind} {own : Bool} {c c' : Cont .answer b} {below below' : Stack b} (worlds : D.Apart w w')
    (cont : D.ContsApart inside own c c') (under : D.StacksApart base inside own below below') (same : D.EnvsApart env env')
    (answer : Except Failure Instance) :
    D.StepsApart base inside (.answered env w answer c below)
      (.answered env' w' (answer.mapError (Failure.under (D.keys inside))) c' below') := by
  cases cont with
  | slot j key its => exact apart_slot worlds under key its answer
  | build b clear => exact apart_built worlds under b clear same answer
  | convert product input => exact apart_convert worlds under product input answer
  | deliver c expected save => exact apart_deliver worlds under expected save answer
  | observe c => cases answer with
    | ok => exact apart_reply worlds under .ok
    | error failure => exact apart_reply worlds under (.failed failure)

/-- Whether the operation fails is the same, and the failure but for the key. -/
theorem apart_replied {b : Kind} {own : Bool} {c c' : Cont .reply b} {below below' : Stack b} (worlds : D.Apart w w')
    (cont : D.ContsApart inside own c c') (under : D.StacksApart base inside own below below') (r : Reply) :
    D.StepsApart base inside (.replied w r c below) (.replied w' (r.under (D.keys inside)) c' below') := by
  cases cont with
  | body j h rest its =>
    have told := worlds.tellReply inside h.label r
    unfold Step.replied
    dsimp only
    rw [stops_under]
    cases h.stops r with
    | some failure => exact apart_fail told under (.failed its (.refused failure))
    | none => exact apart_body told under its rest
  | scopeBody scope name path h rest =>
    have told := worlds.tellReply inside h.label r
    unfold Step.replied
    dsimp only
    rw [stops_under]
    cases h.stops r with
    | some failure => exact apart_terminate (told.forget name) under scope path (.failed failure)
    | none => exact apart_scopeBody told under scope name path rest
  | callback path h rest ts =>
    have told := worlds.tellReply inside h.label r
    unfold Step.replied
    dsimp only
    rw [stops_under]
    cases h.stops r with
    | some failure => exact apart_next told (.windDown path ts) under
    | none => exact apart_callback told under path rest ts

/-- Tasks that are a build apart go on so, unless it is the key that is asked for, or the call comes to its answer. -/
theorem TasksApart.step {t t' : Task} (h : D.TasksApart base inside t t') (worlds : D.Apart w w') (same : D.EnvsApart env env')
    (free : ∀ r above, t = ⟨.answer, .resolve r, above⟩ → ∀ c key β, w.locate r.container r.key = .builds c key β →
      (D.building = true → D.Clear c key) ∧ key ∉ D.keys inside)
    (busy : inside = true → ∀ a, t ≠ ⟨.answer, .give (k := .answer) a, base⟩) :
    D.StepsApart base inside (t.step env w) (t'.step env' w') := by
  obtain ⟨activity, under⟩ := h
  cases activity with
  | resolve r => exact apart_resolve worlds under r (free r _ rfl)
  | line b clear => exact apart_build (worlds.letIn (builds_under clear _)) under b clear
  | fill j its => exact apart_fill worlds under same its
  | pause j times its =>
    cases times with
    | succ n => exact apart_next worlds (.pause j n its) under
    | zero => exact apart_start worlds under same its
  | perform s o => exact apart_perform worlds under same s o
  | windDown path ts => exact apart_windDown worlds under path ts
  | await tasks => exact apart_next worlds (.await tasks) under
  | answer answers =>
    cases under with
    | base here => exact absurd rfl (busy here _)
    | cons cont under =>
      cases answers.inner
      exact apart_answered worlds cont under same _
  | reply r =>
    cases under with
    | nil outside => exact apart_reply worlds (.nil outside) r
    | cons cont under => exact apart_replied worlds cont under r
  | finish =>
    cases under with
    | cons cont under =>
      cases cont with
      | close c r => exact apart_reply worlds under r

end Steps

end Detour

end Injector
