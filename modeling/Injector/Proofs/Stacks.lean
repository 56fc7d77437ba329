import Injector.Proofs.Edits
import Injector.Proofs.Located
import Injector.System
/-!
# What waits below what

The stack of a task is not just any list of continuations. What asks for a key waits
below a lookup, never a build; a function waits below its own parameters and body; and
every path is the list of the keys whose builds wait below (`Stack.path`). `Task.Wf`
collects this, and `Task.wf_step` says that every step keeps it.

`Step.fill_cases` sums up what a step can do about the slots of a function.
-/
namespace Injector

/-- The binding a lookup finds is sound. -/
theorem World.Ok.sound_of_locate {w : World} (ok : w.Ok) {c₀ c : ContainerId} {key key' : Key} {b : Binding}
    (h : w.locate c₀ key = .builds c key' (some b)) : b.Sound := by
  have right := w.right_locate c₀ key
  rw [h] at right
  obtain ⟨_, _, hb⟩ := right
  cases hl : (w.container c).live with
  | true => exact (ok.registry c hl).sound _ _ (.inl hb)
  | false =>
    rw [ok.ended c hl] at hb
    cases hb

namespace Stack

/-- The keys that are being built, outermost first. -/
def path {k : Kind} (s : Stack k) : List Key := (s.builds.map Build.key).reverse

theorem path_build (b : Build) (base : Stack .answer) : (cons (.build b) base).path = base.path ++ [b.key] := by
  simp [path, builds]

/-- Whether an instance was asked for by anything but a build. -/
def Asked : Stack .answer → Prop
  | .cons (.build _) _ => False
  | _ => True

/-- Whether a function that provides `product` is called on `c` for what waits: it is the maker of
a build on `c`, or an operation calls it. -/
def Calls (c : ContainerId) (product : Product) : Stack .answer → Prop
  | .cons (.build b) _ => b.container = c ∧ ∃ m, b.maker = some m ∧ m.product = product
  | .cons (.deliver _ _ _) _ => True
  | _ => False

/-- Whether an instance is what a build waits for, if one does. -/
def Receives (v : Instance) : Stack .answer → Prop
  | .cons (.build b) _ => ∃ m, b.maker = some m ∧ v.ty = m.product.ty
  | _ => True

end Stack

/-- Whether a job is for what waits below it. -/
structure Job.Fits (j : Job) (below : Stack .answer) : Prop where
  path : j.frame.path = below.path
  self : ∀ c inScope, Filled.container c inScope ∈ j.filled → c = j.frame.container
  calls : below.Calls j.frame.container j.function.product

/-- Whether a request is for what waits below it, which works with the container that is asked. Only a plain type may
build itself. -/
structure Request.Fits (r : Request) (below : Stack .answer) : Prop where
  path : r.path = below.path
  asked : below.Asked
  held : r.container ∈ below.held
  plain : ∀ f, r.fallback = some f → ∃ t, r.key = .type t

/-- Whether a build is for what waits below it. -/
structure Build.Fits (b : Build) (below : Stack .answer) : Prop where
  asked : below.Asked
  path : b.path = below.path ++ [b.key]
  sound : ∀ x, b.binding = some x → x.Sound

/-- What builds itself is a plain type. -/
theorem Key.plain_of_fallback {key : Key} {builds : Ty → Function} {f : Function}
    (used : key.plainType?.map builds = some f) : ∃ t, key = .type t := by
  cases key with
  | type t => exact ⟨t, rfl⟩
  | name | tagged => cases used

/-- What a slot has build itself is a plain type. -/
theorem Extractor.plain_of_fallback {e : Extractor} {bound : Key → Bool} {key : Key} (asked : e.asks bound = some key)
    {builds : Ty → Function} (f : Function) (used : e.fallback.map builds = some f) : ∃ t, key = .type t := by
  cases e with
  | autowired t =>
    cases asked
    exact ⟨t, rfl⟩
  | _ => cases used

/-- Whether what waits is in order. -/
def Stack.Wf : {k : Kind} → Stack k → Prop
  | _, .nil => True
  | _, .cons (.slot j _) below => j.Fits below ∧ below.Wf
  | _, .cons (.build b) below => b.Fits below ∧ below.Wf
  | _, .cons (.convert product _) below => (∃ c, below.Calls c product) ∧ below.Wf
  | _, .cons (.body j _ _) below => j.Fits below ∧ below.Wf
  | _, .cons (.deliver _ _ _) below => below.Wf
  | _, .cons (.observe _) below => below.Wf
  | _, .cons (.close _ _) below => below.Wf
  | _, .cons (.scopeBody _ _ path _ _) below => path = below.path ∧ below.Wf
  | _, .cons (.callback path _ _ _) below => path = below.path ∧ below.Wf

/-- Whether an activity is for what waits below it. -/
def Activity.Wf : {k : Kind} → Activity k → Stack k → Prop
  | _, .resolve r, below => r.Fits below
  | _, .line b, below => b.Fits below
  | _, .fill j, below => j.Fits below
  | _, .pause j _, below => j.Fits below
  | _, .perform s _, below => s.path = below.path
  | _, .windDown path _, below => path = below.path
  | _, .await _, _ => True
  | .answer, .give (.ok v), below => below.Receives v
  | .answer, .give (.error _), _ => True
  | .reply, .give _, _ => True
  | .done, .give _, _ => True

/-- Whether a task is in order. -/
structure Task.Wf (t : Task) : Prop where
  activity : t.activity.Wf t.stack
  stack : t.stack.Wf

/-- Whether a step leads to tasks in order. -/
structure Step.Wf (st : Step) : Prop where
  task : st.task.Wf
  started : ∀ t ∈ st.started, t.Wf

theorem Stack.Asked.receives {below : Stack .answer} (h : below.Asked) (v : Instance) : below.Receives v := by
  cases below with
  | cons c below => cases c <;> trivial

theorem Stack.Calls.receives {c : ContainerId} {product : Product} {below : Stack .answer}
    (h : below.Calls c product) {v : Instance} (hv : v.ty = product.ty) : below.Receives v := by
  cases below with
  | cons k below =>
    cases k <;> try trivial
    obtain ⟨_, m, hm, rfl⟩ := h
    exact ⟨m, hm, hv⟩

theorem Job.Fits.with_frame {j j' : Job} {below : Stack .answer} (h : j.Fits below) (hf : j'.function = j.function)
    (hp : j'.frame.path = j.frame.path) (hc : j'.frame.container = j.frame.container)
    (hs : ∀ c inScope, Filled.container c inScope ∈ j'.filled →
      Filled.container c inScope ∈ j.filled ∨ c = j.frame.container) : j'.Fits below where
  path := hp.trans h.path
  self c inScope hm := by
    rw [hc]
    exact (hs c inScope hm).elim (h.self c inScope) id
  calls := by
    rw [hf, hc]
    exact h.calls

/-- The container that stands for `$` in a body is the one that was asked. -/
theorem Job.Fits.self_eq {j : Job} {below : Stack .answer} (h : j.Fits below) {c : ContainerId}
    (hc : j.self = some c) : c = j.frame.container := by
  obtain ⟨f, hf, hm⟩ := List.exists_of_findSome?_eq_some hc
  cases f with
  | container c' inScope =>
    cases hm
    exact h.self c inScope hf
  | _ => cases hm

/-! ## Frames keep their container and path -/

namespace Frame

variable {f f' : Frame} {filled : Filled}

/-- Whether a frame is as before but for the arguments and the position. -/
def Spends (f f' : Frame) : Prop := f' = { f with arguments := f'.arguments, position := f'.position }

/-- What filling a slot can do to the frame. -/
def Kept (f f' : Frame) (filled : Filled) : Prop :=
  f'.path = f.path ∧ f'.container = f.container ∧ ∀ c inScope, filled = .container c inScope → c = f.container

/-- Filling a slot spends arguments, and gives no container but that of the frame. -/
def Fills (f f' : Frame) (filled : Filled) : Prop :=
  f.Spends f' ∧ ∀ c inScope, filled = .container c inScope → c = f.container

theorem Fills.kept (h : f.Fills f' filled) : f.Kept f' filled := by
  obtain ⟨spends, own⟩ := h
  exact ⟨by rw [spends], by rw [spends], own⟩

theorem fills_fillDependency {t : Ty} {key : Key} {answer : Except Failure Instance}
    (h : f.fillDependency t key answer = .ok (filled, f')) : f.Fills f' filled := by
  unfold fillDependency at h
  split at h
  · cases h
    exact ⟨rfl, by rintro _ _ ⟨⟩⟩
  · split at h
    · cases h
      exact ⟨rfl, by rintro _ _ ⟨⟩⟩
    · cases h

theorem fills_fillPrimitive {q : Primitive} (h : f.fillPrimitive q = .ok (filled, f')) : f.Fills f' filled := by
  unfold fillPrimitive at h
  split at h
  · split at h
    · cases h
      exact ⟨rfl, by rintro _ _ ⟨⟩⟩
    · cases h
  · split at h
    · cases h
      exact ⟨rfl, by rintro _ _ ⟨⟩⟩
    · split at h
      · cases h
        exact ⟨rfl, by rintro _ _ ⟨⟩⟩
      · cases h

theorem fills_fillAlone {e : Extractor} (h : f.fillAlone e = .ok (filled, f')) : f.Fills f' filled := by
  cases e with
  | inject | autowired | annotated | named =>
    simp only [fillAlone] at h
    exact fills_fillDependency h
  | arg q =>
    simp only [fillAlone] at h
    exact fills_fillPrimitive h
  | lookup key => cases h
  | container =>
    cases h
    exact ⟨rfl, fun _ _ same => by cases same; rfl⟩
  | rest | kwargs | inspect | replace =>
    cases h
    exact ⟨rfl, by rintro _ _ ⟨⟩⟩

theorem fills_fillWith {e : Extractor} {key : Key} {answer : Except Failure Instance}
    (h : f.fillWith key answer e = .ok (filled, f')) : f.Fills f' filled := by
  cases e with
  | inject | autowired | annotated | named =>
    simp only [fillWith] at h
    exact fills_fillDependency h
  | rest t =>
    unfold fillWith at h
    dsimp only at h
    split at h
    · cases h
      exact ⟨rfl, by rintro _ _ ⟨⟩⟩
    · cases h
  | lookup k =>
    cases answer with
    | error => cases h
    | ok v =>
      cases h
      exact ⟨rfl, by rintro _ _ ⟨⟩⟩
  | arg | kwargs | container | inspect | replace =>
    simp only [fillWith] at h
    exact fills_fillAlone h

theorem kept_fillAlone {e : Extractor} (h : f.fillAlone e = .ok (filled, f')) : f.Kept f' filled :=
  (fills_fillAlone h).kept

theorem kept_fillWith {e : Extractor} {key : Key} {answer : Except Failure Instance}
    (h : f.fillWith key answer e = .ok (filled, f')) : f.Kept f' filled := (fills_fillWith h).kept

end Frame

theorem Job.Fits.fill {j : Job} {below : Stack .answer} (h : j.Fits below) {f : Frame} {filled : Filled}
    (kept : j.frame.Kept f filled) : (j.fill filled f).Fits below := by
  obtain ⟨hp, hc, hs⟩ := kept
  refine h.with_frame rfl hp hc ?_
  intro c inScope hm
  rcases List.mem_append.1 hm with hm | hm
  · exact .inl hm
  · exact .inr (hs c inScope (List.mem_singleton.1 hm).symm)

/-! ## What fills a slot -/

namespace Step

variable {w : World} {env : Env}

/-- What a step does about the slots of a job: none is left; or the container is asked for the next one; or that is
filled, for which the function may get other arguments, or the call fails. -/
inductive Fill (env : Env) (w : World) (j : Job) (below : Stack .answer) : Step → Prop
  | calls (todo : j.todo = []) : Fill env w j below (.next w (.pause j j.function.suspensions) below)
  | asks {slot : Slot} {rest : List Slot} {key : Key} (todo : j.todo = slot :: rest)
    (asked : slot.extractor.asks (w.bound j.frame.container) = some key) :
    Fill env w j below (.next w
      (.resolve { container := j.frame.container, key, fallback := slot.extractor.fallback.map env.program.injectable,
                  path := j.frame.path })
      (.cons (.slot { j with frame := { j.frame with position := slot.position } } key) below))
  | fills {slot : Slot} {rest : List Slot} {w' : World} {r : Except Failure (Filled × Frame)} (todo : j.todo = slot :: rest)
    (world : w = w' ∨ ∃ positional keyword, (w.makeArguments positional keyword).2 = w')
    (kept : ∀ filled f, r = .ok (filled, f) → j.frame.Kept f filled) : Fill env w j below (.filled w' j r below)

theorem fill_cases (env : Env) (w : World) (j : Job) (below : Stack .answer) : Fill env w j below (fill env w j below) := by
  unfold fill
  split
  · next todo => exact .calls todo
  · next slot rest todo =>
    dsimp only
    split
    · next key asked => exact .asks todo asked
    · split
      · next positional keyword _ =>
        refine .fills todo (.inr ⟨positional, keyword, rfl⟩) fun filled f taken => ?_
        have kept := Frame.kept_fillAlone taken
        exact kept
      · refine .fills todo (.inl rfl) fun filled f taken => ?_
        have kept := Frame.kept_fillAlone taken
        exact kept

/-! ## Steps keep the order -/

theorem wf_next {k : Kind} {a : Activity k} {below : Stack k} (ha : a.Wf below) (hb : below.Wf) :
    (next w a below).Wf :=
  ⟨⟨ha, hb⟩, fun _ h => by cases h⟩

theorem wf_serve {v : Instance} {below : Stack .answer} (hv : below.Receives v) (hb : below.Wf) :
    (serve w v below).Wf := wf_next hv hb

theorem wf_fail {f : Failure} {below : Stack .answer} (hb : below.Wf) : (fail w f below).Wf := wf_next trivial hb

theorem wf_reply {r : Reply} {below : Stack .reply} (hb : below.Wf) : (reply w r below).Wf := wf_next trivial hb

theorem wf_resolve (ok : w.Ok) {r : Request} {below : Stack .answer} (hp : r.path = below.path) (ha : below.Asked)
    (hb : below.Wf) : (resolve w r below).Wf := by
  unfold resolve
  split
  · exact wf_serve (ha.receives _) hb
  · exact wf_fail hb
  · next c key binding located =>
    split
    · exact wf_fail hb
    · refine wf_next ⟨ha, by rw [hp], fun x hx => ?_⟩ hb
      -- A binding is sound since the registry that it was found in is; a fallback has no finalizer.
      cases binding with
      | some b =>
        obtain rfl := Option.some.inj hx
        exact ok.sound_of_locate located
      | none =>
        obtain ⟨f, _, rfl⟩ := Option.map_eq_some_iff.1 hx
        exact f.sound_unbound

theorem wf_build {b : Build} {below : Stack .answer} (h : b.Fits below) (hb : below.Wf) : (build w b below).Wf := by
  have hpath : b.path = (Stack.cons (.build b) below).path := h.path.trans (Stack.path_build b below).symm
  unfold build
  split
  · exact wf_serve (h.asked.receives _) hb
  · split
    · next f signature hm =>
      refine wf_next ⟨hpath, fun _ _ hc => (List.not_mem_nil hc).elim, rfl, _, hm, rfl⟩ ⟨h, hb⟩
    · next product input target hm =>
      refine wf_next ⟨hpath, trivial, List.mem_cons_self, by rintro _ ⟨⟩⟩ ⟨⟨b.container, rfl, _, hm, rfl⟩, h, hb⟩
    · exact wf_fail hb

theorem wf_built {b : Build} {answer : Except Failure Instance} {below : Stack .answer} (h : b.Fits below)
    (hb : below.Wf) : (built env w b answer below).Wf := by
  cases answer with
  | error => exact wf_fail hb
  | ok v => exact wf_serve (h.asked.receives v) hb

theorem wf_convert {product : Product} {input : Ty} {answer : Except Failure Instance} {below : Stack .answer}
    {c : ContainerId} (h : below.Calls c product) (hb : below.Wf) : (convert w product input answer below).Wf := by
  unfold convert
  split
  · exact wf_fail hb
  · exact wf_serve (h.receives (Supply.ty_produce _ _ _)) hb

theorem wf_filled {j : Job} {r : Except Failure (Filled × Frame)} {below : Stack .answer} (h : j.Fits below)
    (hb : below.Wf) (kept : ∀ filled f, r = .ok (filled, f) → j.frame.Kept f filled) : (filled w j r below).Wf := by
  cases r with
  | error => exact wf_fail hb
  | ok x => exact wf_next (h.fill (kept x.1 x.2 rfl)) hb

theorem wf_fill {j : Job} {below : Stack .answer} (h : j.Fits below) (hb : below.Wf) : (fill env w j below).Wf := by
  have goes := fill_cases env w j below
  generalize fill env w j below = st at goes ⊢
  cases goes with
  | calls => exact wf_next h hb
  | asks _ asked =>
    refine wf_next ⟨h.path, trivial, List.mem_cons_self, Extractor.plain_of_fallback asked⟩ ⟨?_, hb⟩
    exact h.with_frame rfl rfl rfl fun _ _ hm => .inl hm
  | fills _ _ kept => exact wf_filled h hb kept

theorem wf_slot {j : Job} {key : Key} {answer : Except Failure Instance} {below : Stack .answer} (h : j.Fits below)
    (hb : below.Wf) : (slot w j key answer below).Wf := by
  unfold slot
  split
  · exact wf_next h hb
  · exact wf_filled h hb fun _ _ hr => Frame.kept_fillWith hr

theorem wf_conclude {j : Job} {below : Stack .answer} (h : j.Fits below) (hb : below.Wf) :
    (conclude w j below).Wf := by
  unfold conclude
  dsimp only
  split
  · exact wf_fail hb
  · exact wf_fail hb
  · exact wf_serve (h.calls.receives (Supply.ty_produce _ _ _)) hb

theorem wf_body {j : Job} {ops : List Op} {below : Stack .answer} (h : j.Fits below) (hb : below.Wf) :
    (body w j ops below).Wf := by
  cases ops with
  | nil => exact wf_conclude h hb
  | cons o rest => exact wf_next h.path ⟨h, hb⟩

theorem wf_start {j : Job} {below : Stack .answer} (h : j.Fits below) (hb : below.Wf) : (start env w j below).Wf := by
  unfold start
  split
  · exact wf_body h hb
  all_goals
    split
    · exact wf_fail hb
    · exact wf_conclude h hb

theorem wf_callback {path : List Key} {ops : List Op} {ts : List Teardown} {below : Stack .done}
    (h : path = below.path) (hb : below.Wf) : (callback w path ops ts below).Wf := by
  cases ops with
  | nil => exact wf_next h hb
  | cons o rest => exact wf_next h ⟨h, hb⟩

theorem wf_windDown {path : List Key} {ts : List Teardown} {below : Stack .done} (h : path = below.path)
    (hb : below.Wf) : (windDown w path ts below).Wf := by
  unfold windDown
  split
  · exact wf_next trivial hb
  · exact wf_callback h hb
  · split
    · exact wf_callback h hb
    · exact wf_next h hb

theorem wf_terminate {c : ContainerId} {path : List Key} {r : Reply} {below : Stack .reply} (h : path = below.path)
    (hb : below.Wf) : (terminate w c path r below).Wf := wf_next h hb

theorem wf_scopeBody {scope : ContainerId} {name : String} {path : List Key} {ops : List Op} {below : Stack .reply}
    (h : path = below.path) (hb : below.Wf) : (scopeBody w scope name path ops below).Wf := by
  cases ops with
  | nil => exact wf_terminate h hb
  | cons o rest => exact wf_next h ⟨h, hb⟩

theorem wf_lasting {s : Scene} {c : ContainerId} {a : Lasting Command Op} {below : Stack .reply}
    (h : s.path = below.path) (hb : below.Wf) : (lasting env w s c a below).Wf := by
  unfold lasting
  split
  · refine wf_next ⟨h, trivial, List.mem_cons_self, fun f used => ?_⟩ hb
    split at used
    · exact Key.plain_of_fallback used
    · cases used
  · split
    · exact wf_next ⟨h, fun _ _ hc => (List.not_mem_nil hc).elim, trivial⟩ hb
    · exact wf_reply hb
  · dsimp only
    split
    · split
      · exact wf_reply hb
      · exact wf_next ⟨h, trivial, List.mem_cons_self, by rintro _ ⟨⟩⟩ hb
    · exact wf_reply hb
  · exact wf_terminate h hb
  · exact wf_scopeBody h hb
  · refine ⟨⟨trivial, hb⟩, fun t ht => ?_⟩
    obtain ⟨o, _, rfl⟩ := List.mem_map.1 ht
    exact ⟨rfl, trivial⟩

theorem wf_perform {s : Scene} {o : Op} {below : Stack .reply} (h : s.path = below.path) (hb : below.Wf) :
    (perform env w s o below).Wf := by
  cases o with
  | instant c => exact wf_reply hb
  | lasting heading action =>
    unfold perform
    dsimp only
    split
    · exact wf_lasting h hb
    · exact wf_reply hb

theorem wf_deliver {expected : Option Ty} {save : Option String} {answer : Except Failure Instance}
    {below : Stack .reply} (hb : below.Wf) : (deliver w expected save answer below).Wf := by
  unfold deliver
  split <;> exact wf_reply hb

theorem wf_answered {b : Kind} {answer : Except Failure Instance} {c : Cont .answer b} {below : Stack b}
    (h : (Stack.cons c below).Wf) : (answered env w answer c below).Wf := by
  cases c with
  | slot j key => exact wf_slot h.1 h.2
  | build b => exact wf_built h.1 h.2
  | convert product input =>
    obtain ⟨⟨c, hc⟩, hb⟩ := h
    exact wf_convert hc hb
  | deliver c expected save => exact wf_deliver h
  | observe c => exact wf_reply h

theorem wf_replied {b : Kind} {r : Reply} {c : Cont .reply b} {below : Stack b} (h : (Stack.cons c below).Wf) :
    (replied w r c below).Wf := by
  cases c with
  | body j heading rest =>
    unfold replied
    dsimp only
    split
    · exact wf_fail h.2
    · exact wf_body h.1 h.2
  | scopeBody scope name path heading rest =>
    unfold replied
    dsimp only
    split
    · exact wf_terminate h.1 h.2
    · exact wf_scopeBody h.1 h.2
  | callback path heading rest ts =>
    unfold replied
    dsimp only
    split
    · exact wf_next h.1 h.2
    · exact wf_callback h.1 h.2

theorem wf_handOver {k : Kind} {outcome : k.Outcome} {below : Stack k} (h : below.Wf) :
    (handOver env w outcome below).Wf := by
  cases below with
  | nil => exact wf_reply h
  | @cons a b c below =>
    cases c with
    | slot | build | convert | deliver | observe =>
      simp only [handOver]
      exact wf_answered h
    | body | scopeBody | callback => exact wf_replied h
    | close => exact wf_reply h

end Step

/-- Every step of a task in order leads to tasks in order. -/
theorem Task.wf_step {w : World} {env : Env} (ok : w.Ok) {t : Task} (h : t.Wf) : (t.step env w).Wf := by
  obtain ⟨k, a, below⟩ := t
  obtain ⟨ha, hb⟩ := h
  cases a with
  | resolve r => exact Step.wf_resolve ok ha.path ha.asked hb
  | line b => exact Step.wf_build ha hb
  | fill j => exact Step.wf_fill ha hb
  | pause j times =>
    cases times with
    | zero => exact Step.wf_start ha hb
    | succ n => exact Step.wf_next ha hb
  | perform s o => exact Step.wf_perform ha hb
  | windDown path ts => exact Step.wf_windDown ha hb
  | await tasks => exact Step.wf_next trivial hb
  | give outcome => exact Step.wf_handOver hb

end Injector
