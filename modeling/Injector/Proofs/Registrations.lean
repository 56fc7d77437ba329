import Injector.Proofs.Marks
/-!
# Histories of registrations

What a run registers, oldest first (`Run.registrations`). Commands register, wherever they are
performed: as operations, in bodies that cannot wait, and in hooks. `Run.registered`: what an open
container has bound under a key is what was registered with it last under that key, whatever was
registered before and whatever happened since. A scope has it bound from then on (`Moves.stays_bound`).
-/
namespace Injector

/-- A binding, the key it was registered under, as it was given, and the container. -/
structure Registration where
  container : ContainerId
  key : Key
  binding : Binding

namespace Registration

/-- What was registered last with a container under a key. -/
def last (c : ContainerId) (key : Key) (rs : List Registration) : Option Binding :=
  ((rs.filter fun r => r.container == c && r.key == key).getLast?).map Registration.binding

variable {c : ContainerId} {key : Key} {rs : List Registration} {β : Binding}

theorem last_concat (c : ContainerId) (key : Key) (rs : List Registration) (r : Registration) :
    last c key (rs ++ [r]) = if r.container = c ∧ r.key = key then some r.binding else last c key rs := by
  unfold last
  rw [List.filter_append]
  by_cases own : r.container = c ∧ r.key = key
  · simp [own]
  · rw [if_neg own, List.filter_cons_of_neg (by simpa using own), List.filter_nil, List.append_nil]

theorem exists_last (h : ⟨c, key, β⟩ ∈ rs) : ∃ β', last c key rs = some β' := by
  cases none : (rs.filter fun r => r.container == c && r.key == key).getLast? with
  | some r => exact ⟨r.binding, by rw [last, none]; rfl⟩
  | none =>
    have listed : ⟨c, key, β⟩ ∈ rs.filter fun r => r.container == c && r.key == key :=
      List.mem_filter.2 ⟨h, by simp⟩
    rw [List.getLast?_eq_none_iff.1 none] at listed
    exact (List.not_mem_nil listed).elim

theorem mem_of_last (h : last c key rs = some β) : ⟨c, key, β⟩ ∈ rs := by
  obtain ⟨r, found, rfl⟩ := Option.map_eq_some_iff.1 h
  obtain ⟨hr, own⟩ := List.mem_filter.1 (List.mem_of_getLast? found)
  simp only [Bool.and_eq_true, beq_iff_eq] at own
  rwa [← own.1, ← own.2]

end Registration

/-! ## What commands register -/

namespace World

/-- What a command registers that is performed on container `c`. -/
def instantRegistrations (p : Program) (c : ContainerId) : Instant Command Op → List Registration
  | .register key source lifetime finalizer =>
    [⟨c, key.getD (.type (source.ty p)), source.binding p lifetime finalizer⟩]
  | _ => []

/-- What a command registers. -/
def commandRegistrations (p : Program) (w : World) (self : Option ContainerId) (c : Command) : List Registration :=
  ((w.target self c.heading.target).map fun id => instantRegistrations p id c.action).getD []

/-- What commands register, one after the other. -/
def commandsRegistrations (p : Program) (held : List ContainerId) (self : Option ContainerId) :
    List Command → World → List Registration
  | [], _ => []
  | c :: rest, w =>
    let (r, w') := w.command p self c
    w.commandRegistrations p self c ++ match c.heading.stops r with
      | some _ => []
      | none => commandsRegistrations p held self rest ((w'.tell (.performed c.heading.label r)).release held)

/-- What hooks register that are shown an instance of container `c`. -/
def showRegistrations (p : Program) (held : List ContainerId) (c : ContainerId) (v : Instance) :
    List Hook → World → List Registration
  | [], _ => []
  | h :: rest, w =>
    if h.ty = v.ty then
      let told := w.tell (.hook h.script.id v (w.container c).isScope)
      commandsRegistrations p held (some c) h.script.actions told ++
        showRegistrations p held c v rest (told.commands p held (some c) h.script.actions).2
    else showRegistrations p held c v rest w

/-- What the body of a job registers whose commands are performed at once. -/
def bodyRegistrations (env : Env) (w : World) (j : Job) : List Registration :=
  match j.function.body with
  | .awaited _ _ => []
  | .blocking cs | .inline cs => w.commandsRegistrations env.program env.held j.self cs

/-- What an operation registers that is performed on container `c` and may have to wait: only the hook can that is
called at once. -/
def lastingRegistrations (env : Env) (w : World) (c : ContainerId) : Lasting Command Op → List Registration
  | .onResolved t key script =>
    let key := w.unalias (w.chain c) key
    let w := w.addHook c false key ⟨t, script⟩
    if (w.container c).cache.isResolved key.plain then
      match (w.container c).cache.get? key with
      | some v => w.showRegistrations env.program (c :: env.held) c v [⟨t, script⟩]
      | none => []
    else []
  | _ => []

end World

/-- What a step of a task registers. -/
def Task.registrations (env : Env) (w : World) : Task → List Registration
  | ⟨_, .pause j 0, _⟩ => w.bodyRegistrations env j
  | ⟨_, .perform s (.instant c), _⟩ => w.commandRegistrations env.program s.self c
  | ⟨_, .perform s (.lasting h a), _⟩ => ((w.target s.self h.target).map fun c => w.lastingRegistrations env c a).getD []
  | ⟨_, .give (k := .answer) (.ok v), .cons (.build b) _⟩ =>
    (w.record b v).showRegistrations env.program env.held b.container v ((w.record b v).hooksFor b)
  | _ => []

/-! ## What registrations account for -/

namespace World

/-- Whether what the open containers have bound is what was registered with them last. A binding for scopes a container
has itself only if it is a scope. -/
structure RegisteredBy (w : World) (rs : List Registration) : Prop where
  known : ∀ r ∈ rs, r.container < w.containers.length
  bound : ∀ {c}, w.Alive c → ∀ {key β}, Registration.last c key rs = some β → (w.container c).registry.get? key =
    if β.lifetime.inScopes && !(w.container c).registry.inScope then none else some β

/-- Whether these registrations account for what became of a world. -/
def Binds (w : World) (rs : List Registration) (w' : World) : Prop :=
  ∀ rs₀, w.RegisteredBy rs₀ → w'.RegisteredBy (rs₀ ++ rs)

/-- Whether containers that stay open keep what they have bound. Others may be opened, and some ended. -/
structure KeepsBound (w w' : World) : Prop where
  length : w.containers.length ≤ w'.containers.length
  same : ∀ {c}, c < w.containers.length → w'.Alive c → w.Alive c ∧
    (w'.container c).registry.own = (w.container c).registry.own ∧
    (w'.container c).registry.inScope = (w.container c).registry.inScope

variable {p : Program} {held : List ContainerId} {w w' w'' : World} {rs rs' : List Registration} {c : ContainerId}

namespace KeepsBound

theorem trans (h : w.KeepsBound w') (h' : w'.KeepsBound w'') : w.KeepsBound w'' where
  length := Nat.le_trans h.length h'.length
  same opened alive := by
    obtain ⟨alive, own, scope⟩ := h'.same (Nat.lt_of_lt_of_le opened h.length) alive
    obtain ⟨alive, own', scope'⟩ := h.same opened alive
    exact ⟨alive, own.trans own', scope.trans scope'⟩

theorem of_containers (same : w'.containers = w.containers) : w.KeepsBound w' := by
  have container : ∀ c, w'.container c = w.container c := fun c => by rw [World.container, World.container, same]
  refine ⟨Nat.le_of_eq (congrArg _ same.symm), fun {c} opened alive => ?_⟩
  rw [container]
  exact ⟨⟨opened, container c ▸ alive.2⟩, rfl, rfl⟩

theorem refl (w : World) : w.KeepsBound w := .of_containers rfl

theorem tell (w : World) (e : Event) : w.KeepsBound (w.tell e) := .of_containers rfl

theorem save (w : World) (name : Option String) (v : Instance) : w.KeepsBound (w.save name v) := by
  cases name <;> exact .of_containers rfl

theorem modify (w : World) (c : ContainerId) {f : Container → Container} (live : ∀ x, (f x).live = x.live)
    (own : ∀ x, (f x).registry.own = x.registry.own) (scope : ∀ x, (f x).registry.inScope = x.registry.inScope) :
    w.KeepsBound (w.modify c f) where
  length := Nat.le_of_eq (length_containers_modify w c f).symm
  same {d} opened alive := ⟨⟨opened, (field_modify Container.live w c d f live).symm.trans alive.2⟩,
    field_modify (·.registry.own) w c d f own, field_modify (·.registry.inScope) w c d f scope⟩

theorem add (w : World) (x : Container) : w.KeepsBound (w.add x).2 where
  length := by simp [World.add]
  same opened alive := by
    have same := container_add_of_lt w x opened
    rw [same]
    exact ⟨⟨opened, same ▸ alive.2⟩, rfl, rfl⟩

theorem openScope (w : World) (c : ContainerId) (name : String) :
    w.KeepsBound ((w.openScope c).2.giveName name (w.openScope c).1) :=
  (add w _).trans (.of_containers rfl)

theorem release (w : World) (held : List ContainerId) : w.KeepsBound (w.release held) where
  length := Nat.le_of_eq (length_release w held).symm
  same _ alive := by
    obtain ⟨alive, -, same⟩ := Ok.of_alive_release alive
    rw [same]
    exact ⟨alive, rfl, rfl⟩

theorem terminate (w : World) (c : ContainerId) : w.KeepsBound (w.terminate c).2 := by
  have cleared : w.KeepsBound (w.modifyCallbacks c Callbacks.clearTerminating) :=
    modify w c (fun _ => rfl) (fun _ => rfl) fun _ => rfl
  exact cleared.trans (modify _ c (fun _ => rfl) (fun _ => rfl) fun _ => rfl)

theorem record (w : World) (b : Build) (v : Instance) : w.KeepsBound (w.record b v) := by
  have cached : w.KeepsBound (w.modifyCache b.container fun x =>
      (if b.lifetime.cached then x.insert b.key v else x).markResolved b.key.plain) :=
    modify w b.container (fun _ => rfl) (fun _ => rfl) fun _ => rfl
  unfold World.record
  dsimp only
  split
  · exact cached.trans (modify _ _ (fun _ => rfl) (fun _ => rfl) fun _ => rfl)
  · exact cached

end KeepsBound

namespace Binds

theorem trans (h : w.Binds rs w') (h' : w'.Binds rs' w'') : w.Binds (rs ++ rs') w'' := by
  intro rs₀ registered
  rw [← List.append_assoc]
  exact h' _ (h _ registered)

/-- A new container has nothing registered yet. -/
theorem of_keeps (h : w.KeepsBound w') : w.Binds [] w' := by
  intro rs₀ registered
  rw [List.append_nil]
  refine ⟨fun r hr => Nat.lt_of_lt_of_le (registered.known r hr) h.length, fun {c} alive key β last => ?_⟩
  obtain ⟨alive, own, scope⟩ := h.same (registered.known _ (Registration.mem_of_last last)) alive
  rw [Registry.get?, own, scope]
  exact registered.bound alive last

theorem keeps (h : w.Binds rs w') (h' : w'.KeepsBound w'') : w.Binds rs w'' :=
  List.append_nil rs ▸ h.trans (.of_keeps h')

theorem register (alive : w.Alive c) (key : Key) (β : Binding) :
    w.Binds [⟨c, key, β⟩] (w.modifyRegistry c fun r => r.insert key β) := by
  intro rs registered
  constructor
  case known =>
    intro r hr
    rw [World.modifyRegistry, length_containers_modify]
    rcases List.mem_append.1 hr with hr | hr
    · exact registered.known r hr
    · obtain rfl := List.mem_singleton.1 hr
      exact alive.1
  case bound =>
    intro d hd key' β' last
    rw [Registration.last_concat] at last
    have before : w.Alive d := ⟨by simpa [World.modifyRegistry] using hd.1, by simpa using hd.2⟩
    rw [World.modifyRegistry, container_modify]
    by_cases here : c = d
    · subst here
      rw [if_pos ⟨rfl, alive.1⟩]
      dsimp only
      rw [Registry.inScope_insert]
      by_cases own : key = key'
      · subst own
        rw [if_pos ⟨rfl, rfl⟩] at last
        cases last
        exact Registry.get?_insert_self _ _ _
      · rw [if_neg fun both => own both.2] at last
        rw [Registry.get?_insert_of_ne _ _ own]
        exact registered.bound before last
    · rw [if_neg fun both => here both.1] at last ⊢
      exact registered.bound before last

end Binds

/-! ## Commands -/

theorem binds_instant {c : ContainerId} (alive : w.Alive c) (target : String) (a : Instant Command Op) :
    w.Binds (instantRegistrations p c a) (w.instant p c target a).2 := by
  cases a with
  | register key source lifetime finalizer => exact .register alive _ _
  | openRoot name => exact .of_keeps ((KeepsBound.add w {}).trans (.of_containers rfl))
  | openScope name => exact .of_keeps (.openScope w c name)
  | pin key value =>
    have made : w.KeepsBound (w.supplied (value.makeOwn w.saved)).2 := .of_containers rfl
    exact .of_keeps (made.trans (.modify _ c (fun _ => rfl) (fun _ => rfl) fun _ => rfl))
  | addAlias | afterResolving | terminating =>
    exact .of_keeps (.modify w c (fun _ => rfl) (fun _ => rfl) fun _ => rfl)
  | same a b =>
    unfold instant
    dsimp only
    split <;> exact .of_keeps (.refl w)
  | clone | drop | arguments | signature | read => exact .of_keeps (.of_containers rfl)
  | isScope | bound | describe | compare | lifetime | parameters => exact .of_keeps (.refl w)

theorem binds_command (ok : w.Ok) {self : Option ContainerId} (hself : ∀ c, self = some c → w.Alive c) (c : Command) :
    w.Binds (w.commandRegistrations p self c) (w.command p self c).2 := by
  unfold command commandRegistrations
  split
  · next opens =>
    rw [opens]
    cases w.target self c.heading.target <;> exact .of_keeps ((KeepsBound.add w {}).trans (.of_containers rfl))
  · next found _ =>
    rw [found]
    exact binds_instant (alive_target ok hself found) _ _
  · next none _ =>
    rw [none]
    exact .of_keeps (.refl w)

theorem binds_commands {self : Option ContainerId} (cs : List Command) : ∀ {w : World}, w.Ok →
    (∀ c, self = some c → c ∈ held ∧ w.Alive c) →
      w.Binds (w.commandsRegistrations p held self cs) (w.commands p held self cs).2 := by
  induction cs with
  | nil => exact fun _ _ => .of_keeps (.refl _)
  | cons c rest ih =>
    intro w ok hself
    have alive : ∀ d, self = some d → w.Alive d := fun d hd => (hself d hd).2
    have edits : w.Edits p held (((w.command p self c).2.tell
        (.performed c.heading.label (w.command p self c).1)).release held) :=
      (command_edits ok alive c).tail (.tell _) |>.tail .release
    have first : w.Binds (w.commandRegistrations p self c) (((w.command p self c).2.tell
        (.performed c.heading.label (w.command p self c).1)).release held) :=
      (binds_command ok alive c).keeps ((KeepsBound.tell _ _).trans (.release _ held))
    have hself' := fun d hd => (⟨(hself d hd).1, edits.alive_held (hself d hd).2 (hself d hd).1⟩ : d ∈ held ∧ _)
    unfold commands commandsRegistrations
    dsimp only
    cases c.heading.stops (w.command p self c).1 with
    | some failure => exact (List.append_nil _).symm ▸ first
    | none => exact first.trans (ih (edits.ok ok) hself')

theorem binds_showTo {c : ContainerId} (hc : c ∈ held) (v : Instance) (hooks : List Hook) : ∀ {w : World}, w.Ok →
    w.Alive c → w.Binds (w.showRegistrations p held c v hooks) (w.showTo p held c v hooks) := by
  induction hooks with
  | nil => exact fun _ _ => .of_keeps (.refl _)
  | cons h rest ih =>
    intro w ok alive
    unfold showTo showRegistrations
    split
    · have told : w.Edits p held (w.tell (.hook h.script.id v (w.container c).isScope)) := .single (.tell _)
      have hself : ∀ d, some c = some d → d ∈ held ∧ (w.tell (.hook h.script.id v (w.container c).isScope)).Alive d := by
        rintro d ⟨⟩
        exact ⟨hc, alive⟩
      have done := commands_edits (p := p) h.script.actions (told.ok ok) hself
      have called := (Binds.of_keeps (.tell w _)).trans (binds_commands (p := p) h.script.actions (told.ok ok) hself)
      exact called.trans (ih (done.ok (told.ok ok)) (done.alive_held alive hc))
    · exact ih ok alive

end World

/-! ## Steps that register nothing -/

namespace Step

variable {env : Env} (w : World)

theorem keepsBound_conclude (j : Job) (below : Stack .answer) : w.KeepsBound (conclude w j below).world := by
  have invoked : w.KeepsBound (w.invoke j.function.name).2 := .of_containers rfl
  unfold conclude
  dsimp only
  split <;> exact invoked.trans (.of_containers rfl)

theorem keepsBound_resolve (r : Request) (below : Stack .answer) : w.KeepsBound (resolve w r below).world := by
  unfold resolve
  split
  · exact .refl w
  · exact .refl w
  · next c key _ _ =>
    split
    · exact .refl w
    · have locked : w.KeepsBound (w.modifyLocks c fun _ => ((w.container c).locks.enter key w.tickets).2) :=
        .modify w c (fun _ => rfl) (fun _ => rfl) fun _ => rfl
      exact locked.trans (.of_containers rfl)

theorem keepsBound_leave (b : Build) : w.KeepsBound (w.leave b) := .modify w _ (fun _ => rfl) (fun _ => rfl) fun _ => rfl

theorem keepsBound_build (b : Build) (below : Stack .answer) : w.KeepsBound (build (w.letIn b) b below).world := by
  have entered : w.KeepsBound (w.letIn b) := .modify w _ (fun _ => rfl) (fun _ => rfl) fun _ => rfl
  unfold build
  split
  · exact entered.trans (keepsBound_leave _ b)
  · split
    · exact entered.trans (.of_containers rfl)
    · exact entered
    · exact entered.trans (keepsBound_leave _ b)

theorem keepsBound_filled (j : Job) (r : Except Failure (Filled × Frame)) (below : Stack .answer) :
    w.KeepsBound (filled w j r below).world := by
  cases r <;> exact .refl w

theorem keepsBound_fill (j : Job) (below : Stack .answer) : w.KeepsBound (fill env w j below).world := by
  have goes := fill_cases env w j below
  generalize fill env w j below = st at goes ⊢
  cases goes with
  | calls | asks => exact .refl w
  | fills _ world =>
    rcases world with rfl | ⟨positional, keyword, rfl⟩
    · exact keepsBound_filled _ _ _ _
    · have made : w.KeepsBound (w.makeArguments positional keyword).2 := .of_containers rfl
      exact made.trans (keepsBound_filled _ _ _ _)

theorem keepsBound_callback (path : List Key) (ops : List Op) (ts : List Teardown) (below : Stack .done) :
    w.KeepsBound (callback w path ops ts below).world := by
  cases ops <;> exact .refl w

theorem keepsBound_windDown (path : List Key) (ts : List Teardown) (below : Stack .done) :
    w.KeepsBound (windDown w path ts below).world := by
  unfold windDown
  split
  · exact .refl w
  · exact (World.KeepsBound.tell w _).trans (keepsBound_callback _ _ _ _ _)
  · split
    · exact (World.KeepsBound.tell w _).trans (keepsBound_callback _ _ _ _ _)
    · exact .refl w

theorem keepsBound_terminate (c : ContainerId) (path : List Key) (r : Reply) (below : Stack .reply) :
    w.KeepsBound (terminate w c path r below).world := World.KeepsBound.terminate w c

theorem keepsBound_scopeBody (scope : ContainerId) (name : String) (path : List Key) (ops : List Op) (below : Stack .reply) :
    w.KeepsBound (scopeBody w scope name path ops below).world := by
  cases ops with
  | nil =>
    have forgot : w.KeepsBound (w.forget name) := .of_containers rfl
    exact forgot.trans (.terminate _ scope)
  | cons => exact .refl w

theorem keepsBound_convert (product : Product) (input : Ty) (answer : Except Failure Instance) (below : Stack .answer) :
    w.KeepsBound (convert w product input answer below).world := by
  unfold convert
  split
  · exact .refl w
  · exact .of_containers rfl

theorem keepsBound_slot (j : Job) (key : Key) (answer : Except Failure Instance) (below : Stack .answer) :
    w.KeepsBound (slot w j key answer below).world := by
  unfold slot
  split
  · exact .refl w
  · exact keepsBound_filled _ _ _ _

theorem keepsBound_deliver (expected : Option Ty) (save : Option String) (answer : Except Failure Instance)
    (below : Stack .reply) : w.KeepsBound (deliver w expected save answer below).world := by
  unfold deliver
  split
  · exact .save w save _
  · exact .refl w

theorem keepsBound_replied {k : Kind} (r : Reply) (x : Cont .reply k) (below : Stack k) :
    w.KeepsBound (replied w r x below).world := by
  have told : ∀ e, w.KeepsBound (w.tell e) := .tell w
  cases x with
  | body j h rest =>
    unfold replied
    dsimp only
    split
    · exact told _
    · cases rest with
      | nil => exact (told _).trans (keepsBound_conclude _ _ _)
      | cons => exact told _
  | scopeBody scope name path h rest =>
    unfold replied
    dsimp only
    split
    · have forgot : w.KeepsBound ((w.tell (.performed h.label r)).forget name) := (told (.performed h.label r)).trans (.of_containers rfl)
      exact forgot.trans (keepsBound_terminate _ _ _ _ _)
    · exact (told _).trans (keepsBound_scopeBody _ _ _ _ _ _)
  | callback path h rest ts =>
    unfold replied
    dsimp only
    split
    · exact told _
    · exact (told _).trans (keepsBound_callback _ _ _ _ _)

/-! ## Steps that may register -/

variable {w}

theorem binds_start {j : Job} {below : Stack .answer} (ok : w.Ok)
    (hself : ∀ c, j.self = some c → c ∈ env.held ∧ w.Alive c) :
    w.Binds (w.bodyRegistrations env j) (start env w j below).world := by
  have commands : ∀ cs, w.Binds (w.commandsRegistrations env.program env.held j.self cs)
      (w.commands env.program env.held j.self cs).2 := fun cs => World.binds_commands cs ok hself
  unfold World.bodyRegistrations start
  cases j.function.body with
  | awaited yields ops =>
    cases ops with
    | nil => exact .of_keeps (keepsBound_conclude w j below)
    | cons => exact .of_keeps (.refl w)
  | blocking cs | inline cs =>
    dsimp only
    have done := commands cs
    split
    · next stops => rw [stops] at done; exact done
    · next goes => rw [goes] at done; exact done.keeps (keepsBound_conclude _ j below)

theorem binds_lasting {s : Scene} {c : ContainerId} (ok : w.Ok) (alive : w.Alive c) (a : Lasting Command Op)
    (below : Stack .reply) : w.Binds (w.lastingRegistrations env c a) (lasting env w s c a below).world := by
  cases a with
  | get | join => exact .of_keeps (.refl w)
  | call function positional keyword save =>
    unfold lasting
    dsimp only
    split <;> exact .of_keeps (.of_containers rfl)
  | terminate => exact .of_keeps (.terminate w c)
  | scope name ops => exact .of_keeps ((World.KeepsBound.openScope w c name).trans (keepsBound_scopeBody _ _ _ _ _ _))
  | onResolved t key script =>
    let key := w.unalias (w.chain c) key
    let w' := w.addHook c false key ⟨t, script⟩
    have added : w.KeepsBound w' := .modify w c (fun _ => rfl) (fun _ => rfl) fun _ => rfl
    have edits : w.Edits env.program (c :: env.held) w' := .single (.addHook alive false _ _)
    simp only [lasting, World.lastingRegistrations]
    by_cases resolved : (w'.container c).cache.isResolved key.plain = true
    · rw [if_pos resolved, if_pos resolved]
      cases (w'.container c).cache.get? key with
      | some v =>
        have shown := World.binds_showTo (p := env.program) (List.mem_cons_self (l := env.held)) v [⟨t, script⟩]
          (edits.ok ok) (edits.alive_held alive List.mem_cons_self)
        exact (World.Binds.of_keeps added).trans shown
      | none => exact .of_keeps added
    · rw [if_neg resolved, if_neg resolved]
      exact .of_keeps added

theorem binds_perform {s : Scene} {o : Op} {below : Stack .reply} (ok : w.Ok)
    (hself : ∀ c, s.self = some c → w.Alive c) :
    w.Binds (Task.registrations env w ⟨.reply, .perform s o, below⟩) (perform env w s o below).world := by
  cases o with
  | instant c => exact World.binds_command ok hself c
  | lasting h a =>
    unfold Task.registrations perform
    dsimp only
    cases found : w.target s.self h.target with
    | none => exact .of_keeps (.refl w)
    | some c => exact binds_lasting ok (World.alive_target ok hself found) a below

theorem binds_built {b : Build} {answer : Except Failure Instance} {below : Stack .answer} (ok : w.Ok)
    (alive : w.Alive b.container) (held : b.container ∈ env.held) :
    w.Binds (Task.registrations env w ⟨.answer, .give answer, .cons (.build b) below⟩) (built env w b answer below).world := by
  cases answer with
  | error f => exact .of_keeps (keepsBound_leave w b)
  | ok v =>
    have shown := World.binds_showTo (p := env.program) held v ((w.record b v).hooksFor b) (ok_record v ok alive)
      (alive_record v alive)
    exact ((World.Binds.of_keeps (.record w b v)).trans shown).keeps (keepsBound_leave _ b)

theorem binds_handOver {k : Kind} {outcome : k.Outcome} {below : Stack k} (ok : w.Ok)
    (alive : ∀ c ∈ below.held, w.Alive c) (hh : ∀ c ∈ below.held, c ∈ env.held) :
    w.Binds (Task.registrations env w ⟨k, .give outcome, below⟩) (handOver env w outcome below).world := by
  cases below with
  | nil => exact .of_keeps (.refl w)
  | cons x below =>
    cases x with
    | build b => exact binds_built ok (alive _ List.mem_cons_self) (hh _ List.mem_cons_self)
    | slot j key => cases outcome <;> exact .of_keeps (keepsBound_slot _ _ _ _ _)
    | convert product input => cases outcome <;> exact .of_keeps (keepsBound_convert _ _ _ _ _)
    | deliver c expected save => cases outcome <;> exact .of_keeps (keepsBound_deliver _ _ _ _ _)
    | observe => cases outcome <;> exact .of_keeps (.refl w)
    | body | scopeBody | callback => exact .of_keeps (keepsBound_replied _ _ _ _)
    | close => exact .of_keeps (.refl w)

end Step

/-- What a step registers accounts for what becomes of the world. -/
theorem Task.binds_step {w : World} (env : Env) {t : Task} (ok : w.Ok) (wf : t.Wf) (alive : ∀ c ∈ t.held, w.Alive c)
    (hh : ∀ c ∈ t.held, c ∈ env.held) : w.Binds (t.registrations env w) (t.step env w).world := by
  obtain ⟨k, a, below⟩ := t
  cases a with
  | resolve r => exact .of_keeps (Step.keepsBound_resolve w r below)
  | line b => exact .of_keeps (Step.keepsBound_build w b below)
  | fill j => exact .of_keeps (Step.keepsBound_fill w j below)
  | pause j times =>
    cases times with
    | zero =>
      refine Step.binds_start ok fun c hc => ?_
      obtain rfl := Job.Fits.self_eq wf.activity hc
      exact ⟨hh _ List.mem_cons_self, alive _ List.mem_cons_self⟩
    | succ => exact .of_keeps (.refl w)
  | perform s o =>
    exact Step.binds_perform ok fun c hc => alive c (List.mem_append_left _ (Option.mem_toList.2 hc))
  | windDown path ts => exact .of_keeps (Step.keepsBound_windDown w path ts below)
  | await => exact .of_keeps (.refl w)
  | give outcome =>
    exact Step.binds_handOver ok (fun c hc => alive c (List.mem_append_right _ hc))
      fun c hc => hh c (List.mem_append_right _ hc)

/-! ## Runs -/

namespace System

variable {p : Program} {s s' : System}

/-- What the running task registers in its next step. -/
def registrations (p : Program) (s : System) : List Registration :=
  (s.current.map (Task.registrations ⟨p, s.held, s.tasks.length⟩ s.world)).getD []

/-- Who is over or has to wait registers nothing. -/
theorem Halts.registrations_eq (h : s.Halts) : s.registrations p = [] := by
  cases current : s.current with
  | none => rw [registrations, current]; rfl
  | some t =>
    obtain ⟨i, running, found⟩ := exists_of_current current
    rw [registrations, current]
    rcases h i t running found with ⟨r, rfl⟩ | ⟨b, below, rfl, -⟩ | ⟨ts, below, rfl⟩ <;> rfl

theorem keepsBound_settled (w : World) (ts : List Task) : w.KeepsBound (settledWorld w ts) :=
  (World.KeepsBound.release w _).trans (.of_containers rfl)

/-- What a move registers accounts for what becomes of the world. -/
theorem Moves.binds (h : s.Moves p s') (reached : Reachable p s) : s.world.Binds (s.registrations p) s'.world := by
  rcases h.cases with ⟨i, t, st, running, found, takes, world, -⟩ | ⟨halts, world, -⟩ | ⟨idle, outside⟩
  · have ht := List.mem_of_getElem? found
    have stepped : s.world.Binds (s.registrations p) st.world := by
      rw [registrations, current_eq running found]
      cases takes with
      | step =>
        exact Task.binds_step _ reached.sound.ok (reached.sound.wf t ht) (reached.sound.alive t ht) (held_of_mem ht)
      | joined => exact .of_keeps (.refl _)
    rw [world, world_put]
    exact stepped.keeps (keepsBound_settled _ _)
  · rw [halts.registrations_eq, world]
    exact .of_keeps (.refl _)
  · rw [(Halts.of_idle idle).registrations_eq]
    rcases outside with ⟨o, world, -⟩ | ⟨name, rfl⟩ | ⟨-, rfl⟩
    · rw [world]
      exact .of_keeps (keepsBound_settled s.world s.tasks)
    · have forgot : s.world.KeepsBound (s.world.forget name) := .of_containers rfl
      exact .of_keeps (forgot.trans (keepsBound_settled _ s.tasks))
    · exact .of_keeps (.of_containers rfl)

/-- What a scope has bound it has bound from then on. -/
theorem Moves.stays_bound (h : s.Moves p s') (reached : Reachable p s) {c : ContainerId} {key : Key}
    (bound : (s.world.container c).registry.get? key ≠ none) (alive : s'.world.Alive c)
    (scope : (s'.world.container c).bases ≠ []) : (s'.world.container c).registry.get? key ≠ none := by
  have before : s.world.Alive c := by
    constructor
    · by_contra unknown
      exact bound (by rw [World.container_of_ge (Nat.not_lt.1 unknown)]; rfl)
    · by_contra dead
      exact bound (by rw [reached.sound.ok.ended c (Bool.eq_false_iff.2 dead)]; rfl)
  have inScope : ∀ {w : World}, w.Ok → w.Alive c → (w.container c).bases ≠ [] → (w.container c).registry.inScope = true := by
    intro w ok alive scope
    rw [(ok.registry c alive.2).inScope, Container.isScope]
    simpa using scope
  obtain ⟨β, bound⟩ := Option.ne_none_iff_exists'.1 bound
  -- It is as if the binding had just been registered.
  have registered : s.world.RegisteredBy [⟨c, key, β⟩] := by
    refine ⟨fun r hr => List.mem_singleton.1 hr ▸ before.1, fun {c'} _ {key' β'} last => ?_⟩
    cases List.mem_singleton.1 (Registration.mem_of_last last)
    rw [inScope reached.sound.ok before ((h.change reached).bases_eq before.1 ▸ scope), bound]
    simp
  have after := h.binds reached _ registered
  obtain ⟨β', last⟩ := Registration.exists_last (List.mem_append_left (s.registrations p) (List.mem_singleton_self _))
  rw [after.bound alive last, inScope (reached.move h).sound.ok alive scope]
  simp

namespace Run

/-- What is registered in the moves before state `n`. -/
def registrations (run : Run p) (n : Nat) : List Registration :=
  (List.range n).flatMap fun m => (run.state m).registrations p

theorem registrations_succ (run : Run p) (n : Nat) :
    run.registrations (n + 1) = run.registrations n ++ (run.state n).registrations p := by
  rw [registrations, List.range_succ, List.flatMap_append, List.flatMap_singleton, registrations]

/-- In every run, what an open container has bound under a key is what was registered with it last under that key. -/
theorem registered (run : Run p) (n : Nat) : (run.state n).world.RegisteredBy (run.registrations n) := by
  induction n with
  | zero =>
    refine ⟨fun _ hr => (List.not_mem_nil hr).elim, fun _ key β last => ?_⟩
    cases last
  | succ n ih =>
    rw [registrations_succ]
    rcases run.moves n with moves | ⟨idle, same⟩
    · exact moves.binds (run.reachable n) _ ih
    · rw [(Halts.of_idle idle).registrations_eq, same, List.append_nil]
      exact ih

end Run

end System

end Injector
