import Injector.Proofs.Histories
import Injector.Proofs.Leftovers
import Injector.Proofs.Records
/-!
# What is noted of steps

The marks of a step are read off what it does (`Task.marks`), and the history of a run is the marks
of its moves (`Run.history`). `Run.accounted`: at any time the callbacks of the open containers
are what the history says. `Run.told`: the hooks that a move tells of are those it has marks of.
`World.Leaves`: they also say what the containers left that were ended meanwhile.
-/
namespace Injector

/-! ## Marks of commands -/

namespace World

/-- The mark of a hook that is registered. -/
def hookMark (w : World) (c : ContainerId) (inScopes : Bool) (key : Key) (h : Hook) : Mark :=
  .hook c inScopes (w.unalias (w.chain c) key) h

/-- The marks of what a command does to container `c`. -/
def instantMarks (w : World) (c : ContainerId) : Instant Command Op → List Mark
  | .openScope _ => [.opened c (w.openScope c).1]
  | .afterResolving inScopes t key hook => [w.hookMark c inScopes key ⟨t, hook⟩]
  | .terminating inScopes callback => [.callback c inScopes callback]
  | _ => []

/-- The marks of a command. -/
def commandMarks (w : World) (self : Option ContainerId) (c : Command) : List Mark :=
  ((w.target self c.heading.target).map fun id => w.instantMarks id c.action).getD []

/-- The marks of commands, one after the other. -/
def commandsMarks (p : Program) (held : List ContainerId) (self : Option ContainerId) : List Command → World → List Mark
  | [], _ => []
  | c :: rest, w =>
    let (r, w') := w.command p self c
    w.commandMarks self c ++ match c.heading.stops r with
      | some _ => []
      | none => commandsMarks p held self rest ((w'.tell (.performed c.heading.label r)).release held)

/-- The marks of hooks that are shown an instance of container `c`. -/
def showMarks (p : Program) (held : List ContainerId) (c : ContainerId) (v : Instance) : List Hook → World → List Mark
  | [], _ => []
  | h :: rest, w =>
    .called c (w.container c).isScope h v ::
      if h.ty = v.ty then
        let told := w.tell (.hook h.script.id v (w.container c).isScope)
        commandsMarks p held (some c) h.script.actions told ++
          showMarks p held c v rest (told.commands p held (some c) h.script.actions).2
      else showMarks p held c v rest w

/-- The marks of the start of a body, whose commands are performed at once. -/
def bodyMarks (env : Env) (w : World) (j : Job) : List Mark :=
  match j.function.body with
  | .awaited _ _ => []
  | .blocking cs | .inline cs => w.commandsMarks env.program env.held j.self cs

/-- The marks of an operation on container `c` that may have to wait. -/
def lastingMarks (env : Env) (w : World) (c : ContainerId) : Lasting Command Op → List Mark
  | .onResolved t key script =>
    let key := w.unalias (w.chain c) key
    let hook : Hook := ⟨t, script⟩
    let w' := w.addHook c false key hook
    w.hookMark c false key hook :: (if (w'.container c).cache.isResolved key.plain then
      match (w'.container c).cache.get? key with
      | some v => w'.showMarks env.program (c :: env.held) c v [hook]
      | none => []
    else [])
  | .terminate => [.terminated c]
  | .scope _ ops =>
    .opened c (w.openScope c).1 :: (if ops.isEmpty then [.terminated (w.openScope c).1] else [])
  | _ => []

end World

/-- The marks of a step of a task. -/
def Task.marks (env : Env) (w : World) : Task → List Mark
  | ⟨_, .pause j 0, _⟩ => w.bodyMarks env j
  | ⟨_, .perform s (.instant c), _⟩ => w.commandMarks s.self c
  | ⟨_, .perform s (.lasting h a), _⟩ => ((w.target s.self h.target).map fun c => w.lastingMarks env c a).getD []
  | ⟨_, .give (k := .answer) (.ok v), .cons (.build b) _⟩ =>
    .built b v :: (w.record b v).showMarks env.program env.held b.container v ((w.record b v).hooksFor b)
  | ⟨_, .give (k := .reply) r, .cons (.scopeBody scope _ _ h rest) _⟩ =>
    if (h.stops r).isSome || rest.isEmpty then [.terminated scope] else []
  | _ => []

/-! ## Which marks there are -/

/-- Whether a mark is that of what a command does. -/
def Mark.isCommand : Mark → Bool
  | .opened _ _ | .callback _ _ _ | .hook _ _ _ _ => true
  | _ => false

namespace World

theorem isCommand_of_instant {w : World} {c : ContainerId} {a : Instant Command Op} :
    ∀ m ∈ w.instantMarks c a, m.isCommand = true := by
  intro m hm
  cases a <;> simp_all [instantMarks, hookMark, Mark.isCommand]

theorem isCommand_of_command {w : World} {self : Option ContainerId} {c : Command} :
    ∀ m ∈ w.commandMarks self c, m.isCommand = true := by
  intro m hm
  unfold commandMarks at hm
  cases target : w.target self c.heading.target <;> rw [target] at hm
  · cases hm
  · exact isCommand_of_instant m hm

theorem isCommand_of_commands {p : Program} {held : List ContainerId} {self : Option ContainerId} {cs : List Command} :
    ∀ {w : World}, ∀ m ∈ w.commandsMarks p held self cs, m.isCommand = true := by
  induction cs with
  | nil => exact fun m hm => (List.not_mem_nil hm).elim
  | cons c rest ih =>
    intro w m hm
    rcases List.mem_append.1 hm with hm | hm
    · exact isCommand_of_command m hm
    · split at hm
      · cases hm
      · exact ih m hm

/-- All hooks are called with an instance that is shown to them. -/
theorem called_of_show {p : Program} {held : List ContainerId} {c : ContainerId} {v : Instance} {hooks : List Hook} :
    ∀ {w : World}, ∀ m ∈ w.showMarks p held c v hooks,
      m.isCommand = true ∨ ∃ inScope, ∃ h ∈ hooks, m = .called c inScope h v := by
  induction hooks with
  | nil => exact fun m hm => (List.not_mem_nil hm).elim
  | cons h rest ih =>
    intro w m hm
    have later : ∀ {w : World}, m ∈ w.showMarks p held c v rest →
        m.isCommand = true ∨ ∃ inScope, ∃ h' ∈ h :: rest, m = .called c inScope h' v := by
      intro w hm
      exact (ih m hm).imp_right fun ⟨inScope, h', hh, called⟩ => ⟨inScope, h', List.mem_cons_of_mem _ hh, called⟩
    rcases List.mem_cons.1 hm with rfl | hm
    · exact .inr ⟨_, h, List.mem_cons_self, rfl⟩
    · split at hm
      · rcases List.mem_append.1 hm with hm | hm
        · exact .inl (isCommand_of_commands m hm)
        · exact later hm
      · exact later hm

end World

/-- What is built was in hand. -/
theorem Task.hand_of_built {env : Env} {w : World} {t : Task} {b : Build} {v : Instance} (h : .built b v ∈ t.marks env w) :
    t.hand? = some (b, v) := by
  have command : ∀ {ms : List Mark}, (∀ m ∈ ms, m.isCommand = true) → .built b v ∉ ms := fun all hm => nomatch all _ hm
  unfold Task.marks at h
  split at h
  · next j _ =>
    unfold World.bodyMarks at h
    split at h
    · cases h
    all_goals exact (command World.isCommand_of_commands h).elim
  · exact (command World.isCommand_of_command h).elim
  · next s heading a _ =>
    cases target : w.target s.self heading.target with
    | none =>
      rw [target] at h
      cases h
    | some c =>
      rw [target] at h
      cases a with
      | get | call | join => cases h
      | terminate => simp [World.lastingMarks] at h
      | scope name ops => cases ops <;> simp [World.lastingMarks] at h
      | onResolved t key script =>
        rcases List.mem_cons.1 h with h | h
        · cases h
        · split at h
          · split at h
            · rcases World.called_of_show _ h with h | ⟨_, _, _, h⟩ <;> cases h
            · cases h
          · cases h
  · rcases List.mem_cons.1 h with h | h
    · cases h
      rfl
    · rcases World.called_of_show _ h with h | ⟨_, _, _, h⟩ <;> cases h
  · split at h
    · simp at h
    · cases h
  · cases h

/-! ## What marks account for -/

/-- Whether a container left what a history says it has to do. -/
def Leftover.Due (e : Leftover) (H : List Mark) : Prop :=
  e.teardowns = History.due e.container (H.any (Mark.opens e.container)) H

/-- Marks about other containers leave it so. -/
theorem Leftover.Due.others {e : Leftover} {H ms : List Mark} (h : e.Due H) (other : ∀ m ∈ ms, m.about ≠ some e.container) :
    e.Due (H ++ ms) := by
  have unopened : ms.any (Mark.opens e.container) = false :=
    List.any_eq_false.2 fun m hm => Bool.eq_false_iff.1 (Mark.closed_of_about (other m hm)).1
  rw [Due, List.any_append, unopened, Bool.or_false, History.due_others other]
  exact h

namespace World

/-- Whether a history accounts for the bases and the callbacks of the open containers. All that is noted before a scope is
opened is of containers with lower numbers. -/
structure AccountedBy (w : World) (H : List Mark) : Prop where
  known : ∀ m ∈ H, ∀ c ∈ m.containers, c < w.containers.length
  fresh : H.Pairwise fun m m' => ∀ c, m'.opens c = true → ∀ d ∈ m.containers, d < c
  opened : ∀ c, w.Alive c → ∀ b, (w.container c).bases.head? = some b ↔ .opened b c ∈ H
  follows : ∀ c, w.Alive c → (w.container c).callbacks.Follows c (w.container c).isScope H

/-- Whether these are the containers that were ended meanwhile, and left what the marks say. The marks are about
containers that were not ended before. -/
structure Leaves (w : World) (ms : List Mark) (es : List Leftover) (w' : World) : Prop where
  rooted : w'.Rooted
  ends : w.Ends es w'
  about : ∀ m ∈ ms, ∀ c, m.about = some c → (w.container c).live = true
  due : ∀ H, w.AccountedBy H → ∀ e ∈ es, e.Due (H ++ ms)

/-- Whether marks are those of what became of a world: they account for the callbacks, for the hooks that were told, and
for what was left by the containers that were ended. -/
structure Notes (w : World) (ms : List Mark) (w' : World) : Prop where
  accounts : ∀ H, w.AccountedBy H → w'.AccountedBy (H ++ ms)
  told : w'.log.filter Event.isHook = w.log.filter Event.isHook ++ ms.filterMap Mark.event?
  leaves : w.Rooted → ∃ es, w.Leaves ms es w'

namespace AccountedBy

variable {w : World} {H : List Mark} {b c : ContainerId}

/-- Only the containers matter. -/
theorem congr {w' : World} (h : w.AccountedBy H) (same : w'.containers = w.containers) : w'.AccountedBy H := by
  cases w
  cases w'
  cases same
  exact ⟨h.known, h.fresh, h.opened, h.follows⟩

theorem base_of_opened (h : w.AccountedBy H) (alive : w.Alive c) (opened : .opened b c ∈ H) :
    (w.container c).bases.head? = some b := (h.opened c alive b).2 opened

/-- Whether an open container is a scope is in the history. -/
theorem isScope (h : w.AccountedBy H) (alive : w.Alive c) : (w.container c).isScope = H.any (Mark.opens c) := by
  rw [Bool.eq_iff_iff, List.any_eq_true]
  constructor
  · intro scope
    cases bases : (w.container c).bases with
    | nil => simp [Container.isScope, bases] at scope
    | cons b bs => exact ⟨_, (h.opened c alive b).1 (congrArg List.head? bases), beq_self_eq_true c⟩
  · rintro ⟨m, hm, opens⟩
    cases m with
    | opened b e =>
      obtain rfl := eq_of_beq opens
      have base := h.base_of_opened alive hm
      cases bases : (w.container e).bases with
      | nil => simp [bases] at base
      | cons => simp [Container.isScope, bases]
    | callback | hook | built | called | terminated => cases opens

/-- What an open container would leave is what the history says. -/
theorem due_leftover (h : w.AccountedBy H) (alive : w.Alive c) : (w.leftover c).Due H := by
  have left := (h.follows c alive).terminating
  rw [h.isScope alive] at left
  exact left

end AccountedBy

/-- Nothing is told when containers are ended. -/
theorem log_release (w : World) (held : List ContainerId) : (w.release held).log = w.log := by
  unfold World.release
  generalize w.unreachable held = cs
  induction cs generalizing w with
  | nil => rfl
  | cons c cs ih => exact ih (w.close c)

variable {p : Program} {held : List ContainerId} {w w' w'' : World} {ms ms' : List Mark} {c : ContainerId}

namespace Notes

theorem trans (h : w.Notes ms w') (h' : w'.Notes ms' w'') : w.Notes (ms ++ ms') w'' where
  accounts H accounted := by
    rw [← List.append_assoc]
    exact h'.accounts _ (h.accounts H accounted)
  told := by rw [h'.told, h.told, List.filterMap_append, List.append_assoc]
  leaves rooted := by
    obtain ⟨es, first⟩ := h.leaves rooted
    obtain ⟨es', second⟩ := h'.leaves first.rooted
    refine ⟨es ++ es', second.rooted, first.ends.trans second.ends, fun m hm c about => ?_, fun H accounted e he => ?_⟩
    · rcases List.mem_append.1 hm with hm | hm
      · exact first.about m hm c about
      · exact ((first.ends.live c).1 (second.about m hm c about)).1
    · rw [← List.append_assoc]
      rcases List.mem_append.1 he with he | he
      · -- Later marks are not about what was ended.
        refine (first.due H accounted e he).others fun m hm about => ?_
        exact ((first.ends.live _).1 (second.about m hm _ about)).2 (List.mem_map_of_mem he)
      · exact second.due _ (h.accounts H accounted) e he

/-- What ends no container. -/
theorem leaves_nothing (rooted : w'.Rooted) (ends : w.Ends [] w')
    (about : ∀ m ∈ ms, ∀ c, m.about = some c → (w.container c).live = true) : ∃ es, w.Leaves ms es w' :=
  ⟨[], rooted, ends, about, fun _ _ _ he => (List.not_mem_nil he).elim⟩

/-- What has no part in callbacks has no marks. -/
theorem quiet (length : w'.containers.length = w.containers.length)
    (bases : ∀ c, (w'.container c).bases = (w.container c).bases) (live : ∀ c, (w'.container c).live = (w.container c).live)
    (callbacks : ∀ c, (w'.container c).callbacks = (w.container c).callbacks) (orphans : w'.orphans = w.orphans)
    (told : w'.log.filter Event.isHook = w.log.filter Event.isHook) : w.Notes [] w' where
  accounts H accounted := by
    rw [List.append_nil]
    have before : ∀ c, w'.Alive c → w.Alive c := fun c alive => ⟨length ▸ alive.1, live c ▸ alive.2⟩
    refine ⟨fun m hm c hc => length ▸ accounted.known m hm c hc, accounted.fresh, fun c alive => ?_, fun c alive => ?_⟩
    · rw [bases]
      exact accounted.opened c (before c alive)
    · rw [callbacks, Container.isScope, bases]
      exact accounted.follows c (before c alive)
  told := told.trans (List.append_nil _).symm
  leaves rooted := leaves_nothing (rooted.of_same bases live) (.nothing rooted length bases live orphans)
    fun _ hm => (List.not_mem_nil hm).elim

theorem of_containers (same : w'.containers = w.containers) (orphans : w'.orphans = w.orphans)
    (told : w'.log.filter Event.isHook = w.log.filter Event.isHook) : w.Notes [] w' := by
  have container : ∀ c, w'.container c = w.container c := fun c => by rw [container, container, same]
  exact quiet (congrArg _ same) (fun c => by rw [container]) (fun c => by rw [container]) (fun c => by rw [container])
    orphans told

theorem refl (w : World) : w.Notes [] w := of_containers rfl rfl rfl

theorem tell (w : World) {e : Event} (other : e.isHook = false) : w.Notes [] (w.tell e) :=
  of_containers rfl rfl (by simp [World.tell, List.filter_append, other])

theorem modify (w : World) (c : ContainerId) {f : Container → Container} (bases : ∀ x, (f x).bases = x.bases)
    (live : ∀ x, (f x).live = x.live) (callbacks : ∀ x, (f x).callbacks = x.callbacks) : w.Notes [] (w.modify c f) :=
  quiet (length_containers_modify w c f) (fun d => field_modify Container.bases w c d f bases)
    (fun d => field_modify Container.live w c d f live) (fun d => field_modify Container.callbacks w c d f callbacks) rfl rfl

/-- One container changes, and its callbacks as its mark says. -/
theorem change (alive : w.Alive c) {f : Container → Container} {m : Mark} (about : m.about = some c)
    (closed : m.opens c = false)
    (length : w'.containers.length = w.containers.length) (container : ∀ d, w'.container d =
      if c = d ∧ c < w.containers.length then f (w.container d) else w.container d)
    (bases : ∀ x, (f x).bases = x.bases) (live : ∀ x, (f x).live = x.live)
    (follows : ∀ {x : Container} {scope H}, x.callbacks.Follows c scope H →
      (f x).callbacks.Follows c scope (H ++ [m]))
    (orphans : w'.orphans = w.orphans) (log : w'.log = w.log) : w.Notes [m] w' where
  accounts H accounted := by
    have same_bases : ∀ d, (w'.container d).bases = (w.container d).bases := by
      intro d
      rw [container]
      split
      · exact bases _
      · rfl
    have before : ∀ {d}, w'.Alive d → w.Alive d := by
      intro d hd
      by_cases e : c = d
      · exact e ▸ alive
      · refine ⟨length ▸ hd.1, ?_⟩
        rw [← hd.2, container, if_neg fun both => e both.1]
    constructor
    case known =>
      intro m' hm d hd
      rw [length]
      rcases List.mem_append.1 hm with hm | hm
      · exact accounted.known m' hm d hd
      · obtain rfl := List.mem_singleton.1 hm
        rw [m'.containers_of_closed about closed, List.mem_singleton] at hd
        exact hd ▸ alive.1
    case fresh =>
      refine List.pairwise_append.2 ⟨accounted.fresh, List.pairwise_singleton _ _, fun m' _ m'' hm d opens => ?_⟩
      obtain rfl := List.mem_singleton.1 hm
      obtain rfl := Option.some.inj ((m''.about_of_opens opens).symm.trans about)
      rw [opens] at closed
      cases closed
    case opened =>
      intro d hd e
      rw [same_bases, List.mem_append, List.mem_singleton]
      refine (accounted.opened d (before hd) e).trans ⟨.inl, fun h => h.resolve_right ?_⟩
      rintro rfl
      obtain rfl := Option.some.inj about
      simp [Mark.opens] at closed
    case follows =>
      intro d hd
      by_cases e : c = d
      · subst e
        rw [container, if_pos ⟨rfl, alive.1⟩, Container.isScope, bases]
        exact follows (accounted.follows c alive)
      · have same : w'.container d = w.container d := by rw [container, if_neg fun both => e both.1]
        rw [same]
        exact (accounted.follows d (before hd)).other fun about' => e (Option.some.inj (about.symm.trans about'))
  told := by
    rw [log]
    cases m <;> first | exact (List.append_nil _).symm | cases about
  leaves rooted := by
    have same : ∀ {α : Type} (field : Container → α), (∀ x, field (f x) = field x) →
        ∀ d, field (w'.container d) = field (w.container d) := by
      intro α field kept d
      rw [container]
      split
      · exact kept _
      · rfl
    have same_bases := same Container.bases bases
    have same_live := same Container.live live
    refine leaves_nothing (rooted.of_same same_bases same_live) (.nothing rooted length same_bases same_live orphans)
      fun m' hm d about' => ?_
    rw [List.mem_singleton.1 hm, about] at about'
    exact Option.some.inj about' ▸ alive.2

theorem modifyCallbacks (alive : w.Alive c) {f : Callbacks → Callbacks} {m : Mark} (about : m.about = some c)
    (closed : m.opens c = false)
    (follows : ∀ {x : Callbacks} {scope H}, x.Follows c scope H → (f x).Follows c scope (H ++ [m])) :
    w.Notes [m] (w.modifyCallbacks c f) :=
  change (f := fun x => { x with callbacks := f x.callbacks }) alive about closed
    (length_containers_modify w c _) (fun d => container_modify w c d _) (fun _ => rfl) (fun _ => rfl) follows rfl rfl

/-- A container is added that has nothing yet, or is a scope and has what its base passes on. -/
theorem add {x : Container} {ms : List Mark} (live : x.live = true)
    (bases : x.bases = [] ∨ ∃ b, w.Alive b ∧ x.bases = w.chain b) (single : ms.Pairwise fun _ _ => False)
    (silent : ms.filterMap Mark.event? = []) (about : ∀ m ∈ ms, m.about = some w.containers.length)
    (within : ∀ m ∈ ms, ∀ d ∈ m.containers, d ≤ w.containers.length)
    (opened : ∀ b, x.bases.head? = some b ↔ .opened b w.containers.length ∈ ms)
    (follows : ∀ H, w.AccountedBy H → (∀ m ∈ H, m.about ≠ some w.containers.length) →
      x.callbacks.Follows w.containers.length x.isScope (H ++ ms)) : w.Notes ms (w.add x).2 where
  accounts H accounted := by
    have new : ∀ m ∈ H, m.about ≠ some w.containers.length :=
      fun m hm same => Nat.lt_irrefl _ (accounted.known m hm _ (m.mem_containers same))
    have longer : (w.add x).2.containers.length = w.containers.length + 1 := by simp [World.add]
    -- An open container is an old one, or the new one.
    have oldOrNew : ∀ {d}, (w.add x).2.Alive d → (w.Alive d ∧ d ≠ w.containers.length ∧
        (w.add x).2.container d = w.container d) ∨ d = w.containers.length ∧ (w.add x).2.container d = x := by
      intro d hd
      rcases container_add_cases w x d with ⟨old, same⟩ | new | ⟨beyond, -, -⟩
      · exact .inl ⟨⟨old, by rw [← same]; exact hd.2⟩, Nat.ne_of_lt old, same⟩
      · exact .inr new
      · have := hd.1
        rw [longer] at this
        exact absurd this (Nat.not_lt.2 beyond)
    constructor
    case known =>
      intro m hm d hd
      rcases List.mem_append.1 hm with hm | hm
      · exact longer ▸ Nat.lt_succ_of_lt (accounted.known m hm d hd)
      · exact longer ▸ Nat.lt_succ_of_le (within m hm d hd)
    case fresh =>
      refine List.pairwise_append.2 ⟨accounted.fresh, single.imp False.elim, fun m hm m' hm' d opens e he => ?_⟩
      obtain rfl := Option.some.inj ((m'.about_of_opens opens).symm.trans (about m' hm'))
      exact accounted.known m hm e he
    case opened =>
      intro d hd b
      rw [List.mem_append]
      rcases oldOrNew hd with ⟨alive, ne, same⟩ | ⟨rfl, same⟩
      · rw [same]
        exact (accounted.opened d alive b).trans
          ⟨.inl, fun h => h.resolve_right fun hm => ne (Option.some.inj (about _ hm))⟩
      · rw [same]
        refine (opened b).trans ⟨.inr, fun h => h.resolve_left fun hm => ?_⟩
        exact new (.opened b w.containers.length) hm rfl
    case follows =>
      intro d hd
      rcases oldOrNew hd with ⟨alive, ne, same⟩ | ⟨rfl, same⟩
      · rw [same]
        refine (accounted.follows d alive).others fun m hm e => ?_
        rw [about m hm] at e
        exact ne (Option.some.inj e).symm
      · rw [same]
        exact follows H accounted new
  told := by rw [silent]; exact (List.append_nil _).symm
  leaves rooted := by
    refine leaves_nothing (rooted.add bases) (.add rooted live bases) fun m hm d about' => ?_
    rw [about m hm] at about'
    rw [← Option.some.inj about', container_of_ge (Nat.le_refl _)]

theorem openScope (alive : w.Alive c) : w.Notes [.opened c (w.openScope c).1] (w.openScope c).2 := by
  refine add rfl (.inr ⟨c, alive, rfl⟩) (List.pairwise_singleton _ _) rfl
    (fun m hm => by rw [List.mem_singleton.1 hm]; rfl) (fun m hm d hd => ?_) (fun b => ?_)
    fun _ accounted new => (accounted.follows c alive).child new
  · rw [List.mem_singleton.1 hm] at hd
    rcases List.mem_cons.1 hd with rfl | hd
    · exact Nat.le_of_lt alive.1
    · exact Nat.le_of_eq (List.mem_singleton.1 hd)
  rw [List.mem_singleton]
  exact ⟨fun h => by rw [← Option.some.inj h]; rfl, fun h => by injection h with e; rw [e]; rfl⟩

theorem openRoot (name : String) : w.Notes [] (w.openRoot name) := by
  have added : w.Notes [] (w.add {}).2 := by
    refine add rfl (.inl rfl) .nil rfl (fun _ hm => (List.not_mem_nil hm).elim) (fun _ hm => (List.not_mem_nil hm).elim)
      (fun b => ?_) fun H _ new => (List.append_nil H).symm ▸ .new new
    exact ⟨(fun h => nomatch h), (fun h => nomatch h)⟩
  exact added.trans (of_containers rfl rfl rfl)

/-- Containers that are ended have callbacks no more. -/
theorem release (w : World) (held : List ContainerId) : w.Notes [] (w.release held) where
  accounts H accounted := by
    rw [List.append_nil]
    refine ⟨fun m hm c hc => length_release w held ▸ accounted.known m hm c hc, accounted.fresh,
      fun c alive => ?_, fun c alive => ?_⟩ <;> obtain ⟨alive', -, same⟩ := Ok.of_alive_release alive <;> rw [same]
    · exact accounted.opened c alive'
    · exact accounted.follows c alive'
  told := by
    rw [log_release]
    exact (List.append_nil _).symm
  leaves rooted := by
    refine ⟨_, rooted.release held, .release rooted held, fun _ hm => (List.not_mem_nil hm).elim, fun H accounted e he => ?_⟩
    obtain ⟨c, hc, rfl⟩ := List.mem_map.1 he
    rw [List.append_nil]
    exact accounted.due_leftover (mem_unreachable.1 hc).1

theorem terminate (alive : w.Alive c) : w.Notes [.terminated c] (w.terminate c).2 :=
  (modifyCallbacks alive rfl rfl fun h => h.terminated).trans
    (modify _ c (fun _ => rfl) (fun _ => rfl) fun _ => rfl)

theorem record {b : Build} (alive : w.Alive b.container) (v : Instance) : w.Notes [.built b v] (w.record b v) := by
  obtain ⟨-, -, orphans, log⟩ := rest_record w b v
  refine change (f := (·.record b v)) alive rfl rfl (length_record w b v) (container_record w b v) (fun _ => rfl) (fun _ => rfl)
    (fun h => ?_) orphans log
  apply h.built rfl v
  unfold Container.record
  cases b.finalizer <;> simp [Callbacks.addTeardown]

theorem called {H : List Mark} (accounted : w.AccountedBy H) (c : ContainerId) (inScope : Bool) (h : Hook) (v : Instance) :
    w.AccountedBy (H ++ [.called c inScope h v]) := by
  constructor
  case known =>
    intro m hm d hd
    rcases List.mem_append.1 hm with hm | hm
    · exact accounted.known m hm d hd
    · rw [List.mem_singleton.1 hm] at hd
      cases hd
  case fresh =>
    refine List.pairwise_append.2 ⟨accounted.fresh, List.pairwise_singleton _ _, fun m _ m' hm d opens => ?_⟩
    rw [List.mem_singleton.1 hm] at opens
    cases opens
  case opened =>
    intro d alive b
    rw [List.mem_append, List.mem_singleton]
    exact (accounted.opened d alive b).trans ⟨.inl, fun h => h.resolve_right (by rintro ⟨⟩)⟩
  case follows => exact fun d alive => (accounted.follows d alive).other (by rintro ⟨⟩)

/-- A hook is called that is for the type of the instance. -/
theorem call (w : World) (c : ContainerId) {h : Hook} {v : Instance} (ty : h.ty = v.ty) :
    w.Notes [.called c (w.container c).isScope h v] (w.tell (.hook h.script.id v (w.container c).isScope)) where
  accounts _ accounted := by
    have accounted := called accounted c (w.container c).isScope h v
    exact ⟨accounted.known, accounted.fresh, accounted.opened, accounted.follows⟩
  told := by simp [World.tell, List.filter_append, Event.isHook, Mark.event?, ty]
  leaves rooted := leaves_nothing (rooted.of_same (fun _ => rfl) fun _ => rfl)
    (.nothing rooted rfl (fun _ => rfl) (fun _ => rfl) rfl) fun m hm d about => by
      rw [List.mem_singleton.1 hm] at about
      cases about

/-- A hook is called that is for another type. -/
theorem call_other (w : World) (c : ContainerId) {h : Hook} {v : Instance} (ty : h.ty ≠ v.ty) :
    w.Notes [.called c (w.container c).isScope h v] w where
  accounts _ accounted := called accounted c _ h v
  told := by simp [Mark.event?, ty]
  leaves rooted := leaves_nothing rooted (.nothing rooted rfl (fun _ => rfl) (fun _ => rfl) rfl) fun m hm d about => by
    rw [List.mem_singleton.1 hm] at about
    cases about

end Notes

/-! ## Commands -/

theorem notes_instant {c : ContainerId} (alive : w.Alive c) (target : String) (a : Instant Command Op) :
    w.Notes (w.instantMarks c a) (w.instant p c target a).2 := by
  cases a with
  | openRoot name => exact .openRoot name
  | openScope name => exact (Notes.openScope alive).trans (.of_containers rfl rfl rfl)
  | clone name => exact .of_containers rfl rfl rfl
  | drop => exact .of_containers rfl rfl rfl
  | register key source lifetime finalizer => exact .modify w c (fun _ => rfl) (fun _ => rfl) fun _ => rfl
  | pin key value =>
    have made : w.Notes [] (w.supplied (value.makeOwn w.saved)).2 := .of_containers rfl rfl rfl
    exact made.trans (.modify _ c (fun _ => rfl) (fun _ => rfl) fun _ => rfl)
  | addAlias key name => exact .modify w c (fun _ => rfl) (fun _ => rfl) fun _ => rfl
  | afterResolving inScopes t key hook => exact .modifyCallbacks alive rfl rfl fun h => h.hook inScopes _ _
  | terminating inScopes callback => exact .modifyCallbacks alive rfl rfl fun h => h.callback inScopes callback
  | same a b =>
    unfold instant
    dsimp only
    split <;> exact .refl w
  | arguments | signature | read => exact .of_containers rfl rfl rfl
  | isScope | bound | describe | compare | lifetime | parameters => exact .refl w

theorem notes_command (ok : w.Ok) {self : Option ContainerId} (hself : ∀ c, self = some c → w.Alive c) (c : Command) :
    w.Notes (w.commandMarks self c) (w.command p self c).2 := by
  unfold command commandMarks
  split
  · next opens =>
    rw [opens]
    cases w.target self c.heading.target <;> exact .openRoot _
  · next found _ =>
    rw [found]
    exact notes_instant (alive_target ok hself found) _ _
  · next none _ =>
    rw [none]
    exact .refl w

theorem notes_commands {self : Option ContainerId} (cs : List Command) : ∀ {w : World}, w.Ok →
    (∀ c, self = some c → c ∈ held ∧ w.Alive c) → w.Notes (w.commandsMarks p held self cs) (w.commands p held self cs).2 := by
  induction cs with
  | nil => exact fun _ _ => .refl _
  | cons c rest ih =>
    intro w ok hself
    have alive : ∀ d, self = some d → w.Alive d := fun d hd => (hself d hd).2
    have edits : w.Edits p held (((w.command p self c).2.tell
        (.performed c.heading.label (w.command p self c).1)).release held) :=
      (command_edits ok alive c).tail (.tell _) |>.tail .release
    have first : w.Notes (w.commandMarks self c) (((w.command p self c).2.tell
        (.performed c.heading.label (w.command p self c).1)).release held) := by
      have released := ((notes_command (p := p) ok alive c).trans
        (.tell _ (e := .performed c.heading.label (w.command p self c).1) rfl)).trans (.release _ held)
      simpa using released
    have hself' := fun d hd => (⟨(hself d hd).1, edits.alive_held (hself d hd).2 (hself d hd).1⟩ : d ∈ held ∧ _)
    unfold commands commandsMarks
    dsimp only
    cases c.heading.stops (w.command p self c).1 with
    | some failure => exact (List.append_nil _).symm ▸ first
    | none => exact first.trans (ih (edits.ok ok) hself')

theorem notes_showTo {c : ContainerId} (hc : c ∈ held) (v : Instance) (hooks : List Hook) : ∀ {w : World}, w.Ok →
    w.Alive c → w.Notes (w.showMarks p held c v hooks) (w.showTo p held c v hooks) := by
  induction hooks with
  | nil => exact fun _ _ => .refl _
  | cons h rest ih =>
    intro w ok alive
    unfold showTo showMarks
    split
    · next ty =>
      have told : w.Edits p held (w.tell (.hook h.script.id v (w.container c).isScope)) := .single (.tell _)
      have hself : ∀ d, some c = some d → d ∈ held ∧ (w.tell (.hook h.script.id v (w.container c).isScope)).Alive d := by
        rintro d ⟨⟩
        exact ⟨hc, alive⟩
      have done := commands_edits (p := p) h.script.actions (told.ok ok) hself
      have called := (Notes.call w c ty).trans (notes_commands (p := p) h.script.actions (told.ok ok) hself)
      exact called.trans (ih (done.ok (told.ok ok)) (done.alive_held alive hc))
    · next ty => exact (Notes.call_other w c ty).trans (ih ok alive)

end World

/-! ## Steps -/

namespace Step

variable {w w₀ : World} {ms : List Mark} {env : Env}

/-- What is true of the world in the middle of a step is true when it only goes on with another activity. -/
theorem notes_filled (noted : w₀.Notes ms w) (j : Job) (r : Except Failure (Filled × Frame)) (below : Stack .answer) :
    w₀.Notes ms (filled w j r below).world := by
  cases r <;> exact noted

theorem notes_callback (noted : w₀.Notes ms w) (path : List Key) (ops : List Op) (ts : List Teardown)
    (below : Stack .done) : w₀.Notes ms (callback w path ops ts below).world := by
  cases ops <;> exact noted

theorem notes_conclude (noted : w₀.Notes ms w) (j : Job) (below : Stack .answer) :
    w₀.Notes ms (conclude w j below).world := by
  have quiet : w.Notes [] (conclude w j below).world := by
    have invoked : w.Notes [] (w.invoke j.function.name).2 := .of_containers rfl rfl rfl
    unfold conclude
    dsimp only
    split
    · exact invoked.trans (.tell _ rfl)
    · exact invoked.trans (.tell _ rfl)
    · have made : w.Notes [] ((w.invoke j.function.name).2.supplied fun s =>
          s.produce j.function.product j.ingredients).2 := invoked.trans (.of_containers rfl rfl rfl)
      exact made.trans (.tell _ rfl)
  exact (List.append_nil ms) ▸ noted.trans quiet

theorem notes_resolve (r : Request) (below : Stack .answer) : w.Notes [] (resolve w r below).world := by
  unfold resolve
  split
  · exact .refl w
  · exact .refl w
  · next c key binding _ =>
    split
    · exact .refl w
    · have locked : w.Notes [] (w.modifyLocks c fun _ => ((w.container c).locks.enter key w.tickets).2) :=
        .modify w c (fun _ => rfl) (fun _ => rfl) fun _ => rfl
      exact locked.trans (.of_containers rfl rfl rfl)

theorem notes_build (b : Build) (below : Stack .answer) : w.Notes [] (build (w.letIn b) b below).world := by
  have entered : w.Notes [] (w.letIn b) := .modify w _ (fun _ => rfl) (fun _ => rfl) fun _ => rfl
  have left : w.Notes [] ((w.letIn b).leave b) := entered.trans (.modify _ _ (fun _ => rfl) (fun _ => rfl) fun _ => rfl)
  unfold build
  split
  · exact left
  · split
    · exact entered.trans (.of_containers rfl rfl rfl)
    · exact entered
    · exact left

theorem notes_fill (j : Job) (below : Stack .answer) : w.Notes [] (fill env w j below).world := by
  have goes := fill_cases env w j below
  generalize fill env w j below = st at goes ⊢
  cases goes with
  | calls | asks => exact .refl w
  | fills _ world =>
    rcases world with rfl | ⟨positional, keyword, rfl⟩
    · exact notes_filled (.refl w) _ _ _
    · have made : w.Notes [] (w.makeArguments positional keyword).2 := .of_containers rfl rfl rfl
      exact notes_filled made _ _ _

theorem notes_start {j : Job} {below : Stack .answer} (ok : w.Ok)
    (hself : ∀ c, j.self = some c → c ∈ env.held ∧ w.Alive c) :
    w.Notes (w.bodyMarks env j) (start env w j below).world := by
  have commands : ∀ cs, w.Notes (w.commandsMarks env.program env.held j.self cs)
      (w.commands env.program env.held j.self cs).2 := fun cs => World.notes_commands cs ok hself
  unfold World.bodyMarks start
  cases j.function.body with
  | awaited yields ops =>
    cases ops with
    | nil => exact notes_conclude (.refl w) j below
    | cons => exact .refl w
  | blocking cs | inline cs =>
    dsimp only
    have done := commands cs
    split
    · next stops => rw [stops] at done; exact done
    · next goes => rw [goes] at done; exact notes_conclude done j below

theorem notes_windDown (path : List Key) (ts : List Teardown) (below : Stack .done) :
    w.Notes [] (windDown w path ts below).world := by
  cases ts with
  | nil => exact .refl w
  | cons x ts =>
    cases x with
    | callback s => exact notes_callback (.tell w rfl) _ _ _ _
    | finalize f v =>
      unfold windDown
      dsimp only
      split
      · exact notes_callback (.tell w rfl) _ _ _ _
      · exact .refl w

theorem notes_built {b : Build} {answer : Except Failure Instance} {below : Stack .answer} (ok : w.Ok)
    (alive : w.Alive b.container) (held : b.container ∈ env.held) :
    w.Notes (Task.marks env w ⟨.answer, .give answer, .cons (.build b) below⟩) (built env w b answer below).world := by
  have left : ∀ w' : World, w'.Notes [] (w'.leave b) := fun w' => .modify w' _ (fun _ => rfl) (fun _ => rfl) fun _ => rfl
  cases answer with
  | error f => exact left w
  | ok v =>
    have shown := World.notes_showTo (p := env.program) held v ((w.record b v).hooksFor b) (ok_record v ok alive)
      (alive_record v alive)
    have done := ((World.Notes.record alive v).trans shown).trans (left _)
    rwa [List.append_nil] at done

theorem notes_scopeBody {scope : ContainerId} {name : String} {path : List Key} {r : Reply} {h : Heading}
    {rest : List Op} {below : Stack .reply} (alive : w.Alive scope) :
    w.Notes (Task.marks env w ⟨.reply, .give (k := .reply) r, .cons (.scopeBody scope name path h rest) below⟩)
      (replied w r (.scopeBody scope name path h rest) below).world := by
  have told : w.Notes [] (w.tell (.performed h.label r)) := .tell w rfl
  have forgot : w.Notes [] ((w.tell (.performed h.label r)).forget name) := told.trans (.of_containers rfl rfl rfl)
  have ended := forgot.trans (.terminate (c := scope) alive)
  unfold Task.marks replied
  dsimp only
  cases stops : h.stops r with
  | some failure => exact ended
  | none =>
    cases rest with
    | nil => exact ended
    | cons => exact told

theorem notes_lasting {s : Scene} {c : ContainerId} (ok : w.Ok) (alive : w.Alive c) (a : Lasting Command Op)
    (below : Stack .reply) : w.Notes (w.lastingMarks env c a) (lasting env w s c a below).world := by
  cases a with
  | get | join => exact .refl w
  | call function positional keyword save =>
    unfold lasting
    dsimp only
    split
    · exact .of_containers rfl rfl rfl
    · exact .refl w
  | onResolved t key script =>
    let key := w.unalias (w.chain c) key
    let w' := w.addHook c false key ⟨t, script⟩
    have added : w.Notes [w.hookMark c false key ⟨t, script⟩] w' := .modifyCallbacks alive rfl rfl fun h => h.hook false _ _
    have edits : w.Edits env.program (c :: env.held) w' := .single (.addHook alive false _ _)
    have shown : ∀ v, w.Notes (w.hookMark c false key ⟨t, script⟩ :: w'.showMarks env.program (c :: env.held) c v [⟨t, script⟩])
        (w'.showTo env.program (c :: env.held) c v [⟨t, script⟩]) := by
      intro v
      have shows := World.notes_showTo (p := env.program) (List.mem_cons_self (l := env.held)) v [⟨t, script⟩] (edits.ok ok)
        (edits.alive_held alive List.mem_cons_self)
      exact added.trans shows
    simp only [lasting, World.lastingMarks]
    by_cases resolved : (w'.container c).cache.isResolved key.plain = true
    · rw [if_pos resolved, if_pos resolved]
      cases (w'.container c).cache.get? key with
      | some v => exact shown v
      | none => exact added
    · rw [if_neg resolved, if_neg resolved]
      exact added
  | terminate => exact .terminate alive
  | scope name ops =>
    have opened : w.Notes [.opened c (w.openScope c).1] ((w.openScope c).2.giveName name (w.openScope c).1) :=
      (World.Notes.openScope alive).trans (.of_containers rfl rfl rfl)
    cases ops with
    | nil =>
      have forgot : w.Notes [.opened c (w.openScope c).1]
          (((w.openScope c).2.giveName name (w.openScope c).1).forget name) := opened.trans (.of_containers rfl rfl rfl)
      exact forgot.trans (.terminate (World.alive_openScope c))
    | cons => exact opened

theorem notes_perform {s : Scene} {o : Op} {below : Stack .reply} (ok : w.Ok) (hself : ∀ c, s.self = some c → w.Alive c) :
    w.Notes (Task.marks env w ⟨.reply, .perform s o, below⟩) (perform env w s o below).world := by
  cases o with
  | instant c => exact World.notes_command ok hself c
  | lasting h a =>
    unfold Task.marks perform
    dsimp only
    cases found : w.target s.self h.target with
    | none => exact .refl w
    | some c => exact notes_lasting ok (World.alive_target ok hself found) a below

theorem notes_handOver {k : Kind} {outcome : k.Outcome} {below : Stack k} (ok : w.Ok)
    (alive : ∀ c ∈ below.held, w.Alive c) (hh : ∀ c ∈ below.held, c ∈ env.held) :
    w.Notes (Task.marks env w ⟨k, .give outcome, below⟩) (handOver env w outcome below).world := by
  cases below with
  | nil => exact .refl w
  | cons x below =>
    cases x with
    | slot j key =>
      have quiet : w.Notes [] (slot w j key outcome below).world := by
        unfold slot
        split
        · exact .refl w
        · exact notes_filled (.refl w) _ _ _
      cases outcome <;> exact quiet
    | build b => exact notes_built ok (alive _ List.mem_cons_self) (hh _ List.mem_cons_self)
    | convert product input =>
      have quiet : w.Notes [] (convert w product input outcome below).world := by
        unfold convert
        split
        · exact .refl w
        · next v _ =>
          have made : w.Notes [] (w.supplied fun s => s.produce product [v]).2 := .of_containers rfl rfl rfl
          exact made.trans (.tell _ rfl)
      cases outcome <;> exact quiet
    | deliver c expected save =>
      have quiet : w.Notes [] (deliver w expected save outcome below).world := by
        unfold deliver
        split
        · exact .of_containers (by cases save <;> rfl) (by cases save <;> rfl) (by cases save <;> rfl)
        · exact .refl w
      cases outcome <;> exact quiet
    | observe => cases outcome <;> exact .refl w
    | body j h rest =>
      have told : w.Notes [] (w.tell (.performed h.label outcome)) := .tell w rfl
      change w.Notes [] (replied w outcome (.body j h rest) below).world
      unfold replied
      dsimp only
      split
      · exact told
      · cases rest with
        | nil => exact notes_conclude told j below
        | cons => exact told
    | scopeBody scope name path h rest => exact notes_scopeBody (alive _ List.mem_cons_self)
    | callback path h rest ts =>
      have told : w.Notes [] (w.tell (.performed h.label outcome)) := .tell w rfl
      change w.Notes [] (replied w outcome (.callback path h rest ts) below).world
      unfold replied
      dsimp only
      split
      · exact told
      · exact notes_callback told path rest ts below
    | close => exact .refl w

end Step

/-- The marks of a step are those of what becomes of the world. -/
theorem Task.notes_step {w : World} (env : Env) {t : Task} (ok : w.Ok) (wf : t.Wf) (alive : ∀ c ∈ t.held, w.Alive c)
    (hh : ∀ c ∈ t.held, c ∈ env.held) : w.Notes (t.marks env w) (t.step env w).world := by
  obtain ⟨k, a, below⟩ := t
  cases a with
  | resolve r => exact Step.notes_resolve r below
  | line b => exact Step.notes_build b below
  | fill j => exact Step.notes_fill j below
  | pause j times =>
    cases times with
    | zero =>
      refine Step.notes_start ok fun c hc => ?_
      obtain rfl := Job.Fits.self_eq wf.activity hc
      exact ⟨hh _ List.mem_cons_self, alive _ List.mem_cons_self⟩
    | succ => exact .refl w
  | perform s o =>
    exact Step.notes_perform ok fun c hc => alive c (List.mem_append_left _ (Option.mem_toList.2 hc))
  | windDown path ts => exact Step.notes_windDown path ts below
  | await => exact .refl w
  | give outcome =>
    exact Step.notes_handOver ok (fun c hc => alive c (List.mem_append_right _ hc))
      fun c hc => hh c (List.mem_append_right _ hc)

/-! ## Histories of runs -/

namespace System

variable {p : Program} {s s' : System}

/-- The marks of the step that the running task takes. -/
def marks (p : Program) (s : System) : List Mark :=
  (s.current.map (Task.marks ⟨p, s.held, s.tasks.length⟩ s.world)).getD []

/-- Who is over or has to wait leaves no mark. -/
theorem Halts.marks_eq (h : s.Halts) : s.marks p = [] := by
  cases current : s.current with
  | none => rw [marks, current]; rfl
  | some t =>
    obtain ⟨i, running, found⟩ := exists_of_current current
    rw [marks, current]
    rcases h i t running found with ⟨r, rfl⟩ | ⟨b, below, rfl, -⟩ | ⟨ts, below, rfl⟩ <;> rfl

theorem marks_of_idle (idle : s.running = none) : s.marks p = [] := Halts.marks_eq (.of_idle idle)

/-- The running task leaves the marks of its step. -/
theorem Takes.notes {i : Nat} {t : Task} {st : Step} (takes : s.Takes p i t st) (reached : Reachable p s)
    (running : s.running = some i) (found : s.tasks[i]? = some t) : s.world.Notes (s.marks p) st.world := by
  have ht := List.mem_of_getElem? found
  rw [marks, current_eq running found]
  cases takes with
  | step => exact Task.notes_step _ reached.sound.ok (reached.sound.wf t ht) (reached.sound.alive t ht) (held_of_mem ht)
  | joined => exact .refl _

/-- A move of the running task leaves its marks, and what was left is taken over. -/
theorem Moves.notes (h : s.Moves p s') (reached : Reachable p s) {i : Nat} (running : s.running = some i) :
    ∃ w, s.world.Notes (s.marks p) w ∧ s'.world.containers = w.containers ∧ s'.world.log = w.log := by
  rcases h.cases with ⟨j, t, st, running', found, takes, world, -⟩ | ⟨halts, world, -⟩ | ⟨idle, -⟩
  · have noted := (takes.notes reached running' found).trans
      (.release _ ((s.tasks.set j st.task ++ st.started).flatMap Task.held))
    rw [List.append_nil] at noted
    rw [world, world_put]
    exact ⟨_, noted, rfl, rfl⟩
  · rw [halts.marks_eq, world]
    exact ⟨_, .refl _, rfl, rfl⟩
  · rw [running] at idle
    cases idle

/-- What comes from outside while no task runs leaves no marks. -/
theorem Moves.accounts (h : s.Moves p s') (reached : Reachable p s) {H : List Mark} (accounted : s.world.AccountedBy H) :
    s'.world.AccountedBy (H ++ s.marks p) := by
  cases running : s.running with
  | some i =>
    obtain ⟨w, noted, same, -⟩ := h.notes reached running
    exact (noted.accounts H accounted).congr same
  | none =>
    rw [marks_of_idle running]
    have settled : ∀ w : World, w.containers = s.world.containers → (settledWorld w s.tasks).AccountedBy (H ++ []) :=
      fun w same => ((World.Notes.release w _).accounts H (accounted.congr same)).congr rfl
    rcases h.cases with ⟨i, -, -, running', -⟩ | ⟨-, world, -⟩ | ⟨-, ⟨o, world, -⟩ | ⟨name, rfl⟩ | ⟨-, rfl⟩⟩
    · rw [running] at running'
      cases running'
    · rw [world, List.append_nil]
      exact accounted
    · rw [world]
      exact settled s.world rfl
    · exact settled (s.world.forget name) rfl
    · rw [List.append_nil]
      exact accounted.congr rfl

namespace Run

/-- The marks of a move. -/
def marks (run : Run p) (n : Nat) : List Mark := (run.state n).marks p

/-- The marks of all moves before state `n`. -/
def history (run : Run p) (n : Nat) : List Mark := (List.range n).flatMap run.marks

theorem history_succ (run : Run p) (n : Nat) : run.history (n + 1) = run.history n ++ run.marks n := by
  rw [history, List.range_succ, List.flatMap_append, List.flatMap_singleton, history]

/-- The history accounts for the callbacks of all open containers. -/
theorem accounted (run : Run p) (n : Nat) : (run.state n).world.AccountedBy (run.history n) := by
  induction n with
  | zero =>
    obtain ⟨name, start⟩ := run.start
    have nothing : ({} : World).AccountedBy [] :=
      ⟨fun _ hm => (List.not_mem_nil hm).elim, .nil, fun c alive => absurd alive.1 (Nat.not_lt_zero c),
        fun c alive => absurd alive.1 (Nat.not_lt_zero c)⟩
    rw [start]
    exact (World.Notes.openRoot name).accounts [] nothing
  | succ n ih =>
    rw [history_succ]
    rcases run.moves n with moves | ⟨idle, same⟩
    · exact moves.accounts (run.reachable n) ih
    · rw [marks, marks_of_idle idle, same, List.append_nil]
      exact ih

/-- What is built was in hand. -/
theorem hand_of_built (run : Run p) {n : Nat} {b : Build} {v : Instance} (h : .built b v ∈ run.history n) :
    ∃ m < n, (run.state m).hand? = some (b, v) := by
  obtain ⟨m, hm, h⟩ := List.mem_flatMap.1 h
  refine ⟨m, List.mem_range.1 hm, ?_⟩
  cases current : (run.state m).current with
  | none =>
    rw [marks, System.marks, current] at h
    cases h
  | some t =>
    rw [marks, System.marks, current] at h
    rw [hand?, current]
    exact Task.hand_of_built h

/-- The hooks that a move tells of are those that it has marks of. -/
theorem told (run : Run p) {n i : Nat} (running : (run.state n).running = some i) :
    (run.state (n + 1)).world.log.filter Event.isHook =
      (run.state n).world.log.filter Event.isHook ++ (run.marks n).filterMap Mark.event? := by
  rcases run.moves n with moves | ⟨idle, -⟩
  · obtain ⟨w, noted, -, log⟩ := moves.notes (run.reachable n) running
    rw [log]
    exact noted.told
  · rw [running] at idle
    cases idle

end Run

end System

end Injector
