import Injector.Proofs.Containers
/-!
# What commands do

Commands, wherever they are performed, change the world by a few kinds of edits
(`World.Edit`); making instances, telling events and ending what nobody can reach are
among them. `commands_edits` and `showTo_edits` reduce every sequence of commands to
edits, so that a fact about commands is a case analysis over the kinds.

No edit touches a build lock, builds an instance, runs a finalizer or registers one.
-/
namespace Injector

/-- The finalizers among teardowns, each with its instance. -/
def finals (ts : List Teardown) : List (Finalizer × Instance) :=
  ts.filterMap fun
    | .finalize f v => some (f, v)
    | .callback _ => none

/-! ## Serials grow -/

namespace Supply

@[simp] theorem serials_object (s : Supply) (path : String) : (s.object path).2.serials = s.serials + 1 := rfl

theorem serials_objects (s : Supply) (path : String) (count : Nat) :
    (s.objects path count).2.serials = s.serials + count := by
  induction count generalizing s with
  | zero => rfl
  | succ n ih =>
    change ((s.object path).2.objects path n).2.serials = _
    rw [ih, serials_object]
    omega

/-- What is provided is new. -/
theorem serial_produce (s : Supply) (p : Product) (ingredients : List Instance) :
    (s.produce p ingredients).1.serial = s.serials ∧ (s.produce p ingredients).2.serials = s.serials + 1 := by
  cases p <;> exact ⟨rfl, rfl⟩

/-- What is provided is of the type that was promised. -/
theorem ty_produce (s : Supply) (p : Product) (ingredients : List Instance) :
    (s.produce p ingredients).1.ty = p.ty := by
  cases p <;> rfl

end Supply

namespace Literal

variable (vars : Table String Instance)

theorem serials_make (l : Literal) (s : Supply) : s.serials ≤ (l.make vars s).2.serials := by
  induction l generalizing s with
  | scalar | text | object => exact Nat.le_succ _
  | objects path count =>
    change s.serials ≤ (s.objects path count).2.serials + 1
    rw [Supply.serials_objects]
    omega
  | erased inner ih => exact Nat.le_succ_of_le (ih s)
  | saved => exact Nat.le_refl _

theorem serials_makeAll (ls : List Literal) (s : Supply) : s.serials ≤ (makeAll vars ls s).2.serials := by
  induction ls generalizing s with
  | nil => exact Nat.le_refl _
  | cons l ls ih => exact Nat.le_trans (serials_make vars l s) (ih _)

theorem serials_makeNamed (ls : List (String × Literal)) (s : Supply) :
    s.serials ≤ (makeNamed vars ls s).2.serials := by
  induction ls generalizing s with
  | nil => exact Nat.le_refl _
  | cons l ls ih => exact Nat.le_trans (serials_make vars l.2 s) (ih _)

/-- An instance of one's own is new. -/
theorem serial_makeOwn (l : Literal) (s : Supply) :
    s.serials ≤ (l.makeOwn vars s).1.serial ∧ (l.makeOwn vars s).1.serial < (l.makeOwn vars s).2.serials := by
  cases l with
  | scalar | text | object | saved => exact ⟨Nat.le_refl _, Nat.lt_succ_self _⟩
  | objects path count =>
    change s.serials ≤ (s.objects path count).2.serials ∧
      (s.objects path count).2.serials < (s.objects path count).2.serials + 1
    rw [Supply.serials_objects]
    omega
  | erased inner => exact ⟨serials_make vars inner s, Nat.lt_succ_self _⟩

end Literal

namespace World

theorem serials_makeArguments (w : World) (positional : List Literal) (keyword : List (String × Literal)) :
    w.supply.serials ≤ (w.makeArguments positional keyword).2.supply.serials :=
  Nat.le_trans (Literal.serials_makeAll _ _ _) (Literal.serials_makeNamed _ _ _)

/-! ## Edits -/

/-- One edit of the world by commands. `held` are the containers that tasks keep alive. -/
inductive Edit (p : Program) (held : List ContainerId) (w : World) : World → Prop where
  | tell (e : Event) : Edit p held w (w.tell e)
  /-- Instances are made. -/
  | supply {s : Supply} (grows : w.supply.serials ≤ s.serials) : Edit p held w { w with supply := s }
  | save (name : Option String) (v : Instance) : Edit p held w (w.save name v)
  | invoke (function : String) : Edit p held w (w.invoke function).2
  | forget (name : String) : Edit p held w (w.forget name)
  | giveName {c : ContainerId} (alive : w.Alive c) (name : String) : Edit p held w (w.giveName name c)
  | openRoot : Edit p held w (w.add {}).2
  | openScope {c : ContainerId} (alive : w.Alive c) : Edit p held w (w.openScope c).2
  | register {c : ContainerId} (alive : w.Alive c) (key : Key) (source : Source) (lifetime : Lifetime)
    (finalizer : Option (Script Op)) :
    Edit p held w (w.modifyRegistry c fun r => r.insert key (source.binding p lifetime finalizer))
  | addAlias {c : ContainerId} (alive : w.Alive c) (key : Key) (name : String) :
    Edit p held w (w.modifyRegistry c fun r => r.addAlias key name)
  /-- A new instance is put by hand. -/
  | pin {c : ContainerId} (alive : w.Alive c) (key : Key) {v : Instance} {s : Supply}
    (fresh : w.supply.serials ≤ v.serial) (given : v.serial < s.serials) :
    Edit p held w (({ w with supply := s } : World).modifyCache c fun x => x.pin key v)
  | addHook {c : ContainerId} (alive : w.Alive c) (inScopes : Bool) (key : Key) (h : Hook) :
    Edit p held w (w.modifyCallbacks c fun x => x.addAfterResolving inScopes key h)
  | addTerminating {c : ContainerId} (alive : w.Alive c) (inScopes : Bool) (callback : Script Op) :
    Edit p held w (w.modifyCallbacks c fun x => x.addTerminating inScopes callback)
  /-- What nobody can reach is ended. -/
  | release : Edit p held w (w.release held)

/-- A sequence of edits. -/
abbrev Edits (p : Program) (held : List ContainerId) : World → World → Prop := Relation.ReflTransGen (Edit p held)

variable {p : Program} {held : List ContainerId} {w w' : World}

theorem Edit.edits (h : w.Edit p held w') : w.Edits p held w' := .single h

theorem Ok.openScope {c : ContainerId} (ok : w.Ok) (alive : w.Alive c) : (w.openScope c).2.Ok :=
  ok.add rfl (.inr ⟨c, alive, rfl⟩) (ok.registry c alive.2).child

theorem Edit.ok (h : w.Edit p held w') (ok : w.Ok) : w'.Ok := by
  cases h with
  | tell | supply | invoke => exact ok.congr rfl rfl
  | save name v =>
    cases name with
    | none => exact ok
    | some name => exact ok.congr rfl rfl
  | forget name => exact { ok with names := fun row hr => ok.names row (List.mem_filter.1 hr).1 }
  | giveName alive name =>
    refine { ok with names := fun row hr => ?_ }
    rcases List.mem_append.1 hr with hr | hr
    · exact ok.names row (List.mem_filter.1 hr).1
    · rw [List.mem_singleton.1 hr]
      exact alive
  | openRoot => exact ok.add rfl (.inl rfl) Registry.fits_empty
  | openScope alive => exact ok.openScope alive
  | register alive key source lifetime finalizer =>
    exact ok.modify alive (fun _ => rfl) (fun _ => rfl) fun h =>
      h.insert (source.sound_binding p lifetime finalizer) key
  | addAlias alive => exact ok.modify alive (fun _ => rfl) (fun _ => rfl) fun h => h.addAlias _ _
  | @pin c alive _ _ s =>
    have ok' : ({ w with supply := s } : World).Ok := ok.congr rfl rfl
    exact ok'.modify alive (fun _ => rfl) (fun _ => rfl) id
  | addHook alive => exact ok.modify alive (fun _ => rfl) (fun _ => rfl) id
  | addTerminating alive => exact ok.modify alive (fun _ => rfl) (fun _ => rfl) id
  | release => exact ok.release held

theorem Edits.ok (h : w.Edits p held w') (ok : w.Ok) : w'.Ok := by
  induction h with
  | refl => exact ok
  | tail _ h ih => exact h.ok ih

/-- What edits leave alone: no container goes, and none gets other bases. -/
theorem Edit.bases_eq (h : w.Edit p held w') {c : ContainerId} (opened : c < w.containers.length) :
    (w'.container c).bases = (w.container c).bases := by
  cases h with
  | tell | supply | invoke | forget | giveName => rfl
  | save name v => simp
  | openRoot | openScope => simp [World.openScope, container_add_of_lt, opened]
  | register | addAlias | addHook | addTerminating => simp
  | pin => exact bases_modifyCache _ _ _ _
  | release => simp

theorem Edit.opened (h : w.Edit p held w') {c : ContainerId} (opened : c < w.containers.length) :
    c < w'.containers.length := by
  cases h with
  | tell | supply | invoke | forget | giveName => exact opened
  | save name v => cases name <;> exact opened
  | openRoot | openScope =>
    simp only [World.openScope, World.add, List.length_append]
    exact Nat.lt_add_right _ opened
  | register | addAlias | addHook | addTerminating | pin =>
    simpa [modifyRegistry, modifyCallbacks, modifyCache] using opened
  | release => simpa using opened

theorem opened_of_mem_bases {c b : ContainerId} (hb : b ∈ (w.container c).bases) : c < w.containers.length := by
  by_contra hc
  simp [container, List.getElem?_eq_none (Nat.not_lt.1 hc)] at hb

theorem Edit.bases_mem (h : w.Edit p held w') {c b : ContainerId} (hb : b ∈ (w.container c).bases) :
    b ∈ (w'.container c).bases := (h.bases_eq (opened_of_mem_bases hb)).symm ▸ hb

theorem Edit.alive_or_ended (h : w.Edit p held w') {c : ContainerId} (alive : w.Alive c) :
    w'.Alive c ∨ w' = w.release held ∧ c ∉ w.reachable held := by
  have opened := alive.1
  cases h with
  | tell | supply | invoke | forget | giveName => exact .inl alive
  | save name v => cases name <;> exact .inl alive
  | openRoot | openScope => exact .inl (Ok.alive_add alive)
  | register | addAlias | addHook | addTerminating | pin =>
    exact .inl ⟨by simpa [modifyRegistry, modifyCallbacks, modifyCache] using opened, by simpa using alive.2⟩
  | release =>
    by_cases hr : c ∈ w.reachable held
    · exact .inl (Ok.alive_release alive hr)
    · exact .inr ⟨rfl, hr⟩

/-- Edits end no container that a task holds, nor its bases. -/
theorem Edits.alive (h : w.Edits p held w') {c : ContainerId} (alive : w.Alive c) (hc : c ∈ held.flatMap w.chain) :
    w'.Alive c ∧ c ∈ held.flatMap w'.chain := by
  induction h with
  | refl => exact ⟨alive, hc⟩
  | @tail w₁ w₂ _ h ih =>
    obtain ⟨alive, hc⟩ := ih
    refine ⟨?_, ?_⟩
    · -- What is reached from a container that is held is not ended.
      refine (h.alive_or_ended alive).resolve_right fun ⟨_, hr⟩ => hr ?_
      obtain ⟨c₀, h₀, hc⟩ := List.mem_flatMap.1 hc
      exact List.mem_flatMap.2 ⟨c₀, List.mem_append_right _ h₀, hc⟩
    · obtain ⟨c₀, h₀, hc⟩ := List.mem_flatMap.1 hc
      refine List.mem_flatMap.2 ⟨c₀, h₀, ?_⟩
      rcases List.mem_cons.1 hc with rfl | hc
      · exact List.mem_cons_self
      · exact List.mem_cons_of_mem _ (h.bases_mem hc)

theorem Edits.alive_held (h : w.Edits p held w') {c : ContainerId} (alive : w.Alive c) (hc : c ∈ held) :
    w'.Alive c :=
  (h.alive alive (List.mem_flatMap.2 ⟨c, hc, List.mem_cons_self⟩)).1

/-- Edits give no container other bases, and none goes. -/
theorem Edits.bases_eq (h : w.Edits p held w') {c : ContainerId} (opened : c < w.containers.length) :
    c < w'.containers.length ∧ (w'.container c).bases = (w.container c).bases := by
  induction h with
  | refl => exact ⟨opened, rfl⟩
  | tail _ h ih => exact ⟨h.opened ih.1, (h.bases_eq ih.1).trans ih.2⟩

theorem Edit.serials (h : w.Edit p held w') : w.supply.serials ≤ w'.supply.serials := by
  cases h with
  | supply grows => exact grows
  | pin _ _ fresh given => exact Nat.le_of_lt (Nat.lt_of_le_of_lt fresh given)
  | save name v => cases name <;> exact Nat.le_refl _
  | release => exact Nat.le_of_eq (by rw [supply_release])
  | _ => exact Nat.le_refl _

theorem Edits.serials (h : w.Edits p held w') : w.supply.serials ≤ w'.supply.serials := by
  induction h with
  | refl => exact Nat.le_refl _
  | tail _ h ih => exact Nat.le_trans ih h.serials

/-! ## What edits do to one container -/

/-- The finalizers a container has left for its end. -/
def finals (w : World) (c : ContainerId) : List (Finalizer × Instance) :=
  Injector.finals (w.container c).callbacks.terminating

/-- What edits do to the instance of a key: it is as before, or a new one was pinned. -/
def PinsAt (w w' : World) (c : ContainerId) (key : Key) : Prop :=
  ((w'.container c).cache.get? key = (w.container c).cache.get? key ∧
    (w'.container c).cache.isPinned key = (w.container c).cache.isPinned key) ∨
  ((w'.container c).cache.isPinned key = true ∧ ∃ v, (w'.container c).cache.get? key = some v ∧
    w.supply.serials ≤ v.serial)

theorem PinsAt.of_eq {c : ContainerId} {key : Key} (h : (w'.container c).cache = (w.container c).cache) :
    PinsAt w w' c key := .inl (by rw [h]; exact ⟨rfl, rfl⟩)

theorem PinsAt.trans {w'' : World} {c : ContainerId} {key : Key} (h : PinsAt w w' c key) (h' : PinsAt w' w'' c key)
    (grows : w.supply.serials ≤ w'.supply.serials) : PinsAt w w'' c key := by
  rcases h' with ⟨same', pinned'⟩ | ⟨pinned', v, hv, fresh⟩
  · unfold PinsAt
    rw [same', pinned']
    exact h
  · exact .inr ⟨pinned', v, hv, Nat.le_trans grows fresh⟩

/-- What edits other than the end of a container do to it. -/
structure EditedAt (w w' : World) (c : ContainerId) : Prop where
  live : (w'.container c).live = (w.container c).live
  locks : (w'.container c).locks = (w.container c).locks
  finals : w'.finals c = w.finals c
  cache : ∀ key, PinsAt w w' c key

theorem EditedAt.of_eq {c : ContainerId} (h : w'.container c = w.container c) : EditedAt w w' c :=
  ⟨congrArg Container.live h, congrArg Container.locks h,
    congrArg (fun x : Container => Injector.finals x.callbacks.terminating) h, fun _ => .of_eq (by rw [h])⟩

theorem EditedAt.trans {w'' : World} {c : ContainerId} (h : EditedAt w w' c) (h' : EditedAt w' w'' c)
    (grows : w.supply.serials ≤ w'.supply.serials) : EditedAt w w'' c :=
  ⟨h'.live.trans h.live, h'.locks.trans h.locks, h'.finals.trans h.finals,
    fun key => (h.cache key).trans (h'.cache key) grows⟩

theorem editedAt_add (w : World) {x : Container} (c : ContainerId) (live : x.live = true) (locks : x.locks = {})
    (cache : x.cache = {}) (none : Injector.finals x.callbacks.terminating = []) : EditedAt w (w.add x).2 c := by
  have new := container_add w x c
  split at new
  · next e =>
    have old : w.container c = {} := container_of_ge (Nat.le_of_eq e.symm)
    refine ⟨by rw [old, new, live], by rw [old, new, locks], ?_, fun _ => .of_eq (by rw [old, new, cache])⟩
    unfold finals
    rw [old, new, none]
    rfl
  · exact .of_eq new

theorem editedAt_modifyRegistry (w : World) (c c' : ContainerId) (f : Registry → Registry) :
    EditedAt w (w.modifyRegistry c f) c' :=
  ⟨by simp, by simp, by simp [finals], fun _ => .of_eq (by simp)⟩

theorem editedAt_modifyCallbacks (w : World) (c c' : ContainerId) {f : Callbacks → Callbacks}
    (same : ∀ x, Injector.finals (f x).terminating = Injector.finals x.terminating) :
    EditedAt w (w.modifyCallbacks c f) c' :=
  ⟨by simp, by simp, field_modify (fun x => Injector.finals x.callbacks.terminating) w c c' _ fun _ => same _,
    fun _ => .of_eq (by simp)⟩

theorem Edit.editedAt (h : w.Edit p held w') (c : ContainerId) :
    EditedAt w w' c ∨ w' = w.release held ∧ c ∈ w.unreachable held := by
  cases h with
  | tell | supply | invoke | forget | giveName => exact .inl (.of_eq rfl)
  | save name v => exact .inl (.of_eq (container_save w name v c))
  | openRoot => exact .inl (editedAt_add w c rfl rfl rfl rfl)
  | @openScope base _ =>
    refine .inl (editedAt_add w c rfl rfl rfl ?_)
    simp [Injector.finals, Container.scopeOf, Callbacks.child]
  | register | addAlias => exact .inl (editedAt_modifyRegistry w _ c _)
  | @pin base _ key v s fresh =>
    refine .inl ⟨by simp, by simp, by simp [finals], fun key' => ?_⟩
    unfold PinsAt
    rw [modifyCache, container_modify]
    split
    · by_cases e : key = key'
      · exact .inr ⟨by simp [Cache.isPinned_pin, e], v, by simp [Cache.get?_pin, e], fresh⟩
      · exact .inl ⟨by simp [Cache.get?_pin, e], by simp [Cache.isPinned_pin, e]⟩
    · exact .inl ⟨rfl, rfl⟩
  | addHook => exact .inl (editedAt_modifyCallbacks w _ c fun _ => rfl)
  | addTerminating _ inScopes =>
    refine .inl (editedAt_modifyCallbacks w _ c fun x => ?_)
    unfold Callbacks.addTerminating
    dsimp only
    split <;> simp [Injector.finals]
  | release =>
    by_cases hu : c ∈ w.unreachable held
    · exact .inr ⟨rfl, hu⟩
    · exact .inl (.of_eq (by rw [container_release, if_neg hu]))

/-- Edits end no container that a task holds, and do to it what one edit could do. -/
theorem Edits.editedAt (h : w.Edits p held w') {c : ContainerId} (hc : c ∈ held) : EditedAt w w' c := by
  induction h with
  | refl => exact .of_eq rfl
  | @tail w₁ w₂ before h ih =>
    rcases h.editedAt c with step | ⟨-, hu⟩
    · exact ih.trans step (Edits.serials before)
    · obtain ⟨-, unreachable⟩ := mem_unreachable.1 hu
      exact absurd (List.mem_flatMap.2 ⟨c, List.mem_append_right _ hc, List.mem_cons_self⟩) unreachable

/-- Edits that leave a container open do to it what one edit could do. -/
theorem Edits.editedAt_of_live (h : w.Edits p held w') {c : ContainerId} (live : (w'.container c).live = true) :
    EditedAt w w' c := by
  induction h with
  | refl => exact .of_eq rfl
  | @tail w₁ w₂ before h ih =>
    rcases h.editedAt c with step | ⟨rfl, hu⟩
    · exact (ih (step.live.symm.trans live)).trans step (Edits.serials before)
    · rw [container_release, if_pos hu] at live
      cases live

theorem Edits.tickets (h : w.Edits p held w') : w'.tickets = w.tickets := by
  induction h with
  | refl => rfl
  | @tail w₁ w₂ _ h ih =>
    rw [← ih]
    cases h with
    | release => exact tickets_release w₁ held
    | save name v => cases name <;> rfl
    | _ => rfl

/-- A container keeps its build locks, or is ended and has none. -/
theorem Edits.locks (h : w.Edits p held w') (c : ContainerId) :
    (w'.container c).locks = (w.container c).locks ∨ (w'.container c).locks = {} := by
  induction h with
  | refl => exact .inl rfl
  | tail _ h ih =>
    rcases h.editedAt c with step | ⟨rfl, hu⟩
    · rw [step.locks]
      exact ih
    · rw [container_release, if_pos hu]
      exact .inr rfl

/-! ## Commands are edits -/

theorem alive_named (ok : w.Ok) {name : String} {c : ContainerId} (h : w.named name = some c) : w.Alive c := by
  obtain ⟨row, found, rfl⟩ := Option.map_eq_some_iff.1 h
  exact ok.names row (List.mem_of_find?_eq_some found)

theorem alive_target (ok : w.Ok) {self : Option ContainerId} (hself : ∀ c, self = some c → w.Alive c)
    {name : String} {c : ContainerId} (h : w.target self name = some c) : w.Alive c := by
  unfold target at h
  split at h
  · exact hself c h
  · exact alive_named ok h

theorem openRoot_edits (name : String) : w.Edits p held (w.openRoot name) := by
  refine .tail (.single .openRoot) (.giveName ?_ name)
  exact ⟨by simp [World.add], congrArg Container.live (container_add_self w {})⟩

theorem alive_openScope (c : ContainerId) : (w.openScope c).2.Alive (w.openScope c).1 :=
  ⟨by simp [World.openScope, World.add], congrArg Container.live (container_add_self w _)⟩

theorem instant_edits {c : ContainerId} (alive : w.Alive c) (target : String) (a : Instant Command Op) :
    w.Edits p held (w.instant p c target a).2 := by
  cases a with
  | openRoot name => exact openRoot_edits name
  | openScope name => exact .tail (.single (.openScope alive)) (.giveName (alive_openScope c) name)
  | clone name => exact .single (.giveName alive name)
  | drop => exact .single (.forget target)
  | register key source lifetime finalizer => exact .single (.register alive _ source lifetime finalizer)
  | pin key value =>
    obtain ⟨fresh, given⟩ := Literal.serial_makeOwn w.saved value w.supply
    exact .single (.pin alive _ fresh given)
  | addAlias key name => exact .single (.addAlias alive key name)
  | afterResolving inScopes t key hook => exact .single (.addHook alive inScopes _ _)
  | terminating inScopes callback => exact .single (.addTerminating alive inScopes callback)
  | same a b =>
    unfold instant
    dsimp only
    split <;> exact .refl
  | arguments positional keyword => exact .single (.supply (serials_makeArguments w positional keyword))
  | signature names defaults ask => exact .single (.supply (Literal.serials_makeNamed w.saved defaults w.supply))
  | read t value => exact .single (.supply (Literal.serials_make w.saved value w.supply))
  | isScope | bound | describe | compare | lifetime | parameters => exact .refl

theorem command_edits (ok : w.Ok) {self : Option ContainerId} (hself : ∀ c, self = some c → w.Alive c)
    (c : Command) : w.Edits p held (w.command p self c).2 := by
  unfold command
  split
  · exact openRoot_edits _
  · next h _ => exact instant_edits (alive_target ok hself h) _ _
  · exact .refl

theorem commands_edits {self : Option ContainerId} (cs : List Command) : ∀ {w : World}, w.Ok →
    (∀ c, self = some c → c ∈ held ∧ w.Alive c) → w.Edits p held (w.commands p held self cs).2 := by
  induction cs with
  | nil => exact fun _ _ => .refl
  | cons c rest ih =>
    intro w ok hself
    -- After each command what nobody can reach any more is ended.
    have h : w.Edits p held (((w.command p self c).2.tell
        (.performed c.heading.label (w.command p self c).1)).release held) :=
      (command_edits ok (fun d hd => (hself d hd).2) c).tail (.tell _) |>.tail .release
    have ok' := h.ok ok
    have hself' := fun d hd => (⟨(hself d hd).1, h.alive_held (hself d hd).2 (hself d hd).1⟩ : d ∈ held ∧ _)
    unfold commands
    dsimp only
    split
    · exact h
    · exact h.trans (ih ok' hself')

theorem showTo_edits {c : ContainerId} (hc : c ∈ held) (v : Instance) (hooks : List Hook) : ∀ {w : World}, w.Ok →
    w.Alive c → w.Edits p held (w.showTo p held c v hooks) := by
  induction hooks with
  | nil => exact fun _ _ => .refl
  | cons h rest ih =>
    intro w ok alive
    unfold showTo
    split
    · have told : w.Edits p held (w.tell (.hook h.script.id v (w.container c).isScope)) := .single (.tell _)
      have done : w.Edits p held _ := told.trans (commands_edits h.script.actions (told.ok ok)
        fun d (hd : some c = some d) => by
          obtain rfl := Option.some.inj hd
          exact ⟨hc, told.alive_held alive hc⟩)
      exact done.trans (ih (done.ok ok) (done.alive_held alive hc))
    · exact ih ok alive

end World

end Injector
