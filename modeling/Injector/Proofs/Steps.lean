import Injector.Proofs.Effects
import Injector.Proofs.Runs
/-!
# Every step is accounted for

`Task.does_step`: each step of a task in order, in a world in order, does one of the things
that `Task.Does` lists, and goes on with open containers only. `Takes.does` says the same
of all steps in runs.
-/
namespace Injector

variable {p : Program} {env : Env} {held : List ContainerId} {w : World}

theorem World.Since.refl {cs : List ContainerId} (ok : w.Ok) (hc : ∀ c ∈ cs, c ∈ held ∧ w.Alive c) :
    w.Since p held w cs :=
  ⟨ok, .refl, fun c h => (hc c h).1, fun c h => (hc c h).2⟩

namespace Step

section Parts

variable {t : Task} {st : Step} {k : Kind} {below : Stack k}

theorem Calm.does (h : st.Calm p held w below) (builds : t.builds = below.builds) (left : t.left = below.left)
    (before : t.Plain) (spares : t.Spares w) : t.Does p held w st ∧ st.Open :=
  ⟨.calm before spares h.edited (h.builds.trans builds.symm) (h.left.trans left.symm) h.plain, h.opens⟩

theorem Provides.does (h : st.Provides p held w below) (builds : t.builds = below.builds)
    (left : t.left = below.left) (before : t.Plain) (spares : t.Spares w) : t.Does p held w st ∧ st.Open := by
  rcases h with h | ⟨b, v, h⟩
  · exact h.does builds left before spares
  · obtain ⟨w₁, edits, world⟩ := h.world
    exact ⟨.makes b v before spares w₁ edits world (h.builds.trans builds.symm) (h.left.trans left.symm)
      h.line h.hand, h.opens⟩

theorem Terminates.does {c : ContainerId} (h : st.Terminates p held w below c) (builds : t.builds = below.builds)
    (left : t.left = below.left) (before : t.Plain) (ends : t.terminates w = some c) (runs : t.finalizes = none) :
    t.Does p held w st ∧ st.Open := by
  obtain ⟨w₁, edits, alive, world, builds', left', plain, winds, opens⟩ := h
  refine ⟨.terminates c (below.height + 1) before ends runs w₁ edits alive world (builds'.trans builds.symm)
    (by rw [left', left]) (fun x hx => ?_) plain winds, opens⟩
  rw [left] at hx
  exact Nat.lt_succ_of_lt (Stack.lt_of_mem_left hx)

end Parts

/-! ## Builds -/

theorem alive_leave {b : Build} {c : ContainerId} (h : w.Alive c) : (w.leave b).Alive c := alive_modify (fun _ => rfl) h

theorem alive_letIn {b : Build} {c : ContainerId} (h : w.Alive c) : (w.letIn b).Alive c := alive_modify (fun _ => rfl) h

theorem alive_record {b : Build} (v : Instance) {c : ContainerId} (h : w.Alive c) : (w.record b v).Alive c := by
  unfold World.record
  dsimp only
  split
  · exact alive_modify (fun _ => rfl) (alive_modify (fun _ => rfl) h)
  · exact alive_modify (fun _ => rfl) h

theorem ok_record {b : Build} (v : Instance) (ok : w.Ok) (alive : w.Alive b.container) : (w.record b v).Ok := by
  have cached : (w.modifyCache b.container fun x =>
      (if b.lifetime.cached then x.insert b.key v else x).markResolved b.key.plain).Ok :=
    ok.modify alive (fun _ => rfl) (fun _ => rfl) id
  unfold World.record
  dsimp only
  split
  · exact cached.modify (alive_modify (fun _ => rfl) alive) (fun _ => rfl) (fun _ => rfl) id
  · exact cached

theorem does_resolve {r : Request} {below : Stack .answer} (ok : w.Ok) (alive : ∀ c ∈ r.container :: below.held, w.Alive c)
    (hh : ∀ c ∈ r.container :: below.held, c ∈ held) (fits : r.Fits below) :
    Task.Does p held w ⟨.answer, .resolve r, below⟩ (resolve w r below) ∧ (resolve w r below).Open := by
  have here : w.Since p held w below.held := .refl ok fun c hc =>
    ⟨hh c (List.mem_cons_of_mem _ hc), alive c (List.mem_cons_of_mem _ hc)⟩
  have right := w.right_locate r.container r.key
  unfold resolve
  split
  · next v _ =>
    have served : (serve w v below).Calm p held w below := calm_next here (fun _ hc => hc) rfl rfl (fits.asked.plain v)
    exact served.does rfl rfl ⟨rfl, rfl⟩ ⟨rfl, rfl⟩
  · exact (calm_fail here).does rfl rfl ⟨rfl, rfl⟩ ⟨rfl, rfl⟩
  · next c key binding located =>
    rw [located] at right
    have hc : w.Alive c := ok.alive_of_mem_chain (alive _ List.mem_cons_self) right.1
    split
    · exact (calm_fail here).does rfl rfl ⟨rfl, rfl⟩ ⟨rfl, rfl⟩
    · next fresh =>
      have bound : (w.container c).registry.get? key.plain = binding := right.2.2
      have unnamed : key.isName = true → r.fallback = none := by
        intro name
        cases used : r.fallback with
        | none => rfl
        | some f =>
          obtain ⟨t, plain⟩ := fits.plain f used
          have same : (w.locate r.container r.key).key = r.key := w.key_locate _ (by rw [plain]; rfl)
          rw [located, plain] at same
          cases same
          cases name
      refine ⟨.linesUp _ ⟨rfl, rfl⟩ ⟨rfl, rfl⟩ hc ⟨r.fallback, unnamed, by rw [← bound]⟩ rfl rfl rfl rfl rfl (fits.path ▸ fresh),
        open_next fun d hd => ?_⟩
      have hd : w.Alive d := (List.mem_cons.1 hd).elim (fun e => e ▸ hc) fun hd => alive d (List.mem_cons_of_mem _ hd)
      exact alive_modify (fun _ => rfl) hd

theorem does_build {b : Build} {below : Stack .answer} (alive : ∀ c ∈ b.container :: below.held, w.Alive c)
    (asked : below.Asked) :
    Task.Does p held w ⟨.answer, .line b, below⟩ (build (w.letIn b) b below) ∧ (build (w.letIn b) b below).Open := by
  have left : ∀ c ∈ below.held, ((w.letIn b).leave b).Alive c := by
    intro c hc
    exact alive_leave (alive_letIn (alive c (List.mem_cons_of_mem _ hc)))
  have opened : ∀ c, c = b.container ∨ c = b.container ∨ c ∈ below.held → (w.letIn b).Alive c := by
    intro c hc
    exact alive_letIn (alive c (List.mem_cons.2 (hc.elim .inl id)))
  have found : ∀ m, b.maker = some m → b.binding ≠ none := by
    intro m maker nothing
    rw [Build.maker, nothing] at maker
    cases maker
  unfold build
  split
  · -- While it was in line, another build has made the instance.
    exact ⟨.skips b rfl rfl ⟨rfl, rfl⟩ rfl rfl rfl (asked.plain _), open_next left⟩
  · next nothing =>
    rw [show ((w.letIn b).container b.container).cache = _ from World.cache_modifyLocks ..] at nothing
    split
    · next maker =>
      have made := World.serials_makeArguments (w.letIn b) (b.key.tags.map .text) []
      refine ⟨.begins b rfl rfl ⟨rfl, rfl⟩ nothing (.single (.supply made)) rfl rfl ⟨rfl, rfl⟩ (found _ maker),
        open_next fun c hc => ?_⟩
      exact opened c (by simpa [Activity.held, Stack.held, Cont.held, Job.start] using hc)
    · next maker =>
      refine ⟨.begins b rfl rfl ⟨rfl, rfl⟩ nothing .refl rfl rfl ⟨rfl, rfl⟩ (found _ maker), open_next fun c hc => ?_⟩
      exact opened c (by simpa [Activity.held, Stack.held, Cont.held] using hc)
    · -- There is neither a binding nor a fallback.
      refine ⟨.skips b rfl rfl ⟨rfl, rfl⟩ rfl rfl rfl ?_, open_next left⟩
      cases below with
      | cons c below => cases c <;> exact ⟨rfl, rfl⟩

theorem does_built {b : Build} {answer : Except Failure Instance} {below : Stack .answer} (ok : w.Ok)
    (alive : ∀ c ∈ b.container :: below.held, w.Alive c) (hh : ∀ c ∈ b.container :: below.held, c ∈ env.held)
    (asked : below.Asked) :
    Task.Does env.program env.held w ⟨.answer, .give answer, .cons (.build b) below⟩ (built env w b answer below) ∧
      (built env w b answer below).Open := by
  have hb := alive _ List.mem_cons_self
  cases answer with
  | error f =>
    refine ⟨.aborts b ⟨rfl, rfl⟩ ⟨rfl, rfl⟩ rfl rfl rfl ?_, open_next fun c hc => ?_⟩
    · cases below with
      | cons c below => cases c <;> exact ⟨rfl, rfl⟩
    · exact alive_leave (alive c (List.mem_cons_of_mem _ hc))
  | ok v =>
    have shown : (w.record b v).Edits env.program env.held _ := World.showTo_edits (hh _ List.mem_cons_self) v
      ((w.record b v).hooksFor b) (ok_record v ok hb) (alive_record v hb)
    refine ⟨.completes b v rfl rfl ⟨rfl, rfl⟩ _ shown rfl rfl rfl (asked.plain v), open_next fun c hc => ?_⟩
    have hc := List.mem_cons_of_mem b.container hc
    exact alive_leave (shown.alive_held (alive_record v (alive c hc)) (hh c hc))

/-! ## Ends -/

theorem does_windDown {path : List Key} {ts : List Teardown} {below : Stack .done} (ok : w.Ok)
    (alive : ∀ c ∈ below.held, w.Alive c) (hh : ∀ c ∈ below.held, c ∈ held) :
    Task.Does p held w ⟨.done, .windDown path ts, below⟩ (windDown w path ts below) ∧
      (windDown w path ts below).Open := by
  have here : w.Since p held w below.held := .refl ok fun c hc => ⟨hh c hc, alive c hc⟩
  cases ts with
  | nil =>
    have finished : (finish w below).Calm p held w below := calm_next here (fun _ hc => hc) rfl rfl ⟨rfl, rfl⟩
    exact finished.does rfl rfl ⟨rfl, rfl⟩ ⟨rfl, rfl⟩
  | cons x ts =>
    cases x with
    | callback s =>
      obtain ⟨world, builds, left, plain, opens⟩ :=
        callback_shows (w.tell (.terminating s.id)) path s.actions ts below
      refine ⟨.calm ⟨rfl, rfl⟩ ⟨rfl, rfl⟩ ⟨[], ?_⟩ builds left plain, opens alive⟩
      exact (congrArg (w.Edits p held) world).mpr (.single (.tell _))
    | finalize f v =>
      unfold windDown
      dsimp only
      split
      · next same =>
        obtain ⟨world, builds, left, plain, opens⟩ :=
          callback_shows (w.tell (.finalized f.script.id v)) path f.script.actions ts below
        refine ⟨.finalizes (below.height, f, v) ⟨rfl, rfl⟩ rfl ?_ world builds ?_ plain, opens alive⟩
        · simp [Task.finalizes, same]
        · rw [left]; rfl
      · next other =>
        refine ⟨.passes (below.height, f, v) ⟨rfl, rfl⟩ ⟨rfl, ?_⟩ other rfl rfl rfl ⟨rfl, rfl⟩, open_next alive⟩
        simp [Task.finalizes, other]

theorem does_callback {path : List Key} {r : Reply} {heading : Heading} {rest : List Op} {ts : List Teardown}
    {below : Stack .done} (alive : ∀ c ∈ below.held, w.Alive c) :
    Task.Does p held w ⟨.reply, .give r, .cons (.callback path heading rest ts) below⟩
        (replied w r (.callback path heading rest ts) below) ∧
      (replied w r (.callback path heading rest ts) below).Open := by
  have told : w.Edited p held (w.tell (.performed heading.label r)) := ⟨[], .single (.tell _)⟩
  unfold replied
  dsimp only
  split
  · exact ⟨.calm ⟨rfl, rfl⟩ ⟨rfl, rfl⟩ told rfl rfl ⟨rfl, rfl⟩, open_next alive⟩
  · obtain ⟨world, builds, left, plain, opens⟩ :=
      callback_shows (w.tell (.performed heading.label r)) path rest ts below
    exact ⟨.calm ⟨rfl, rfl⟩ ⟨rfl, rfl⟩ (by rw [world]; exact told) builds left plain, opens alive⟩

/-! ## Operations -/

theorem does_scopeBody {scope : ContainerId} {name : String} {path : List Key} {r : Reply} {heading : Heading}
    {rest : List Op} {below : Stack .reply} (ok : w.Ok) (alive : ∀ c ∈ scope :: below.held, w.Alive c)
    (hh : ∀ c ∈ scope :: below.held, c ∈ held) :
    Task.Does p held w ⟨.reply, .give r, .cons (.scopeBody scope name path heading rest) below⟩
        (replied w r (.scopeBody scope name path heading rest) below) ∧
      (replied w r (.scopeBody scope name path heading rest) below).Open := by
  have told : (w.tell (.performed heading.label r)).Since p held w (scope :: below.held) :=
    (World.Since.refl ok fun c hc => ⟨hh c hc, alive c hc⟩).edit (.tell _)
  have ends : ∀ reply : Reply, (terminate ((w.tell (.performed heading.label r)).forget name) scope path reply
      below).Terminates p held w below scope := fun reply =>
    have forgot := told.edit (.forget name)
    terminates_terminate forgot.edits (forgot.alive _ List.mem_cons_self) fun c hc =>
      forgot.alive c (List.mem_cons_of_mem _ hc)
  unfold replied
  dsimp only
  -- The scope is terminated if an operation of its body fails, or none is left.
  split
  · next stops => exact (ends _).does rfl rfl ⟨rfl, rfl⟩ (by simp [Task.terminates, stops]) rfl
  · next stops =>
    cases rest with
    | nil => exact (ends _).does rfl rfl ⟨rfl, rfl⟩ (by simp [Task.terminates]) rfl
    | cons o rest =>
      refine ⟨.calm ⟨rfl, rfl⟩ ⟨?_, rfl⟩ told.edited rfl rfl ⟨rfl, rfl⟩, open_next fun c hc => told.alive c ?_⟩
      · simp [Task.terminates, stops]
      · simpa [Activity.held, Stack.held, Cont.held] using hc

theorem does_body {j : Job} {r : Reply} {heading : Heading} {rest : List Op} {below : Stack .answer} (ok : w.Ok)
    (fits : j.Fits below) (alive : ∀ c ∈ j.frame.container :: below.held, w.Alive c)
    (hh : ∀ c ∈ j.frame.container :: below.held, c ∈ held) :
    Task.Does p held w ⟨.reply, .give r, .cons (.body j heading rest) below⟩
        (replied w r (.body j heading rest) below) ∧ (replied w r (.body j heading rest) below).Open := by
  have told : (w.tell (.performed heading.label r)).Since p held w (j.frame.container :: below.held) :=
    (World.Since.refl ok fun c hc => ⟨hh c hc, alive c hc⟩).edit (.tell _)
  unfold replied
  dsimp only
  split
  · exact (calm_fail (told.mono fun _ hc => List.mem_cons_of_mem _ hc)).does rfl rfl ⟨rfl, rfl⟩ ⟨rfl, rfl⟩
  · exact (provides_body fits told).does rfl rfl ⟨rfl, rfl⟩ ⟨rfl, rfl⟩

theorem does_scope {s : Scene} {heading : Heading} {c : ContainerId} {name : String} {ops : List Op}
    {below : Stack .reply} (found : w.target s.self heading.target = some c) (hc : w.Alive c)
    (alive : ∀ d ∈ below.held, w.Alive d) :
    Task.Does p held w ⟨.reply, .perform s (.lasting heading (.scope name ops)), below⟩
        (lasting env w s c (.scope name ops) below) ∧ (lasting env w s c (.scope name ops) below).Open := by
  have opened : w.Edits p held ((w.openScope c).2.giveName name (w.openScope c).1) :=
    .tail (.single (.openScope hc)) (.giveName (World.alive_openScope c) name)
  have hscope : ((w.openScope c).2.giveName name (w.openScope c).1).Alive (w.openScope c).1 := World.alive_openScope c
  have alive : ∀ d ∈ below.held, ((w.openScope c).2.giveName name (w.openScope c).1).Alive d := by
    intro d hd
    exact World.Ok.alive_add (alive d hd)
  cases ops with
  | nil =>
    have ends : (lasting env w s c (.scope name []) below).Terminates p held w below (w.openScope c).1 :=
      terminates_terminate (opened.tail (.forget name)) hscope alive
    exact ends.does rfl rfl ⟨rfl, rfl⟩ (by simp [Task.terminates, found]) rfl
  | cons o rest =>
    refine ⟨.calm ⟨rfl, rfl⟩ ⟨rfl, rfl⟩ ⟨[], opened⟩ rfl rfl ⟨rfl, rfl⟩, open_next fun d hd => ?_⟩
    have hd : d ∈ (w.openScope c).1 :: (w.openScope c).1 :: below.held := hd
    rcases List.mem_cons.1 hd with rfl | hd
    · exact hscope
    · exact (List.mem_cons.1 hd).elim (fun e => e ▸ hscope) (alive d)

theorem calm_onResolved {s : Scene} {c : ContainerId} {t : Ty} {key : Key} {script : Script Command}
    {below : Stack .reply} (ok : w.Ok) (hc : w.Alive c) (alive : ∀ d ∈ below.held, w.Alive d)
    (hh : ∀ d ∈ below.held, d ∈ env.held) :
    (lasting env w s c (.onResolved t key script) below).Calm env.program env.held w below := by
  have here : w.Since env.program (c :: env.held) w (c :: below.held) := .refl ok fun d hd => by
    rcases List.mem_cons.1 hd with rfl | hd
    · exact ⟨List.mem_cons_self, hc⟩
    · exact ⟨List.mem_cons_of_mem _ (hh d hd), alive d hd⟩
  have added := here.edit (.addHook hc false (w.unalias (w.chain c) (w.unalias (w.chain c) key)) ⟨t, script⟩)
  have sub : ∀ d ∈ below.held, d ∈ c :: below.held := by
    intro _ hd
    exact List.mem_cons_of_mem _ hd
  -- Hooks are shown the instance while `c` is kept alive as well.
  have widen : ∀ {st : Step}, st.Calm env.program (c :: env.held) w below → st.Calm env.program env.held w below :=
    fun ⟨⟨others, edits⟩, builds, left, plain, opens⟩ =>
      ⟨⟨others ++ [c], by rw [List.append_assoc]; exact edits⟩, builds, left, plain, opens⟩
  unfold lasting
  dsimp only
  split
  · split
    · next v _ =>
      refine widen (calm_reply ((added.trans ?_).mono sub))
      exact World.showTo_edits List.mem_cons_self v _ added.ok (added.alive c List.mem_cons_self)
    · exact widen (calm_next added (fun d hd => by simpa [Activity.held, Stack.held, Cont.held] using hd) rfl rfl ⟨rfl, rfl⟩)
  · exact widen (calm_reply (added.mono sub))

theorem does_perform {s : Scene} {o : Op} {below : Stack .reply} (ok : w.Ok)
    (alive : ∀ c ∈ s.self.toList ++ below.held, w.Alive c) (hh : ∀ c ∈ s.self.toList ++ below.held, c ∈ env.held) :
    Task.Does env.program env.held w ⟨.reply, .perform s o, below⟩ (perform env w s o below) ∧
      (perform env w s o below).Open := by
  have hself : ∀ c, s.self = some c → w.Alive c := by
    intro c hc
    exact alive c (List.mem_append_left _ (Option.mem_toList.2 hc))
  have alive' : ∀ c ∈ below.held, w.Alive c := by
    intro c hc
    exact alive c (List.mem_append_right _ hc)
  have hh' : ∀ c ∈ below.held, c ∈ env.held := by
    intro c hc
    exact hh c (List.mem_append_right _ hc)
  have here : w.Since env.program env.held w below.held := .refl ok fun c hc => ⟨hh' c hc, alive' c hc⟩
  cases o with
  | instant c =>
    have done := here.trans (World.command_edits ok hself c)
    exact (calm_reply done).does rfl rfl ⟨rfl, rfl⟩ ⟨rfl, rfl⟩
  | lasting heading action =>
    unfold perform
    dsimp only
    split
    · next c found =>
      have hc := World.alive_target ok hself found
      have alive₁ : ∀ d ∈ c :: below.held, w.Alive d := by
        intro d hd
        rcases List.mem_cons.1 hd with rfl | hd
        · exact hc
        · exact alive' d hd
      cases action with
      | get expected key autowired save =>
        refine ⟨.calm ⟨rfl, rfl⟩ ⟨rfl, rfl⟩ ⟨[], .refl⟩ rfl rfl ⟨rfl, rfl⟩, open_next fun d hd => ?_⟩
        exact alive₁ d (by simpa [Activity.held, Stack.held, Cont.held] using hd)
      | call function positional keyword save =>
        unfold lasting
        dsimp only
        split
        · have made := World.serials_makeArguments w positional keyword
          refine ⟨.calm ⟨rfl, rfl⟩ ⟨rfl, rfl⟩ ⟨[], .single (.supply made)⟩ rfl rfl ⟨rfl, rfl⟩,
            open_next fun d hd => ?_⟩
          exact alive₁ d (by simpa [Activity.held, Stack.held, Cont.held, Job.start] using hd)
        · exact (calm_reply here).does rfl rfl ⟨rfl, rfl⟩ ⟨rfl, rfl⟩
      | onResolved t key hook => exact (calm_onResolved ok hc alive' hh').does rfl rfl ⟨rfl, rfl⟩ ⟨rfl, rfl⟩
      | terminate =>
        have ends : (lasting env w s c .terminate below).Terminates env.program env.held w below c :=
          terminates_terminate .refl hc alive'
        exact ends.does rfl rfl ⟨rfl, rfl⟩ found rfl
      | scope name ops => exact does_scope found hc alive'
      | join ops =>
        refine ⟨.calm ⟨rfl, rfl⟩ ⟨rfl, rfl⟩ ⟨[], .refl⟩ rfl rfl ⟨rfl, rfl⟩, alive', fun t ht => ?_⟩
        obtain ⟨o, _, rfl⟩ := List.mem_map.1 ht
        exact ⟨_, o, rfl, fun c hc => alive c (List.mem_append_left _ hc)⟩
    · -- Without a container to do it on, an operation does nothing.
      next found =>
      refine (calm_reply here).does rfl rfl ⟨rfl, rfl⟩ ⟨?_, rfl⟩
      cases action with
      | scope name ops => cases ops <;> simp [Task.terminates, found]
      | terminate => exact found
      | get | call | onResolved | join => rfl

/-! ## Outcomes -/

theorem does_handOver {k : Kind} {outcome : k.Outcome} {below : Stack k} (ok : w.Ok) (wf : below.Wf)
    (alive : ∀ c ∈ below.held, w.Alive c) (hh : ∀ c ∈ below.held, c ∈ env.held) :
    Task.Does env.program env.held w ⟨k, .give outcome, below⟩ (handOver env w outcome below) ∧
      (handOver env w outcome below).Open := by
  have here : w.Since env.program env.held w below.held := .refl ok fun c hc => ⟨hh c hc, alive c hc⟩
  cases below with
  | nil => exact (calm_reply here).does rfl rfl ⟨rfl, rfl⟩ ⟨rfl, rfl⟩
  | @cons a b c below =>
    have rest : w.Since env.program env.held w below.held := here.mono fun d hd => List.mem_append_right _ hd
    cases c with
    | slot j key =>
      exact Calm.does (calm_slot here) rfl rfl (by cases outcome <;> exact ⟨rfl, rfl⟩) ⟨rfl, rfl⟩
    | build b =>
      obtain ⟨fits, _⟩ := wf
      exact does_built ok alive hh fits.asked
    | convert product input =>
      exact Provides.does (provides_convert rest) rfl rfl (by cases outcome <;> exact ⟨rfl, rfl⟩) ⟨rfl, rfl⟩
    | deliver c expected save =>
      exact Calm.does (calm_deliver rest) rfl rfl (by cases outcome <;> exact ⟨rfl, rfl⟩) ⟨rfl, rfl⟩
    | observe c =>
      exact Calm.does (calm_reply rest) rfl rfl (by cases outcome <;> exact ⟨rfl, rfl⟩) ⟨rfl, rfl⟩
    | body j heading ops => exact does_body ok wf.1 alive hh
    | scopeBody scope name path heading ops => exact does_scopeBody ok alive hh
    | callback path heading ops ts => exact does_callback alive
    | close c r => exact (calm_reply rest).does rfl rfl ⟨rfl, rfl⟩ ⟨rfl, rfl⟩

end Step

/-- What a step of a task does, when world and task are in order. -/
theorem Task.does_step (env : Env) {t : Task} (ok : w.Ok) (wf : t.Wf) (alive : ∀ c ∈ t.held, w.Alive c)
    (hh : ∀ c ∈ t.held, c ∈ env.held) : t.Does env.program env.held w (t.step env w) ∧ (t.step env w).Open := by
  obtain ⟨k, a, below⟩ := t
  have here : w.Since env.program env.held w (a.held ++ below.held) := .refl ok fun c hc => ⟨hh c hc, alive c hc⟩
  have calm : ∀ {st : Step} (quiet : Task.Plain ⟨k, a, below⟩) (spares : Task.Spares w ⟨k, a, below⟩)
      (left : Task.left ⟨k, a, below⟩ = below.left), st.Calm env.program env.held w below →
      Task.Does env.program env.held w ⟨k, a, below⟩ st ∧ st.Open :=
    fun quiet spares left h => h.does rfl left quiet spares
  cases a with
  | resolve r => exact Step.does_resolve ok alive hh wf.activity
  | line b => exact Step.does_build alive wf.activity.asked
  | fill j => exact calm ⟨rfl, rfl⟩ ⟨rfl, rfl⟩ rfl (Step.calm_fill here)
  | pause j times =>
    cases times with
    | zero => exact (Step.provides_start wf.activity here rfl).does rfl rfl ⟨rfl, rfl⟩ ⟨rfl, rfl⟩
    | succ n => exact calm ⟨rfl, rfl⟩ ⟨rfl, rfl⟩ rfl (Step.calm_next here (fun _ hc => hc) rfl rfl ⟨rfl, rfl⟩)
  | perform s o => exact Step.does_perform ok alive hh
  | windDown path ts => exact Step.does_windDown ok alive hh
  | await tasks => exact calm ⟨rfl, rfl⟩ ⟨rfl, rfl⟩ rfl (Step.calm_next here (fun _ hc => hc) rfl rfl ⟨rfl, rfl⟩)
  | give outcome => exact Step.does_handOver ok wf.stack alive hh

/-- What a step in a run does. -/
theorem System.Takes.does {s : System} {t : Nat} {task : Task} {st : Step} (h : s.Takes p t task st)
    (ok : s.world.Ok) (wf : task.Wf) (alive : ∀ c ∈ task.held, s.world.Alive c) (hh : ∀ c ∈ task.held, c ∈ s.held) :
    task.Does p s.held s.world st ∧ st.Open := by
  cases h with
  | step => exact Task.does_step ⟨p, s.held, s.tasks.length⟩ ok wf alive hh
  | joined =>
    have here : s.world.Since p s.held s.world _ := .refl ok fun c hc => ⟨hh c hc, alive c hc⟩
    exact (Step.calm_reply here).does rfl rfl ⟨rfl, rfl⟩ ⟨rfl, rfl⟩

end Injector
