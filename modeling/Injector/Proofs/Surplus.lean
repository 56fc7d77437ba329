import Injector.Proofs.Deliveries
import Injector.Proofs.StandIns
/-!
# Further arguments do no harm

Positional arguments that come after all others are the last to be taken. So a slot that is filled without
them takes of the others what it took before, and may only gain: a `rest` parameter at its end, and a
primitive that was filled from its default (`Delivery.Gains`). In every run in which the parameters of a job
are all filled, they are also filled with further arguments, in the same moves; receipts tell which slot took
which of these (`System.Run.further_arguments_do_no_harm`).
-/
namespace Injector

/-! ## Receipts in surplus -/

namespace Receipts

/-- Of a list that nobody has taken from all is left. -/
theorem left_untaken (vs : List Instance) : left (vs.map fun v => (v, none)) = vs := by
  simp [left, List.filter_map, Function.comp_def]

end Receipts

/-! ## What a slot gains -/

/-- What a slot is filled with instead if there are further arguments, of which it takes those in `gained`; `got` are the
positional arguments that it takes of the others, and `named` the named ones. -/
inductive Delivery.Gains (signature : Signature) (got : List Instance) (named : List (String × Instance)) :
    Delivery → List Instance → Filled → Prop
  | keeps {d : Delivery} : Gains signature got named d [] d.filled
  | rest {position : Nat} {t : Ty} {answer : Option (Key × Except Failure Instance)} {vs gained : List Instance}
    (typed : ∀ v ∈ gained, v.ty = t) :
    Gains signature got named ⟨⟨position, .rest t⟩, answer, .rest vs⟩ gained (.rest (vs ++ gained))
  /-- A primitive that took no argument but was filled from its default takes the first that it can read. -/
  | argument {position : Nat} {q : Primitive} {default v w w' : Instance} (nothing : got = []) (unnamed : named = [])
    (defaulted : signature.defaultAt position = some default) (reads : q.read default = some w)
    (reads' : q.read v = some w') :
    Gains signature got named ⟨⟨position, .arg q⟩, none, .primitive q w⟩ [v] (.primitive q w')

/-- Only a `rest` parameter and a primitive that took no argument may gain anything. -/
theorem Delivery.Gains.eq {signature : Signature} {got gained : List Instance} {named : List (String × Instance)} {d : Delivery}
    {filled : Filled} (h : d.Gains signature got named gained filled) (single : ∀ t, d.slot.extractor ≠ .rest t)
    (given : ∀ q, d.slot.extractor = .arg q → got ≠ [] ∨ named ≠ []) : filled = d.filled ∧ gained = [] := by
  cases h with
  | keeps => exact ⟨rfl, rfl⟩
  | rest => exact absurd rfl (single _)
  | argument nothing unnamed =>
    rcases given _ rfl with some | some
    · exact absurd nothing some
    · exact absurd unnamed some

namespace Frame

variable {f f' : Frame} {filled : Filled} {got extra : List Instance} {p : Instance → Bool}

/-- How the slot at the position of frame `f`, filled with `filled`, is filled if `extra` come after all other positional
arguments: it takes some of these, and leaves the rest. -/
inductive Widens (f : Frame) (e : Extractor) (answer : Option (Key × Except Failure Instance)) (filled : Filled) (f' : Frame)
    (got extra : List Instance) : Except Failure (Filled × Frame) → Prop
  | filled {gained left : List Instance} {filled' : Filled} (parts : Parts extra gained left)
    (gains : Delivery.Gains f.signature got (f.arguments.keyword.filter fun kw => Slot.claims f.signature kw.1 ⟨f.position, e⟩)
      ⟨⟨f.position, e⟩, answer, filled⟩ gained filled') :
    Widens f e answer filled f' got extra (.ok (filled', f'.withPositional (f'.arguments.positional ++ left)))

/-- A slot that takes none of the further arguments keeps its value. -/
theorem Widens.keeps {e : Extractor} {answer : Option (Key × Except Failure Instance)} (f' : Frame) :
    f.Widens e answer filled f' got extra (.ok (filled, f'.withPositional (f'.arguments.positional ++ extra))) :=
  .filled (.none extra) .keeps

/-- What is found before the further arguments is still found. -/
theorem takePositional_append {v : Instance} {arguments : Arguments}
    (taken : f.arguments.takePositional p = some (v, arguments)) (extra : List Instance) :
    (f.withPositional (f.arguments.positional ++ extra)).arguments.takePositional p =
      some (v, { arguments with positional := arguments.positional ++ extra }) := by
  obtain ⟨v', found, same⟩ := Option.map_eq_some_iff.1 taken
  cases same
  have found' : (f.arguments.positional ++ extra).find? p = some v := by
    rw [List.find?_append, found]
    rfl
  change ((f.arguments.positional ++ extra).find? p).map _ = _
  rw [found', Option.map_some]
  change some (v, ({ f.arguments with positional := (f.arguments.positional ++ extra).eraseP p } : Arguments)) = _
  rw [List.eraseP_append_left (List.find?_some found) _ (List.mem_of_find?_eq_some found)]

/-- If nothing was found, it is found among the further arguments. -/
theorem takePositional_append_of_none (missing : f.arguments.takePositional p = none) (extra : List Instance) :
    (f.withPositional (f.arguments.positional ++ extra)).arguments.takePositional p = (extra.find? p).map fun v =>
      (v, { f.arguments with positional := f.arguments.positional ++ extra.eraseP p }) := by
  have none := Arguments.takePositional_eq_none_iff.1 missing
  change ((f.arguments.positional ++ extra).find? p).map _ = _
  rw [List.find?_append, Option.map_eq_none_iff.1 missing, Option.none_or]
  congr 1
  funext v
  change (v, ({ f.arguments with positional := (f.arguments.positional ++ extra).eraseP p } : Arguments)) = _
  rw [List.eraseP_append_right _ fun v hv => by simp [none v hv]]

theorem widens_fillDependency {e : Extractor} {answer : Option (Key × Except Failure Instance)} {t : Ty} {key : Key}
    {a : Except Failure Instance} (taken : f.fillDependency t key a = .ok (filled, f')) (got extra : List Instance) :
    f.Widens e answer filled f' got extra
      ((f.withPositional (f.arguments.positional ++ extra)).fillDependency t key a) := by
  unfold fillDependency at taken ⊢
  cases h : a.bind (Shared.expect t) with
  | ok v =>
    rw [h] at taken
    cases taken
    exact .keeps f
  | error failure =>
    rw [h] at taken
    dsimp only at taken ⊢
    split at taken
    · next v arguments first =>
      cases taken
      rw [takePositional_append first]
      exact .keeps { f with arguments }
    · cases taken

/-- A primitive without an argument of its name that can read none of the others takes none. -/
theorem got_of_missing {q : Primitive} (missing : f.arguments.takePositional q.accepts = none)
    (delivers : f.Delivers (.arg q) none filled f' got) : got = [] := by
  have takes := delivers.takes
  generalize f.arguments.keyword.filter _ = named at takes
  cases takes with
  | keyword | default => rfl
  | positional first =>
    cases first.symm.trans (Option.map_eq_none_iff.1 missing)

theorem widens_fillPrimitive {q : Primitive} (taken : f.fillPrimitive q = .ok (filled, f'))
    (delivers : f.Delivers (.arg q) none filled f' got) (extra : List Instance) :
    f.Widens (.arg q) none filled f' got extra
      ((f.withPositional (f.arguments.positional ++ extra)).fillPrimitive q) := by
  unfold fillPrimitive at taken ⊢
  rw [named_withPositional]
  cases named : (f.signature.name? f.position).bind f.arguments.takeKeyword with
  | some x =>
    obtain ⟨v, arguments⟩ := x
    have same := positional_of_named named
    rw [named] at taken
    dsimp only [Option.map_some] at taken ⊢
    split at taken
    · next w reads =>
      cases taken
      rw [← same]
      exact .keeps { f with arguments }
    · cases taken
  | none =>
    rw [named] at taken
    dsimp only [Option.map_none] at taken ⊢
    cases first : f.arguments.takePositional q.accepts with
    | some x =>
      obtain ⟨v, arguments⟩ := x
      rw [first] at taken
      cases taken
      rw [takePositional_append first]
      exact .keeps { f with arguments }
    | none =>
      rw [first] at taken
      dsimp only at taken
      rw [takePositional_append_of_none first]
      split at taken
      · next w defaulted =>
        cases taken
        cases found : extra.find? q.accepts with
        | none =>
          have default : ((f.withPositional (f.arguments.positional ++ extra)).signature.defaultAt
              (f.withPositional (f.arguments.positional ++ extra)).position).bind q.read = some w := defaulted
          rw [Option.map_none]
          dsimp only
          rw [default]
          exact .keeps f
        | some v =>
          -- Now there is an argument that it can read.
          have accepted : q.accepts v = true := List.find?_some found
          obtain ⟨w', reads'⟩ := Option.isSome_iff_exists.1 accepted
          obtain ⟨default, here, reads⟩ := Option.bind_eq_some_iff.1 defaulted
          have unnamed := (filter_of_unclaimed _ _ _ (unclaimed_of_uncalled named q)).1
          have gains := Delivery.Gains.argument (got_of_missing first delivers) unnamed here reads reads'
          rw [Option.map_some]
          dsimp only
          rw [reads', Option.getD_some]
          exact .filled (.find found) gains
      · cases taken

theorem widens_fillRest (f : Frame) (t : Ty) (answer : Option (Key × Except Failure Instance))
    (bound got extra : List Instance) : f.Widens (.rest t) answer (f.fillRest t bound).1 (f.fillRest t bound).2 got extra
      (.ok ((f.withPositional (f.arguments.positional ++ extra)).fillRest t bound)) := by
  have same : (f.withPositional (f.arguments.positional ++ extra)).fillRest t bound =
      (.rest (bound ++ f.arguments.positional.filter (fun v => v.ty = t) ++ extra.filter fun v => v.ty = t),
        (f.fillRest t bound).2.withPositional
          ((f.fillRest t bound).2.arguments.positional ++ extra.filter fun v => !decide (v.ty = t))) := by
    change (Filled.rest (bound ++ (f.arguments.positional ++ extra).filter fun v => v.ty = t),
      f.withPositional ((f.arguments.positional ++ extra).filter fun v => !decide (v.ty = t))) = _
    rw [List.filter_append, List.filter_append, ← List.append_assoc]
    rfl
  rw [same]
  exact .filled (.filter _ extra) (.rest fun v hv => by simpa using (List.mem_filter.1 hv).2)

theorem widens_fillAlone {e : Extractor} (own : e.parameters ≠ []) (taken : f.fillAlone e = .ok (filled, f'))
    (delivers : f.Delivers e none filled f' got) (extra : List Instance) :
    f.Widens e none filled f' got extra ((f.withPositional (f.arguments.positional ++ extra)).fillAlone e) := by
  cases e with
  | inject | autowired | annotated | named =>
    simp only [fillAlone] at taken ⊢
    exact widens_fillDependency taken got extra
  | arg q =>
    simp only [fillAlone] at taken ⊢
    exact widens_fillPrimitive taken delivers extra
  | rest t =>
    cases taken
    exact widens_fillRest f t none [] got extra
  | kwargs =>
    cases taken
    exact .keeps { f with arguments := f.arguments.takeKeywords.2 }
  | container =>
    cases taken
    exact .keeps f
  | inspect | lookup | replace => exact absurd rfl own

theorem widens_fillWith {e : Extractor} (own : e.parameters ≠ []) {bound : Key → Bool} {key : Key}
    (asks : e.asks bound = some key) {a : Except Failure Instance} (taken : f.fillWith key a e = .ok (filled, f'))
    (got extra : List Instance) : f.Widens e (some (key, a)) filled f' got extra
      ((f.withPositional (f.arguments.positional ++ extra)).fillWith key a e) := by
  cases e with
  | inject | autowired | annotated | named =>
    simp only [fillWith] at taken ⊢
    exact widens_fillDependency taken got extra
  | rest t =>
    unfold fillWith at taken ⊢
    dsimp only at taken ⊢
    split at taken
    · next v typed =>
      cases taken
      exact widens_fillRest f t _ _ got extra
    · cases taken
  | arg | kwargs | container => cases asks
  | inspect | lookup | replace => exact absurd rfl own

end Frame

/-! ## Jobs with further arguments -/

/-- How job `j` compares with job `j'`, which had `extra` as further arguments: `j` came from `first` with the deliveries
`ds`, which `rs` accounts for, and `xs` are the receipts for the further arguments. -/
structure Job.Widens (first : Job) (extra : List Instance) (ds : List Delivery) (rs xs : Receipts) (j j' : Job) : Prop where
  own : ∀ slot ∈ j.todo, slot.extractor.parameters ≠ []
  distinct : (first.frame.arguments.keyword.map Prod.fst).Nodup
  signed : j.frame.signature = first.frame.signature
  slots : first.todo = ds.map Delivery.slot ++ j.todo
  values : j.filled = ds.map Delivery.filled
  account : Receipts.Account first.frame.signature first.frame.arguments ds j.frame.arguments rs
  extras : xs.map Prod.fst = extra
  takers : ∀ r ∈ xs, ∀ k, r.2 = some k → k < ds.length
  other : j' = { j.withPositional (j.frame.arguments.positional ++ xs.left) with filled := j'.filled }
  length : j'.filled.length = ds.length
  gains : ∀ (k : Nat) (d : Delivery) (v : Filled), ds[k]? = some d → j'.filled[k]? = some v →
    d.Gains first.frame.signature (rs.taken k) (first.frame.arguments.keyword.filter fun kw =>
      Slot.claimant first.frame.signature (ds.map Delivery.slot) kw.1 = some k) (xs.taken k) v

/-- Whether two jobs differ by further arguments of the second one. -/
def Job.Widened (first : Job) (extra : List Instance) (j j' : Job) : Prop :=
  ∃ ds rs xs, Job.Widens first extra ds rs xs j j'

namespace Job.Widens

variable {first j j' : Job} {extra : List Instance} {ds : List Delivery} {rs xs : Receipts}

/-- Both jobs are filled further. -/
theorem fill (h : Widens first extra ds rs xs j j') {slot : Slot} {rest : List Slot} (todo : j.todo = slot :: rest)
    {answer : Option (Key × Except Failure Instance)} {filled : Filled} {frame : Frame} {got : List Instance}
    (delivers : (j.atSlot slot).frame.Delivers slot.extractor answer filled frame got)
    (spends : (j.atSlot slot).frame.Spends frame) {r : Except Failure (Filled × Frame)}
    (widens : (j.atSlot slot).frame.Widens slot.extractor answer filled frame got xs.left r) :
    Results (Widened first extra) True j j' (.ok (filled, frame)) r := by
  cases widens with
  | @filled gained left filled' parts gains =>
    obtain ⟨rs', noted⟩ := Receipts.note h.account.takers (h.account.left ▸ delivers.positional)
    obtain ⟨xs', noted'⟩ := Receipts.note h.takers parts
    have account := h.account.next_of_noted delivers h.signed rfl noted
    refine .filled ⟨_, rs', xs', ⟨?_, h.distinct, ?_, ?_, ?_, account, ?_, ?_, ?_, ?_, ?_⟩⟩
    · exact fun slot hs => h.own slot (List.mem_of_mem_tail hs)
    · rw [Frame.Spends] at spends
      change frame.signature = _
      rw [spends]
      exact h.signed
    · rw [h.slots, todo, List.map_append, List.append_assoc]
      change _ = _ ++ ([slot] ++ j.todo.tail)
      rw [todo]
      rfl
    · rw [List.map_append]
      change j.filled ++ [filled] = _
      rw [h.values]
      rfl
    · exact noted'.same.trans h.extras
    · rw [List.length_append]
      exact noted'.takers
    · rw [noted'.left]
      exact congrArg (Job.fill · filled' (frame.withPositional (frame.arguments.positional ++ left))) h.other
    · rw [List.length_append, ← h.length]
      exact List.length_append
    · intro k d v here value
      rw [List.map_append, List.map_singleton]
      change (j'.filled ++ [filled'])[k]? = some v at value
      by_cases old : k < ds.length
      · rw [List.getElem?_append_left old] at here
        rw [List.getElem?_append_left (h.length ▸ old)] at value
        have old' : k < (ds.map Delivery.slot).length := by rwa [List.length_map]
        rw [(noted.kept k old).1, (noted'.kept k old).1]
        simp only [Slot.claimant_concat_iff old']
        exact h.gains k d v here value
      · obtain rfl : k = ds.length := by
          have := (List.getElem?_eq_some_iff.1 here).1
          rw [List.length_append, List.length_singleton] at this
          omega
        rw [List.getElem?_concat_length] at here
        rw [← h.length, List.getElem?_concat_length] at value
        obtain rfl := Option.some.inj here
        obtain rfl := Option.some.inj value
        have last := Slot.filter_claimant_last first.frame.signature (ds.map Delivery.slot) slot first.frame.arguments.keyword
        rw [List.length_map, ← h.account.named] at last
        have gains' : Delivery.Gains first.frame.signature got
            (first.frame.arguments.keyword.filter fun kw =>
              Slot.claimant first.frame.signature (ds.map Delivery.slot ++ [slot]) kw.1 = some ds.length)
            ⟨slot, answer, filled⟩ gained filled' := by
          rw [last, ← h.signed]
          exact gains
        rw [noted.taken, noted'.taken]
        exact gains'

end Job.Widens

/-- Jobs with further arguments are filled as well, as long as the others are. -/
theorem Job.mirrors_widened (first : Job) (extra : List Instance) : Job.Mirrors (Job.Widened first extra) True where
  own h := by
    obtain ⟨_, _, _, h⟩ := h
    exact h.own
  same h := by
    obtain ⟨_, _, _, h⟩ := h
    rw [h.other]
    exact ⟨rfl, rfl, rfl⟩
  alone {j j' slot rest bound} h todo asks := by
    obtain ⟨ds, rs, xs, h⟩ := h
    have own := h.own slot (todo ▸ List.mem_cons_self)
    have frame : (j'.atSlot slot).frame =
        (j.atSlot slot).frame.withPositional ((j.atSlot slot).frame.arguments.positional ++ xs.left) := by
      rw [h.other]
      rfl
    rw [frame]
    cases taken : (j.atSlot slot).frame.fillAlone slot.extractor with
    | error failure => exact .lost trivial failure _
    | ok x =>
      have distinct : (j.atSlot slot).frame.Distinct := h.account.distinct h.distinct
      obtain ⟨got, delivers⟩ := Frame.delivers_fillAlone distinct own asks taken
      exact h.fill todo delivers (Frame.fills_fillAlone taken).1 (Frame.widens_fillAlone own taken delivers xs.left)
  answered {j j' slot rest key bound} a h todo asks := by
    obtain ⟨ds, rs, xs, h⟩ := h
    have own := h.own slot (todo ▸ List.mem_cons_self)
    have frame : (j'.atSlot slot).frame =
        (j.atSlot slot).frame.withPositional ((j.atSlot slot).frame.arguments.positional ++ xs.left) := by
      rw [h.other]
      rfl
    rw [frame]
    cases taken : (j.atSlot slot).frame.fillWith key a slot.extractor with
    | error failure => exact .lost trivial failure _
    | ok x =>
      obtain ⟨got, delivers⟩ := Frame.delivers_fillWith own asks taken
      exact h.fill todo delivers (Frame.fills_fillWith taken).1 (Frame.widens_fillWith own asks taken got xs.left)

namespace System

variable {p : Program}

/-- In every run in which a job of the container's own extractors comes to have all its parameters: it could have been given
any further positional arguments. In the same moves, with the same world and the same other tasks, it then has all its
parameters too. By `xs` each further argument was taken by one slot at most; by `rs` each slot took the same of the other
arguments as before. So it has its value, unless it is a `rest` parameter, which may have more at its end, or a primitive
that was filled from its default. -/
theorem Run.further_arguments_do_no_harm (run : Run p) {i n m : Nat} {f : Function} {subject : Key} {c : ContainerId}
    {inScope : Bool} {positional : List Instance} {named : List (String × Instance)} {signature : Signature}
    {path : List Key} {below : Stack .answer}
    (own : ∀ slot ∈ (Param.slotsOf f.params 0).1, slot.extractor.parameters ≠ [])
    (began : (run.state n).tasks[i]? =
      some ⟨.answer, .fill (Job.start f subject c inScope (.ofLists positional named) signature path), below⟩)
    (fills : run.FillsUntil i below n m) {j : Job} {times : Nat}
    (filled : (run.state m).tasks[i]? = some ⟨.answer, .pause j times, below⟩) (extra : List Instance) :
    ∃ other j' ds rs xs, run.Shadowed i n m
        ⟨.answer, .fill (Job.start f subject c inScope (.ofLists (positional ++ extra) named) signature path), below⟩ other ∧
      (other m).tasks[i]? = some ⟨.answer, .pause j' times, below⟩ ∧
      Job.Widens (Job.start f subject c inScope (.ofLists positional named) signature path) extra ds rs xs j j' ∧
      ds.length = (Param.slotsOf f.params 0).1.length := by
  have start : Job.Widens (Job.start f subject c inScope (.ofLists positional named) signature path) extra []
      (positional.map fun v => (v, none)) (extra.map fun v => (v, none))
      (Job.start f subject c inScope (.ofLists positional named) signature path)
      (Job.start f subject c inScope (.ofLists (positional ++ extra) named) signature path) :=
    { own, distinct := Arguments.distinct_ofLists positional named, signed := rfl, slots := rfl, values := rfl
      account := .start
      extras := by rw [List.map_map]; exact List.map_id _
      takers := fun r hr k taken => by
        obtain ⟨_, -, rfl⟩ := List.mem_map.1 hr
        cases taken
      other := by rw [Receipts.left_untaken]; rfl
      length := rfl
      gains := fun k d v here => by cases here }
  obtain ⟨other, shadowed, t, t', found, tasks, here⟩ :=
    run.shadowed (Job.mirrors_widened _ extra) ⟨_, _, _, start⟩ began fills fun _ failure lost => by
      cases filled.symm.trans lost
  obtain rfl := Option.some.inj (filled.symm.trans found)
  cases tasks with
  | asks _ _ _ atop =>
    cases atop with
    | mk _ atop => exact absurd atop.on.height (Nat.not_succ_le_self _)
  | @filled _ j' related done =>
    obtain ⟨ds, rs, xs, widens⟩ := related
    refine ⟨other, j', ds, rs, xs, shadowed, here ▸ get?_instead found _, widens, ?_⟩
    have slots := congrArg List.length widens.slots
    rw [done, List.append_nil, List.length_map] at slots
    exact slots.symm

/-- The crew comes together as well if a crate and a text are given besides. -/
theorem a_crew_with_more : ∃ f subject positional named signature extra other j j' ds rs xs,
    (crewRun.state 3).tasks[0]? = some ⟨.answer,
      .fill (Job.start f subject 0 false (.ofLists positional named) signature []), crewStack⟩ ∧
    crewRun.FillsUntil 0 crewStack 3 11 ∧ (crewRun.state 11).tasks[0]? = some ⟨.answer, .pause j 0, crewStack⟩ ∧
    extra.map Shared.ty = [.declared "Crate", .text] ∧
    crewRun.Shadowed 0 3 11
      ⟨.answer, .fill (Job.start f subject 0 false (.ofLists (positional ++ extra) named) signature []), crewStack⟩ other ∧
    (other 11).tasks[0]? = some ⟨.answer, .pause j' 0, crewStack⟩ ∧
    Job.Widens (Job.start f subject 0 false (.ofLists positional named) signature []) extra ds rs xs j j' ∧ ds.length = 4 := by
  obtain ⟨f, subject, positional, named, signature, began, own, count⟩ : ∃ f subject positional named signature,
      (crewRun.state 3).tasks[0]? = some ⟨.answer,
        .fill (Job.start f subject 0 false (.ofLists positional named) signature []), crewStack⟩ ∧
      (∀ slot ∈ (Param.slotsOf f.params 0).1, slot.extractor.parameters ≠ []) ∧ (Param.slotsOf f.params 0).1.length = 4 :=
    ⟨harbour.function "crew", (harbour.function "crew").key, _, _, (harbour.function "crew").signature, rfl, by decide, rfl⟩
  have fills : crewRun.FillsUntil 0 crewStack 3 11 := Run.fillsUntil_of_atSlots (k := 8) (by decide +kernel)
  obtain ⟨j, filled⟩ : ∃ j, (crewRun.state 11).tasks[0]? = some ⟨.answer, .pause j 0, crewStack⟩ := ⟨_, rfl⟩
  obtain ⟨other, j', ds, rs, xs, shadowed, filled', widens, length⟩ :=
    crewRun.further_arguments_do_no_harm own began fills filled [⟨100, .object "Crate" 9⟩, ⟨101, .text "aboard"⟩]
  exact ⟨f, subject, positional, named, signature, _, other, j, j', ds, rs, xs, began, fills, filled, rfl, shadowed, filled',
    widens, length.trans count⟩

end System

end Injector
