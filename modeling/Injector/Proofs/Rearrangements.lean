import Injector.Proofs.Deliveries
import Injector.Proofs.StandIns
/-!
# Only the order within a type matters

What a slot takes of the positional arguments is of one type, where borrowed text counts as text; only the
erased primitive takes any. So arguments that are rearranged without a change of order within a type
(`Rearranged`) fill the slots alike, and are left rearranged (`Frame.Rearranges`): in every run a job comes to
the same with the ones as with the others (`System.Run.only_the_order_within_a_type_matters`).
-/
namespace Injector

/-- The type that counts for the order of arguments: borrowed text is text. -/
def Ty.counted : Ty → Ty
  | .scalar .str => .text
  | t => t

/-- Whether two lists of arguments are permutations of each other that keep the order of those of one type. -/
structure Rearranged (vs ws : List Instance) : Prop where
  perm : vs.Perm ws
  order : ∀ t : Ty, (vs.filter fun v => v.ty.counted = t) = ws.filter fun v => v.ty.counted = t

/-- Whether only arguments of type `t` satisfy `p`. -/
def Only (t : Ty) (p : Instance → Bool) : Prop := ∀ v, p v = true → v.ty.counted = t

namespace Rearranged

variable {vs ws : List Instance} {p : Instance → Bool} {t : Ty}

/-- Lists with the same members of each type are permutations of each other. -/
theorem of_order (order : ∀ t : Ty, (vs.filter fun v => v.ty.counted = t) = ws.filter fun v => v.ty.counted = t) :
    Rearranged vs ws where
  perm := by
    classical
    refine List.perm_iff_count.2 fun v => ?_
    have same := congrArg (List.count v) (order v.ty.counted)
    rwa [List.count_filter (by simp), List.count_filter (by simp)] at same
  order := order

/-- Two neighbours of different types may change places. -/
theorem swap {v w : Instance} (differ : v.ty.counted ≠ w.ty.counted) (vs : List Instance) :
    Rearranged (v :: w :: vs) (w :: v :: vs) := by
  refine ⟨.swap w v vs, fun t => ?_⟩
  by_cases hv : v.ty.counted = t
  · have hw : w.ty.counted ≠ t := fun hw => differ (hv.trans hw.symm)
    simp [hv, hw]
  · simp [List.filter_cons, hv]

/-- Where all are of one type, the same satisfy a condition, in the same order. -/
theorem filter_eq (h : Rearranged vs ws) (only : Only t p) : vs.filter p = ws.filter p := by
  have within : ∀ us : List Instance, us.filter p = (us.filter fun v => v.ty.counted = t).filter p := fun us => by
    rw [List.filter_filter]
    refine List.filter_congr fun v _ => ?_
    cases holds : p v
    · rfl
    · simp [only v holds]
  rw [within vs, within ws, h.order t]

theorem find?_eq (h : Rearranged vs ws) (only : Only t p) : vs.find? p = ws.find? p := by
  rw [← List.head?_filter, ← List.head?_filter, h.filter_eq only]

/-- What is taken out is of one type; the others stay as they are. -/
theorem filter_eraseP (only : Only t p) (us : List Instance) {t' : Ty} (other : t' ≠ t) :
    ((us.eraseP p).filter fun v => v.ty.counted = t') = us.filter fun v => v.ty.counted = t' := by
  rcases List.exists_or_eq_self_of_eraseP p us with same | ⟨v, before, after, -, holds, split, erased⟩
  · rw [same]
  · have foreign : v.ty.counted ≠ t' := fun same => other (same.symm.trans (only v holds))
    rw [erased, split, List.filter_append, List.filter_append, List.filter_cons_of_neg (by simpa using foreign)]

theorem eraseP (h : Rearranged vs ws) (only : Only t p) : Rearranged (vs.eraseP p) (ws.eraseP p) := by
  refine of_order fun t' => ?_
  by_cases same : t' = t
  · subst same
    have within : ∀ us : List Instance, ((us.eraseP p).filter fun v => v.ty.counted = t') =
        (us.filter fun v => v.ty.counted = t').eraseP p := fun us => by
      rw [List.eraseP_filter]
      congr 2
      funext v
      cases holds : p v
      · rfl
      · simp [only v holds]
    rw [within, within, h.order]
  · rw [filter_eraseP only vs same, filter_eraseP only ws same, h.order]

theorem filter (h : Rearranged vs ws) (p : Instance → Bool) : Rearranged (vs.filter p) (ws.filter p) := by
  refine of_order fun t => ?_
  have commutes : ∀ us : List Instance, ((us.filter p).filter fun v => v.ty.counted = t) =
      (us.filter fun v => v.ty.counted = t).filter p := fun us => by
    rw [List.filter_filter, List.filter_filter]
    exact List.filter_congr fun _ _ => Bool.and_comm _ _
  rw [commutes, commutes, h.order]

end Rearranged

/-! ## What slots take is of one type -/

theorem only_of_ty (t : Ty) : Only t.counted fun v => v.ty = t := fun _ holds => congrArg Ty.counted (of_decide_eq_true holds)

/-- All but the erased primitive read arguments of one type. -/
theorem Primitive.only_accepts {q : Primitive} (typed : q ≠ .erased) : Only q.ty.counted q.accepts := by
  intro v accepted
  obtain ⟨serial, content⟩ := v
  cases q with
  | erased => exact absurd rfl typed
  | text =>
    cases content with
    | text => rfl
    | scalar kind =>
      cases kind with
      | str => rfl
      | _ => cases accepted
    | _ => cases accepted
  | scalar s =>
    cases content with
    | scalar kind =>
      by_cases same : kind = s
      · rw [same]
        rfl
      · simp [Primitive.accepts, Primitive.read, same] at accepted
    | _ => cases accepted

/-! ## Frames with rearranged arguments -/

namespace Frame

/-- Two results of filling a slot are the same, but that the arguments that are left are rearranged. -/
inductive Rearranges : Except Failure (Filled × Frame) → Except Failure (Filled × Frame) → Prop
  | filled {filled : Filled} {f : Frame} {ws : List Instance} (left : Rearranged f.arguments.positional ws) :
    Rearranges (.ok (filled, f)) (.ok (filled, f.withPositional ws))
  | failed (failure : Failure) : Rearranges (.error failure) (.error failure)

variable {f : Frame} {ws : List Instance} {p : Instance → Bool} {t : Ty}

theorem takePositional_withPositional (h : Rearranged f.arguments.positional ws) (only : Only t p) :
    (f.arguments.takePositional p = none ∧ (f.withPositional ws).arguments.takePositional p = none) ∨
      ∃ v left left', f.arguments.takePositional p = some (v, { f.arguments with positional := left }) ∧
        (f.withPositional ws).arguments.takePositional p = some (v, { f.arguments with positional := left' }) ∧
        Rearranged left left' := by
  have same : ws.find? p = f.arguments.positional.find? p := (h.find?_eq only).symm
  unfold Arguments.takePositional
  change _ ∧ (ws.find? p).map _ = none ∨ ∃ v left left', _ ∧ (ws.find? p).map _ = _ ∧ _
  rw [same]
  cases f.arguments.positional.find? p with
  | none => exact .inl ⟨rfl, rfl⟩
  | some v => exact .inr ⟨v, _, _, rfl, rfl, h.eraseP only⟩

theorem rearranges_fillDependency (h : Rearranged f.arguments.positional ws) (t : Ty) (key : Key)
    (a : Except Failure Instance) : Rearranges (f.fillDependency t key a) ((f.withPositional ws).fillDependency t key a) := by
  unfold fillDependency
  cases a.bind (Shared.expect t) with
  | ok v => exact .filled h
  | error failure =>
    dsimp only
    rcases takePositional_withPositional h (only_of_ty t) with ⟨no, no'⟩ | ⟨v, left, left', taken, taken', rearranged⟩
    · rw [no, no']
      exact .failed _
    · rw [taken, taken']
      exact .filled (f := { f with arguments := { f.arguments with positional := left } }) rearranged

theorem rearranges_fillPrimitive (h : Rearranged f.arguments.positional ws) {q : Primitive} (typed : q ≠ .erased) :
    Rearranges (f.fillPrimitive q) ((f.withPositional ws).fillPrimitive q) := by
  unfold fillPrimitive
  rw [named_withPositional]
  cases named : (f.signature.name? f.position).bind f.arguments.takeKeyword with
  | some x =>
    obtain ⟨v, arguments⟩ := x
    have same := positional_of_named named
    dsimp only [Option.map_some]
    cases q.read v with
    | some w => exact .filled (f := { f with arguments }) (same ▸ h)
    | none => exact .failed _
  | none =>
    dsimp only [Option.map_none]
    rcases takePositional_withPositional h (Primitive.only_accepts typed) with
      ⟨no, no'⟩ | ⟨v, left, left', taken, taken', rearranged⟩
    · have default : ((f.withPositional ws).signature.defaultAt (f.withPositional ws).position).bind q.read =
          (f.signature.defaultAt f.position).bind q.read := rfl
      rw [no, no']
      dsimp only
      rw [default]
      cases (f.signature.defaultAt f.position).bind q.read with
      | some w => exact .filled h
      | none => exact .failed _
    · rw [taken, taken']
      exact .filled (f := { f with arguments := { f.arguments with positional := left } }) rearranged

theorem rearranges_fillRest (h : Rearranged f.arguments.positional ws) (t : Ty) (bound : List Instance) :
    Rearranges (.ok (f.fillRest t bound)) (.ok ((f.withPositional ws).fillRest t bound)) := by
  have same : (f.withPositional ws).fillRest t bound = ((f.fillRest t bound).1,
      (f.fillRest t bound).2.withPositional (ws.filter fun v => !decide (v.ty = t))) := by
    unfold fillRest Arguments.drainPositional
    rw [h.filter_eq (only_of_ty t)]
    rfl
  rw [same]
  exact .filled (h.filter _)

theorem rearranges_fillAlone (h : Rearranged f.arguments.positional ws) {e : Extractor} (own : e.parameters ≠ [])
    (typed : e ≠ .arg .erased) : Rearranges (f.fillAlone e) ((f.withPositional ws).fillAlone e) := by
  cases e with
  | inject | autowired | annotated | named =>
    simp only [fillAlone]
    exact rearranges_fillDependency h _ _ _
  | arg q => exact rearranges_fillPrimitive h fun same => typed (congrArg Extractor.arg same)
  | rest t => exact rearranges_fillRest h t []
  | kwargs => exact .filled (f := { f with arguments := f.arguments.takeKeywords.2 }) h
  | container => exact .filled h
  | inspect | lookup | replace => exact absurd rfl own

theorem rearranges_fillWith (h : Rearranged f.arguments.positional ws) {e : Extractor} (own : e.parameters ≠ [])
    (typed : e ≠ .arg .erased) (key : Key) (a : Except Failure Instance) :
    Rearranges (f.fillWith key a e) ((f.withPositional ws).fillWith key a e) := by
  cases e with
  | inject | autowired | annotated | named =>
    simp only [fillWith]
    exact rearranges_fillDependency h _ _ _
  | rest t =>
    unfold fillWith
    dsimp only
    split
    · exact rearranges_fillRest h t _
    · exact .failed _
  | arg q => exact rearranges_fillAlone h own typed
  | kwargs => exact rearranges_fillAlone h own typed
  | container => exact rearranges_fillAlone h own typed
  | inspect | lookup | replace => exact absurd rfl own

end Frame

/-! ## Jobs with rearranged arguments -/

/-- Whether two jobs differ only in the order of arguments of different types, none of which an erased primitive is yet to
take. -/
structure Job.Rearranges (j j' : Job) : Prop where
  own : ∀ slot ∈ j.todo, slot.extractor.parameters ≠ []
  typed : ∀ slot ∈ j.todo, slot.extractor ≠ .arg .erased
  arguments : ∃ ws, Rearranged j.frame.arguments.positional ws ∧ j' = j.withPositional ws

namespace Job

theorem Rearranges.results {j j' : Job} (h : j.Rearranges j') {r r' : Except Failure (Filled × Frame)}
    (rearranges : Frame.Rearranges r r') : Results Rearranges False j j' r r' := by
  obtain ⟨own, typed, ws, -, rfl⟩ := h
  cases rearranges with
  | failed failure => exact .failed failure
  | filled left =>
    exact .filled ⟨fun slot hs => own slot (List.mem_of_mem_tail hs), fun slot hs => typed slot (List.mem_of_mem_tail hs),
      _, left, rfl⟩

/-- Jobs with rearranged arguments are filled alike. -/
theorem mirrors_rearranges : Mirrors Rearranges False where
  own h := h.own
  same h := by
    obtain ⟨-, -, ws, -, rfl⟩ := h
    exact ⟨rfl, rfl, rfl⟩
  alone {j j' slot rest bound} h todo asks := by
    refine h.results ?_
    have next : slot ∈ j.todo := todo ▸ List.mem_cons_self
    obtain ⟨own, typed, ws, left, rfl⟩ := h
    exact Frame.rearranges_fillAlone (f := (j.atSlot slot).frame) left (own slot next) (typed slot next)
  answered {j j' slot rest key bound} a h todo asks := by
    refine h.results ?_
    have next : slot ∈ j.todo := todo ▸ List.mem_cons_self
    obtain ⟨own, typed, ws, left, rfl⟩ := h
    exact Frame.rearranges_fillWith (f := (j.atSlot slot).frame) left (own slot next) (typed slot next) key a

/-- How far two jobs with rearranged arguments have come: both are at their slots; both have all their parameters, with the
same values, and what is left of the arguments is rearranged; or both failed in the same way. -/
inductive Agree (below : Stack .answer) : Task → Task → Prop
  | fills {t t' : Task} (fills : t.Fills below) (fills' : t'.Fills below) : Agree below t t'
  | filled {j : Job} {ws : List Instance} (times : Nat) (left : Rearranged j.frame.arguments.positional ws) :
    Agree below ⟨.answer, .pause j times, below⟩ ⟨.answer, .pause (j.withPositional ws) times, below⟩
  | failed (failure : Failure) : Agree below ⟨.answer, .give (k := .answer) (.error failure), below⟩
      ⟨.answer, .give (k := .answer) (.error failure), below⟩

theorem Rearranges.agree {below : Stack .answer} {t t' : Task} (h : Tasks Rearranges below t t') : Agree below t t' := by
  cases h with
  | fill => exact .fills ⟨by rintro _ _ ⟨⟩, by rintro _ ⟨⟩⟩ ⟨by rintro _ _ ⟨⟩, by rintro _ ⟨⟩⟩
  | asks _ _ _ atop =>
    cases atop with
    | mk activity atop => exact .fills (Task.fills_of_on atop.on) (Task.fills_of_on atop.symm.on)
  | filled related =>
    obtain ⟨-, -, ws, left, rfl⟩ := related
    exact .filled _ left
  | failed failure => exact .failed failure

end Job

namespace System

variable {p : Program}

/-- In every run, a job of the container's own extractors, without the erased primitive, that begins with some positional
arguments: as long as it is at its slots, a job with a rearrangement of these can be in its place. The world, the other
tasks and whose turn it is are the same in every move; and the one has its parameters when the other has, with the same
values and a rearrangement of the arguments left, or fails when the other fails, in the same way. -/
theorem Run.only_the_order_within_a_type_matters (run : Run p) {i n m : Nat} {f : Function} {subject : Key}
    {c : ContainerId} {inScope : Bool} {positional positional' : List Instance} {named : List (String × Instance)}
    {signature : Signature} {path : List Key} {below : Stack .answer}
    (own : ∀ slot ∈ (Param.slotsOf f.params 0).1, slot.extractor.parameters ≠ [])
    (typed : ∀ slot ∈ (Param.slotsOf f.params 0).1, slot.extractor ≠ .arg .erased)
    (rearranged : Rearranged positional positional')
    (began : (run.state n).tasks[i]? =
      some ⟨.answer, .fill (Job.start f subject c inScope (.ofLists positional named) signature path), below⟩)
    (fills : run.FillsUntil i below n m) :
    ∃ other, run.Shadowed i n m
        ⟨.answer, .fill (Job.start f subject c inScope (.ofLists positional' named) signature path), below⟩ other ∧
      ∃ t t', (run.state m).tasks[i]? = some t ∧ (other m).tasks[i]? = some t' ∧ Job.Agree below t t' := by
  have related : (Job.start f subject c inScope (.ofLists positional named) signature path).Rearranges
      (Job.start f subject c inScope (.ofLists positional' named) signature path) :=
    ⟨own, typed, positional', rearranged, rfl⟩
  obtain ⟨other, shadowed, t, t', found, tasks, here⟩ :=
    run.shadowed Job.mirrors_rearranges related began fills fun never => never.elim
  exact ⟨other, shadowed, t, t', found, here ▸ get?_instead found t', Job.Rearranges.agree tasks⟩

/-- The crew comes together in the same way if the first crate comes after what is said. -/
theorem a_crew_in_another_order : ∃ f subject positional positional' named signature other t t',
    positional.map Shared.ty = [.declared "Crate", .text, .scalar .u8, .declared "Crate", .declared "Ship"] ∧
    positional'.map Shared.ty = [.text, .declared "Crate", .scalar .u8, .declared "Crate", .declared "Ship"] ∧
    (crewRun.state 3).tasks[0]? = some ⟨.answer,
      .fill (Job.start f subject 0 false (.ofLists positional named) signature []), crewStack⟩ ∧
    Rearranged positional positional' ∧ crewRun.FillsUntil 0 crewStack 3 11 ∧
    crewRun.Shadowed 0 3 11
      ⟨.answer, .fill (Job.start f subject 0 false (.ofLists positional' named) signature []), crewStack⟩ other ∧
    (crewRun.state 11).tasks[0]? = some t ∧ (other 11).tasks[0]? = some t' ∧ Job.Agree crewStack t t' ∧
    ∃ j, t = ⟨.answer, .pause j 0, crewStack⟩ := by
  have undescribed : ∀ slot ∈ (Param.slotsOf (harbour.function "crew").params 0).1,
      slot.extractor.parameters ≠ [⟨.primitive, some .erased⟩] := by decide
  obtain ⟨f, subject, crate, ahoy, rest, named, signature, began, own, typed, types⟩ :
      ∃ f subject crate ahoy rest named signature, (crewRun.state 3).tasks[0]? = some ⟨.answer,
        .fill (Job.start f subject 0 false (.ofLists (crate :: ahoy :: rest) named) signature []), crewStack⟩ ∧
      (∀ slot ∈ (Param.slotsOf f.params 0).1, slot.extractor.parameters ≠ []) ∧
      (∀ slot ∈ (Param.slotsOf f.params 0).1, slot.extractor ≠ .arg .erased) ∧
      crate.ty = .declared "Crate" ∧ ahoy.ty = .text ∧
        rest.map Shared.ty = [.scalar .u8, .declared "Crate", .declared "Ship"] :=
    ⟨harbour.function "crew", (harbour.function "crew").key, _, _, _, _, (harbour.function "crew").signature, rfl,
      by decide, fun slot hs erased => undescribed slot hs (by rw [erased]; rfl), rfl, rfl, rfl⟩
  obtain ⟨isCrate, isText, others⟩ := types
  have rearranged : Rearranged (crate :: ahoy :: rest) (ahoy :: crate :: rest) := by
    refine .swap ?_ rest
    rw [isCrate, isText]
    decide
  have fills : crewRun.FillsUntil 0 crewStack 3 11 := Run.fillsUntil_of_atSlots (k := 8) (by decide +kernel)
  obtain ⟨other, shadowed, t, t', found, found', agree⟩ :=
    crewRun.only_the_order_within_a_type_matters own typed rearranged began fills
  obtain ⟨j, done⟩ : ∃ j, (crewRun.state 11).tasks[0]? = some ⟨.answer, .pause j 0, crewStack⟩ := ⟨_, rfl⟩
  exact ⟨f, subject, _, _, named, signature, other, t, t', by simp [isCrate, isText, others],
    by simp [isCrate, isText, others], began, rearranged, fills, shadowed, found, found', agree, j,
    Option.some.inj (found.symm.trans done)⟩

end System

end Injector
