import Injector.Proofs.Positions
import Injector.Proofs.Deliveries
/-!
# Lists of primitives

The parameters of a flat list of primitives compete for the arguments: a parameter finds what those
before it have left. `Origin.Of` tells by number and name which argument a parameter is read from,
without a look at what is left: its own keyword argument unless a parameter of the same name has claimed
it, else the earliest positional argument that it accepts and none before it took, else its default.
In every run this is what happens, as long as what there is can be read (`Run.primitives_are_filled`).
-/
namespace Injector

/-- What a primitive parameter is read from: the argument of its name, the positional argument of a number,
or its default. -/
inductive Origin where
  | keyword (name : String) (v : Instance)
  | positional (number : Nat) (v : Instance)
  | default (v : Instance)

namespace Origin

/-- What is read. -/
def source : Origin → Instance
  | .keyword _ v | .positional _ v | .default v => v

/-- The name whose argument is claimed. -/
def name? : Origin → Option String
  | .keyword name _ => some name
  | _ => none

/-- The number of the positional argument that is taken. -/
def number? : Origin → Option Nat
  | .positional k _ => some k
  | _ => none

/-- What a parameter is filled with. -/
def filled (q : Primitive) (o : Origin) : Filled := .primitive q ((q.read o.source).getD o.source)

section
variable (signature : Signature) (arguments : Arguments) (before : List Origin)

/-- Whether `v` is the argument of the name of the parameter after `before`, of which no parameter in `before` claimed it. -/
structure Called (name : String) (v : Instance) : Prop where
  named : signature.name? before.length = some name
  given : (name, v) ∈ arguments.keyword
  unclaimed : ∀ o ∈ before, o.name? ≠ some name

/-- Whether `v` is the positional argument number `k`, no parameter in `before` took it, and `q` accepts it. -/
structure Fits (q : Primitive) (k : Nat) (v : Instance) : Prop where
  there : arguments.positional[k]? = some v
  untaken : ∀ o ∈ before, o.number? ≠ some k
  accepted : q.accepts v = true

/-- Which origin the parameter after `before` has, if it is to be a `q`. -/
inductive Of (q : Primitive) : Origin → Prop
  | keyword {name : String} {v : Instance} (called : Called signature arguments before name v) : Of q (.keyword name v)
  | positional {k : Nat} {v : Instance} (uncalled : ∀ name w, ¬ Called signature arguments before name w)
    (fits : Fits arguments before q k v) (first : ∀ l < k, ∀ w, ¬ Fits arguments before q l w) : Of q (.positional k v)
  | default {v : Instance} (uncalled : ∀ name w, ¬ Called signature arguments before name w)
    (nothing : ∀ k w, ¬ Fits arguments before q k w) (default : signature.defaultAt before.length = some v)
    (accepted : q.accepts v = true) : Of q (.default v)

/-- Why the parameter after `before` fails: the argument of its name is there, but it cannot be read; or there is nothing
at all to read it from. -/
inductive Fails (callable : String) (q : Primitive) : Failure → Prop
  | unreadable {name : String} {v : Instance} (called : Called signature arguments before name v)
    (unread : q.accepts v = false) : Fails callable q (.incorrectType q.ty v.ty)
  | missing (nothing : ∀ o, ¬ Of signature arguments before q o) :
    Fails callable q (.missingArgument (signature.labelAt before.length) before.length callable q.ty)

end

/-- Whether `os` are the origins of the first parameters of a list, one after the other, and all of them can be read. -/
def Assigned (signature : Signature) (arguments : Arguments) (qs : List Primitive) (os : List Origin) : Prop :=
  ∀ k o, os[k]? = some o → ∃ q, qs[k]? = some q ∧ Of signature arguments (os.take k) q o ∧ q.accepts o.source = true

end Origin

/-! ## What is left by number -/

namespace Arguments

/-- Entries by their numbers: those that are not taken. -/
def untaken (vs : List Instance) (taken : Nat → Bool) : List Instance :=
  (vs.zipIdx.filter fun x => !taken x.2).map Prod.fst

variable {vs : List Instance} {taken : Nat → Bool} {p : Instance → Bool}

/-- The first entry of a list is found, and its number. -/
theorem find?_zipIdx {f : Instance × Nat → Bool} {v : Instance} {k : Nat} (found : vs.zipIdx.find? f = some (v, k)) :
    vs[k]? = some v ∧ f (v, k) = true ∧ ∀ l < k, ∀ w, vs[l]? = some w → f (w, l) = false := by
  obtain ⟨holds, i, within, here, others⟩ := List.find?_eq_some_iff_getElem.1 found
  rw [List.getElem_zipIdx, Nat.zero_add] at here
  obtain ⟨rfl, rfl⟩ := Prod.mk.inj here
  rw [List.length_zipIdx] at within
  refine ⟨List.getElem?_eq_getElem within, holds, fun l hl w hw => ?_⟩
  obtain ⟨_, rfl⟩ := List.getElem?_eq_some_iff.1 hw
  simpa using others l hl

theorem find?_untaken : (untaken vs taken).find? p = (vs.zipIdx.find? fun x => p x.1 && !taken x.2).map Prod.fst := by
  rw [untaken, List.find?_map, List.find?_filter]
  congr 2
  funext x
  simp [Bool.and_comm, Bool.decide_and]

/-- Where keys are distinct, one entry is erased by its key. -/
theorem eraseP_eq_filter {α κ : Type} [DecidableEq κ] {f : α → Bool} {key : α → κ} {l : List α} {x : α}
    (distinct : (l.map key).Nodup) (found : l.find? f = some x) : l.eraseP f = l.filter fun y => key y ≠ key x := by
  induction l with
  | nil => cases found
  | cons y l ih =>
    obtain ⟨new, distinct⟩ := List.nodup_cons.1 distinct
    by_cases here : f y = true
    · rw [List.find?_cons_of_pos here] at found
      obtain rfl := Option.some.inj found
      rw [List.eraseP_cons_of_pos here, List.filter_cons_of_neg (by simp)]
      refine (List.filter_eq_self.2 fun z hz => ?_).symm
      have differs : key z ≠ key y := fun same => new (same ▸ List.mem_map_of_mem hz)
      simpa using differs
    · rw [List.find?_cons_of_neg here] at found
      have differs : key y ≠ key x := fun same => new (same ▸ List.mem_map_of_mem (List.mem_of_find?_eq_some found))
      rw [List.eraseP_cons_of_neg here, ih distinct found, List.filter_cons_of_pos (by simpa using differs)]

theorem eraseP_untaken {v : Instance} {k : Nat} (found : (vs.zipIdx.find? fun x => p x.1 && !taken x.2) = some (v, k)) :
    (untaken vs taken).eraseP p = untaken vs fun l => taken l || decide (l = k) := by
  have distinct : (vs.zipIdx.map Prod.snd).Nodup := by
    rw [List.zipIdx_map_snd]
    exact List.nodup_range'
  rw [untaken, List.eraseP_map, List.eraseP_filter]
  change List.map Prod.fst (List.filter _ (vs.zipIdx.eraseP fun x => p x.1 && !taken x.2)) = _
  rw [eraseP_eq_filter distinct found, List.filter_filter, untaken]
  congr 2
  funext x
  simp

end Arguments

namespace Origin

/-- Which positional arguments are taken. -/
def takes (os : List Origin) (k : Nat) : Bool := os.any fun o => o.number? = some k

/-- Which names are claimed. -/
def claims (os : List Origin) (name : String) : Bool := os.any fun o => o.name? = some name

/-- Whether `unspent` is what parameters with the origins `os` have left of the arguments. -/
structure Leaves (arguments : Arguments) (os : List Origin) (unspent : Arguments) : Prop where
  positional : unspent.positional = Arguments.untaken arguments.positional (takes os)
  keyword : unspent.keyword = arguments.keyword.filter fun kw => !claims os kw.1

theorem takes_eq_false {os : List Origin} {k : Nat} : takes os k = false ↔ ∀ o ∈ os, o.number? ≠ some k := by
  simp [takes]

theorem claims_eq_false {os : List Origin} {name : String} : claims os name = false ↔ ∀ o ∈ os, o.name? ≠ some name := by
  simp [claims]

/-- Who takes no positional argument leaves them all. -/
theorem takes_concat {o : Origin} (none : o.number? = none) (os : List Origin) : takes (os ++ [o]) = takes os := by
  funext k
  simp [takes, none]

/-- Who claims no name leaves them all. -/
theorem claims_concat {o : Origin} (none : o.name? = none) (os : List Origin) : claims (os ++ [o]) = claims os := by
  funext name
  simp [claims, none]

theorem leaves_start (arguments : Arguments) : Leaves arguments [] arguments where
  positional := by
    have all : (arguments.positional.zipIdx.filter fun x => !takes [] x.2) = arguments.positional.zipIdx :=
      List.filter_eq_self.2 fun _ _ => rfl
    rw [Arguments.untaken, all, List.zipIdx_map_fst]
  keyword := (List.filter_eq_self.2 fun _ _ => rfl).symm

namespace Leaves

variable {signature : Signature} {arguments unspent after : Arguments} {os : List Origin} {q : Primitive} {v : Instance}
  {name : String}

/-- The argument of the name is there if no parameter before claimed it. -/
theorem called (h : Leaves arguments os unspent) (named : signature.name? os.length = some name)
    (taken : unspent.takeKeyword name = some (v, after)) :
    Called signature arguments os name v ∧ Leaves arguments (os ++ [.keyword name v]) after := by
  obtain ⟨⟨name', v⟩, found, same⟩ := Option.map_eq_some_iff.1 taken
  cases same
  have same : (name' == name) = true := List.find?_some (p := fun kw : String × Instance => kw.1 == name) found
  obtain rfl := eq_of_beq same
  have left := List.mem_of_find?_eq_some found
  rw [h.keyword] at left
  obtain ⟨given, unclaimed⟩ := List.mem_filter.1 left
  refine ⟨⟨named, given, claims_eq_false.1 (by simpa using unclaimed)⟩, ?_, ?_⟩
  · rw [takes_concat rfl]
    exact h.positional
  · change unspent.keyword.filter _ = _
    rw [h.keyword, List.filter_filter]
    refine List.filter_congr fun kw _ => ?_
    rw [show (kw.1 == name') = decide (name' = kw.1) from Bool.eq_iff_iff.2 (by simpa using eq_comm)]
    simp [claims, name?, Bool.and_comm]

theorem uncalled (h : Leaves arguments os unspent)
    (none : (signature.name? os.length).bind unspent.takeKeyword = none) (name : String) (v : Instance) :
    ¬ Called signature arguments os name v := by
  rintro ⟨named, given, unclaimed⟩
  rw [named, Option.bind_some] at none
  have missing := List.find?_eq_none.1 (Option.map_eq_none_iff.1 none) (name, v)
  rw [h.keyword] at missing
  exact missing (List.mem_filter.2 ⟨given, by simp [claims_eq_false.2 unclaimed]⟩) (beq_self_eq_true name)

/-- The first argument that is accepted, of those that are left, is the earliest that was not taken. -/
theorem fits (h : Leaves arguments os unspent) (taken : unspent.takePositional q.accepts = some (v, after)) :
    ∃ k, Fits arguments os q k v ∧ (∀ l < k, ∀ w, ¬ Fits arguments os q l w) ∧
      Leaves arguments (os ++ [.positional k v]) after := by
  obtain ⟨v', found, same⟩ := Option.map_eq_some_iff.1 taken
  cases same
  rw [h.positional, Arguments.find?_untaken] at found
  obtain ⟨⟨v, k⟩, found', rfl⟩ := Option.map_eq_some_iff.1 found
  obtain ⟨there, holds, others⟩ := Arguments.find?_zipIdx found'
  obtain ⟨accepted, untaken⟩ : q.accepts v = true ∧ takes os k = false := by simpa using holds
  refine ⟨k, ⟨there, takes_eq_false.1 untaken, accepted⟩, fun l hl w fits => ?_, ?_, ?_⟩
  · have := others l hl w fits.there
    simp [fits.accepted, takes_eq_false.2 fits.untaken] at this
  · change unspent.positional.eraseP q.accepts = _
    rw [h.positional, Arguments.eraseP_untaken found']
    congr 1
    funext l
    simp [takes, number?, eq_comm]
  · rw [claims_concat rfl]
    exact h.keyword

theorem nothing_fits (h : Leaves arguments os unspent) (none : unspent.takePositional q.accepts = none) (k : Nat)
    (w : Instance) : ¬ Fits arguments os q k w := by
  rintro ⟨there, untaken, accepted⟩
  have missing := Arguments.takePositional_eq_none_iff.1 none w
  rw [h.positional] at missing
  have left : w ∈ Arguments.untaken arguments.positional (takes os) :=
    List.mem_map.2 ⟨(w, k), List.mem_filter.2
      ⟨List.mem_zipIdx_iff_getElem?.2 there, by simp [takes_eq_false.2 untaken]⟩, rfl⟩
  rw [missing left] at accepted
  cases accepted

end Leaves

/-- A primitive parameter is filled from its origin, or fails. -/
theorem fillPrimitive_of_leaves {f : Frame} {arguments : Arguments} {os : List Origin} (position : f.position = os.length)
    (leaves : Leaves arguments os f.arguments) (q : Primitive) :
    (∃ o unspent, Of f.signature arguments os q o ∧ q.accepts o.source = true ∧ Leaves arguments (os ++ [o]) unspent ∧
      f.fillPrimitive q = .ok (o.filled q, { f with arguments := unspent })) ∨
    ∃ failure, Fails f.signature arguments os f.callable q failure ∧ f.fillPrimitive q = .error failure := by
  unfold Frame.fillPrimitive
  rw [position]
  cases keyword : (f.signature.name? os.length).bind f.arguments.takeKeyword with
  | some x =>
    obtain ⟨v, after⟩ := x
    obtain ⟨name, named, taken⟩ := Option.bind_eq_some_iff.1 keyword
    obtain ⟨called, left⟩ := leaves.called named taken
    dsimp only
    cases reads : q.read v with
    | some w =>
      refine .inl ⟨.keyword name v, after, .keyword called, by simp [Primitive.accepts, source, reads], left, ?_⟩
      simp [filled, source, reads]
    | none => exact .inr ⟨_, .unreadable called (by simp [Primitive.accepts, reads]), rfl⟩
  | none =>
    have uncalled := leaves.uncalled keyword
    dsimp only
    cases positional : f.arguments.takePositional q.accepts with
    | some x =>
      obtain ⟨v, after⟩ := x
      obtain ⟨k, fits, first, left⟩ := leaves.fits positional
      exact .inl ⟨.positional k v, after, .positional uncalled fits first, fits.accepted, left, rfl⟩
    | none =>
      have nothing := leaves.nothing_fits positional
      dsimp only
      cases default : (f.signature.defaultAt os.length).bind q.read with
      | some w =>
        obtain ⟨v, defaulted, reads⟩ := Option.bind_eq_some_iff.1 default
        have accepted : q.accepts v = true := by simp [Primitive.accepts, reads]
        refine .inl ⟨.default v, f.arguments, .default uncalled nothing defaulted accepted, accepted, ?_, ?_⟩
        · exact ⟨takes_concat (o := .default v) rfl os ▸ leaves.positional, claims_concat (o := .default v) rfl os ▸ leaves.keyword⟩
        · simp [filled, source, reads, ← position]
      | none =>
        refine .inr ⟨_, .missing fun o of => ?_, by simp [Frame.label, position]⟩
        cases of with
        | keyword called => exact uncalled _ _ called
        | positional _ fits _ => exact nothing _ _ fits
        | @default v _ _ defaulted accepted =>
          rw [defaulted, Option.bind_some] at default
          simp [Primitive.accepts, default] at accepted

/-! ## There is one origin -/

section
variable {signature : Signature} {arguments : Arguments} {before os os' : List Origin} {qs : List Primitive} {q : Primitive}

theorem Called.eq (distinct : (arguments.keyword.map Prod.fst).Nodup) {name name' : String} {v v' : Instance}
    (h : Called signature arguments before name v) (h' : Called signature arguments before name' v') :
    name = name' ∧ v = v' := by
  obtain rfl := Option.some.inj (h.named.symm.trans h'.named)
  exact ⟨rfl, congrArg Prod.snd (List.inj_on_of_nodup_map distinct h.given h'.given rfl)⟩

/-- A parameter has one origin at most. -/
theorem Of.eq (distinct : (arguments.keyword.map Prod.fst).Nodup) {o o' : Origin}
    (h : Of signature arguments before q o) (h' : Of signature arguments before q o') : o = o' := by
  cases h with
  | keyword called =>
    cases h' with
    | keyword called' =>
      obtain ⟨rfl, rfl⟩ := called.eq distinct called'
      rfl
    | positional uncalled | default uncalled => exact absurd called (uncalled _ _)
  | @positional k v uncalled fits first =>
    cases h' with
    | keyword called => exact absurd called (uncalled _ _)
    | default _ nothing => exact absurd fits (nothing _ _)
    | @positional l w _ fits' first' =>
      obtain rfl : k = l := by
        rcases Nat.lt_trichotomy k l with lt | same | lt
        · exact absurd fits (first' k lt v)
        · exact same
        · exact absurd fits' (first l lt w)
      obtain rfl := Option.some.inj (fits.there.symm.trans fits'.there)
      rfl
  | default uncalled nothing default =>
    cases h' with
    | keyword called => exact absurd called (uncalled _ _)
    | positional _ fits => exact absurd fits (nothing _ _)
    | default _ _ default' =>
      obtain rfl := Option.some.inj (default.symm.trans default')
      rfl

/-- A parameter that fails has no origin that can be read. -/
theorem Fails.unreadable_of (distinct : (arguments.keyword.map Prod.fst).Nodup) {callable : String} {failure : Failure}
    (fails : Fails signature arguments before callable q failure) {o : Origin} (h : Of signature arguments before q o) :
    q.accepts o.source = false := by
  cases fails with
  | missing nothing => exact absurd h (nothing o)
  | unreadable called unread =>
    obtain rfl := h.eq distinct (.keyword called)
    exact unread

/-- The origins of the first parameters are the same in all lists of origins. -/
theorem Assigned.take_eq (distinct : (arguments.keyword.map Prod.fst).Nodup) (h : Assigned signature arguments qs os)
    (h' : Assigned signature arguments qs os') {k : Nat} (hk : k ≤ os.length) (hk' : k ≤ os'.length) :
    os.take k = os'.take k := by
  induction k with
  | zero => rfl
  | succ k ih =>
    have same := ih (Nat.le_of_lt hk) (Nat.le_of_lt hk')
    obtain ⟨q, here, of, -⟩ := h k _ (List.getElem?_eq_getElem hk)
    obtain ⟨q', here', of', -⟩ := h' k _ (List.getElem?_eq_getElem hk')
    obtain rfl := Option.some.inj (here.symm.trans here')
    rw [← same] at of'
    rw [← List.take_concat_get' os k hk, ← List.take_concat_get' os' k hk', same, of.eq distinct of']

/-- Where there is no further parameter, or the next one fails, no list of origins goes further. -/
theorem Assigned.maximal (distinct : (arguments.keyword.map Prod.fst).Nodup) (h : Assigned signature arguments qs os)
    (ends : ∀ q, qs[os.length]? = some q → ∃ callable failure, Fails signature arguments os callable q failure)
    (h' : Assigned signature arguments qs os') : os' <+: os := by
  have most : os'.length ≤ os.length := by
    by_contra longer
    have further := Nat.not_le.1 longer
    obtain ⟨q, here, of, accepted⟩ := h' _ _ (List.getElem?_eq_getElem further)
    obtain ⟨callable, failure, fails⟩ := ends q here
    rw [← h.take_eq distinct h' (Nat.le_refl _) (Nat.le_of_lt further), List.take_length] at of
    rw [fails.unreadable_of distinct of] at accepted
    cases accepted
  rw [List.prefix_iff_eq_take, h.take_eq distinct h' most (Nat.le_refl _), List.take_length]

/-- One more parameter has its origin. -/
theorem Assigned.concat {o : Origin} (h : Assigned signature arguments qs os) (here : qs[os.length]? = some q)
    (of : Of signature arguments os q o) (accepted : q.accepts o.source = true) :
    Assigned signature arguments qs (os ++ [o]) := by
  intro k o' found
  by_cases old : k < os.length
  · rw [List.getElem?_append_left old] at found
    rw [List.take_append_of_le_length (Nat.le_of_lt old)]
    exact h k o' found
  · obtain rfl : k = os.length := by
      have := (List.getElem?_eq_some_iff.1 found).1
      rw [List.length_append, List.length_singleton] at this
      omega
    rw [List.getElem?_concat_length] at found
    obtain rfl := Option.some.inj found
    rw [List.take_left]
    exact ⟨q, here, of, accepted⟩

end

end Origin

/-- The slots of a flat list of primitives. -/
theorem Param.slotsOf_primitives (qs : List Primitive) (position : Nat) :
    (slotsOf (qs.map fun q => .one (.arg q)) position).1 = (qs.zipIdx position).map fun x => ⟨x.2, .arg x.1⟩ := by
  induction qs generalizing position with
  | nil => rfl
  | cons q qs ih =>
    simp only [List.map_cons, slotsOf, slots, List.zipIdx_cons]
    rw [ih]
    rfl

namespace System

variable {p : Program} {i n m : Nat} {below : Stack .answer}

/-- How the filling of a flat list of primitives ends in move `m`, when its first parameters have the origins `os`: all
are filled, or the next one fails. -/
inductive Run.EndsPrimitives (run : Run p) (i : Nat) (below : Stack .answer) (signature : Signature) (arguments : Arguments)
    (f : Function) (qs : List Primitive) (os : List Origin) (m : Nat) : Prop
  | filled {j : Job} (all : os.length = qs.length)
    (found : (run.state m).tasks[i]? = some ⟨.answer, .pause j f.suspensions, below⟩)
    (values : j.filled = List.zipWith Origin.filled qs os) : EndsPrimitives run i below signature arguments f qs os m
  | fails {q : Primitive} {failure : Failure} (next : qs[os.length]? = some q)
    (fails : Origin.Fails signature arguments os f.name q failure)
    (found : (run.state m).tasks[i]? = some ⟨.answer, .give (k := .answer) (.error failure), below⟩) :
    EndsPrimitives run i below signature arguments f qs os m

/-- A job at a flat list of primitives, of which those in `done` are filled from `os` and those in `rest` are to be. -/
structure Run.AtPrimitives (run : Run p) (i : Nat) (below : Stack .answer) (signature : Signature) (arguments : Arguments)
    (f : Function) (done rest : List Primitive) (os : List Origin) (n : Nat) (j : Job) : Prop where
  found : (run.state n).tasks[i]? = some ⟨.answer, .fill j, below⟩
  function : j.function = f
  signed : j.frame.signature = signature
  callable : j.frame.callable = f.name
  todo : j.todo = (rest.zipIdx done.length).map fun x => ⟨x.2, .arg x.1⟩
  length : os.length = done.length
  values : j.filled = List.zipWith Origin.filled done os
  leaves : Origin.Leaves arguments os j.frame.arguments
  assigned : Origin.Assigned signature arguments (done ++ rest) os

namespace Run

variable {run : Run p} {signature : Signature} {arguments : Arguments} {f : Function} {done rest : List Primitive}
  {os : List Origin} {j : Job}

/-- What a job that fills slots does in the next move. -/
theorem goes_on_filling (run : Run p) (found : (run.state n).tasks[i]? = some ⟨.answer, .fill j, below⟩) :
    ∃ env, (run.state (n + 1)).tasks[i]? = some (Step.fill env (run.state n).world j below).task :=
  ⟨_, (run.goes_on ((run.reachable n).engaged i j below found) found (by rintro _ ⟨⟩) (by rintro _ _ ⟨⟩)
    (by rintro _ _ ⟨⟩)).2⟩

/-- The next parameter is filled from its origin, or fails. -/
theorem AtPrimitives.next {q : Primitive} (h : run.AtPrimitives i below signature arguments f done (q :: rest) os n j) :
    (∃ o j', run.AtPrimitives i below signature arguments f (done ++ [q]) rest (os ++ [o]) (n + 1) j') ∨
      run.EndsPrimitives i below signature arguments f (done ++ q :: rest) os (n + 1) := by
  have slot : j.todo = ⟨done.length, .arg q⟩ :: (rest.zipIdx (done.length + 1)).map fun x => ⟨x.2, .arg x.1⟩ := h.todo
  have here : (done ++ q :: rest)[os.length]? = some q := by
    rw [h.length, List.getElem?_append_right (Nat.le_refl _), Nat.sub_self]
    rfl
  obtain ⟨env, found⟩ := run.goes_on_filling h.found
  rw [Step.fill_eq env _ slot (by rintro ⟨⟩) below] at found
  change _ = some (Step.filled _ j ((j.atSlot ⟨done.length, .arg q⟩).frame.fillPrimitive q) below).task at found
  rcases Origin.fillPrimitive_of_leaves (f := (j.atSlot ⟨done.length, .arg q⟩).frame) h.length.symm h.leaves q with
    ⟨o, unspent, of, accepted, left, filled⟩ | ⟨failure, fails, failed⟩
  · rw [filled] at found
    rw [show (j.atSlot ⟨done.length, .arg q⟩).frame.signature = signature from h.signed] at of
    refine .inl ⟨o, _, found, h.function, h.signed, h.callable, ?_, ?_, ?_, left, ?_⟩
    · rw [List.length_append, List.length_singleton]
      exact congrArg List.tail slot
    · rw [List.length_append, List.length_append, h.length]
      rfl
    · rw [List.zipWith_append h.length.symm, ← h.values]
      rfl
    · rw [List.append_assoc]
      exact h.assigned.concat here of accepted
  · rw [failed] at found
    rw [show (j.atSlot ⟨done.length, .arg q⟩).frame.signature = signature from h.signed,
      show (j.atSlot ⟨done.length, .arg q⟩).frame.callable = f.name from h.callable] at fails
    exact .inr (.fails here fails found)

/-- From any of the parameters on, one is filled after the other until one fails or all are filled. -/
theorem AtPrimitives.goes_on (h : run.AtPrimitives i below signature arguments f done rest os n j) :
    ∃ more, Origin.Assigned signature arguments (done ++ rest) (os ++ more) ∧
      run.EndsPrimitives i below signature arguments f (done ++ rest) (os ++ more) (n + more.length + 1) := by
  induction rest generalizing done os n j with
  | nil =>
    refine ⟨[], ?_⟩
    rw [List.append_nil, List.append_nil, List.length_nil, Nat.add_zero]
    obtain ⟨env, found⟩ := run.goes_on_filling h.found
    unfold Step.fill at found
    rw [show j.todo = [] from h.todo] at found
    dsimp only at found
    rw [h.function] at found
    have assigned := h.assigned
    rw [List.append_nil] at assigned
    exact ⟨assigned, .filled h.length found h.values⟩
  | cons q rest ih =>
    rcases h.next with ⟨o, j', h'⟩ | ends
    · obtain ⟨more, assigned, ends⟩ := ih h'
      refine ⟨o :: more, ?_⟩
      rw [List.append_assoc, List.append_assoc] at assigned ends
      rw [Nat.add_right_comm n 1] at ends
      exact ⟨assigned, ends⟩
    · refine ⟨[], ?_⟩
      rw [List.append_nil]
      exact ⟨h.assigned, ends⟩

/-- In every run, when a job with a flat list of primitives begins: its parameters are filled one after the other, in one
move each, from the origins that the signature and the arguments give them, until the first that fails, because the
argument of its name cannot be read or because it has no origin; and then they are all filled, if none does. No other
list of origins goes further. -/
theorem primitives_are_filled (run : Run p) {f : Function} {qs : List Primitive}
    (flat : f.params = qs.map fun q => .one (.arg q)) {subject : Key} {c : ContainerId} {inScope : Bool}
    {positional : List Instance} {named : List (String × Instance)} {signature : Signature} {path : List Key}
    {below : Stack .answer}
    (began : (run.state n).tasks[i]? =
      some ⟨.answer, .fill (Job.start f subject c inScope (.ofLists positional named) signature path), below⟩) :
    ∃ os, Origin.Assigned signature (.ofLists positional named) qs os ∧
      (∀ os', Origin.Assigned signature (.ofLists positional named) qs os' → os' <+: os) ∧
      run.EndsPrimitives i below signature (.ofLists positional named) f qs os (n + os.length + 1) := by
  have first : run.AtPrimitives i below signature (.ofLists positional named) f [] qs [] n
      (Job.start f subject c inScope (.ofLists positional named) signature path) :=
    { found := began, function := rfl, signed := rfl, callable := rfl, length := rfl, values := rfl
      todo := by rw [Job.start, flat]; exact Param.slotsOf_primitives qs 0
      leaves := Origin.leaves_start _
      assigned := fun k o found => by cases found }
  obtain ⟨os, assigned, ends⟩ := first.goes_on
  refine ⟨os, assigned, fun os' assigned' => ?_, ends⟩
  refine assigned.maximal (Arguments.distinct_ofLists positional named) (fun q next => ?_) assigned'
  cases ends with
  | filled all =>
    have within := (List.getElem?_eq_some_iff.1 next).1
    exact absurd (all ▸ within : os.length < os.length) (Nat.lt_irrefl _)
  | fails next' fails =>
    obtain rfl := Option.some.inj (next.symm.trans next')
    exact ⟨_, _, fails⟩

end Run

/-- A label has a title, a size, and what is called the title of it again; without any, the title is plain. -/
def printer : Program where
  functions := Table.empty.insert "label"
    { name := "label", product := .object "Label", names := ["title", "size", "title"], defaults := [("title", .text "plain")],
      body := .inline [], params := [.text, .scalar .u8, .text].map fun q => .one (.arg q) }

/-- A label is made with a title by name; a text and a size come without names. -/
def labelRun : Run printer :=
  .ofOps printer "root" [
    .lasting ⟨"", "root", false⟩ (.call "label" [.scalar .str "below", .scalar .u8 "7"] [("title", .text "above")] none)]

/-- What waits for the label. -/
def labelStack : Stack .answer := .cons (.deliver 0 none none) .nil

/-- The first title has the argument of the name. The second one does not find it any more: it has the text that comes
without a name, though the size was filled before. -/
theorem label_is_filled : ∃ f subject positional named signature os, f.params = [Primitive.text, .scalar .u8, .text].map
      (fun q => .one (.arg q)) ∧ (labelRun.state 3).tasks[0]? = some ⟨.answer,
        .fill (Job.start f subject 0 false (.ofLists positional named) signature []), labelStack⟩ ∧
    Origin.Assigned signature (.ofLists positional named) [.text, .scalar .u8, .text] os ∧
    labelRun.EndsPrimitives 0 labelStack signature (.ofLists positional named) f [.text, .scalar .u8, .text] os
      (3 + os.length + 1) ∧
    ∃ j, (labelRun.state 7).tasks[0]? = some ⟨.answer, .pause j 0, labelStack⟩ ∧ j.ingredients = [] ∧
      j.filled.length = 3 ∧ j.frame.arguments.isEmpty = true := by
  have flat : (printer.function "label").params = [Primitive.text, .scalar .u8, .text].map fun q => .one (.arg q) := rfl
  obtain ⟨subject, positional, named, signature, began⟩ : ∃ subject positional named signature,
      (labelRun.state 3).tasks[0]? = some ⟨.answer, .fill (Job.start (printer.function "label") subject 0 false
        (.ofLists positional named) signature []), labelStack⟩ := ⟨_, _, _, _, rfl⟩
  obtain ⟨os, assigned, -, ends⟩ := labelRun.primitives_are_filled flat began
  exact ⟨_, subject, positional, named, signature, os, flat, began, assigned, ends, _, rfl, rfl, rfl, rfl⟩

end System

end Injector
