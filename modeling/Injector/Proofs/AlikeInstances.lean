import Injector.Proofs.Correspondences
import Injector.Proofs.Stacks
/-!
# Instances that are alike

Two resolutions that begin in different worlds make different instances, since each world numbers its
own. `Pairing.Alike` relates the instances of one resolution to those of the other: what both have from
the beginning is the same, and what is made in the course of them is made of alike parts and holds the
numbers that come as far after those of the beginning. Parameters that are filled from alike arguments
and answers are filled alike (`AlikeFrames.fillWith`, `AlikeFrames.fillAlone`), so that jobs stay alike (`AlikeJobs.fill`), and
what is made of alike parts is alike (`Supplies.produce`).
-/
namespace Injector

/-- Whether two instances hold the same, but for the numbers of objects and with other parts. -/
inductive Datum.Similar (K : Instance → Instance → Prop) : Datum → Datum → Prop
  | object (path : String) (n n' : Nat) : Similar K (.object path n) (.object path n')
  | text (s : String) : Similar K (.text s) (.text s)
  | scalar (kind : Scalar) (written : String) : Similar K (.scalar kind written) (.scalar kind written)
  | seq (item : Ty) {vs vs' : List Instance} (h : List.Forall₂ K vs vs') : Similar K (.seq item vs) (.seq item vs')
  | erased {v v' : Instance} (h : K v v') : Similar K (.erased v) (.erased v')

theorem Datum.Similar.mono {K K' : Instance → Instance → Prop} {x x' : Datum} (h : x.Similar K x')
    (sub : ∀ v v', K v v' → K' v v') : x.Similar K' x' := by
  cases h with
  | object path n n' => exact .object path n n'
  | text s => exact .text s
  | scalar kind written => exact .scalar kind written
  | seq item h => exact .seq item (h.imp sub)
  | erased h => exact .erased (sub _ _ h)

/-- Two worlds in which resolutions begin, the containers that these are about, and the instances that the one and the
other have from the beginning. -/
structure Pairing where
  left : World
  right : World
  containers : List ContainerId
  known : Instance → Instance → Prop
  similar : ∀ {v v'}, known v v' → v.content.Similar known v'.content

variable {R : Pairing}

/-! ## Results that are related -/

section Related

variable {α β : Type} {T : α → β → Prop}

/-- Whether two results are the same failure, or are related. -/
inductive Results (T : α → β → Prop) : Except Failure α → Except Failure β → Prop
  | ok {x : α} {x' : β} (h : T x x') : Results T (.ok x) (.ok x')
  | error (f : Failure) : Results T (.error f) (.error f)

theorem Results.cases {r : Except Failure α} {r' : Except Failure β} (h : Results T r r') :
    (∃ x x', r = .ok x ∧ r' = .ok x' ∧ T x x') ∨ ∃ f, r = .error f ∧ r' = .error f := by
  cases h with
  | ok h => exact .inl ⟨_, _, rfl, rfl, h⟩
  | error f => exact .inr ⟨f, rfl, rfl⟩

end Related

/-! ## Instances -/

mutual

/-- Whether an instance of the one resolution is like one of the other: they have them from the beginning, or each made
its own as the instance with this serial after the beginning. -/
inductive Pairing.Alike (R : Pairing) : Instance → Instance → Prop
  | known {v v' : Instance} (h : R.known v v') : Alike R v v'
  | new (d : Nat) {x x' : Datum} (h : AlikeData R x x') :
    Alike R ⟨R.left.supply.serials + d, x⟩ ⟨R.right.supply.serials + d, x'⟩

/-- Whether new instances hold alike. -/
inductive Pairing.AlikeData (R : Pairing) : Datum → Datum → Prop
  | object (path : String) (n : Nat) :
    AlikeData R (.object path (R.left.supply.numbers + n)) (.object path (R.right.supply.numbers + n))
  | numbered (n : Nat) : AlikeData R (.text ("S#" ++ toString (R.left.supply.numbers + n)))
      (.text ("S#" ++ toString (R.right.supply.numbers + n)))
  | text (s : String) : AlikeData R (.text s) (.text s)
  | scalar (kind : Scalar) (written : String) : AlikeData R (.scalar kind written) (.scalar kind written)
  | seq (item : Ty) {vs vs' : List Instance} (h : List.Forall₂ (Alike R) vs vs') :
    AlikeData R (.seq item vs) (.seq item vs')
  | erased {v v' : Instance} (h : Alike R v v') : AlikeData R (.erased v) (.erased v')

end

namespace Pairing

variable {v v' : Instance}

/-- Alike instances hold the same, or texts. -/
theorem Alike.content (h : R.Alike v v') :
    v.content.Similar R.Alike v'.content ∨ ∃ s s', v.content = .text s ∧ v'.content = .text s' := by
  cases h with
  | known h => exact .inl ((R.similar h).mono fun _ _ => .known)
  | new _ h =>
    cases h with
    | object path n => exact .inl (.object path _ _)
    | numbered n => exact .inr ⟨_, _, rfl, rfl⟩
    | text s => exact .inl (.text s)
    | scalar kind written => exact .inl (.scalar kind written)
    | seq item h => exact .inl (.seq item h)
    | erased h => exact .inl (.erased h)

theorem Alike.ty (h : R.Alike v v') : v.ty = v'.ty := by
  obtain ⟨_, x⟩ := v
  obtain ⟨_, x'⟩ := v'
  rcases h.content with h | ⟨_, _, rfl, rfl⟩
  · cases h <;> rfl
  · rfl

/-- Alike instances are of a type or are not. -/
theorem Alike.is_ty (t : Ty) (v v' : Instance) (h : R.Alike v v') : decide (v.ty = t) = decide (v'.ty = t) := by
  rw [h.ty]

theorem Alike.itemsOf (h : R.Alike v v') (t : Ty) : List.Forall₂ R.Alike (v.itemsOf t) (v'.itemsOf t) := by
  unfold Shared.itemsOf
  rw [h.ty]
  split
  · exact .cons h .nil
  · have content := h.content
    obtain ⟨_, x⟩ := v
    obtain ⟨_, x'⟩ := v'
    rcases content with content | ⟨_, _, rfl, rfl⟩
    · cases content with
      | seq item members =>
        dsimp only
        split
        · exact members
        · exact .nil
      | object | text | scalar | erased => exact .nil
    · exact .nil

/-- A primitive is a copy: only what it holds counts, if it is not new. -/
def AlikeCopies (R : Pairing) (v v' : Instance) : Prop := v.content = v'.content ∨ R.Alike v v'

theorem Alike.read (h : R.Alike v v') (q : Primitive) : Option.Rel R.AlikeCopies (q.read v) (q.read v') := by
  have content := h.content
  obtain ⟨_, x⟩ := v
  obtain ⟨_, x'⟩ := v'
  cases q with
  | erased => exact .some (.inr h)
  | text =>
    rcases content with content | ⟨_, _, rfl, rfl⟩
    · cases content with
      | text => exact .some (.inr h)
      | scalar kind written =>
        cases kind with
        | str => exact .some (.inl rfl)
        | _ => exact .none
      | object | seq | erased => exact .none
    · exact .some (.inr h)
  | scalar kind =>
    rcases content with content | ⟨_, _, rfl, rfl⟩
    · cases content with
      | scalar kind' written =>
        simp only [Primitive.read]
        split
        · exact .some (.inr h)
        · exact .none
      | object | text | seq | erased => exact .none
    · exact .none

theorem Alike.accepts (q : Primitive) (v v' : Instance) (h : R.Alike v v') : q.accepts v = q.accepts v' := by
  unfold Primitive.accepts
  rcases rel_cases (h.read q) with ⟨none, none'⟩ | ⟨w, w', some, some', -⟩
  · rw [none, none']
  · rw [some, some']
    rfl

/-- What is of a type or is not is so in both. -/
theorem expect_alike {r r' : Except Failure Instance} (h : Results R.Alike r r') (t : Ty) :
    Results R.Alike (r.bind (Shared.expect t)) (r'.bind (Shared.expect t)) := by
  cases h with
  | error f => exact .error f
  | @ok v v' h =>
    simp only [Except.bind, Shared.expect]
    rw [h.ty]
    split
    · exact .ok h
    · exact .error _

/-! ## New instances -/

/-- Whether both worlds have given out the same numbers since the beginning. -/
def Supplies (R : Pairing) (s s' : Supply) : Prop := ∃ n d,
  s = ⟨R.left.supply.numbers + n, R.left.supply.serials + d⟩ ∧
    s' = ⟨R.right.supply.numbers + n, R.right.supply.serials + d⟩

/-- Whether two supplies make what is related, and are as far after that. -/
def Made {α β : Type} (R : Pairing) (T : α → β → Prop) (x : α × Supply) (x' : β × Supply) : Prop :=
  T x.1 x'.1 ∧ R.Supplies x.2 x'.2

namespace Supplies

variable {s s' : Supply}

theorem share {x x' : Datum} (h : R.Supplies s s') (held : R.AlikeData x x') :
    R.Made R.Alike (s.share x) (s'.share x') := by
  obtain ⟨n, d, rfl, rfl⟩ := h
  exact ⟨.new d held, n, d + 1, rfl, rfl⟩

theorem object (h : R.Supplies s s') (path : String) : R.Made R.Alike (s.object path) (s'.object path) := by
  obtain ⟨n, d, rfl, rfl⟩ := h
  exact ⟨.new d (.object path (n + 1)), n + 1, d + 1, rfl, rfl⟩

theorem objects (path : String) (count : Nat) : ∀ {s s' : Supply}, R.Supplies s s' →
    R.Made (List.Forall₂ R.Alike) (s.objects path count) (s'.objects path count) := by
  induction count with
  | zero => exact fun h => ⟨.nil, h⟩
  | succ count ih =>
    intro s s' h
    obtain ⟨first, h⟩ := h.object path
    obtain ⟨others, h⟩ := ih h
    exact ⟨.cons first others, h⟩

theorem produce {vs vs' : List Instance} (h : R.Supplies s s') (q : Product) (ingredients : List.Forall₂ R.Alike vs vs') :
    R.Made R.Alike (s.produce q vs) (s'.produce q vs') := by
  cases q with
  | object path => exact h.object path
  | text =>
    obtain ⟨n, d, rfl, rfl⟩ := h
    exact ⟨.new d (.numbered (n + 1)), n + 1, d + 1, rfl, rfl⟩
  | seq item => exact h.share (.seq item (List.rel_flatMap ingredients fun _ _ h => h.itemsOf item))

end Supplies

end Pairing

/-- Whether a literal names no saved instance. -/
def Literal.Fresh : Literal → Prop
  | .saved _ => False
  | .erased inner => inner.Fresh
  | _ => True

namespace Pairing

/-- Whether named instances have the same name and are alike. -/
def AlikeNamed (R : Pairing) (x x' : String × Instance) : Prop := x.1 = x'.1 ∧ R.Alike x.2 x'.2

section Literals

variable (vars vars' : Table String Instance)

/-- Literals that name no saved instance are made alike. -/
theorem Supplies.literal {l : Literal} (fresh : l.Fresh) : ∀ {s s' : Supply}, R.Supplies s s' →
    R.Made R.Alike (l.make vars s) (l.make vars' s') := by
  induction l with
  | scalar kind written => exact fun h => h.share (.scalar kind written)
  | text content => exact fun h => h.share (.text content)
  | object path => exact fun h => h.object path
  | objects path count =>
    intro s s' h
    obtain ⟨members, h⟩ := Supplies.objects path count h
    exact h.share (.seq _ members)
  | erased inner ih =>
    intro s s' h
    obtain ⟨made, h⟩ := ih fresh h
    exact h.share (.erased made)
  | saved => exact fresh.elim

theorem Supplies.literals (ls : List Literal) : (∀ l ∈ ls, l.Fresh) → ∀ {s s' : Supply}, R.Supplies s s' →
    R.Made (List.Forall₂ R.Alike) (Literal.makeAll vars ls s) (Literal.makeAll vars' ls s') := by
  induction ls with
  | nil => exact fun _ _ _ h => ⟨.nil, h⟩
  | cons l ls ih =>
    intro fresh s s' h
    obtain ⟨first, h⟩ := Supplies.literal vars vars' (fresh l List.mem_cons_self) h
    obtain ⟨others, h⟩ := ih (fun l hl => fresh l (List.mem_cons_of_mem _ hl)) h
    exact ⟨.cons first others, h⟩

theorem Supplies.named (ls : List (String × Literal)) : (∀ l ∈ ls, l.2.Fresh) → ∀ {s s' : Supply}, R.Supplies s s' →
    R.Made (List.Forall₂ R.AlikeNamed) (Literal.makeNamed vars ls s) (Literal.makeNamed vars' ls s') := by
  induction ls with
  | nil => exact fun _ _ _ h => ⟨.nil, h⟩
  | cons l ls ih =>
    intro fresh s s' h
    obtain ⟨first, h⟩ := Supplies.literal vars vars' (fresh l List.mem_cons_self) h
    obtain ⟨others, h⟩ := ih (fun l hl => fresh l (List.mem_cons_of_mem _ hl)) h
    exact ⟨.cons ⟨rfl, first⟩ others, h⟩

end Literals

/-! ## Explicit arguments -/

/-- Whether the arguments that are left are alike. -/
structure AlikeArguments (R : Pairing) (a a' : Arguments) : Prop where
  positional : List.Forall₂ R.Alike a.positional a'.positional
  keyword : List.Forall₂ R.AlikeNamed a.keyword a'.keyword

/-- Whether one thing was taken out of arguments. -/
def Taken {α : Type} (R : Pairing) (T : α → α → Prop) (x x' : α × Arguments) : Prop :=
  T x.1 x'.1 ∧ R.AlikeArguments x.2 x'.2

theorem alike_insertNamed {name : String} {v v' : Instance} (h : R.Alike v v') {l l' : List (String × Instance)}
    (others : List.Forall₂ R.AlikeNamed l l') :
    List.Forall₂ R.AlikeNamed (Arguments.insertNamed name v l) (Arguments.insertNamed name v' l') := by
  induction others with
  | nil => exact .cons ⟨rfl, h⟩ .nil
  | @cons x x' _ _ head tail ih =>
    obtain ⟨other, w⟩ := x
    obtain ⟨other', w'⟩ := x'
    obtain ⟨rfl, alike⟩ : other = other' ∧ R.Alike w w' := head
    unfold Arguments.insertNamed
    split
    · exact .cons ⟨rfl, h⟩ tail
    · split
      · exact .cons ⟨rfl, h⟩ (.cons ⟨rfl, alike⟩ tail)
      · exact .cons ⟨rfl, alike⟩ ih

namespace AlikeArguments

theorem ofLists {vs vs' : List Instance} {kws kws' : List (String × Instance)} (positional : List.Forall₂ R.Alike vs vs')
    (keyword : List.Forall₂ R.AlikeNamed kws kws') : R.AlikeArguments (.ofLists vs kws) (.ofLists vs' kws') where
  positional := positional
  keyword := by
    refine List.rel_foldl (R := R.AlikeNamed) (fun l l' others x x' named => ?_) .nil keyword
    obtain ⟨name, v⟩ := x
    obtain ⟨name', v'⟩ := x'
    obtain ⟨rfl, alike⟩ : name = name' ∧ R.Alike v v' := named
    exact alike_insertNamed alike others

variable {a a' : Arguments} (h : R.AlikeArguments a a')
include h

theorem isEmpty : a.isEmpty = a'.isEmpty := by
  obtain ⟨positional, keyword⟩ := h
  cases a
  cases a'
  cases positional <;> cases keyword <;> rfl

theorem takeKeyword (name : String) : Option.Rel (R.Taken R.Alike) (a.takeKeyword name) (a'.takeKeyword name) := by
  have same : ∀ x x', R.AlikeNamed x x' → (x.1 == name) = (x'.1 == name) := fun x x' named => by rw [named.1]
  unfold Arguments.takeKeyword
  rcases rel_cases (forall₂_find? h.keyword same) with ⟨none, none'⟩ | ⟨_, _, some, some', named⟩
  · rw [none, none']
    exact .none
  · rw [some, some']
    exact .some ⟨named.2, h.positional, forall₂_filter h.keyword fun x x' named => by rw [same x x' named]⟩

theorem takePositional {p : Instance → Bool} (same : ∀ v v', R.Alike v v' → p v = p v') :
    Option.Rel (R.Taken R.Alike) (a.takePositional p) (a'.takePositional p) := by
  unfold Arguments.takePositional
  rcases rel_cases (forall₂_find? h.positional same) with ⟨none, none'⟩ | ⟨_, _, some, some', alike⟩
  · rw [none, none']
    exact .none
  · rw [some, some']
    exact .some ⟨alike, forall₂_eraseP h.positional same, h.keyword⟩

theorem drainPositional {p : Instance → Bool} (same : ∀ v v', R.Alike v v' → p v = p v') :
    R.Taken (List.Forall₂ R.Alike) (a.drainPositional p) (a'.drainPositional p) :=
  ⟨forall₂_filter h.positional same, forall₂_filter h.positional fun v v' alike => by rw [same v v' alike], h.keyword⟩

end AlikeArguments

/-! ## Parameters -/

/-- Whether two slots are filled alike. -/
inductive AlikeFilled (R : Pairing) : Filled → Filled → Prop
  | instance {v v' : Instance} (h : R.Alike v v') : AlikeFilled R (.instance v) (.instance v')
  | primitive (q : Primitive) {v v' : Instance} (h : R.AlikeCopies v v') : AlikeFilled R (.primitive q v) (.primitive q v')
  | rest {vs vs' : List Instance} (h : List.Forall₂ R.Alike vs vs') : AlikeFilled R (.rest vs) (.rest vs')
  | kwargs {kws kws' : List (String × Instance)} (h : List.Forall₂ R.AlikeNamed kws kws') :
    AlikeFilled R (.kwargs kws) (.kwargs kws')
  | container (c : ContainerId) (inScope : Bool) : AlikeFilled R (.container c inScope) (.container c inScope)
  | inspection (i : Inspection) : AlikeFilled R (.inspection i) (.inspection i)
  | replaced : AlikeFilled R .replaced .replaced

theorem AlikeFilled.ingredients {x x' : Filled} (h : R.AlikeFilled x x') :
    List.Forall₂ R.Alike x.ingredients x'.ingredients := by
  cases h with
  | «instance» h => exact .cons h .nil
  | rest h => exact h
  | kwargs h => exact List.rel_map (P := R.Alike) (fun _ _ named => named.2) h
  | primitive | container | inspection | replaced => exact .nil

/-- Whether what a function was given is alike. -/
inductive AlikeGiven (R : Pairing) : Given → Given → Prop
  | one {x x' : Filled} (h : R.AlikeFilled x x') : AlikeGiven R (.one x) (.one x')
  | group {gs gs' : List Given} (h : List.Forall₂ (AlikeGiven R) gs gs') : AlikeGiven R (.group gs) (.group gs')

mutual

theorem alike_shape : ∀ (q : Param) {fs fs' : List Filled}, List.Forall₂ R.AlikeFilled fs fs' →
    R.AlikeGiven (q.shape fs).1 (q.shape fs').1 ∧ List.Forall₂ R.AlikeFilled (q.shape fs).2 (q.shape fs').2
  | .one _, _, _, .nil => ⟨.one .replaced, .nil⟩
  | .one _, _, _, .cons head tail => ⟨.one head, tail⟩
  | .group qs, _, _, h =>
    have shaped := alike_shapeAll qs h
    ⟨.group shaped.1, shaped.2⟩

theorem alike_shapeAll : ∀ (qs : List Param) {fs fs' : List Filled}, List.Forall₂ R.AlikeFilled fs fs' →
    List.Forall₂ R.AlikeGiven (Param.shapeAll qs fs).1 (Param.shapeAll qs fs').1 ∧
      List.Forall₂ R.AlikeFilled (Param.shapeAll qs fs).2 (Param.shapeAll qs fs').2
  | [], _, _, h => ⟨.nil, h⟩
  | q :: qs, _, _, h =>
    have first := alike_shape q h
    have others := alike_shapeAll qs first.2
    ⟨.cons first.1 others.1, others.2⟩

end

/-- Whether two frames differ in the arguments that are left, which are alike. -/
inductive AlikeFrames (R : Pairing) : Frame → Frame → Prop
  | mk {f : Frame} {arguments' : Arguments} (h : R.AlikeArguments f.arguments arguments') :
    AlikeFrames R f { f with arguments := arguments' }

/-- Whether a slot is filled alike, or not for the same failure. -/
abbrev AlikeFillings (R : Pairing) : Except Failure (Filled × Frame) → Except Failure (Filled × Frame) → Prop :=
  Results fun x x' => R.AlikeFilled x.1 x'.1 ∧ R.AlikeFrames x.2 x'.2

namespace AlikeFrames

variable {f f' : Frame} {answer answer' : Except Failure Instance}

theorem fillDependency (h : R.AlikeFrames f f') (answers : Results R.Alike answer answer') (t : Ty) (key : Key) :
    R.AlikeFillings (f.fillDependency t key answer) (f'.fillDependency t key answer') := by
  obtain ⟨arguments⟩ := h
  unfold Frame.fillDependency
  rcases (expect_alike answers t).cases with ⟨_, _, ok, ok', alike⟩ | ⟨failure, error, error'⟩
  · rw [ok, ok']
    exact .ok ⟨.instance alike, .mk arguments⟩
  · rw [error, error']
    dsimp only
    rcases rel_cases (arguments.takePositional (Alike.is_ty t)) with ⟨none, none'⟩ | ⟨_, _, some, some', taken⟩
    · rw [none, none']
      exact .error _
    · rw [some, some']
      exact .ok ⟨.instance taken.1, .mk taken.2⟩

theorem fillPrimitive (h : R.AlikeFrames f f') (q : Primitive) :
    R.AlikeFillings (f.fillPrimitive q) (f'.fillPrimitive q) := by
  obtain @⟨arguments', arguments⟩ := h
  have named : Option.Rel (R.Taken R.Alike) ((f.signature.name? f.position).bind f.arguments.takeKeyword)
      ((f.signature.name? f.position).bind arguments'.takeKeyword) := by
    cases f.signature.name? f.position with
    | none => exact .none
    | some name => exact arguments.takeKeyword name
  unfold Frame.fillPrimitive
  dsimp only
  rcases rel_cases named with ⟨none, none'⟩ | ⟨x, x', some, some', alike, left⟩
  · rw [none, none']
    dsimp only
    rcases rel_cases (arguments.takePositional (Alike.accepts q)) with ⟨none, none'⟩ | ⟨x, x', some, some', alike, left⟩
    · rw [none, none']
      dsimp only
      split
      · exact .ok ⟨.primitive q (.inl rfl), .mk arguments⟩
      · exact .error _
    · rw [some, some']
      refine .ok ⟨.primitive q ?_, .mk left⟩
      rcases rel_cases (alike.read q) with ⟨none, none'⟩ | ⟨_, _, some, some', copies⟩
      · rw [none, none']
        exact .inr alike
      · rw [some, some']
        exact copies
  · rw [some, some']
    dsimp only
    rcases rel_cases (alike.read q) with ⟨none, none'⟩ | ⟨_, _, some, some', copies⟩
    · rw [none, none', alike.ty]
      exact .error _
    · rw [some, some']
      exact .ok ⟨.primitive q copies, .mk left⟩

theorem fillRest (h : R.AlikeFrames f f') (t : Ty) {vs vs' : List Instance} (bound : List.Forall₂ R.Alike vs vs') :
    R.AlikeFilled (f.fillRest t vs).1 (f'.fillRest t vs').1 ∧ R.AlikeFrames (f.fillRest t vs).2 (f'.fillRest t vs').2 := by
  obtain ⟨arguments⟩ := h
  obtain ⟨drained, left⟩ := arguments.drainPositional (Alike.is_ty t)
  exact ⟨.rest (List.rel_append bound drained), .mk left⟩

theorem inspect (h : R.AlikeFrames f f') : f.inspect = f'.inspect := by
  obtain ⟨arguments⟩ := h
  simp only [Frame.inspect, arguments.positional.length_eq, arguments.isEmpty]

theorem fillAlone (h : R.AlikeFrames f f') (e : Extractor) : R.AlikeFillings (f.fillAlone e) (f'.fillAlone e) := by
  cases e with
  | inject | autowired | annotated | named => exact h.fillDependency (.error _) _ _
  | arg q => exact h.fillPrimitive q
  | rest t => exact .ok (h.fillRest t .nil)
  | inspect =>
    simp only [Frame.fillAlone, h.inspect]
    exact .ok ⟨.inspection _, h⟩
  | lookup key => exact .error _
  | replace => exact .ok ⟨.replaced, h⟩
  | kwargs =>
    obtain ⟨arguments⟩ := h
    exact .ok ⟨.kwargs arguments.keyword, .mk ⟨arguments.positional, .nil⟩⟩
  | container =>
    obtain ⟨arguments⟩ := h
    exact .ok ⟨.container _ _, .mk arguments⟩

theorem fillWith (h : R.AlikeFrames f f') (answers : Results R.Alike answer answer') (key : Key) (e : Extractor) :
    R.AlikeFillings (f.fillWith key answer e) (f'.fillWith key answer' e) := by
  cases e with
  | inject | autowired | annotated | named => exact h.fillDependency answers _ _
  | rest t =>
    unfold Frame.fillWith
    dsimp only
    rcases (expect_alike answers (if key = .type (.seq t) then .seq t else t)).cases with
      ⟨_, _, ok, ok', alike⟩ | ⟨failure, error, error'⟩
    · rw [ok, ok']
      refine .ok (h.fillRest t ?_)
      split
      · exact alike.itemsOf t
      · exact .cons alike .nil
    · rw [error, error']
      obtain ⟨-⟩ := h
      exact .error _
  | lookup =>
    cases answers with
    | ok alike => exact .ok ⟨.instance alike, h⟩
    | error failure => exact .error failure
  | arg | kwargs | container | inspect | replace =>
    simp only [Frame.fillWith]
    exact h.fillAlone _

end AlikeFrames

/-! ## Jobs -/

/-- Whether two calls are of the same function, and were filled with alike up to now. -/
inductive AlikeJobs (R : Pairing) : Job → Job → Prop
  | mk {j : Job} {frame' : Frame} {filled' : List Filled} (frame : R.AlikeFrames j.frame frame')
    (filled : List.Forall₂ R.AlikeFilled j.filled filled') : AlikeJobs R j { j with frame := frame', filled := filled' }

namespace AlikeJobs

variable {j j' : Job} {f f' : Frame} (h : R.AlikeJobs j j')
include h

theorem frame : R.AlikeFrames j.frame j'.frame := by
  obtain ⟨frame, -⟩ := h
  exact frame

/-- What jobs have in common. -/
theorem same : j'.function = j.function ∧ j'.todo = j.todo ∧ j'.subject = j.subject ∧
    j'.frame.container = j.frame.container := by
  obtain ⟨⟨-⟩, -⟩ := h
  exact ⟨rfl, rfl, rfl, rfl⟩

theorem at_frame (frame : R.AlikeFrames f f') : R.AlikeJobs { j with frame := f } { j' with frame := f' } := by
  obtain ⟨-, filled⟩ := h
  exact .mk (j := { j with frame := f }) frame filled

theorem fill {x x' : Filled} (filled : R.AlikeFilled x x') (frame : R.AlikeFrames f f') :
    R.AlikeJobs (j.fill x f) (j'.fill x' f') := by
  obtain ⟨-, before⟩ := h
  exact .mk (j := j.fill x f) frame (List.rel_append before (.cons filled .nil))

/-- The container that `$` stands for is the same. -/
theorem self : j'.self = j.self := by
  obtain ⟨-, filled⟩ := h
  unfold Job.self
  dsimp only
  generalize j.filled = before at filled
  induction filled with
  | nil => rfl
  | cons first _ ih =>
    rw [List.findSome?_cons, List.findSome?_cons, ih]
    cases first <;> rfl

theorem scene : j'.scene = j.scene := by
  have self := h.self
  obtain ⟨⟨-⟩, -⟩ := h
  exact congrArg (Scene.mk · _) self

end AlikeJobs

end Pairing

end Injector
