import Injector.Proofs.AlikeWorlds
/-!
# Instances up to their identity

Two systems go on side by side. Each numbers the instances that it makes for itself, so they have the same
instances only up to a renaming: those that there are from the beginning have counterparts
(`Renaming.known`), and what is made later is made in both at the same time. `Renaming.Own` relates the
instances of the one to those of the other, of which two are the same if and only if their counterparts are
(`Own.same`). What literals stand for is related, also where they name saved instances (`literal_related`),
and so is what is told and answered (`Renaming.Events`, `Renaming.Replies`).
-/
namespace Injector

/-- How the instances of two systems correspond that go on from these worlds. -/
structure Renaming where
  left : World
  right : World
  /-- The instances from the beginning that are counterparts, and their parts. -/
  known : Instance → Instance → Prop
  similar : ∀ {v v'}, known v v' → v.content.Similar known v'.content
  /-- The serials from the beginning that are counterparts. -/
  serials : Nat → Nat → Prop
  faithful : ∀ {n n' m m'}, serials n n' → serials m m' → (n = m ↔ n' = m')
  given : ∀ {n n'}, serials n n' → n < left.supply.serials ∧ n' < right.supply.serials

namespace Renaming

variable {R : Renaming}

/-- The instances that hold what there was from the beginning: they are from then, are shared anew, or stand for a name
under which nothing is saved. -/
inductive Known (R : Renaming) : Instance → Instance → Prop
  | old {v v' : Instance} (h : R.known v v') : Known R v v'
  | unknown : Known R default default
  | again (d : Nat) {x x' : Datum} (h : x.Similar (Known R) x') :
    Known R ⟨R.left.supply.serials + d, x⟩ ⟨R.right.supply.serials + d, x'⟩

theorem Known.similar {v v' : Instance} (h : R.Known v v') : v.content.Similar R.Known v'.content := by
  cases h with
  | old h => exact (R.similar h).mono fun _ _ => .old
  | unknown => exact .scalar .unit ""
  | again d h => exact h

/-- The instances of both, those that are made later included. -/
def pairing (R : Renaming) : Pairing where
  left := R.left
  right := R.right
  containers := []
  known := R.Known
  similar := Known.similar

/-! ## Serials -/

/-- Whether two serials are counterparts from the beginning, or come as far after it. -/
def Serials (R : Renaming) (n n' : Nat) : Prop :=
  R.serials n n' ∨ ∃ d, n = R.left.supply.serials + d ∧ n' = R.right.supply.serials + d

theorem Serials.eq_iff {n n' m m' : Nat} (h : R.Serials n n') (h' : R.Serials m m') : n = m ↔ n' = m' := by
  rcases h with old | ⟨d, rfl, rfl⟩ <;> rcases h' with old' | ⟨d', rfl, rfl⟩
  · exact R.faithful old old'
  · have := R.given old
    omega
  · have := R.given old'
    omega
  · omega

/-- Whether an instance of the one system is the counterpart of one of the other. -/
structure Own (R : Renaming) (v v' : Instance) : Prop where
  alike : R.pairing.Alike v v'
  serial : R.Serials v.serial v'.serial

theorem Own.ty {v v' : Instance} (h : R.Own v v') : v.ty = v'.ty := h.alike.ty

/-- Instances are the same if and only if their counterparts are. -/
theorem Own.same {v v' u u' : Instance} (h : R.Own v v') (h' : R.Own u u') : v.same u = v'.same u' := by
  rw [Bool.eq_iff_iff, Shared.same, Shared.same, beq_iff_eq, beq_iff_eq]
  exact h.serial.eq_iff h'.serial

theorem results_alike {a a' : Except Failure Instance} (h : Results R.Own a a') : Results R.pairing.Alike a a' := by
  cases h with
  | ok h => exact .ok h.alike
  | error f => exact .error f

theorem expect_own {a a' : Except Failure Instance} (h : Results R.Own a a') (t : Ty) :
    Results R.Own (a.bind (Shared.expect t)) (a'.bind (Shared.expect t)) := by
  cases h with
  | error f => exact .error f
  | @ok v v' h =>
    simp only [Except.bind, Shared.expect]
    rw [h.ty]
    split
    · exact .ok h
    · exact .error _

/-! ## New instances -/

section Supplies

variable {s s' : Supply} (h : R.pairing.Supplies s s')
include h

theorem serials_next : R.Serials s.serials s'.serials := by
  obtain ⟨n, d, rfl, rfl⟩ := h
  exact .inr ⟨d, rfl, rfl⟩

theorem produce_own {vs vs' : List Instance} (q : Product) (ingredients : List.Forall₂ R.pairing.Alike vs vs') :
    R.pairing.Made R.Own (s.produce q vs) (s'.produce q vs') := by
  obtain ⟨alike, supply⟩ := h.produce q ingredients
  refine ⟨⟨alike, ?_⟩, supply⟩
  rw [(s.serial_produce q vs).1, (s'.serial_produce q vs').1]
  exact serials_next h

/-- What counterparts hold is shared anew. -/
theorem share_again {v v' : Instance} (alike : R.pairing.Alike v v') :
    R.pairing.Made R.Own (s.share v.content) (s'.share v'.content) := by
  have serial := serials_next h
  obtain ⟨n, d, rfl, rfl⟩ := h
  refine ⟨⟨?_, serial⟩, n, d + 1, rfl, rfl⟩
  cases alike with
  | known old => exact .known (.again d old.similar)
  | new _ held => exact .new d held

end Supplies

/-! ## Literals -/

section Literals

variable {vars vars' : Table String Instance} (saved : ∀ name, Option.Rel R.Own (vars.get? name) (vars'.get? name))
include saved

/-- What a name stands for, also if nothing is saved under it. -/
theorem saved_related (name : String) :
    R.pairing.Alike ((vars.get? name).getD default) ((vars'.get? name).getD default) := by
  rcases rel_cases (saved name) with ⟨none, none'⟩ | ⟨v, v', some, some', own⟩
  · rw [none, none']
    exact .known .unknown
  · rw [some, some']
    exact own.alike

theorem known_eq (l : Literal) : l.known vars = l.known vars' := by
  induction l with
  | saved name =>
    simp only [Literal.known, Table.contains]
    rcases rel_cases (saved name) with ⟨none, none'⟩ | ⟨_, _, some, some', -⟩
    · rw [none, none']
    · rw [some, some']
      rfl
  | erased inner ih => exact ih
  | scalar | text | object | objects => rfl

/-- What a literal stands for, saved instances included. -/
theorem literal_related (l : Literal) : ∀ {s s' : Supply}, R.pairing.Supplies s s' →
    R.pairing.Made R.pairing.Alike (l.make vars s) (l.make vars' s') := by
  induction l with
  | saved name => exact fun h => ⟨saved_related saved name, h⟩
  | erased inner ih =>
    intro s s' h
    obtain ⟨made, h⟩ := ih h
    exact h.share (.erased made)
  | scalar | text | object | objects => exact Pairing.Supplies.literal vars vars' (by trivial)

theorem literals_related (ls : List Literal) : ∀ {s s' : Supply}, R.pairing.Supplies s s' →
    R.pairing.Made (List.Forall₂ R.pairing.Alike) (Literal.makeAll vars ls s) (Literal.makeAll vars' ls s') := by
  induction ls with
  | nil => exact fun h => ⟨.nil, h⟩
  | cons l ls ih =>
    intro s s' h
    obtain ⟨first, h⟩ := literal_related saved l h
    obtain ⟨others, h⟩ := ih h
    exact ⟨.cons first others, h⟩

theorem named_related (ls : List (String × Literal)) : ∀ {s s' : Supply}, R.pairing.Supplies s s' →
    R.pairing.Made (List.Forall₂ R.pairing.AlikeNamed) (Literal.makeNamed vars ls s) (Literal.makeNamed vars' ls s') := by
  induction ls with
  | nil => exact fun h => ⟨.nil, h⟩
  | cons l ls ih =>
    intro s s' h
    obtain ⟨first, h⟩ := literal_related saved l.2 h
    obtain ⟨others, h⟩ := ih h
    exact ⟨.cons ⟨rfl, first⟩ others, h⟩

/-- An instance of one's own is new. -/
theorem makeOwn_own (l : Literal) {s s' : Supply} (h : R.pairing.Supplies s s') :
    R.pairing.Made R.Own (l.makeOwn vars s) (l.makeOwn vars' s') := by
  -- It is alike like any other, and gets the last serial that is given out for it.
  have own : ∀ {x x' : Instance × Supply} {k : Nat}, R.pairing.Made R.pairing.Alike x x' →
      x.1.serial = s.serials + k → x'.1.serial = s'.serials + k → R.pairing.Made R.Own x x' := by
    intro x x' k made serial serial'
    refine ⟨⟨made.1, ?_⟩, made.2⟩
    obtain ⟨n, d, rfl, rfl⟩ := h
    exact .inr ⟨d + k, by rw [serial]; exact Nat.add_assoc .., by rw [serial']; exact Nat.add_assoc ..⟩
  cases l with
  | saved name => exact share_again h (saved_related saved name)
  | scalar | text | object => exact own (k := 0) (literal_related saved _ h) rfl rfl
  | objects path count =>
    refine own (k := count) (literal_related saved _ h) ?_ ?_ <;> exact Supply.serials_objects _ path count
  | erased inner =>
    obtain ⟨made, supply⟩ := literal_related saved inner h
    obtain ⟨alike, next⟩ := supply.share (.erased made)
    exact ⟨⟨alike, serials_next supply⟩, next⟩

end Literals

/-! ## Replies and events -/

end Renaming

/-- Whether a reply holds no instance. -/
def Reply.Plain : Reply → Prop
  | .instance _ | .several _ | .signature _ _ _ _ | .primitive _ _ => False
  | _ => True

namespace Renaming

variable {R : Renaming}

/-- Whether replies are the same, but for instances, which are counterparts. -/
inductive Replies (R : Renaming) : Reply → Reply → Prop
  | plain {r : Reply} (h : r.Plain) : Replies R r r
  | instance {v v' : Instance} (h : R.Own v v') : Replies R (.instance v) (.instance v')
  | several {rs rs' : List Reply} (h : List.Forall₂ (Replies R) rs rs') : Replies R (.several rs) (.several rs')
  | signature (length : Nat) (empty : Bool) (names : List (Option String)) {vs vs' : List (Option Instance)}
    (h : List.Forall₂ (Option.Rel R.pairing.Alike) vs vs') :
    Replies R (.signature length empty names vs) (.signature length empty names vs')
  | primitive (q : Primitive) {v v' : Option Instance} (h : Option.Rel R.pairing.AlikeCopies v v') :
    Replies R (.primitive q v) (.primitive q v')

theorem Replies.failure {r r' : Reply} (h : R.Replies r r') : r'.failure? = r.failure? := by
  cases h <;> rfl

theorem Replies.stops {r r' : Reply} (h : R.Replies r r') (heading : Heading) : heading.stops r' = heading.stops r := by
  rw [Heading.stops, Heading.stops, h.failure]

/-- Whether the same is told, but for instances, which are counterparts. -/
inductive Events (R : Renaming) : Event → Event → Prop
  | built (f : String) {v v' : Instance} {args args' : List Given} (h : R.Own v v')
    (given : List.Forall₂ R.pairing.AlikeGiven args args') : Events R (.built f v args) (.built f v' args')
  | failed (f : String) {args args' : List Given} (given : List.Forall₂ R.pairing.AlikeGiven args args') :
    Events R (.failed f args) (.failed f args')
  | panicked (f : String) {args args' : List Given} (given : List.Forall₂ R.pairing.AlikeGiven args args') :
    Events R (.panicked f args) (.panicked f args')
  | converted {v v' i i' : Instance} (result : R.Own v v') (input : R.Own i i') :
    Events R (.converted v i) (.converted v' i')
  | hook (id : String) {v v' : Instance} (h : R.Own v v') (inScope : Bool) :
    Events R (.hook id v inScope) (.hook id v' inScope)
  | finalized (id : String) {v v' : Instance} (h : R.Own v v') : Events R (.finalized id v) (.finalized id v')
  | terminating (id : String) : Events R (.terminating id) (.terminating id)
  | performed (label : String) {r r' : Reply} (h : R.Replies r r') : Events R (.performed label r) (.performed label r')

/-- Whether the same was told since the beginning, or since both last cleared their logs. -/
def Told (R : Renaming) (log log' : List Event) : Prop := ∃ before before' es es',
  (before = R.left.log ∧ before' = R.right.log ∨ before = [] ∧ before' = []) ∧
    log = before ++ es ∧ log' = before' ++ es' ∧ List.Forall₂ R.Events es es'

theorem Told.concat {log log' : List Event} {e e' : Event} (h : R.Told log log') (related : R.Events e e') :
    R.Told (log ++ [e]) (log' ++ [e']) := by
  obtain ⟨before, before', es, es', since, rfl, rfl, same⟩ := h
  exact ⟨before, before', es ++ [e], es' ++ [e'], since, List.append_assoc .., List.append_assoc ..,
    List.rel_append same (.cons related .nil)⟩

end Renaming

end Injector
