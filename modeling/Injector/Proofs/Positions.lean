import Injector.Proofs.Jobs
/-!
# Positions and names

The names of a signature are meant for the entries of `Param.parametersOf`, in which groups are
flattened. A slot sees the name at its position, and the list around a group advances the position
once more after it: so each group that is closed before an extractor takes it one name further
(`Param.position_slotsOf`). In every run the names line up exactly for the extractors that no group is
closed before (`Run.lines_up_iff`).
-/
namespace Injector

/-! ## Groups -/

mutual

/-- How many groups a parameter is made of: itself, if it is one, and those inside. -/
def Param.groups : Param → Nat
  | .one _ => 0
  | .group ps => Param.groupsOf ps + 1

/-- How many groups a parameter list is made of. -/
def Param.groupsOf : List Param → Nat
  | [] => 0
  | p :: ps => p.groups + Param.groupsOf ps

end

mutual

/-- How many groups are closed before each extractor of a parameter that `n` groups are closed before. -/
def Param.closed : Param → Nat → List Nat
  | .one _, n => [n]
  | .group ps, n => Param.closedOf ps n

/-- How many groups are closed before each extractor of a parameter list that `n` groups are closed before. -/
def Param.closedOf : List Param → Nat → List Nat
  | [], _ => []
  | p :: ps, n => p.closed n ++ Param.closedOf ps (n + p.groups)

end

/-- How many groups of a parameter list are closed before its `k`-th extractor. -/
def Param.closedBefore (ps : List Param) (k : Nat) : Nat := (Param.closedOf ps 0).getD k 0

/-! ## Where the slots are -/

namespace Param

mutual

/-- The slots of a parameter that comes after `i` extractors and `n` groups: each is at its place among the extractors,
and one further for every group closed before it. So is what comes after the parameter. -/
theorem positions_slots (p : Param) (i n : Nat) :
    (p.slots (i + n)).1.map Slot.position = ((p.closed n).zipIdx i).map (fun x => x.2 + x.1) ∧
      (p.slots (i + n)).2 + 1 = (i + (p.closed n).length) + (n + p.groups) := by
  cases p with
  | one e => exact ⟨rfl, Nat.add_right_comm i n 1⟩
  | group ps =>
    obtain ⟨here, after⟩ := positions_slotsOf ps i n
    exact ⟨here, congrArg (· + 1) after⟩

theorem positions_slotsOf (ps : List Param) (i n : Nat) :
    (slotsOf ps (i + n)).1.map Slot.position = ((closedOf ps n).zipIdx i).map (fun x => x.2 + x.1) ∧
      (slotsOf ps (i + n)).2 = (i + (closedOf ps n).length) + (n + groupsOf ps) := by
  cases ps with
  | nil => exact ⟨rfl, rfl⟩
  | cons p ps =>
    obtain ⟨here, after⟩ := positions_slots p i n
    obtain ⟨others, last⟩ := positions_slotsOf ps (i + (p.closed n).length) (n + p.groups)
    simp only [slotsOf, closedOf, groupsOf, List.map_append, List.zipIdx_append, List.length_append]
    rw [after]
    refine ⟨by rw [here, others], ?_⟩
    rw [last, Nat.add_assoc i, Nat.add_assoc n]

end

/-- The `k`-th extractor is at position `k`, and one further for every group closed before it. -/
theorem position_slotsOf {ps : List Param} {k : Nat} {slot : Slot} (here : (slotsOf ps 0).1[k]? = some slot) :
    slot.position = k + closedBefore ps k := by
  have at_k : ((slotsOf ps 0).1.map Slot.position)[k]? = some slot.position := by
    rw [List.getElem?_map, here]
    rfl
  rw [(positions_slotsOf ps 0 0).1, List.getElem?_map, List.getElem?_zipIdx] at at_k
  cases closed : (closedOf ps 0)[k]? with
  | none =>
    rw [closed] at at_k
    cases at_k
  | some c =>
    rw [closed] at at_k
    have position : 0 + k + c = slot.position := Option.some.inj at_k
    rw [closedBefore, List.getD_eq_getElem?_getD, closed, Option.getD_some, ← position, Nat.zero_add]

/-! ## What the entries describe -/

mutual

theorem parameters_slots (p : Param) (i : Nat) :
    p.parameters = (p.slots i).1.flatMap fun slot => slot.extractor.parameters := by
  cases p with
  | one e => exact (List.append_nil _).symm
  | group ps => exact parametersOf_slotsOf ps i

/-- The entries are the descriptions of the slots, in order. -/
theorem parametersOf_slotsOf (ps : List Param) (i : Nat) :
    parametersOf ps = (slotsOf ps i).1.flatMap fun slot => slot.extractor.parameters := by
  cases ps with
  | nil => rfl
  | cons p ps =>
    simp only [parametersOf, slotsOf, List.flatMap_append]
    rw [parameters_slots p i, parametersOf_slotsOf ps]

end

end Param

/-- Each of the container's own extractors is one entry. -/
theorem Extractor.exists_parameters {e : Extractor} (own : e.parameters ≠ []) : ∃ d, e.parameters = [d] := by
  cases e with
  | inject | autowired | annotated | named | arg | rest | kwargs | container => exact ⟨_, rfl⟩
  | inspect | lookup | replace => exact absurd rfl own

/-- If every slot is one entry, the `k`-th slot is the `k`-th entry. -/
theorem Slot.getElem?_entries {slots : List Slot} (own : ∀ slot ∈ slots, slot.extractor.parameters ≠ []) {k : Nat} {slot : Slot}
    (here : slots[k]? = some slot) {d : Parameter} (entry : slot.extractor.parameters = [d]) :
    (slots.flatMap fun slot => slot.extractor.parameters)[k]? = some d := by
  induction slots generalizing k with
  | nil => cases here
  | cons first others ih =>
    obtain ⟨d₀, entry₀⟩ := Extractor.exists_parameters (own first List.mem_cons_self)
    rw [List.flatMap_cons, entry₀]
    cases k with
    | zero =>
      obtain rfl := Option.some.inj here
      rw [entry] at entry₀
      exact congrArg some (List.cons.inj entry₀).1.symm
    | succ k => exact ih (fun slot hs => own slot (List.mem_cons_of_mem _ hs)) here

/-! ## Primitives by name -/

/-- Whether a primitive parameter takes the keyword argument called `name`, which then has to be readable; without one,
and without a readable positional argument, the default called `name`. -/
structure Frame.TakesBy (f : Frame) (name : String) (q : Primitive) : Prop where
  keyword : ∀ {v left}, f.arguments.takeKeyword name = some (v, left) → f.fillAlone (.arg q) =
    match q.read v with
    | some w => .ok (.primitive q w, { f with arguments := left })
    | none => .error (.incorrectType q.ty v.ty)
  default : ∀ {u w}, f.arguments.takeKeyword name = none → f.arguments.takePositional q.accepts = none →
    f.signature.defaultOf name = some u → q.read u = some w → f.fillAlone (.arg q) = .ok (.primitive q w, f)

/-- A primitive goes by the name at its position. -/
theorem Frame.takesBy_of_name {f : Frame} {name : String} (named : f.signature.name? f.position = some name) (q : Primitive) :
    f.TakesBy name q where
  keyword {v left} taken := by
    cases reads : q.read v <;> simp only [fillAlone, fillPrimitive, named, Option.bind_some, taken, reads]
  default {u w} noKeyword noPositional default reads := by
    simp only [fillAlone, fillPrimitive, Signature.defaultAt, named, Option.bind_some, noKeyword, noPositional, default, reads]

namespace System

variable {p : Program}

/-- In every run, whenever a job comes to its next slot: it is the slot of the next entry of the function's parameters,
and it is filled at the position of the entry and one further for every group closed before it. So the names line up
exactly for the entries that no group is closed before; with as many names as entries each of these has its own name,
which its failures call it by, and whose keyword argument and default a primitive takes. -/
theorem Run.lines_up_iff (run : Run p) {i n m : Nat} {f : Function} {subject : Key} {c : ContainerId} {inScope : Bool}
    {arguments : Arguments} {signature : Signature} {path : List Key} {below : Stack .answer}
    (own : ∀ slot ∈ (Param.slotsOf f.params 0).1, slot.extractor.parameters ≠ [])
    (began : (run.state n).tasks[i]? =
      some ⟨.answer, .fill (Job.start f subject c inScope arguments signature path), below⟩)
    (pending : run.Pending i below n m) {j : Job} (found : (run.state m).tasks[i]? = some ⟨.answer, .fill j, below⟩)
    {slot : Slot} {rest : List Slot} (todo : j.todo = slot :: rest) {k : Nat} (entry : k = j.filled.length)
    {frame : Frame} (turn : frame = (j.atSlot slot).frame) :
    (∃ d, slot.extractor.parameters = [d] ∧ (Param.parametersOf f.params)[k]? = some d) ∧
    (∀ env w, Task.step env w ⟨.answer, .fill j, below⟩ =
      match slot.extractor.asks (w.bound c) with
      | some key => .next w (.resolve (j.request env.program slot key)) (.cons (.slot (j.atSlot slot) key) below)
      | none => .filled w j (frame.fillAlone slot.extractor) below) ∧
    frame.signature = signature ∧ frame.position = k + Param.closedBefore f.params k ∧
    (frame.position = k ↔ Param.closedBefore f.params k = 0) ∧
    (Param.closedBefore f.params k = 0 → signature.length = (Param.parametersOf f.params).length →
      ∃ name, signature.names[k]? = some name ∧ frame.label = name ∧ ∀ q, frame.TakesBy name q) := by
  subst turn
  obtain ⟨ds, advances⟩ := run.advances own began pending found
  obtain ⟨-, spends, slots, filled⟩ := advances.job
  have slots : (Param.slotsOf f.params 0).1 = ds.map Delivery.slot ++ slot :: rest := todo ▸ slots
  have count : k = ds.length := by
    rw [entry, filled, List.length_append, List.length_map]
    exact Nat.zero_add _
  have here : (Param.slotsOf f.params 0).1[k]? = some slot := by
    rw [slots, count, List.getElem?_append_right (by rw [List.length_map]), List.length_map, Nat.sub_self]
    rfl
  have own' := own slot (slots ▸ List.mem_append_right _ List.mem_cons_self)
  have position : slot.position = k + Param.closedBefore f.params k := Param.position_slotsOf here
  have signed : j.frame.signature = signature := by rw [spends]; rfl
  have asked : j.frame.container = c := by rw [spends]; rfl
  obtain ⟨d, described⟩ := Extractor.exists_parameters own'
  have described' : (Param.parametersOf f.params)[k]? = some d := by
    rw [Param.parametersOf_slotsOf f.params 0]
    exact Slot.getElem?_entries own here described
  refine ⟨⟨d, described, described'⟩, fun env w => ?_, signed, position, ?_, fun none long => ?_⟩
  · rw [← asked]
    exact Step.fill_eq env w todo own' below
  · change slot.position = k ↔ _
    rw [position]
    exact Nat.add_eq_left
  · -- As many names as entries: the name of the entry is there.
    have within : k < signature.names.length := by
      rw [show signature.names.length = _ from long]
      exact (List.getElem?_eq_some_iff.1 described').1
    have name : (j.atSlot slot).frame.signature.name? (j.atSlot slot).frame.position = some signature.names[k] := by
      change j.frame.signature.names[slot.position]? = _
      rw [signed, position, none, Nat.add_zero]
      exact List.getElem?_eq_getElem within
    refine ⟨signature.names[k], List.getElem?_eq_getElem within, ?_, fun q => Frame.takesBy_of_name name q⟩
    rw [Frame.label, Signature.labelAt, name]
    rfl

/-- Two ways to open a line, with the same names. Only where they have their group differs. -/
def switchboard : Program where
  functions := (Table.empty.insert "listen"
    { name := "listen", product := .object "Line", names := ["line", "port"], body := .inline [],
      params := [.one (.arg (.scalar .u8)), .group [.one (.arg (.scalar .u16))]] }).insert "dial"
    { name := "dial", product := .object "Line", names := ["line", "port"], body := .inline [],
      params := [.group [.one (.arg (.scalar .u8))], .one (.arg (.scalar .u16))] }

/-- Both are called with all their arguments by name. -/
def callRun : Run switchboard :=
  .ofOps switchboard "root" [
    .lasting ⟨"", "root", false⟩ (.call "listen" [] [("line", .scalar .u8 "1"), ("port", .scalar .u16 "2")] none),
    .lasting ⟨"", "root", false⟩ (.call "dial" [] [("line", .scalar .u8 "1"), ("port", .scalar .u16 "2")] none)]

/-- What waits for the line. -/
def callStack : Stack .answer := .cons (.deliver 0 none none) .nil

/-- The second entry of `listen` is inside of a group, and none is closed before it: it goes by the second name. -/
theorem listen_lines_up : ∃ f subject arguments j rest, (callRun.state 3).tasks[0]? =
      some ⟨.answer, .fill (Job.start f subject 0 false arguments (switchboard.function "listen").signature []), callStack⟩ ∧
    callRun.Pending 0 callStack 3 4 ∧ (callRun.state 4).tasks[0]? = some ⟨.answer, .fill j, callStack⟩ ∧
    j.todo = ⟨1, .arg (.scalar .u16)⟩ :: rest ∧ j.filled.length = 1 ∧
    (j.atSlot ⟨1, .arg (.scalar .u16)⟩).frame.position = 1 ∧
    (j.atSlot ⟨1, .arg (.scalar .u16)⟩).frame.TakesBy "port" (.scalar .u16) := by
  obtain ⟨arguments, began⟩ : ∃ arguments, (callRun.state 3).tasks[0]? = some ⟨.answer, .fill (Job.start
      (switchboard.function "listen") (switchboard.function "listen").key 0 false arguments
      (switchboard.function "listen").signature []), callStack⟩ := ⟨_, rfl⟩
  obtain ⟨j, found, todo, filled⟩ : ∃ j, (callRun.state 4).tasks[0]? = some ⟨.answer, .fill j, callStack⟩ ∧
      j.todo = [⟨1, .arg (.scalar .u16)⟩] ∧ j.filled.length = 1 := ⟨_, rfl, rfl, rfl⟩
  have pending : callRun.Pending 0 callStack 3 4 := Run.pending_of_atWork (k := 1) (by decide +kernel)
  obtain ⟨-, -, -, position, -, named⟩ :=
    callRun.lines_up_iff (by decide) began pending found todo filled.symm rfl
  obtain ⟨name, second, -, takes⟩ := named rfl rfl
  obtain rfl : "port" = name := Option.some.inj second
  exact ⟨_, _, arguments, j, _, began, pending, found, todo, filled, position, takes _⟩

/-- The second entry of `dial` comes after a group. Its argument is there, under the second of two names for two
entries; still the parameter does not find it, and has no name. -/
theorem dial_misses_its_argument : ∃ j v left, (callRun.state 13).tasks[1]? = some ⟨.answer, .fill j, callStack⟩ ∧
    j.frame.signature.names = ["line", "port"] ∧ (Param.parametersOf j.function.params).length = 2 ∧
    j.filled.length = 1 ∧ j.frame.arguments.takeKeyword "port" = some (v, left) ∧
    (Primitive.scalar .u16).read v = some v ∧ (callRun.state 14).tasks[1]? = some ⟨.answer, .give (k := .answer)
      (.error (.missingArgument "#2" 2 "dial" (.scalar .u16))), callStack⟩ :=
  ⟨_, _, _, rfl, rfl, rfl, rfl, rfl, rfl, rfl⟩

end System

end Injector
