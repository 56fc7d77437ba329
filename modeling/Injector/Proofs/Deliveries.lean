import Injector.Proofs.Jobs
/-!
# Where arguments go

A slot takes some of the positional arguments that are left, and leaves the others in their order
(`Parts`); and it takes the named arguments that it claims. So after all slots each argument is with
the one slot that took it, or left: `Receipts` tell which slot took a positional argument, and the first
slot that claims its name has a named one (`Run.arguments_are_conserved`).
-/
namespace Injector

/-! ## Parts of a list -/

/-- How a list comes apart into what is taken and what is left, both in their order. -/
inductive Parts : List Instance → List Instance → List Instance → Prop
  | nil : Parts [] [] []
  | take {v : Instance} {vs taken left : List Instance} (parts : Parts vs taken left) : Parts (v :: vs) (v :: taken) left
  | leave {v : Instance} {vs taken left : List Instance} (parts : Parts vs taken left) : Parts (v :: vs) taken (v :: left)

namespace Parts

theorem none : (vs : List Instance) → Parts vs [] vs
  | [] => .nil
  | _ :: vs => .leave (none vs)

theorem filter (p : Instance → Bool) : (vs : List Instance) → Parts vs (vs.filter p) (vs.filter fun v => !p v)
  | [] => .nil
  | v :: vs => by
    have parts := filter p vs
    cases h : p v
    · simpa [h] using parts.leave
    · simpa [h] using parts.take

theorem find {p : Instance → Bool} {v : Instance} {vs : List Instance} (found : vs.find? p = some v) :
    Parts vs [v] (vs.eraseP p) := by
  induction vs with
  | nil => cases found
  | cons w vs ih =>
    cases h : p w
    · rw [List.find?_cons_of_neg (by simp [h])] at found
      rw [List.eraseP_cons_of_neg (by simp [h])]
      exact (ih found).leave
    · rw [List.find?_cons_of_pos h] at found
      obtain rfl := Option.some.inj found
      rw [List.eraseP_cons_of_pos h]
      exact (none vs).take

end Parts

/-! ## Receipts -/

/-- Positional arguments in their order, each with the number of the slot that took it, if one did. -/
abbrev Receipts := List (Instance × Option Nat)

namespace Receipts

/-- What slot `k` took. -/
def taken (rs : Receipts) (k : Nat) : List Instance := (rs.filter fun r => r.2 = some k).map Prod.fst

/-- What no slot took. -/
def left (rs : Receipts) : List Instance := (rs.filter fun r => r.2 = none).map Prod.fst

/-- What slot `k` was left by the slots before it. -/
def leftAt (rs : Receipts) (k : Nat) : List Instance := (rs.filter fun r => r.2.all (k ≤ ·)).map Prod.fst

section
variable (v : Instance) (taker : Option Nat) (rs : Receipts) (k : Nat)

theorem taken_cons : taken ((v, taker) :: rs) k = (if taker = some k then [v] else []) ++ taken rs k := by
  by_cases h : taker = some k <;> simp [taken, h]

theorem left_cons : left ((v, taker) :: rs) = (if taker = none then [v] else []) ++ left rs := by
  by_cases h : taker = none <;> simp [left, h]

theorem leftAt_cons : leftAt ((v, taker) :: rs) k = (if taker.all (k ≤ ·) then [v] else []) ++ leftAt rs k := by
  cases h : taker.all (k ≤ ·) <;> simp [leftAt, h]

end

/-- Whether `rs'` are receipts `rs` once slot `k` has taken `got` of what was left, and left `after`; those of the slots
before it stay what they are. -/
structure Noted (rs rs' : Receipts) (k : Nat) (got after : List Instance) : Prop where
  same : rs'.map Prod.fst = rs.map Prod.fst
  takers : ∀ r ∈ rs', ∀ i, r.2 = some i → i < k + 1
  left : rs'.left = after
  taken : rs'.taken k = got
  leftAt : rs'.leftAt k = rs.left
  kept : ∀ i < k, rs'.taken i = rs.taken i ∧ rs'.leftAt i = rs.leftAt i

/-- What a slot takes can be noted. -/
theorem note {rs : Receipts} {k : Nat} (before : ∀ r ∈ rs, ∀ i, r.2 = some i → i < k) {got after : List Instance}
    (parts : Parts rs.left got after) : ∃ rs', Noted rs rs' k got after := by
  induction rs generalizing got after with
  | nil =>
    cases parts
    exact ⟨[], rfl, nofun, rfl, rfl, rfl, fun _ _ => ⟨rfl, rfl⟩⟩
  | cons r rs ih =>
    obtain ⟨v, taker⟩ := r
    obtain ⟨first, others⟩ := List.forall_mem_cons.1 before
    rw [left_cons] at parts
    cases taker with
    | some j =>
      -- A slot before has it.
      obtain ⟨rs', same, before', left, taken, leftAt, kept⟩ := ih others parts
      have hj : j < k := first j rfl
      refine ⟨(v, some j) :: rs', congrArg (v :: ·) same, List.forall_mem_cons.2 ⟨?_, before'⟩, ?_, ?_, ?_, fun i hi => ?_⟩
      · rintro _ ⟨⟩
        exact Nat.lt_succ_of_lt hj
      · simpa [left_cons] using left
      · simpa [taken_cons, Nat.ne_of_lt hj] using taken
      · simpa [leftAt_cons, left_cons, Nat.not_le.2 hj] using leftAt
      · rw [taken_cons, taken_cons, leftAt_cons, leftAt_cons, (kept i hi).1, (kept i hi).2]
        exact ⟨rfl, rfl⟩
    | none =>
      cases parts with
      | take parts =>
        obtain ⟨rs', same, before', left, taken, leftAt, kept⟩ := ih others parts
        refine ⟨(v, some k) :: rs', congrArg (v :: ·) same, List.forall_mem_cons.2 ⟨?_, before'⟩, ?_, ?_, ?_, fun i hi => ?_⟩
        · rintro _ ⟨⟩
          exact Nat.lt_succ_self k
        · simpa [left_cons] using left
        · simpa [taken_cons] using taken
        · simpa [leftAt_cons, left_cons] using leftAt
        · simp [taken_cons, leftAt_cons, kept i hi, Nat.ne_of_gt hi, Nat.le_of_lt hi]
      | leave parts =>
        obtain ⟨rs', same, before', left, taken, leftAt, kept⟩ := ih others parts
        refine ⟨(v, none) :: rs', congrArg (v :: ·) same, List.forall_mem_cons.2 ⟨nofun, before'⟩, ?_, ?_, ?_, fun i hi => ?_⟩
        · simpa [left_cons] using left
        · simpa [taken_cons] using taken
        · simpa [leftAt_cons, left_cons] using leftAt
        · simp [taken_cons, leftAt_cons, kept i hi]

end Receipts

/-- An answer that is of the right type is that of the container. -/
theorem Shared.expect_ok {t : Ty} {a : Except Failure Instance} {v : Instance} (h : a.bind (Shared.expect t) = .ok v) :
    a = .ok v ∧ v.ty = t := by
  cases a with
  | error => cases h
  | ok u =>
    change Shared.expect t u = .ok v at h
    unfold Shared.expect at h
    split at h
    · next typed =>
      cases h
      exact ⟨rfl, typed⟩
    · cases h

/-! ## What a slot takes -/

/-- The type of the instance that a dependency is. -/
def Extractor.dependency? : Extractor → Option Ty
  | .inject t | .autowired t | .annotated t _ | .named t _ => some t
  | _ => none

/-- Whether a slot takes the named argument `name` if it is still there: a primitive of that name does, and whoever
takes all that are left. -/
def Slot.claims (signature : Signature) (name : String) (slot : Slot) : Bool :=
  match slot.extractor with
  | .arg _ => signature.name? slot.position == some name
  | .kwargs => true
  | _ => false

/-- The instances that the container gave to a `rest` parameter of type `t`, of which there are none if it was not asked:
the members of a sequence, or the one of type `t`. -/
inductive Delivery.Bound (t : Ty) : Option (Key × Except Failure Instance) → List Instance → Prop
  | nothing : Bound t none []
  | whole {v : Instance} (typed : v.ty = .seq t) : Bound t (some (.type (.seq t), .ok v)) (v.itemsOf t)
  | single {v : Instance} (typed : v.ty = t) : Bound t (some (.type t, .ok v)) [v]

/-- What a slot takes and is filled with, where `rest` are the positional arguments that were left: `got` of these, and the
named arguments `named`. -/
inductive Delivery.Takes (signature : Signature) (rest : List Instance) :
    Delivery → List Instance → List (String × Instance) → Prop
  /-- A dependency that the container has needs no argument. -/
  | resolved {position : Nat} {e : Extractor} {t : Ty} {key : Key} {v : Instance} (dependency : e.dependency? = some t)
    (typed : v.ty = t) : Takes signature rest ⟨⟨position, e⟩, some (key, .ok v), .instance v⟩ [] []
  /-- Any other takes the first argument of its type. -/
  | argument {position : Nat} {e : Extractor} {t : Ty} {key : Key} {a : Except Failure Instance} {v : Instance}
    (dependency : e.dependency? = some t) (failed : ∀ u, a = .ok u → u.ty ≠ t)
    (first : rest.find? (fun v => v.ty = t) = some v) :
    Takes signature rest ⟨⟨position, e⟩, some (key, a), .instance v⟩ [v] []
  /-- A primitive is read from the argument of its name. -/
  | keyword {position : Nat} {q : Primitive} {name : String} {v w : Instance} (called : signature.name? position = some name)
    (reads : q.read v = some w) : Takes signature rest ⟨⟨position, .arg q⟩, none, .primitive q w⟩ [] [(name, v)]
  /-- Without one, from the first argument that can be read. -/
  | positional {position : Nat} {q : Primitive} {v w : Instance} (first : rest.find? q.accepts = some v)
    (reads : q.read v = some w) : Takes signature rest ⟨⟨position, .arg q⟩, none, .primitive q w⟩ [v] []
  /-- Without any, from the default. -/
  | default {position : Nat} {q : Primitive} {v w : Instance} (none : ∀ u ∈ rest, q.accepts u = false)
    (default : signature.defaultAt position = some v) (reads : q.read v = some w) :
    Takes signature rest ⟨⟨position, .arg q⟩, Option.none, .primitive q w⟩ [] []
  /-- All arguments of the type come after what the container gave. -/
  | rest {position : Nat} {t : Ty} {answer : Option (Key × Except Failure Instance)} {bound : List Instance}
    (given : Delivery.Bound t answer bound) :
    Takes signature rest ⟨⟨position, .rest t⟩, answer, .rest (bound ++ rest.filter (fun v => v.ty = t))⟩
      (rest.filter fun v => v.ty = t) []
  | kwargs {position : Nat} {named : List (String × Instance)} :
    Takes signature rest ⟨⟨position, .kwargs⟩, none, .kwargs named⟩ [] named
  | container {position : Nat} {c : ContainerId} {inScope : Bool} :
    Takes signature rest ⟨⟨position, .container⟩, none, .container c inScope⟩ [] []

namespace Frame

variable {f f' : Frame} {filled : Filled}

/-- What the slot at the position of a frame does about the arguments: it takes what it claims, and leaves the rest. -/
structure Delivers (f : Frame) (e : Extractor) (answer : Option (Key × Except Failure Instance)) (filled : Filled)
    (f' : Frame) (got : List Instance) : Prop where
  takes : Delivery.Takes f.signature f.arguments.positional ⟨⟨f.position, e⟩, answer, filled⟩ got
    (f.arguments.keyword.filter fun kw => Slot.claims f.signature kw.1 ⟨f.position, e⟩)
  positional : Parts f.arguments.positional got f'.arguments.positional
  keyword : f'.arguments.keyword = f.arguments.keyword.filter fun kw => !Slot.claims f.signature kw.1 ⟨f.position, e⟩

/-- Whether each name has one argument. -/
def Distinct (f : Frame) : Prop := (f.arguments.keyword.map Prod.fst).Nodup

/-- Where nothing is claimed, all named arguments are left. -/
theorem filter_of_unclaimed (kws : List (String × Instance)) (signature : Signature) (slot : Slot)
    (unclaimed : ∀ kw ∈ kws, slot.claims signature kw.1 = false) :
    (kws.filter fun kw => slot.claims signature kw.1) = [] ∧ (kws.filter fun kw => !slot.claims signature kw.1) = kws :=
  ⟨List.filter_eq_nil_iff.2 fun kw hk => by simp [unclaimed kw hk],
    List.filter_eq_self.2 fun kw hk => by simp [unclaimed kw hk]⟩

/-- A name has one argument. -/
theorem filter_of_find {kws : List (String × Instance)} (distinct : (kws.map Prod.fst).Nodup) {name : String}
    {kw : String × Instance} (found : kws.find? (fun kw => kw.1 == name) = some kw) :
    kws.filter (fun kw => kw.1 == name) = [kw] := by
  induction kws with
  | nil => cases found
  | cons first kws ih =>
    obtain ⟨new, distinct⟩ := List.nodup_cons.1 distinct
    by_cases h : first.1 = name
    · rw [List.find?_cons_of_pos (by simp [h])] at found
      obtain rfl := Option.some.inj found
      rw [List.filter_cons_of_pos (by simp [h]), List.filter_eq_nil_iff.2 fun kw hk same => ?_]
      exact new (List.mem_map.2 ⟨kw, hk, (eq_of_beq same).trans h.symm⟩)
    · rw [List.find?_cons_of_neg (by simp [h])] at found
      rw [List.filter_cons_of_neg (by simp [h])]
      exact ih distinct found

theorem delivers_fillDependency {e : Extractor} {t : Ty} (dependency : e.dependency? = some t) {key : Key}
    {a : Except Failure Instance} (taken : f.fillDependency t key a = .ok (filled, f')) :
    ∃ got, f.Delivers e (some (key, a)) filled f' got := by
  have unclaimed : ∀ name, Slot.claims f.signature name ⟨f.position, e⟩ = false := by
    intro name
    cases e <;> first | rfl | cases dependency
  obtain ⟨claimed, left⟩ := filter_of_unclaimed f.arguments.keyword f.signature _ fun kw _ => unclaimed kw.1
  unfold fillDependency at taken
  split at taken
  · next v typed =>
    cases taken
    obtain ⟨rfl, right⟩ := Shared.expect_ok typed
    exact ⟨[], claimed ▸ .resolved dependency right, .none _, left.symm⟩
  · next failure failed =>
    split at taken
    · next v arguments first =>
      cases taken
      obtain ⟨_, found, same⟩ := Option.map_eq_some_iff.1 first
      cases same
      have failed' : ∀ u, a = .ok u → u.ty ≠ t := by
        rintro u rfl typed
        simp [Except.bind, Shared.expect, typed] at failed
      exact ⟨[v], claimed ▸ .argument dependency failed' found, .find found, left.symm⟩
    · cases taken

/-- Where the name of a primitive has no argument, it claims none. -/
theorem unclaimed_of_uncalled (uncalled : (f.signature.name? f.position).bind f.arguments.takeKeyword = none) (q : Primitive) :
    ∀ kw ∈ f.arguments.keyword, Slot.claims f.signature kw.1 ⟨f.position, .arg q⟩ = false := by
  intro kw hk
  by_contra claimed
  have called : f.signature.name? f.position = some kw.1 := by simpa [Slot.claims] using claimed
  rw [called] at uncalled
  have missing := Option.map_eq_none_iff.1 uncalled
  simpa using List.find?_eq_none.1 missing kw hk

/-- A primitive takes one argument at most: by name, or the first that can be read. -/
theorem delivers_fillPrimitive (distinct : f.Distinct) {q : Primitive} (taken : f.fillPrimitive q = .ok (filled, f')) :
    ∃ got, f.Delivers (.arg q) none filled f' got := by
  unfold fillPrimitive at taken
  split at taken
  · next v arguments named =>
    obtain ⟨name, called, keyword⟩ := Option.bind_eq_some_iff.1 named
    obtain ⟨⟨name', v⟩, found, same⟩ := Option.map_eq_some_iff.1 keyword
    cases same
    have same : (name' == name) = true := List.find?_some (p := fun kw : String × Instance => kw.1 == name) found
    obtain rfl := eq_of_beq same
    have claims : ∀ other, Slot.claims f.signature other ⟨f.position, .arg q⟩ = (other == name') := by
      intro other
      rw [Slot.claims, called]
      simp [eq_comm]
    split at taken
    · next w reads =>
      cases taken
      refine ⟨[], ?_, .none _, ?_⟩
      · simp only [claims]
        rw [filter_of_find distinct found]
        exact .keyword called reads
      · simp only [claims]
    · cases taken
  · next uncalled =>
    obtain ⟨claimed, left⟩ := filter_of_unclaimed _ _ _ (unclaimed_of_uncalled uncalled q)
    split at taken
    · next v arguments first =>
      cases taken
      obtain ⟨_, found, same⟩ := Option.map_eq_some_iff.1 first
      cases same
      have accepted : q.accepts v = true := List.find?_some found
      obtain ⟨read, reads⟩ := Option.isSome_iff_exists.1 accepted
      refine ⟨[v], ?_, .find found, left.symm⟩
      rw [claimed, reads]
      exact .positional found reads
    · next missing =>
      split at taken
      · next w defaulted =>
        cases taken
        obtain ⟨u, default, reads⟩ := Option.bind_eq_some_iff.1 defaulted
        have unread := Arguments.takePositional_eq_none_iff.1 missing
        exact ⟨[], claimed ▸ .default unread default reads, .none _, left.symm⟩
      · cases taken

theorem delivers_fillRest {t : Ty} {answer : Option (Key × Except Failure Instance)} {bound : List Instance}
    (given : Delivery.Bound t answer bound) :
    ∃ got, f.Delivers (.rest t) answer (f.fillRest t bound).1 (f.fillRest t bound).2 got := by
  obtain ⟨claimed, left⟩ := filter_of_unclaimed f.arguments.keyword f.signature ⟨f.position, .rest t⟩ fun _ _ => rfl
  exact ⟨_, claimed ▸ .rest given, .filter _ _, left.symm⟩

/-- A slot that asks for nothing is filled from the arguments. -/
theorem delivers_fillAlone (distinct : f.Distinct) {e : Extractor} (own : e.parameters ≠ []) {bound : Key → Bool}
    (silent : e.asks bound = none) (taken : f.fillAlone e = .ok (filled, f')) :
    ∃ got, f.Delivers e none filled f' got := by
  cases e with
  | arg q =>
    simp only [fillAlone] at taken
    exact delivers_fillPrimitive distinct taken
  | rest t =>
    cases taken
    exact delivers_fillRest .nothing
  | kwargs =>
    cases taken
    have all : (f.arguments.keyword.filter fun kw => Slot.claims f.signature kw.1 ⟨f.position, .kwargs⟩) =
        f.arguments.keyword := List.filter_eq_self.2 fun _ _ => rfl
    refine ⟨[], ?_, .none _, (List.filter_eq_nil_iff.2 fun _ _ => by simp [Slot.claims]).symm⟩
    rw [all]
    exact .kwargs
  | container =>
    cases taken
    obtain ⟨claimed, left⟩ := filter_of_unclaimed f.arguments.keyword f.signature ⟨f.position, .container⟩ fun _ _ => rfl
    exact ⟨[], claimed ▸ .container, .none _, left.symm⟩
  | inject | autowired | annotated | named => cases silent
  | inspect | lookup | replace => exact absurd rfl own

/-- A slot that asked for a key is filled with the answer and the arguments. -/
theorem delivers_fillWith {e : Extractor} (own : e.parameters ≠ []) {bound : Key → Bool} {key : Key}
    (asks : e.asks bound = some key) {a : Except Failure Instance} (taken : f.fillWith key a e = .ok (filled, f')) :
    ∃ got, f.Delivers e (some (key, a)) filled f' got := by
  cases e with
  | inject t | autowired t | annotated t tags | named t name =>
    simp only [fillWith] at taken
    exact delivers_fillDependency rfl taken
  | rest t =>
    unfold fillWith at taken
    dsimp only at taken
    split at taken
    · next v typed =>
      cases taken
      obtain ⟨rfl, right⟩ := Shared.expect_ok typed
      -- It asked for the sequence, or for the single item.
      by_cases whole : key = .type (.seq t)
      · subst whole
        simp only [↓reduceIte] at right ⊢
        exact delivers_fillRest (.whole right)
      · simp only [whole, ↓reduceIte] at right ⊢
        obtain rfl : key = .type t := by
          simp only [Extractor.asks] at asks
          split at asks
          · exact absurd (Option.some.inj asks).symm whole
          · split at asks
            · exact (Option.some.inj asks).symm
            · cases asks
        exact delivers_fillRest (.single right)
    · cases taken
  | arg | kwargs | container => cases asks
  | inspect | lookup | replace => exact absurd rfl own

end Frame

/-! ## What a whole job does -/

/-- The number of the first slot that claims a name. -/
def Slot.claimant (signature : Signature) (slots : List Slot) (name : String) : Option Nat :=
  slots.findIdx? fun slot => slot.claims signature name

/-- Whether receipts account for all arguments of a job: `ds` is what became of its slots so far, and `unspent` are the
arguments in its frame. Each positional argument has one receipt, by which a slot took it or it is left; each named one
is with the first slot that claims it, or left. -/
structure Receipts.Account (signature : Signature) (arguments : Arguments) (ds : List Delivery) (unspent : Arguments)
    (rs : Receipts) : Prop where
  positional : rs.map Prod.fst = arguments.positional
  takers : ∀ r ∈ rs, ∀ k, r.2 = some k → k < ds.length
  takes : ∀ (k : Nat) (d : Delivery), ds[k]? = some d → d.Takes signature (rs.leftAt k) (rs.taken k)
    (arguments.keyword.filter fun kw => Slot.claimant signature (ds.map Delivery.slot) kw.1 = some k)
  left : unspent.positional = rs.left
  named : unspent.keyword =
    arguments.keyword.filter fun kw => Slot.claimant signature (ds.map Delivery.slot) kw.1 = none

namespace Slot

variable {signature : Signature} {slots : List Slot} {slot : Slot} {name : String}

/-- A further slot claims what no slot before it does. -/
theorem claimant_concat : claimant signature (slots ++ [slot]) name =
    (claimant signature slots name).or (if slot.claims signature name then some slots.length else none) := by
  rw [claimant, List.findIdx?_append, claimant]
  cases h : slot.claims signature name <;> simp [List.findIdx?_cons, h]

theorem lt_of_claimant {k : Nat} (h : claimant signature slots name = some k) : k < slots.length :=
  (List.findIdx?_eq_some_iff_getElem.1 h).1

/-- What a slot claims, it claims whatever slots come after it. -/
theorem claimant_concat_iff {k : Nat} (before : k < slots.length) :
    claimant signature (slots ++ [slot]) name = some k ↔ claimant signature slots name = some k := by
  rw [claimant_concat]
  cases claimant signature slots name with
  | some i => rfl
  | none => by_cases h : slot.claims signature name <;> simp [h, Nat.ne_of_gt before]

/-- The last slot has what it claims of what was left. -/
theorem filter_claimant_last (signature : Signature) (slots : List Slot) (slot : Slot) (kws : List (String × Instance)) :
    kws.filter (fun kw => claimant signature (slots ++ [slot]) kw.1 = some slots.length) =
      (kws.filter fun kw => claimant signature slots kw.1 = none).filter fun kw => slot.claims signature kw.1 := by
  rw [List.filter_filter]
  refine List.filter_congr fun kw _ => ?_
  rw [claimant_concat]
  cases h : claimant signature slots kw.1 with
  | some i => simp [Nat.ne_of_lt (lt_of_claimant h)]
  | none => cases slot.claims signature kw.1 <;> simp

/-- What it does not claim is left. -/
theorem filter_unclaimed (kws : List (String × Instance)) :
    kws.filter (fun kw => claimant signature (slots ++ [slot]) kw.1 = none) =
      (kws.filter fun kw => claimant signature slots kw.1 = none).filter fun kw => !slot.claims signature kw.1 := by
  rw [List.filter_filter]
  refine List.filter_congr fun kw _ => ?_
  rw [claimant_concat]
  cases claimant signature slots kw.1 with
  | some i => simp
  | none => cases slot.claims signature kw.1 <;> simp

end Slot

namespace Receipts.Account

variable {signature : Signature} {arguments unspent : Arguments} {ds : List Delivery} {rs : Receipts}

theorem start : Account signature arguments [] arguments (arguments.positional.map fun v => (v, none)) where
  positional := by rw [List.map_map]; exact List.map_id _
  takers r hr k taken := by
    obtain ⟨v, -, rfl⟩ := List.mem_map.1 hr
    cases taken
  takes k d found := by cases found
  left := by simp [Receipts.left, List.filter_map, Function.comp_def]
  named := (List.filter_eq_self.2 fun _ _ => rfl).symm

/-- Names that were distinct stay so. -/
theorem distinct (h : Account signature arguments ds unspent rs) (distinct : (arguments.keyword.map Prod.fst).Nodup) :
    (unspent.keyword.map Prod.fst).Nodup := by
  rw [h.named]
  exact distinct.sublist (List.filter_sublist.map _)

/-- The account goes on with what a slot takes, once that is noted. -/
theorem next_of_noted (h : Account signature arguments ds unspent rs) {f f' : Frame} {e : Extractor}
    {answer : Option (Key × Except Failure Instance)} {filled : Filled} {got : List Instance}
    (delivers : f.Delivers e answer filled f' got) (signed : f.signature = signature) (before : f.arguments = unspent)
    {rs' : Receipts} (noted : Noted rs rs' ds.length got f'.arguments.positional) :
    Account signature arguments (ds ++ [⟨⟨f.position, e⟩, answer, filled⟩]) f'.arguments rs' := by
  subst signed before
  obtain ⟨takes, -, keyword⟩ := delivers
  obtain ⟨same, takers, left, taken, leftAt, kept⟩ := noted
  refine ⟨same.trans h.positional, by simpa using takers, fun k d found => ?_, left.symm, ?_⟩
  · simp only [List.map_append, List.map_singleton]
    by_cases old : k < ds.length
    · rw [List.getElem?_append_left old] at found
      have old' : k < (ds.map Delivery.slot).length := by rwa [List.length_map]
      rw [(kept k old).1, (kept k old).2]
      simp only [Slot.claimant_concat_iff old']
      exact h.takes k d found
    · obtain rfl : k = ds.length := by
        have := (List.getElem?_eq_some_iff.1 found).1
        rw [List.length_append, List.length_singleton] at this
        omega
      rw [List.getElem?_concat_length] at found
      obtain rfl := Option.some.inj found
      have last := Slot.filter_claimant_last f.signature (ds.map Delivery.slot) ⟨f.position, e⟩ arguments.keyword
      rw [List.length_map, ← h.named] at last
      rw [leftAt, taken, ← h.left, last]
      exact takes
  · rw [List.map_append, List.map_singleton, Slot.filter_unclaimed, ← h.named]
    exact keyword

/-- The account goes on with each slot. -/
theorem next (h : Account signature arguments ds unspent rs) {f f' : Frame} {e : Extractor}
    {answer : Option (Key × Except Failure Instance)} {filled : Filled} {got : List Instance}
    (delivers : f.Delivers e answer filled f' got) (signed : f.signature = signature) (before : f.arguments = unspent) :
    ∃ rs', Account signature arguments (ds ++ [⟨⟨f.position, e⟩, answer, filled⟩]) f'.arguments rs' := by
  obtain ⟨rs', noted⟩ := Receipts.note h.takers (h.left ▸ before ▸ delivers.positional)
  exact ⟨rs', h.next_of_noted delivers signed before noted⟩

end Receipts.Account

namespace System

variable {p : Program} {run : Run p} {i n m : Nat} {below : Stack .answer}

/-- All the way from slot to slot the arguments of a job are accounted for. -/
theorem Run.Advances.account {first j : Job} {ds : List Delivery} (h : run.Advances i below first ds j)
    (own : ∀ slot ∈ first.todo, slot.extractor.parameters ≠ [])
    (distinct : (first.frame.arguments.keyword.map Prod.fst).Nodup) :
    ∃ rs, Receipts.Account first.frame.signature first.frame.arguments ds j.frame.arguments rs := by
  induction h with
  | start => exact ⟨_, .start⟩
  | @alone ds j slot rest filled frame k before found todo silent taken ih =>
    obtain ⟨rs, account⟩ := ih
    have own' := before.own own slot (todo ▸ List.mem_cons_self)
    have signed : (j.atSlot slot).frame.signature = first.frame.signature := by
      change j.frame.signature = _
      rw [before.job.2.1]
    have distinct' : (j.atSlot slot).frame.Distinct := account.distinct distinct
    obtain ⟨got, delivers⟩ := Frame.delivers_fillAlone distinct' own' silent taken
    exact account.next delivers signed rfl
  | @answered ds j slot rest key a filled frame k k' before found todo asks answered taken ih =>
    obtain ⟨rs, account⟩ := ih
    have own' := before.own own slot (todo ▸ List.mem_cons_self)
    have signed : (j.atSlot slot).frame.signature = first.frame.signature := by
      change j.frame.signature = _
      rw [before.job.2.1]
    obtain ⟨got, delivers⟩ := Frame.delivers_fillWith own' asks taken
    exact account.next delivers signed rfl

end System

/-! ## Explicit arguments -/

namespace Arguments

theorem mem_insertNamed {name : String} {v : Instance} {kws : List (String × Instance)} {kw : String × Instance}
    (h : kw ∈ insertNamed name v kws) : kw = (name, v) ∨ kw ∈ kws := by
  induction kws with
  | nil => exact .inl (List.mem_singleton.1 h)
  | cons first kws ih =>
    obtain ⟨other, w⟩ := first
    unfold insertNamed at h
    split at h
    · exact (List.mem_cons.1 h).imp_right (List.mem_cons_of_mem _)
    · split at h
      · exact List.mem_cons.1 h
      · rcases List.mem_cons.1 h with rfl | h
        · exact .inr List.mem_cons_self
        · exact (ih h).imp_right (List.mem_cons_of_mem _)

/-- Named arguments stay sorted by their names. -/
theorem sorted_insertNamed (name : String) (v : Instance) {kws : List (String × Instance)}
    (sorted : kws.Pairwise fun a b => a.1 < b.1) : (insertNamed name v kws).Pairwise fun a b => a.1 < b.1 := by
  induction kws with
  | nil => exact List.pairwise_singleton _ _
  | cons first kws ih =>
    obtain ⟨other, w⟩ := first
    obtain ⟨least, others⟩ := List.pairwise_cons.1 sorted
    unfold insertNamed
    split
    · next same =>
      subst same
      exact List.pairwise_cons.2 ⟨least, others⟩
    · next differs =>
      split
      · next first =>
        refine List.pairwise_cons.2 ⟨fun kw hk => ?_, sorted⟩
        rcases List.mem_cons.1 hk with rfl | hk
        · exact first
        · exact String.lt_trans first (least kw hk)
      · next later =>
        have after : other < name := by
          by_contra no
          exact differs (String.le_antisymm (String.not_lt.1 no) (String.not_lt.1 later))
        refine List.pairwise_cons.2 ⟨fun kw hk => ?_, ih others⟩
        rcases mem_insertNamed hk with rfl | hk
        · exact after
        · exact least kw hk

/-- Each name has one argument. -/
theorem distinct_ofLists (positional : List Instance) (named : List (String × Instance)) :
    ((ofLists positional named).keyword.map Prod.fst).Nodup := by
  have sorted : (ofLists positional named).keyword.Pairwise fun a b => a.1 < b.1 := by
    change (named.foldl (fun kws kw => insertNamed kw.1 kw.2 kws) []).Pairwise _
    refine List.foldlRecOn named _ (motive := fun kws : List (String × Instance) => kws.Pairwise fun a b => a.1 < b.1) .nil
      fun kws sorted kw _ => ?_
    exact sorted_insertNamed kw.1 kw.2 sorted
  refine List.pairwise_map.2 (sorted.imp fun {a b} before same => ?_)
  rw [same] at before
  exact String.lt_irrefl _ before

end Arguments

namespace System

variable {p : Program}

/-- Whenever the parameters of a function are all filled, by the container's own extractors: what became of its slots in
this run accounts for all the arguments it was called with. So each positional argument is with the one slot that took it,
or left in the frame; and each named one is with the first slot that claims it, or left. -/
theorem Run.arguments_are_conserved (run : Run p) {i n m : Nat} {f : Function} {subject : Key} {c : ContainerId}
    {inScope : Bool} {positional : List Instance} {named : List (String × Instance)} {signature : Signature}
    {path : List Key} {below : Stack .answer}
    (own : ∀ slot ∈ (Param.slotsOf f.params 0).1, slot.extractor.parameters ≠ [])
    (began : (run.state n).tasks[i]? =
      some ⟨.answer, .fill (Job.start f subject c inScope (.ofLists positional named) signature path), below⟩)
    (pending : run.Pending i below n m) {j : Job} {times : Nat}
    (filled : (run.state m).tasks[i]? = some ⟨.answer, .pause j times, below⟩) :
    ∃ ds rs, run.Advances i below (Job.start f subject c inScope (.ofLists positional named) signature path) ds j ∧
      ds.map Delivery.slot = (Param.slotsOf f.params 0).1 ∧ ds.map Delivery.filled = j.filled ∧
      Receipts.Account signature (.ofLists positional named) ds j.frame.arguments rs := by
  obtain ⟨ds, advances, todo⟩ := run.advanced own began pending filled
  obtain ⟨-, -, slots, values⟩ := advances.job
  obtain ⟨rs, account⟩ := advances.account own (Arguments.distinct_ofLists positional named)
  rw [todo, List.append_nil] at slots
  exact ⟨ds, rs, advances, slots.symm, values.symm, account⟩

/-- A crew needs a ship, a number, all that is on board and what is said by name. -/
def harbour : Program where
  functions := Table.empty.insert "crew"
    { name := "crew", product := .object "Crew", body := .inline [],
      params := [.one (.inject (.declared "Ship")), .group [.one (.arg (.scalar .u8)), .one (.rest (.declared "Crate"))],
        .one .kwargs] }

/-- Nobody has a ship but who calls. -/
def crewRun : Run harbour :=
  .ofOps harbour "root" [
    .lasting ⟨"", "root", false⟩ (.call "crew"
      [.object "Crate", .text "ahoy", .scalar .u8 "7", .object "Crate", .object "Ship"] [("bound", .text "north")] none)]

def crewStack : Stack .answer := .cons (.deliver 0 none none) .nil

/-- All of the five arguments are taken but the text. -/
theorem a_text_is_left : ∃ f subject positional named signature j ds rs,
    (crewRun.state 3).tasks[0]? = some ⟨.answer, .fill (Job.start f subject 0 false (.ofLists positional named) signature []),
      crewStack⟩ ∧ crewRun.Pending 0 crewStack 3 11 ∧
    (crewRun.state 11).tasks[0]? = some ⟨.answer, .pause j 0, crewStack⟩ ∧
    Receipts.Account signature (.ofLists positional named) ds j.frame.arguments rs ∧ ds.length = 4 ∧ rs.length = 5 ∧
    rs.left.map Shared.ty = [.text] := by
  obtain ⟨f, subject, positional, named, signature, began, own, five⟩ : ∃ f subject positional named signature,
      (crewRun.state 3).tasks[0]? = some ⟨.answer,
        .fill (Job.start f subject 0 false (.ofLists positional named) signature []), crewStack⟩ ∧
      (∀ slot ∈ (Param.slotsOf f.params 0).1, slot.extractor.parameters ≠ []) ∧ positional.length = 5 :=
    ⟨harbour.function "crew", (harbour.function "crew").key, _, _, (harbour.function "crew").signature, rfl, by decide, rfl⟩
  have pending : crewRun.Pending 0 crewStack 3 11 := Run.pending_of_atWork (k := 8) (by decide +kernel)
  obtain ⟨j, filled, four, text⟩ : ∃ j, (crewRun.state 11).tasks[0]? = some ⟨.answer, .pause j 0, crewStack⟩ ∧
      j.filled.length = 4 ∧ j.frame.arguments.positional.map Shared.ty = [.text] := ⟨_, rfl, rfl, rfl⟩
  obtain ⟨ds, rs, -, -, values, account⟩ := crewRun.arguments_are_conserved own began pending filled
  refine ⟨f, subject, positional, named, signature, j, ds, rs, began, pending, filled, account, ?_, ?_, ?_⟩
  · rw [← four, ← values, List.length_map]
  · have := congrArg List.length account.positional
    rwa [List.length_map, show (Arguments.ofLists positional named).positional.length = 5 from five] at this
  · rw [← account.left, text]

end System

end Injector
