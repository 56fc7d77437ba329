import Mathlib.Tactic.Common
/-!
# The order of bytes

A text is stored as bytes, one to four for a character, and two texts are compared byte by byte. This is the order by
the numbers of their characters (`compare_bytes`): where two characters differ, the first byte that differs is less in
the lesser one, also if it takes fewer bytes.
-/
namespace Injector

/-- The bytes that a text is stored as. -/
def bytes (s : String) : List UInt8 := s.toByteArray.data.toList

theorem bytes_eq (s : String) : bytes s = s.toList.flatMap String.utf8EncodeChar := by
  rw [bytes, ← String.utf8Encode_toList]
  simp [List.utf8Encode]

theorem compare_append_left (l r r' : List UInt8) : compare (l ++ r) (l ++ r') = compare r r' := by
  induction l with
  | nil => rfl
  | cons x l ih => simp [List.compare_cons_cons, ih]

theorem compare_cons_eq_lt_iff {x y : UInt8} {l l' : List UInt8} :
    compare (x :: l) (y :: l') = .lt ↔ x.toNat < y.toNat ∨ x.toNat = y.toNat ∧ compare l l' = .lt := by
  rw [List.compare_cons_cons, Ordering.then_eq_lt, Std.compare_eq_lt, Std.compare_eq_iff_eq, UInt8.lt_iff_toNat_lt,
    UInt8.toNat_inj]

/-- Of two numbers, written with three digits below 64 after a first one, the lesser one has the lesser digit where
they first differ. -/
theorem digits_of_lt {v w : Nat} (less : v < w) :
    v / 262144 < w / 262144 ∨ v / 262144 = w / 262144 ∧
      (v / 4096 % 64 < w / 4096 % 64 ∨ v / 4096 % 64 = w / 4096 % 64 ∧
        (v / 64 % 64 < w / 64 % 64 ∨ v / 64 % 64 = w / 64 % 64 ∧ v % 64 < w % 64)) := by
  omega

/-- The bytes of the lesser character come first, whatever follows. -/
theorem compare_encode_of_lt {c d : Char} (less : c < d) (r r' : List UInt8) :
    compare (String.utf8EncodeChar c ++ r) (String.utf8EncodeChar d ++ r') = .lt := by
  have less : c.val.toNat < d.val.toNat := less
  have bound : d.val.toNat < 1114112 := by
    have valid := d.valid
    simp only [UInt32.isValidChar, Nat.isValidChar] at valid
    omega
  unfold String.utf8EncodeChar
  generalize c.val.toNat = v at less ⊢
  generalize d.val.toNat = w at less bound ⊢
  have digits := digits_of_lt less
  -- the first of four bytes has room for its digit, as characters end before 1114112; so has every byte that follows
  have firstOfC : (v / 262144 % 8 + 240) % 256 = v / 262144 + 240 := by omega
  have firstOfD : (w / 262144 % 8 + 240) % 256 = w / 262144 + 240 := by omega
  have later (x : Nat) : (x % 64 + 128) % 256 = x % 64 + 128 := by omega
  -- ten cases, as the lesser character takes no more bytes
  dsimp only
  repeat' split
  all_goals simp only [List.cons_append, List.nil_append, compare_cons_eq_lt_iff, UInt8.toNat_ofNat', Nat.reducePow,
    later, firstOfC, firstOfD]
  all_goals omega

theorem compare_flatMap_of_lt : ∀ {l l' : List Char}, l < l' →
    compare (l.flatMap String.utf8EncodeChar) (l'.flatMap String.utf8EncodeChar) = .lt
  | _, [], less => absurd less (List.not_lt_nil _)
  | [], d :: l', _ => by
    obtain ⟨x, rest, eq⟩ := List.exists_cons_of_ne_nil (String.utf8EncodeChar_ne_nil (c := d))
    rw [List.flatMap_cons, eq]
    rfl
  | c :: l, d :: l', less => by
    rw [List.flatMap_cons, List.flatMap_cons]
    rcases List.cons_lt_cons_iff.1 less with first | ⟨rfl, later⟩
    · exact compare_encode_of_lt first _ _
    · rw [compare_append_left]
      exact compare_flatMap_of_lt later

theorem compare_bytes_of_lt {s t : String} (less : s < t) : compare (bytes s) (bytes t) = .lt := by
  rw [bytes_eq, bytes_eq]
  exact compare_flatMap_of_lt (String.lt_iff.1 less)

/-- Two texts compare as their bytes do. -/
theorem compare_bytes (s t : String) : compare (bytes s) (bytes t) = compare s t := by
  rcases Std.lt_trichotomy s t with less | rfl | greater
  · rw [compare_bytes_of_lt less]
    exact (compareOfLessAndEq_eq_lt.2 less).symm
  · rw [Std.compare_self, Std.compare_self]
  · rw [Std.OrientedOrd.eq_swap, compare_bytes_of_lt greater, Std.OrientedOrd.eq_swap (a := s)]
    exact congrArg Ordering.swap (compareOfLessAndEq_eq_lt.2 greater).symm

/-- Texts with the same bytes are the same. -/
theorem bytes_inj {s t : String} : bytes s = bytes t ↔ s = t := by
  rw [← Std.compare_eq_iff_eq (a := bytes s), compare_bytes, Std.compare_eq_iff_eq]

end Injector
