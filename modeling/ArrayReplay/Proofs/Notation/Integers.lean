import ArrayReplay.Proofs.Notation.Pieces
import Mathlib.Data.Nat.Digits.Defs

namespace ArrayReplay

namespace Numeral

/-- The sum of the digits by their places, where the last one counts ones. -/
def placeValue (digits : Text) : Nat :=
  Nat.ofDigits 10 (digits.map fun c => c.toNat - '0'.toNat).reverse

theorem value_eq_placeValue (digits : Text) : value digits = placeValue digits := by
  rw [placeValue, Nat.ofDigits_eq_foldr, ← List.map_reverse, List.foldr_map, value,
    Nat.ofDigitChars, List.foldl_eq_foldr_reverse]
  simp [Nat.add_comm]

end Numeral

namespace Reader
open Cursor Grammar Numeral

/-- An optional minus sign and a row of digits, with no digit behind it, lie between two cursors. -/
structure Spells (negative : Bool) (digits : Text) (c d : Cursor) : Prop where
  filled : digits ≠ []
  all : Digits digits
  crosses : c.Crosses (sign negative ++ digits) d
  stops : d.Stops Char.isDigit

def spelled (negative : Bool) (digits : Text) : Int :=
  if negative then -(placeValue digits : Int) else placeValue digits

variable {c d : Cursor} {n : Int64}

theorem signedValue_eq (negative : Bool) (digits : Text) :
    signedValue negative digits = spelled negative digits := by
  rw [signedValue, spelled, value_eq_placeValue]

theorem reads_integer_iff_spells :
    Reads integer c n d ↔ ∃ negative digits, Spells negative digits (c.skip isGap) d ∧
      n.toInt = spelled negative digits := by
  have solid : ∀ {t}, IsInteger t n → ∃ x rest, t = x :: rest ∧ isGap x = false := by
    intro t isInteger
    obtain ⟨x, rest, rfl, rfl | digit⟩ := isInteger_solid isInteger
    · exact ⟨'-', rest, rfl, rfl⟩
    · exact ⟨x, rest, rfl, isGap_eq_false_of_isDigit digit⟩
  rw [reads_integer]
  constructor
  · rintro ⟨t, isInteger, passes, stops⟩
    have crosses := (passes_single_iff_skip (solid isInteger)).mp passes
    cases isInteger with
    | @mk negative digits _ filled all value =>
      exact ⟨negative, digits, ⟨filled, all, crosses, stops⟩, signedValue_eq _ _ ▸ value⟩
  · rintro ⟨negative, digits, spells, value⟩
    have isInteger : IsInteger (sign negative ++ digits) n :=
      .mk spells.filled spells.all (value.trans (signedValue_eq _ _).symm)
    exact ⟨_, isInteger, (passes_single_iff_skip (solid isInteger)).mpr spells.crosses, spells.stops⟩

theorem reads_literal_int :
    Reads literal c (.int n) d ↔ Reads integer c n d ∧ d.ahead.head? ≠ some '.' := by
  rw [reads_literal, reads_integer]
  constructor
  · rintro ⟨t, isLiteral, passes, stops, noPoint⟩
    cases isLiteral with
    | int isInteger => exact ⟨⟨t, isInteger, passes, stops⟩, noPoint⟩
  · rintro ⟨⟨t, isInteger, passes, stops⟩, noPoint⟩
    exact ⟨t, .int isInteger, passes, stops, noPoint⟩

/-- From any cursor, a literal is the integer `n` exactly when the reader of integers gives `n` in front
of no point, and both stop at one place. An integer is read exactly when behind the gaps digits stand,
with a sign or without, whose decimal value is in the range of a word, and it is that value. -/
theorem integer_readers_agree (c : Cursor) :
    (∀ n d, literal c = (.ok (.int n), d) ↔
      integer c = (.ok n, d) ∧ d.ahead.head? ≠ some '.') ∧
    (∀ n d, integer c = (.ok n, d) ↔ ∃ negative digits,
      Spells negative digits (c.skip isGap) d ∧ n.toInt = spelled negative digits) ∧
    ((∃ n d, integer c = (.ok n, d)) ↔ ∃ negative digits d,
      Spells negative digits (c.skip isGap) d ∧
        -2 ^ 63 ≤ spelled negative digits ∧ spelled negative digits ≤ 2 ^ 63 - 1) := by
  refine ⟨fun n d => reads_literal_int, fun n d => reads_integer_iff_spells, ?_, ?_⟩
  · rintro ⟨n, d, reads⟩
    obtain ⟨negative, digits, spells, value⟩ := reads_integer_iff_spells.mp reads
    exact ⟨negative, digits, d, spells, Word.exists_toInt_iff.mp ⟨n, value⟩⟩
  · rintro ⟨negative, digits, d, spells, range⟩
    obtain ⟨n, value⟩ := Word.exists_toInt_iff.mpr range
    exact ⟨n, d, reads_integer_iff_spells.mpr ⟨negative, digits, spells, value⟩⟩

end Reader
end ArrayReplay
