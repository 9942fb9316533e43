import ArrayReplay.Proofs.Notation.Grammar

namespace ArrayReplay

namespace Numeral

theorem digits_ofNat (n : Nat) : Grammar.Digits (ofNat n) := fun _ => isDigit_of_mem_ofNat

theorem digits_padded (width n : Nat) : Grammar.Digits (padded width n) := by
  intro c member
  rcases List.mem_append.mp member with zero | digit
  · rw [List.eq_of_mem_replicate zero]
    rfl
  · exact isDigit_of_mem_ofNat digit

theorem length_padded {width n : Nat} (wide : 0 < width) (small : n < Decimal.scale width) :
    (padded width n).length = width := by
  have short : (ofNat n).length ≤ width := (Nat.length_toDigits_le_iff (by decide) wide).mpr small
  simp only [padded, List.length_append, List.length_replicate]
  omega

theorem value_append (s t : Text) :
    value (s ++ t) = value s * Decimal.scale t.length + value t := by
  rw [value, Nat.ofDigitChars_append, Nat.ofDigitChars_eq_ofDigitChars_zero, Nat.mul_comm]
  rfl

theorem value_padded (width n : Nat) : value (padded width n) = n := by
  rw [padded, value, Nat.ofDigitChars_append, Nat.ofDigitChars_replicate_zero, Nat.mul_zero]
  exact value_ofNat n

end Numeral

namespace Decimal

theorem ofDigits_text {d : Decimal} (wide : 0 < d.places) :
    ofDigits (Numeral.ofNat (d.units / scale d.places))
      (Numeral.padded d.places (d.units % scale d.places)) = d := by
  have length := Numeral.length_padded wide (Nat.mod_lt d.units (scale_pos d.places))
  rw [ofDigits, Numeral.value_append, length, Numeral.value_ofNat, Numeral.value_padded]
  have whole := Nat.div_add_mod' d.units (scale d.places)
  exact congrArg (Decimal.mk · d.places) whole

end Decimal

namespace Binary64

theorem depth_pos : 0 < depth := by
  unfold depth
  decide

theorem places_onGrid {quanta places : Nat} {d : Decimal} (found : onGrid? quanta places = some d) :
    d.places = places := by
  simp only [onGrid?] at found
  split at found
  · cases found
    rfl
  · split at found
    · cases found
      rfl
    · cases found

theorem places_decimal_pos (quanta : Nat) : 0 < (decimal quanta).places := by
  unfold decimal
  split
  · exact Nat.zero_lt_one
  · cases found : (List.range' 1 depth).findSome? (onGrid? quanta) with
    | none => exact depth_pos
    | some d =>
      obtain ⟨places, member, hit⟩ := List.exists_of_findSome?_eq_some found
      rw [Option.getD_some, places_onGrid hit]
      exact (List.mem_range'_1.mp member).1

end Binary64

namespace Value
open Grammar

/-- The value has a literal that fits into a row. -/
def Writable : Value → Prop
  | .int _ => True
  | .double (.finite ..) => True
  | .double _ => False
  | .char c => c ≠ '\n'

theorem isInteger_of_digits {negative : Bool} {m : Nat} {n : Int64}
    (same : n.toInt = if negative then -(m : Int) else m) :
    IsInteger (sign negative ++ Numeral.ofNat m) n := by
  refine .mk (Numeral.ofNat_ne_nil m) (Numeral.digits_ofNat m) ?_
  rw [Numeral.signedValue, Numeral.value_ofNat, same]

theorem isInteger_ofInt (n : Int64) : IsInteger (Numeral.ofInt n.toInt) n := by
  unfold Numeral.ofInt
  split
  · apply @isInteger_of_digits true
    rw [if_pos rfl]
    omega
  · apply @isInteger_of_digits false
    rw [if_neg (by decide)]
    omega

theorem isLiteral_of_decimal (negative : Bool) {d : Decimal} (wide : 0 < d.places) :
    IsLiteral (sign negative ++ d.text) (.double (Binary64.ofDecimal negative d)) := by
  have whole := Numeral.digits_ofNat (d.units / Decimal.scale d.places)
  have fraction := Numeral.digits_padded d.places (d.units % Decimal.scale d.places)
  have literal := @IsLiteral.double negative _ _ whole fraction (.inl (Numeral.ofNat_ne_nil _))
  rw [Decimal.ofDigits_text wide, List.append_assoc] at literal
  exact literal

theorem isLiteral_finite (negative : Bool) {quanta : Nat} (h : Representable quanta) :
    IsLiteral (Binary64.finite negative quanta h).text (.double (.finite negative quanta h)) := by
  have literal := isLiteral_of_decimal negative (Binary64.places_decimal_pos quanta)
  rw [Binary64.ofDecimal_decimal negative h] at literal
  cases negative with
  | false => exact literal
  | true => exact literal

theorem isLiteral_text {v : Value} (writable : v.Writable) : IsLiteral v.text v := by
  cases v with
  | int n => exact .int (isInteger_ofInt n)
  | char c => exact .char c
  | double x =>
    cases x with
    | nan => cases writable
    | infinite negative => cases writable
    | finite negative quanta h => exact isLiteral_finite negative h

theorem feed_not_mem_digits {t : Text} (digits : Digits t) : '\n' ∉ t := by
  intro member
  have := digits '\n' member
  revert this
  decide

theorem feed_not_mem_sign (negative : Bool) : '\n' ∉ sign negative := by
  cases negative <;> decide

theorem feed_not_mem_integer {t : Text} {n : Int64} (isInteger : IsInteger t n) : '\n' ∉ t := by
  cases isInteger with
  | @mk negative digits _ filled all same =>
    simp [feed_not_mem_sign, feed_not_mem_digits all]

/-- A literal breaks its row only if it is a quoted line feed. -/
theorem feed_not_mem_literal {t : Text} {v : Value} (isLiteral : IsLiteral t v)
    (writable : v.Writable) : '\n' ∉ t := by
  cases isLiteral with
  | int isInteger => exact feed_not_mem_integer isInteger
  | double whole fraction some =>
    simp [feed_not_mem_sign, feed_not_mem_digits whole, feed_not_mem_digits fraction]
  | char c => simpa using fun same => writable same.symm

end Value
end ArrayReplay
