import ArrayReplay.Text.Basic

namespace ArrayReplay

namespace Numeral

def ofNat (n : Nat) : Text := Nat.toDigits 10 n

def ofInt (n : Int) : Text := if n < 0 then '-' :: ofNat n.natAbs else ofNat n.natAbs

def value (digits : Text) : Nat := Nat.ofDigitChars 10 digits 0

def signedValue (negative : Bool) (digits : Text) : Int :=
  if negative then -(value digits : Int) else value digits

def padded (width n : Nat) : Text :=
  let digits := ofNat n
  List.replicate (width - digits.length) '0' ++ digits

theorem value_ofNat (n : Nat) : value (ofNat n) = n :=
  Nat.ofDigitChars_toDigits (by decide) (by decide)

theorem isDigit_of_mem_ofNat {n : Nat} {c : Char} (h : c ∈ ofNat n) : c.isDigit = true :=
  Nat.isDigit_of_mem_toDigits (by decide) (by decide) h

theorem ofNat_ne_nil (n : Nat) : ofNat n ≠ [] := Nat.toDigits_ne_nil

end Numeral

namespace Word

/-- The least integer that fits a word, `-2 ^ 63`. -/
def least : Int := -9223372036854775808

/-- The greatest integer that fits a word, `2 ^ 63 - 1`. -/
def greatest : Int := 9223372036854775807

def ofInt? (n : Int) : Option Int64 :=
  if least ≤ n ∧ n ≤ greatest then some (Int64.ofInt n) else none

def clamp (n : Int) : Int64 := Int64.ofInt (max least (min n greatest))

theorem toInt_le_greatest (n : Int64) : n.toInt ≤ greatest := Int.lt_add_one_iff.mp n.toInt_lt

theorem exists_toInt_iff {i : Int} : (∃ n : Int64, n.toInt = i) ↔ least ≤ i ∧ i ≤ greatest := by
  constructor
  · rintro ⟨n, rfl⟩
    exact ⟨n.le_toInt, toInt_le_greatest n⟩
  · rintro ⟨low, high⟩
    exact ⟨Int64.ofInt i, Int64.toInt_ofInt_of_le low (Int.lt_add_one_of_le high)⟩

theorem exists_toInt_eq {n : Nat} (small : (n : Int) ≤ greatest) : ∃ i : Int64, i.toInt = n :=
  exists_toInt_iff.mpr ⟨Int.le_trans (by decide) (Int.natCast_nonneg n), small⟩

theorem ofInt?_eq_some_iff {i : Int} {n : Int64} : ofInt? i = some n ↔ n.toInt = i := by
  rw [ofInt?]
  by_cases range : least ≤ i ∧ i ≤ greatest
  · obtain ⟨m, rfl⟩ := exists_toInt_iff.mpr range
    rw [if_pos range, Option.some.injEq, Int64.ofInt_toInt, Int64.toInt_inj, eq_comm]
  · rw [if_neg range]
    exact iff_of_false nofun fun here => range (exists_toInt_iff.mp ⟨n, here⟩)

/-- The position that a word names among the first `bound` ones, if it names one. -/
def position? (index : Int64) (bound : Nat) : Option Nat :=
  if 0 ≤ index.toInt ∧ index.toInt < bound then some index.toInt.toNat else none

theorem position?_eq_some_iff {index : Int64} {bound n : Nat} :
    position? index bound = some n ↔ index.toInt = n ∧ n < bound := by
  simp only [position?]
  split
  · simp only [Option.some.injEq]; omega
  · simp; omega

end Word
end ArrayReplay
