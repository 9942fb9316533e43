import ArrayReplay.Numeral.Decimal

/-!
Doubles: the numbers of the IEEE 754 format binary64. A finite double is a whole number of quanta of
`2 ^ -1074`, the least positive double, so every operation is exact arithmetic on natural numbers
followed by one rounding to the nearest double, a tie going to the even significand. The main
statements are that rounding yields numbers of the format and leaves numbers of the format alone.
-/
namespace ArrayReplay

/-- The distance between neighbouring doubles around a number of quanta: one quantum up to 53 bits,
and doubled with every further bit. -/
def spacing (quanta : Nat) : Nat := 1 <<< (quanta.log2 - 52)

/-- A number of quanta that is a finite double: below `2 ^ 1024`, and a multiple of the spacing. -/
def Representable (quanta : Nat) : Prop := quanta < 1 <<< 2098 ∧ spacing quanta ∣ quanta

instance (quanta : Nat) : Decidable (Representable quanta) :=
  inferInstanceAs (Decidable (_ ∧ _))

/-- A double. Zero has a sign; there is one NaN. -/
inductive Binary64 where
  | nan
  | infinite (negative : Bool)
  | finite (negative : Bool) (quanta : Nat) (representable : Representable quanta)
deriving DecidableEq

namespace Binary64

/-- A quantum is two to the power of minus this number. -/
@[irreducible] def depth : Nat := 1074

def one : Nat := 1 <<< depth

/-- The multiple of the spacing nearest to `num / den` quanta; of two equally near ones the even
multiple. -/
def nearest (num den : Nat) : Nat :=
  let unit := spacing (num / den)
  let low := num / (den * unit)
  let twice := 2 * (num % (den * unit))
  if den * unit < twice ∨ (twice = den * unit ∧ low % 2 = 1) then (low + 1) * unit else low * unit

/-- The double nearest to a signed quotient of quanta, infinite beyond the greatest finite one. -/
def ofQuotient (negative : Bool) (num den : Nat) : Binary64 :=
  if h : Representable (nearest num den) then .finite negative (nearest num den) h
  else .infinite negative

/-- The double nearest to an integer number of quanta; a zero result has the sign given. -/
def ofQuanta (negativeZero : Bool) (quanta : Int) : Binary64 :=
  ofQuotient (if quanta = 0 then negativeZero else decide (quanta < 0)) quanta.natAbs 1

def ofInt (n : Int) : Binary64 := ofQuanta false (n * one)

def ofDecimal (negative : Bool) (d : Decimal) : Binary64 :=
  ofQuotient negative (d.units * one) (Decimal.scale d.places)

def signed (negative : Bool) (quanta : Nat) : Int := if negative then -(quanta : Int) else quanta

def neg : Binary64 → Binary64
  | .nan => .nan
  | .infinite s => .infinite !s
  | .finite s q h => .finite (!s) q h

def add : Binary64 → Binary64 → Binary64
  | .nan, _ => .nan
  | _, .nan => .nan
  | .infinite s, .infinite t => if s = t then .infinite s else .nan
  | .infinite s, .finite .. => .infinite s
  | .finite .., .infinite t => .infinite t
  | .finite s p _, .finite t q _ => ofQuanta (s && t) (signed s p + signed t q)

def sub (x y : Binary64) : Binary64 := add x (neg y)

def mul : Binary64 → Binary64 → Binary64
  | .nan, _ => .nan
  | _, .nan => .nan
  | .infinite s, .infinite t => .infinite (s ^^ t)
  | .infinite s, .finite t q _ => if q = 0 then .nan else .infinite (s ^^ t)
  | .finite s p _, .infinite t => if p = 0 then .nan else .infinite (s ^^ t)
  | .finite s p _, .finite t q _ => ofQuotient (s ^^ t) (p * q) one

def less : Binary64 → Binary64 → Bool
  | .nan, _ => false
  | _, .nan => false
  | .infinite s, .infinite t => s && !t
  | .infinite s, .finite .. => s
  | .finite .., .infinite t => !t
  | .finite s p _, .finite t q _ => decide (signed s p < signed t q)

/-- The lesser of two doubles, where a NaN counts as absent. -/
def least : Binary64 → Binary64 → Binary64
  | .nan, y => y
  | x, y => if less y x then y else x

/-- The integer part, held in a word: toward zero, at the ends of the range when it lies beyond
them, and zero for a NaN. -/
def toWord : Binary64 → Int64
  | .nan => 0
  | .infinite s => Word.clamp (if s then Word.least else Word.greatest)
  | .finite s q _ => Word.clamp (signed s (q / one))

/-- The nearest natural number below `2 ^ 64`, a half going up; negative numbers and NaN count as
zero. -/
def toHeight : Binary64 → UInt64
  | .nan => 0
  | .infinite s => if s then 0 else UInt64.ofNat (UInt64.size - 1)
  | .finite s q _ => if s then 0 else UInt64.ofNat (min ((2 * q + one) / (2 * one)) (UInt64.size - 1))

theorem spacing_pos (q : Nat) : 0 < spacing q := by
  rw [spacing, Nat.one_shiftLeft]
  exact Nat.two_pow_pos _

theorem nearest_mul_self {q den : Nat} (hd : 0 < den) (hq : spacing q ∣ q) :
    nearest (q * den) den = q := by
  have hdu : 0 < den * spacing q := Nat.mul_pos hd (spacing_pos q)
  obtain ⟨k, hk⟩ := hq
  have split : q * den = k * (den * spacing q) :=
    calc q * den = (spacing q * k) * den := by rw [← hk]
      _ = k * (den * spacing q) := by ac_rfl
  simp only [nearest, Nat.mul_div_cancel _ hd]
  rw [split, Nat.mul_div_cancel _ hdu, Nat.mul_mod_left, if_neg (by omega), Nat.mul_comm]
  exact hk.symm

/-- A multiple of some spacing by a number of 53 bits keeps its own spacing. -/
theorem spacing_dvd_of_le {m : Nat} (q : Nat) (hm : m ≤ 1 <<< 53) :
    spacing (m * spacing q) ∣ m * spacing q := by
  rw [Nat.one_shiftLeft] at hm
  rw [spacing, spacing, Nat.one_shiftLeft, Nat.one_shiftLeft]
  generalize q.log2 - 52 = k
  have bound : (m * 2 ^ k).log2 - 52 ≤ k ∨ m = 2 ^ 53 := by
    by_cases full : m = 2 ^ 53
    · exact .inr full
    · left
      by_cases zero : m * 2 ^ k = 0
      · simp [zero]
      · have small : m * 2 ^ k < 2 ^ (53 + k) := by
          rw [Nat.pow_add]
          exact Nat.mul_lt_mul_of_pos_right (by omega) (Nat.two_pow_pos k)
        have := (Nat.log2_lt zero).2 small
        omega
  rcases bound with below | rfl
  · exact Nat.dvd_trans (Nat.pow_dvd_pow 2 below) (Nat.dvd_mul_left _ _)
  · rw [← Nat.pow_add, Nat.log2_two_pow]
    exact Nat.pow_dvd_pow 2 (by omega)

theorem lt_mul_spacing (q : Nat) : q < 1 <<< 53 * spacing q := by
  have top : q < 2 ^ (q.log2 + 1) := Nat.lt_log2_self
  refine Nat.lt_of_lt_of_le top ?_
  rw [spacing, Nat.one_shiftLeft, Nat.one_shiftLeft, ← Nat.pow_add]
  exact Nat.pow_le_pow_right (by decide) (by omega)

theorem spacing_dvd_nearest (num den : Nat) : spacing (nearest num den) ∣ nearest num den := by
  have low : num / (den * spacing (num / den)) < 1 <<< 53 := by
    rw [← Nat.div_div_eq_div_mul, Nat.div_lt_iff_lt_mul (spacing_pos _)]
    exact lt_mul_spacing _
  simp only [nearest]
  split
  · exact spacing_dvd_of_le _ (by omega)
  · exact spacing_dvd_of_le _ (by omega)

/-- Only the size of a rounded quotient decides whether it is finite. -/
theorem representable_nearest_iff (num den : Nat) :
    Representable (nearest num den) ↔ nearest num den < 1 <<< 2098 :=
  ⟨fun h => h.1, fun h => ⟨h, spacing_dvd_nearest num den⟩⟩

/-- A finite double is the double nearest to its own value, over any denominator. -/
theorem ofQuotient_mul_self {q den : Nat} (hd : 0 < den) (s : Bool) (h : Representable q) :
    ofQuotient s (q * den) den = .finite s q h := by
  have same := nearest_mul_self hd h.2
  simp [ofQuotient, same, h]

end Binary64
end ArrayReplay
