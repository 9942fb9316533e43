import ArrayReplay.Numeral.Binary64

/-!
How a double is written. Always in positional notation and always with a point: a whole number gets
the single decimal zero, any other double the least number of decimals that lets it be read back, and
among those decimals the ones nearest to it. The main statement is that reading undoes writing.
-/
namespace ArrayReplay.Binary64

/-- The two neighbours of a number of quanta on the grid of so many decimal places, the nearer one
first, the upper one when both are equally near. -/
def neighbours (quanta places : Nat) : Nat × Nat :=
  let scaled := quanta * Decimal.scale places
  let low := scaled / one
  if one ≤ 2 * (scaled % one) then (low + 1, low) else (low, low + 1)

/-- The fraction with a given number of places that reads back as the given quanta: the nearer
neighbour on that grid, else the other. -/
def onGrid? (quanta places : Nat) : Option Decimal :=
  let (near, far) := neighbours quanta places
  if nearest (near * one) (Decimal.scale places) = quanta then some ⟨near, places⟩
  else if nearest (far * one) (Decimal.scale places) = quanta then some ⟨far, places⟩
  else none

def exact (quanta : Nat) : Decimal := ⟨quanta * Nat.pow 5 depth, depth⟩

/-- The decimal fraction that is written for a number of quanta. The exact value is on the last grid
tried, so there is always one. -/
def decimal (quanta : Nat) : Decimal :=
  if quanta % one = 0 then ⟨quanta / one * 10, 1⟩
  else ((List.range' 1 depth).findSome? (onGrid? quanta)).getD (exact quanta)

def text : Binary64 → Text
  | .nan => ['N', 'a', 'N']
  | .infinite s => if s then ['-', 'i', 'n', 'f'] else ['i', 'n', 'f']
  | .finite s q _ => if s then '-' :: (decimal q).text else (decimal q).text

theorem nearest_onGrid {quanta places : Nat} {d : Decimal} (h : onGrid? quanta places = some d) :
    nearest (d.units * one) (Decimal.scale d.places) = quanta := by
  simp only [onGrid?] at h
  split at h
  · next reads => rw [← Option.some.inj h]; exact reads
  · split at h
    · next reads => rw [← Option.some.inj h]; exact reads
    · contradiction

theorem exact_units (quanta : Nat) :
    (exact quanta).units * one = quanta * Decimal.scale (exact quanta).places := by
  have tens : Nat.pow 5 depth * one = Decimal.scale depth := by
    rw [one, Nat.one_shiftLeft]
    exact (Nat.mul_pow 5 2 depth).symm
  simp only [exact, Nat.mul_assoc, tens]

theorem nearest_decimal {quanta : Nat} (h : Representable quanta) :
    nearest ((decimal quanta).units * one) (Decimal.scale (decimal quanta).places) = quanta := by
  simp only [decimal]
  split
  · next whole =>
    have units : quanta / one * 10 * one = quanta * Decimal.scale 1 := by
      rw [Nat.mul_right_comm, Nat.div_mul_cancel (Nat.dvd_of_mod_eq_zero whole)]
      rfl
    rw [units]
    exact nearest_mul_self (Decimal.scale_pos 1) h.2
  · cases found : (List.range' 1 depth).findSome? (onGrid? quanta) with
    | none =>
      rw [Option.getD_none, exact_units]
      exact nearest_mul_self (Decimal.scale_pos _) h.2
    | some d =>
      obtain ⟨places, _, hit⟩ := List.exists_of_findSome?_eq_some found
      exact nearest_onGrid hit

/-- The fraction written for a finite double is read back as that double. -/
theorem ofDecimal_decimal (s : Bool) {quanta : Nat} (h : Representable quanta) :
    ofDecimal s (decimal quanta) = .finite s quanta h := by
  have same := nearest_decimal h
  simp [ofDecimal, ofQuotient, same, h]

end ArrayReplay.Binary64
