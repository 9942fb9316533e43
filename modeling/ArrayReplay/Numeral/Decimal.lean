import ArrayReplay.Numeral.Integer

namespace ArrayReplay

/-- The fraction `units / 10 ^ places`. -/
structure Decimal where
  units : Nat
  places : Nat
deriving DecidableEq, Repr

namespace Decimal

def ofDigits (whole fraction : Text) : Decimal :=
  ⟨Numeral.value (whole ++ fraction), fraction.length⟩

def scale (places : Nat) : Nat := Nat.pow 10 places

def text (d : Decimal) : Text :=
  Numeral.ofNat (d.units / scale d.places) ++
    '.' :: Numeral.padded d.places (d.units % scale d.places)

theorem scale_pos (places : Nat) : 0 < scale places := Nat.pow_pos (by decide)

end Decimal
end ArrayReplay
