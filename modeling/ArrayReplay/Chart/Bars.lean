import ArrayReplay.Notation.Value

/-!
Bars. A chart has one bar per element. Bars stand on the least value, or on zero when no value is
negative; doubles are scaled up so that small differences show, and characters chart as their code
points. A bar can be raised and lowered by one step of its kind.
-/
namespace ArrayReplay.Chart

def doubleScale : Binary64 := Binary64.ofInt 100

def doubleStep : Binary64 := Binary64.ofDecimal false ⟨5, 1⟩

def measure : Value → Binary64
  | .double x => x.mul doubleScale
  | v => v.toDouble

def base (values : List Value) : Binary64 :=
  values.foldl (fun low v => Binary64.least low (measure v)) (Binary64.ofInt 0)

def heights (values : List Value) : List UInt64 :=
  let low := base values
  values.map fun v => ((measure v).sub low).toHeight

/-- The text under a bar: a character with its code, or the position. -/
def label (index : Nat) : Value → Text
  | .char c => ['\'', c, '\'', ' ', '('] ++ Numeral.ofNat c.toNat ++ [')']
  | _ => Numeral.ofNat index

def caption : Value → Text
  | .char c => Numeral.ofNat c.toNat
  | v => v.text

/-- The bounds of the printable characters of ASCII, within which characters are raised and
lowered. -/
def printable (code : Nat) : Nat := max 0x20 (min code 0x7e)

/-- A value raised or lowered by one step. Integers stop at the ends of their range. -/
def nudge (up : Bool) : Value → Value
  | .int n => .int (Word.clamp (if up then n.toInt + 1 else n.toInt - 1))
  | .double x => .double (if up then x.add doubleStep else x.sub doubleStep)
  | .char c =>
    let code := printable c.toNat
    .char (Char.ofNat (printable (if up then code + 1 else code - 1)))

def windowStart (length visible selected : Nat) : Nat :=
  if length ≤ visible ∨ visible = 0 then 0
  else min (selected - visible / 2) (length - visible)

end ArrayReplay.Chart
