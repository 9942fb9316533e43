import ArrayReplay.Numeral.Shortest

/-!
Kinds and values. A value is written in one of three shapes, and the shape alone decides what it is:
`5` is an integer, `5.0` a double, `'x'` a character. An array has one kind, and a value that enters
it is coerced to that kind.
-/
namespace ArrayReplay

inductive Kind where
  | int
  | double
  | char
deriving DecidableEq, Repr

namespace Kind

def keyword : Kind → Text
  | .int => ['i', 'n', 't']
  | .double => ['d', 'o', 'u', 'b', 'l', 'e']
  | .char => ['c', 'h', 'a', 'r']

def ofKeyword? (word : Text) : Option Kind :=
  if word = keyword .int then some .int
  else if word = keyword .double then some .double
  else if word = keyword .char then some .char
  else none

def size : Kind → Nat
  | .int => 8
  | .double => 8
  | .char => 4

theorem ofKeyword?_keyword (k : Kind) : ofKeyword? k.keyword = some k := by
  cases k <;> decide

theorem ofKeyword?_eq_some_iff {word : Text} {k : Kind} :
    ofKeyword? word = some k ↔ word = k.keyword := by
  constructor
  · intro h
    simp only [ofKeyword?] at h
    split at h
    · next hw => cases h; exact hw
    · split at h
      · next hw => cases h; exact hw
      · split at h
        · next hw => cases h; exact hw
        · cases h
  · rintro rfl
    exact ofKeyword?_keyword k

end Kind

inductive Value where
  | int (n : Int64)
  | double (x : Binary64)
  | char (c : Char)
deriving DecidableEq

namespace Value

def kind : Value → Kind
  | .int _ => .int
  | .double _ => .double
  | .char _ => .char

/-- A value as it is shown and as it is written into a source. A character stands between quotes
as it is: the notation has no escapes. -/
def text : Value → Text
  | .int n => Numeral.ofInt n.toInt
  | .double x => x.text
  | .char c => ['\'', c, '\'']

/-- The character with a given code point, or the replacement character where there is none. -/
def charOfCode (code : Int64) : Char :=
  if 0 ≤ code.toInt ∧ code.toInt.toNat.isValidChar then Char.ofNat code.toInt.toNat
  else Char.ofNat 0xfffd

/-- A value as an element of an array of kind `k`. A character counts as its code point, and a double
loses its fraction where a whole number is asked for. -/
def coerce (k : Kind) (v : Value) : Value :=
  match k, v with
  | .int, .int n => .int n
  | .int, .double x => .int x.toWord
  | .int, .char c => .int (Int64.ofNat c.toNat)
  | .double, .int n => .double (Binary64.ofInt n.toInt)
  | .double, .double x => .double x
  | .double, .char c => .double (Binary64.ofInt c.toNat)
  | .char, .int n => .char (charOfCode n)
  | .char, .double x => .char (charOfCode x.toWord)
  | .char, .char c => .char c

def toDouble : Value → Binary64
  | .int n => Binary64.ofInt n.toInt
  | .double x => x
  | .char c => Binary64.ofInt c.toNat

@[simp] theorem kind_coerce (k : Kind) (v : Value) : (v.coerce k).kind = k := by
  cases k <;> cases v <;> rfl

@[simp] theorem coerce_kind (v : Value) : v.coerce v.kind = v := by
  cases v <;> rfl

end Value
end ArrayReplay
