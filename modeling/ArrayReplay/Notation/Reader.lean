import ArrayReplay.Notation.Value

/-!
Reading a line piece by piece. A reader starts at a cursor, passes over the gaps in front of its
piece, and gives the piece or the reason why it is not there, together with the cursor it stopped at:
after a failure reading may go on from where the failed reader left it.
-/
namespace ArrayReplay

/-- A place in a line: how many characters are passed, and which ones are ahead. -/
structure Cursor where
  passed : Nat
  ahead : Text
deriving DecidableEq

namespace Cursor

def start (line : Text) : Cursor := ⟨0, line⟩

def column (c : Cursor) : Nat := c.passed + 1

def skip (p : Char → Bool) (c : Cursor) : Cursor :=
  ⟨c.passed + (c.ahead.takeWhile p).length, c.ahead.dropWhile p⟩

def toEnd (c : Cursor) : Cursor := ⟨c.passed + c.ahead.length, []⟩

end Cursor

inductive ReadError.Cause where
  | expected (wanted : Char) (found : Option Char)
  | noIdentifier
  | noInteger
  | integerRange (numeral : Text)
  | noLiteral (found : Option Char)
  | openCharacter
  | wideCharacter
  | noDigits
  | literalRange
  | openString
  | trailingText
  | noStatement (word : Text)
  | unknownMethod (name : Text)
deriving DecidableEq

structure ReadError where
  cause : ReadError.Cause
  column : Nat
deriving DecidableEq

namespace ReadError

def Cause.message : Cause → String
  | .expected wanted (some found) => s!"expected '{wanted}', found '{found}'"
  | .expected wanted none => s!"expected '{wanted}', found end of line"
  | .noIdentifier => "expected identifier"
  | .noInteger => "expected integer"
  | .integerRange numeral => "integer out of range: " ++ String.ofList numeral
  | .noLiteral (some found) => s!"expected literal, found '{found}'"
  | .noLiteral none => "expected literal, found end of line"
  | .openCharacter => "unterminated character literal"
  | .wideCharacter => "character literal must hold exactly one character"
  | .noDigits => "expected digits"
  | .literalRange => "integer literal out of range"
  | .openString => "unterminated string literal"
  | .trailingText => "unexpected trailing text"
  | .noStatement word => "'" ++ String.ofList word ++ "' does not start a statement"
  | .unknownMethod name => "unknown array method '" ++ String.ofList name ++ "'"

def message (e : ReadError) : String := e.cause.message

def text (e : ReadError) : String := "column " ++ toString e.column ++ ": " ++ e.message

end ReadError

/-- A step of reading: its result and the cursor it leaves behind. -/
def Reader (α : Type) : Type := Cursor → Except ReadError α × Cursor

namespace Reader

instance : Monad Reader where
  pure a := fun c => (.ok a, c)
  bind m f := fun c =>
    match m c with
    | (.ok a, c') => f a c'
    | (.error e, c') => (.error e, c')

section
variable {α β : Type} {m : Reader α} {c d : Cursor}

theorem bind_of_ok {a : α} (h : m c = (.ok a, d)) (f : α → Reader β) : (m >>= f) c = f a d := by
  simp only [bind, h]

theorem bind_of_error {e : ReadError} (h : m c = (.error e, d)) (f : α → Reader β) :
    (m >>= f) c = (.error e, d) := by
  simp only [bind, h]

end

def isGap (c : Char) : Bool := c == ' ' || c == '\t' || c == '\r'

def isNameStart (c : Char) : Bool := c.isAlpha || c == '_'

def isNamePart (c : Char) : Bool := c.isAlphanum || c == '_'

def fail {α : Type} (cause : ReadError.Cause) : Reader α :=
  fun c => (.error ⟨cause, c.column⟩, c)

def failAt {α : Type} (column : Nat) (cause : ReadError.Cause) : Reader α :=
  fun c => (.error ⟨cause, column⟩, c)

def here : Reader Cursor := fun c => (.ok c, c)

def peek : Reader (Option Char) := fun c => (.ok c.ahead.head?, c)

def advance : Reader (Option Char) := fun c =>
  match c.ahead with
  | [] => (.ok none, c)
  | ch :: rest => (.ok (some ch), ⟨c.passed + 1, rest⟩)

def run (p : Char → Bool) : Reader Text := fun c => (.ok (c.ahead.takeWhile p), c.skip p)

def skipGaps : Reader Unit := fun c => (.ok (), c.skip isGap)

def eatHere (wanted : Char) : Reader Bool := do
  if (← peek) = some wanted then
    let _ ← advance
    return true
  else return false

def check (wanted : Char) : Reader Bool := do
  skipGaps
  return (← peek) = some wanted

def eat (wanted : Char) : Reader Bool := do
  skipGaps
  eatHere wanted

def expect (wanted : Char) : Reader Unit := do
  skipGaps
  let found ← peek
  if found = some wanted then
    let _ ← advance
  else fail (.expected wanted found)

/-- A letter or underscore of ASCII, and the longest run of letters, digits and underscores. -/
def identifierHere : Reader Text := do
  match ← peek with
  | some c => if isNameStart c then run isNamePart else fail .noIdentifier
  | none => fail .noIdentifier

def identifier : Reader Text := do
  skipGaps
  identifierHere

def integer : Reader Int64 := do
  skipGaps
  let start ← here
  let negative ← eatHere '-'
  let digits ← run Char.isDigit
  if digits.isEmpty then failAt start.column .noInteger
  else
    match Word.ofInt? (Numeral.signedValue negative digits) with
    | some n => return n
    | none =>
      failAt start.column (.integerRange (if negative then '-' :: digits else digits))

/-- A number: a double exactly when it has a point. Digits may be missing on one side of it. -/
def number : Reader Value := do
  let start ← here
  let negative ← eatHere '-'
  let whole ← run Char.isDigit
  let point ← eatHere '.'
  let fraction ← if point then run Char.isDigit else pure []
  if whole.isEmpty && fraction.isEmpty then failAt start.column .noDigits
  else if point then
    return .double (Binary64.ofDecimal negative (Decimal.ofDigits whole fraction))
  else
    match Word.ofInt? (Numeral.signedValue negative whole) with
    | some n => return .int n
    | none => failAt start.column .literalRange

def character : Reader Value := do
  let _ ← advance
  match ← advance with
  | none => fail .openCharacter
  | some c =>
    if (← advance) = some '\'' then return .char c
    else fail .wideCharacter

def literal : Reader Value := do
  skipGaps
  match ← peek with
  | some c =>
    if c = '\'' then character
    else if c = '-' || c = '.' || c.isDigit then number
    else fail (.noLiteral (some c))
  | none => fail (.noLiteral none)

def string : Reader Text := do
  expect '"'
  let start ← here
  let content ← run (· != '"')
  match ← advance with
  | some _ => return content
  | none => failAt start.passed .openString

/-- The end of the line, in front of which a comment may stand. -/
def finish : Reader Unit := do
  skipGaps
  let c ← here
  if ['/', '/'].isPrefixOf c.ahead then fun c => (.ok (), c.toEnd)
  else if c.ahead.isEmpty then return ()
  else fail .trailingText

end Reader
end ArrayReplay
