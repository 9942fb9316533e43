import ArrayReplay.Notation.Reader
import ArrayReplay.Notation.Statement
import ArrayReplay.Text.Blank

/-!
Recognition of statements. A line is trimmed and read as one of

    int|double NAME [ SIZE ] = { LITERAL, ... } ;
    char NAME [ SIZE ] = "CHARACTERS" ;
    NAME [ INDEX ] = LITERAL ;
    NAME . insert ( INDEX , LITERAL ) ;
    NAME . remove|delete ( INDEX ) ;

with an optional comment behind it. Nothing is refused: a line of another form is a statement too,
one that does nothing, and a line that only lacks its `;` is told apart from the rest.
-/
namespace ArrayReplay.Statement

open Reader

/-- Literals with commas between them, and the closing brace. Every literal takes at least one
character, so the length of the line is fuel enough. -/
def literals : Nat → Reader (List Value)
  | 0 => return []
  | fuel + 1 => do
    let first ← literal
    if ← eat ',' then return first :: (← literals fuel)
    else
      expect '}'
      return [first]

def braced : Reader (List Value) := do
  expect '{'
  if ← eat '}' then return []
  else literals ((← here).ahead.length + 1)

def characters : Reader (List Value) := do
  let content ← Reader.string
  return content.map Value.char

def size : Reader Int64 := do
  if ← check ']' then return 0 else integer

def initializer : Kind → Reader (List Value)
  | .char => characters
  | .int => braced
  | .double => braced

def declaration (kind : Kind) : Reader Statement := do
  let name ← identifier
  expect '['
  let declared ← size
  expect ']'
  expect '='
  return .declare kind name declared (← initializer kind)

def assignment (name : Text) : Reader Statement := do
  expect '['
  let index ← integer
  expect ']'
  expect '='
  return .update name index (← literal)

/-- What follows the index in an insertion or a deletion. -/
def argument (name method : Text) (index : Int64) : Reader Statement :=
  if method = ['i', 'n', 's', 'e', 'r', 't'] then do
    expect ','
    return .insert name index (← literal)
  else if method = ['r', 'e', 'm', 'o', 'v', 'e'] ∨ method = ['d', 'e', 'l', 'e', 't', 'e'] then
    return .delete name index
  else failAt 1 (.unknownMethod method)

def call (name : Text) : Reader Statement := do
  expect '.'
  let method ← identifier
  expect '('
  let index ← integer
  let statement ← argument name method index
  expect ')'
  return statement

def body : Reader Statement := do
  let word ← identifier
  match Kind.ofKeyword? word with
  | some kind => declaration kind
  | none =>
    if ← check '[' then assignment word
    else if ← check '.' then call word
    else failAt 1 (.noStatement word)

def sentence : Reader Statement := do
  let statement ← body
  expect ';'
  finish
  return statement

def read (line : Text) : Except ReadError Statement := (sentence (Cursor.start line)).1

/-- A line that becomes an update, an insertion or a deletion by a semicolon at its end. -/
def lacksTerminator (line : Text) : Bool :=
  line.getLast? ≠ some ';' &&
    match read (line ++ [';']) with
    | .ok statement => statement.isOperation
    | .error _ => false

def ofLine (line : Text) : Statement :=
  let trimmed := Text.trim line
  match read trimmed with
  | .ok statement => statement
  | .error _ => if lacksTerminator trimmed then .unterminated trimmed else .unreadable trimmed

def rejection? (line : Text) : Option ReadError :=
  match read (Text.trim line) with
  | .ok _ => none
  | .error e => some e

end ArrayReplay.Statement
