import ArrayReplay.Notation.Recognition
import ArrayReplay.Text.Rows

namespace ArrayReplay

/-- A place in a source: a line, and a column counted in bytes, both from one. -/
structure Location where
  line : Nat
  column : Nat
deriving DecidableEq, Repr

structure Step where
  location : Location
  statement : Statement
deriving DecidableEq

abbrev Program := List Step

namespace Program

def isBlankOrComment (line : Text) : Bool :=
  let trimmed := Text.trim line
  trimmed.isEmpty || ['/', '/'].isPrefixOf trimmed

def step? (number : Nat) (line : Text) : Option Step :=
  if isBlankOrComment line then none
  else some ⟨⟨number, Text.byteSize (Text.indent line) + 1⟩, Statement.ofLine line⟩

def ofLines (number : Nat) : List Text → Program
  | [] => []
  | line :: more => (step? number line).toList ++ ofLines (number + 1) more

def ofSource (source : Text) : Program := ofLines 1 (Text.lines source)

end Program
end ArrayReplay
