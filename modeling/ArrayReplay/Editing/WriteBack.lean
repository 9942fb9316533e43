import ArrayReplay.Notation.Program

/-!
Writing an element back. The source is the only lasting state, so an element that is changed by hand
becomes an update in the source. The last update of that element gets the new value in place of its
old one, unless a later statement moves the elements of the array about; then, or when there is no
such update, a new one follows the last statement, where it acts on the final shape of the array.
-/
namespace ArrayReplay.WriteBack

def statement? (row : Text) : Option Statement :=
  if Program.isBlankOrComment row then none else some (Statement.ofLine row)

def isUpdate (name : Text) (index : Nat) (row : Text) : Bool :=
  (statement? row).any (Statement.updates name index)

/-- The row holds a statement that can move the elements of `name`. -/
def isReshape (name : Text) (row : Text) : Bool :=
  (statement? row).any (Statement.reshapes name)

/-- The length of the literal that a text begins with: a quoted character takes three characters,
anything else ends at a semicolon or blank. -/
def literalLength (t : Text) : Nat :=
  if t.head? = some '\'' then 3
  else (t.takeWhile fun c => !(c == ';' || Text.isBlank c)).length

/-- A row with the literal behind its first equals sign exchanged for another. -/
def exchange (literal row : Text) : Text :=
  match row.dropWhile (· != '=') with
  | [] => row
  | sign :: rest =>
    let value := Text.trimStart rest
    row.takeWhile (· != '=') ++ sign :: Text.indent rest ++ literal ++
      value.drop (literalLength value)

/-- The rows with the last update of `name[index]` changed, if no later row moves the elements. -/
def amend? (name : Text) (index : Nat) (literal : Text) : List Text → Option (List Text)
  | [] => none
  | row :: more =>
    match amend? name index literal more with
    | some amended => some (row :: amended)
    | none =>
      if isUpdate name index row && !more.any (isReshape name) then
        some (exchange literal row :: more)
      else none

/-- The rows with a new one behind the last that counts as a step, if any does. -/
def follow? (new : Text) : List Text → Option (List Text)
  | [] => none
  | row :: more =>
    match follow? new more with
    | some rows => some (row :: rows)
    | none => if Program.isBlankOrComment row then none else some (row :: new :: more)

def updateRow (name : Text) (index : Nat) (literal : Text) : Text :=
  name ++ '[' :: Numeral.ofNat index ++ [']', ' ', '=', ' '] ++ literal ++ [';']

/-- The source in which `name[index]` ends up as `v`. -/
def write (source name : Text) (index : Nat) (v : Value) : Text :=
  let rows := Text.rows source
  match amend? name index v.text rows with
  | some amended => Text.ofRows amended
  | none =>
    let new := updateRow name index v.text
    match follow? new rows with
    | some followed => Text.ofRows followed
    | none => if (Text.trim source).isEmpty then new else Text.ofRows (rows ++ [new])

end ArrayReplay.WriteBack
