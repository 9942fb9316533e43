import ArrayReplay.Terminal.Picture
import ArrayReplay.View.Highlight

namespace ArrayReplay.View

open Terminal

/-- What the editor pane shows. Lines are counted from one, the cursor's row and column from zero. -/
structure Editor where
  lines : List Text
  row : Nat
  column : Nat
  executed : Option Nat
  next : Option Nat
  flagged : List (Nat × Severity)
  focused : Bool

namespace Editor

/-- The columns in front of a row: a mark, a number of four digits and a space. -/
def gutter : Nat := 6

/-- The rows that a pane of some height has room for; at least one, even if it is not drawn. -/
def visibleRows (height : Nat) : Nat := max 1 (height - 2)

def scroll (offset visible row : Nat) : Nat :=
  if row < offset then row
  else if offset + visible ≤ row then row + 1 - visible
  else offset

def flag? (e : Editor) (line : Nat) : Option Severity :=
  ((e.flagged.filter (·.1 == line)).map Prod.snd).foldl
    (fun loudest s => some ((loudest.map (·.louder s)).getD s)) none

/-- The mark in front of a line: its loudest diagnostic, or else an arrow at the next step. -/
def mark (e : Editor) (line : Nat) : Span :=
  match e.flag? line with
  | some .error => ⟨['●'], .ofColor Theme.error⟩
  | some .warning => ⟨['●'], .ofColor Theme.warning⟩
  | some .hint => ⟨['◦'], .ofColor Theme.primary⟩
  | none => if e.next = some line then ⟨['▶'], .ofColor Theme.success⟩ else ⟨[' '], .plain⟩

def number (line : Nat) : Text :=
  let digits := Numeral.ofNat line
  List.replicate (4 - digits.length) ' ' ++ digits ++ [' ']

def drawnLine (e : Editor) (line : Nat) (text : Text) : Line :=
  let content := highlight text
  if e.executed = some line then
    e.mark line :: ⟨number line, (Style.ofColor Theme.secondary).inBold⟩ ::
      content.map fun s => { s with style := s.style.onto Theme.strip }
  else e.mark line :: ⟨number line, .ofColor Theme.comment⟩ :: content

def drawnLines (e : Editor) (offset visible : Nat) : List Line :=
  ((e.lines.drop offset).take visible).mapIdx fun i text => e.drawnLine (offset + i + 1) text

def picture (e : Editor) (offset width height : Nat) : Picture :=
  box [' ', 'E', 'd', 'i', 't', 'o', 'r', ' '] (Theme.borderStyle e.focused) width height
    fun w h => .ofRows w h .plain ((e.drawnLines offset (visibleRows height)).map (Line.cells .plain))

/-- The last column of a terminal that a word of 16 bits can name. -/
def lastColumn : Nat := 65535

/-- The column and row of the terminal's cursor, which stays inside the border, where the upper left
corner of the pane is at column `left` and row `top`. Terminal columns are words of 16 bits: a sum wraps
round, but the right end of the pane stops at the last one. -/
def cursorAt (left top : Nat) (e : Editor) (offset width : Nat) : Nat × Nat :=
  (min (UInt16.ofNat (left + 1 + gutter) + UInt16.ofNat e.column).toNat
      (min (left + width) lastColumn - 2),
    top + 1 + (e.row - offset))

def cursor (e : Editor) (offset width : Nat) : Nat × Nat := e.cursorAt 0 0 offset width

end Editor
end ArrayReplay.View
