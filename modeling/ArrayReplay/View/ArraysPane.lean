import ArrayReplay.Array.Environment
import ArrayReplay.Terminal.Picture
import ArrayReplay.View.Theme

namespace ArrayReplay.View

open Terminal

structure ArraysPane where
  environment : Environment
  current : Option Text

namespace ArraysPane

def element (v : Value) : Span :=
  ⟨v.text, .ofColor (match v with | .char _ => Theme.string | _ => Theme.number)⟩

def elements : List Value → Line
  | [] => []
  | [v] => [element v]
  | v :: next :: more => element v :: ⟨[',', ' '], .plain⟩ :: elements (next :: more)

def entry (p : ArraysPane) (name : Text) (a : ArrayValue) : Line :=
  let isCurrent := p.current = some name
  [⟨if isCurrent then ['▶', ' '] else [' ', ' '], .ofColor Theme.secondary⟩,
    ⟨a.kind.keyword ++ [' '], .ofColor Theme.typeName⟩,
    ⟨name, if isCurrent then (Style.ofColor Theme.secondary).inBold else .ofColor Theme.text⟩,
    ⟨'[' :: Numeral.ofNat a.length ++ [']'], .ofColor Theme.comment⟩,
    ⟨[' ', '=', ' ', '{'], .plain⟩] ++ elements a.elements ++ [⟨['}'], .plain⟩]

def visibleRows (height : Nat) : Nat := max 1 (height - 2)

def currentRow? (p : ArraysPane) : Option Nat :=
  p.current.bind fun name => p.environment.names.findIdx? (· == name)

/-- The first row on display: moved no further than a given row requires, and never so far that room
is left over. -/
def keepVisible (offset total visible : Nat) (row : Option Nat) : Nat :=
  if total ≤ visible then 0
  else
    let moved := match row with
      | some r => if r < offset then r else if offset + visible ≤ r then r + 1 - visible else offset
      | none => offset
    min moved (total - visible)

/-- The scroll offset for a pane of some height. It stays as it is while there is nothing to show. -/
def scroll (p : ArraysPane) (offset height : Nat) : Nat :=
  if p.environment.isEmpty then offset
  else keepVisible offset p.environment.length (visibleRows height) p.currentRow?

def title (p : ArraysPane) : Text :=
  " Arrays (".toList ++ Numeral.ofNat p.environment.length ++ [')', ' ']

def picture (p : ArraysPane) (offset width height : Nat) : Picture :=
  box p.title (.ofColor Theme.border) width height fun w h =>
    if p.environment.isEmpty then
      let style := Style.ofColor Theme.comment
      .ofRows w h style [Line.cells style [⟨"(nothing declared yet)".toList, .plain⟩]]
    else
      .ofRows w h .plain (((p.environment.arrays.drop offset).take (visibleRows height)).map
        fun e => Line.cells .plain (p.entry e.1 e.2))

end ArraysPane
end ArrayReplay.View
