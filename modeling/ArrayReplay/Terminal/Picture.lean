import ArrayReplay.Terminal.Cell

namespace ArrayReplay.Terminal

abbrev Picture := List (List Cell)

/-- The cells of a row, cut or filled up on the right to a width. -/
def fit (width : Nat) (base : Style) (cells : List Cell) : List Cell :=
  cells.take width ++ List.replicate (width - cells.length) (.blank base)

def fitRight (width : Nat) (base : Style) (cells : List Cell) : List Cell :=
  List.replicate (width - cells.length) (.blank base) ++ cells.take width

@[simp] theorem length_fit (width : Nat) (base : Style) (cells : List Cell) :
    (fit width base cells).length = width := by
  simp [fit]
  omega

namespace Picture

def blank (width height : Nat) (base : Style) : Picture :=
  List.replicate height (List.replicate width (.blank base))

def ofRows (width height : Nat) (base : Style) (rows : List (List Cell)) : Picture :=
  (rows.take height).map (fit width base) ++ blank width (height - rows.length) base

def beside (left right : Picture) : Picture := List.zipWith (· ++ ·) left right

/-- A picture with another on top of it, whose upper left corner is at column `x` and row `y`. -/
def overlay (x y : Nat) (top under : Picture) : Picture :=
  let rows := List.zipWith (fun row new => row.take x ++ new ++ row.drop (x + new.length))
    (under.drop y) top
  under.take y ++ rows ++ under.drop (y + rows.length)

end Picture

/-- The columns or rows, out of `n`, in front of a cut at so many percent; a half goes up. -/
def share (n percent : Nat) : Nat := (n * percent + 50) / 100

/-- A row of a box: its two ends and what is between them. The left end wins where there is room for
one cell only. -/
def ends (left right : Char) (style : Style) (width : Nat) (middle : List Cell) : List Cell :=
  match width with
  | 0 => []
  | 1 => [⟨left, style⟩]
  | inner + 2 => ⟨left, style⟩ :: fit inner style middle ++ [⟨right, style⟩]

/-- A box with a title in its upper edge. What is inside is given for the width and height left for
it. -/
def box (title : Text) (style : Style) (width height : Nat) (inside : Nat → Nat → Picture) :
    Picture :=
  let bar := List.replicate (width - 2) (Cell.mk '─' style)
  let top := ends '┌' '┐' style width (Line.cells .plain [⟨title, style⟩] ++ bar)
  match height with
  | 0 => []
  | 1 => [top]
  | inner + 2 =>
    top :: ((inside (width - 2) inner).take inner).map (ends '│' '│' style width) ++
      [ends '└' '┘' style width bar]

end ArrayReplay.Terminal
