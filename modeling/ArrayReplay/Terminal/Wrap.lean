import ArrayReplay.Terminal.Cell
import ArrayReplay.Text.Blank

namespace ArrayReplay.Terminal

/-- A line part of the way through: the finished rows, the row being filled, and the gap and the word
read since, for which there may be no room in it. -/
structure Wrap where
  rows : List (List Cell) := []
  row : List Cell := []
  gap : List Cell := []
  word : List Cell := []
  inWord : Bool := false

namespace Wrap

/-- The gap and the word join the row. -/
def settle (w : Wrap) : Wrap := { w with row := w.row ++ w.gap ++ w.word, gap := [], word := [] }

/-- The row is finished; the gap fills what is left of it, unseen. -/
def breakRow (width : Nat) (w : Wrap) : Wrap :=
  { w with rows := w.rows ++ [w.row], row := [], gap := w.gap.drop (width - w.row.length) }

def push (c : Cell) (w : Wrap) : Wrap :=
  if Text.isBlank c.glyph then { w with gap := w.gap ++ [c], inWord := false }
  else { w with word := w.word ++ [c], inWord := true }

/-- Reads a cell. A word joins the row at its end, or when it and its gap fill an empty row by
themselves; the row is finished when the next cell would not fit any more. -/
def read (width : Nat) (w : Wrap) (c : Cell) : Wrap :=
  let blank := Text.isBlank c.glyph
  let wordEnds := w.inWord && blank
  let tooWide := w.row.isEmpty && decide (width < w.gap.length + w.word.length + 1)
  let w := if wordEnds || tooWide then w.settle else w
  if width ≤ w.row.length + w.gap.length + w.word.length then
    let w := w.breakRow width
    if blank && w.gap.isEmpty then w else w.push c
  else w.push c

def finish (w : Wrap) : List (List Cell) :=
  let rows :=
    if w.row.isEmpty && w.word.isEmpty && !w.gap.isEmpty then w.rows ++ [[]] else w.rows
  let last := w.settle.row
  if last.isEmpty then (if rows.isEmpty then [[]] else rows) else rows ++ [last]

end Wrap

/-- The rows of a line, none wider than `width`. -/
def wrap (width : Nat) (cells : List Cell) : List (List Cell) :=
  (cells.foldl (Wrap.read width) {}).finish

end ArrayReplay.Terminal
