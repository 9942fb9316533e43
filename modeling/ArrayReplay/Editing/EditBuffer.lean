import ArrayReplay.Text.Offset
import ArrayReplay.Text.Rows

/-!
The text being edited: its rows, and a cursor at a row and a column. The cursor never lies outside
the text, which is part of the type, so every edit finds its row. A row is cut at the byte offset of
the column, and a movement to a shorter row ends behind its last character.
-/
namespace ArrayReplay

def lineLength (lines : List Text) (row : Nat) : Nat := (lines[row]?.map List.length).getD 0

theorem lineLength_of_lt {lines : List Text} {row : Nat} (h : row < lines.length) :
    lineLength lines row = lines[row].length := by
  simp [lineLength, h]

structure EditBuffer where
  lines : List Text
  row : Nat
  /-- The number of characters in front of the cursor in its row. -/
  column : Nat
  row_lt : row < lines.length
  column_le : column ≤ lineLength lines row
deriving DecidableEq

namespace EditBuffer

def current (b : EditBuffer) : Text := b.lines.get ⟨b.row, b.row_lt⟩

def text (b : EditBuffer) : Text := Text.ofRows b.lines

/-- Rows with the cursor at a row and column, or the nearest that there is. -/
def place (lines : List Text) (row column : Nat) : EditBuffer :=
  let lines := if lines.isEmpty then [[]] else lines
  let row := min row (lines.length - 1)
  { lines, row
    column := min column (lineLength lines row)
    row_lt := by
      have : 0 < lines.length := by
        unfold lines
        split
        · simp
        · next filled => simpa [List.length_pos_iff] using filled
      omega
    column_le := Nat.min_le_right _ _ }

def ofText (text : Text) : EditBuffer := place (Text.rows text) 0 0

def empty : EditBuffer := ofText []

/-- Another text, with the cursor where it was as far as the text allows. -/
def setText (text : Text) (b : EditBuffer) : EditBuffer :=
  place (Text.rows text) b.row b.column

def insert (c : Char) (b : EditBuffer) : EditBuffer :=
  let parts := Text.cutAt b.column b.current
  { b with
    lines := b.lines.set b.row (parts.1 ++ c :: parts.2)
    column := b.column + 1
    row_lt := by simpa using b.row_lt
    column_le := by
      have inside := b.column_le
      rw [lineLength_of_lt b.row_lt] at inside
      rw [lineLength_of_lt (by simpa using b.row_lt)]
      simp [parts, Text.cutAt_eq, current]
      omega }

def insertBreak (b : EditBuffer) : EditBuffer :=
  let parts := Text.cutAt b.column b.current
  { lines := (b.lines.set b.row parts.1).insertIdx (b.row + 1) parts.2
    row := b.row + 1
    column := 0
    row_lt := by
      have inside := b.row_lt
      rw [List.length_insertIdx_of_le_length (by rw [List.length_set]; exact inside)]
      simpa using inside
    column_le := Nat.zero_le _ }

def backspace (b : EditBuffer) : Bool × EditBuffer :=
  if column_pos : 0 < b.column then
    let parts := Text.cutAt (b.column - 1) b.current
    (true, { b with
      lines := b.lines.set b.row (parts.1 ++ parts.2.tail)
      column := b.column - 1
      row_lt := by simpa using b.row_lt
      column_le := by
        have inside := b.column_le
        rw [lineLength_of_lt b.row_lt] at inside
        rw [lineLength_of_lt (by simpa using b.row_lt)]
        simp [parts, Text.cutAt_eq, current]
        omega })
  else if row_pos : 0 < b.row then
    let rest := b.lines.eraseIdx b.row
    (true, {
      lines := rest.modify (b.row - 1) (· ++ b.current)
      row := b.row - 1
      column := lineLength rest (b.row - 1)
      row_lt := by
        have inside := b.row_lt
        simp [rest, List.length_eraseIdx_of_lt inside]
        omega
      column_le := by
        have inside := b.row_lt
        have shorter : b.row - 1 < rest.length := by
          simp [rest, List.length_eraseIdx_of_lt inside]
          omega
        rw [lineLength_of_lt shorter, lineLength_of_lt (by simpa using shorter)]
        simp })
  else (false, b)

def delete (b : EditBuffer) : Bool × EditBuffer :=
  if column_lt : b.column < lineLength b.lines b.row then
    let parts := Text.cutAt b.column b.current
    (true, { b with
      lines := b.lines.set b.row (parts.1 ++ parts.2.tail)
      row_lt := by simpa using b.row_lt
      column_le := by
        rw [lineLength_of_lt b.row_lt] at column_lt
        rw [lineLength_of_lt (by simpa using b.row_lt)]
        simp [parts, Text.cutAt_eq, current]
        omega })
  else if below : b.row + 1 < b.lines.length then
    let next := b.lines[b.row + 1]
    let rest := b.lines.eraseIdx (b.row + 1)
    (true, { b with
      lines := rest.modify b.row (· ++ next)
      row_lt := by
        simp [rest, List.length_eraseIdx_of_lt below]
        omega
      column_le := by
        have inside := b.column_le
        rw [lineLength_of_lt b.row_lt] at inside
        have shorter : b.row < rest.length := by
          simp [rest, List.length_eraseIdx_of_lt below]
          omega
        rw [lineLength_of_lt (by simpa using shorter)]
        simp [rest, List.getElem_eraseIdx]
        omega })
  else (false, b)

def moveLeft (b : EditBuffer) : EditBuffer :=
  if 0 < b.column then
    { b with
      column := b.column - 1
      column_le := Nat.le_trans (Nat.sub_le _ _) b.column_le }
  else if 0 < b.row then
    { b with
      row := b.row - 1
      column := lineLength b.lines (b.row - 1)
      row_lt := Nat.lt_of_le_of_lt (Nat.sub_le _ _) b.row_lt
      column_le := Nat.le_refl _ }
  else b

def moveRight (b : EditBuffer) : EditBuffer :=
  if column_lt : b.column < lineLength b.lines b.row then
    { b with column := b.column + 1, column_le := column_lt }
  else if below : b.row + 1 < b.lines.length then
    { b with row := b.row + 1, column := 0, row_lt := below, column_le := Nat.zero_le _ }
  else b

/-- To the same column of the row above, or to its end. -/
def moveUp (b : EditBuffer) : EditBuffer :=
  if 0 < b.row then
    { b with
      row := b.row - 1
      column := min b.column (lineLength b.lines (b.row - 1))
      row_lt := Nat.lt_of_le_of_lt (Nat.sub_le _ _) b.row_lt
      column_le := Nat.min_le_right _ _ }
  else b

def moveDown (b : EditBuffer) : EditBuffer :=
  if below : b.row + 1 < b.lines.length then
    { b with
      row := b.row + 1
      column := min b.column (lineLength b.lines (b.row + 1))
      row_lt := below
      column_le := Nat.min_le_right _ _ }
  else b

def moveHome (b : EditBuffer) : EditBuffer := { b with column := 0, column_le := Nat.zero_le _ }

def moveEnd (b : EditBuffer) : EditBuffer :=
  { b with column := lineLength b.lines b.row, column_le := Nat.le_refl _ }

theorem lines_place {lines : List Text} (filled : lines ≠ []) (row column : Nat) :
    (place lines row column).lines = lines := by
  simp [place, filled]

theorem text_setText (t : Text) (b : EditBuffer) : (b.setText t).text = t := by
  rw [text, setText, lines_place (Text.rows_ne_nil t), Text.ofRows_rows]

theorem text_ofText (t : Text) : (ofText t).text = t := by
  rw [text, ofText, lines_place (Text.rows_ne_nil t), Text.ofRows_rows]

end EditBuffer
end ArrayReplay
