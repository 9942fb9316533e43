import ArrayReplay.Text.Basic

/-!
Rows of a text. Two views of the same text are in use: its rows, one more than it has line feeds,
which is how it is edited; and its lines, in the sense of a line-oriented reader, where a final line
feed opens no further line and a carriage return in front of a line feed belongs to the line break.
-/
namespace ArrayReplay.Text

/-- The pieces between the line feeds of a text; there is always at least one. -/
def rows : Text → List Text
  | [] => [[]]
  | c :: rest =>
    if c = '\n' then [] :: rows rest
    else match rows rest with
      | [] => [[c]]
      | row :: more => (c :: row) :: more

def ofRows : List Text → Text
  | [] => []
  | [row] => row
  | row :: next :: more => row ++ '\n' :: ofRows (next :: more)

/-- A row without one carriage return at its end. -/
def dropReturn (row : Text) : Text :=
  if row.getLast? = some '\r' then row.dropLast else row

/-- The lines that end with the rows of a text: all rows but the last lost their line feed, and an
empty last row is no line. -/
def linesOfRows : List Text → List Text
  | [] => []
  | [last] => if last.isEmpty then [] else [last]
  | row :: next :: more => dropReturn row :: linesOfRows (next :: more)

def lines (t : Text) : List Text := linesOfRows (rows t)

theorem rows_ne_nil (t : Text) : rows t ≠ [] := by
  cases t with
  | nil => simp [rows]
  | cons c rest =>
    simp only [rows]
    split
    · simp
    · split <;> simp

theorem ofRows_cons {row : Text} {more : List Text} (h : more ≠ []) :
    ofRows (row :: more) = row ++ '\n' :: ofRows more := by
  cases more with
  | nil => exact absurd rfl h
  | cons next more => rfl

theorem ofRows_rows (t : Text) : ofRows (rows t) = t := by
  induction t with
  | nil => rfl
  | cons c rest ih =>
    simp only [rows]
    split
    · next h => rw [ofRows_cons (rows_ne_nil rest), ih, h]; rfl
    · cases hr : rows rest with
      | nil => exact absurd hr (rows_ne_nil rest)
      | cons row more =>
        rw [hr] at ih
        cases more with
        | nil => simpa [ofRows] using ih
        | cons next more => simpa [ofRows] using ih

end ArrayReplay.Text
