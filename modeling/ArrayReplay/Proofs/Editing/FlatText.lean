import ArrayReplay.Editing.EditBuffer

/-! The edit buffer as one text with one offset. Rows and columns are a matter of display: every
edit and every movement to a neighbouring place acts on the joined text at the offset of the cursor,
and the ends of that text are the only places where nothing happens. -/
namespace ArrayReplay

/-- A text and the number of characters in front of the cursor. -/
structure FlatText where
  text : Text
  offset : Nat

namespace FlatText

def insert (c : Char) (f : FlatText) : FlatText :=
  ⟨f.text.insertIdx f.offset c, f.offset + 1⟩

def backspace (f : FlatText) : FlatText := ⟨f.text.eraseIdx (f.offset - 1), f.offset - 1⟩

def delete (f : FlatText) : FlatText := ⟨f.text.eraseIdx f.offset, f.offset⟩

def moveLeft (f : FlatText) : FlatText := ⟨f.text, f.offset - 1⟩

def moveRight (f : FlatText) : FlatText := ⟨f.text, min (f.offset + 1) f.text.length⟩

end FlatText

namespace EditBuffer

def above (b : EditBuffer) : List Text := b.lines.take b.row

def below (b : EditBuffer) : List Text := b.lines.drop (b.row + 1)

/-- The number of characters in front of the cursor: those of the rows above, each with its line
feed, and those of its own row. -/
def offset (b : EditBuffer) : Nat :=
  b.above.foldr (fun line n => line.length + 1 + n) b.column

def flat (b : EditBuffer) : FlatText := ⟨b.text, b.offset⟩

/- The text on either side of the cursor. -/
def before (b : EditBuffer) : Text :=
  b.above.flatMap (· ++ ['\n']) ++ b.current.take b.column

def after (b : EditBuffer) : Text :=
  b.current.drop b.column ++ b.below.flatMap ('\n' :: ·)

theorem lines_eq (b : EditBuffer) : b.lines = b.above ++ b.current :: b.below := by
  have inside := b.row_lt
  simp [above, below, current]

theorem length_above (b : EditBuffer) : b.above.length = b.row := by
  have inside := b.row_lt
  simp only [above, List.length_take]
  omega

theorem column_le_current (b : EditBuffer) : b.column ≤ b.current.length := by
  have inside := b.column_le
  rwa [lineLength_of_lt b.row_lt] at inside

theorem parts_of_lines {b : EditBuffer} {above below : List Text} {row : Text}
    (lines : b.lines = above ++ row :: below) (here : b.row = above.length) :
    b.above = above ∧ b.current = row ∧ b.below = below := by
  refine ⟨?_, ?_, ?_⟩
  · simp [EditBuffer.above, lines, here]
  · simp [current, lines, here]
  · simp [EditBuffer.below, lines, here]

theorem ofRows_append_cons (above : List Text) (row : Text) (below : List Text) :
    Text.ofRows (above ++ row :: below) =
      above.flatMap (· ++ ['\n']) ++ row ++ below.flatMap ('\n' :: ·) := by
  induction above with
  | nil =>
    induction below generalizing row with
    | nil => simp [Text.ofRows]
    | cons next below ih =>
      rw [List.nil_append, Text.ofRows_cons (by simp)]
      simpa using ih next
  | cons first above ih =>
    rw [List.cons_append, Text.ofRows_cons (by simp), ih]
    simp

theorem text_eq (b : EditBuffer) : b.text = b.before ++ b.after := by
  have whole : b.current.take b.column ++ b.current.drop b.column = b.current :=
    List.take_append_drop _ _
  rw [text, lines_eq, ofRows_append_cons]
  simp only [before, after, List.append_assoc]
  rw [← List.append_assoc (b.current.take _), whole]

theorem length_before (b : EditBuffer) : b.before.length = b.offset := by
  have inside := b.column_le_current
  rw [before, offset]
  induction b.above with
  | nil => simp [inside]
  | cons line above ih =>
    simp only [List.flatMap_cons, List.append_assoc, List.length_append, List.foldr_cons] at ih ⊢
    simp only [List.length_singleton]
    omega

theorem sides_of_lines {b : EditBuffer} {above below : List Text} {front back : Text}
    (lines : b.lines = above ++ (front ++ back) :: below) (row : b.row = above.length)
    (column : b.column = front.length) :
    b.before = above.flatMap (· ++ ['\n']) ++ front ∧
      b.after = back ++ below.flatMap ('\n' :: ·) := by
  obtain ⟨ha, hc, hb⟩ := parts_of_lines lines row
  simp [before, after, ha, hc, hb, column]

theorem set_row (b : EditBuffer) (line : Text) :
    b.lines.set b.row line = b.above ++ line :: b.below := by
  rw [List.set_eq_take_append_cons_drop, if_pos b.row_lt, above, below]

theorem lines_insert (b : EditBuffer) (c : Char) :
    (b.insert c).lines =
      b.above ++ (b.current.take b.column ++ c :: b.current.drop b.column) :: b.below := by
  simp only [insert, Text.cutAt_eq, set_row]

theorem lines_insertBreak (b : EditBuffer) :
    b.insertBreak.lines =
      (b.above ++ [b.current.take b.column]) ++ b.current.drop b.column :: b.below := by
  have here := b.length_above
  simp only [insertBreak, Text.cutAt_eq, set_row]
  rw [← here]
  generalize b.above = above
  induction above with
  | nil => simp
  | cons line above ih => simpa using ih

/- Backspace and delete take out one row and join it to the row in front of it. -/
theorem eraseIdx_next (above below : List Text) (line next : Text) :
    (above ++ line :: next :: below).eraseIdx (above.length + 1) = above ++ line :: below := by
  rw [List.eraseIdx_append_of_length_le (Nat.le_add_right _ 1), Nat.add_sub_cancel_left]
  rfl

theorem modify_append_cons (above below : List Text) (line : Text) (f : Text → Text) :
    (above ++ line :: below).modify above.length f = above ++ f line :: below := by
  rw [List.modify_eq_take_cons_drop (by simp)]
  simp

theorem side_insert (b : EditBuffer) (c : Char) :
    (b.insert c).before = b.before ++ [c] ∧ (b.insert c).after = b.after := by
  have inside := b.column_le_current
  have lines : (b.insert c).lines =
      b.above ++ ((b.current.take b.column ++ [c]) ++ b.current.drop b.column) :: b.below := by
    simp [lines_insert]
  obtain ⟨hb, ha⟩ := sides_of_lines lines (by simp [insert, length_above])
    (by simp [insert, inside])
  exact ⟨by rw [hb]; simp [before], ha⟩

theorem side_insertBreak (b : EditBuffer) :
    b.insertBreak.before = b.before ++ ['\n'] ∧ b.insertBreak.after = b.after := by
  have lines : b.insertBreak.lines =
      (b.above ++ [b.current.take b.column]) ++ ([] ++ b.current.drop b.column) :: b.below :=
    b.lines_insertBreak
  obtain ⟨hb, ha⟩ := sides_of_lines lines (by simp [insertBreak, length_above]) rfl
  exact ⟨by rw [hb]; simp [before], ha⟩

theorem exists_above (b : EditBuffer) (row_pos : 0 < b.row) :
    ∃ above line, b.above = above ++ [line] ∧ b.row = above.length + 1 := by
  have size := b.length_above
  rcases List.eq_nil_or_concat b.above with none | ⟨above, line, some⟩
  · simp [none] at size
    omega
  · exact ⟨above, line, by simpa using some, by simpa [some] using size.symm⟩

theorem exists_below (b : EditBuffer) (more : b.row + 1 < b.lines.length) :
    ∃ line below, b.below = line :: below := by
  cases rows : b.below with
  | nil => simp [below] at rows; omega
  | cons line below => exact ⟨line, below, rfl⟩

theorem backspace_of_column_pos (b : EditBuffer) (column_pos : 0 < b.column) :
    b.backspace.1 = true ∧ b.backspace.2.row = b.row ∧ b.backspace.2.column = b.column - 1 ∧
      b.backspace.2.lines =
        b.above ++ (b.current.take (b.column - 1) ++ b.current.drop b.column) :: b.below := by
  have next : b.column - 1 + 1 = b.column := Nat.sub_add_cancel column_pos
  simp [backspace, column_pos, Text.cutAt_eq, set_row, next]

theorem backspace_of_row_pos (b : EditBuffer) {above : List Text} {line : Text}
    (start : b.column = 0) (rows : b.above = above ++ [line]) (row : b.row = above.length + 1) :
    b.backspace.1 = true ∧ b.backspace.2.row = above.length ∧
      b.backspace.2.column = line.length ∧
      b.backspace.2.lines = above ++ (line ++ b.current) :: b.below := by
  have split : b.lines = above ++ line :: b.current :: b.below := by
    rw [lines_eq, rows, List.append_assoc, List.singleton_append]
  have erased : b.lines.eraseIdx (above.length + 1) = above ++ line :: b.below := by
    rw [split, eraseIdx_next]
  simp [backspace, start, row, erased, modify_append_cons, lineLength]

theorem side_backspace (b : EditBuffer) :
    (b.before = [] ∧ b.backspace = (false, b)) ∨
      ∃ c, b.backspace.1 = true ∧ b.before = b.backspace.2.before ++ [c] ∧
        b.backspace.2.after = b.after := by
  by_cases column_pos : 0 < b.column
  · obtain ⟨done, row, column, lines⟩ := b.backspace_of_column_pos column_pos
    have inside := b.column_le_current
    obtain ⟨hb, ha⟩ := sides_of_lines lines (row.trans b.length_above.symm)
      (by rw [column]; simp; omega)
    have last : b.current.take b.column =
        b.current.take (b.column - 1) ++ [b.current[b.column - 1]] := by
      rw [← List.take_succ_eq_append_getElem, Nat.sub_add_cancel column_pos]
    exact .inr ⟨_, done, by rw [hb, before, last, List.append_assoc], ha⟩
  · have start : b.column = 0 := by omega
    by_cases row_pos : 0 < b.row
    · obtain ⟨above, line, rows, size⟩ := b.exists_above row_pos
      obtain ⟨done, row, column, lines⟩ := b.backspace_of_row_pos start rows size
      obtain ⟨hb, ha⟩ := sides_of_lines lines row column
      exact .inr ⟨'\n', done, by rw [hb, before, rows, start]; simp, by rw [ha, after, start]; simp⟩
    · have top : b.row = 0 := by omega
      refine .inl ⟨?_, by simp [backspace, start, top]⟩
      simp [before, above, start, top]

theorem delete_of_column_lt (b : EditBuffer) (inside : b.column < b.current.length) :
    b.delete.1 = true ∧ b.delete.2.row = b.row ∧ b.delete.2.column = b.column ∧
      b.delete.2.lines =
        b.above ++ (b.current.take b.column ++ b.current.drop (b.column + 1)) :: b.below := by
  have length : lineLength b.lines b.row = b.current.length := lineLength_of_lt b.row_lt
  simp [delete, length, inside, Text.cutAt_eq, set_row]

theorem delete_of_row_lt (b : EditBuffer) {line : Text} {below : List Text}
    (full : b.column = b.current.length) (rows : b.below = line :: below) :
    b.delete.1 = true ∧ b.delete.2.row = b.row ∧ b.delete.2.column = b.column ∧
      b.delete.2.lines = b.above ++ (b.current ++ line) :: below := by
  have length : lineLength b.lines b.row = b.current.length := lineLength_of_lt b.row_lt
  have here := b.length_above
  have split : b.lines = b.above ++ b.current :: line :: below := by rw [lines_eq, rows]
  have more : b.row + 1 < b.lines.length := by
    rw [split]
    simp
    omega
  have next : b.lines[b.row + 1] = line := by simp [split, ← here]
  have erased : b.lines.eraseIdx (b.row + 1) = b.above ++ b.current :: below := by
    rw [split, ← here, eraseIdx_next]
  have joined := modify_append_cons b.above below b.current (· ++ line)
  rw [here] at joined
  simp [delete, length, full, more, next, erased, joined]

theorem side_delete (b : EditBuffer) :
    (b.after = [] ∧ b.delete = (false, b)) ∨
      ∃ c, b.delete.1 = true ∧ b.delete.2.before = b.before ∧
        b.after = c :: b.delete.2.after := by
  by_cases inside : b.column < b.current.length
  · obtain ⟨done, row, column, lines⟩ := b.delete_of_column_lt inside
    obtain ⟨hb, ha⟩ := sides_of_lines lines (row.trans b.length_above.symm)
      (by rw [column]; simp; omega)
    have first : b.current.drop b.column =
        b.current[b.column] :: b.current.drop (b.column + 1) := List.drop_eq_getElem_cons inside
    exact .inr ⟨_, done, hb, by rw [ha, after, first, List.cons_append]⟩
  · have full : b.column = b.current.length := by
      have := b.column_le_current
      omega
    by_cases more : b.row + 1 < b.lines.length
    · obtain ⟨line, below, rows⟩ := b.exists_below more
      obtain ⟨done, row, column, lines⟩ := b.delete_of_row_lt full rows
      obtain ⟨hb, ha⟩ := sides_of_lines lines (row.trans b.length_above.symm)
        (column.trans full)
      exact .inr ⟨'\n', done, by rw [hb, before, full]; simp, by rw [ha, after, rows, full]; simp⟩
    · have length : lineLength b.lines b.row = b.current.length := lineLength_of_lt b.row_lt
      refine .inl ⟨?_, by simp [delete, length, full, more]⟩
      have last : b.below = [] := by simp [below]; omega
      simp [after, last, full]

/- A movement leaves the rows as they are and carries one character across the cursor. -/
theorem side_moveLeft (b : EditBuffer) :
    (b.before = [] ∧ b.moveLeft = b) ∨
      ∃ c, b.before = b.moveLeft.before ++ [c] ∧ b.moveLeft.after = c :: b.after := by
  by_cases column_pos : 0 < b.column
  · have inside := b.column_le_current
    have lines : b.moveLeft.lines = b.above ++ (b.current.take (b.column - 1) ++
        b.current.drop (b.column - 1)) :: b.below := by
      simp [moveLeft, column_pos, ← lines_eq]
    obtain ⟨hb, ha⟩ := sides_of_lines lines (by simp [moveLeft, column_pos, length_above])
      (by simp [moveLeft, column_pos]; omega)
    have last : b.current.take b.column =
        b.current.take (b.column - 1) ++ [b.current[b.column - 1]] := by
      rw [← List.take_succ_eq_append_getElem, Nat.sub_add_cancel column_pos]
    have first : b.current.drop (b.column - 1) =
        b.current[b.column - 1] :: b.current.drop b.column := by
      rw [List.drop_eq_getElem_cons (by omega), Nat.sub_add_cancel column_pos]
    exact .inr ⟨_, by rw [hb, before, last, List.append_assoc], by rw [ha, first]; rfl⟩
  · have start : b.column = 0 := by omega
    by_cases row_pos : 0 < b.row
    · obtain ⟨above, line, rows, size⟩ := b.exists_above row_pos
      have split : b.lines = above ++ line :: b.current :: b.below := by
        rw [lines_eq, rows, List.append_assoc, List.singleton_append]
      have lines : b.moveLeft.lines = above ++ (line ++ []) :: b.current :: b.below := by
        simp [moveLeft, start, row_pos, split]
      obtain ⟨hb, ha⟩ := sides_of_lines lines (by simp [moveLeft, start, size])
        (by simp [moveLeft, start, size, split, lineLength])
      exact .inr ⟨'\n', by rw [hb, before, rows, start]; simp, by rw [ha, after, start]; simp⟩
    · have top : b.row = 0 := by omega
      refine .inl ⟨?_, by simp [moveLeft, start, top]⟩
      simp [before, above, start, top]

theorem side_moveRight (b : EditBuffer) :
    (b.after = [] ∧ b.moveRight = b) ∨
      ∃ c, b.moveRight.before = b.before ++ [c] ∧ b.after = c :: b.moveRight.after := by
  have length : lineLength b.lines b.row = b.current.length := lineLength_of_lt b.row_lt
  by_cases inside : b.column < b.current.length
  · have lines : b.moveRight.lines = b.above ++ (b.current.take (b.column + 1) ++
        b.current.drop (b.column + 1)) :: b.below := by
      simp [moveRight, length, inside, ← lines_eq]
    have column : b.moveRight.column = b.column + 1 := by simp [moveRight, length, inside]
    obtain ⟨hb, ha⟩ := sides_of_lines lines
      (by simp [moveRight, length, inside, length_above])
      (by rw [column, List.length_take]; omega)
    have last := List.take_succ_eq_append_getElem inside
    have first : b.current.drop b.column =
        b.current[b.column] :: b.current.drop (b.column + 1) := List.drop_eq_getElem_cons inside
    exact .inr ⟨_, by rw [hb, before, last, List.append_assoc], by rw [ha, after, first]; rfl⟩
  · have full : b.column = b.current.length := by
      have := b.column_le_current
      omega
    by_cases more : b.row + 1 < b.lines.length
    · obtain ⟨line, below, rows⟩ := b.exists_below more
      have same : b.moveRight.lines = b.lines := by simp [moveRight, length, full, more]
      have lines : b.moveRight.lines = (b.above ++ [b.current]) ++ ([] ++ line) :: below := by
        rw [same, lines_eq, rows]
        simp
      obtain ⟨hb, ha⟩ := sides_of_lines lines
        (by simp [moveRight, length, full, more, length_above])
        (by simp [moveRight, length, full, more])
      exact .inr ⟨'\n', by rw [hb, before, full]; simp, by rw [ha, after, rows, full]; simp⟩
    · refine .inl ⟨?_, by simp [moveRight, length, full, more]⟩
      have last : b.below = [] := by simp [below]; omega
      simp [after, last, full]

theorem flat_eq (b : EditBuffer) : b.flat = ⟨b.before ++ b.after, b.before.length⟩ := by
  rw [flat, text_eq, length_before]

theorem insertIdx_length (front back : Text) (c : Char) :
    (front ++ back).insertIdx front.length c = front ++ c :: back := by
  induction front with
  | nil => rfl
  | cons first front ih => simpa using ih

theorem eraseIdx_length (front back : Text) (c : Char) :
    (front ++ c :: back).eraseIdx front.length = front ++ back := by
  rw [List.eraseIdx_append_of_length_le (Nat.le_refl _), Nat.sub_self]
  rfl

theorem flat_insert (b : EditBuffer) (c : Char) : (b.insert c).flat = b.flat.insert c := by
  obtain ⟨hb, ha⟩ := b.side_insert c
  simp [flat_eq, FlatText.insert, hb, ha, insertIdx_length]

theorem flat_insertBreak (b : EditBuffer) : b.insertBreak.flat = b.flat.insert '\n' := by
  obtain ⟨hb, ha⟩ := b.side_insertBreak
  simp [flat_eq, FlatText.insert, hb, ha, insertIdx_length]

theorem flat_backspace (b : EditBuffer) :
    if b.offset = 0 then b.backspace = (false, b)
    else b.backspace.1 = true ∧ b.backspace.2.flat = b.flat.backspace := by
  rw [← length_before]
  rcases b.side_backspace with ⟨none, same⟩ | ⟨c, done, hb, ha⟩
  · simp [none, same]
  · simp [flat_eq, FlatText.backspace, done, hb, ha, eraseIdx_length]

theorem flat_delete (b : EditBuffer) :
    if b.offset = b.text.length then b.delete = (false, b)
    else b.delete.1 = true ∧ b.delete.2.flat = b.flat.delete := by
  rw [← length_before, text_eq]
  rcases b.side_delete with ⟨none, same⟩ | ⟨c, done, hb, ha⟩
  · simp [none, same]
  · simp [flat_eq, FlatText.delete, done, hb, ha, eraseIdx_length]

theorem flat_moveLeft (b : EditBuffer) : b.moveLeft.flat = b.flat.moveLeft := by
  rcases b.side_moveLeft with ⟨none, same⟩ | ⟨c, hb, ha⟩
  · simp [flat_eq, FlatText.moveLeft, none, same]
  · simp [flat_eq, FlatText.moveLeft, hb, ha]

theorem flat_moveRight (b : EditBuffer) : b.moveRight.flat = b.flat.moveRight := by
  rcases b.side_moveRight with ⟨none, same⟩ | ⟨c, hb, ha⟩
  · simp [flat_eq, FlatText.moveRight, none, same]
  · simp [flat_eq, FlatText.moveRight, hb, ha]

end EditBuffer
end ArrayReplay
