import ArrayReplay.Proofs.Editing.FlatText
import ArrayReplay.Proofs.Text.Rows

namespace ArrayReplay.EditBuffer

/-- What can be done to a buffer. A line feed is not typed into a row: it breaks the row. -/
inductive Edit where
  | setText (text : Text)
  | insert (c : Char) (inRow : c ≠ '\n')
  | insertBreak
  | backspace
  | delete
  | left
  | right
  | up
  | down
  | home
  | toEnd

def edit (b : EditBuffer) : Edit → EditBuffer
  | .setText text => b.setText text
  | .insert c _ => b.insert c
  | .insertBreak => b.insertBreak
  | .backspace => b.backspace.2
  | .delete => b.delete.2
  | .left => b.moveLeft
  | .right => b.moveRight
  | .up => b.moveUp
  | .down => b.moveDown
  | .home => b.moveHome
  | .toEnd => b.moveEnd

def edits (b : EditBuffer) (es : List Edit) : EditBuffer := es.foldl edit b

theorem lines_moveLeft (b : EditBuffer) : b.moveLeft.lines = b.lines := by
  unfold moveLeft
  split
  · rfl
  · split <;> rfl

theorem lines_moveRight (b : EditBuffer) : b.moveRight.lines = b.lines := by
  unfold moveRight
  split
  · rfl
  · split <;> rfl

theorem lines_moveUp (b : EditBuffer) : b.moveUp.lines = b.lines := by
  unfold moveUp
  split <;> rfl

theorem lines_moveDown (b : EditBuffer) : b.moveDown.lines = b.lines := by
  unfold moveDown
  split <;> rfl

theorem unbroken_ofText (text : Text) : Text.Unbroken (ofText text).lines := by
  rw [ofText, lines_place (Text.rows_ne_nil text)]
  exact Text.unbroken_rows text

theorem unbroken_setText (text : Text) (b : EditBuffer) : Text.Unbroken (b.setText text).lines := by
  rw [setText, lines_place (Text.rows_ne_nil text)]
  exact Text.unbroken_rows text

section
variable {b : EditBuffer} (unbroken : Text.Unbroken b.lines)
include unbroken

/- The rows around the cursor are unbroken, and so are the halves of its own row. -/
theorem unbroken_parts :
    Text.Unbroken b.above ∧ '\n' ∉ b.current ∧ Text.Unbroken b.below := by
  rw [lines_eq, Text.unbroken_append, Text.unbroken_cons] at unbroken
  exact unbroken

theorem feed_not_mem_take (n : Nat) : '\n' ∉ b.current.take n :=
  fun mem => (unbroken_parts unbroken).2.1 (List.mem_of_mem_take mem)

theorem feed_not_mem_drop (n : Nat) : '\n' ∉ b.current.drop n :=
  fun mem => (unbroken_parts unbroken).2.1 (List.mem_of_mem_drop mem)

theorem unbroken_insert {c : Char} (inRow : c ≠ '\n') : Text.Unbroken (b.insert c).lines := by
  obtain ⟨above, -, below⟩ := unbroken_parts unbroken
  rw [lines_insert, Text.unbroken_append, Text.unbroken_cons]
  refine ⟨above, ?_, below⟩
  simp only [List.mem_append, List.mem_cons, not_or]
  exact ⟨feed_not_mem_take unbroken _, Ne.symm inRow, feed_not_mem_drop unbroken _⟩

theorem unbroken_insertBreak : Text.Unbroken b.insertBreak.lines := by
  obtain ⟨above, -, below⟩ := unbroken_parts unbroken
  simp only [lines_insertBreak, Text.unbroken_append, Text.unbroken_cons]
  exact ⟨⟨above, feed_not_mem_take unbroken _, by simp [Text.Unbroken]⟩,
    feed_not_mem_drop unbroken _, below⟩

theorem unbroken_backspace : Text.Unbroken b.backspace.2.lines := by
  obtain ⟨above, current, below⟩ := unbroken_parts unbroken
  by_cases column_pos : 0 < b.column
  · obtain ⟨-, -, -, lines⟩ := b.backspace_of_column_pos column_pos
    rw [lines, Text.unbroken_append, Text.unbroken_cons]
    refine ⟨above, ?_, below⟩
    simp only [List.mem_append, not_or]
    exact ⟨feed_not_mem_take unbroken _, feed_not_mem_drop unbroken _⟩
  · by_cases row_pos : 0 < b.row
    · obtain ⟨rows, line, split, size⟩ := b.exists_above row_pos
      obtain ⟨-, -, -, lines⟩ := b.backspace_of_row_pos (by omega) split size
      rw [split, Text.unbroken_append, Text.unbroken_cons] at above
      rw [lines, Text.unbroken_append, Text.unbroken_cons]
      refine ⟨above.1, ?_, below⟩
      simp only [List.mem_append, not_or]
      exact ⟨above.2.1, current⟩
    · simpa [backspace, column_pos, row_pos] using unbroken

theorem unbroken_delete : Text.Unbroken b.delete.2.lines := by
  obtain ⟨above, current, below⟩ := unbroken_parts unbroken
  have length : lineLength b.lines b.row = b.current.length := lineLength_of_lt b.row_lt
  by_cases inside : b.column < b.current.length
  · obtain ⟨-, -, -, lines⟩ := b.delete_of_column_lt inside
    rw [lines, Text.unbroken_append, Text.unbroken_cons]
    refine ⟨above, ?_, below⟩
    simp only [List.mem_append, not_or]
    exact ⟨feed_not_mem_take unbroken _, feed_not_mem_drop unbroken _⟩
  · by_cases more : b.row + 1 < b.lines.length
    · have full : b.column = b.current.length := by
        have := b.column_le_current
        omega
      obtain ⟨line, rows, split⟩ := b.exists_below more
      obtain ⟨-, -, -, lines⟩ := b.delete_of_row_lt full split
      rw [split, Text.unbroken_cons] at below
      rw [lines, Text.unbroken_append, Text.unbroken_cons]
      refine ⟨above, ?_, below.2⟩
      simp only [List.mem_append, not_or]
      exact ⟨current, below.1⟩
    · simpa [delete, length, inside, more] using unbroken

theorem unbroken_edit (e : Edit) : Text.Unbroken (b.edit e).lines := by
  cases e with
  | setText text => exact unbroken_setText text b
  | insert c inRow => exact unbroken_insert unbroken inRow
  | insertBreak => exact unbroken_insertBreak unbroken
  | backspace => exact unbroken_backspace unbroken
  | delete => exact unbroken_delete unbroken
  | left => rwa [edit, lines_moveLeft]
  | right => rwa [edit, lines_moveRight]
  | up => rwa [edit, lines_moveUp]
  | down => rwa [edit, lines_moveDown]
  | home => exact unbroken
  | toEnd => exact unbroken

theorem unbroken_edits (es : List Edit) : Text.Unbroken (b.edits es).lines := by
  induction es generalizing b with
  | nil => exact unbroken
  | cons e es ih => exact ih (unbroken_edit unbroken e)

end

/-- Any sequence of edits is a sequence of edits of one text at one offset, and keeps the cursor
inside the rows of that text. -/
theorem edits_flat (text : Text) (es : List Edit) :
    let b := (ofText text).edits es
    (b.lines ≠ [] ∧ (∀ line ∈ b.lines, '\n' ∉ line) ∧
      ∃ line, b.lines[b.row]? = some line ∧ b.column ≤ line.length) ∧
    (ofText text).flat = ⟨text, 0⟩ ∧
    (∀ t, (b.setText t).text = t) ∧
    (∀ c, (b.insert c).flat = b.flat.insert c) ∧
    b.insertBreak.flat = b.flat.insert '\n' ∧
    (if b.offset = 0 then b.backspace = (false, b)
      else b.backspace.1 = true ∧ b.backspace.2.flat = b.flat.backspace) ∧
    (if b.offset = b.text.length then b.delete = (false, b)
      else b.delete.1 = true ∧ b.delete.2.flat = b.flat.delete) ∧
    b.moveLeft.flat = b.flat.moveLeft ∧
    b.moveRight.flat = b.flat.moveRight ∧
    (b.moveUp.text = b.text ∧ b.moveDown.text = b.text ∧ b.moveHome.text = b.text ∧
      b.moveEnd.text = b.text) := by
  intro b
  have start : Text.Unbroken (ofText text).lines := by
    rw [ofText, lines_place (Text.rows_ne_nil text)]
    exact Text.unbroken_rows text
  refine ⟨⟨?_, unbroken_edits start es, ?_⟩, ?_, fun t => text_setText t b, b.flat_insert,
    b.flat_insertBreak, b.flat_backspace, b.flat_delete, b.flat_moveLeft, b.flat_moveRight,
    ?_, ?_, rfl, rfl⟩
  · exact List.ne_nil_of_length_pos (Nat.zero_lt_of_lt b.row_lt)
  · exact ⟨b.current, List.getElem?_eq_getElem b.row_lt, b.column_le_current⟩
  · have first : (ofText text).offset = 0 := by simp [offset, above, ofText, place]
    rw [flat, text_ofText, first]
  · rw [EditBuffer.text, lines_moveUp, EditBuffer.text]
  · rw [EditBuffer.text, lines_moveDown, EditBuffer.text]

end ArrayReplay.EditBuffer
