import ArrayReplay.Proofs.Notation.Written
import ArrayReplay.Proofs.View.Highlighting
import ArrayReplay.Proofs.View.Scrolling

/-! The place of the terminal's cursor in the editor pane. A line is drawn behind its mark and its number,
as wide as they are; the cursor is placed behind a gutter of fixed width, and in 16 bits. The two agree
for numbers of four digits, and where the sum does not wrap round, or where the cursor is held back by
the border. -/
namespace ArrayReplay.View.Editor

open Terminal Terminal.Picture

/-- The columns in front of a line as it is drawn: its mark and its number. -/
def gutterOf (line : Nat) : Nat := 1 + (number line).length

/-- The column of the character under the cursor, counted from the left border of the pane. -/
def place (e : Editor) : Nat := 1 + gutterOf (e.row + 1) + e.column

variable {e : Editor} {text : Text} {offset row line width height : Nat}

theorem length_number (line : Nat) :
    (number line).length = max 4 (Numeral.ofNat line).length + 1 := by
  simp only [number, List.length_append, List.length_replicate, List.length_singleton]
  omega

theorem gutter_le_gutterOf (line : Nat) : gutter ≤ gutterOf line := by
  rw [gutterOf, length_number]
  change 6 ≤ _
  omega

/-- The gutter is as wide as it is taken to be for lines with a number of four digits. -/
theorem gutterOf_eq_iff : gutterOf line = gutter ↔ line < 10000 := by
  have digits : (Numeral.ofNat line).length ≤ 4 ↔ line < 10000 :=
    Nat.length_toDigits_le_iff (by decide) (by decide)
  rw [← digits, gutterOf, length_number]
  change _ = 6 ↔ _
  omega

theorem feed_not_mem_number (line : Nat) : '\n' ∉ number line := by
  simp only [number, List.mem_append, not_or]
  refine ⟨⟨fun member => ?_, Value.feed_not_mem_digits (Numeral.digits_ofNat line)⟩, by decide⟩
  exact absurd (List.eq_of_mem_replicate member) (by decide)

theorem exists_mark (e : Editor) (line : Nat) : ∃ c, c ≠ '\n' ∧ (e.mark line).text = [c] := by
  unfold mark
  split
  · exact ⟨'●', by decide, rfl⟩
  · exact ⟨'●', by decide, rfl⟩
  · exact ⟨'◦', by decide, rfl⟩
  · split
    · exact ⟨'▶', by decide, rfl⟩
    · exact ⟨' ', by decide, rfl⟩

theorem text_drawnLine (e : Editor) (line : Nat) (text : Text) :
    Line.text (e.drawnLine line text) = (e.mark line).text ++ (number line ++ text) := by
  have content : Line.text (highlight text) = text := Highlight.text_spans (.word []) text
  unfold drawnLine
  dsimp only
  split
  · rw [Line.text_cons, Line.text_cons, Line.text, List.flatMap_map]
    exact congrArg (fun t => _ ++ (_ ++ t)) content
  · rw [Line.text_cons, Line.text_cons, content]

theorem feed_not_mem_drawnLine (whole : '\n' ∉ text) :
    '\n' ∉ Line.text (e.drawnLine line text) := by
  obtain ⟨c, other, mark⟩ := e.exists_mark line
  rw [text_drawnLine, mark, List.mem_append, List.mem_append, List.mem_singleton]
  rintro (same | number | inside)
  · exact other same.symm
  · exact feed_not_mem_number line number
  · exact whole inside

theorem length_front (e : Editor) (line : Nat) :
    ((e.mark line).text ++ number line).length = gutterOf line := by
  obtain ⟨c, -, mark⟩ := e.exists_mark line
  rw [mark, List.length_append, List.length_singleton, gutterOf]

theorem getElem?_drawnLines (found : e.lines[row]? = some text)
    (inView : InView offset visible row) :
    (e.drawnLines offset visible)[row - offset]? = some (e.drawnLine (row + 1) text) := by
  have here := (getElem?_window inView).trans found
  rw [drawnLines, List.getElem?_mapIdx, here, Option.map_some, Nat.add_sub_cancel' inView.1]

theorem glyph_picture (found : e.lines[row]? = some text) (whole : '\n' ∉ text)
    (inView : InView offset (visibleRows height) row) (high : 3 ≤ height) {k : Nat}
    (inside : 1 + gutterOf (row + 1) + k ≤ width - 2) :
    ((e.picture offset width height).cell? (1 + gutterOf (row + 1) + k)
      (1 + (row - offset))).map Cell.glyph = some (text[k]?.getD ' ') := by
  obtain ⟨w, rfl⟩ : ∃ w, width = w + 2 := ⟨width - 2, by omega⟩
  obtain ⟨h, rfl⟩ : ∃ h, height = h + 2 := ⟨height - 2, by omega⟩
  have below : row - offset < h := by
    have := inView.2
    unfold visibleRows at this
    omega
  have cells : ((e.drawnLines offset (visibleRows (h + 2))).map (Line.cells .plain))[row - offset]? =
      some (Line.cells .plain (e.drawnLine (row + 1) text)) := by
    rw [List.getElem?_map, getElem?_drawnLines found inView, Option.map_some]
  have held := cell?_ofRows cells (show gutterOf (row + 1) + k < w by omega) below .plain
  have shown : (e.picture offset (w + 2) (h + 2)).cell? (gutterOf (row + 1) + k + 1)
      (row - offset + 1) = _ := cell?_box _ _ held (by omega) below
  have behind : ((e.mark (row + 1)).text ++ number (row + 1) ++ text)[gutterOf (row + 1) + k]? =
      text[k]? := by
    rw [List.getElem?_append_right (by rw [length_front]; omega), length_front,
      Nat.add_sub_cancel_left]
  rw [Nat.add_comm 1 (row - offset), Nat.add_assoc 1, Nat.add_comm 1, shown, Option.map_some,
    Line.glyph_cell _ _ (feed_not_mem_drawnLine whole), text_drawnLine, ← List.append_assoc, behind]

theorem cursorAt_eq (left top : Nat) (e : Editor) (offset width : Nat) :
    e.cursorAt left top offset width =
      (min ((left + 1 + gutter + e.column) % 65536) (min (left + width) lastColumn - 2),
        top + 1 + (e.row - offset)) := by
  rw [cursorAt, UInt16.toNat_add, UInt16.toNat_ofNat', UInt16.toNat_ofNat', ← Nat.add_mod]

/-- The cursor is where it belongs exactly if the gutter is as wide as it is taken to be and the sum does
not wrap round, or if the border holds it back anyway. -/
theorem cursorAt_eq_iff (e : Editor) (left top offset : Nat) (wide : 3 ≤ width)
    (held : left + width ≤ lastColumn) :
    e.cursorAt left top offset width =
        (left + min e.place (width - 2), top + (1 + (e.row - offset))) ↔
      (e.row + 1 < 10000 ∧ left + 1 + gutter + e.column < 65536) ∨
        left + width - 2 ≤ (left + 1 + gutter + e.column) % 65536 := by
  have least := gutter_le_gutterOf (e.row + 1)
  rw [← gutterOf_eq_iff, cursorAt_eq, Nat.min_eq_left held, Prod.mk.injEq, Nat.add_assoc top,
    and_iff_left rfl, place]
  have wraps := Nat.mod_le (left + 1 + gutter + e.column) 65536
  constructor
  · intro same
    by_cases back : left + width - 2 ≤ (left + 1 + gutter + e.column) % 65536
    · exact .inr back
    · refine .inl ⟨?_, ?_⟩ <;> omega
  · rintro (⟨fixed, small⟩ | back)
    · rw [Nat.mod_eq_of_lt small, fixed]
      omega
    · omega

/-- A pane of any size, wherever it stands and was scrolled to before, shows the cursor's line behind the
gutter of its number, and the cursor is on the character it edits, or in the last column inside the
border where there is no room for that character, exactly for lines with a number of four digits and
columns that do not wrap round; else only where the border holds it back. -/
theorem cursorAt_on_character_iff (e : Editor) (found : e.lines[e.row]? = some text)
    (narrow : '\n' ∉ text) (left top previous : Nat) (wide : 3 ≤ width) (high : 3 ≤ height)
    (held : left + width ≤ lastColumn) :
    let offset := scroll previous (visibleRows height) e.row
    let y := 1 + (e.row - offset)
    y ≤ height - 2 ∧
    (∀ k, 1 + gutterOf (e.row + 1) + k ≤ width - 2 →
      ((e.picture offset width height).cell? (1 + gutterOf (e.row + 1) + k) y).map Cell.glyph =
        some (text[k]?.getD ' ')) ∧
    (e.cursorAt left top offset width = (left + min e.place (width - 2), top + y) ↔
      (e.row + 1 < 10000 ∧ left + 1 + gutter + e.column < 65536) ∨
        left + width - 2 ≤ (left + 1 + gutter + e.column) % 65536) := by
  intro offset y
  have inView : InView offset (visibleRows height) e.row := inView_scroll (visibleRows_pos height)
  refine ⟨?_, fun k inside => glyph_picture found narrow inView high inside,
    cursorAt_eq_iff e left top offset wide held⟩
  have below := inView.2
  unfold visibleRows at below
  omega

theorem cursorAt_on_character_second :
    let e : Editor :=
      ⟨["int a[1] = \x7b7\x7d;".toList, "a[0] = 5".toList], 1, 3, none, none, [], true⟩
    e.cursorAt 2 1 1 20 = (12, 2) ∧
      ((e.picture 1 20 6).cell? 10 1).map Cell.glyph = some ']' := by
  intro e
  obtain ⟨-, shown, placed⟩ :=
    cursorAt_on_character_iff e (show e.lines[e.row]? = some "a[0] = 5".toList from rfl) (by decide)
      2 1 5 (show 3 ≤ 20 by decide) (show 3 ≤ 6 by decide) (by decide)
  have narrow : gutterOf (e.row + 1) = 6 := gutterOf_eq_iff.mpr (by decide)
  have row : scroll 5 (visibleRows 6) e.row = 1 := rfl
  rw [row, place, narrow] at placed
  rw [row, narrow] at shown
  exact ⟨placed.mpr (.inl (by decide)), shown 3 (by decide)⟩

/-- In line 10000 the cursor is one column in front of the character it edits, and in column 65536 it is
at the start of the line. -/
theorem not_cursorAt_on_character :
    let e : Editor := ⟨List.replicate 10000 ['a'], 9999, 0, none, none, [], true⟩
    let f : Editor := ⟨[List.replicate 65537 'a'], 0, 65536, none, none, [], true⟩
    (e.cursorAt 0 0 9999 12 = (7, 1) ∧
      ((e.picture 9999 12 3).cell? 8 1).map Cell.glyph = some 'a') ∧
    f.cursorAt 0 0 0 12 = (7, 1) ∧
    ¬ ∀ (e : Editor) (text : Text) (left top previous width height : Nat),
      e.lines[e.row]? = some text → e.column ≤ text.length → '\n' ∉ text →
      3 ≤ width → 3 ≤ height → left + width ≤ lastColumn →
        e.cursorAt left top (scroll previous (visibleRows height) e.row) width =
          (left + min e.place (width - 2),
            top + (1 + (e.row - scroll previous (visibleRows height) e.row))) := by
  have line : (List.replicate 10000 ['a'])[9999]? = some ['a'] := by
    rw [List.getElem?_replicate]
    rfl
  have wide : gutterOf 10000 = 7 := by decide
  revert line
  generalize List.replicate 10000 ['a'] = lines
  intro line e f
  have inView : InView 9999 (visibleRows 3) 9999 := ⟨Nat.le_refl _, by decide⟩
  have shown : ((e.picture 9999 12 3).cell? (1 + gutterOf 10000 + 0) (1 + 0)).map Cell.glyph = _ :=
    glyph_picture (show e.lines[9999]? = _ from line) (by decide) inView (by decide)
      (by rw [wide]; decide)
  rw [wide] at shown
  refine ⟨⟨?_, shown⟩, ?_, fun all => ?_⟩
  · rw [cursorAt_eq]
    change (min ((0 + 1 + 6 + 0) % 65536) (min (0 + 12) 65535 - 2), 0 + 1 + (9999 - 9999)) = (7, 1)
    decide
  · rw [cursorAt_eq]
    change (min ((0 + 1 + 6 + 65536) % 65536) (min (0 + 12) 65535 - 2), 0 + 1 + (0 - 0)) = (7, 1)
    decide
  · have same := all e ['a'] 0 0 9999 12 3 line (Nat.zero_le _) (by decide) (by decide) (by decide)
      (by decide)
    rcases (cursorAt_eq_iff e 0 0 _ (by decide) (by decide)).mp same with ⟨short, -⟩ | back
    · exact absurd short (show ¬ 9999 + 1 < 10000 by decide)
    · exact absurd back (show ¬ 0 + 12 - 2 ≤ (0 + 1 + 6 + 0) % 65536 by decide)

end ArrayReplay.View.Editor
