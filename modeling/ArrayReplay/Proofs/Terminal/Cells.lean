import ArrayReplay.Terminal.Picture

namespace ArrayReplay.Terminal

theorem getElem?_fit {width x : Nat} (inside : x < width) (base : Style) (cells : List Cell) :
    (fit width base cells)[x]? = some (cells[x]?.getD (.blank base)) := by
  by_cases short : x < cells.length
  · rw [fit, List.getElem?_append_left (by rw [List.length_take]; omega), List.getElem?_take,
      if_pos inside, List.getElem?_eq_getElem short, Option.getD_some]
  · have filled : x - (cells.take width).length < width - cells.length := by
      rw [List.length_take]
      omega
    rw [fit, List.getElem?_append_right (by rw [List.length_take]; omega),
      List.getElem?_replicate, if_pos filled, List.getElem?_eq_none (by omega), Option.getD_none]

theorem getElem?_ends {inner x : Nat} (inside : x < inner) (left right : Char) (style : Style)
    (middle : List Cell) :
    (ends left right style (inner + 2) middle)[x + 1]? =
      some (middle[x]?.getD (.blank style)) := by
  rw [ends, List.cons_append, List.getElem?_cons_succ,
    List.getElem?_append_left (by rw [length_fit]; exact inside), getElem?_fit inside]

theorem getElem?_map_take_append {α β : Type} {l : List α} {a : α} {n y : Nat}
    (found : l[y]? = some a) (room : y < n) (draw : α → β) (below : List β) :
    ((l.take n).map draw ++ below)[y]? = some (draw a) := by
  obtain ⟨held, -⟩ := List.getElem?_eq_some_iff.mp found
  rw [List.getElem?_append_left (by rw [List.length_map, List.length_take]; omega),
    List.getElem?_map, List.getElem?_take, if_pos room, found, Option.map_some]

theorem glyphs_of_not_mem {t : Text} (whole : '\n' ∉ t) : glyphs t = t := by
  induction t with
  | nil => rfl
  | cons c rest ih =>
    obtain ⟨here, later⟩ := not_or.mp (mt List.mem_cons.mpr whole)
    have shown : ¬ (c = '\n' ∨ (c = '\r' ∧ rest.head? = some '\n')) := by
      rintro (same | ⟨-, head⟩)
      · exact here same.symm
      · exact later (List.mem_of_mem_head? head)
    rw [glyphs, if_neg shown, ih later]

namespace Line

theorem text_cons (s : Span) (line : Line) : Line.text (s :: line) = s.text ++ Line.text line := rfl

theorem text_append (front back : Line) :
    Line.text (front ++ back) = Line.text front ++ Line.text back :=
  List.flatMap_append

theorem map_glyph_cells (base : Style) {line : Line} (whole : '\n' ∉ line.text) :
    (line.cells base).map Cell.glyph = line.text := by
  induction line with
  | nil => rfl
  | cons s line ih =>
    rw [text_cons, List.mem_append, not_or] at whole
    rw [text_cons, ← ih whole.2, ← glyphs_of_not_mem whole.1]
    simp [cells, Function.comp_def, glyphs_of_not_mem whole.1]

theorem glyph_cell (base blank : Style) {line : Line} (whole : '\n' ∉ line.text) (x : Nat) :
    ((line.cells base)[x]?.getD (.blank blank)).glyph = line.text[x]?.getD ' ' := by
  rw [← map_glyph_cells base whole, List.getElem?_map]
  cases (line.cells base)[x]? <;> rfl

end Line

namespace Picture

def cell? (p : Picture) (x y : Nat) : Option Cell := p[y]?.bind (·[x]?)

variable {width height x y : Nat} {c : Cell}

theorem cell?_ofRows {rows : List (List Cell)} {cells : List Cell} (row : rows[y]? = some cells)
    (wide : x < width) (high : y < height) (base : Style) :
    (ofRows width height base rows).cell? x y = some (cells[x]?.getD (.blank base)) := by
  rw [cell?, ofRows, getElem?_map_take_append row high, Option.bind_some, getElem?_fit wide]

theorem box_eq (title : Text) (style : Style) (width height : Nat) (inside : Nat → Nat → Picture) :
    ∃ top bottom, box title style (width + 2) (height + 2) inside =
      top :: (((inside width height).take height).map (ends '│' '│' style (width + 2)) ++
        [bottom]) :=
  ⟨_, _, rfl⟩

theorem cell?_box (title : Text) (style : Style) {inside : Nat → Nat → Picture}
    (held : (inside width height).cell? x y = some c) (wide : x < width) (high : y < height) :
    (box title style (width + 2) (height + 2) inside).cell? (x + 1) (y + 1) = some c := by
  obtain ⟨row, found, cell⟩ := Option.bind_eq_some_iff.mp held
  obtain ⟨top, bottom, whole⟩ := box_eq title style width height inside
  rw [whole, cell?, List.getElem?_cons_succ, getElem?_map_take_append found high, Option.bind_some,
    getElem?_ends wide, cell, Option.getD_some]

end Picture
end ArrayReplay.Terminal
