import ArrayReplay.Session.Frame
import Mathlib.Data.Nat.PSub

namespace ArrayReplay

/-- Of the rows from `offset` on, `visible` are shown, and this is one of them. -/
def InView (offset visible row : Nat) : Prop := offset ≤ row ∧ row < offset + visible

/-- The window from `offset` on holds the row that matters, if one does. It is the whole where that has
room, and ends with the whole at the latest else. -/
structure Window (offset visible total : Nat) (row : Option Nat) : Prop where
  inView : ∀ r, row = some r → InView offset visible r
  whole : total ≤ visible → offset = 0
  filled : visible < total → offset + visible ≤ total

theorem getElem?_window {α : Type} {l : List α} {offset visible row : Nat}
    (inView : InView offset visible row) :
    ((l.drop offset).take visible)[row - offset]? = l[row]? := by
  obtain ⟨above, below⟩ := inView
  rw [List.getElem?_take, if_pos (by omega), List.getElem?_drop, Nat.add_sub_cancel' above]

namespace Chart

/-- The first bar on display, by differences that may not exist. -/
def windowStart? (length visible selected : Nat) : Option Nat :=
  if length ≤ visible ∨ visible = 0 then some 0
  else (Nat.psub length visible).map (min (selected - visible / 2))

variable {length visible selected : Nat}

theorem windowStart?_eq (length visible selected : Nat) :
    windowStart? length visible selected = some (windowStart length visible selected) := by
  unfold windowStart? windowStart
  split
  · rfl
  · rw [Nat.psub_eq_sub (by omega), Option.map_some]

theorem window_windowStart (pos : 0 < visible) (inside : selected < length) :
    Window (windowStart length visible selected) visible length (some selected) := by
  unfold windowStart
  constructor
  · rintro r ⟨⟩
    constructor <;> split <;> omega
  · intro room
    rw [if_pos (.inl room)]
  · intro short
    split <;> omega

end Chart

namespace View

open Terminal

def moved? (offset visible row : Nat) : Option Nat :=
  if row < offset then some row
  else if offset + visible ≤ row then Nat.psub (row + 1) visible
  else some offset

namespace Editor

variable {offset visible row : Nat}

theorem moved?_eq (offset visible row : Nat) :
    moved? offset visible row = some (scroll offset visible row) := by
  unfold moved? scroll
  split
  · rfl
  · split
    · exact Nat.psub_eq_sub (by omega)
    · rfl

theorem inView_scroll (pos : 0 < visible) : InView (scroll offset visible row) visible row := by
  unfold scroll
  constructor <;> split <;> first | omega | (split <;> omega)

theorem scroll_of_inView (inView : InView offset visible row) : scroll offset visible row = offset := by
  obtain ⟨above, below⟩ := inView
  rw [scroll, if_neg (by omega), if_neg (by omega)]

theorem visibleRows_pos (height : Nat) : 0 < visibleRows height := Nat.le_max_left 1 _

theorem scroll_scroll (pos : 0 < visible) :
    scroll (scroll offset visible row) visible row = scroll offset visible row :=
  scroll_of_inView (inView_scroll pos)

end Editor

namespace ChartPane

variable (p : ChartPane) (values : List Value) (width : Nat)

/-- The bars that are handed on are those of the elements in a window around the selected one. -/
structure ShowsFrom (start : Nat) : Prop where
  start_eq : Chart.windowStart? values.length (visibleBars width (barWidth values)) p.selected =
    some start
  window : Window start (visibleBars width (barWidth values)) values.length (some p.selected)
  length_eq : (p.shownBars values width).length =
    min (visibleBars width (barWidth values)) values.length
  bars : ∀ i v, InView start (visibleBars width (barWidth values)) i → values[i]? = some v →
    ∃ b : Bar, (p.shownBars values width)[i - start]? = some b ∧
      (Chart.heights values)[i]? = some b.height ∧
      b.caption = Chart.caption v ∧ b.label = Chart.label i v

theorem visibleBars_pos (width barWidth : Nat) : 0 < visibleBars width barWidth :=
  Nat.le_max_left 1 _

theorem length_bars : (p.bars values).length = values.length := by
  rw [bars, List.length_mapIdx, List.length_zip, Chart.heights, List.length_map, Nat.min_self]

theorem getElem?_bars {i : Nat} {v : Value} (element : values[i]? = some v) :
    ∃ b : Bar, (p.bars values)[i]? = some b ∧ (Chart.heights values)[i]? = some b.height ∧
      b.caption = Chart.caption v ∧ b.label = Chart.label i v := by
  obtain ⟨h, height⟩ : ∃ h, (Chart.heights values)[i]? = some h := by
    rw [Chart.heights, List.getElem?_map, element]
    exact ⟨_, rfl⟩
  have pair : (values.zip (Chart.heights values))[i]? = some (v, h) :=
    List.getElem?_zip_eq_some.mpr ⟨element, height⟩
  rw [bars, List.getElem?_mapIdx, pair]
  exact ⟨_, rfl, height, rfl, rfl⟩

theorem showsFrom_windowStart (inside : p.selected < values.length) :
    p.ShowsFrom values width
      (Chart.windowStart values.length (visibleBars width (barWidth values)) p.selected) := by
  have window := Chart.window_windowStart (visibleBars_pos width (barWidth values)) inside
  constructor
  · exact Chart.windowStart?_eq _ _ _
  · exact window
  · have whole := window.whole
    have filled := window.filled
    rw [shownBars, List.length_take, List.length_drop, length_bars]
    omega
  · intro i v inView element
    obtain ⟨b, bar, parts⟩ := getElem?_bars p values element
    exact ⟨b, (getElem?_window inView).trans bar, parts⟩

end ChartPane

namespace ArraysPane

def keepVisible? (offset total visible : Nat) (row : Option Nat) : Option Nat :=
  if total ≤ visible then some 0
  else do
    let moved ← match row with
      | some r => moved? offset visible r
      | none => some offset
    let last ← Nat.psub total visible
    return min moved last

variable {offset total visible height : Nat} {row : Option Nat} {p : ArraysPane}

theorem keepVisible_eq (offset total visible : Nat) (row : Option Nat) :
    keepVisible offset total visible row =
      if total ≤ visible then 0
      else min (row.elim offset (Editor.scroll offset visible)) (total - visible) := by
  cases row <;> rfl

theorem keepVisible?_eq (offset total visible : Nat) (row : Option Nat) :
    keepVisible? offset total visible row = some (keepVisible offset total visible row) := by
  rw [keepVisible_eq, keepVisible?]
  split
  · rfl
  · rw [Nat.psub_eq_sub (by omega)]
    cases row with
    | none => rfl
    | some r =>
      dsimp only
      rw [Editor.moved?_eq]
      rfl

theorem window_keepVisible (pos : 0 < visible) (inside : ∀ r, row = some r → r < total) :
    Window (keepVisible offset total visible row) visible total row := by
  rw [keepVisible_eq]
  constructor
  · rintro r rfl
    have bound := inside r rfl
    obtain ⟨above, below⟩ : InView (Editor.scroll offset visible r) visible r :=
      Editor.inView_scroll pos
    rw [Option.elim_some]
    constructor <;> split <;> omega
  · exact fun room => if_pos room
  · intro short
    rw [if_neg (by omega)]
    omega

theorem keepVisible_of_window (window : Window offset visible total row) :
    keepVisible offset total visible row = offset := by
  rw [keepVisible_eq]
  have moved : row.elim offset (Editor.scroll offset visible) = offset := by
    cases row with
    | none => rfl
    | some r => exact Editor.scroll_of_inView (window.inView r rfl)
  rw [moved]
  split
  · next room => exact (window.whole room).symm
  · next short =>
    have filled := window.filled (by omega)
    omega

theorem visibleRows_pos (height : Nat) : 0 < visibleRows height := Nat.le_max_left 1 _

theorem currentRow?_eq_some {r : Nat} (found : p.currentRow? = some r) :
    ∃ name a, p.current = some name ∧ p.environment.arrays[r]? = some (name, a) := by
  obtain ⟨name, current, row⟩ := Option.bind_eq_some_iff.mp found
  obtain ⟨inside, same, -⟩ := List.findIdx?_eq_some_iff_getElem.mp row
  have named : p.environment.names[r]? = some name :=
    List.getElem?_eq_some_iff.mpr ⟨inside, eq_of_beq same⟩
  obtain ⟨e, entry, rfl⟩ := Option.map_eq_some_iff.mp ((List.getElem?_map).symm.trans named)
  exact ⟨e.1, e.2, current, entry⟩

theorem exists_currentRow {name : Text} (current : p.current = some name)
    (member : name ∈ p.environment.names) : ∃ r, p.currentRow? = some r := by
  rw [currentRow?, current, Option.bind_some]
  exact Option.isSome_iff_exists.mp
    (List.findIdx?_isSome.trans (List.any_eq_true.mpr ⟨name, member, beq_self_eq_true name⟩))

/-- A pane with arrays shows the current one, in a window that is moved from a given offset. -/
structure ShowsFrom (p : ArraysPane) (offset height new : Nat) : Prop where
  offset_eq : keepVisible? offset p.environment.length (visibleRows height) p.currentRow? = some new
  window : Window new (visibleRows height) p.environment.length p.currentRow?
  current : ∀ name, p.current = some name → name ∈ p.environment.names →
    ∃ a, (name, a) ∈ (p.environment.arrays.drop new).take (visibleRows height)

theorem window_scroll (any : p.environment.isEmpty = false) :
    Window (p.scroll offset height) (visibleRows height) p.environment.length p.currentRow? := by
  rw [scroll, any, if_neg Bool.false_ne_true]
  apply window_keepVisible (visibleRows_pos height)
  intro r found
  obtain ⟨name, a, -, entry⟩ := currentRow?_eq_some found
  exact (List.getElem?_eq_some_iff.mp entry).1

theorem showsFrom_scroll (any : p.environment.isEmpty = false) :
    p.ShowsFrom offset height (p.scroll offset height) where
  offset_eq := by
    rw [scroll, any, if_neg Bool.false_ne_true]
    exact keepVisible?_eq _ _ _ _
  window := window_scroll any
  current name current member := by
    obtain ⟨r, found⟩ := exists_currentRow current member
    obtain ⟨other, a, same, entry⟩ := currentRow?_eq_some found
    obtain rfl := Option.some.inj (same.symm.trans current)
    have inView : InView (p.scroll offset height) (visibleRows height) r :=
      (window_scroll any).inView r found
    exact ⟨a, List.mem_of_getElem? ((getElem?_window inView).trans entry)⟩

theorem scroll_of_isEmpty (empty : p.environment.isEmpty = true) : p.scroll offset height = offset := by
  rw [scroll, if_pos empty]

theorem scroll_of_window
    (window : Window offset (visibleRows height) p.environment.length p.currentRow?) :
    p.scroll offset height = offset := by
  unfold scroll
  split
  · rfl
  · exact keepVisible_of_window window

theorem scroll_scroll (p : ArraysPane) (offset height : Nat) :
    p.scroll (p.scroll offset height) height = p.scroll offset height := by
  cases empty : p.environment.isEmpty with
  | true => rw [scroll_of_isEmpty empty, scroll_of_isEmpty empty]
  | false => exact scroll_of_window (window_scroll empty)

end ArraysPane
end View

namespace Session
open View

theorem scroll_scroll (height : Nat) (s : Session) :
    (s.scroll height).scroll height = s.scroll height := by
  have editor : Editor.scroll (s.scroll height).editorOffset
      (Editor.visibleRows (editorHeight height)) s.buffer.row = (s.scroll height).editorOffset :=
    Editor.scroll_scroll (Editor.visibleRows_pos _)
  have arrays : s.arraysPane.scroll (s.scroll height).arraysOffset (arraysHeight height) =
      (s.scroll height).arraysOffset :=
    ArraysPane.scroll_scroll _ _ _
  calc (s.scroll height).scroll height
      = { s with
          editorOffset := Editor.scroll (s.scroll height).editorOffset
            (Editor.visibleRows (editorHeight height)) s.buffer.row
          arraysOffset :=
            s.arraysPane.scroll (s.scroll height).arraysOffset (arraysHeight height) } := rfl
    _ = s.scroll height := by
      rw [editor, arrays]
      rfl

theorem draw_draw (width height : Nat) (s : Session) :
    (s.draw width height).2.2.draw width height = s.draw width height := by
  change (s.scroll height).draw width height = s.draw width height
  unfold draw
  rw [scroll_scroll]

end Session

namespace View

/-- On a pane of any size, wherever it was scrolled to before: the bars that the chart hands on are those
of a window of the array that holds the selected one; the arrays pane, if there are arrays, shows the
current one and never scrolls past the last; the editor shows the cursor's row. A pane that shows what it
must is not moved, and drawing again draws the same. -/
theorem windows_hold :
    (∀ (p : ChartPane) (values : List Value) (width : Nat), p.selected < values.length →
      ∃ start, p.ShowsFrom values width start) ∧
    (∀ (p : ArraysPane) (offset height : Nat),
      let new := p.scroll offset height
      (p.environment.isEmpty = true → new = offset) ∧
      (p.environment.isEmpty = false → p.ShowsFrom offset height new) ∧
      (Window offset (ArraysPane.visibleRows height) p.environment.length p.currentRow? →
        new = offset) ∧
      p.scroll new height = new) ∧
    (∀ offset height row : Nat,
      let visible := Editor.visibleRows height
      let new := Editor.scroll offset visible row
      moved? offset visible row = some new ∧ InView new visible row ∧
      (InView offset visible row → new = offset) ∧
      Editor.scroll new visible row = new) ∧
    ∀ (s : Session) (width height : Nat),
      (s.draw width height).2.2.draw width height = s.draw width height := by
  refine ⟨fun p values width inside => ⟨_, p.showsFrom_windowStart values width inside⟩,
    fun p offset height => ?_, fun offset height row => ?_, fun s width height => s.draw_draw width height⟩
  · exact ⟨ArraysPane.scroll_of_isEmpty, ArraysPane.showsFrom_scroll, ArraysPane.scroll_of_window,
      p.scroll_scroll offset height⟩
  · have pos := Editor.visibleRows_pos height
    exact ⟨Editor.moved?_eq _ _ _, Editor.inView_scroll pos, Editor.scroll_of_inView,
      Editor.scroll_scroll pos⟩

/-- A pane without arrays stays where it was scrolled to, though all of its rows, none, have room. -/
theorem not_window_of_isEmpty :
    let p : ArraysPane := ⟨.empty, none⟩
    p.scroll 3 5 = 3 ∧
    ¬ ∀ (p : ArraysPane) (offset height : Nat), Window (p.scroll offset height)
      (ArraysPane.visibleRows height) p.environment.length p.currentRow? := by
  refine ⟨rfl, fun all => ?_⟩
  have unmoved : (3 : Nat) = 0 := (all ⟨.empty, none⟩ 3 5).whole (Nat.zero_le _)
  cases unmoved

end View
end ArrayReplay
