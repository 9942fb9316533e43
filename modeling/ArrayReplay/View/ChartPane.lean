import ArrayReplay.Array.ArrayValue
import ArrayReplay.Chart.Bars
import ArrayReplay.Terminal.BarChart
import ArrayReplay.View.Theme

namespace ArrayReplay.View

open Terminal

structure ChartPane where
  array : Option (Text × ArrayValue)
  selected : Nat
  focused : Bool

namespace ChartPane

def gap : Nat := 1

def title (p : ChartPane) : Text :=
  match p.array with
  | some (name, a) =>
    " Chart: ".toList ++ a.kind.keyword ++ ' ' :: name ++ '[' :: Numeral.ofNat a.length ++ [']', ' ']
  | none => " Chart ".toList

/-- The width of every bar: that of the widest text on or under one, within limits. -/
def barWidth (values : List Value) : Nat :=
  let widths := values.mapIdx fun i v =>
    max (Chart.caption v).length (Chart.label i v).length
  max 3 (min (widths.foldl max 0) 9)

def visibleBars (width barWidth : Nat) : Nat := max 1 (width / (barWidth + gap))

def bars (p : ChartPane) (values : List Value) : List Bar :=
  (values.zip (Chart.heights values)).mapIdx fun i (v, height) =>
    let color := if p.focused && i == p.selected then Theme.selectedBar else Theme.bar
    { height
      caption := Chart.caption v
      label := Chart.label i v
      style := .ofColor color
      captionStyle := .ofColors .black color }

def shownBars (p : ChartPane) (values : List Value) (width : Nat) : List Bar :=
  let visible := visibleBars width (barWidth values)
  ((p.bars values).drop (Chart.windowStart values.length visible p.selected)).take visible

def remark (text : Text) (width height : Nat) : Picture :=
  .ofRows width height (.ofColor Theme.comment)
    [Line.cells (.ofColor Theme.comment) [⟨text, .plain⟩]]

def picture (p : ChartPane) (width height : Nat) : Picture :=
  box p.title (Theme.borderStyle p.focused) width height fun w h =>
    match p.array with
    | none => remark "(no arrays declared)".toList w h
    | some (_, a) =>
      if a.isEmpty then remark "(empty array)".toList w h
      else
        barChart (barWidth a.elements) gap (.ofColor Theme.comment) (p.shownBars a.elements w) w h

end ChartPane
end ArrayReplay.View
