import ArrayReplay.Terminal.Picture

namespace ArrayReplay.Terminal

structure Bar where
  height : UInt64
  caption : Text
  label : Text
  style : Style
  captionStyle : Style

namespace Bar

def glyph (eighths : UInt64) : Char :=
  match eighths with
  | 0 => ' '
  | 1 => '▁'
  | 2 => '▂'
  | 3 => '▃'
  | 4 => '▄'
  | 5 => '▅'
  | 6 => '▆'
  | 7 => '▇'
  | _ => '█'

def centred (width : Nat) (top under : List Cell) : List Cell :=
  let start := (width - top.length) / 2
  under.take start ++ top ++ under.drop (start + top.length)

/-- The cells of a bar of so many eighths, `level` rows above its foot. -/
def rowAt (width : Nat) (eighths : UInt64) (b : Bar) (level : Nat) : List Cell :=
  let passed := UInt64.ofNat (8 * level)
  let rest := if passed < eighths then eighths - passed else 0
  List.replicate width ⟨glyph rest, b.style⟩

/-- A caption is drawn when it leaves room beside it, or when the row behind it is full. -/
def showsCaption (width : Nat) (eighths : UInt64) (b : Bar) : Bool :=
  b.height != 0 &&
    (decide (b.caption.length < width) || (b.caption.length == width && decide (8 ≤ eighths)))

def foot (width : Nat) (eighths : UInt64) (b : Bar) : List Cell :=
  if b.showsCaption width eighths then
    centred width (Line.cells b.style [⟨b.caption, b.captionStyle⟩]) (b.rowAt width eighths 0)
  else b.rowAt width eighths 0

def labelRow (width : Nat) (style : Style) (b : Bar) : List Cell :=
  centred width (Line.cells .plain [⟨b.label.take width, style⟩])
    (List.replicate width (.blank .plain))

end Bar

def barsShown (width barWidth gap n : Nat) : Nat :=
  if n * barWidth + (n - 1) * gap < width then n else (width + gap) / (barWidth + gap)

/-- The eighths of a row that each bar is high. The product is one of 64-bit words. -/
def eighths (rows : Nat) (bars : List Bar) : List UInt64 :=
  let top := bars.foldl (fun m b => max m b.height) 1
  bars.map fun b => b.height * UInt64.ofNat rows * 8 / top

/-- A bar chart without a box around it. The labels take the last row, if there are two or more. -/
def barChart (barWidth gap : Nat) (labelStyle : Style) (bars : List Bar) (width height : Nat) :
    Picture :=
  let labels := if 2 ≤ height then 1 else 0
  let rows := height - labels
  let shown := (bars.zip (eighths rows bars)).take (barsShown width barWidth gap bars.length)
  let row (cells : Bar × UInt64 → List Cell) : List Cell :=
    fit width .plain (shown.flatMap fun b => cells b ++ List.replicate gap (.blank .plain))
  let upper := (List.range (rows - 1)).map fun j =>
    row fun (b, n) => b.rowAt barWidth n (rows - 1 - j)
  let foot := if 0 < rows then [row fun (b, n) => b.foot barWidth n] else []
  let under := if 0 < labels then [row fun (b, _) => b.labelRow barWidth labelStyle] else []
  upper ++ foot ++ under

end ArrayReplay.Terminal
