import ArrayReplay.Terminal.Picture
import ArrayReplay.Terminal.Wrap
import ArrayReplay.View.Theme

namespace ArrayReplay.View.HelpPane

open Terminal

def heading (text : String) : Line := [⟨text.toList, (Style.ofColor Theme.primary).inBold⟩]

def empty : Line := []

def sample (title : String) (statements : List String) : List Line :=
  [⟨("  " ++ title ++ ":").toList, .ofColor Theme.secondary⟩] ::
    statements.map fun s => [⟨("    " ++ s).toList, .ofColor Theme.string⟩]

def key (name description : String) : Line :=
  let name := name.toList
  [⟨[' ', ' '] ++ name ++ List.replicate (16 - name.length) ' ', .ofColor Theme.method⟩,
    ⟨description.toList, .ofColor Theme.text⟩]

def tip (text : String) : Line :=
  [⟨"  • ".toList, .ofColor Theme.comment⟩, ⟨text.toList, .ofColor Theme.text⟩]

def overview : String :=
  "Write int, char and double array declarations and updates in the editor. " ++
  "Live mode charts the whole program as you type; step mode replays it one " ++
  "statement at a time."

def lines : List Line :=
  [heading "Overview", [⟨overview.toList, .plain⟩], empty, heading "Usage examples"] ++
  sample "Integer array"
    ["int numbers[5] = \x7b10, 20, 30, 40, 50\x7d;", "numbers[2] = 85;"] ++
  sample "Character array" ["char word[4] = \"byte\";", "word[0] = 'j';"] ++
  sample "Double array" ["double values[3] = \x7b1.5, 2.7, 3.14\x7d;", "values[1] = 4.2;"] ++
  [[⟨"    a.insert(0, 4);  a.remove(1);  a.delete(1);".toList, .ofColor Theme.string⟩], empty,
    heading "Keys",
    key "Tab" "switch focus between editor and chart",
    key "Ctrl-T / m" "toggle live and step mode",
    key "Ctrl-N / n" "step forward",
    key "Ctrl-B / b" "step back",
    key "Ctrl-R / r" "back to the start",
    key "Ctrl-P / space" "play or pause",
    key "←/→" "select a bar (chart)",
    key "↑/↓" "raise or lower the selected bar (chart, live mode)",
    key "[ / ]" "previous or next array (chart)",
    key "F1 / ?" "toggle this help", empty,
    heading "Tips",
    tip "Lines starting with // are ignored, as are blank lines.",
    tip "Indices are validated: out-of-range updates, inserts and removes raise an error.",
    tip "Declared sizes are checked against the initializer list.",
    tip "Char arrays chart the ASCII code of each character.",
    tip "Every statement must end with ';'. `values[1] = 9` is not applied until it does."]

def popup (width height : Nat) : Picture :=
  box " Help (F1 / Esc to close) ".toList (Theme.borderStyle true) width height fun w h =>
    let rows := if w ≤ 2 then [] else lines.flatMap fun l => wrap (w - 2) (Line.cells .plain l)
    .ofRows w h .plain (rows.map fun row => Cell.blank .plain :: row)

/-- A picture with the help over its middle: 70 percent of its width, 80 percent of its height. -/
def onto (width height : Nat) (under : Picture) : Picture :=
  let x := share width 15
  let y := share height 10
  .overlay x y (popup (share width 85 - x) (share height 90 - y)) under

end ArrayReplay.View.HelpPane
