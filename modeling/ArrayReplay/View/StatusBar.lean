import ArrayReplay.Playing.Playback
import ArrayReplay.Terminal.Picture
import ArrayReplay.View.Theme

namespace ArrayReplay.View

open Terminal

structure StatusBar where
  message : String
  mode : Mode
  cursor : Nat
  total : Nat
  playing : Bool
  chartFocused : Bool

namespace StatusBar

def keyStyle : Style := .ofColors .black Theme.comment
def textStyle : Style := .ofColors Theme.text Theme.strip
def ruleStyle : Style := .ofColors Theme.comment Theme.strip

def hint (key description : String) : Line :=
  [⟨key.toList, keyStyle⟩, ⟨description.toList, textStyle⟩, ⟨['│'], ruleStyle⟩]

def spacedHint (key description : String) : Line := hint key description ++ [⟨[' '], textStyle⟩]

def badge? (s : StatusBar) : Option Span :=
  match s.mode with
  | .live => none
  | .step =>
    if s.playing then some ⟨" ▶ PLAYING ".toList, Theme.badge Theme.secondary⟩
    else if s.total ≤ s.cursor then some ⟨" END ".toList, Theme.badge Theme.error⟩
    else if s.cursor = 0 then some ⟨" START ".toList, Theme.badge Theme.success⟩
    else none

def modeSpan (s : StatusBar) : Span :=
  match s.mode with
  | .live => ⟨(" " ++ s.mode.label ++ " ").toList, Theme.badge Theme.success⟩
  | .step =>
    ⟨(" " ++ s.mode.label ++ " " ++ toString s.cursor ++ "/" ++ toString s.total ++ " ").toList,
      Theme.badge Theme.primary⟩

def left (s : StatusBar) : Line :=
  [s.modeSpan, ⟨" | ".toList, ruleStyle⟩, ⟨(" " ++ s.message ++ " ").toList, textStyle⟩]

def right (s : StatusBar) : Line :=
  spacedHint " ⇥ " " focus " ++ spacedHint " ^T " " mode " ++
    (if s.chartFocused then
      spacedHint " ←/→ " " select " ++ spacedHint " ↑/↓ " " edit " ++ spacedHint " [/] " " array "
    else []) ++
    (if s.mode = .step then
      spacedHint " ^N/^B " " step " ++ spacedHint " ^P " " play " ++ spacedHint " ^R " " reset "
    else []) ++
    hint " F1 " " help " ++ [⟨" ^Q ".toList, keyStyle⟩, ⟨" quit ".toList, textStyle⟩] ++
    (match s.badge? with
    | some badge => [⟨['│'], ruleStyle⟩, badge]
    | none => [])

def picture (s : StatusBar) (width height : Nat) : Picture :=
  let base : Style := { background := some Theme.strip }
  let leftWidth := share width 45
  let rightWidth := width - leftWidth
  .beside (.ofRows leftWidth height base [Line.cells base s.left])
    (.ofRows rightWidth height base [fitRight rightWidth base (Line.cells base s.right)])

end StatusBar
end ArrayReplay.View
