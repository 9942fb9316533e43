import ArrayReplay.Session.Basic
import ArrayReplay.View.ArraysPane
import ArrayReplay.View.ChartPane
import ArrayReplay.View.Editor
import ArrayReplay.View.HelpPane
import ArrayReplay.View.NoticesPane
import ArrayReplay.View.StatusBar

namespace ArrayReplay.Session

open Terminal View

def editor (s : Session) : Editor where
  lines := s.buffer.lines
  row := s.buffer.row
  column := s.buffer.column
  executed := s.playback.lastExecuted?.map Location.line
  next := s.playback.nextStep?.map Location.line
  flagged := s.board.active.map fun n => (n.line, n.severity)
  focused := s.focus = .editor

def chartPane (s : Session) : ChartPane where
  array := s.playback.current?
  selected := s.bar
  focused := s.focus = .chart

def arraysPane (s : Session) : ArraysPane where
  environment := s.playback.environment
  current := s.playback.current?.map Prod.fst

def statusBar (s : Session) : StatusBar where
  message := s.status
  mode := s.playback.mode
  cursor := s.playback.cursor
  total := s.playback.program.length
  playing := s.playback.playing
  chartFocused := s.focus = .chart

def editorHeight (height : Nat) : Nat := share (height - 1) 75

def arraysHeight (height : Nat) : Nat := (height - 1) - share (height - 1) 60

def scroll (height : Nat) (s : Session) : Session :=
  { s with
    editorOffset :=
      Editor.scroll s.editorOffset (Editor.visibleRows (editorHeight height)) s.buffer.row
    arraysOffset := s.arraysPane.scroll s.arraysOffset (arraysHeight height) }

def panes (width height : Nat) (s : Session) : Picture :=
  let paneHeight := height - 1
  let leftWidth := share width 50
  let rightWidth := width - leftWidth
  let upper := editorHeight height
  let left := s.editor.picture s.editorOffset leftWidth upper ++
    NoticesPane.picture s.board.active leftWidth (paneHeight - upper)
  let right := s.chartPane.picture rightWidth (share paneHeight 60) ++
    s.arraysPane.picture s.arraysOffset rightWidth (arraysHeight height)
  .beside left right ++ s.statusBar.picture width (height - paneHeight)

/-- The screen of a session, the terminal's cursor if it is shown, and the session scrolled for the
screen. -/
def draw (width height : Nat) (s : Session) : Picture × Option (Nat × Nat) × Session :=
  let s := s.scroll height
  let panes := s.panes width height
  let screen := if s.helpShown then HelpPane.onto width height panes else panes
  let cursor :=
    if s.focus = .editor then some (s.editor.cursor s.editorOffset (share width 50)) else none
  (screen, cursor, s)

/-- One frame on its own: nothing is due yet, the screen is drawn, and timers do not outlast it. -/
def frame (width height : Nat) (now : Time) (s : Session) :
    Picture × Option (Nat × Nat) × Session :=
  let (screen, cursor, s) := (s.tick now).draw width height
  (screen, cursor, { s with playback := s.playback.cancelTimers })

end ArrayReplay.Session
