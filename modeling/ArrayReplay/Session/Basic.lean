import ArrayReplay.Chart.Bars
import ArrayReplay.Editing.EditBuffer
import ArrayReplay.Playing.NoticeBoard
import ArrayReplay.Playing.Playback

/-!
A session: the text being edited, its playback, the notices, and what the keys act on. Keys and the
passing of time are its only inputs. The text is held twice, under the cursor and as the source that
is played, and every key that changes one changes the other.
-/
namespace ArrayReplay

inductive Key where
  | char (c : Char)
  | enter
  | escape
  | tab
  | backTab
  | backspace
  | delete
  | left
  | right
  | up
  | down
  | home
  | toEnd
  | help
  | other
deriving DecidableEq

structure KeyPress where
  key : Key
  ctrl : Bool := false
deriving DecidableEq

inductive Focus where
  | editor
  | chart
deriving DecidableEq, Repr

def Focus.other : Focus → Focus
  | .editor => .chart
  | .chart => .editor

structure Session where
  buffer : EditBuffer
  playback : Playback
  board : NoticeBoard
  focus : Focus := .editor
  bar : Nat := 0
  helpShown : Bool := false
  quitting : Bool := false
  status : String := "Ready! Press F1 for help"
  editorOffset : Nat := 0
  arraysOffset : Nat := 0

namespace Session

/-- A session over a source. Shown live, it starts with the diagnostics of the whole program. -/
def start (source : Text) (mode : Mode) (settings : Settings) (now : Time) : Session :=
  let shown := Playback.ofSource source settings
  let playback := match mode with
    | .live => shown
    | .step => shown.setMode .step now
  let board : NoticeBoard := { window := settings.window, lifetime := settings.lifetime }
  { buffer := .ofText source
    playback
    board := match mode with
      | .live => (board.publish now playback.validate.diagnostics).2
      | .step => board }

def clampBar (s : Session) : Session :=
  let length := (s.playback.current?.map fun e => e.2.length).getD 0
  { s with bar := min s.bar (length - 1) }

def notify (now : Time) (diagnostics : List Diagnostic) (s : Session) : Session :=
  { s with board := (s.board.publish now diagnostics).2 }

def tick (now : Time) (s : Session) : Session :=
  let (events, playback) := s.playback.poll now
  let s := { s with playback }.notify now events.diagnostics
  let status :=
    if events.finished then "Playback complete"
    else if events.stepped then "Playing..."
    else s.status
  { s with board := s.board.expire now, status }.clampBar

def stepForward (now : Time) (s : Session) : Session :=
  match s.playback.mode with
  | .live => { s with status := "Switch to step mode to step (^T)" }
  | .step =>
    match s.playback.stepForward with
    | (some diagnostics, playback) =>
      let s := { s with playback }.notify now diagnostics
      { s with status := "Stepped forward (" ++ toString playback.cursor ++ "/" ++
          toString playback.program.length ++ ")" }
    | (none, playback) => { s with playback, status := "Already at the end" }

def stepBack (s : Session) : Session :=
  match s.playback.stepBack with
  | (true, playback) => { s with playback, status := "Stepped backward" }
  | (false, playback) =>
    match playback.mode with
    | .live => { s with playback }
    | .step => { s with playback, status := "Already at the start" }

def togglePlay (now : Time) (s : Session) : Session :=
  match s.playback.togglePlay now with
  | (true, playback) => { s with playback, status := "Playing..." }
  | (false, playback) =>
    match playback.mode with
    | .live => { s with playback }
    | .step => { s with playback, status := "Paused" }

def toggleMode (now : Time) (s : Session) : Session :=
  let playback := s.playback.toggleMode now
  { s with playback, board := s.board.clear, status := playback.mode.label ++ " mode" }

def reset (s : Session) : Session :=
  match s.playback.mode with
  | .live => s
  | .step => { s with playback := s.playback.reset, status := "Jumped to start" }

/-- The commands: letters with Ctrl, or bare letters in the chart pane. -/
def command (c : Char) (now : Time) (s : Session) : Session :=
  match c with
  | 'q' => { s with quitting := true }
  | 't' => s.toggleMode now
  | 'm' => s.toggleMode now
  | 'n' => s.stepForward now
  | 'b' => s.stepBack
  | 'r' => s.reset
  | 'p' => s.togglePlay now
  | _ => s

def helpKey (press : KeyPress) (s : Session) : Session :=
  match press.key with
  | .char 'q' => if press.ctrl then { s with quitting := true } else { s with helpShown := false }
  | .char '?' => { s with helpShown := false }
  | .escape => { s with helpShown := false }
  | .help => { s with helpShown := false }
  | .enter => { s with helpShown := false }
  | _ => s

/-- The buffer after a key in the editor pane, and whether its text was edited. -/
def editKey (b : EditBuffer) : Key → Bool × EditBuffer
  | .char c => (true, b.insert c)
  | .enter => (true, b.insertBreak)
  | .backspace => b.backspace
  | .delete => b.delete
  | .left => (false, b.moveLeft)
  | .right => (false, b.moveRight)
  | .up => (false, b.moveUp)
  | .down => (false, b.moveDown)
  | .home => (false, b.moveHome)
  | .toEnd => (false, b.moveEnd)
  | _ => (false, b)

def editorKey (key : Key) (now : Time) (s : Session) : Session :=
  let (edited, buffer) := editKey s.buffer key
  let s := { s with buffer }
  if edited then
    let status :=
      if s.playback.canStepBack then "Text changed, step mode restarted" else s.status
    { s with playback := s.playback.setText buffer.text now, status }
  else s

/-- Raises or lowers the selected bar by a change of the source. Stepping would start over with every
change, so bars are left alone then. -/
def adjust (up : Bool) (now : Time) (s : Session) : Session :=
  match s.playback.mode with
  | .step => { s with status := "Bars are edited in live mode (^T)" }
  | .live =>
    match s.playback.current?.bind fun e => e.2.get? s.bar with
    | none => s
    | some element =>
      let v := Chart.nudge up element
      match s.playback.requestChange s.bar v now with
      | (true, playback) =>
        { s with
          playback
          buffer := s.buffer.setText playback.source
          status := "[" ++ toString s.bar ++ "] = " ++ String.ofList v.text }
      | (false, playback) => { s with playback }

def chartKey (key : Key) (now : Time) (s : Session) : Session :=
  match key with
  | .left => { s with bar := s.bar - 1 }
  | .right => { s with bar := s.bar + 1 }
  | .up => s.adjust true now
  | .down => s.adjust false now
  | .char '[' => { s with playback := s.playback.cycle false, bar := 0 }
  | .char ']' => { s with playback := s.playback.cycle true, bar := 0 }
  | .char ' ' => s.togglePlay now
  | .char '?' => { s with helpShown := true }
  | .char c => s.command c.toLower now
  | _ => s

/-- A key with Ctrl is a command or nothing; after any other key the selected bar is clamped. -/
def press (now : Time) (p : KeyPress) (s : Session) : Session :=
  if s.helpShown then s.helpKey p
  else if p.ctrl then
    match p.key with
    | .char c => s.command c.toLower now
    | _ => s
  else
    (match p.key with
    | .escape => { s with quitting := true }
    | .help => { s with helpShown := true }
    | .tab => { s with focus := s.focus.other }
    | .backTab => { s with focus := s.focus.other }
    | key =>
      match s.focus with
      | .editor => s.editorKey key now
      | .chart => s.chartKey key now).clampBar

end Session
end ArrayReplay
