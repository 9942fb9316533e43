import ArrayReplay.Editing.WriteBack
import ArrayReplay.Playing.Timer
import ArrayReplay.Replay.Comparison
import ArrayReplay.Replay.Execution
import ArrayReplay.Replay.History

/-!
Playback: the program of a source and how much of it has been executed. Live, the whole program is
executed whenever the source changes, and after a quiet span its diagnostics are collected. Stepping,
a cursor walks through the program by hand or by itself, and the history holds the way back. Whatever
changes the source or the mode takes stepping back to the start, so the history never speaks of
statements that are gone.
-/
namespace ArrayReplay

inductive Mode where
  | live
  | step
deriving DecidableEq, Repr

namespace Mode

def label : Mode → String
  | .live => "LIVE"
  | .step => "STEP"

def other : Mode → Mode
  | .live => .step
  | .step => .live

end Mode

structure Settings where
  /-- The quiet span before diagnostics are collected. -/
  debounce : Time := 400
  playInterval : Time := 1000
  /-- The span in which the same diagnostic is shown once. -/
  window : Time := 3000
  /-- The span for which a notice stays. -/
  lifetime : Time := 4000
deriving DecidableEq, Repr

structure Playback where
  source : Text
  program : Program
  mode : Mode
  /-- The number of steps executed when stepping. -/
  cursor : Nat
  history : History
  /-- The environment of the whole program, as of the last change made live. -/
  whole : Environment
  playing : Bool
  preferred : Option Text
  validation : Debounce
  autoplay : Ticker

structure Playback.Events where
  diagnostics : List Diagnostic := []
  stepped : Bool := false
  /-- It was the last one, and playing stopped. -/
  finished : Bool := false
deriving DecidableEq

namespace Playback

def ofSource (source : Text) (settings : Settings) : Playback where
  source
  program := Program.ofSource source
  mode := .live
  cursor := 0
  history := .start
  whole := (Program.ofSource source).environment
  playing := false
  preferred := none
  validation := ⟨settings.debounce, none⟩
  autoplay := ⟨settings.playInterval, none⟩

def canStepForward (p : Playback) : Bool :=
  p.mode == .step && decide (p.cursor < p.program.length)

def canStepBack (p : Playback) : Bool := p.mode == .step && decide (0 < p.cursor)

def environment (p : Playback) : Environment :=
  match p.mode with
  | .live => p.whole
  | .step => p.history.latest

def current? (p : Playback) : Option (Text × ArrayValue) := p.environment.current? p.preferred

def lastExecuted? (p : Playback) : Option Location :=
  if p.canStepBack then (p.program[p.cursor - 1]?).map Step.location else none

def nextStep? (p : Playback) : Option Location :=
  match p.mode with
  | .live => none
  | .step => (p.program[p.cursor]?).map Step.location

def validate (p : Playback) : Replay := p.program.replay

def pause (p : Playback) : Playback := { p with playing := false, autoplay := p.autoplay.stop }

def reset (p : Playback) : Playback := { p.pause with cursor := 0, history := .start }

/-- Executes the whole program and has its diagnostics collected later. -/
def refresh (now : Time) (p : Playback) : Playback :=
  { p with whole := p.program.environment, validation := p.validation.schedule now }

/-- Replaces the source. The same source again changes nothing. -/
def setText (text : Text) (now : Time) (p : Playback) : Playback :=
  if text = p.source then p
  else
    let changed := { p with source := text, program := Program.ofSource text }
    match p.mode with
    | .live => changed.refresh now
    | .step => changed.reset

def requestChange (index : Nat) (v : Value) (now : Time) (p : Playback) : Bool × Playback :=
  match p.current? with
  | none => (false, p)
  | some (name, a) =>
    if index < a.length then
      let text := WriteBack.write p.source name index (v.coerce a.kind)
      (true, { p with preferred := some name }.setText text now)
    else (false, p)

def setMode (mode : Mode) (now : Time) (p : Playback) : Playback :=
  let q := { p with mode }.reset
  let q := { q with validation := q.validation.cancel }
  match mode with
  | .live => q.refresh now
  | .step => q

def toggleMode (now : Time) (p : Playback) : Playback := p.setMode p.mode.other now

def advance (p : Playback) : Option (List Diagnostic) × Playback :=
  if p.canStepForward then
    match p.program[p.cursor]? with
    | some step =>
      let (env, diagnostic) := p.history.latest.execute step
      (some diagnostic.toList, { p with history := p.history.push env, cursor := p.cursor + 1 })
    | none => (none, p)
  else (none, p)

def stepForward (p : Playback) : Option (List Diagnostic) × Playback := p.pause.advance

def stepBack (p : Playback) : Bool × Playback :=
  let q := p.pause
  if q.canStepBack then
    (true, { q with history := (q.history.pop?.map Prod.snd).getD q.history, cursor := q.cursor - 1 })
  else (false, q)

/-- What is asserted whenever a step was taken back: the environment on top of the history compares
equal to that of the steps in front of the cursor. -/
def retraced (p : Playback) : Bool :=
  p.history.latest.equal (Program.environment (p.program.take p.cursor))

def play (now : Time) (p : Playback) : Bool × Playback :=
  if p.canStepForward then (true, { p with playing := true, autoplay := p.autoplay.start now })
  else (false, p)

def togglePlay (now : Time) (p : Playback) : Bool × Playback :=
  if p.playing then (false, p.pause) else p.play now

def cancelTimers (p : Playback) : Playback :=
  { p.pause with validation := p.pause.validation.cancel }

def pollValidation (now : Time) (p : Playback) : List Diagnostic × Playback :=
  let (due, validation) := p.validation.fire now
  (if due then p.validate.diagnostics else [], { p with validation })

/-- Plays the next step if that is due, and stops behind the last one. -/
def pollAutoplay (now : Time) (p : Playback) : Events × Playback :=
  if p.playing then
    let (due, autoplay) := p.autoplay.fire now
    let p := { p with autoplay }
    if due then
      let (executed, q) := p.advance
      let events : Events := { diagnostics := executed.getD [], stepped := executed.isSome }
      if q.canStepForward then (events, q) else ({ events with finished := true }, q.pause)
    else ({}, p)
  else ({}, p)

def poll (now : Time) (p : Playback) : Events × Playback :=
  let (found, p) := p.pollValidation now
  let (events, p) := p.pollAutoplay now
  ({ events with diagnostics := found ++ events.diagnostics }, p)

def prefer (name : Option Text) (p : Playback) : Playback := { p with preferred := name }

/-- Displays the next array in order of declaration, or the one before; the last is followed by the
first. -/
def cycle (forward : Bool) (p : Playback) : Playback :=
  match p.current? with
  | none => p
  | some (name, _) =>
    let names := p.environment.names
    let place := names.idxOf name
    let next := if forward then place + 1 else place + names.length - 1
    { p with preferred := names[next % names.length]? }

end Playback
end ArrayReplay
