import ArrayReplay.Replay.Execution

/-!
Reports. A program is checked by replaying it as a whole: the report lists its diagnostics and then
the arrays it leaves behind. The line of an array, with a semicolon behind it, is a declaration of
that array, as long as its kind is written in braces.
-/
namespace ArrayReplay

structure Report where
  lines : List Text
  log : List String
  /-- No diagnostic was an error. -/
  passed : Bool

namespace Report

def elements : List Value → Text
  | [] => []
  | [v] => v.text
  | v :: next :: more => v.text ++ ',' :: ' ' :: elements (next :: more)

def arrayLine (name : Text) (a : ArrayValue) : Text :=
  a.kind.keyword ++ ' ' :: name ++ '[' :: Numeral.ofNat a.length ++
    [']', ' ', '=', ' ', '\x7b'] ++ elements a.elements ++ ['\x7d']

def diagnosticLine (d : Diagnostic) : Text :=
  (toString d.location.line ++ ":" ++ toString d.location.column ++ ": " ++ d.severity.word ++ ": " ++
    d.message).toList

def steersTerminal (c : Char) : Bool :=
  ['\x07', '\x08', '\x0c', '\x1b', '\x7f'].contains c || (0x80 ≤ c.toNat && c.toNat ≤ 0x9f)

/-- A character as it is logged. One that steers a terminal is named by its hexadecimal code, so that
a source cannot take over the terminal on which its log is read. -/
def logged (c : Char) : Text :=
  let code := [Nat.digitChar (c.toNat / 16), Nat.digitChar (c.toNat % 16)]
  if !steersTerminal c then [c]
  else if c.toNat < 0x80 then '\\' :: 'x' :: code
  else ['\\', 'u', '\x7b'] ++ code ++ ['\x7d']

def logLine (d : Diagnostic) : String :=
  (match d.severity with
    | .hint => "INFO "
    | .warning => "WARN "
    | .error => "WARN ") ++ String.ofList (d.message.toList.flatMap logged) ++
    " line=" ++ toString d.location.line

def ofSource (source : Text) : Report :=
  let program := Program.ofSource source
  let r := program.replay
  { lines := r.diagnostics.map diagnosticLine ++
      r.environment.arrays.map fun e => arrayLine e.1 e.2
    log := r.diagnostics.map logLine ++
      ["INFO check finished statements=" ++ toString program.length ++ " arrays=" ++
        toString r.environment.length ++ " diagnostics=" ++ toString r.diagnostics.length]
    passed := r.diagnostics.all fun d => d.severity != .error }

end Report
end ArrayReplay
