/-!
Command line options. The flags and options may each be given once, and at most one file may be named.
A value follows its option, or an equals sign directly behind it; it does not begin with a dash. After
a lone `--` everything is a file name.
-/
namespace ArrayReplay.CommandLine

structure Options where
  file : Option String := none
  check : Bool := false
  step : Bool := false
  debounce : Option Nat := none
  playInterval : Option Nat := none
  logFile : Option String := none
deriving DecidableEq, Repr

inductive Refusal where
  | help
  | unknownOption (argument : String)
  | missingValue (option : String)
  | unexpectedValue (option : String)
  | badValue (option value : String)
  | repeated (option : String)
  | secondFile (argument : String)
deriving DecidableEq, Repr

/-- A natural number below `2 ^ 64`, with an optional plus sign. -/
def number? (value : String) : Option Nat :=
  let digits := match value.toList with
    | '+' :: rest => rest
    | cs => cs
  if digits.isEmpty || !digits.all Char.isDigit then none
  else
    let n := Nat.ofDigitChars 10 digits 0
    if n < UInt64.size then some n else none

namespace Options

def takesValue (option : String) : Bool :=
  option == "--debounce-ms" || option == "--play-interval-ms" || option == "--log-file"

def setNumber (option value : String) (given : Option Nat) : Except Refusal (Option Nat) :=
  match given, number? value with
  | some _, _ => .error (.repeated option)
  | none, none => .error (.badValue option value)
  | none, some n => .ok (some n)

def setValue (o : Options) (option value : String) : Except Refusal Options :=
  if option == "--debounce-ms" then
    (setNumber option value o.debounce).map fun n => { o with debounce := n }
  else if option == "--play-interval-ms" then
    (setNumber option value o.playInterval).map fun n => { o with playInterval := n }
  else if o.logFile.isSome then .error (.repeated option)
  else if value.isEmpty then .error (.badValue option value)
  else .ok { o with logFile := some value }

def setFlag (o : Options) (flag : String) : Except Refusal Options :=
  if flag == "--check" then
    if o.check then .error (.repeated flag) else .ok { o with check := true }
  else if flag == "--step" then
    if o.step then .error (.repeated flag) else .ok { o with step := true }
  else if flag == "--help" || flag.startsWith "-h" then .error .help
  else .error (.unknownOption flag)

def setFile (o : Options) (name : String) : Except Refusal Options :=
  if name.isEmpty then .error (.badValue "file" name)
  else if o.file.isSome then .error (.secondFile name)
  else .ok { o with file := some name }

def setFiles (o : Options) : List String → Except Refusal Options
  | [] => .ok o
  | name :: more => do (← o.setFile name).setFiles more

def isOption (argument : String) : Bool := argument.startsWith "-" && argument != "-"

def splitValue (argument : String) : String × Option String :=
  let cs := argument.toList
  let name := String.ofList (cs.takeWhile (· != '='))
  match cs.dropWhile (· != '=') with
  | [] => (name, none)
  | _ :: value => (name, some (String.ofList value))

/-- Reads arguments from left to right; the first that is refused decides. -/
def read (o : Options) : List String → Except Refusal Options
  | [] => .ok o
  | argument :: more =>
    if argument == "--" then o.setFiles more
    else if !isOption argument then do (← o.setFile argument).read more
    else
      match splitValue argument, more with
      | (option, some value), more =>
        if takesValue option then do (← o.setValue option value).read more
        else if option == "--check" || option == "--step" || option == "--help" then
          .error (.unexpectedValue option)
        else do (← o.setFlag option).read more
      | (option, none), [] =>
        if takesValue option then .error (.missingValue option) else o.setFlag option
      | (option, none), value :: rest =>
        if takesValue option then
          if isOption value then .error (.missingValue option)
          else do (← o.setValue option value).read rest
        else do (← o.setFlag option).read (value :: rest)

def ofArguments (arguments : List String) : Except Refusal Options := read {} arguments

end Options
end ArrayReplay.CommandLine
