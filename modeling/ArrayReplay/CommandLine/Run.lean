import ArrayReplay.CommandLine.Options
import ArrayReplay.CommandLine.Report
import ArrayReplay.Playing.Playback

namespace ArrayReplay.CommandLine

/-- The source that is shown when no file is named. -/
def sample : String :=
  "// Array notation playground\n" ++
  "// Supports int, char, and double arrays.\n" ++
  "\n" ++
  "// Example: Integer Array\n" ++
  "int nums[5] = \x7b10, 20, 30, 40, 50\x7d;\n" ++
  "nums[2] = 85;\n" ++
  "nums.insert(0, 5);\n" ++
  "nums.remove(3);\n" ++
  "\n" ++
  "// Example: Character Array\n" ++
  "char word[4] = \"byte\";\n" ++
  "word[0] = 'j';\n" ++
  "\n" ++
  "// Example: Double Array\n" ++
  "double ratios[3] = \x7b1.5, 2.7, 3.14\x7d;\n" ++
  "ratios[1] = 4.2;\n"

inductive FileFault where
  | notFound
  | denied
  | notDirectory
  | isDirectory
  | nameTooLong
  | notUtf8
deriving DecidableEq, Repr

namespace FileFault

def message : FileFault → String
  | .notFound => "Os \x7b code: 2, kind: NotFound, message: \"No such file or directory\" \x7d"
  | .denied => "Os \x7b code: 13, kind: PermissionDenied, message: \"Permission denied\" \x7d"
  | .notDirectory => "Os \x7b code: 20, kind: NotADirectory, message: \"Not a directory\" \x7d"
  | .isDirectory => "Os \x7b code: 21, kind: IsADirectory, message: \"Is a directory\" \x7d"
  | .nameTooLong =>
    "Os \x7b code: 36, kind: InvalidFilename, message: \"File name too long\" \x7d"
  | .notUtf8 =>
    "Error \x7b kind: InvalidData, message: \"stream did not contain valid UTF-8\" \x7d"

def isAbsence : FileFault → Bool
  | .notFound | .notDirectory | .nameTooLong => true
  | .denied | .isDirectory | .notUtf8 => false

end FileFault

structure Files where
  read : String → Except FileFault String
  create : String → Except FileFault Unit

structure Outcome where
  exitCode : UInt8
  output : String := ""
  log : List String := []
  /-- Where the log goes, if not to the standard error. -/
  logFile : Option String := none
  errors : List String := []

inductive Run where
  | ended (outcome : Outcome)
  | showing (source : Text) (mode : Mode) (settings : Settings)

def usage : String :=
  "Shows array statements in the terminal, live or step by step.\n\n" ++
  "Usage: array-replay [OPTIONS] [FILE]\n\n" ++
  "  --check                  replay the file, print diagnostics and arrays\n" ++
  "  --step                   start in step mode\n" ++
  "  --debounce-ms MS         quiet period before diagnostics are shown\n" ++
  "  --play-interval-ms MS    pace of autoplay\n" ++
  "  --log-file FILE          write logs to this file\n" ++
  "  -h, --help               print this text\n"

def fail (error : String) : Run := .ended { exitCode := 1, errors := ["Error: " ++ error] }

def source (o : Options) (files : Files) : Except String String :=
  match o.file with
  | none => .ok sample
  | some name =>
    match files.read name with
    | .ok text => .ok text
    | .error fault =>
      .error (if fault.isAbsence then "File '" ++ name ++ "' not found" else fault.message)

def runWith (o : Options) (files : Files) : Run :=
  match o.logFile.elim (.ok ()) files.create with
  | .error fault => fail fault.message
  | .ok () =>
    match source o files with
    | .error e => fail e
    | .ok text =>
      if o.check then
        let report := Report.ofSource text.toList
        .ended {
          exitCode := if report.passed then 0 else 1
          output := String.ofList (report.lines.flatMap (· ++ ['\n']))
          log := report.log
          logFile := o.logFile }
      else
        let usual : Settings := {}
        .showing text.toList (if o.step then .step else .live)
          { usual with
            debounce := o.debounce.getD usual.debounce
            playInterval := o.playInterval.getD usual.playInterval }

/-- The run under given arguments. Arguments that are refused end it with the exit code 2. -/
def run (arguments : List String) (files : Files) : Run :=
  match Options.ofArguments arguments with
  | .ok o => runWith o files
  | .error .help => .ended { exitCode := 0, output := usage }
  | .error _ => .ended { exitCode := 2 }

end ArrayReplay.CommandLine
