import ArrayReplay.Notation.Program

namespace ArrayReplay

inductive Severity where
  | hint
  | warning
  | error
deriving DecidableEq, Repr

namespace Severity

def word : Severity → String
  | .hint => "hint"
  | .warning => "warning"
  | .error => "error"

def rank : Severity → Nat
  | .hint => 0
  | .warning => 1
  | .error => 2

def louder (s t : Severity) : Severity := if s.rank ≤ t.rank then t else s

end Severity

inductive Operation where
  | update
  | insert
  | delete
deriving DecidableEq, Repr

def Operation.word : Operation → String
  | .update => "update"
  | .insert => "insert"
  | .delete => "delete"

inductive Fault where
  | negativeSize (name : Text) (size : Int64)
  /-- The values beyond the declared size are dropped. -/
  | tooManyValues (name : Text) (declared given : Nat)
  | tooFewValues (name : Text) (declared given : Nat)
  | outOfRange (name : Text) (operation : Operation) (index : Int64) (length : Nat)
  /-- The line would be a statement if it ended in `;`. -/
  | missingTerminator (line : Text)
deriving DecidableEq

namespace Fault

def severity : Fault → Severity
  | .negativeSize .. => .error
  | .tooManyValues .. => .warning
  | .tooFewValues .. => .error
  | .outOfRange .. => .error
  | .missingTerminator _ => .hint

def message : Fault → String
  | .negativeSize name size =>
    "Array '" ++ String.ofList name ++ "' cannot have a negative size (" ++
      toString size.toInt ++ ")"
  | .tooManyValues name declared given =>
    "Too many initializers for '" ++ String.ofList name ++ "[" ++ toString declared ++ "]': got " ++
      toString given ++ ", keeping the first " ++ toString declared
  | .tooFewValues name declared given =>
    "Too few initializers for '" ++ String.ofList name ++ "[" ++ toString declared ++ "]': got " ++
      toString given
  | .outOfRange name operation index length =>
    "Index " ++ toString index.toInt ++ " out of range for " ++ operation.word ++ " on '" ++
      String.ofList name ++ "' (length " ++ toString length ++ ")"
  | .missingTerminator line => "Missing ';' at the end of \"" ++ String.ofList line ++ "\""

def target? : Fault → Option Text
  | .negativeSize name _ => some name
  | .tooManyValues name _ _ => some name
  | .tooFewValues name _ _ => some name
  | .outOfRange name _ _ _ => some name
  | .missingTerminator _ => none

end Fault

structure Diagnostic where
  fault : Fault
  location : Location
deriving DecidableEq

namespace Diagnostic

def severity (d : Diagnostic) : Severity := d.fault.severity

def message (d : Diagnostic) : String := d.fault.message

def text (d : Diagnostic) : String :=
  d.severity.word ++ " at line " ++ toString d.location.line ++ ": " ++ d.message

end Diagnostic
end ArrayReplay
