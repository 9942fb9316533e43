import ArrayReplay.Array.Environment
import ArrayReplay.Replay.Diagnostic

namespace ArrayReplay

namespace Environment

/-- The outcome of a declaration. A negative size and a list too short for the size are refused, a
list too long is cut, and the size zero stands for the length of the list. -/
def declaration (kind : Kind) (name : Text) (size : Int64) (values : List Value)
    (env : Environment) : Environment × Option Fault :=
  if size.toInt < 0 then (env, some (.negativeSize name size))
  else
    let declared := size.toInt.toNat
    if declared = 0 ∨ values.length = declared then
      (env.declare name (ArrayValue.ofValues kind values), none)
    else if declared < values.length then
      (env.declare name (ArrayValue.ofValues kind (values.take declared)),
        some (.tooManyValues name declared values.length))
    else (env, some (.tooFewValues name declared values.length))

def operation (op : Operation) (name : Text)
    (change : ArrayValue → Except IndexError ArrayValue) (env : Environment) :
    Environment × Option Fault :=
  match env.get? name with
  | none => (env, none)
  | some a =>
    match change a with
    | .ok b => (env.declare name b, none)
    | .error e => (env, some (.outOfRange name op e.index e.length))

def apply (env : Environment) : Statement → Environment × Option Fault
  | .declare kind name size values => declaration kind name size values env
  | .update name index v => operation .update name (·.set index v) env
  | .insert name index v => operation .insert name (·.insert index v) env
  | .delete name index => operation .delete name (·.remove index) env
  | .unterminated line => (env, some (.missingTerminator line))
  | .unreadable _ => (env, none)

def execute (env : Environment) (step : Step) : Environment × Option Diagnostic :=
  let (next, fault) := env.apply step.statement
  (next, fault.map (⟨·, step.location⟩))

end Environment

structure Replay where
  environment : Environment
  diagnostics : List Diagnostic
deriving DecidableEq

namespace Program

def environmentFrom (env : Environment) (program : Program) : Environment :=
  program.foldl (fun e step => (e.execute step).1) env

def diagnosticsFrom (env : Environment) : Program → List Diagnostic
  | [] => []
  | step :: more => (env.execute step).2.toList ++ diagnosticsFrom (env.execute step).1 more

def environment (program : Program) : Environment := program.environmentFrom .empty

def replayFrom (env : Environment) : Program → Replay
  | [] => ⟨env, []⟩
  | step :: more =>
    let (next, diagnostic) := env.execute step
    let rest := replayFrom next more
    ⟨rest.environment, diagnostic.toList ++ rest.diagnostics⟩

def replay (program : Program) : Replay := replayFrom .empty program

theorem replayFrom_eq (env : Environment) (program : Program) :
    replayFrom env program = ⟨environmentFrom env program, diagnosticsFrom env program⟩ := by
  induction program generalizing env with
  | nil => rfl
  | cons step more ih => simp [replayFrom, environmentFrom, diagnosticsFrom, ih]

theorem environment_replay (program : Program) :
    program.replay.environment = program.environment := by
  rw [replay, replayFrom_eq, environment]

theorem environmentFrom_append (env : Environment) (p q : Program) :
    environmentFrom env (p ++ q) = environmentFrom (environmentFrom env p) q := by
  simp [environmentFrom, List.foldl_append]

theorem diagnosticsFrom_append (env : Environment) (p q : Program) :
    diagnosticsFrom env (p ++ q) =
      diagnosticsFrom env p ++ diagnosticsFrom (environmentFrom env p) q := by
  induction p generalizing env with
  | nil => rfl
  | cons step more ih => simp [diagnosticsFrom, environmentFrom, ih]

end Program
end ArrayReplay
