import ArrayReplay.Notation.Value

namespace ArrayReplay

inductive Statement where
  /-- `int a[3] = {1, 2, 3};` or `char w[4] = "byte";`. Empty brackets give the size zero. -/
  | declare (kind : Kind) (name : Text) (size : Int64) (values : List Value)
  /-- `a[1] = 9;` -/
  | update (name : Text) (index : Int64) (value : Value)
  /-- `a.insert(1, 7);` -/
  | insert (name : Text) (index : Int64) (value : Value)
  /-- `a.remove(0);` or `a.delete(0);` -/
  | delete (name : Text) (index : Int64)
  /-- A line that lacks nothing but its final `;` to be an update, an insertion or a deletion. -/
  | unterminated (line : Text)
  | unreadable (line : Text)
deriving DecidableEq

namespace Statement

def target? : Statement → Option Text
  | .declare _ name _ _ => some name
  | .update name _ _ => some name
  | .insert name _ _ => some name
  | .delete name _ => some name
  | .unterminated _ => none
  | .unreadable _ => none

def isOperation : Statement → Bool
  | .update .. => true
  | .insert .. => true
  | .delete .. => true
  | _ => false

def reshapes (name : Text) : Statement → Bool
  | .declare _ target _ _ => target == name
  | .insert target _ _ => target == name
  | .delete target _ => target == name
  | _ => false

def updates (name : Text) (index : Nat) : Statement → Bool
  | .update target i _ => target == name && i.toInt == (index : Int)
  | _ => false

end Statement
end ArrayReplay
