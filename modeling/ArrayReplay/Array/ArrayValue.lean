import ArrayReplay.Notation.Value

namespace ArrayReplay

structure ArrayValue where
  kind : Kind
  elements : List Value
deriving DecidableEq

structure IndexError where
  index : Int64
  length : Nat
deriving DecidableEq

namespace ArrayValue

def empty (kind : Kind) : ArrayValue := ⟨kind, []⟩

def ofValues (kind : Kind) (values : List Value) : ArrayValue :=
  ⟨kind, values.map (Value.coerce kind)⟩

def length (a : ArrayValue) : Nat := a.elements.length

def isEmpty (a : ArrayValue) : Bool := a.elements.isEmpty

def get? (a : ArrayValue) (i : Nat) : Option Value := a.elements[i]?

def byteSize (a : ArrayValue) : Nat := a.length * a.kind.size

def Uniform (a : ArrayValue) : Prop := ∀ v ∈ a.elements, v.kind = a.kind

def set (a : ArrayValue) (index : Int64) (v : Value) : Except IndexError ArrayValue :=
  match Word.position? index a.length with
  | some i => .ok { a with elements := a.elements.set i (v.coerce a.kind) }
  | none => .error ⟨index, a.length⟩

/-- Inserts in front of an index in `0 .. length`. -/
def insert (a : ArrayValue) (index : Int64) (v : Value) : Except IndexError ArrayValue :=
  match Word.position? index (a.length + 1) with
  | some i => .ok { a with elements := a.elements.insertIdx i (v.coerce a.kind) }
  | none => .error ⟨index, a.length⟩

def remove (a : ArrayValue) (index : Int64) : Except IndexError ArrayValue :=
  match Word.position? index a.length with
  | some i => .ok { a with elements := a.elements.eraseIdx i }
  | none => .error ⟨index, a.length⟩

def removed? (a : ArrayValue) (index : Int64) : Option Value :=
  (Word.position? index a.length).bind a.get?

end ArrayValue
end ArrayReplay
