import ArrayReplay.Array.ArrayValue

/-!
Environments: the arrays that exist at some point of a program, under their names. They keep the
order in which the names were first declared; a later declaration of the same name replaces the array
where it stands.
-/
namespace ArrayReplay

structure Environment where
  arrays : List (Text × ArrayValue)
deriving DecidableEq

namespace Environment

def empty : Environment := ⟨[]⟩

def names (env : Environment) : List Text := env.arrays.map Prod.fst

def length (env : Environment) : Nat := env.arrays.length

def isEmpty (env : Environment) : Bool := env.arrays.isEmpty

def entry? (env : Environment) (name : Text) : Option (Text × ArrayValue) :=
  env.arrays.find? (fun e => e.1 == name)

def get? (env : Environment) (name : Text) : Option ArrayValue := (env.entry? name).map Prod.snd

def contains (env : Environment) (name : Text) : Bool := (env.entry? name).isSome

/-- The entries after `name` is declared as `a`: its entry changes in place, or a new one comes
last. -/
def put (name : Text) (a : ArrayValue) : List (Text × ArrayValue) → List (Text × ArrayValue)
  | [] => [(name, a)]
  | e :: more => if e.1 = name then (name, a) :: more else e :: put name a more

def declare (env : Environment) (name : Text) (a : ArrayValue) : Environment :=
  ⟨put name a env.arrays⟩

/-- The entry on display: the preferred one if there is such an array, else the first. -/
def current? (env : Environment) (preferred : Option Text) : Option (Text × ArrayValue) :=
  (preferred.bind env.entry?).or env.arrays.head?

def byteSize (env : Environment) : Nat :=
  env.arrays.foldr (fun e n => Text.byteSize e.1 + e.2.byteSize + n) 0

theorem find?_put_self (name : Text) (a : ArrayValue) (arrays : List (Text × ArrayValue)) :
    (put name a arrays).find? (fun e => e.1 == name) = some (name, a) := by
  induction arrays with
  | nil => simp [put]
  | cons e more ih =>
    by_cases h : e.1 = name
    · simp [put, h]
    · simp [put, h, ih]

theorem find?_put_of_ne {name other : Text} (h : other ≠ name) (a : ArrayValue)
    (arrays : List (Text × ArrayValue)) :
    (put name a arrays).find? (fun e => e.1 == other) =
      arrays.find? (fun e => e.1 == other) := by
  induction arrays with
  | nil => simp [put, Ne.symm h]
  | cons e more ih =>
    by_cases he : e.1 = name
    · simp [put, he, Ne.symm h]
    · rw [put, if_neg he, List.find?_cons, List.find?_cons, ih]

theorem map_fst_put (name : Text) (a : ArrayValue) (arrays : List (Text × ArrayValue)) :
    (put name a arrays).map Prod.fst =
      if name ∈ arrays.map Prod.fst then arrays.map Prod.fst
      else arrays.map Prod.fst ++ [name] := by
  induction arrays with
  | nil => simp [put]
  | cons e more ih =>
    by_cases h : e.1 = name
    · simp [put, h]
    · have h' : name ≠ e.1 := fun same => h same.symm
      simp only [put, h, if_false, List.map_cons, ih, List.mem_cons, h', false_or]
      split <;> rfl

theorem get?_declare_self (env : Environment) (name : Text) (a : ArrayValue) :
    (env.declare name a).get? name = some a := by
  simp [declare, get?, entry?, find?_put_self]

theorem get?_declare_of_ne (env : Environment) {name other : Text} (h : other ≠ name)
    (a : ArrayValue) : (env.declare name a).get? other = env.get? other := by
  simp [declare, get?, entry?, find?_put_of_ne h]

theorem names_declare (env : Environment) (name : Text) (a : ArrayValue) :
    (env.declare name a).names = if name ∈ env.names then env.names else env.names ++ [name] :=
  map_fst_put name a env.arrays

end Environment
end ArrayReplay
