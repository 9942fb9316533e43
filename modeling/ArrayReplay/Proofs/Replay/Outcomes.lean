import ArrayReplay.Proofs.Notation.Operations

namespace ArrayReplay

namespace Change

def operation : Change → Operation
  | .update _ => .update
  | .insert _ => .insert
  | .delete => .delete

/-- The index is in range for an array of this length. An element can be inserted behind the last. -/
def Fits (index : Int64) (length : Nat) : Change → Prop
  | .insert _ => 0 ≤ index.toInt ∧ index.toInt ≤ length
  | _ => 0 ≤ index.toInt ∧ index.toInt < length

def elements (a : ArrayValue) (i : Nat) : Change → List Value
  | .update v => a.elements.set i (v.coerce a.kind)
  | .insert v => a.elements.insertIdx i (v.coerce a.kind)
  | .delete => a.elements.eraseIdx i

def run (a : ArrayValue) (index : Int64) : Change → Except IndexError ArrayValue
  | .update v => a.set index v
  | .insert v => a.insert index v
  | .delete => a.remove index

variable {c : Change} {index : Int64} {a : ArrayValue}

theorem run_of_fits (fits : c.Fits index a.length) :
    c.run a index = .ok ⟨a.kind, c.elements a index.toInt.toNat⟩ := by
  have position {bound : Nat} (inside : 0 ≤ index.toInt ∧ index.toInt < bound) :
      Word.position? index bound = some index.toInt.toNat :=
    Word.position?_eq_some_iff.mpr ⟨by omega, by omega⟩
  cases c with
  | update v => simp only [run, ArrayValue.set, position fits, elements]
  | insert v =>
    have inside : 0 ≤ index.toInt ∧ index.toInt < (a.length + 1 : Nat) :=
      ⟨fits.1, by have := fits.2; omega⟩
    simp only [run, ArrayValue.insert, position inside, elements]
  | delete => simp only [run, ArrayValue.remove, position fits, elements]

theorem run_of_not_fits (outside : ¬ c.Fits index a.length) :
    c.run a index = .error ⟨index, a.length⟩ := by
  have noPosition {bound : Nat} (outside : ¬ (0 ≤ index.toInt ∧ index.toInt < bound)) :
      Word.position? index bound = none := if_neg outside
  cases c with
  | update v => simp only [run, ArrayValue.set, noPosition outside]
  | insert v =>
    have outside : ¬ (0 ≤ index.toInt ∧ index.toInt < (a.length + 1 : Nat)) := by
      intro inside
      exact outside ⟨inside.1, by have := inside.2; omega⟩
    simp only [run, ArrayValue.insert, noPosition outside]
  | delete => simp only [run, ArrayValue.remove, noPosition outside]

end Change

namespace Environment

/-- `next` is `env` with `b` for `name`. A name keeps its place, and a new one comes last. -/
structure Stores (env : Environment) (name : Text) (b : ArrayValue) (next : Environment) : Prop where
  get_self : next.get? name = some b
  get_other : ∀ other, other ≠ name → next.get? other = env.get? other
  names_eq : next.names = if name ∈ env.names then env.names else env.names ++ [name]

variable {env : Environment} {name : Text} {index : Int64} {c : Change} {a : ArrayValue}

theorem stores_declare (env : Environment) (name : Text) (b : ArrayValue) :
    Stores env name b (env.declare name b) where
  get_self := get?_declare_self env name b
  get_other := fun _ apart => get?_declare_of_ne env apart b
  names_eq := names_declare env name b

theorem apply_change (env : Environment) (name : Text) (index : Int64) (c : Change) :
    env.apply (c.statement name index) = operation c.operation name (c.run · index) env := by
  cases c <;> rfl

theorem apply_change_of_none (absent : env.get? name = none) (index : Int64) (c : Change) :
    env.apply (c.statement name index) = (env, none) := by
  simp only [apply_change, operation, absent]

theorem apply_change_of_fits (found : env.get? name = some a) (fits : c.Fits index a.length) :
    env.apply (c.statement name index) =
      (env.declare name ⟨a.kind, c.elements a index.toInt.toNat⟩, none) := by
  simp only [apply_change, operation, found, Change.run_of_fits fits]

theorem apply_change_of_not_fits (found : env.get? name = some a)
    (outside : ¬ c.Fits index a.length) :
    env.apply (c.statement name index) =
      (env, some (.outOfRange name c.operation index a.length)) := by
  simp only [apply_change, operation, found, Change.run_of_not_fits outside]

/-- The declaration has more values than its size says, and the first ones are stored. -/
structure Cut (env : Environment) (kind : Kind) (name : Text) (size : Int64) (values : List Value)
    (next : Environment) (fault : Fault) : Prop where
  declares : 0 < size.toInt
  short : size.toInt < values.length
  fault_eq : fault = .tooManyValues name size.toInt.toNat values.length
  stores : Stores env name (.ofValues kind (values.take size.toInt.toNat)) next

theorem operation_of_fault {op : Operation} {change : ArrayValue → Except IndexError ArrayValue}
    {fault : Fault} (raised : (operation op name change env).2 = some fault) :
    fault.severity ≠ .warning ∧ (operation op name change env).1 = env := by
  rcases operation_outcome op name change env with
    ⟨-, same⟩ | ⟨a, e, -, -, same⟩ | ⟨a, b, -, -, written⟩
  · rw [same] at raised
    cases raised
  · rw [same] at raised ⊢
    cases raised
    exact ⟨nofun, rfl⟩
  · rw [written] at raised
    cases raised

/-- A fault is a warning of a declaration that was cut, or its step has changed nothing. -/
theorem apply_of_fault {s : Statement} {fault : Fault} (raised : (env.apply s).2 = some fault) :
    (fault.severity ≠ .warning ∧ (env.apply s).1 = env) ∨
      ∃ kind name size values, s = .declare kind name size values ∧
        Cut env kind name size values (env.apply s).1 fault := by
  cases s with
  | declare kind name size values =>
    rcases declaration_outcome kind name size values env with
      ⟨-, written⟩ | ⟨declares, short, written⟩ | ⟨-, refusal, severity, -, same⟩
    · rw [apply, written] at raised
      cases raised
    · rw [apply, written] at raised ⊢
      cases raised
      exact .inr ⟨kind, name, size, values, rfl, declares, short, rfl, stores_declare env name _⟩
    · rw [apply, same] at raised ⊢
      cases raised
      exact .inl ⟨by simp [severity], rfl⟩
  | update name index v => exact .inl (operation_of_fault raised)
  | insert name index v => exact .inl (operation_of_fault raised)
  | delete name index => exact .inl (operation_of_fault raised)
  | unterminated line =>
    cases raised
    exact .inl ⟨nofun, rfl⟩
  | unreadable line => cases raised

theorem apply_declare_iff (kind : Kind) (name : Text) (size : Int64) (values : List Value)
    (env : Environment) :
    ((env.apply (.declare kind name size values)).2 = none ↔
        size.toInt = 0 ∨ size.toInt = values.length) ∧
      ((env.apply (.declare kind name size values)).2 = none →
        Stores env name (.ofValues kind values) (env.apply (.declare kind name size values)).1) := by
  rcases declaration_outcome kind name size values env with
    ⟨whole, written⟩ | ⟨declares, short, written⟩ | ⟨refused, fault, -, -, same⟩
  · rw [apply, written]
    exact ⟨iff_of_true rfl whole, fun _ => stores_declare env name _⟩
  · rw [apply, written]
    exact ⟨iff_of_false nofun (by omega), nofun⟩
  · rw [apply, same]
    exact ⟨iff_of_false nofun (by omega), nofun⟩

theorem execute_of_apply {s : Statement} {next : Environment} {fault : Option Fault}
    (applied : env.apply s = (next, fault)) (location : Location) :
    env.execute ⟨location, s⟩ = (next, fault.map (⟨·, location⟩)) := by
  simp only [execute, applied]

theorem execute_change_iff (present : env.get? name = some a) (location : Location) (index : Int64)
    (c : Change) :
    ((env.execute ⟨location, c.statement name index⟩).2 =
        some ⟨.outOfRange name c.operation index a.length, location⟩ ↔ ¬ c.Fits index a.length) ∧
      (c.Fits index a.length → (env.execute ⟨location, c.statement name index⟩).2 = none ∧
        (env.execute ⟨location, c.statement name index⟩).1.names = env.names ∧
        Stores env name ⟨a.kind, c.elements a index.toInt.toNat⟩
          (env.execute ⟨location, c.statement name index⟩).1) := by
  by_cases fits : c.Fits index a.length
  · have executed := execute_of_apply (apply_change_of_fits present fits) location
    have stores := stores_declare env name ⟨a.kind, c.elements a index.toInt.toNat⟩
    have names := stores.names_eq
    rw [if_pos (mem_names present)] at names
    rw [executed]
    exact ⟨iff_of_false nofun (not_not_intro fits), fun _ => ⟨rfl, names, stores⟩⟩
  · rw [execute_of_apply (apply_change_of_not_fits present fits) location]
    exact ⟨iff_of_true rfl fits, fun inside => absurd inside fits⟩

/-- A step reports one diagnostic at most, of its own row, and only a warning has changed anything:
then a declaration has stored as many values as its size says. A declaration whose size is zero or
right stores all its values. A change to an array that is there is made if its index fits, and else
reported; to an array that is not there it is nothing, and nothing is a row that cannot be read. -/
theorem execute_outcome (env : Environment) (step : Step) :
    let next := (env.execute step).1
    let found := (env.execute step).2
    (∀ d, found = some d → d.location = step.location ∧
      (d.severity = .error ∨ d.severity = .hint → next = env) ∧
      (d.severity = .warning → ∃ kind name size values,
        step.statement = .declare kind name size values ∧
          Cut env kind name size values next d.fault)) ∧
    (∀ kind name size values, step.statement = .declare kind name size values →
      (found = none ↔ size.toInt = 0 ∨ size.toInt = values.length) ∧
      (found = none → Stores env name (.ofValues kind values) next)) ∧
    (∀ name index c, step.statement = Change.statement name index c →
      (env.get? name = none → found = none ∧ next = env) ∧
      ∀ a, env.get? name = some a →
        (found = some ⟨.outOfRange name c.operation index a.length, step.location⟩ ↔
          ¬ c.Fits index a.length) ∧
        (c.Fits index a.length → found = none ∧ next.names = env.names ∧
          Stores env name ⟨a.kind, c.elements a index.toInt.toNat⟩ next)) ∧
    (∀ line, step.statement = .unreadable line → found = none ∧ next = env) := by
  obtain ⟨location, s⟩ := step
  intro next found
  have silent : found = none ↔ (env.apply s).2 = none := Option.map_eq_none_iff
  refine ⟨?_, ?_, ?_, ?_⟩
  · intro d reported
    obtain ⟨fault, raised, rfl⟩ := Option.map_eq_some_iff.mp reported
    rcases apply_of_fault raised with ⟨severity, same⟩ | ⟨kind, name, size, values, declares, cut⟩
    · exact ⟨rfl, fun _ => same, fun warning => absurd warning severity⟩
    · have warning : fault.severity = .warning := by
        rw [cut.fault_eq]
        rfl
      refine ⟨rfl, fun louder => ?_, fun _ => ⟨kind, name, size, values, declares, cut⟩⟩
      simp [Diagnostic.severity, warning] at louder
  · rintro kind name size values rfl
    rw [silent]
    exact apply_declare_iff kind name size values env
  · rintro name index c rfl
    refine ⟨fun absent => ?_, fun a present => execute_change_iff present location index c⟩
    have executed := execute_of_apply (apply_change_of_none absent index c) location
    exact ⟨congrArg Prod.snd executed, congrArg Prod.fst executed⟩
  · rintro line rfl
    exact ⟨rfl, rfl⟩

end Environment
end ArrayReplay
