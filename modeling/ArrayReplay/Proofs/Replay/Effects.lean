import ArrayReplay.Replay.Execution

/-! What a statement can do to an environment: nothing, or write one array under its own name. Every
fact that holds of all arrays of a run follows from what a single statement can write. -/
namespace ArrayReplay

def Statement.values : Statement → List Value
  | .declare _ _ _ values => values
  | .update _ _ v => [v]
  | .insert _ _ v => [v]
  | _ => []

namespace ArrayValue

variable {a b : ArrayValue} {index : Int64}

theorem set_eq_ok {v : Value} (ok : a.set index v = .ok b) :
    ∃ i, Word.position? index a.length = some i ∧
      b = { a with elements := a.elements.set i (v.coerce a.kind) } := by
  unfold set at ok
  split at ok
  · next i position => exact ⟨i, position, (Except.ok.inj ok).symm⟩
  · cases ok

theorem insert_eq_ok {v : Value} (ok : a.insert index v = .ok b) :
    ∃ i, Word.position? index (a.length + 1) = some i ∧
      b = { a with elements := a.elements.insertIdx i (v.coerce a.kind) } := by
  unfold insert at ok
  split at ok
  · next i position => exact ⟨i, position, (Except.ok.inj ok).symm⟩
  · cases ok

theorem remove_eq_ok (ok : a.remove index = .ok b) :
    ∃ i, Word.position? index a.length = some i ∧
      b = { a with elements := a.elements.eraseIdx i } := by
  unfold remove at ok
  split at ok
  · next i position => exact ⟨i, position, (Except.ok.inj ok).symm⟩
  · cases ok

end ArrayValue

namespace Environment

variable {env : Environment} {s : Statement} {name : Text} {a b : ArrayValue}

/-- `s` leaves `b` under `name`. A declaration keeps all values or as many as it declares, an
operation works on the array that is there. -/
inductive Writes (env : Environment) : Statement → Text → ArrayValue → Prop where
  | declare {kind : Kind} {name : Text} {size : Int64} {values kept : List Value} :
      kept <+: values → (size.toInt = 0 ∧ kept = values ∨ size.toInt = kept.length) →
      Writes env (.declare kind name size values) name (.ofValues kind kept)
  | update {name : Text} {index : Int64} {v : Value} {a b : ArrayValue} :
      env.get? name = some a → a.set index v = .ok b → Writes env (.update name index v) name b
  | insert {name : Text} {index : Int64} {v : Value} {a b : ArrayValue} :
      env.get? name = some a → a.insert index v = .ok b → Writes env (.insert name index v) name b
  | delete {name : Text} {index : Int64} {a b : ArrayValue} :
      env.get? name = some a → a.remove index = .ok b → Writes env (.delete name index) name b

theorem operation_outcome (op : Operation) (name : Text)
    (change : ArrayValue → Except IndexError ArrayValue) (env : Environment) :
    (env.get? name = none ∧ operation op name change env = (env, none)) ∨
      (∃ a e, env.get? name = some a ∧ change a = .error e ∧
        operation op name change env = (env, some (.outOfRange name op e.index e.length))) ∨
      ∃ a b, env.get? name = some a ∧ change a = .ok b ∧
        operation op name change env = (env.declare name b, none) := by
  unfold operation
  cases found : env.get? name with
  | none => exact .inl ⟨rfl, rfl⟩
  | some a =>
    cases changed : change a with
    | error e => exact .inr (.inl ⟨a, e, rfl, changed, by simp only [changed]⟩)
    | ok b => exact .inr (.inr ⟨a, b, rfl, changed, by simp only [changed]⟩)

theorem declaration_outcome (kind : Kind) (name : Text) (size : Int64) (values : List Value)
    (env : Environment) :
    ((size.toInt = 0 ∨ size.toInt = values.length) ∧
        declaration kind name size values env = (env.declare name (.ofValues kind values), none)) ∨
      (0 < size.toInt ∧ size.toInt < values.length ∧
        declaration kind name size values env =
          (env.declare name (.ofValues kind (values.take size.toInt.toNat)),
            some (.tooManyValues name size.toInt.toNat values.length))) ∨
      ((size.toInt < 0 ∨ values.length < size.toInt) ∧
        ∃ fault, fault.severity = .error ∧ fault.target? = some name ∧
          declaration kind name size values env = (env, some fault)) := by
  simp only [declaration]
  split
  · next negative => exact .inr (.inr ⟨.inl negative, _, rfl, rfl, rfl⟩)
  · split
    · exact .inl ⟨by omega, rfl⟩
    · split
      · exact .inr (.inl ⟨by omega, by omega, rfl⟩)
      · exact .inr (.inr ⟨.inr (by omega), _, rfl, rfl, rfl⟩)

theorem operation_cases (op : Operation) (name : Text)
    (change : ArrayValue → Except IndexError ArrayValue) (env : Environment) :
    (operation op name change env).1 = env ∨
      ∃ a b, env.get? name = some a ∧ change a = .ok b ∧
        (operation op name change env).1 = env.declare name b := by
  rcases operation_outcome op name change env with
    ⟨-, same⟩ | ⟨a, e, -, -, same⟩ | ⟨a, b, found, ok, written⟩
  · exact .inl (congrArg Prod.fst same)
  · exact .inl (congrArg Prod.fst same)
  · exact .inr ⟨a, b, found, ok, congrArg Prod.fst written⟩

theorem declaration_cases (kind : Kind) (name : Text) (size : Int64) (values : List Value)
    (env : Environment) :
    (declaration kind name size values env).1 = env ∨
      ∃ kept, kept <+: values ∧ (size.toInt = 0 ∧ kept = values ∨ size.toInt = kept.length) ∧
        (declaration kind name size values env).1 = env.declare name (.ofValues kind kept) := by
  rcases declaration_outcome kind name size values env with
    ⟨whole, written⟩ | ⟨declares, short, written⟩ | ⟨-, fault, -, -, same⟩
  · refine .inr ⟨values, List.prefix_refl values, ?_, congrArg Prod.fst written⟩
    rw [and_iff_left rfl]
    exact whole
  · refine .inr ⟨_, List.take_prefix _ values, .inr ?_, congrArg Prod.fst written⟩
    rw [List.length_take]
    omega
  · exact .inl (congrArg Prod.fst same)

theorem apply_cases (env : Environment) (s : Statement) :
    (env.apply s).1 = env ∨
      ∃ name b, Writes env s name b ∧ (env.apply s).1 = env.declare name b := by
  cases s with
  | declare kind name size values =>
    rcases declaration_cases kind name size values env with same | ⟨kept, part, size, written⟩
    · exact .inl same
    · exact .inr ⟨name, _, .declare part size, written⟩
  | update name index v =>
    rcases operation_cases .update name (·.set index v) env with same | ⟨a, b, found, ok, written⟩
    · exact .inl same
    · exact .inr ⟨name, b, .update found ok, written⟩
  | insert name index v =>
    rcases operation_cases .insert name (·.insert index v) env with same | ⟨a, b, found, ok, written⟩
    · exact .inl same
    · exact .inr ⟨name, b, .insert found ok, written⟩
  | delete name index =>
    rcases operation_cases .delete name (·.remove index) env with same | ⟨a, b, found, ok, written⟩
    · exact .inl same
    · exact .inr ⟨name, b, .delete found ok, written⟩
  | unterminated line => exact .inl rfl
  | unreadable line => exact .inl rfl

theorem mem_of_writes (writes : Writes env s name b) {v : Value} (member : v ∈ b.elements) :
    (∃ w ∈ s.values, v = w.coerce b.kind) ∨
      ∃ a, env.get? name = some a ∧ a.kind = b.kind ∧ v ∈ a.elements := by
  cases writes with
  | declare part size =>
    obtain ⟨w, kept, rfl⟩ := List.mem_map.mp member
    exact .inl ⟨w, part.subset kept, rfl⟩
  | update found ok =>
    obtain ⟨i, position, rfl⟩ := ArrayValue.set_eq_ok ok
    rcases List.mem_or_eq_of_mem_set member with old | rfl
    · exact .inr ⟨_, found, rfl, old⟩
    · exact .inl ⟨_, List.mem_singleton_self _, rfl⟩
  | insert found ok =>
    obtain ⟨i, position, rfl⟩ := ArrayValue.insert_eq_ok ok
    have bound := Nat.le_of_lt_succ (Word.position?_eq_some_iff.mp position).2
    rcases (List.mem_insertIdx bound).mp member with rfl | old
    · exact .inl ⟨_, List.mem_singleton_self _, rfl⟩
    · exact .inr ⟨_, found, rfl, old⟩
  | delete found ok =>
    obtain ⟨i, position, rfl⟩ := ArrayValue.remove_eq_ok ok
    exact .inr ⟨_, found, rfl, List.mem_of_mem_eraseIdx member⟩

theorem length_of_writes (writes : Writes env s name b) :
    b.length ≤ s.values.length ∨
      ∃ a, env.get? name = some a ∧ b.length ≤ a.length + s.values.length := by
  cases writes with
  | declare part size =>
    left
    simpa [ArrayValue.length, ArrayValue.ofValues, Statement.values] using part.length_le
  | @update _ _ _ a _ found ok =>
    obtain ⟨i, position, rfl⟩ := ArrayValue.set_eq_ok ok
    exact .inr ⟨a, found, by simp [ArrayValue.length]⟩
  | @insert _ _ _ a _ found ok =>
    obtain ⟨i, position, rfl⟩ := ArrayValue.insert_eq_ok ok
    have := (Word.position?_eq_some_iff.mp position).2
    refine .inr ⟨a, found, ?_⟩
    simp only [ArrayValue.length] at this ⊢
    rw [List.length_insertIdx_of_le_length (by omega)]
    exact Nat.le_refl _
  | @delete _ _ a _ found ok =>
    obtain ⟨i, position, rfl⟩ := ArrayValue.remove_eq_ok ok
    refine .inr ⟨a, found, ?_⟩
    have := List.length_eraseIdx_le a.elements i
    simp only [ArrayValue.length]
    omega

theorem name_of_writes (writes : Writes env s name b) :
    (∃ kind size values, s = .declare kind name size values) ∨
      ∃ a, env.get? name = some a := by
  cases writes with
  | declare part size => exact .inl ⟨_, _, _, rfl⟩
  | update found ok => exact .inr ⟨_, found⟩
  | insert found ok => exact .inr ⟨_, found⟩
  | delete found ok => exact .inr ⟨_, found⟩

def All (P : Text → ArrayValue → Prop) (env : Environment) : Prop :=
  ∀ e ∈ env.arrays, P e.1 e.2

variable {P : Text → ArrayValue → Prop}

theorem all_empty : empty.All P := by
  intro e member
  cases member

theorem mem_put {entry : Text × ArrayValue} {arrays : List (Text × ArrayValue)}
    (member : entry ∈ put name a arrays) : entry = (name, a) ∨ entry ∈ arrays := by
  induction arrays with
  | nil => exact .inl (List.mem_singleton.mp member)
  | cons e more ih =>
    unfold put at member
    split at member
    · rcases List.mem_cons.mp member with here | later
      · exact .inl here
      · exact .inr (List.mem_cons_of_mem _ later)
    · rcases List.mem_cons.mp member with here | later
      · exact .inr (here ▸ List.mem_cons_self)
      · rcases ih later with new | old
        · exact .inl new
        · exact .inr (List.mem_cons_of_mem _ old)

theorem all_declare (all : env.All P) (new : P name a) : (env.declare name a).All P := by
  intro e member
  rcases mem_put member with rfl | old
  · exact new
  · exact all e old

theorem mem_of_get? (found : env.get? name = some a) : (name, a) ∈ env.arrays := by
  obtain ⟨e, entry, rfl⟩ := Option.map_eq_some_iff.mp found
  have same : e.1 = name := by simpa using List.find?_some entry
  rw [← same]
  exact List.mem_of_find?_eq_some entry

theorem mem_names (found : env.get? name = some a) : name ∈ env.names :=
  List.mem_map_of_mem (mem_of_get? found)

theorem get?_of_all (all : env.All P) (found : env.get? name = some a) : P name a :=
  all _ (mem_of_get? found)

theorem all_apply (all : env.All P) (kept : ∀ name b, Writes env s name b → P name b) :
    (env.apply s).1.All P := by
  rcases apply_cases env s with same | ⟨name, b, writes, written⟩
  · rw [same]
    exact all
  · rw [written]
    exact all_declare all (kept name b writes)

end Environment

namespace Program
open Environment

theorem environmentFrom_cons (env : Environment) (step : Step) (more : Program) :
    environmentFrom env (step :: more) = environmentFrom (env.execute step).1 more := rfl

/-- What each statement keeps when it writes, the whole run keeps. -/
theorem all_environmentFrom {P : Text → ArrayValue → Prop} (Q : Statement → Prop)
    (kept : ∀ env s name b, Q s → env.All P → Writes env s name b → P name b)
    (program : Program) (statements : ∀ step ∈ program, Q step.statement)
    (env : Environment) (all : env.All P) : (program.environmentFrom env).All P := by
  induction program generalizing env with
  | nil => exact all
  | cons step more ih =>
    obtain ⟨now, later⟩ := List.forall_mem_cons.mp statements
    apply ih later
    exact all_apply all fun name b writes => kept env step.statement name b now all writes

theorem uniform_environment (program : Program) :
    program.environment.All fun _ a => a.Uniform := by
  refine all_environmentFrom (fun _ => True) ?_ program (fun _ _ => trivial) .empty all_empty
  intro env s name b _ all writes v member
  rcases mem_of_writes writes member with ⟨w, -, rfl⟩ | ⟨a, found, kind, old⟩
  · exact Value.kind_coerce b.kind w
  · rw [← kind]
    exact get?_of_all all found v old

end Program
end ArrayReplay
