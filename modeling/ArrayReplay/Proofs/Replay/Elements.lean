import ArrayReplay.Proofs.Replay.Effects

/-! Replacing one element in the outcome of a program. A statement that neither reshapes the array
nor writes that element does the same before the replacement as behind it, so an element that is
written late enough can be written with another value, and nothing else changes. -/
namespace ArrayReplay

def ArrayValue.replace (a : ArrayValue) (index : Nat) (v : Value) : ArrayValue :=
  { a with elements := a.elements.set index v }

namespace ArrayValue

@[simp] theorem kind_replace (a : ArrayValue) (index : Nat) (v : Value) :
    (a.replace index v).kind = a.kind := rfl

@[simp] theorem length_replace (a : ArrayValue) (index : Nat) (v : Value) :
    (a.replace index v).length = a.length := List.length_set

theorem replace_replace (a : ArrayValue) (index : Nat) (v w : Value) :
    (a.replace index v).replace index w = a.replace index w := by
  simp only [replace, List.set_set]

theorem replace_comm (a : ArrayValue) {i j : Nat} (h : i ≠ j) (v w : Value) :
    (a.replace i v).replace j w = (a.replace j w).replace i v := by
  simp only [replace, List.set_comm _ _ h]

theorem set_eq (a : ArrayValue) (index : Int64) (v : Value) :
    a.set index v = match Word.position? index a.length with
      | some i => .ok (a.replace i (v.coerce a.kind))
      | none => .error ⟨index, a.length⟩ := rfl

end ArrayValue

namespace Environment

variable {env : Environment} {name other : Text} {a b : ArrayValue} {index : Nat} {v w : Value}
  {s : Statement}

theorem put_put (name : Text) (a b : ArrayValue) (arrays : List (Text × ArrayValue)) :
    put name b (put name a arrays) = put name b arrays := by
  induction arrays with
  | nil => simp [put]
  | cons e more ih =>
    by_cases here : e.1 = name
    · simp [put, here]
    · simp [put, here, ih]

theorem put_comm (h : other ≠ name) (a b : ArrayValue) {arrays : List (Text × ArrayValue)}
    (member : name ∈ arrays.map Prod.fst) :
    put other b (put name a arrays) = put name a (put other b arrays) := by
  induction arrays with
  | nil => cases member
  | cons e more ih =>
    by_cases here : e.1 = name
    · have there : e.1 ≠ other := fun same => h (same.symm.trans here)
      have there' : ¬ name = other := fun same => h same.symm
      simp [put, here, there']
    · have later : name ∈ more.map Prod.fst := by
        rcases List.mem_cons.mp member with same | later
        · exact absurd same.symm here
        · exact later
      by_cases there : e.1 = other
      · simp [put, there, h]
      · simp [put, here, there, ih later]

theorem declare_declare (env : Environment) (name : Text) (a b : ArrayValue) :
    (env.declare name a).declare name b = env.declare name b :=
  congrArg Environment.mk (put_put name a b env.arrays)

theorem declare_comm (h : other ≠ name) (found : env.get? name = some a) (b c : ArrayValue) :
    (env.declare name b).declare other c = (env.declare other c).declare name b :=
  congrArg Environment.mk (put_comm h b c (mem_names found))

def replace (name : Text) (index : Nat) (v : Value) (env : Environment) : Environment :=
  match env.get? name with
  | some a => env.declare name (a.replace index v)
  | none => env

theorem replace_of_some (found : env.get? name = some a) (index : Nat) (v : Value) :
    env.replace name index v = env.declare name (a.replace index v) := by
  simp only [replace, found]

theorem replace_of_none (absent : env.get? name = none) (index : Nat) (v : Value) :
    env.replace name index v = env := by
  simp only [replace, absent]

theorem entry?_eq_some (found : env.get? name = some a) : env.entry? name = some (name, a) := by
  obtain ⟨e, entry, rfl⟩ := Option.map_eq_some_iff.mp found
  have same : e.1 = name := by simpa using List.find?_some entry
  rw [entry, ← same]

theorem get?_of_current? {preferred : Option Text}
    (current : env.current? preferred = some (name, a)) : env.get? name = some a := by
  rcases Option.or_eq_some_iff.mp current with chosen | ⟨-, first⟩
  · obtain ⟨other, -, entry⟩ := Option.bind_eq_some_iff.mp chosen
    have same : name = other := by simpa using List.find?_some entry
    rw [same, get?, entry, Option.map_some]
  · obtain ⟨more, whole⟩ := List.head?_eq_some_iff.mp first
    simp [get?, entry?, whole]

theorem current?_of_get? (found : env.get? name = some a) :
    env.current? (some name) = some (name, a) := by
  rw [current?, Option.bind_some, entry?_eq_some found, Option.some_or]

theorem put_self {arrays : List (Text × ArrayValue)}
    (found : arrays.find? (fun e => e.1 == name) = some (name, a)) : put name a arrays = arrays := by
  induction arrays with
  | nil => cases found
  | cons e more ih =>
    by_cases here : e.1 = name
    · rw [List.find?_cons_of_pos (by simpa using here)] at found
      rw [put, if_pos here, Option.some.inj found]
    · rw [List.find?_cons_of_neg (by simpa using here)] at found
      rw [put, if_neg here, ih found]

theorem replace_self (found : env.get? name = some a) (element : a.get? index = some v) :
    env.replace name index v = env := by
  have same : a.replace index v = a := by
    obtain ⟨inside, rfl⟩ := List.getElem?_eq_some_iff.mp element
    exact congrArg (ArrayValue.mk a.kind) (List.set_getElem_self inside)
  rw [replace_of_some found, same]
  exact congrArg Environment.mk (put_self (entry?_eq_some found))

theorem get?_replace_self (env : Environment) (name : Text) (index : Nat) (v : Value) :
    (env.replace name index v).get? name = (env.get? name).map (·.replace index v) := by
  cases found : env.get? name with
  | none => rw [replace_of_none found, found, Option.map_none]
  | some a => rw [replace_of_some found, get?_declare_self, Option.map_some]

theorem get?_replace_of_ne (h : other ≠ name) :
    (env.replace name index v).get? other = env.get? other := by
  cases found : env.get? name with
  | none => rw [replace_of_none found]
  | some a => rw [replace_of_some found, get?_declare_of_ne _ h]

theorem names_replace (env : Environment) (name : Text) (index : Nat) (v : Value) :
    (env.replace name index v).names = env.names := by
  cases found : env.get? name with
  | none => rw [replace_of_none found]
  | some a => rw [replace_of_some found, names_declare, if_pos (mem_names found)]

theorem replace_declare_self (env : Environment) (name : Text) (a : ArrayValue) (index : Nat)
    (v : Value) : (env.declare name a).replace name index v =
      env.declare name (a.replace index v) := by
  rw [replace_of_some (get?_declare_self env name a), declare_declare]

theorem replace_declare_of_ne (h : other ≠ name) (b : ArrayValue) :
    (env.declare other b).replace name index v = (env.replace name index v).declare other b := by
  cases found : env.get? name with
  | none =>
    have absent : (env.declare other b).get? name = none := by
      rw [get?_declare_of_ne env (Ne.symm h), found]
    rw [replace_of_none found, replace_of_none absent]
  | some a =>
    have present : (env.declare other b).get? name = some a := by
      rw [get?_declare_of_ne env (Ne.symm h), found]
    rw [replace_of_some found, replace_of_some present, declare_comm h found]

theorem operation_replace (op : Operation) (h : other ≠ name)
    (change : ArrayValue → Except IndexError ArrayValue) :
    operation op other change (env.replace name index v) =
      ((operation op other change env).1.replace name index v,
        (operation op other change env).2) := by
  unfold operation
  rw [get?_replace_of_ne h]
  cases env.get? other with
  | none => rfl
  | some a =>
    cases changed : change a with
    | error e => simp only [changed]
    | ok b => simp only [changed, replace_declare_of_ne h]

theorem declaration_replace (kind : Kind) (h : other ≠ name) (size : Int64) (values : List Value) :
    declaration kind other size values (env.replace name index v) =
      ((declaration kind other size values env).1.replace name index v,
        (declaration kind other size values env).2) := by
  simp only [declaration]
  split
  · rfl
  · split
    · rw [replace_declare_of_ne h]
    · split
      · rw [replace_declare_of_ne h]
      · rfl

/-- Two elements of an array can be written in either order. -/
theorem update_replace {i : Int64} (h : i.toInt ≠ index) :
    operation .update name (·.set i w) (env.replace name index v) =
      ((operation .update name (·.set i w) env).1.replace name index v,
        (operation .update name (·.set i w) env).2) := by
  unfold operation
  rw [get?_replace_self]
  cases found : env.get? name with
  | none => rfl
  | some a =>
    simp only [Option.map_some, ArrayValue.set_eq, ArrayValue.length_replace]
    cases position : Word.position? i a.length with
    | none => rfl
    | some j =>
      have apart : index ≠ j := by
        have := (Word.position?_eq_some_iff.mp position).1
        omega
      simp only [replace_of_some found, declare_declare, replace_declare_self,
        ArrayValue.kind_replace, ArrayValue.replace_comm a apart]

/-- A statement that neither moves the elements of `name` nor writes `name[index]`. -/
def Spares (name : Text) (index : Nat) (s : Statement) : Prop :=
  s.reshapes name = false ∧ s.updates name index = false

theorem apply_replace (spares : Spares name index s) :
    (env.replace name index v).apply s =
      ((env.apply s).1.replace name index v, (env.apply s).2) := by
  obtain ⟨still, others⟩ := spares
  cases s with
  | declare kind target size values =>
    exact declaration_replace kind (by simpa [Statement.reshapes] using still) size values
  | update target i w =>
    by_cases same : target = name
    · subst same
      exact update_replace (by simpa [Statement.updates] using others)
    · exact operation_replace .update same _
  | insert target i w =>
    exact operation_replace .insert (by simpa [Statement.reshapes] using still) _
  | delete target i =>
    exact operation_replace .delete (by simpa [Statement.reshapes] using still) _
  | unterminated line => rfl
  | unreadable line => rfl

/-- Without a statement that reshapes it, an array was there before, of the same kind and length. -/
theorem get?_of_get?_apply (still : s.reshapes name = false)
    (found : (env.apply s).1.get? name = some b) :
    ∃ a, env.get? name = some a ∧ a.kind = b.kind ∧ a.length = b.length := by
  rcases apply_cases env s with same | ⟨target, c, writes, written⟩
  · rw [same] at found
    exact ⟨b, found, rfl, rfl⟩
  · rw [written] at found
    by_cases here : target = name
    · subst here
      rw [get?_declare_self] at found
      cases found
      cases writes with
      | @update _ _ _ a _ old ok =>
        obtain ⟨i, -, rfl⟩ := ArrayValue.set_eq_ok ok
        exact ⟨a, old, rfl, List.length_set.symm⟩
      | declare part size => simp [Statement.reshapes] at still
      | insert old ok => simp [Statement.reshapes] at still
      | delete old ok => simp [Statement.reshapes] at still
    · rw [get?_declare_of_ne env (Ne.symm here)] at found
      exact ⟨b, found, rfl, rfl⟩

theorem apply_update {i : Int64} (found : env.get? name = some a) (here : i.toInt = index)
    (inside : index < a.length) (w : Value) :
    env.apply (.update name i w) = (env.replace name index (w.coerce a.kind), none) := by
  have position := Word.position?_eq_some_iff.mpr ⟨here, inside⟩
  simp only [apply, operation, found, ArrayValue.set_eq, position, replace_of_some found]

theorem execute_update {i : Int64} (found : env.get? name = some a) (here : i.toInt = index)
    (inside : index < a.length) (w : Value) (location : Location) :
    env.execute ⟨location, .update name i w⟩ =
      (env.replace name index (w.coerce a.kind), none) := by
  simp only [execute, apply_update found here inside, Option.map_none]

theorem replace_replace (env : Environment) (name : Text) (index : Nat) (v w : Value) :
    (env.replace name index v).replace name index w = env.replace name index w := by
  cases found : env.get? name with
  | none => rw [replace_of_none found, replace_of_none found]
  | some a =>
    rw [replace_of_some found, replace_of_some found, replace_declare_self,
      ArrayValue.replace_replace]

end Environment

namespace Program
open Environment

variable {env : Environment} {name : Text} {a : ArrayValue} {index : Nat} {v : Value}
  {program : Program}

theorem environmentFrom_replace (spares : ∀ step ∈ program, Spares name index step.statement) :
    environmentFrom (env.replace name index v) program =
        (environmentFrom env program).replace name index v ∧
      diagnosticsFrom (env.replace name index v) program = diagnosticsFrom env program := by
  induction program generalizing env with
  | nil => exact ⟨rfl, rfl⟩
  | cons step more ih =>
    obtain ⟨now, later⟩ := List.forall_mem_cons.mp spares
    have moved := @apply_replace env name index v step.statement now
    have moved' : (env.replace name index v).execute step =
        ((env.execute step).1.replace name index v, (env.execute step).2) := by
      simp only [execute, moved]
    constructor
    · rw [environmentFrom_cons, moved', environmentFrom_cons]
      exact (ih later).1
    · simp only [diagnosticsFrom, moved', (ih later).2]

theorem get?_of_get?_environmentFrom {b : ArrayValue}
    (spares : ∀ step ∈ program, Spares name index step.statement)
    (found : (environmentFrom env program).get? name = some b) :
    ∃ a, env.get? name = some a ∧ a.kind = b.kind ∧ a.length = b.length := by
  induction program generalizing env with
  | nil => exact ⟨b, found, rfl, rfl⟩
  | cons step more ih =>
    obtain ⟨now, later⟩ := List.forall_mem_cons.mp spares
    obtain ⟨c, found', kind, length⟩ := ih later found
    obtain ⟨a, old, kind', length'⟩ := get?_of_get?_apply now.1 found'
    exact ⟨a, old, kind'.trans kind, length'.trans length⟩

/-- `q` is `p` with `v` written to `name[index]`: in place of the value of an update that all later
steps spare, or by a new update at the end. -/
inductive Written (name : Text) (index : Nat) (v : Value) : Program → Program → Prop where
  | amended {front back : Program} {location : Location} {i : Int64} {w : Value} :
      i.toInt = index → (∀ step ∈ back, Spares name index step.statement) →
      Written name index v (front ++ ⟨location, .update name i w⟩ :: back)
        (front ++ ⟨location, .update name i v⟩ :: back)
  | appended {program : Program} {location : Location} {i : Int64} :
      i.toInt = index → Written name index v program (program ++ [⟨location, .update name i v⟩])

theorem replay_of_written {p q : Program} (written : Written name index v p q)
    (found : p.environment.get? name = some a) (inside : index < a.length)
    (kind : v.kind = a.kind) :
    q.environment = p.environment.replace name index v ∧
      q.replay.diagnostics = p.replay.diagnostics := by
  have uncoerced : v.coerce a.kind = v := kind ▸ Value.coerce_kind v
  simp only [replay, replayFrom_eq]
  cases written with
  | @amended front back location i w here spares =>
    rw [environment, environmentFrom_append, environmentFrom_cons] at found
    -- From the update on nothing reshapes the array: it was there before, and just as long.
    obtain ⟨b, found', kind', length'⟩ := get?_of_get?_environmentFrom spares found
    obtain ⟨c, old, kind'', length''⟩ :=
      @get?_of_get?_apply _ name b (.update name i w) rfl found'
    have inside' : index < c.length := by omega
    have uncoerced' : v.coerce c.kind = v := by rwa [kind'', kind']
    have before := execute_update old here inside' w location
    have behind := execute_update old here inside' v location
    rw [uncoerced', ← replace_replace _ _ _ (w.coerce c.kind)] at behind
    obtain ⟨same, silent⟩ := @environmentFrom_replace
      ((environmentFrom .empty front).replace name index (w.coerce c.kind)) name index v back spares
    constructor
    · simp only [environment, environmentFrom_append, environmentFrom_cons, before, behind, same]
    · simp only [diagnosticsFrom_append, diagnosticsFrom, before, behind, silent]
  | @appended _ location i here =>
    have behind := execute_update found here inside v location
    rw [uncoerced] at behind
    constructor
    · rw [environment, environmentFrom_append]
      exact congrArg Prod.fst behind
    · rw [diagnosticsFrom_append, diagnosticsFrom, ← environment, behind]
      exact List.append_nil _

end Program
end ArrayReplay
