import ArrayReplay.Proofs.Replay.Effects
import Mathlib.Data.List.Induction

namespace ArrayReplay

theorem Text.eraseDups_concat (l : List Text) (x : Text) :
    (l ++ [x]).eraseDups = if x ∈ l then l.eraseDups else l.eraseDups ++ [x] := by
  rw [List.eraseDups_append]
  by_cases old : x ∈ l
  · have gone : [x].removeAll l = [] := by simp [List.removeAll, old]
    rw [if_pos old, gone, List.eraseDups_nil, List.append_nil]
  · have kept : [x].removeAll l = [x] := by simp [List.removeAll, old]
    rw [if_neg old, kept]
    rfl

namespace Statement

/-- The name and the kind of the array that a statement declares. A declaration is refused if its size
is negative, or greater than the number of its values. -/
def declared? : Statement → Option (Text × Kind)
  | .declare kind name size values =>
    if 0 ≤ size.toInt ∧ (0 < size.toInt → size.toInt ≤ values.length) then some (name, kind)
    else none
  | _ => none

theorem target_of_declared {s : Statement} {name : Text} {kind : Kind}
    (declares : s.declared? = some (name, kind)) : s.target? = some name := by
  cases s with
  | declare kind' name' size values =>
    simp only [declared?] at declares
    split at declares
    · cases declares
      rfl
    · cases declares
  | _ => cases declares

end Statement

def Diagnostic.concerns (name : Text) (d : Diagnostic) : Bool := d.fault.target? = some name

namespace Environment

variable {env other : Environment} {s : Statement} {name : Text} {kind : Kind} {a b : ArrayValue}

theorem target_of_writes (writes : Writes env s name b) : s.target? = some name := by
  cases writes <;> rfl

theorem get?_apply_of_ne (apart : s.target? ≠ some name) :
    (env.apply s).1.get? name = env.get? name := by
  rcases apply_cases env s with same | ⟨target, b, writes, written⟩
  · rw [same]
  · rw [written]
    apply get?_declare_of_ne
    rintro rfl
    exact apart (target_of_writes writes)

theorem target_of_operation {op : Operation} {change : ArrayValue → Except IndexError ArrayValue}
    {fault : Fault} (found : (operation op name change env).2 = some fault) :
    fault.target? = some name := by
  rcases operation_outcome op name change env with
    ⟨-, same⟩ | ⟨a, e, -, -, same⟩ | ⟨a, b, -, -, written⟩
  · rw [same] at found
    cases found
  · rw [same] at found
    cases found
    rfl
  · rw [written] at found
    cases found

theorem target_of_declaration {size : Int64} {values : List Value} {fault : Fault}
    (found : (declaration kind name size values env).2 = some fault) :
    fault.target? = some name := by
  rcases declaration_outcome kind name size values env with
    ⟨-, written⟩ | ⟨-, -, written⟩ | ⟨-, refusal, -, target, same⟩
  · rw [written] at found
    cases found
  · rw [written] at found
    cases found
    rfl
  · rw [same] at found
    cases found
    exact target

theorem target_of_fault {fault : Fault} (found : (env.apply s).2 = some fault) :
    fault.target? = s.target? := by
  cases s with
  | declare kind name size values => exact target_of_declaration found
  | update name index v => exact target_of_operation found
  | insert name index v => exact target_of_operation found
  | delete name index => exact target_of_operation found
  | unterminated line =>
    cases found
    rfl
  | unreadable line => cases found

theorem target_of_diagnostic {step : Step} {d : Diagnostic}
    (member : d ∈ (env.execute step).2.toList) : d.fault.target? = step.statement.target? := by
  obtain ⟨fault, found, rfl⟩ := Option.map_eq_some_iff.mp (Option.mem_toList.mp member)
  exact target_of_fault found

theorem operation_local (op : Operation) (change : ArrayValue → Except IndexError ArrayValue)
    (same : env.get? name = other.get? name) :
    (operation op name change env).1.get? name = (operation op name change other).1.get? name ∧
      (operation op name change env).2 = (operation op name change other).2 := by
  unfold operation
  rw [← same]
  cases found : env.get? name with
  | none => exact ⟨same, rfl⟩
  | some a =>
    cases changed : change a with
    | error e =>
      simp only [changed]
      exact ⟨same, trivial⟩
    | ok b =>
      simp only [changed, get?_declare_self]
      exact ⟨trivial, trivial⟩

theorem declaration_local (kind : Kind) (size : Int64) (values : List Value)
    (same : env.get? name = other.get? name) :
    (declaration kind name size values env).1.get? name =
        (declaration kind name size values other).1.get? name ∧
      (declaration kind name size values env).2 = (declaration kind name size values other).2 := by
  simp only [declaration]
  split
  · exact ⟨same, rfl⟩
  · split
    · simp only [get?_declare_self, and_self]
    · split
      · simp only [get?_declare_self, and_self]
      · exact ⟨same, rfl⟩

/-- A statement looks at no array but its own. -/
theorem apply_local (own : s.target? = some name) (same : env.get? name = other.get? name) :
    (env.apply s).1.get? name = (other.apply s).1.get? name ∧
      (env.apply s).2 = (other.apply s).2 := by
  cases s with
  | declare kind target size values =>
    cases own
    exact declaration_local kind size values same
  | update target index v =>
    cases own
    exact operation_local .update _ same
  | insert target index v =>
    cases own
    exact operation_local .insert _ same
  | delete target index =>
    cases own
    exact operation_local .delete _ same
  | unterminated line => cases own
  | unreadable line => cases own

theorem execute_local {step : Step} (own : step.statement.target? = some name)
    (same : env.get? name = other.get? name) :
    (env.execute step).1.get? name = (other.execute step).1.get? name ∧
      (env.execute step).2 = (other.execute step).2 := by
  obtain ⟨next, faults⟩ := apply_local own same
  exact ⟨next, congrArg (Option.map _) faults⟩

theorem apply_of_declared (declares : s.declared? = some (name, kind)) :
    ∃ a, a.kind = kind ∧ ∀ env : Environment, (env.apply s).1 = env.declare name a := by
  cases s with
  | declare kind' name' size values =>
    simp only [Statement.declared?] at declares
    split at declares
    · next accepted =>
      obtain ⟨nonneg, long⟩ := accepted
      cases declares
      by_cases whole : size.toInt.toNat = 0 ∨ values.length = size.toInt.toNat
      · refine ⟨.ofValues kind values, rfl, fun env => ?_⟩
        simp only [apply, declaration]
        rw [if_neg (by omega), if_pos whole]
      · refine ⟨.ofValues kind (values.take size.toInt.toNat), rfl, fun env => ?_⟩
        simp only [apply, declaration]
        rw [if_neg (by omega), if_neg whole, if_pos (by omega)]
    · cases declares
  | _ => cases declares

/-- Without a declaration, an array is changed only if it is there, and keeps its kind. -/
theorem apply_of_undeclared (refused : s.declared? = none) (env : Environment) :
    (env.apply s).1 = env ∨ ∃ name a b, env.get? name = some a ∧
      (env.apply s).1 = env.declare name b ∧ b.kind = a.kind := by
  rcases apply_cases env s with same | ⟨name, b, writes, written⟩
  · exact .inl same
  · cases writes with
    | @declare kind name size values kept part fits =>
      have accepted : 0 ≤ size.toInt ∧ (0 < size.toInt → size.toInt ≤ values.length) := by
        have := part.length_le
        omega
      rw [Statement.declared?, if_pos accepted] at refused
      cases refused
    | @update _ _ _ a _ found ok =>
      obtain ⟨i, -, rfl⟩ := ArrayValue.set_eq_ok ok
      exact .inr ⟨_, a, _, found, written, rfl⟩
    | @insert _ _ _ a _ found ok =>
      obtain ⟨i, -, rfl⟩ := ArrayValue.insert_eq_ok ok
      exact .inr ⟨_, a, _, found, written, rfl⟩
    | @delete _ _ a _ found ok =>
      obtain ⟨i, -, rfl⟩ := ArrayValue.remove_eq_ok ok
      exact .inr ⟨_, a, _, found, written, rfl⟩

theorem kind_apply (refused : ∀ kind, s.declared? ≠ some (name, kind)) :
    ((env.apply s).1.get? name).map ArrayValue.kind = (env.get? name).map ArrayValue.kind := by
  cases declares : s.declared? with
  | some entry =>
    obtain ⟨target, kind⟩ := entry
    have apart : target ≠ name := by
      rintro rfl
      exact refused kind declares
    rw [get?_apply_of_ne]
    rw [Statement.target_of_declared declares]
    exact fun same => apart (Option.some.inj same)
  | none =>
    rcases apply_of_undeclared declares env with same | ⟨target, a, b, found, written, kind⟩
    · rw [same]
    · rw [written]
      by_cases here : name = target
      · subst here
        rw [get?_declare_self, found, Option.map_some, Option.map_some, kind]
      · rw [get?_declare_of_ne env here]

theorem mem_names_iff : name ∈ env.names ↔ ∃ a, env.get? name = some a := by
  constructor
  · intro member
    obtain ⟨e, entry, rfl⟩ := List.mem_map.mp member
    cases found : env.get? e.1 with
    | some a => exact ⟨a, rfl⟩
    | none =>
      have absent := Option.map_eq_none_iff.mp found
      exact absurd entry (by simpa using List.find?_eq_none.mp absent e)
  · rintro ⟨a, found⟩
    exact mem_names found

theorem names_apply (env : Environment) (s : Statement) :
    (env.apply s).1.names = match s.declared? with
      | some (name, _) => if name ∈ env.names then env.names else env.names ++ [name]
      | none => env.names := by
  cases declares : s.declared? with
  | some entry =>
    obtain ⟨a, -, written⟩ := apply_of_declared declares
    rw [written, names_declare]
  | none =>
    rcases apply_of_undeclared declares env with same | ⟨target, a, b, found, written, -⟩
    · rw [same]
    · rw [written, names_declare, if_pos (mem_names found)]

theorem nodup_names_apply (distinct : env.names.Nodup) : (env.apply s).1.names.Nodup := by
  rw [names_apply]
  split
  · split
    · exact distinct
    · next new =>
      refine List.nodup_append.mpr ⟨distinct, by simp, fun x member y last => ?_⟩
      rw [List.mem_singleton.mp last]
      rintro rfl
      exact new member
  · exact distinct

end Environment

namespace Program
open Environment

variable {env other : Environment} {name : Text} {program : Program} {step : Step}

def about (name : Text) (program : Program) : Program :=
  program.filter fun step => step.statement.target? = some name

def declaredNames (program : Program) : List Text :=
  program.filterMap fun step => step.statement.declared?.map Prod.fst

theorem get?_environmentFrom_about (same : env.get? name = other.get? name) :
    (environmentFrom env program).get? name =
      (environmentFrom other (about name program)).get? name := by
  induction program generalizing env other with
  | nil => exact same
  | cons step more ih =>
    rw [environmentFrom_cons]
    by_cases own : step.statement.target? = some name
    · rw [about, List.filter_cons_of_pos (by simpa using own), environmentFrom_cons]
      exact ih (apply_local own same).1
    · rw [about, List.filter_cons_of_neg (by simpa using own)]
      exact ih ((get?_apply_of_ne own).trans same)

theorem get?_environmentFrom_congr (same : env.get? name = other.get? name) (program : Program) :
    (environmentFrom env program).get? name = (environmentFrom other program).get? name := by
  have first := @get?_environmentFrom_about env other name program same
  have second := @get?_environmentFrom_about other other name program rfl
  exact first.trans second.symm

theorem diagnostics_about (same : env.get? name = other.get? name) :
    (diagnosticsFrom env program).filter (Diagnostic.concerns name) =
      diagnosticsFrom other (about name program) := by
  induction program generalizing env other with
  | nil => rfl
  | cons step more ih =>
    rw [diagnosticsFrom, List.filter_append]
    by_cases own : step.statement.target? = some name
    · have all : ∀ d ∈ (env.execute step).2.toList, d.concerns name = true := by
        intro d member
        simp [Diagnostic.concerns, target_of_diagnostic member, own]
      obtain ⟨next, found⟩ := execute_local own same
      rw [List.filter_eq_self.mpr all, about, List.filter_cons_of_pos (by simpa using own),
        diagnosticsFrom, ih next, found]
      rfl
    · have none : ∀ d ∈ (env.execute step).2.toList, ¬ d.concerns name = true := by
        intro d member
        simp [Diagnostic.concerns, target_of_diagnostic member, own]
      rw [List.filter_eq_nil_iff.mpr none, List.nil_append, about,
        List.filter_cons_of_neg (by simpa using own)]
      exact ih ((get?_apply_of_ne own).trans same)

/- An array is there from its first declaration on, and a later one makes it anew. -/
theorem kind_environmentFrom
    (refused : ∀ step ∈ program, ∀ kind, step.statement.declared? ≠ some (name, kind)) :
    ((environmentFrom env program).get? name).map ArrayValue.kind =
      (env.get? name).map ArrayValue.kind := by
  induction program generalizing env with
  | nil => rfl
  | cons step more ih =>
    obtain ⟨now, later⟩ := List.forall_mem_cons.mp refused
    rw [environmentFrom_cons, ih later]
    exact kind_apply now

theorem nodup_names_environmentFrom (distinct : env.names.Nodup) :
    (environmentFrom env program).names.Nodup := by
  induction program generalizing env with
  | nil => exact distinct
  | cons step more ih =>
    apply ih
    exact nodup_names_apply distinct

theorem names_environment (program : Program) :
    program.environment.names = program.declaredNames.eraseDups := by
  -- The names after a step are known from those before it, so the last step is split off.
  induction program using List.reverseRecOn with
  | nil => rfl
  | append_singleton program step ih =>
    have last : (environment (program ++ [step])).names =
        ((environment program).apply step.statement).1.names := by
      rw [environment, environmentFrom_append]
      rfl
    rw [last, names_apply, declaredNames, List.filterMap_append]
    change _ = (declaredNames program ++ _).eraseDups
    cases declares : step.statement.declared? with
    | none => simp [declares, ih]
    | some entry =>
      simp [declares, ih, Text.eraseDups_concat, List.mem_eraseDups]

theorem mem_declaredNames : name ∈ program.declaredNames ↔
    ∃ step ∈ program, ∃ kind, step.statement.declared? = some (name, kind) := by
  simp [declaredNames]

theorem exists_last_declared (declared : name ∈ program.declaredNames) :
    ∃ front last back kind, program = front ++ last :: back ∧
      last.statement.declared? = some (name, kind) ∧ name ∉ declaredNames back := by
  induction program with
  | nil => cases declared
  | cons step more ih =>
    by_cases later : name ∈ declaredNames more
    · obtain ⟨front, last, back, kind, rfl, declares, refused⟩ := ih later
      exact ⟨step :: front, last, back, kind, rfl, declares, refused⟩
    · obtain ⟨first, member, kind, declares⟩ := mem_declaredNames.mp declared
      rcases List.mem_cons.mp member with rfl | behind
      · exact ⟨[], first, more, kind, rfl, declares, later⟩
      · exact absurd (mem_declaredNames.mpr ⟨first, behind, kind, declares⟩) later

theorem declaredNames_about : name ∈ declaredNames (about name program) ↔
    name ∈ program.declaredNames := by
  simp only [mem_declaredNames, about, List.mem_filter, decide_eq_true_eq]
  constructor
  · rintro ⟨step, ⟨member, -⟩, kind, declares⟩
    exact ⟨step, member, kind, declares⟩
  · rintro ⟨step, member, kind, declares⟩
    exact ⟨step, ⟨member, Statement.target_of_declared declares⟩, kind, declares⟩

/-- An array is what its last declaration and the steps behind it make it. -/
theorem exists_last_of_get? {a : ArrayValue} (found : program.environment.get? name = some a)
    (declared : name ∈ program.declaredNames) :
    ∃ front last back, program = front ++ last :: back ∧
      last.statement.declared? = some (name, a.kind) ∧ name ∉ declaredNames back ∧
      (environment (last :: back)).get? name = some a := by
  obtain ⟨front, last, back, kind, rfl, declares, refused⟩ := exists_last_declared declared
  obtain ⟨b, kind', written⟩ := apply_of_declared declares
  have anew : ∀ env : Environment, (env.execute last).1.get? name = some b := by
    intro env
    exact (congrArg (Environment.get? · name) (written env)).trans (get?_declare_self env name b)
  have same : (environment (front ++ last :: back)).get? name =
      (environment (last :: back)).get? name := by
    rw [environment, environmentFrom_append, environmentFrom_cons, environment, environmentFrom_cons]
    exact get?_environmentFrom_congr ((anew _).trans (anew _).symm) back
  have kept : a.kind = kind := by
    have none : ∀ step ∈ back, ∀ kind, step.statement.declared? ≠ some (name, kind) := by
      intro step member kind again
      exact refused (mem_declaredNames.mpr ⟨step, member, kind, again⟩)
    have kinds := @kind_environmentFrom (Environment.empty.execute last).1 name back none
    rw [same] at found
    rw [anew, ← environmentFrom_cons, ← environment, found] at kinds
    exact (Option.some.inj kinds).trans kind'
  refine ⟨front, last, back, rfl, ?_, refused, same.symm.trans found⟩
  rw [declares, kept]

/-- An array and its diagnostics come from the steps about it; it is there if one of them declares it,
and only the steps from the last such on count. The names are in the order of first declaration. -/
theorem replay_separates (program : Program) (name : Text) :
    let own := program.about name
    let env := program.replay.environment
    env.get? name = own.replay.environment.get? name ∧
      program.replay.diagnostics.filter (Diagnostic.concerns name) = own.replay.diagnostics ∧
      ((∃ a, env.get? name = some a) ↔
        ∃ step ∈ program, ∃ kind, step.statement.declared? = some (name, kind)) ∧
      (∀ a, env.get? name = some a → ∃ front last back, own = front ++ last :: back ∧
        last.statement.declared? = some (name, a.kind) ∧
        (∀ step ∈ back, ∀ kind, step.statement.declared? ≠ some (name, kind)) ∧
        (replay (last :: back)).environment.get? name = some a) ∧
      env.names = (program.filterMap fun step => step.statement.declared?.map Prod.fst).eraseDups ∧
      env.names.Nodup := by
  intro own env
  have whole : env = program.environment := environment_replay program
  have names := names_environment program
  have listed : (∃ a, env.get? name = some a) ↔ name ∈ program.declaredNames := by
    rw [← mem_names_iff, whole, names, List.mem_eraseDups]
  have apart : env.get? name = (environment own).get? name := by
    rw [whole]
    exact get?_environmentFrom_about rfl
  refine ⟨?_, ?_, listed.trans mem_declaredNames, fun a found => ?_, ?_, ?_⟩
  · rw [apart, environment_replay]
  · simp only [replay, replayFrom_eq]
    exact diagnostics_about rfl
  · have declared := declaredNames_about.mpr (listed.mp ⟨a, found⟩)
    obtain ⟨front, last, back, split, declares, refused, alone⟩ :=
      exists_last_of_get? (apart.symm.trans found) declared
    refine ⟨front, last, back, split, declares, fun step member kind again => ?_, ?_⟩
    · exact refused (mem_declaredNames.mpr ⟨step, member, kind, again⟩)
    · rw [environment_replay]
      exact alone
  · rw [whole, names]
    rfl
  · rw [whole]
    exact nodup_names_environmentFrom List.nodup_nil

/-- A name that is declared again with another kind, between statements about another array. -/
theorem replay_separates_redeclared :
    let program := ofSource
      "int a[1] = {1};\nint b[2] = {5};\nint c[1] = {7};\nchar a[] = \"xy\";\na[9] = 'q';".toList
    program.replay.environment.get? ['a'] = some ⟨.char, [.char 'x', .char 'y']⟩ ∧
      program.replay.diagnostics.filter (Diagnostic.concerns ['a']) =
        [⟨.outOfRange ['a'] .update 9 2, ⟨5, 1⟩⟩] ∧
      program.replay.environment.names = [['a'], ['c']] ∧
      ∃ front last back, about ['a'] program = front ++ last :: back ∧
        last.statement.declared? = some (['a'], .char) ∧
        (replay (last :: back)).environment.get? ['a'] =
          some ⟨.char, [.char 'x', .char 'y']⟩ := by
  intro program
  have found : program.replay.environment.get? ['a'] = some ⟨.char, [.char 'x', .char 'y']⟩ := by
    decide +kernel
  have alone : (replay (about ['a'] program)).diagnostics =
      [⟨.outOfRange ['a'] .update 9 2, ⟨5, 1⟩⟩] := by decide +kernel
  have declared : (program.filterMap fun step => step.statement.declared?.map Prod.fst).eraseDups =
      [['a'], ['c']] := by decide +kernel
  obtain ⟨-, diagnostics, -, lasts, names, -⟩ := replay_separates program ['a']
  obtain ⟨front, last, back, split, declares, -, anew⟩ := lasts _ found
  exact ⟨found, diagnostics.trans alone, names.trans declared, front, last, back, split, declares, anew⟩

end Program
end ArrayReplay
