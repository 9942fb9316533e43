import ArrayReplay.Proofs.Replay.Elements
import ArrayReplay.Proofs.Replay.Separation
import Mathlib.Data.List.Nodup

/-! Environments as catalogues. A catalogue keeps a table of the arrays and, apart from it, a list of
their names, and nothing but the operations on the two makes them agree. A run leads to the same arrays
in the same order either way, so no name is listed twice, lost or moved. -/
namespace ArrayReplay

theorem Text.find?_of_mem {name : Text} {l : List Text} (member : name ∈ l) :
    l.find? (· == name) = some name := by
  have some : (l.find? (· == name)).isSome := List.find?_isSome.mpr ⟨name, member, by simp⟩
  obtain ⟨found, hit⟩ := Option.isSome_iff_exists.mp some
  have same : found = name := by simpa using List.find?_some hit
  rw [hit, same]

instance : Hashable Text := ⟨fun t => hash (String.ofList t)⟩

/-- A table of arrays, and the names in the order in which they came. -/
structure Catalogue where
  table : Std.HashMap Text ArrayValue
  order : List Text

namespace Catalogue

def empty : Catalogue := ⟨∅, []⟩

def declare (c : Catalogue) (name : Text) (a : ArrayValue) : Catalogue :=
  ⟨c.table.insert name a, if c.table.contains name then c.order else c.order ++ [name]⟩

/-- Changes an array where it is in the table. The names are not looked at. -/
def change (c : Catalogue) (name : Text) (f : ArrayValue → Except IndexError ArrayValue) :
    Catalogue :=
  match c.table[name]? with
  | none => c
  | some a =>
    match f a with
    | .ok b => { c with table := c.table.insert name b }
    | .error _ => c

/-- The values that a declaration of this size keeps, unless it is refused. -/
def kept? (size : Int64) (values : List Value) : Option (List Value) :=
  if size.toInt = 0 then some values
  else if size.toInt < 0 ∨ values.length < size.toInt then none
  else some (values.take size.toInt.toNat)

def apply (c : Catalogue) : Statement → Catalogue
  | .declare kind name size values =>
    match kept? size values with
    | some kept => c.declare name (.ofValues kind kept)
    | none => c
  | .update name index v => c.change name (·.set index v)
  | .insert name index v => c.change name (·.insert index v)
  | .delete name index => c.change name (·.remove index)
  | .unterminated _ => c
  | .unreadable _ => c

def ofProgram (program : Program) : Catalogue :=
  program.foldl (fun c step => c.apply step.statement) empty

def entries (c : Catalogue) : List (Text × ArrayValue) :=
  c.order.filterMap fun name => c.table[name]?.map (name, ·)

def current? (c : Catalogue) (preferred : Option Text) : Option (Text × ArrayValue) :=
  ((preferred.bind fun p => c.order.find? (· == p)).or c.order.head?).bind fun name =>
    c.table[name]?.map (name, ·)

def Represents (c : Catalogue) (env : Environment) : Prop :=
  c.order = env.names ∧ ∀ name, c.table[name]? = env.get? name

end Catalogue

namespace Environment

variable {env : Environment} {name : Text} {a : ArrayValue}

/-- An environment in good order: its names are distinct and are those of its arrays, and an array
holds elements of its own kind only. -/
structure WellFormed (env : Environment) : Prop where
  nodup : env.names.Nodup
  contains_iff : ∀ name, env.contains name = true ↔ name ∈ env.names
  arrays_eq : env.arrays = env.names.filterMap fun name => (env.get? name).map (name, ·)
  length_eq : env.length = env.names.length
  current_preferred : ∀ name a, env.get? name = some a → env.current? (some name) = some (name, a)
  current_first : ∀ preferred, (∀ name, preferred = some name → name ∉ env.names) →
    env.current? preferred = env.arrays.head?
  current_eq_none : ∀ preferred, env.current? preferred = none ↔ env.names = []
  uniform : env.All fun _ a => a.Uniform

theorem get?_of_mem (distinct : env.names.Nodup) {e : Text × ArrayValue} (member : e ∈ env.arrays) :
    env.get? e.1 = some e.2 := by
  obtain ⟨a, found⟩ := mem_names_iff.mp (List.mem_map_of_mem member)
  have same := List.inj_on_of_nodup_map distinct (mem_of_get? found) member rfl
  rw [found, ← same]

theorem get?_eq_none_iff : env.get? name = none ↔ name ∉ env.names := by
  rw [mem_names_iff, Option.eq_none_iff_forall_ne_some, not_exists]

theorem entry?_eq_none (absent : name ∉ env.names) : env.entry? name = none :=
  Option.map_eq_none_iff.mp (get?_eq_none_iff.mpr absent)

theorem contains_iff_mem : env.contains name = true ↔ name ∈ env.names := by
  rw [mem_names_iff, ← Option.isSome_iff_exists, contains, get?, Option.isSome_map]

theorem arrays_eq_filterMap (distinct : env.names.Nodup) :
    env.arrays = env.names.filterMap fun name => (env.get? name).map (name, ·) := by
  have each : ∀ e ∈ env.arrays, some e = (env.get? e.1).map (e.1, ·) := by
    intro e member
    rw [get?_of_mem distinct member, Option.map_some]
  rw [names, List.filterMap_map]
  exact List.filterMap_some.symm.trans (List.filterMap_congr each)

theorem current?_of_absent {preferred : Option Text}
    (absent : ∀ name, preferred = some name → name ∉ env.names) :
    env.current? preferred = env.arrays.head? := by
  cases preferred with
  | none => rfl
  | some name => rw [current?, Option.bind_some, entry?_eq_none (absent name rfl), Option.none_or]

theorem current?_eq_none_iff {preferred : Option Text} :
    env.current? preferred = none ↔ env.names = [] := by
  constructor
  · intro none
    have first := (Option.or_eq_none_iff.mp none).2
    rw [names, List.head?_eq_none_iff.mp first]
    rfl
  · intro empty
    have arrays : env.arrays = [] := List.map_eq_nil_iff.mp empty
    rw [current?_of_absent fun name _ member => by simp [empty] at member, arrays]
    rfl

theorem wellFormed (distinct : env.names.Nodup) (uniform : env.All fun _ a => a.Uniform) :
    env.WellFormed where
  nodup := distinct
  contains_iff _ := contains_iff_mem
  arrays_eq := arrays_eq_filterMap distinct
  length_eq := (List.length_map _).symm
  current_preferred _ _ := current?_of_get?
  current_first _ := current?_of_absent
  current_eq_none _ := current?_eq_none_iff
  uniform := uniform

theorem prefix_names_apply (env : Environment) (s : Statement) :
    env.names <+: (env.apply s).1.names := by
  rw [names_apply]
  split
  · split
    · exact List.prefix_refl _
    · exact List.prefix_append _ _
  · exact List.prefix_refl _

end Environment

namespace Catalogue
open Environment

variable {c : Catalogue} {env : Environment} {name : Text}

theorem represents_empty : empty.Represents .empty :=
  ⟨rfl, fun _ => Std.HashMap.getElem?_empty⟩

theorem contains_iff (represents : c.Represents env) (name : Text) :
    c.table.contains name = true ↔ name ∈ env.names := by
  rw [mem_names_iff, ← represents.2, Std.HashMap.contains_eq_isSome_getElem?,
    Option.isSome_iff_exists]

theorem getElem?_insert (represents : c.Represents env) (a : ArrayValue) (other : Text) :
    (c.table.insert name a)[other]? = (env.declare name a).get? other := by
  rw [Std.HashMap.getElem?_insert]
  by_cases here : other = name
  · rw [here, get?_declare_self, if_pos (beq_self_eq_true name)]
  · rw [get?_declare_of_ne env here, if_neg (by simpa using Ne.symm here), represents.2]

theorem represents_declare (represents : c.Represents env) (name : Text) (a : ArrayValue) :
    (c.declare name a).Represents (env.declare name a) := by
  refine ⟨?_, getElem?_insert represents a⟩
  rw [names_declare, declare, represents.1]
  simp only [contains_iff represents]

/-- An array that is changed stays where it is, since its name is there. -/
theorem represents_change (represents : c.Represents env) (op : Operation) (name : Text)
    (f : ArrayValue → Except IndexError ArrayValue) :
    (c.change name f).Represents (env.operation op name f).1 := by
  have table := represents.2 name
  rcases operation_outcome op name f env with
    ⟨absent, same⟩ | ⟨a, e, found, failed, same⟩ | ⟨a, b, found, ok, written⟩
  · rw [same, change, table, absent]
    exact represents
  · rw [same, change, table, found]
    simp only [failed]
    exact represents
  · rw [written, change, table, found]
    simp only [ok]
    refine ⟨?_, getElem?_insert represents b⟩
    rw [names_declare, if_pos (mem_names found)]
    exact represents.1

theorem declaration_eq (kind : Kind) (name : Text) (size : Int64) (values : List Value)
    (env : Environment) :
    (declaration kind name size values env).1 = match kept? size values with
      | some kept => env.declare name (.ofValues kind kept)
      | none => env := by
  rcases declaration_outcome kind name size values env with
    ⟨whole, written⟩ | ⟨declares, short, written⟩ | ⟨refused, fault, -, -, same⟩
  · have kept : kept? size values = some values := by
      unfold kept?
      split
      · rfl
      · rw [if_neg (by omega), List.take_of_length_le (by omega)]
    rw [written, kept]
  · have kept : kept? size values = some (values.take size.toInt.toNat) := by
      rw [kept?, if_neg (by omega), if_neg (by omega)]
    rw [written, kept]
  · have kept : kept? size values = none := by
      rw [kept?, if_neg (by omega), if_pos refused]
    rw [same, kept]

theorem represents_apply (represents : c.Represents env) (s : Statement) :
    (c.apply s).Represents (env.apply s).1 := by
  cases s with
  | declare kind name size values =>
    rw [Environment.apply, declaration_eq, apply]
    cases kept? size values with
    | some kept => exact represents_declare represents name _
    | none => exact represents
  | update name index v => exact represents_change represents .update name (·.set index v)
  | insert name index v => exact represents_change represents .insert name (·.insert index v)
  | delete name index => exact represents_change represents .delete name (·.remove index)
  | unterminated line => exact represents
  | unreadable line => exact represents

theorem entries_eq (represents : c.Represents env) (distinct : env.names.Nodup) :
    c.entries = env.arrays := by
  simp only [entries, represents.1, represents.2]
  exact (arrays_eq_filterMap distinct).symm

theorem current?_eq (represents : c.Represents env) (distinct : env.names.Nodup)
    (preferred : Option Text) : c.current? preferred = env.current? preferred := by
  have held : ∀ e ∈ env.arrays, c.table[e.1]?.map (e.1, ·) = some e := by
    intro e member
    rw [represents.2, get?_of_mem distinct member, Option.map_some]
  have first : (c.order.head?.bind fun name => c.table[name]?.map (name, ·)) = env.arrays.head? := by
    rw [represents.1, names, List.head?_map]
    cases arrays : env.arrays with
    | nil => rfl
    | cons e more => exact held e (arrays ▸ List.mem_cons_self)
  cases preferred with
  | none => exact first
  | some p =>
    by_cases listed : p ∈ env.names
    · obtain ⟨a, found⟩ := mem_names_iff.mp listed
      have here : c.order.find? (· == p) = some p := Text.find?_of_mem (represents.1 ▸ listed)
      rw [current?_of_get? found, current?, Option.bind_some, here]
      exact held (p, a) (mem_of_get? found)
    · have absent : c.order.find? (· == p) = none := by
        rw [List.find?_eq_none, represents.1]
        rintro name member same
        exact listed (eq_of_beq same ▸ member)
      rw [current?_of_absent (by rintro _ ⟨⟩; exact listed), current?, Option.bind_some, absent,
        Option.none_or]
      exact first

end Catalogue

namespace Program
open Environment

theorem prefix_names_environmentFrom (env : Environment) (program : Program) :
    env.names <+: (environmentFrom env program).names := by
  induction program generalizing env with
  | nil => exact List.prefix_refl _
  | cons step more ih =>
    rw [environmentFrom_cons]
    exact (prefix_names_apply env step.statement).trans (ih _)

theorem represents_environment (program : Program) :
    (Catalogue.ofProgram program).Represents program.environment := by
  have run : ∀ c env, Catalogue.Represents c env →
      (program.foldl (fun c step => c.apply step.statement) c).Represents
        (environmentFrom env program) := by
    induction program with
    | nil => exact fun c env represents => represents
    | cons step more ih =>
      intro c env represents
      exact ih _ _ (Catalogue.represents_apply represents step.statement)
  exact run _ _ Catalogue.represents_empty

/-- Every run leads to an environment in good order, and a table and a list of names that are kept apart
from each other hold the same. No statement behind takes a name away or moves one. -/
theorem environment_wellFormed (program : Program) :
    let env := program.environment
    let catalogue := Catalogue.ofProgram program
    env.WellFormed ∧
      catalogue.order = env.names ∧
      (∀ name, catalogue.table[name]? = env.get? name) ∧
      (∀ name, catalogue.table.contains name = true ↔ name ∈ catalogue.order) ∧
      catalogue.entries = env.arrays ∧
      (∀ preferred, catalogue.current? preferred = env.current? preferred) ∧
      ∀ more, env.names <+: (environment (program ++ more)).names := by
  intro env catalogue
  have distinct : env.names.Nodup := nodup_names_environmentFrom List.nodup_nil
  have represents : catalogue.Represents env := represents_environment program
  refine ⟨wellFormed distinct (uniform_environment program), represents.1, represents.2,
    fun name => ?_, Catalogue.entries_eq represents distinct,
    Catalogue.current?_eq represents distinct, fun more => ?_⟩
  · rw [represents.1]
    exact Catalogue.contains_iff represents name
  · rw [environment, environmentFrom_append]
    exact prefix_names_environmentFrom _ more

end Program
end ArrayReplay
