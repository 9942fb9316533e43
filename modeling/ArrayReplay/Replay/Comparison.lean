import ArrayReplay.Array.Environment

namespace ArrayReplay

def Binary64.equal : Binary64 → Binary64 → Bool
  | .infinite s, .infinite t => s == t
  | .finite s p _, .finite t q _ => decide (signed s p = signed t q)
  | _, _ => false

def Value.equal : Value → Value → Bool
  | .int n, .int m => n == m
  | .double x, .double y => x.equal y
  | .char c, .char d => c == d
  | _, _ => false

def ArrayValue.equal (a b : ArrayValue) : Bool :=
  a.kind == b.kind && a.elements.isEqv b.elements Value.equal

/-- The same names in the same order, with equal arrays. -/
def Environment.equal (env other : Environment) : Bool :=
  env.arrays.isEqv other.arrays fun e f => e.1 == f.1 && e.2.equal f.2

namespace Binary64

theorem equal_self_iff {x : Binary64} : x.equal x = true ↔ x ≠ .nan := by
  cases x <;> simp [equal]

end Binary64

theorem isEqv_self {α : Type} {same : α → α → Bool} {l : List α} (h : ∀ x ∈ l, same x x = true) :
    l.isEqv l same = true := by
  induction l with
  | nil => rfl
  | cons x more ih =>
    obtain ⟨now, later⟩ := List.forall_mem_cons.mp h
    simp only [List.isEqv, now, ih later, Bool.and_self]

theorem Value.equal_self_iff {v : Value} : v.equal v = true ↔ v ≠ .double .nan := by
  cases v with
  | int n => simp [equal]
  | double x => simp [equal, Binary64.equal_self_iff]
  | char c => simp [equal]

theorem ArrayValue.equal_self {a : ArrayValue} (h : ∀ v ∈ a.elements, v ≠ .double .nan) :
    a.equal a = true := by
  simp only [equal, beq_self_eq_true, Bool.true_and]
  exact isEqv_self fun v member => Value.equal_self_iff.mpr (h v member)

theorem Environment.equal_self {env : Environment}
    (h : ∀ e ∈ env.arrays, ∀ v ∈ e.2.elements, v ≠ .double .nan) : env.equal env = true :=
  isEqv_self fun e member => by
    simp only [beq_self_eq_true, Bool.true_and, ArrayValue.equal_self (h e member)]

end ArrayReplay
