import ArrayReplay.Array.Environment

namespace ArrayReplay

structure History where
  /-- The environments after the start, newest first. -/
  later : List Environment
  bytes : Nat
deriving DecidableEq

namespace History

def start : History := ⟨[], 0⟩

def length (h : History) : Nat := h.later.length + 1

def latest (h : History) : Environment := h.later.head?.getD .empty

def toList (h : History) : List Environment := .empty :: h.later.reverse

def get? (h : History) (k : Nat) : Option Environment := h.toList[k]?

def push (h : History) (env : Environment) : History :=
  ⟨env :: h.later, h.bytes + env.byteSize⟩

def pop? (h : History) : Option (Environment × History) :=
  match h.later with
  | [] => none
  | env :: older => some (env, ⟨older, h.bytes - env.byteSize⟩)

@[simp] theorem toList_push (h : History) (env : Environment) :
    (h.push env).toList = h.toList ++ [env] := by
  simp [toList, push]

theorem getLast?_toList (h : History) : h.toList.getLast? = some h.latest := by
  cases later : h.later with
  | nil => simp [toList, latest, later]
  | cons env older => simp [toList, latest, later, List.getLast?_cons]

/-- A history that is longer than the start gives back what was pushed last. -/
theorem pop?_of_toList {h : History} {front : List Environment} {env : Environment}
    (filled : front ≠ []) (whole : h.toList = front ++ [env]) :
    ∃ older, h.pop? = some (env, older) ∧ older.toList = front := by
  unfold pop?
  cases later : h.later with
  | nil =>
    have length := congrArg List.length whole
    have := List.length_pos_iff.mpr filled
    simp only [toList, later, List.length_append, List.length_cons, List.reverse_nil,
      List.length_nil] at length
    omega
  | cons newest older =>
    have split : (.empty :: older.reverse) ++ [newest] = front ++ [env] := by
      rw [← whole, toList, later, List.reverse_cons]
      rfl
    obtain ⟨same, last⟩ := List.append_inj' split rfl
    cases last
    exact ⟨_, rfl, same⟩

@[simp] theorem length_toList (h : History) : h.toList.length = h.length := by
  simp [toList, length]

end History
end ArrayReplay
