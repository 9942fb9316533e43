import ArrayReplay.Text.Rows

namespace ArrayReplay.Text

def Unbroken (rows : List Text) : Prop := ∀ row ∈ rows, '\n' ∉ row

theorem unbroken_append {above below : List Text} :
    Unbroken (above ++ below) ↔ Unbroken above ∧ Unbroken below :=
  List.forall_mem_append

theorem unbroken_cons {row : Text} {more : List Text} :
    Unbroken (row :: more) ↔ '\n' ∉ row ∧ Unbroken more :=
  List.forall_mem_cons

theorem unbroken_insert {above below : List Text} {new : Text} (fits : '\n' ∉ new)
    (unbroken : Unbroken (above ++ below)) : Unbroken (above ++ new :: below) := by
  obtain ⟨before, behind⟩ := unbroken_append.mp unbroken
  exact unbroken_append.mpr ⟨before, unbroken_cons.mpr ⟨fits, behind⟩⟩

theorem unbroken_replace {above below : List Text} {row new : Text} (fits : '\n' ∉ new)
    (unbroken : Unbroken (above ++ row :: below)) : Unbroken (above ++ new :: below) := by
  obtain ⟨before, behind⟩ := unbroken_append.mp unbroken
  exact unbroken_append.mpr ⟨before, unbroken_cons.mpr ⟨fits, (unbroken_cons.mp behind).2⟩⟩

theorem unbroken_rows (t : Text) : Unbroken (rows t) := by
  induction t with
  | nil => simp [rows, Unbroken]
  | cons c rest ih =>
    rw [rows]
    split
    · exact unbroken_cons.mpr ⟨by simp, ih⟩
    · next feed =>
      have inRow : '\n' ≠ c := fun same => feed same.symm
      cases found : rows rest with
      | nil => simpa [Unbroken] using inRow
      | cons row more =>
        rw [found] at ih
        have parts := unbroken_cons.mp ih
        exact unbroken_cons.mpr ⟨by simp [inRow, parts.1], parts.2⟩

theorem rows_of_not_mem {row : Text} (h : '\n' ∉ row) : rows row = [row] := by
  induction row with
  | nil => rfl
  | cons c row ih =>
    simp only [List.mem_cons, not_or] at h
    rw [rows, if_neg (fun same => h.1 same.symm), ih h.2]

theorem rows_append (s t : Text) : rows (s ++ '\n' :: t) = rows s ++ rows t := by
  induction s with
  | nil => simp [rows]
  | cons c s ih =>
    by_cases feed : c = '\n'
    · simp only [List.cons_append, rows, feed, if_true, ih]
    · simp only [List.cons_append, rows, feed, if_false, ih]
      cases found : rows s with
      | nil => exact absurd found (rows_ne_nil s)
      | cons row more => rfl

theorem rows_append_feed {row : Text} (h : '\n' ∉ row) (rest : Text) :
    rows (row ++ '\n' :: rest) = row :: rows rest := by
  rw [rows_append, rows_of_not_mem h]
  rfl

theorem rows_ofRows_eq_flatMap {rs : List Text} (filled : rs ≠ []) :
    rows (ofRows rs) = rs.flatMap rows := by
  induction rs with
  | nil => exact absurd rfl filled
  | cons row more ih =>
    cases more with
    | nil => simp [ofRows]
    | cons next more =>
      rw [ofRows_cons (by simp), rows_append, ih (by simp)]
      rfl

theorem flatMap_rows {rs : List Text} (unbroken : Unbroken rs) : rs.flatMap rows = rs := by
  induction rs with
  | nil => rfl
  | cons row more ih =>
    obtain ⟨fits, rest⟩ := unbroken_cons.mp unbroken
    rw [List.flatMap_cons, rows_of_not_mem fits, ih rest]
    rfl

theorem rows_ofRows {rs : List Text} (filled : rs ≠ []) (unbroken : Unbroken rs) :
    rows (ofRows rs) = rs := by
  rw [rows_ofRows_eq_flatMap filled, flatMap_rows unbroken]

end ArrayReplay.Text
