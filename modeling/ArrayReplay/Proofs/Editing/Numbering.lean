import ArrayReplay.Editing.WriteBack
import ArrayReplay.Proofs.Editing.Edits
import ArrayReplay.Proofs.Replay.Sources

namespace ArrayReplay

theorem Text.trim_trim (t : Text) : trim (trim t) = trim t := trim_of_trimmed (trimmed_trim t)

namespace Program

variable {n r : Nat} {rows : List Text} {row : Text} {step : Step}

theorem ofLines_eq (k : Nat) (rows : List Text) :
    ofLines (k + 1) rows = (rows.zipIdx k).filterMap fun (row, r) => step? (r + 1) row := by
  induction rows generalizing k with
  | nil => rfl
  | cons row more ih =>
    rw [ofLines, ih, List.zipIdx_cons]
    cases found : step? (k + 1) row <;> simp [found]

theorem line_of_mem (member : step ∈ ofLines n rows) :
    n ≤ step.location.line ∧ step.location.line < n + rows.length := by
  obtain ⟨i, row, place, number, -⟩ := exists_line_of_mem member
  have inside := (List.getElem?_eq_some_iff.mp place).1
  omega

theorem pairwise_ofLines (n : Nat) (rows : List Text) :
    (ofLines n rows).Pairwise fun s t => s.location.line < t.location.line := by
  induction rows generalizing n with
  | nil => exact .nil
  | cons row more ih =>
    refine List.pairwise_append.mpr ⟨?_, ih (n + 1), ?_⟩
    · cases step? n row <;> simp
    · intro s here t later
      have first := line_step? (Option.mem_toList.mp here)
      have behind := (line_of_mem later).1
      omega

theorem find?_step? (n : Nat) (row : Text) :
    (step? n row).toList.find? (fun step => step.location.line == n) = step? n row := by
  cases found : step? n row with
  | none => rfl
  | some step => simp [line_step? found]

theorem find?_ofLines (place : rows[r]? = some row) :
    (ofLines n rows).find? (fun step => step.location.line == n + r) = step? (n + r) row := by
  induction rows generalizing n r with
  | nil => cases place
  | cons first more ih =>
    rw [ofLines, List.find?_append]
    cases r with
    | zero =>
      cases place
      have behind : (ofLines (n + 1) more).find? (fun step => step.location.line == n) = none := by
        refine List.find?_eq_none.mpr fun step later => ?_
        have := (line_of_mem later).1
        simp only [beq_iff_eq]
        omega
      rw [Nat.add_zero, find?_step?, behind, Option.or_none]
    | succ r =>
      have before : (step? n first).toList.find? (fun step => step.location.line == n + (r + 1)) =
          none := by
        refine List.find?_eq_none.mpr fun step here => ?_
        have := line_step? (Option.mem_toList.mp here)
        simp only [beq_iff_eq]
        omega
      have rest := @ih (n + 1) r place
      rw [Nat.add_assoc, Nat.add_comm 1 r] at rest
      rw [before, Option.none_or, rest]

theorem statement?_eq (n : Nat) (row : Text) :
    WriteBack.statement? row = (step? n row).map Step.statement := by
  unfold WriteBack.statement? step?
  split <;> rfl

/-- The steps of a source are those of its rows that are neither blank nor comments, in order and under
the numbers of their rows, and what the write-back sees on a row is the step with its number. -/
theorem ofSource_numbered (source : Text) :
    let rows := Text.rows source
    let program := ofSource source
    program = rows.zipIdx.filterMap (fun (row, r) =>
        if isBlankOrComment row then none
        else some ⟨⟨r + 1, 1 + Text.byteSize (Text.indent row)⟩, Statement.ofLine row⟩) ∧
      program.Pairwise (fun s t => s.location.line < t.location.line) ∧
      (∀ step ∈ program, 1 ≤ step.location.line ∧ step.location.line ≤ rows.length) ∧
      (∀ r row, rows[r]? = some row → WriteBack.statement? row =
        (program.find? fun step => step.location.line == r + 1).map Step.statement) ∧
      (∀ row, Statement.ofLine (Text.trim row) = Statement.ofLine row) ∧
      ∀ text es, ((EditBuffer.ofText text).edits es).text = source →
        ((EditBuffer.ofText text).edits es).lines = rows := by
  intro rows program
  have whole : program = ofLines 1 rows := ofSource_eq source
  refine ⟨?_, ?_, fun step member => ?_, fun r row place => ?_, fun row => ?_, fun text es same => ?_⟩
  · rw [whole, ofLines_eq]
    simp only [step?, Nat.add_comm]
  · rw [whole]
    exact pairwise_ofLines 1 rows
  · have bounds := line_of_mem (whole ▸ member)
    omega
  · rw [whole, Nat.add_comm, find?_ofLines place]
    exact statement?_eq _ row
  · exact ofLine_of_trim (Text.trim_trim row)
  · let b := (EditBuffer.ofText text).edits es
    have unbroken : Text.Unbroken b.lines :=
      EditBuffer.unbroken_edits (EditBuffer.unbroken_ofText text) es
    have filled := List.ne_nil_of_length_pos (Nat.zero_lt_of_lt b.row_lt)
    exact (Text.rows_ofRows filled unbroken).symm.trans (congrArg Text.rows same)

example : (ofSource "a\r\n\u00a0b[0] = 1;\r\r\n// c\r\n\n\u2028\nd\n\n".toList).map Step.location =
    [⟨1, 1⟩, ⟨2, 3⟩, ⟨6, 1⟩] := by decide +kernel

end Program
end ArrayReplay
