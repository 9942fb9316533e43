import ArrayReplay.Proofs.Notation.Written
import ArrayReplay.Proofs.Text.Trimming
import ArrayReplay.Replay.Diagnostic

namespace ArrayReplay

/-- The two diagnostics look the same to a reader. -/
def Diagnostic.Alike (d e : Diagnostic) : Prop :=
  d.severity = e.severity ∧ d.location.line = e.location.line ∧ d.message = e.message

instance (d e : Diagnostic) : Decidable (d.Alike e) :=
  inferInstanceAs (Decidable (_ ∧ _))

/-- The words begin with different letters, so none of them begins another. -/
theorem Severity.word_append {s t : Severity} {x y : Text}
    (same : s.word.toList ++ x = t.word.toList ++ y) : s = t ∧ x = y := by
  cases s <;> cases t <;> simp_all [word]

theorem Numeral.ofNat_append {m n : Nat} {x y : Text}
    (same : ofNat m ++ ':' :: x = ofNat n ++ ':' :: y) : m = n ∧ x = y := by
  have digits (n : Nat) : ∀ c ∈ ofNat n, c.isDigit = true := fun _ => isDigit_of_mem_ofNat
  have front := congrArg (List.takeWhile Char.isDigit) same
  have back := congrArg (List.dropWhile Char.isDigit) same
  rw [Text.takeWhile_exact (digits m) rfl, Text.takeWhile_exact (digits n) rfl] at front
  rw [Text.dropWhile_exact (digits m) rfl, Text.dropWhile_exact (digits n) rfl] at back
  constructor
  · rw [← value_ofNat m, front, value_ofNat]
  · exact (List.cons.inj back).2

namespace Diagnostic

theorem toList_text (d : Diagnostic) :
    d.text.toList = d.severity.word.toList ++ (" at line ".toList ++
      (Numeral.ofNat d.location.line ++ ':' :: ' ' :: d.message.toList)) := by
  simp [text, Numeral.ofNat, String.toList_append]

theorem text_eq_iff {d e : Diagnostic} : d.text = e.text ↔ d.Alike e := by
  constructor
  · intro same
    have whole := congrArg String.toList same
    rw [toList_text, toList_text] at whole
    obtain ⟨severity, rest⟩ := Severity.word_append whole
    obtain ⟨line, rest⟩ := Numeral.ofNat_append (List.append_cancel_left rest)
    exact ⟨severity, line, String.toList_inj.mp (List.cons.inj rest).2⟩
  · intro alike
    obtain ⟨severity, line, message⟩ := alike
    simp only [text, severity, line, message]

end Diagnostic
end ArrayReplay
