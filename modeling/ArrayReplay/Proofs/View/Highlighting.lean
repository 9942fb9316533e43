import ArrayReplay.Proofs.Terminal.Cells
import ArrayReplay.View.Highlight

/-! Highlighting keeps the text. What is read but not yet cut off is held back as a word or a quotation;
cutting moves it into a span and nothing else does, so the spans and what is held back are the text read
so far at every character. A quotation is never empty, since it is held back from its opening quote on,
and an empty word is not cut. -/
namespace ArrayReplay.View

open Terminal

namespace Highlight

def Pending.held : Pending → Text
  | .word w => w
  | .quoted _ t => t

/-- A quotation holds its opening quote at least. -/
def Pending.Opened : Pending → Prop
  | .word _ => True
  | .quoted _ t => t ≠ []

theorem text_cut (word : Text) (next : Option Char) : Line.text (cut word next) = word := by
  cases word with
  | nil => rfl
  | cons c word => exact List.append_nil _

theorem ne_nil_of_mem_cut {word : Text} {next : Option Char} {s : Span} (member : s ∈ cut word next) :
    s.text ≠ [] := by
  cases word with
  | nil => cases member
  | cons c word =>
    rw [List.mem_singleton.mp member]
    exact List.cons_ne_nil c word

/-- The spans behind a point are the characters held back there and those still to be read. -/
theorem text_spans (p : Pending) (t : Text) : Line.text (spans p t) = p.held ++ t := by
  fun_induction spans p t with
  | case1 w =>
    rw [text_cut, Pending.held, List.append_nil]
  | case2 q t => rfl
  | case3 t q rest ih =>
    rw [Line.text_cons, ih]
    exact List.append_assoc t [q] rest
  | case4 q t c rest _ ih =>
    rw [ih]
    exact List.append_assoc t [c] rest
  | case5 w c rest _ =>
    rw [Line.text_append, text_cut, Line.text_cons]
    exact congrArg (w ++ ·) (List.append_nil _)
  | case6 w c rest _ _ ih =>
    rw [Line.text_append, text_cut, ih]
    rfl
  | case7 w c rest _ _ _ ih =>
    rw [ih]
    exact List.append_assoc w [c] rest
  | case8 w c rest _ _ _ ih =>
    rw [Line.text_append, text_cut, Line.text_cons, ih]
    rfl

theorem ne_nil_of_mem_spans {p : Pending} {t : Text} {s : Span} (opened : p.Opened)
    (member : s ∈ spans p t) : s.text ≠ [] := by
  fun_induction spans p t with
  | case1 w => exact ne_nil_of_mem_cut member
  | case2 q t =>
    rw [List.mem_singleton.mp member]
    exact opened
  | case3 t q rest ih =>
    rcases List.mem_cons.mp member with rfl | later
    · exact List.concat_ne_nil q t
    · exact ih trivial later
  | case4 q t c rest _ ih => exact ih (List.concat_ne_nil c t) member
  | case5 w c rest _ =>
    rcases List.mem_append.mp member with word | comment
    · exact ne_nil_of_mem_cut word
    · rw [List.mem_singleton.mp comment]
      exact List.cons_ne_nil c rest
  | case6 w c rest _ _ ih =>
    rcases List.mem_append.mp member with word | later
    · exact ne_nil_of_mem_cut word
    · exact ih (List.cons_ne_nil c []) later
  | case7 w c rest _ _ _ ih => exact ih trivial member
  | case8 w c rest _ _ _ ih =>
    rcases List.mem_append.mp member with word | later
    · exact ne_nil_of_mem_cut word
    · rcases List.mem_cons.mp later with rfl | later
      · exact List.cons_ne_nil c []
      · exact ih trivial later

end Highlight

/-- Highlighting a row leaves its characters as they are, in spans that are never empty. -/
theorem highlight_keeps_text (row : Text) :
    Line.text (highlight row) = row ∧ ∀ s ∈ highlight row, s.text ≠ [] :=
  ⟨Highlight.text_spans (.word []) row, fun _ => Highlight.ne_nil_of_mem_spans trivial⟩

example : (highlight "d[0] = -4.2.5;".toList).map Span.text =
    ["d", "[", "0", "]", " ", "=", " ", "-", "4.2", ".", "5", ";"].map String.toList := by
  decide +kernel

end ArrayReplay.View
