import ArrayReplay.Editing.WriteBack
import ArrayReplay.Proofs.Notation.Operations

namespace ArrayReplay.WriteBack
open Grammar Program

theorem literalLength_append {old : Text} {v : Value} {x : Char} (isLiteral : IsLiteral old v)
    (ends : x = ';' ∨ Reader.isGap x = true) (rest : Text) :
    literalLength (old ++ x :: rest) = old.length := by
  by_cases char : v.kind = .char
  · obtain ⟨c, -, rfl⟩ := Reader.isChar_shape isLiteral char
    rfl
  · have numeral := isNumeral_of_isLiteral isLiteral char
    obtain ⟨y, more, rfl, -⟩ := Reader.isNumber_solid isLiteral char
    have quote : ¬ y = '\'' := by
      intro same
      subst same
      exact absurd (numeral '\'' List.mem_cons_self) (by decide)
    have inside : ∀ c ∈ y :: more, (!(c == ';' || Text.isBlank c)) = true := by
      intro c member
      rcases numeral c member with rfl | rfl | digit
      · decide
      · decide
      · have noEnd : c ≠ ';' := by
          intro same
          subst same
          cases digit
        simp [noEnd, isBlank_eq_false_of_isDigit digit]
    have outside : (!(x == ';' || Text.isBlank x)) = false := by
      rcases ends with rfl | gap
      · decide
      · simp [isBlank_of_isGap gap]
    unfold literalLength
    rw [if_neg (by simpa using quote), Text.takeWhile_exact inside outside]

theorem exchange_eq {front gap old rest : Text} {v : Value} {x : Char} (absent : '=' ∉ front)
    (isGap : Gap gap) (isLiteral : IsLiteral old v) (ends : x = ';' ∨ Reader.isGap x = true)
    (literal : Text) :
    exchange literal (front ++ '=' :: (gap ++ old ++ x :: rest)) =
      front ++ '=' :: (gap ++ literal ++ x :: rest) := by
  have apart := Text.bne_of_not_mem absent
  have blank : Text.Blanks gap := fun c member =>
    isBlank_of_isGap (Reader.gap_iff.mp isGap c member)
  have solid : ∀ c, (old ++ x :: rest).head? = some c → Text.isBlank c = false := by
    obtain ⟨y, more, rfl, visible⟩ := exists_head isLiteral
    intro c head
    cases head
    exact visible
  have value : Text.trimStart (gap ++ old ++ x :: rest) = old ++ x :: rest := by
    rw [List.append_assoc, Text.trimStart_append blank]
    exact Text.dropWhile_eq_self solid
  have indent : Text.indent (gap ++ old ++ x :: rest) = gap := by
    rw [List.append_assoc, Text.indent_append blank, Text.indent, Text.takeWhile_eq_nil solid,
      List.append_nil]
  unfold exchange
  rw [Text.dropWhile_exact apart (by decide), Text.takeWhile_exact apart (by decide)]
  simp only [value, indent, literalLength_append isLiteral ends, List.drop_left]
  simp

variable {name literal row : Text} {index : Nat} {i : Int64} {v w : Value}

/-- A row that holds an update can be cut around its literal. Any other literal fits into the gap, and
is the one that is exchanged there. -/
theorem exists_slot (reads : Statement.ofLine row = .update name i w) :
    ∃ before old after, row = before ++ old ++ after ∧ IsLiteral old w ∧
      ∀ literal v, IsLiteral literal v →
        Sentence (Text.trim (before ++ literal ++ after)) (.update name i v) ∧
          Text.indent (before ++ literal ++ after) = Text.indent row ∧
          ∀ new, exchange new (before ++ literal ++ after) = before ++ new ++ after := by
  obtain ⟨tail, blank, whole⟩ := Text.exists_trim row
  obtain ⟨front, gap, old, x, rest, cut, absent, filled, isGap, isOld, ends, others⟩ :=
    exists_literal (Statement.sentence_of_ofLine reads rfl)
  have indented : '=' ∉ Text.indent row ++ front := by
    have noSign : '=' ∉ Text.indent row := by
      intro member
      exact absurd (Text.blanks_indent row '=' member) (by decide)
    simp [noSign, absent]
  have trimmed := Text.trimmed_trim row
  rw [cut] at whole trimmed
  refine ⟨Text.indent row ++ front ++ '=' :: gap, old, x :: (rest ++ tail), by simpa using whole,
    isOld, fun literal v isLiteral => ?_⟩
  have row_eq : Text.indent row ++ front ++ '=' :: gap ++ literal ++ x :: (rest ++ tail) =
      Text.indent row ++ (front ++ '=' :: (gap ++ literal ++ x :: rest)) ++ tail := by simp
  have trimmed' : Text.Trimmed (front ++ '=' :: (gap ++ literal ++ x :: rest)) :=
    @Text.trimmed_exchange front ('=' :: (gap ++ old)) rest x filled trimmed
      ('=' :: (gap ++ literal))
  have nonempty : front ++ '=' :: (gap ++ literal ++ x :: rest) ≠ [] := by simp
  refine ⟨?_, ?_, fun new => ?_⟩
  · rw [row_eq, Text.trim_append (Text.blanks_indent row) trimmed' blank]
    exact others literal v isLiteral
  · rw [row_eq]
    exact Text.indent_eq (Text.blanks_indent row) trimmed' nonempty
  · have exchanged := @exchange_eq _ gap literal (rest ++ tail) v x indented isGap isLiteral ends new
    simpa using exchanged

theorem exchange_update (reads : Statement.ofLine row = .update name i w)
    (isLiteral : IsLiteral literal v) :
    Sentence (Text.trim (exchange literal row)) (.update name i v) ∧
      Text.indent (exchange literal row) = Text.indent row ∧
      ∀ c ∈ exchange literal row, c ∈ row ∨ c ∈ literal := by
  obtain ⟨before, old, after, whole, isOld, slot⟩ := exists_slot reads
  have exchanged : exchange literal row = before ++ literal ++ after := by
    rw [congrArg (exchange literal) whole, (slot old w isOld).2.2]
  obtain ⟨isSentence, indent, -⟩ := slot literal v isLiteral
  rw [exchanged]
  refine ⟨isSentence, indent, fun c member => ?_⟩
  rw [whole]
  simp only [List.mem_append] at member ⊢
  rcases member with (early | new) | late
  · exact .inl (.inl (.inl early))
  · exact .inr new
  · exact .inl (.inr late)

theorem isInteger_ofNat (index : Nat) (here : i.toInt = index) :
    IsInteger (Numeral.ofNat index) i :=
  @Value.isInteger_of_digits false index i here

theorem sentence_updateRow (plain : IsPlainName name) (here : i.toInt = index)
    (isLiteral : IsLiteral literal v) :
    Sentence (Text.trim (updateRow name index literal)) (.update name i v) := by
  have form := Form.update plain (isInteger_ofNat index here) isLiteral
  have spaced := spaced_assignment name (Numeral.ofNat index) literal
  obtain ⟨x, rest, rfl, start, -⟩ := Reader.isName_iff.mp plain.1
  exact sentence_of_spaced form spaced start

theorem ofLine_updateRow_keyword (k : Kind) (index : Nat) (literal : Text) :
    Statement.ofLine (updateRow k.keyword index literal) =
      .unreadable (updateRow k.keyword index literal) := by
  have unread := @Statement.ofLine_keyword k '[' (Numeral.ofNat index ++ [']', ' ', '=', ' '] ++ literal)
    (by decide) (by decide)
  simpa [updateRow] using unread

theorem feed_not_mem_name (isName : IsName name) : '\n' ∉ name := by
  obtain ⟨x, rest, -, -, parts⟩ := Reader.isName_iff.mp isName
  intro member
  exact absurd (parts '\n' member) (by decide)

theorem feed_not_mem_updateRow (isName : IsName name) (fits : '\n' ∉ literal) :
    '\n' ∉ updateRow name index literal := by
  have digits := Value.feed_not_mem_digits (Numeral.digits_ofNat index)
  simp [updateRow, feed_not_mem_name isName, digits, fits]

end ArrayReplay.WriteBack
