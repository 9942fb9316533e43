import ArrayReplay.Proofs.Notation.Shapes
import ArrayReplay.Proofs.Notation.Written

namespace ArrayReplay
namespace Grammar
open Cursor Reader

def Opens (t : Text) : Prop := ∃ gap l v more, t = gap ++ l ++ more ∧ Gap gap ∧ IsLiteral l v

variable {t l more gap : Text} {v : Value}

theorem opens_append (opens : Opens t) (tail : Text) : Opens (t ++ tail) := by
  obtain ⟨gap, l, v, more, rfl, isGap, isLiteral⟩ := opens
  exact ⟨gap, l, v, more ++ tail, by simp, isGap, isLiteral⟩

theorem literal_of_opens (blank : Text.Blanks gap)
    (visible : ∀ c, t.head? = some c → Text.isBlank c = false) (opens : Opens (gap ++ t)) :
    ∃ l v more, t = l ++ more ∧ IsLiteral l v := by
  obtain ⟨gap', l, v, more, same, isGap, isLiteral⟩ := opens
  have blank' : Text.Blanks gap' := fun c member => isBlank_of_isGap (Reader.gap_iff.mp isGap c member)
  obtain ⟨y, l', rfl, solid⟩ := exists_head isLiteral
  have trimmed := congrArg Text.trimStart same
  rw [Text.trimStart_append blank, Text.trimStart, Text.dropWhile_eq_self visible, List.append_assoc,
    Text.trimStart_append blank', Text.trimStart, Text.dropWhile_eq_self (by simpa using solid)] at trimmed
  exact ⟨_, v, more, trimmed, isLiteral⟩

theorem begins_of_digits {negative : Bool} {digits : Text} (filled : digits ≠ [])
    (all : Digits digits) (more : Text) : ∃ x rest,
      sign negative ++ digits ++ more = sign negative ++ x :: rest ∧ (x = '.' ∨ x.isDigit = true) := by
  cases digits with
  | nil => exact absurd rfl filled
  | cons x rest => exact ⟨x, rest ++ more, by simp, .inr (all x (by simp))⟩

theorem begins_of_literal (isLiteral : IsLiteral l v) : (∃ c, l = ['\'', c, '\'']) ∨
    ∃ negative x rest, l = sign negative ++ x :: rest ∧ (x = '.' ∨ x.isDigit = true) := by
  cases isLiteral with
  | int isInteger =>
    cases isInteger with
    | @mk negative digits _ filled all =>
      obtain ⟨x, rest, same, begins⟩ := @begins_of_digits negative digits filled all []
      exact .inr ⟨negative, x, rest, by simpa using same, begins⟩
  | @double negative whole fraction all =>
    by_cases empty : whole = []
    · exact .inr ⟨negative, '.', fraction, by simp [empty], .inl rfl⟩
    · obtain ⟨x, rest, same, begins⟩ := @begins_of_digits negative whole empty all ('.' :: fraction)
      exact .inr ⟨negative, x, rest, same, begins⟩
  | char c => exact .inl ⟨c, rfl⟩

theorem not_literal_of_foreign {negative : Bool} {x : Char}
    (foreign : x ∉ ['\'', '-', '.'] ∧ x.isDigit = false) (rest : Text)
    (isLiteral : IsLiteral l v) : sign negative ++ x :: rest ≠ l ++ more := by
  intro same
  obtain ⟨⟨noQuote, noSign, noPoint⟩, noDigit⟩ :
      (x ≠ '\'' ∧ x ≠ '-' ∧ x ≠ '.') ∧ x.isDigit = false := by simpa using foreign
  rcases begins_of_literal isLiteral with ⟨c, rfl⟩ | ⟨negative', y, rest', rfl, begins⟩
  · cases negative with
    | false => exact noQuote (List.cons.inj same).1
    | true => cases (List.cons.inj same).1
  · have other : x ≠ y := by
      rintro rfl
      simp [noPoint, noDigit] at begins
    cases negative with
    | false =>
      cases negative' with
      | false => exact other (List.cons.inj same).1
      | true => exact noSign (List.cons.inj same).1
    | true =>
      cases negative' with
      | false =>
        rw [← (List.cons.inj same).1] at begins
        exact absurd begins (by decide)
      | true => exact other (List.cons.inj (List.cons.inj same).2).1

theorem not_literal_quote (isLiteral : IsLiteral l v) : ['\''] ≠ l ++ more := by
  intro same
  rcases begins_of_literal isLiteral with ⟨c, rfl⟩ | ⟨negative, y, rest, rfl, begins⟩
  · simpa using congrArg List.length same
  · cases negative with
    | false =>
      rw [← (List.cons.inj same).1] at begins
      exact absurd begins (by decide)
    | true => cases (List.cons.inj same).1

theorem not_opens_quote (blank : Text.Blanks gap) : ¬ Opens (gap ++ ['\'']) := by
  intro opens
  have visible : ∀ c, ['\''].head? = some c → Text.isBlank c = false := by
    intro c head
    cases head
    decide
  obtain ⟨l, v, more, same, isLiteral⟩ := literal_of_opens blank visible opens
  exact not_literal_quote isLiteral same

theorem exists_foreign {x : Binary64} (unwritable : ¬ (Value.double x).Writable) (t : Text) :
    ∃ negative c rest, x.text ++ t = sign negative ++ c :: rest ∧
      (c ∉ ['\'', '-', '.'] ∧ c.isDigit = false) ∧ Text.isBlank c = false := by
  cases x with
  | finite => exact absurd trivial unwritable
  | nan => exact ⟨false, 'N', _, rfl, by decide, by decide⟩
  | infinite s =>
    cases s with
    | false => exact ⟨false, 'i', _, rfl, by decide, by decide⟩
    | true => exact ⟨true, 'i', _, rfl, by decide, by decide⟩

theorem not_opens_of_unwritable {x : Binary64} (unwritable : ¬ (Value.double x).Writable)
    (blank : Text.Blanks gap) (t : Text) : ¬ Opens (gap ++ (x.text ++ t)) := by
  obtain ⟨negative, c, rest, same, foreign, solid⟩ := exists_foreign unwritable t
  intro opens
  rw [same] at opens
  have visible : ∀ y, (sign negative ++ c :: rest).head? = some y → Text.isBlank y = false := by
    intro y head
    cases negative with
    | false =>
      cases head
      exact solid
    | true =>
      cases head
      decide
  obtain ⟨l, v, more, same', isLiteral⟩ := literal_of_opens blank visible opens
  exact not_literal_of_foreign foreign rest isLiteral same'

end Grammar

namespace Value
open Cursor Grammar Reader

/-- The writable values are those whose text is a literal for them on a single row. -/
theorem writable_iff_reads {v : Value} {k : Kind} (kind : v.kind = k) :
    v.Writable ↔ '\n' ∉ v.text ∧
      ∃ w d, Reads literal (start v.text) w d ∧ d.ahead = [] ∧ w.coerce k = v := by
  constructor
  · intro writable
    have isLiteral := isLiteral_text writable
    have crosses : (start v.text).Crosses v.text ⟨v.text.length, []⟩ := crosses_start.mpr ⟨by simp, rfl⟩
    have ends : Ends v ⟨v.text.length, []⟩ := by
      cases v with
      | int n => exact ⟨nofun, nofun⟩
      | double x => exact nofun
      | char c => trivial
    refine ⟨feed_not_mem_literal isLiteral writable, v, ⟨v.text.length, []⟩, reads_literal.mpr ?_, rfl, ?_⟩
    · exact ⟨v.text, isLiteral, passes_single.mpr ⟨[], List.forall_mem_nil _, crosses⟩, ends⟩
    · rw [← kind, coerce_kind]
  · rintro ⟨fits, w, d, reads, -, -⟩
    obtain ⟨t, isLiteral, passes, -⟩ := reads_literal.mp reads
    obtain ⟨gap, isGap, crosses⟩ := passes_single.mp passes
    have opens : Opens v.text := ⟨gap, t, w, d.ahead, (crosses_start.mp crosses).1, isGap, isLiteral⟩
    cases v with
    | int n => trivial
    | char c => exact fun feed => fits (by simp [text, feed])
    | double x =>
      refine Classical.byContradiction fun unwritable => ?_
      refine not_opens_of_unwritable unwritable (List.forall_mem_nil _) [] ?_
      rw [List.nil_append, List.append_nil]
      exact opens

end Value
end ArrayReplay
