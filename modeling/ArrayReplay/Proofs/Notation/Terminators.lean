import ArrayReplay.Proofs.Notation.Shapes
import ArrayReplay.Proofs.Replay.Sources
import Mathlib.Data.List.Basic
import Mathlib.Data.List.Induction

/-! Lines that lack their semicolon. The last character of a form is neither blank nor a semicolon, so
a semicolon at the end of a text is the terminator unless it belongs to a comment, and gaps are all
that may stand in front of it. -/
namespace ArrayReplay.Grammar

def Solid (c : Char) : Prop := Text.isBlank c = false ∧ c ≠ ';'

/-- A statement up to the place of its semicolon. -/
def Phrase (t : Text) (s : Statement) : Prop :=
  ∃ pieces front gap, Form pieces s ∧ Spaced pieces front ∧ Gap gap ∧ t = front ++ gap

variable {t tail gap : Text} {s : Statement} {c : Char}

theorem solid_of_numeral (h : c = '-' ∨ c = '.' ∨ c.isDigit = true) : Solid c := by
  rcases h with rfl | rfl | digit
  · exact ⟨by decide, by decide⟩
  · exact ⟨by decide, by decide⟩
  · refine ⟨isBlank_eq_false_of_isDigit digit, ?_⟩
    rintro rfl
    cases digit

theorem exists_last_of_literal {v : Value} (isLiteral : IsLiteral t v) :
    ∃ front c, t = front ++ [c] ∧ Solid c := by
  by_cases char : v.kind = .char
  · obtain ⟨x, -, rfl⟩ := Reader.isChar_shape isLiteral char
    exact ⟨['\'', x], '\'', rfl, by decide, by decide⟩
  · obtain ⟨y, more, rfl, -⟩ := exists_head isLiteral
    obtain ⟨front, c, same⟩ := (List.eq_nil_or_concat' (y :: more)).resolve_left (by simp)
    refine ⟨front, c, same, solid_of_numeral ?_⟩
    exact isNumeral_of_isLiteral isLiteral char c (by simp [same])

theorem exists_last {pieces : List Text} (form : Form pieces s) :
    ∃ ps p c, pieces = ps ++ [p ++ [c]] ∧ Solid c := by
  cases form with
  | @declare kind name sizePieces _ _ _ g blank isName isSize isInitializer =>
    generalize kind.keyword ++ [g] = word
    cases isInitializer with
    | @characters content noQuote =>
      exact ⟨word :: name :: ['['] :: sizePieces ++ [[']'], ['=']], '"' :: content, '"', by simp,
        by decide, by decide⟩
    | empty list =>
      exact ⟨word :: name :: ['['] :: sizePieces ++ [[']'], ['='], ['{']], [], '}', by simp,
        by decide, by decide⟩
    | @items _ items _ list isItems =>
      exact ⟨word :: name :: ['['] :: sizePieces ++ [']'] :: ['='] :: ['{'] :: items, [], '}', by simp,
        by decide, by decide⟩
  | @update name i l _ _ plain isInteger isLiteral =>
    obtain ⟨front, c, rfl, solid⟩ := exists_last_of_literal isLiteral
    exact ⟨[name, ['['], i, [']'], ['=']], front, c, rfl, solid⟩
  | @insert name i l _ _ plain isInteger isLiteral =>
    exact ⟨[name, ['.'], ['i', 'n', 's', 'e', 'r', 't'], ['('], i, [','], l], [], ')', rfl,
      by decide, by decide⟩
  | @delete name word i _ plain isInteger isWord =>
    exact ⟨[name, ['.'], word, ['('], i], [], ')', rfl, by decide, by decide⟩

theorem phrase_append (phrase : Phrase t s) (isGap : Gap gap) : Phrase (t ++ gap) s := by
  obtain ⟨pieces, front, gap', form, spaced, isGap', rfl⟩ := phrase
  exact ⟨pieces, front, gap' ++ gap, form, spaced, Reader.gap_append.mpr ⟨isGap', isGap⟩, by simp⟩

theorem phrase_concat (phrase : Phrase (t ++ [c]) s) : Gap [c] ∧ Phrase t s ∨ Solid c := by
  obtain ⟨pieces, front, gap, form, spaced, isGap, whole⟩ := phrase
  rcases List.eq_nil_or_concat' gap with rfl | ⟨gap, y, rfl⟩
  · obtain ⟨ps, p, x, rfl, solid⟩ := exists_last form
    obtain ⟨first, last, rfl, -, final⟩ := spaced_append.mp spaced
    obtain ⟨gap, -, rfl⟩ := spaced_single.mp final
    right
    simp only [List.append_nil, ← List.append_assoc] at whole
    obtain ⟨-, same⟩ := List.append_inj' whole rfl
    cases same
    exact solid
  · obtain ⟨before, last⟩ := Reader.gap_append.mp isGap
    rw [← List.append_assoc] at whole
    obtain ⟨rfl, same⟩ := List.append_inj' whole rfl
    cases same
    exact .inl ⟨last, pieces, front, gap, form, spaced, before, rfl⟩

theorem sentence_of_phrase (phrase : Phrase t s) : Sentence (t ++ [';']) s := by
  obtain ⟨pieces, front, gap, form, spaced, isGap, rfl⟩ := phrase
  refine ⟨pieces, front ++ (gap ++ [';']), [], [], form, ?_, List.forall_mem_nil _, .inl rfl, by simp⟩
  exact spaced_append.mpr ⟨front, _, rfl, spaced, spaced_single.mpr ⟨gap, isGap, rfl⟩⟩

/-- A sentence without its last character: that was the end of a gap or of a comment, or it was the
terminator, or it was the second stroke of an empty comment. -/
theorem sentence_concat (isSentence : Sentence (t ++ [c]) s) :
    Sentence t s ∨ c = ';' ∧ Phrase t s ∨ c = '/' := by
  obtain ⟨pieces, front, gap, tail, form, spaced, isGap, isTail, whole⟩ := isSentence
  rcases isTail with rfl | ⟨comment, rfl⟩
  · rw [List.append_nil] at whole
    rcases List.eq_nil_or_concat' gap with rfl | ⟨gap, y, rfl⟩
    · obtain ⟨first, last, rfl, before, final⟩ := spaced_append.mp spaced
      obtain ⟨gap, isGap, rfl⟩ := spaced_single.mp final
      simp only [List.append_nil, ← List.append_assoc] at whole
      obtain ⟨rfl, same⟩ := List.append_inj' whole rfl
      cases same
      exact .inr (.inl ⟨rfl, pieces, first, gap, form, before, isGap, rfl⟩)
    · rw [← List.append_assoc] at whole
      obtain ⟨rfl, -⟩ := List.append_inj' whole rfl
      exact .inl ⟨pieces, front, gap, [], form, spaced, (Reader.gap_append.mp isGap).1, .inl rfl, by simp⟩
  · rcases List.eq_nil_or_concat' comment with rfl | ⟨comment, y, rfl⟩
    · have same : t ++ [c] = (front ++ gap ++ ['/']) ++ ['/'] := by simpa using whole
      cases (List.append_inj' same rfl).2
      exact .inr (.inr rfl)
    · have same : t ++ [c] = (front ++ gap ++ '/' :: '/' :: comment) ++ [y] := by simpa using whole
      obtain ⟨rfl, -⟩ := List.append_inj' same rfl
      exact .inl ⟨pieces, front, gap, _, form, spaced, isGap, .inr ⟨comment, rfl⟩, rfl⟩

theorem sentence_of_append_blanks (blank : Text.Blanks tail) (isSentence : Sentence (t ++ tail) s) :
    Sentence t s := by
  induction tail using List.reverseRecOn with
  | nil => rwa [List.append_nil] at isSentence
  | append_singleton tail c ih =>
    obtain ⟨blanks, last⟩ := List.forall_mem_append.mp blank
    have isBlank := last c (by simp)
    rw [← List.append_assoc] at isSentence
    rcases sentence_concat isSentence with before | ⟨rfl, -⟩ | rfl
    · exact ih blanks before
    · cases isBlank
    · cases isBlank

theorem phrase_of_append_blanks (blank : Text.Blanks tail) (phrase : Phrase (t ++ tail) s) :
    Gap tail ∧ Phrase t s := by
  induction tail using List.reverseRecOn with
  | nil => exact ⟨List.forall_mem_nil _, by rwa [List.append_nil] at phrase⟩
  | append_singleton tail c ih =>
    obtain ⟨blanks, last⟩ := List.forall_mem_append.mp blank
    rw [← List.append_assoc] at phrase
    rcases phrase_concat phrase with ⟨isGap, before⟩ | solid
    · obtain ⟨gaps, whole⟩ := ih blanks before
      exact ⟨Reader.gap_append.mpr ⟨gaps, isGap⟩, whole⟩
    · have solid := solid.1
      rw [last c (by simp)] at solid
      cases solid

/-- A semicolon behind blanks ends a comment or terminates what stands in front of the blanks. -/
theorem sentence_terminated (blank : Text.Blanks tail) (isSentence : Sentence (t ++ tail ++ [';']) s) :
    Sentence t s ∨ Gap tail ∧ Phrase t s := by
  rcases sentence_concat isSentence with before | ⟨-, phrase⟩ | impossible
  · exact .inl (sentence_of_append_blanks blank before)
  · exact .inr (phrase_of_append_blanks blank phrase)
  · cases impossible

theorem not_phrase_concat : ¬ Phrase (t ++ [';']) s := by
  intro phrase
  rcases phrase_concat phrase with ⟨isGap, -⟩ | solid
  · exact absurd (isGap ';' (by simp)) (by decide)
  · exact solid.2 rfl

end ArrayReplay.Grammar

namespace ArrayReplay.Statement
open Grammar

variable {line t tail : Text} {s : Statement}

theorem recognized_of_isOperation (operation : s.isOperation = true) : s.recognized = true := by
  cases s with
  | declare => cases operation
  | update => rfl
  | insert => rfl
  | delete => rfl
  | unterminated => cases operation
  | unreadable => cases operation

theorem recognized_eq_false_iff :
    (ofLine line).recognized = false ↔ ∀ s, ¬ Sentence (Text.trim line) s := by
  constructor
  · intro unknown s isSentence
    rw [ofLine_of_sentence isSentence, recognized_of_sentence isSentence] at unknown
    cases unknown
  · intro none
    rw [← Bool.not_eq_true]
    exact fun known => none _ (sentence_of_ofLine rfl known)

theorem isOperation_iff :
    (ofLine line).isOperation = true ↔ ∃ s, s.isOperation = true ∧ Sentence (Text.trim line) s := by
  constructor
  · intro operation
    exact ⟨_, operation, sentence_of_ofLine rfl (recognized_of_isOperation operation)⟩
  · rintro ⟨s, operation, isSentence⟩
    rwa [ofLine_of_sentence isSentence]

theorem lacksTerminator_iff : lacksTerminator t = true ↔
    t.getLast? ≠ some ';' ∧ ∃ s, s.isOperation = true ∧ Sentence (t ++ [';']) s := by
  unfold lacksTerminator
  rw [Bool.and_eq_true, decide_eq_true_iff]
  refine and_congr_right fun _ => ?_
  cases reads : read (t ++ [';']) with
  | ok s =>
    have isSentence := read_eq_ok_iff.mp reads
    constructor
    · exact fun operation => ⟨s, operation, isSentence⟩
    · rintro ⟨s', operation, other⟩
      rw [← read_eq_ok_iff, reads] at other
      cases other
      exact operation
  | error e =>
    constructor
    · exact fun impossible => nomatch impossible
    · rintro ⟨s', -, other⟩
      rw [← read_eq_ok_iff, reads] at other
      cases other

theorem getLast?_ne_of_terminated (none : ∀ s, ¬ Sentence t s) (isSentence : Sentence (t ++ [';']) s) :
    t.getLast? ≠ some ';' := by
  intro last
  obtain ⟨front, rfl⟩ := List.getLast?_eq_some_iff.mp last
  rcases sentence_concat isSentence with before | ⟨-, phrase⟩ | impossible
  · exact none s before
  · exact not_phrase_concat phrase
  · cases impossible

theorem trimmed_terminated (head : ∀ c, t.head? = some c → Text.isBlank c = false) :
    Text.Trimmed (t ++ [';']) := by
  constructor
  · intro c first
    cases t with
    | nil =>
      cases first
      decide
    | cons x rest => exact head c first
  · intro c last
    rw [List.getLast?_concat] at last
    cases last
    decide

theorem ne_nil_of_terminated (isSentence : Sentence (t ++ [';']) s) : t ≠ [] := by
  rintro rfl
  obtain ⟨x, rest, same, start⟩ := exists_start isSentence (trimmed_terminated nofun)
  cases same
  cases start

theorem ofLine_eq_unterminated_iff {u : Text} : ofLine line = .unterminated u ↔
    u = Text.trim line ∧ (∀ s, ¬ Sentence (Text.trim line) s) ∧
      ∃ s, s.isOperation = true ∧ Sentence (Text.trim line ++ [';']) s := by
  constructor
  · intro hinted
    have none : ∀ s, ¬ Sentence (Text.trim line) s := by
      rw [← recognized_eq_false_iff, hinted]
      rfl
    unfold ofLine at hinted
    cases reads : read (Text.trim line) with
    | ok s => exact absurd (read_eq_ok_iff.mp reads) (none s)
    | error e =>
      simp only [reads] at hinted
      split at hinted
      · next lacks =>
        cases hinted
        exact ⟨rfl, none, (lacksTerminator_iff.mp lacks).2⟩
      · cases hinted
  · rintro ⟨rfl, none, s, operation, isSentence⟩
    have lacks := lacksTerminator_iff.mpr
      ⟨getLast?_ne_of_terminated none isSentence, s, operation, isSentence⟩
    unfold ofLine
    cases reads : read (Text.trim line) with
    | ok s => exact absurd (read_eq_ok_iff.mp reads) (none s)
    | error e => simp only [reads, lacks, if_true]

theorem trim_terminated {front : Text} (before : Text.Blanks front) (trimmed : Text.Trimmed t)
    (filled : t ≠ []) (tail : Text) :
    Text.trim (front ++ t ++ tail ++ [';']) = t ++ tail ++ [';'] := by
  have trimmed' : Text.Trimmed (t ++ tail ++ [';']) :=
    trimmed_terminated (trimmed.head_append filled)
  have whole := Text.trim_append before trimmed' (List.forall_mem_nil _)
  simpa using whole

/-- A line is reported as unterminated exactly when its text is no statement and becomes an update, an
insertion or a deletion by a semicolon directly behind it. Behind the whole line a semicolon does the
same as long as gaps alone stand between; behind any other blank it leaves the line unreadable. -/
theorem unterminated_iff (line : Text) :
    let t := Text.trim line
    (∀ u, ofLine line = .unterminated u ↔
      u = t ∧ (ofLine t).recognized = false ∧ (ofLine (t ++ [';'])).isOperation = true) ∧
    ∃ tail, line = Text.indent line ++ t ++ tail ∧ Text.Blanks tail ∧
      (ofLine line = .unterminated t →
        (Gap tail → ofLine (line ++ [';']) = ofLine (t ++ [';'])) ∧
        (¬ Gap tail → (ofLine (line ++ [';'])).recognized = false)) := by
  intro t
  have trimmed := Text.trimmed_trim line
  have same := Text.trim_of_trimmed trimmed
  have same' := Text.trim_of_trimmed (trimmed_terminated trimmed.head)
  refine ⟨fun u => ?_, ?_⟩
  · rw [ofLine_eq_unterminated_iff, recognized_eq_false_iff, isOperation_iff, same, same']
  · obtain ⟨tail, blank, whole⟩ := Text.exists_trim line
    refine ⟨tail, whole, blank, fun hinted => ?_⟩
    obtain ⟨-, none, s, operation, isSentence⟩ := ofLine_eq_unterminated_iff.mp hinted
    have behind : Text.trim (line ++ [';']) = t ++ tail ++ [';'] := by
      have filled := ne_nil_of_terminated isSentence
      have := trim_terminated (Text.blanks_indent line) trimmed filled tail
      rwa [← whole] at this
    constructor
    · intro isGap
      obtain ⟨-, phrase⟩ := (sentence_terminated (List.forall_mem_nil _)
        (by rwa [List.append_nil])).resolve_left (none s)
      have extended := sentence_of_phrase (phrase_append phrase isGap)
      rw [ofLine_of_sentence (behind ▸ extended), ofLine_of_sentence (same' ▸ isSentence)]
    · intro noGap
      rw [recognized_eq_false_iff, behind]
      intro s' other
      rcases sentence_terminated blank other with before | ⟨isGap, -⟩
      · exact none s' before
      · exact noGap isGap

/-- Between the text and the new semicolon stands a tab. -/
theorem unterminated_iff_tab :
    let line := "  a[0] = 6\t".toList
    let t := "a[0] = 6".toList
    ofLine line = .unterminated t ∧ Gap ['\t'] ∧ ofLine (line ++ [';']) = ofLine (t ++ [';']) := by
  intro line t
  have hinted : ofLine line = .unterminated t := by decide +kernel
  have isGap : Gap ['\t'] := by simp [Gap]
  obtain ⟨-, tail, whole, -, ends⟩ := unterminated_iff line
  have front : Text.indent line ++ Text.trim line = "  a[0] = 6".toList := by decide +kernel
  have text : Text.trim line = t := by decide +kernel
  have same : "  a[0] = 6".toList ++ ['\t'] = "  a[0] = 6".toList ++ tail := front ▸ whole
  obtain rfl := List.append_cancel_left same
  rw [text] at ends
  exact ⟨hinted, isGap, (ends hinted).1 isGap⟩

/-- Not every line that is reported as unterminated is terminated by a semicolon at its end. -/
theorem not_terminated_behind_blank : ¬ ∀ line u, ofLine line = .unterminated u →
    (ofLine (line ++ [';'])).isOperation = true := by
  intro terminated
  have hinted : ofLine "a[0] = 6\u00a0".toList = .unterminated "a[0] = 6".toList := by
    decide +kernel
  exact absurd (terminated _ _ hinted) (by decide +kernel)

end ArrayReplay.Statement
