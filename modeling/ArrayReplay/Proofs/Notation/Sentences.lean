import ArrayReplay.Proofs.Notation.Forms

namespace ArrayReplay.Statement
open Cursor Grammar Reader

variable {c d : Cursor} {s : Statement}

theorem isPlainName_iff {name : Text} :
    IsPlainName name ↔ IsName name ∧ Kind.ofKeyword? name = none := by
  refine and_congr_right fun _ => ?_
  constructor
  · intro plain
    cases word : Kind.ofKeyword? name with
    | none => rfl
    | some k => exact absurd (Kind.ofKeyword?_eq_some_iff.mp word) (plain k)
  · intro none k same
    rw [same, Kind.ofKeyword?_keyword] at none
    cases none

theorem isName_keyword (k : Kind) : IsName k.keyword := by
  cases k <;> exact isName_of_all rfl rfl

/-- Between two names there is a gap, and its first character may count as part of the first. -/
theorem passes_after_name {word name : Text} {ps : List Text} {m : Cursor}
    (first : Passes [word] c m) (stops : m.Stops isNamePart) (isName : IsName name)
    (rest : Passes (name :: ps) m d) :
    ∃ g, Gap [g] ∧ Passes ((word ++ [g]) :: name :: ps) c d := by
  obtain ⟨gap, blank, crosses⟩ := passes_single.mp first
  obtain ⟨more, m', blank', crosses', last⟩ := passes_cons.mp rest
  cases more with
  | nil =>
    obtain ⟨x, t, rfl, start, -⟩ := isName_iff.mp isName
    have part := stops x (head_of_crosses crosses')
    rw [isNamePart_of_isNameStart start] at part
    cases part
  | cons g more =>
    obtain ⟨e, single, inner⟩ := crosses_cons.mp crosses'
    have blanks := List.forall_mem_cons.mp blank'
    refine ⟨g, by simpa [Gap] using blanks.1, passes_step.mpr ⟨e, ?_, ?_⟩⟩
    · refine passes_single.mpr ⟨gap, blank, ?_⟩
      rw [← List.append_assoc]
      exact crosses.trans single
    · exact passes_cons.mpr ⟨more, m', blanks.2, inner, last⟩

theorem passes_keyword {word : Text} {g : Char} {ps : List Text} (blank : Gap [g])
    (passes : Passes ((word ++ [g]) :: ps) c d) :
    ∃ m e, Passes [word] c m ∧ m.Stops isNamePart ∧ m.Crosses [g] e ∧ Passes ps e d := by
  obtain ⟨gap, e, blank', crosses, rest⟩ := passes_cons.mp passes
  rw [← List.append_assoc] at crosses
  obtain ⟨m, first, single⟩ := crosses_append.mp crosses
  refine ⟨m, e, passes_single.mpr ⟨gap, blank', first⟩, ?_, single, rest⟩
  intro y head
  rw [head_of_crosses single] at head
  cases head
  rcases isGap_iff.mp (gap_iff.mp blank g (by simp)) with rfl | rfl | rfl <;> rfl

theorem body_sound (reads : Reads body c s d) : ∃ pieces, Form pieces s ∧ Passes pieces c d := by
  simp only [body, reads_bind] at reads
  obtain ⟨word, m, names, rest⟩ := reads
  obtain ⟨isName, first, stops⟩ := reads_identifier.mp names
  cases keyword : Kind.ofKeyword? word with
  | some kind =>
    rw [keyword] at rest
    cases Kind.ofKeyword?_eq_some_iff.mp keyword
    obtain ⟨name, sizePieces, n, valuePieces, vs, rfl, isName', isSize, isInitializer, passes⟩ :=
      declaration_sound rest
    obtain ⟨g, blank, whole⟩ := passes_after_name first stops isName' passes
    exact ⟨_, .declare blank isName' isSize isInitializer, whole⟩
  | none =>
    rw [keyword] at rest
    have plain : IsPlainName word := isPlainName_iff.mpr ⟨isName, keyword⟩
    obtain ⟨b, m', checks, rest⟩ := reads_bind.mp rest
    rcases reads_ite.mp rest with ⟨-, assigns⟩ | ⟨-, rest⟩
    · obtain ⟨i, l, index, v, rfl, isInteger, isLiteral, passes⟩ := assignment_sound assigns
      exact ⟨_, .update plain isInteger isLiteral,
        passes_step.mpr ⟨m, first, passes_check checks passes⟩⟩
    · obtain ⟨b', m'', checks', rest⟩ := reads_bind.mp rest
      rcases reads_ite.mp rest with ⟨-, calls⟩ | ⟨-, fails⟩
      · obtain ⟨method, i, index, pieces, isArgument, isInteger, passes⟩ := call_sound calls
        have whole := passes_step.mpr ⟨m, first, passes_check checks (passes_check checks' passes)⟩
        cases isArgument with
        | insert isLiteral => exact ⟨_, .insert plain isInteger isLiteral, whole⟩
        | delete word => exact ⟨_, .delete plain isInteger word, whole⟩
      · exact absurd fails not_reads_failAt

/- Each form is read up to the semicolon behind it. -/
theorem body_of_keyword {kind : Kind} {m : Cursor} (first : Passes [kind.keyword] c m)
    (stops : m.Stops isNamePart) (reads : Reads (declaration kind) m s d) : Reads body c s d := by
  simp only [body, reads_bind]
  refine ⟨kind.keyword, m, reads_identifier.mpr ⟨isName_keyword kind, first, stops⟩, ?_⟩
  rw [Kind.ofKeyword?_keyword]
  exact reads

theorem body_of_bracket {name p : Text} {ps : List Text} (plain : IsPlainName name)
    (passes : Passes (name :: ('[' :: p) :: ps) c d)
    (reads : ∀ m, Passes (('[' :: p) :: ps) m d → ∃ e, Reads (assignment name) m s e ∧
      Passes [[';']] e d) : ∃ e, Reads body c s e ∧ Passes [[';']] e d := by
  obtain ⟨isName, none⟩ := isPlainName_iff.mp plain
  obtain ⟨m, first, rest⟩ := passes_step.mp passes
  obtain ⟨m', checks, rest'⟩ := check_of_passes rest rfl '['
  obtain ⟨e, assigns, last⟩ := reads m' rest'
  refine ⟨e, ?_, last⟩
  simp only [body, reads_bind]
  refine ⟨name, m, reads_identifier.mpr ⟨isName, first, stops_name_of_passes rest rfl⟩, ?_⟩
  rw [none]
  exact reads_bind.mpr ⟨true, m', checks, reads_ite.mpr (.inl ⟨rfl, assigns⟩)⟩

theorem body_of_point {name p : Text} {ps : List Text} (plain : IsPlainName name)
    (passes : Passes (name :: ('.' :: p) :: ps) c d)
    (reads : ∀ m, Passes (('.' :: p) :: ps) m d → ∃ e, Reads (call name) m s e ∧
      Passes [[';']] e d) : ∃ e, Reads body c s e ∧ Passes [[';']] e d := by
  obtain ⟨isName, none⟩ := isPlainName_iff.mp plain
  obtain ⟨m, first, rest⟩ := passes_step.mp passes
  obtain ⟨m', checks, rest'⟩ := check_of_passes rest rfl '['
  obtain ⟨m'', checks', rest''⟩ := check_of_passes rest' rfl '.'
  obtain ⟨e, calls, last⟩ := reads m'' rest''
  refine ⟨e, ?_, last⟩
  simp only [body, reads_bind]
  refine ⟨name, m, reads_identifier.mpr ⟨isName, first, stops_name_of_passes rest rfl⟩, ?_⟩
  rw [none]
  exact reads_bind.mpr ⟨false, m', checks, reads_ite.mpr (.inr ⟨by decide,
    reads_bind.mpr ⟨true, m'', checks', reads_ite.mpr (.inl ⟨rfl, calls⟩)⟩⟩)⟩

theorem body_complete {pieces : List Text} (form : Form pieces s)
    (passes : Passes (pieces ++ [[';']]) c d) : ∃ e, Reads body c s e ∧ Passes [[';']] e d := by
  cases form with
  | @declare kind name sizePieces valuePieces n vs g blank isName isSize isInitializer =>
    obtain ⟨e, whole, last⟩ := passes_append.mp passes
    obtain ⟨m, m', first, stops, single, rest⟩ := passes_keyword blank whole
    have behind := passes_of_gap blank single rest
    exact ⟨e, body_of_keyword first stops
      (declaration_complete isName isSize isInitializer behind), last⟩
  | @update name i l _ _ plain isInteger isLiteral =>
    refine body_of_bracket plain passes fun m rest => ?_
    obtain ⟨e, whole, last⟩ :=
      (@passes_append m d [['['], i, [']'], ['='], l] [[';']]).mp rest
    exact ⟨e, assignment_complete isInteger isLiteral whole
      (ends_of_passes last rfl (by decide) _), last⟩
  | @insert name i l _ _ plain isInteger isLiteral =>
    refine body_of_point plain passes fun m rest => ?_
    obtain ⟨e, whole, last⟩ := (@passes_append m d
      [['.'], ['i', 'n', 's', 'e', 'r', 't'], ['('], i, [','], l, [')']] [[';']]).mp rest
    exact ⟨e, call_complete (.insert isLiteral) isInteger whole, last⟩
  | @delete name word i _ plain isInteger isWord =>
    refine body_of_point plain passes fun m rest => ?_
    obtain ⟨e, whole, last⟩ :=
      (@passes_append m d [['.'], word, ['('], i, [')']] [[';']]).mp rest
    exact ⟨e, call_complete (.delete isWord) isInteger whole, last⟩

theorem reads_sentence :
    Reads sentence c s d ↔ ∃ pieces gap tail e, Form pieces s ∧ Passes (pieces ++ [[';']]) c e ∧
      Gap gap ∧ Tail tail ∧ e.Crosses (gap ++ tail) d ∧ d.ahead = [] := by
  simp only [sentence, reads_bind, reads_pure]
  constructor
  · intro h
    obtain ⟨s, m, bodies, u, m', ends, u', m'', finishes, rfl, rfl⟩ := h
    obtain ⟨pieces, form, passes⟩ := body_sound bodies
    obtain ⟨gap, tail, blank, isTail, crosses, done⟩ := reads_finish.mp finishes
    exact ⟨pieces, gap, tail, m', form,
      passes_append.mpr ⟨m, passes, (reads_expect rfl).mp ends⟩, blank, isTail, crosses, done⟩
  · intro h
    obtain ⟨pieces, gap, tail, e, form, passes, blank, isTail, crosses, done⟩ := h
    obtain ⟨m, bodies, ends⟩ := body_complete form passes
    exact ⟨s, m, bodies, (), e, (reads_expect rfl).mpr ends, (), d,
      reads_finish.mpr ⟨gap, tail, blank, isTail, crosses, done⟩, rfl, rfl⟩

theorem read_eq_ok_iff {line : Text} : read line = .ok s ↔ Sentence line s := by
  constructor
  · intro reads
    have whole : Reads sentence (start line) s (sentence (start line)).2 :=
      Prod.ext reads rfl
    obtain ⟨pieces, gap, tail, e, form, ⟨front, spaced, crosses⟩, blank, isTail, crosses', done⟩ :=
      reads_sentence.mp whole
    refine ⟨pieces, front, gap, tail, form, spaced, blank, isTail, ?_⟩
    have all := (crosses_start.mp (crosses.trans crosses')).1
    rwa [done, List.append_nil, ← List.append_assoc] at all
  · intro sentence
    obtain ⟨pieces, front, gap, tail, form, spaced, blank, isTail, rfl⟩ := sentence
    have crosses : (start (front ++ gap ++ tail)).Crosses (front ++ (gap ++ tail))
        ⟨(front ++ (gap ++ tail)).length, []⟩ := crosses_start.mpr ⟨by simp, rfl⟩
    obtain ⟨e, first, last⟩ := crosses_append.mp crosses
    have whole := reads_sentence.mpr
      ⟨pieces, gap, tail, e, form, ⟨front, spaced, first⟩, blank, isTail, last, rfl⟩
    exact congrArg Prod.fst whole

def recognized : Statement → Bool
  | .unterminated _ => false
  | .unreadable _ => false
  | _ => true

theorem recognized_of_sentence {t : Text} (sentence : Sentence t s) : s.recognized = true := by
  obtain ⟨pieces, front, gap, tail, form, -⟩ := sentence
  cases form <;> rfl

theorem ofLine_cases (line : Text) :
    (∃ s, read (Text.trim line) = .ok s ∧ ofLine line = s) ∨
      ((∀ s, read (Text.trim line) ≠ .ok s) ∧
        (ofLine line = .unterminated (Text.trim line) ∨
          ofLine line = .unreadable (Text.trim line))) := by
  unfold ofLine
  cases reads : read (Text.trim line) with
  | ok s => exact .inl ⟨s, rfl, by simp [reads]⟩
  | error e =>
    refine .inr ⟨fun s => nofun, ?_⟩
    simp only [reads]
    split
    · exact .inl rfl
    · exact .inr rfl

/-- The statements of the grammar are those that lines are recognized as, and nothing else is. -/
theorem ofLine_eq_iff_sentence (line : Text) :
    (∀ s, s.recognized = true ∧ ofLine line = s ↔ Sentence (Text.trim line) s) ∧
      ((∀ s, ¬ Sentence (Text.trim line) s) →
        ofLine line = .unterminated (Text.trim line) ∨
          ofLine line = .unreadable (Text.trim line)) := by
  rcases ofLine_cases line with ⟨t, reads, whole⟩ | ⟨fails, leftover⟩
  · have isSentence := read_eq_ok_iff.mp reads
    refine ⟨fun s => ?_, fun none => absurd isSentence (none t)⟩
    rw [whole, ← read_eq_ok_iff, reads, Except.ok.injEq]
    constructor
    · intro h
      exact h.2
    · intro same
      exact ⟨same ▸ recognized_of_sentence isSentence, same⟩
  · refine ⟨fun s => ?_, fun _ => leftover⟩
    rw [← read_eq_ok_iff]
    constructor
    · intro h
      obtain ⟨known, rfl⟩ := h
      rcases leftover with other | other
      · rw [other] at known
        cases known
      · rw [other] at known
        cases known
    · intro reads
      exact absurd reads (fails s)

example : ofLine "a[0] = ';'; // last".toList = .update ['a'] 0 (.char ';') := by decide

end ArrayReplay.Statement
