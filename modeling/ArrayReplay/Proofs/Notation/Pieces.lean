import ArrayReplay.Proofs.Notation.Reading

namespace ArrayReplay

namespace Reader
open Cursor Grammar

variable {α : Type} {c d e : Cursor}

theorem passes_single {piece : Text} :
    Passes [piece] c d ↔ ∃ gap, Gap gap ∧ c.Crosses (gap ++ piece) d := by
  simp [passes_cons, passes_nil]

theorem passes_single_iff_skip {piece : Text}
    (solid : ∃ x rest, piece = x :: rest ∧ isGap x = false) :
    Passes [piece] c d ↔ (c.skip isGap).Crosses piece d := by
  obtain ⟨x, rest, rfl, isSolid⟩ := solid
  constructor
  · intro passes
    obtain ⟨e, skips, -, m, crosses, last⟩ := reads_skipGaps_of_passes passes isSolid
    cases passes_nil.mp last
    cases (Prod.mk.inj skips).2
    exact crosses
  · intro crosses
    obtain ⟨gap, blank, first, -⟩ := reads_skipGaps.mp (rfl : Reads skipGaps c () (c.skip isGap))
    exact passes_single.mpr ⟨gap, blank, first.trans crosses⟩

/-- A reader of pieces that begin with no gap may have gaps skipped in front of it. -/
theorem reads_gapped {m : Reader α} {a : α} {P : Text → Prop} {S : Prop}
    (solid : ∀ t, P t → ∃ x rest, t = x :: rest ∧ isGap x = false)
    (spec : ∀ e, Reads m e a d ↔ ∃ t, P t ∧ e.Crosses t d ∧ S) :
    Reads (skipGaps >>= fun _ => m) c a d ↔ ∃ t, P t ∧ Passes [t] c d ∧ S := by
  simp only [reads_bind, spec]
  constructor
  · rintro ⟨u, e, skips, t, piece, crosses, stop⟩
    obtain ⟨gap, blank, first, -⟩ := reads_skipGaps.mp skips
    exact ⟨t, piece, passes_single.mpr ⟨gap, blank, first.trans crosses⟩, stop⟩
  · rintro ⟨t, piece, passes, stop⟩
    obtain ⟨x, rest, rfl, isSolid⟩ := solid t piece
    obtain ⟨e, skips, -, m, crosses, last⟩ := reads_skipGaps_of_passes passes isSolid
    cases passes_nil.mp last
    exact ⟨(), e, skips, x :: rest, piece, crosses, stop⟩

theorem reads_advance_of_head {w : Char} {o : Option Char} (head : c.ahead.head? = some w) :
    Reads advance c o d ↔ o = some w ∧ c.Crosses [w] d := by
  cases o with
  | none => cases rest : c.ahead <;> simp [Reads, advance, rest] at head ⊢
  | some x =>
    rw [reads_advance]
    constructor
    · intro crosses
      have same := head_of_crosses crosses
      rw [head] at same
      cases same
      exact ⟨rfl, crosses⟩
    · rintro ⟨same, crosses⟩
      cases same
      exact crosses

theorem reads_expect {w : Char} {u : Unit} (solid : isGap w = false) :
    Reads (expect w) c u d ↔ Passes [[w]] c d := by
  have spec : ∀ e, Reads (peek >>= fun found => if found = some w then advance >>= fun _ => pure ()
      else fail (.expected w found)) e u d ↔ ∃ t, t = [w] ∧ e.Crosses t d ∧ True := by
    intro e
    simp only [reads_bind, reads_peek, reads_ite, reads_pure, not_reads_fail]
    constructor
    · rintro ⟨o, m, ⟨rfl, rfl⟩, ⟨found, o, n, advances, -, rfl⟩ | ⟨-, impossible⟩⟩
      · exact ⟨[w], rfl, ((reads_advance_of_head found).mp advances).2, trivial⟩
      · exact impossible.elim
    · rintro ⟨t, rfl, crosses, -⟩
      have head := head_of_crosses crosses
      exact ⟨_, e, ⟨rfl, rfl⟩, .inl ⟨head, some w, d,
        (reads_advance_of_head head).mpr ⟨rfl, crosses⟩, trivial, rfl⟩⟩
  have whole := reads_gapped (c := c) (S := True) (fun t is => ⟨w, [], is, solid⟩) spec
  refine Iff.trans whole ?_
  simp

/- Looking ahead passes over gaps and over nothing else. -/
theorem reads_check {w : Char} {b : Bool} :
    Reads (check w) c b d ↔
      Reads skipGaps c () d ∧ b = decide (d.ahead.head? = some w) := by
  simp only [check, reads_bind, reads_peek, reads_pure]
  constructor
  · rintro ⟨u, e, skips, o, m, ⟨rfl, rfl⟩, rfl, rfl⟩
    exact ⟨skips, rfl⟩
  · rintro ⟨skips, rfl⟩
    exact ⟨(), d, skips, _, d, ⟨rfl, rfl⟩, rfl, rfl⟩

theorem reads_eatHere {w : Char} {b : Bool} :
    Reads (eatHere w) c b d ↔ (b = true ∧ c.Crosses [w] d) ∨
      (b = false ∧ c.ahead.head? ≠ some w ∧ c = d) := by
  simp only [eatHere, reads_bind, reads_peek, reads_ite, reads_pure]
  constructor
  · rintro ⟨o, m, ⟨rfl, rfl⟩, ⟨found, o, n, advances, rfl, rfl⟩ | ⟨other, rfl, rfl⟩⟩
    · exact .inl ⟨rfl, ((reads_advance_of_head found).mp advances).2⟩
    · exact .inr ⟨rfl, other, rfl⟩
  · rintro (⟨rfl, crosses⟩ | ⟨rfl, other, rfl⟩)
    · have head := head_of_crosses crosses
      exact ⟨_, c, ⟨rfl, rfl⟩, .inl ⟨head, some w, d,
        (reads_advance_of_head head).mpr ⟨rfl, crosses⟩, rfl, rfl⟩⟩
    · exact ⟨_, c, ⟨rfl, rfl⟩, .inr ⟨other, rfl, rfl⟩⟩

theorem reads_eat {w : Char} {b : Bool} :
    Reads (eat w) c b d ↔ ∃ e, Reads skipGaps c () e ∧ Reads (eatHere w) e b d := by
  simp only [eat, reads_bind]
  constructor
  · rintro ⟨u, e, skips, eats⟩
    exact ⟨e, skips, eats⟩
  · rintro ⟨e, skips, eats⟩
    exact ⟨(), e, skips, eats⟩

theorem isNamePart_of_isNameStart {x : Char} (h : isNameStart x = true) :
    isNamePart x = true := by
  simp only [isNameStart, isNamePart, Char.isAlphanum, Bool.or_eq_true] at h ⊢
  rcases h with letter | underscore
  · exact .inl (.inl letter)
  · exact .inr underscore

theorem isName_iff {t : Text} :
    IsName t ↔ ∃ x rest, t = x :: rest ∧ isNameStart x = true ∧
      ∀ y ∈ t, isNamePart y = true := by
  constructor
  · rintro ⟨x, rest, rfl, first, parts⟩
    have start : isNameStart x = true := by simpa [isNameStart] using first
    refine ⟨x, rest, rfl, start, List.forall_mem_cons.mpr ⟨isNamePart_of_isNameStart start, ?_⟩⟩
    intro y mem
    simpa [isNamePart] using parts y mem
  · rintro ⟨x, rest, rfl, start, parts⟩
    refine ⟨x, rest, rfl, by simpa [isNameStart] using start, ?_⟩
    intro y mem
    simpa [isNamePart] using parts y (List.mem_cons_of_mem _ mem)

theorem isName_of_all {x : Char} {rest : Text} (start : isNameStart x = true)
    (parts : rest.all isNamePart = true) : IsName (x :: rest) := by
  refine isName_iff.mpr ⟨x, rest, rfl, start, List.forall_mem_cons.mpr ⟨?_, ?_⟩⟩
  · exact isNamePart_of_isNameStart start
  · exact List.all_eq_true.mp parts

theorem isGap_eq_false_of_isNameStart {x : Char} (h : isNameStart x = true) :
    isGap x = false := by
  cases gap : isGap x with
  | false => rfl
  | true =>
    rcases isGap_iff.mp gap with rfl | rfl | rfl <;> exact absurd h (by decide)

theorem reads_identifierHere {name : Text} :
    Reads identifierHere c name d ↔ IsName name ∧ c.Crosses name d ∧ d.Stops isNamePart := by
  simp only [identifierHere, reads_bind, reads_peek]
  constructor
  · intro h
    obtain ⟨o, m, ⟨rfl, rfl⟩, rest⟩ := h
    cases head : m.ahead.head? with
    | none => exact absurd (head ▸ rest) not_reads_fail
    | some x =>
      rw [head] at rest
      rcases reads_ite.mp rest with ⟨start, runs⟩ | ⟨-, fails⟩
      · obtain ⟨parts, crosses, stops⟩ := reads_run.mp runs
        cases name with
        | nil =>
          cases crosses_nil.mp crosses
          have last := stops x head
          rw [isNamePart_of_isNameStart start] at last
          cases last
        | cons y name =>
          rw [head_of_crosses crosses] at head
          cases head
          exact ⟨isName_iff.mpr ⟨x, name, rfl, start, parts⟩, crosses, stops⟩
      · exact absurd fails not_reads_fail
  · intro h
    obtain ⟨isName, crosses, stops⟩ := h
    obtain ⟨x, rest, rfl, start, parts⟩ := isName_iff.mp isName
    refine ⟨_, c, ⟨rfl, rfl⟩, ?_⟩
    rw [head_of_crosses crosses]
    exact reads_ite.mpr (.inl ⟨start, reads_run.mpr ⟨parts, crosses, stops⟩⟩)

theorem reads_identifier {name : Text} :
    Reads identifier c name d ↔ IsName name ∧ Passes [name] c d ∧ d.Stops isNamePart := by
  have spec : ∀ e, Reads identifierHere e name d ↔
      ∃ t, (t = name ∧ IsName name) ∧ e.Crosses t d ∧ d.Stops isNamePart := by
    intro e
    rw [reads_identifierHere]
    constructor
    · intro h
      exact ⟨name, ⟨rfl, h.1⟩, h.2⟩
    · intro h
      obtain ⟨t, ⟨rfl, isName⟩, rest⟩ := h
      exact ⟨isName, rest⟩
  have solid : ∀ t, (t = name ∧ IsName name) → ∃ x rest, t = x :: rest ∧ isGap x = false := by
    intro t h
    obtain ⟨rfl, isName⟩ := h
    obtain ⟨x, rest, rfl, start, -⟩ := isName_iff.mp isName
    exact ⟨x, rest, rfl, isGap_eq_false_of_isNameStart start⟩
  refine Iff.trans (reads_gapped solid spec) ?_
  constructor
  · intro h
    obtain ⟨t, ⟨rfl, isName⟩, passes, stops⟩ := h
    exact ⟨isName, passes, stops⟩
  · intro h
    obtain ⟨isName, passes, stops⟩ := h
    exact ⟨name, ⟨rfl, isName⟩, passes, stops⟩

theorem isGap_eq_false_of_isDigit {x : Char} (h : x.isDigit = true) : isGap x = false := by
  cases gap : isGap x with
  | false => rfl
  | true =>
    rcases isGap_iff.mp gap with rfl | rfl | rfl <;> exact absurd h (by decide)

theorem reads_sign {negative : Bool} :
    Reads (eatHere '-') c negative d ↔
      c.Crosses (sign negative) d ∧ (negative = false → c.ahead.head? ≠ some '-') := by
  rw [reads_eatHere]
  cases negative <;> simp [sign, crosses_nil, and_comm]

/- A run of digits does not begin with a minus sign or a point, so a sign that is absent is not
taken from it. -/
theorem head_ne_of_digits {t : Text} {x w : Char} (digits : Digits (x :: t))
    (noDigit : w.isDigit = false) (crosses : c.Crosses (x :: t) d) : c.ahead.head? ≠ some w := by
  rw [head_of_crosses crosses]
  intro same
  cases same
  have isDigit := digits x (by simp)
  rw [noDigit] at isDigit
  cases isDigit

theorem isInteger_solid {t : Text} {n : Int64} (h : IsInteger t n) :
    ∃ x rest, t = x :: rest ∧ (x = '-' ∨ x.isDigit = true) := by
  cases h with
  | @mk negative digits _ filled all _ =>
    cases negative with
    | true => exact ⟨'-', digits, rfl, .inl rfl⟩
    | false =>
      cases digits with
      | nil => exact absurd rfl filled
      | cons x rest => exact ⟨x, rest, rfl, .inr (all x (by simp))⟩

theorem reads_integer {n : Int64} :
    Reads integer c n d ↔ ∃ t, IsInteger t n ∧ Passes [t] c d ∧ d.Stops Char.isDigit := by
  refine reads_gapped ?_ ?_
  · intro t isInteger
    obtain ⟨x, rest, rfl, first⟩ := isInteger_solid isInteger
    refine ⟨x, rest, rfl, ?_⟩
    rcases first with rfl | digit
    · rfl
    · exact isGap_eq_false_of_isDigit digit
  · intro e
    simp only [reads_bind, reads_here, reads_sign, reads_run]
    constructor
    · rintro ⟨start, m, ⟨rfl, rfl⟩, negative, m', ⟨crosses, -⟩, digits, m'',
        ⟨all, crosses', stops⟩, rest⟩
      rcases reads_ite.mp rest with ⟨-, fails⟩ | ⟨filled, rest⟩
      · exact absurd fails not_reads_failAt
      · cases value : Word.ofInt? (Numeral.signedValue negative digits) with
        | none => exact absurd (value ▸ rest) not_reads_failAt
        | some k =>
          rw [value] at rest
          obtain ⟨rfl, rfl⟩ := reads_pure.mp rest
          exact ⟨_, .mk (by simpa using filled) all (Word.ofInt?_eq_some_iff.mp value),
            crosses.trans crosses', stops⟩
    · rintro ⟨t, isInteger, crosses, stops⟩
      cases isInteger with
      | @mk negative digits _ filled all value =>
        obtain ⟨m, first, second⟩ := crosses_append.mp crosses
        refine ⟨e, e, ⟨rfl, rfl⟩, negative, m, ⟨first, ?_⟩, digits, d, ⟨all, second, stops⟩, ?_⟩
        · rintro rfl
          cases crosses_nil.mp first
          cases digits with
          | nil => exact absurd rfl filled
          | cons x rest => exact head_ne_of_digits all (by decide) second
        · rw [Word.ofInt?_eq_some_iff.mpr value]
          exact reads_ite.mpr (.inr ⟨by simpa using filled, reads_pure.mpr ⟨rfl, rfl⟩⟩)

/-- What may not follow a literal: whatever would prolong it. -/
def Ends : Value → Cursor → Prop
  | .int _, c => c.Stops Char.isDigit ∧ c.ahead.head? ≠ some '.'
  | .double _, c => c.Stops Char.isDigit
  | .char _, _ => True

theorem reads_number_sound {v : Value} (reads : Reads number c v d) :
    ∃ t, IsLiteral t v ∧ c.Crosses t d ∧ Ends v d := by
  simp only [number, reads_bind, reads_here, reads_sign, reads_run] at reads
  obtain ⟨start, m, ⟨rfl, rfl⟩, negative, m₁, ⟨first, -⟩, whole, m₂, ⟨all, second, stops⟩,
    point, m₃, eats, rest⟩ := reads
  rcases reads_eatHere.mp eats with ⟨rfl, third⟩ | ⟨rfl, other, rfl⟩
  · rcases reads_ite.mp rest with ⟨-, rest⟩ | ⟨impossible, -⟩
    · obtain ⟨fraction, m₄, runs, rest⟩ := reads_bind.mp rest
      obtain ⟨all', fourth, stops'⟩ := reads_run.mp runs
      rcases reads_ite.mp rest with ⟨-, fails⟩ | ⟨filled, rest⟩
      · exact absurd fails not_reads_failAt
      · rcases reads_ite.mp rest with ⟨-, yields⟩ | ⟨impossible, -⟩
        · obtain ⟨rfl, rfl⟩ := reads_pure.mp yields
          refine ⟨sign negative ++ whole ++ '.' :: fraction, .double all all' ?_, ?_, stops'⟩
          · rw [Bool.and_eq_true, List.isEmpty_iff, List.isEmpty_iff] at filled
            exact Decidable.not_and_iff_or_not.mp filled
          · exact (first.trans second).trans (third.trans fourth)
        · exact absurd rfl impossible
    · exact absurd rfl impossible
  · rcases reads_ite.mp rest with ⟨impossible, -⟩ | ⟨-, rest⟩
    · cases impossible
    · obtain ⟨fraction, m₄, yields, rest⟩ := reads_bind.mp rest
      obtain ⟨rfl, rfl⟩ := reads_pure.mp yields
      rcases reads_ite.mp rest with ⟨-, fails⟩ | ⟨filled, rest⟩
      · exact absurd fails not_reads_failAt
      · rcases reads_ite.mp rest with ⟨impossible, -⟩ | ⟨-, rest⟩
        · cases impossible
        · cases value : Word.ofInt? (Numeral.signedValue negative whole) with
          | none => exact absurd (value ▸ rest) not_reads_failAt
          | some n =>
            rw [value] at rest
            obtain ⟨rfl, rfl⟩ := reads_pure.mp rest
            exact ⟨_, .int (.mk (by simpa using filled) all (Word.ofInt?_eq_some_iff.mp value)),
              first.trans second, stops, other⟩

theorem reads_number_int {t : Text} {n : Int64} (isInteger : IsInteger t n)
    (crosses : c.Crosses t d) (ends : Ends (.int n) d) : Reads number c (.int n) d := by
  simp only [number, reads_bind, reads_here, reads_sign, reads_run]
  cases isInteger with
  | @mk negative digits _ filled all value =>
    obtain ⟨m, first, second⟩ := crosses_append.mp crosses
    refine ⟨c, c, ⟨rfl, rfl⟩, negative, m, ⟨first, ?_⟩, digits, d, ⟨all, second, ends.1⟩, false, d,
      reads_eatHere.mpr (.inr ⟨rfl, ends.2, rfl⟩), reads_ite.mpr (.inr ⟨by simp, ?_⟩)⟩
    · rintro rfl
      cases crosses_nil.mp first
      cases digits with
      | nil => exact absurd rfl filled
      | cons x rest => exact head_ne_of_digits all (by decide) second
    · refine reads_bind.mpr ⟨[], d, reads_pure.mpr ⟨rfl, rfl⟩, reads_ite.mpr (.inr ⟨?_, ?_⟩)⟩
      · simpa using filled
      · rw [Word.ofInt?_eq_some_iff.mpr value]
        exact reads_ite.mpr (.inr ⟨by simp, reads_pure.mpr ⟨rfl, rfl⟩⟩)

theorem reads_number_double {negative : Bool} {whole fraction : Text} (all : Digits whole)
    (all' : Digits fraction) (filled : whole ≠ [] ∨ fraction ≠ [])
    (crosses : c.Crosses (sign negative ++ whole ++ '.' :: fraction) d)
    (stops : d.Stops Char.isDigit) :
    Reads number c (.double (.ofDecimal negative (.ofDigits whole fraction))) d := by
  simp only [number, reads_bind, reads_here, reads_sign, reads_run]
  obtain ⟨m, front, back⟩ := crosses_append.mp crosses
  obtain ⟨m₁, first, second⟩ := crosses_append.mp front
  obtain ⟨m₂, third, fourth⟩ := crosses_cons.mp back
  have point : m.ahead.head? = some '.' := head_of_crosses third
  refine ⟨c, c, ⟨rfl, rfl⟩, negative, m₁, ⟨first, ?_⟩, whole, m, ⟨all, second, ?_⟩, true, m₂,
    reads_eatHere.mpr (.inl ⟨rfl, third⟩), reads_ite.mpr (.inl ⟨rfl, ?_⟩)⟩
  · rintro rfl
    cases crosses_nil.mp first
    cases whole with
    | nil =>
      cases crosses_nil.mp second
      simp [point]
    | cons x rest => exact head_ne_of_digits all (by decide) second
  · intro y head
    rw [point] at head
    cases head
    rfl
  · refine reads_bind.mpr ⟨fraction, d, reads_run.mpr ⟨all', fourth, stops⟩,
      reads_ite.mpr (.inr ⟨?_, reads_ite.mpr (.inl ⟨rfl, reads_pure.mpr ⟨rfl, rfl⟩⟩)⟩)⟩
    rw [Bool.and_eq_true, List.isEmpty_iff, List.isEmpty_iff]
    exact Decidable.not_and_iff_or_not.mpr filled

theorem reads_character {v : Value} :
    Reads character c v d ∧ c.ahead.head? = some '\'' ↔
      ∃ x, v = .char x ∧ c.Crosses ['\'', x, '\''] d := by
  simp only [character, reads_bind]
  constructor
  · rintro ⟨⟨o, m, opens, o', m', inner, rest⟩, head⟩
    obtain ⟨-, first⟩ := (reads_advance_of_head head).mp opens
    cases o' with
    | none => exact absurd rest not_reads_fail
    | some x =>
      have second := reads_advance.mp inner
      obtain ⟨o'', m'', closes, rest⟩ := reads_bind.mp rest
      rcases reads_ite.mp rest with ⟨rfl, yields⟩ | ⟨-, fails⟩
      · obtain ⟨rfl, rfl⟩ := reads_pure.mp yields
        exact ⟨x, rfl, first.trans (second.trans (reads_advance.mp closes))⟩
      · exact absurd fails not_reads_fail
  · rintro ⟨x, rfl, crosses⟩
    obtain ⟨m, first, rest⟩ := crosses_cons.mp crosses
    obtain ⟨m', second, third⟩ := crosses_cons.mp rest
    refine ⟨⟨some '\'', m, reads_advance.mpr first, some x, m', reads_advance.mpr second, ?_⟩,
      head_of_crosses first⟩
    exact reads_bind.mpr ⟨some '\'', d, reads_advance.mpr third,
      reads_ite.mpr (.inl ⟨rfl, reads_pure.mpr ⟨rfl, rfl⟩⟩)⟩

theorem reads_number {t : Text} {v : Value} (isLiteral : IsLiteral t v) (number : v.kind ≠ .char)
    (crosses : c.Crosses t d) (ends : Ends v d) : Reads Reader.number c v d := by
  cases isLiteral with
  | int isInteger => exact reads_number_int isInteger crosses ends
  | double all all' filled => exact reads_number_double all all' filled crosses ends
  | char x => exact absurd rfl number

theorem isNumber_solid {t : Text} {v : Value} (h : IsLiteral t v) (number : v.kind ≠ .char) :
    ∃ x rest, t = x :: rest ∧ (x = '-' ∨ x = '.' ∨ x.isDigit = true) := by
  cases h with
  | int isInteger =>
    obtain ⟨x, rest, rfl, minus | digit⟩ := isInteger_solid isInteger
    · exact ⟨x, rest, rfl, .inl minus⟩
    · exact ⟨x, rest, rfl, .inr (.inr digit)⟩
  | @double negative whole fraction all all' filled =>
    cases negative with
    | true => exact ⟨'-', _, rfl, .inl rfl⟩
    | false =>
      cases whole with
      | nil => exact ⟨'.', fraction, rfl, .inr (.inl rfl)⟩
      | cons x rest => exact ⟨x, _, rfl, .inr (.inr (all x (by simp)))⟩
  | char x => exact absurd rfl number

theorem isChar_shape {t : Text} {v : Value} (h : IsLiteral t v) (char : v.kind = .char) :
    ∃ x, v = .char x ∧ t = ['\'', x, '\''] := by
  cases h with
  | int _ => cases char
  | double _ _ _ => cases char
  | char x => exact ⟨x, rfl, rfl⟩

theorem isLiteral_solid {t : Text} {v : Value} (h : IsLiteral t v) :
    ∃ x rest, t = x :: rest ∧ isGap x = false ∧ x ≠ ']' ∧ x ≠ '}' := by
  by_cases char : v.kind = .char
  · obtain ⟨x, -, rfl⟩ := isChar_shape h char
    exact ⟨'\'', _, rfl, rfl, by decide, by decide⟩
  · obtain ⟨x, rest, rfl, first⟩ := isNumber_solid h char
    refine ⟨x, rest, rfl, ?_⟩
    rcases first with rfl | rfl | digit
    · exact ⟨rfl, by decide, by decide⟩
    · exact ⟨rfl, by decide, by decide⟩
    · refine ⟨isGap_eq_false_of_isDigit digit, ?_, ?_⟩ <;> rintro rfl <;>
        exact absurd digit (by decide)

theorem reads_literal {v : Value} :
    Reads literal c v d ↔ ∃ t, IsLiteral t v ∧ Passes [t] c d ∧ Ends v d := by
  refine reads_gapped ?_ ?_
  · intro t isLiteral
    obtain ⟨x, rest, shape, solid, -⟩ := isLiteral_solid isLiteral
    exact ⟨x, rest, shape, solid⟩
  · intro e
    simp only [reads_bind, reads_peek]
    constructor
    · rintro ⟨o, m, ⟨rfl, rfl⟩, rest⟩
      cases head : m.ahead.head? with
      | none => exact absurd (head ▸ rest) not_reads_fail
      | some x =>
        rw [head] at rest
        rcases reads_ite.mp rest with ⟨rfl, reads⟩ | ⟨-, rest⟩
        · obtain ⟨y, rfl, crosses⟩ := reads_character.mp ⟨reads, head⟩
          exact ⟨_, .char y, crosses, trivial⟩
        · rcases reads_ite.mp rest with ⟨-, reads⟩ | ⟨-, fails⟩
          · exact reads_number_sound reads
          · exact absurd fails not_reads_fail
    · rintro ⟨t, isLiteral, crosses, ends⟩
      refine ⟨_, e, ⟨rfl, rfl⟩, ?_⟩
      by_cases char : v.kind = .char
      · obtain ⟨x, rfl, rfl⟩ := isChar_shape isLiteral char
        rw [head_of_crosses crosses]
        exact reads_ite.mpr (.inl ⟨rfl, (reads_character.mpr ⟨x, rfl, crosses⟩).1⟩)
      · have reads := reads_number isLiteral char crosses ends
        obtain ⟨x, rest, rfl, first⟩ := isNumber_solid isLiteral char
        rw [head_of_crosses crosses]
        have noQuote : x ≠ '\'' := by
          rintro rfl
          simp at first
        exact reads_ite.mpr (.inr ⟨noQuote, reads_ite.mpr (.inl ⟨by simpa [or_assoc] using first,
          reads⟩)⟩)

theorem reads_string {content : Text} :
    Reads Reader.string c content d ↔
      '"' ∉ content ∧ Passes ['"' :: content ++ ['"']] c d := by
  simp only [Reader.string, reads_bind, reads_here, reads_expect (w := '"') rfl, passes_single,
    reads_run]
  constructor
  · rintro ⟨u, m, ⟨gap, blank, opens⟩, s, m', ⟨rfl, rfl⟩, t, m'', ⟨all, inner, stops⟩, o, n,
      closes, rest⟩
    cases o with
    | none => exact absurd rest not_reads_failAt
    | some x =>
      obtain ⟨rfl, rfl⟩ := reads_pure.mp rest
      have last := reads_advance.mp closes
      have quote : x = '"' := by simpa using stops x (head_of_crosses last)
      subst quote
      refine ⟨fun mem => by simpa using all '"' mem, gap, blank, ?_⟩
      have crosses := opens.trans (inner.trans last)
      rwa [List.append_assoc] at crosses
  · rintro ⟨noQuote, gap, blank, crosses⟩
    have split : gap ++ ('"' :: content ++ ['"']) = (gap ++ ['"']) ++ (content ++ ['"']) := by
      simp
    rw [split] at crosses
    obtain ⟨m, opens, rest⟩ := crosses_append.mp crosses
    obtain ⟨m', inner, last⟩ := crosses_append.mp rest
    have all : ∀ x ∈ content, (x != '"') = true := by
      intro x mem
      rw [bne_iff_ne]
      rintro rfl
      exact noQuote mem
    have stops : m'.Stops (· != '"') := by
      intro x head
      rw [head_of_crosses last] at head
      cases head
      rfl
    exact ⟨(), m, ⟨gap, blank, opens⟩, m, m, ⟨rfl, rfl⟩, content, m', ⟨all, inner, stops⟩,
      some '"', d, reads_advance.mpr last, reads_pure.mpr ⟨rfl, rfl⟩⟩

theorem reads_finish {u : Unit} :
    Reads finish c u d ↔
      ∃ gap tail, Gap gap ∧ Tail tail ∧ c.Crosses (gap ++ tail) d ∧ d.ahead = [] := by
  simp only [finish, reads_bind, reads_here]
  constructor
  · rintro ⟨u, e, skips, e', m, ⟨rfl, rfl⟩, rest⟩
    obtain ⟨gap, blank, first, -⟩ := reads_skipGaps.mp skips
    rcases reads_ite.mp rest with ⟨slashes, skipsAll⟩ | ⟨-, rest⟩
    · cases (Prod.mk.inj skipsAll).2
      obtain ⟨comment, shape⟩ := List.isPrefixOf_iff_prefix.mp slashes
      refine ⟨gap, m.ahead, blank, .inr ⟨comment, shape.symm⟩, first.trans ⟨?_, rfl⟩, rfl⟩
      exact (List.append_nil _).symm
    · rcases reads_ite.mp rest with ⟨ends, yields⟩ | ⟨-, fails⟩
      · obtain ⟨-, rfl⟩ := reads_pure.mp yields
        refine ⟨gap, [], blank, .inl rfl, ?_, List.isEmpty_iff.mp ends⟩
        rwa [List.append_nil]
      · exact absurd fails not_reads_fail
  · rintro ⟨gap, tail, blank, isTail, crosses, ends⟩
    obtain ⟨e, first, second⟩ := crosses_append.mp crosses
    have ahead : e.ahead = tail := by rw [second.1, ends, List.append_nil]
    have stops : e.Stops isGap := by
      intro x head
      rcases isTail with rfl | ⟨comment, rfl⟩ <;> rw [ahead] at head <;> cases head
      rfl
    refine ⟨(), e, reads_skipGaps.mpr ⟨gap, blank, first, stops⟩, e, e, ⟨rfl, rfl⟩, ?_⟩
    rcases isTail with rfl | ⟨comment, rfl⟩
    · cases crosses_nil.mp second
      rw [ahead]
      exact reads_pure.mpr ⟨rfl, rfl⟩
    · refine reads_ite.mpr (.inl ⟨by rw [ahead]; rfl, ?_⟩)
      have passed := second.2
      cases d
      simp only [Reads, toEnd, ahead, ← passed] at ends ⊢
      rw [ends]

end Reader
end ArrayReplay
