import ArrayReplay.Notation.Recognition
import ArrayReplay.Proofs.Notation.Pieces

namespace ArrayReplay.Statement
open Cursor Grammar Reader

variable {c d e : Cursor} {x w : Char} {p : Text} {ps : List Text}

theorem passes_step : Passes (p :: ps) c d ↔ ∃ e, Passes [p] c e ∧ Passes ps e d :=
  @passes_append c d [p] ps

theorem passes_skip (skips : Reads skipGaps c () e) (passes : Passes (p :: ps) e d) :
    Passes (p :: ps) c d := by
  obtain ⟨gap, blank, crosses, -⟩ := reads_skipGaps.mp skips
  exact passes_of_gap blank crosses passes

/- In front of a piece that begins with `x`. -/
section
variable (passes : Passes ((x :: p) :: ps) c d)
include passes

theorem stops_digit_of_passes (noDigit : x.isDigit = false) : c.Stops Char.isDigit := by
  refine stops_of_passes passes noDigit ?_
  intro y gap
  rcases isGap_iff.mp gap with rfl | rfl | rfl <;> rfl

theorem stops_name_of_passes (noPart : isNamePart x = false) : c.Stops isNamePart := by
  refine stops_of_passes passes noPart ?_
  intro y gap
  rcases isGap_iff.mp gap with rfl | rfl | rfl <;> rfl

theorem ends_of_passes (noDigit : x.isDigit = false) (noPoint : x ≠ '.') (v : Value) :
    Ends v c := by
  have digits := stops_digit_of_passes passes noDigit
  have point : c.Stops (· == '.') := by
    refine stops_of_passes passes (by simpa using noPoint) ?_
    intro y gap
    rcases isGap_iff.mp gap with rfl | rfl | rfl <;> rfl
  cases v with
  | int n => exact ⟨digits, fun head => by simpa using point '.' head⟩
  | double x => exact digits
  | char x => trivial

variable (solid : isGap x = false)
include solid

theorem skipGaps_of_passes :
    ∃ e, Reads skipGaps c () e ∧ e.ahead.head? = some x ∧ Passes ((x :: p) :: ps) e d := by
  obtain ⟨e, skips, -, m, crosses, rest⟩ := reads_skipGaps_of_passes passes solid
  refine ⟨e, skips, head_of_crosses crosses, passes_cons.mpr ⟨[], m, ?_, crosses, rest⟩⟩
  simp [Gap]

theorem check_of_passes (w : Char) :
    ∃ e, Reads (check w) c (decide (x = w)) e ∧ Passes ((x :: p) :: ps) e d := by
  obtain ⟨e, skips, head, rest⟩ := skipGaps_of_passes passes solid
  refine ⟨e, reads_check.mpr ⟨skips, ?_⟩, rest⟩
  simp [head]

theorem eat_of_passes (other : x ≠ w) :
    ∃ e, Reads (eat w) c false e ∧ Passes ((x :: p) :: ps) e d := by
  obtain ⟨e, skips, head, rest⟩ := skipGaps_of_passes passes solid
  refine ⟨e, reads_eat.mpr ⟨e, skips, reads_eatHere.mpr (.inr ⟨rfl, ?_, rfl⟩)⟩, rest⟩
  rw [head]
  exact fun same => other (Option.some.inj same)

end

theorem eat_true_iff (solid : isGap w = false) :
    Reads (eat w) c true d ↔ Passes [[w]] c d := by
  rw [← reads_expect (u := ()) solid, reads_eat, reads_expect solid]
  constructor
  · rintro ⟨e, skips, eats⟩
    rcases reads_eatHere.mp eats with ⟨-, crosses⟩ | ⟨impossible, -⟩
    · obtain ⟨gap, blank, first, -⟩ := reads_skipGaps.mp skips
      exact passes_single.mpr ⟨gap, blank, first.trans crosses⟩
    · cases impossible
  · intro passes
    obtain ⟨e, skips, -, m, crosses, last⟩ := reads_skipGaps_of_passes passes solid
    cases passes_nil.mp last
    exact ⟨e, skips, reads_eatHere.mpr (.inl ⟨rfl, crosses⟩)⟩

theorem passes_eat_false (eats : Reads (eat w) c false e) (passes : Passes (p :: ps) e d) :
    Passes (p :: ps) c d := by
  obtain ⟨m, skips, rest⟩ := reads_eat.mp eats
  rcases reads_eatHere.mp rest with ⟨impossible, -⟩ | ⟨-, -, rfl⟩
  · cases impossible
  · exact passes_skip skips passes

theorem passes_check {b : Bool} (checks : Reads (check w) c b e) (passes : Passes (p :: ps) e d) :
    Passes (p :: ps) c d :=
  passes_skip (reads_check.mp checks).1 passes

theorem length_of_passes {pieces : List Text} (passes : Passes pieces c d) :
    d.ahead.length ≤ c.ahead.length := by
  obtain ⟨t, -, crosses⟩ := passes
  rw [crosses.1, List.length_append]
  omega

theorem length_of_passes_cons (passes : Passes [x :: p] c d) :
    d.ahead.length < c.ahead.length := by
  obtain ⟨gap, -, crosses⟩ := passes_single.mp passes
  rw [crosses.1]
  simp
  omega

/- Lists of literals. The fuel is never used up, because every comma takes a character. -/
theorem literals_sound {fuel : Nat} {vs : List Value} (room : c.ahead.length < fuel)
    (reads : Reads (literals fuel) c vs d) :
    ∃ pieces, Items pieces vs ∧ Passes (pieces ++ [['}']]) c d := by
  induction fuel generalizing c vs with
  | zero => omega
  | succ fuel ih =>
    simp only [literals, reads_bind] at reads
    obtain ⟨v, m, first, b, m', eats, rest⟩ := reads
    obtain ⟨t, isLiteral, passes, -⟩ := reads_literal.mp first
    cases b with
    | true =>
      rcases reads_ite.mp rest with ⟨-, rest⟩ | ⟨impossible, -⟩
      · obtain ⟨ws, m'', more, yields⟩ := reads_bind.mp rest
        obtain ⟨rfl, rfl⟩ := reads_pure.mp yields
        have comma := (eat_true_iff rfl).mp eats
        have shorter := length_of_passes_cons comma
        have before := length_of_passes passes
        obtain ⟨pieces, items, tail⟩ := ih (by omega) more
        exact ⟨t :: [','] :: pieces, .more isLiteral items,
          passes_step.mpr ⟨m, passes, passes_step.mpr ⟨m', comma, tail⟩⟩⟩
      · exact absurd rfl impossible
    | false =>
      rcases reads_ite.mp rest with ⟨impossible, -⟩ | ⟨-, rest⟩
      · cases impossible
      · obtain ⟨u, m'', closes, yields⟩ := reads_bind.mp rest
        obtain ⟨rfl, rfl⟩ := reads_pure.mp yields
        have brace := passes_eat_false eats ((reads_expect rfl).mp closes)
        exact ⟨[t], .last isLiteral, passes_step.mpr ⟨m, passes, brace⟩⟩

theorem literals_complete {pieces : List Text} {vs : List Value} (items : Items pieces vs)
    {fuel : Nat} (room : c.ahead.length < fuel) (passes : Passes (pieces ++ [['}']]) c d) :
    Reads (literals fuel) c vs d := by
  induction items generalizing c fuel with
  | last isLiteral =>
    cases fuel with
    | zero => omega
    | succ fuel =>
      obtain ⟨m, first, brace⟩ := passes_step.mp passes
      obtain ⟨m', eats, brace'⟩ := eat_of_passes (w := ',') brace rfl (by decide)
      have reads := reads_literal.mpr ⟨_, isLiteral, first,
        ends_of_passes brace rfl (by decide) _⟩
      simp only [literals, reads_bind]
      exact ⟨_, m, reads, false, m', eats, reads_ite.mpr (.inr ⟨by simp, reads_bind.mpr
        ⟨(), d, (reads_expect rfl).mpr brace', reads_pure.mpr ⟨rfl, rfl⟩⟩⟩)⟩
  | more isLiteral items ih =>
    cases fuel with
    | zero => omega
    | succ fuel =>
      obtain ⟨m, first, rest⟩ := passes_step.mp passes
      obtain ⟨m', comma, tail⟩ := passes_step.mp rest
      have reads := reads_literal.mpr ⟨_, isLiteral, first,
        ends_of_passes rest rfl (by decide) _⟩
      have shorter := length_of_passes_cons comma
      have before := length_of_passes first
      simp only [literals, reads_bind]
      exact ⟨_, m, reads, true, m', (eat_true_iff rfl).mpr comma, reads_ite.mpr (.inl ⟨rfl,
        reads_bind.mpr ⟨_, d, ih (by omega) tail, reads_pure.mpr ⟨rfl, rfl⟩⟩⟩)⟩

theorem braced_sound {vs : List Value} (reads : Reads braced c vs d) {kind : Kind}
    (list : kind ≠ .char) : ∃ pieces, Initializer kind pieces vs ∧ Passes pieces c d := by
  simp only [braced, reads_bind] at reads
  obtain ⟨u, m, opens, b, m', eats, rest⟩ := reads
  have brace := (reads_expect rfl).mp opens
  cases b with
  | true =>
    rcases reads_ite.mp rest with ⟨-, yields⟩ | ⟨impossible, -⟩
    · obtain ⟨rfl, rfl⟩ := reads_pure.mp yields
      exact ⟨_, .empty list, passes_step.mpr ⟨m, brace, (eat_true_iff rfl).mp eats⟩⟩
    · exact absurd rfl impossible
  | false =>
    rcases reads_ite.mp rest with ⟨impossible, -⟩ | ⟨-, rest⟩
    · cases impossible
    · obtain ⟨e, m'', isHere, more⟩ := reads_bind.mp rest
      obtain ⟨rfl, rfl⟩ := reads_here.mp isHere
      obtain ⟨pieces, items, passes⟩ := literals_sound (Nat.lt_succ_self _) more
      refine ⟨_, .items list items, passes_step.mpr ⟨m, brace, ?_⟩⟩
      cases pieces with
      | nil => cases items
      | cons first pieces => exact passes_eat_false eats passes

theorem braced_complete {kind : Kind} {pieces : List Text} {vs : List Value} (list : kind ≠ .char)
    (initializer : Initializer kind pieces vs) (passes : Passes pieces c d) :
    Reads braced c vs d := by
  simp only [braced, reads_bind]
  cases initializer with
  | characters _ => exact absurd rfl list
  | empty _ =>
    obtain ⟨m, opens, closes⟩ := passes_step.mp passes
    exact ⟨(), m, (reads_expect rfl).mpr opens, true, d, (eat_true_iff rfl).mpr closes,
      reads_ite.mpr (.inl ⟨rfl, reads_pure.mpr ⟨rfl, rfl⟩⟩)⟩
  | @items _ pieces _ _ items =>
    obtain ⟨m, opens, rest⟩ := passes_step.mp passes
    have first : ∃ x p ps, pieces = (x :: p) :: ps ∧ isGap x = false ∧ x ≠ '}' := by
      cases items with
      | last isLiteral =>
        obtain ⟨x, p, rfl, solid, -, other⟩ := isLiteral_solid isLiteral
        exact ⟨x, p, _, rfl, solid, other⟩
      | more isLiteral _ =>
        obtain ⟨x, p, rfl, solid, -, other⟩ := isLiteral_solid isLiteral
        exact ⟨x, p, _, rfl, solid, other⟩
    obtain ⟨x, p, ps, rfl, solid, other⟩ := first
    obtain ⟨m', eats, rest'⟩ := eat_of_passes (w := '}') rest solid other
    exact ⟨(), m, (reads_expect rfl).mpr opens, false, m', eats, reads_ite.mpr (.inr ⟨by simp,
      reads_bind.mpr ⟨m', m', reads_here.mpr ⟨rfl, rfl⟩,
        literals_complete items (Nat.lt_succ_self _) rest'⟩⟩)⟩

theorem reads_characters {vs : List Value} :
    Reads characters c vs d ↔
      ∃ content, '"' ∉ content ∧ vs = content.map Value.char ∧
        Passes ['"' :: content ++ ['"']] c d := by
  simp only [characters, reads_bind, reads_string, reads_pure]
  constructor
  · intro h
    obtain ⟨content, m, ⟨noQuote, passes⟩, values, rfl⟩ := h
    exact ⟨content, noQuote, values.symm, passes⟩
  · intro h
    obtain ⟨content, noQuote, values, passes⟩ := h
    exact ⟨content, d, ⟨noQuote, passes⟩, values.symm, rfl⟩

theorem size_sound {n : Int64} (reads : Reads size c n e) {valuePieces : List Text}
    (passes : Passes ([']'] :: valuePieces) e d) :
    ∃ sizePieces, IsSize sizePieces n ∧ Passes (sizePieces ++ [']'] :: valuePieces) c d := by
  simp only [size, reads_bind] at reads
  obtain ⟨b, m, checks, rest⟩ := reads
  rcases reads_ite.mp rest with ⟨-, yields⟩ | ⟨-, integers⟩
  · obtain ⟨rfl, rfl⟩ := reads_pure.mp yields
    exact ⟨[], .absent, passes_check checks passes⟩
  · obtain ⟨t, isInteger, first, -⟩ := reads_integer.mp integers
    have both := passes_step.mpr ⟨e, first, passes⟩
    exact ⟨[t], .present isInteger, passes_check checks both⟩

theorem size_complete {sizePieces valuePieces : List Text} {n : Int64}
    (isSize : IsSize sizePieces n) (passes : Passes (sizePieces ++ [']'] :: valuePieces) c d) :
    ∃ e, Reads size c n e ∧ Passes ([']'] :: valuePieces) e d := by
  simp only [size, reads_bind]
  cases isSize with
  | absent =>
    obtain ⟨m, checks, rest⟩ := check_of_passes passes rfl ']'
    exact ⟨m, ⟨true, m, checks, reads_ite.mpr (.inl ⟨rfl, reads_pure.mpr ⟨rfl, rfl⟩⟩)⟩, rest⟩
  | present isInteger =>
    obtain ⟨x, p, rfl, solid, other, -⟩ := isLiteral_solid (.int isInteger)
    obtain ⟨m, checks, rest⟩ := check_of_passes passes solid ']'
    obtain ⟨m', first, rest'⟩ := passes_step.mp rest
    have integers := reads_integer.mpr ⟨_, isInteger, first, stops_digit_of_passes rest' rfl⟩
    refine ⟨m', ⟨_, m, checks, reads_ite.mpr (.inr ⟨?_, integers⟩)⟩, rest'⟩
    simpa using other

theorem initializer_sound {kind : Kind} {vs : List Value} (reads : Reads (initializer kind) c vs d) :
    ∃ pieces, Initializer kind pieces vs ∧ Passes pieces c d := by
  cases kind with
  | char =>
    obtain ⟨content, noQuote, rfl, passes⟩ := reads_characters.mp reads
    exact ⟨_, .characters noQuote, passes⟩
  | int => exact braced_sound reads (by decide)
  | double => exact braced_sound reads (by decide)

theorem initializer_complete {kind : Kind} {pieces : List Text} {vs : List Value}
    (isInitializer : Initializer kind pieces vs) (passes : Passes pieces c d) :
    Reads (initializer kind) c vs d := by
  cases kind with
  | char =>
    cases isInitializer with
    | characters noQuote => exact reads_characters.mpr ⟨_, noQuote, rfl, passes⟩
    | empty list => exact absurd rfl list
    | items list _ => exact absurd rfl list
  | int => exact braced_complete (by decide) isInitializer passes
  | double => exact braced_complete (by decide) isInitializer passes

/- A declaration behind its keyword. -/
theorem declaration_sound {kind : Kind} {s : Statement} (reads : Reads (declaration kind) c s d) :
    ∃ name sizePieces n valuePieces vs, s = .declare kind name n vs ∧ IsName name ∧
      IsSize sizePieces n ∧ Initializer kind valuePieces vs ∧
      Passes (name :: ['['] :: sizePieces ++ [']'] :: ['='] :: valuePieces) c d := by
  simp only [declaration, reads_bind, reads_pure] at reads
  obtain ⟨name, m₁, names, u, m₂, opens, n, m₃, sizes, u', m₄, closes, u'', m₅, equals, vs, m₆,
    values, rfl, rfl⟩ := reads
  obtain ⟨isName, first, -⟩ := reads_identifier.mp names
  obtain ⟨valuePieces, isInitializer, last⟩ := initializer_sound values
  have equal := passes_step.mpr ⟨m₅, (reads_expect rfl).mp equals, last⟩
  have close := passes_step.mpr ⟨m₄, (reads_expect rfl).mp closes, equal⟩
  obtain ⟨sizePieces, isSize, sized⟩ := size_sound sizes close
  exact ⟨name, sizePieces, n, valuePieces, vs, rfl, isName, isSize, isInitializer,
    passes_step.mpr ⟨m₁, first, passes_step.mpr ⟨m₂, (reads_expect rfl).mp opens, sized⟩⟩⟩

theorem declaration_complete {kind : Kind} {name : Text} {sizePieces valuePieces : List Text}
    {n : Int64} {vs : List Value} (isName : IsName name) (isSize : IsSize sizePieces n)
    (isInitializer : Initializer kind valuePieces vs)
    (passes : Passes (name :: ['['] :: sizePieces ++ [']'] :: ['='] :: valuePieces) c d) :
    Reads (declaration kind) c (.declare kind name n vs) d := by
  obtain ⟨m₁, first, rest₁⟩ := passes_step.mp passes
  obtain ⟨m₂, opens, rest₂⟩ := passes_step.mp rest₁
  obtain ⟨m₃, sizes, rest₃⟩ := size_complete isSize rest₂
  obtain ⟨m₄, closes, rest₄⟩ := passes_step.mp rest₃
  obtain ⟨m₅, equals, last⟩ := passes_step.mp rest₄
  simp only [declaration, reads_bind, reads_pure]
  exact ⟨name, m₁, reads_identifier.mpr ⟨isName, first, stops_name_of_passes rest₁ rfl⟩,
    (), m₂, (reads_expect rfl).mpr opens, n, m₃, sizes, (), m₄, (reads_expect rfl).mpr closes,
    (), m₅, (reads_expect rfl).mpr equals, vs, d, initializer_complete isInitializer last, rfl, rfl⟩

/- An update behind its name. -/
theorem assignment_sound {name : Text} {s : Statement} (reads : Reads (assignment name) c s d) :
    ∃ i l index v, s = .update name index v ∧ IsInteger i index ∧ IsLiteral l v ∧
      Passes [['['], i, [']'], ['='], l] c d := by
  simp only [assignment, reads_bind, reads_pure] at reads
  obtain ⟨u, m₁, opens, index, m₂, integers, u', m₃, closes, u'', m₄, equals, v, m₅, literals,
    rfl, rfl⟩ := reads
  obtain ⟨i, isInteger, second, -⟩ := reads_integer.mp integers
  obtain ⟨l, isLiteral, last, -⟩ := reads_literal.mp literals
  have equal := passes_step.mpr ⟨m₄, (reads_expect rfl).mp equals, last⟩
  have close := passes_step.mpr ⟨m₃, (reads_expect rfl).mp closes, equal⟩
  have inner := passes_step.mpr ⟨m₂, second, close⟩
  exact ⟨i, l, index, v, rfl, isInteger, isLiteral,
    passes_step.mpr ⟨m₁, (reads_expect rfl).mp opens, inner⟩⟩

theorem assignment_complete {name i l : Text} {index : Int64} {v : Value}
    (isInteger : IsInteger i index) (isLiteral : IsLiteral l v)
    (passes : Passes [['['], i, [']'], ['='], l] c d) (ends : Ends v d) :
    Reads (assignment name) c (.update name index v) d := by
  obtain ⟨m₁, opens, rest₁⟩ := passes_step.mp passes
  obtain ⟨m₂, second, rest₂⟩ := passes_step.mp rest₁
  obtain ⟨m₃, closes, rest₃⟩ := passes_step.mp rest₂
  obtain ⟨m₄, equals, last⟩ := passes_step.mp rest₃
  simp only [assignment, reads_bind, reads_pure]
  exact ⟨(), m₁, (reads_expect rfl).mpr opens, index, m₂,
    reads_integer.mpr ⟨i, isInteger, second, stops_digit_of_passes rest₂ rfl⟩, (), m₃,
    (reads_expect rfl).mpr closes, (), m₄, (reads_expect rfl).mpr equals, v, d,
    reads_literal.mpr ⟨l, isLiteral, last, ends⟩, rfl, rfl⟩

inductive Argument (name : Text) (index : Int64) : Text → List Text → Statement → Prop where
  | insert {l : Text} {v : Value} : IsLiteral l v →
      Argument name index ['i', 'n', 's', 'e', 'r', 't'] [[','], l] (.insert name index v)
  | delete {method : Text} :
      (method = ['r', 'e', 'm', 'o', 'v', 'e'] ∨ method = ['d', 'e', 'l', 'e', 't', 'e']) →
      Argument name index method [] (.delete name index)

theorem argument_sound {name method : Text} {index : Int64} {s : Statement}
    (reads : Reads (argument name method index) c s d) :
    ∃ pieces, Argument name index method pieces s ∧ Passes pieces c d := by
  rcases reads_ite.mp reads with ⟨rfl, inserts⟩ | ⟨-, rest⟩
  · simp only [reads_bind, reads_pure] at inserts
    obtain ⟨u, m, commas, v, m', literals, rfl, rfl⟩ := inserts
    obtain ⟨l, isLiteral, last, -⟩ := reads_literal.mp literals
    exact ⟨_, .insert isLiteral, passes_step.mpr ⟨m, (reads_expect rfl).mp commas, last⟩⟩
  · rcases reads_ite.mp rest with ⟨word, yields⟩ | ⟨-, fails⟩
    · obtain ⟨rfl, rfl⟩ := reads_pure.mp yields
      exact ⟨[], .delete word, passes_nil.mpr rfl⟩
    · exact absurd fails not_reads_failAt

theorem argument_complete {name method : Text} {index : Int64} {pieces : List Text}
    {s : Statement} (isArgument : Argument name index method pieces s)
    (passes : Passes (pieces ++ [[')']]) c d) :
    ∃ e, Reads (argument name method index) c s e ∧ Passes [[')']] e d := by
  cases isArgument with
  | insert isLiteral =>
    obtain ⟨m, comma, rest⟩ := passes_step.mp passes
    obtain ⟨e, last, closes⟩ := passes_step.mp rest
    refine ⟨e, reads_ite.mpr (.inl ⟨rfl, ?_⟩), closes⟩
    simp only [reads_bind, reads_pure]
    exact ⟨(), m, (reads_expect rfl).mpr comma, _, e,
      reads_literal.mpr ⟨_, isLiteral, last, ends_of_passes closes rfl (by decide) _⟩, rfl, rfl⟩
  | delete word =>
    have other : method ≠ ['i', 'n', 's', 'e', 'r', 't'] := by
      rcases word with rfl | rfl <;> decide
    exact ⟨c, reads_ite.mpr (.inr ⟨other, reads_ite.mpr (.inl ⟨word,
      reads_pure.mpr ⟨rfl, rfl⟩⟩)⟩), passes⟩

/- A call behind the name of the array. -/
theorem call_sound {name : Text} {s : Statement} (reads : Reads (call name) c s d) :
    ∃ method i index pieces, Argument name index method pieces s ∧ IsInteger i index ∧
      Passes (['.'] :: method :: ['('] :: i :: pieces ++ [[')']]) c d := by
  simp only [call, reads_bind, reads_pure] at reads
  obtain ⟨u, m₁, dots, method, m₂, methods, u', m₃, opens, index, m₄, integers, s', m₅, arguments,
    u'', m₆, closes, rfl, rfl⟩ := reads
  obtain ⟨-, second, -⟩ := reads_identifier.mp methods
  obtain ⟨i, isInteger, fourth, -⟩ := reads_integer.mp integers
  obtain ⟨pieces, isArgument, fifth⟩ := argument_sound arguments
  have close := passes_append.mpr ⟨m₅, fifth, (reads_expect rfl).mp closes⟩
  have inner := passes_step.mpr ⟨m₄, fourth, close⟩
  have open' := passes_step.mpr ⟨m₃, (reads_expect rfl).mp opens, inner⟩
  have named := passes_step.mpr ⟨m₂, second, open'⟩
  exact ⟨method, i, index, pieces, isArgument, isInteger,
    passes_step.mpr ⟨m₁, (reads_expect rfl).mp dots, named⟩⟩

theorem call_complete {name method i : Text} {index : Int64} {pieces : List Text} {s : Statement}
    (isArgument : Argument name index method pieces s) (isInteger : IsInteger i index)
    (passes : Passes (['.'] :: method :: ['('] :: i :: pieces ++ [[')']]) c d) :
    Reads (call name) c s d := by
  obtain ⟨m₁, dots, rest₁⟩ := passes_step.mp passes
  obtain ⟨m₂, second, rest₂⟩ := passes_step.mp rest₁
  obtain ⟨m₃, opens, rest₃⟩ := passes_step.mp rest₂
  obtain ⟨m₄, fourth, rest₄⟩ := passes_step.mp rest₃
  obtain ⟨m₅, arguments, closes⟩ := argument_complete isArgument rest₄
  have isName : IsName method := by
    cases isArgument with
    | insert _ => exact isName_of_all rfl rfl
    | delete word =>
      rcases word with rfl | rfl
      · exact isName_of_all rfl rfl
      · exact isName_of_all rfl rfl
  have stops : m₄.Stops Char.isDigit := by
    cases isArgument with
    | insert _ => exact stops_digit_of_passes rest₄ rfl
    | delete _ => exact stops_digit_of_passes rest₄ rfl
  simp only [call, reads_bind, reads_pure]
  exact ⟨(), m₁, (reads_expect rfl).mpr dots, method, m₂,
    reads_identifier.mpr ⟨isName, second, stops_name_of_passes rest₂ rfl⟩, (), m₃,
    (reads_expect rfl).mpr opens, index, m₄, reads_integer.mpr ⟨i, isInteger, fourth, stops⟩,
    s, m₅, arguments, (), d, (reads_expect rfl).mpr closes, rfl, rfl⟩

end ArrayReplay.Statement
