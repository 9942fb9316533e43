import ArrayReplay.Proofs.Notation.Sentences
import ArrayReplay.Proofs.Text.Trimming

namespace ArrayReplay.Grammar

theorem isBlank_eq_false_of_le {c a z : Char} (first : 0x20 < a.toNat) (last : z.toNat < 0x85)
    (low : a.val ≤ c.val) (high : c.val ≤ z.val) : Text.isBlank c = false := by
  have low : a.toNat ≤ c.toNat := UInt32.le_iff_toNat_le.mp low
  have high : c.toNat ≤ z.toNat := UInt32.le_iff_toNat_le.mp high
  simp only [Text.isBlank, Bool.or_eq_false_iff, Bool.and_eq_false_iff, beq_eq_false_iff_ne,
    decide_eq_false_iff_not]
  omega

theorem isBlank_eq_false_of_isDigit {c : Char} (h : c.isDigit = true) :
    Text.isBlank c = false := by
  obtain ⟨low, high⟩ := (Bool.and_eq_true _ _).mp h
  exact isBlank_eq_false_of_le (by decide) (by decide) (of_decide_eq_true low)
    (of_decide_eq_true high)

theorem isBlank_eq_false_of_isNameStart {c : Char} (h : Reader.isNameStart c = true) :
    Text.isBlank c = false := by
  rcases (Bool.or_eq_true _ _).mp h with letter | underscore
  · rcases (Bool.or_eq_true _ _).mp letter with upper | lower
    · obtain ⟨low, high⟩ := of_decide_eq_true upper
      exact isBlank_eq_false_of_le (by decide) (by decide) low high
    · obtain ⟨low, high⟩ := (Bool.and_eq_true _ _).mp lower
      exact isBlank_eq_false_of_le (by decide) (by decide) (of_decide_eq_true low)
        (of_decide_eq_true high)
  · rw [beq_iff_eq.mp underscore]
    decide

theorem isBlank_of_isGap {c : Char} (h : Reader.isGap c = true) : Text.isBlank c = true := by
  rcases Reader.isGap_iff.mp h with rfl | rfl | rfl <;> decide

theorem spaced_append {ps qs : List Text} {t : Text} :
    Spaced (ps ++ qs) t ↔ ∃ s u, t = s ++ u ∧ Spaced ps s ∧ Spaced qs u := by
  induction ps generalizing t with
  | nil =>
    constructor
    · intro spaced
      exact ⟨[], t, rfl, .nil, spaced⟩
    · intro h
      obtain ⟨s, u, rfl, none, spaced⟩ := h
      cases none
      exact spaced
  | cons piece ps ih =>
    constructor
    · intro spaced
      cases spaced with
      | @cons gap _ rest _ isGap more =>
        obtain ⟨s, u, rfl, first, second⟩ := ih.mp more
        exact ⟨gap ++ piece ++ s, u, by simp, .cons isGap first, second⟩
    · intro h
      obtain ⟨s, u, rfl, first, second⟩ := h
      cases first with
      | @cons gap _ rest _ isGap more =>
        rw [List.append_assoc]
        exact .cons isGap (ih.mpr ⟨rest, u, rfl, more, second⟩)

theorem spaced_single {piece t : Text} : Spaced [piece] t ↔ ∃ gap, Gap gap ∧ t = gap ++ piece := by
  constructor
  · intro spaced
    cases spaced with
    | @cons gap _ _ _ isGap none =>
      cases none
      exact ⟨gap, isGap, by simp⟩
  · rintro ⟨gap, isGap, rfl⟩
    simpa using Spaced.cons isGap .nil

theorem not_mem_of_gap {t : Text} {x : Char} (isGap : Gap t) (solid : Reader.isGap x = false) :
    x ∉ t := by
  intro member
  rw [Reader.gap_iff.mp isGap x member] at solid
  cases solid

theorem not_mem_of_spaced {pieces : List Text} {t : Text} {x : Char} (spaced : Spaced pieces t)
    (solid : Reader.isGap x = false) (absent : ∀ p ∈ pieces, x ∉ p) : x ∉ t := by
  induction spaced with
  | nil => exact List.not_mem_nil
  | cons gap more ih =>
    obtain ⟨here, later⟩ := List.forall_mem_cons.mp absent
    simp [not_mem_of_gap gap solid, here, ih later]

theorem sign_not_mem_name {t : Text} (isName : IsName t) : '=' ∉ t := by
  obtain ⟨x, rest, -, -, parts⟩ := Reader.isName_iff.mp isName
  intro member
  exact absurd (parts '=' member) (by decide)

def IsNumeral (t : Text) : Prop := ∀ c ∈ t, c = '-' ∨ c = '.' ∨ c.isDigit = true

theorem isNumeral_of_digits {t : Text} (digits : Digits t) : IsNumeral t :=
  fun c member => .inr (.inr (digits c member))

theorem isNumeral_sign (negative : Bool) : IsNumeral (sign negative) := by
  cases negative with
  | false => exact List.forall_mem_nil _
  | true => exact List.forall_mem_singleton.mpr (.inl rfl)

theorem isNumeral_of_isInteger {t : Text} {n : Int64} (isInteger : IsInteger t n) :
    IsNumeral t := by
  cases isInteger with
  | @mk negative digits _ filled all same =>
    exact List.forall_mem_append.mpr ⟨isNumeral_sign negative, isNumeral_of_digits all⟩

theorem isNumeral_of_isLiteral {t : Text} {v : Value} (isLiteral : IsLiteral t v)
    (number : v.kind ≠ .char) : IsNumeral t := by
  cases isLiteral with
  | int isInteger => exact isNumeral_of_isInteger isInteger
  | @double negative whole fraction all all' filled =>
    have front := List.forall_mem_append.mpr ⟨isNumeral_sign negative, isNumeral_of_digits all⟩
    refine List.forall_mem_append.mpr ⟨front, List.forall_mem_cons.mpr ⟨.inr (.inl rfl), ?_⟩⟩
    exact isNumeral_of_digits all'
  | char c => exact absurd rfl number

theorem sign_not_mem_integer {t : Text} {n : Int64} (isInteger : IsInteger t n) : '=' ∉ t := by
  intro member
  exact absurd (isNumeral_of_isInteger isInteger '=' member) (by decide)

theorem spaced_update {name i l t : Text} :
    Spaced [name, ['['], i, [']'], ['='], l, [';']] t ↔
      ∃ s g₁ g₂ u, t = s ++ (g₁ ++ ['='] ++ (g₂ ++ l ++ u)) ∧
        Spaced [name, ['['], i, [']']] s ∧ Gap g₁ ∧ Gap g₂ ∧ Spaced [[';']] u := by
  constructor
  · intro spaced
    obtain ⟨s, u, rfl, before, behind⟩ :=
      (@spaced_append [name, ['['], i, [']']] [['='], l, [';']] t).mp spaced
    cases behind with
    | @cons g₁ _ _ _ isGap₁ behind =>
      cases behind with
      | @cons g₂ _ u _ isGap₂ last => exact ⟨s, g₁, g₂, u, rfl, before, isGap₁, isGap₂, last⟩
  · intro h
    obtain ⟨s, g₁, g₂, u, rfl, before, isGap₁, isGap₂, last⟩ := h
    exact (@spaced_append [name, ['['], i, [']']] [['='], l, [';']] _).mpr
      ⟨s, _, rfl, before, .cons isGap₁ (.cons isGap₂ last)⟩

theorem exists_end {u : Text} (last : Spaced [[';']] u) :
    ∃ x rest, u = x :: rest ∧ (x = ';' ∨ Reader.isGap x = true) := by
  cases last with
  | @cons gap _ _ _ isGap none =>
    cases gap with
    | nil => exact ⟨';', _, rfl, .inl rfl⟩
    | cons x gap => exact ⟨x, _, rfl, .inr (Reader.gap_iff.mp isGap x (by simp))⟩

/-- The literal of an update stands behind its first equals sign, and any other literal may stand
there. -/
theorem exists_literal {t name : Text} {index : Int64} {v : Value}
    (isSentence : Sentence t (.update name index v)) :
    ∃ front gap old x rest, t = front ++ '=' :: (gap ++ old ++ x :: rest) ∧ '=' ∉ front ∧
      front ≠ [] ∧ Gap gap ∧ IsLiteral old v ∧ (x = ';' ∨ Reader.isGap x = true) ∧
      ∀ new w, IsLiteral new w →
        Sentence (front ++ '=' :: (gap ++ new ++ x :: rest)) (.update name index w) := by
  obtain ⟨pieces, text, gap', tail, form, spaced, isGap', isTail, rfl⟩ := isSentence
  cases form with
  | @update _ i l _ _ plain isInteger isLiteral =>
    obtain ⟨s, g₁, g₂, u, rfl, before, isGap₁, isGap₂, last⟩ := spaced_update.mp spaced
    obtain ⟨x, rest, rfl, ends⟩ := exists_end last
    have inName := sign_not_mem_name plain.1
    have inIndex := sign_not_mem_integer isInteger
    have absent : '=' ∉ s := not_mem_of_spaced before rfl (by simp [inName, inIndex])
    have absent' : '=' ∉ g₁ := not_mem_of_gap isGap₁ rfl
    have filled : s ++ g₁ ≠ [] := by
      obtain ⟨c, name, rfl, -⟩ := plain.1
      cases before with
      | cons isGap more => simp
    refine ⟨s ++ g₁, g₂, l, x, rest ++ gap' ++ tail, by simp, by simp [absent, absent'], filled,
      isGap₂, isLiteral, ends, fun new w isNew => ?_⟩
    refine ⟨_, s ++ (g₁ ++ ['='] ++ (g₂ ++ new ++ x :: rest)), gap', tail,
      .update plain isInteger isNew, ?_, isGap', isTail, by simp⟩
    exact spaced_update.mpr ⟨s, g₁, g₂, _, rfl, before, isGap₁, isGap₂, last⟩

theorem exists_head {t : Text} {v : Value} (isLiteral : IsLiteral t v) :
    ∃ y more, t = y :: more ∧ Text.isBlank y = false := by
  by_cases char : v.kind = .char
  · obtain ⟨c, -, rfl⟩ := Reader.isChar_shape isLiteral char
    exact ⟨'\'', _, rfl, by decide⟩
  · obtain ⟨y, more, rfl, rfl | rfl | digit⟩ := Reader.isNumber_solid isLiteral char
    · exact ⟨'-', more, rfl, by decide⟩
    · exact ⟨'.', more, rfl, by decide⟩
    · exact ⟨y, more, rfl, isBlank_eq_false_of_isDigit digit⟩

theorem exists_first {pieces : List Text} {s : Statement} (form : Form pieces s) :
    ∃ x p ps, pieces = (x :: p) :: ps ∧ Reader.isNameStart x = true := by
  have named : ∀ {name : Text}, IsName name → ∃ x p, name = x :: p ∧
      Reader.isNameStart x = true := by
    intro name isName
    obtain ⟨x, p, same, start, -⟩ := Reader.isName_iff.mp isName
    exact ⟨x, p, same, start⟩
  cases form with
  | @declare kind _ _ _ _ _ g blank isName isSize isInitializer =>
    cases kind with
    | int => exact ⟨'i', _, _, rfl, by decide⟩
    | double => exact ⟨'d', _, _, rfl, by decide⟩
    | char => exact ⟨'c', _, _, rfl, by decide⟩
  | update plain isInteger isLiteral =>
    obtain ⟨x, p, rfl, start⟩ := named plain.1
    exact ⟨x, p, _, rfl, start⟩
  | insert plain isInteger isLiteral =>
    obtain ⟨x, p, rfl, start⟩ := named plain.1
    exact ⟨x, p, _, rfl, start⟩
  | delete plain isInteger word =>
    obtain ⟨x, p, rfl, start⟩ := named plain.1
    exact ⟨x, p, _, rfl, start⟩

theorem exists_start {t : Text} {s : Statement} (isSentence : Sentence t s)
    (trimmed : Text.Trimmed t) : ∃ x rest, t = x :: rest ∧ Reader.isNameStart x = true := by
  obtain ⟨pieces, front, gap, tail, form, spaced, -, -, rfl⟩ := isSentence
  obtain ⟨x, p, ps, rfl, start⟩ := exists_first form
  cases spaced with
  | @cons g _ rest _ isGap more =>
    cases g with
    | nil => exact ⟨x, _, rfl, start⟩
    | cons y g =>
      have visible := trimmed.head y rfl
      rw [isBlank_of_isGap (Reader.gap_iff.mp isGap y (by simp))] at visible
      cases visible

end ArrayReplay.Grammar
