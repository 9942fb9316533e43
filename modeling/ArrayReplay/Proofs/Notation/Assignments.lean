import ArrayReplay.Proofs.Notation.Literals
import ArrayReplay.Proofs.Notation.Operations

namespace ArrayReplay

theorem Reader.Reads.unique {α : Type} {m : Reader α} {c d e : Cursor} {a b : α}
    (first : Reads m c a d) (second : Reads m c b e) : a = b ∧ d = e := by
  have same := first.symm.trans second
  cases same
  exact ⟨rfl, rfl⟩

namespace Statement
open Cursor Grammar Reader

variable {name u front rest : Text} {s : Statement} {c d e : Cursor}

theorem assigns_of_body (plain : IsPlainName name) (passes : Passes [name, '[' :: u] c e)
    (reads : Reads body c s d) : ∃ m, Passes ['[' :: u] m e ∧ Reads (assignment name) m s d := by
  obtain ⟨isName, none⟩ := isPlainName_iff.mp plain
  obtain ⟨m, first, behind⟩ := passes_step.mp passes
  obtain ⟨m', checks, behind'⟩ := check_of_passes behind rfl '['
  have names := reads_identifier.mpr ⟨isName, first, stops_name_of_passes behind rfl⟩
  simp only [body, reads_bind] at reads
  obtain ⟨word, m₁, names', reads⟩ := reads
  obtain ⟨rfl, rfl⟩ := names.unique names'
  rw [none] at reads
  obtain ⟨b, m₂, checks', reads⟩ := reads_bind.mp reads
  obtain ⟨rfl, rfl⟩ := checks.unique checks'
  rcases reads_ite.mp reads with ⟨-, assigns⟩ | ⟨impossible, -⟩
  · exact ⟨m', behind', assigns⟩
  · exact absurd rfl impossible

end Statement

namespace Grammar
open Cursor Reader

variable {name u front rest : Text} {s : Statement}

def Closes (t : Text) : Prop :=
  ∃ g₁ i n g₂ g₃, t = g₁ ++ i ++ g₂ ++ ']' :: g₃ ∧ Gap g₁ ∧ IsInteger i n ∧ Gap g₂ ∧ Gap g₃

theorem cut_of_sentence (plain : IsPlainName name) (spaced : Spaced [name, '[' :: u] front)
    (absent : '=' ∉ u) (isSentence : Sentence (front ++ '=' :: rest) s) : Closes u ∧ Opens rest := by
  obtain ⟨d, whole⟩ : ∃ d, Reads Statement.sentence (start (front ++ '=' :: rest)) s d :=
    ⟨_, Prod.ext (Statement.read_eq_ok_iff.mpr isSentence) rfl⟩
  simp only [Statement.sentence, reads_bind] at whole
  obtain ⟨t, e, reads, -⟩ := whole
  have crosses : (start (front ++ '=' :: rest)).Crosses front ⟨front.length, '=' :: rest⟩ :=
    crosses_start.mpr ⟨rfl, rfl⟩
  obtain ⟨m, behind, assigns⟩ := Statement.assigns_of_body plain ⟨front, spaced, crosses⟩ reads
  obtain ⟨i, l, index, v, -, isInteger, isLiteral, text, spaced', crosses'⟩ :=
    Statement.assignment_sound assigns
  obtain ⟨blank, isGap, opens⟩ := passes_single.mp behind
  obtain ⟨s₁, s₂, rfl, first, second⟩ :=
    (@spaced_append [['['], i, [']']] [['='], l] text).mp spaced'
  cases first with
  | @cons g₀ _ _ _ isGap₀ first =>
    cases first with
    | @cons g₁ _ _ _ isGap₁ first =>
      obtain ⟨g₂, isGap₂, rfl⟩ := spaced_single.mp first
      cases second with
      | @cons g₃ _ _ _ isGap₃ second =>
        obtain ⟨g₄, isGap₄, rfl⟩ := spaced_single.mp second
        have same : blank ++ '[' :: (u ++ '=' :: rest) =
            g₀ ++ '[' :: ((g₁ ++ i ++ g₂ ++ ']' :: g₃) ++ '=' :: (g₄ ++ l ++ e.ahead)) := by
          simpa using opens.1.symm.trans crosses'.1
        obtain ⟨-, inner⟩ :=
          Text.cut_unique same (not_mem_of_gap isGap rfl) (not_mem_of_gap isGap₀ rfl)
        have absent' : '=' ∉ g₁ ++ i ++ g₂ ++ ']' :: g₃ := by
          have gaps : '=' ∉ g₁ ∧ '=' ∉ g₂ ∧ '=' ∉ g₃ :=
            ⟨not_mem_of_gap isGap₁ rfl, not_mem_of_gap isGap₂ rfl, not_mem_of_gap isGap₃ rfl⟩
          simp [gaps, sign_not_mem_integer isInteger]
        obtain ⟨rfl, rfl⟩ := Text.cut_unique inner absent absent'
        exact ⟨⟨g₁, i, index, g₂, g₃, rfl, isGap₁, isInteger, isGap₂, isGap₃⟩,
          ⟨g₄, l, v, e.ahead, rfl, isGap₄, isLiteral⟩⟩

theorem cut_of_row {indent : Text} (blank : Text.Blanks indent) (plain : IsPlainName name)
    (spaced : Spaced [name, '[' :: u] front) (absent : '=' ∉ u)
    (head : ∀ c, front.head? = some c → Text.isBlank c = false)
    (isSentence : Sentence (Text.trim (indent ++ (front ++ '=' :: rest))) s) :
    Closes u ∧ Opens rest := by
  have head' : ∀ c, (front ++ ['=']).head? = some c → Text.isBlank c = false := by
    cases front with
    | nil =>
      intro c first
      cases first
      decide
    | cons x front => exact head
  obtain ⟨kept, tail, rfl, same⟩ := Text.exists_trim_visible blank head' (by decide) rest
  obtain ⟨closes, opens⟩ := cut_of_sentence plain spaced absent (same ▸ isSentence)
  exact ⟨closes, opens_append opens tail⟩

/-- A row that holds an update is cut at its equals sign. Whatever else stands behind the sign, the
row is a sentence only if that begins with a literal. -/
theorem exists_sign {row : Text} {i : Int64} {w : Value}
    (reads : Statement.ofLine row = .update name i w) :
    ∃ front rest, row = front ++ '=' :: rest ∧ '=' ∉ front ∧
      ∀ body s, Sentence (Text.trim (front ++ '=' :: body)) s → Opens body := by
  obtain ⟨tail, blank, whole⟩ := Text.exists_trim row
  have trimmed := Text.trimmed_trim row
  obtain ⟨pieces, text, gap, comment, form, spaced, -, -, cut⟩ :=
    Statement.sentence_of_ofLine reads rfl
  rw [cut] at whole trimmed
  cases form with
  | @update _ j l _ _ plain isInteger isLiteral =>
    obtain ⟨s, g₁, g₂, u, rfl, before, isGap₁, -, -⟩ := spaced_update.mp spaced
    obtain ⟨s₁, s₂, rfl, named, closes⟩ :=
      (@spaced_append [name, ['[']] [j, [']']] s).mp before
    have absent : '=' ∉ s₂ ++ g₁ := by
      have inside : '=' ∉ s₂ :=
        not_mem_of_spaced closes rfl (by simp [sign_not_mem_integer isInteger])
      have behind : '=' ∉ g₁ := not_mem_of_gap isGap₁ rfl
      simp [inside, behind]
    have absent' : '=' ∉ Text.indent row ++ (s₁ ++ (s₂ ++ g₁)) := by
      have indent : '=' ∉ Text.indent row := fun member =>
        absurd (Text.blanks_indent row '=' member) (by decide)
      have opening : '=' ∉ s₁ := not_mem_of_spaced named rfl (by simp [sign_not_mem_name plain.1])
      simpa [indent, opening] using absent
    have spaced' : Spaced [name, '[' :: (s₂ ++ g₁)] (s₁ ++ (s₂ ++ g₁)) := by
      cases named with
      | @cons g _ _ _ isGap named =>
        obtain ⟨g', isGap', rfl⟩ := spaced_single.mp named
        simpa using Spaced.cons isGap (.cons isGap' .nil)
    refine ⟨Text.indent row ++ (s₁ ++ (s₂ ++ g₁)), _, by simpa using whole, absent',
      fun body s isSentence => ?_⟩
    have head : ∀ c, (s₁ ++ (s₂ ++ g₁)).head? = some c → Text.isBlank c = false := by
      intro c first
      have same : s₁ ++ s₂ ++ (g₁ ++ ['='] ++ (g₂ ++ l ++ u)) ++ gap ++ comment =
          (s₁ ++ (s₂ ++ g₁)) ++ ('=' :: (g₂ ++ l ++ u) ++ gap ++ comment) := by simp
      rw [same] at trimmed
      exact trimmed.head c (by rw [List.head?_append, first, Option.some_or])
    rw [List.append_assoc] at isSentence
    exact (cut_of_row (Text.blanks_indent row) plain spaced' absent head isSentence).2

theorem gap_eq_nil {gap : Text} (isGap : Gap gap) (digits : Digits gap) : gap = [] := by
  cases gap with
  | nil => rfl
  | cons c rest =>
    have solid := isGap_eq_false_of_isDigit (digits c (by simp))
    rw [Reader.gap_iff.mp isGap c (by simp)] at solid
    cases solid

theorem toInt_of_ofNat {index : Nat} {n : Int64} (isInteger : IsInteger (Numeral.ofNat index) n) :
    n.toInt = index := by
  have all := Numeral.digits_ofNat index
  generalize written : Numeral.ofNat index = t at isInteger all
  cases isInteger with
  | @mk negative digits _ filled _ value =>
    cases negative with
    | true => cases all '-' (by simp [sign])
    | false =>
      have same : Numeral.ofNat index = digits := by simpa [sign] using written
      rw [value, ← same, Numeral.signedValue, Numeral.value_ofNat]
      rfl

theorem closes_ofNat {index : Nat} (closes : Closes (Numeral.ofNat index ++ [']', ' '])) :
    ∃ i : Int64, i.toInt = index := by
  obtain ⟨g₁, i, n, g₂, g₃, same, isGap₁, isInteger, isGap₂, -⟩ := closes
  have digits := Numeral.digits_ofNat index
  have absent : ']' ∉ Numeral.ofNat index := fun member => by cases digits ']' member
  have absent' : ']' ∉ g₁ ++ i ++ g₂ := by
    have inside : ']' ∉ i := fun member =>
      absurd (isNumeral_of_isInteger isInteger ']' member) (by decide)
    have gaps : ']' ∉ g₁ ∧ ']' ∉ g₂ := ⟨not_mem_of_gap isGap₁ rfl, not_mem_of_gap isGap₂ rfl⟩
    simp [inside, gaps]
  obtain ⟨inner, -⟩ := Text.cut_unique same absent absent'
  rw [inner] at digits
  obtain ⟨first, -, last⟩ : Digits g₁ ∧ Digits i ∧ Digits g₂ := by
    simpa [Digits, or_imp, forall_and] using digits
  obtain rfl := gap_eq_nil isGap₁ first
  obtain rfl := gap_eq_nil isGap₂ last
  have whole : Numeral.ofNat index = i := by simpa using inner
  exact ⟨n, toInt_of_ofNat (whole ▸ isInteger)⟩

end Grammar
end ArrayReplay
