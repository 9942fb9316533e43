import ArrayReplay.Text.Blank
import ArrayReplay.Text.Rows
import Mathlib.Data.List.Basic

/-! What trimming takes apart. A row is its indent, its trimmed text and blank characters behind it,
and no other cut of the row leaves a trimmed text between blank ones. -/
namespace ArrayReplay.Text

variable {front body tail t : Text}

def Blanks (t : Text) : Prop := ∀ c ∈ t, isBlank c = true

structure Trimmed (t : Text) : Prop where
  head : ∀ c, t.head? = some c → isBlank c = false
  last : ∀ c, t.getLast? = some c → isBlank c = false

theorem Trimmed.head_append (trimmed : Trimmed body) (filled : body ≠ []) :
    ∀ c, (body ++ tail).head? = some c → isBlank c = false := by
  rw [List.head?_append_of_ne_nil _ filled]
  exact trimmed.head

theorem blanks_indent (t : Text) : Blanks (indent t) := by
  have all : (t.takeWhile isBlank).all isBlank = true := List.all_takeWhile
  exact List.all_eq_true.mp all

theorem blanks_append (first : Blanks front) (second : Blanks tail) : Blanks (front ++ tail) := by
  intro c member
  rcases List.mem_append.mp member with member | member
  · exact first c member
  · exact second c member

theorem dropWhile_eq_self {p : Char → Bool} (h : ∀ c, t.head? = some c → p c = false) :
    t.dropWhile p = t := by
  cases t with
  | nil => rfl
  | cons c rest => exact List.dropWhile_cons_of_neg (by simp [h c rfl])

theorem takeWhile_eq_nil {p : Char → Bool} (h : ∀ c, t.head? = some c → p c = false) :
    t.takeWhile p = [] := by
  cases t with
  | nil => rfl
  | cons c rest => exact List.takeWhile_cons_of_neg (by simp [h c rfl])

theorem takeWhile_exact {p : Char → Bool} {x : Char} (inside : ∀ c ∈ front, p c = true)
    (outside : p x = false) (t : Text) : (front ++ x :: t).takeWhile p = front := by
  rw [List.takeWhile_append_of_pos inside, List.takeWhile_cons_of_neg (by simp [outside]),
    List.append_nil]

theorem dropWhile_exact {p : Char → Bool} {x : Char} (inside : ∀ c ∈ front, p c = true)
    (outside : p x = false) (t : Text) : (front ++ x :: t).dropWhile p = x :: t := by
  rw [List.dropWhile_append_of_pos inside, List.dropWhile_cons_of_neg (by simp [outside])]

theorem bne_of_not_mem {x : Char} (absent : x ∉ t) : ∀ c ∈ t, (c != x) = true :=
  fun _ member => bne_iff_ne.mpr fun same => absent (same ▸ member)

theorem cut_unique {s t front' : Text} {x : Char} (same : front ++ x :: s = front' ++ x :: t)
    (absent : x ∉ front) (absent' : x ∉ front') : front = front' ∧ s = t := by
  have taken := congrArg (List.takeWhile (· != x)) same
  rw [takeWhile_exact (bne_of_not_mem absent) (by simp),
    takeWhile_exact (bne_of_not_mem absent') (by simp)] at taken
  subst taken
  exact ⟨rfl, List.tail_eq_of_cons_eq (List.append_cancel_left same)⟩

theorem trimStart_append (blank : Blanks front) : trimStart (front ++ t) = trimStart t :=
  List.dropWhile_append_of_pos blank

theorem indent_append (blank : Blanks front) : indent (front ++ t) = front ++ indent t :=
  List.takeWhile_append_of_pos blank

theorem trimEnd_append (blank : Blanks tail) : trimEnd (t ++ tail) = trimEnd t := by
  have reversed : ∀ c ∈ tail.reverse, isBlank c = true := fun c member =>
    blank c (List.mem_reverse.mp member)
  simp only [trimEnd, List.reverse_append]
  rw [List.dropWhile_append_of_pos reversed]

theorem trimStart_of_blanks (blank : Blanks t) : trimStart t = [] := by
  rw [← List.append_nil t, trimStart_append blank]
  rfl

theorem trim_of_blanks (blank : Blanks t) : trim t = [] := by
  rw [trim, trimStart_of_blanks blank]
  rfl

theorem trimEnd_of_trimmed (trimmed : Trimmed t) : trimEnd t = t := by
  have reversed : ∀ c, t.reverse.head? = some c → isBlank c = false := by
    intro c head
    rw [List.head?_reverse] at head
    exact trimmed.last c head
  rw [trimEnd, dropWhile_eq_self reversed, List.reverse_reverse]

theorem trim_of_trimmed (trimmed : Trimmed t) : trim t = t := by
  rw [trim, trimStart, dropWhile_eq_self trimmed.head, trimEnd_of_trimmed trimmed]

/-- Between blank characters a trimmed text is all that trimming leaves. -/
theorem trim_append (before : Blanks front) (trimmed : Trimmed body) (behind : Blanks tail) :
    trim (front ++ body ++ tail) = body := by
  by_cases filled : body = []
  · subst filled
    rw [List.append_nil]
    exact trim_of_blanks (blanks_append before behind)
  · rw [List.append_assoc, trim, trimStart_append before, trimStart,
      dropWhile_eq_self (trimmed.head_append filled), trimEnd_append behind,
      trimEnd_of_trimmed trimmed]

theorem indent_eq (before : Blanks front) (trimmed : Trimmed body) (filled : body ≠ []) :
    indent (front ++ body ++ tail) = front := by
  rw [List.append_assoc, indent_append before, indent,
    takeWhile_eq_nil (trimmed.head_append filled), List.append_nil]

theorem last_trimEnd (t : Text) (c : Char) (last : (trimEnd t).getLast? = some c) :
    isBlank c = false := by
  rw [trimEnd, List.getLast?_reverse] at last
  cases start : t.reverse.dropWhile isBlank with
  | nil => rw [start] at last; cases last
  | cons d rest =>
    rw [start] at last
    cases last
    exact not_isBlank_head_trimStart start

theorem exists_trimEnd (t : Text) : ∃ tail, Blanks tail ∧ t = trimEnd t ++ tail := by
  refine ⟨(indent t.reverse).reverse, ?_, ?_⟩
  · intro c member
    exact blanks_indent _ c (List.mem_reverse.mp member)
  · have whole := congrArg List.reverse (indent_append_trimStart t.reverse)
    rw [List.reverse_append, List.reverse_reverse] at whole
    exact whole.symm

theorem exists_trim_visible {x : Char} (before : Blanks front)
    (head : ∀ c, (body ++ [x]).head? = some c → isBlank c = false) (visible : isBlank x = false)
    (rest : Text) : ∃ kept tail, rest = kept ++ tail ∧
      trim (front ++ (body ++ x :: rest)) = body ++ x :: kept := by
  obtain ⟨tail, blank, whole⟩ := exists_trimEnd rest
  refine ⟨trimEnd rest, tail, whole, ?_⟩
  have trimmed : Trimmed (body ++ x :: trimEnd rest) := by
    constructor
    · intro c first
      apply head c
      cases body with
      | nil => exact first
      | cons y body => exact first
    · intro c last
      rw [List.getLast?_append, List.getLast?_cons] at last
      cases final : (trimEnd rest).getLast? with
      | none =>
        rw [final] at last
        cases last
        exact visible
      | some d =>
        rw [final] at last
        cases last
        exact last_trimEnd rest _ final
  have same := trim_append before trimmed blank
  rwa [List.append_assoc, List.append_assoc, List.cons_append, ← whole] at same

theorem exists_trim (t : Text) : ∃ tail, Blanks tail ∧ t = indent t ++ trim t ++ tail := by
  obtain ⟨tail, blank, whole⟩ := exists_trimEnd (trimStart t)
  refine ⟨tail, blank, ?_⟩
  rw [List.append_assoc, trim, ← whole, indent_append_trimStart]

theorem trimmed_trim (t : Text) : Trimmed (trim t) := by
  constructor
  · intro c head
    obtain ⟨tail, -, whole⟩ := exists_trimEnd (trimStart t)
    have filled : trim t ≠ [] := by
      intro empty
      rw [empty] at head
      cases head
    have first : (trimStart t).head? = some c := by
      rw [whole]
      exact (List.head?_append_of_ne_nil _ filled).trans head
    cases start : trimStart t with
    | nil => rw [start] at first; cases first
    | cons d rest =>
      rw [start] at first
      cases first
      exact not_isBlank_head_trimStart start
  · intro c last
    exact last_trimEnd (trimStart t) c last

theorem trimmed_exchange {old rest : Text} {x : Char} (filled : front ≠ [])
    (trimmed : Trimmed (front ++ (old ++ x :: rest))) (new : Text) :
    Trimmed (front ++ (new ++ x :: rest)) := by
  constructor
  · intro c head
    rw [List.head?_append_of_ne_nil _ filled] at head
    apply trimmed.head c
    rw [List.head?_append_of_ne_nil _ filled, head]
  · intro c last
    apply trimmed.last c
    rw [← last]
    simp [List.getLast?_append, List.getLast?_cons]

theorem length_trim_le (t : Text) : (trim t).length ≤ t.length := by
  obtain ⟨tail, -, whole⟩ := exists_trim t
  have := congrArg List.length whole
  simp only [List.length_append] at this
  omega

theorem exists_dropReturn (row : Text) : ∃ tail, Blanks tail ∧ row = dropReturn row ++ tail := by
  unfold dropReturn
  split
  · next last =>
    refine ⟨['\r'], by simp [Blanks, isBlank], ?_⟩
    obtain ⟨front, rfl⟩ := List.getLast?_eq_some_iff.mp last
    rw [List.dropLast_concat]
  · exact ⟨[], by simp [Blanks], (List.append_nil row).symm⟩

theorem trim_append_blanks (blank : Blanks tail) : trim (t ++ tail) = trim t := by
  obtain ⟨rest, blank', whole⟩ := exists_trim t
  calc trim (t ++ tail) = trim (indent t ++ trim t ++ (rest ++ tail)) := by
        rw [← List.append_assoc, ← whole]
    _ = trim t := trim_append (blanks_indent t) (trimmed_trim t) (blanks_append blank' blank)

theorem indent_append_blanks (filled : trim t ≠ []) : indent (t ++ tail) = indent t := by
  obtain ⟨rest, -, whole⟩ := exists_trim t
  calc indent (t ++ tail) = indent (indent t ++ trim t ++ (rest ++ tail)) := by
        rw [← List.append_assoc, ← whole]
    _ = indent t := indent_eq (blanks_indent t) (trimmed_trim t) filled

theorem trim_dropReturn (row : Text) : trim (dropReturn row) = trim row := by
  obtain ⟨tail, blank, whole⟩ := exists_dropReturn row
  rw [congrArg trim whole, trim_append_blanks blank]

theorem indent_dropReturn {row : Text} (filled : trim row ≠ []) :
    indent (dropReturn row) = indent row := by
  obtain ⟨tail, -, whole⟩ := exists_dropReturn row
  rw [congrArg indent whole, indent_append_blanks]
  rwa [trim_dropReturn]

end ArrayReplay.Text
