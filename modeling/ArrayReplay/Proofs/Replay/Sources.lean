import ArrayReplay.Proofs.Notation.Shapes
import ArrayReplay.Proofs.Replay.Effects

namespace ArrayReplay

open Grammar

theorem Binary64.ofQuotient_ne_nan (s : Bool) (num den : Nat) : ofQuotient s num den ≠ .nan := by
  unfold ofQuotient
  intro same
  split at same
  · cases same
  · cases same

namespace Grammar

theorem ne_nan_of_isLiteral {t : Text} {v : Value} (isLiteral : IsLiteral t v) :
    v ≠ .double .nan := by
  cases isLiteral with
  | int isInteger => nofun
  | char c => nofun
  | double whole fraction some =>
    intro same
    exact Binary64.ofQuotient_ne_nan _ _ _ (Value.double.inj same)

theorem ne_nil_of_isLiteral {t : Text} {v : Value} (isLiteral : IsLiteral t v) : t ≠ [] := by
  cases isLiteral with
  | int isInteger =>
    cases isInteger with
    | mk some digits n => simp [some]
  | double whole fraction some => simp
  | char c => simp

theorem length_flatten_le {pieces : List Text} {t : Text} (spaced : Spaced pieces t) :
    pieces.flatten.length ≤ t.length := by
  induction spaced with
  | nil => exact Nat.le_refl _
  | cons gap rest ih =>
    simp only [List.flatten_cons, List.length_append]
    omega

theorem values_of_items {pieces : List Text} {vs : List Value} (items : Items pieces vs) :
    (∀ v ∈ vs, ∃ t, IsLiteral t v) ∧ vs.length ≤ pieces.flatten.length := by
  induction items with
  | last isLiteral =>
    have filled := List.length_pos_iff.mpr (ne_nil_of_isLiteral isLiteral)
    refine ⟨List.forall_mem_singleton.mpr ⟨_, isLiteral⟩, ?_⟩
    rw [List.flatten_singleton]
    exact filled
  | more isLiteral items ih =>
    have filled := List.length_pos_iff.mpr (ne_nil_of_isLiteral isLiteral)
    refine ⟨List.forall_mem_cons.mpr ⟨⟨_, isLiteral⟩, ih.1⟩, ?_⟩
    simp only [List.flatten_cons, List.length_append, List.length_cons]
    omega

theorem values_of_initializer {kind : Kind} {pieces : List Text} {vs : List Value}
    (isInitializer : Initializer kind pieces vs) :
    (∀ v ∈ vs, ∃ t, IsLiteral t v) ∧ vs.length ≤ pieces.flatten.length := by
  cases isInitializer with
  | @characters content quotes =>
    constructor
    · intro v member
      obtain ⟨c, -, rfl⟩ := List.mem_map.mp member
      exact ⟨_, .char c⟩
    · simp only [List.flatten_cons, List.length_append, List.length_cons, List.length_map]
      omega
  | empty kind => exact ⟨List.forall_mem_nil _, Nat.zero_le _⟩
  | items kind items =>
    obtain ⟨literals, bound⟩ := values_of_items items
    refine ⟨literals, ?_⟩
    simp only [List.flatten_append, List.flatten_cons, List.length_append]
    omega

theorem values_of_form {pieces : List Text} {s : Statement} (form : Form pieces s) :
    (∀ v ∈ s.values, ∃ t, IsLiteral t v) ∧ s.values.length ≤ pieces.flatten.length := by
  cases form with
  | declare blank isName isSize isInitializer =>
    obtain ⟨literals, bound⟩ := values_of_initializer isInitializer
    refine ⟨literals, Nat.le_trans bound ?_⟩
    simp only [List.flatten_append, List.flatten_cons, List.length_append]
    omega
  | update plain isInteger isLiteral =>
    refine ⟨List.forall_mem_singleton.mpr ⟨_, isLiteral⟩, ?_⟩
    simp only [Statement.values, List.flatten_cons, List.length_append, List.length_cons]
    omega
  | insert plain isInteger isLiteral =>
    refine ⟨List.forall_mem_singleton.mpr ⟨_, isLiteral⟩, ?_⟩
    simp only [Statement.values, List.flatten_cons, List.length_append, List.length_cons]
    omega
  | delete plain isInteger word => exact ⟨List.forall_mem_nil _, Nat.zero_le _⟩

end Grammar

theorem Value.coerce_ne_nan {k : Kind} {v : Value} (h : v ≠ .double .nan) :
    v.coerce k ≠ .double .nan := by
  cases k with
  | int => cases v <;> nofun
  | char => cases v <;> nofun
  | double =>
    cases v with
    | int n => exact fun same => Binary64.ofQuotient_ne_nan _ _ _ (Value.double.inj same)
    | double x => exact h
    | char c => exact fun same => Binary64.ofQuotient_ne_nan _ _ _ (Value.double.inj same)

namespace Statement

/-- A line is a sentence for its statement, or its statement brings nothing along. -/
theorem ofLine_sound (line : Text) :
    Sentence (Text.trim line) (ofLine line) ∨
      (ofLine line = .unterminated (Text.trim line) ∨
        ofLine line = .unreadable (Text.trim line)) := by
  rcases ofLine_cases line with ⟨s, reads, rfl⟩ | ⟨-, leftover⟩
  · exact .inl (read_eq_ok_iff.mp reads)
  · exact .inr leftover

theorem values_ofLine (line : Text) :
    (∀ v ∈ (ofLine line).values, ∃ t, IsLiteral t v) ∧
      (ofLine line).values.length ≤ line.length := by
  rcases ofLine_sound line with isSentence | leftover | leftover
  · obtain ⟨pieces, front, gap, tail, form, spaced, -, -, whole⟩ := isSentence
    obtain ⟨literals, bound⟩ := values_of_form form
    refine ⟨literals, ?_⟩
    have inside := length_flatten_le spaced
    have trimmed := Text.length_trim_le line
    rw [whole] at trimmed
    simp only [List.flatten_append, List.length_append] at inside trimmed
    omega
  · rw [leftover]
    exact ⟨List.forall_mem_nil _, Nat.zero_le _⟩
  · rw [leftover]
    exact ⟨List.forall_mem_nil _, Nat.zero_le _⟩

theorem sentence_of_ofLine {line : Text} {s : Statement} (reads : ofLine line = s)
    (known : s.recognized = true) : Sentence (Text.trim line) s := by
  subst reads
  rcases ofLine_sound line with isSentence | leftover | leftover
  · exact isSentence
  · rw [leftover] at known
    cases known
  · rw [leftover] at known
    cases known

theorem ofLine_of_sentence {line : Text} {s : Statement} (isSentence : Sentence (Text.trim line) s) :
    ofLine line = s := by
  have reads := read_eq_ok_iff.mpr isSentence
  simp only [ofLine, reads]

theorem isName_of_declare {line name : Text} {kind : Kind} {size : Int64} {values : List Value}
    (declares : ofLine line = .declare kind name size values) : IsName name := by
  obtain ⟨pieces, front, gap, tail, form, -⟩ := sentence_of_ofLine declares rfl
  cases form with
  | declare blank isName isSize isInitializer => exact isName

end Statement

namespace Program

theorem step?_eq_some {n : Nat} {line : Text} {step : Step} (found : step? n line = some step) :
    isBlankOrComment line = false ∧ step.statement = Statement.ofLine line := by
  unfold step? at found
  split at found
  · cases found
  · next counts =>
    cases found
    exact ⟨by simpa using counts, rfl⟩

theorem isBlankOrComment_of_sentence {row : Text} {s : Statement}
    (isSentence : Sentence (Text.trim row) s) : isBlankOrComment row = false := by
  obtain ⟨x, rest, begins, start⟩ := exists_start isSentence (Text.trimmed_trim row)
  have noSlash : ¬ '/' = x := by
    intro same
    subst same
    exact absurd start (by decide)
  simp [isBlankOrComment, begins, List.isPrefixOf, noSlash]

theorem step?_of_sentence {row : Text} {s : Statement} (n : Nat)
    (isSentence : Sentence (Text.trim row) s) :
    step? n row = some ⟨⟨n, Text.byteSize (Text.indent row) + 1⟩, s⟩ := by
  unfold step?
  rw [isBlankOrComment_of_sentence isSentence, Statement.ofLine_of_sentence isSentence]
  rfl

theorem line_step? {n : Nat} {line : Text} {step : Step} (found : step? n line = some step) :
    step.location.line = n := by
  unfold step? at found
  split at found
  · cases found
  · cases found
    rfl

theorem exists_line_of_mem {n : Nat} {lines : List Text} {step : Step}
    (member : step ∈ ofLines n lines) :
    ∃ i line, lines[i]? = some line ∧ step.location.line = n + i ∧
      isBlankOrComment line = false ∧ step.statement = Statement.ofLine line := by
  induction lines generalizing n with
  | nil => cases member
  | cons line more ih =>
    rcases List.mem_append.mp member with here | later
    · have found := Option.mem_toList.mp here
      exact ⟨0, line, rfl, line_step? found, step?_eq_some found⟩
    · obtain ⟨i, other, place, number, parts⟩ := ih later
      exact ⟨i + 1, other, place, number.trans (by omega), parts⟩

theorem mem_ofLines {n : Nat} {lines : List Text} {step : Step} (member : step ∈ ofLines n lines) :
    ∃ line ∈ lines, isBlankOrComment line = false ∧ step.statement = Statement.ofLine line := by
  obtain ⟨i, line, place, -, parts⟩ := exists_line_of_mem member
  exact ⟨line, List.mem_of_getElem? place, parts⟩

theorem isBlankOrComment_of_trim {line other : Text} (same : Text.trim line = Text.trim other) :
    isBlankOrComment line = isBlankOrComment other := by
  simp only [isBlankOrComment, same]

theorem ofLine_of_trim {line other : Text} (same : Text.trim line = Text.trim other) :
    Statement.ofLine line = Statement.ofLine other := by
  simp only [Statement.ofLine, same]

theorem trim_ne_nil_of_counts {line : Text} (counts : isBlankOrComment line = false) :
    Text.trim line ≠ [] := by
  intro empty
  simp [isBlankOrComment, empty] at counts

theorem step?_dropReturn (n : Nat) (row : Text) : step? n (Text.dropReturn row) = step? n row := by
  have same := Text.trim_dropReturn row
  unfold step?
  rw [isBlankOrComment_of_trim same, ofLine_of_trim same]
  split
  · rfl
  · next counts =>
    rw [Text.indent_dropReturn (trim_ne_nil_of_counts (by simpa using counts))]

theorem ofLines_linesOfRows (n : Nat) (rows : List Text) :
    ofLines n (Text.linesOfRows rows) = ofLines n rows := by
  fun_induction Text.linesOfRows rows generalizing n with
  | case1 => rfl
  | case2 last empty =>
    rw [List.isEmpty_iff.mp empty]
    rfl
  | case3 last filled => rfl
  | case4 row next more ih =>
    simp only [ofLines, step?_dropReturn] at ih ⊢
    rw [ih]

theorem ofSource_eq (source : Text) : ofSource source = ofLines 1 (Text.rows source) :=
  ofLines_linesOfRows 1 (Text.rows source)

def weight : Program → Nat
  | [] => 0
  | step :: more => step.statement.values.length + weight more

theorem weight_append (p q : Program) : weight (p ++ q) = weight p + weight q := by
  induction p with
  | nil => exact (Nat.zero_add _).symm
  | cons step more ih => rw [List.cons_append, weight, weight, ih, Nat.add_assoc]

theorem weight_step?_le (n : Nat) (line : Text) :
    weight (step? n line).toList ≤ line.length := by
  cases found : step? n line with
  | none => exact Nat.zero_le _
  | some step =>
    have := (Statement.values_ofLine line).2
    rw [← (step?_eq_some found).2] at this
    simpa [weight] using this

theorem weight_ofLines_le (n : Nat) (rows : List Text) :
    weight (ofLines n rows) ≤ (Text.ofRows rows).length := by
  induction rows generalizing n with
  | nil => exact Nat.le_refl _
  | cons row more ih =>
    have head := weight_step?_le n row
    have tail := ih (n + 1)
    rw [ofLines, weight_append]
    by_cases empty : more = []
    · subst empty
      simpa [ofLines, weight, Text.ofRows] using head
    · rw [Text.ofRows_cons empty, List.length_append, List.length_cons]
      omega

theorem weight_ofSource_le (source : Text) : weight (ofSource source) ≤ source.length := by
  have bound := weight_ofLines_le 1 (Text.rows source)
  rwa [← ofSource_eq, Text.ofRows_rows] at bound

theorem ne_nan_environment {program : Program} {source : Text} (part : program ⊆ ofSource source) :
    program.environment.All fun _ a => ∀ v ∈ a.elements, v ≠ .double .nan := by
  refine all_environmentFrom (fun s => ∀ v ∈ s.values, v ≠ .double .nan) ?_ program ?_ .empty
    Environment.all_empty
  · intro env s name b numbers all writes v member
    rcases Environment.mem_of_writes writes member with ⟨w, brought, rfl⟩ | ⟨a, found, -, old⟩
    · exact Value.coerce_ne_nan (numbers w brought)
    · exact Environment.get?_of_all all found v old
  · intro step member v brought
    obtain ⟨line, -, -, same⟩ := mem_ofLines (part member)
    rw [same] at brought
    obtain ⟨t, isLiteral⟩ := (Statement.values_ofLine line).1 v brought
    exact ne_nan_of_isLiteral isLiteral

theorem isName_environment {program : Program} {source : Text} (part : program ⊆ ofSource source) :
    program.environment.All fun name _ => IsName name := by
  refine all_environmentFrom
    (fun s => ∀ kind name size values, s = .declare kind name size values → IsName name)
    ?_ program ?_ .empty Environment.all_empty
  · intro env s name b declared all writes
    rcases Environment.name_of_writes writes with ⟨kind, size, values, rfl⟩ | ⟨a, found⟩
    · exact declared kind name size values rfl
    · exact Environment.get?_of_all all found
  · intro step member kind name size values declares
    obtain ⟨line, -, -, same⟩ := mem_ofLines (part member)
    exact Statement.isName_of_declare (same ▸ declares)

theorem length_environmentFrom {k : Nat} (program : Program) (env : Environment)
    (all : env.All fun _ a => a.length ≤ k) :
    (program.environmentFrom env).All fun _ a => a.length ≤ k + weight program := by
  induction program generalizing env k with
  | nil => exact all
  | cons step more ih =>
    have now : (env.apply step.statement).1.All fun _ a =>
        a.length ≤ k + step.statement.values.length := by
      apply Environment.all_apply
      · exact fun e member => Nat.le_trans (all e member) (Nat.le_add_right _ _)
      · intro name b writes
        rcases Environment.length_of_writes writes with new | ⟨a, found, bound⟩
        · omega
        · have := Environment.get?_of_all all found
          omega
    rw [weight, ← Nat.add_assoc]
    exact ih _ now

theorem length_environment (source : Text) :
    (ofSource source).environment.All fun _ a => a.length ≤ source.length := by
  intro e member
  have bound := @length_environmentFrom 0 (ofSource source) .empty Environment.all_empty e member
  have := weight_ofSource_le source
  omega

end Program
end ArrayReplay
