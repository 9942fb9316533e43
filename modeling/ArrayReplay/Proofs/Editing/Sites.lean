import ArrayReplay.Proofs.Editing.Amendment

/-! Where an element is written. The place of a value in a source depends on the array and the position
and not on the value: it is a row with a hole for a literal, of which nothing else changes, or a row of
its own. Whatever stands in the hole, the next value finds it there, so that of all values written to
an element the last alone is left. -/
namespace ArrayReplay

theorem Text.blanks_of_trim {t : Text} (empty : trim t = []) : Blanks t := by
  obtain ⟨tail, blank, whole⟩ := exists_trim t
  rw [empty, List.append_nil] at whole
  rw [whole]
  exact blanks_append (blanks_indent t) blank

namespace WriteBack
open Grammar Program

variable {name literal new source row : Text} {index : Nat} {i : Int64} {v w : Value}
  {rows above below : List Text} {hole : Text → List Text}

theorem isUpdate_of_sentence (isSentence : Sentence (Text.trim row) (.update name i v))
    (here : i.toInt = index) : isUpdate name index row = true := by
  unfold isUpdate statement?
  rw [isBlankOrComment_of_sentence isSentence, Statement.ofLine_of_sentence isSentence]
  simp [Statement.updates, here]

theorem spared_of_blank (blank : ∀ row ∈ rows, isBlankOrComment row = true) :
    ∀ row ∈ rows, isReshape name row = false ∧ isUpdate name index row = false := by
  intro row member
  simp [isReshape, isUpdate, statement?, blank row member]

theorem amend?_of_outdated (outdated : Outdated name index rows) (literal : Text) :
    amend? name index literal rows = none := by
  cases amends : amend? name index literal rows with
  | none => rfl
  | some amended =>
    obtain ⟨front, row, back, split, -, updates, spared⟩ := amend?_eq_some amends
    obtain ⟨r, behind, reshapes⟩ := outdated front row back split updates
    rw [(spared r behind).1] at reshapes
    cases reshapes

theorem outdated_of_spared
    (spared : ∀ row ∈ rows, isReshape name row = false ∧ isUpdate name index row = false) :
    Outdated name index rows := by
  intro front row back split updates
  rw [(spared row (by simp [split])).2] at updates
  cases updates

theorem amend?_of_split (updates : isUpdate name index row = true)
    (spared : ∀ r ∈ below, isReshape name r = false ∧ isUpdate name index r = false)
    (literal : Text) : amend? name index literal (above ++ row :: below) =
      some (above ++ exchange literal row :: below) := by
  induction above with
  | nil =>
    have last := amend?_of_outdated (outdated_of_spared spared) literal
    have calm : below.any (isReshape name) = false := List.any_eq_false.mpr fun r member => by
      simp [(spared r member).1]
    simp [amend?, last, updates, calm]
  | cons first above ih => simp [amend?, ih]

theorem write_of_amend? {amended : List Text}
    (amends : amend? name index v.text (Text.rows source) = some amended) :
    write source name index v = Text.ofRows amended := by
  simp only [write, amends]

theorem follow?_of_blank (blank : ∀ row ∈ rows, isBlankOrComment row = true) (new : Text) :
    follow? new rows = none := by
  induction rows with
  | nil => rfl
  | cons row more ih =>
    obtain ⟨here, later⟩ := List.forall_mem_cons.mp blank
    simp [follow?, ih later, here]

theorem follow?_of_split (counts : isBlankOrComment row = false)
    (blank : ∀ r ∈ below, isBlankOrComment r = true) (new : Text) :
    follow? new (above ++ row :: below) = some (above ++ row :: new :: below) := by
  induction above with
  | nil => simp [follow?, follow?_of_blank blank, counts]
  | cons first above ih => simp [follow?, ih]

theorem exchange_updateRow (isName : IsName name) (here : i.toInt = index)
    (isLiteral : IsLiteral literal v) (new : Text) :
    exchange new (updateRow name index literal) = updateRow name index new := by
  have absent : '=' ∉ name ++ '[' :: Numeral.ofNat index ++ [']', ' '] := by
    simp [sign_not_mem_name isName, sign_not_mem_integer (isInteger_ofNat index here)]
  have gap : Gap [' '] := List.forall_mem_singleton.mpr (.inl rfl)
  have exchanged := @exchange_eq _ _ _ [] _ ';' absent gap isLiteral (.inl rfl) new
  simpa [updateRow] using exchanged

/-- Where a value for `name[index]` goes: the rows of a source, with a hole for the literal. It is the
literal of the last update of the element, if no row behind moves the elements; else it is in a new
row behind the last that counts, or at the end when none does. Of a blank source nothing is kept. -/
inductive Site (name : Text) (index : Nat) (source : Text) : (Text → List Text) → Prop where
  | amended {above below : List Text} {before old after : Text} {i : Int64} {w : Value} :
      Text.rows source = above ++ (before ++ old ++ after) :: below →
      IsLiteral old w → i.toInt = index →
      (∀ literal v, IsLiteral literal v →
        Statement.ofLine (before ++ literal ++ after) = .update name i v) →
      (∀ row ∈ below, isReshape name row = false ∧ isUpdate name index row = false) →
      Site name index source fun literal => above ++ (before ++ literal ++ after) :: below
  | added {above below : List Text} {row : Text} :
      Text.rows source = above ++ row :: below → isBlankOrComment row = false →
      (∀ r ∈ below, isBlankOrComment r = true) → Outdated name index (Text.rows source) →
      Site name index source fun literal => above ++ row :: updateRow name index literal :: below
  | appended : (∀ row ∈ Text.rows source, isBlankOrComment row = true) → ¬ Text.Blanks source →
      Site name index source fun literal => Text.rows source ++ [updateRow name index literal]
  | alone : Text.Blanks source →
      Site name index source fun literal => [updateRow name index literal]

theorem Site.length_le (site : Site name index source hole) (literal : Text) :
    (hole literal).length ≤ (Text.rows source).length + 1 := by
  cases site with
  | amended whole => simp [whole]
  | added whole =>
    simp only [whole, List.length_append, List.length_cons]
    omega
  | appended blank filled => simp
  | alone blank => simp

/-- A site for every value, in which the next value is written to the same hole. -/
structure Stable (name : Text) (index : Nat) (source : Text) (hole : Text → List Text) : Prop where
  site : Site name index source hole
  amends : ∀ {literal v}, IsLiteral literal v → ∀ new,
    amend? name index new (hole literal) = some (hole new)
  rows_write : ∀ {v : Value}, v.Writable →
    Text.rows (write source name index v) = hole v.text

theorem stable_of_update (whole : Text.rows source = above ++ row :: below)
    (updates : isUpdate name index row = true)
    (spared : ∀ r ∈ below, isReshape name r = false ∧ isUpdate name index r = false) :
    ∃ hole, Stable name index source hole := by
  obtain ⟨i, w, reads, here⟩ := isUpdate_eq_true updates
  obtain ⟨before, old, after, cut, isOld, slot⟩ := exists_slot reads
  have exchanged (new : Text) : exchange new row = before ++ new ++ after := by
    rw [congrArg (exchange new) cut, (slot old w isOld).2.2]
  refine ⟨fun literal => above ++ (before ++ literal ++ after) :: below, ?_, ?_, ?_⟩
  · refine .amended (cut ▸ whole) isOld here (fun literal v isLiteral => ?_) spared
    exact Statement.ofLine_of_sentence (slot literal v isLiteral).1
  · intro literal v isLiteral new
    obtain ⟨isSentence, -, exchanged⟩ := slot literal v isLiteral
    rw [amend?_of_split (isUpdate_of_sentence isSentence here) spared, exchanged]
  · intro v writable
    have isLiteral := Value.isLiteral_text writable
    have inRow : '\n' ∉ row := Text.unbroken_rows source row (by simp [whole])
    have fits : '\n' ∉ before ++ v.text ++ after := by
      have inLiteral := Value.feed_not_mem_literal isLiteral writable
      rw [cut] at inRow
      simp only [List.mem_append, not_or] at inRow ⊢
      exact ⟨⟨inRow.1.1, inLiteral⟩, inRow.2⟩
    have unbroken := Text.unbroken_rows source
    rw [whole] at unbroken
    have amends := @amend?_of_split _ _ index above _ updates spared v.text
    rw [← whole, exchanged] at amends
    rw [write_of_amend? amends]
    exact Text.rows_ofRows (by simp) (Text.unbroken_replace fits unbroken)

section
variable (plain : IsPlainName name) (here : i.toInt = index)
include plain here

theorem isUpdate_updateRow (isLiteral : IsLiteral literal v) :
    isUpdate name index (updateRow name index literal) = true :=
  isUpdate_of_sentence (sentence_updateRow plain here isLiteral) here

theorem amend?_updateRow (blank : ∀ r ∈ below, isBlankOrComment r = true)
    (isLiteral : IsLiteral literal v) (new : Text) :
    amend? name index new (above ++ updateRow name index literal :: below) =
      some (above ++ updateRow name index new :: below) := by
  rw [amend?_of_split (isUpdate_updateRow plain here isLiteral) (spared_of_blank blank),
    exchange_updateRow plain.1 here isLiteral]

theorem stable_of_counts (whole : Text.rows source = above ++ row :: below)
    (counts : isBlankOrComment row = false) (blank : ∀ r ∈ below, isBlankOrComment r = true)
    (outdated : Outdated name index (Text.rows source)) :
    ∃ hole, Stable name index source hole := by
  refine ⟨_, .added whole counts blank outdated, fun isLiteral new => ?_, fun {v} writable => ?_⟩
  · rw [List.append_cons, List.append_cons above row (updateRow name index new :: below)]
    exact amend?_updateRow plain here blank isLiteral new
  · have unbroken := Text.unbroken_rows source
    have inLiteral := Value.feed_not_mem_literal (Value.isLiteral_text writable) writable
    simp only [write, amend?_of_outdated outdated]
    rw [whole, List.append_cons] at unbroken
    rw [whole, follow?_of_split counts blank]
    dsimp only
    rw [List.append_cons above row (updateRow name index v.text :: below)]
    exact Text.rows_ofRows (by simp)
      (Text.unbroken_insert (feed_not_mem_updateRow plain.1 inLiteral) unbroken)

theorem stable_of_blank (blank : ∀ row ∈ Text.rows source, isBlankOrComment row = true) :
    ∃ hole, Stable name index source hole := by
  have outdated : Outdated name index (Text.rows source) :=
    outdated_of_spared (spared_of_blank blank)
  by_cases empty : Text.Blanks source
  · refine ⟨_, .alone empty, fun isLiteral new => ?_, fun {v} writable => ?_⟩
    · exact @amend?_updateRow name _ index i _ [] [] plain here (List.forall_mem_nil _) isLiteral new
    · have inLiteral := Value.feed_not_mem_literal (Value.isLiteral_text writable) writable
      simp only [write, amend?_of_outdated outdated, follow?_of_blank blank,
        Text.trim_of_blanks empty, List.isEmpty_nil, if_true]
      exact Text.rows_of_not_mem (feed_not_mem_updateRow plain.1 inLiteral)
  · have filled : (Text.trim source).isEmpty = false := by
      cases trimmed : Text.trim source with
      | nil => exact absurd (Text.blanks_of_trim trimmed) empty
      | cons c rest => rfl
    refine ⟨_, .appended blank empty, fun isLiteral new => ?_, fun {v} writable => ?_⟩
    · exact amend?_updateRow plain here (List.forall_mem_nil _) isLiteral new
    · have inLiteral := Value.feed_not_mem_literal (Value.isLiteral_text writable) writable
      have unbroken := Text.unbroken_rows source
      rw [← List.append_nil (Text.rows source)] at unbroken
      simp only [write, amend?_of_outdated outdated, follow?_of_blank blank, filled,
        Bool.false_eq_true, if_false]
      exact Text.rows_ofRows (by simp)
        (Text.unbroken_insert (feed_not_mem_updateRow plain.1 inLiteral) unbroken)

theorem exists_stable (source : Text) : ∃ hole, Stable name index source hole := by
  cases amends : amend? name index [] (Text.rows source) with
  | some amended =>
    obtain ⟨above, row, below, whole, -, updates, spared⟩ := amend?_eq_some amends
    exact stable_of_update whole updates spared
  | none =>
    cases follows : follow? [] (Text.rows source) with
    | some followed =>
      obtain ⟨above, row, below, whole, counts, -, blank⟩ := follow?_eq_some follows
      exact stable_of_counts plain here whole counts blank (outdated_of_amend?_eq_none amends)
    | none => exact stable_of_blank plain here (follow?_eq_none follows)

/-- Of two values written to an element, the second alone is left. -/
theorem write_write (writable : v.Writable) (writable' : w.Writable) (source : Text) :
    write (write source name index v) name index w = write source name index w := by
  obtain ⟨hole, stable⟩ := exists_stable plain here source
  have amends := stable.amends (Value.isLiteral_text writable) w.text
  rw [← stable.rows_write writable] at amends
  rw [write_of_amend? amends, ← stable.rows_write writable', Text.ofRows_rows]

end

/-- A value goes to its site and changes nothing else, and takes the place of the value that was
written there before. -/
theorem write_at_site (plain : IsPlainName name) (fits : (index : Int) ≤ Word.greatest)
    (writable : v.Writable) (writable' : w.Writable) (source : Text) :
    (∃ hole, Site name index source hole ∧
      Text.rows (write source name index v) = hole v.text) ∧
      write (write source name index v) name index w = write source name index w := by
  obtain ⟨i, here⟩ := Word.exists_toInt_eq fits
  obtain ⟨hole, stable⟩ := exists_stable plain here source
  exact ⟨⟨hole, stable.site, stable.rows_write writable⟩,
    write_write plain here writable writable' source⟩

theorem write_at_site_quoted :
    let source := "char w[2] = \"a=\";\n  w[1] =\t'=' ; // w[1] = 'x';\n// w[1]".toList
    let written := "char w[2] = \"a=\";\n  w[1] =\t';' ; // w[1] = 'x';\n// w[1]".toList
    IsPlainName ['w'] ∧ ((1 : Nat) : Int) ≤ Word.greatest ∧ (Value.char ';').Writable ∧
      (Value.char '\'').Writable ∧ write source ['w'] 1 (.char ';') = written ∧
      (∃ hole, Site ['w'] 1 source hole ∧ Text.rows written = hole "';'".toList) ∧
      write written ['w'] 1 (.char '\'') = write source ['w'] 1 (.char '\'') := by
  intro source written
  have plain : IsPlainName ['w'] := by
    refine ⟨Reader.isName_of_all rfl rfl, fun k => ?_⟩
    cases k <;> decide
  have fits : ((1 : Nat) : Int) ≤ Word.greatest := by decide
  have writable : (Value.char ';').Writable := by simp [Value.Writable]
  have writable' : (Value.char '\'').Writable := by simp [Value.Writable]
  have same : write source ['w'] 1 (.char ';') = written := by decide +kernel
  obtain ⟨site, again⟩ := write_at_site plain fits writable writable' source
  rw [same] at site again
  exact ⟨plain, fits, writable, writable', same, site, again⟩

end WriteBack
end ArrayReplay
