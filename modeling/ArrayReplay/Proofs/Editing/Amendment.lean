import ArrayReplay.Proofs.Editing.Exchange
import ArrayReplay.Proofs.Replay.Elements
import ArrayReplay.Proofs.Text.Rows

namespace ArrayReplay

namespace Program

theorem ofLines_append (n : Nat) (above below : List Text) :
    ofLines n (above ++ below) = ofLines n above ++ ofLines (n + above.length) below := by
  induction above generalizing n with
  | nil => rfl
  | cons row more ih =>
    simp only [List.cons_append, ofLines, ih, List.append_assoc, List.length_cons]
    rw [Nat.add_assoc, Nat.add_comm 1]

theorem ofLines_of_blank {rows : List Text} (n : Nat)
    (blank : ∀ row ∈ rows, isBlankOrComment row = true) : ofLines n rows = [] := by
  induction rows generalizing n with
  | nil => rfl
  | cons row more ih =>
    obtain ⟨here, later⟩ := List.forall_mem_cons.mp blank
    simp only [ofLines, step?, here, ih (n + 1) later, if_true, Option.toList_none,
      List.append_nil]

theorem ne_nil_of_get? {program : Program} {name : Text} {a : ArrayValue}
    (found : program.environment.get? name = some a) : program ≠ [] := by
  intro empty
  rw [empty] at found
  cases found

theorem replay_append_unreadable (p : Program) {rest : Program}
    (unread : ∀ step ∈ rest, ∃ line, step.statement = .unreadable line) :
    replay (p ++ rest) = replay p := by
  have idle : ∀ env, environmentFrom env rest = env ∧ diagnosticsFrom env rest = [] := by
    intro env
    induction rest with
    | nil => exact ⟨rfl, rfl⟩
    | cons step more ih =>
      obtain ⟨⟨line, same⟩, later⟩ := List.forall_mem_cons.mp unread
      have still : env.execute step = (env, none) := by simp [Environment.execute, same,
        Environment.apply]
      rw [environmentFrom_cons, diagnosticsFrom, still]
      exact ih later
  simp only [replay, replayFrom_eq, environmentFrom_append, diagnosticsFrom_append, idle,
    List.append_nil]

end Program

namespace WriteBack
open Grammar Program

variable {name literal new : Text} {index : Nat} {v : Value} {rows : List Text}

theorem statement?_eq_some {row : Text} {s : Statement} (found : statement? row = some s) :
    isBlankOrComment row = false ∧ Statement.ofLine row = s := by
  unfold statement? at found
  split at found
  · cases found
  · next counts => exact ⟨by simpa using counts, Option.some.inj found⟩

theorem isUpdate_eq_true {row : Text} (found : isUpdate name index row = true) :
    ∃ i w, Statement.ofLine row = .update name i w ∧ i.toInt = index := by
  obtain ⟨s, isStatement, updates⟩ := (Option.any_eq_true _ _).mp found
  rw [(statement?_eq_some isStatement).2]
  cases s with
  | update target i w =>
    simp only [Statement.updates, Bool.and_eq_true, beq_iff_eq] at updates
    obtain ⟨rfl, here⟩ := updates
    exact ⟨i, w, rfl, here⟩
  | _ => cases updates

/-- Behind every update of the element a row moves the elements. -/
def Outdated (name : Text) (index : Nat) (rows : List Text) : Prop :=
  ∀ front row back, rows = front ++ row :: back → isUpdate name index row = true →
    ∃ r ∈ back, isReshape name r = true

theorem outdated_of_amend?_eq_none (none : amend? name index literal rows = none) :
    Outdated name index rows := by
  induction rows with
  | nil => simp [Outdated]
  | cons row more ih =>
    intro front r back split updates
    unfold amend? at none
    cases rest : amend? name index literal more with
    | some amended => simp [rest] at none
    | none =>
      cases front with
      | cons first front =>
        obtain ⟨-, rfl⟩ := List.cons.inj split
        exact ih rest front r back rfl updates
      | nil =>
        obtain ⟨rfl, rfl⟩ := List.cons.inj split
        simp only [rest, updates, Bool.true_and] at none
        simpa using none

theorem isUpdate_eq_false (none : amend? name index literal rows = none)
    (still : ∀ row ∈ rows, isReshape name row = false) :
    ∀ row ∈ rows, isUpdate name index row = false := by
  intro row member
  obtain ⟨front, back, split⟩ := List.append_of_mem member
  cases updates : isUpdate name index row with
  | false => rfl
  | true =>
    obtain ⟨r, behind, reshapes⟩ := outdated_of_amend?_eq_none none front row back split updates
    rw [still r (by simp [split, behind])] at reshapes
    cases reshapes

theorem amend?_eq_some {amended : List Text} (found : amend? name index literal rows = some amended) :
    ∃ front row back, rows = front ++ row :: back ∧
      amended = front ++ exchange literal row :: back ∧ isUpdate name index row = true ∧
      ∀ r ∈ back, isReshape name r = false ∧ isUpdate name index r = false := by
  induction rows generalizing amended with
  | nil => cases found
  | cons row more ih =>
    unfold amend? at found
    cases rest : amend? name index literal more with
    | some changed =>
      simp only [rest, Option.some.injEq] at found
      obtain ⟨front, row', back, rfl, rfl, updates, spared⟩ := ih rest
      exact ⟨row :: front, row', back, rfl, found.symm, updates, spared⟩
    | none =>
      simp only [rest] at found
      split at found
      · next here =>
        simp only [Bool.and_eq_true, Bool.not_eq_true'] at here
        have still : ∀ r ∈ more, isReshape name r = false := by
          intro r member
          simpa using List.any_eq_false.mp here.2 r member
        have others := isUpdate_eq_false rest still
        exact ⟨[], row, more, rfl, (Option.some.inj found).symm, here.1,
          fun r member => ⟨still r member, others r member⟩⟩
      · cases found

theorem follow?_eq_none (none : follow? new rows = none) :
    ∀ row ∈ rows, isBlankOrComment row = true := by
  induction rows with
  | nil => exact List.forall_mem_nil _
  | cons row more ih =>
    unfold follow? at none
    cases rest : follow? new more with
    | some followed => simp [rest] at none
    | none =>
      refine List.forall_mem_cons.mpr ⟨?_, ih rest⟩
      simp only [rest] at none
      split at none
      · assumption
      · cases none

theorem follow?_eq_some {followed : List Text} (found : follow? new rows = some followed) :
    ∃ front row back, rows = front ++ row :: back ∧ isBlankOrComment row = false ∧
      followed = front ++ row :: new :: back ∧ ∀ r ∈ back, isBlankOrComment r = true := by
  induction rows generalizing followed with
  | nil => cases found
  | cons row more ih =>
    unfold follow? at found
    cases rest : follow? new more with
    | some changed =>
      simp only [rest, Option.some.injEq] at found
      obtain ⟨front, row', back, rfl, counts, rfl, blank⟩ := ih rest
      exact ⟨row :: front, row', back, rfl, counts, found.symm, blank⟩
    | none =>
      simp only [rest] at found
      split at found
      · cases found
      · next counts =>
        exact ⟨[], row, more, rfl, by simpa using counts, (Option.some.inj found).symm,
          follow?_eq_none rest⟩

theorem spares_of_rows {n : Nat}
    (spared : ∀ row ∈ rows, isReshape name row = false ∧ isUpdate name index row = false) :
    ∀ step ∈ ofLines n rows, Environment.Spares name index step.statement := by
  intro step member
  obtain ⟨row, here, counts, same⟩ := mem_ofLines member
  have isStatement : statement? row = some (Statement.ofLine row) := by
    simp only [statement?, counts, Bool.false_eq_true, if_false]
  have parts := spared row here
  rw [isReshape, isUpdate, isStatement, ← same] at parts
  exact parts

theorem written_of_amend? {amended : List Text} (writable : v.Writable)
    (unbroken : Text.Unbroken rows) (found : amend? name index v.text rows = some amended) :
    Written name index v (ofLines 1 rows) (ofSource (Text.ofRows amended)) := by
  obtain ⟨front, row, back, rfl, rfl, updates, spared⟩ := amend?_eq_some found
  obtain ⟨i, w, reads, here⟩ := isUpdate_eq_true updates
  have isLiteral := Value.isLiteral_text writable
  have fits := Value.feed_not_mem_literal isLiteral writable
  obtain ⟨isSentence, indent, parts⟩ := exchange_update reads isLiteral
  have inRow : '\n' ∉ row := unbroken row (by simp)
  have inNew : '\n' ∉ exchange v.text row := by
    intro member
    rcases parts '\n' member with old | new
    · exact inRow old
    · exact fits new
  have step := step?_of_sentence (1 + front.length) (Statement.sentence_of_ofLine reads rfl)
  have step' := step?_of_sentence (1 + front.length) isSentence
  rw [indent] at step'
  rw [ofSource_eq, Text.rows_ofRows (by simp) (Text.unbroken_replace inNew unbroken), ofLines_append,
    ofLines_append]
  simp only [ofLines, step, step', Option.toList_some, List.singleton_append]
  exact .amended here (spares_of_rows spared)

/-- Only rows that do not count stand behind the new one, so its step is the last. -/
theorem ofSource_of_follow? {followed : List Text} (fits : '\n' ∉ new)
    (unbroken : Text.Unbroken rows) (found : follow? new rows = some followed) :
    ∃ n, ofSource (Text.ofRows followed) = ofLines 1 rows ++ (step? n new).toList := by
  obtain ⟨front, row, back, rfl, -, rfl, blank⟩ := follow?_eq_some found
  rw [List.append_cons front row back] at unbroken ⊢
  rw [List.append_cons front row (new :: back)]
  generalize front ++ [row] = above at unbroken ⊢
  refine ⟨1 + above.length, ?_⟩
  rw [ofSource_eq, Text.rows_ofRows (by simp) (Text.unbroken_insert fits unbroken), ofLines_append,
    ofLines_append]
  simp only [ofLines, ofLines_of_blank _ blank, List.append_nil]

theorem written_of_follow? {followed : List Text} {i : Int64} (plain : IsPlainName name)
    (writable : v.Writable) (here : i.toInt = index) (unbroken : Text.Unbroken rows)
    (found : follow? (updateRow name index v.text) rows = some followed) :
    Written name index v (ofLines 1 rows) (ofSource (Text.ofRows followed)) := by
  have isLiteral := Value.isLiteral_text writable
  have inLiteral := Value.feed_not_mem_literal isLiteral writable
  have fits := @feed_not_mem_updateRow name v.text index plain.1 inLiteral
  obtain ⟨n, program⟩ := ofSource_of_follow? fits unbroken found
  rw [program, step?_of_sentence n (sentence_updateRow plain here isLiteral)]
  exact .appended here

theorem written_ofSource {source : Text} {i : Int64} (plain : IsPlainName name)
    (writable : v.Writable) (here : i.toInt = index) (filled : ofSource source ≠ []) :
    Written name index v (ofSource source) (ofSource (write source name index v)) := by
  have unbroken := Text.unbroken_rows source
  rw [ofSource_eq source] at filled ⊢
  cases amends : amend? name index v.text (Text.rows source) with
  | some amended =>
    simp only [write, amends]
    exact written_of_amend? writable unbroken amends
  | none =>
    cases follows : follow? (updateRow name index v.text) (Text.rows source) with
    | some followed =>
      simp only [write, amends, follows]
      exact written_of_follow? plain writable here unbroken follows
    | none => exact absurd (ofLines_of_blank 1 (follow?_eq_none follows)) filled

theorem isUpdate_keyword (k : Kind) (index : Nat) (row : Text) :
    isUpdate k.keyword index row = false := by
  cases updates : isUpdate k.keyword index row with
  | false => rfl
  | true =>
    obtain ⟨i, w, reads, -⟩ := isUpdate_eq_true updates
    have plain : IsPlainName k.keyword := by
      apply Statement.exists_operation_iff.mp
      refine ⟨row, ?_⟩
      rw [reads]
      exact ⟨rfl, rfl⟩
    exact absurd rfl (plain.2 k)

theorem amend?_keyword (k : Kind) (index : Nat) (literal : Text) (rows : List Text) :
    amend? k.keyword index literal rows = none := by
  induction rows with
  | nil => rfl
  | cons row more ih =>
    unfold amend?
    rw [ih, isUpdate_keyword]
    rfl

theorem ofSource_write_keyword {source : Text} (k : Kind) (index : Nat) (writable : v.Writable)
    (filled : ofSource source ≠ []) :
    ∃ rest, ofSource (write source k.keyword index v) = ofSource source ++ rest ∧
      ∀ step ∈ rest, ∃ line, step.statement = .unreadable line := by
  rw [ofSource_eq source] at filled ⊢
  have amends := amend?_keyword k index v.text (Text.rows source)
  cases follows : follow? (updateRow k.keyword index v.text) (Text.rows source) with
  | none => exact absurd (ofLines_of_blank 1 (follow?_eq_none follows)) filled
  | some followed =>
    have isLiteral := Value.isLiteral_text writable
    have inLiteral := Value.feed_not_mem_literal isLiteral writable
    have fits := @feed_not_mem_updateRow _ _ index (Statement.isName_keyword k) inLiteral
    obtain ⟨n, program⟩ := ofSource_of_follow? fits (Text.unbroken_rows source) follows
    simp only [write, amends, follows, program]
    refine ⟨_, rfl, ?_⟩
    intro step member
    have same := (step?_eq_some (Option.mem_toList.mp member)).2
    exact ⟨_, same.trans (ofLine_updateRow_keyword k index v.text)⟩

end WriteBack
end ArrayReplay
