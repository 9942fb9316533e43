import ArrayReplay.Proofs.Editing.Amendment
import ArrayReplay.Proofs.Notation.Assignments
import ArrayReplay.Proofs.Notation.Terminators

/-! Writing an element back as it is. A value that has a literal goes where the element was set, or
behind all statements, and the replay comes out the same. A value that has none spoils the row that
it goes to: what is left of the row, or of the pieces that it breaks into, is no statement, so that an
update that set the element is lost. -/
namespace ArrayReplay

theorem Environment.apply_of_unrecognized {s : Statement} (unknown : s.recognized = false)
    (env : Environment) : (env.apply s).1 = env := by
  cases s with
  | unterminated line => rfl
  | unreadable line => rfl
  | _ => cases unknown

instance (name : Text) (index : Nat) (s : Statement) :
    Decidable (Environment.Spares name index s) :=
  inferInstanceAs (Decidable (_ ∧ _))

namespace Program
open Environment

variable {env : Environment} {rows : List Text} {name : Text} {index : Nat}

theorem environmentFrom_renumber (env : Environment) (n m : Nat) (rows : List Text) :
    environmentFrom env (ofLines n rows) = environmentFrom env (ofLines m rows) := by
  induction rows generalizing env n m with
  | nil => rfl
  | cons row more ih =>
    have same : environmentFrom env (step? n row).toList = environmentFrom env (step? m row).toList := by
      unfold step?
      split
      · rfl
      · rfl
    rw [ofLines, ofLines, environmentFrom_append, environmentFrom_append, same, ih _ (n + 1) (m + 1)]

theorem environmentFrom_of_unrecognized
    (unknown : ∀ row ∈ rows, (Statement.ofLine row).recognized = false) (env : Environment)
    (n : Nat) : environmentFrom env (ofLines n rows) = env := by
  induction rows generalizing n with
  | nil => rfl
  | cons row more ih =>
    obtain ⟨here, later⟩ := List.forall_mem_cons.mp unknown
    have still : environmentFrom env (step? n row).toList = env := by
      unfold step?
      split
      · rfl
      · exact apply_of_unrecognized here env
    rw [ofLines, environmentFrom_append, still, ih later]

theorem environment_ofLines_append (n m : Nat) (above below : List Text) :
    (ofLines n above ++ ofLines m below).environment = (ofLines n (above ++ below)).environment := by
  rw [ofLines_append]
  simp only [environment, environmentFrom_append]
  exact environmentFrom_renumber _ _ _ below

theorem exists_step {row : Text} (member : row ∈ rows) (counts : isBlankOrComment row = false)
    (n : Nat) : ∃ step ∈ ofLines n rows, step.statement = Statement.ofLine row := by
  induction rows generalizing n with
  | nil => cases member
  | cons first more ih =>
    rcases List.mem_cons.mp member with rfl | later
    · have here : step? n row = some ⟨⟨n, Text.byteSize (Text.indent row) + 1⟩, .ofLine row⟩ := by
        simp [step?, counts]
      exact ⟨_, List.mem_append_left _ (Option.mem_toList.mpr here), rfl⟩
    · obtain ⟨step, inside, same⟩ := ih later (n + 1)
      exact ⟨step, List.mem_append_right _ inside, same⟩

/-- The program without the last update of an element, unless a later step moves the elements. -/
def withdraw (name : Text) (index : Nat) : Program → Program
  | [] => []
  | step :: more =>
    if step.statement.updates name index = true ∧ ∀ s ∈ more, Spares name index s.statement then more
    else step :: withdraw name index more

theorem withdraw_of_update {front back : Program} {step : Step}
    (updates : step.statement.updates name index = true)
    (spared : ∀ s ∈ back, Spares name index s.statement) :
    withdraw name index (front ++ step :: back) = front ++ back := by
  induction front with
  | nil => exact if_pos ⟨updates, spared⟩
  | cons first front ih =>
    have later : ¬ ∀ s ∈ front ++ step :: back, Spares name index s.statement := by
      intro spared
      have other := (spared step (by simp)).2
      rw [updates] at other
      cases other
    rw [List.cons_append, withdraw, if_neg fun h => later h.2, ih]
    rfl

end Program

namespace WriteBack
open Grammar Program Environment

variable {name literal : Text} {index : Nat} {v : Value} {rows : List Text}

theorem withdraw_of_amend?_eq_none (none : amend? name index literal rows = none) (n : Nat) :
    withdraw name index (ofLines n rows) = ofLines n rows := by
  induction rows generalizing n with
  | nil => rfl
  | cons row more ih =>
    unfold amend? at none
    cases rest : amend? name index literal more with
    | some amended => simp [rest] at none
    | none =>
      have later := ih rest (n + 1)
      unfold ofLines
      cases found : step? n row with
      | none => exact later
      | some step =>
        obtain ⟨counts, same⟩ := step?_eq_some found
        -- An update here would be changed, so one of the later rows moves its element.
        have moved : ¬ (step.statement.updates name index = true ∧
            ∀ s ∈ ofLines (n + 1) more, Spares name index s.statement) := by
          rintro ⟨updates, spared⟩
          have isUpdate : isUpdate name index row = true := by
            simpa [isUpdate, statement?, counts, same] using updates
          simp only [rest, isUpdate, Bool.true_and] at none
          obtain ⟨r, member, reshapes⟩ : ∃ r ∈ more, isReshape name r = true := by simpa using none
          obtain ⟨s, isStatement, moves⟩ := (Option.any_eq_true _ _).mp reshapes
          obtain ⟨counts', rfl⟩ := statement?_eq_some isStatement
          obtain ⟨step', inside, same'⟩ := exists_step member counts' (n + 1)
          have still := (spared step' inside).1
          rw [same', moves] at still
          cases still
        rw [Option.toList_some, List.singleton_append, withdraw, if_neg moved, later]

variable {front gap after : Text}

theorem not_sentence_of_quote {t : Text} {s : Statement} :
    ¬ Sentence (Text.trim ('\'' :: t)) s := by
  intro isSentence
  have head : ∀ c, ([] ++ ['\'']).head? = some c → Text.isBlank c = false := by
    intro c first
    cases first
    decide
  obtain ⟨kept, tail, -, same⟩ :=
    @Text.exists_trim_visible [] [] '\'' (List.forall_mem_nil _) head (by decide) t
  obtain ⟨x, rest, begins, start⟩ := exists_start isSentence (Text.trimmed_trim _)
  cases begins.symm.trans same
  cases start

/-- Behind an equals sign the text of a value that cannot be written makes no statement, and the pieces
of a broken row make none either. -/
theorem unread_of_unwritable (unwritable : ¬ v.Writable)
    (unbroken : '\n' ∉ front ++ '=' :: (gap ++ after)) (blank : Text.Blanks gap)
    (opens : ∀ body s, Sentence (Text.trim (front ++ '=' :: body)) s → Opens body) :
    ∀ row ∈ Text.rows (front ++ '=' :: (gap ++ (v.text ++ after))),
      (Statement.ofLine row).recognized = false := by
  intro row member
  rw [Statement.recognized_eq_false_iff]
  intro s isSentence
  obtain ⟨inFront, inGap, inAfter⟩ : '\n' ∉ front ∧ '\n' ∉ gap ∧ '\n' ∉ after := by
    simpa using unbroken
  cases v with
  | int n => exact unwritable trivial
  | double x =>
    have inText : '\n' ∉ x.text := by
      cases x with
      | finite => exact absurd trivial unwritable
      | nan => decide
      | infinite s => cases s <;> decide
    rw [Value.text, Text.rows_of_not_mem (by simp [inFront, inGap, inText, inAfter])] at member
    obtain rfl := List.mem_singleton.mp member
    exact not_opens_of_unwritable unwritable blank after (opens _ s isSentence)
  | char c =>
    obtain rfl : c = '\n' := Classical.byContradiction unwritable
    have split : front ++ '=' :: (gap ++ ((Value.char '\n').text ++ after)) =
        (front ++ '=' :: (gap ++ ['\''])) ++ '\n' :: ('\'' :: after) := by simp [Value.text]
    rw [split, Text.rows_append_feed (by simp [inFront, inGap]),
      Text.rows_of_not_mem (by simp [inAfter])] at member
    rcases List.mem_pair.mp member with rfl | rfl
    · exact not_opens_quote blank (opens _ s isSentence)
    · exact not_sentence_of_quote isSentence

theorem exists_exchange {row : Text} {i : Int64} {w : Value}
    (reads : Statement.ofLine row = .update name i w) :
    ∃ front gap after, (∀ literal, exchange literal row = front ++ '=' :: (gap ++ (literal ++ after))) ∧
      Text.Blanks gap ∧ (∀ c ∈ front ++ '=' :: (gap ++ after), c ∈ row) ∧
      ∀ body s, Sentence (Text.trim (front ++ '=' :: body)) s → Opens body := by
  obtain ⟨front, rest, rfl, absent, opens⟩ := exists_sign reads
  have apart := Text.bne_of_not_mem absent
  let value := Text.trimStart rest
  have whole : Text.indent rest ++ value = rest := Text.indent_append_trimStart rest
  refine ⟨front, Text.indent rest, value.drop (literalLength value), fun literal => ?_,
    Text.blanks_indent rest, ?_, opens⟩
  · unfold exchange
    rw [Text.dropWhile_exact apart (by decide), Text.takeWhile_exact apart (by decide)]
    simp [value]
  · intro c member
    rw [← whole]
    simp only [List.mem_append, List.mem_cons] at member ⊢
    rcases member with early | rfl | blank | late
    · exact .inl early
    · exact .inr (.inl rfl)
    · exact .inr (.inr (.inl blank))
    · exact .inr (.inr (.inr (List.mem_of_mem_drop late)))

theorem cut_of_updateRow {body : Text} {s : Statement} (plain : IsPlainName name)
    (isSentence : Sentence
      (Text.trim (name ++ '[' :: (Numeral.ofNat index ++ [']', ' ']) ++ '=' :: body)) s) :
    (∃ i : Int64, i.toInt = index) ∧ Opens body := by
  have spaced : Spaced [name, '[' :: (Numeral.ofNat index ++ [']', ' '])]
      (name ++ '[' :: (Numeral.ofNat index ++ [']', ' '])) := by
    simpa using Spaced.cons (List.forall_mem_nil _) (.cons (List.forall_mem_nil _) .nil)
  have absent : '=' ∉ Numeral.ofNat index ++ [']', ' '] := by
    have digits : '=' ∉ Numeral.ofNat index := fun member => by
      cases Numeral.digits_ofNat index '=' member
    simp [digits]
  have head : ∀ c, (name ++ '[' :: (Numeral.ofNat index ++ [']', ' '])).head? = some c →
      Text.isBlank c = false := by
    obtain ⟨x, rest, rfl, start, -⟩ := Reader.isName_iff.mp plain.1
    intro c first
    cases first
    exact isBlank_eq_false_of_isNameStart start
  obtain ⟨closes, opens⟩ :=
    @cut_of_row name _ _ body s [] (List.forall_mem_nil _) plain spaced absent head isSentence
  exact ⟨closes_ofNat closes, opens⟩

theorem unread_updateRow (plain : IsPlainName name)
    (odd : ¬ v.Writable ∨ Word.greatest < (index : Int)) :
    ∀ row ∈ Text.rows (updateRow name index v.text), (Statement.ofLine row).recognized = false := by
  have row_eq : updateRow name index v.text =
      name ++ '[' :: (Numeral.ofNat index ++ [']', ' ']) ++ '=' :: ([' '] ++ (v.text ++ [';'])) := by
    simp [updateRow]
  by_cases writable : v.Writable
  · have large := odd.resolve_left (not_not_intro writable)
    have inLiteral := Value.feed_not_mem_literal (Value.isLiteral_text writable) writable
    rw [Text.rows_of_not_mem (feed_not_mem_updateRow plain.1 inLiteral)]
    refine List.forall_mem_singleton.mpr (Statement.recognized_eq_false_iff.mpr fun s isSentence => ?_)
    rw [row_eq] at isSentence
    obtain ⟨⟨i, here⟩, -⟩ := cut_of_updateRow plain isSentence
    have small := Word.toInt_le_greatest i
    omega
  · rw [row_eq]
    refine unread_of_unwritable writable ?_ (by simp [Text.Blanks]; decide) fun body s isSentence =>
      (cut_of_updateRow plain isSentence).2
    have digits := Value.feed_not_mem_digits (Numeral.digits_ofNat index)
    simp [feed_not_mem_name plain.1, digits]

/-- A row, or the rows that it breaks into, may be left out when no statement stands there. -/
theorem environment_insert {above below : List Text} {new : Text}
    (unread : ∀ row ∈ Text.rows new, (Statement.ofLine row).recognized = false)
    (unbroken : Text.Unbroken (above ++ below)) :
    (ofSource (Text.ofRows (above ++ new :: below))).environment =
      (ofLines 1 (above ++ below)).environment := by
  obtain ⟨before, behind⟩ := Text.unbroken_append.mp unbroken
  rw [ofSource_eq, Text.rows_ofRows_eq_flatMap (by simp), List.flatMap_append, List.flatMap_cons,
    Text.flatMap_rows before, Text.flatMap_rows behind, ofLines_append, ofLines_append,
    ← environment_ofLines_append 1 (1 + above.length + (Text.rows new).length)]
  simp only [environment, environmentFrom_append, environmentFrom_of_unrecognized unread]

theorem environment_write_unread {source : Text} (plain : IsPlainName name)
    (odd : ¬ v.Writable ∨ Word.greatest < (index : Int)) (filled : ofSource source ≠ [])
    (none : amend? name index v.text (Text.rows source) = none) :
    (ofSource (write source name index v)).environment = (ofSource source).environment := by
  have unbroken := Text.unbroken_rows source
  rw [ofSource_eq source] at filled ⊢
  cases follows : follow? (updateRow name index v.text) (Text.rows source) with
  | none => exact absurd (ofLines_of_blank 1 (follow?_eq_none follows)) filled
  | some followed =>
    obtain ⟨front, row, back, whole, -, rfl, -⟩ := follow?_eq_some follows
    simp only [write, none, follows]
    rw [whole, List.append_cons front row back] at unbroken
    rw [whole, List.append_cons front row back, List.append_cons front row (_ :: back)]
    exact environment_insert (unread_updateRow plain odd) unbroken

theorem environment_write_unwritable {source : Text} (plain : IsPlainName name)
    (unwritable : ¬ v.Writable) (filled : ofSource source ≠ []) :
    (ofSource (write source name index v)).environment =
      ((ofSource source).withdraw name index).environment := by
  cases amends : amend? name index v.text (Text.rows source) with
  | none =>
    rw [environment_write_unread plain (.inl unwritable) filled amends, ofSource_eq source,
      withdraw_of_amend?_eq_none amends]
  | some amended =>
    have unbroken := Text.unbroken_rows source
    obtain ⟨front, row, back, whole, rfl, updates, spared⟩ := amend?_eq_some amends
    obtain ⟨i, w, reads, here⟩ := isUpdate_eq_true updates
    obtain ⟨start, gap, after, exchanged, blank, parts, opens⟩ := exists_exchange reads
    rw [whole] at unbroken
    have inRow : '\n' ∉ start ++ '=' :: (gap ++ after) :=
      fun member => unbroken row (by simp) (parts _ member)
    have unread := unread_of_unwritable unwritable inRow blank opens
    rw [← exchanged] at unread
    have others : Text.Unbroken (front ++ back) := by
      obtain ⟨before, behind⟩ := Text.unbroken_append.mp unbroken
      exact Text.unbroken_append.mpr ⟨before, (Text.unbroken_cons.mp behind).2⟩
    have step := step?_of_sentence (1 + front.length) (Statement.sentence_of_ofLine reads rfl)
    have updates' : Statement.updates name index (.update name i w) = true := by
      simp [Statement.updates, here]
    simp only [write, amends]
    rw [environment_insert unread others, ofSource_eq source, whole,
      ofLines_append 1 front (row :: back)]
    simp only [ofLines, step, Option.toList_some, List.singleton_append]
    rw [withdraw_of_update updates' (spares_of_rows spared)]
    exact (environment_ofLines_append _ _ front back).symm

theorem amend?_of_large (large : Word.greatest < (index : Int)) (literal : Text) (rows : List Text) :
    amend? name index literal rows = none := by
  cases amends : amend? name index literal rows with
  | none => rfl
  | some amended =>
    obtain ⟨front, row, back, -, -, updates, -⟩ := amend?_eq_some amends
    obtain ⟨i, w, -, here⟩ := isUpdate_eq_true updates
    have small := Word.toInt_le_greatest i
    omega

variable {source : Text} {a : ArrayValue} {e : Value}

theorem environment_write_writable (plain : IsPlainName name)
    (found : (ofSource source).environment.get? name = some a) (element : a.get? index = some e)
    (writable : e.Writable) :
    (ofSource (write source name index e)).environment = (ofSource source).environment := by
  have filled := ne_nil_of_get? found
  by_cases fits : (index : Int) ≤ Word.greatest
  · obtain ⟨i, here⟩ := Word.exists_toInt_eq fits
    have kind : e.kind = a.kind := get?_of_all (uniform_environment _) found e
      (List.mem_of_getElem? element)
    obtain ⟨inside, -⟩ := List.getElem?_eq_some_iff.mp element
    have replaced := (replay_of_written (written_ofSource plain writable here filled) found inside kind).1
    rw [replaced, replace_self found element]
  · have large : Word.greatest < (index : Int) := Int.not_le.mp fits
    exact environment_write_unread plain (.inr large) filled (amend?_of_large large _ _)

/-- An element that can be written is written back without a change to the environment. One that has
no literal is a line feed or an infinity; writing it back withdraws the update that stands for it. -/
theorem write_back_environment (source name : Text) (index : Nat) (a : ArrayValue) (e : Value)
    (noKeyword : ∀ k : Kind, name ≠ k.keyword)
    (found : (ofSource source).environment.get? name = some a) (element : a.get? index = some e) :
    let p := ofSource source
    let q := ofSource (write source name index e)
    (e.Writable → q.environment = p.environment) ∧
      (¬ e.Writable → (e = .char '\n' ∨ ∃ negative, e = .double (.infinite negative)) ∧
        q.environment = (p.withdraw name index).environment) ∧
      (e.Writable ↔ '\n' ∉ e.text ∧ ∃ v d, Reader.Reads Reader.literal (Cursor.start e.text) v d ∧
        d.ahead = [] ∧ v.coerce a.kind = e) := by
  intro p q
  have plain : IsPlainName name :=
    ⟨get?_of_all (isName_environment (List.Subset.refl _)) found, noKeyword⟩
  have member := List.mem_of_getElem? element
  refine ⟨environment_write_writable plain found element, fun unwritable => ⟨?_, ?_⟩, ?_⟩
  · have number : e ≠ .double .nan :=
      get?_of_all (ne_nan_environment (List.Subset.refl _)) found e member
    cases e with
    | int n => exact absurd trivial unwritable
    | char c => exact .inl (congrArg Value.char (Classical.byContradiction unwritable))
    | double x =>
      cases x with
      | nan => exact absurd rfl number
      | infinite negative => exact .inr ⟨negative, rfl⟩
      | finite => exact absurd trivial unwritable
  · exact environment_write_unwritable plain unwritable (ne_nil_of_get? found)
  · exact Value.writable_iff_reads (get?_of_all (uniform_environment _) found e member)

/-- The code 10 is stored in a character array. The other element is written back; this one is lost. -/
theorem write_back_environment_feed :
    let source := "char c[2] = \"xy\";\nc[0] = 10;".toList
    let p := ofSource source
    (∀ k : Kind, ['c'] ≠ k.keyword) ∧
      p.environment.get? ['c'] = some ⟨.char, [.char '\n', .char 'y']⟩ ∧
      (ofSource (write source ['c'] 1 (.char 'y'))).environment = p.environment ∧
      (ofSource (write source ['c'] 0 (.char '\n'))).environment =
        (p.withdraw ['c'] 0).environment ∧
      (p.withdraw ['c'] 0).environment.get? ['c'] = some ⟨.char, [.char 'x', .char 'y']⟩ := by
  intro source p
  have noKeyword : ∀ k : Kind, ['c'] ≠ k.keyword := by
    intro k
    cases k <;> decide
  have found : p.environment.get? ['c'] = some ⟨.char, [.char '\n', .char 'y']⟩ := by
    decide +kernel
  have writable : (Value.char 'y').Writable := by simp [Value.Writable]
  have unwritable : ¬ (Value.char '\n').Writable := by simp [Value.Writable]
  refine ⟨noKeyword, found, ?_, ?_, by decide +kernel⟩
  · exact (write_back_environment source ['c'] 1 _ (.char 'y') noKeyword found rfl).1 writable
  · exact ((write_back_environment source ['c'] 0 _ (.char '\n') noKeyword found rfl).2.1
      unwritable).2

/-- Not every element is restored: a line feed between quotes ends its row. -/
theorem not_restored_feed : ¬ ∀ source name index a e, (∀ k : Kind, name ≠ k.keyword) →
    (ofSource source).environment.get? name = some a → a.get? index = some e →
    (ofSource (write source name index e)).environment = (ofSource source).environment := by
  intro restored
  have noKeyword : ∀ k : Kind, ['c'] ≠ k.keyword := by
    intro k
    cases k <;> decide
  have same := restored "char c[1] = \"x\";\nc[0] = 10;".toList ['c'] 0 ⟨.char, [.char '\n']⟩
    (.char '\n') noKeyword (by decide +kernel) rfl
  exact absurd same (by decide +kernel)

end WriteBack
end ArrayReplay
